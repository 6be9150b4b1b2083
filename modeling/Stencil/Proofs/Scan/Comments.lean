import Stencil.Proofs.Scan.Places

/-!
# A comment put into a template

Outside of all tags, and under the usual braces, a comment can be put into a template. The scan of
the longer template delivers the comment besides, perhaps in the middle of a text that it cuts in
two, and otherwise the same tokens in other lines (`Scan.Between.commented`). No marker straddles the
place, since the text before it does not end with a brace.
-/

namespace Stencil

/-- The tokens of a template without and with comments. A comment may cut a text in two. -/
inductive Token.Commented : List Token → List Token → Prop
  | nil : Commented [] []
  | cons {token token' : Token} {tokens tokens' : List Token} : token.Alike token' →
      Commented tokens tokens' → Commented (token :: tokens) (token' :: tokens')
  | comment {comment : Token} {tokens tokens' : List Token} : comment.kind = .commentTag →
      Commented tokens tokens' → Commented tokens (comment :: tokens')
  | cut {whole first comment second : Token} {tokens tokens' : List Token} : whole.kind = .text →
      first.kind = .text → comment.kind = .commentTag → second.kind = .text →
      whole.content = first.content ++ second.content → Commented tokens tokens' →
      Commented (whole :: tokens) (first :: comment :: second :: tokens')

theorem Token.Commented.of_alike {tokens tokens' : List Token}
    (alikes : List.Forall₂ Token.Alike tokens tokens') : Commented tokens tokens' := by
  induction alikes with
  | nil => exact .nil
  | cons alike _ ih => exact .cons alike ih

theorem Token.Commented.refl (tokens : List Token) : Commented tokens tokens :=
  .of_alike (List.forall₂_same.mpr fun token _ => .refl token)

/-! ## Comments -/

/-- The text of a comment. The first closing marker behind it is its own. -/
structure Text.IsComment (comment : List Char) : Prop where
  unclosed : ¬ ['\x7d', '\x7d'] <:+: comment
  last : ¬ ['\x7d'] <:+ comment

def Text.comment (comment : List Char) : List Char :=
  ['\x7b', '\x7b', '!'] ++ comment ++ ['\x7d', '\x7d']

theorem Text.IsComment.throughout {comment rest : List Char} (isComment : Text.IsComment comment) :
    Throughout (fun text => ¬ Delimiters.braces.closesAt .plain text) comment
      (['\x7d', '\x7d'] ++ rest) := by
  induction comment with
  | nil => trivial
  | cons c comment ih =>
      refine ⟨?_, ih ⟨fun inside => isComment.unclosed ?_, fun last => isComment.last ?_⟩⟩
      · rintro ⟨-, closing⟩
        have closing : ['\x7d', '\x7d'] <+: c :: (comment ++ '\x7d' :: '\x7d' :: rest) := by
          simpa [Delimiters.closing, Delimiters.braces] using closing
        obtain ⟨rfl, second⟩ := List.cons_prefix_cons.mp closing
        cases comment with
        | nil => exact isComment.last (List.suffix_refl _)
        | cons d comment =>
            obtain ⟨rfl, -⟩ := List.cons_prefix_cons.mp second
            exact isComment.unclosed ⟨[], comment, rfl⟩
      · exact inside.trans (List.suffix_cons _ _).isInfix
      · exact last.trans (List.suffix_cons _ _)

def Token.ofComment (comment : List Char) (template : Option String) : Token where
  kind := .commentTag
  content := String.ofList comment
  delimiters := .braces
  location := ⟨1, template⟩
  start := 0
  source := String.ofList (Text.comment comment)

theorem Token.ofComment_isTag {comment : List Char} (isComment : Text.IsComment comment)
    (template : Option String) (rest : List Char) :
    (ofComment comment template).IsTag .braces .plain ('!' :: comment) rest where
  source := by
    simp [ofComment, Text.comment, Delimiters.opening, Delimiters.closing, Delimiters.braces]
  delimiters := rfl
  opens := by
    simp [ofComment, Text.comment, Delimiters.opensAt?, Delimiters.opens?, Delimiters.opening,
      Delimiters.braces]
  unclosed := by
    refine ⟨?_, isComment.throughout⟩
    simp [Delimiters.closesAt, Delimiters.closing, Delimiters.braces]
  closes := by simp [Delimiters.closesAt, Delimiters.closing, Delimiters.braces]
  means := by
    have after : Delimiters.braces.after (ofComment comment template) = .braces := rfl
    rw [after]
    apply Means.plain
    simp [ofComment, classify, Kind.ofSigil?]

namespace Scan

variable {s next last : Scan} {tokens tokens' : List Token} {ending : Ending}
variable {comment behind : List Char}

/-! ## At the place itself -/

theorem opensAt?_comment (comment rest : List Char) :
    Delimiters.braces.opensAt? (Text.comment comment ++ rest) = some .plain := by
  simp [Text.comment, Delimiters.opensAt?, Delimiters.opens?, Delimiters.opening, Delimiters.braces]

theorem rest_extend (read : s.rest = []) (tail : List Char) : (s.extend tail).rest = tail := by
  simp [extend, read]

theorem passes_comment (isComment : Text.IsComment comment) (read : s.rest = [])
    (mode : s.mode = .gap) (braces : s.delimiters = .braces) (behind : List Char) :
    ∃ token next, token.kind = .commentTag ∧
      (s.extend (Text.comment comment ++ behind)).Passes token next ∧ next.delimiters = .braces ∧
      next.rest = behind := by
  have isTag := Token.ofComment_isTag isComment s.template behind
  rw [← braces] at isTag
  have rest : (s.extend (Text.comment comment ++ behind)).rest =
      (Token.ofComment comment s.template).source.toList ++ behind := by
    simp [rest_extend read, Token.ofComment]
  obtain ⟨token, next, alike, passes, delimiters, left⟩ :=
    passes_tag (s := s.extend (Text.comment comment ++ behind)) mode isTag rest rfl
  exact ⟨token, next, alike.kind.symm, passes, delimiters.trans braces, left⟩

theorem Gives.comment_gap (gives : (s.extend behind).Gives tokens ending)
    (isComment : Text.IsComment comment) (read : s.rest = []) (mode : s.mode = .gap)
    (unseen : s.seen = []) (braces : s.delimiters = .braces) :
    ∃ token tokens' ending', token.kind = .commentTag ∧
      (s.extend (Text.comment comment ++ behind)).Gives (token :: tokens') ending' ∧
      List.Forall₂ Token.Alike tokens tokens' ∧ ending.Alike ending' := by
  obtain ⟨token, next, kind, passes, delimiters, rest⟩ :=
    passes_comment isComment read mode braces behind
  have shifted : (s.extend behind).Shifted next :=
    ⟨passes.template, delimiters.trans braces.symm, passes.mode.trans mode.symm,
      passes.seen.trans unseen.symm, rest.trans (rest_extend read behind).symm⟩
  obtain ⟨tokens', ending', gives', alikes, ends⟩ := gives.shifted shifted
  exact ⟨token, tokens', ending', kind, passes.gives gives', alikes, ends⟩

theorem passes_text_end (read : s.rest = []) (mode : s.mode = .text) {tail : List Char}
    (ends : tail = [] ∨ s.delimiters.opensAt? tail ≠ none) :
    (s.extend tail).Passes s.textToken (s.gap.extend tail) := by
  rw [← rest_extend read tail] at ends
  have under : (s.extend tail).mode = .text := mode
  exact passes_full under ends

theorem passes_text_comment (read : s.rest = []) (mode : s.mode = .text)
    (braces : s.delimiters = .braces) (comment behind : List Char) :
    (s.extend (Text.comment comment ++ behind)).Passes s.textToken
      (s.gap.extend (Text.comment comment ++ behind)) := by
  refine passes_text_end read mode (.inr ?_)
  rw [braces, opensAt?_comment]
  exact Option.some_ne_none _

theorem Gives.comment_end (gives : (s.extend behind).Gives tokens ending)
    (isComment : Text.IsComment comment) (read : s.rest = []) (mode : s.mode = .text)
    (braces : s.delimiters = .braces) (ends : behind = [] ∨ s.delimiters.opensAt? behind ≠ none) :
    ∃ tokens' ending', (s.extend (Text.comment comment ++ behind)).Gives tokens' ending' ∧
      Token.Commented tokens tokens' ∧ ending.Alike ending' := by
  have marked : (s.gap.extend behind).delimiters.Marked := by
    change s.delimiters.Marked
    rw [braces]
    exact .inl (by decide)
  obtain ⟨later, ending', after⟩ := exists_gives marked
  obtain ⟨rfl, rfl⟩ := gives.unique ((passes_text_end read mode ends).gives after)
  obtain ⟨token, later', ending', kind, gives', alikes, alike⟩ :=
    after.comment_gap isComment read rfl rfl braces
  exact ⟨_, ending', (passes_text_comment read mode braces comment behind).gives gives',
    .cons (.refl _) (.comment kind (.of_alike alikes)), alike⟩

theorem CutBehind.commented {earlier : List Char} {first comment : Token}
    (cut : CutBehind earlier tokens tokens') (text : first.kind = .text)
    (content : first.content = String.ofList earlier.reverse) (kind : comment.kind = .commentTag) :
    Token.Commented tokens (first :: comment :: tokens') := by
  cases cut with
  | text whole second same alikes =>
      rw [← content] at same
      exact .cut whole text kind second same (.of_alike alikes)

theorem Gives.comment_within {c : Char} {after : List Char}
    (gives : (s.extend (c :: after)).Gives tokens ending) (isComment : Text.IsComment comment)
    (read : s.rest = []) (mode : s.mode = .text) (braces : s.delimiters = .braces)
    (clear : s.delimiters.opensAt? (c :: after) = none) :
    ∃ tokens' ending', (s.extend (Text.comment comment ++ c :: after)).Gives tokens' ending' ∧
      Token.Commented tokens tokens' ∧ ending.Alike ending' := by
  have goes : (s.extend (c :: after)).step = .on ((s.extend (c :: after)).pass c after) :=
    step_eq (.continued mode (rest_extend read _) (by rw [rest_extend read]; exact clear))
  obtain ⟨token, next, kind, passes, delimiters, left⟩ :=
    passes_comment (s := s.gap) isComment read rfl braces (c :: after)
  have begins : next.step = .on { next.pass c after with mode := .text, startLine := next.line } := by
    refine step_eq (.begun passes.mode left ?_)
    rw [left, delimiters, ← braces, clear]
  have later : Later s.seen ((s.extend (c :: after)).pass c after)
      { next.pass c after with mode := .text, startLine := next.line } :=
    { template := passes.template
      delimiters := delimiters.trans braces.symm
      mode := mode
      mode' := rfl
      seen := by simp [pass, passes.seen, extend]
      rest := rfl }
  obtain ⟨tokens', ending', gives', cut, alike⟩ := (gives.of_on goes).later later
  have first := passes_text_comment read mode braces comment (c :: after)
  exact ⟨_, ending', first.gives (passes.gives (.on begins gives')), cut.commented rfl rfl kind, alike⟩

theorem Gives.comment_text (gives : (s.extend behind).Gives tokens ending)
    (isComment : Text.IsComment comment) (read : s.rest = []) (mode : s.mode = .text)
    (braces : s.delimiters = .braces) :
    ∃ tokens' ending', (s.extend (Text.comment comment ++ behind)).Gives tokens' ending' ∧
      Token.Commented tokens tokens' ∧ ending.Alike ending' := by
  cases behind with
  | nil => exact gives.comment_end isComment read mode braces (.inl rfl)
  | cons c after =>
      by_cases opens : s.delimiters.opensAt? (c :: after) = none
      · exact gives.comment_within isComment read mode braces opens
      · exact gives.comment_end isComment read mode braces (.inr opens)

/-! ## Up to the place -/

def Goes (s next : Scan) : Prop :=
  s.step = .on next ∨ ∃ token, s.step = .token token next

theorem Goes.rest_suffix (goes : s.Goes next) : next.rest <:+ s.rest := by
  have taken := s.step_taken
  rcases goes with action | ⟨token, action⟩
  · rw [action] at taken
    cases taken with
    | within mode hrest => exact ⟨[_], hrest.symm⟩
    | opened => exact List.drop_suffix _ _
    | begun mode hrest => exact ⟨[_], hrest.symm⟩
    | continued mode hrest => exact ⟨[_], hrest.symm⟩
  · rw [action] at taken
    cases taken with
    | trailing => exact List.suffix_refl _
    | closed => exact List.drop_suffix _ _
    | interrupted => exact List.drop_suffix _ _

theorem Goes.underway (goes : s.Goes next) (underway : s.Underway) : next.Underway := by
  rcases goes with action | ⟨token, action⟩
  · exact (underway.on action).1
  · exact (underway.delivers action).underway

theorem Goes.stop_ne (goes : s.Goes next) (filled : s.delimiters.stop ≠ "") :
    next.delimiters.stop ≠ "" := by
  have taken := s.step_taken
  rcases goes with action | ⟨token, action⟩
  · rw [action] at taken
    cases taken <;> exact filled
  · rw [action] at taken
    cases taken with
    | trailing => exact filled
    | closed mode closes means => exact means.stop_ne filled
    | interrupted => exact filled

abbrev Reaches : Scan → Scan → Prop :=
  Relation.ReflTransGen Goes

def walk : Nat → Scan → Scan
  | 0, s => s
  | steps + 1, s =>
    match s.step with
    | .on next => walk steps next
    | .token _ next => walk steps next
    | _ => s

theorem reaches_walk (steps : Nat) (s : Scan) : s.Reaches (walk steps s) := by
  induction steps generalizing s with
  | zero => exact .refl
  | succ steps ih =>
      cases action : s.step with
      | finished => simpa [walk, action] using .refl
      | failed error => simpa [walk, action] using .refl
      | on next =>
          simp only [walk, action]
          exact .head (.inl action) (ih next)
      | token token next =>
          simp only [walk, action]
          exact .head (.inr ⟨token, action⟩) (ih next)

theorem Reaches.rest_suffix (reaches : s.Reaches last) : last.rest <:+ s.rest := by
  induction reaches using Relation.ReflTransGen.head_induction_on with
  | refl => exact List.suffix_refl _
  | head goes _ ih => exact ih.trans goes.rest_suffix

structure Apart (behind : List Char) (s : Scan) : Prop where
  rest : s.rest = behind
  mode : ∀ form, s.mode ≠ .tag form
  braces : s.delimiters = .braces

theorem exists_extend (reaches : s.Reaches last) (apart : last.Apart behind) :
    ∃ before : Scan, s = before.extend behind := by
  obtain ⟨text, split⟩ := reaches.rest_suffix
  exact ⟨{ s with rest := text }, by simp [extend, ← apart.rest, split]⟩

/-- The scan looks no further ahead than what is left, or it is so close to the end of that that it
might. In the latter case no tag is under way. -/
def Sighted (s : Scan) : Prop :=
  s.Room ∨ (∀ form, s.mode ≠ .tag form) ∧ s.delimiters = .braces ∧ s.rest.length ≤ 2

theorem outside_gap (mode : s.mode = .gap) : ∀ form, s.mode ≠ .tag form := by
  simp [mode]

theorem outside_text (mode : s.mode = .text) : ∀ form, s.mode ≠ .tag form := by
  simp [mode]

theorem Sighted.back (sighted : next.Sighted) (outside : ∀ form, s.mode ≠ .tag form)
    (outside' : ∀ form, next.mode ≠ .tag form) (delimiters : next.delimiters = s.delimiters)
    (shorter : next.rest.length ≤ s.rest.length) (longer : s.rest.length ≤ next.rest.length + 1) :
    s.Sighted := by
  rcases sighted with room | ⟨-, braces, few⟩
  · have fits := (room_iff outside').mp room
    rw [delimiters] at fits
    exact .inl ((room_iff outside).mpr (fits.trans_le shorter))
  · have braces : s.delimiters = .braces := delimiters.symm.trans braces
    have close : s.rest.length ≤ 3 := longer.trans (Nat.succ_le_succ few)
    rcases close.lt_or_eq with close | far
    · exact .inr ⟨outside, braces, Nat.le_of_lt_succ close⟩
    · left
      rw [room_iff outside, braces, far]
      decide

theorem Sighted.tag {form : TagForm} (sighted : s.Sighted) (mode : s.mode = .tag form) :
    s.rest ≠ [] ∧ (s.delimiters.closing form).length ≤ s.rest.length := by
  rcases sighted with room | ⟨outside, -⟩
  · exact ⟨room.unread, room.tag mode⟩
  · exact absurd mode (outside form)

theorem Sighted.opened {form : TagForm} {text : List Char} (sighted : next.Sighted)
    (outside : ∀ form, s.mode ≠ .tag form) (opens : s.delimiters.opensAt? text = some form)
    (tag : next.mode = .tag form)
    (shorter : next.rest.length + (s.delimiters.opening form).length ≤ s.rest.length) :
    s.Sighted := by
  have unread := List.length_pos_of_ne_nil (sighted.tag tag).1
  have marker := Delimiters.start_le_opening opens
  refine .inl ((room_iff outside).mpr ?_)
  omega

theorem sighted_inside {form : TagForm} (mode : s.mode = .tag form) (unread : 0 < s.rest.length)
    (fits : (s.delimiters.closing form).length ≤ s.rest.length) : s.Sighted := by
  left
  simp only [Room, mode]
  exact ⟨List.ne_nil_of_length_pos unread, fits⟩

theorem Goes.sighted (goes : (s.extend behind).Goes (next.extend behind))
    (filled : s.delimiters.stop ≠ "") (sighted : next.Sighted) : s.Sighted := by
  generalize hwhole : next.extend behind = whole at goes
  have delimiters : next.delimiters = whole.delimiters := hwhole ▸ rfl
  have mode' : next.mode = whole.mode := hwhole ▸ rfl
  have rest : next.rest ++ behind = whole.rest := hwhole ▸ rfl
  have lengths : next.rest.length + behind.length = whole.rest.length := by
    rw [← rest, List.length_append]
  have taken := (s.extend behind).step_taken
  have passes {c : Char} {after : List Char} (hrest : s.rest ++ behind = c :: after)
      (left : whole.rest = after) : s.rest.length = next.rest.length + 1 := by
    have before := congrArg List.length hrest
    rw [List.length_append, List.length_cons, ← left, ← lengths] at before
    omega
  have drops {marker : List Char} (unread : next.rest ≠ [])
      (left : whole.rest = (s.rest ++ behind).drop marker.length) :
      next.rest.length + marker.length ≤ s.rest.length := by
    rw [left, List.length_drop, List.length_append] at lengths
    have positive := List.length_pos_of_ne_nil unread
    omega
  rcases goes with action | ⟨token, action⟩
  · rw [action] at taken
    cases taken with
    | @within form c after mode hrest =>
        have inside : s.mode = .tag form := mode
        have fits : (s.delimiters.closing form).length ≤ next.rest.length := by
          have fits := (sighted.tag (mode'.trans mode)).2
          rwa [delimiters] at fits
        have shorter := passes hrest rfl
        exact sighted_inside inside (by omega) (by omega)
    | opened mode opens =>
        have shorter := drops (sighted.tag mode').1 rfl
        exact sighted.opened (outside_gap mode) opens mode' shorter
    | begun mode hrest =>
        have shorter := passes hrest rfl
        exact sighted.back (outside_gap mode) (outside_text mode') delimiters (by omega) (by omega)
    | continued mode hrest =>
        have shorter := passes hrest rfl
        exact sighted.back (outside_text mode) (outside_text (mode'.trans mode)) delimiters (by omega)
          (by omega)
  · rw [action] at taken
    cases taken with
    | trailing mode hrest =>
        have same : next.rest = s.rest := List.append_cancel_right rest
        exact sighted.back (outside_text mode) (outside_gap mode') delimiters (by rw [same])
          (by rw [same]; exact Nat.le_succ _)
    | @closed form _ _ d mode closes =>
        have inside : s.mode = .tag form := mode
        have marked : 0 < (s.delimiters.closing form).length := Delimiters.closing_pos form filled
        have fits := (Delimiters.closing_isPrefix closes).length_le
        change (s.delimiters.closing form).length ≤ (s.rest ++ behind).length at fits
        change _ = ((s.rest ++ behind).drop (s.delimiters.closing form).length).length at lengths
        rw [List.length_append] at fits
        rw [List.length_drop, List.length_append] at lengths
        exact sighted_inside inside (by omega) (by omega)
    | interrupted mode opens =>
        have shorter := drops (sighted.tag mode').1 rfl
        exact sighted.opened (outside_text mode) opens mode' shorter

theorem Reaches.sighted (reaches : (s.extend behind).Reaches last) (apart : last.Apart behind)
    (filled : s.delimiters.stop ≠ "") : s.Sighted := by
  generalize hwhole : s.extend behind = whole at reaches
  induction reaches using Relation.ReflTransGen.head_induction_on generalizing s with
  | refl =>
      subst hwhole
      have read : s.rest = [] := by simpa [extend] using apart.rest
      exact .inr ⟨apart.mode, apart.braces, by simp [read]⟩
  | @head whole next goes reaches ih =>
      subst hwhole
      obtain ⟨before, rfl⟩ := exists_extend reaches apart
      exact goes.sighted filled (@ih before (goes.stop_ne filled) rfl)

theorem opensAt?_braces_short {text : List Char} (few : text.length ≤ 2)
    (unread : text ≠ []) (seam : ¬ ['\x7b'] <:+ text) (tail : List Char) :
    Delimiters.braces.opensAt? (text ++ tail) = none := by
  cases opens : Delimiters.braces.opensAt? (text ++ tail) with
  | none => rfl
  | some form =>
      have marker : ['\x7b', '\x7b'] <+: Delimiters.braces.opening form := by cases form <;> decide
      have starts := marker.trans (Delimiters.opening_isPrefix opens)
      match text with
      | [c] =>
          obtain ⟨rfl, -⟩ := List.cons_prefix_cons.mp starts
          exact absurd (List.suffix_refl _) seam
      | [c, d] =>
          obtain ⟨-, second⟩ := List.cons_prefix_cons.mp starts
          obtain ⟨rfl, -⟩ := List.cons_prefix_cons.mp second
          exact absurd ⟨[c], rfl⟩ seam

theorem Sighted.step_extend (sighted : s.Sighted) (unread : s.rest ≠ [])
    (seam : ¬ ['\x7b'] <:+ s.rest) (tail : List Char) : (s.extend tail).step = s.step.extend tail := by
  rcases sighted with room | ⟨outside, braces, few⟩
  · exact Scan.step_extend room tail
  · have clear (tail : List Char) : s.delimiters.opensAt? (s.rest ++ tail) = none := by
      rw [braces]
      exact opensAt?_braces_short few unread seam tail
    have here : s.delimiters.opensAt? s.rest = none := by simpa using clear []
    obtain ⟨c, rest, hrest⟩ := List.exists_cons_of_ne_nil unread
    have longer : (s.extend tail).rest = c :: (rest ++ tail) := by simp [extend, hrest]
    cases mode : s.mode with
    | gap =>
        rw [step_eq (.begun mode hrest here),
          step_eq (s := s.extend tail) (.begun mode longer (clear tail))]
        rfl
    | text =>
        rw [step_eq (.continued mode hrest here),
          step_eq (s := s.extend tail) (.continued mode longer (clear tail))]
        rfl
    | tag form => exact absurd mode (outside form)

theorem Goes.of_extend (sighted : s.Sighted) (unread : s.rest ≠ []) (seam : ¬ ['\x7b'] <:+ s.rest)
    (goes : (s.extend behind).Goes next) :
    ∃ before, s.Goes before ∧ next = before.extend behind := by
  unfold Goes at goes ⊢
  rw [sighted.step_extend unread seam] at goes
  cases action : s.step with
  | finished => simp [action, Step.extend] at goes
  | failed error => simp [action, Step.extend] at goes
  | on before =>
      simp only [action, Step.extend, Step.on.injEq, reduceCtorEq, exists_false, or_false] at goes
      exact ⟨before, .inl rfl, goes.symm⟩
  | token token before =>
      simp only [action, Step.extend, Step.token.injEq, reduceCtorEq, false_or] at goes
      obtain ⟨_, -, same⟩ := goes
      exact ⟨before, .inr ⟨token, rfl⟩, same.symm⟩

theorem Gives.commented_here (gives : (s.extend behind).Gives tokens ending)
    (isComment : Text.IsComment comment) (read : s.rest = []) (sighted : s.Sighted)
    (underway : (s.extend behind).Underway) :
    ∃ tokens' ending', (s.extend (Text.comment comment ++ behind)).Gives tokens' ending' ∧
      Token.Commented tokens tokens' ∧ ending.Alike ending' := by
  rcases sighted with room | ⟨outside, braces, -⟩
  · exact absurd read room.unread
  · cases mode : s.mode with
    | gap =>
        have unseen : s.seen = [] := by
          cases underway with
          | gap _ unseen => exact unseen
          | text other => cases mode.symm.trans other
          | tag other => cases mode.symm.trans other
        obtain ⟨token, tokens', ending', kind, gives', alikes, ends⟩ :=
          gives.comment_gap isComment read mode unseen braces
        exact ⟨_, ending', gives', .comment kind (.of_alike alikes), ends⟩
    | text => exact gives.comment_text isComment read mode braces
    | tag form => exact absurd mode (outside form)

theorem Gives.commented (gives : (s.extend behind).Gives tokens ending)
    (isComment : Text.IsComment comment) (reaches : (s.extend behind).Reaches last)
    (apart : last.Apart behind) (seam : ¬ ['\x7b'] <:+ s.rest)
    (underway : (s.extend behind).Underway) (filled : s.delimiters.stop ≠ "") :
    ∃ tokens' ending', (s.extend (Text.comment comment ++ behind)).Gives tokens' ending' ∧
      Token.Commented tokens tokens' ∧ ending.Alike ending' := by
  have sighted := reaches.sighted apart filled
  generalize hwhole : s.extend behind = whole at reaches
  induction reaches using Relation.ReflTransGen.head_induction_on generalizing s tokens with
  | refl =>
      subst hwhole
      have read : s.rest = [] := by simpa [extend] using apart.rest
      exact gives.commented_here isComment read sighted underway
  | @head whole next goes reaches ih =>
      subst hwhole
      by_cases read : s.rest = []
      · exact gives.commented_here isComment read sighted underway
      · have underway' := goes.underway underway
        obtain ⟨before, goes', rfl⟩ := goes.of_extend sighted read seam
        have seam' : ¬ ['\x7b'] <:+ before.rest := fun last => seam (last.trans goes'.rest_suffix)
        have filled' := goes'.stop_ne filled
        have step (tail : List Char) := sighted.step_extend read seam tail
        have sighted' := Reaches.sighted reaches apart filled'
        rcases goes' with action | ⟨token, action⟩
        · simp only [action, Step.extend] at step
          obtain ⟨tokens', ending', gives', commented, ends⟩ :=
            ih (gives.of_on (step behind)) seam' underway' filled' sighted' rfl
          exact ⟨tokens', ending', .on (step _) gives', commented, ends⟩
        · simp only [action, Step.extend] at step
          obtain ⟨tokens, rfl, after⟩ := gives.of_token (step behind)
          obtain ⟨tokens', ending', gives', commented, ends⟩ :=
            ih after seam' underway' filled' sighted' rfl
          exact ⟨_, ending', .token (step _) gives', .cons (.refl token) commented, ends⟩

/-! ## Templates -/

/-- Between two parts of a template no tag is under way and the usual braces are in force, unless the
scan fails within the first part. -/
inductive Between (before behind : List Char) (template : Option String) : Prop
  | apart {last : Scan} : Reaches (.ofTemplate (before ++ behind) .braces template) last →
      last.Apart behind → Between before behind template
  | failed {location : Location} :
      (trace (steps before 0) (.ofTemplate before .braces template)).2 =
        .failed ⟨.invalidDelimiters, location⟩ → Between before behind template

theorem Between.commented {before : List Char} {template : Option String}
    (between : Between before behind template) (isComment : Text.IsComment comment)
    (seam : ¬ ['\x7b'] <:+ before) {tokens tokens' : List Token} {ending ending' : Ending}
    (whole : trace (steps (before ++ behind) 0) (.ofTemplate (before ++ behind) .braces template) =
      (tokens, ending))
    (whole' : trace (steps (before ++ (Text.comment comment ++ behind)) 0)
      (.ofTemplate (before ++ (Text.comment comment ++ behind)) .braces template) =
        (tokens', ending')) :
    Token.Commented tokens tokens' ∧ ending.Alike ending' := by
  have marked : Delimiters.braces.Marked := .inl (by decide)
  have ends (text : List Char) := trace_ofTemplate_ne_exhausted text marked template
  cases between with
  | apart reaches apart =>
      have gives := gives_trace (ends (before ++ behind))
      rw [whole] at gives
      have underway : (Scan.ofTemplate (before ++ behind) .braces template).Underway := .gap rfl rfl
      have filled : Delimiters.braces.stop ≠ "" := by decide
      obtain ⟨tokens', ending', gives', commented, alike⟩ :=
        Gives.commented (s := .ofTemplate before .braces template) gives isComment reaches apart seam
          underway filled
      cases whole'.symm.trans (gives'.trace_eq (ends _))
      exact ⟨commented, alike⟩
  | failed failed =>
      have same := whole.symm.trans (trace_append_invalid failed behind)
      have same' := whole'.symm.trans (trace_append_invalid failed (Text.comment comment ++ behind))
      cases same.trans same'.symm
      exact ⟨.refl tokens, .same⟩

end Scan

end Stencil
