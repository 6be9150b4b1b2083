import Mathlib.Data.List.Chain
import Stencil.Proofs.Scan.Trace

namespace Stencil

def Delimiters.after (d : Delimiters) (token : Token) : Delimiters :=
  match token.kind, Text.words token.content.toList with
  | .delimitersTag, [start, stop] => ⟨String.ofList start, String.ofList stop⟩
  | _, _ => d

def Delimiters.inForce (d : Delimiters) (tokens : List Token) : Delimiters :=
  tokens.foldl Delimiters.after d

def Token.sources (tokens : List Token) : String :=
  String.join (tokens.map Token.source)

@[simp] theorem Token.sources_nil : sources [] = "" := rfl

@[simp] theorem Token.sources_cons (token : Token) (tokens : List Token) :
    sources (token :: tokens) = token.source ++ sources tokens :=
  String.join_cons

@[simp] theorem Token.sources_append (before after : List Token) :
    sources (before ++ after) = sources before ++ sources after := by
  simp [sources]

/-- From every character of `cs` on, up to the end of `rest`, the text has a property. -/
def Throughout (P : List Char → Prop) : List Char → List Char → Prop
  | [], _ => True
  | c :: cs, rest => P (c :: cs ++ rest) ∧ Throughout P cs rest

namespace Throughout

variable {P Q : List Char → Prop} {cs rest : List Char}

theorem snoc {c : Char} (before : Throughout P cs (c :: rest)) (here : P (c :: rest)) :
    Throughout P (cs ++ [c]) rest := by
  induction cs with
  | nil => exact ⟨here, trivial⟩
  | cons b cs ih =>
      obtain ⟨first, before⟩ := before
      refine ⟨?_, ih before⟩
      simpa using first

theorem cut {tail : List Char} (weaker : ∀ text, P (text ++ tail) → Q text)
    (all : Throughout P cs (rest ++ tail)) : Throughout Q cs rest := by
  induction cs with
  | nil => trivial
  | cons c cs ih =>
      obtain ⟨first, all⟩ := all
      refine ⟨weaker _ ?_, ih all⟩
      simpa using first

end Throughout

/-! ## What a token says -/

namespace Token

structure IsText (d : Delimiters) (token : Token) (rest : List Char) : Prop where
  kind : token.kind = .text
  content : token.content = token.source
  delimiters : token.delimiters = d
  filled : token.source.toList ≠ []
  clear : Throughout (fun text => d.opensAt? text = none) token.source.toList rest
  ends : rest = [] ∨ d.opensAt? rest ≠ none

structure IsTag (d : Delimiters) (token : Token) (form : TagForm) (interior rest : List Char) :
    Prop where
  source : token.source.toList = d.opening form ++ interior ++ d.closing form
  delimiters : token.delimiters = d
  opens : d.opensAt? (token.source.toList ++ rest) = some form
  unclosed : Throughout (fun text => ¬ d.closesAt form text) interior (d.closing form ++ rest)
  closes : d.closesAt form (d.closing form ++ rest)
  means : Means d form interior token.kind token.content.toList (d.after token)

theorem Kind.plain_of_ofSigil? {c : Char} {kind : Kind} (sigil : Kind.ofSigil? c = some kind) :
    kind ≠ .text ∧ kind ≠ .delimitersTag := by
  unfold ofSigil? at sigil
  split at sigil <;> cases sigil <;> exact ⟨nofun, nofun⟩

inductive Written : TagForm → List Char → Kind → List Char → Prop
  | sigil {c : Char} {kind : Kind} {content : List Char} : Kind.ofSigil? c = some kind →
      Written .plain [c] kind content
  | bare {content : List Char} : (∀ c ∈ content.head?, Kind.ofSigil? c = none) →
      Written .plain [] .variableTag content
  | raw {content : List Char} : Written .raw [] .rawTag content
  | redefining {content : List Char} : Written .redefining [] .delimitersTag content

theorem Means.written {d d' : Delimiters} {form : TagForm} {interior content : List Char}
    {kind : Kind} (means : Means d form interior kind content d') :
    ∃ sigil, interior = sigil ++ content ∧ Written form sigil kind content := by
  cases means with
  | plain classified =>
      cases interior with
      | nil =>
          cases classified
          exact ⟨[], rfl, .bare (by simp)⟩
      | cons c interior =>
          simp only [classify] at classified
          split at classified
          · rename_i sigil
            cases classified
            exact ⟨[c], rfl, .sigil sigil⟩
          · rename_i none
            cases classified
            exact ⟨[], rfl, .bare (by simpa using none)⟩
  | raw => exact ⟨[], rfl, .raw⟩
  | redefining => exact ⟨[], rfl, .redefining⟩

theorem Means.ne_text {d d' : Delimiters} {form : TagForm} {interior content : List Char}
    {kind : Kind} (means : Means d form interior kind content d') : kind ≠ .text := by
  obtain ⟨sigil, -, written⟩ := means.written
  cases written with
  | sigil sigil => exact (Kind.plain_of_ofSigil? sigil).1
  | bare => exact nofun
  | raw => exact nofun
  | redefining => exact nofun

theorem Means.after {d d' : Delimiters} {form : TagForm} {interior content : List Char}
    {token : Token} (means : Means d form interior token.kind content d')
    (same : token.content.toList = content) : d.after token = d' := by
  have written := means.written
  generalize hkind : token.kind = kind at means written
  cases means with
  | plain classified =>
      have other : kind ≠ .delimitersTag := by
        obtain ⟨sigil, -, written⟩ := written
        cases written with
        | sigil sigil => exact (Kind.plain_of_ofSigil? sigil).2
        | bare => exact nofun
      unfold Delimiters.after
      split
      · rename_i delimitersTag _
        exact absurd (hkind.symm.trans delimitersTag) other
      · rfl
  | raw =>
      unfold Delimiters.after
      rw [hkind]
  | redefining words =>
      unfold Delimiters.after
      rw [hkind, same, words]

end Token

inductive Reads : Delimiters → List Char → List Token → Delimiters → List Char → Prop
  | done {d : Delimiters} {rest : List Char} : Reads d rest [] d rest
  | text {d d' : Delimiters} {token : Token} {tokens : List Token} {middle rest : List Char} :
      token.IsText d middle → Reads d middle tokens d' rest →
      Reads d (token.source.toList ++ middle) (token :: tokens) d' rest
  | tag {d d' : Delimiters} {token : Token} {tokens : List Token} {form : TagForm}
      {interior middle rest : List Char} :
      token.IsTag d form interior middle → Reads (d.after token) middle tokens d' rest →
      Reads d (token.source.toList ++ middle) (token :: tokens) d' rest

theorem Token.IsText.opensAt?_eq_none {d : Delimiters} {token : Token} {rest : List Char}
    (isText : token.IsText d rest) : d.opensAt? (token.source.toList ++ rest) = none := by
  have clear := isText.clear
  cases hsource : token.source.toList with
  | nil => exact absurd hsource isText.filled
  | cons c cs =>
      rw [hsource] at clear
      exact clear.1

theorem Token.IsTag.filled {d : Delimiters} {token : Token} {form : TagForm}
    {interior rest : List Char} (isTag : token.IsTag d form interior rest) (marked : d.Marked) :
    token.source.toList ≠ [] := by
  intro empty
  have lengths := congrArg List.length isTag.source
  rw [empty] at lengths
  simp only [List.length_nil, List.length_append] at lengths
  rcases marked with start | stop
  · have := Delimiters.opening_pos form start
    omega
  · have := Delimiters.closing_pos form stop
    omega

namespace Reads

variable {d d' : Delimiters} {text rest : List Char} {token : Token}
variable {tokens before after : List Token}

theorem text_eq (reads : Reads d text tokens d' rest) :
    text = (Token.sources tokens).toList ++ rest := by
  induction reads with
  | done => simp
  | text _ _ ih =>
      rw [ih]
      simp
  | tag _ _ ih =>
      rw [ih]
      simp

theorem inForce_eq (reads : Reads d text tokens d' rest) : d' = d.inForce tokens := by
  induction reads with
  | done => rfl
  | @text d d' token tokens _ _ isText _ ih =>
      have same : d.after token = d := by simp [Delimiters.after, isText.kind]
      rw [ih, Delimiters.inForce, Delimiters.inForce, List.foldl_cons, same]
  | tag _ _ ih => rw [ih, Delimiters.inForce, Delimiters.inForce, List.foldl_cons]

theorem marked (reads : Reads d text tokens d' rest) (marked : d.Marked) : d'.Marked := by
  induction reads with
  | done => exact marked
  | text _ _ ih => exact ih marked
  | tag isTag _ ih => exact ih (isTag.means.marked marked)

theorem split (reads : Reads d text (before ++ after) d' rest) :
    ∃ d₁ middle, Reads d text before d₁ middle ∧ Reads d₁ middle after d' rest := by
  induction before generalizing d text with
  | nil => exact ⟨d, text, .done, reads⟩
  | cons token before ih =>
      cases reads with
      | text isText reads =>
          obtain ⟨d₁, middle, first, last⟩ := ih reads
          exact ⟨d₁, middle, .text isText first, last⟩
      | tag isTag reads =>
          obtain ⟨d₁, middle, first, last⟩ := ih reads
          exact ⟨d₁, middle, .tag isTag first, last⟩

theorem head_text (reads : Reads d text (token :: tokens) d' rest) (kind : token.kind = .text) :
    ∃ middle, token.IsText d middle ∧ text = token.source.toList ++ middle ∧
      Reads d middle tokens d' rest := by
  cases reads with
  | text isText reads => exact ⟨_, isText, rfl, reads⟩
  | tag isTag reads => exact absurd kind isTag.means.ne_text

theorem head_tag (reads : Reads d text (token :: tokens) d' rest) (kind : token.kind ≠ .text) :
    ∃ middle form interior, token.IsTag d form interior middle ∧
      text = token.source.toList ++ middle ∧ Reads (d.after token) middle tokens d' rest := by
  cases reads with
  | text isText reads => exact absurd isText.kind kind
  | tag isTag reads => exact ⟨_, _, _, isTag, rfl, reads⟩

theorem filled (reads : Reads d text (token :: tokens) d' rest) (marked : d.Marked) :
    token.source.toList ≠ [] := by
  cases reads with
  | text isText _ => exact isText.filled
  | tag isTag _ => exact isTag.filled marked

theorem alternating (reads : Reads d text tokens d' rest) :
    tokens.IsChain fun token next => token.kind = .text → next.kind ≠ .text := by
  rw [List.isChain_iff_forall_rel_of_append_cons_cons]
  intro token next before after split kind kind'
  rw [split] at reads
  obtain ⟨d₁, middle, -, reads⟩ := reads.split
  obtain ⟨middle', isText, -, reads⟩ := reads.head_text kind
  obtain ⟨rest', isText', same, -⟩ := reads.head_text kind'
  -- The second text would open with the tag that ends the first.
  have opens := isText'.opensAt?_eq_none
  rw [← same] at opens
  rcases isText.ends with empty | opened
  · rw [empty] at same
    have := isText'.filled
    simp_all
  · exact opened opens

end Reads

/-- The fault of a tag that opens at the start of a text and has no end there, or one that does not
say which delimiters are to come. -/
inductive Fails (d : Delimiters) (text : List Char) : Fault → Prop
  | unclosed {form : TagForm} {interior : List Char} : d.opensAt? text = some form →
      text = d.opening form ++ interior →
      Throughout (fun text => ¬ d.closesAt form text) interior [] → Fails d text .unclosedTag
  | invalid {interior rest : List Char} : d.opensAt? text = some .redefining →
      text = d.opening .redefining ++ interior ++ rest →
      Throughout (fun text => ¬ d.closesAt .redefining text) interior rest →
      d.closesAt .redefining rest → (Text.words interior).length ≠ 2 →
      Fails d text .invalidDelimiters

inductive Ends (d : Delimiters) (template : Option String) : List Char → Scan.Ending → Prop
  | finished : Ends d template [] .finished
  | failed {rest : List Char} {fault : Fault} {line : Nat} : Fails d rest fault →
      Ends d template rest (.failed ⟨fault, line, template⟩)
  | exhausted {rest : List Char} : Ends d template rest .exhausted

/-! ## Soundness -/

namespace Scan

theorem size_append (cs rest : List Char) : size (cs ++ rest) = size cs + size rest := by
  induction cs with
  | nil => simp [size]
  | cons c cs ih => simp [size, ih, Nat.add_assoc]

theorem size_reverse (cs : List Char) : size cs.reverse = size cs := by
  induction cs with
  | nil => rfl
  | cons c cs ih => simp [size, size_append, ih, Nat.add_comm]

theorem size_eq (cs : List Char) : size cs = (String.ofList cs).utf8ByteSize := by
  induction cs with
  | nil => rfl
  | cons c cs ih =>
      rw [String.ofList_cons, String.utf8ByteSize_append, ← ih]
      simp [size]

def ahead (s : Scan) : List Char :=
  s.seen.reverse ++ s.rest

inductive Underway (s : Scan) : Prop
  | gap : s.mode = .gap → s.seen = [] → Underway s
  | text : s.mode = .text → s.seen ≠ [] →
      Throughout (fun text => s.delimiters.opensAt? text = none) s.seen.reverse s.rest → Underway s
  | tag {form : TagForm} {interior : List Char} : s.mode = .tag form →
      s.delimiters.opensAt? s.ahead = some form →
      s.seen.reverse = s.delimiters.opening form ++ interior →
      Throughout (fun text => ¬ s.delimiters.closesAt form text) interior s.rest → Underway s

theorem ahead_openTag {s : Scan} {form : TagForm}
    (opens : s.delimiters.opensAt? s.rest = some form) : (s.openTag form).ahead = s.rest := by
  obtain ⟨rest, h⟩ := Delimiters.opening_isPrefix opens
  simp [ahead, openTag, ← h]

theorem underway_openTag {s : Scan} {form : TagForm}
    (opens : s.delimiters.opensAt? s.rest = some form) : (s.openTag form).Underway := by
  have found : (s.openTag form).seen.reverse = (s.openTag form).delimiters.opening form ++ [] := by
    simp [openTag]
  refine .tag rfl ?_ found trivial
  rw [ahead_openTag opens]
  exact opens

theorem Underway.on {s next : Scan} (underway : s.Underway) (action : s.step = .on next) :
    next.Underway ∧ next.ahead = s.ahead ∧ next.delimiters = s.delimiters ∧
      next.template = s.template ∧ next.start = s.start := by
  have taken := s.step_taken
  rw [action] at taken
  cases taken with
  | @within form c rest mode hrest unclosed =>
      have same : (s.pass c rest).ahead = s.ahead := by simp [ahead, pass, hrest]
      refine ⟨?_, same, rfl, rfl, rfl⟩
      cases underway with
      | gap other => simp [mode] at other
      | text other => simp [mode] at other
      | @tag form' interior mode' opens found clear =>
          obtain rfl : form = form' := by simpa [mode] using mode'
          have found' : (s.pass c rest).seen.reverse =
              s.delimiters.opening form ++ (interior ++ [c]) := by
            simp [pass, found]
          rw [hrest] at clear unclosed
          refine .tag mode ?_ found' (clear.snoc unclosed)
          rw [same]
          exact opens
  | opened mode opens =>
      cases underway with
      | gap _ unseen =>
          refine ⟨underway_openTag opens, ?_, rfl, rfl, ?_⟩
          · rw [ahead_openTag opens]
            simp [ahead, unseen]
          · simp [openTag, position, unseen, size]
      | text other => simp [mode] at other
      | tag other => simp [mode] at other
  | @begun c rest mode hrest clear =>
      cases underway with
      | gap _ unseen =>
          refine ⟨.text rfl (by simp [pass]) ?_, by simp [ahead, pass, hrest, unseen], rfl, rfl, rfl⟩
          rw [hrest] at clear
          simpa [pass, unseen, Throughout] using clear
      | text other => simp [mode] at other
      | tag other => simp [mode] at other
  | @continued c rest mode hrest clear =>
      refine ⟨?_, by simp [ahead, pass, hrest], rfl, rfl, rfl⟩
      cases underway with
      | gap other => simp [mode] at other
      | text _ seen before =>
          refine .text mode (by simp [pass]) ?_
          rw [hrest] at before clear
          simpa [pass] using before.snoc clear
      | tag other => simp [mode] at other

/-- What a delivered token says, where it stands and what is left behind it. -/
structure Delivers (s : Scan) (token : Token) (next : Scan) : Prop where
  underway : next.Underway
  text : s.ahead = token.source.toList ++ next.ahead
  delimiters : next.delimiters = s.delimiters.after token
  template : next.template = s.template
  stop : next.start = token.stop
  start : token.start = s.start
  location : token.location.template = s.template
  reads : token.IsText s.delimiters next.ahead ∨
    ∃ form interior, token.IsTag s.delimiters form interior next.ahead

theorem textToken_isText {s : Scan} {rest : List Char} (seen : s.seen ≠ [])
    (clear : Throughout (fun text => s.delimiters.opensAt? text = none) s.seen.reverse rest)
    (ends : rest = [] ∨ s.delimiters.opensAt? rest ≠ none) :
    s.textToken.IsText s.delimiters rest where
  kind := rfl
  content := rfl
  delimiters := rfl
  filled := by simpa [textToken] using seen
  clear := by simpa [textToken] using clear
  ends := ends

theorem textToken_delivers {s next : Scan} (seen : s.seen ≠ [])
    (clear : Throughout (fun text => s.delimiters.opensAt? text = none) s.seen.reverse s.rest)
    (ends : s.rest = [] ∨ s.delimiters.opensAt? s.rest ≠ none) (underway : next.Underway)
    (ahead : next.ahead = s.rest) (delimiters : next.delimiters = s.delimiters)
    (template : next.template = s.template) (start : next.start = s.position) :
    s.Delivers s.textToken next where
  underway := underway
  text := by simp [Scan.ahead, textToken, ← ahead]
  delimiters := delimiters
  template := template
  stop := by
    rw [start]
    simp [position, Token.stop, textToken, ← size_eq, size_reverse]
  start := rfl
  location := rfl
  reads := .inl (by
    rw [ahead]
    exact textToken_isText seen clear ends)

theorem tagToken_delivers {s : Scan} {form : TagForm} {interior content : List Char}
    {kind : Token.Kind} {d : Delimiters} (opens : s.delimiters.opensAt? s.ahead = some form)
    (found : s.seen.reverse = s.delimiters.opening form ++ interior)
    (clear : Throughout (fun text => ¬ s.delimiters.closesAt form text) interior s.rest)
    (closes : s.delimiters.closesAt form s.rest)
    (means : Token.Means s.delimiters form interior kind content d) :
    s.Delivers (s.tagToken form kind content) (s.closeTag form d) := by
  obtain ⟨rest, hrest⟩ := Delimiters.closing_isPrefix closes
  have left : (s.closeTag form d).ahead = rest := by
    simp [Scan.ahead, closeTag, ← hrest]
  have text : s.ahead = (s.tagToken form kind content).source.toList ++ rest := by
    simp [Scan.ahead, tagToken, ← hrest]
  have content_eq : (s.tagToken form kind content).content.toList = content := by simp [tagToken]
  have after : s.delimiters.after (s.tagToken form kind content) = d := means.after content_eq
  refine
    { underway := .gap rfl rfl
      text := by rw [left, text]
      delimiters := after.symm
      template := rfl
      stop := ?_
      start := rfl
      location := rfl
      reads := .inr ⟨form, interior, ?_⟩ }
  · simp only [closeTag, position, Token.stop, tagToken, String.ofList_append,
      String.utf8ByteSize_append, ← size_eq, size_reverse, Nat.add_assoc]
  · rw [left]
    exact
      { source := by simp [tagToken, found]
        delimiters := rfl
        opens := by
          rw [← text]
          exact opens
        unclosed := by
          rw [hrest]
          exact clear
        closes := by
          rw [hrest]
          exact closes
        means := by
          rw [after]
          simpa [tagToken] using means }

theorem Underway.delivers {s next : Scan} {token : Token} (underway : s.Underway)
    (action : s.step = .token token next) : s.Delivers token next := by
  have taken := s.step_taken
  rw [action] at taken
  cases taken with
  | trailing mode hrest =>
      cases underway with
      | gap other => simp [mode] at other
      | text _ seen clear =>
          refine textToken_delivers seen clear (.inl hrest) (.gap rfl rfl) ?_ rfl rfl rfl
          simp [Scan.ahead]
      | tag other => simp [mode] at other
  | @closed form kind content d mode closes means =>
      cases underway with
      | gap other => simp [mode] at other
      | text other => simp [mode] at other
      | @tag form' interior mode' opens found clear =>
          obtain rfl : form = form' := by simpa [mode] using mode'
          have interior_eq : s.interior form = interior := by simp [Scan.interior, found]
          rw [interior_eq] at means
          exact tagToken_delivers opens found clear closes means
  | interrupted mode opens =>
      cases underway with
      | gap other => simp [mode] at other
      | text _ seen clear =>
          exact textToken_delivers seen clear (.inr (by simp [opens])) (underway_openTag opens)
            (ahead_openTag opens) rfl rfl rfl
      | tag other => simp [mode] at other

theorem Underway.fails {s : Scan} {error : ParseError} (underway : s.Underway)
    (action : s.step = .failed error) :
    Ends s.delimiters s.template s.ahead (.failed error) := by
  have taken := s.step_taken
  rw [action] at taken
  cases taken with
  | unclosed mode hrest =>
      cases underway with
      | gap other => simp [mode] at other
      | text other => simp [mode] at other
      | @tag form interior _ opens found clear =>
          have text : s.ahead = s.delimiters.opening form ++ interior := by
            simp [Scan.ahead, hrest, found]
          rw [hrest] at clear
          exact .failed (.unclosed opens text clear)
  | invalid mode closes words =>
      cases underway with
      | gap other => simp [mode] at other
      | text other => simp [mode] at other
      | @tag form interior mode' opens found clear =>
          obtain rfl : TagForm.redefining = form := by simpa [mode] using mode'
          have interior_eq : s.interior .redefining = interior := by simp [Scan.interior, found]
          refine .failed (.invalid opens ?_ clear closes ?_)
          · simp [Scan.ahead, found]
          · rw [← interior_eq]
            exact words

theorem trace_reads (steps : Nat) {s : Scan} (underway : s.Underway) :
    ∃ d rest, Reads s.delimiters s.ahead (trace steps s).1 d rest ∧
      Ends d s.template rest (trace steps s).2 := by
  induction steps generalizing s with
  | zero => exact ⟨_, _, .done, .exhausted⟩
  | succ steps ih =>
      cases action : s.step with
      | finished =>
          have taken := s.step_taken
          rw [action] at taken
          cases taken with
          | finished mode hrest =>
              cases underway with
              | gap _ unseen =>
                  refine ⟨s.delimiters, s.ahead, by simpa [trace, action] using .done, ?_⟩
                  simpa [trace, action, ahead, unseen, hrest] using .finished
              | text other => simp [mode] at other
              | tag other => simp [mode] at other
      | failed error =>
          refine ⟨s.delimiters, s.ahead, by simpa [trace, action] using .done, ?_⟩
          simpa [trace, action] using underway.fails action
      | on next =>
          obtain ⟨underway', same, delimiters, template, -⟩ := underway.on action
          obtain ⟨d, rest, reads, ends⟩ := ih underway'
          rw [same, delimiters] at reads
          rw [template] at ends
          exact ⟨d, rest, by simpa [trace, action] using reads, by simpa [trace, action] using ends⟩
      | token token next =>
          have delivers := underway.delivers action
          obtain ⟨d, rest, reads, ends⟩ := ih delivers.underway
          rw [delivers.delimiters] at reads
          rw [delivers.template] at ends
          refine ⟨d, rest, ?_, by simpa [trace, action] using ends⟩
          simp only [trace, action]
          rw [delivers.text]
          rcases delivers.reads with text | ⟨form, interior, tag⟩
          · have same : s.delimiters.after token = s.delimiters := by
              simp [Delimiters.after, text.kind]
            rw [same] at reads
            exact .text text reads
          · exact .tag tag reads

theorem trace_located (steps : Nat) {s : Scan} (underway : s.Underway) :
    ∀ token ∈ (trace steps s).1, token.location.template = s.template := by
  induction steps generalizing s with
  | zero => simp [trace]
  | succ steps ih =>
      cases action : s.step with
      | finished => simp [trace, action]
      | failed error => simp [trace, action]
      | on next =>
          obtain ⟨underway', -, -, template, -⟩ := underway.on action
          have rest := ih underway'
          rw [template] at rest
          simpa [trace, action] using rest
      | token token next =>
          have delivers := underway.delivers action
          have rest := ih delivers.underway
          rw [delivers.template] at rest
          simp only [trace, action, List.forall_mem_cons]
          exact ⟨delivers.location, rest⟩

end Scan

end Stencil
