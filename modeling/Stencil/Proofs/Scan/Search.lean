import Mathlib
import Stencil.Proofs.Scan.Lines

namespace Stencil

namespace Text

def find? (here : List Char → Bool) (text : List Char) : Option Nat :=
  text.tails.findIdx? here

variable {here : List Char → Bool} {P : List Char → Prop} {cs rest : List Char}

theorem find?_cons (here : List Char → Bool) (c : Char) (cs : List Char) :
    find? here (c :: cs) = if here (c :: cs) then some 0 else (find? here cs).map (· + 1) := by
  rw [find?, List.tails, List.findIdx?_cons]
  rfl

theorem find?_nil (here : List Char → Bool) : find? here [] = if here [] then some 0 else none := by
  rw [find?, List.tails, List.findIdx?_singleton]

theorem find?_of_here (found : here cs = true) : find? here cs = some 0 := by
  cases cs <;> simp [find?, List.findIdx?_cons, found]

theorem find?_append (clear : Throughout P cs rest) (apart : ∀ text, P text → here text = false) :
    find? here (cs ++ rest) = (find? here rest).map (· + cs.length) := by
  induction cs with
  | nil => simp
  | cons c cs ih =>
      have first : here (c :: (cs ++ rest)) = false := apart _ clear.1
      rw [List.cons_append, find?_cons, first, ih clear.2]
      simp [Function.comp_def, Nat.add_assoc]

end Text

namespace Delimiters

def Filled (d : Delimiters) : Prop :=
  d.start ≠ "" ∧ d.stop ≠ ""

def marks (d : Delimiters) (text : List Char) : Bool :=
  d.start.toList.isPrefixOf text || d = braces && (d.opening .raw).isPrefixOf text

def formAt (d : Delimiters) (text : List Char) : TagForm :=
  if d = braces ∧ (d.opening .raw).isPrefixOf text then .raw
  else if (d.opening .redefining).isPrefixOf text then .redefining
  else .plain

def ofWords? (interior : List Char) : Option { d : Delimiters // d.Filled } :=
  match words : Text.words interior with
  | [start, stop] =>
    have filled {word : List Char} (member : word ∈ [start, stop]) : String.ofList word ≠ "" :=
      Text.ofList_ne_empty (words ▸ member)
    some ⟨⟨String.ofList start, String.ofList stop⟩, filled (by simp), filled (by simp)⟩
  | _ => none

end Delimiters

namespace Token

def meaning? (d : { d : Delimiters // d.Filled }) (interior : List Char) :
    TagForm → Option ((Kind × List Char) × { d : Delimiters // d.Filled })
  | .plain => some (classify interior, d)
  | .raw => some ((.rawTag, interior), d)
  | .redefining => (Delimiters.ofWords? interior).map fun d => ((.delimitersTag, interior), d)

def behind (template : Option String) (before : String) (d : Delimiters) (kind : Kind)
    (content source : List Char) : Token where
  kind
  content := String.ofList content
  delimiters := d
  location := .behind template before
  start := before.utf8ByteSize
  source := String.ofList source

/-- The tokens of a text that stands behind another one in a template, and the fault that ends
them. -/
def search (template : Option String) (d : { d : Delimiters // d.Filled }) (before : String)
    (text : List Char) : List Token × Option ParseError :=
  if _ : text = [] then ([], none)
  else
    -- Without a tag all that is left is text.
    match (Text.find? d.val.marks text).getD text.length with
    | n + 1 =>
      let token := behind template before d .text (text.take (n + 1)) (text.take (n + 1))
      let (tokens, failure) := search template d (before ++ token.source) (text.drop (n + 1))
      (token :: tokens, failure)
    | 0 =>
      let form := d.val.formAt text
      let inside := text.drop (d.val.opening form).length
      match Text.find? (d.val.closing form).isPrefixOf inside with
      | none => ([], some ⟨.unclosedTag, .behind template before⟩)
      | some n =>
        match meaning? d (inside.take n) form with
        | none => ([], some ⟨.invalidDelimiters, .behind template before⟩)
        | some ((kind, content), d') =>
          let source := d.val.opening form ++ inside.take n ++ d.val.closing form
          let token := behind template before d kind content source
          let (tokens, failure) := search template d' (before ++ token.source)
            (inside.drop (n + (d.val.closing form).length))
          (token :: tokens, failure)
termination_by text.length
decreasing_by
  · have := List.length_pos_iff.mpr ‹text ≠ []›
    simp only [List.length_drop]
    omega
  · have := List.length_pos_iff.mpr ‹text ≠ []›
    have := Delimiters.opening_pos (d.val.formAt text) d.property.1
    simp only [List.length_drop]
    omega

end Token

/-! ## Markers on one line -/

namespace Delimiters

variable {d : Delimiters} {text : List Char} {form : TagForm}

theorem ne_feed_of_isPrefix {marker : List Char} {c : Char} {cs : List Char} (filled : marker ≠ [])
    (oneLine : '\n' ∉ marker) (here : marker <+: c :: cs) : c ≠ '\n' := by
  rintro rfl
  obtain ⟨b, marker, rfl⟩ := List.exists_cons_of_ne_nil filled
  obtain ⟨rfl, -⟩ := List.cons_prefix_cons.mp here
  simp at oneLine

theorem closesAt_iff (filled : d.Filled) (oneLine : d.OneLine) :
    d.closesAt form text ↔ d.closing form <+: text := by
  have nonempty : d.closing form ≠ [] := List.length_pos_iff.mp (closing_pos form filled.2)
  cases text with
  | nil => simp [closesAt, nonempty]
  | cons c cs =>
      simp only [closesAt, and_iff_right_iff_imp]
      exact ne_feed_of_isPrefix nonempty (List.count_eq_zero.mp (oneLine.count_closing form))

theorem isPrefixOf_eq_false (filled : d.Filled) (oneLine : d.OneLine)
    (unclosed : ¬ d.closesAt form text) : (d.closing form).isPrefixOf text = false := by
  rw [closesAt_iff filled oneLine, ← List.isPrefixOf_iff_prefix] at unclosed
  exact Bool.eq_false_iff.mpr unclosed

theorem raw_isPrefix : braces.opening .raw <+: text → braces.opening .plain <+: text :=
  List.IsPrefix.trans (by decide)

theorem marks_iff : d.marks text = true ↔ d.opening .plain <+: text := by
  simp only [marks, Bool.or_eq_true, Bool.and_eq_true, decide_eq_true_eq, List.isPrefixOf_iff_prefix]
  constructor
  · rintro (here | ⟨rfl, here⟩)
    · exact here
    · exact raw_isPrefix here
  · exact .inl

theorem opens?_eq : d.opens? text = if d.marks text then some (d.formAt text) else none := by
  have longer : d.opening .redefining <+: text → d.opening .plain <+: text :=
    (List.prefix_append _ _).trans
  simp only [opens?, formAt, marks_iff, List.isPrefixOf_iff_prefix]
  by_cases raw : d = braces ∧ d.opening .raw <+: text
  · obtain ⟨rfl, here⟩ := raw
    simp [here, raw_isPrefix here]
  · by_cases redefining : d.opening .redefining <+: text
    · simp [raw, redefining, longer redefining]
    · simp [raw, redefining]

theorem opensAt?_eq (filled : d.Filled) (oneLine : d.OneLine) :
    d.opensAt? text = if d.marks text then some (d.formAt text) else none := by
  cases text with
  | nil => simp [opensAt?, marks_iff, opening, filled.1]
  | cons c cs =>
      rw [opensAt?, opens?_eq]
      have nonempty : d.opening .plain ≠ [] := List.length_pos_iff.mp (opening_pos .plain filled.1)
      by_cases here : d.marks (c :: cs)
      · have visible := ne_feed_of_isPrefix nonempty oneLine.start (marks_iff.mp here)
        simp [visible]
      · simp [here]

theorem Filled.after {d' : Delimiters} {interior content : List Char} {kind : Token.Kind}
    (means : Token.Means d form interior kind content d') (filled : d.Filled) : d'.Filled := by
  rcases means.installs with rfl | installed
  · exact filled
  · exact installed

end Delimiters

namespace Token

variable {d : Delimiters} {template : Option String} {before : String}

theorem meaning?_eq {d' : Delimiters} {form : TagForm} {interior content : List Char} {kind : Kind}
    (means : Means d form interior kind content d') (filled : d.Filled) :
    meaning? ⟨d, filled⟩ interior form = some ((kind, content), ⟨d', filled.after means⟩) := by
  cases means with
  | plain classified => simp [meaning?, classified]
  | raw => rfl
  | redefining words =>
      simp only [meaning?, Delimiters.ofWords?]
      split
      · rename_i found
        cases found.symm.trans words
        rfl
      · rename_i other
        exact absurd words (other _ _)

theorem meaning?_eq_none {interior : List Char} (words : (Text.words interior).length ≠ 2)
    (filled : d.Filled) : meaning? ⟨d, filled⟩ interior .redefining = none := by
  simp only [meaning?, Delimiters.ofWords?]
  split
  · rename_i found
    simp [found] at words
  · rfl

/-! ## Rounds of a search -/

theorem search_nil (d : { d : Delimiters // d.Filled }) : search template d before [] = ([], none) := by
  rw [search]
  rfl

theorem IsText.find?_eq {token : Token} {middle : List Char} (isText : token.IsText d middle)
    (filled : d.Filled) (oneLine : d.OneLine) :
    (Text.find? d.marks (token.source.toList ++ middle)).getD (token.source.toList ++ middle).length =
      token.source.toList.length := by
  have apart (text : List Char) (closed : d.opensAt? text = none) : d.marks text = false := by
    simpa [Delimiters.opensAt?_eq filled oneLine] using closed
  rw [Text.find?_append isText.clear apart]
  rcases isText.ends with rfl | opened
  · have nothing : d.marks [] = false := apart [] rfl
    simp [Text.find?_nil, nothing]
  · have here : d.marks middle = true := by
      simpa [Delimiters.opensAt?_eq filled oneLine] using opened
    simp [Text.find?_of_here here]

theorem IsTag.find?_eq {token : Token} {form : TagForm} {interior middle : List Char}
    (isTag : token.IsTag d form interior middle) (filled : d.Filled) (oneLine : d.OneLine) :
    Text.find? (d.closing form).isPrefixOf (interior ++ (d.closing form ++ middle)) =
      some interior.length := by
  have here : (d.closing form).isPrefixOf (d.closing form ++ middle) = true := by simp
  rw [Text.find?_append isTag.unclosed fun _ => Delimiters.isPrefixOf_eq_false filled oneLine,
    Text.find?_of_here here]
  simp

theorem behind_eq {token : Token} (delimiters : token.delimiters = d)
    (start : token.start = before.utf8ByteSize) (location : token.location = .behind template before) :
    behind template before d token.kind token.content.toList token.source.toList = token := by
  cases token
  simp_all [behind]

theorem opens_at {text : List Char} {form : TagForm} (opens : d.opensAt? text = some form)
    (filled : d.Filled) (oneLine : d.OneLine) : d.marks text = true ∧ d.formAt text = form := by
  rw [Delimiters.opensAt?_eq filled oneLine, Option.ite_none_right_eq_some] at opens
  exact ⟨opens.1, Option.some.inj opens.2⟩

theorem search_text {token : Token} {middle : List Char} (isText : token.IsText d middle)
    (filled : d.Filled) (oneLine : d.OneLine) (start : token.start = before.utf8ByteSize)
    (location : token.location = .behind template before) :
    search template ⟨d, filled⟩ before (token.source.toList ++ middle) =
      (token :: (search template ⟨d, filled⟩ (before ++ token.source) middle).1,
        (search template ⟨d, filled⟩ (before ++ token.source) middle).2) := by
  obtain ⟨n, length⟩ := Nat.exists_eq_add_one.mpr (List.length_pos_iff.mpr isText.filled)
  have found := isText.find?_eq filled oneLine
  have taken : (token.source.toList ++ middle).take (n + 1) = token.source.toList := by
    simp [← length]
  have left : (token.source.toList ++ middle).drop (n + 1) = middle := by
    simp [← length]
  have same := behind_eq isText.delimiters start location
  rw [isText.kind, isText.content] at same
  rw [length] at found
  rw [search, dif_neg (by simp [isText.filled]), found]
  simp only [taken, left, same]

theorem search_tag {token : Token} {form : TagForm} {interior middle : List Char}
    (isTag : token.IsTag d form interior middle) (filled : d.Filled) (oneLine : d.OneLine)
    (start : token.start = before.utf8ByteSize) (location : token.location = .behind template before) :
    search template ⟨d, filled⟩ before (token.source.toList ++ middle) =
      (token :: (search template ⟨d.after token, filled.after isTag.means⟩ (before ++ token.source)
          middle).1,
        (search template ⟨d.after token, filled.after isTag.means⟩ (before ++ token.source)
          middle).2) := by
  have found := isTag.find?_eq filled oneLine
  have text : token.source.toList ++ middle =
      d.opening form ++ (interior ++ (d.closing form ++ middle)) := by
    simp [isTag.source]
  have left : (interior ++ (d.closing form ++ middle)).drop
      (interior.length + (d.closing form).length) = middle := by
    simp [← List.append_assoc]
  have same := behind_eq isTag.delimiters start location
  rw [isTag.source] at same
  obtain ⟨here, form_eq⟩ := opens_at isTag.opens filled oneLine
  have nonempty : token.source.toList ++ middle ≠ [] := by
    simp [isTag.filled (.inl filled.1)]
  rw [search, dif_neg nonempty, Text.find?_of_here here]
  simp only [Option.getD_some, form_eq]
  rw [text, List.drop_left, found]
  simp only [List.take_left, left, meaning?_eq isTag.means filled, same]

theorem search_fails {text : List Char} {fault : Fault} (fails : Fails d text fault)
    (filled : d.Filled) (oneLine : d.OneLine) :
    search template ⟨d, filled⟩ before text = ([], some ⟨fault, .behind template before⟩) := by
  have apart (form : TagForm) (text : List Char) (unclosed : ¬ d.closesAt form text) :
      (d.closing form).isPrefixOf text = false :=
    Delimiters.isPrefixOf_eq_false filled oneLine unclosed
  cases fails with
  | @unclosed form interior opens split unclosed =>
      obtain ⟨here, form_eq⟩ := opens_at opens filled oneLine
      have nothing : (d.closing form).isPrefixOf [] = false := apart form [] id
      have found := Text.find?_append unclosed (apart form)
      rw [List.append_nil, Text.find?_nil, nothing] at found
      rw [search, dif_neg (Delimiters.opensAt?_ne_nil opens), Text.find?_of_here here]
      simp only [Option.getD_some, form_eq]
      rw [split, List.drop_left, found]
      rfl
  | @invalid interior rest opens split unclosed closes words =>
      obtain ⟨here, form_eq⟩ := opens_at opens filled oneLine
      rw [Delimiters.closesAt_iff filled oneLine, ← List.isPrefixOf_iff_prefix] at closes
      have found := Text.find?_append unclosed (apart .redefining)
      rw [Text.find?_of_here closes] at found
      rw [search, dif_neg (Delimiters.opensAt?_ne_nil opens), Text.find?_of_here here]
      simp only [Option.getD_some, form_eq]
      rw [split, List.append_assoc, List.drop_left, found]
      simp [meaning?_eq_none words filled]

theorem search_of_reads {d' : Delimiters} {text rest : List Char} {tokens : List Token}
    (reads : Reads d text tokens d' rest) (filled : d.Filled) (oneLine : d.OneLine)
    (placed : Placed before.utf8ByteSize tokens) (lined : Lined template before tokens) :
    ∃ filled' : d'.Filled, d'.OneLine ∧
      search template ⟨d, filled⟩ before text =
        (tokens ++ (search template ⟨d', filled'⟩ (before ++ sources tokens) rest).1,
          (search template ⟨d', filled'⟩ (before ++ sources tokens) rest).2) := by
  have behind {before : String} {token : Token} (start : token.start = before.utf8ByteSize)
      {tokens : List Token} (placed : Placed token.stop tokens) :
      Placed (before ++ token.source).utf8ByteSize tokens := by
    rwa [String.utf8ByteSize_append, ← start]
  induction reads generalizing before with
  | done => exact ⟨filled, oneLine, by simp⟩
  | @text d d' token tokens middle rest isText _ ih =>
      obtain ⟨filled', oneLine', later⟩ := ih filled oneLine (behind placed.1 placed.2) lined.2
      refine ⟨filled', oneLine', ?_⟩
      rw [search_text isText filled oneLine placed.1 lined.1, later]
      simp [String.append_assoc]
  | @tag d d' token tokens form interior middle rest isTag _ ih =>
      obtain ⟨filled', oneLine', later⟩ := ih (filled.after isTag.means)
        (isTag.means.oneLine oneLine) (behind placed.1 placed.2) lined.2
      refine ⟨filled', oneLine', ?_⟩
      rw [search_tag isTag filled oneLine placed.1 lined.1, later]
      simp [String.append_assoc]

theorem search_trace {steps : Nat} {s : Scan} (underway : s.Underway) (counted : s.Counted before)
    (start : s.start = before.utf8ByteSize) (filled : s.delimiters.Filled)
    (ended : (s.trace steps).2 ≠ .exhausted) :
    search s.template ⟨s.delimiters, filled⟩ before s.ahead =
      ((s.trace steps).1, (s.trace steps).2.failure?) := by
  obtain ⟨d', rest, reads, ends⟩ := Scan.trace_reads steps underway
  have placed := Scan.trace_placed steps underway
  obtain ⟨lined, located⟩ := Scan.trace_lined steps underway counted
  rw [start] at placed
  obtain ⟨filled', oneLine', found⟩ := search_of_reads reads filled counted.oneLine placed lined
  rw [found]
  generalize (s.trace steps).2 = ending at ends located ended
  cases ends with
  | finished => simp [search_nil, Scan.Ending.failure?]
  | @failed rest fault line fails =>
      have here := located _ rfl
      dsimp only at here
      simp [search_fails fails filled' oneLine', Scan.Ending.failure?, here]
  | exhausted => exact absurd rfl ended

theorem ofTemplate_eq_search (source : String) (d : Delimiters) (template : Option String)
    (filled : d.Filled) (oneLine : d.OneLine) :
    ofTemplate source d template none = search template ⟨d, filled⟩ "" source.toList := by
  rw [Scan.ofTemplate_eq]
  have ended := Scan.trace_ofTemplate_ne_exhausted source.toList (.inl filled.1) template
  have counted := Scan.counted_ofTemplate source.toList oneLine template
  exact (search_trace (.gap rfl rfl) counted rfl filled ended).symm

theorem ofTemplate_eq_search_redefined :
    let d : Delimiters := ⟨"=", "=="⟩
    let source := "a=x====\x7b\x7b \x7d\x7d====\x7b\x7b\x7bé\x7d\x7d\x7d\n\x7b\x7b#"
    ∃ filled : d.Filled, d.OneLine ∧
      ofTemplate source d none none = search none ⟨d, filled⟩ "" source.toList ∧
      (search none ⟨d, filled⟩ "" source.toList).1.map (fun token => (token.kind, token.source)) =
        [(.text, "a"), (.variableTag, "=x=="), (.delimitersTag, "==\x7b\x7b \x7d\x7d==="),
          (.text, "="), (.rawTag, "\x7b\x7b\x7bé\x7d\x7d\x7d"), (.text, "\n")] ∧
      (search none ⟨d, filled⟩ "" source.toList).2 = some ⟨.unclosedTag, 2, none⟩ := by
  intro d source
  have filled : d.Filled := ⟨by decide, by decide⟩
  have oneLine : d.OneLine := ⟨by decide, by decide⟩
  have same := ofTemplate_eq_search source d none filled oneLine
  refine ⟨filled, oneLine, same, ?_⟩
  rw [← same]
  subst d source
  exact ⟨by cbv, by cbv⟩

end Token

end Stencil
