import Mathlib.Data.List.Basic
import Stencil.Token.Scanner

namespace Stencil

namespace Delimiters

def opensAt? (d : Delimiters) : List Char → Option TagForm
  | [] => none
  | c :: text => if c = '\n' then none else d.opens? (c :: text)

def closesAt (d : Delimiters) (form : TagForm) : List Char → Prop
  | [] => False
  | c :: text => c ≠ '\n' ∧ d.closing form <+: c :: text

theorem opensAt?_ne_nil {d : Delimiters} {text : List Char} {form : TagForm}
    (opened : d.opensAt? text = some form) : text ≠ [] := by
  rintro rfl
  simp [opensAt?] at opened

theorem opening_isPrefix {d : Delimiters} {text : List Char} {form : TagForm}
    (opened : d.opensAt? text = some form) : d.opening form <+: text := by
  cases text with
  | nil => simp [opensAt?] at opened
  | cons c text =>
      simp only [opensAt?] at opened
      split at opened
      · cases opened
      · exact List.isPrefixOf_iff_prefix.mp (isPrefixOf_of_opens? opened)

theorem closing_isPrefix {d : Delimiters} {text : List Char} {form : TagForm}
    (closed : d.closesAt form text) : d.closing form <+: text := by
  cases text with
  | nil => exact closed.elim
  | cons c text => exact closed.2

def Marked (d : Delimiters) : Prop :=
  d.start ≠ "" ∨ d.stop ≠ ""

theorem opening_pos {d : Delimiters} (form : TagForm) (filled : d.start ≠ "") :
    0 < (d.opening form).length := by
  cases form with
  | plain => simpa [opening, List.length_pos_iff] using filled
  | raw => simp [opening]
  | redefining => simp [opening]

theorem closing_pos {d : Delimiters} (form : TagForm) (filled : d.stop ≠ "") :
    0 < (d.closing form).length := by
  cases form with
  | plain => simpa [closing, List.length_pos_iff] using filled
  | raw => simp [closing]
  | redefining => simp [closing]

theorem eq_braces_of_opensAt? {d : Delimiters} {text : List Char}
    (opened : d.opensAt? text = some .raw) : d = braces := by
  cases text with
  | nil => simp [opensAt?] at opened
  | cons c text =>
      simp only [opensAt?, opens?] at opened
      split at opened
      · cases opened
      · split at opened
        · rename_i h
          exact h.1
        · split at opened
          · cases opened
          · split at opened <;> cases opened

end Delimiters

namespace Token

/-- What the interior of a tag says: the kind and content of the token, and which delimiters are in
force after it. -/
inductive Means (d : Delimiters) : TagForm → List Char → Kind → List Char → Delimiters → Prop
  | plain {interior content : List Char} {kind : Kind} :
      classify interior = (kind, content) → Means d .plain interior kind content d
  | raw {interior : List Char} : Means d .raw interior .rawTag interior d
  | redefining {interior start stop : List Char} : Text.words interior = [start, stop] →
      Means d .redefining interior .delimitersTag interior ⟨String.ofList start, String.ofList stop⟩

theorem Means.installs {d d' : Delimiters} {form : TagForm} {interior content : List Char}
    {kind : Kind} (means : Means d form interior kind content d') :
    d' = d ∨ d'.start ≠ "" ∧ d'.stop ≠ "" := by
  cases means with
  | plain => exact .inl rfl
  | raw => exact .inl rfl
  | @redefining _ start stop words =>
      have filled {word : List Char} (member : word ∈ [start, stop]) : String.ofList word ≠ "" :=
        Text.ofList_ne_empty (words ▸ member)
      exact .inr ⟨filled (by simp), filled (by simp)⟩

theorem Means.marked {d d' : Delimiters} {form : TagForm} {interior content : List Char}
    {kind : Kind} (means : Means d form interior kind content d') (marked : d.Marked) :
    d'.Marked := by
  rcases means.installs with rfl | installed
  · exact marked
  · exact .inl installed.1

theorem Means.stop_ne {d d' : Delimiters} {form : TagForm} {interior content : List Char}
    {kind : Kind} (means : Means d form interior kind content d') (filled : d.stop ≠ "") :
    d'.stop ≠ "" := by
  rcases means.installs with rfl | installed
  · exact filled
  · exact installed.2

end Token

namespace Scan

inductive Taken (s : Scan) : Step → Prop
  | finished : s.mode = .gap → s.rest = [] → Taken s .finished
  | trailing : s.mode = .text → s.rest = [] →
      Taken s (.token s.textToken { s with mode := .gap, seen := [], start := s.position })
  | unclosed {form : TagForm} : s.mode = .tag form → s.rest = [] →
      Taken s (.failed ⟨.unclosedTag, s.location⟩)
  | invalid : s.mode = .tag .redefining → s.delimiters.closesAt .redefining s.rest →
      (Text.words (s.interior .redefining)).length ≠ 2 →
      Taken s (.failed ⟨.invalidDelimiters, s.location⟩)
  | closed {form : TagForm} {kind : Token.Kind} {content : List Char} {d : Delimiters} :
      s.mode = .tag form → s.delimiters.closesAt form s.rest →
      Token.Means s.delimiters form (s.interior form) kind content d →
      Taken s (.token (s.tagToken form kind content) (s.closeTag form d))
  | within {form : TagForm} {c : Char} {rest : List Char} : s.mode = .tag form →
      s.rest = c :: rest → ¬ s.delimiters.closesAt form s.rest → Taken s (.on (s.pass c rest))
  | opened {form : TagForm} : s.mode = .gap → s.delimiters.opensAt? s.rest = some form →
      Taken s (.on (s.openTag form))
  | interrupted {form : TagForm} : s.mode = .text → s.delimiters.opensAt? s.rest = some form →
      Taken s (.token s.textToken (s.openTag form))
  | begun {c : Char} {rest : List Char} : s.mode = .gap → s.rest = c :: rest →
      s.delimiters.opensAt? s.rest = none →
      Taken s (.on { s.pass c rest with mode := .text, startLine := s.line })
  | continued {c : Char} {rest : List Char} : s.mode = .text → s.rest = c :: rest →
      s.delimiters.opensAt? s.rest = none → Taken s (.on (s.pass c rest))

theorem close_taken {s : Scan} {form : TagForm} (mode : s.mode = .tag form)
    (closes : s.delimiters.closesAt form s.rest) : s.Taken (s.close form) := by
  cases form with
  | plain => exact .closed mode closes (.plain rfl)
  | raw => exact .closed mode closes .raw
  | redefining =>
      simp only [close]
      split
      · rename_i words
        exact .closed mode closes (.redefining words)
      · rename_i other
        apply Taken.invalid mode closes
        intro two
        obtain ⟨start, stop, words⟩ := List.length_eq_two.mp two
        exact other start stop words

theorem step_taken (s : Scan) : s.Taken s.step := by
  unfold step
  split
  · rename_i rest mode
    exact .finished mode rest
  · rename_i rest mode
    exact .trailing mode rest
  · rename_i rest mode
    exact .unclosed mode rest
  · rename_i c rest form hrest mode
    have closes_iff : s.delimiters.closesAt form s.rest ↔
        c ≠ '\n' ∧ (s.delimiters.closing form).isPrefixOf s.rest := by
      simp [hrest, Delimiters.closesAt]
    split
    · rename_i closes
      exact close_taken mode (closes_iff.mpr closes)
    · rename_i closes
      exact .within mode hrest (mt closes_iff.mp closes)
  · rename_i c rest hrest notTag
    have opens_eq : s.delimiters.opensAt? s.rest =
        if c = '\n' then none else s.delimiters.opens? s.rest := by
      simp [hrest, Delimiters.opensAt?]
    rw [← opens_eq]
    cases mode : s.mode with
    | gap =>
        cases opens : s.delimiters.opensAt? s.rest with
        | none => simpa [passText, mode] using Taken.begun mode hrest opens
        | some form => simpa using Taken.opened mode opens
    | text =>
        cases opens : s.delimiters.opensAt? s.rest with
        | none => simpa [passText, mode] using Taken.continued mode hrest opens
        | some form => simpa using Taken.interrupted mode opens
    | tag form => exact absurd mode (notTag form)

theorem step_eq {s : Scan} {action : Step} (taken : s.Taken action) : s.step = action := by
  have visible {c : Char} {rest : List Char} {form : TagForm} (hrest : s.rest = c :: rest)
      (opens : s.delimiters.opensAt? s.rest = some form) :
      c ≠ '\n' ∧ s.delimiters.opens? (c :: rest) = some form := by
    rw [hrest, Delimiters.opensAt?] at opens
    split at opens
    · cases opens
    · exact ⟨‹_›, opens⟩
  cases taken with
  | finished mode hrest => simp [step, mode, hrest]
  | trailing mode hrest => simp [step, mode, hrest]
  | unclosed mode hrest => simp [step, mode, hrest]
  | invalid mode closes words =>
      cases hrest : s.rest with
      | nil => simp [hrest, Delimiters.closesAt] at closes
      | cons c rest =>
          rw [hrest] at closes
          have here : c ≠ '\n' ∧ (s.delimiters.closing .redefining).isPrefixOf s.rest := by
            simpa [hrest, Delimiters.closesAt] using closes
          simp only [step, mode, hrest] at here ⊢
          rw [if_pos here, close]
          split
          · rename_i two
            simp [two] at words
          · rfl
  | @closed form kind content d mode closes means =>
      cases hrest : s.rest with
      | nil => simp [hrest, Delimiters.closesAt] at closes
      | cons c rest =>
          rw [hrest] at closes
          have here : c ≠ '\n' ∧ (s.delimiters.closing form).isPrefixOf s.rest := by
            simpa [hrest, Delimiters.closesAt] using closes
          simp only [step, mode, hrest] at here ⊢
          rw [if_pos here]
          generalize hinterior : s.interior form = interior at means
          cases means with
          | plain classified => simp [close, hinterior, classified]
          | raw => simp [close, hinterior]
          | redefining words => simp [close, hinterior, words]
  | @within form c rest mode hrest unclosed =>
      have elsewhere : ¬ (c ≠ '\n' ∧ (s.delimiters.closing form).isPrefixOf s.rest) := by
        simpa [hrest, Delimiters.closesAt] using unclosed
      simp only [step, mode, hrest] at elsewhere ⊢
      rw [if_neg elsewhere]
  | opened mode opens =>
      cases hrest : s.rest with
      | nil => simp [hrest, Delimiters.opensAt?] at opens
      | cons c rest =>
          obtain ⟨notFeed, opens⟩ := visible hrest opens
          simp [step, mode, hrest, notFeed, opens]
  | interrupted mode opens =>
      cases hrest : s.rest with
      | nil => simp [hrest, Delimiters.opensAt?] at opens
      | cons c rest =>
          obtain ⟨notFeed, opens⟩ := visible hrest opens
          simp [step, mode, hrest, notFeed, opens]
  | begun mode hrest clear =>
      rw [hrest, Delimiters.opensAt?] at clear
      simp [step, mode, hrest, clear, passText]
  | continued mode hrest clear =>
      rw [hrest, Delimiters.opensAt?] at clear
      simp [step, mode, hrest, clear, passText]

end Scan

end Stencil
