import Stencil.Proofs.Expression.Layout

/-!
# The steps of a reader of expressions

`Reader.Moves` lists the steps of a reader that do not fail, by what has been read before them: an
operand may begin (`Place.Begins`), or has been read (`Place.Holds`, `Place.Ends`), or its
identifier goes on (`Place.Extends`). A text is read if such steps lead over all of it and an operand
ends there (`ofText_eq_ok_iff_reads`).
-/

namespace Stencil.Expression

theorem not_mark_of_isBlank {c : Char} (blank : Text.isBlank c = true) :
    c ∉ ['.', '(', ')', ','] := by
  intro mark
  simp only [List.mem_cons, List.not_mem_nil, or_false] at mark
  rcases mark with rfl | rfl | rfl | rfl <;> simp [Text.isBlank] at blank

namespace Place

inductive Begins : Place → Prop
  | operand : Begins .operand
  | firstArgument : Begins .firstArgument

inductive Holds : Place → Expression → Prop
  | top : Holds .dot .top
  | name {cs : List Char} : Holds (.name cs) (.name (String.ofList cs.reverse))
  | key {base : Expression} {cs : List Char} : cs ≠ [] →
      Holds (.key base cs) (.key base (String.ofList cs.reverse))
  | tail {operand : Expression} : Holds (.tail operand) operand

inductive Ends : Place → Expression → Prop
  | holds {place : Place} {operand : Expression} : Holds place operand → Ends place operand
  | ended {operand : Expression} : Ends (.ended operand) operand

inductive Extends : Place → Char → Place → Prop
  | dot {c : Char} : Extends .dot c (.key .top [c])
  | name {cs : List Char} {c : Char} : Extends (.name cs) c (.name (c :: cs))
  | key {base : Expression} {cs : List Char} {c : Char} :
      Extends (.key base cs) c (.key base (c :: cs))

end Place

namespace Reader

inductive Moves : Reader → Char → Reader → Prop
  | blank {place : Place} {calls : List OpenCall} {c : Char} : place.Begins →
      Text.isBlank c = true → Moves ⟨place, calls⟩ c ⟨place, calls⟩
  | dot {place : Place} {calls : List OpenCall} : place.Begins →
      Moves ⟨place, calls⟩ '.' ⟨.dot, calls⟩
  | name {place : Place} {calls : List OpenCall} {c : Char} : place.Begins →
      isIdentifierChar c = true → Moves ⟨place, calls⟩ c ⟨.name [c], calls⟩
  | extend {place place' : Place} {calls : List OpenCall} {c : Char} : place.Extends c place' →
      isIdentifierChar c = true → Moves ⟨place, calls⟩ c ⟨place', calls⟩
  | key {place : Place} {calls : List OpenCall} {operand : Expression} : place.Holds operand →
      Moves ⟨place, calls⟩ '.' ⟨.key operand [], calls⟩
  | call {place : Place} {calls : List OpenCall} {operand : Expression} : place.Holds operand →
      Moves ⟨place, calls⟩ '(' ⟨.firstArgument, ⟨operand, []⟩ :: calls⟩
  | ended {place : Place} {calls : List OpenCall} {operand : Expression} {c : Char} :
      place.Ends operand → Text.isBlank c = true → Moves ⟨place, calls⟩ c ⟨.ended operand, calls⟩
  | argument {place : Place} {opened : OpenCall} {calls : List OpenCall} {operand : Expression} :
      place.Ends operand →
      Moves ⟨place, opened :: calls⟩ ',' ⟨.operand, opened.add operand :: calls⟩
  | close {place : Place} {opened : OpenCall} {calls : List OpenCall} {operand : Expression} :
      place.Ends operand →
      Moves ⟨place, opened :: calls⟩ ')' ⟨.tail (opened.add operand).close, calls⟩
  | closeEmpty {opened : OpenCall} {calls : List OpenCall} :
      Moves ⟨.firstArgument, opened :: calls⟩ ')' ⟨.tail opened.close, calls⟩

variable {r r' : Reader} {place : Place} {calls : List OpenCall} {operand : Expression} {c : Char}

theorem stepOperand_moves (begins : place.Begins)
    (ok : stepOperand ⟨place, calls⟩ c = .ok r') : Moves ⟨place, calls⟩ c r' := by
  unfold stepOperand at ok
  split at ok
  · rename_i blank
    cases ok
    exact .blank begins blank
  · split at ok
    · rename_i dot
      subst dot
      cases ok
      exact .dot begins
    · split at ok
      · rename_i identifier
        cases ok
        exact .name begins identifier
      · cases ok

theorem stepEnded_moves (ends : place.Ends operand)
    (ok : stepEnded ⟨place, calls⟩ operand c = .ok r') : Moves ⟨place, calls⟩ c r' := by
  unfold stepEnded at ok
  split at ok
  · rename_i blank
    cases ok
    exact .ended ends blank
  · split at ok
    · cases ok
    · rename_i opened outer same
      obtain rfl : calls = opened :: outer := same
      split at ok
      · rename_i comma
        subst comma
        cases ok
        exact .argument ends
      · split at ok
        · rename_i parenthesis
          subst parenthesis
          cases ok
          exact .close ends
        · cases ok

theorem stepTail_moves (holds : place.Holds operand)
    (ok : stepTail ⟨place, calls⟩ operand c = .ok r') : Moves ⟨place, calls⟩ c r' := by
  unfold stepTail at ok
  split at ok
  · rename_i dot
    subst dot
    cases ok
    exact .key holds
  · split at ok
    · rename_i parenthesis
      subst parenthesis
      cases ok
      exact .call holds
    · exact stepEnded_moves (.holds holds) ok

theorem step_moves (ok : r.step c = .ok r') : r.Moves c r' := by
  obtain ⟨place, calls⟩ := r
  cases place with
  | operand => exact stepOperand_moves .operand ok
  | firstArgument =>
      cases calls with
      | nil => exact stepOperand_moves .firstArgument ok
      | cons opened calls =>
          simp only [step] at ok
          split at ok
          · rename_i parenthesis
            subst parenthesis
            cases ok
            exact .closeEmpty
          · exact stepOperand_moves .firstArgument ok
  | dot =>
      simp only [step] at ok
      split at ok
      · rename_i identifier
        cases ok
        exact .extend .dot identifier
      · exact stepTail_moves .top ok
  | name cs =>
      simp only [step] at ok
      split at ok
      · rename_i identifier
        cases ok
        exact .extend .name identifier
      · exact stepTail_moves .name ok
  | key base cs =>
      simp only [step, stepKey] at ok
      split at ok
      · rename_i identifier
        cases ok
        exact .extend .key identifier
      · split at ok
        · cases ok
        · rename_i filled
          exact stepTail_moves (.key (by simpa using filled)) ok
  | tail operand => exact stepTail_moves .tail ok
  | ended operand => exact stepEnded_moves .ended ok

theorem step_of_begins (begins : place.Begins) (other : c ≠ ')') :
    step ⟨place, calls⟩ c = stepOperand ⟨place, calls⟩ c := by
  cases begins with
  | operand => rfl
  | firstArgument => cases calls <;> simp [step, other]

theorem step_of_holds (holds : place.Holds operand) (other : isIdentifierChar c = false) :
    step ⟨place, calls⟩ c = stepTail ⟨place, calls⟩ operand c := by
  cases holds with
  | key filled => simp [step, stepKey, other, filled]
  | _ => simp [step, other]

theorem step_of_ends (ends : place.Ends operand) (other : isIdentifierChar c = false)
    (dot : c ≠ '.') (parenthesis : c ≠ '(') :
    step ⟨place, calls⟩ c = stepEnded ⟨place, calls⟩ operand c := by
  cases ends with
  | holds holds => simp [step_of_holds holds other, stepTail, dot, parenthesis]
  | ended => rfl

theorem step_of_moves (moves : r.Moves c r') : r.step c = .ok r' := by
  cases moves with
  | blank begins blank =>
      have apart := not_mark_of_isBlank blank
      simp only [List.mem_cons, List.not_mem_nil, or_false, not_or] at apart
      simp [step_of_begins begins apart.2.2.1, stepOperand, blank]
  | dot begins =>
      simp [step_of_begins begins (c := '.') (by decide), stepOperand, Text.isBlank, goTo]
  | name begins identifier =>
      obtain ⟨full, apart⟩ := (isIdentifierChar_iff c).mp identifier
      simp only [List.mem_cons, List.not_mem_nil, or_false, not_or] at apart
      simp [step_of_begins begins apart.2.2.1, stepOperand, full, apart.1, identifier, goTo]
  | extend extends_ identifier =>
      cases extends_ with
      | key => simp [step, stepKey, identifier, goTo]
      | _ => simp [step, identifier, goTo]
  | key holds => simp [step_of_holds holds (c := '.') (by decide), stepTail, goTo]
  | call holds => simp [step_of_holds holds (c := '(') (by decide), stepTail]
  | ended ends blank =>
      have apart := not_mark_of_isBlank blank
      simp only [List.mem_cons, List.not_mem_nil, or_false, not_or] at apart
      have other : isIdentifierChar c = false := by simp [isIdentifierChar, blank]
      simp [step_of_ends ends other apart.1 apart.2.1, stepEnded, blank, goTo]
  | argument ends =>
      rw [step_of_ends ends (by decide) (by decide) (by decide)]
      simp [stepEnded, Text.isBlank]
  | close ends =>
      rw [step_of_ends ends (by decide) (by decide) (by decide)]
      simp [stepEnded, Text.isBlank]
  | closeEmpty => simp [step]

theorem finishOperand_eq_ok_iff {e : Expression} :
    r.finishOperand operand = .ok e ↔ r.calls = [] ∧ operand = e := by
  cases calls : r.calls <;> simp [finishOperand, calls]

theorem finish_ends (ok : r.finish = .ok operand) : r.calls = [] ∧ r.place.Ends operand := by
  obtain ⟨place, calls⟩ := r
  cases place with
  | operand => cases ok
  | firstArgument => cases ok
  | dot =>
      obtain ⟨closed, rfl⟩ := finishOperand_eq_ok_iff.mp ok
      exact ⟨closed, .holds .top⟩
  | name cs =>
      obtain ⟨closed, rfl⟩ := finishOperand_eq_ok_iff.mp ok
      exact ⟨closed, .holds .name⟩
  | key base cs =>
      simp only [finish] at ok
      split at ok
      · cases ok
      · rename_i filled
        obtain ⟨closed, rfl⟩ := finishOperand_eq_ok_iff.mp ok
        exact ⟨closed, .holds (.key (by simpa using filled))⟩
  | tail last =>
      obtain ⟨closed, rfl⟩ := finishOperand_eq_ok_iff.mp ok
      exact ⟨closed, .holds .tail⟩
  | ended last =>
      obtain ⟨closed, rfl⟩ := finishOperand_eq_ok_iff.mp ok
      exact ⟨closed, .ended⟩

theorem finish_of_ends (ends : place.Ends operand) : finish ⟨place, []⟩ = .ok operand := by
  cases ends with
  | holds holds =>
      cases holds with
      | key filled => simp [finish, finishOperand, filled]
      | _ => rfl
  | ended => rfl

inductive Reads : Reader → List Char → Reader → Prop
  | nil {r : Reader} : Reads r [] r
  | cons {r r' r'' : Reader} {c : Char} {cs : List Char} : r.Moves c r' → Reads r' cs r'' →
      Reads r (c :: cs) r''

theorem foldlM_step_iff {cs : List Char} : cs.foldlM step r = .ok r' ↔ r.Reads cs r' := by
  induction cs generalizing r with
  | nil =>
      constructor
      · intro same
        cases same
        exact .nil
      · rintro ⟨⟩
        rfl
  | cons c cs ih =>
      rw [List.foldlM_cons]
      constructor
      · intro ok
        cases first : r.step c with
        | error error =>
            rw [first] at ok
            cases ok
        | ok next =>
            rw [first] at ok
            exact .cons (step_moves first) (ih.mp ok)
      · rintro (_ | ⟨first, rest⟩)
        rw [step_of_moves first]
        exact ih.mpr rest

theorem Reads.single (moves : r.Moves c r') : r.Reads [c] r' :=
  .cons moves .nil

theorem Reads.trans {r'' : Reader} {cs ds : List Char} (first : r.Reads cs r')
    (second : r'.Reads ds r'') : r.Reads (cs ++ ds) r'' := by
  induction first with
  | nil => exact second
  | cons moves _ ih => exact .cons moves (ih second)

end Reader

theorem ofText_eq_ok_iff_reads {text : String} {expression : Expression} :
    ofText text = .ok expression ↔
      ∃ place, Reader.start.Reads text.toList ⟨place, []⟩ ∧ place.Ends expression := by
  constructor
  · intro ok
    unfold ofText at ok
    cases read : text.toList.foldlM Reader.step Reader.start with
    | error error =>
        rw [read] at ok
        cases ok
    | ok r =>
        rw [read] at ok
        obtain ⟨place, calls⟩ := r
        obtain ⟨rfl, ends⟩ := Reader.finish_ends ok
        exact ⟨place, Reader.foldlM_step_iff.mp read, ends⟩
  · rintro ⟨place, reads, ends⟩
    unfold ofText
    rw [Reader.foldlM_step_iff.mpr reads]
    exact Reader.finish_of_ends ends

end Stencil.Expression
