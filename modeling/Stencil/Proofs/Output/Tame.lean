import Stencil.Proofs.Output.Plain

namespace Stencil

variable {κ : Type}

inductive Value.Tame : Value κ → Prop
  | null : Tame .null
  | bool {b : Bool} : Tame (.bool b)
  | int {i : Int} : Tame (.int i)
  | float {x : Double} : Tame (.float x)
  | text {string : String} : Tame (.text string)
  | list {items : List (Value κ)} : (∀ item ∈ items, Tame item) → Tame (.list items)
  | map {entries : Dictionary (Value κ)} : (∀ entry ∈ entries.toList, Tame entry.2) →
      Tame (.map entries)
  | each {identity : Nat} : Tame (.custom identity none { filter := some .each })
  | escape {identity : Nat} : Tame (.custom identity none { filter := some .escape })
  | item {position item : Value κ} : Tame position → Tame item →
      Tame (.rendering (.item position item))
  | escaped {value : Value κ} : Tame value → Tame (.rendering (.escaped value))

def Context.Tame (context : Context κ) : Prop :=
  context.Each Value.Tame

theorem Value.Plain.tame {value : Value κ} (plain : value.Plain) : value.Tame := by
  induction plain with
  | list _ ih => exact .list ih
  | map _ ih => exact .map ih
  | _ => constructor

theorem Context.Each.tame {context : Context κ} (plain : context.Each Value.Plain) :
    context.Tame :=
  plain.mono Value.Plain.tame

namespace Value.Tame

variable {value : Value κ}

theorem will?_eq_none (tame : value.Tame) : value.will? = none := by
  cases tame <;> rfl

theorem did?_eq_none (tame : value.Tame) : value.did? = none := by
  cases tame <;> rfl

theorem bounded : Value.Bounded (Tame : Value κ → Prop) Tame where
  plain := Plain.tame
  whole tame := tame
  items tame := by
    cases tame
    assumption
  entries tame := by
    cases tame
    assumption
  custom tame := by cases tame <;> simp

theorem closed [Functions κ] : Value.Closed (Tame : Value κ → Prop) Tame :=
  bounded.closed .list .item .escaped

end Value.Tame

namespace Context.Tame

variable {context : Context κ}

theorem push (tame : context.Tame) {value : Value κ} (pushed : value.Tame) :
    (context.push value).Tame :=
  Context.Each.push tame pushed

theorem wills_eq (tame : context.Tame) : context.wills = [] := by
  unfold Context.wills
  rw [List.filterMap_eq_nil_iff]
  exact fun value member => (tame.values value member).will?_eq_none

theorem dids_eq (tame : context.Tame) : context.dids = [] := by
  unfold Context.dids
  rw [List.reverse_eq_nil_iff, List.filterMap_eq_nil_iff]
  exact fun value member => (tame.values value member).did?_eq_none

end Context.Tame

theorem Expression.evaluate_tame [Functions κ] {context : Context κ} (tame : context.Tame)
    (expression : Expression) {value : Value κ} (ok : expression.evaluate context = .ok value) :
    value.Tame :=
  expression.evaluate_closed Value.Tame.closed tame ok

end Stencil
