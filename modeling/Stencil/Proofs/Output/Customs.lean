import Mathlib
import Stencil.Proofs.Output.Plain

namespace Stencil

variable {κ : Type}

def Lookup.parts {α : Type} : Lookup κ α → List α
  | .within value => [value]
  | .host _ => []

def Renderer.parts {α : Type} : Renderer κ α → List α
  | .item position value => [position, value]
  | .escaped value => [value]
  | .template _ | .host _ => []

def Traits.parts {α : Type} (traits : Traits κ α) : List α :=
  traits.lookup.elim [] Lookup.parts ++ traits.renderer.elim [] Renderer.parts

namespace Value

/-- A value in which all custom values have traits of a kind. -/
inductive Every (P : Traits κ (Value κ) → Prop) : Value κ → Prop
  | null : Every P .null
  | bool {b : Bool} : Every P (.bool b)
  | int {i : Int} : Every P (.int i)
  | float {x : Double} : Every P (.float x)
  | text {string : String} : Every P (.text string)
  | list {items : List (Value κ)} : (∀ item ∈ items, Every P item) → Every P (.list items)
  | map {entries : Dictionary (Value κ)} : (∀ entry ∈ entries.toList, Every P entry.2) →
      Every P (.map entries)
  | custom {identity : Nat} {inner : Option (Value κ)} {traits : Traits κ (Value κ)} :
      (∀ part ∈ inner.toList ++ traits.parts, Every P part) → P traits →
      Every P (.custom identity inner traits)

structure Standard (P : Traits κ (Value κ) → Prop) : Prop where
  each : P { filter := some .each }
  escape : P { filter := some .escape }
  item : ∀ position item, P { renderer := some (.item position item) }
  escaped : ∀ value, P { renderer := some (.escaped value) }

variable {P : Traits κ (Value κ) → Prop} {value : Value κ}

theorem Plain.every (standard : Standard P) (plain : value.Plain) : value.Every P := by
  induction plain with
  | list _ ih => exact .list ih
  | map _ ih => exact .map ih
  | each => exact .custom (by simp [Traits.parts]) standard.each
  | escape => exact .custom (by simp [Traits.parts]) standard.escape
  | _ => constructor

namespace Every

theorem rendering {renderer : Renderer κ (Value κ)} (parts : ∀ part ∈ renderer.parts, Every P part)
    (holds : P { renderer := some renderer }) : (Value.rendering renderer).Every P :=
  .custom (by simpa [Traits.parts] using parts) holds

section Parts

variable {identity : Nat} {inner : Option (Value κ)} {traits : Traits κ (Value κ)}

theorem of_list {items : List (Value κ)} (every : (Value.list items).Every P) :
    ∀ item ∈ items, item.Every P := by
  cases every
  assumption

theorem of_custom (every : (Value.custom identity inner traits).Every P) : P traits := by
  cases every
  assumption

theorem of_inner (every : (Value.custom identity inner traits).Every P) :
    ∀ value ∈ inner, value.Every P := by
  cases every with
  | custom parts => exact fun value member => parts value (by simp_all)

theorem of_renderer (every : (Value.custom identity inner traits).Every P)
    {renderer : Renderer κ (Value κ)} (found : traits.renderer = some renderer) :
    ∀ part ∈ renderer.parts, part.Every P := by
  cases every with
  | custom parts => exact fun part member => parts part (by simp [Traits.parts, found, member])

end Parts

theorem filter? (every : value.Every P) {applied : Filter κ} (found : value.filter? = some applied) :
    ∃ traits, P traits ∧ traits.filter = some applied := by
  induction every with
  | @custom identity inner traits _ holds ih =>
      cases inner with
      | none => exact ⟨traits, holds, found⟩
      | some inner =>
          simp only [Value.filter?, Option.or_eq_some_iff] at found
          rcases found with own | ⟨-, inherited⟩
          · exact ⟨traits, holds, own⟩
          · exact ih inner (by simp) inherited
  | _ => cases found

theorem items? (every : value.Every P) {items : List (Value κ)}
    (found : value.items? = some items) : ∀ item ∈ items, item.Every P := by
  induction every with
  | list parts =>
      cases found
      exact parts
  | @custom identity inner traits _ _ ih =>
      cases inner with
      | none => cases found
      | some inner => exact ih inner (by simp) found
  | _ => cases found

theorem entries? (every : value.Every P) {entries : List (String × Value κ)}
    (found : value.entries? = some entries) : ∀ entry ∈ entries, entry.2.Every P := by
  induction every with
  | map parts =>
      cases found
      exact parts
  | @custom identity inner traits _ _ ih =>
      cases inner with
      | none => cases found
      | some inner => exact ih inner (by simp) found
  | _ => cases found

end Every

variable [Functions κ]

structure Kept (P : Traits κ (Value κ) → Prop) : Prop extends Standard P where
  lookup : ∀ {traits name}, P traits → traits.lookup = some (.host name) → ∀ key,
    (Functions.lookup name key).Every P
  filter : ∀ {traits name}, P traits → traits.filter = some (.host name) → ∀ {arguments value},
    (∀ argument ∈ arguments, argument.Every P) → Functions.filter name arguments = .ok value →
      value.Every P

namespace Every

theorem lookup (kept : Kept P) (every : value.Every P) (key : String) :
    (value.lookup key).Every P := by
  induction every with
  | @list items parts _ =>
      rcases lookup_list items key with member | plain
      · exact parts _ member
      · exact plain.every kept.toStandard
  | @map entries parts _ =>
      rcases lookup_map entries key with member | null
      · exact parts _ member
      · rw [null]
        exact .null
  | @custom identity inner traits parts holds ih =>
      obtain ⟨description, truth, lookup, filter, renderer, will, did⟩ := traits
      rcases lookup with _ | within | name
      · cases inner with
        | none => exact .null
        | some inner => exact ih inner (by simp)
      · exact ih within (by simp [Traits.parts, Lookup.parts])
      · exact kept.lookup holds rfl key
  | _ => exact .null

theorem closed (kept : Kept P) : Value.Closed (Every P) (Every P) where
  plain := Plain.every kept.toStandard
  whole every := every
  list := .list
  item position item := rendering (by simpa [Renderer.parts] using ⟨position, item⟩) (kept.item _ _)
  escaped every := rendering (by simpa [Renderer.parts] using every) (kept.escaped _)
  items every := every.items?
  entries every := every.entries?
  lookup := lookup kept
  filter every found all ok := by
    obtain ⟨traits, holds, own⟩ := every.filter? found
    exact kept.filter holds own all ok

end Every

end Value

end Stencil
