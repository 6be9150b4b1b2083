import Stencil.Evaluation
import Stencil.Proofs.Context.Nodes

namespace Stencil

variable {κ : Type}

inductive Value.Plain : Value κ → Prop
  | null : Plain .null
  | bool {b : Bool} : Plain (.bool b)
  | int {i : Int} : Plain (.int i)
  | float {x : Double} : Plain (.float x)
  | text {string : String} : Plain (.text string)
  | list {items : List (Value κ)} : (∀ item ∈ items, Plain item) → Plain (.list items)
  | map {entries : Dictionary (Value κ)} : (∀ entry ∈ entries.toList, Plain entry.2) →
      Plain (.map entries)
  | each {identity : Nat} : Plain (.custom identity none { filter := some .each })
  | escape {identity : Nat} : Plain (.custom identity none { filter := some .escape })

theorem Value.Plain.ofPairs {pairs : List (String × Value κ)} (all : ∀ pair ∈ pairs, pair.2.Plain) :
    (Value.ofPairs pairs).Plain :=
  .map (Dictionary.forall_mem_ofPairs all)

theorem Filter.position_plain (index count : Nat) (key : Option String) :
    (position index count key : Value κ).Plain := by
  refine .ofPairs ?_
  cases key with
  | none => simp [Value.Plain.int, Value.Plain.bool]
  | some key => simp [Value.Plain.int, Value.Plain.bool, Value.Plain.text]

theorem Filter.exists_of_positioned (items : List (Option String × Value κ)) :
    ∃ values, positioned items = .list values ∧ ∀ value ∈ values, ∃ position : Value κ,
      position.Plain ∧ ∃ entry ∈ items, value = .rendering (.item position entry.2) := by
  refine ⟨_, rfl, fun value member => ?_⟩
  obtain ⟨index, short, rfl⟩ := List.mem_mapIdx.mp member
  exact ⟨_, position_plain _ _ _, items[index], List.getElem_mem short, rfl⟩

theorem Value.standardFilters_plain (identity : Nat) :
    (standardFilters identity : Value κ).Plain :=
  .ofPairs (by simp [Value.Plain.each, Value.Plain.escape])

section Lookup

variable [Functions κ]

namespace Value

theorem lookup_list (items : List (Value κ)) (key : String) :
    (list items).lookup key ∈ items ∨ ((list items).lookup key).Plain := by
  have getD {found : Option (Value κ)} (inside : ∀ value ∈ found, value ∈ items) :
      found.getD .null ∈ items ∨ (found.getD .null).Plain := by
    cases found with
    | none => exact .inr .null
    | some value => exact .inl (inside value rfl)
  simp only [Value.lookup]
  split
  · exact .inr .int
  · split
    · exact getD fun value => List.mem_of_mem_head?
    · split
      · exact getD fun value => List.mem_of_mem_getLast?
      · exact .inr .null

theorem lookup_map (entries : Dictionary (Value κ)) (key : String) :
    (key, (map entries).lookup key) ∈ entries.toList ∨ (map entries).lookup key = .null := by
  rw [Value.lookup]
  cases found : entries.toList.lookup key with
  | none => exact .inr rfl
  | some value =>
      obtain ⟨before, after, same, -⟩ := List.lookup_eq_some_iff.mp found
      exact .inl (by simp [same])

end Value

end Lookup

/-- Kinds of parts of values, and of values of expressions. A list has such parts, and what the
standard filters and the functions of the host make of such values is such a value again. -/
structure Value.Closed [Functions κ] (Part P : Value κ → Prop) : Prop where
  plain : ∀ {value}, value.Plain → Part value
  whole : ∀ {value}, Part value → P value
  list : ∀ {items}, (∀ item ∈ items, Part item) → Part (.list items)
  item : ∀ {position item}, Part position → Part item → Part (.rendering (.item position item))
  escaped : ∀ {value}, P value → P (.rendering (.escaped value))
  items : ∀ {value items}, P value → value.items? = some items → ∀ item ∈ items, Part item
  entries : ∀ {value entries}, P value → value.entries? = some entries →
    ∀ entry ∈ entries, Part entry.2
  lookup : ∀ {value}, P value → ∀ key, P (value.lookup key)
  filter : ∀ {value name arguments result}, P value → value.filter? = some (.host name) →
    (∀ argument ∈ arguments, P argument) → Functions.filter name arguments = .ok result → P result

namespace Value.Closed

variable [Functions κ] {Part P : Value κ → Prop} {value result : Value κ} {context : Context κ}

theorem null (closed : Value.Closed Part P) : P .null :=
  closed.whole (closed.plain .null)

theorem positioned (closed : Value.Closed Part P) {items : List (Option String × Value κ)}
    (all : ∀ entry ∈ items, Part entry.2) : Part (Filter.positioned items) := by
  obtain ⟨values, same, each⟩ := Filter.exists_of_positioned items
  rw [same]
  apply closed.list
  intro value member
  obtain ⟨position, plain, entry, inside, rfl⟩ := each value member
  exact closed.item (closed.plain plain) (all entry inside)

theorem iterate (closed : Value.Closed Part P) (here : P value)
    (ok : Filter.iterate value = .ok result) : P result := by
  unfold Filter.iterate at ok
  split at ok
  · cases ok
    exact here
  · split at ok
    · rename_i entries _ found
      cases ok
      exact closed.whole (closed.positioned (List.forall_mem_map.mpr (closed.entries here found)))
    · rename_i items _ found
      cases ok
      exact closed.whole (closed.positioned (List.forall_mem_map.mpr (closed.items here found)))
    · cases ok

theorem apply (closed : Value.Closed Part P) (here : P value) {applied : Filter κ}
    (found : value.filter? = some applied) {arguments : List (Value κ)}
    (all : ∀ argument ∈ arguments, P argument) (ok : applied.apply arguments = .ok result) :
    P result := by
  cases applied with
  | each =>
      simp only [Filter.apply, Filter.withOne] at ok
      split at ok
      · exact closed.iterate (all _ (by simp)) ok
      · cases ok
  | escape =>
      simp only [Filter.apply, Filter.withOne] at ok
      split at ok
      · cases ok
        exact closed.escaped (all _ (by simp))
      · cases ok
  | host name => exact closed.filter here found all ok

theorem top (closed : Value.Closed Part P) (each : context.Each Part) : P context.top := by
  have values := each.values
  unfold Context.top
  cases found : context.values with
  | nil => exact closed.null
  | cons value rest => exact closed.whole (values value (by simp [found]))

theorem lookup_context (closed : Value.Closed Part P) (each : context.Each Part) (key : String) :
    P (context.lookup key) := by
  rcases context.lookup_cases key with ⟨value, member, found⟩ | null
  · rw [found]
    have part : Part value := (List.mem_append.mp member).elim (each.overlay _) (each.values _)
    exact closed.lookup (closed.whole part) key
  · rw [null]
    exact closed.null

end Value.Closed

structure Value.Bounded (Part P : Value κ → Prop) : Prop where
  plain : ∀ {value}, value.Plain → Part value
  whole : ∀ {value}, Part value → P value
  items : ∀ {items}, P (.list items) → ∀ item ∈ items, Part item
  entries : ∀ {entries}, P (.map entries) → ∀ entry ∈ entries.toList, Part entry.2
  custom : ∀ {identity inner traits}, P (.custom identity inner traits) →
    inner = none ∧ traits.lookup = none ∧ ∀ name, traits.filter ≠ some (.host name)

theorem Value.Bounded.closed [Functions κ] {Part P : Value κ → Prop} (bounded : Value.Bounded Part P)
    (list : ∀ {items}, (∀ item ∈ items, Part item) → Part (.list items))
    (item : ∀ {position item}, Part position → Part item → Part (.rendering (.item position item)))
    (escaped : ∀ {value}, P value → P (.rendering (.escaped value))) : Value.Closed Part P where
  plain := bounded.plain
  whole := bounded.whole
  list := list
  item := item
  escaped := escaped
  items {value items} here found := by
    cases value with
    | list =>
        cases found
        exact bounded.items here
    | custom =>
        obtain ⟨rfl, -⟩ := bounded.custom here
        cases found
    | _ => cases found
  entries {value entries} here found := by
    cases value with
    | map =>
        cases found
        exact bounded.entries here
    | custom =>
        obtain ⟨rfl, -⟩ := bounded.custom here
        cases found
    | _ => cases found
  lookup {value} here key := by
    have null : P .null := bounded.whole (bounded.plain .null)
    cases value with
    | list items =>
        apply bounded.whole
        rcases lookup_list items key with member | plain
        · exact bounded.items here _ member
        · exact bounded.plain plain
    | map entries =>
        rcases lookup_map entries key with member | missing
        · exact bounded.whole (bounded.entries here _ member)
        · rw [missing]
          exact null
    | custom identity inner traits =>
        obtain ⟨rfl, none, -⟩ := bounded.custom here
        obtain ⟨description, truth, lookup, filter, renderer, will, did⟩ := traits
        cases none
        exact null
    | _ => exact null
  filter {value name arguments result} here found := by
    cases value with
    | custom =>
        obtain ⟨rfl, -, standard⟩ := bounded.custom here
        exact absurd found (standard name)
    | _ => cases found

variable [Functions κ] {Part P : Value κ → Prop} {context : Context κ}

namespace Expression

theorem bind_ok {ε α β : Type} {result : Except ε α} {next : α → Except ε β} {b : β}
    (ok : (result >>= next) = .ok b) : ∃ a, result = .ok a ∧ next a = .ok b := by
  cases result with
  | error error => cases ok
  | ok a => exact ⟨a, rfl, ok⟩

mutual

theorem evaluate_closed (closed : Value.Closed Part P) (each : context.Each Part) :
    (expression : Expression) → {value : Value κ} → expression.evaluate context = .ok value →
    P value
  | .top, value, ok => by
    cases ok
    exact closed.top each
  | .name identifier, value, ok => by
    cases ok
    exact closed.lookup_context each identifier
  | .key base identifier, value, ok => by
    rw [evaluate] at ok
    obtain ⟨result, found, ok⟩ := bind_ok ok
    cases ok
    exact closed.lookup (evaluate_closed closed each base found) identifier
  | .call filter arguments, value, ok => by
    rw [evaluate] at ok
    obtain ⟨result, found, ok⟩ := bind_ok ok
    dsimp only at ok
    split at ok
    · cases ok
    · split at ok
      · cases ok
      · rename_i applied hfilter
        obtain ⟨values, evaluated, ok⟩ := bind_ok ok
        have all := evaluateArguments_closed closed each arguments evaluated
        exact closed.apply (evaluate_closed closed each filter found) hfilter all ok

theorem evaluateArguments_closed (closed : Value.Closed Part P) (each : context.Each Part) :
    (arguments : List Expression) → {values : List (Value κ)} →
    evaluateArguments context arguments = .ok values → ∀ value ∈ values, P value
  | [], values, ok => by
    cases ok
    simp
  | argument :: arguments, values, ok => by
    rw [evaluateArguments] at ok
    obtain ⟨value, first, ok⟩ := bind_ok ok
    obtain ⟨rest, evaluated, ok⟩ := bind_ok ok
    cases ok
    exact List.forall_mem_cons.mpr ⟨evaluate_closed closed each argument first,
      evaluateArguments_closed closed each arguments evaluated⟩

end

end Expression

end Stencil
