import Mathlib.Order.Basic
import Stencil.Library
import Stencil.Source

namespace Stencil

namespace Store

theorem size_add (store : Store) (document : Document) :
    (store.add document).2.size = store.size + 1 := by
  simp [add, size]

theorem size_reserve (store : Store) : store.reserve.2.size = store.size + 1 := by
  simp [reserve, size]

theorem size_fill (store : Store) (ref : Ref) (document : Document) :
    (store.fill ref document).size = store.size := by
  unfold fill
  split
  · rfl
  · simp [size]

theorem get?_fill_of_ne (store : Store) {ref other : Ref} (document : Document)
    (apart : other ≠ ref) : (store.fill ref document).get? other = store.get? other := by
  unfold fill
  split
  · rfl
  · have index : ref.index ≠ other.index := by
      intro same
      apply apart
      cases ref
      cases other
      cases same
      rfl
    simp [get?, index]

theorem get?_fill_self {store : Store} {ref : Ref} (document : Document)
    (reserved : ref.index < store.size) (empty : store.get? ref = none) :
    (store.fill ref document).get? ref = some document := by
  simp only [fill, empty]
  simp only [size] at reserved
  simp [get?, reserved]

theorem get?_eq_none {store : Store} {ref : Ref} (fresh : store.size ≤ ref.index) :
    store.get? ref = none := by
  simp only [get?, size] at fresh ⊢
  simp [Array.getElem?_eq_none fresh]

theorem lt_size {store : Store} {ref : Ref} {document : Document}
    (filled : store.get? ref = some document) : ref.index < store.size := by
  by_contra fresh
  rw [get?_eq_none (Nat.le_of_not_lt fresh)] at filled
  cases filled

def Keeps (earlier later : Store) : Prop :=
  ∀ (ref : Ref) (document : Document), earlier.get? ref = some document →
    later.get? ref = some document

theorem Keeps.get_eq {earlier later : Store} (kept : earlier.Keeps later) {ref : Ref}
    {document : Document} (filled : earlier.get? ref = some document) : later.get ref = document := by
  rw [get, kept ref document filled, Option.getD_some]

theorem keeps_fill (store : Store) (ref : Ref) (document : Document) :
    store.Keeps (store.fill ref document) :=
  fun _ _ filled => get?_fill_of_some filled ref document

end Store

namespace Library

structure Extends (earlier later : Library) : Prop where
  size : earlier.store.size ≤ later.store.size
  /-- Places that are reserved stay so, too. -/
  cells : ∀ ref : Ref, ref.index < earlier.store.size →
    later.store.get? ref = earlier.store.get? ref
  cache : ∃ added, later.cache = added ++ earlier.cache ∧
    ∀ entry ∈ added, earlier.cache.lookup entry.1 = none

namespace Extends

variable {a b c : Library}

theorem refl (a : Library) : a.Extends a :=
  ⟨Nat.le_refl _, fun _ _ => rfl, [], rfl, by simp⟩

theorem trans (first : a.Extends b) (second : b.Extends c) : a.Extends c := by
  obtain ⟨added, hb, fresh⟩ := first.cache
  obtain ⟨added', hc, fresh'⟩ := second.cache
  refine ⟨Nat.le_trans first.size second.size, ?_, added' ++ added, ?_, ?_⟩
  · intro ref known
    rw [second.cells ref (Nat.lt_of_lt_of_le known first.size), first.cells ref known]
  · rw [hc, hb, List.append_assoc]
  · intro entry member
    rcases List.mem_append.mp member with new | old
    · have := fresh' entry new
      rw [hb, List.lookup_append, Option.or_eq_none_iff] at this
      exact this.2
    · exact fresh entry old

theorem lookup (grown : a.Extends b) {id : String} {ref : Ref}
    (cached : a.cache.lookup id = some ref) : b.cache.lookup id = some ref := by
  obtain ⟨added, hb, fresh⟩ := grown.cache
  have other : added.lookup id = none := by
    rw [List.lookup_eq_none_iff]
    intro entry member
    rw [bne_iff_ne]
    rintro rfl
    rw [fresh entry member] at cached
    cases cached
  rw [hb, List.lookup_append, other, cached]
  rfl

theorem get? (grown : a.Extends b) {ref : Ref} {document : Document}
    (filled : a.store.get? ref = some document) : b.store.get? ref = some document := by
  rw [grown.cells ref (Store.lt_size filled), filled]

end Extends

structure Keeps (earlier later : Library) : Prop where
  store : earlier.store.Keeps later.store
  cache : ∀ {id : String} {ref : Ref}, earlier.cache.lookup id = some ref →
    later.cache.lookup id = some ref

namespace Keeps

variable {a b c : Library}

theorem refl (a : Library) : a.Keeps a :=
  ⟨fun _ _ filled => filled, fun cached => cached⟩

theorem trans (first : a.Keeps b) (second : b.Keeps c) : a.Keeps c :=
  ⟨fun ref document filled => second.store ref document (first.store ref document filled),
    fun cached => second.cache (first.cache cached)⟩

end Keeps

theorem Extends.keeps {a b : Library} (grown : a.Extends b) : a.Keeps b :=
  ⟨fun _ _ filled => grown.get? filled, fun cached => grown.lookup cached⟩

/-- The document that a template's name stands for, where the template is referred to from a base. -/
def Links (library : Library) (source : Option Source) (base : Option String) (name : String)
    (ref : Ref) : Prop :=
  ∃ s id, source = some s ∧ s.id? name base = some id ∧ library.cache.lookup id = some ref

theorem Links.kept {a b : Library} {source : Option Source} {base : Option String} {name : String}
    {ref : Ref} (links : a.Links source base name ref) (kept : a.Keeps b) :
    b.Links source base name ref := by
  obtain ⟨s, id, hsource, hid, cached⟩ := links
  exact ⟨s, id, hsource, hid, kept.cache cached⟩

theorem extends_add (a : Library) (document : Document) :
    a.Extends { a with store := (a.store.add document).2 } := by
  refine ⟨?_, ?_, [], rfl, by simp⟩
  · rw [Store.size_add]
    omega
  · intro ref known
    exact Store.get?_add_of_lt a.store document known

end Library

namespace Build

variable {α β : Type}

def Yields (build : Build α) (before : Library) (a : α) (after : Library) : Prop :=
  build.run before = (.ok a, after)

/-- A build leaves a library that extends the one before, also where it fails. -/
def Grows (build : Build α) : Prop :=
  ∀ before : Library, before.Extends (build.run before).2

variable {before after : Library}

theorem yields_pure {a b : α} : Yields (pure a) before b after ↔ b = a ∧ after = before := by
  constructor
  · rintro ⟨⟩
    exact ⟨rfl, rfl⟩
  · rintro ⟨rfl, rfl⟩
    rfl

theorem run_bind (build : Build α) (next : α → Build β) (before : Library) :
    (build >>= next).run before =
      match build.run before with
      | (.ok a, middle) => (next a).run middle
      | (.error failure, middle) => (.error failure, middle) := by
  have steps : (build >>= next).run before =
      ExceptT.bindCont next (build.run before).1 (build.run before).2 := rfl
  rw [steps]
  rcases build.run before with ⟨result, middle⟩
  cases result <;> rfl

theorem yields_bind {build : Build α} {next : α → Build β} {b : β} :
    Yields (build >>= next) before b after ↔
      ∃ a middle, build.Yields before a middle ∧ (next a).Yields middle b after := by
  simp only [Yields, run_bind]
  rcases build.run before with ⟨result, middle⟩
  constructor
  · intro yields
    cases result with
    | error failure => cases yields
    | ok a => exact ⟨a, middle, rfl, yields⟩
  · rintro ⟨a, middle', ⟨⟩, yields⟩
    exact yields

theorem not_yields_throw {failure : Failure} {a : α} :
    ¬ Yields (throw failure) before a after := by
  rintro ⟨⟩

theorem yields_ofParse {result : Except ParseError α} {a : α} :
    Yields (ofParse result) before a after ↔ result = .ok a ∧ after = before := by
  cases result with
  | error error => simp [ofParse, not_yields_throw]
  | ok b => simp [ofParse, yields_pure, eq_comm]

theorem yields_ofParse_bind {result : Except ParseError α} {next : α → Build β} {b : β} :
    Yields (ofParse result >>= next) before b after ↔
      ∃ a, result = .ok a ∧ (next a).Yields before b after := by
  rw [yields_bind]
  constructor
  · rintro ⟨a, middle, parsed, yields⟩
    obtain ⟨ok, rfl⟩ := yields_ofParse.mp parsed
    exact ⟨a, ok, yields⟩
  · rintro ⟨a, ok, yields⟩
    exact ⟨a, before, yields_ofParse.mpr ⟨ok, rfl⟩, yields⟩

theorem yields_ofExcept {result : Except Error α} {a : α} :
    Yields (ofExcept result) before a after ↔ result = .ok a ∧ after = before := by
  cases result with
  | error error => simp [ofExcept, not_yields_throw]
  | ok b => simp [ofExcept, yields_pure, eq_comm]

theorem yields_add {document : Document} {ref : Ref} :
    Yields (add document) before ref after ↔
      ref = ⟨before.store.size⟩ ∧ after = { before with store := (before.store.add document).2 } := by
  constructor
  · rintro ⟨⟩
    exact ⟨rfl, rfl⟩
  · rintro ⟨rfl, rfl⟩
    rfl

theorem yields_fill {ref : Ref} {document : Document} {u : Unit} :
    Yields (fill ref document) before u after ↔
      after = { before with store := before.store.fill ref document } := by
  constructor
  · rintro ⟨⟩
    rfl
  · rintro rfl
    rfl

theorem Grows.yields {build : Build α} (grows : build.Grows) {a : α}
    (yields : build.Yields before a after) : before.Extends after := by
  have grown := grows before
  rw [yields] at grown
  exact grown

theorem grows_pure (a : α) : Grows (pure a) :=
  fun before => .refl before

theorem grows_throw (failure : Failure) : Grows (throw failure : Build α) :=
  fun before => .refl before

theorem Grows.bind {build : Build α} {next : α → Build β} (first : build.Grows)
    (second : ∀ a, (next a).Grows) : Grows (build >>= next) := by
  intro before
  have grown := first before
  rw [run_bind]
  rcases hrun : build.run before with ⟨result, middle⟩
  rw [hrun] at grown
  cases result with
  | error failure => exact grown
  | ok a => exact grown.trans (second a middle)

theorem grows_ofParse (result : Except ParseError α) : Grows (ofParse result) := by
  cases result with
  | error error => exact grows_throw _
  | ok a => exact grows_pure a

theorem grows_add (document : Document) : Grows (add document) :=
  fun before => before.extends_add document

end Build

end Stencil
