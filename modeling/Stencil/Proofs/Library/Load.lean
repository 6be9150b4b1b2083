import Stencil.Proofs.Assembly.Run
import Stencil.Repository

namespace Stencil

namespace Library

def reserved (library : Library) (id : String) : Library :=
  ⟨library.store.reserve.2, (id, ⟨library.store.size⟩) :: library.cache⟩

theorem extends_reserved {library : Library} {id : String} (fresh : library.cache.lookup id = none) :
    library.Extends (library.reserved id) := by
  refine ⟨?_, fun ref _ => Store.get?_reserve library.store ref, [(id, ⟨library.store.size⟩)], rfl, ?_⟩
  · simp only [reserved, Store.size_reserve]
    omega
  · intro entry member
    rw [List.mem_singleton.mp member]
    exact fresh

theorem Extends.fill {a b : Library} (grown : a.Extends b) {ref : Ref}
    (later : a.store.size ≤ ref.index) (document : Document) :
    a.Extends { b with store := b.store.fill ref document } := by
  refine ⟨?_, ?_, grown.cache⟩
  · rw [Store.size_fill]
    exact grown.size
  · intro other known
    have apart : other ≠ ref := by
      rintro rfl
      omega
    rw [Store.get?_fill_of_ne b.store document apart]
    exact grown.cells other known

theorem keeps_fill (library : Library) (ref : Ref) (document : Document) :
    library.Keeps { library with store := library.store.fill ref document } :=
  ⟨Store.keeps_fill library.store ref document, fun cached => cached⟩

end Library

namespace Repository

variable {κ : Type} {repository : Repository κ} {base : Option String} {before after : Library}

theorem grows_compile {resolve : String → Build (Option Ref)} (grows : ∀ name, (resolve name).Grows)
    (text : String) (id : Option String) : (repository.compile resolve text id).Grows :=
  Assembly.grows_ofScan grows _ _ _

def loadText (repository : Repository κ) (depth : Nat) (source : Source) (id : String) (ref : Ref) :
    Build (Option Ref) := do
  let text ← Build.ofExcept (source.text id)
  let document ← repository.compile (repository.load depth (some id)) text (some id)
  Build.fill ref document
  return some ref

/-- How a template of a repository is found. -/
inductive Loads (repository : Repository κ) (depth : Nat) (base : Option String) (name : String)
    (before : Library) : Option Ref → Library → Prop
  | unknown : Loads repository depth base name before none before
  | cached {ref : Ref} : before.Links repository.source base name ref →
      Loads repository depth base name before (some ref) before
  | compiled {source : Source} {id text : String} {document : Document} {middle : Library} :
      repository.source = some source → source.id? name base = some id →
      before.cache.lookup id = none → source.text id = .ok text →
      (repository.compile (repository.load depth (some id)) text (some id)).Yields
        (before.reserved id) document middle →
      Loads repository depth base name before (some ⟨before.store.size⟩)
        { middle with store := middle.store.fill ⟨before.store.size⟩ document }

theorem load_succ (repository : Repository κ) (depth : Nat) (base : Option String) (name : String)
    (before : Library) :
    (repository.load (depth + 1) base name).run before =
      match repository.source with
      | none => (.ok none, before)
      | some source =>
        match source.id? name base with
        | none => (.ok none, before)
        | some id =>
          match before.cache.lookup id with
          | some ref => (.ok (some ref), before)
          | none =>
            (repository.loadText depth source id ⟨before.store.size⟩).run (before.reserved id) := by
  rw [load]
  cases repository.source with
  | none => rfl
  | some source =>
      dsimp only
      cases source.id? name base with
      | none => rfl
      | some id =>
          dsimp only
          have cached : (Build.cached? id).run before = (.ok (before.cache.lookup id), before) := rfl
          rw [Build.run_bind, cached]
          dsimp only
          cases before.cache.lookup id with
          | some ref => rfl
          | none => rfl

theorem load_loads {depth : Nat} {name : String} {found : Option Ref}
    (yields : (repository.load (depth + 1) base name).Yields before found after) :
    Loads repository depth base name before found after := by
  rw [Build.Yields, load_succ] at yields
  split at yields
  · cases yields
    exact .unknown
  · rename_i source hsource
    split at yields
    · cases yields
      exact .unknown
    · rename_i id hid
      split at yields
      · rename_i ref hcached
        cases yields
        exact .cached ⟨source, id, hsource, hid, hcached⟩
      · rename_i fresh
        have steps : (repository.loadText depth source id ⟨before.store.size⟩).Yields
          (before.reserved id) found after := yields
        obtain ⟨text, middle, read, steps⟩ := Build.yields_bind.mp steps
        obtain ⟨htext, rfl⟩ := Build.yields_ofExcept.mp read
        obtain ⟨document, middle, compiled, steps⟩ := Build.yields_bind.mp steps
        obtain ⟨u, filled, fill, last⟩ := Build.yields_bind.mp steps
        obtain rfl := Build.yields_fill.mp fill
        obtain ⟨rfl, rfl⟩ := Build.yields_pure.mp last
        exact .compiled hsource hid fresh htext compiled

theorem grows_load (repository : Repository κ) (depth : Nat) (base : Option String) (name : String) :
    (repository.load depth base name).Grows := by
  induction depth generalizing base name with
  | zero => exact Build.grows_throw _
  | succ depth ih =>
      intro before
      rw [load_succ]
      split
      · exact .refl before
      · rename_i source _
        split
        · exact .refl before
        · rename_i id _
          split
          · exact .refl before
          · rename_i fresh
            have placed := Library.extends_reserved fresh
            rw [loadText, Build.run_bind]
            cases htext : source.text id with
            | error error => exact placed
            | ok text =>
                have read : (Build.ofExcept (.ok text)).run (before.reserved id) =
                    (.ok text, before.reserved id) := rfl
                rw [read]
                dsimp only
                rw [Build.run_bind]
                let compiled := repository.compile (repository.load depth (some id)) text (some id)
                have grows : compiled.Grows := grows_compile (ih (some id)) text (some id)
                have grown := grows (before.reserved id)
                rcases hrun : compiled.run (before.reserved id) with ⟨result, middle⟩
                rw [hrun] at grown
                cases result with
                | error failure => exact placed.trans grown
                | ok document => exact (placed.trans grown).fill (Nat.le_refl _) document

theorem links_of_load {depth : Nat} {name : String} {ref : Ref}
    (yields : (repository.load depth base name).Yields before (some ref) after) :
    after.Links repository.source base name ref := by
  cases depth with
  | zero => exact absurd yields Build.not_yields_throw
  | succ depth =>
      cases load_loads yields with
      | cached links => exact links
      | @compiled source id text document middle hsource hid _ _ compiled =>
          have grown := (grows_compile (grows_load repository depth (some id)) text (some id)).yields
            compiled
          have placed : (before.reserved id).cache.lookup id = some ⟨before.store.size⟩ := by
            simp [Library.reserved]
          exact ⟨source, id, hsource, hid, grown.lookup placed⟩

theorem resolves_load (repository : Repository κ) (depth : Nat) (base : Option String) :
    Resolves repository.source base (repository.load depth base) :=
  ⟨grows_load repository depth base, links_of_load⟩

theorem recalls_load (repository : Repository κ) (depth : Nat) (base : Option String) :
    Recalls repository.source base (repository.load (depth + 1) base) := by
  rintro name ref library ⟨source, id, hsource, hid, cached⟩
  rw [Build.Yields, load_succ, hsource]
  dsimp only
  rw [hid]
  dsimp only
  rw [cached]

end Repository

end Stencil
