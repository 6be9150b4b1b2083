import Stencil.Proofs.Library.Closure

namespace Stencil

namespace Library

/-- Documents that were there before have the bodies they had, or none if they had none, and all that
the cached templates of before can reach has a body. -/
structure Undisturbed (before after : Library) : Prop where
  cells : ∀ ref : Ref, ref.index < before.store.size →
    after.store.get? ref = before.store.get? ref
  cached : ∀ {id : String} {root : Ref}, before.cache.lookup id = some root →
    ∀ ref, after.store.Reaches root ref →
      ∃ document, before.store.get? ref = some document ∧ after.store.get? ref = some document

inductive Atomic {α : Type} (before : Library) : Except Failure α × Library → Prop
  | failed {failure : Failure} {after : Library} : after.cache = before.cache →
      before.Undisturbed after → Atomic before (.error failure, after)
  | succeeded {a : α} {after : Library} {added : List (String × Ref)} :
      after.cache = added ++ before.cache →
      (∀ entry ∈ added, before.cache.lookup entry.1 = none) →
      before.Undisturbed after → Atomic before (.ok a, after)

variable {before after : Library}

theorem Closed.undisturbed (closed : before.Closed) (grown : before.Extends after) :
    before.Undisturbed after := by
  refine ⟨grown.cells, fun {id root} cached ref reaches => ?_⟩
  obtain ⟨source, complete⟩ := closed id root cached
  have whole := complete.whole closed
  obtain ⟨document, filled⟩ := whole ref (whole.reaches grown.keeps.store reaches)
  exact ⟨document, filled, grown.get? filled⟩

end Library

theorem Build.Grows.atomic {α : Type} {build : Build α} (grows : build.Grows) {before : Library}
    (closed : before.Closed) : before.Atomic (build.attempt before) := by
  have grown := grows before
  unfold Build.attempt
  rcases hrun : build.run before with ⟨result, after⟩
  rw [hrun] at grown
  have undisturbed := closed.undisturbed grown
  cases result with
  | ok a =>
      obtain ⟨added, cache, fresh⟩ := grown.cache
      exact .succeeded cache fresh undisturbed
  | error failure =>
      -- Only the cache is cut back: the documents made on the way to the failure remain.
      exact .failed (Library.cache_retain grown) ⟨undisturbed.cells, undisturbed.cached⟩

theorem Session.attempt_atomic {κ : Type} (requests : List (Request κ)) (repository : Repository κ)
    (name text : String) :
    let library := (after requests).library
    library.Atomic ((repository.template name).attempt library) ∧
      library.Atomic ((repository.templateOfText text).attempt library) := by
  intro library
  have closed : library.Closed := (sound requests).library_closed
  exact ⟨(repository.grows_template name).atomic closed,
    (repository.grows_templateOfText text).atomic closed⟩

end Stencil
