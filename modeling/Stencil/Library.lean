import Stencil.Document
import Stencil.Error

/-!
# Libraries

A library keeps the documents compiled so far and which of them stand for the templates of a source.
Compiling is done in a monad that changes a library even where it fails: what was compiled on the way
to a failure is dropped by whoever began, see `Build.attempt`.
-/

namespace Stencil

structure Library where
  store : Store
  cache : List (String × Ref)

namespace Library

def empty : Library :=
  ⟨.empty, []⟩

def reload (library : Library) : Library :=
  { library with cache := [] }

def retain (library earlier : Library) : Library :=
  { library with
    cache := library.cache.filter fun (id, _) => (earlier.cache.lookup id).isSome }

end Library

/-- Why nothing was compiled. Templates include each other up to a depth; one that would need more
is exhausted. -/
inductive Failure where
  | error (error : Error)
  | exhausted
deriving DecidableEq, Repr

abbrev Build := ExceptT Failure (StateM Library)

namespace Build

def ofParse {α : Type} : Except ParseError α → Build α
  | .ok a => pure a
  | .error error => throw (.error (.parse error))

def ofExcept {α : Type} : Except Error α → Build α
  | .ok a => pure a
  | .error error => throw (.error error)

def add (document : Document) : Build Ref :=
  modifyGet fun library =>
    let (ref, store) := library.store.add document
    (ref, { library with store })

def cached? (id : String) : Build (Option Ref) := do
  return (← get).cache.lookup id

def reserve (id : String) : Build Ref :=
  modifyGet fun library =>
    let (ref, store) := library.store.reserve
    (ref, { store, cache := (id, ref) :: library.cache })

def fill (ref : Ref) (document : Document) : Build Unit :=
  modify fun library => { library with store := library.store.fill ref document }

def apart {α : Type} (build : Build α) : Build α :=
  fun library =>
    let (result, after) := build.run { library with cache := [] }
    (result, { after with cache := library.cache })

/-- Compile something. After a failure no template is cached that was not cached before. -/
def attempt {α : Type} (build : Build α) (library : Library) : Except Failure α × Library :=
  match build.run library with
  | (.ok a, after) => (.ok a, after)
  | (.error failure, after) => (.error failure, after.retain library)

end Build

end Stencil
