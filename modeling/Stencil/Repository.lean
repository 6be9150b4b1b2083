import Stencil.Assembly
import Stencil.Configuration
import Stencil.Source

namespace Stencil

structure Repository (κ : Type) where
  source : Option Source
  configuration : Configuration κ

structure Template (κ : Type) where
  root : Ref
  context : Context κ

namespace Repository

variable {κ : Type}

def standard : Repository κ :=
  ⟨none, .standard⟩

def compile (repository : Repository κ) (resolve : String → Build (Option Ref)) (text : String)
    (id : Option String) : Build Document :=
  let source := text.toList
  Assembly.ofScan resolve repository.configuration.contentType (Scan.steps source 0)
    (.ofTemplate source repository.configuration.delimiters id)

def load (repository : Repository κ) : Nat → Option String → String → Build (Option Ref)
  | 0, _, _ => throw .exhausted
  | depth + 1, base, name => do
    match repository.source with
    | none => return none
    | some source =>
      match source.id? name base with
      | none => return none
      | some id =>
        match ← Build.cached? id with
        | some ref => return some ref
        | none =>
          let ref ← Build.reserve id
          let text ← Build.ofExcept (source.text id)
          let document ← repository.compile (repository.load depth (some id)) text (some id)
          Build.fill ref document
          return some ref

def depth (repository : Repository κ) : Nat :=
  match repository.source with
  | none => 1
  | some source => source.size + 1

def template (repository : Repository κ) (name : String) : Build (Template κ) := do
  match ← repository.load repository.depth none name with
  | some root => return ⟨root, repository.configuration.context⟩
  | none => throw (.error (.templateNotFound name))

def templateOfText (repository : Repository κ) (text : String) : Build (Template κ) := do
  let document ← repository.compile (repository.load repository.depth none) text none
  return ⟨← Build.add document, repository.configuration.context⟩

end Repository

def Document.ofText (text : String) : Except Failure Document :=
  let repository : Repository Empty := .standard
  ((repository.compile (fun _ => pure none) text none).run .empty).1

namespace Template

variable {κ : Type}

def ofText (text : String) : Build (Template κ) :=
  Repository.standard.templateOfText text

/-- Compile a file, and what it refers to among the files beside it. Names without an extension get
that of the file. -/
def ofFile (files : Files) (path : List (List Char)) : Build (Template κ) := do
  let name := (path.getLast?.filter (· ≠ Path.parentDots)).getD []
  let directory := path.dropLast.map String.ofList
  let extension := String.ofList ((Path.extension? name).getD [])
  let repository : Repository κ :=
    { source := some (.directory files directory extension), configuration := .standard }
  Build.apart (repository.template (String.ofList name))

def push (template : Template κ) (value : Value κ) : Template κ :=
  { template with context := template.context.push value }

def register (template : Template κ) (key : String) (value : Value κ) : Template κ :=
  { template with context := template.context.register key value }

end Template

end Stencil
