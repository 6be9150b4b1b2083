import Stencil.Files

namespace Stencil

structure Source where
  id? (name : String) (base : Option String) : Option String
  text (id : String) : Except Error String
  size : Nat

namespace Source

def memory (templates : List (String × String)) : Source where
  id? name _ := (templates.lookup name).map fun _ => name
  text id := ((templates.lookup id).map .ok).getD (.error (.templateNotFound id))
  size := templates.length

def below (root : List String) (path : String) : Option (List String) :=
  if Path.isAbsolute path.toList then none
  else some (root ++ (Path.split path.toList).map String.ofList)

/-- Templates in the files of a directory. Identifiers are paths below it; names without an extension
get the usual one. -/
def directory (files : Files) (root : List String) (extension : String) : Source where
  id? name base :=
    (Path.resolve name base extension).filter fun id => (below root id).any files.isFile
  text id :=
    match below root id with
    | none => .error (.file .notFound)
    | some path => (files.read path).mapError .file
  size := files.count

end Source

end Stencil
