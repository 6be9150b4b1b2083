import Stencil.Error
import Stencil.Path

namespace Stencil

inductive Files where
  | file (bytes : ByteArray)
  | directory (entries : List (String × Files))

namespace Files

def empty : Files :=
  .directory []

/-- Follow the components of a path. The directories passed through are kept for the way back; above
the outermost there is only itself. -/
def follow (above : List Files) (tree : Files) : List String → Except FileError Files
  | [] => .ok tree
  | component :: path =>
    match tree with
    | .file _ => .error .notADirectory
    | .directory entries =>
      if component = "" ∨ component = "." then follow above tree path
      else if component = ".." then
        match above with
        | [] => follow [] tree path
        | parent :: above => follow above parent path
      else
        match entries.lookup component with
        | none => .error .notFound
        | some entry => follow (tree :: above) entry path

def isFile (tree : Files) (path : List String) : Bool :=
  match follow [] tree path with
  | .ok (.file _) => true
  | _ => false

def read (tree : Files) (path : List String) : Except FileError String := do
  match ← follow [] tree path with
  | .directory _ => throw .isADirectory
  | .file bytes =>
    match String.fromUTF8? bytes with
    | some text => return text
    | none => throw .invalidText

def entries : Files → List (String × Files)
  | .directory entries => entries
  | .file _ => []

/-- Change what stands at a path. Directories are made where they are missing, also in place of a
file. -/
def change (new : Option Files) (tree : Option Files) : List String → Option Files
  | [] => new
  | component :: path =>
    let entries := (tree.map Files.entries).getD []
    let others := entries.filter fun (name, _) => name != component
    match change new (entries.lookup component) path with
    | some entry => some (.directory ((component, entry) :: others))
    | none => some (.directory others)

def write (tree : Files) (path : List String) (bytes : ByteArray) : Files :=
  (change (some (.file bytes)) tree path).getD empty

def remove (tree : Files) (path : List String) : Files :=
  match follow [] tree path with
  | .ok _ => (change none tree path).getD empty
  | .error _ => tree

def makeDirectory (tree : Files) (path : List String) : Files :=
  match follow [] tree path with
  | .ok _ => tree
  | .error _ => (change (some empty) tree path).getD empty

mutual

def count : Files → Nat
  | .file _ => 1
  | .directory entries => countEntries entries

def countEntries : List (String × Files) → Nat
  | [] => 0
  | (_, entry) :: entries => entry.count + countEntries entries

end

end Files

end Stencil
