namespace Stencil.Path

def split (path : List Char) : List (List Char) :=
  path.foldr (fun c parts =>
    if c = '/' then [] :: parts
    else match parts with
      | part :: parts => (c :: part) :: parts
      | [] => [[c]]) [[]]

def components (path : List Char) : List (List Char) :=
  (split path).filter fun part => !part.isEmpty && part != ['.']

def parentDots : List Char :=
  ['.', '.']

def isAbsolute (path : List Char) : Bool :=
  path.head? == some '/'

def extension? (component : List Char) : Option (List Char) :=
  let after := component.reverse.takeWhile (· != '.')
  let before := component.reverse.drop (after.length + 1)
  if component = parentDots ∨ before.isEmpty then none else some after.reverse

def extend (extension : List Char) (parts : List (List Char)) : List (List Char) :=
  match parts.getLast? with
  | none => parts
  | some last =>
    if last = parentDots ∨ (extension? last).isSome ∨ extension.isEmpty then parts
    else parts.dropLast ++ components (last ++ '.' :: extension)

def descend (directory : List (List Char)) (parts : List (List Char)) :
    Option (List (List Char)) :=
  parts.foldlM (fun directory part =>
    if part = parentDots then
      match directory with
      | [] => none
      | _ :: above => some above
    else some (part :: directory)) directory

/-- The components of a name, below the directory of the template that refers to it; nothing if they
start from outside. -/
def place? (name : List Char) (base : Option (List Char)) : Option (List (List Char)) :=
  match name with
  | '/' :: name => if isAbsolute name then none else some (components name)
  | _ =>
    let base := base.getD []
    let directory := (components base).dropLast
    if isAbsolute base ∧ !(components base).isEmpty then none
    else some (directory ++ components name)

def resolve (name : String) (base : Option String) (extension : String) : Option String := do
  let parts ← place? name.toList (base.map String.toList)
  match ← descend [] (extend extension.toList parts) with
  | [] => none
  | directory => some (String.ofList (['/'].intercalate directory.reverse))

end Stencil.Path
