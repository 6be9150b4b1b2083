namespace Stencil

structure Location where
  line : Nat
  template : Option String
deriving DecidableEq, Repr

def Location.describe (location : Location) : String :=
  match location.template with
  | none => "line " ++ toString location.line
  | some template => "line " ++ toString location.line ++ " of template `" ++ template ++ "`"

end Stencil
