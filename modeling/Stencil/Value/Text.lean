import Stencil.Decimal.Shortest
import Stencil.Text.Quoted
import Stencil.Value

namespace Stencil.Value

variable {κ : Type}

def boolText (b : Bool) : String :=
  if b then "true" else "false"

def text? : Value κ → Option String
  | .bool b => some (boolText b)
  | .int i => some (toString i)
  | .float x => some x.text
  | .text string => some string
  | _ => none

def plainText (value : Value κ) : String :=
  value.text?.getD ""

def braced (content : String) : String :=
  "\x7b" ++ content ++ "\x7d"

def describeTraits (inner : String) (traits : Traits κ (Value κ)) : String :=
  let description := match traits.description with
    | some description => "Some(" ++ Text.quote description ++ ")"
    | none => "None"
  "CustomValue " ++ braced (" inner: " ++ inner ++ ", description: " ++ description ++
    ", filter: " ++ boolText traits.filter.isSome ++
    ", render: " ++ boolText traits.renderer.isSome ++
    ", will_render: " ++ boolText traits.will.isSome ++
    ", did_render: " ++ boolText traits.did.isSome ++ ", .. ")

mutual

def describe : Value κ → String
  | .null => "Null"
  | .bool b => "Bool(" ++ boolText b ++ ")"
  | .int i => "Int(" ++ toString i ++ ")"
  | .float x => "Float(" ++ x.text ++ ")"
  | .text string => "String(" ++ Text.quote string ++ ")"
  | .list items => "[" ++ String.intercalate ", " (describeItems items) ++ "]"
  | .map entries => braced (String.intercalate ", " (describeEntries entries))
  | .custom _ (some inner) traits => describeTraits ("Some(" ++ inner.describe ++ ")") traits
  | .custom _ none traits => describeTraits "None" traits

def describeItems : List (Value κ) → List String
  | [] => []
  | item :: items => item.describe :: describeItems items

def describeEntries {bound : Option String} : Entries (Value κ) bound → List String
  | .nil => []
  | .cons key value _ entries =>
    (Text.quote key ++ ": " ++ value.describe) :: describeEntries entries

end

end Stencil.Value
