import Stencil.Lookup

namespace Stencil

variable {κ : Type} [Functions κ]

namespace Filter

def position (index count : Nat) (key : Option String) : Value κ :=
  .ofPairs ([("@index", .int index),
    ("@indexPlusOne", .int (index + 1)),
    ("@indexIsEven", .bool (index % 2 == 0)),
    ("@first", .bool (index == 0)),
    ("@last", .bool (index + 1 == count))] ++
    (key.map fun key => ("@key", .text key)).toList)

def positioned (items : List (Option String × Value κ)) : Value κ :=
  .list (items.mapIdx fun index (key, item) =>
    .rendering (.item (position index items.length key) item))

def withOne (name : String) (arguments : List (Value κ))
    (apply : Value κ → Except RenderError (Value κ)) : Except RenderError (Value κ) :=
  match arguments with
  | [argument] => apply argument
  | _ =>
    .error (.custom (name ++ " filter expects one argument, got " ++ toString arguments.length))

def iterate (collection : Value κ) : Except RenderError (Value κ) :=
  if collection.isEmpty then .ok collection
  else
    match collection.entries?, collection.items? with
    | some entries, _ => .ok (positioned (entries.map fun (key, item) => (some key, item)))
    | none, some items => .ok (positioned (items.map fun item => (none, item)))
    | none, none => .error (.nonEnumerable collection.describe)

def apply (filter : Filter κ) (arguments : List (Value κ)) : Except RenderError (Value κ) :=
  match filter with
  | .each => withOne "each" arguments iterate
  | .escape => withOne "HTMLEscape" arguments fun value => .ok (.rendering (.escaped value))
  | .host name => Functions.filter name arguments

end Filter

def Value.standardFilters (identity : Nat) : Value κ :=
  .ofPairs [("each", .custom identity none { filter := some .each }),
    ("HTMLEscape", .custom (identity + 1) none { filter := some .escape })]

end Stencil
