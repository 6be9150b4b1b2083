import Stencil.Host

namespace Stencil

variable {κ : Type} [Functions κ]

def Value.lookup (key : String) : Value κ → Value κ
  | .map entries => (entries.toList.lookup key).getD .null
  | .list items =>
    if key = "count" then .int items.length
    else if key = "first" then items.head?.getD .null
    else if key = "last" then items.getLast?.getD .null
    else .null
  | .custom _ _ { lookup := some (.within value), .. } => value.lookup key
  | .custom _ _ { lookup := some (.host name), .. } => Functions.lookup name key
  | .custom _ (some inner) { lookup := none, .. } => inner.lookup key
  | _ => .null

def Value.firstFilled (values : List (Value κ)) : Value κ :=
  (values.find? fun value => !value.isEmpty).getD .null

namespace Context

def lookup : Context κ → String → Value κ
  | .node kind none, key => .firstFilled ((node kind none).values.map (Value.lookup key))
  | .node kind (some registered), key =>
    let value := registered.lookup key
    if value.isEmpty then
      .firstFilled ((node kind (some registered)).values.map (Value.lookup key))
    else value

end Context

end Stencil
