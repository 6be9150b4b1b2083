import Stencil.Decimal.Double
import Stencil.Dictionary
import Stencil.Document

namespace Stencil

inductive Filter (κ : Type) where
  | each
  | escape
  | host (name : κ)
deriving Repr

inductive Lookup (κ α : Type) where
  | within (value : α)
  | host (name : κ)
deriving Repr

inductive Renderer (κ α : Type) where
  /-- As an item, with its position on top of the context. -/
  | item (position item : α)
  | escaped (value : α)
  | template (root : Ref)
  | host (name : κ)
deriving Repr

structure Traits (κ α : Type) where
  description : Option String := none
  truth : Option Bool := none
  lookup : Option (Lookup κ α) := none
  filter : Option (Filter κ) := none
  renderer : Option (Renderer κ α) := none
  will : Option κ := none
  did : Option κ := none
deriving Repr

/-- Custom values are told apart by their identity alone; those that come from filters have the
identity `0`. -/
inductive Value (κ : Type) where
  | null
  | bool (b : Bool)
  | int (i : Int)
  | float (x : Double)
  | text (string : String)
  | list (items : List (Value κ))
  | map (entries : Entries (Value κ) none)
  | custom (identity : Nat) (inner : Option (Value κ)) (traits : Traits κ (Value κ))

namespace Value

variable {κ : Type}

instance : Inhabited (Value κ) := ⟨.null⟩

def ofPairs (pairs : List (String × Value κ)) : Value κ :=
  .map (Dictionary.ofPairs pairs)

def ofSize (n : Nat) : Value κ :=
  .int (min n (Nat.pow 2 63 - 1) : Nat)

def rendering (renderer : Renderer κ (Value κ)) : Value κ :=
  .custom 0 none { renderer := some renderer }

def ofTemplate (identity : Nat) (root : Ref) : Value κ :=
  .custom identity none { renderer := some (.template root) }

def isEmpty : Value κ → Bool
  | .null => true
  | .custom _ (some inner) _ => inner.isEmpty
  | _ => false

def truth : Value κ → Bool
  | .null => false
  | .bool b => b
  | .int i => i != 0
  | .float x => !x.isZero
  | .text string => !string.isEmpty
  | .list items => !items.isEmpty
  | .map _ => true
  | .custom _ (some inner) traits => traits.truth.getD inner.truth
  | .custom _ none traits => traits.truth.getD true

def entries? : Value κ → Option (List (String × Value κ))
  | .map entries => some entries.toList
  | .custom _ (some inner) _ => inner.entries?
  | _ => none

def items? : Value κ → Option (List (Value κ))
  | .list items => some items
  | .custom _ (some inner) _ => inner.items?
  | _ => none

def filter? : Value κ → Option (Filter κ)
  | .custom _ (some inner) traits => traits.filter.or inner.filter?
  | .custom _ none traits => traits.filter
  | _ => none

def will? : Value κ → Option κ
  | .custom _ _ traits => traits.will
  | _ => none

def did? : Value κ → Option κ
  | .custom _ _ traits => traits.did
  | _ => none

mutual

def same : Value κ → Value κ → Bool
  | .null, .null => true
  | .bool a, .bool b => a == b
  | .int a, .int b => a == b
  | .float a, .float b => a.same b
  | .text a, .text b => a == b
  | .list as, .list bs => sameItems as bs
  | .map as, .map bs => sameEntries as bs
  | .custom a _ _, .custom b _ _ => a == b
  | _, _ => false

def sameItems : List (Value κ) → List (Value κ) → Bool
  | [], [] => true
  | a :: as, b :: bs => same a b && sameItems as bs
  | _, _ => false

def sameEntries {bound bound' : Option String} :
    Entries (Value κ) bound → Entries (Value κ) bound' → Bool
  | .nil, .nil => true
  | .cons k a _ as, .cons l b _ bs => k == l && same a b && sameEntries as bs
  | _, _ => false

end

end Value

end Stencil
