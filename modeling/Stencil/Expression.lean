namespace Stencil

inductive Expression where
  | top
  | name (identifier : String)
  | key (base : Expression) (identifier : String)
  | call (filter : Expression) (arguments : List Expression)
deriving Repr

namespace Expression

mutual

def same : Expression → Expression → Bool
  | .top, .top => true
  | .name a, .name b => a == b
  | .key base a, .key base' b => same base base' && a == b
  | .call filter arguments, .call filter' arguments' =>
    same filter filter' && sameArguments arguments arguments'
  | _, _ => false

def sameArguments : List Expression → List Expression → Bool
  | [], [] => true
  | a :: as, b :: bs => same a b && sameArguments as bs
  | _, _ => false

end

mutual

theorem same_iff : (a b : Expression) → (same a b = true ↔ a = b)
  | .top, b => by cases b <;> simp [same]
  | .name _, b => by cases b <;> simp [same]
  | .key base a, b => by
    cases b <;> simp [same, same_iff base]
  | .call filter arguments, b => by
    cases b <;> simp [same, same_iff filter, sameArguments_iff arguments]

theorem sameArguments_iff : (as bs : List Expression) → (sameArguments as bs = true ↔ as = bs)
  | [], bs => by cases bs <;> simp [sameArguments]
  | a :: as, bs => by
    cases bs <;> simp [sameArguments, same_iff a, sameArguments_iff as]

end

instance : DecidableEq Expression := fun a b =>
  decidable_of_iff (same a b = true) (same_iff a b)

mutual

def describe : Expression → String
  | .top => "."
  | .name identifier => identifier
  | .key .top identifier => "." ++ identifier
  | .key base identifier => base.describe ++ "." ++ identifier
  | .call filter arguments => filter.describe ++ "(" ++ describeArguments arguments ++ ")"

def describeArguments : List Expression → String
  | [] => ""
  | [argument] => argument.describe
  | argument :: arguments => argument.describe ++ ", " ++ describeArguments arguments

end

end Expression

end Stencil
