namespace Stencil

structure Double where
  bits : UInt64
deriving DecidableEq, Repr

namespace Double

def isNegative (x : Double) : Bool :=
  Nat.pow 2 63 ≤ x.bits.toNat

def exponentField (x : Double) : Nat :=
  x.bits.toNat / Nat.pow 2 52 % Nat.pow 2 11

def fraction (x : Double) : Nat :=
  x.bits.toNat % Nat.pow 2 52

def isNaN (x : Double) : Bool :=
  x.exponentField == Nat.pow 2 11 - 1 && x.fraction != 0

def isInfinite (x : Double) : Bool :=
  x.exponentField == Nat.pow 2 11 - 1 && x.fraction == 0

def isZero (x : Double) : Bool :=
  x.exponentField == 0 && x.fraction == 0

def mantissa (x : Double) : Nat :=
  if x.exponentField = 0 then x.fraction else x.fraction + Nat.pow 2 52

def exponent (x : Double) : Int :=
  if x.exponentField = 0 then -1074 else (x.exponentField : Int) - 1075

def same (x y : Double) : Bool :=
  !x.isNaN && !y.isNaN && ((x.isZero && y.isZero) || x == y)

theorem same_comm (x y : Double) : x.same y = y.same x := by
  simp only [same, Bool.and_comm, Bool.beq_comm (a := x)]

theorem same_self (x : Double) : x.same x = !x.isNaN := by
  simp [same]

end Double

end Stencil
