import Stencil.Error
import Stencil.Expression
import Stencil.Text.Blank

namespace Stencil.Expression

def isIdentifierChar (c : Char) : Bool :=
  !Text.isBlank c && c != '.' && c != '(' && c != ')' && c != ','

structure OpenCall where
  filter : Expression
  arguments : List Expression

def OpenCall.add (call : OpenCall) (argument : Expression) : OpenCall :=
  { call with arguments := argument :: call.arguments }

def OpenCall.close (call : OpenCall) : Expression :=
  .call call.filter call.arguments.reverse

/-- What the reader expects next. Characters of an identifier are kept latest first. -/
inductive Place where
  | operand
  | firstArgument
  | dot
  | name (identifier : List Char)
  | key (base : Expression) (identifier : List Char)
  /-- An operand that may go on with a key or a call. -/
  | tail (operand : Expression)
  | ended (operand : Expression)

structure Reader where
  place : Place
  calls : List OpenCall

namespace Reader

def start : Reader :=
  ⟨.operand, []⟩

def goTo (r : Reader) (place : Place) : Reader :=
  { r with place }

def stepOperand (r : Reader) (c : Char) : Except ExpressionError Reader :=
  if Text.isBlank c then .ok r
  else if c = '.' then .ok (r.goTo .dot)
  else if isIdentifierChar c then .ok (r.goTo (.name [c]))
  else .error (.unexpectedCharacter c)

def stepEnded (r : Reader) (operand : Expression) (c : Char) : Except ExpressionError Reader :=
  if Text.isBlank c then .ok (r.goTo (.ended operand))
  else
    match r.calls with
    | [] => .error (.unexpectedCharacter c)
    | opened :: calls =>
      if c = ',' then .ok ⟨.operand, opened.add operand :: calls⟩
      else if c = ')' then .ok ⟨.tail (opened.add operand).close, calls⟩
      else .error (.unexpectedCharacter c)

def stepTail (r : Reader) (operand : Expression) (c : Char) : Except ExpressionError Reader :=
  if c = '.' then .ok (r.goTo (.key operand []))
  else if c = '(' then .ok ⟨.firstArgument, ⟨operand, []⟩ :: r.calls⟩
  else r.stepEnded operand c

def stepKey (r : Reader) (base : Expression) (identifier : List Char) (c : Char) :
    Except ExpressionError Reader :=
  if isIdentifierChar c then .ok (r.goTo (.key base (c :: identifier)))
  else if identifier.isEmpty then .error .missingIdentifier
  else r.stepTail (.key base (String.ofList identifier.reverse)) c

def step (r : Reader) (c : Char) : Except ExpressionError Reader :=
  match r.place with
  | .operand => r.stepOperand c
  | .firstArgument =>
    match r.calls with
    | opened :: calls => if c = ')' then .ok ⟨.tail opened.close, calls⟩ else r.stepOperand c
    | [] => r.stepOperand c
  | .dot => if isIdentifierChar c then .ok (r.goTo (.key .top [c])) else r.stepTail .top c
  | .name identifier =>
    if isIdentifierChar c then .ok (r.goTo (.name (c :: identifier)))
    else r.stepTail (.name (String.ofList identifier.reverse)) c
  | .key base identifier => r.stepKey base identifier c
  | .tail operand => r.stepTail operand c
  | .ended operand => r.stepEnded operand c

def finishOperand (r : Reader) (operand : Expression) : Except ExpressionError Expression :=
  if r.calls.isEmpty then .ok operand else .error .unclosedCall

def finish (r : Reader) : Except ExpressionError Expression :=
  match r.place with
  | .operand => .error (if r.calls.isEmpty then .empty else .missingIdentifier)
  | .firstArgument => .error .missingIdentifier
  | .dot => r.finishOperand .top
  | .name identifier => r.finishOperand (.name (String.ofList identifier.reverse))
  | .key base identifier =>
    if identifier.isEmpty then .error .missingIdentifier
    else r.finishOperand (.key base (String.ofList identifier.reverse))
  | .tail operand => r.finishOperand operand
  | .ended operand => r.finishOperand operand

end Reader

def ofText (text : String) : Except ExpressionError Expression := do
  (← text.toList.foldlM Reader.step Reader.start).finish

end Stencil.Expression
