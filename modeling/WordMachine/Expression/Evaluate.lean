import WordMachine.Expression.Value

/-! The value of an expression under the symbols of a program. -/
namespace WordMachine.Expression

private def calledElsewhere : List Text :=
  ["any", "all", "bool", "bytes", "chr", "dict", "dir", "enumerate", "fail", "float", "getattr",
   "hasattr", "hash", "list", "ord", "print", "range", "repr", "reversed", "sorted", "str", "tuple",
   "type", "zip"]

/-- Names with a meaning of their own, which a symbol of the same name hides. -/
def builtin? (name : Text) : Option Value :=
  if name = ("None" : Text) then some .nothing
  else if name = ("True" : Text) then some (.boolean true)
  else if name = ("False" : Text) then some (.boolean false)
  else if name = ("max" : Text) then some (.function .max)
  else if name = ("min" : Text) then some (.function .min)
  else if name = ("abs" : Text) then some (.function .abs)
  else if name = ("len" : Text) then some (.function .len)
  else if name = ("int" : Text) then some (.function .int)
  else if calledElsewhere.contains name then some (.other name)
  else none

/-- The meaning of a name: a symbol, or else a builtin. -/
def meaning? (symbols : Text → Option Int) (name : Text) : Option Value :=
  match symbols name with
  | some value => some (.integer value)
  | none => builtin? name

namespace Tree

mutual
/-- The value of an expression, if it has one. The operands of `and`, `or` and a choice
are evaluated only where they decide the value. -/
def evaluate (lookup : Text → Option Value) : Tree → Option Value
  | .integer value => some (.integer value)
  | .decimal value => some (.decimal value)
  | .text content => some (.text content)
  | .name content => lookup content
  | .tuple items => do return .tuple (← evaluateAll lookup items)
  | .unary operator operand => do Value.unary operator (← evaluate lookup operand)
  | .binary operator left right => do
    let x ← evaluate lookup left
    let y ← evaluate lookup right
    Value.binary operator x y
  | .conjunction left right => do
    let x ← evaluate lookup left
    if x.isTrue then evaluate lookup right else return x
  | .disjunction left right => do
    let x ← evaluate lookup left
    if x.isTrue then return x else evaluate lookup right
  | .negation operand => do return .boolean (!(← evaluate lookup operand).isTrue)
  | .choice condition yes no => do
    if (← evaluate lookup condition).isTrue then evaluate lookup yes else evaluate lookup no
  | .call function arguments => do
    let function ← evaluate lookup function
    let arguments ← evaluateAll lookup arguments
    Value.call function arguments
  | .member object _ => do
    let _ ← evaluate lookup object
    none

def evaluateAll (lookup : Text → Option Value) : List Tree → Option (List Value)
  | [] => some []
  | item :: rest => do
    let value ← evaluate lookup item
    let values ← evaluateAll lookup rest
    return value :: values
end

end Tree

inductive Result where
  | failed
  | noInteger
  | integer (value : Int)
  deriving DecidableEq

/-- What evaluates texts under the values of the symbols. -/
abbrev Evaluator := (Text → Option Int) → Text → Result

def Result.ofValue? : Option Value → Result
  | none => .failed
  | some (.integer value) =>
    if -(powerOfTwo 63 : Int) ≤ value ∧ value < powerOfTwo 63 then .integer value else .noInteger
  | some _ => .noInteger

/-- Evaluates a text. Every name in it has to be known, also where it is not evaluated.
The name that the value is assigned to is known but has no value yet, and a result
that is no signed 64-bit integer is none. -/
def evaluate : Evaluator := fun symbols text =>
  match read? text with
  | none => .failed
  | some (.assignment tree) =>
    let known (name : Text) : Bool := name == resultName || (meaning? symbols name).isSome
    let lookup (name : Text) : Option Value :=
      if name = resultName then none else meaning? symbols name
    if tree.names.all known then Result.ofValue? (tree.evaluate lookup) else .failed
  | some (.comparison tree) =>
    if tree.names.all fun name => (meaning? symbols name).isSome then
      match tree.evaluate (meaning? symbols) with
      | some _ => .noInteger
      | none => .failed
    else .failed

end WordMachine.Expression
