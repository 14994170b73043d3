import WordMachine.Expression.Tree

/-! Values of expressions and the operators on them. Integers are unbounded, and an
operator that does not apply to its operands has no result. -/
namespace WordMachine.Expression

inductive Function where
  | max | min | abs | len | int
  deriving DecidableEq

inductive Value where
  | nothing
  | boolean (value : Bool)
  | integer (value : Int)
  | decimal (value : Float)
  | text (content : Text)
  | tuple (items : List Value)
  | function (function : Function)
  /-- A function that cannot be called here, known by its name. -/
  | other (name : Text)

namespace Value

/-- Zero, nothing and whatever is empty are false. -/
def isTrue : Value → Bool
  | .nothing => false
  | .boolean value => value
  | .integer value => value != 0
  | .decimal value => value != 0
  | .text content => !content.isEmpty
  | .tuple items => !items.isEmpty
  | .function _ | .other _ => true

end Value

namespace Decimal

/-- A finite decimal as an integer times a power of two. -/
def parts? (value : Float) : Option (Int × Int) :=
  let bits := value.toBits.toNat
  let fraction : Nat := bits % powerOfTwo 52
  let exponent : Nat := bits / powerOfTwo 52 % powerOfTwo 11
  let sign : Int := if powerOfTwo 63 ≤ bits then -1 else 1
  if exponent = 2047 then none
  else if exponent = 0 then some (sign * fraction, -1074)
  else some (sign * ((fraction + powerOfTwo 52 : Nat) : Int), (exponent : Int) - 1075)

/-- A finite decimal with its fraction dropped. -/
def truncate? (value : Float) : Option Int :=
  (parts? value).map fun (mantissa, exponent) =>
    if 0 ≤ exponent then mantissa * powerOfTwo exponent.toNat
    else mantissa.tdiv (powerOfTwo exponent.natAbs)

/-- An integer against a decimal, compared exactly. -/
def compareInteger (n : Int) (value : Float) : Ordering :=
  match parts? value with
  | some (mantissa, exponent) =>
    if 0 ≤ exponent then compare n (mantissa * powerOfTwo exponent.toNat)
    else compare (n * powerOfTwo exponent.natAbs) mantissa
  | none => if value < 0 then .gt else .lt

def compare (x y : Float) : Ordering := if x < y then .lt else if x == y then .eq else .gt

/-- The nearest decimal of an integer that is not too large. -/
def ofInteger? (n : Int) : Option Float :=
  let value := Float.ofInt n
  if value.isFinite then some value else none

/-- The remainder with the sign of the divisor. -/
def remainder (x y : Float) : Float :=
  match parts? x, parts? y with
  | some (mx, ex), some (my, ey) =>
    let e := min ex ey
    let a := mx * powerOfTwo (ex - e).toNat
    let b := my * powerOfTwo (ey - e).toNat
    Float.scaleB (Float.ofInt (a.fmod b)) e
  | some _, none => x
  | none, _ => 0 / 0

end Decimal

namespace Value

mutual
/-- Equality. Values of different kinds differ, except that numbers are compared as numbers. -/
def equal : Value → Value → Bool
  | .nothing, .nothing => true
  | .boolean x, .boolean y => x == y
  | .integer x, .integer y => x == y
  | .decimal x, .decimal y => x == y
  | .integer x, .decimal y => Decimal.compareInteger x y == .eq
  | .decimal x, .integer y => Decimal.compareInteger y x == .eq
  | .text x, .text y => x == y
  | .tuple x, .tuple y => equalAll x y
  | .function x, .function y => x == y
  | .other x, .other y => x == y
  | _, _ => false

def equalAll : List Value → List Value → Bool
  | [], [] => true
  | x :: xs, y :: ys => equal x y && equalAll xs ys
  | _, _ => false
end

private def compareText : Text → Text → Ordering
  | [], [] => .eq
  | [], _ :: _ => .lt
  | _ :: _, [] => .gt
  | x :: xs, y :: ys => if x < y then .lt else if y < x then .gt else compareText xs ys

mutual
/-- The order of two values, if they have one. -/
def order? : Value → Value → Option Ordering
  | .boolean x, .boolean y => some (compare x.toNat y.toNat)
  | .integer x, .integer y => some (compare x y)
  | .decimal x, .decimal y => some (Decimal.compare x y)
  | .integer x, .decimal y => some (Decimal.compareInteger x y)
  | .decimal x, .integer y => some (Decimal.compareInteger y x).swap
  | .text x, .text y => some (compareText x y)
  | .tuple x, .tuple y => orderAll? x y
  | _, _ => none

/-- Tuples are ordered by their first items that differ. -/
def orderAll? : List Value → List Value → Option Ordering
  | [], [] => some .eq
  | [], _ :: _ => some .lt
  | _ :: _, [] => some .gt
  | x :: xs, y :: ys => if equal x y then orderAll? xs ys else order? x y
end

private def arithmetic (integers : Int → Int → Option Value) (decimals : Float → Float → Option Value) :
    Value → Value → Option Value
  | .integer x, .integer y => integers x y
  | .integer x, .decimal y => do decimals (← Decimal.ofInteger? x) y
  | .decimal x, .integer y => do decimals x (← Decimal.ofInteger? y)
  | .decimal x, .decimal y => decimals x y
  | _, _ => none

private def repetitionLimit : Nat := 1000000

/-- Items repeated. The count is a 32-bit integer unless there is nothing to repeat. -/
private def repeated {α : Type} (items : List α) (count : Int) : Option (List α) :=
  if items.isEmpty then some []
  else if count < -(powerOfTwo 31 : Int) ∨ powerOfTwo 31 ≤ count ∨ repetitionLimit < items.length * count.toNat then none
  else some (List.replicate count.toNat items).flatten

private def add : Value → Value → Option Value
  | .text x, .text y => some (.text (x ++ y))
  | .tuple x, .tuple y => some (.tuple (x ++ y))
  | x, y => arithmetic (fun x y => some (.integer (x + y))) (fun x y => some (.decimal (x + y))) x y

private def multiply : Value → Value → Option Value
  | .text x, .integer n | .integer n, .text x => (repeated x n).map .text
  | .tuple x, .integer n | .integer n, .tuple x => (repeated x n).map .tuple
  | x, y => arithmetic (fun x y => some (.integer (x * y))) (fun x y => some (.decimal (x * y))) x y

private def divide : Value → Value → Option Value
  | x, y => arithmetic
    (fun x y => do
      let divisor ← Decimal.ofInteger? y
      if y = 0 then none else return .decimal ((← Decimal.ofInteger? x) / divisor))
    (fun x y => if y == 0 then none else some (.decimal (x / y))) x y

private def floorDivide : Value → Value → Option Value :=
  arithmetic (fun x y => if y = 0 then none else some (.integer (x.fdiv y)))
    (fun x y => if y == 0 then none else some (.decimal (x / y).floor))

private def remainder : Value → Value → Option Value :=
  arithmetic (fun x y => if y = 0 then none else some (.integer (x.fmod y)))
    (fun x y => if y == 0 then none else some (.decimal (Decimal.remainder x y)))

private def bitwise (combine : Bool → Bool → Bool) (x y : Int) : Int :=
  let low (n : Int) (i : Nat) : Bool := (n >>> i) % 2 == 1
  let width := x.natAbs.log2 + y.natAbs.log2 + 3
  let magnitude := (List.range width).foldl
    (fun (sum : Int) i => if combine (low x i) (low y i) then sum + powerOfTwo i else sum) 0
  if combine (x < 0) (y < 0) then magnitude - powerOfTwo width else magnitude

private def bits (combine : Bool → Bool → Bool) : Value → Value → Option Value
  | .integer x, .integer y => some (.integer (bitwise combine x y))
  | _, _ => none

/-- A shift count is a non-negative 32-bit integer. -/
private def shiftCount? : Value → Option Nat
  | .integer n => if 0 ≤ n ∧ n < powerOfTwo 31 then some n.toNat else none
  | _ => none

private def shiftLeft : Value → Value → Option Value
  | .integer x, y => do
    let count ← shiftCount? y
    if 512 ≤ count then none else return .integer (x * powerOfTwo count)
  | _, _ => none

private def shiftRight : Value → Value → Option Value
  | .integer x, y => do
    let count ← shiftCount? y
    return .integer (if x.natAbs.log2 < count then (if x < 0 then -1 else 0) else x >>> count)
  | _, _ => none

private def ordered (holds : Ordering → Bool) (x y : Value) : Option Value :=
  (order? x y).map fun order => .boolean (holds order)

def binary : BinaryOperator → Value → Value → Option Value
  | .add => add
  | .subtract =>
    arithmetic (fun x y => some (.integer (x - y))) (fun x y => some (.decimal (x - y)))
  | .multiply => multiply
  | .divide => divide
  | .floorDivide => floorDivide
  | .remainder => remainder
  | .and => bits (· && ·)
  | .or => bits (· || ·)
  | .xor => bits (· != ·)
  | .shiftLeft => shiftLeft
  | .shiftRight => shiftRight
  | .equal => fun x y => some (.boolean (equal x y))
  | .notEqual => fun x y => some (.boolean (!equal x y))
  | .less => ordered (· == .lt)
  | .lessEqual => ordered (· != .gt)
  | .greater => ordered (· == .gt)
  | .greaterEqual => ordered (· != .lt)

def unary : UnaryOperator → Value → Option Value
  | .identity, .integer n => some (.integer n)
  | .identity, .decimal x => some (.decimal x)
  | .negate, .integer n => some (.integer (-n))
  | .negate, .decimal x => some (.decimal (-x))
  | .invert, .integer n => some (.integer (-n - 1))
  | _, _ => none

private def extreme (better : Ordering) : Value → List Value → Option Value
  | best, [] => some best
  | best, item :: rest => do
    if (← order? item best) == better then extreme better item rest else extreme better best rest

/-- The extreme of several arguments, or of the items of a single tuple. -/
private def extremeOf (better : Ordering) : List Value → Option Value
  | [.tuple (first :: rest)] => extreme better first rest
  | [_] | [] => none
  | first :: rest => extreme better first rest

private def decimalDigits? (digits : Text) : Option Nat :=
  if digits.isEmpty || digits.any (!Byte.isDigit ·) then none
  else some (digits.foldl (fun value b => value * 10 + (b.toNat - 0x30)) 0)

/-- The integer that a text writes in decimal digits with an optional sign. -/
private def integerOfText? : Text → Option Int
  | sign :: digits =>
    if sign = Byte.minus then (decimalDigits? digits).map fun n => -(n : Int)
    else if sign = Byte.plus then (decimalDigits? digits).map Int.ofNat
    else (decimalDigits? (sign :: digits)).map Int.ofNat
  | [] => none

private def integerOf? : Value → Option Int
  | .integer n => some n
  | .boolean b => some b.toNat
  | .decimal x => Decimal.truncate? x
  | .text content => integerOfText? content
  | _ => none

def call : Value → List Value → Option Value
  | .function .max, arguments => extremeOf .gt arguments
  | .function .min, arguments => extremeOf .lt arguments
  | .function .abs, [.integer n] => some (.integer n.natAbs)
  | .function .abs, [.decimal x] => some (.decimal x.abs)
  | .function .len, [.text content] => some (.integer content.length)
  | .function .len, [.tuple items] => some (.integer items.length)
  | .function .int, [value] => (integerOf? value).map .integer
  | _, _ => none

end Value
end WordMachine.Expression
