import WordMachine.Text.Basic

/-! Integer literals: an optional sign, a base given by `0x`, `0o`, `0b` or a
leading zero, and digits that single underscores may separate. -/
namespace WordMachine

def powerOfTwo (exponent : Nat) : Nat := 1 <<< exponent

namespace Text

structure Digits where
  base : Nat
  digits : Text
  /-- Whether a digit or a base mark stands before the digits. -/
  preceded : Bool

def digitsOf : Text → Digits
  | z :: m :: rest =>
    if z = Byte.zero then
      if rest.isEmpty then ⟨8, m :: rest, true⟩
      else if Byte.lower m = 0x62 then ⟨2, rest, true⟩
      else if Byte.lower m = 0x6F then ⟨8, rest, true⟩
      else if Byte.lower m = 0x78 then ⟨16, rest, true⟩
      else ⟨8, m :: rest, true⟩
    else ⟨10, z :: m :: rest, false⟩
  | text => ⟨10, text, false⟩

/-- The value of digits after others with a value. An underscore follows a digit or the
mark of the base, and a digit follows it. -/
def valueFrom (base : Nat) : Bool → Nat → Text → Option Nat
  | digitSeen, value, [] => if digitSeen then some value else none
  | digitSeen, value, b :: rest =>
    if b = Byte.underscore then
      if digitSeen then valueFrom base false value rest else none
    else
      match Byte.digitValue? b with
      | some digit => if digit < base then valueFrom base true (value * base + digit) rest else none
      | none => none

def natural? (text : Text) : Option Nat :=
  let written := digitsOf text
  valueFrom written.base written.preceded 0 written.digits

/-- The value of a literal that fits a signed integer of the given width. -/
def integer? (bits : Nat) (text : Text) : Option Int := do
  let value ←
    match text with
    | sign :: rest =>
      if sign = Byte.minus then (natural? rest).map fun n => -(n : Int)
      else if sign = Byte.plus then (natural? rest).map Int.ofNat
      else (natural? text).map Int.ofNat
    | [] => none
  if -(powerOfTwo (bits - 1) : Int) ≤ value ∧ value < powerOfTwo (bits - 1) then some value else none

end Text
end WordMachine
