/-! Text as bytes. Source lines, names and messages are byte lists, so text that
is not valid UTF-8 keeps its identity until it is displayed. -/
namespace WordMachine

abbrev Text := List UInt8

namespace Byte

def tab : UInt8 := 0x09
def newline : UInt8 := 0x0A
def carriageReturn : UInt8 := 0x0D
def space : UInt8 := 0x20
def quote : UInt8 := 0x22
def hash : UInt8 := 0x23
def dollar : UInt8 := 0x24
def apostrophe : UInt8 := 0x27
def parenOpen : UInt8 := 0x28
def parenClose : UInt8 := 0x29
def plus : UInt8 := 0x2B
def comma : UInt8 := 0x2C
def minus : UInt8 := 0x2D
def dot : UInt8 := 0x2E
def slash : UInt8 := 0x2F
def zero : UInt8 := 0x30
def colon : UInt8 := 0x3A
def semicolon : UInt8 := 0x3B
def equals : UInt8 := 0x3D
def atSign : UInt8 := 0x40
def backslash : UInt8 := 0x5C
def underscore : UInt8 := 0x5F
def tilde : UInt8 := 0x7E

def isDigit (b : UInt8) : Bool := 0x30 ≤ b && b ≤ 0x39

def isLetter (b : UInt8) : Bool := (0x41 ≤ b && b ≤ 0x5A) || (0x61 ≤ b && b ≤ 0x7A)

/-- The small letter of an ASCII capital; any other byte unchanged. -/
def lower (b : UInt8) : UInt8 := if 0x41 ≤ b && b ≤ 0x5A then b + 0x20 else b

/-- The value of a digit or letter as a digit of a base up to thirty-six. -/
def digitValue? (b : UInt8) : Option Nat :=
  if isDigit b then some (b.toNat - 0x30)
  else if isLetter b then some ((lower b).toNat - 0x61 + 10)
  else none

end Byte

namespace Text

def ofString (s : String) : Text := s.toUTF8.data.toList

instance : Coe String Text := ⟨ofString⟩

def ofNat (n : Nat) : Text := (Nat.toDigits 10 n).map Char.toUInt8

/-- An integer in decimal digits, with a minus sign if it is negative. -/
def ofInt (n : Int) : Text :=
  if n < 0 then Byte.minus :: ofNat n.natAbs else ofNat n.natAbs

def padLeft (width : Nat) (fill : UInt8) (text : Text) : Text :=
  List.replicate (width - text.length) fill ++ text

/-- A number in at least four small hexadecimal digits. -/
def hex4 (n : Nat) : Text :=
  padLeft 4 Byte.zero ((Nat.toDigits 16 n).map Char.toUInt8)

def joinWith (separator : Text) (parts : List Text) : Text :=
  List.intercalate separator parts

/-- Fields in brackets, separated by single spaces. -/
def bracketed (parts : List Text) : Text :=
  ("[" : Text) ++ joinWith [Byte.space] parts ++ ("]" : Text)

def substitute (byte : UInt8) (replacement : Text) (text : Text) : Text :=
  text.flatMap fun b => if b = byte then replacement else [b]

def before (byte : UInt8) (text : Text) : Text := text.takeWhile (· != byte)

/-- The lines after those in `done`, the first of which starts with `current`; both are
in reverse. -/
def linesFrom : Text → List Text → Text → List Text
  | [], done, [] => done.reverse
  | current, done, [] => (current.reverse :: done).reverse
  | current, done, b :: rest =>
    if b = Byte.newline then linesFrom [] (current.reverse :: done) rest
    else linesFrom (b :: current) done rest

/-- The lines of a text. A newline ends a line, and nothing follows the last one. -/
def lines (text : Text) : List Text := linesFrom [] [] text

def dropReturn (line : Text) : Text :=
  if line.getLast? = some Byte.carriageReturn then line.dropLast else line

end Text
end WordMachine
