import WordMachine.Text.Rune

/-! Quoted literals: escapes inside a quote, and the extent of a literal that
starts at the head of a text. -/
namespace WordMachine.Text

/-- One decoded unit of a literal: a code point, or a byte that an escape gives by value. -/
inductive Glyph where
  | codePoint (code : Nat)
  | byte (value : UInt8)
  deriving DecidableEq

namespace Glyph

def code : Glyph → Nat
  | .codePoint code => code
  | .byte value => value.toNat

def bytes : Glyph → Text
  | .codePoint code => encode code
  | .byte value => [value]

end Glyph

/-- The byte that an escape by one letter gives. -/
def controlEscape? (b : UInt8) : Option UInt8 :=
  if b = 0x61 then some 0x07
  else if b = 0x62 then some 0x08
  else if b = 0x66 then some 0x0C
  else if b = 0x6E then some 0x0A
  else if b = 0x72 then some 0x0D
  else if b = 0x74 then some 0x09
  else if b = 0x76 then some 0x0B
  else if b = Byte.backslash then some Byte.backslash
  else none

/-- The value of exactly `count` digits of a base, and the text after them. -/
def fixedDigits (base : Nat) : Nat → Nat → Text → Option (Nat × Text)
  | 0, value, text => some (value, text)
  | _ + 1, _, [] => none
  | count + 1, value, b :: rest =>
    match Byte.digitValue? b with
    | some digit => if digit < base then fixedDigits base count (value * base + digit) rest else none
    | none => none

/-- A byte given by its value, if it is not beyond a limit. -/
def byteGlyph (limit : Nat) (read : Nat × Text) : Option (Glyph × Text) :=
  if read.1 ≤ limit then some (.byte read.1.toUInt8, read.2) else none

/-- A code point given by its value, if it is one. -/
def codeGlyph (read : Nat × Text) : Option (Glyph × Text) :=
  if read.1.isValidChar then some (.codePoint read.1, read.2) else none

/-- What follows a backslash. Only the quote in use may be escaped as itself. -/
def escape (quote : UInt8) : Text → Option (Glyph × Text)
  | [] => none
  | b :: rest =>
    match controlEscape? b with
    | some value => some (.byte value, rest)
    | none =>
      if b = 0x78 then fixedDigits 16 2 0 rest >>= byteGlyph 255
      else if b = 0x75 then fixedDigits 16 4 0 rest >>= codeGlyph
      else if b = 0x55 then fixedDigits 16 8 0 rest >>= codeGlyph
      else if 0x30 ≤ b && b ≤ 0x37 then fixedDigits 8 3 0 (b :: rest) >>= byteGlyph 255
      else if b = quote && (b = Byte.quote || b = Byte.apostrophe) then some (.byte b, rest)
      else none

/-- The first unit of a literal's body, and the rest of the body. -/
def glyph? (quote : UInt8) : Text → Option (Glyph × Text)
  | [] => none
  | b :: rest =>
    if b = quote then none
    else if b = Byte.backslash then escape quote rest
    else
      match decode? (b :: rest) with
      | some (code, width) => some (.codePoint code, rest.drop (width - 1))
      | none => some (.codePoint replacementCode, rest)

/-- The bytes of a body after those in `done`, which are in reverse. -/
def unquoteFrom (quote : UInt8) : Nat → Text → Text → Option Text
  | _, done, [] => some done.reverse
  | 0, _, _ :: _ => none
  | fuel + 1, done, b :: rest =>
    match glyph? quote (b :: rest) with
    | some (glyph, body) => unquoteFrom quote fuel (glyph.bytes.reverse ++ done) body
    | none => none

/-- The bytes that a literal's body stands for. A stray byte becomes the replacement
character; every unit takes at least one byte, so the body's length bounds the work. -/
def unquote? (quote : UInt8) (body : Text) : Option Text :=
  unquoteFrom quote body.length [] body

/-- The length of a string literal of which `length` bytes are read. -/
def stringLengthFrom : Nat → Text → Nat
  | _, [] => 0
  | length, b :: rest =>
    if b = Byte.quote then length + 1
    else if b = Byte.backslash then
      match rest with
      | [] => 0
      | _ :: after => stringLengthFrom (length + 2) after
    else stringLengthFrom (length + 1) rest

/-- The length of the string literal at the head of a text, quotes included. -/
def stringLength : Text → Nat
  | [] => 0
  | b :: rest => if b = Byte.quote then stringLengthFrom 1 rest else 0

/-- The length of the character literal at the head of a text, apostrophes included:
one code point, or a backslash and one code point. -/
def characterLength : Text → Nat
  | [] => 0
  | b :: rest =>
    if b = Byte.apostrophe then
      match rest with
      | [] => 0
      | c :: after =>
        if c = Byte.apostrophe then 0
        else
          let width := if c = Byte.backslash then 1 + headWidth after else headWidth rest
          if rest[width]? = some Byte.apostrophe then width + 2 else 0
    else 0

def inner (literal : Text) : Text := (literal.drop 1).dropLast

end WordMachine.Text
