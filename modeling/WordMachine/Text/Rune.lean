import WordMachine.Text.Basic

/-! Code points in bytes. A byte that starts no well-formed sequence stands for
itself and is shown as the replacement character. -/
namespace WordMachine.Text

def continuation? (b : UInt8) : Option Nat :=
  if 0x80 ≤ b && b < 0xC0 then some (b.toNat - 0x80) else none

/-- A code point and its width, unless it is overlong, a surrogate or too large. -/
def within (least : Nat) (code width : Nat) : Option (Nat × Nat) :=
  if least ≤ code ∧ code ≤ 0x10FFFF ∧ ¬ (0xD800 ≤ code ∧ code ≤ 0xDFFF) then some (code, width)
  else none

/-- The code point at the head of a text and its width in bytes. Overlong forms,
surrogates and values above the last code point are not well formed. -/
def decode? : Text → Option (Nat × Nat)
  | [] => none
  | a :: rest =>
    let lead := a.toNat
    if lead < 0x80 then some (lead, 1)
    else if lead < 0xC0 then none
    else if lead < 0xE0 then do
      let b ← rest[0]? >>= continuation?
      within 0x80 ((lead - 0xC0) * 64 + b) 2
    else if lead < 0xF0 then do
      let b ← rest[0]? >>= continuation?
      let c ← rest[1]? >>= continuation?
      within 0x800 (((lead - 0xE0) * 64 + b) * 64 + c) 3
    else if lead < 0xF8 then do
      let b ← rest[0]? >>= continuation?
      let c ← rest[1]? >>= continuation?
      let d ← rest[2]? >>= continuation?
      within 0x10000 ((((lead - 0xF0) * 64 + b) * 64 + c) * 64 + d) 4
    else none

def replacementCode : Nat := 0xFFFD

/-- The width in bytes of what stands at the head of a text: a whole code point, or
one byte that belongs to none. -/
def headWidth (text : Text) : Nat := ((decode? text).map (·.2)).getD 1

def encode (code : Nat) : Text := String.utf8EncodeChar (Char.ofNat code)

/-- The characters after those in `done`, which are in reverse. -/
def charactersFrom : Nat → List Char → Text → List Char
  | _, done, [] => done.reverse
  | skip + 1, done, _ :: rest => charactersFrom skip done rest
  | 0, done, b :: rest =>
    match decode? (b :: rest) with
    | some (code, width) => charactersFrom (width - 1) (Char.ofNat code :: done) rest
    | none => charactersFrom 0 (Char.ofNat replacementCode :: done) rest

/-- The text as characters, each stray byte as the replacement character. -/
def display (text : Text) : String := String.ofList (charactersFrom 0 [] text)

end WordMachine.Text
