import WordMachine.Text.Basic

/-! Blanks are the code points of the White_Space property. Each is recognised by
its bytes: a lead byte never continues another code point, so the match is exact
in any text. -/
namespace WordMachine.Text

/-- The width in bytes of the blank at the head of a text, or 0 if none stands there. -/
def blankWidth : Text → Nat
  | [] => 0
  | a :: rest =>
    if (0x09 ≤ a && a ≤ 0x0D) || a == 0x20 then 1
    else if a == 0xC2 then
      match rest with
      | b :: _ => if b == 0x85 || b == 0xA0 then 2 else 0
      | [] => 0
    else if a == 0xE1 || a == 0xE2 || a == 0xE3 then
      match rest with
      | b :: c :: _ =>
        if (a == 0xE1 && b == 0x9A && c == 0x80)
          || (a == 0xE2 && b == 0x80 && ((0x80 ≤ c && c ≤ 0x8A) || c == 0xA8 || c == 0xA9 || c == 0xAF))
          || (a == 0xE2 && b == 0x81 && c == 0x9F)
          || (a == 0xE3 && b == 0x80 && c == 0x80) then 3
        else 0
      | _ => 0
    else 0

/-- The fields in `done` and the one that ends here, all in reverse. -/
def closeField (current : Text) (done : List Text) : List Text :=
  if current.isEmpty then done else current.reverse :: done

/-- The fields after those in `done`, the first of which starts with `current`; the first
`skip` bytes belong to a blank. -/
def fieldsFrom : Nat → Text → List Text → Text → List Text
  | _, current, done, [] => (closeField current done).reverse
  | skip + 1, current, done, _ :: rest => fieldsFrom skip current done rest
  | 0, current, done, b :: rest =>
    match blankWidth (b :: rest) with
    | 0 => fieldsFrom 0 (b :: current) done rest
    | skip + 1 => fieldsFrom skip [] (closeField current done) rest

def fields (text : Text) : List Text := fieldsFrom 0 [] [] text

/-- A text without the blanks before it; the first `skip` bytes belong to a blank. -/
def dropBlanks : Nat → Text → Text
  | _, [] => []
  | skip + 1, _ :: rest => dropBlanks skip rest
  | 0, b :: rest =>
    match blankWidth (b :: rest) with
    | 0 => b :: rest
    | skip + 1 => dropBlanks skip rest

/-- What is kept of a text: blanks only if something follows them. -/
def keptFrom : Nat → Text → Text → Text → Text
  | _, _, kept, [] => kept.reverse
  | skip + 1, blanks, kept, b :: rest => keptFrom skip (b :: blanks) kept rest
  | 0, blanks, kept, b :: rest =>
    match blankWidth (b :: rest) with
    | 0 => keptFrom 0 [] (b :: (blanks ++ kept)) rest
    | skip + 1 => keptFrom skip (b :: blanks) kept rest

def trim (text : Text) : Text := keptFrom 0 [] [] (dropBlanks 0 text)

end WordMachine.Text
