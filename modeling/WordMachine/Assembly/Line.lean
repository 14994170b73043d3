import WordMachine.Text.Blank
import WordMachine.Text.Pieces
import WordMachine.Text.Quoted
import WordMachine.Word

/-! A source line with its literals written as numbers and its comment removed. -/
namespace WordMachine.Assembly

/-- The codes of a string's bytes, separated by blanks. -/
def stringCodes (bytes : Text) : Text :=
  Text.joinWith [Byte.space] (bytes.map fun b => Text.ofNat b.toNat)

/-- The codes of a string literal, or nothing if an escape in it is wrong. -/
def stringLiteral? (literal : Text) : Option Text :=
  (Text.unquote? Byte.quote literal.inner).map stringCodes

/-- The code of a character literal. One that is no literal value stays as it is. -/
def characterLiteral (literal : Text) : Text :=
  match Text.glyph? Byte.apostrophe literal.inner with
  | some (glyph, []) => if glyph.code ≤ Word.max.toNat then Text.ofNat glyph.code else literal
  | _ => literal

/-- Whether a piece is a string literal with a wrong escape. -/
def isBadString : Text.Piece → Bool
  | .plain _ => false
  | .found literal => (stringLiteral? literal).isNone

/-- The pieces of a line joined, with string literals as codes. -/
def expandStrings (pieces : List Text.Piece) : Text :=
  pieces.flatMap (Text.Piece.expand fun literal => (stringLiteral? literal).getD literal)

/-- A line with strings and then characters replaced by their codes, cut at the first
semicolon and trimmed. If a string is wrong the result is the line with the other
strings replaced. -/
def expandLiterals (line : Text) : Except Text Text :=
  let pieces := Text.pieces Text.stringLength line
  let expanded := expandStrings pieces
  if pieces.any isBadString then .error expanded
  else
    let expanded := Text.replaceMatches Text.characterLength characterLiteral expanded
    .ok (Text.trim (Text.before Byte.semicolon expanded))

end WordMachine.Assembly
