import WordMachine.Text.Basic

/-! A text cut at the leftmost matches of a pattern. A pattern is given by the
length of its match at the head of a text, 0 where it does not match. -/
namespace WordMachine.Text

inductive Piece where
  | plain (byte : UInt8)
  | found (text : Text)
  deriving DecidableEq

namespace Piece

def text : Piece → Text
  | .plain byte => [byte]
  | .found text => text

/-- The piece with `render` applied to a match. -/
def expand (render : Text → Text) : Piece → Text
  | .plain byte => [byte]
  | .found text => render text

end Piece

/-- The pieces after those in `done`, which are in reverse; the first `skip` bytes belong
to the last match. -/
def piecesFrom (matchLength : Text → Nat) : Nat → List Piece → Text → List Piece
  | _, done, [] => done.reverse
  | skip + 1, done, _ :: rest => piecesFrom matchLength skip done rest
  | 0, done, b :: rest =>
    match matchLength (b :: rest) with
    | 0 => piecesFrom matchLength 0 (.plain b :: done) rest
    | skip + 1 => piecesFrom matchLength skip (.found ((b :: rest).take (skip + 1)) :: done) rest

/-- The pieces of a text in order; matches do not overlap. -/
def pieces (matchLength : Text → Nat) (text : Text) : List Piece :=
  piecesFrom matchLength 0 [] text

def replaceMatches (matchLength : Text → Nat) (render : Text → Text) (text : Text) : Text :=
  (pieces matchLength text).flatMap (Piece.expand render)

end WordMachine.Text
