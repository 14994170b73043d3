import WordMachine.Assembly.Operand
import WordMachine.Expression.Evaluate
import WordMachine.Text.Pieces

/-! Expressions embedded in a line as `$(...)`. -/
namespace WordMachine.Assembly

def lastClose (text : Text) : Option Nat :=
  (text.zipIdx.filter fun (b, _) => b = Byte.parenClose).getLast?.map (·.2)

/-- The length of the embedded expression at the head of a text. It reaches to the last
closing parenthesis before the next dollar sign. -/
def embeddedLength : Text → Nat
  | dollar :: paren :: rest =>
    if dollar = Byte.dollar && paren = Byte.parenOpen then
      match lastClose (rest.takeWhile (· != Byte.dollar)) with
      | some index => index + 3
      | none => 0
    else 0
  | _ => 0

def embeddedText (found : Text) : Text := (found.drop 2).dropLast

/-- The value of a symbol: an equate that is a number, or else a label. -/
def symbolValue? (state : State) (name : Text) : Option Int :=
  match (state.equates.find? name).map valueOf with
  | some (.ok word) => some word.toNat
  | _ => (state.labels.find? name).map fun addr => (addr.toNat : Int)

def evaluateEmbedded (evaluate : Expression.Evaluator) (symbols : Text → Option Int)
    (text : Text) : Except Error Int :=
  match evaluate symbols text with
  | .integer value => .ok value
  | .noInteger => .error (.notExpression text)
  | .failed => .error .evaluation

/-- What a piece of a line is replaced by. -/
def pieceText (evaluate : Expression.Evaluator) (symbols : Text → Option Int) :
    Text.Piece → Except Error Text
  | .plain byte => .ok [byte]
  | .found found => (evaluateEmbedded evaluate symbols (embeddedText found)).map Text.ofInt

/-- The texts of pieces joined, or the last failure among them. -/
def joinPieces (done : Text) (failure : Option Error) : List (Except Error Text) → Except Error Text
  | [] =>
    match failure with
    | some error => .error error
    | none => .ok done.reverse
  | .ok text :: rest => joinPieces (text.reverse ++ done) failure rest
  | .error error :: rest => joinPieces done (some error) rest

/-- A line with every embedded expression replaced by its value. All are evaluated, and
if some fail the last failure is reported. -/
def expandEmbedded (evaluate : Expression.Evaluator) (state : State) (line : Text) :
    Except Error Text :=
  joinPieces [] none
    ((Text.pieces embeddedLength line).map (pieceText evaluate (symbolValue? state)))

end WordMachine.Assembly
