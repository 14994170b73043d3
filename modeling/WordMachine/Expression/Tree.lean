import WordMachine.Expression.Token

/-! Expressions as trees, and reading them with operator precedence. -/
namespace WordMachine.Expression

inductive UnaryOperator where
  | identity | negate | invert
  deriving DecidableEq

inductive BinaryOperator where
  | add | subtract | multiply | divide | floorDivide | remainder
  | and | or | xor | shiftLeft | shiftRight
  | equal | notEqual | less | lessEqual | greater | greaterEqual
  deriving DecidableEq

inductive Tree where
  | integer (value : Nat)
  | decimal (value : Float)
  | text (content : Text)
  | name (content : Text)
  | tuple (items : List Tree)
  | unary (operator : UnaryOperator) (operand : Tree)
  | binary (operator : BinaryOperator) (left right : Tree)
  | conjunction (left right : Tree)
  | disjunction (left right : Tree)
  | negation (operand : Tree)
  | choice (condition yes no : Tree)
  | call (function : Tree) (arguments : List Tree)
  | member (object : Tree) (name : Text)

namespace Tree

mutual
/-- All names in an expression, also where they are not evaluated. -/
def names : Tree → List Text
  | .integer _ | .decimal _ | .text _ => []
  | .name content => [content]
  | .tuple items => namesOfAll items
  | .unary _ operand => operand.names
  | .binary _ left right => left.names ++ right.names
  | .conjunction left right => left.names ++ right.names
  | .disjunction left right => left.names ++ right.names
  | .negation operand => operand.names
  | .choice condition yes no => condition.names ++ yes.names ++ no.names
  | .call function arguments => function.names ++ namesOfAll arguments
  | .member object _ => object.names

def namesOfAll : List Tree → List Text
  | [] => []
  | item :: rest => item.names ++ namesOfAll rest
end

end Tree

inductive Joiner where
  | conjunction
  | disjunction
  | binary (operator : BinaryOperator)

def Joiner.join : Joiner → Tree → Tree → Tree
  | .conjunction, left, right => .conjunction left right
  | .disjunction, left, right => .disjunction left right
  | .binary operator, left, right => .binary operator left right

/-! Levels of precedence, the weakest first. -/

namespace Level

def disjunction : Nat := 0
def conjunction : Nat := 1
def negation : Nat := 2
def comparison : Nat := 3
def primary : Nat := 10

end Level

/-- The meaning of a symbol between two operands, and its level. -/
def joiner? : Symbol → Option (Joiner × Nat)
  | .or => some (.disjunction, Level.disjunction)
  | .and => some (.conjunction, Level.conjunction)
  | .equal => some (.binary .equal, Level.comparison)
  | .notEqual => some (.binary .notEqual, Level.comparison)
  | .less => some (.binary .less, Level.comparison)
  | .lessEqual => some (.binary .lessEqual, Level.comparison)
  | .greater => some (.binary .greater, Level.comparison)
  | .greaterEqual => some (.binary .greaterEqual, Level.comparison)
  | .pipe => some (.binary .or, 4)
  | .caret => some (.binary .xor, 5)
  | .ampersand => some (.binary .and, 6)
  | .shiftLeft => some (.binary .shiftLeft, 7)
  | .shiftRight => some (.binary .shiftRight, 7)
  | .plus => some (.binary .add, 8)
  | .minus => some (.binary .subtract, 8)
  | .times => some (.binary .multiply, 9)
  | .divide => some (.binary .divide, 9)
  | .floorDivide => some (.binary .floorDivide, 9)
  | .remainder => some (.binary .remainder, 9)
  | _ => none

private def signOf? : Symbol → Option UnaryOperator
  | .plus => some .identity
  | .minus => some .negate
  | .tilde => some .invert
  | _ => none

private def startsNothing : List Token → Bool
  | [] => true
  | .symbol .close :: _ | .symbol .assign :: _ => true
  | _ => false

abbrev Reader (α : Type) := List Token → Option (α × List Token)

mutual
private def readTest : Nat → Reader Tree
  | 0, _ => none
  | fuel + 1, tokens => do
    let (yes, rest) ← readLevel fuel Level.disjunction tokens
    match rest with
    | .symbol .if :: rest =>
      let (condition, rest) ← readLevel fuel Level.disjunction rest
      match rest with
      | .symbol .else :: rest =>
        let (no, rest) ← readTest fuel rest
        return (.choice condition yes no, rest)
      | _ => none
    | _ => return (yes, rest)

/-- An expression whose operators are of a level or stronger. -/
private def readLevel : Nat → Nat → Reader Tree
  | 0, _, _ => none
  | fuel + 1, level, tokens =>
    if Level.primary ≤ level then do
      let (tree, rest) ← readPrimary fuel tokens
      readSuffixes fuel tree rest
    else
      match tokens with
      | .symbol .not :: rest =>
        if level = Level.negation then do
          let (operand, rest) ← readLevel fuel level rest
          return (.negation operand, rest)
        else do
          let (left, rest) ← readLevel fuel (level + 1) tokens
          readOperators fuel level true left rest
      | _ => do
        let (left, rest) ← readLevel fuel (level + 1) tokens
        readOperators fuel level true left rest

/-- The operators of one level, joined from the left. Comparisons do not associate. -/
private def readOperators : Nat → Nat → Bool → Tree → Reader Tree
  | 0, _, _, _, _ => none
  | fuel + 1, level, first, left, tokens =>
    match tokens with
    | .symbol .not :: _ => none
    | .symbol symbol :: rest =>
      match joiner? symbol with
      | some (joiner, own) =>
        if own = level then
          if !first && level == Level.comparison then none
          else do
            let (right, rest) ← readLevel fuel (level + 1) rest
            readOperators fuel level false (joiner.join left right) rest
        else return (left, tokens)
      | none => return (left, tokens)
    | _ => return (left, tokens)

private def readPrimary : Nat → Reader Tree
  | 0, _ => none
  | fuel + 1, tokens =>
    match tokens with
    | .integer value :: rest => return (.integer value, rest)
    | .decimal value :: rest => return (.decimal value, rest)
    | .text content :: rest => return (.text content, rest)
    | .name content :: rest => return (.name content, rest)
    | .symbol .open :: .symbol .close :: rest => return (.tuple [], rest)
    | .symbol .open :: rest => do
      let (tree, rest) ← readList fuel true rest
      match rest with
      | .symbol .close :: rest => return (tree, rest)
      | _ => none
    | .symbol symbol :: rest => do
      let operator ← signOf? symbol
      let (operand, rest) ← readLevel fuel Level.primary rest
      return (.unary operator operand, rest)
    | [] => none

/-- Calls and members after a primary. -/
private def readSuffixes : Nat → Tree → Reader Tree
  | 0, _, _ => none
  | fuel + 1, tree, tokens =>
    match tokens with
    | .symbol .open :: rest => do
      let (arguments, rest) ← readArguments fuel [] rest
      readSuffixes fuel (.call tree arguments) rest
    | .symbol .dot :: .name content :: rest => readSuffixes fuel (.member tree content) rest
    | .symbol .dot :: _ => none
    | _ => return (tree, tokens)

private def readArguments : Nat → List Tree → Reader (List Tree)
  | 0, _, _ => none
  | fuel + 1, done, tokens =>
    match tokens with
    | .symbol .close :: rest => return (done.reverse, rest)
    | _ => do
      let (argument, rest) ← readTest fuel tokens
      match rest with
      | .symbol .comma :: rest => readArguments fuel (argument :: done) rest
      | .symbol .close :: rest => return ((argument :: done).reverse, rest)
      | _ => none

/-- An expression, or a tuple if a comma follows it. -/
private def readList : Nat → Bool → Reader Tree
  | 0, _, _ => none
  | fuel + 1, mayTrail, tokens => do
    let (first, rest) ← readTest fuel tokens
    match rest with
    | .symbol .comma :: _ =>
      let (items, rest) ← readItems fuel mayTrail [first] rest
      return (.tuple items, rest)
    | _ => return (first, rest)

private def readItems : Nat → Bool → List Tree → Reader (List Tree)
  | 0, _, _, _ => none
  | fuel + 1, mayTrail, done, tokens =>
    match tokens with
    | .symbol .comma :: rest =>
      if startsNothing rest then
        if mayTrail then return (done.reverse, rest) else none
      else do
        let (item, rest) ← readTest fuel rest
        readItems fuel mayTrail (item :: done) rest
    | _ => return (done.reverse, tokens)
end

/-- A bound on how deep reading so many tokens can nest. -/
private def depthBound (tokens : List Token) : Nat := 20 * (tokens.length + 2)

/-- The name that the value of an expression is assigned to. -/
def resultName : Text := "rc"

/-- What is written after a dollar sign: an expression whose value is assigned, or, if
it starts with an equals sign, a comparison of the result name whose value is dropped. -/
inductive Clause where
  | assignment (value : Tree)
  | comparison (test : Tree)

/-- Reads an expression as the right side of an assignment. -/
def read? (text : Text) : Option Clause := do
  let tokens ← tokens? (resultName ++ [Byte.equals] ++ text)
  match tokens with
  | .name _ :: .symbol .assign :: rest =>
    match ← readList (depthBound rest) false rest with
    | (tree, []) => return .assignment tree
    | _ => none
  | tokens =>
    match ← readList (depthBound tokens) false tokens with
    | (tree, []) => return .comparison tree
    | _ => none

end WordMachine.Expression
