import WordMachine.Text.Numeral
import WordMachine.Text.Rune

/-! The tokens of an expression. -/
namespace WordMachine.Expression

inductive Symbol where
  | plus | minus | times | divide | floorDivide | remainder
  | pipe | caret | ampersand | shiftLeft | shiftRight | tilde
  | equal | notEqual | less | lessEqual | greater | greaterEqual
  | open | close | comma | assign | dot
  | and | or | not | if | else
  deriving DecidableEq

inductive Token where
  | integer (value : Nat)
  | decimal (value : Float)
  | text (content : Text)
  | name (content : Text)
  | symbol (symbol : Symbol)

/-- Words that are not names. Those without a symbol have no place in an expression. -/
def reserved : List (Text × Option Symbol) :=
  [("and", some .and), ("or", some .or), ("not", some .not), ("if", some .if), ("else", some .else),
   ("break", none), ("continue", none), ("def", none), ("elif", none), ("for", none), ("in", none),
   ("lambda", none), ("load", none), ("pass", none), ("return", none), ("while", none), ("as", none),
   ("async", none), ("await", none), ("class", none), ("del", none), ("except", none),
   ("finally", none), ("from", none), ("global", none), ("import", none), ("is", none),
   ("nonlocal", none), ("raise", none), ("try", none), ("with", none), ("yield", none)]

def isNameByte (b : UInt8) : Bool := Byte.isLetter b || Byte.isDigit b || b = Byte.underscore

def nameToken? (content : Text) : Option Token :=
  match reserved.find? (·.1 == content) with
  | some (_, some symbol) => some (.symbol symbol)
  | some (_, none) => none
  | none => some (.name content)

private def digitsValue (base : Nat) (digits : Text) : Nat :=
  digits.foldl (fun value b => value * base + (Byte.digitValue? b).getD 0) 0

private def isDigitOf (base : Nat) (b : UInt8) : Bool :=
  match Byte.digitValue? b with
  | some digit => digit < base
  | none => false

/-- An integer after the mark of its base. Only hexadecimal ones may exceed 64 bits. -/
private def markedInteger (base : Nat) (text : Text) : Option (Token × Text) :=
  let digits := text.takeWhile (isDigitOf base)
  let value := digitsValue base digits
  if digits.isEmpty ∨ (base ≠ 16 ∧ powerOfTwo 63 ≤ value) then none
  else some (.integer value, text.drop digits.length)

private def finite? (value : Float) : Option Token :=
  if value.isFinite then some (.decimal value) else none

/-- The exponent of a decimal and the text after it. -/
private def exponent? : Text → Option (Int × Text)
  | mark :: rest =>
    if Byte.lower mark = 0x65 then
      let (sign, rest) : Int × Text :=
        match rest with
        | b :: after => if b = Byte.minus then (-1, after) else if b = Byte.plus then (1, after) else (1, rest)
        | [] => (1, rest)
      let digits := rest.takeWhile Byte.isDigit
      if digits.isEmpty then none else some (sign * digitsValue 10 digits, rest.drop digits.length)
    else some (0, mark :: rest)
  | [] => some (0, [])

private def decimalToken? (whole fraction : Text) (rest : Text) : Option (Token × Text) := do
  let (exponent, rest) ← exponent? rest
  let mantissa := digitsValue 10 (whole ++ fraction)
  let scale : Int := exponent - fraction.length
  let value := if mantissa = 0 then 0
    else if scale < -2000 then 0
    else if 2000 < scale then 1 / 0
    else Float.ofScientific mantissa (scale < 0) scale.natAbs
  return (← finite? value, rest)

/-- A number that starts with a digit. A leading zero is followed by zeros only, unless
the number has a base mark or is a decimal. -/
private def numberToken? (text : Text) : Option (Token × Text) :=
  match text with
  | z :: m :: rest =>
    if z = Byte.zero && Byte.lower m = 0x78 then markedInteger 16 rest
    else if z = Byte.zero && Byte.lower m = 0x6F then markedInteger 8 rest
    else if z = Byte.zero && Byte.lower m = 0x62 then markedInteger 2 rest
    else plainNumber text
  | _ => plainNumber text
where
  plainNumber (text : Text) : Option (Token × Text) :=
    let whole := text.takeWhile Byte.isDigit
    let rest := text.drop whole.length
    match rest with
    | b :: after =>
      if b = Byte.dot then
        let fraction := after.takeWhile Byte.isDigit
        decimalToken? whole fraction (after.drop fraction.length)
      else if Byte.lower b = 0x65 then decimalToken? whole [] rest
      else integerToken whole rest
    | [] => integerToken whole rest
  integerToken (whole rest : Text) : Option (Token × Text) :=
    if whole.head? = some Byte.zero && whole.any (· != Byte.zero) then none
    else some (.integer (digitsValue 10 whole), rest)

private def textEscape? (b : UInt8) : Option UInt8 :=
  if b = 0x61 then some 0x07
  else if b = 0x62 then some 0x08
  else if b = 0x66 then some 0x0C
  else if b = 0x6E then some 0x0A
  else if b = 0x72 then some 0x0D
  else if b = 0x74 then some 0x09
  else if b = 0x76 then some 0x0B
  else if b = Byte.backslash || b = Byte.quote || b = Byte.apostrophe then some b
  else none

private def textToken? (quote : UInt8) : Text → Text → Option (Token × Text)
  | _, [] => none
  | done, b :: rest =>
    if b = quote then some (.text done.reverse, rest)
    else if b = Byte.carriageReturn then none
    else if b = Byte.backslash then
      match rest with
      | [] => none
      | c :: after =>
        match textEscape? c with
        | some value => textToken? quote (value :: done) after
        | none => none
    else textToken? quote (b :: done) rest

/-- Symbols of two characters come before their first character alone. -/
def symbols : List (Text × Symbol) :=
  [("//", .floorDivide), ("<<", .shiftLeft), (">>", .shiftRight), ("==", .equal), ("!=", .notEqual),
   ("<=", .lessEqual), (">=", .greaterEqual), ("+", .plus), ("-", .minus), ("*", .times),
   ("/", .divide), ("%", .remainder), ("|", .pipe), ("^", .caret), ("&", .ampersand), ("~", .tilde),
   ("<", .less), (">", .greater), ("(", .open), (")", .close), (",", .comma), ("=", .assign),
   (".", .dot)]

def symbolToken? (text : Text) : Option (Token × Text) :=
  (symbols.find? fun entry => entry.1.isPrefixOf text).map fun entry =>
    (.symbol entry.2, text.drop entry.1.length)

def token? (text : Text) : Option (Token × Text) :=
  match text with
  | [] => none
  | b :: rest =>
    if Byte.isDigit b then numberToken? text
    else if Byte.isLetter b || b = Byte.underscore then do
      let content := text.takeWhile isNameByte
      return (← nameToken? content, text.drop content.length)
    else if b = Byte.apostrophe || b = Byte.quote then textToken? b [] rest
    else if b = Byte.dot && (rest.head?.map Byte.isDigit).getD false then
      let fraction := rest.takeWhile Byte.isDigit
      decimalToken? [] fraction (rest.drop fraction.length)
    else symbolToken? text

def tokensFrom : Nat → List Token → Text → Option (List Token)
  | 0, _, _ => none
  | _ + 1, done, [] => some done.reverse
  | fuel + 1, done, b :: rest =>
    if b = Byte.space || b = Byte.tab then tokensFrom fuel done rest
    else if b = Byte.hash || b = 0 then some done.reverse
    else if b = Byte.backslash && rest.isEmpty then some done.reverse
    else if b = Byte.carriageReturn && rest.isEmpty then some done.reverse
    else
      match token? (b :: rest) with
      | some (token, rest) => tokensFrom fuel (token :: done) rest
      | none => none

/-- The tokens of a text, or nothing if some part of it is no token. A comment reaches
to the end. Every token takes at least one byte, so the length bounds the work. -/
def tokens? (text : Text) : Option (List Token) := tokensFrom (text.length + 1) [] text

end WordMachine.Expression
