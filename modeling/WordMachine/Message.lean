import WordMachine.Text.Basic

/-! Messages for readers. Numbers in a message are grouped in thousands as the
language of the reader has it; words and addresses are in hexadecimal. -/
namespace WordMachine

inductive Language where
  | english
  | german
  deriving DecidableEq

namespace Language

/-- The mark between groups of three digits. -/
def groupMark : Language → UInt8
  | .english => Byte.comma
  | .german => Byte.dot

/-- Digits from the right, with a mark after every third one that another follows. -/
def groupReversed (mark : UInt8) : Text → Text
  | a :: b :: c :: d :: rest => a :: b :: c :: mark :: groupReversed mark (d :: rest)
  | digits => digits

/-- An integer in decimal digits with a mark before every third digit from the right. -/
def number (language : Language) (n : Int) : Text :=
  let digits := (groupReversed language.groupMark (Text.ofNat n.natAbs).reverse).reverse
  if n < 0 then Byte.minus :: digits else digits

end Language

inductive Part where
  | text (content : Text)
  | number (n : Int)
  | word (n : Nat)
  deriving DecidableEq

namespace Part

instance : Coe String Part := ⟨fun s => .text s⟩
instance : Coe Text Part := ⟨.text⟩

def render (language : Language) : Part → Text
  | .text content => content
  | .number n => language.number n
  | .word n => ("0x" : Text) ++ Text.hex4 n

end Part

abbrev Message := List Part

namespace Message

def render (language : Language) (message : Message) : Text :=
  message.flatMap (Part.render language)

/-- What a template's verb stands for. -/
inductive Argument where
  | integer (n : Int)
  | text (content : Text)
  deriving DecidableEq

namespace Argument

/-- The part that shows an argument by its nature. -/
def part : Argument → Part
  | .integer n => .number n
  | .text content => .text content

end Argument

private def decimalVerb : List Argument → Part × List Argument
  | .integer n :: rest => (.number n, rest)
  | .text text :: rest => (.text (("%!d(string=" : Text) ++ text ++ (")" : Text)), rest)
  | [] => (("%!d(BADINDEX)" : Text), [])

private def plainVerb : List Argument → Part × List Argument
  | argument :: rest => (argument.part, rest)
  | [] => (("%!v(BADINDEX)" : Text), [])

private def wordVerb : List Argument → Part × List Argument
  | .integer n :: rest => (.word n.toNat, rest)
  | .text text :: rest =>
    (.text (("0x" : Text) ++ text.flatMap fun b => (Text.hex4 b.toNat).drop 2), rest)
  | [] => (("%!x(BADINDEX)" : Text), [])

/-- The message of a template: `%d` stands for an integer, `%v` for an integer or a
text, `%#04x` for a word or an address, and `%%` for a percent sign. -/
def ofTemplate : Text → List Argument → Message
  | 0x25 :: 0x64 :: rest, arguments =>
    let (part, arguments) := decimalVerb arguments
    part :: ofTemplate rest arguments
  | 0x25 :: 0x76 :: rest, arguments =>
    let (part, arguments) := plainVerb arguments
    part :: ofTemplate rest arguments
  | 0x25 :: 0x23 :: 0x30 :: 0x34 :: 0x78 :: rest, arguments =>
    let (part, arguments) := wordVerb arguments
    part :: ofTemplate rest arguments
  | 0x25 :: 0x25 :: rest, arguments => .text [0x25] :: ofTemplate rest arguments
  | b :: rest, arguments => .text [b] :: ofTemplate rest arguments
  | [], _ => []

end Message
end WordMachine
