import WordMachine.Console

/-! Programs: the words of a memory image, the statements they were assembled from,
and the image format, two bytes for a word with the low byte first. -/
namespace WordMachine

/-- One line of assembled source and the words it produced. -/
structure Statement where
  line : Nat
  addr : Word
  fields : List Text
  words : List Word
  deriving DecidableEq

namespace Statement

/-- Whether the statement produced the word at an address. -/
def covers (statement : Statement) (addr : Word) : Bool :=
  statement.addr ≤ addr && addr.toNat < statement.addr.toNat + statement.words.length

end Statement

/-- A memory image. An image that was not assembled has no statements. -/
structure Program where
  words : List Word := []
  statements : Array Statement := #[]
  deriving DecidableEq

namespace Program

/-- The statement that produced the word at an address, and the place of the word in it. -/
def locate? (program : Program) (addr : Word) : Option (Statement × Nat) :=
  (program.statements.find? (·.covers addr)).map fun statement =>
    (statement, addr.toNat - statement.addr.toNat)

/-- The source line of an address, or 0 if it has none. -/
def lineAt (program : Program) (addr : Word) : Nat :=
  match program.locate? addr with
  | some (statement, _) => statement.line
  | none => 0

/-- The words with their addresses, which wrap around in a longer image. -/
def codes (program : Program) : List (Word × Word) :=
  program.words.zipIdx.map fun (word, index) => (index.toUInt16, word)

def encodeWord (word : Word) : List UInt8 := [word.toUInt8, (word >>> 8).toUInt8]

def encode (words : List Word) : List UInt8 := words.flatMap encodeWord

/-- The words of an image after those in `done`, which are in reverse. -/
def decodeFrom (done : List Word) : List UInt8 → List Word
  | low :: high :: rest => decodeFrom ((low.toUInt16 ||| (high.toUInt16 <<< 8)) :: done) rest
  | _ => done.reverse

/-- The words of an image. A last odd byte is dropped. -/
def decode (bytes : List UInt8) : List Word := decodeFrom [] bytes

/-- Replaces a program by the image that a source of bytes gives. The result is the
number of bytes read; if the source fails the program stays. -/
def read (program : Program) (bytes : List UInt8) (ending : Failure) :
    Nat × Option Error × Program :=
  match ending with
  | .endOfFile => (bytes.length, none, { words := decode bytes })
  | failure => (bytes.length, some (.during "program read" failure.error), program)

/-- Writes the image to a sink. The result is the number of bytes taken. -/
def write (program : Program) (sink : Sink) : Nat × Option Error × Sink :=
  let (count, refusal, sink) := sink.write (encode program.words)
  (count, refusal.map fun failure => .during "program write" failure.error, sink)

end Program
end WordMachine
