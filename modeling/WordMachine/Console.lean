import WordMachine.Error

/-! The character console: an input device, an output device with an optional
buffer, and a raw mode that is held while input is read. -/
namespace WordMachine

/-- Why a device refuses. A device may raise any condition, also one that the machine has for
failures of its own. -/
inductive Failure where
  | endOfFile
  | broken (reason : Text)
  | raised (condition : Condition)
  | during (activity : Text) (cause : Failure)
  deriving DecidableEq

def Failure.error : Failure → Error
  | .endOfFile => .endOfFile
  | .broken reason => .device reason
  | .raised condition => .plain condition
  | .during activity cause => .during activity cause.error

/-- An input device: the bytes that are left, what every read after them gives, which reads
fail while bytes are left, the first being read 1, and for each read so far whether raw mode
was active. A read that fails takes no byte. -/
structure Input where
  remaining : List UInt8
  ending : Failure := .endOfFile
  refuses : Nat → Option Failure := fun _ => none
  reads : Array Bool := #[]

/-- Where output ends up. A sink with limited room takes what fits and then refuses. -/
structure Sink where
  room : Option Nat := none
  refusal : Failure := .endOfFile
  taken : Array UInt8 := #[]
  deriving DecidableEq

namespace Sink

/-- How many bytes of a write the sink takes. -/
def accepts (sink : Sink) (bytes : List UInt8) : Nat :=
  match sink.room with
  | none => bytes.length
  | some room => min room bytes.length

/-- One write: the number of bytes taken, the refusal if some were left, and the sink
afterwards. -/
def write (sink : Sink) (bytes : List UInt8) : Nat × Option Failure × Sink :=
  let count := sink.accepts bytes
  let sink' : Sink :=
    { room := sink.room.map (· - count), refusal := sink.refusal,
      taken := sink.taken.appendList (bytes.take count) }
  (count, if count < bytes.length then some sink.refusal else none, sink')

end Sink

/-- Bytes on their way to a sink. After a failed flush the failure stays. -/
structure Buffer where
  size : Nat
  pending : Array UInt8 := #[]
  failure : Option Failure := none
  deriving DecidableEq

structure Output where
  sink : Sink := {}
  buffer : Option Buffer := none
  deriving DecidableEq

namespace Output

/-- Sends a buffer to a sink, in one write. What is not taken stays in the buffer. -/
def flushBuffer (buffer : Buffer) (sink : Sink) : Option Failure × Output :=
  match buffer.failure with
  | some failure => (some failure, ⟨sink, some buffer⟩)
  | none =>
    if buffer.pending.isEmpty then (none, ⟨sink, some buffer⟩)
    else
      let (count, refusal, sink) := sink.write buffer.pending.toList
      (refusal, ⟨sink, some { buffer with
        pending := buffer.pending.extract count buffer.pending.size, failure := refusal }⟩)

def flush (output : Output) : Option Failure × Output :=
  match output with
  | ⟨sink, none⟩ => (none, ⟨sink, none⟩)
  | ⟨sink, some buffer⟩ => flushBuffer buffer sink

/-- Puts a byte into the buffer, if there is one. -/
def append (byte : UInt8) : Output → Output
  | ⟨sink, none⟩ => ⟨sink, none⟩
  | ⟨sink, some buffer⟩ => ⟨sink, some { buffer with pending := buffer.pending.push byte }⟩

/-- Writes one byte to a buffer before a sink. -/
def writeBuffered (byte : UInt8) (buffer : Buffer) (sink : Sink) : Option Failure × Output :=
  match buffer.failure with
  | some failure => (some failure, ⟨sink, some buffer⟩)
  | none =>
    if buffer.pending.size < buffer.size then
      (none, ⟨sink, some { buffer with pending := buffer.pending.push byte }⟩)
    else
      match flushBuffer buffer sink with
      | (some failure, output) => (some failure, output)
      | (none, output) => (none, output.append byte)

/-- Writes one byte. A byte for a full buffer flushes it first. -/
def write (output : Output) (byte : UInt8) : Option Failure × Output :=
  match output with
  | ⟨sink, none⟩ =>
    let (_, refusal, sink) := sink.write [byte]
    (refusal, ⟨sink, none⟩)
  | ⟨sink, some buffer⟩ => writeBuffered byte buffer sink

end Output

/-- A raw mode that counts how often it was asked for and entered. Every entry gives a
function that restores the mode before it, which is known by the number of the entry, the
first being 1. `restores` are the functions that were called, the last one first; where
there was none to call it has `none`. `refuses` says which attempts fail, the first being
attempt 1. -/
structure RawMode where
  refuses : Nat → Option Failure := fun _ => none
  attempts : Nat := 0
  entered : Nat := 0
  restores : List (Option Nat) := []

namespace RawMode

def restored (raw : RawMode) : Nat := raw.restores.length

def isActive (raw : RawMode) : Bool := raw.restored < raw.entered

/-- Enters raw mode, and gives the function that restores the mode before. -/
def enter (raw : RawMode) : Except Failure Nat × RawMode :=
  let attempt := raw.attempts + 1
  match raw.refuses attempt with
  | some failure => (.error failure, { raw with attempts := attempt })
  | none => (.ok (raw.entered + 1), { raw with attempts := attempt, entered := raw.entered + 1 })

/-- Calls a function that restores the mode. -/
def restore (raw : RawMode) (function : Option Nat) : RawMode :=
  { raw with restores := function :: raw.restores }

end RawMode

/-- `held` counts the holds on raw mode that are in force, and `restore` restores the mode
before them. Every hold that is granted gives a function that releases it, known by its
number; `unreleased` are those that were not called yet. -/
structure Console where
  input : Option Input := none
  output : Option Output := none
  raw : Option RawMode := none
  held : Int := 0
  restore : Option Nat := none
  unreleased : List Nat := []
  granted : Nat := 0

namespace Console

abbrev Use := EStateM Error Console

def isRaw : Option RawMode → Bool
  | some raw => raw.isActive
  | none => false

def rawActive (console : Console) : Bool := isRaw console.raw

def flush : Use Unit := fun console =>
  match console with
  | ⟨input, some output, raw, held, restore, unreleased, granted⟩ =>
    match output.flush with
    | (none, output) => .ok () ⟨input, some output, raw, held, restore, unreleased, granted⟩
    | (some failure, output) =>
      .error failure.error ⟨input, some output, raw, held, restore, unreleased, granted⟩
  | console => .ok () console

/-- Enters raw mode, and gives the function that restores the mode before. -/
def enterRaw : Use (Option Nat) := fun console =>
  match console.raw with
  | none => .ok none console
  | some raw =>
    match raw.enter with
    | (.ok entry, raw) => .ok (some entry) { console with raw := some raw }
    | (.error failure, raw) => .error failure.error { console with raw := some raw }

def restoreRaw (console : Console) (function : Option Nat) : Console :=
  { console with raw := console.raw.map fun raw => raw.restore function }

def readDevice : Use UInt8 := fun console =>
  match console with
  | ⟨some ⟨remaining, ending, refuses, reads⟩, output, raw, held, restore, unreleased, granted⟩ =>
    let reads := reads.push (isRaw raw)
    match refuses reads.size, remaining with
    | some failure, remaining =>
      .error failure.error
        ⟨some ⟨remaining, ending, refuses, reads⟩, output, raw, held, restore, unreleased, granted⟩
    | none, [] =>
      .error ending.error
        ⟨some ⟨[], ending, refuses, reads⟩, output, raw, held, restore, unreleased, granted⟩
    | none, byte :: remaining =>
      .ok byte
        ⟨some ⟨remaining, ending, refuses, reads⟩, output, raw, held, restore, unreleased, granted⟩
  | console => .error (.plain .noInput) console

/-- Prepares a read: output is delivered, and raw mode is entered unless it is held. The
result is the function to call after the read, if there is one. -/
def prepareRead : Use (Option Nat) := do
  if (← get).input.isNone then throw (.plain .noInput)
  flush
  let console ← get
  if console.raw.isSome && console.held == 0 then enterRaw else return none

/-- Runs an action, and calls a function that restores the mode whatever comes of it. -/
def restoring {α : Type} (function : Option Nat) (action : Use α) : Use α := fun console =>
  match function with
  | none => action console
  | some entry =>
    match action console with
    | .ok result console => .ok result (console.restoreRaw (some entry))
    | .error error console => .error error (console.restoreRaw (some entry))

def readByte : Use UInt8 := do
  let function ← prepareRead
  restoring function readDevice

def writeByte (byte : UInt8) : Use Unit := fun console =>
  match console with
  | ⟨input, some output, raw, held, restore, unreleased, granted⟩ =>
    match output.write byte with
    | (none, output) => .ok () ⟨input, some output, raw, held, restore, unreleased, granted⟩
    | (some failure, output) =>
      .error failure.error ⟨input, some output, raw, held, restore, unreleased, granted⟩
  | console => .error (.plain .noOutput) console

/-- Grants a hold in addition to those in force. -/
def grant : Use (Option Nat) :=
  modifyGet fun console =>
    (some console.granted,
      { console with
        held := console.held + 1
        unreleased := console.granted :: console.unreleased
        granted := console.granted + 1 })

/-- Enters raw mode for the holds, and keeps the function that restores the mode before.
An attempt that fails gives no function. -/
def enterHeld : Use Unit := fun console =>
  match enterRaw console with
  | .ok function console => .ok () { console with restore := function }
  | .error error console => .error error { console with restore := none }

/-- Holds raw mode until the hold is released. The result is the function that does so,
or nothing if there is no raw mode to hold. -/
def hold : Use (Option Nat) := do
  let console ← get
  if console.raw.isNone then return none
  if console.held == 0 then enterHeld
  grant

/-- Calls a function that releases a hold. Only its first call counts, and the last hold
that is released restores the mode. -/
def release (console : Console) : Option Nat → Console
  | none => console
  | some number =>
    if console.unreleased.contains number then
      let console :=
        { console with
          held := console.held - 1
          unreleased := console.unreleased.erase number }
      if console.held == 0 then { console.restoreRaw console.restore with restore := none }
      else console
    else console

/-- Adds bytes at the end of the input. -/
def feed (console : Console) (bytes : List UInt8) : Console :=
  { console with
    input := console.input.map fun input => { input with remaining := input.remaining ++ bytes } }

def delivered (console : Console) : List UInt8 :=
  match console.output with
  | some output => output.sink.taken.toList
  | none => []

/-- Takes the bytes that reached the sink away from it. -/
def emptySink (console : Console) : Console :=
  { console with
    output := console.output.map fun output =>
      { output with sink := { output.sink with taken := #[] } } }

end Console
end WordMachine
