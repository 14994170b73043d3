import WordMachine.Opcode

/-! Diagnostics of a machine. Every observation is an event; what is observed
depends on the settings, and the events never feed back into execution. -/
namespace WordMachine

inductive Event where
  /-- A word was fetched. -/
  | fetched (addr raw : Word)
  /-- Words ahead were shown without being fetched. -/
  | peeked (addr : Word) (raws : List Word)
  | reset
  | loaded (words : Nat)
  | executing (addr : Word) (opcode : Opcode)
  /-- A remark of whoever drives the machine. -/
  | remark (text : Text)
  deriving DecidableEq

namespace Event

def traceLine? : Event → Option Text
  | .fetched addr raw => some (("[pc " : Text) ++ Text.hex4 addr.toNat ++ ("] " : Text) ++ raw.text)
  | .peeked addr raws =>
    some (("[peek " : Text) ++ Text.hex4 addr.toNat ++ ("] " : Text)
      ++ Text.joinWith [Byte.space] (raws.map Word.text))
  | _ => none

/-- The log line of an event of the machine itself. -/
def logLine? : Event → Option Text
  | .reset => some "cpu: reset"
  | .loaded words => some (("cpu: loaded " : Text) ++ Text.ofNat words ++ (" words" : Text))
  | .executing addr opcode => some (Text.hex4 addr.toNat ++ (": " : Text) ++ opcode.mnemonic)
  | _ => none

def remark? : Event → Option Text
  | .remark text => some text
  | _ => none

end Event

/-- A line with a newline at its end, unless it has one. -/
def Text.terminated (line : Text) : Text :=
  if line.getLast? = some Byte.newline then line else line ++ [Byte.newline]

namespace Event

/-- The trace of events: a line for every fetch and every peek. -/
def traceText (events : List Event) : Text :=
  (events.filterMap traceLine?).flatMap Text.terminated

def machineText (events : List Event) : Text :=
  (events.filterMap logLine?).flatMap Text.terminated

/-- The remarks among events, each with a heading before its first line. -/
def remarkText (heading : Text) (events : List Event) : Text :=
  (events.filterMap remark?).flatMap fun remark => heading ++ Text.terminated remark

/-- The log of events with the remarks where they were made. -/
def logText (events : List Event) : Text :=
  events.flatMap fun event => machineText [event] ++ remarkText [] [event]

end Event

/-- What is observed of a machine, and what was observed so far. -/
structure Probe where
  verbose : Bool := false
  tracing : Bool := false
  events : Array Event := #[]
  deriving DecidableEq

namespace Probe

def record (probe : Probe) (event : Event) : Probe :=
  { probe with events := probe.events.push event }

def trace (probe : Probe) (event : Event) : Probe :=
  if probe.tracing then probe.record event else probe

def log (probe : Probe) (event : Event) : Probe :=
  if probe.verbose then probe.record event else probe

end Probe
end WordMachine
