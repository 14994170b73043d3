import WordMachine.Command.Session
import WordMachine.Text.Rune

/-! The command line program. It lays the files that the options name on a desk, runs
the command there, and puts what the desk then holds where it belongs. A program that
reads standard input is fed as it asks for more. -/
namespace WordMachine.Command

private def content? (name : Text) : IO (Option (List UInt8)) := do
  try return some (← IO.FS.readBinFile name.display).toList
  catch _ => return none

private def directoryOf (name : Text) : Text :=
  match (name.reverse.dropWhile (· != Byte.slash)).reverse with
  | [] => "."
  | directory => directory

private def isCreatable (name : Text) : IO Bool := do
  if name.isEmpty then return false
  try
    discard (IO.FS.realPath (directoryOf name).display)
    return true
  catch _ => return false

private def existing (names : List Text) : IO (Table (List UInt8)) :=
  names.foldlM (fun files name => do
    match ← content? name with
    | some content => return files.insert name content
    | none => return files) .empty

/-- The desk before a command starts. -/
def deskFor (options : Options) : IO Desk := do
  let files ← existing [options.image, options.source, options.input]
  let creatable ← [options.save, options.output, options.trace].filterM isCreatable
  return { files := files, creatable := creatable.contains }

/-- Writes out what a desk holds, as far as it is new. -/
def publish (before after : Desk) : IO Unit := do
  for (name, content) in after.files.entries do
    if before.files.find? name ≠ some content then
      IO.FS.writeBinFile name.display ⟨content.toArray⟩
  (← IO.getStdout).write ⟨after.output.toArray⟩
  (← IO.getStderr).write ⟨after.log.toArray⟩

private def showOutput (emulator : Emulator) : IO Emulator := do
  let stdout ← IO.getStdout
  stdout.write ⟨emulator.delivered.toArray⟩
  stdout.flush
  return emulator.mapConsole Console.emptySink

private def askInput (options : Options) (emulator : Emulator) : IO (Bool × Emulator) := do
  let emulator ← if options.output = streamName then showOutput emulator else pure emulator
  let bytes ← (← IO.getStdin).read 4096
  return (!bytes.isEmpty, emulator.mapConsole fun console => console.feed bytes.toList)

/-- Ticks until an outcome or a failure. Before a read for which there is no byte, output
is shown and standard input is asked for more, as long as it has any. -/
partial def converse (options : Options) (more : Bool) (emulator : Emulator) :
    IO (Except Error Bool × Emulator) := do
  if more && emulator.awaitsInput then
    let emulator := match Emulator.flush emulator with
      | .ok () emulator | .error _ emulator => emulator
    let (more, emulator) ← askInput options emulator
    converse options more emulator
  else
    match emulator.tick with
    | .ok true emulator => return (.ok true, emulator)
    | .ok false emulator => converse options more emulator
    | .error error emulator => return (.error error, emulator)

/-- Runs an emulator in conversation with standard input. -/
def runWithInput (options : Options) (emulator : Emulator) :
    IO (Outcome × Option Error × Emulator) := do
  match emulator.hold with
  | .error error emulator => return (.running, some error, emulator)
  | .ok held emulator =>
    let (result, emulator) ← converse options (options.input = streamName) emulator
    return emulator.conclude held result

/-- How deep macros may call macros in a source. -/
def macroDepth : Nat := 1000000

/-- Does what a command line asks for and gives the exit status. -/
def execute : Request → IO Nat
  | .job options extra => do
    let before ← deskFor options
    match prepare Expression.evaluate macroDepth options extra before with
    | .error status after =>
      publish before after
      return status
    | .ok emulator after =>
      let (outcome, failure, emulator) ← runWithInput options emulator
      let (status, after) := statusOf (finish options outcome failure emulator) after
      publish before after
      return status
  | request => do
    let (status, after) := statusOf (perform Expression.evaluate macroDepth 0 request) {}
    publish {} after
    return status

end WordMachine.Command

def main (words : List String) : IO UInt32 := do
  let request := WordMachine.Command.Request.parse (words.map WordMachine.Text.ofString)
  return (← WordMachine.Command.execute request).toUInt32
