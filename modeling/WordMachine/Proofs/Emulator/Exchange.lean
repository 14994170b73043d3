import WordMachine.Proofs.Emulator.Comparison
import WordMachine.Proofs.Machine.Interaction

/-! What ticks and runs do with the console. A tick passes at most one byte to it, or reads
at most one byte from it, and a run is a hold, such ticks, a flush and a release. -/
namespace WordMachine.Emulator

def uttered (emulator : Emulator) : List UInt8 :=
  if emulator.outcome ≠ .running then []
  else
    match prepare emulator.verbose emulator.peekWords emulator.machine with
    | .ok _ machine => machine.spoken?.toList
    | .error _ _ => []

/-- The bytes that ticks pass to the console, as far as they are made. -/
def utteredFrom : Nat → Emulator → List UInt8
  | 0, _ => []
  | limit + 1, emulator =>
    match tick emulator with
    | .ok false next => emulator.uttered ++ utteredFrom limit next
    | _ => emulator.uttered

/-- Bytes written and bytes read, one after another, with the bytes that were written. -/
inductive Exchange (first : Console) : List UInt8 → Console → Prop
  | start : Exchange first [] first
  | write (bytes : List UInt8) (console : Console) (byte : UInt8)
      (before : Exchange first bytes console) :
      Exchange first (bytes ++ [byte]) (stateAfter (Console.writeByte byte console))
  | read (bytes : List UInt8) (console : Console) (before : Exchange first bytes console) :
      Exchange first bytes (stateAfter (Console.readByte console))

theorem settle_console (addr : Word) (error : Error) (emulator : Emulator) :
    (stateAfter (settle addr error emulator)).machine.console = emulator.machine.console := by
  unfold settle
  rw [get_bind]
  obtain ⟨probe,remarked⟩ :=
    remark_state (remarkOn emulator.verbose error emulator.machine) emulator.machine
  rw [bind_of_ok (onMachine_ok remarked)]
  cases Outcome.ofError? error with
  | none => rfl
  | some outcome => rfl

section tickAt

variable {emulator : Emulator} {machine : Machine}

theorem tickAt_unprepared {error : Error} (addr : Word)
    (failed : prepare emulator.verbose emulator.peekWords emulator.machine = .error error machine) :
    (stateAfter (tickAt addr emulator)).machine.console = machine.console := by
  unfold tickAt
  rw [onMachine_error failed]
  rfl

theorem tickAt_prepared (addr : Word)
    (prepared : prepare emulator.verbose emulator.peekWords emulator.machine = .ok () machine) :
    (stateAfter (tickAt addr emulator)).machine.console =
      (stateAfter (Machine.tick machine)).console := by
  unfold tickAt
  rw [onMachine_ok prepared]
  dsimp only
  cases ran : Machine.tick machine with
  | ok value final =>
    rw [@onMachine_ok _ Machine.tick { emulator with machine := machine } _ _ ran]
    rfl
  | error error final =>
    rw [@onMachine_error _ Machine.tick { emulator with machine := machine } _ _ ran]
    exact settle_console addr error _

end tickAt

theorem converse_exchange (machine : Machine) {first console : Console} {bytes : List UInt8}
    (exchange : Exchange first bytes console) :
    Exchange first (bytes ++ machine.spoken?.toList) (machine.converse console) := by
  unfold Machine.converse
  cases machine.spoken? with
  | some byte => exact .write bytes console byte exchange
  | none =>
    rw [Option.toList_none,List.append_nil]
    dsimp only
    split
    · exact .read bytes console exchange
    · exact exchange

theorem onMachine_machine {α : Type} (step : Machine.Step α) (emulator : Emulator) :
    (stateAfter (onMachine step emulator)).machine = stateAfter (step emulator.machine) := by
  cases ran : step emulator.machine with
  | ok value machine =>
    rw [onMachine_ok ran]
    rfl
  | error error machine =>
    rw [onMachine_error ran]
    rfl

theorem onConsole_state {α : Type} (action : Console.Use α) (emulator : Emulator) :
    (stateAfter (onMachine (Machine.onConsole action) emulator)).machine.console =
      emulator.machine.console.map fun console => stateAfter (action console) := by
  rw [onMachine_machine]
  exact Machine.onConsole_console action emulator.machine

theorem deliver_console (emulator : Emulator) : (deliver emulator).2.machine.console =
    emulator.machine.console.map fun console => stateAfter (Console.flush console) := by
  have flushed := onConsole_state Console.flush emulator
  unfold deliver flush
  cases ran : onMachine (Machine.onConsole Console.flush) emulator with
  | ok value left =>
    rw [ran] at flushed
    exact flushed
  | error error left =>
    rw [ran] at flushed
    exact flushed

theorem load_console (words : List Word) (machine : Machine) :
    (stateAfter (Machine.load words machine)).console = machine.console := by
  unfold Machine.load
  split
  · rfl
  · rfl

theorem reset_console (emulator : Emulator) :
    (stateAfter (reset emulator)).machine.console = emulator.machine.console := by
  unfold reset
  rw [get_bind,get_bind]
  change (stateAfter (onMachine (observe emulator.verbose >>= fun _ =>
    Machine.load emulator.program.words) { emulator with outcome := .running })).machine.console = _
  rw [onMachine_machine]
  exact load_console _ _

section exchange

variable {emulator : Emulator} {first console : Console} {bytes : List UInt8}

theorem tick_exchange (attached : emulator.machine.console = some console)
    (exchange : Exchange first bytes console) :
    ∃ next, (stateAfter (tick emulator)).machine.console = some next ∧
      Exchange first (bytes ++ emulator.uttered) next := by
  unfold tick uttered
  split
  · rw [List.append_nil]
    exact ⟨console,attached,exchange⟩
  · obtain ⟨probe,prepared⟩ :=
      prepare_state emulator.verbose emulator.peekWords emulator.machine
    have kept := (congrArg Machine.console prepared).trans attached
    cases ran : prepare emulator.verbose emulator.peekWords emulator.machine with
    | error error machine =>
      rw [ran] at kept
      rw [tickAt_unprepared _ ran,List.append_nil]
      exact ⟨console,kept,exchange⟩
    | ok value machine =>
      rw [ran] at kept
      rw [tickAt_prepared _ ran,Machine.tick_console,show machine.console = some console from kept]
      exact ⟨_,rfl,converse_exchange machine exchange⟩

theorem tickFrom_exchange (calls limit : Nat) (attached : emulator.machine.console = some console)
    (exchange : Exchange first bytes console) :
    ∃ next, (tickFrom calls limit emulator).2.2.machine.console = some next ∧
      Exchange first (bytes ++ utteredFrom limit emulator) next := by
  -- the exchange so far is carried along, so that a tick adds its byte at the end
  induction limit generalizing calls emulator console bytes with
  | zero =>
    refine ⟨console,attached,?_⟩
    rw [utteredFrom,List.append_nil]
    exact exchange
  | succ limit hypothesis =>
    obtain ⟨next,reached,further⟩ := tick_exchange attached exchange
    unfold tickFrom utteredFrom
    generalize tick emulator = result at reached
    cases result with
    | error error left => exact ⟨next,reached,further⟩
    | ok done left =>
      cases done with
      | true => exact ⟨next,reached,further⟩
      | false =>
        obtain ⟨final,ended,whole⟩ := hypothesis (calls + 1) reached further
        rw [List.append_assoc] at whole
        exact ⟨final,ended,whole⟩

theorem hold_ok {held : Option Nat} {opened : Console}
    (attached : emulator.machine.console = some console)
    (granted : Console.hold console = .ok held opened) :
    hold emulator = .ok held
      { emulator with machine := { emulator.machine with console := some opened } } := by
  apply onMachine_ok
  unfold Machine.onConsole
  rw [attached]
  dsimp only
  rw [granted]

theorem hold_error {error : Error} {left : Console}
    (attached : emulator.machine.console = some console)
    (refused : Console.hold console = .error error left) :
    hold emulator = .error error
      { emulator with machine := { emulator.machine with console := some left } } := by
  apply onMachine_error
  unfold Machine.onConsole
  rw [attached]
  dsimp only
  rw [refused]

theorem conclude_console (held : Option Nat) (result : Except Error Bool)
    (attached : emulator.machine.console = some console) :
    (conclude held result emulator).2.2.machine.console =
      some ((stateAfter (Console.flush console)).release held) := by
  have delivered := deliver_console emulator
  rw [attached] at delivered
  have released :
      ((deliver emulator).2.mapConsole fun console => console.release held).machine.console =
        some ((stateAfter (Console.flush console)).release held) := by
    unfold mapConsole
    dsimp only
    rw [delivered]
    rfl
  unfold conclude
  cases result with
  | ok done => exact released
  | error error => exact released

/-- The console after a run whose hold is granted. -/
theorem run_held (limit : Nat) {held : Option Nat} {opened : Console}
    (attached : emulator.machine.console = some console)
    (granted : Console.hold console = .ok held opened) :
    ∃ used, Exchange opened
        (utteredFrom limit
          { emulator with machine := { emulator.machine with console := some opened } }) used ∧
      (run limit emulator).2.2.machine.console =
        some ((stateAfter (Console.flush used)).release held) := by
  have started : ({ emulator with machine :=
      { emulator.machine with console := some opened } } : Emulator).machine.console =
        some opened := rfl
  obtain ⟨used,reached,exchange⟩ := tickFrom_exchange 0 limit started .start
  refine ⟨used,exchange,?_⟩
  unfold run
  rw [hold_ok attached granted]
  exact conclude_console held _ reached

/-- A run whose hold is refused ends at once. -/
theorem run_refused (limit : Nat) {error : Error} {left : Console}
    (attached : emulator.machine.console = some console)
    (refused : Console.hold console = .error error left) :
    (run limit emulator).2.2.machine.console = some left := by
  unfold run
  rw [hold_error attached refused]

end exchange

def utteredRun (limit : Nat) (emulator : Emulator) : List UInt8 :=
  match hold emulator with
  | .ok _ held => utteredFrom limit held
  | .error _ _ => []

def utteredBy (emulator : Emulator) : Call → List UInt8
  | .tick => emulator.uttered
  | .run limit => utteredRun limit emulator
  | .reset => []
  | .hold => []
  | .flush => []
  | .release _ => []

def utterance : List Call → Emulator → List UInt8
  | [], _ => []
  | call :: calls, emulator => emulator.utteredBy call ++ utterance calls (answer call emulator).2

end WordMachine.Emulator
