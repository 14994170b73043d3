import WordMachine.Proofs.Console.EndOfFile
import WordMachine.Proofs.Emulator.Classification

/-! What an end of input tells. The instruction that ended the run met the end of a file: it
read an input without a byte left, or the read, output or raw mode was refused to it with one. -/
namespace WordMachine

/-- Where an instruction meets the end of a file. -/
inductive EndCause where
  | input
  | read
  | delivery
  | rawMode
  | output

theorem or_any_iff {α : Type} (property : α → Bool) (one other : Option α) :
    (one.or other).any property = true ↔
      one.any property = true ∨ one = none ∧ other.any property = true := by
  cases one with
  | none => simp
  | some value => simp

namespace Machine

/-- The instruction at the program counter meets the end of a file at the given place: at the
input that it reads, at this read of it, at the output that is delivered or the raw mode that
is entered before it reads, or at the output that it writes. -/
def EndsThrough (machine : Machine) : EndCause → Prop
  | .input =>
    machine.memory[machine.pc.toNat]? = some Opcode.input.word ∧
      ∃ console input, machine.console = some console ∧ console.input = some input ∧
        console.undelivered? = none ∧ console.unentered? = none ∧
        input.refuses (input.reads.size + 1) = none ∧
        input.remaining = [] ∧ input.ending.isEnd = true
  | .read =>
    machine.memory[machine.pc.toNat]? = some Opcode.input.word ∧
      ∃ console input, machine.console = some console ∧ console.input = some input ∧
        console.undelivered? = none ∧ console.unentered? = none ∧
        (input.refuses (input.reads.size + 1)).any Failure.isEnd = true
  | .delivery =>
    machine.memory[machine.pc.toNat]? = some Opcode.input.word ∧
      ∃ console input, machine.console = some console ∧ console.input = some input ∧
        console.undelivered?.any Failure.isEnd = true
  | .rawMode =>
    machine.memory[machine.pc.toNat]? = some Opcode.input.word ∧
      ∃ console input, machine.console = some console ∧ console.input = some input ∧
        console.undelivered? = none ∧ console.unentered?.any Failure.isEnd = true
  | .output =>
    machine.memory[machine.pc.toNat]? = some Opcode.output.word ∧
      (∃ raw, machine.memory[machine.operandAddr 0]? = some raw ∧ OperandClass.value.admits raw) ∧
      ∃ console, machine.console = some console ∧
        (console.unwritten? (machine.operandValue 0).toUInt8).any Failure.isEnd = true

section meets

variable {machine : Machine}

theorem bind_outcome (failure : Option Failure) :
    (failure.map Failure.error).bind Outcome.ofError? = some .endOfInput ↔
      failure.any Failure.isEnd = true := by
  cases failure with
  | none => simp
  | some failure => exact failure.outcome_endOfInput

theorem consoleFailure?_read :
    (machine.consoleFailure? Console.readByte).bind Outcome.ofError? = some .endOfInput ↔
      ∃ console input, machine.console = some console ∧ console.input = some input ∧
        (console.undelivered?.or (console.unentered?.or console.unread?)).any Failure.isEnd =
          true := by
  unfold consoleFailure?
  cases machine.console with
  | none => simp [Outcome.ofError?,Error.root]
  | some console =>
    change (Console.failure? Console.readByte console).bind _ = _ ↔ _
    cases there : console.input with
    | none =>
      rw [Console.readByte_inputless there]
      simp [there,Outcome.ofError?,Error.root]
    | some input =>
      rw [Console.readByte_failure there,bind_outcome]
      simp [there]

theorem consoleFailure?_write (byte : UInt8) :
    (machine.consoleFailure? (Console.writeByte byte)).bind Outcome.ofError? = some .endOfInput ↔
      ∃ console, machine.console = some console ∧
        (console.unwritten? byte).any Failure.isEnd = true := by
  unfold consoleFailure?
  cases machine.console with
  | none => simp [Outcome.ofError?,Error.root]
  | some console =>
    change (Console.failure? (Console.writeByte byte) console).bind _ = _ ↔ _
    cases there : console.output with
    | none =>
      rw [Console.failure?_error (Console.writeByte_none there)]
      simp [Console.unwritten?,there,Outcome.ofError?,Error.root]
    | some output =>
      rw [Console.writeByte_failure there,bind_outcome]
      simp

theorem unread?_ends {console : Console} {input : Input} (there : console.input = some input) :
    console.unread?.any Failure.isEnd = true ↔
      (input.refuses (input.reads.size + 1)).any Failure.isEnd = true ∨
        input.refuses (input.reads.size + 1) = none ∧ input.remaining = [] ∧
          input.ending.isEnd = true := by
  rw [Console.unread?,there,Option.bind_some,Input.refusal?,or_any_iff]
  by_cases ended : input.remaining = []
  · simp [ended]
  · simp [ended]

/-- The console gives the end of input in one of five places. -/
theorem consoleGives_end :
    machine.ConsoleGives .endOfInput ↔ ∃ cause, machine.EndsThrough cause := by
  unfold ConsoleGives
  rw [consoleFailure?_read,consoleFailure?_write]
  constructor
  · rintro (⟨there,console,input,attached,present,ends⟩ | ⟨there,operand,refused⟩)
    · rw [or_any_iff,or_any_iff,unread?_ends present] at ends
      rcases ends with undelivered | ⟨delivered,unentered | ⟨entered,refused | ended⟩⟩
      · exact ⟨.delivery,there,console,input,attached,present,undelivered⟩
      · exact ⟨.rawMode,there,console,input,attached,present,delivered,unentered⟩
      · exact ⟨.read,there,console,input,attached,present,delivered,entered,refused⟩
      · exact ⟨.input,there,console,input,attached,present,delivered,entered,ended⟩
    · exact ⟨.output,there,operand,refused⟩
  · rintro ⟨cause,through⟩
    cases cause with
    | input =>
      obtain ⟨there,console,input,attached,present,delivered,entered,ended⟩ := through
      refine .inl ⟨there,console,input,attached,present,?_⟩
      rw [delivered,entered]
      exact (unread?_ends present).mpr (.inr ended)
    | read =>
      obtain ⟨there,console,input,attached,present,delivered,entered,refused⟩ := through
      refine .inl ⟨there,console,input,attached,present,?_⟩
      rw [delivered,entered]
      exact (unread?_ends present).mpr (.inl refused)
    | delivery =>
      obtain ⟨there,console,input,attached,present,undelivered⟩ := through
      exact .inl ⟨there,console,input,attached,present,(or_any_iff _ _ _).mpr (.inl undelivered)⟩
    | rawMode =>
      obtain ⟨there,console,input,attached,present,delivered,unentered⟩ := through
      refine .inl ⟨there,console,input,attached,present,?_⟩
      rw [delivered,Option.none_or]
      exact (or_any_iff _ _ _).mpr (.inl unentered)
    | output => exact .inr through

/-- Where neither a single read nor output nor raw mode is refused with the end of a file,
only the input can have come to its end. -/
theorem endsThrough_candid {cause : EndCause} (through : machine.EndsThrough cause)
    (candid : ∀ console, machine.console = some console → console.Candid) : cause = .input := by
  cases cause with
  | input => rfl
  | read =>
    obtain ⟨there,console,input,attached,present,delivered,entered,refused⟩ := through
    rw [(candid console attached).input input present] at refused
    cases refused
  | delivery =>
    obtain ⟨there,console,input,attached,present,undelivered⟩ := through
    rw [Console.candid_delivers (candid console attached)] at undelivered
    cases undelivered
  | rawMode =>
    obtain ⟨there,console,input,attached,present,delivered,unentered⟩ := through
    rw [Console.candid_enters (candid console attached)] at unentered
    cases unentered
  | output =>
    obtain ⟨there,operand,console,attached,refused⟩ := through
    rw [Console.candid_writes (candid console attached)] at refused
    cases refused

end meets

end Machine

namespace Emulator

/-- The emulators at which ticks begin, as far as they are made. -/
def ticksFrom : Nat → Emulator → List Emulator
  | 0, _ => []
  | limit + 1, emulator =>
    emulator ::
      match tick emulator with
      | .ok false next => ticksFrom limit next
      | _ => []

def ticksOf (emulator : Emulator) : Call → List Emulator
  | .tick => [emulator]
  | .run limit =>
    match hold emulator with
    | .ok _ opened => ticksFrom limit opened
    | .error _ _ => []
  | .reset | .hold | .flush | .release _ => []

/-- The emulators at which the ticks of a sequence of calls begin. -/
def ticksDuring : List Call → Emulator → List Emulator
  | [], _ => []
  | call :: calls, emulator => emulator.ticksOf call ++ ticksDuring calls (answer call emulator).2

/-- What calls are made of, with the emulators at which ticks begin. -/
inductive Course (start : Emulator) : List Emulator → Emulator → Prop
  | start : Course start [] start
  | reset {ticks : List Emulator} {emulator : Emulator} (before : Course start ticks emulator) :
      Course start ticks (stateAfter (reset emulator))
  | tick {ticks : List Emulator} {emulator : Emulator} (before : Course start ticks emulator) :
      Course start (ticks ++ [emulator]) (stateAfter (tick emulator))
  | hold {ticks : List Emulator} {emulator : Emulator} (before : Course start ticks emulator) :
      Course start ticks (emulator.mapConsole fun console => stateAfter (Console.hold console))
  | flush {ticks : List Emulator} {emulator : Emulator} (before : Course start ticks emulator) :
      Course start ticks (emulator.mapConsole fun console => stateAfter (Console.flush console))
  | release {ticks : List Emulator} {emulator : Emulator} (held : Option Nat)
      (before : Course start ticks emulator) :
      Course start ticks (emulator.mapConsole fun console => console.release held)

section course

variable {start : Emulator} {ticks : List Emulator} {emulator : Emulator}

theorem tickFrom_course (calls limit : Nat) (before : Course start ticks emulator) :
    Course start (ticks ++ ticksFrom limit emulator) (tickFrom calls limit emulator).2.2 := by
  induction limit generalizing calls ticks emulator with
  | zero =>
    rw [ticksFrom,List.append_nil]
    exact before
  | succ limit ih =>
    have ticked := Course.tick before
    rw [ticksFrom,tickFrom]
    cases result : tick emulator with
    | error error next =>
      rw [result] at ticked
      exact ticked
    | ok done next =>
      rw [result] at ticked
      cases done with
      | true => exact ticked
      | false =>
        have later := ih (calls + 1) ticked
        rw [List.append_assoc] at later
        exact later

theorem hold_course (before : Course start ticks emulator) :
    Course start ticks (stateAfter (hold emulator)) := by
  have held := Course.hold before
  rw [hold,onMachine_after,onConsole_after]
  exact held

theorem conclude_course (held : Option Nat) (result : Except Error Bool)
    (before : Course start ticks emulator) :
    Course start ticks (conclude held result emulator).2.2 := by
  have released := Course.release held (Course.flush before)
  rw [conclude_after]
  simpa [mapConsole,Function.comp_def] using released

theorem answer_course (call : Call) (before : Course start ticks emulator) :
    Course start (ticks ++ emulator.ticksOf call) (answer call emulator).2 := by
  cases call with
  | reset =>
    rw [ticksOf,List.append_nil]
    exact .reset before
  | tick => exact .tick before
  | run limit =>
    have opened := hold_course before
    simp only [answer,run,ticksOf]
    cases asked : hold emulator with
    | error error left =>
      rw [asked] at opened
      rw [List.append_nil]
      exact opened
    | ok held next =>
      rw [asked] at opened
      exact conclude_course held _ (tickFrom_course 0 limit opened)
  | hold =>
    rw [ticksOf,List.append_nil]
    exact hold_course before
  | flush =>
    rw [ticksOf,List.append_nil,answer,deliver_after]
    exact .flush before
  | release held =>
    rw [ticksOf,List.append_nil]
    exact .release held before

theorem drive_course (calls : List Call) (before : Course start ticks emulator) :
    Course start (ticks ++ ticksDuring calls emulator) (drive calls emulator).2 := by
  induction calls generalizing ticks emulator with
  | nil =>
    rw [ticksDuring,List.append_nil]
    exact before
  | cons call calls ih =>
    have later := ih (answer_course call before)
    rw [List.append_assoc] at later
    exact later

end course

/-- The console of the emulator, if there is one, is candid. -/
def Candid (emulator : Emulator) : Prop :=
  ∀ console, emulator.machine.console = some console → console.Candid

theorem mapConsole_candid {emulator : Emulator} {change : Console → Console}
    (kept : ∀ console : Console, console.Candid → (change console).Candid)
    (candid : emulator.Candid) : (emulator.mapConsole change).Candid := by
  intro console there
  obtain ⟨before,attached,rfl⟩ := Option.map_eq_some_iff.mp there
  exact kept before (candid before attached)

theorem exchange_candid {first console : Console} {bytes : List UInt8}
    (exchange : Exchange first bytes console) (candid : first.Candid) : console.Candid := by
  induction exchange with
  | start => exact candid
  | write bytes console byte before ih => exact Console.writeByte_candid ih byte
  | read bytes console before ih => exact Console.readByte_candid ih

theorem tick_candid {emulator : Emulator} (candid : emulator.Candid) :
    (stateAfter (tick emulator)).Candid := by
  by_cases running : emulator.outcome = .running
  · have after : stateAfter (tick emulator) = stateAfter (tickAt emulator.machine.pc emulator) := by
      unfold tick
      rw [if_neg (not_not_intro running)]
    obtain ⟨probe,prepared⟩ := prepare_state emulator.verbose emulator.peekWords emulator.machine
    unfold Candid
    rw [after]
    cases ran : prepare emulator.verbose emulator.peekWords emulator.machine with
    | error error machine =>
      rw [ran] at prepared
      rw [tickAt_unprepared _ ran,show machine = _ from prepared]
      exact candid
    | ok value machine =>
      rw [ran] at prepared
      rw [tickAt_prepared _ ran,Machine.tick_console]
      intro console there
      obtain ⟨before,attached,rfl⟩ := Option.map_eq_some_iff.mp there
      have same := congrArg Machine.console prepared
      exact exchange_candid (converse_exchange machine .start) (candid before (same.symm.trans attached))
  · rw [tick_ended running]
    exact candid

section course

variable {start final : Emulator} {ticks : List Emulator}

/-- A console that is candid at the start is so at every tick. -/
theorem course_candid (course : Course start ticks final) (candid : start.Candid) :
    (∀ emulator ∈ ticks, emulator.Candid) ∧ final.Candid := by
  induction course with
  | start => exact ⟨fun _ member => absurd member List.not_mem_nil,candid⟩
  | reset before ih =>
    refine ⟨ih.1,?_⟩
    unfold Candid
    rw [reset_console]
    exact ih.2
  | tick before ih => exact ⟨List.forall_mem_append.mpr ⟨ih.1,by simpa using ih.2⟩,tick_candid ih.2⟩
  | hold before ih => exact ⟨ih.1,mapConsole_candid (fun _ => Console.hold_candid) ih.2⟩
  | flush before ih => exact ⟨ih.1,mapConsole_candid (fun _ => Console.flush_candid) ih.2⟩
  | release held before ih =>
    exact ⟨ih.1,mapConsole_candid (fun _ candid => Console.release_candid candid held) ih.2⟩

/-- The last of some ticks that executed an instruction brought the end of input. -/
def BroughtEnd (ticks : List Emulator) (last : Emulator) : Prop :=
  ∃ earlier later, ticks = earlier ++ last :: later ∧ last.outcome = .running ∧
    (stateAfter (tick last)).outcome = .endOfInput ∧
    ∀ idle ∈ later, idle.outcome = .endOfInput

theorem reset_outcome (emulator : Emulator) : (stateAfter (reset emulator)).outcome = .running := by
  by_cases fits : emulator.program.words.length ≤ memorySize
  · obtain ⟨machine,ok⟩ := reset_fits fits
    rw [ok]
    rfl
  · rw [reset_large (Nat.lt_of_not_le fits)]
    rfl

/-- Ticks alone bring the end of input. -/
theorem course_ends (course : Course start ticks final) (fresh : start.outcome ≠ .endOfInput)
    (ended : final.outcome = .endOfInput) : ∃ last, BroughtEnd ticks last := by
  induction course with
  | start => exact absurd ended fresh
  | @reset ticks emulator before ih =>
    rw [reset_outcome] at ended
    cases ended
  | @tick ticks emulator before ih =>
    by_cases running : emulator.outcome = .running
    · exact ⟨emulator,ticks,[],rfl,running,ended,fun _ member => absurd member List.not_mem_nil⟩
    · rw [tick_ended running] at ended
      change emulator.outcome = .endOfInput at ended
      obtain ⟨last,earlier,later,split,ran,brought,idle⟩ := ih ended
      refine ⟨last,earlier,later ++ [emulator],?_,ran,brought,?_⟩
      · rw [split,List.append_assoc,List.cons_append]
      · exact List.forall_mem_append.mpr ⟨idle,by simpa using ended⟩
  | hold before ih => exact ih ended
  | flush before ih => exact ih ended
  | release held before ih => exact ih ended

end course

theorem tick_meetsEnd {emulator : Emulator} (running : emulator.outcome = .running)
    (shown : ¬ Unshown emulator.machine.pc emulator.peekWords) :
    (stateAfter (tick emulator)).outcome = .endOfInput ↔
      ∃ cause, emulator.machine.EndsThrough cause := by
  rw [tick_outcome_iff running shown (by decide),Machine.verdict?_eq_some,
    ← Machine.consoleGives_end]
  simp

theorem shown_of_ended {emulator : Emulator} (running : emulator.outcome = .running)
    (ended : (stateAfter (tick emulator)).outcome = .endOfInput) :
    ¬ Unshown emulator.machine.pc emulator.peekWords := by
  intro unshown
  rw [tick_unshown running unshown] at ended
  change emulator.outcome = _ at ended
  rw [running] at ended
  cases ended

/-- The end of input was brought by an instruction that met the end of a file, and every
instruction that meets one brings it, also where a read that has bytes left, output or raw
mode is refused. On a console that never refuses those with the end of a file, the instruction
was a read and the input had no byte left. -/
theorem endOfInput_explained (emulator : Emulator) :
    (emulator.outcome ≠ .endOfInput → ∀ calls : List Call,
      (drive calls emulator).2.outcome = .endOfInput →
      ∃ last cause, BroughtEnd (ticksDuring calls emulator) last ∧
        last.machine.EndsThrough cause ∧ (emulator.Candid → cause = .input)) ∧
    (emulator.outcome = .running → ¬ Unshown emulator.machine.pc emulator.peekWords →
      ∀ cause, emulator.machine.EndsThrough cause →
        (stateAfter (tick emulator)).outcome = .endOfInput) := by
  constructor
  · intro fresh calls ended
    have course := drive_course calls (@Course.start emulator)
    rw [List.nil_append] at course
    obtain ⟨last,brought⟩ := course_ends course fresh ended
    obtain ⟨earlier,later,split,running,ending,idle⟩ := brought
    obtain ⟨cause,through⟩ :=
      (tick_meetsEnd running (shown_of_ended running ending)).mp ending
    refine ⟨last,cause,⟨earlier,later,split,running,ending,idle⟩,through,?_⟩
    intro candid
    apply Machine.endsThrough_candid through
    apply (course_candid course candid).1 last
    rw [split]
    simp
  · intro running shown cause through
    exact (tick_meetsEnd running shown).mpr ⟨cause,through⟩

/-- A letter is written to a sink that takes nothing. -/
def refusedLetter : Emulator :=
  { machine :=
      { memory := Machine.padded [19, 65]
        console := some { output := some { sink := { room := some 0 } } } } }

/-- A byte is read from an input that has none. -/
def emptyInput : Emulator :=
  { machine :=
      { memory := Machine.padded [20, 32768]
        console := some { input := some { remaining := [] } } } }

theorem endOfInput_explained_refusedLetter :
    (stateAfter (tick refusedLetter)).outcome = .endOfInput ∧
    ∃ last, BroughtEnd (ticksDuring [.run 10] emptyInput) last ∧ last.machine.EndsThrough .input := by
  constructor
  · apply (endOfInput_explained refusedLetter).2 rfl _ .output
    · exact ⟨by decide +kernel,⟨65,by decide +kernel,by decide⟩,_,rfl,by decide +kernel⟩
    · unfold Unshown
      decide +kernel
  · have ended : (drive [.run 10] emptyInput).2.outcome = .endOfInput := by decide +kernel
    obtain ⟨last,cause,brought,through,candid⟩ :=
      (endOfInput_explained emptyInput).1 (by decide) [.run 10] ended
    have only : cause = .input := by
      apply candid
      intro console attached
      cases attached
      exact ⟨fun input present => by cases present; exact fun _ => rfl,nofun,nofun⟩
    rw [only] at through
    exact ⟨last,brought,through⟩

end Emulator
end WordMachine
