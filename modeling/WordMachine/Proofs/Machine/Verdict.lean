import WordMachine.Outcome
import WordMachine.Proofs.Machine.Interaction

/-! Which failures of an instruction end a run with an outcome. There are three: a halt, a
word taken from an empty stack, and a failure of the console that has an outcome, which is
usually the end of a file. Each is told from the machine before the instruction, and every
other failure is fatal. -/
namespace WordMachine

def Probe.remarks (probe : Probe) : List Text := probe.events.toList.filterMap Event.remark?

namespace Probe

theorem trace_remarks {event : Event} (silent : event.remark? = none) (probe : Probe) :
    (probe.trace event).remarks = probe.remarks := by
  unfold trace
  split
  · simp [record,remarks,silent]
  · rfl

theorem log_remarks {event : Event} (silent : event.remark? = none) (probe : Probe) :
    (probe.log event).remarks = probe.remarks := by
  unfold log
  split
  · simp [record,remarks,silent]
  · rfl

theorem record_remarks (probe : Probe) (text : Text) :
    (probe.record (.remark text)).remarks = probe.remarks ++ [text] := by
  simp [record,remarks,Event.remark?]

end Probe

def Check.isFatal : Check → Bool
  | .operand _ _ | .address _ | .divisor => true
  | .stack | .output | .input => false

/-- A failure of a console that is the end of a file or has no outcome: there is no such
device, or the device gives a reason of its own. -/
def Error.IsPlain (cause : Error) : Prop := cause = .endOfFile ∨ Outcome.ofError? cause = none

theorem Outcome.ofError?_plain {cause : Error} (plain : cause.IsPlain) (outcome : Outcome) :
    ofError? cause = some outcome ↔ outcome = .endOfInput ∧ cause = .endOfFile := by
  rcases plain with rfl | fatal
  · simp [ofError?,Error.root,eq_comm]
  · rw [fatal]
    refine iff_of_false nofun ?_
    rintro ⟨-,rfl⟩
    cases fatal

namespace Machine

def AtHalt (machine : Machine) : Prop := machine.memory[machine.pc.toNat]? = some 0

/-- The stack is empty, and the instruction takes a word from it: it is a `ret`, or a `pop`
whose operand is in memory and names a register. -/
def TakesFromEmpty (machine : Machine) : Prop :=
  machine.stack.isEmpty = true ∧
    (machine.memory[machine.pc.toNat]? = some Opcode.ret.word ∨
      machine.memory[machine.pc.toNat]? = some Opcode.pop.word ∧
        ∃ raw, machine.memory[machine.operandAddr 0]? = some raw ∧
          OperandClass.register.admits raw)

/-- The console fails the instruction, which is an `in`, or an `out` whose operand has a value,
and this leads to the outcome. -/
def ConsoleGives (machine : Machine) (outcome : Outcome) : Prop :=
  machine.memory[machine.pc.toNat]? = some Opcode.input.word ∧
      (machine.consoleFailure? Console.readByte).bind Outcome.ofError? = some outcome ∨
    machine.memory[machine.pc.toNat]? = some Opcode.output.word ∧
      (∃ raw, machine.memory[machine.operandAddr 0]? = some raw ∧ OperandClass.value.admits raw) ∧
      (machine.consoleFailure? (Console.writeByte (machine.operandValue 0).toUInt8)).bind
        Outcome.ofError? = some outcome

/-- The console reports the end of a file to the instruction, which is an `in`, or an `out`
whose operand has a value. -/
def MeetsEnd (machine : Machine) : Prop :=
  machine.memory[machine.pc.toNat]? = some Opcode.input.word ∧
      machine.consoleFailure? Console.readByte = some .endOfFile ∨
    machine.memory[machine.pc.toNat]? = some Opcode.output.word ∧
      (∃ raw, machine.memory[machine.operandAddr 0]? = some raw ∧ OperandClass.value.admits raw) ∧
      machine.consoleFailure? (Console.writeByte (machine.operandValue 0).toUInt8) =
        some .endOfFile

/-- The failures of the console are plain. -/
structure Plain (machine : Machine) : Prop where
  reads : ∀ cause, machine.consoleFailure? Console.readByte = some cause → cause.IsPlain
  writes : ∀ byte cause, machine.consoleFailure? (Console.writeByte byte) = some cause →
    cause.IsPlain

/-- The outcome of the first check that fails, if it has one. -/
def outcomeAmong (machine : Machine) : List Check → Option Outcome
  | [] => none
  | check :: rest =>
    match machine.failure? check with
    | some cause => Outcome.ofError? cause
    | none => machine.outcomeAmong rest

/-- The outcome to which the instruction at the program counter leads, if it fails and its
failure is not fatal. -/
def verdict? (machine : Machine) : Option Outcome :=
  machine.diagnosis.bind fun failure => Outcome.ofError? failure.2

section verdict

variable {machine : Machine} {outcome : Outcome}

theorem failure?_operand_none (machine : Machine) (index : Nat) (kind : OperandClass) :
    machine.failure? (.operand index kind) = none ↔
      ∃ raw, machine.memory[machine.operandAddr index]? = some raw ∧ kind.admits raw := by
  simp only [failure?]
  cases machine.memory[machine.operandAddr index]? with
  | none => simp
  | some raw => simp

theorem failure?_fatal {check : Check} {cause : Error} (fatal : check.isFatal = true)
    (failed : machine.failure? check = some cause) : Outcome.ofError? cause = none := by
  cases check with
  | stack | output | input => cases fatal
  | operand index kind =>
    simp only [failure?] at failed
    split at failed
    · cases failed
      rfl
    · split at failed
      · cases failed
      · cases failed
        cases kind <;> rfl
  | address index | divisor =>
    simp only [failure?] at failed
    split at failed <;> cases failed
    rfl

theorem outcomeAmong_fatal {check : Check} (fatal : check.isFatal = true) (rest : List Check) :
    machine.outcomeAmong (check :: rest) =
      if machine.failure? check = none then machine.outcomeAmong rest else none := by
  rw [outcomeAmong]
  cases failed : machine.failure? check with
  | none => rfl
  | some cause => exact failure?_fatal fatal failed

theorem outcomeAmong_all_fatal {checks : List Check} (fatal : checks.all Check.isFatal = true) :
    machine.outcomeAmong checks = none := by
  induction checks with
  | nil => rfl
  | cons check rest ih =>
    rw [List.all_cons,Bool.and_eq_true] at fatal
    rw [outcomeAmong_fatal fatal.1,ih fatal.2]
    exact ite_self none

theorem outcomeAmong_stack :
    machine.outcomeAmong [.stack] = some outcome ↔
      outcome = .underflow ∧ machine.stack.isEmpty = true := by
  simp only [outcomeAmong,failure?]
  by_cases empty : machine.stack.isEmpty = true
  · simp [empty,Outcome.ofError?,Error.root,eq_comm]
  · simp [empty]

theorem bind_plain {failure : Option Error} (plain : ∀ cause, failure = some cause → cause.IsPlain) :
    failure.bind Outcome.ofError? = some outcome ↔
      outcome = .endOfInput ∧ failure = some .endOfFile := by
  cases failure with
  | none => simp
  | some cause =>
    rw [Option.bind_some,Option.some.injEq]
    exact Outcome.ofError?_plain (plain cause rfl) outcome

theorem consoleGives_plain (plain : machine.Plain) :
    machine.ConsoleGives outcome ↔ outcome = .endOfInput ∧ machine.MeetsEnd := by
  unfold ConsoleGives MeetsEnd
  rw [bind_plain plain.reads,bind_plain (plain.writes _)]
  constructor
  · rintro (⟨there,ended,failed⟩ | ⟨there,operand,ended,failed⟩)
    · exact ⟨ended,.inl ⟨there,failed⟩⟩
    · exact ⟨ended,.inr ⟨there,operand,failed⟩⟩
  · rintro ⟨ended,⟨there,failed⟩ | ⟨there,operand,failed⟩⟩
    · exact .inl ⟨there,ended,failed⟩
    · exact .inr ⟨there,operand,ended,failed⟩

/-- A check of the console has the outcome of its failure. What is checked after it has none. -/
theorem outcomeAmong_console {α : Type} {check : Check} {action : Console.Use α}
    {rest : List Check} (uses : machine.failure? check = machine.consoleFailure? action)
    (fatal : rest.all Check.isFatal = true) :
    machine.outcomeAmong (check :: rest) =
      (machine.consoleFailure? action).bind Outcome.ofError? := by
  rw [outcomeAmong,uses]
  cases machine.consoleFailure? action with
  | none => exact outcomeAmong_all_fatal fatal
  | some cause => rfl

/-- The checks of an operation that have an outcome when they fail. -/
theorem outcomeAmong_checks (opcode : Opcode) :
    machine.outcomeAmong opcode.checks = some outcome ↔
      outcome = .underflow ∧ machine.stack.isEmpty = true ∧
          (opcode = .ret ∨ opcode = .pop ∧ machine.failure? (.operand 0 .register) = none) ∨
        opcode = .input ∧
          (machine.consoleFailure? Console.readByte).bind Outcome.ofError? = some outcome ∨
        opcode = .output ∧ machine.failure? (.operand 0 .value) = none ∧
          (machine.consoleFailure? (Console.writeByte (machine.operandValue 0).toUInt8)).bind
            Outcome.ofError? = some outcome := by
  cases opcode with
  | ret => simp [Opcode.checks,outcomeAmong_stack]
  | pop =>
    simp only [Opcode.checks,@outcomeAmong_fatal machine (.operand 0 .register) rfl]
    split
    · next admitted => simp [outcomeAmong_stack,admitted]
    · next refused => simp [refused]
  | input =>
    have read := @outcomeAmong_console machine _ .input Console.readByte
      [.operand 0 .target] rfl rfl
    simp [Opcode.checks,read]
  | output =>
    have written := @outcomeAmong_console machine _ .output
      (Console.writeByte (machine.operandValue 0).toUInt8) [] rfl rfl
    simp only [Opcode.checks,@outcomeAmong_fatal machine (.operand 0 .value) rfl]
    split
    · next admitted => simp [written,admitted]
    · next refused => simp [refused]
  | _ =>
    rw [outcomeAmong_all_fatal]
    · simp
    · rfl

theorem firstFailure_outcome (count : Nat) (checks : List Check) :
    ((machine.firstFailure count checks).bind fun failure => Outcome.ofError? failure.2) =
      machine.outcomeAmong checks := by
  induction checks generalizing count with
  | nil => rfl
  | cons check rest ih =>
    rw [firstFailure,outcomeAmong]
    cases machine.failure? check with
    | none => exact ih _
    | some cause => rfl

theorem diagnosis_operation {opcode : Opcode}
    (there : machine.memory[machine.pc.toNat]? = some opcode.word) (running : opcode ≠ .halt) :
    machine.diagnosis = (machine.firstFailure 1 opcode.checks).map fun failure =>
      (failure.1, reported machine.pc opcode failure.2) := by
  unfold diagnosis
  rw [there]
  cases opcode with
  | halt => exact absurd rfl running
  | _ => rfl

/-- The mark on a failure does not change its outcome. -/
theorem ofError?_reported (addr : Word) (opcode : Opcode) (cause : Error) :
    Outcome.ofError? (reported addr opcode cause) = Outcome.ofError? cause := by
  unfold reported
  split
  · rfl
  · rfl

theorem verdict?_operation {opcode : Opcode}
    (there : machine.memory[machine.pc.toNat]? = some opcode.word) (running : opcode ≠ .halt) :
    machine.verdict? = machine.outcomeAmong opcode.checks := by
  rw [verdict?,diagnosis_operation there running,← firstFailure_outcome 1]
  cases machine.firstFailure 1 opcode.checks with
  | none => rfl
  | some failure => exact ofError?_reported _ _ _

theorem verdict?_outside (absent : machine.memory[machine.pc.toNat]? = none) :
    machine.verdict? = none := by
  unfold verdict? diagnosis
  rw [absent]
  rfl

theorem verdict?_undefined {raw : Word} (there : machine.memory[machine.pc.toNat]? = some raw)
    (undefined : Opcode.ofWord? raw = none) : machine.verdict? = none := by
  unfold verdict? diagnosis
  simp only [there,undefined]
  rfl

theorem verdict?_atHalt (halts : machine.AtHalt) : machine.verdict? = some .halt := by
  unfold AtHalt at halts
  unfold verdict? diagnosis
  rw [halts]
  rfl

end verdict

/-- A failing instruction has an outcome in three cases only, and each tells which it is. -/
theorem verdict?_eq_some (machine : Machine) (outcome : Outcome) :
    machine.verdict? = some outcome ↔
      outcome = .halt ∧ machine.AtHalt ∨ outcome = .underflow ∧ machine.TakesFromEmpty ∨
        machine.ConsoleGives outcome := by
  cases there : machine.memory[machine.pc.toNat]? with
  | none =>
    rw [verdict?_outside there]
    simp [AtHalt,TakesFromEmpty,ConsoleGives,there]
  | some raw =>
    cases decoded : Opcode.ofWord? raw with
    | none =>
      have other : ∀ opcode : Opcode, raw ≠ opcode.word := by
        rintro opcode rfl
        rw [Opcode.ofWord?_word] at decoded
        cases decoded
      have running : raw ≠ 0 := other .halt
      rw [verdict?_undefined there decoded]
      simp [AtHalt,TakesFromEmpty,ConsoleGives,there,other,running]
    | some opcode =>
      rw [Opcode.ofWord?_eq_some decoded] at there
      have same : ∀ other : Opcode, opcode.word = other.word ↔ opcode = other :=
        fun _ => ⟨fun equal => Opcode.word_injective equal,congrArg Opcode.word⟩
      have halted : opcode.word = 0 ↔ opcode = .halt := same .halt
      simp only [AtHalt,TakesFromEmpty,ConsoleGives,there,Option.some.injEq,same,halted]
      by_cases halts : opcode = .halt
      · subst halts
        rw [verdict?_atHalt there]
        simp [@eq_comm _ Outcome.halt outcome]
      · rw [verdict?_operation there halts,outcomeAmong_checks,failure?_operand_none,
          failure?_operand_none]
        simp [halts]

theorem tick_verdict {machine final : Machine} {error : Error}
    (failed : tick machine = .error error final) : machine.verdict? = Outcome.ofError? error := by
  have ends := tick_ends machine
  rw [failed] at ends
  cases ends with
  | failed _ _ count diagnosed fetched within =>
    rw [verdict?,diagnosed]
    rfl

theorem tick_unjudged {machine final : Machine} (ok : tick machine = .ok () final) :
    machine.verdict? = none := by
  have ends := tick_ends machine
  rw [ok] at ends
  cases ends with
  | done _ sound =>
    rw [verdict?,sound]
    rfl

theorem begun_remarks (machine : Machine) (opcode : Opcode) :
    (machine.begun opcode).probe.remarks = machine.probe.remarks :=
  (Probe.log_remarks rfl _).trans (Probe.trace_remarks rfl _)

/-- Taking a word from an empty stack changes no register, and the machine itself makes no
remark on it. -/
theorem tick_takesFromEmpty {machine : Machine} (takes : machine.TakesFromEmpty) :
    ∃ error final, tick machine = .error error final ∧ final.registers = machine.registers ∧
      final.probe.remarks = machine.probe.remarks := by
  obtain ⟨empty,operation⟩ := takes
  have entries : machine.stack.entries = [] := List.isEmpty_iff.mp empty
  rcases operation with there | ⟨there,raw,stored,named⟩
  · have refused : perform .ret (machine.begun .ret) =
        .error (.plain .stackEmpty) (machine.begun .ret) :=
      bind_of_error (popWord_none entries)
    refine ⟨.execute machine.pc Opcode.ret.number (.plain .stackEmpty),machine.begun .ret,?_,rfl,
      machine.begun_remarks .ret⟩
    rw [tick_fetched there,refused]
    rfl
  · have supplied : Supplies (machine.begun .pop) [.register] [raw] := by
      refine ⟨?_,named,supplies_nil _⟩
      rw [begun_memory,begun_pc_toNat there]
      exact stored
    have refused : perform .pop (machine.begun .pop) =
        .error (.plain .stackEmpty) ((machine.begun .pop).advance raw) :=
      popRegister_empty supplied entries
    have silent : ((machine.begun .pop).advance raw).probe.remarks = machine.probe.remarks :=
      (Probe.trace_remarks rfl _).trans (machine.begun_remarks .pop)
    refine ⟨.execute machine.pc Opcode.pop.number (.plain .stackEmpty),
      (machine.begun .pop).advance raw,?_,rfl,silent⟩
    rw [tick_fetched there,refused]
    rfl

end Machine
end WordMachine
