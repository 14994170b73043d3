import WordMachine.Proofs.Console.SharedInput
import WordMachine.Proofs.Emulator.Buffering
import WordMachine.Proofs.Emulator.Ticks
import WordMachine.Proofs.Machine.Verdict

/-! The order in which input is consumed. Only a read instruction takes a byte, and the bytes
are stored in the order in which they come. Two emulators that differ in their inputs alone
cannot be told apart until one of them reads where the inputs differ. -/
namespace WordMachine

namespace Machine

/-- A byte was stored at the target of the read instruction at the program counter: in the
cell of memory, or the register, that the operand names. All other words are kept. -/
structure Stores (byte : UInt8) (before after : Machine) : Prop where
  target : (before.operandWord 0).toNat < 32776
  memory : after.memory =
    if (before.operandWord 0).toNat < 32768 then
      before.memory.setIfInBounds (before.operandWord 0).toNat byte.toUInt16
    else before.memory
  registers : after.registers =
    if (before.operandWord 0).toNat < 32768 then before.registers
    else before.registers.setIfInBounds ((before.operandWord 0).toNat - 32768) byte.toUInt16
  stack : after.stack = before.stack
  pc : after.pc = before.pc + 2

theorem converse_input {machine : Machine} (unheard : machine.listens = false)
    (console : Console) : (machine.converse console).input = console.input := by
  unfold converse
  cases machine.spoken? with
  | some byte =>
    dsimp only
    rw [Console.writeByte_state]
  | none =>
    dsimp only
    rw [unheard]
    rfl

theorem converse_readCount (machine : Machine) (console : Console) :
    console.readCount ≤ (machine.converse console).readCount := by
  cases heard : machine.listens with
  | false => exact Nat.le_of_eq (by rw [Console.readCount,Console.readCount,converse_input heard])
  | true =>
    rw [converse_heard (of_decide_eq_true heard)]
    exact Console.readCount_readByte console

theorem consoleUse?_some {α : Type} {machine : Machine} {action : Console.Use α} {value : α}
    {left : Console} (used : machine.consoleUse? action = some (value, left)) :
    ∃ console, machine.console = some console ∧ action console = .ok value left := by
  obtain ⟨console,attached,taken⟩ := Option.bind_eq_some_iff.mp used
  refine ⟨console,attached,?_⟩
  cases ran : action console with
  | error error after =>
    rw [ran] at taken
    cases taken
  | ok value after =>
    rw [ran] at taken
    cases taken
    rfl

/-- A read instruction that leads to an outcome was refused by the console. -/
theorem consoleFailure?_judged {machine : Machine} {outcome : Outcome}
    (there : machine.memory[machine.pc.toNat]? = some Opcode.input.word)
    (judged : machine.verdict? = some outcome) :
    ∃ cause, machine.consoleFailure? Console.readByte = some cause := by
  rw [verdict?_operation there nofun,outcomeAmong_checks] at judged
  have given : (machine.consoleFailure? Console.readByte).bind Outcome.ofError? = some outcome := by
    simpa using judged
  obtain ⟨cause,failed,-⟩ := Option.bind_eq_some_iff.mp given
  exact ⟨cause,failed⟩

/-- What a read instruction leaves. -/
theorem after_input {machine : Machine} {byte : UInt8} {left : Console}
    (admitted : (machine.operandWord 0).toNat < 32776)
    (used : machine.consoleUse? Console.readByte = some (byte, left)) :
    (machine.after .input).console = some left ∧ Stores byte machine (machine.after .input) := by
  have moved : (machine.pc.toNat + Opcode.input.width).toUInt16 = machine.pc + 2 := by
    apply UInt16.toNat_inj.mp
    rw [Nat.toUInt16_eq,UInt16.toNat_ofNat',UInt16.toNat_add]
    rfl
  unfold after
  dsimp only
  rw [used]
  by_cases literal : (machine.operandWord 0).toNat < 32768
  · rw [if_pos literal]
    exact ⟨rfl,admitted,(if_pos literal).symm,(if_pos literal).symm,rfl,moved⟩
  · rw [if_neg literal]
    refine ⟨rfl,admitted,(if_neg literal).symm,?_,rfl,moved⟩
    have named : 32768 ≤ (machine.operandWord 0).toNat ∧ (machine.operandWord 0).toNat ≤ 32775 :=
      ⟨Nat.le_of_not_lt literal,Nat.le_of_lt_succ admitted⟩
    rw [if_neg literal,← registerOf_val named]
    exact (setIfInBounds_inside _ _ (registerOf (machine.operandWord 0)).isLt).symm

/-- A read instruction that succeeds stores the byte that the console gives. -/
theorem tick_stores {machine final : Machine}
    (there : machine.memory[machine.pc.toNat]? = some Opcode.input.word)
    (ok : tick machine = .ok () final) :
    ∃ byte console left, machine.console = some console ∧
      Console.readByte console = .ok byte left ∧ final.console = some left ∧
      Stores byte machine final := by
  obtain ⟨opcode,executable⟩ := tick_executable ok
  have same := Opcode.word_injective (Option.some.inj (executable.fetched.symm.trans there))
  subst same
  obtain ⟨reached,ok',effect⟩ := executable_tick executable
  rw [ok] at ok'
  cases ok'
  obtain ⟨⟨byte,left⟩,used⟩ := Option.isSome_iff_exists.mp executable.enabled
  obtain ⟨console,attached,read⟩ := consoleUse?_some used
  obtain ⟨released,target,memory,registers,stack,pc⟩ :=
    after_input (executable.admitted 0 .target rfl) used
  rw [← effect] at released memory registers stack pc
  exact ⟨byte,console,left,attached,read,released,target,memory,registers,stack,pc⟩

end Machine

namespace Emulator

def withInput (emulator : Emulator) (input : Input) : Emulator :=
  emulator.mapConsole fun console => console.withInput (some input)

def withoutAhead (emulator : Emulator) : Emulator := emulator.mapConsole Console.withoutAhead

def unread (emulator : Emulator) : List UInt8 :=
  ((emulator.machine.console.bind Console.input).map Input.remaining).getD []

def readCount (emulator : Emulator) : Nat :=
  (emulator.machine.console.map Console.readCount).getD 0

def listens (emulator : Emulator) : Bool :=
  emulator.outcome = .running && emulator.machine.listens

/-- Ticks without a failure, one after another, with the emulators at which they begin. -/
inductive Ticks (first : Emulator) : List Emulator → Emulator → Prop
  | start : Ticks first [] first
  | tick {visited : List Emulator} {emulator next : Emulator} {done : Bool}
      (before : Ticks first visited emulator) (ok : tick emulator = .ok done next) :
      Ticks first (visited ++ [emulator]) next

/-- What a tick does with the console: nothing, or what the instruction does. -/
theorem tick_converse (emulator : Emulator) :
    (stateAfter (tick emulator)).machine.console = emulator.machine.console ∨
      emulator.outcome = .running ∧
        (∃ probe, prepare emulator.verbose emulator.peekWords emulator.machine =
          .ok () { emulator.machine with probe := probe }) ∧
        (stateAfter (tick emulator)).machine.console =
          emulator.machine.console.map emulator.machine.converse := by
  by_cases running : emulator.outcome = .running
  · unfold tick
    rw [if_neg (not_not_intro running)]
    obtain ⟨probe,prepared⟩ :=
      prepare_state emulator.verbose emulator.peekWords emulator.machine
    cases ran : prepare emulator.verbose emulator.peekWords emulator.machine with
    | error error machine =>
      rw [ran] at prepared
      rw [tickAt_unprepared _ ran]
      cases prepared
      exact .inl rfl
    | ok value machine =>
      rw [ran] at prepared
      rw [tickAt_prepared _ ran,Machine.tick_console]
      cases prepared
      exact .inr ⟨running,⟨probe,rfl⟩,rfl⟩
  · rw [tick_ended running]
    exact .inl rfl

section ticked

variable {emulator next : Emulator}

/-- Only a read instruction changes the input. -/
theorem tick_unheard (unheard : emulator.listens = false) :
    (stateAfter (tick emulator)).machine.console.bind Console.input =
      emulator.machine.console.bind Console.input := by
  rcases emulator.tick_converse with kept | ⟨running,_,conversed⟩
  · rw [kept]
  · have silent : emulator.machine.listens = false := by simpa [listens,running] using unheard
    rw [conversed]
    cases emulator.machine.console with
    | none => rfl
    | some console => exact Machine.converse_input silent console

theorem tick_readCount (emulator : Emulator) :
    emulator.readCount ≤ (stateAfter (tick emulator)).readCount := by
  unfold readCount
  rcases emulator.tick_converse with kept | ⟨_,_,conversed⟩
  · exact Nat.le_of_eq (by rw [kept])
  · rw [conversed]
    cases emulator.machine.console with
    | none => exact Nat.le_refl _
    | some console => exact Machine.converse_readCount emulator.machine console

/-- A tick that is not done has executed its instruction. -/
theorem tick_executed (ok : tick emulator = .ok false next) : ∃ probe machine,
    emulator.outcome = .running ∧ next = { emulator with machine := machine } ∧
      Machine.tick { emulator.machine with probe := probe } = .ok () machine := by
  by_cases running : emulator.outcome = .running
  · by_cases shown : Unshown emulator.machine.pc emulator.peekWords
    · rw [tick_unprepared running (prepare_unshown emulator.verbose shown)] at ok
      cases ok
    · obtain ⟨probe,prepared⟩ := prepare_shown emulator.verbose shown
      cases ran : Machine.tick { emulator.machine with probe := probe } with
      | error error machine =>
        rw [tick_error running prepared ran,settle_noted] at ok
        split at ok
        · cases ok
        · cases ok
      | ok value machine =>
        rw [tick_ok running prepared ran] at ok
        cases ok
        exact ⟨probe,machine,running,rfl,ran⟩
  · rw [tick_ended running] at ok
    cases ok

/-- A read instruction that is executed takes the next byte and stores it. -/
theorem tick_heard (heard : emulator.listens = true) (ok : tick emulator = .ok false next) :
    ∃ byte, emulator.unread = byte :: next.unread ∧
      Machine.Stores byte emulator.machine next.machine := by
  obtain ⟨probe,machine,running,rfl,ran⟩ := tick_executed ok
  have there : emulator.machine.memory[emulator.machine.pc.toNat]? = some Opcode.input.word := by
    simpa [listens,running,Machine.listens] using heard
  obtain ⟨byte,console,left,attached,read,released,stores⟩ :=
    @Machine.tick_stores { emulator.machine with probe := probe } _ there ran
  obtain ⟨before,after,consoled,consoled',taken⟩ := Console.readByte_consumed read
  refine ⟨byte,?_,stores.target,stores.memory,stores.registers,stores.stack,stores.pc⟩
  unfold unread
  rw [show emulator.machine.console = some console from attached,released,Option.bind_some,
    Option.bind_some,consoled,consoled']
  exact taken

/-- A tick that ends the run, or comes after its end, takes no byte. -/
theorem tick_done_unread (ok : tick emulator = .ok true next) :
    next.unread = emulator.unread := by
  have same : stateAfter (tick emulator) = next := by rw [ok]; rfl
  cases heard : emulator.listens with
  | false =>
    have kept := tick_unheard heard
    rw [same] at kept
    exact congrArg (fun input => (input.map Input.remaining).getD []) kept
  | true =>
    unfold unread
    rcases emulator.tick_converse with kept | ⟨running,⟨probe,prepared⟩,conversed⟩
    · rw [← kept,same]
    · have there : emulator.machine.memory[emulator.machine.pc.toNat]? =
          some Opcode.input.word := by
        simpa [listens,running,Machine.listens] using heard
      rw [same,Machine.converse_heard there] at conversed
      have refused : ∃ cause, emulator.machine.consoleFailure? Console.readByte = some cause := by
        cases ran : Machine.tick { emulator.machine with probe := probe } with
        | ok value machine =>
          rw [tick_ok running prepared ran] at ok
          cases ok
        | error error machine =>
          rw [tick_error running prepared ran,settle_noted] at ok
          cases judged : Outcome.ofError? error with
          | none =>
            rw [judged] at ok
            cases ok
          | some outcome =>
            exact @Machine.consoleFailure?_judged { emulator.machine with probe := probe } _ there
              ((Machine.tick_verdict ran).trans judged)
      cases attached : emulator.machine.console with
      | none =>
        rw [conversed,attached]
        rfl
      | some console =>
        obtain ⟨cause,ended⟩ := refused
        unfold Machine.consoleFailure? at ended
        rw [attached] at ended
        cases read : Console.readByte console with
        | ok byte left =>
          dsimp only at ended
          rw [read] at ended
          cases ended
        | error error left =>
          rw [conversed,attached,Option.map_some,Option.bind_some,read]
          exact congrArg (Option.getD · []) (Console.readByte_unconsumed read)

end ticked

/-- While the run has no outcome, as many bytes were taken as read instructions executed. -/
theorem ticks_unread {first emulator : Emulator} {visited : List Emulator}
    (ticks : Ticks first visited emulator) (running : emulator.outcome = .running) :
    emulator.unread = first.unread.drop (visited.countP listens) := by
  induction ticks with
  | start => rfl
  | @tick visited emulator next done before ok hypothesis =>
    have ended := tick_ends emulator
    rw [ok] at ended
    have further : done = false := by
      cases ended with
      | further => rfl
      | ended stopped => exact absurd running stopped
    subst further
    obtain ⟨_,_,started,_,_⟩ := tick_executed ok
    have before := hypothesis started
    rw [List.countP_append,List.countP_singleton]
    cases heard : emulator.listens with
    | true =>
      obtain ⟨byte,taken,_⟩ := tick_heard heard ok
      rw [if_pos rfl,← List.drop_drop,← before,taken]
      rfl
    | false =>
      have kept := tick_unheard heard
      rw [ok] at kept
      rw [if_neg Bool.false_ne_true,Nat.add_zero,← before]
      exact congrArg (fun input => (input.map Input.remaining).getD []) kept

section agree

variable {limit : Nat} {left right : Emulator}

theorem withInput_akin (emulator : Emulator) {count : Nat} {input input' : Input}
    (agree : Input.Agree count input input') :
    Akin (Console.Agree (input.reads.size + count)) Eq SameSettings
      (emulator.withInput input) (emulator.withInput input') := by
  refine ⟨⟨rfl,rfl⟩,rfl,rfl,rfl,rfl,rfl,rfl,rfl,?_,rfl⟩
  unfold withInput mapConsole
  dsimp only
  cases emulator.machine.console with
  | none => exact .none
  | some console =>
    refine .some ⟨.some ?_,rfl⟩
    rw [Nat.add_sub_cancel_left]
    exact agree

theorem akin_withoutAhead (akin : Akin (Console.Agree limit) Eq SameSettings left right) :
    left.withoutAhead = right.withoutAhead := by
  have kin := akin.machine
  have attached : left.machine.console.map Console.withoutAhead =
      right.machine.console.map Console.withoutAhead := by
    have consoles := kin.console
    generalize left.machine.console = one at consoles ⊢
    generalize right.machine.console = other at consoles ⊢
    cases consoles with
    | none => rfl
    | some agree => exact congrArg some (Console.agree_withoutAhead agree)
  unfold withoutAhead mapConsole
  dsimp only
  rw [attached,akin.settings.1,akin.settings.2,akin.program,akin.outcome,kin.pc,kin.registers,
    kin.memory,kin.stack,kin.ticks,kin.probe]

/-- Two emulators whose inputs agree tick alike, unless the tick makes the first read of the
device beyond the limit. -/
theorem tick_agree (akin : Akin (Console.Agree limit) Eq SameSettings left right)
    (within : (stateAfter (tick left)).readCount ≤ limit) :
    Alike (Akin (Console.Agree limit) Eq SameSettings) (tick left) (tick right) := by
  have writes : ∀ byte, Respects (Console.Agree limit) (Console.writeByte byte) :=
    fun byte => Console.deaf_respects (Console.writeByte_deaf byte)
  apply tick_alike (same_observation _) writes akin
  intro running machine prepared there one other attached agree
  apply Console.readByte_agree agree
  have conversed : (stateAfter (tick left)).machine.console =
      some (stateAfter (Console.readByte one)) := by
    unfold tick
    rw [if_neg (not_not_intro running),tickAt_prepared _ prepared,Machine.tick_console,
      Machine.converse_heard there,attached]
    rfl
  unfold readCount at within
  rw [conversed] at within
  exact within

theorem drive_readCount (count : Nat) (emulator : Emulator) :
    emulator.readCount ≤ (drive (List.replicate count .tick) emulator).2.readCount := by
  induction count generalizing emulator with
  | zero => exact Nat.le_refl _
  | succ count hypothesis =>
    exact Nat.le_trans (tick_readCount emulator) (hypothesis (stateAfter (tick emulator)))

theorem drive_agree (count : Nat) (akin : Akin (Console.Agree limit) Eq SameSettings left right)
    (within : (drive (List.replicate count .tick) left).2.readCount ≤ limit) :
    (drive (List.replicate count .tick) left).1 = (drive (List.replicate count .tick) right).1 ∧
      Akin (Console.Agree limit) Eq SameSettings (drive (List.replicate count .tick) left).2
        (drive (List.replicate count .tick) right).2 := by
  induction count generalizing left right with
  | zero => exact ⟨rfl,akin⟩
  | succ count hypothesis =>
    have first := Nat.le_trans (drive_readCount count (stateAfter (tick left))) within
    obtain ⟨same,next⟩ := alike_answers (tick_agree akin first)
    obtain ⟨rest,final⟩ := hypothesis next within
    refine ⟨?_,final⟩
    rw [List.replicate_succ]
    unfold drive
    dsimp only [answer]
    rw [same,rest]

end agree

/-- Input is consumed in order, and by read instructions alone. In a run of ticks without a
failure, a read instruction that is executed stores the byte whose place in the input is the
number of those executed before it; one that ends the run takes no byte, and no other
instruction changes the input. Two emulators that differ in their inputs alone, where the next
`count` reads give the same, give the same answers and stay the same but for what is still to
be read, as long as no more than `count` reads are made of the device. -/
theorem input_consumed_in_order :
    (∀ (first emulator next : Emulator) (visited : List Emulator) (done : Bool),
      Ticks first visited emulator → tick emulator = .ok done next →
        (emulator.listens = true → done = false → ∃ byte,
          first.unread[visited.countP listens]? = some byte ∧
          Machine.Stores byte emulator.machine next.machine ∧
          next.unread = first.unread.drop (visited.countP listens + 1)) ∧
        (emulator.listens = true → done = true → next.unread = emulator.unread) ∧
        (emulator.listens = false →
          next.machine.console.bind Console.input =
            emulator.machine.console.bind Console.input)) ∧
    ∀ (emulator : Emulator) (input input' : Input) (count ticks : Nat),
      Input.Agree count input input' →
      (drive (List.replicate ticks .tick) (emulator.withInput input)).2.readCount ≤
        input.reads.size + count →
          (drive (List.replicate ticks .tick) (emulator.withInput input)).1 =
            (drive (List.replicate ticks .tick) (emulator.withInput input')).1 ∧
          (drive (List.replicate ticks .tick) (emulator.withInput input)).2.withoutAhead =
            (drive (List.replicate ticks .tick) (emulator.withInput input')).2.withoutAhead := by
  constructor
  · intro first emulator next visited done ticks ok
    refine ⟨?_,?_,?_⟩
    · rintro heard rfl
      obtain ⟨_,_,running,_,_⟩ := tick_executed ok
      obtain ⟨byte,taken,stores⟩ := tick_heard heard ok
      have ahead := (ticks_unread ticks running).symm.trans taken
      refine ⟨byte,?_,stores,?_⟩
      · rw [← List.head?_drop,ahead]
        rfl
      · rw [← List.drop_drop,ahead]
        rfl
    · rintro _ rfl
      exact tick_done_unread ok
    · intro unheard
      have kept := tick_unheard unheard
      rw [ok] at kept
      exact kept
  · intro emulator input input' count ticks agree within
    obtain ⟨same,akin⟩ := drive_agree ticks (withInput_akin emulator agree) within
    exact ⟨same,akin_withoutAhead akin⟩

/-- An emulator whose program reads a byte into a register, one into memory, and halts. -/
def reader : Emulator :=
  { machine := { memory := Machine.padded [20, 32768, 20, 100, 0], console := some {} } }

theorem input_consumed_in_order_reader :
    Machine.Stores 66 (stateAfter (tick (reader.withInput { remaining := [65, 66, 67] }))).machine
        (drive [.tick, .tick] (reader.withInput { remaining := [65, 66, 67] })).2.machine ∧
      (drive [.tick, .tick] (reader.withInput { remaining := [65, 66, 67] })).2.unread = [67] ∧
      (drive [.tick] (reader.withInput { remaining := [65, 66] })).2.withoutAhead =
        (drive [.tick] (reader.withInput { remaining := [65, 67, 68] })).2.withoutAhead := by
  have begun := @ok_of_run' _ _ _ tick (reader.withInput { remaining := [65, 66, 67] }) false
    (by decide +kernel)
  have further := @ok_of_run' _ _ _ tick
    (stateAfter (tick (reader.withInput { remaining := [65, 66, 67] }))) false (by decide +kernel)
  obtain ⟨byte,given,stores,ahead⟩ :=
    (input_consumed_in_order.1 _ _ _ _ _ (.tick .start begun) further).1 (by decide +kernel) rfl
  have second : (reader.withInput { remaining := [65, 66, 67] }).unread[
      [reader.withInput { remaining := [65, 66, 67] }].countP listens]? = some 66 := by
    decide +kernel
  have unread : (reader.withInput { remaining := [65, 66, 67] }).unread.drop
      ([reader.withInput { remaining := [65, 66, 67] }].countP listens + 1) = [67] := by
    decide +kernel
  have agree : Input.Agree 1 { remaining := [65, 66] } { remaining := [65, 67, 68] } :=
    ⟨rfl,fun _ => rfl,fun _ _ => rfl,rfl⟩
  cases Option.some.inj (given.symm.trans second)
  exact ⟨stores,ahead.trans unread,
    (input_consumed_in_order.2 reader _ _ 1 1 agree (by decide +kernel)).2⟩

end Emulator
end WordMachine
