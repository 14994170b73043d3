import WordMachine.Proofs.Machine.Failure

/-! Fifteen-bit values. Registers, stack and written memory stay below 32768 along every
run, but for two events: a read of a memory cell that holds more, and a call in the last
two words of memory, whose return address is one past the end. -/
namespace WordMachine.Machine

structure Bounded (machine : Machine) : Prop where
  registers : ∀ (index : Nat) (value : Word), machine.registers[index]? = some value →
    value.toNat ≤ 32767
  stack : ∀ value ∈ machine.stack.entries, value.toNat ≤ 32767
  pc : machine.pc.toNat ≤ 32768

inductive Escapes (machine : Machine) : Prop
  | read (cell : Word) (executable : Executable machine .rmem)
      (found : machine.memory[(machine.operandValue 1).toNat]? = some cell)
      (large : 32767 < cell.toNat)
  | call (executable : Executable machine .call) (top : machine.pc.toNat = 32766)

def target? (machine : Machine) : Opcode → Option Nat
  | .wmem => some (machine.operandValue 0).toNat
  | .input =>
    if (machine.operandWord 0).toNat < 32768 then some (machine.operandWord 0).toNat else none
  | _ => none

def Writes (machine : Machine) (addr : Nat) : Prop :=
  ∃ opcode, Executable machine opcode ∧ machine.target? opcode = some addr

def ticked (machine : Machine) : Machine :=
  match tick machine with
  | .ok _ final => final
  | .error _ final => final

/-- Ticks one after another, failing or not, with the machines that they were begun in.
Before each tick the console may have any input, and observation may change. -/
inductive Run (first : Machine) : List Machine → Machine → Prop
  | start : Run first [] first
  | tick (trace : List Machine) (machine : Machine) (console : Option Console) (probe : Probe)
      (run : Run first trace machine) :
      Run first (trace ++ [{ machine with console := console, probe := probe }])
        (ticked { machine with console := console, probe := probe })

section values

theorem toUInt16_small {number : Nat} (small : number ≤ 32767) : number.toUInt16.toNat ≤ 32767 := by
  rw [Nat.toUInt16_eq,UInt16.toNat_ofNat']
  change number % 65536 ≤ 32767
  omega

theorem byte_small (byte : UInt8) : byte.toUInt16.toNat ≤ 32767 := by
  have bound := byte.toNat_lt
  rw [UInt8.toNat_toUInt16]
  change byte.toNat < 256 at bound
  omega

theorem setIfInBounds_found {size index place : Nat} {words : Vector Word size} {word value : Word}
    (found : (words.setIfInBounds index word)[place]? = some value) :
    index = place ∧ value = word ∨ index ≠ place ∧ words[place]? = some value := by
  by_cases same : index = place
  · subst same
    rw [Vector.getElem?_setIfInBounds_self] at found
    split at found
    · cases found
      exact .inl ⟨rfl,rfl⟩
    · cases found
  · rw [Vector.getElem?_setIfInBounds_ne same] at found
    exact .inr ⟨same,found⟩

variable {machine : Machine} (bounded : Bounded machine)
include bounded

theorem bounded_valueIn (raw : Word) : (valueIn machine.registers raw).toNat ≤ 32767 := by
  unfold valueIn
  split
  · omega
  · cases held : machine.registers[raw.toNat - 32768]? with
    | none => simp
    | some value => exact bounded.registers _ value held

theorem bounded_operandValue (index : Nat) : (machine.operandValue index).toNat ≤ 32767 :=
  bounded_valueIn bounded _

theorem bounded_top : (machine.stack.peek?.getD 0).toNat ≤ 32767 := by
  cases entries : machine.stack.entries with
  | nil => simp [Stack.peek?,entries]
  | cons top rest =>
    have held := bounded.stack top (by simp [entries])
    simpa [Stack.peek?,entries] using held

theorem bounded_assign {value : Word} (small : value.toNat ≤ 32767) (register : Fin registerCount)
    (index : Nat) (held : Word) (found : (machine.registers.set register value)[index]? = some held) :
    held.toNat ≤ 32767 := by
  rw [← setIfInBounds_inside _ _ register.isLt] at found
  rcases setIfInBounds_found found with ⟨-,rfl⟩ | ⟨-,kept⟩
  · exact small
  · exact bounded.registers index held kept

/-- Every result but that of a memory read is small if the operands are. -/
theorem bounded_result {opcode : Opcode} (calm : opcode ≠ .rmem) :
    operationResult machine.memory opcode (machine.operandValue 1).toNat (machine.operandValue 2).toNat
      ≤ 32767 := by
  have b := bounded_operandValue bounded 1
  have c := bounded_operandValue bounded 2
  cases opcode with
  | set => exact b
  | add | mult => exact Nat.le_of_lt_succ (Nat.mod_lt _ (by decide))
  | eq | gt =>
    simp only [operationResult]
    split <;> decide
  | mod => exact Nat.le_trans (Nat.mod_le _ _) b
  | and => exact Nat.le_trans Nat.and_le_left b
  | or =>
    have joined := @Nat.or_lt_two_pow _ _ 15 (Nat.lt_succ_of_le b) (Nat.lt_succ_of_le c)
    exact Nat.le_of_lt_succ joined
  | not => exact Nat.sub_le _ _
  | rmem => exact absurd rfl calm
  | halt | push | pop | jmp | jt | jf | wmem | call | ret | output | input | noop =>
    exact Nat.zero_le _

end values

theorem executable_unique {machine : Machine} {one two : Opcode} (first : Executable machine one)
    (second : Executable machine two) : one = two :=
  Opcode.word_injective (Option.some.inj (first.fetched.symm.trans second.fetched))

section step

variable {machine : Machine} {opcode : Opcode} (executable : Executable machine opcode)
include executable

theorem executable_next :
    (machine.pc.toNat + opcode.width).toUInt16.toNat = machine.pc.toNat + opcode.width := by
  have inside : machine.pc.toNat + opcode.width ≤ 32768 := executable.inside
  rw [Nat.toUInt16_eq,UInt16.toNat_ofNat']
  change (machine.pc.toNat + opcode.width) % 65536 = _
  omega

variable (bounded : Bounded machine)
include bounded

theorem bounded_after_pc : (machine.after opcode).pc.toNat ≤ 32768 := by
  have inside : machine.pc.toNat + opcode.width ≤ 32768 := executable.inside
  have next := executable_next executable
  have a := bounded_operandValue bounded 0
  have b := bounded_operandValue bounded 1
  have top := bounded_top bounded
  cases opcode with
  | jmp | call | ret =>
    simp only [after]
    omega
  | jt | jf | input =>
    simp only [after]
    split
    · simp only
      omega
    · simp only
      omega
  | halt | set | push | pop | eq | gt | add | mult | mod | and | or | not | rmem | wmem | output
  | noop =>
    simp only [after]
    omega

theorem bounded_after_registers (calm : ¬ Escapes machine) (index : Nat) (value : Word)
    (found : (machine.after opcode).registers[index]? = some value) : value.toNat ≤ 32767 := by
  cases opcode with
  | halt | noop | push | jmp | wmem | call | ret | output => exact bounded.registers index value found
  | jt | jf =>
    simp only [after] at found
    split at found <;> exact bounded.registers index value found
  | input =>
    simp only [after] at found
    split at found
    · exact bounded.registers index value found
    · exact bounded_assign bounded (byte_small _) _ index value found
  | pop => exact bounded_assign bounded (bounded_top bounded) _ index value found
  | rmem =>
    have addressed : (machine.operandValue 1).toNat < memorySize := executable.enabled
    have cell : machine.memory[(machine.operandValue 1).toNat]? = some _ :=
      Vector.getElem?_eq_getElem addressed
    apply bounded_assign bounded _ _ index value found
    simp only [operationResult,cell,Option.getD_some]
    apply toUInt16_small
    apply Classical.byContradiction
    intro large
    exact calm (.read _ executable cell (Nat.lt_of_not_le large))
  | set | eq | gt | add | mult | mod | and | or | not =>
    refine bounded_assign bounded (toUInt16_small (bounded_result bounded ?_)) _ index value found
    decide

theorem bounded_after_stack (calm : ¬ Escapes machine) (value : Word)
    (held : value ∈ (machine.after opcode).stack.entries) : value.toNat ≤ 32767 := by
  cases opcode with
  | push =>
    rcases List.mem_cons.mp held with rfl | below
    · exact bounded_operandValue bounded 0
    · exact bounded.stack value below
  | call =>
    rcases List.mem_cons.mp held with rfl | below
    · have next := executable_next executable
      have inside : machine.pc.toNat + 2 ≤ 32768 := executable.inside
      change (machine.pc.toNat + 2).toUInt16.toNat = machine.pc.toNat + 2 at next
      have lower : machine.pc.toNat ≠ 32766 := fun top => calm (.call executable top)
      omega
    · exact bounded.stack value below
  | pop | ret => exact bounded.stack value (List.mem_of_mem_tail held)
  | jt | jf | input =>
    simp only [after] at held
    split at held <;> exact bounded.stack value held
  | halt | noop | jmp | wmem | output | set | eq | gt | add | mult | mod | and | or | not | rmem =>
    exact bounded.stack value held

theorem bounded_after (calm : ¬ Escapes machine) : Bounded (machine.after opcode) where
  registers := bounded_after_registers executable bounded calm
  stack := bounded_after_stack executable bounded calm
  pc := bounded_after_pc executable bounded

omit executable in
theorem after_target : machine.target? opcode = none ∧ (machine.after opcode).memory = machine.memory ∨
    ∃ addr value, machine.target? opcode = some addr ∧ value.toNat ≤ 32767 ∧
      (machine.after opcode).memory = machine.memory.setIfInBounds addr value := by
  cases opcode with
  | wmem => exact .inr ⟨_,_,rfl,bounded_operandValue bounded 1,rfl⟩
  | input =>
    by_cases cell : (machine.operandWord 0).toNat < 32768
    · simp only [target?,after,if_pos cell]
      exact .inr ⟨_,_,rfl,byte_small _,rfl⟩
    · exact .inl ⟨if_neg cell,by simp only [after,if_neg cell]⟩
  | jt | jf =>
    simp only [target?,after]
    split <;> exact .inl ⟨trivial,rfl⟩
  | halt | noop | push | pop | jmp | call | ret | output | set | eq | gt | add | mult | mod | and | or
  | not | rmem => exact .inl ⟨rfl,rfl⟩

omit bounded in
theorem writes_iff (addr : Nat) : Writes machine addr ↔ machine.target? opcode = some addr := by
  constructor
  · rintro ⟨other,writing,aimed⟩
    cases executable_unique executable writing
    exact aimed
  · intro aimed
    exact ⟨opcode,executable,aimed⟩

/-- A cell holds a small value if it was written, and is as before if not. -/
theorem after_written (addr : Nat) (value : Word)
    (found : (machine.after opcode).memory[addr]? = some value) :
    (Writes machine addr ∧ value.toNat ≤ 32767) ∨
      (¬ Writes machine addr ∧ machine.memory[addr]? = some value) := by
  rw [writes_iff executable]
  rcases @after_target machine opcode bounded with ⟨silent,same⟩ | ⟨cell,word,aimed,small,stored⟩
  · rw [same] at found
    exact .inr ⟨by simp [silent],found⟩
  · rw [stored] at found
    rw [aimed]
    rcases setIfInBounds_found found with ⟨rfl,rfl⟩ | ⟨other,kept⟩
    · exact .inl ⟨rfl,small⟩
    · exact .inr ⟨fun same => other (Option.some.inj same),kept⟩

end step

theorem bounded_failed {machine final : Machine} {begun count : Nat}
    (fetched : Fetched machine begun count final) (bounded : Bounded machine) : Bounded final where
  registers := by
    rw [fetched.registers]
    exact bounded.registers
  stack := by
    rw [fetched.stack]
    exact bounded.stack
  pc := by
    have moved := fetched.pc
    have before := bounded.pc
    rcases fetched.reached with rfl | reached
    · omega
    · rw [moved]
      exact reached

/-- What a tick leaves: the effect of an executable instruction, or a machine that only
fetched. -/
theorem ticked_cases (machine : Machine) :
    (∃ opcode, Executable machine opcode ∧
      { machine.ticked with probe := machine.probe } = machine.after opcode) ∨
    (∀ opcode, ¬ Executable machine opcode) ∧
      ∃ begun count, Fetched machine begun count machine.ticked := by
  have ends := tick_ends machine
  unfold ticked
  cases ended : tick machine with
  | ok _ final =>
    obtain ⟨opcode,executable⟩ := tick_executable ended
    obtain ⟨reached,same,effect⟩ := executable_tick executable
    rw [ended] at same
    cases same
    exact .inl ⟨opcode,executable,effect⟩
  | error error final =>
    rw [ended] at ends
    right
    constructor
    · intro opcode executable
      obtain ⟨reached,same,-⟩ := executable_tick executable
      rw [ended] at same
      cases same
    · cases ends with
      | failed _ _ count diagnosed fetched within => exact ⟨_,count,fetched⟩

theorem ticked_of_sound {machine : Machine} (sound : machine.diagnosis = none) :
    tick machine = .ok () machine.ticked := by
  have ends := tick_ends machine
  unfold ticked
  cases ended : tick machine with
  | ok _ final => rfl
  | error error final =>
    rw [ended] at ends
    cases ends with
    | failed _ _ count diagnosed fetched within =>
      rw [sound] at diagnosed
      cases diagnosed

theorem bounded_of_probe {machine : Machine} (probe : Probe)
    (bounded : Bounded { machine with probe := probe }) : Bounded machine :=
  ⟨bounded.registers,bounded.stack,bounded.pc⟩

theorem ticked_bounded {machine : Machine} (bounded : Bounded machine) (calm : ¬ Escapes machine) :
    Bounded machine.ticked := by
  rcases ticked_cases machine with ⟨opcode,executable,effect⟩ | ⟨-,begun,count,fetched⟩
  · apply bounded_of_probe machine.probe
    rw [effect]
    exact bounded_after executable bounded calm
  · exact bounded_failed fetched bounded

theorem ticked_written {machine : Machine} (bounded : Bounded machine) (addr : Nat) (value : Word)
    (found : machine.ticked.memory[addr]? = some value) :
    (Writes machine addr ∧ value.toNat ≤ 32767) ∨
      (¬ Writes machine addr ∧ machine.memory[addr]? = some value) := by
  rcases ticked_cases machine with ⟨opcode,executable,effect⟩ | ⟨silent,begun,count,fetched⟩
  · have memory := congrArg Machine.memory effect
    change machine.ticked.memory = _ at memory
    rw [memory] at found
    exact after_written executable bounded addr value found
  · rw [fetched.memory] at found
    refine .inr ⟨?_,found⟩
    rintro ⟨opcode,executable,-⟩
    exact silent opcode executable

/-- Each of the two events does leave the range. -/
theorem ticked_escaped {machine : Machine} (escapes : Escapes machine) : ¬ Bounded machine.ticked := by
  intro bounded
  rcases ticked_cases machine with ⟨opcode,executable,effect⟩ | ⟨silent,-⟩
  · cases escapes with
    | read cell reading found large =>
      cases executable_unique executable reading
      have registers := congrArg Machine.registers effect
      change machine.ticked.registers = machine.registers.set _ _ at registers
      have small := bounded.registers (registerOf (machine.operandWord 0)).val _ (by
        rw [registers,← setIfInBounds_inside _ _ (registerOf (machine.operandWord 0)).isLt,
          Vector.getElem?_setIfInBounds_self,if_pos (registerOf (machine.operandWord 0)).isLt])
      simp only [operationResult,found,Option.getD_some,Nat.toUInt16_eq,UInt16.ofNat_toNat] at small
      omega
    | call calling top =>
      cases executable_unique executable calling
      have stack := congrArg Machine.stack effect
      change machine.ticked.stack = machine.stack.push (machine.pc.toNat + 2).toUInt16 at stack
      have small := bounded.stack (machine.pc.toNat + 2).toUInt16 (by simp [stack,Stack.push])
      rw [top] at small
      exact absurd small (by decide)
  · cases escapes with
    | read cell reading found large => exact silent _ reading
    | call calling top => exact silent _ calling

theorem run_bounded {first final : Machine} {trace : List Machine} (bounded : Bounded first)
    (run : Run first trace final) (calm : ∀ visited ∈ trace, ¬ Escapes visited) : Bounded final := by
  induction run with
  | start => exact bounded
  | tick trace machine console probe run ih =>
    have before := ih fun visited member => calm visited (List.mem_append_left _ member)
    have ready : Bounded { machine with console := console, probe := probe } :=
      ⟨before.registers,before.stack,before.pc⟩
    exact ticked_bounded ready (calm _ (by simp))

theorem run_written {first final : Machine} {trace : List Machine} (bounded : Bounded first)
    (run : Run first trace final) (calm : ∀ visited ∈ trace, ¬ Escapes visited) (addr : Nat) (value : Word)
    (found : final.memory[addr]? = some value) :
    ((∃ visited ∈ trace, Writes visited addr) ∧ value.toNat ≤ 32767) ∨
      ((∀ visited ∈ trace, ¬ Writes visited addr) ∧ first.memory[addr]? = some value) := by
  induction run generalizing value with
  | start => exact .inr ⟨by simp,found⟩
  | tick trace machine console probe run ih =>
    have earlier : ∀ visited ∈ trace, ¬ Escapes visited :=
      fun visited member => calm visited (List.mem_append_left _ member)
    have before := run_bounded bounded run earlier
    have ready : Bounded { machine with console := console, probe := probe } :=
      ⟨before.registers,before.stack,before.pc⟩
    -- The last write decides what a cell holds, so the last tick is looked at first.
    rcases ticked_written ready addr value found with ⟨writes,small⟩ | ⟨silent,kept⟩
    · exact .inl ⟨⟨_,by simp,writes⟩,small⟩
    · rcases ih earlier value kept with ⟨⟨visited,member,writes⟩,small⟩ | ⟨never,held⟩
      · exact .inl ⟨⟨visited,List.mem_append_left _ member,writes⟩,small⟩
      · refine .inr ⟨?_,held⟩
        intro visited member
        rcases List.mem_append.mp member with old | new
        · exact never visited old
        · rw [List.mem_singleton.mp new]
          exact silent

theorem load_bounded {words : List Word} {machine loaded : Machine}
    (ok : load words machine = .ok () loaded) : Bounded loaded := by
  unfold load at ok
  by_cases large : memorySize < words.length
  · rw [if_pos large] at ok
    cases ok
  · rw [if_neg large] at ok
    cases ok
    refine ⟨?_,?_,?_⟩
    · intro index value found
      have zero : (Vector.replicate registerCount (0 : Word))[index]? = some value := found
      rw [Vector.getElem?_replicate] at zero
      split at zero
      · cases zero
        decide
      · cases zero
    · intro value held
      cases held
    · exact Nat.zero_le _

/-- A tick keeps values in fifteen bits unless it is one of the two events, and then it
does not; what it writes to memory is in fifteen bits in any case. So along a run from a
loaded program in which neither event happens, registers, stack and the cells that were
written stay in fifteen bits, and all other cells are as loaded. -/
theorem values_stay_bounded :
    (∀ machine, Bounded machine →
      (Bounded machine.ticked ↔ ¬ Escapes machine) ∧
      ∀ (addr : Nat) (value : Word), machine.ticked.memory[addr]? = some value →
        machine.memory[addr]? ≠ some value → value.toNat ≤ 32767) ∧
    ∀ words machine loaded trace final, load words machine = .ok () loaded →
      Run loaded trace final → (∀ visited ∈ trace, ¬ Escapes visited) →
        Bounded final ∧ ∀ (addr : Nat) (value : Word), final.memory[addr]? = some value →
          ((∃ visited ∈ trace, Writes visited addr) → value.toNat ≤ 32767) ∧
          ((∀ visited ∈ trace, ¬ Writes visited addr) → loaded.memory[addr]? = some value) := by
  refine ⟨?_,?_⟩
  · intro machine bounded
    refine ⟨⟨?_,ticked_bounded bounded⟩,?_⟩
    · intro after escapes
      exact ticked_escaped escapes after
    · intro addr value found changed
      rcases ticked_written bounded addr value found with ⟨-,small⟩ | ⟨-,kept⟩
      · exact small
      · exact absurd kept changed
  · intro words machine loaded trace final ok run calm
    have bounded := load_bounded ok
    refine ⟨run_bounded bounded run calm,?_⟩
    intro addr value found
    rcases run_written bounded run calm addr value found with ⟨writes,small⟩ | ⟨never,held⟩
    · refine ⟨fun _ => small,?_⟩
      intro silent
      obtain ⟨visited,member,written⟩ := writes
      exact absurd written (silent visited member)
    · refine ⟨?_,fun _ => held⟩
      rintro ⟨visited,member,written⟩
      exact absurd written (never visited member)

/-- A program that writes to memory and then pushes what it wrote over. -/
def writeThenPush : List Word := [16, 4, 77, 2, 9]

def readyToWrite : Machine :=
  { memory := fill (Vector.replicate memorySize 0) 0 writeThenPush }

theorem load_writeThenPush : load writeThenPush {} = .ok () readyToWrite := rfl

theorem run_next {first machine : Machine} {trace : List Machine} (run : Run first trace machine) :
    Run first (trace ++ [machine]) machine.ticked :=
  .tick trace machine machine.console machine.probe run

theorem not_escapes_of_fetched {machine : Machine} {opcode : Opcode}
    (there : machine.memory[machine.pc.toNat]? = some opcode.word)
    (other : opcode.word ≠ Opcode.rmem.word ∧ opcode.word ≠ Opcode.call.word) : ¬ Escapes machine := by
  intro escapes
  cases escapes with
  | read cell executable found large =>
    exact other.1 (Option.some.inj (there.symm.trans executable.fetched))
  | call executable top => exact other.2 (Option.some.inj (there.symm.trans executable.fetched))

theorem values_stay_bounded_writeThenPush : ∃ trace final,
    load writeThenPush {} = .ok () readyToWrite ∧ Run readyToWrite trace final ∧ trace.length = 2 ∧
      Bounded final ∧ final.stack.entries = [77] ∧ final.memory[4]? = some 77 := by
  have run : Run readyToWrite [readyToWrite,readyToWrite.ticked] readyToWrite.ticked.ticked :=
    run_next (run_next .start)
  have first : readyToWrite.memory[readyToWrite.pc.toNat]? = some Opcode.wmem.word := by
    decide +kernel
  have second : readyToWrite.ticked.memory[readyToWrite.ticked.pc.toNat]? = some Opcode.push.word := by
    decide +kernel
  have calm : ∀ visited ∈ [readyToWrite,readyToWrite.ticked], ¬ Escapes visited := by
    intro visited member
    rcases List.mem_cons.mp member with rfl | later
    · exact not_escapes_of_fetched first (by decide)
    · rw [List.mem_singleton.mp later]
      exact not_escapes_of_fetched second (by decide)
  have bounded := (values_stay_bounded.2 _ _ _ _ _ load_writeThenPush run calm).1
  exact ⟨_,_,load_writeThenPush,run,rfl,bounded,by decide +kernel,by decide +kernel⟩

end WordMachine.Machine
