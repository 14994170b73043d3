import WordMachine.Proofs.Machine.Handler

/-! The machine refines the reference interpreter: an instruction succeeds exactly when
it is executable, and then does what the reference does. -/
namespace WordMachine

namespace Opcode

theorem number_of_all {index : Nat} {opcode : Opcode} (listed : all[index]? = some opcode) :
    opcode.number = index := by
  have numbers : ∀ i < 22, (all[i]?).map number = some i := by decide
  have bound : index < 22 := (List.getElem?_eq_some_iff.mp listed).1
  have numbered := numbers index bound
  rw [listed] at numbered
  exact Option.some.inj numbered

theorem ofWord?_word (opcode : Opcode) : ofWord? opcode.word = some opcode := by
  cases opcode <;> rfl

theorem ofWord?_eq_some {raw : Word} {opcode : Opcode} (decoded : ofWord? raw = some opcode) :
    raw = opcode.word := by
  have numbered := number_of_all decoded
  apply UInt16.toNat_inj.mp
  rw [← numbered]
  cases opcode <;> rfl

theorem word_injective {one two : Opcode} (same : one.word = two.word) : one = two := by
  have decoded := one.ofWord?_word
  rw [same,two.ofWord?_word] at decoded
  exact (Option.some.inj decoded).symm

theorem numbered_iff (opcode : Opcode) :
    1 ≤ opcode.number ∧ opcode.number ≤ 21 ↔ opcode ≠ .halt := by
  cases opcode <;> decide

end Opcode

namespace Word

/-- The sum in 32 bits never overflows. -/
theorem add_eq (b c : Word) : add b c = ((b.toNat + c.toNat) % 32768).toUInt16 := by
  have small := b.toNat_lt
  have small' := c.toNat_lt
  apply UInt16.toNat_inj.mp
  simp only [add,UInt32.toNat_toUInt16,UInt32.toNat_mod,UInt32.toNat_add,UInt16.toNat_toUInt32,
    Nat.toUInt16_eq,UInt16.toNat_ofNat']
  change (b.toNat + c.toNat) % 2 ^ 32 % 32768 % 2 ^ 16 = _
  omega

/-- The product in 32 bits never overflows. -/
theorem multiply_eq (b c : Word) : multiply b c = (b.toNat * c.toNat % 32768).toUInt16 := by
  have small := b.toNat_lt
  have small' := c.toNat_lt
  have bound : b.toNat * c.toNat < 2 ^ 32 := by
    calc b.toNat * c.toNat ≤ 65535 * 65535 := Nat.mul_le_mul (by omega) (by omega)
      _ < 2 ^ 32 := by decide
  apply UInt16.toNat_inj.mp
  simp only [multiply,UInt32.toNat_toUInt16,UInt32.toNat_mod,UInt32.toNat_mul,
    UInt16.toNat_toUInt32,Nat.toUInt16_eq,UInt16.toNat_ofNat',Nat.mod_eq_of_lt bound]
  rfl

theorem complement_eq (b : Word) : complement b = (32767 - b.toNat % 32768).toUInt16 := by
  have small := b.toNat_lt
  apply UInt16.toNat_inj.mp
  have masked : (65535 - b.toNat) &&& 32767 = (65535 - b.toNat) % 32768 :=
    Nat.and_two_pow_sub_one_eq_mod (65535 - b.toNat) 15
  simp only [complement,UInt16.toNat_and,UInt16.toNat_not,Nat.toUInt16_eq,UInt16.toNat_ofNat']
  change (65535 - b.toNat) &&& 32767 = _
  rw [masked]
  omega

theorem remainder_eq (b c : Word) : b % c = (b.toNat % c.toNat).toUInt16 := by
  apply UInt16.toNat_inj.mp
  have small : b.toNat % c.toNat < 2 ^ 16 := Nat.lt_of_le_of_lt (Nat.mod_le _ _) b.toNat_lt
  rw [UInt16.toNat_mod,Nat.toUInt16_eq,UInt16.toNat_ofNat',Nat.mod_eq_of_lt small]

theorem ofBool_beq (b c : Word) :
    ofBool (b == c) = (if b.toNat = c.toNat then 1 else 0 : Nat).toUInt16 := by
  by_cases same : b = c
  · simp [ofBool,same]
  · simp [ofBool,same,UInt16.toNat_inj]

theorem ofBool_gt (b c : Word) :
    ofBool (b > c) = (if c.toNat < b.toNat then 1 else 0 : Nat).toUInt16 := by
  by_cases larger : c.toNat < b.toNat
  · simp [ofBool,UInt16.lt_iff_toNat_lt,larger]
  · simp [ofBool,UInt16.lt_iff_toNat_lt,larger]

end Word

namespace Machine

def begun (machine : Machine) (opcode : Opcode) : Machine :=
  { machine.advance opcode.word with
    ticks := machine.ticks + 1
    probe := (machine.advance opcode.word).probe.log (.executing machine.pc opcode) }

section begun

variable (machine : Machine) (opcode : Opcode)

@[simp] theorem begun_pc : (machine.begun opcode).pc = machine.pc + 1 := rfl
@[simp] theorem begun_registers : (machine.begun opcode).registers = machine.registers := rfl
@[simp] theorem begun_memory : (machine.begun opcode).memory = machine.memory := rfl
@[simp] theorem begun_stack : (machine.begun opcode).stack = machine.stack := rfl
@[simp] theorem begun_console : (machine.begun opcode).console = machine.console := rfl
@[simp] theorem begun_ticks : (machine.begun opcode).ticks = machine.ticks + 1 := rfl

@[simp] theorem begun_advanceAll_pc (raws : List Word)
    (counted : raws.length = opcode.operands.length) :
    ((machine.begun opcode).advanceAll raws).pc = machine.pc + UInt16.ofNat opcode.width := by
  apply UInt16.toNat_inj.mp
  rw [advanceAll_pc,begun_pc,counted,Opcode.width]
  simp only [Nat.toUInt16_eq,UInt16.toNat_ofNat',UInt16.toNat_add]
  change ((machine.pc.toNat + 1) % 65536 + _) % 65536 = _
  omega

end begun

def operandWords (machine : Machine) (opcode : Opcode) : List Word :=
  (List.range opcode.operands.length).map machine.operandWord

theorem operandWords_length (machine : Machine) (opcode : Opcode) :
    (machine.operandWords opcode).length = opcode.operands.length := by
  simp [operandWords]

theorem begun_pc_toNat {machine : Machine} {opcode : Opcode}
    (there : machine.memory[machine.pc.toNat]? = some opcode.word) :
    (machine.begun opcode).pc.toNat = machine.pc.toNat + 1 := advance_pc_toNat there

theorem begun_reached {machine : Machine} {opcode : Opcode}
    (there : machine.memory[machine.pc.toNat]? = some opcode.word) :
    (machine.begun opcode).pc.toNat ≤ memorySize := by
  have inside : machine.pc.toNat < memorySize := (Vector.getElem?_eq_some_iff.mp there).1
  rw [begun_pc_toNat there]
  exact inside

theorem decodes_supplies {machine : Machine} {opcode : Opcode} (decoded : Decodes machine opcode) :
    Supplies (machine.begun opcode) opcode.operands (machine.operandWords opcode) := by
  have moved := begun_pc_toNat decoded.fetched
  have fits := decoded.inside
  unfold Opcode.width at fits
  apply (supplies_iff _ _ _ (begun_reached decoded.fetched)).mpr
  refine ⟨operandWords_length machine opcode,by omega,?_⟩
  intro index kind listed
  have bound : index < opcode.operands.length := (List.getElem?_eq_some_iff.mp listed).1
  refine ⟨machine.operandWord index,by simp [operandWords,bound],?_,decoded.admitted index kind listed⟩
  have stored : machine.pc.toNat + 1 + index < memorySize := by omega
  rw [moved,begun_memory,operandWord,Vector.getElem?_eq_getElem stored,Option.getD_some]

theorem supplies_decodes {machine : Machine} {opcode : Opcode} {raws : List Word}
    (there : machine.memory[machine.pc.toNat]? = some opcode.word)
    (supplied : Supplies (machine.begun opcode) opcode.operands raws) : Decodes machine opcode := by
  have moved := begun_pc_toNat there
  obtain ⟨-,fits,each⟩ := (supplies_iff _ _ _ (begun_reached there)).mp supplied
  refine ⟨there,by unfold Opcode.width; omega,?_⟩
  intro index kind listed
  obtain ⟨raw,-,stored,admitted⟩ := each index kind listed
  rw [moved,begun_memory] at stored
  rw [operandWord,stored]
  exact admitted

/-- The refusals of an operation whose operands are well-formed. -/
def Refuses (machine : Machine) (cause : Error) : Opcode → Prop
  | .pop | .ret => machine.stack.isEmpty = true ∧ cause = .plain .stackEmpty
  | .mod => machine.operandValue 2 = 0 ∧ cause = .plain .divideByZero
  | .rmem =>
    32768 ≤ (machine.operandValue 1).toNat ∧
      cause = .operand (machine.pc + 2) (machine.operandValue 1) (.plain .outsideMemory)
  | .wmem =>
    32768 ≤ (machine.operandValue 0).toNat ∧
      cause = .operand (machine.pc + 1) (machine.operandValue 0) (.plain .outsideMemory)
  | .output => machine.ConsoleFails (Console.writeByte (machine.operandValue 0).toUInt8) cause
  | .input => machine.ConsoleFails Console.readByte cause
  | _ => False

theorem perform_refused {machine : Machine} {opcode : Opcode} (decoded : Decodes machine opcode)
    (disabled : ¬ machine.Enables opcode) :
    ∃ cause left, perform opcode (machine.begun opcode) = .error cause left ∧
      machine.Refuses cause opcode := by
  have supplied := decodes_supplies decoded
  cases opcode with
  | pop =>
    have empty : machine.stack.isEmpty = true := by simpa [Enables] using disabled
    have entries : machine.stack.entries = [] := by simpa [Stack.isEmpty] using empty
    exact ⟨_,_,popRegister_empty supplied entries,empty,rfl⟩
  | ret =>
    have empty : machine.stack.isEmpty = true := by simpa [Enables] using disabled
    have entries : machine.stack.entries = [] := by simpa [Stack.isEmpty] using empty
    have refused : popWord (machine.begun .ret) = .error (.plain .stackEmpty) (machine.begun .ret) :=
      popWord_none entries
    exact ⟨_,_,bind_of_error refused,empty,rfl⟩
  | mod =>
    have zero : machine.operandValue 2 = 0 := by simpa [Enables] using disabled
    exact ⟨_,_,(remainder_run supplied).trans (if_pos zero),zero,rfl⟩
  | rmem =>
    refine ⟨_,_,readMemory_beyond supplied disabled,Nat.le_of_not_lt disabled,?_⟩
    change Error.operand (machine.pc + 1 + 1) _ _ = _
    rw [UInt16.add_assoc]
    rfl
  | wmem =>
    exact ⟨_,_,writeMemory_beyond supplied disabled,Nat.le_of_not_lt disabled,rfl⟩
  | output =>
    have unused := Option.not_isSome_iff_eq_none.mp disabled
    exact writeOutput_fails supplied unused
  | input =>
    have unused : (machine.begun .input).consoleUse? Console.readByte = none :=
      Option.not_isSome_iff_eq_none.mp disabled
    exact readInput_fails unused
  | halt | set | push | eq | gt | jmp | jt | jf | add | mult | and | or | not | call | noop =>
    exact absurd trivial disabled

theorem nonempty_entries {stack : Stack} (nonempty : stack.isEmpty = false) :
    ∃ top rest, stack.entries = top :: rest := by
  cases entries : stack.entries with
  | nil => simp [Stack.isEmpty,entries] at nonempty
  | cons top rest => exact ⟨top,rest,rfl⟩

theorem perform_enabled {machine : Machine} {opcode : Opcode} (decoded : Decodes machine opcode)
    (running : opcode ≠ .halt) (enabled : machine.Enables opcode) :
    ∃ final, perform opcode (machine.begun opcode) = .ok () final ∧
      { final with probe := machine.probe } = machine.after opcode := by
  have supplied := decodes_supplies decoded
  cases opcode with
  | halt => exact absurd rfl running
  | noop =>
    refine ⟨machine.begun .noop,rfl,?_⟩
    simp [after,Opcode.width,Opcode.operands]
  | set =>
    refine ⟨_,unary_run id supplied,?_⟩
    simp [after,operationResult,operandValue,Opcode.operands]
  | not =>
    refine ⟨_,unary_run Word.complement supplied,?_⟩
    simp [after,operationResult,operandValue,Opcode.operands,Word.complement_eq]
  | eq =>
    refine ⟨_,binary_run (fun b c => Word.ofBool (b == c)) supplied,?_⟩
    simp [after,operationResult,operandValue,Opcode.operands,Word.ofBool_beq]
    -- The two sides differ only in how the condition is decided.
    rfl
  | gt =>
    refine ⟨_,binary_run (fun b c => Word.ofBool (b > c)) supplied,?_⟩
    simp only [Word.ofBool_gt]
    simp [after,operationResult,operandValue,Opcode.operands]
    rfl
  | add =>
    refine ⟨_,binary_run Word.add supplied,?_⟩
    simp [after,operationResult,operandValue,Opcode.operands,Word.add_eq]
  | mult =>
    refine ⟨_,binary_run Word.multiply supplied,?_⟩
    simp [after,operationResult,operandValue,Opcode.operands,Word.multiply_eq]
  | and =>
    refine ⟨_,binary_run (· &&& ·) supplied,?_⟩
    simp [after,operationResult,operandValue,Opcode.operands]
  | or =>
    refine ⟨_,binary_run (· ||| ·) supplied,?_⟩
    simp [after,operationResult,operandValue,Opcode.operands]
  | mod =>
    have divides : valueIn (machine.begun .mod).registers (machine.operandWord 2) ≠ 0 := enabled
    refine ⟨_,(remainder_run supplied).trans (if_neg divides),?_⟩
    simp [after,operationResult,operandValue,Opcode.operands,Word.remainder_eq]
  | rmem =>
    refine ⟨_,readMemory_run supplied enabled,?_⟩
    have inside : (valueIn machine.registers (machine.operandWord 1)).toNat < memorySize := enabled
    simp [after,operationResult,operandValue,Opcode.operands,inside]
  | wmem =>
    refine ⟨_,writeMemory_run supplied enabled,?_⟩
    have inside : (valueIn machine.registers (machine.operandWord 0)).toNat < memorySize := enabled
    simp [after,operandValue,Opcode.operands,setIfInBounds_inside _ _ inside]
  | push =>
    refine ⟨_,pushValue_run supplied,?_⟩
    simp [after,operandValue,Opcode.operands]
  | jmp =>
    refine ⟨_,jumpValue_run supplied,?_⟩
    simp [after,operandValue]
  | jt =>
    by_cases zero : valueIn machine.registers (machine.operandWord 0) = 0
    · refine ⟨_,branch_passed supplied (by simp [zero]),?_⟩
      simp [after,operandValue,Opcode.operands,zero]
    · refine ⟨_,branch_taken supplied (by simp [zero]),?_⟩
      simp [after,operandValue,zero]
  | jf =>
    by_cases zero : valueIn machine.registers (machine.operandWord 0) = 0
    · refine ⟨_,branch_taken supplied (by simp [zero]),?_⟩
      simp [after,operandValue,zero]
    · refine ⟨_,branch_passed supplied (by simp [zero]),?_⟩
      simp [after,operandValue,Opcode.operands,zero]
  | call =>
    refine ⟨_,callAddress_run supplied,?_⟩
    simp [after,operandValue,UInt16.add_assoc]
  | pop =>
    obtain ⟨top,rest,entries⟩ := nonempty_entries enabled
    refine ⟨_,popRegister_run supplied entries,?_⟩
    simp [after,Opcode.operands,Stack.peek?,entries]
  | ret =>
    obtain ⟨top,rest,entries⟩ := nonempty_entries enabled
    refine ⟨_,returnAddress_run entries,?_⟩
    simp [after,Stack.peek?,entries]
  | output =>
    obtain ⟨⟨⟨⟩,console⟩,used⟩ := Option.isSome_iff_exists.mp enabled
    refine ⟨_,writeOutput_run supplied used,?_⟩
    simp [after,Opcode.operands,used]
  | input =>
    obtain ⟨⟨byte,console⟩,used⟩ := Option.isSome_iff_exists.mp enabled
    refine ⟨_,readInput_of_use supplied used,?_⟩
    by_cases literal : (machine.operandWord 0).toNat < 32768
    · simp [after,Opcode.operands,used,literal]
    · simp [after,Opcode.operands,used,literal]

theorem tick_fetched {machine : Machine} {opcode : Opcode}
    (there : machine.memory[machine.pc.toNat]? = some opcode.word) :
    tick machine =
      match perform opcode (machine.begun opcode) with
      | .ok () final => .ok () final
      | .error error left =>
        if error = .plain .halted then .error error left
        else .error (.execute machine.pc opcode.number error) left := by
  unfold tick
  rw [get_bind,bind_of_ok (fetch_inside there),Opcode.ofWord?_word]
  rfl

theorem tick_success {machine final : Machine} (ok : tick machine = .ok () final) :
    ∃ opcode, machine.memory[machine.pc.toNat]? = some opcode.word ∧
      perform opcode (machine.begun opcode) = .ok () final := by
  have run := ok
  unfold tick at ok
  rw [get_bind] at ok
  obtain ⟨raw,fetched,found,ok⟩ := bind_success ok
  obtain ⟨there,rfl⟩ := fetch_success found
  cases decoded : Opcode.ofWord? raw with
  | none => rw [decoded] at ok; cases ok
  | some opcode =>
    rw [Opcode.ofWord?_eq_some decoded] at there
    refine ⟨opcode,there,?_⟩
    rw [tick_fetched there] at run
    cases performed : perform opcode (machine.begun opcode) with
    | ok _ left => rw [performed] at run; exact run
    | error error left =>
      simp only [performed] at run
      split at run <;> cases run

theorem tick_performed {machine final : Machine} {opcode : Opcode}
    (there : machine.memory[machine.pc.toNat]? = some opcode.word)
    (performed : perform opcode (machine.begun opcode) = .ok () final) :
    tick machine = .ok () final := by
  rw [tick_fetched there,performed]

theorem tick_executable {machine final : Machine} (ok : tick machine = .ok () final) :
    ∃ opcode, Executable machine opcode := by
  obtain ⟨opcode,there,performed⟩ := tick_success ok
  obtain ⟨raws,supplied⟩ := perform_supplied performed
  have decoded := supplies_decodes there supplied
  refine ⟨opcode,decoded,opcode.numbered_iff.mpr ?_,?_⟩
  · rintro rfl
    cases performed
  · apply Classical.byContradiction
    intro disabled
    obtain ⟨cause,left,refused,-⟩ := perform_refused decoded disabled
    rw [performed] at refused
    cases refused

theorem executable_tick {machine : Machine} {opcode : Opcode}
    (executable : Executable machine opcode) :
    ∃ final, tick machine = .ok () final ∧
      { final with probe := machine.probe } = machine.after opcode := by
  have running := opcode.numbered_iff.mp executable.numbered
  obtain ⟨final,performed,effect⟩ :=
    perform_enabled executable.toDecodes running executable.enabled
  exact ⟨final,tick_performed executable.fetched performed,effect⟩

theorem tick_failure {machine final : Machine} {opcode : Opcode} {error : Error}
    (decoded : Decodes machine opcode) (failed : tick machine = .error error final) :
    error = .plain .halted ∨
      ∃ cause, error = .execute machine.pc opcode.number cause ∧ machine.Refuses cause opcode := by
  by_cases running : opcode = .halt
  · subst running
    rw [tick_fetched decoded.fetched] at failed
    cases failed
    exact .inl rfl
  by_cases enabled : machine.Enables opcode
  · obtain ⟨left,performed,-⟩ := perform_enabled decoded running enabled
    rw [tick_performed decoded.fetched performed] at failed
    cases failed
  · obtain ⟨cause,left,refused,reason⟩ := perform_refused decoded enabled
    rw [tick_fetched decoded.fetched,refused] at failed
    by_cases halted : cause = .plain .halted
    · simp only [halted,if_true] at failed
      cases failed
      exact .inl rfl
    · simp only [halted,if_false] at failed
      cases failed
      exact .inr ⟨cause,rfl,reason⟩

theorem after_registers (machine : Machine) (opcode : Opcode) :
    (machine.after opcode).registers = machine.registers ∨
      ∃ index value, (machine.after opcode).registers =
        machine.registers.setIfInBounds index value := by
  cases opcode with
  | halt | noop | push | jmp | wmem | call | ret | output => exact .inl rfl
  | jt | jf => simp only [after]; split <;> exact .inl rfl
  | input =>
    simp only [after]
    split
    · exact .inl rfl
    · exact .inr ⟨_,_,(setIfInBounds_inside _ _ (Fin.isLt _)).symm⟩
  | pop | set | eq | gt | add | mult | mod | and | or | not | rmem =>
    exact .inr ⟨_,_,(setIfInBounds_inside _ _ (Fin.isLt _)).symm⟩

theorem after_memory (machine : Machine) (opcode : Opcode) :
    (machine.after opcode).memory = machine.memory ∨
      ∃ addr value, (machine.after opcode).memory = machine.memory.setIfInBounds addr value := by
  cases opcode with
  | jt | jf => simp only [after]; split <;> exact .inl rfl
  | input =>
    simp only [after]
    split
    · exact .inr ⟨_,_,rfl⟩
    · exact .inl rfl
  | wmem => exact .inr ⟨_,_,rfl⟩
  | halt | noop | push | jmp | call | ret | output | pop | set | eq | gt | add | mult | mod
  | and | or | not | rmem => exact .inl rfl

theorem after_stack {machine : Machine} {opcode : Opcode} (enabled : machine.Enables opcode) :
    (machine.after opcode).stack = machine.stack ∨
      (∃ word, (machine.after opcode).stack = machine.stack.push word) ∨
      ∃ word, machine.stack = (machine.after opcode).stack.push word := by
  cases opcode with
  | push | call => exact .inr (.inl ⟨_,rfl⟩)
  | pop | ret =>
    obtain ⟨top,rest,entries⟩ := nonempty_entries enabled
    refine .inr (.inr ⟨top,?_⟩)
    simp only [after,entries,List.tail_cons,Stack.push]
    rw [← entries]
  | jt | jf | input => simp only [after]; split <;> exact .inl rfl
  | halt | noop | jmp | wmem | output | set | eq | gt | add | mult | mod | and | or | not | rmem =>
    exact .inl rfl

theorem after_fewChanges {machine : Machine} {opcode : Opcode} (enabled : machine.Enables opcode) :
    FewChanges machine (machine.after opcode) where
  register := by
    rcases after_registers machine opcode with same | ⟨index,value,written⟩
    · exact ⟨0,fun other _ => by rw [same]⟩
    · refine ⟨index,?_⟩
      intro other different
      rw [written,Vector.getElem?_setIfInBounds_ne different.symm]
  cell := by
    rcases after_memory machine opcode with same | ⟨addr,value,written⟩
    · exact ⟨0,fun other _ => by rw [same]⟩
    · refine ⟨addr,?_⟩
      intro other different
      rw [written,Vector.getElem?_setIfInBounds_ne different.symm]
  slot := after_stack enabled

/-- One instruction of the machine is one step of the reference interpreter. It succeeds
exactly when the instruction at the program counter is executable; all but what was
observed is then as the reference says, and little of it has changed. -/
theorem tick_refines_reference (machine : Machine) :
    ((∃ final, tick machine = .ok () final) ↔ ∃ opcode, Executable machine opcode) ∧
    ∀ opcode final, Executable machine opcode → tick machine = .ok () final →
      { final with probe := machine.probe } = machine.after opcode ∧
        FewChanges machine final := by
  refine ⟨⟨fun ⟨_,ok⟩ => tick_executable ok,fun ⟨_,executable⟩ => ?_⟩,?_⟩
  · obtain ⟨final,ok,-⟩ := executable_tick executable
    exact ⟨final,ok⟩
  · intro opcode final executable ok
    obtain ⟨reached,same,effect⟩ := executable_tick executable
    rw [ok] at same
    cases same
    have few := after_fewChanges executable.enabled
    rw [← effect] at few
    exact ⟨effect,few.register,few.cell,few.slot⟩

/-- A call through a register in the last two words of memory. The register holds a word
beyond all addresses. -/
def callAtTop : Machine :=
  { pc := 32766
    registers := (Vector.replicate registerCount 0).set 0 65535
    memory := ((Vector.replicate memorySize 0).set 32766 17).set 32767 32768 }

theorem callAtTop_fetched : callAtTop.memory[callAtTop.pc.toNat]? = some Opcode.call.word := by
  change callAtTop.memory[32766]? = some 17
  simp only [callAtTop]
  rw [Vector.getElem?_set_ne _ (by decide),Vector.getElem?_set_self]

theorem callAtTop_operand : callAtTop.operandWord 0 = 32768 := by
  change (callAtTop.memory[32767]?).getD 0 = 32768
  simp only [callAtTop]
  rw [Vector.getElem?_set_self]
  rfl

theorem callAtTop_executable : Executable callAtTop .call where
  fetched := callAtTop_fetched
  inside := by decide
  admitted := by
    intro index kind listed
    cases index with
    | zero => cases listed; rw [callAtTop_operand]; decide
    | succ index => simp [Opcode.operands] at listed
  numbered := by decide
  enabled := trivial

theorem tick_refines_reference_callAtTop : ∃ final, tick callAtTop = .ok () final ∧
    final.pc = 65535 ∧ final.stack = ⟨[32768]⟩ ∧ final.ticks = 1 ∧ FewChanges callAtTop final := by
  obtain ⟨final,ok⟩ := (tick_refines_reference callAtTop).1.mpr ⟨.call,callAtTop_executable⟩
  obtain ⟨effect,few⟩ := (tick_refines_reference callAtTop).2 .call final callAtTop_executable ok
  have jumped : (callAtTop.after .call).pc = 65535 := by
    simp only [after,operandValue,callAtTop_operand]
    rw [valueIn,if_neg (by decide)]
    decide +kernel
  refine ⟨final,ok,?_,?_,?_,few⟩
  · exact (congrArg Machine.pc effect).trans jumped
  · exact congrArg Machine.stack effect
  · exact congrArg Machine.ticks effect

end Machine
end WordMachine
