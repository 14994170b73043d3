import WordMachine.Machine.Operand
import WordMachine.Proofs.Result

/-! What fetching does: each of the four fetches as one equation in the word of
memory at the program counter, and the operand classes as ranges of that word. -/
namespace WordMachine

namespace Word

theorem isLiteral_iff (word : Word) : word.isLiteral = true ↔ word.toNat < 32768 := by
  simp only [isLiteral,max,decide_eq_true_eq,UInt16.le_iff_toNat_le]
  change word.toNat ≤ 32767 ↔ _
  omega

theorem isValid_iff (word : Word) : word.isValid = true ↔ word.toNat < 32776 := by
  simp only [isValid,decide_eq_true_eq,UInt16.lt_iff_toNat_lt]
  exact Iff.rfl

theorem register?_of_range {word : Word} (named : 32768 ≤ word.toNat ∧ word.toNat < 32776) :
    ∃ register, word.register? = some register ∧ register.val = word.toNat - 32768 := by
  refine ⟨⟨word.toNat - 32768,by omega⟩,?_,rfl⟩
  simp only [register?]
  rw [dif_pos named]

theorem register?_of_outside {word : Word} (unnamed : ¬ (32768 ≤ word.toNat ∧ word.toNat < 32776)) :
    word.register? = none := by
  simp only [register?]
  rw [dif_neg unnamed]

theorem register?_isSome_iff (word : Word) :
    word.register?.isSome = true ↔ 32768 ≤ word.toNat ∧ word.toNat < 32776 := by
  by_cases named : 32768 ≤ word.toNat ∧ word.toNat < 32776
  · obtain ⟨register,names,-⟩ := register?_of_range named
    simp [names,named]
  · simp [register?_of_outside named,named]

end Word

def OperandClass.admits : OperandClass → Word → Prop
  | .value, raw => raw.toNat < 32776
  | .register, raw => 32768 ≤ raw.toNat ∧ raw.toNat ≤ 32775
  | .target, raw => raw.toNat < 32776

instance (kind : OperandClass) (raw : Word) : Decidable (kind.admits raw) :=
  match kind with
  | .value | .target => inferInstanceAs (Decidable (raw.toNat < 32776))
  | .register => inferInstanceAs (Decidable (32768 ≤ raw.toNat ∧ raw.toNat ≤ 32775))

namespace Machine

/-- The value of an operand word: a literal is its own value, and a register's name
stands for the register's content. -/
def valueIn (registers : Registers) (raw : Word) : Word :=
  if raw.toNat < 32768 then raw else (registers[raw.toNat - 32768]?).getD 0

theorem valueIn_literal (registers : Registers) {raw : Word} (literal : raw.toNat < 32768) :
    valueIn registers raw = raw := if_pos literal

theorem padded_size (words : List Word) :
    ((words ++ List.replicate memorySize 0).take memorySize).toArray.size = memorySize := by
  rw [List.size_toArray,List.length_take,List.length_append,List.length_replicate]
  omega

/-- Memory that starts with some words and is zero beyond them. -/
def padded (words : List Word) : Memory :=
  ⟨((words ++ List.replicate memorySize 0).take memorySize).toArray,padded_size words⟩

def advance (machine : Machine) (raw : Word) : Machine :=
  { machine with
    pc := machine.pc + 1
    probe := machine.probe.trace (.fetched machine.pc raw) }

section advance

variable (machine : Machine) (raw : Word)

@[simp] theorem advance_pc : (machine.advance raw).pc = machine.pc + 1 := rfl
@[simp] theorem advance_registers : (machine.advance raw).registers = machine.registers := rfl
@[simp] theorem advance_memory : (machine.advance raw).memory = machine.memory := rfl
@[simp] theorem advance_stack : (machine.advance raw).stack = machine.stack := rfl
@[simp] theorem advance_console : (machine.advance raw).console = machine.console := rfl

end advance

theorem fetch_inside {machine : Machine} {raw : Word}
    (there : machine.memory[machine.pc.toNat]? = some raw) :
    fetch machine = .ok raw (machine.advance raw) := by
  obtain ⟨inside,found⟩ := Vector.getElem?_eq_some_iff.mp there
  unfold fetch
  rw [get_bind,dif_pos inside,found]
  rfl

theorem fetch_outside {machine : Machine} (absent : machine.memory[machine.pc.toNat]? = none) :
    fetch machine = .error (.operand machine.pc 0 (.plain .outsideMemory)) machine := by
  have outside : ¬ machine.pc.toNat < memorySize := by
    intro inside
    rw [Vector.getElem?_eq_getElem inside] at absent
    cases absent
  unfold fetch
  rw [get_bind,dif_neg outside]
  rfl

theorem fetch_success {machine next : Machine} {raw : Word} (ok : fetch machine = .ok raw next) :
    machine.memory[machine.pc.toNat]? = some raw ∧ next = machine.advance raw := by
  cases found : machine.memory[machine.pc.toNat]? with
  | none => rw [fetch_outside found] at ok; cases ok
  | some word => rw [fetch_inside found] at ok; cases ok; exact ⟨rfl,rfl⟩

theorem fetchValue_inside {machine : Machine} {raw : Word}
    (there : machine.memory[machine.pc.toNat]? = some raw) (valid : raw.toNat < 32776) :
    fetchValue machine = .ok (valueIn machine.registers raw) (machine.advance raw) := by
  unfold fetchValue
  rw [get_bind,bind_of_ok (fetch_inside there)]
  by_cases literal : raw.toNat < 32768
  · rw [if_pos (raw.isLiteral_iff.mpr literal),valueIn_literal _ literal]
    rfl
  · have named : 32768 ≤ raw.toNat ∧ raw.toNat < 32776 := ⟨by omega,valid⟩
    obtain ⟨register,names,place⟩ := Word.register?_of_range named
    have present : register.val < registerCount := register.isLt
    rw [if_neg (by rwa [raw.isLiteral_iff]),names,valueIn,if_neg literal,← place,
      Vector.getElem?_eq_getElem present]
    rfl

theorem fetchValue_invalid {machine : Machine} {raw : Word}
    (there : machine.memory[machine.pc.toNat]? = some raw) (invalid : ¬ raw.toNat < 32776) :
    fetchValue machine =
      .error (.operand machine.pc raw (.plain .invalidInstruction)) (machine.advance raw) := by
  unfold fetchValue
  rw [get_bind,bind_of_ok (fetch_inside there),if_neg (by rw [raw.isLiteral_iff]; omega),
    Word.register?_of_outside (by omega)]
  rfl

theorem fetchValue_outside {machine : Machine}
    (absent : machine.memory[machine.pc.toNat]? = none) :
    fetchValue machine = .error (.operand machine.pc 0 (.plain .outsideMemory)) machine := by
  unfold fetchValue
  rw [get_bind,bind_of_error (fetch_outside absent)]

theorem fetchValue_success {machine next : Machine} {value : Word}
    (ok : fetchValue machine = .ok value next) :
    ∃ raw, machine.memory[machine.pc.toNat]? = some raw ∧ raw.toNat < 32776 ∧
      value = valueIn machine.registers raw ∧ next = machine.advance raw := by
  cases found : machine.memory[machine.pc.toNat]? with
  | none => rw [fetchValue_outside found] at ok; cases ok
  | some raw =>
    by_cases valid : raw.toNat < 32776
    · rw [fetchValue_inside found valid] at ok
      cases ok
      exact ⟨raw,rfl,valid,rfl,rfl⟩
    · rw [fetchValue_invalid found valid] at ok
      cases ok

/-- The register that a word names; words that name none share the first. -/
def registerOf (raw : Word) : Fin registerCount := raw.register?.getD 0

theorem fetchRegister_inside {machine : Machine} {raw : Word}
    (there : machine.memory[machine.pc.toNat]? = some raw)
    (named : 32768 ≤ raw.toNat ∧ raw.toNat ≤ 32775) :
    fetchRegister machine = .ok (registerOf raw) (machine.advance raw) := by
  obtain ⟨register,names,-⟩ := Word.register?_of_range ⟨named.1,Nat.lt_succ_of_le named.2⟩
  unfold fetchRegister registerOf
  rw [get_bind,bind_of_ok (fetch_inside there),names]
  rfl

theorem fetchRegister_unnamed {machine : Machine} {raw : Word}
    (there : machine.memory[machine.pc.toNat]? = some raw)
    (unnamed : ¬ (32768 ≤ raw.toNat ∧ raw.toNat ≤ 32775)) :
    fetchRegister machine =
      .error (.operand machine.pc raw (.plain .invalidRegister)) (machine.advance raw) := by
  unfold fetchRegister
  rw [get_bind,bind_of_ok (fetch_inside there),Word.register?_of_outside (by omega)]
  rfl

theorem fetchRegister_outside {machine : Machine}
    (absent : machine.memory[machine.pc.toNat]? = none) :
    fetchRegister machine = .error (.operand machine.pc 0 (.plain .outsideMemory)) machine := by
  unfold fetchRegister
  rw [get_bind,bind_of_error (fetch_outside absent)]

theorem fetchRegister_success {machine next : Machine} {register : Fin registerCount}
    (ok : fetchRegister machine = .ok register next) :
    ∃ raw, machine.memory[machine.pc.toNat]? = some raw ∧
      (32768 ≤ raw.toNat ∧ raw.toNat ≤ 32775) ∧
      register = registerOf raw ∧ next = machine.advance raw := by
  cases found : machine.memory[machine.pc.toNat]? with
  | none => rw [fetchRegister_outside found] at ok; cases ok
  | some raw =>
    by_cases named : 32768 ≤ raw.toNat ∧ raw.toNat ≤ 32775
    · rw [fetchRegister_inside found named] at ok
      cases ok
      exact ⟨raw,rfl,named,rfl,rfl⟩
    · rw [fetchRegister_unnamed found named] at ok
      cases ok

theorem fetchAddress_of_value {machine next : Machine} {value : Word}
    (fetched : fetchValue machine = .ok value next) (inside : value.toNat < memorySize) :
    fetchAddress machine = .ok ⟨value.toNat,inside⟩ next := by
  unfold fetchAddress
  rw [get_bind,bind_of_ok fetched,dif_pos inside]
  rfl

theorem fetchAddress_beyond {machine next : Machine} {value : Word}
    (fetched : fetchValue machine = .ok value next) (outside : ¬ value.toNat < memorySize) :
    fetchAddress machine = .error (.operand machine.pc value (.plain .outsideMemory)) next := by
  unfold fetchAddress
  rw [get_bind,bind_of_ok fetched,dif_neg outside]
  rfl

theorem fetchAddress_success {machine next : Machine} {addr : Fin memorySize}
    (ok : fetchAddress machine = .ok addr next) :
    ∃ value, fetchValue machine = .ok value next ∧ value.toNat = addr.val := by
  unfold fetchAddress at ok
  rw [get_bind] at ok
  obtain ⟨value,after,fetched,rest⟩ := bind_success ok
  by_cases inside : value.toNat < memorySize
  · rw [dif_pos inside] at rest
    cases rest
    exact ⟨value,fetched,rfl⟩
  · rw [dif_neg inside] at rest
    cases rest

end Machine
end WordMachine
