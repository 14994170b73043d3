import Mathlib.Data.List.Forall2
import WordMachine.Proofs.Machine.Refinement

/-! Loaded words and the way of the machine through them. A load puts words into memory from
the first cell on, and an operation that assigns a number to a register changes no other
register and goes on to the word after its own. -/
namespace WordMachine.Machine

def proceed : Nat → Step Unit
  | 0 => return
  | count + 1 => do
    tick
    proceed count

theorem proceed_tick {machine next : Machine} (ok : tick machine = .ok () next) (count : Nat) :
    proceed (count + 1) machine = proceed count next := bind_of_ok ok

/-- A machine that goes through loaded words: the place of the next one, and what the
registers hold. -/
structure Running (words : List Word) (place : Nat) (registers : Registers)
    (machine : Machine) : Prop where
  loaded : ∀ (index : Nat) (word : Word), words[index]? = some word →
    machine.memory[index]? = some word
  pc : machine.pc.toNat = place
  registers : machine.registers = registers

theorem fill_before {memory : Memory} {addr index : Nat} (words : List Word)
    (before : index < addr) : (fill memory addr words)[index]? = memory[index]? := by
  induction words generalizing memory addr with
  | nil => rfl
  | cons word words ih =>
    rw [fill,ih (Nat.lt_succ_of_lt before),
      Vector.getElem?_setIfInBounds_ne (Nat.ne_of_gt before)]

theorem fill_inside {memory : Memory} {addr index : Nat} {words : List Word} {word : Word}
    (stands : words[index]? = some word) (inside : addr + index < memorySize) :
    (fill memory addr words)[addr + index]? = some word := by
  induction words generalizing memory addr index with
  | nil => cases stands
  | cons first words ih =>
    cases index with
    | zero =>
      cases stands
      rw [Nat.add_zero] at inside ⊢
      rw [fill,fill_before words (Nat.lt_succ_self addr),Vector.getElem?_setIfInBounds_self,
        if_pos inside]
    | succ index =>
      have next : addr + (index + 1) = addr + 1 + index := by omega
      rw [next] at inside ⊢
      exact ih stands inside

theorem load_running {words : List Word} (fits : words.length ≤ memorySize) (machine : Machine) :
    ∃ loaded, load words machine = .ok () loaded ∧
      Running words 0 (Vector.replicate registerCount 0) loaded := by
  unfold load
  rw [if_neg (Nat.not_lt_of_le fits)]
  refine ⟨_,rfl,?_,rfl,rfl⟩
  intro index word stands
  have bound := (List.getElem?_eq_some_iff.mp stands).1
  have placed := @fill_inside (Vector.replicate memorySize 0) 0 index words word stands (by omega)
  rw [Nat.zero_add] at placed
  exact placed

section step

variable {words raws rest : List Word} {place : Nat} {registers : Registers} {machine : Machine}
  {opcode : Opcode} (running : Running words place registers machine)
  (listed : words.drop place = opcode.word :: raws ++ rest)
include running listed

theorem running_word {index : Nat} {raw : Word} (stands : (opcode.word :: raws)[index]? = some raw) :
    machine.memory[place + index]? = some raw := by
  apply running.loaded
  have bound := (List.getElem?_eq_some_iff.mp stands).1
  rw [← List.getElem?_drop,listed,List.getElem?_append_left bound,stands]

theorem running_operand {index : Nat} {raw : Word} (stands : raws[index]? = some raw) :
    machine.operandWord index = raw := by
  have found := running_word running listed
    (show (opcode.word :: raws)[index + 1]? = some raw from stands)
  rw [operandWord,running.pc,Nat.add_assoc,Nat.add_comm 1 index,found]
  rfl

theorem running_literal {index : Nat} {raw : Word} (stands : raws[index]? = some raw)
    (literal : raw.toNat < 32768) : machine.operandValue index = raw := by
  rw [operandValue,running_operand running listed stands,valueIn_literal _ literal]

variable (admitted : List.Forall₂ OperandClass.admits opcode.operands raws)
  (inside : place + opcode.width ≤ memorySize)
include admitted inside

theorem running_decodes : Decodes machine opcode where
  fetched := by
    rw [running.pc]
    exact @running_word _ _ _ _ _ _ _ running listed 0 opcode.word rfl
  inside := by
    rw [running.pc]
    exact inside
  admitted := by
    intro index kind kinds
    obtain ⟨bound,rfl⟩ := List.getElem?_eq_some_iff.mp kinds
    have bound' : index < raws.length := admitted.length_eq ▸ bound
    rw [running_operand running listed (List.getElem?_eq_getElem bound')]
    exact admitted.get bound bound'

/-- An operation that does no more than assign a number to a register goes on to the next. -/
theorem running_assigned {target : Word} {result : Nat}
    (assigns : opcode = .set ∨ opcode = .not ∨ opcode = .add ∨ opcode = .mult)
    (first : raws[0]? = some target)
    (computed : operationResult machine.memory opcode (machine.operandValue 1).toNat
      (machine.operandValue 2).toNat = result) :
    ∃ next, tick machine = .ok () next ∧ Running words (place + opcode.width)
      (registers.setIfInBounds (target.toNat - 32768) result.toUInt16) next := by
  have decoded := running_decodes running listed admitted inside
  have word := running_operand running listed first
  have executable : Executable machine opcode := by
    refine ⟨decoded,?_,?_⟩
    · rcases assigns with rfl | rfl | rfl | rfl <;> decide
    · rcases assigns with rfl | rfl | rfl | rfl <;> exact trivial
  have named : 32768 ≤ target.toNat ∧ target.toNat ≤ 32775 := by
    rw [← word]
    rcases assigns with rfl | rfl | rfl | rfl <;> exact decoded.admitted 0 .register rfl
  obtain ⟨next,ok,effect⟩ := executable_tick executable
  have after : machine.after opcode =
      { machine with
        pc := (machine.pc.toNat + opcode.width).toUInt16
        ticks := machine.ticks + 1
        registers := machine.registers.setIfInBounds (target.toNat - 32768) result.toUInt16 } := by
    rw [← registerOf_val named,setIfInBounds_inside _ _ (registerOf target).isLt,← computed,← word]
    rcases assigns with rfl | rfl | rfl | rfl <;> rfl
  rw [after,Machine.mk.injEq] at effect
  obtain ⟨pc,assigned,memory,_⟩ := effect
  refine ⟨next,ok,?_,?_,?_⟩
  · rw [memory]
    exact running.loaded
  · have bound : place + opcode.width < 65536 := Nat.lt_of_le_of_lt inside (by decide)
    rw [pc,running.pc,Nat.toUInt16_eq,UInt16.toNat_ofNat']
    exact Nat.mod_eq_of_lt bound
  · rw [assigned,running.registers]

end step

end WordMachine.Machine
