import WordMachine.Proofs.Machine.Likeness
import WordMachine.Proofs.Machine.Range

/-! What an instruction does with the console. It passes one byte to it, or reads one byte
from it, or leaves it alone, and which of these it does is decided by the machine before
the instruction. -/
namespace WordMachine

namespace Machine

def spoken? (machine : Machine) : Option UInt8 :=
  if machine.memory[machine.pc.toNat]? = some Opcode.output.word ∧
      machine.failure? (.operand 0 .value) = none then
    some (machine.operandValue 0).toUInt8
  else none

def listens (machine : Machine) : Bool :=
  machine.memory[machine.pc.toNat]? = some Opcode.input.word

/-- What the next instruction makes of a console. -/
def converse (machine : Machine) (console : Console) : Console :=
  match machine.spoken? with
  | some byte => stateAfter (Console.writeByte byte console)
  | none => if machine.listens then stateAfter (Console.readByte console) else console

section converse

variable {machine : Machine}

theorem converse_spoken {byte : UInt8} (spoken : machine.spoken? = some byte) :
    machine.converse = fun console => stateAfter (Console.writeByte byte console) := by
  funext console
  unfold converse
  rw [spoken]

theorem converse_heard (there : machine.memory[machine.pc.toNat]? = some Opcode.input.word) :
    machine.converse = fun console => stateAfter (Console.readByte console) := by
  have unspoken : machine.spoken? = none := by
    apply if_neg
    intro holds
    have same := Opcode.word_injective (Option.some.inj (there.symm.trans holds.1))
    cases same
  funext console
  unfold converse
  rw [unspoken]
  exact if_pos (decide_eq_true there)

theorem converse_silent (unspoken : machine.spoken? = none)
    (unheard : machine.memory[machine.pc.toNat]? ≠ some Opcode.input.word) :
    machine.converse = id := by
  funext console
  unfold converse
  rw [unspoken]
  exact if_neg fun heard => unheard (of_decide_eq_true heard)

theorem unspoken_elsewhere
    (elsewhere : machine.memory[machine.pc.toNat]? ≠ some Opcode.output.word) :
    machine.spoken? = none := if_neg fun holds => elsewhere holds.1

end converse

theorem onConsole_console {α : Type} (action : Console.Use α) (machine : Machine) :
    (stateAfter (onConsole action machine)).console =
      machine.console.map fun console => stateAfter (action console) := by
  unfold onConsole
  cases attached : machine.console with
  | none => exact attached
  | some console =>
    dsimp only [Option.map_some]
    cases action console with
    | ok value left => rfl
    | error error left => rfl

/-- An action that ends alike whatever the consoles are leaves its own console alone. -/
theorem console_of_respects {α : Type} {action : Step α}
    (respects : ∀ attached, Respects (Kin attached fun _ _ => True) action) (machine : Machine) :
    (stateAfter (action machine)).console = machine.console := by
  have ended := respects (fun console _ => console = machine.console) machine machine
    ⟨rfl,rfl,rfl,rfl,rfl,rfl,trivial⟩
  generalize action machine = result at ended ⊢
  cases ended with
  | ok value related => exact related.console
  | error error related => exact related.console

theorem perform_silent {opcode : Opcode} (silent : opcode ≠ .output ∧ opcode ≠ .input)
    (machine : Machine) : (stateAfter (perform opcode machine)).console = machine.console :=
  console_of_respects (fun _ => perform_respects recorded_anything silent) machine

theorem readInput_console (machine : Machine) :
    (stateAfter (readInput machine)).console =
      machine.console.map fun console => stateAfter (Console.readByte console) := by
  rw [readInput_eq,← onConsole_console]
  cases read : onConsole Console.readByte machine with
  | error error left =>
    rw [bind_of_error read]
    rfl
  | ok byte left =>
    rw [bind_of_ok read]
    exact console_of_respects (fun _ => storeByte_respects recorded_anything byte) left

theorem writeOutput_console {machine : Machine}
    (there : machine.memory[machine.pc.toNat]? = some Opcode.output.word) :
    (stateAfter (writeOutput (machine.begun .output))).console =
      machine.console.map machine.converse := by
  have reached : (machine.begun .output).memory[(machine.begun .output).pc.toNat]? =
      machine.memory[machine.operandAddr 0]? := by
    rw [begun_memory,begun_pc_toNat there]
    rfl
  -- an operand that is not admitted fails before the console is used
  have refused : machine.failure? (.operand 0 .value) ≠ none →
      machine.console = machine.console.map machine.converse := by
    intro failing
    have unheard : machine.memory[machine.pc.toNat]? ≠ some Opcode.input.word := by
      rw [there]
      decide
    rw [converse_silent (if_neg fun holds => failing holds.2) unheard,Option.map_id,id]
  unfold writeOutput
  cases operand : machine.memory[machine.operandAddr 0]? with
  | none =>
    rw [bind_of_error (fetchValue_operand.outside _ (reached.trans operand))]
    exact refused (by simp [failure?,operand])
  | some raw =>
    by_cases admitted : OperandClass.value.admits raw
    · have value : valueIn machine.registers raw = machine.operandValue 0 := by
        have word : machine.operandWord 0 = raw := congrArg (Option.getD · 0) operand
        rw [operandValue,word]
      have spoken : machine.spoken? = some (machine.operandValue 0).toUInt8 :=
        if_pos ⟨there,by simp [failure?,operand,admitted]⟩
      rw [bind_of_ok (fetchValue_operand.admitted _ raw (reached.trans operand) admitted),
        onConsole_console,advance_console,begun_console,begun_registers,value,
        converse_spoken spoken]
    · rw [bind_of_error (fetchValue_operand.refused _ raw (reached.trans operand) admitted)]
      exact refused (by simp [failure?,operand,admitted])

theorem tick_performed_console {machine : Machine} {opcode : Opcode}
    (there : machine.memory[machine.pc.toNat]? = some opcode.word) :
    (stateAfter (tick machine)).console =
      (stateAfter (perform opcode (machine.begun opcode))).console := by
  rw [tick_fetched there]
  cases perform opcode (machine.begun opcode) with
  | ok value left => rfl
  | error error left =>
    dsimp only
    split
    · rfl
    · rfl

/-- A tick uses the console as the machine before it says, whether or not the tick fails. -/
theorem tick_console (machine : Machine) :
    (stateAfter (tick machine)).console = machine.console.map machine.converse := by
  -- where neither of the two operations stands that use the console, it is left alone
  have silent : (∀ opcode : Opcode, machine.memory[machine.pc.toNat]? = some opcode.word →
      opcode ≠ .output ∧ opcode ≠ .input) →
        machine.console.map machine.converse = machine.console := by
    intro other
    have unspoken := unspoken_elsewhere fun there => (other .output there).1 rfl
    rw [converse_silent unspoken fun there => (other .input there).2 rfl,Option.map_id,id]
  cases there : machine.memory[machine.pc.toNat]? with
  | none =>
    rw [tick_outside there,silent]
    · rfl
    · intro opcode same
      rw [there] at same
      cases same
  | some raw =>
    cases decoded : Opcode.ofWord? raw with
    | none =>
      rw [tick_undefined there decoded,silent]
      · rfl
      · intro opcode same
        rw [Option.some.inj (there.symm.trans same),Opcode.ofWord?_word] at decoded
        cases decoded
    | some opcode =>
      rw [Opcode.ofWord?_eq_some decoded] at there
      rw [tick_performed_console there]
      by_cases out : opcode = .output
      · subst out
        exact writeOutput_console there
      by_cases read : opcode = .input
      · subst read
        rw [converse_heard there]
        exact readInput_console _
      · rw [perform_silent ⟨out,read⟩,begun_console,silent]
        intro other same
        rw [← Opcode.word_injective (Option.some.inj (there.symm.trans same))]
        exact ⟨out,read⟩

end Machine
end WordMachine
