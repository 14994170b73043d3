import WordMachine.Proofs.Emulator.Resumption

/-! Resets that cannot load their program. The machine is checked for room before it is
cleared, but the outcome is given up before that. A run that had ended goes on in the words
that were loaded earlier. -/
namespace WordMachine.Emulator

/-- Every tick observes the machine anew, so only the lost outcome tells in it. -/
theorem tick_revived (emulator : Emulator) :
    tick emulator.revived = tick { emulator with outcome := .running } := rfl

theorem tickUpTo_revived (emulator : Emulator) (limit : Nat) :
    tickUpTo (limit + 1) emulator.revived =
      tickUpTo (limit + 1) { emulator with outcome := .running } := by
  unfold tickUpTo
  rw [tickFrom,tickFrom,tick_revived]

/-- A reset that fails for want of room keeps the machine and clears the outcome, so that an
emulator is left as it was only if it was running. One that had ended and was done with every
tick goes on like one that had not. It executes nothing more if and only if no instruction
can be begun at its program counter. -/
theorem failed_reset_clears_outcome (emulator : Emulator)
    (large : memorySize < emulator.program.words.length) :
    reset emulator = .error (.capacity emulator.program.words.length) emulator.revived ∧
    (emulator.revived.outcome = emulator.outcome ↔ emulator.outcome = .running) ∧
    (∀ limit, tickUpTo (limit + 1) emulator.revived =
      tickUpTo (limit + 1) { emulator with outcome := .running }) ∧
    (emulator.outcome ≠ .running →
      ∀ limit, tickUpTo (limit + 1) emulator = (1, .ok true, emulator)) ∧
    (emulator.revived.Idle ↔ emulator.Blocked) ∧
    (¬ emulator.Blocked →
      (emulator.machine.atOperation = true →
        (stateAfter (tick emulator.revived)).machine.ticks = emulator.machine.ticks + 1) ∧
      (emulator.machine.atOperation = false →
        (stateAfter (tick emulator.revived)).machine.pc = emulator.machine.pc + 1)) := by
  have running : emulator.revived.outcome = .running := rfl
  refine ⟨reset_large large,eq_comm,tickUpTo_revived emulator,tickUpTo_ended,?_,?_⟩
  · exact ⟨blocked_of_idle running,idle_of_blocked running⟩
  · exact @tick_unblocked emulator.revived running

/-- A run that halted between two letters, with a program that is too large to be loaded. -/
def haltedBetween : Emulator :=
  { program := { words := List.replicate 32769 0 }
    outcome := .halt
    machine :=
      { memory := Machine.padded [19, 65, 0, 19, 66, 0]
        pc := 3
        ticks := 2
        console := some { output := some {} } } }

theorem failed_reset_clears_outcome_haltedBetween :
    memorySize < haltedBetween.program.words.length ∧
    tickUpTo 1 haltedBetween = (1, .ok true, haltedBetween) ∧
    reset haltedBetween = .error (.capacity 32769) haltedBetween.revived ∧
    ¬ haltedBetween.revived.Idle ∧
    (stateAfter (tick haltedBetween.revived)).machine.ticks = 3 ∧
    (stateAfter (tick haltedBetween.revived)).delivered = [66] := by
  have counted : haltedBetween.program.words.length = 32769 := List.length_replicate
  have large : memorySize < haltedBetween.program.words.length := by
    rw [counted]
    decide
  have unblocked : ¬ haltedBetween.Blocked := by
    unfold Blocked Unshown
    decide +kernel
  obtain ⟨failed,-,-,ended,idle,resumes⟩ := failed_reset_clears_outcome haltedBetween large
  rw [counted] at failed
  refine ⟨large,ended (by decide) 0,failed,mt idle.mp unblocked,?_,by decide +kernel⟩
  rw [(resumes unblocked).1 (by decide +kernel)]
  decide +kernel

end WordMachine.Emulator
