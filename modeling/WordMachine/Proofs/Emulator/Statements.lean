import WordMachine.Proofs.Emulator.Ticks

/-! Statements are no part of an execution. An emulator whose program has other statements
for the same words goes through the same states, and gives the same outcome or the same
failure; only the line that a fatal failure names may be another one. -/
namespace WordMachine

/-- A failure without the line that it names if it is fatal. -/
def Error.unlined : Error → Error
  | .runtime addr _ cause => .runtime addr 0 cause
  | error => error

namespace Emulator

def restate (statements : Array Statement) (emulator : Emulator) : Emulator :=
  { emulator with program := { emulator.program with statements := statements } }

/-- Results with other statements. Failures differ at most in the line that they name. -/
inductive Restated (statements : Array Statement) {α : Type} :
    EStateM.Result Error Emulator α → EStateM.Result Error Emulator α → Prop
  | ok (value : α) (emulator : Emulator) :
      Restated statements (.ok value emulator) (.ok value (emulator.restate statements))
  | error {error error' : Error} (emulator : Emulator) (same : error'.unlined = error.unlined) :
      Restated statements (.error error emulator) (.error error' (emulator.restate statements))

theorem restated_state {statements : Array Statement} {α : Type}
    {one other : EStateM.Result Error Emulator α} (restated : Restated statements one other) :
    stateAfter other = (stateAfter one).restate statements := by
  cases restated with
  | ok value emulator => rfl
  | error emulator same => rfl

section restated

variable (statements : Array Statement) (emulator : Emulator)

theorem onMachine_restated {α : Type} (step : Machine.Step α) :
    Restated statements (onMachine step emulator) (onMachine step (emulator.restate statements)) := by
  cases ran : step emulator.machine with
  | ok value machine =>
    rw [onMachine_ok ran,@onMachine_ok _ _ (emulator.restate statements) _ _ ran]
    exact .ok value { emulator with machine := machine }
  | error error machine =>
    rw [onMachine_error ran,@onMachine_error _ _ (emulator.restate statements) _ _ ran]
    exact .error { emulator with machine := machine } rfl

theorem reset_restated : stateAfter (reset (emulator.restate statements)) =
    (stateAfter (reset emulator)).restate statements := by
  have loaded := onMachine_restated statements { emulator with outcome := .running }
    (observe emulator.verbose >>= fun _ => Machine.load emulator.program.words)
  exact restated_state loaded

theorem tick_restated :
    Restated statements (tick emulator) (tick (emulator.restate statements)) := by
  by_cases running : emulator.outcome = .running
  · have running' : (emulator.restate statements).outcome = .running := running
    cases prepared : prepare emulator.verbose emulator.peekWords emulator.machine with
    | error error machine =>
      rw [tick_unprepared running prepared,tick_unprepared running' prepared]
      exact .error { emulator with machine := machine } rfl
    | ok value ready =>
      cases ran : Machine.tick ready with
      | ok value machine =>
        rw [tick_ok running prepared ran,tick_ok running' prepared ran]
        exact .ok false { emulator with machine := machine }
      | error error machine =>
        rw [tick_error running prepared ran,tick_error running' prepared ran,settle_noted,
          settle_noted]
        cases Outcome.ofError? error with
        | none => exact .error (noted error { emulator with machine := machine }) rfl
        | some outcome =>
          exact .ok true { noted error { emulator with machine := machine } with outcome := outcome }
  · have ended : (emulator.restate statements).outcome ≠ .running := running
    rw [tick_ended running,tick_ended ended]
    exact .ok true emulator

theorem tickFrom_restated (calls limit : Nat) :
    (tickFrom calls limit (emulator.restate statements)).2.1.mapError Error.unlined =
      (tickFrom calls limit emulator).2.1.mapError Error.unlined ∧
    (tickFrom calls limit (emulator.restate statements)).2.2 =
      (tickFrom calls limit emulator).2.2.restate statements := by
  induction limit generalizing calls emulator with
  | zero => exact ⟨rfl,rfl⟩
  | succ limit ih =>
    have first := tick_restated statements emulator
    rw [tickFrom,tickFrom]
    generalize tick emulator = one at first
    generalize tick (emulator.restate statements) = other at first
    cases first with
    | error next same => exact ⟨congrArg Except.error same,rfl⟩
    | ok done next =>
      cases done with
      | true => exact ⟨rfl,rfl⟩
      | false => exact ih next (calls + 1)

theorem deliver_restated :
    (deliver (emulator.restate statements)).1.map Error.unlined =
      (deliver emulator).1.map Error.unlined ∧
    (deliver (emulator.restate statements)).2 = (deliver emulator).2.restate statements := by
  have flushed := onMachine_restated statements emulator (Machine.onConsole Console.flush)
  unfold deliver flush
  generalize onMachine (Machine.onConsole Console.flush) emulator = one at flushed
  generalize onMachine (Machine.onConsole Console.flush) (emulator.restate statements) = other
    at flushed
  cases flushed with
  | ok value next => exact ⟨rfl,rfl⟩
  | error next same => exact ⟨congrArg some same,rfl⟩

theorem conclude_restated (held : Option Nat) {result result' : Except Error Bool}
    (same : result'.mapError Error.unlined = result.mapError Error.unlined) :
    (conclude held result' (emulator.restate statements)).1 = (conclude held result emulator).1 ∧
    (conclude held result' (emulator.restate statements)).2.1.map Error.unlined =
      (conclude held result emulator).2.1.map Error.unlined ∧
    (conclude held result' (emulator.restate statements)).2.2 =
      (conclude held result emulator).2.2.restate statements := by
  obtain ⟨failure,final⟩ := deliver_restated statements emulator
  cases result with
  | ok done =>
    cases result' with
    | error error' => cases same
    | ok done' =>
      unfold conclude
      dsimp only
      rw [final]
      exact ⟨rfl,failure,rfl⟩
  | error error =>
    cases result' with
    | ok done' => cases same
    | error error' =>
      unfold conclude
      dsimp only
      rw [final]
      exact ⟨rfl,congrArg some (Except.error.inj same),rfl⟩

/-- A run does not depend on the statements but for the line that a fatal failure names. -/
theorem run_restated (limit : Nat) :
    (run limit (emulator.restate statements)).1 = (run limit emulator).1 ∧
    (run limit (emulator.restate statements)).2.1.map Error.unlined =
      (run limit emulator).2.1.map Error.unlined ∧
    (run limit (emulator.restate statements)).2.2 =
      (run limit emulator).2.2.restate statements := by
  have asked := onMachine_restated statements emulator (Machine.onConsole Console.hold)
  unfold run hold
  generalize onMachine (Machine.onConsole Console.hold) emulator = one at asked
  generalize onMachine (Machine.onConsole Console.hold) (emulator.restate statements) = other
    at asked
  cases asked with
  | error next same => exact ⟨rfl,congrArg some same,rfl⟩
  | ok held next =>
    obtain ⟨result,final⟩ := tickFrom_restated statements next 0 limit
    dsimp only [tickUpTo]
    rw [final]
    exact conclude_restated statements _ held result

end restated

end Emulator
end WordMachine
