import WordMachine.Error

/-! Actions that change a state and may fail: how they are run one after another, and what
is left of a run, its state, its failure or its value. -/
namespace WordMachine

theorem bind_of_ok {ε σ α β : Type} {first : EStateM ε σ α} {next : α → EStateM ε σ β}
    {before after : σ} {value : α} (ok : first before = .ok value after) :
    (first >>= next) before = next value after := by
  change EStateM.bind first next before = _
  simp only [EStateM.bind,ok]

theorem bind_of_error {ε σ α β : Type} {first : EStateM ε σ α} {next : α → EStateM ε σ β}
    {before after : σ} {error : ε} (failed : first before = .error error after) :
    (first >>= next) before = .error error after := by
  change EStateM.bind first next before = _
  simp only [EStateM.bind,failed]

theorem bind_of_same {ε σ α β : Type} {first second : EStateM ε σ α} {before other : σ}
    (same : first before = second other) (next : α → EStateM ε σ β) :
    (first >>= next) before = (second >>= next) other := by
  change EStateM.bind first next before = EStateM.bind second next other
  simp only [EStateM.bind,same]

theorem get_bind {ε σ α : Type} (next : σ → EStateM ε σ α) (state : σ) :
    ((get : EStateM ε σ σ) >>= next) state = next state state := rfl

theorem bind_success {ε σ α β : Type} {first : EStateM ε σ α} {next : α → EStateM ε σ β}
    {before final : σ} {result : β} (ok : (first >>= next) before = .ok result final) :
    ∃ value after, first before = .ok value after ∧ next value after = .ok result final := by
  cases computed : first before with
  | ok value after => exact ⟨value,after,rfl,by rw [bind_of_ok computed] at ok; exact ok⟩
  | error error after => rw [bind_of_error computed] at ok; cases ok

/-- The state in which an action ends, whether or not it fails. -/
def stateAfter {ε σ α : Type} : EStateM.Result ε σ α → σ
  | .ok _ state => state
  | .error _ state => state

def failureOf {ε σ α : Type} : EStateM.Result ε σ α → Option ε
  | .ok _ _ => none
  | .error error _ => some error

def resultOf {ε σ α : Type} : EStateM.Result ε σ α → Except ε α
  | .ok value _ => .ok value
  | .error error _ => .error error

theorem ok_of_failureOf {ε σ α : Type} {result : EStateM.Result ε σ α}
    (sound : failureOf result = none) : ∃ value, result = .ok value (stateAfter result) := by
  cases result with
  | ok value state => exact ⟨value,rfl⟩
  | error error state => cases sound

theorem ok_of_run' {ε σ α : Type} {action : EStateM ε σ α} {state : σ} {value : α}
    (ran : action.run' state = some value) : action state = .ok value (stateAfter (action state)) := by
  unfold EStateM.run' EStateM.run at ran
  generalize action state = result at ran ⊢
  cases result with
  | ok value' next =>
    cases ran
    rfl
  | error error next => cases ran

end WordMachine
