import WordMachine.Proofs.Emulator.Comparison

/-! What a reset, a tick and the end of a run come to. A program that fits is loaded. Where
the words in front of it can be shown, the instruction at the program counter goes well, or
its failure ends the run with an outcome, or the failure is fatal and the run has none. What
comes after the ticks changes the console alone. -/
namespace WordMachine.Emulator

/-- What a reset leaves that cannot load its program: the machine as it was, but no outcome. -/
def revived (emulator : Emulator) : Emulator :=
  { emulator with
    outcome := .running
    machine := { emulator.machine with
      probe := { emulator.machine.probe with verbose := emulator.verbose } } }

section reset

variable {emulator : Emulator}

theorem reset_fits (fits : emulator.program.words.length ≤ memorySize) : ∃ machine,
    reset emulator = .ok () { emulator with outcome := .running, machine := machine } := by
  have loaded : ∃ machine, (observe emulator.verbose >>= fun _ =>
      Machine.load emulator.program.words) emulator.machine = .ok () machine := by
    unfold Machine.load
    rw [if_neg (Nat.not_lt_of_le fits)]
    exact ⟨_,rfl⟩
  obtain ⟨machine,ok⟩ := loaded
  exact ⟨machine,@onMachine_ok _ _ { emulator with outcome := .running } _ _ ok⟩

theorem reset_large (large : memorySize < emulator.program.words.length) :
    reset emulator = .error (.capacity emulator.program.words.length) emulator.revived := by
  have refused : (observe emulator.verbose >>= fun _ => Machine.load emulator.program.words)
      emulator.machine = .error (.capacity emulator.program.words.length)
        { emulator.machine with
          probe := { emulator.machine.probe with verbose := emulator.verbose } } := by
    unfold Machine.load
    rw [if_pos large]
    rfl
  exact @onMachine_error _ _ { emulator with outcome := .running } _ _ refused

end reset

/-- The emulator after the remark on a failed instruction. -/
def noted (error : Error) (emulator : Emulator) : Emulator :=
  { emulator with
    machine := stateAfter (remark (remarkOn emulator.verbose error emulator.machine)
      emulator.machine) }

theorem noted_probe (error : Error) (emulator : Emulator) : ∃ probe, emulator.noted error =
    { emulator with machine := { emulator.machine with probe := probe } } := by
  obtain ⟨probe,remarked⟩ :=
    remark_state (remarkOn emulator.verbose error emulator.machine) emulator.machine
  exact ⟨probe,by rw [noted,remarked,stateAfter]⟩

section settled

variable (addr : Word) {error : Error} (emulator : Emulator)

theorem settle_noted : settle addr error emulator =
    match Outcome.ofError? error with
    | some outcome => .ok true { emulator.noted error with outcome := outcome }
    | none => .error (.runtime addr (emulator.program.lineAt addr) error) (emulator.noted error) := by
  obtain ⟨probe,remarked⟩ :=
    remark_state (remarkOn emulator.verbose error emulator.machine) emulator.machine
  have same := congrArg stateAfter remarked
  unfold settle noted
  rw [get_bind,bind_of_ok (onMachine_ok remarked),same]
  cases Outcome.ofError? error with
  | none => rfl
  | some outcome => rfl

theorem settle_fatal (fatal : Outcome.ofError? error = none) : settle addr error emulator =
    .error (.runtime addr (emulator.program.lineAt addr) error) (emulator.noted error) := by
  rw [settle_noted,fatal]

end settled

/-- The end of the words that are to be shown wraps around, so that nothing can be shown. -/
def Unshown (pc : Word) (peekWords : Int64) : Prop :=
  0 < peekWords ∧ (Machine.peekRange pc peekWords).2 < (Machine.peekRange pc peekWords).1

theorem prepare_unshown (verbose : Bool) {peekWords : Int64} {machine : Machine}
    (unshown : Unshown machine.pc peekWords) : prepare verbose peekWords machine =
      .error (.sliceBounds (Machine.peekRange machine.pc peekWords).2.toInt)
        { machine with probe := { machine.probe with verbose := verbose } } := by
  have failed : Machine.peek peekWords
      { machine with probe := { machine.probe with verbose := verbose } } =
        .error (.sliceBounds (Machine.peekRange machine.pc peekWords).2.toInt)
          { machine with probe := { machine.probe with verbose := verbose } } := by
    unfold Machine.peek
    rw [get_bind]
    dsimp only
    rw [if_pos unshown.2]
    rfl
  unfold prepare
  rw [if_pos unshown.1]
  exact @bind_of_error _ _ _ _ _ (fun _ => (pure () : Machine.Step Unit)) _ _ _ failed

theorem prepare_shown (verbose : Bool) {peekWords : Int64} {machine : Machine}
    (shown : ¬ Unshown machine.pc peekWords) :
    ∃ probe, prepare verbose peekWords machine = .ok () { machine with probe := probe } := by
  unfold prepare
  by_cases asked : 0 < peekWords
  · have peeked : ∃ words probe, Machine.peek peekWords
        { machine with probe := { machine.probe with verbose := verbose } } =
          .ok words { machine with probe := probe } := by
      unfold Machine.peek
      rw [get_bind]
      dsimp only
      rw [if_neg fun wrapped => shown ⟨asked,wrapped⟩]
      exact ⟨_,_,rfl⟩
    obtain ⟨words,probe,ok⟩ := peeked
    rw [if_pos asked]
    exact ⟨probe,bind_of_ok ok⟩
  · rw [if_neg asked]
    exact ⟨_,rfl⟩

theorem tick_ended {emulator : Emulator} (ended : emulator.outcome ≠ .running) :
    tick emulator = .ok true emulator := by
  unfold tick
  rw [if_pos ended]

theorem tickUpTo_ended {emulator : Emulator} (ended : emulator.outcome ≠ .running) (limit : Nat) :
    tickUpTo (limit + 1) emulator = (1, .ok true, emulator) := by
  rw [tickUpTo,tickFrom,tick_ended ended]

section running

variable {emulator : Emulator} (running : emulator.outcome = .running) {ready machine : Machine}

include running

theorem tick_unprepared {error : Error}
    (failed : prepare emulator.verbose emulator.peekWords emulator.machine = .error error machine) :
    tick emulator = .error error { emulator with machine := machine } := by
  unfold tick tickAt
  rw [if_neg (not_not_intro running),onMachine_error failed]

theorem tick_ok {value : Unit}
    (prepared : prepare emulator.verbose emulator.peekWords emulator.machine = .ok () ready)
    (ran : Machine.tick ready = .ok value machine) :
    tick emulator = .ok false { emulator with machine := machine } := by
  have instruction := @onMachine_ok _ Machine.tick { emulator with machine := ready } _ _ ran
  unfold tick tickAt
  rw [if_neg (not_not_intro running),onMachine_ok prepared]
  dsimp only
  rw [instruction]

theorem tick_error {error : Error}
    (prepared : prepare emulator.verbose emulator.peekWords emulator.machine = .ok () ready)
    (ran : Machine.tick ready = .error error machine) :
    tick emulator = settle emulator.machine.pc error { emulator with machine := machine } := by
  have instruction := @onMachine_error _ Machine.tick { emulator with machine := ready } _ _ ran
  unfold tick tickAt
  rw [if_neg (not_not_intro running),onMachine_ok prepared]
  dsimp only
  rw [instruction]

end running

theorem ofError?_ne_running (error : Error) : Outcome.ofError? error ≠ some .running := by
  unfold Outcome.ofError?
  split <;> simp

/-- What the result of ticks says of the outcome: there is one if and only if they are done.
A failure is fatal, or something could not be shown. -/
inductive Ends : Except Error Bool → Emulator → Prop
  | further (emulator : Emulator) : Ends (.ok false) emulator
  | ended {emulator : Emulator} (ended : emulator.outcome ≠ .running) : Ends (.ok true) emulator
  | fatal (addr : Word) (line : Int) (cause : Error) {emulator : Emulator}
      (running : emulator.outcome = .running) : Ends (.error (.runtime addr line cause)) emulator
  | unshown (last : Int) {emulator : Emulator} (running : emulator.outcome = .running) :
      Ends (.error (.sliceBounds last)) emulator

theorem tick_ends (emulator : Emulator) :
    Ends (resultOf (tick emulator)) (stateAfter (tick emulator)) := by
  by_cases running : emulator.outcome = .running
  · by_cases shown : Unshown emulator.machine.pc emulator.peekWords
    · rw [tick_unprepared running (prepare_unshown emulator.verbose shown)]
      exact .unshown _ running
    · obtain ⟨probe,prepared⟩ := prepare_shown emulator.verbose shown
      cases ran : Machine.tick { emulator.machine with probe := probe } with
      | ok value machine =>
        rw [tick_ok running prepared ran]
        exact .further _
      | error error machine =>
        rw [tick_error running prepared ran,settle_noted]
        cases ended : Outcome.ofError? error with
        | none => exact .fatal _ _ _ running
        | some outcome =>
          refine .ended ?_
          rintro rfl
          exact ofError?_ne_running error ended
  · rw [tick_ended running]
    exact .ended running

theorem tickFrom_ends (calls limit : Nat) (emulator : Emulator) :
    Ends (tickFrom calls limit emulator).2.1 (tickFrom calls limit emulator).2.2 := by
  induction limit generalizing calls emulator with
  | zero => exact .further emulator
  | succ limit ih =>
    have first := tick_ends emulator
    rw [tickFrom]
    cases ticked : tick emulator with
    | error error next =>
      rw [ticked] at first
      exact first
    | ok done next =>
      rw [ticked] at first
      cases done with
      | true => exact first
      | false => exact ih (calls + 1) next

/-- Ticks that ended are the same with a higher limit. -/
theorem tickFrom_more {calls limit : Nat} {emulator : Emulator}
    (ended : (tickFrom calls limit emulator).2.1 ≠ .ok false) (more : Nat) :
    tickFrom calls (limit + more) emulator = tickFrom calls limit emulator := by
  induction limit generalizing calls emulator with
  | zero => exact absurd rfl ended
  | succ limit ih =>
    rw [Nat.add_right_comm,tickFrom,tickFrom]
    rw [tickFrom] at ended
    cases ticked : tick emulator with
    | error error next => rfl
    | ok done next =>
      rw [ticked] at ended
      cases done with
      | true => rfl
      | false => exact ih ended

/-- A failure of ticks leaves the emulator running. -/
theorem ends_error {error : Error} {emulator : Emulator} (ends : Ends (.error error) emulator) :
    emulator.outcome = .running := by
  cases ends with
  | fatal addr line cause running => exact running
  | unshown last running => exact running

theorem onMachine_after {α : Type} (step : Machine.Step α) (emulator : Emulator) :
    stateAfter (onMachine step emulator) =
      { emulator with machine := stateAfter (step emulator.machine) } := by
  cases ran : step emulator.machine with
  | ok value machine =>
    rw [onMachine_ok ran]
    rfl
  | error error machine =>
    rw [onMachine_error ran]
    rfl

theorem onConsole_after {α : Type} (action : Console.Use α) (machine : Machine) :
    stateAfter (Machine.onConsole action machine) =
      { machine with console := machine.console.map fun console => stateAfter (action console) } := by
  obtain ⟨pc,registers,memory,stack,attached,ticks,probe⟩ := machine
  cases attached with
  | none => rfl
  | some console =>
    unfold Machine.onConsole
    cases used : action console with
    | ok value left => simp [used,stateAfter]
    | error error left => simp [used,stateAfter]

theorem deliver_after (emulator : Emulator) :
    (deliver emulator).2 = emulator.mapConsole fun console => stateAfter (Console.flush console) := by
  have after : stateAfter (flush emulator) =
      emulator.mapConsole fun console => stateAfter (Console.flush console) := by
    rw [flush,onMachine_after,onConsole_after]
    rfl
  unfold deliver
  cases flushed : flush emulator with
  | ok value left => rwa [flushed] at after
  | error error left => rwa [flushed] at after

theorem conclude_after (held : Option Nat) (result : Except Error Bool) (emulator : Emulator) :
    (conclude held result emulator).2.2 = emulator.mapConsole fun console =>
      (stateAfter (Console.flush console)).release held := by
  have both : ((deliver emulator).2.mapConsole fun console => console.release held) =
      emulator.mapConsole fun console => (stateAfter (Console.flush console)).release held := by
    rw [deliver_after]
    simp [mapConsole,Function.comp_def]
  cases result with
  | ok done => exact both
  | error error => exact both

end WordMachine.Emulator
