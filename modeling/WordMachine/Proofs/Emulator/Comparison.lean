import WordMachine.Emulator
import WordMachine.Proofs.Machine.Likeness

/-! Emulators driven by calls, and two of them side by side. If their consoles answer alike,
and neither the settings nor what is observed make a difference, then every sequence of
calls has the same answers and leads to related emulators. -/
namespace WordMachine.Emulator

/-- What can be asked of an emulator. A run is made of the others, so that its moments are
those of a sequence of calls. -/
inductive Call where
  | reset
  | tick
  | run (limit : Nat)
  | hold
  | flush
  | release (held : Option Nat)

inductive Answer where
  | loaded (result : Except Error Unit)
  | ticked (result : Except Error Bool)
  | ended (outcome : Outcome) (failure : Option Error)
  | held (result : Except Error (Option Nat))
  | flushed (failure : Option Error)
  | released

def answer : Call → Emulator → Answer × Emulator
  | .reset, emulator => (.loaded (resultOf (reset emulator)), stateAfter (reset emulator))
  | .tick, emulator => (.ticked (resultOf (tick emulator)), stateAfter (tick emulator))
  | .run limit, emulator =>
    let (outcome, failure, final) := run limit emulator
    (.ended outcome failure, final)
  | .hold, emulator => (.held (resultOf (hold emulator)), stateAfter (hold emulator))
  | .flush, emulator => (.flushed (deliver emulator).1, (deliver emulator).2)
  | .release held, emulator => (.released, emulator.mapConsole fun console => console.release held)

/-- The answers to a sequence of calls, and the emulator after them. -/
def drive : List Call → Emulator → List Answer × Emulator
  | [], emulator => ([], emulator)
  | call :: calls, emulator =>
    let (first, next) := answer call emulator
    let (rest, final) := drive calls next
    (first :: rest, final)

theorem discard_state {σ α : Type} (action : EStateM Error σ α) (state : σ) :
    stateAfter ((discard action : EStateM Error σ Unit) state) = stateAfter (action state) := by
  change stateAfter (EStateM.map _ action state) = _
  unfold EStateM.map
  cases action state with
  | ok value final => rfl
  | error error final => rfl

/-- What comes before an instruction only leaves a trace. -/
theorem prepare_state (verbose : Bool) (peekWords : Int64) (machine : Machine) :
    ∃ probe, stateAfter (prepare verbose peekWords machine) = { machine with probe := probe } := by
  have peeked : ∀ machine : Machine, ∃ probe,
      stateAfter (Machine.peek peekWords machine) = { machine with probe := probe } := by
    intro machine
    unfold Machine.peek
    rw [get_bind]
    dsimp only
    split
    · exact ⟨machine.probe,rfl⟩
    · exact ⟨_,rfl⟩
  unfold prepare
  split
  · obtain ⟨probe,shown⟩ :=
      peeked { machine with probe := { machine.probe with verbose := verbose } }
    exact ⟨probe,(discard_state _ _).trans shown⟩
  · exact ⟨_,rfl⟩

theorem remark_state (text : Option Text) (machine : Machine) :
    ∃ probe, remark text machine = .ok () { machine with probe := probe } := by
  cases text with
  | none => exact ⟨machine.probe,rfl⟩
  | some text => exact ⟨_,rfl⟩

theorem onMachine_ok {α : Type} {step : Machine.Step α} {emulator : Emulator} {value : α}
    {machine : Machine} (ran : step emulator.machine = .ok value machine) :
    onMachine step emulator = .ok value { emulator with machine := machine } := by
  unfold onMachine
  dsimp only
  rw [ran]

theorem onMachine_error {α : Type} {step : Machine.Step α} {emulator : Emulator} {error : Error}
    {machine : Machine} (ran : step emulator.machine = .error error machine) :
    onMachine step emulator = .error error { emulator with machine := machine } := by
  unfold onMachine
  dsimp only
  rw [ran]

theorem alike_answers {σ α : Type} {states : σ → σ → Prop}
    {result result' : EStateM.Result Error σ α} (ended : Alike states result result') :
    resultOf result = resultOf result' ∧ states (stateAfter result) (stateAfter result') := by
  cases ended with
  | ok value related => exact ⟨rfl,related⟩
  | error error related => exact ⟨rfl,related⟩

section akin

variable (consoles : Console → Console → Prop) (probes : Probe → Probe → Prop)
  (settings : Bool → Int64 → Bool → Int64 → Prop)

/-- Two emulators that differ at most in their settings, consoles and probes, which are
related. -/
structure Akin (left right : Emulator) : Prop where
  settings : settings left.verbose left.peekWords right.verbose right.peekWords
  program : right.program = left.program
  outcome : right.outcome = left.outcome
  machine : Machine.Kin (Option.Rel consoles) probes left.machine right.machine

/-- Relations that what is observed of an emulator keeps. -/
structure Observation : Prop where
  recorded : Machine.Recorded probes
  observed : ∀ {verbose peekWords verbose' peekWords'},
    settings verbose peekWords verbose' peekWords' →
      ∀ {left right}, Machine.Kin (Option.Rel consoles) probes left right →
        Alike (Machine.Kin (Option.Rel consoles) probes) (observe verbose left)
          (observe verbose' right)
  prepared : ∀ {verbose peekWords verbose' peekWords'},
    settings verbose peekWords verbose' peekWords' →
      ∀ {left right}, Machine.Kin (Option.Rel consoles) probes left right →
        Alike (Machine.Kin (Option.Rel consoles) probes) (prepare verbose peekWords left)
          (prepare verbose' peekWords' right)
  remarked : ∀ {verbose peekWords verbose' peekWords'},
    settings verbose peekWords verbose' peekWords' →
      ∀ {left right}, Machine.Kin (Option.Rel consoles) probes left right → ∀ error,
        Alike (Machine.Kin (Option.Rel consoles) probes)
          (remark (remarkOn verbose error left) left) (remark (remarkOn verbose' error right) right)

structure Comparison : Prop extends Observation consoles probes settings where
  reads : Respects consoles Console.readByte
  writes : ∀ byte, Respects consoles (Console.writeByte byte)
  flushes : Respects consoles Console.flush
  holds : Respects consoles Console.hold
  releases : ∀ held left right, consoles left right →
    consoles (left.release held) (right.release held)

/-- A read that the next instruction makes ends alike. -/
def ReadsAlike (left : Emulator) : Prop :=
  ∀ machine, prepare left.verbose left.peekWords left.machine = .ok () machine →
    machine.memory[machine.pc.toNat]? = some Opcode.input.word →
      ∀ one other, machine.console = some one → consoles one other →
        Alike consoles (Console.readByte one) (Console.readByte other)

variable {consoles probes settings} {left right : Emulator}

theorem onMachine_alike {α : Type} {step step' : Machine.Step α}
    (akin : Akin consoles probes settings left right)
    (ended : Alike (Machine.Kin (Option.Rel consoles) probes) (step left.machine)
      (step' right.machine)) :
    Alike (Akin consoles probes settings) (onMachine step left) (onMachine step' right) := by
  generalize ran : step left.machine = result at ended
  generalize ran' : step' right.machine = result' at ended
  cases ended with
  | ok value related =>
    rw [onMachine_ok ran,onMachine_ok ran']
    apply Alike.ok
    exact ⟨akin.settings,akin.program,akin.outcome,related⟩
  | error error related =>
    rw [onMachine_error ran,onMachine_error ran']
    apply Alike.error
    exact ⟨akin.settings,akin.program,akin.outcome,related⟩

section observation

variable (observation : Observation consoles probes settings)
include observation

theorem settle_respects (addr : Word) (error : Error) :
    Respects (Akin consoles probes settings) (settle addr error) := by
  intro left right akin
  unfold settle
  rw [get_bind,get_bind,akin.program]
  apply alike_bind (onMachine_alike akin (observation.remarked akin.settings akin.machine error))
  intro value left right akin
  cases Outcome.ofError? error with
  | none => exact .error _ akin
  | some outcome => exact .ok true ⟨akin.settings,akin.program,rfl,akin.machine⟩

variable (writes : ∀ byte, Respects consoles (Console.writeByte byte))
include writes

theorem tickAt_alike (addr : Word) (akin : Akin consoles probes settings left right)
    (reads : ReadsAlike consoles left) :
    Alike (Akin consoles probes settings) (tickAt addr left) (tickAt addr right) := by
  have prepared := observation.prepared akin.settings akin.machine
  unfold tickAt
  generalize ran : prepare left.verbose left.peekWords left.machine = result at prepared
  generalize ran' : prepare right.verbose right.peekWords right.machine = result' at prepared
  cases prepared with
  | error error related =>
    rw [onMachine_error ran,onMachine_error ran']
    exact .error error ⟨akin.settings,akin.program,akin.outcome,related⟩
  | @ok _ ready ready' related =>
    have akin' : Akin consoles probes settings { left with machine := ready }
        { right with machine := ready' } := ⟨akin.settings,akin.program,akin.outcome,related⟩
    have ended := onMachine_alike akin'
      (Machine.tick_alike observation.recorded related (reads _ ran) writes)
    rw [onMachine_ok ran,onMachine_ok ran']
    dsimp only
    generalize onMachine Machine.tick { left with machine := ready } = result at ended ⊢
    generalize onMachine Machine.tick { right with machine := ready' } = result' at ended ⊢
    cases ended with
    | ok value related => exact .ok false related
    | error error related => exact settle_respects observation _ _ _ _ related

/-- A tick ends alike, if a read that it makes does. -/
theorem tick_alike (akin : Akin consoles probes settings left right)
    (reads : left.outcome = .running → ReadsAlike consoles left) :
    Alike (Akin consoles probes settings) (tick left) (tick right) := by
  unfold tick
  rw [akin.outcome,akin.machine.pc]
  split
  · exact .ok true akin
  · next running =>
    exact tickAt_alike observation writes _ akin (reads (Classical.byContradiction running))

end observation

variable (comparison : Comparison consoles probes settings)
include comparison

theorem load_respects (words : List Word) :
    Respects (Machine.Kin (Option.Rel consoles) probes) (Machine.load words) := by
  intro left right kin
  unfold Machine.load
  split
  · exact .error _ kin
  · apply respects_modify _ _ _ kin
    intro left right kin
    refine ⟨rfl,rfl,rfl,rfl,rfl,kin.console,?_⟩
    exact comparison.recorded.log _ _ _ (comparison.recorded.log _ _ _ kin.probe)

theorem reset_respects : Respects (Akin consoles probes settings) reset := by
  intro left right akin
  unfold reset
  rw [get_bind,get_bind,get_bind,get_bind,akin.program]
  have cleared : Akin consoles probes settings { left with outcome := .running }
      { right with outcome := .running } := ⟨akin.settings,akin.program,rfl,akin.machine⟩
  apply onMachine_alike cleared
  exact alike_bind (comparison.observed akin.settings akin.machine) fun _ =>
    load_respects comparison _

theorem tick_respects : Respects (Akin consoles probes settings) tick :=
  fun _ _ akin => tick_alike comparison.toObservation comparison.writes akin
    fun _ _ _ _ one other _ related => comparison.reads one other related

theorem tickFrom_akin (calls limit : Nat) (akin : Akin consoles probes settings left right) :
    (tickFrom calls limit left).1 = (tickFrom calls limit right).1 ∧
    (tickFrom calls limit left).2.1 = (tickFrom calls limit right).2.1 ∧
      Akin consoles probes settings (tickFrom calls limit left).2.2
        (tickFrom calls limit right).2.2 := by
  induction limit generalizing calls left right with
  | zero => exact ⟨rfl,rfl,akin⟩
  | succ limit hypothesis =>
    have ended := tick_respects comparison left right akin
    unfold tickFrom
    generalize tick left = result at ended ⊢
    generalize tick right = result' at ended ⊢
    cases ended with
    | error error related => exact ⟨rfl,rfl,related⟩
    | ok done related =>
      cases done with
      | true => exact ⟨rfl,rfl,related⟩
      | false => exact hypothesis (calls + 1) related

theorem deliver_akin (akin : Akin consoles probes settings left right) :
    (deliver left).1 = (deliver right).1 ∧
      Akin consoles probes settings (deliver left).2 (deliver right).2 := by
  have ended := onMachine_alike akin
    (Machine.onConsole_respects comparison.flushes _ _ akin.machine)
  unfold deliver flush
  generalize onMachine _ left = result at ended ⊢
  generalize onMachine _ right = result' at ended ⊢
  cases ended with
  | ok value related => exact ⟨rfl,related⟩
  | error error related => exact ⟨rfl,related⟩

theorem release_akin (held : Option Nat) (akin : Akin consoles probes settings left right) :
    Akin consoles probes settings (left.mapConsole fun console => console.release held)
      (right.mapConsole fun console => console.release held) := by
  refine ⟨akin.settings,akin.program,akin.outcome,?_⟩
  have kin := akin.machine
  refine ⟨kin.pc,kin.registers,kin.memory,kin.stack,kin.ticks,?_,kin.probe⟩
  have attached := kin.console
  unfold mapConsole
  dsimp only
  generalize left.machine.console = one at attached ⊢
  generalize right.machine.console = other at attached ⊢
  cases attached with
  | none => exact .none
  | some related => exact .some (comparison.releases held _ _ related)

theorem conclude_akin (held : Option Nat) (result : Except Error Bool)
    (akin : Akin consoles probes settings left right) :
    (conclude held result left).1 = (conclude held result right).1 ∧
    (conclude held result left).2.1 = (conclude held result right).2.1 ∧
      Akin consoles probes settings (conclude held result left).2.2
        (conclude held result right).2.2 := by
  obtain ⟨same,delivered⟩ := deliver_akin comparison akin
  have released := release_akin comparison held delivered
  unfold conclude
  cases result with
  | ok done => exact ⟨released.outcome.symm,same,released⟩
  | error error => exact ⟨rfl,rfl,released⟩

theorem hold_respects : Respects (Akin consoles probes settings) hold :=
  fun _ _ akin => onMachine_alike akin
    (Machine.onConsole_respects comparison.holds _ _ akin.machine)

theorem run_akin (limit : Nat) (akin : Akin consoles probes settings left right) :
    (run limit left).1 = (run limit right).1 ∧ (run limit left).2.1 = (run limit right).2.1 ∧
      Akin consoles probes settings (run limit left).2.2 (run limit right).2.2 := by
  have ended := hold_respects comparison left right akin
  unfold run
  generalize hold left = result at ended ⊢
  generalize hold right = result' at ended ⊢
  cases ended with
  | error error related => exact ⟨rfl,rfl,related⟩
  | ok held related =>
    obtain ⟨_,same,ticked⟩ := tickFrom_akin comparison 0 limit related
    dsimp only [tickUpTo]
    rw [same]
    exact conclude_akin comparison held _ ticked

theorem answer_akin (call : Call) (akin : Akin consoles probes settings left right) :
    (answer call left).1 = (answer call right).1 ∧
      Akin consoles probes settings (answer call left).2 (answer call right).2 := by
  cases call with
  | reset =>
    obtain ⟨same,related⟩ := alike_answers (reset_respects comparison left right akin)
    exact ⟨congrArg Answer.loaded same,related⟩
  | tick =>
    obtain ⟨same,related⟩ := alike_answers (tick_respects comparison left right akin)
    exact ⟨congrArg Answer.ticked same,related⟩
  | run limit =>
    obtain ⟨outcome,failure,final⟩ := run_akin comparison limit akin
    unfold answer
    dsimp only
    rw [outcome,failure]
    exact ⟨rfl,final⟩
  | hold =>
    obtain ⟨same,related⟩ := alike_answers (hold_respects comparison left right akin)
    exact ⟨congrArg Answer.held same,related⟩
  | flush =>
    obtain ⟨same,related⟩ := deliver_akin comparison akin
    exact ⟨congrArg Answer.flushed same,related⟩
  | release held => exact ⟨rfl,release_akin comparison held akin⟩

theorem drive_akin (calls : List Call) (akin : Akin consoles probes settings left right) :
    (drive calls left).1 = (drive calls right).1 ∧
      Akin consoles probes settings (drive calls left).2 (drive calls right).2 := by
  induction calls generalizing left right with
  | nil => exact ⟨rfl,akin⟩
  | cons call calls hypothesis =>
    obtain ⟨same,next⟩ := answer_akin comparison call akin
    obtain ⟨rest,final⟩ := hypothesis next
    refine ⟨?_,final⟩
    unfold drive
    dsimp only
    rw [same,rest]

end akin

end WordMachine.Emulator
