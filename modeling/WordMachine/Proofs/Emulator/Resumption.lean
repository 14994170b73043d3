import WordMachine.Proofs.Console.Uses
import WordMachine.Proofs.Emulator.Diagnostics
import WordMachine.Proofs.Emulator.Exchange
import WordMachine.Proofs.Emulator.Ticks

/-! Calls after a fatal failure. A failed instruction is reported but not recorded: the
emulator is still running, and the next tick goes on behind the words that were fetched.
Only a program counter outside memory keeps every later call from executing anything. -/
namespace WordMachine

namespace Machine

theorem after_ticks (machine : Machine) (opcode : Opcode) :
    (machine.after opcode).ticks = machine.ticks + 1 := by
  cases opcode with
  | jt | jf | input => simp only [after]; split <;> rfl
  | _ => rfl

theorem tick_counted {machine : Machine} (counted : machine.atOperation = true) :
    (stateAfter (tick machine)).ticks = machine.ticks + 1 := by
  have ends := tick_ends machine
  cases ended : tick machine with
  | error error final =>
    rw [ended] at ends
    cases ends with
    | failed _ _ count diagnosed fetched within =>
      have ticks := fetched.ticks
      rw [counted] at ticks
      exact ticks
  | ok value final =>
    obtain ⟨opcode,executable⟩ := tick_executable ended
    obtain ⟨reached,same,effect⟩ := executable_tick executable
    rw [ended] at same
    cases same
    have ticks := congrArg Machine.ticks effect
    rw [after_ticks] at ticks
    exact ticks

theorem outside_iff (machine : Machine) :
    machine.memory[machine.pc.toNat]? = none ↔ memorySize ≤ machine.pc.toNat := by
  simp

/-- A word in memory that is no operation is passed over. -/
theorem tick_passed {machine : Machine} (inside : machine.pc.toNat < memorySize)
    (uncounted : machine.atOperation = false) :
    ∃ raw, tick machine = .error (.opcode machine.pc raw) (machine.advance raw) := by
  cases there : machine.memory[machine.pc.toNat]? with
  | none => exact absurd ((outside_iff machine).mp there) (Nat.not_le.mpr inside)
  | some raw =>
    refine ⟨raw,tick_undefined there ?_⟩
    simpa [atOperation,there] using uncounted

end Machine

namespace Emulator

def Call.drives : Call → Bool
  | .reset => true
  | .tick => true
  | .run limit => 0 < limit
  | _ => false

def Answer.failure? : Answer → Option Error
  | .loaded (.error error) => some error
  | .ticked (.error error) => some error
  | .ended _ failure => failure
  | _ => none

/-- What a run does with the console besides executing instructions. -/
def attend (console : Console) : Console :=
  match Console.hold console with
  | .ok held opened => (stateAfter (Console.flush opened)).release held
  | .error _ left => left

def Call.attends : Call → Console → Console
  | .run _ => attend
  | _ => id

/-- An emulator of which only the probe and the console were touched. -/
def touched (emulator : Emulator) (console : Option Console) (probe : Probe) : Emulator :=
  { emulator with machine := { emulator.machine with console := console, probe := probe } }

/-- A console whose use fails as a device does fails neither as a run nor as a peek. -/
theorem onConsole_ordinary {α : Type} {action : Console.Use α} {emulator left : Emulator}
    {error : Error} (fails : ∀ (console : Console) {error : Error} {left : Console},
      action console = .error error left → ∃ failure : Failure, error = failure.error)
    (failed : onMachine (Machine.onConsole action) emulator = .error error left) :
    (∀ addr line cause, error ≠ .runtime addr line cause) ∧ ∀ last, error ≠ .sliceBounds last := by
  unfold onMachine Machine.onConsole at failed
  cases attached : emulator.machine.console with
  | none =>
    simp only [attached] at failed
    cases failed
    exact ⟨nofun,nofun⟩
  | some console =>
    cases used : action console with
    | ok value after => simp [attached,used] at failed
    | error problem after =>
      simp only [attached,used] at failed
      cases failed
      obtain ⟨failure,rfl⟩ := fails console used
      cases failure <;> exact ⟨nofun,nofun⟩

/-- Nothing records a fatal failure: the emulator is running afterwards. -/
theorem fatal_running {call : Call} {emulator stopped : Emulator} {failure : Answer}
    {addr : Word} {line : Int} {cause : Error}
    (answered : answer call emulator = (failure, stopped))
    (fatal : failure.failure? = some (.runtime addr line cause)) : stopped.outcome = .running := by
  cases call with
  | reset =>
    by_cases fits : emulator.program.words.length ≤ memorySize
    · obtain ⟨machine,ok⟩ := reset_fits fits
      simp only [answer,ok] at answered
      cases answered
      cases fatal
    · simp only [answer,reset_large (Nat.lt_of_not_le fits)] at answered
      cases answered
      cases fatal
  | tick =>
    have ends := tick_ends emulator
    cases ticked : tick emulator with
    | ok done next =>
      simp only [answer,ticked] at answered
      cases answered
      cases fatal
    | error error next =>
      rw [ticked] at ends
      simp only [answer,ticked] at answered
      cases answered
      exact ends_error ends
  | run limit =>
    simp only [answer,run] at answered
    cases opened : hold emulator with
    | error error left =>
      simp only [opened] at answered
      cases answered
      cases fatal
      exact absurd rfl ((onConsole_ordinary Console.hold_fails opened).1 _ _ _)
    | ok held next =>
      simp only [opened] at answered
      cases ticked : (tickUpTo limit next).2.1 with
      | error error =>
        have ends : Ends (tickUpTo limit next).2.1 (tickUpTo limit next).2.2 :=
          tickFrom_ends 0 limit next
        rw [ticked] at ends
        have running := ends_error ends
        have after := conclude_after held (tickUpTo limit next).2.1 (tickUpTo limit next).2.2
        cases answered
        rw [after]
        exact running
      | ok done =>
        rw [ticked] at answered
        simp only [conclude] at answered
        cases answered
        -- only the delivery of output can have failed here
        have undelivered : (deliver (tickUpTo limit next).2.2).1 = some (.runtime addr line cause) :=
          fatal
        unfold deliver at undelivered
        cases flushed : flush (tickUpTo limit next).2.2 with
        | ok value left => simp [flushed] at undelivered
        | error error left =>
          simp only [flushed,Option.some.injEq] at undelivered
          exact absurd undelivered ((onConsole_ordinary Console.flush_fails flushed).1 _ _ _)
  | hold => cases answered; cases fatal
  | flush => cases answered; cases fatal
  | release held => cases answered; cases fatal

/-- No instruction can be begun: the words in front of it cannot be shown, or it is outside
memory. -/
def Blocked (emulator : Emulator) : Prop :=
  Unshown emulator.machine.pc emulator.peekWords ∨ memorySize ≤ emulator.machine.pc.toNat

/-- A tick that cannot begin fails and touches nothing but the probe. -/
theorem tick_blocked {emulator : Emulator} (running : emulator.outcome = .running)
    (blocked : emulator.Blocked) :
    ∃ error probe, tick emulator =
      .error error (emulator.touched emulator.machine.console probe) := by
  by_cases shown : Unshown emulator.machine.pc emulator.peekWords
  · exact ⟨_,_,tick_unprepared running (prepare_unshown emulator.verbose shown)⟩
  · obtain ⟨probe,prepared⟩ := prepare_shown emulator.verbose shown
    have absent := (Machine.outside_iff { emulator.machine with probe := probe }).mpr
      (blocked.resolve_left shown)
    obtain ⟨probe',noted⟩ := noted_probe (.operand emulator.machine.pc 0 (.plain .outsideMemory))
      { emulator with machine := { emulator.machine with probe := probe } }
    refine ⟨.runtime emulator.machine.pc (emulator.program.lineAt emulator.machine.pc)
      (.operand emulator.machine.pc 0 (.plain .outsideMemory)),probe',?_⟩
    rw [tick_error running prepared (Machine.tick_outside absent),settle_fatal _ _ rfl,noted]
    rfl

theorem run_blocked {emulator : Emulator} {limit : Nat} (running : emulator.outcome = .running)
    (blocked : emulator.Blocked) (begun : 0 < limit) :
    ∃ error probe, run limit emulator =
      (.running, some error, emulator.touched (emulator.machine.console.map attend) probe) := by
  obtain ⟨limit,rfl⟩ := Nat.exists_eq_succ_of_ne_zero (Nat.ne_of_gt begun)
  cases attached : emulator.machine.console with
  | none =>
    have refused : hold emulator = .error (.plain .consoleMissing) emulator := by
      refine @onMachine_error _ _ _ _ emulator.machine ?_
      unfold Machine.onConsole
      rw [attached]
    refine ⟨.plain .consoleMissing,emulator.machine.probe,?_⟩
    rw [run,refused,Option.map_none,touched,← attached]
  | some console =>
    cases asked : Console.hold console with
    | error error left =>
      refine ⟨error,emulator.machine.probe,?_⟩
      rw [run,hold_error attached asked,Option.map_some,attend,asked]
      rfl
    | ok held opened =>
      obtain ⟨error,probe,ticked⟩ := @tick_blocked
        { emulator with machine := { emulator.machine with console := some opened } }
        running blocked
      refine ⟨error,probe,?_⟩
      have after := conclude_after held (.error error) (emulator.touched (some opened) probe)
      simp only [run,hold_ok attached asked,tickUpTo,tickFrom,ticked]
      rw [Option.map_some,attend,asked]
      exact congrArg (fun final => (Outcome.running, some error, final)) after

/-- A driving call that cannot begin an instruction fails, and nothing is executed, unless it
loads the program again. -/
theorem answer_blocked {call : Call} {emulator : Emulator} (running : emulator.outcome = .running)
    (blocked : emulator.Blocked) (drives : call.drives = true)
    (unloaded : (answer call emulator).1 ≠ .loaded (.ok ())) :
    (answer call emulator).1.failure?.isSome = true ∧
      ∃ probe, (answer call emulator).2 =
        emulator.touched (emulator.machine.console.map call.attends) probe := by
  cases call with
  | reset =>
    by_cases fits : emulator.program.words.length ≤ memorySize
    · obtain ⟨machine,ok⟩ := reset_fits fits
      rw [answer,ok] at unloaded
      exact absurd rfl unloaded
    · rw [answer,reset_large (Nat.lt_of_not_le fits)]
      refine ⟨rfl,emulator.revived.machine.probe,?_⟩
      simp [stateAfter,Call.attends,touched,revived,running]
  | tick =>
    obtain ⟨error,probe,failed⟩ := tick_blocked running blocked
    rw [answer,failed]
    refine ⟨rfl,probe,?_⟩
    simp [stateAfter,Call.attends]
  | run limit =>
    obtain ⟨error,probe,failed⟩ := run_blocked running blocked (of_decide_eq_true drives)
    rw [answer,failed]
    exact ⟨rfl,probe,rfl⟩
  | hold => cases drives
  | flush => cases drives
  | release held => cases drives

/-- What a sequence of calls does with the console besides executing instructions. -/
def attendAll : List Call → Console → Console
  | [], console => console
  | call :: calls, console => attendAll calls (call.attends console)

/-- Driving calls execute nothing until a reset succeeds: each of them fails, and together
they leave all but the probe and what runs do with the console as it was. -/
def Idle (emulator : Emulator) : Prop :=
  ∀ later : List Call, (∀ call ∈ later, call.drives = true) →
    .loaded (.ok ()) ∉ (drive later emulator).1 →
    (∀ given ∈ (drive later emulator).1, given.failure?.isSome = true) ∧
      ∃ probe, (drive later emulator).2 =
        emulator.touched (emulator.machine.console.map (attendAll later)) probe

theorem idle_of_blocked {emulator : Emulator} (running : emulator.outcome = .running)
    (blocked : emulator.Blocked) : emulator.Idle := by
  intro later drives unloaded
  induction later generalizing emulator with
  | nil =>
    refine ⟨fun given member => absurd member List.not_mem_nil,emulator.machine.probe,?_⟩
    simp [drive,touched,attendAll]
  | cons call later ih =>
    simp only [drive,List.mem_cons,not_or] at unloaded
    obtain ⟨failed,probe,left⟩ := answer_blocked running blocked
      (drives call List.mem_cons_self) (Ne.symm unloaded.1)
    rw [left] at unloaded
    obtain ⟨all,probe',final⟩ := @ih
      (emulator.touched (emulator.machine.console.map call.attends) probe)
      running blocked (fun next member => drives next (List.mem_cons_of_mem _ member)) unloaded.2
    simp only [drive,left]
    refine ⟨List.forall_mem_cons.mpr ⟨failed,all⟩,probe',?_⟩
    rw [final]
    simp [touched,attendAll,Function.comp_def]

/-- What a tick does with the machine once it is ready. -/
theorem tick_machine {emulator : Emulator} {ready : Machine} (running : emulator.outcome = .running)
    (prepared : prepare emulator.verbose emulator.peekWords emulator.machine = .ok () ready) :
    ∃ probe, (stateAfter (tick emulator)).machine =
      { stateAfter (Machine.tick ready) with probe := probe } := by
  cases ran : Machine.tick ready with
  | ok value machine =>
    rw [tick_ok running prepared ran]
    exact ⟨machine.probe,rfl⟩
  | error error machine =>
    obtain ⟨probe,noted⟩ := noted_probe error { emulator with machine := machine }
    have same := congrArg Emulator.machine noted
    rw [tick_error running prepared ran,settle_noted]
    cases Outcome.ofError? error with
    | some outcome => exact ⟨probe,same⟩
    | none => exact ⟨probe,same⟩

/-- Where an instruction can be begun, a tick counts it, or passes over a word that is none. -/
theorem tick_unblocked {emulator : Emulator} (running : emulator.outcome = .running)
    (unblocked : ¬ emulator.Blocked) :
    (emulator.machine.atOperation = true →
      (stateAfter (tick emulator)).machine.ticks = emulator.machine.ticks + 1) ∧
    (emulator.machine.atOperation = false →
      (stateAfter (tick emulator)).machine.pc = emulator.machine.pc + 1) := by
  obtain ⟨shown,inside⟩ := not_or.mp unblocked
  obtain ⟨probe,prepared⟩ := prepare_shown emulator.verbose shown
  obtain ⟨probe',same⟩ := tick_machine running prepared
  rw [same]
  constructor
  · intro counted
    exact @Machine.tick_counted { emulator.machine with probe := probe } counted
  · intro uncounted
    obtain ⟨raw,passed⟩ := @Machine.tick_passed { emulator.machine with probe := probe }
      (Nat.not_le.mp inside) uncounted
    rw [passed]
    rfl

theorem blocked_of_idle {emulator : Emulator} (running : emulator.outcome = .running)
    (idle : emulator.Idle) : emulator.Blocked := by
  refine Classical.byContradiction fun unblocked => ?_
  obtain ⟨counts,passes⟩ := tick_unblocked running unblocked
  obtain ⟨failed,probe,left⟩ := idle [.tick] (by simp [Call.drives]) (by simp [drive,answer])
  change stateAfter (tick emulator) = _ at left
  rw [left] at counts passes
  cases counted : emulator.machine.atOperation with
  | true => exact absurd (counts counted) (Nat.ne_of_lt (Nat.lt_succ_self _))
  | false =>
    have moved : emulator.machine.pc = emulator.machine.pc + 1 := passes counted
    have apart : ∀ pc : Word, pc ≠ pc + 1 := by
      intro pc same
      have values := congrArg UInt16.toNat same
      rw [UInt16.toNat_add] at values
      have bound := pc.toNat_lt
      simp at values
      omega
    exact apart _ moved

/-- A fatal failure is not recorded. Afterwards the emulator is running, and calls execute
nothing until a reset succeeds if and only if no instruction can be begun where the failure
left the program counter. Elsewhere the next tick executes one, or passes over a word that
is none. -/
theorem fatal_failure_resumes {call : Call} {emulator stopped : Emulator} {failure : Answer}
    {addr : Word} {line : Int} {cause : Error}
    (answered : answer call emulator = (failure, stopped))
    (fatal : failure.failure? = some (.runtime addr line cause)) :
    stopped.outcome = .running ∧
    (stopped.Idle ↔ stopped.Blocked) ∧
    (¬ stopped.Blocked →
      (stopped.machine.atOperation = true →
        (stateAfter (tick stopped)).machine.ticks = stopped.machine.ticks + 1) ∧
      (stopped.machine.atOperation = false →
        (stateAfter (tick stopped)).machine.pc = stopped.machine.pc + 1)) := by
  have running := fatal_running answered fatal
  exact ⟨running,⟨blocked_of_idle running,idle_of_blocked running⟩,tick_unblocked running⟩

/-- A remainder by zero, and after it the output of a letter. -/
def remainderByZero : Emulator :=
  { machine :=
      { memory := Machine.padded [11, 32768, 1, 0, 19, 65]
        console := some { output := some {} } } }

theorem fatal_failure_resumes_remainderByZero :
    (answer (.run 10) remainderByZero).1 =
      .ended .running (some (.runtime 0 0 (.execute 0 11 (.plain .divideByZero)))) ∧
    ¬ (answer (.run 10) remainderByZero).2.Idle ∧
    (stateAfter (tick (answer (.run 10) remainderByZero).2)).machine.ticks = 2 ∧
    (stateAfter (tick (answer (.run 10) remainderByZero).2)).delivered = [65] := by
  have failed : (answer (.run 10) remainderByZero).1 =
      .ended .running (some (.runtime 0 0 (.execute 0 11 (.plain .divideByZero)))) := by
    rfl
  have unblocked : ¬ (answer (.run 10) remainderByZero).2.Blocked := by
    unfold Blocked Unshown
    decide +kernel
  obtain ⟨running,idle,resumes⟩ := fatal_failure_resumes
    (Prod.eta (answer (.run 10) remainderByZero)).symm (congrArg Answer.failure? failed)
  refine ⟨failed,mt idle.mp unblocked,?_,by decide +kernel⟩
  rw [(resumes unblocked).1 (by decide +kernel)]
  decide +kernel

end Emulator
end WordMachine
