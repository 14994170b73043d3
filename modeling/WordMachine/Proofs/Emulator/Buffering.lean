import WordMachine.Proofs.Console.Buffering
import WordMachine.Proofs.Emulator.Exchange

/-! A buffer before the sink is invisible. An emulator that writes to a sink directly and
one that has a buffer in between go through the same states; what is in the buffer is all
that the sink of the second one lacks. Whatever the sink refuses, it holds the first of the
bytes that the program wrote. -/
namespace WordMachine.Emulator

def SameSettings (verbose : Bool) (peekWords : Int64) (verbose' : Bool) (peekWords' : Int64) :
    Prop := verbose = verbose' ∧ peekWords = peekWords'

section observed

variable {attached : Option Console → Option Console → Prop}

theorem observe_respects (verbose : Bool) :
    Respects (Machine.Kin attached Eq) (observe verbose) := by
  apply respects_modify
  intro left right kin
  apply Machine.kin_probe kin
  rw [kin.probe]

theorem peek_respects (count : Int64) :
    Respects (Machine.Kin attached Eq) (Machine.peek count) := by
  intro left right kin
  unfold Machine.peek
  rw [get_bind,get_bind,kin.pc,kin.memory]
  dsimp only
  split
  · exact .error _ kin
  · apply Alike.ok
    apply Machine.kin_probe kin
    rw [kin.probe]

theorem prepare_respects (verbose : Bool) (peekWords : Int64) :
    Respects (Machine.Kin attached Eq) (prepare verbose peekWords) := by
  apply respects_bind (observe_respects verbose)
  intro _
  split
  · exact respects_discard (peek_respects peekWords)
  · exact respects_pure _

theorem describe_kin {left right : Machine} (kin : Machine.Kin attached Eq left right) :
    right.describe = left.describe := by
  unfold Machine.describe
  rw [kin.pc,kin.registers,kin.stack]

theorem remark_respects (text : Option Text) :
    Respects (Machine.Kin attached Eq) (remark text) := by
  cases text with
  | none => exact respects_pure _
  | some text =>
    apply respects_modify
    intro left right kin
    apply Machine.kin_probe kin
    rw [kin.probe]

end observed

theorem same_observation (consoles : Console → Console → Prop) :
    Observation consoles Eq SameSettings where
  recorded := ⟨fun event _ _ same => congrArg (·.trace event) same,
    fun event _ _ same => congrArg (·.log event) same⟩
  observed := by
    rintro verbose _ _ _ ⟨rfl,_⟩ left right kin
    exact observe_respects verbose left right kin
  prepared := by
    rintro verbose peekWords _ _ ⟨rfl,rfl⟩ left right kin
    exact prepare_respects verbose peekWords left right kin
  remarked := by
    rintro verbose _ _ _ ⟨rfl,_⟩ left right kin error
    have same : remarkOn verbose error right = remarkOn verbose error left := by
      unfold remarkOn
      rw [describe_kin kin]
    rw [same]
    exact remark_respects _ left right kin

theorem buffering_comparison : Comparison Console.Behind Eq SameSettings where
  toObservation := same_observation Console.Behind
  reads := Console.readByte_respects
  writes := Console.writeByte_respects
  flushes := Console.flush_respects
  holds := Console.hold_respects
  releases := fun held _ _ behind => Console.release_behind held behind

def withOutput (emulator : Emulator) (output : Output) : Emulator :=
  emulator.mapConsole fun console => { console with output := some output }

def withoutOutput (emulator : Emulator) : Emulator :=
  emulator.mapConsole fun console => { console with output := none }

/-- The bytes that were written and did not reach the sink. -/
def pending (emulator : Emulator) : List UInt8 :=
  (emulator.machine.console.map Console.pending).getD []

section behind

variable {left right : Emulator}

theorem akin_withoutOutput (akin : Akin Console.Behind Eq SameSettings left right) :
    left.withoutOutput = right.withoutOutput := by
  have kin := akin.machine
  have attached : left.machine.console.map (fun console => { console with output := none }) =
      right.machine.console.map fun console => { console with output := none } := by
    have consoles := kin.console
    generalize left.machine.console = one at consoles ⊢
    generalize right.machine.console = other at consoles ⊢
    cases consoles with
    | none => rfl
    | some behind => exact congrArg some (Console.behind_rest behind)
  unfold withoutOutput mapConsole
  dsimp only
  rw [attached,akin.settings.1,akin.settings.2,akin.program,akin.outcome,kin.pc,kin.registers,
    kin.memory,kin.stack,kin.ticks,kin.probe]

theorem akin_delivered (akin : Akin Console.Behind Eq SameSettings left right) :
    left.delivered = right.delivered ++ right.pending := by
  have consoles := akin.machine.console
  unfold delivered pending
  generalize left.machine.console = one at consoles ⊢
  generalize right.machine.console = other at consoles ⊢
  cases consoles with
  | none => rfl
  | some behind => exact Console.behind_delivered behind

theorem akin_reliable (akin : Akin Console.Behind Eq SameSettings left right) {console : Console}
    (attached : right.machine.console = some console) (output : Output)
    (there : console.output = some output) : output.Reliable := by
  have consoles := akin.machine.console
  rw [attached] at consoles
  generalize left.machine.console = one at consoles
  cases consoles with
  | some behind =>
    rcases Console.behind_cases behind with ⟨_,absent⟩ | ⟨_,other,_,there',lags⟩
    · rw [there] at absent
      cases absent
    · rw [Option.some.inj (there.symm.trans there')]
      exact lags.reliable'

theorem withOutput_akin (emulator : Emulator) {sink : Sink} (unlimited : sink.room = none)
    (size : Nat) : Akin Console.Behind Eq SameSettings (emulator.withOutput ⟨sink, none⟩)
      (emulator.withOutput ⟨sink, some { size := size }⟩) := by
  have lags : Output.Lags ⟨sink, none⟩ ⟨sink, some { size := size }⟩ :=
    ⟨rfl,Output.reliable_direct unlimited,Output.reliable_buffered unlimited rfl,rfl⟩
  refine ⟨⟨rfl,rfl⟩,rfl,rfl,rfl,rfl,rfl,rfl,rfl,?_,rfl⟩
  unfold withOutput mapConsole
  dsimp only
  cases emulator.machine.console with
  | none => exact .none
  | some console => exact .some ⟨rfl,rfl,rfl,rfl,rfl,rfl,.some lags⟩

end behind

section exchange

variable (kept : List UInt8 → Output → Prop)
  (writes : ∀ bytes output byte, kept bytes output → kept (bytes ++ [byte]) (output.write byte).2)
  (flushes : ∀ bytes output, kept bytes output → kept bytes output.flush.2)
include flushes

theorem flush_kept {console : Console} {bytes : List UInt8}
    (before : ∀ output, console.output = some output → kept bytes output) (output : Output)
    (there : (stateAfter (Console.flush console)).output = some output) : kept bytes output := by
  rw [Console.flush_state] at there
  obtain ⟨earlier,there',rfl⟩ := Option.map_eq_some_iff.mp there
  exact flushes bytes earlier (before earlier there')

include writes

/-- What writing and flushing keep of an output is kept by every exchange. -/
theorem exchange_kept {first console : Console} {bytes : List UInt8}
    (exchange : Exchange first bytes console)
    (begun : ∀ output, first.output = some output → kept [] output) :
    ∀ output, console.output = some output → kept bytes output := by
  induction exchange with
  | start => exact begun
  | write bytes console byte before hypothesis =>
    intro output there
    rw [Console.writeByte_state] at there
    obtain ⟨earlier,there',rfl⟩ := Option.map_eq_some_iff.mp there
    exact writes bytes earlier byte (hypothesis earlier there')
  | read bytes console before hypothesis =>
    intro output there
    rcases Console.readByte_output console with same | flushed
    · exact hypothesis output (same.symm.trans there)
    · exact flush_kept kept flushes hypothesis output (flushed.symm.trans there)

end exchange

theorem reliable_cleared {console : Console}
    (reliable : ∀ output, console.output = some output → output.Reliable) :
    (stateAfter (Console.flush console)).pending = [] := by
  cases there : console.output with
  | none =>
    rw [Console.flush_none there]
    unfold stateAfter Console.pending
    dsimp only
    rw [there]
    rfl
  | some output =>
    obtain ⟨next,flushed,_⟩ := Output.flush_reliable (reliable output there)
    have ok := Console.flush_ok there flushed
    rw [ok]
    exact Console.flush_cleared ok

/-- After a run whose hold was granted, nothing is pending in an output that never fails. -/
theorem run_cleared (limit : Nat) {emulator : Emulator} {console opened : Console}
    {held : Option Nat} (attached : emulator.machine.console = some console)
    (granted : Console.hold console = .ok held opened)
    (reliable : ∀ output, console.output = some output → output.Reliable) :
    (run limit emulator).2.2.pending = [] := by
  obtain ⟨used,exchange,final⟩ := run_held limit attached granted
  have same := Console.hold_output console
  rw [granted] at same
  have begun : ∀ output, opened.output = some output → output.Reliable := by
    intro output there
    exact reliable output (same.symm.trans there)
  have still : ∀ output, used.output = some output → output.Reliable := by
    refine exchange_kept (fun _ => Output.Reliable) ?_ ?_ exchange begun
    · intro _ output byte before
      obtain ⟨next,written,after,_⟩ := Output.write_reliable before byte
      rw [written]
      exact after
    · intro _ output before
      obtain ⟨next,flushed,after,_⟩ := Output.flush_reliable before
      rw [flushed]
      exact after
  unfold pending
  rw [final]
  change Console.pending _ = []
  unfold Console.pending
  rw [Console.release_output]
  exact reliable_cleared still

/-- The console of an emulator passes on the given bytes, or stopped after the first of
them. -/
def Carries (bytes : List UInt8) (emulator : Emulator) : Prop :=
  ∃ console, emulator.machine.console = some console ∧
    ∀ output, console.output = some output → output.Conveys bytes

theorem exchange_carries {first console : Console} {before bytes : List UInt8}
    (exchange : Exchange first bytes console)
    (begun : ∀ output, first.output = some output → output.Conveys before) :
    ∀ output, console.output = some output → output.Conveys (before ++ bytes) := by
  refine exchange_kept (fun bytes => Output.Conveys (before ++ bytes)) ?_ ?_ exchange ?_
  · intro bytes output byte conveys
    rw [← List.append_assoc]
    exact Output.conveys_write conveys byte
  · intro bytes output conveys
    exact Output.conveys_flush conveys
  · intro output there
    rw [List.append_nil]
    exact begun output there

theorem carries_silent {next : Emulator} {bytes : List UInt8} {console left : Console}
    (conveys : ∀ output, console.output = some output → output.Conveys bytes)
    (attached : next.machine.console = some left) (same : left.output = console.output) :
    Carries (bytes ++ []) next := by
  rw [List.append_nil]
  refine ⟨left,attached,?_⟩
  rw [same]
  exact conveys

theorem answer_carries (call : Call) {emulator : Emulator} {bytes : List UInt8}
    (carries : Carries bytes emulator) :
    Carries (bytes ++ emulator.utteredBy call) (answer call emulator).2 := by
  obtain ⟨console,attached,conveys⟩ := carries
  have flushed : ∀ {used : Console} {bytes : List UInt8},
      (∀ output, used.output = some output → output.Conveys bytes) →
        ∀ output, (stateAfter (Console.flush used)).output = some output → output.Conveys bytes :=
    fun before => flush_kept (fun bytes => Output.Conveys bytes)
      (fun _ _ => Output.conveys_flush) before
  have holding := Console.hold_output console
  cases call with
  | reset => exact carries_silent conveys ((reset_console emulator).trans attached) rfl
  | tick =>
    obtain ⟨next,reached,exchange⟩ := tick_exchange attached .start
    exact ⟨next,reached,exchange_carries exchange conveys⟩
  | run limit =>
    change Carries (bytes ++ utteredRun limit emulator) (run limit emulator).2.2
    unfold utteredRun
    cases asked : Console.hold console with
    | error error left =>
      rw [asked] at holding
      rw [hold_error attached asked]
      exact carries_silent conveys (run_refused limit attached asked) holding
    | ok held opened =>
      rw [asked] at holding
      rw [hold_ok attached asked]
      obtain ⟨used,exchange,final⟩ := run_held limit attached asked
      refine ⟨_,final,?_⟩
      rw [Console.release_output]
      apply flushed
      apply exchange_carries exchange
      intro output there
      exact conveys output (holding.symm.trans there)
  | hold =>
    have reached := onConsole_state Console.hold emulator
    rw [attached] at reached
    exact carries_silent conveys reached holding
  | flush =>
    have reached := deliver_console emulator
    rw [attached] at reached
    have still := flushed conveys
    rw [← List.append_nil bytes] at still
    exact ⟨_,reached,still⟩
  | release held =>
    have reached : (emulator.mapConsole fun console => console.release held).machine.console =
        some (console.release held) := congrArg (Option.map _) attached
    exact carries_silent conveys reached (console.release_output held)

theorem drive_carries (calls : List Call) {emulator : Emulator} {bytes : List UInt8}
    (carries : Carries bytes emulator) :
    Carries (bytes ++ utterance calls emulator) (drive calls emulator).2 := by
  induction calls generalizing emulator bytes with
  | nil =>
    rw [utterance,List.append_nil]
    exact carries
  | cons call calls hypothesis =>
    rw [utterance,← List.append_assoc]
    exact hypothesis (answer_carries call carries)

theorem carries_delivered {emulator : Emulator} {bytes : List UInt8}
    (carries : Carries bytes emulator) : emulator.delivered <+: bytes := by
  obtain ⟨console,attached,conveys⟩ := carries
  unfold delivered
  rw [attached]
  change console.delivered <+: bytes
  unfold Console.delivered
  split
  · next output there => exact Output.conveys_delivered (conveys output there)
  · exact List.nil_prefix

theorem hold_console {emulator opened : Emulator} {held : Option Nat}
    (granted : hold emulator = .ok held opened) : ∃ console next,
      emulator.machine.console = some console ∧ Console.hold console = .ok held next := by
  cases attached : emulator.machine.console with
  | none =>
    have missing : Machine.onConsole Console.hold emulator.machine =
        .error (.plain .consoleMissing) emulator.machine := by
      unfold Machine.onConsole
      rw [attached]
    rw [hold,onMachine_error missing] at granted
    cases granted
  | some console =>
    cases asked : Console.hold console with
    | error error left =>
      rw [hold_error attached asked] at granted
      cases granted
    | ok other next =>
      rw [hold_ok attached asked] at granted
      cases granted
      exact ⟨console,next,rfl,asked⟩

theorem run_delivered (limit : Nat) {left right opened : Emulator} {held : Option Nat}
    (akin : Akin Console.Behind Eq SameSettings left right)
    (granted : hold right = .ok held opened) :
    (run limit left).2.2.delivered = (run limit right).2.2.delivered := by
  obtain ⟨console,next,attached,asked⟩ := hold_console granted
  have reliable := akin_reliable akin attached
  have delivered := akin_delivered (run_akin buffering_comparison limit akin).2.2
  rw [run_cleared limit attached asked reliable,List.append_nil] at delivered
  exact delivered

/-- A buffer makes no difference. For a sink that never fails, an emulator with a buffer is
driven like one without: the answers are the same, the states are the same but for the
output, what the sink lacks is in the buffer, and a run whose hold is granted leaves both
sinks with the same bytes. A read of the input happens when nothing is pending. And whatever
the sink refuses, it always holds the first of the bytes that the program wrote. -/
theorem buffering_invisible :
    (∀ (emulator direct buffered : Emulator) (sink : Sink) (size : Nat) (calls : List Call)
      (answers answers' : List Answer), sink.room = none →
      drive calls (emulator.withOutput ⟨sink, none⟩) = (answers, direct) →
      drive calls (emulator.withOutput ⟨sink, some { size := size }⟩) = (answers', buffered) →
        answers = answers' ∧ direct.withoutOutput = buffered.withoutOutput ∧
        direct.delivered = buffered.delivered ++ buffered.pending ∧
        ∀ limit held opened, hold buffered = .ok held opened →
          (run limit direct).2.2.delivered = (run limit buffered).2.2.delivered) ∧
    (∀ console : Console,
      (∃ function opened, Console.prepareRead console = .ok function opened ∧
        Console.readByte console = Console.restoring function Console.readDevice opened ∧
        opened.pending = []) ∨
      ∃ error left, Console.readByte console = .error error left ∧ left.input = console.input) ∧
    ∀ (emulator : Emulator) (console : Console) (calls : List Call),
      emulator.machine.console = some console →
        (drive calls emulator).2.delivered <+:
          console.delivered ++ console.pending ++ utterance calls emulator := by
  refine ⟨?_,?_,?_⟩
  · intro emulator direct buffered sink size calls answers answers' unlimited drove drove'
    obtain ⟨same,akin⟩ :=
      drive_akin buffering_comparison calls (withOutput_akin emulator unlimited size)
    rw [drove,drove'] at same akin
    exact ⟨same,akin_withoutOutput akin,akin_delivered akin,
      fun limit _ _ granted => run_delivered limit akin granted⟩
  · intro console
    rcases console.readByte_cases with ⟨error,left,failed,unready⟩ | ⟨function,opened,read,ready⟩
    · have untouched := console.prepareRead_input
      rw [unready] at untouched
      exact .inr ⟨error,left,failed,untouched⟩
    · exact .inl ⟨function,opened,ready,read,Console.prepareRead_cleared ready⟩
  · intro emulator console calls attached
    apply carries_delivered
    apply drive_carries
    refine ⟨console,attached,?_⟩
    intro output there
    unfold Console.delivered Console.pending
    rw [there]
    exact .inl rfl

/-- An emulator whose program writes a byte and halts. -/
def writer : Emulator := { machine := { memory := Machine.padded [19, 72, 0], console := some {} } }

theorem buffering_invisible_writer :
    (drive [.tick] (writer.withOutput ⟨{}, some { size := 4 }⟩)).2.pending = [72] ∧
    (drive [.tick] (writer.withOutput ⟨{}, none⟩)).2.delivered =
      (drive [.tick] (writer.withOutput ⟨{}, some { size := 4 }⟩)).2.delivered ++ [72] ∧
    (run 2 (writer.withOutput ⟨{}, none⟩)).2.2.delivered =
      (run 2 (writer.withOutput ⟨{}, some { size := 4 }⟩)).2.2.delivered ∧
    utterance [.tick] (writer.withOutput ⟨{ room := some 0 }, none⟩) = [72] ∧
    (drive [.tick] (writer.withOutput ⟨{ room := some 0 }, none⟩)).2.delivered <+: [72] := by
  have waiting : (drive [.tick] (writer.withOutput ⟨{}, some { size := 4 }⟩)).2.pending = [72] := by
    decide +kernel
  have said : utterance [.tick] (writer.withOutput ⟨{ room := some 0 }, none⟩) = [72] := by
    decide +kernel
  obtain ⟨_,_,lacking,_⟩ := buffering_invisible.1 writer _ _ {} 4 [.tick] _ _ rfl rfl rfl
  obtain ⟨_,_,_,ended⟩ := buffering_invisible.1 writer _ _ {} 4 [] _ _ rfl rfl rfl
  have first := buffering_invisible.2.2 (writer.withOutput ⟨{ room := some 0 }, none⟩) _ [.tick] rfl
  rw [said] at first
  exact ⟨waiting,lacking.trans (congrArg (_ ++ ·) waiting),ended 2 none _ rfl,said,first⟩

end WordMachine.Emulator
