import WordMachine.Command.Session
import WordMachine.Proofs.Assembly.TwoPasses
import WordMachine.Proofs.Command.Arguments
import WordMachine.Proofs.Emulator.Accounting
import WordMachine.Proofs.Emulator.Statements
import WordMachine.Proofs.Program.Image

/-! A saved image runs as its source does. The command assembles a source and saves its
image, and a run of the image has the output and the exit status of a run of the source.
The status is 0 if and only if the program ended by itself and all it wrote was delivered. -/
namespace WordMachine.Command

open Job

/-- The exit status of a run that ends with a failure or without one. -/
def exitStatus : Option Error → Nat
  | none => 0
  | some (.sliceBounds _) => 2
  | some _ => 1

theorem exitStatus_eq_zero (failure : Option Error) : exitStatus failure = 0 ↔ failure = none := by
  unfold exitStatus
  split <;> simp

theorem exitStatus_unlined (failure : Option Error) :
    exitStatus (failure.map Error.unlined) = exitStatus failure := by
  cases failure with
  | none => rfl
  | some error => cases error <;> rfl

theorem exitStatus_congr {failure failure' : Option Error}
    (same : failure'.map Error.unlined = failure.map Error.unlined) :
    exitStatus failure' = exitStatus failure := by
  rw [← exitStatus_unlined failure',same,exitStatus_unlined]

/-- Options for a run on the standard streams with nothing else to show or to save. -/
structure Plain (options : Options) : Prop where
  save : options.save = []
  input : options.input = streamName
  output : options.output = streamName
  trace : options.trace = []
  byByte : options.byLine = false
  peekWords : options.peekWords = 0
  quiet : options.verbose = false

/-- The emulator of a program that is ready to run on the standard streams of a desk. -/
def started (program : Program) (desk : Desk) : Emulator :=
  stateAfter (Emulator.reset (emulatorFor {} program desk.input desk.terminal desk.outlet))

theorem reset_started {program : Program} (fits : program.words.length ≤ memorySize)
    (desk : Desk) :
    Emulator.reset (emulatorFor {} program desk.input desk.terminal desk.outlet) =
      .ok () (started program desk) := by
  obtain ⟨machine,ok⟩ := @Emulator.reset_fits
    (emulatorFor {} program desk.input desk.terminal desk.outlet) fits
  rw [started,ok,stateAfter]

section plain

variable {evaluate : Expression.Evaluator} {depth : Nat} {options : Options}
  (plain : Plain options)

include plain

theorem emulatorFor_plain (program : Program) (input : Input) (raw : Option RawMode)
    (sink : Sink) :
    emulatorFor options program input raw sink = emulatorFor {} program input raw sink := by
  unfold emulatorFor
  rw [plain.trace,plain.peekWords,plain.quiet]

theorem findInput_plain (desk : Desk) : findInput options desk = .ok desk.terminal desk := by
  rw [findInput,if_pos plain.input,plain.byByte,if_neg Bool.false_ne_true,get_bind]
  cases desk.terminal with
  | some raw => rfl
  | none =>
    rw [plain.quiet]
    rfl

theorem prepare_plain {program : Program} {desk there : Desk}
    (fits : program.words.length ≤ memorySize)
    (got : getProgram evaluate depth options desk = .ok program there) :
    prepare evaluate depth options [] desk = .ok (started program there) there := by
  have found := findInput_plain plain there
  have read : inputDevice options there = .ok there.input there := by
    rw [inputDevice,if_pos plain.input]
    rfl
  have outlet : outputSink options there = .ok there.outlet there := by
    rw [outputSink,if_pos plain.output]
    rfl
  have ready := reset_started fits there
  unfold prepare
  simp only [List.isEmpty_nil,Bool.not_true,Bool.false_eq_true,if_false,plain.save,plain.output,
    plain.trace,ne_eq,not_true_eq_false]
  rw [bind_of_ok got,bind_of_ok found,bind_of_ok read,bind_of_ok outlet,emulatorFor_plain plain,
    ready]
  rfl

theorem finish_plain (outcome : Outcome) (failure : Option Error) (emulator : Emulator)
    (desk : Desk) : ∃ log, statusOf (finish options outcome failure emulator) desk =
      (exitStatus failure, { desk with outlet := emulator.sink, log := log }) := by
  unfold finish collect
  simp only [plain.output,plain.trace,plain.quiet,if_true,List.isEmpty_nil,Bool.not_true,
    Bool.false_eq_true,if_false]
  cases failure with
  | none => exact ⟨_,rfl⟩
  | some error => cases error <;> exact ⟨_,rfl⟩

/-- A job that gets a program which fits runs it, and has the status of the run. -/
theorem perform_plain (limit : Nat) {program : Program} {desk there : Desk}
    (fits : program.words.length ≤ memorySize)
    (got : getProgram evaluate depth options desk = .ok program there) : ∃ log,
    statusOf (perform evaluate depth limit (.job options [])) desk =
      (exitStatus (Emulator.run limit (started program there)).2.1,
        { there with
          outlet := (Emulator.run limit (started program there)).2.2.sink
          log := log }) := by
  have prepared := prepare_plain plain fits got
  have performed : perform evaluate depth limit (.job options []) desk =
      finish options (Emulator.run limit (started program there)).1
        (Emulator.run limit (started program there)).2.1
        (Emulator.run limit (started program there)).2.2 there := by
    rw [perform,bind_of_ok prepared]
  unfold statusOf
  rw [performed]
  exact finish_plain plain _ _ _ there

end plain

theorem plain_image (image : Text) : Plain { image := image } :=
  ⟨rfl,rfl,rfl,rfl,rfl,rfl,rfl⟩

theorem plain_source (source : Text) (pairs : List (Text × Text)) :
    Plain (sourceOptions source pairs) :=
  ⟨rfl,rfl,rfl,rfl,rfl,rfl,rfl⟩

theorem openFile_found {name : Text} {desk : Desk} {content : List UInt8}
    (there : desk.files.find? name = some content) : openFile name desk = .ok content desk := by
  rw [openFile,get_bind,there]
  rfl

theorem getProgram_image {evaluate : Expression.Evaluator} {depth : Nat} {image : Text}
    {desk : Desk} (named : image ≠ []) (program : Program)
    (there : desk.files.find? image = some program.image) :
    getProgram evaluate depth { image := image } desk = .ok { words := program.words } desk := by
  have read : readImage { image := image } desk = .ok { words := program.words } desk := by
    rw [readImage,bind_of_ok (openFile_found there)]
    simp only [Program.read,Program.decode_image]
    rfl
  simpa [getProgram,named] using read

theorem getProgram_source {evaluate : Expression.Evaluator} {depth : Nat} {options : Options}
    {program : Program} {left : Assembler} {desk : Desk} {text : List UInt8} (named : options.source ≠ []) (alone : options.image = [])
    (there : desk.files.find? options.source = some text)
    (accepted : Assembler.parse evaluate depth
      { verbose := options.verbose, predefines := options.predefines } text =
        (.ok program, left)) :
    ∃ log, getProgram evaluate depth options desk = .ok program { desk with log := log } := by
  have assembled : ∃ log, assembleFile evaluate depth options desk = .ok program { desk with log := log } := by
    rw [assembleFile,bind_of_ok (openFile_found there)]
    simp only [accepted]
    exact ⟨_,rfl⟩
  simpa [getProgram,named,alone] using assembled

/-- Saving an image succeeds, and changes nothing but the file. -/
theorem saveImage_creatable {name : Text} {desk : Desk} (creatable : desk.creatable name = true)
    (program : Program) :
    saveImage name program desk = .error 0
      { desk with
        files := (desk.files.insert name []).insert name program.image } := by
  have created : createFile name name desk =
      .ok () { desk with files := desk.files.insert name [] } := by
    rw [createFile,get_bind,if_pos creatable]
    rfl
  have written : writeFile name program.image { desk with files := desk.files.insert name [] } =
      .ok () { desk with files := (desk.files.insert name []).insert name program.image } := by
    have fresh : (desk.files.insert name []).find? name = some [] := by
      rw [Table.find?_insert,if_pos rfl]
    change EStateM.Result.ok _ _ = _
    simp [fresh]
  have taken : (program.write {}).2.1 = none := by
    simp [Program.write,Sink.write,Sink.accepts]
  unfold saveImage
  rw [bind_of_ok created]
  unfold Program.image at written ⊢
  generalize program.write {} = result at written taken ⊢
  obtain ⟨count,failure,sink⟩ := result
  cases taken
  exact bind_of_ok written

theorem perform_save {evaluate : Expression.Evaluator} {depth : Nat} (limit : Nat)
    {options : Options} {program : Program} {desk there : Desk} (named : options.save ≠ [])
    (creatable : there.creatable options.save = true)
    (got : getProgram evaluate depth options desk = .ok program there) :
    statusOf (perform evaluate depth limit (.job options [])) desk =
      (0, { there with
        files := (there.files.insert options.save []).insert options.save program.image }) := by
  have prepared : prepare evaluate depth options [] desk = .error 0
      { there with
        files := (there.files.insert options.save []).insert options.save program.image } := by
    have asked : (!options.save.isEmpty) = true := by simpa using named
    unfold prepare
    simp only [List.isEmpty_nil,Bool.not_true,Bool.false_eq_true,if_false]
    rw [bind_of_ok got,if_pos asked]
    exact bind_of_error (saveImage_creatable creatable program)
  rw [statusOf,perform,bind_of_error prepared]

theorem started_restated (program : Program) (desk : Desk) :
    started { words := program.words } desk = (started program desk).restate #[] :=
  Emulator.reset_restated #[] (emulatorFor {} program desk.input desk.terminal desk.outlet)

/-- The console on which a program is started. -/
theorem started_console (program : Program) (desk : Desk) :
    (started program desk).machine.console = some
      { input := some desk.input
        output := some { sink := desk.outlet, buffer := some { size := outputBuffer } }
        raw := desk.terminal } :=
  Emulator.reset_console _

theorem ended_iff (outcome : Outcome) : outcome ≠ .running ↔
    outcome = .halt ∨ outcome = .underflow ∨ outcome = .endOfInput := by
  cases outcome <;> simp

section sourced

variable {evaluate : Expression.Evaluator} {depth : Nat} {source : Text}
  {pairs : List (Text × Text)} {text : List UInt8} {program : Program} {left : Assembler}
  (named : source ≠ []) (predefinable : ∀ pair ∈ pairs, Predefinable pair.1)
  (accepted : Assembler.parse evaluate depth { predefines := Table.insertAll .empty pairs } text =
    (.ok program, left))

include accepted

theorem accepted_fits : program.words.length ≤ memorySize := by
  obtain ⟨emissions,sound⟩ := Assembly.parse_accepted accepted
  exact sound.fits

include named predefinable

theorem run_save {image : Text} {desk : Desk} (imageNamed : image ≠ [])
    (creatable : desk.creatable image = true) (there : desk.files.find? source = some text) :
    ∃ log, ∀ limit,
      run evaluate depth limit (sourceWords source pairs ++ [Flag.save.word, image]) desk =
        (0, { desk with
          files := (desk.files.insert image []).insert image program.image, log := log }) := by
  obtain ⟨log,got⟩ := @getProgram_source evaluate depth
    { sourceOptions source pairs with save := image } program left desk text named rfl there accepted
  refine ⟨log,fun limit => ?_⟩
  rw [run,parse_saveWords source predefinable]
  exact perform_save limit imageNamed creatable got

theorem run_source (limit : Nat) {desk : Desk} (there : desk.files.find? source = some text) :
    ∃ log, run evaluate depth limit (sourceWords source pairs) desk =
      (exitStatus (Emulator.run limit (started program desk)).2.1,
        { desk with
          outlet := (Emulator.run limit (started program desk)).2.2.sink
          log := log }) := by
  obtain ⟨log,got⟩ := @getProgram_source evaluate depth (sourceOptions source pairs)
    program left desk text named rfl there accepted
  obtain ⟨log',ran⟩ := perform_plain (plain_source source pairs) limit (accepted_fits accepted) got
  refine ⟨log',?_⟩
  rw [run,parse_sourceWords source predefinable]
  exact ran

end sourced

theorem run_image {evaluate : Expression.Evaluator} {depth : Nat} (limit : Nat) {image : Text}
    {program : Program} {desk : Desk} (named : image ≠ [])
    (fits : program.words.length ≤ memorySize)
    (there : desk.files.find? image = some program.image) :
    ∃ log, run evaluate depth limit [Flag.image.word, image] desk =
      (exitStatus (Emulator.run limit (started program desk)).2.1,
        { desk with
          outlet := (Emulator.run limit (started program desk)).2.2.sink
          log := log }) := by
  have got := @getProgram_image evaluate depth _ _ named program there
  obtain ⟨log,ran⟩ :=
    @perform_plain evaluate depth _ (plain_image image) limit { words := program.words } _ _ fits got
  obtain ⟨-,failure,final⟩ := Emulator.run_restated #[] (started program desk) limit
  refine ⟨log,?_⟩
  rw [run,parse_imageWords,ran,started_restated,exitStatus_congr failure,final]
  rfl

/-- An accepted source whose image is saved, under any name and with any predefined names: the
command succeeds, and a run of the image then has the status and the output that a run of the
source has on the same input, be it a terminal or not. If the run ends, a higher limit changes
neither, and its status is 0 exactly when it ended by a halt, an empty stack or the end of the
input and everything that the program wrote is in the output. -/
theorem saved_image_runs_as_source {evaluate : Expression.Evaluator} {depth : Nat}
    {source image : Text} {pairs : List (Text × Text)} {text : List UInt8} {program : Program}
    {left : Assembler} {desk : Desk} (sourceNamed : source ≠ []) (imageNamed : image ≠ [])
    (predefinable : ∀ pair ∈ pairs, Predefinable pair.1)
    (there : desk.files.find? source = some text) (creatable : desk.creatable image = true)
    (accepted : Assembler.parse evaluate depth { predefines := Table.insertAll .empty pairs } text =
      (.ok program, left)) :
    ∃ saved : Desk,
      (∀ limit, run evaluate depth limit (sourceWords source pairs ++ [Flag.save.word, image]) desk =
        (0, saved)) ∧
      saved.files.find? image = some program.image ∧ saved.output = desk.output ∧
      ∀ (other : Desk), other.files.find? source = some text → ∀ limit,
        (run evaluate depth limit [Flag.image.word, image]
            { saved with
              input := other.input, terminal := other.terminal, outlet := other.outlet }).1 =
          (run evaluate depth limit (sourceWords source pairs) other).1 ∧
        (run evaluate depth limit [Flag.image.word, image]
            { saved with
              input := other.input, terminal := other.terminal, outlet := other.outlet }).2.output =
          (run evaluate depth limit (sourceWords source pairs) other).2.output ∧
        ((started program other).EndsWithin limit →
          (∀ more,
            (run evaluate depth (limit + more) (sourceWords source pairs) other).1 =
              (run evaluate depth limit (sourceWords source pairs) other).1 ∧
            (run evaluate depth (limit + more) (sourceWords source pairs) other).2.output =
              (run evaluate depth limit (sourceWords source pairs) other).2.output) ∧
          ((run evaluate depth limit (sourceWords source pairs) other).1 = 0 ↔
            ((Emulator.run limit (started program other)).1 = .halt ∨
              (Emulator.run limit (started program other)).1 = .underflow ∨
              (Emulator.run limit (started program other)).1 = .endOfInput) ∧
            (run evaluate depth limit (sourceWords source pairs) other).2.output = other.output ++
              Emulator.utteredRun limit (started program other))) := by
  obtain ⟨log,saves⟩ := run_save sourceNamed predefinable accepted imageNamed creatable there
  have listed : ((desk.files.insert image []).insert image program.image).find? image =
      some program.image := by
    rw [Table.find?_insert,if_pos rfl]
  refine ⟨_,saves,listed,rfl,?_⟩
  intro other there limit
  obtain ⟨log',ran⟩ := run_source sourceNamed predefinable accepted limit there
  obtain ⟨log'',loaded⟩ := @run_image evaluate depth limit image program
    { desk with
      files := (desk.files.insert image []).insert image program.image
      input := other.input
      terminal := other.terminal
      outlet := other.outlet
      log := log }
    imageNamed (accepted_fits accepted) listed
  rw [ran,loaded]
  refine ⟨rfl,rfl,fun ended => ⟨?_,?_⟩⟩
  · intro more
    obtain ⟨_,further⟩ := run_source sourceNamed predefinable accepted (limit + more) there
    rw [further,Emulator.run_more ended]
    exact ⟨rfl,rfl⟩
  · rw [exitStatus_eq_zero,← ended_iff]
    exact Emulator.run_succeeds (started_console program other) rfl ended

def letterSource : Text := "out LETTER\nhalt\n"

def letterPairs : List (Text × Text) := [("LETTER", "65")]

/-- Standard input is a terminal. -/
def letterDesk : Desk := { files := ⟨[("f", letterSource)]⟩, terminal := some {} }

def letterProgram : Program :=
  { words := [19, 65, 0]
    statements := #[⟨1, 0, ["out", "65"], [19, 65]⟩, ⟨2, 2, ["halt"], [0]⟩] }

theorem letterSource_accepted :
    Assembler.parse Expression.evaluate 0 { predefines := Table.insertAll .empty letterPairs }
      letterSource = (.ok letterProgram,
        (Assembler.parse Expression.evaluate 0 { predefines := Table.insertAll .empty letterPairs }
          letterSource).2) := by
  have parsed : (Assembler.parse Expression.evaluate 0
      { predefines := Table.insertAll .empty letterPairs } letterSource).1 = .ok letterProgram := by
    decide +kernel
  rw [← parsed]

/-- The emulator of the program while it is held in raw mode. -/
def letterHeld : Emulator := stateAfter (Emulator.hold (started letterProgram letterDesk))

theorem letterProgram_runs :
    (Emulator.tickUpTo 2 letterHeld).2.1.toOption = some true ∧
    (Emulator.run 2 (started letterProgram letterDesk)).1 = .halt ∧
    Emulator.utteredRun 2 (started letterProgram letterDesk) = [65] ∧
    (Emulator.run 2 (started letterProgram letterDesk)).2.2.sink.taken.toList = [65] := by
  decide +kernel

theorem saved_image_runs_as_source_letter :
    ∃ saved : Desk,
      (∀ limit, run Expression.evaluate 0 limit
        (sourceWords "f" letterPairs ++ [Flag.save.word, "img"]) letterDesk = (0, saved)) ∧
      (run Expression.evaluate 0 2 [Flag.image.word, "img"]
        { saved with
          input := letterDesk.input, terminal := letterDesk.terminal
          outlet := letterDesk.outlet }).1 = 0 ∧
      (run Expression.evaluate 0 2 [Flag.image.word, "img"]
        { saved with
          input := letterDesk.input, terminal := letterDesk.terminal
          outlet := letterDesk.outlet }).2.output = [65] := by
  obtain ⟨done,halted,uttered,delivered⟩ := letterProgram_runs
  have ended : (started letterProgram letterDesk).EndsWithin 2 := by
    intro held opened granted further
    rw [letterHeld,granted] at done
    rw [stateAfter,further] at done
    cases done
  have predefinable : ∀ pair ∈ letterPairs, Predefinable pair.1 := by
    intro pair member
    rw [List.mem_singleton.mp member]
    exact ⟨by decide +kernel,by decide +kernel⟩
  have named : ("f" : Text) ≠ [] := by decide +kernel
  have there : letterDesk.files.find? "f" = some letterSource := by decide +kernel
  obtain ⟨saved,saves,-,-,alike⟩ := @saved_image_runs_as_source _ _ _ "img" _ _ _ _ letterDesk
    named (by decide +kernel) predefinable there rfl letterSource_accepted
  obtain ⟨status,output,ends⟩ := alike letterDesk there 2
  obtain ⟨log,ran⟩ := run_source named predefinable letterSource_accepted 2 there
  have printed : (run Expression.evaluate 0 2 (sourceWords "f" letterPairs) letterDesk).2.output =
      [65] := by
    rw [ran,Desk.output,delivered]
  refine ⟨saved,saves,status.trans ((ends ended).2.mpr ⟨.inl halted,?_⟩),output.trans printed⟩
  rw [printed,uttered]
  rfl

end WordMachine.Command
