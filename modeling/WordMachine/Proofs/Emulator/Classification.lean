import WordMachine.Proofs.Emulator.Resumption
import WordMachine.Proofs.Machine.Verdict

/-! How a tick is classified. A running emulator that can show the words in front of the
instruction goes on, ends with one of three outcomes, or fails, and the machine before the
tick tells which. Once there is an outcome, nothing is executed any more. -/
namespace WordMachine

/-- The line of an address: that of the first statement that covers it, or 0 if none does. -/
def Program.IsLineOf (program : Program) (addr : Word) (line : Nat) : Prop :=
  (∃ before statement after, program.statements.toList = before ++ statement :: after ∧
      (∀ earlier ∈ before, earlier.covers addr = false) ∧ statement.covers addr = true ∧
      line = statement.line) ∨
    (∀ statement ∈ program.statements.toList, statement.covers addr = false) ∧ line = 0

theorem Program.lineAt_isLineOf (program : Program) (addr : Word) :
    program.IsLineOf addr (program.lineAt addr) := by
  unfold lineAt locate?
  rw [← Array.find?_toList]
  cases found : program.statements.toList.find? (·.covers addr) with
  | none => exact .inr ⟨by simpa using List.find?_eq_none.mp found,rfl⟩
  | some statement =>
    obtain ⟨covers,before,after,split,earlier⟩ := List.find?_eq_some_iff_append.mp found
    exact .inl ⟨before,statement,after,split,by simpa using earlier,covers,rfl⟩

namespace Emulator

/-- The words in front of an instruction can be shown unless the sum of the address and
their number, which is a signed 64-bit integer, wraps around. -/
theorem unshown_iff (pc : Word) (peekWords : Int64) :
    Unshown pc peekWords ↔
      Int64.maxValue.toInt < min (pc.toNat : Int) memorySize + peekWords.toInt := by
  have greatest : Int64.maxValue.toInt = 9223372036854775807 := rfl
  have modulus : (Int64.size : Int) = 18446744073709551616 := rfl
  have words : (memorySize : Int) = 32768 := rfl
  have zero : (0 : Int64).toInt = 0 := rfl
  have bound := peekWords.toInt_lt
  unfold Unshown
  rw [Int64.lt_iff_toInt_lt,Int64.lt_iff_toInt_lt,peekRange_first,peekRange_last,zero]
  split <;> omega

/-- How a tick of a running emulator ends: with the verdict on the machine before it. -/
inductive Judged (emulator : Emulator) : EStateM.Result Error Emulator Bool → Prop
  | further (machine : Machine) (ok : resultOf (Machine.tick emulator.machine) = .ok ())
      (unjudged : emulator.machine.verdict? = none) :
      Judged emulator (.ok false { emulator with machine := machine })
  | ended (machine : Machine) (cause : Error) (outcome : Outcome)
      (failed : resultOf (Machine.tick emulator.machine) = .error cause)
      (judged : emulator.machine.verdict? = some outcome) :
      Judged emulator (.ok true { emulator with machine := machine, outcome := outcome })
  | fatal (machine : Machine) (cause : Error)
      (failed : resultOf (Machine.tick emulator.machine) = .error cause)
      (unjudged : emulator.machine.verdict? = none) :
      Judged emulator
        (.error (.runtime emulator.machine.pc (emulator.program.lineAt emulator.machine.pc) cause)
          { emulator with machine := machine })

section running

variable {emulator : Emulator} (running : emulator.outcome = .running)
  (shown : ¬ Unshown emulator.machine.pc emulator.peekWords)

include shown

/-- What is shown before an instruction makes no difference to how it ends. -/
theorem instruction_result : ∃ ready,
    prepare emulator.verbose emulator.peekWords emulator.machine = .ok () ready ∧
      resultOf (Machine.tick ready) = resultOf (Machine.tick emulator.machine) := by
  obtain ⟨probe,prepared⟩ := prepare_shown emulator.verbose shown
  have kin : Machine.Kin (Option.Rel Eq) (fun _ _ => True) { emulator.machine with probe := probe }
      emulator.machine := ⟨rfl,rfl,rfl,rfl,rfl,rel_eq.mpr rfl,trivial⟩
  have alike := Machine.tick_respects Machine.recorded_anything (respects_eq _)
    (fun _ => respects_eq _) _ _ kin
  exact ⟨_,prepared,(alike_answers alike).1⟩

include running

theorem tick_judged : Judged emulator (tick emulator) := by
  obtain ⟨ready,prepared,same⟩ := instruction_result shown
  cases ticked : Machine.tick emulator.machine with
  | ok value final =>
    have unjudged := Machine.tick_unjudged ticked
    cases ran : Machine.tick ready with
    | error error machine =>
      rw [ran,ticked] at same
      cases same
    | ok value' machine =>
      rw [tick_ok running prepared ran]
      exact .further machine (congrArg resultOf ticked) unjudged
  | error cause final =>
    have verdict := Machine.tick_verdict ticked
    cases ran : Machine.tick ready with
    | ok value machine =>
      rw [ran,ticked] at same
      cases same
    | error error machine =>
      rw [ran,ticked] at same
      cases same
      rw [tick_error running prepared ran,settle_noted]
      cases ending : Outcome.ofError? cause with
      | none => exact .fatal _ cause (congrArg resultOf ticked) (verdict.trans ending)
      | some outcome => exact .ended _ cause outcome (congrArg resultOf ticked) (verdict.trans ending)

theorem tick_outcome_iff {outcome : Outcome} (ended : outcome ≠ .running) :
    (stateAfter (tick emulator)).outcome = outcome ↔ emulator.machine.verdict? = some outcome := by
  have judged := tick_judged running shown
  generalize tick emulator = result at judged ⊢
  cases judged with
  | further machine ok unjudged | fatal machine cause failed unjudged =>
    have other : emulator.outcome ≠ outcome := running ▸ Ne.symm ended
    simpa [unjudged,stateAfter] using other
  | ended machine cause other failed judged => simp [judged,stateAfter]

end running

theorem prepare_remarks (verbose : Bool) (peekWords : Int64) (machine : Machine) :
    (stateAfter (prepare verbose peekWords machine)).probe.remarks = machine.probe.remarks := by
  have peeked : ∀ machine : Machine,
      (stateAfter (Machine.peek peekWords machine)).probe.remarks = machine.probe.remarks := by
    intro machine
    unfold Machine.peek
    rw [get_bind]
    dsimp only
    split
    · rfl
    · exact Probe.trace_remarks rfl machine.probe
  unfold prepare
  split
  · exact (congrArg (fun left : Machine => left.probe.remarks) (discard_state _ _)).trans (peeked _)
  · rfl

/-- An underflow is remarked on once, and no register changes. -/
theorem tick_underflow {emulator : Emulator} (running : emulator.outcome = .running)
    (shown : ¬ Unshown emulator.machine.pc emulator.peekWords)
    (takes : emulator.machine.TakesFromEmpty) :
    ∃ cause, resultOf (Machine.tick emulator.machine) = .error cause ∧
      (stateAfter (tick emulator)).machine.registers = emulator.machine.registers ∧
      (stateAfter (tick emulator)).machine.probe.remarks =
        emulator.machine.probe.remarks ++ [cause.text] := by
  obtain ⟨probe,prepared⟩ := prepare_shown emulator.verbose shown
  have silent := prepare_remarks emulator.verbose emulator.peekWords emulator.machine
  rw [prepared] at silent
  have taken : { emulator.machine with probe := probe }.TakesFromEmpty := takes
  obtain ⟨cause,final,ticked,registers,unremarked⟩ := Machine.tick_takesFromEmpty taken
  obtain ⟨ready,prepared',same⟩ := instruction_result shown
  rw [prepared] at prepared'
  cases prepared'
  have ending : Outcome.ofError? cause = some .underflow := by
    rw [← Machine.tick_verdict ticked,Machine.verdict?_eq_some]
    exact .inr (.inl ⟨rfl,taken⟩)
  have remarked : remarkOn emulator.verbose cause final = some cause.text := by
    rw [remarkOn,ending]
  refine ⟨cause,?_,?_⟩
  · rw [← same,ticked]
    rfl
  · rw [tick_error running prepared ticked,settle_noted,ending]
    dsimp only [stateAfter,noted]
    rw [remarked]
    refine ⟨registers,?_⟩
    change (final.probe.record (.remark cause.text)).remarks = _
    rw [Probe.record_remarks,unremarked]
    exact congrArg (· ++ [cause.text]) silent

/-- A tick of a running emulator is told by the machine before it. -/
structure Classified (emulator : Emulator) : Prop where
  halt : (stateAfter (tick emulator)).outcome = .halt ↔ emulator.machine.AtHalt
  underflow : (stateAfter (tick emulator)).outcome = .underflow ↔ emulator.machine.TakesFromEmpty
  endOfInput : (stateAfter (tick emulator)).outcome = .endOfInput ↔ emulator.machine.MeetsEnd
  done : (stateAfter (tick emulator)).outcome ≠ .running → resultOf (tick emulator) = .ok true
  remarked : (stateAfter (tick emulator)).outcome = .underflow →
    ∃ cause, resultOf (Machine.tick emulator.machine) = .error cause ∧
      (stateAfter (tick emulator)).machine.registers = emulator.machine.registers ∧
      (stateAfter (tick emulator)).machine.probe.remarks =
        emulator.machine.probe.remarks ++ [cause.text]
  further : resultOf (tick emulator) = .ok false ↔ resultOf (Machine.tick emulator.machine) = .ok ()
  fatal : ¬ emulator.machine.AtHalt → ¬ emulator.machine.TakesFromEmpty →
    ¬ emulator.machine.MeetsEnd → ∀ cause, resultOf (Machine.tick emulator.machine) = .error cause →
      (stateAfter (tick emulator)).outcome = .running ∧
      ∃ line, emulator.program.IsLineOf emulator.machine.pc line ∧
        resultOf (tick emulator) = .error (.runtime emulator.machine.pc line cause)

section classified

variable {emulator : Emulator} (running : emulator.outcome = .running)
  (shown : ¬ Unshown emulator.machine.pc emulator.peekWords)

include running shown

theorem tick_done (ended : (stateAfter (tick emulator)).outcome ≠ .running) :
    resultOf (tick emulator) = .ok true := by
  have judged := tick_judged running shown
  generalize tick emulator = result at judged ended ⊢
  cases judged with
  | further machine ok unjudged => exact absurd running ended
  | ended machine cause outcome failed judged => rfl
  | fatal machine cause failed unjudged => exact absurd running ended

theorem tick_further :
    resultOf (tick emulator) = .ok false ↔ resultOf (Machine.tick emulator.machine) = .ok () := by
  have judged := tick_judged running shown
  generalize tick emulator = result at judged ⊢
  cases judged with
  | further machine ok unjudged => exact iff_of_true rfl ok
  | ended machine cause outcome failed judged | fatal machine cause failed unjudged =>
    rw [failed]
    simp [resultOf]

theorem tick_fatal {cause : Error} (unjudged : ∀ outcome, emulator.machine.verdict? ≠ some outcome)
    (failed : resultOf (Machine.tick emulator.machine) = .error cause) :
    (stateAfter (tick emulator)).outcome = .running ∧
      resultOf (tick emulator) =
        .error (.runtime emulator.machine.pc (emulator.program.lineAt emulator.machine.pc) cause) := by
  have judged := tick_judged running shown
  generalize tick emulator = result at judged ⊢
  cases judged with
  | further machine ok unjudged' =>
    rw [failed] at ok
    cases ok
  | ended machine cause' outcome failed' judged => exact absurd judged (unjudged outcome)
  | fatal machine cause' failed' unjudged' =>
    rw [failed] at failed'
    cases failed'
    exact ⟨running,rfl⟩

/-- On a console whose failures are plain, the outcome is one of three. -/
theorem tick_outcome_plain (plain : emulator.machine.Plain) {outcome : Outcome}
    (ended : outcome ≠ .running) :
    (stateAfter (tick emulator)).outcome = outcome ↔
      outcome = .halt ∧ emulator.machine.AtHalt ∨
        outcome = .underflow ∧ emulator.machine.TakesFromEmpty ∨
          outcome = .endOfInput ∧ emulator.machine.MeetsEnd := by
  rw [tick_outcome_iff running shown ended,Machine.verdict?_eq_some,
    Machine.consoleGives_plain plain]

theorem running_classified (plain : emulator.machine.Plain) : emulator.Classified where
  halt := by
    rw [tick_outcome_plain running shown plain (by decide)]
    simp
  underflow := by
    rw [tick_outcome_plain running shown plain (by decide)]
    simp
  endOfInput := by
    rw [tick_outcome_plain running shown plain (by decide)]
    simp
  done := tick_done running shown
  remarked := by
    intro underflow
    apply tick_underflow running shown
    rw [tick_outcome_plain running shown plain (by decide)] at underflow
    simpa using underflow
  further := tick_further running shown
  fatal := by
    intro going filled fed cause failed
    have unjudged : ∀ outcome, emulator.machine.verdict? ≠ some outcome := by
      intro outcome judged
      rw [Machine.verdict?_eq_some,Machine.consoleGives_plain plain] at judged
      rcases judged with ⟨_,halts⟩ | ⟨_,takes⟩ | ⟨_,meets⟩
      · exact going halts
      · exact filled takes
      · exact fed meets
    obtain ⟨still,reported⟩ := tick_fatal running shown unjudged failed
    exact ⟨still,_,emulator.program.lineAt_isLineOf emulator.machine.pc,reported⟩

end classified

section finished

variable {emulator : Emulator} (finished : emulator.outcome ≠ .running)

/-- A call that may execute instructions. -/
def Call.advances : Call → Bool
  | .tick => true
  | .run _ => true
  | _ => false

/-- What ticks and runs answer when there is an outcome. Only the console can make a run
answer something else, and then it reports a failure. -/
def Answer.Repeats (outcome : Outcome) : Answer → Prop
  | .ticked result => result = .ok true
  | .ended answered failure => failure = none → answered = outcome
  | _ => False

include finished

theorem tickUpTo_finished (limit : Nat) : ∃ calls done,
    tickUpTo limit emulator = (calls, .ok done, emulator) := by
  cases limit with
  | zero => exact ⟨0,false,rfl⟩
  | succ limit => exact ⟨1,true,tickUpTo_ended finished limit⟩

theorem run_finished (limit : Nat) : ∃ answered failure,
    run limit emulator = (answered, failure,
      emulator.touched (emulator.machine.console.map attend) emulator.machine.probe) ∧
    (failure = none → answered = emulator.outcome) := by
  cases attached : emulator.machine.console with
  | none =>
    have refused : hold emulator = .error (.plain .consoleMissing) emulator := by
      refine @onMachine_error _ _ _ _ emulator.machine ?_
      unfold Machine.onConsole
      rw [attached]
    refine ⟨.running,some (.plain .consoleMissing),?_,by simp⟩
    rw [run,refused,Option.map_none,touched,← attached]
  | some console =>
    cases asked : Console.hold console with
    | error error left =>
      refine ⟨.running,some error,?_,by simp⟩
      rw [run,hold_error attached asked,Option.map_some,attend,asked]
      rfl
    | ok held opened =>
      obtain ⟨calls,done,ticked⟩ := @tickUpTo_finished
        { emulator with machine := { emulator.machine with console := some opened } } finished limit
      generalize entered : ({ emulator with
        machine := { emulator.machine with console := some opened } } : Emulator) = during at ticked
      have after : (conclude held (.ok done) during).2.2 =
          emulator.touched (some (attend console)) emulator.machine.probe := by
        rw [conclude_after,← entered,attend,asked]
        rfl
      refine ⟨(conclude held (.ok done) during).1,(conclude held (.ok done) during).2.1,?_,?_⟩
      · rw [run,hold_ok attached asked,entered]
        dsimp only
        rw [ticked]
        exact Prod.ext rfl (Prod.ext rfl after)
      · have outcome := congrArg Emulator.outcome after
        exact fun _ => outcome

theorem answer_finished {call : Call} (advances : call.advances = true) :
    (answer call emulator).1.Repeats emulator.outcome ∧
      (answer call emulator).2 =
        emulator.touched (emulator.machine.console.map call.attends) emulator.machine.probe := by
  cases call with
  | tick =>
    rw [answer,tick_ended finished]
    exact ⟨rfl,by simp [stateAfter,Call.attends,touched]⟩
  | run limit =>
    obtain ⟨answered,failure,ran,repeats⟩ := run_finished finished limit
    rw [answer,ran]
    exact ⟨repeats,rfl⟩
  | reset | hold | flush | release held => cases advances

theorem drive_finished {later : List Call} (advances : ∀ call ∈ later, call.advances = true) :
    (∀ given ∈ (drive later emulator).1, given.Repeats emulator.outcome) ∧
      (drive later emulator).2 =
        emulator.touched (emulator.machine.console.map (attendAll later)) emulator.machine.probe := by
  induction later generalizing emulator with
  | nil => simp [drive,touched,attendAll]
  | cons call later ih =>
    obtain ⟨repeats,left⟩ := answer_finished finished (advances call List.mem_cons_self)
    obtain ⟨all,final⟩ := @ih
      (emulator.touched (emulator.machine.console.map call.attends) emulator.machine.probe) finished
      (fun next member => advances next (List.mem_cons_of_mem _ member))
    simp only [drive,left]
    refine ⟨List.forall_mem_cons.mpr ⟨repeats,all⟩,?_⟩
    rw [final]
    simp [touched,attendAll,Function.comp_def]

end finished

/-- Where the words in front of the instruction cannot be shown, the tick breaks off before
it executes or records anything. -/
theorem tick_unshown {emulator : Emulator} (running : emulator.outcome = .running)
    (unshown : Unshown emulator.machine.pc emulator.peekWords) :
    tick emulator =
      .error (.sliceBounds (min (emulator.machine.pc.toNat : Int) memorySize +
          emulator.peekWords.toInt - Int64.size))
        (emulator.touched emulator.machine.console
          { emulator.machine.probe with verbose := emulator.verbose }) := by
  have wraps := (unshown_iff _ _).mp unshown
  have zero : (0 : Int64).toInt = 0 := rfl
  have asked := Int64.lt_iff_toInt_lt.mp unshown.1
  have whole : max emulator.peekWords.toInt 0 = emulator.peekWords.toInt := by
    rw [zero] at asked
    omega
  have last := peekRange_last emulator.machine.pc emulator.peekWords
  rw [whole,if_neg (Int.not_le.mpr wraps)] at last
  rw [tick_unprepared running (prepare_unshown emulator.verbose unshown),last]
  rfl

/-- Every tick is classified. While there is no outcome and the failures of the console are
plain, the machine before the tick tells how it ends, unless the end of the words to be shown
wraps around: then the tick breaks off, and nobody is told an error. Once there is an outcome,
ticks and runs execute nothing and only attend to the console. -/
theorem tick_classified (emulator : Emulator) :
    (emulator.outcome = .running →
      min (emulator.machine.pc.toNat : Int) memorySize + emulator.peekWords.toInt ≤
        Int64.maxValue.toInt → emulator.machine.Plain → emulator.Classified) ∧
    (emulator.outcome = .running →
      Int64.maxValue.toInt <
        min (emulator.machine.pc.toNat : Int) memorySize + emulator.peekWords.toInt →
      tick emulator =
        .error (.sliceBounds (min (emulator.machine.pc.toNat : Int) memorySize +
            emulator.peekWords.toInt - Int64.size))
          (emulator.touched emulator.machine.console
            { emulator.machine.probe with verbose := emulator.verbose })) ∧
    (emulator.outcome ≠ .running →
      ∀ later : List Call, (∀ call ∈ later, call.advances = true) →
        (∀ given ∈ (drive later emulator).1, given.Repeats emulator.outcome) ∧
          (drive later emulator).2 =
            emulator.touched (emulator.machine.console.map (attendAll later))
              emulator.machine.probe) := by
  refine ⟨?_,?_,?_⟩
  · intro running shown plain
    refine running_classified running ?_ plain
    rw [unshown_iff]
    exact Int.not_lt.mpr shown
  · intro running wraps
    exact tick_unshown running ((unshown_iff _ _).mpr wraps)
  · intro finished later advances
    exact drive_finished finished advances

/-- A word is taken from an empty stack. -/
def emptyPop : Emulator := { machine := { memory := Machine.padded [3, 32768], console := some {} } }

/-- More words are to be shown than addresses can count. -/
def endlessPeek : Emulator :=
  { peekWords := Int64.maxValue, machine := { pc := 1, memory := Machine.padded [21, 21] } }

theorem emptyPop_plain : emptyPop.machine.Plain where
  reads := by
    intro cause failed
    cases failed
    exact .inr rfl
  writes := by
    intro byte cause failed
    cases failed
    exact .inr rfl

theorem tick_classified_emptyPop :
    (stateAfter (tick emptyPop)).outcome = .underflow ∧
    (stateAfter (tick emptyPop)).machine.registers = emptyPop.machine.registers ∧
    tick endlessPeek =
      .error (.sliceBounds (-9223372036854775808)) (endlessPeek.touched none {}) := by
  have classified := (tick_classified emptyPop).1 rfl (by decide) emptyPop_plain
  have underflow : (stateAfter (tick emptyPop)).outcome = .underflow :=
    classified.underflow.mpr ⟨rfl,.inr ⟨by decide +kernel,32768,by decide +kernel,by decide⟩⟩
  obtain ⟨cause,failed,registers,remarked⟩ := classified.remarked underflow
  exact ⟨underflow,registers,(tick_classified endlessPeek).2.1 rfl (by decide)⟩

end Emulator
end WordMachine
