import WordMachine.Proofs.Emulator.EndOfInput

/-! Words that are shown ahead of an instruction. A peek stays within memory as long as the
sum of the address and the number of words is a signed 64-bit integer. Beyond that the sum
wraps around and the peek breaks off, and with it the tick and the run that asked for it. -/
namespace WordMachine

namespace Machine

/-- A peek shows the words from the program counter on, as many as are asked for and memory
has, and leaves nothing but its event in the trace. -/
structure ShowsAhead (machine : Machine) (count : Int64) : Prop where
  first : (peekRange machine.pc count).1.toInt = min (machine.pc.toNat : Int) memorySize
  last : (peekRange machine.pc count).2.toInt =
    min (machine.pc.toNat + max count.toInt 0) memorySize
  ordered : (peekRange machine.pc count).1.toInt ≤ (peekRange machine.pc count).2.toInt
  within : 0 ≤ (peekRange machine.pc count).1.toInt ∧
    (peekRange machine.pc count).2.toInt ≤ memorySize
  shown : ∃ addr : Word, addr.toNat = min machine.pc.toNat memorySize ∧
    ∃ words, words = (machine.memory.toList.drop machine.pc.toNat).take count.toInt.toNat ∧
      peek count machine =
        .ok words { machine with probe := machine.probe.trace (.peeked addr words) }

section peek

variable {machine : Machine} {count : Int64}

theorem peek_eq : peek count machine =
    if (peekRange machine.pc count).2 < (peekRange machine.pc count).1 then
      .error (.sliceBounds (peekRange machine.pc count).2.toInt) machine
    else
      let words := (machine.memory.toArray.extract (peekRange machine.pc count).1.toInt.toNat
        (peekRange machine.pc count).2.toInt.toNat).toList
      .ok words { machine with
        probe := machine.probe.trace
          (.peeked (UInt16.ofInt (peekRange machine.pc count).1.toInt) words) } := by
  unfold peek
  rw [get_bind]
  dsimp only
  split
  · rfl
  · rfl

/-- Beyond memory there are no words, so that an exact end and a clamped one show the same. -/
theorem extract_clamped (memory : Memory) (addr number : Nat) :
    (memory.toArray.extract (min addr memorySize) (min (addr + number) memorySize)).toList =
      (memory.toList.drop addr).take number := by
  have size : memory.toList.length = memorySize := memory.length_toList
  have listed : memory.toArray.toList = memory.toList := rfl
  rw [Array.toList_extract,listed,List.extract_eq_take_drop]
  by_cases inside : addr ≤ memorySize
  · rw [Nat.min_eq_left inside,List.take_eq_take_iff,List.length_drop,size]
    omega
  · have beyond : memory.toList.drop addr = [] := List.drop_eq_nil_of_le (by omega)
    rw [beyond,List.drop_eq_nil_of_le (by omega),List.take_nil,List.take_nil]

theorem peek_exact
    (fits : min (machine.pc.toNat : Int) memorySize + max count.toInt 0 ≤ Int64.maxValue.toInt) :
    machine.ShowsAhead count := by
  have small : (memorySize : Int) = 32768 := rfl
  have first := Emulator.peekRange_first machine.pc count
  have last := Emulator.peekRange_last machine.pc count
  rw [if_pos fits] at last
  have last' : (peekRange machine.pc count).2.toInt =
      min (machine.pc.toNat + max count.toInt 0) memorySize := by omega
  refine ⟨first,last',by omega,by omega,?_⟩
  have ordered : ¬ (peekRange machine.pc count).2 < (peekRange machine.pc count).1 := by
    rw [Int64.lt_iff_toInt_lt]
    omega
  have start : (peekRange machine.pc count).1.toInt.toNat = min machine.pc.toNat memorySize := by
    omega
  have stop : (peekRange machine.pc count).2.toInt.toNat =
      min (machine.pc.toNat + count.toInt.toNat) memorySize := by omega
  have shown := extract_clamped machine.memory machine.pc.toNat count.toInt.toNat
  refine ⟨UInt16.ofInt (peekRange machine.pc count).1.toInt,?_,_,rfl,?_⟩
  · have kept : (min (machine.pc.toNat : Int) 32768 % 2 ^ 16).toNat =
        min machine.pc.toNat memorySize := by omega
    rw [first,small,UInt16.ofInt,kept]
    exact UInt16.toNat_ofNat_of_lt' (Nat.lt_of_le_of_lt (Nat.min_le_right _ _) (by decide))
  · rw [peek_eq,if_neg ordered,start,stop,shown]

theorem peek_wrapped
    (wraps : Int64.maxValue.toInt < min (machine.pc.toNat : Int) memorySize + max count.toInt 0) :
    peek count machine =
      .error (.sliceBounds
        (min (machine.pc.toNat : Int) memorySize + count.toInt - Int64.size)) machine := by
  have greatest : Int64.maxValue.toInt = 9223372036854775807 := rfl
  have modulus : (Int64.size : Int) = 18446744073709551616 := rfl
  have small : (memorySize : Int) = 32768 := rfl
  have bound := count.toInt_lt
  have first := Emulator.peekRange_first machine.pc count
  have last := Emulator.peekRange_last machine.pc count
  rw [if_neg (by omega),Int.max_eq_left (by omega)] at last
  have empty : (peekRange machine.pc count).2 < (peekRange machine.pc count).1 := by
    rw [Int64.lt_iff_toInt_lt]
    omega
  rw [peek_eq,if_pos empty,last]

end peek

end Machine

namespace Emulator

/-- A call broke off because the words ahead of an instruction could not be shown. -/
def Answer.BreaksOff (given : Answer) : Prop := ∃ last, given.failure? = some (.sliceBounds last)

/-- A tick begins where the words ahead of the instruction cannot be shown. -/
def Stuck (emulator : Emulator) : Prop :=
  emulator.outcome = .running ∧ Unshown emulator.machine.pc emulator.peekWords

theorem tick_breaks_iff (emulator : Emulator) :
    (∃ last, resultOf (tick emulator) = .error (.sliceBounds last)) ↔ emulator.Stuck := by
  constructor
  · rintro ⟨last,failed⟩
    by_cases running : emulator.outcome = .running
    · refine ⟨running,Classical.byContradiction fun shown => ?_⟩
      have judged := tick_judged running shown
      generalize tick emulator = result at judged failed
      cases judged with
      | further | ended => cases failed
      | fatal machine cause refused unjudged => cases failed
    · rw [tick_ended running] at failed
      cases failed
  · rintro ⟨running,unshown⟩
    rw [tick_unshown running unshown]
    exact ⟨_,rfl⟩

theorem tickFrom_breaks_iff (calls limit : Nat) (emulator : Emulator) :
    (∃ last, (tickFrom calls limit emulator).2.1 = .error (.sliceBounds last)) ↔
      ∃ begun ∈ ticksFrom limit emulator, begun.Stuck := by
  induction limit generalizing calls emulator with
  | zero => simp [tickFrom,ticksFrom]
  | succ limit ih =>
    have first := tick_breaks_iff emulator
    rw [tickFrom,ticksFrom]
    cases ticked : tick emulator with
    | error error next =>
      rw [ticked] at first
      simp only [List.mem_singleton,exists_eq_left]
      exact first
    | ok done next =>
      rw [ticked] at first
      have unstuck : ¬ emulator.Stuck := by
        rw [← first]
        rintro ⟨last,failed⟩
        cases failed
      cases done with
      | true => simpa using unstuck
      | false =>
        simp only [List.mem_cons,exists_eq_or_imp,unstuck,false_or]
        exact ih (calls + 1) next

/-- A run breaks off where its ticks do: neither the hold on the console nor the delivery of
output fails in this way. -/
theorem run_breaks_iff (limit : Nat) (emulator : Emulator) :
    (answer (.run limit) emulator).1.BreaksOff ↔
      ∃ begun ∈ emulator.ticksOf (.run limit), begun.Stuck := by
  simp only [answer,run,ticksOf]
  cases opened : hold emulator with
  | error error left =>
    have ordinary := (onConsole_ordinary Console.hold_fails opened).2
    simpa [Answer.BreaksOff,Answer.failure?] using ordinary
  | ok held next =>
    rw [← tickFrom_breaks_iff 0 limit next]
    change (∃ last, (conclude held (tickUpTo limit next).2.1 (tickUpTo limit next).2.2).2.1 =
      some (.sliceBounds last)) ↔ ∃ last, (tickUpTo limit next).2.1 = .error (.sliceBounds last)
    cases (tickUpTo limit next).2.1 with
    | error error => simp [conclude]
    | ok done =>
      simp only [conclude,reduceCtorEq,exists_false,iff_false]
      rintro ⟨last,undelivered⟩
      unfold deliver at undelivered
      cases flushed : flush (tickUpTo limit next).2.2 with
      | ok value left => simp [flushed] at undelivered
      | error other left =>
        simp only [flushed,Option.some.injEq] at undelivered
        exact (onConsole_ordinary Console.flush_fails flushed).2 last undelivered

theorem answer_breaks_iff (call : Call) (emulator : Emulator) :
    (answer call emulator).1.BreaksOff ↔ ∃ begun ∈ emulator.ticksOf call, begun.Stuck := by
  cases call with
  | run limit => exact run_breaks_iff limit emulator
  | tick =>
    have breaks := tick_breaks_iff emulator
    simp only [answer,ticksOf,List.mem_singleton,exists_eq_left,← breaks,Answer.BreaksOff]
    cases tick emulator with
    | ok done next => simp [resultOf,Answer.failure?]
    | error error next => simp [resultOf,Answer.failure?]
  | reset =>
    simp only [ticksOf,List.not_mem_nil,false_and,exists_false,iff_false]
    rintro ⟨last,failed⟩
    by_cases fits : emulator.program.words.length ≤ memorySize
    · obtain ⟨machine,ok⟩ := reset_fits fits
      simp [answer,ok,resultOf,Answer.failure?] at failed
    · simp [answer,reset_large (Nat.lt_of_not_le fits),resultOf,Answer.failure?] at failed
  | hold | flush | release held => simp [answer,ticksOf,Answer.BreaksOff,Answer.failure?]

theorem drive_breaks_iff (calls : List Call) (emulator : Emulator) :
    (∃ given ∈ (drive calls emulator).1, given.BreaksOff) ↔
      ∃ begun ∈ ticksDuring calls emulator, begun.Stuck := by
  induction calls generalizing emulator with
  | nil => simp [drive,ticksDuring]
  | cons call calls ih =>
    simp only [drive,ticksDuring,List.mem_cons,List.mem_append,or_and_right,exists_or,exists_eq_left,
      answer_breaks_iff call emulator,ih]

theorem tick_peekWords (emulator : Emulator) :
    (stateAfter (tick emulator)).peekWords = emulator.peekWords := by
  by_cases running : emulator.outcome = .running
  · cases prepared : prepare emulator.verbose emulator.peekWords emulator.machine with
    | error error machine =>
      rw [tick_unprepared running prepared]
      rfl
    | ok value ready =>
      cases ran : Machine.tick ready with
      | ok value machine =>
        rw [tick_ok running prepared ran]
        rfl
      | error error machine =>
        rw [tick_error running prepared ran,settle_noted]
        cases Outcome.ofError? error with
        | some outcome => rfl
        | none => rfl
  · rw [tick_ended running]
    rfl

/-- No call changes how many words are shown. -/
theorem course_peekWords {start final : Emulator} {ticks : List Emulator}
    (course : Course start ticks final) :
    (∀ begun ∈ ticks, begun.peekWords = start.peekWords) ∧ final.peekWords = start.peekWords := by
  induction course with
  | start => exact ⟨fun _ member => absurd member List.not_mem_nil,rfl⟩
  | @reset ticks emulator before ih =>
    refine ⟨ih.1,?_⟩
    by_cases fits : emulator.program.words.length ≤ memorySize
    · obtain ⟨machine,ok⟩ := reset_fits fits
      rw [ok]
      exact ih.2
    · rw [reset_large (Nat.lt_of_not_le fits)]
      exact ih.2
  | tick before ih =>
    exact ⟨List.forall_mem_append.mpr ⟨ih.1,by simpa using ih.2⟩,(tick_peekWords _).trans ih.2⟩
  | hold before ih | flush before ih | release held before ih => exact ih

theorem drive_breaks {calls : List Call} {emulator : Emulator} {count : Int64}
    (shows : emulator.peekWords = count) :
    (∃ given ∈ (drive calls emulator).1, given.BreaksOff) ↔
      ∃ begun ∈ ticksDuring calls emulator, begun.outcome = .running ∧
        Int64.maxValue.toInt < min (begun.machine.pc.toNat : Int) memorySize + count.toInt := by
  have course := drive_course calls (@Course.start emulator)
  rw [List.nil_append] at course
  have kept := (course_peekWords course).1
  rw [drive_breaks_iff]
  apply exists_congr
  intro begun
  apply and_congr_right
  intro member
  rw [Stuck,unshown_iff,kept begun member,shows]

/-- Where the program counter is beyond memory, the most can be added to it. -/
def atEnd (count : Int64) : Emulator := { peekWords := count, machine := { pc := 32768 } }

/-- A peek is clamped to memory unless the sum of the address and the number of words wraps
around, and then it breaks off. A run breaks off if and only if one of its instructions
begins where the sum wraps around, and no run ever does so if and only if the number of
words leaves room for every address. -/
theorem peek_clamped (count : Int64) :
    (∀ machine : Machine,
      (min (machine.pc.toNat : Int) memorySize + max count.toInt 0 ≤ Int64.maxValue.toInt →
        machine.ShowsAhead count) ∧
      (Int64.maxValue.toInt < min (machine.pc.toNat : Int) memorySize + max count.toInt 0 →
        Machine.peek count machine =
          .error (.sliceBounds
            (min (machine.pc.toNat : Int) memorySize + count.toInt - Int64.size)) machine)) ∧
    (∀ emulator : Emulator, emulator.peekWords = count → ∀ calls : List Call,
      ((∃ given ∈ (drive calls emulator).1, given.BreaksOff) ↔
        ∃ begun ∈ ticksDuring calls emulator, begun.outcome = .running ∧
          Int64.maxValue.toInt < min (begun.machine.pc.toNat : Int) memorySize + count.toInt)) ∧
    ((∀ emulator : Emulator, emulator.peekWords = count → ∀ calls : List Call,
        ∀ given ∈ (drive calls emulator).1, ¬ given.BreaksOff) ↔
      count.toInt ≤ Int64.maxValue.toInt - memorySize) := by
  have small : (memorySize : Int) = 32768 := rfl
  refine ⟨fun machine => ⟨Machine.peek_exact,Machine.peek_wrapped⟩,fun _ shows _ => drive_breaks shows,?_⟩
  constructor
  · intro unbroken
    refine Classical.byContradiction fun large => ?_
    -- At the end of memory one tick is enough.
    have stuck : ∃ begun ∈ ticksDuring [.tick] (atEnd count), begun.outcome = .running ∧
        Int64.maxValue.toInt < min (begun.machine.pc.toNat : Int) memorySize + count.toInt := by
      refine ⟨atEnd count,List.mem_singleton_self _,rfl,?_⟩
      change _ < (32768 : Int) + count.toInt
      omega
    obtain ⟨given,member,breaks⟩ := (drive_breaks rfl).mpr stuck
    exact unbroken (atEnd count) rfl [.tick] given member breaks
  · intro small emulator shows calls given member breaks
    obtain ⟨begun,-,-,wraps⟩ := (drive_breaks shows).mp ⟨given,member,breaks⟩
    omega

/-- Two words before the end of a memory that holds nothing. -/
def nearEnd : Machine := { pc := 32766 }

/-- From the second instruction on there are more words to be shown than addresses can count. -/
def twoSteps : Emulator :=
  { peekWords := Int64.maxValue, machine := { memory := Machine.padded [21, 21] } }

theorem peek_clamped_twoSteps :
    (∃ probe, Machine.peek 4 nearEnd = .ok [0, 0] { nearEnd with probe := probe }) ∧
    Machine.peek Int64.maxValue nearEnd =
      .error (.sliceBounds (-9223372036854743043)) nearEnd ∧
    (∃ given ∈ (drive [.tick, .tick] twoSteps).1, given.BreaksOff) := by
  refine ⟨?_,((peek_clamped Int64.maxValue).1 nearEnd).2 (by decide),?_⟩
  · obtain ⟨addr,-,words,ahead,shown⟩ := (((peek_clamped 4).1 nearEnd).1 (by decide)).shown
    have two : words = [0, 0] := by
      have zeros : nearEnd.memory.toList = List.replicate memorySize 0 := Vector.toList_replicate
      rw [ahead,zeros,List.drop_replicate,List.take_replicate]
      rfl
    rw [two] at shown
    exact ⟨_,shown⟩
  · apply ((peek_clamped Int64.maxValue).2.1 twoSteps rfl [.tick, .tick]).mpr
    refine ⟨(answer .tick twoSteps).2,by simp [ticksDuring,ticksOf],by decide +kernel,by decide +kernel⟩

end Emulator
end WordMachine
