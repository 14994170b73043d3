import WordMachine.Proofs.Emulator.Comparison

/-! Diagnostics never change execution: an emulator gives the same answers, and ends in the
same state, whatever is traced, logged or shown before its instructions. -/
namespace WordMachine.Emulator

/-- An emulator without its settings and without what was observed of it. -/
def quiet (emulator : Emulator) : Emulator :=
  { emulator with
    verbose := false
    peekWords := 0
    machine := { emulator.machine with probe := {} } }

/-- From no address on the end of what is shown wraps around. -/
def PeeksInRange (peekWords : Int64) : Prop := peekWords.toInt ≤ 9223372036854775807 - 32768

/-- Settings that make no difference. -/
def Harmless (_ : Bool) (peekWords : Int64) (_ : Bool) (peekWords' : Int64) : Prop :=
  PeeksInRange peekWords ∧ PeeksInRange peekWords'

theorem toInt_min (a b : Int64) : (min a b).toInt = min a.toInt b.toInt := by
  change (if a ≤ b then a else b).toInt = _
  by_cases ordered : a ≤ b
  · rw [if_pos ordered,Int.min_eq_left (Int64.le_iff_toInt_le.mp ordered)]
  · rw [if_neg ordered]
    have below := mt Int64.le_iff_toInt_le.mpr ordered
    omega

theorem toInt_max_zero (a : Int64) : (max a 0).toInt = max a.toInt 0 := by
  have zero : (0 : Int64).toInt = 0 := rfl
  change (if a ≤ 0 then 0 else a).toInt = _
  by_cases ordered : a ≤ 0
  · have below := Int64.le_iff_toInt_le.mp ordered
    rw [if_pos ordered]
    omega
  · have above := mt Int64.le_iff_toInt_le.mpr ordered
    rw [if_neg ordered]
    omega

theorem peekRange_first (pc : Word) (count : Int64) :
    (Machine.peekRange pc count).1.toInt = min (pc.toNat : Int) memorySize := by
  have addr : (Int64.ofNat pc.toNat).toInt = pc.toNat :=
    Int64.toInt_ofNat_of_lt (Nat.lt_trans pc.toNat_lt (by decide))
  have size : (Int64.ofNat memorySize).toInt = memorySize := rfl
  exact (toInt_min _ _).trans (by rw [addr,size])

/-- The end of what is shown is exact unless the sum of the address and the number of words
leaves the range of the integers. It is then below every address. -/
theorem peekRange_last (pc : Word) (count : Int64) :
    (Machine.peekRange pc count).2.toInt =
      if min (pc.toNat : Int) memorySize + max count.toInt 0 ≤ Int64.maxValue.toInt then
        min (min (pc.toNat : Int) memorySize + max count.toInt 0) memorySize
      else min (pc.toNat : Int) memorySize + max count.toInt 0 - Int64.size := by
  have first := peekRange_first pc count
  have size : (Int64.ofNat memorySize).toInt = memorySize := rfl
  have greatest : Int64.maxValue.toInt = 9223372036854775807 := rfl
  have modulus : (Int64.size : Int) = 18446744073709551616 := rfl
  have words : (memorySize : Int) = 32768 := rfl
  have bound := count.toInt_lt
  change (min ((Machine.peekRange pc count).1 + max count 0) (Int64.ofNat memorySize)).toInt = _
  rw [toInt_min,Int64.toInt_add,toInt_max_zero,first,size,Int.bmod_def,greatest,modulus,words]
  split <;> omega

theorem peekRange_ordered (pc : Word) {peekWords : Int64} (harmless : PeeksInRange peekWords) :
    ¬ (Machine.peekRange pc peekWords).2 < (Machine.peekRange pc peekWords).1 := by
  have greatest : Int64.maxValue.toInt = 9223372036854775807 := rfl
  have words : (memorySize : Int) = 32768 := rfl
  unfold PeeksInRange at harmless
  rw [Int64.lt_iff_toInt_lt,peekRange_first,peekRange_last,if_pos (by omega)]
  omega

/-- A peek in range only leaves a trace. -/
theorem peek_harmless (machine : Machine) {peekWords : Int64} (harmless : PeeksInRange peekWords) :
    ∃ words probe, Machine.peek peekWords machine = .ok words { machine with probe := probe } := by
  unfold Machine.peek
  rw [get_bind]
  dsimp only
  rw [if_neg (peekRange_ordered machine.pc harmless)]
  exact ⟨_,_,rfl⟩

theorem prepare_harmless (verbose : Bool) (machine : Machine) {peekWords : Int64}
    (harmless : PeeksInRange peekWords) :
    ∃ probe, prepare verbose peekWords machine = .ok () { machine with probe := probe } := by
  unfold prepare
  split
  · obtain ⟨words,probe,shown⟩ :=
      peek_harmless { machine with probe := { machine.probe with verbose := verbose } } harmless
    exact ⟨probe,bind_of_ok shown⟩
  · exact ⟨_,rfl⟩

theorem respects_eq {σ α : Type} (action : EStateM Error σ α) : Respects Eq action := by
  intro left right same
  subst same
  cases action left with
  | ok value final => exact .ok value rfl
  | error error final => exact .error error rfl

theorem diagnostics_comparison : Comparison Eq (fun _ _ => True) Harmless where
  reads := respects_eq _
  writes := fun _ => respects_eq _
  flushes := respects_eq _
  holds := respects_eq _
  releases := fun held _ _ same => congrArg (·.release held) same
  recorded := Machine.recorded_anything
  observed := fun _ _ _ kin => .ok () (Machine.kin_probe kin trivial)
  prepared := by
    intro verbose peekWords verbose' peekWords' harmless left right kin
    obtain ⟨probe,prepared⟩ := prepare_harmless verbose left harmless.1
    obtain ⟨probe',prepared'⟩ := prepare_harmless verbose' right harmless.2
    rw [prepared,prepared']
    exact .ok () (Machine.kin_probe kin trivial)
  remarked := by
    intro verbose _ verbose' _ _ left right kin error
    obtain ⟨probe,remarked⟩ := remark_state (remarkOn verbose error left) left
    obtain ⟨probe',remarked'⟩ := remark_state (remarkOn verbose' error right) right
    rw [remarked,remarked']
    exact .ok () (Machine.kin_probe kin trivial)

theorem rel_eq {α : Type} {one other : Option α} : Option.Rel Eq one other ↔ one = other := by
  constructor
  · intro related
    cases related with
    | none => rfl
    | some same => rw [same]
  · intro same
    subst same
    cases one with
    | none => exact .none
    | some value => exact .some rfl

theorem akin_quiet {left right : Emulator}
    (akin : Akin Eq (fun _ _ => True) Harmless left right) : left.quiet = right.quiet := by
  have kin := akin.machine
  have console := rel_eq.mp kin.console
  unfold quiet
  dsimp only
  rw [akin.program,akin.outcome,kin.pc,kin.registers,kin.memory,kin.stack,kin.ticks,console]

theorem quiet_akin {left right : Emulator} (same : left.quiet = right.quiet)
    (harmless : PeeksInRange left.peekWords) (harmless' : PeeksInRange right.peekWords) :
    Akin Eq (fun _ _ => True) Harmless left right := by
  injection same with _ _ program outcome machine
  injection machine with pc registers memory stack console ticks
  refine ⟨⟨harmless,harmless'⟩,program.symm,outcome.symm,?_⟩
  exact ⟨pc.symm,registers.symm,memory.symm,stack.symm,ticks.symm,rel_eq.mpr console,trivial⟩

/-- Two emulators that differ in their diagnostics alone are driven alike: every sequence of
calls has the same answers, and leaves them in the same state but for the diagnostics. -/
theorem diagnostics_never_change_execution (left right : Emulator)
    (same : left.quiet = right.quiet) (harmless : PeeksInRange left.peekWords)
    (harmless' : PeeksInRange right.peekWords) (calls : List Call) :
    (drive calls left).1 = (drive calls right).1 ∧
      (drive calls left).2.quiet = (drive calls right).2.quiet := by
  have akin := quiet_akin same harmless harmless'
  obtain ⟨answers,final⟩ := drive_akin diagnostics_comparison calls akin
  exact ⟨answers,akin_quiet final⟩

/-- An emulator whose program writes a byte and halts. -/
def speaking (verbose tracing : Bool) (peekWords : Int64) : Emulator where
  verbose := verbose
  peekWords := peekWords
  program := { words := [19, 72, 0] }
  machine := { console := some { output := some {} }, probe := { tracing := tracing } }

/-- The most that can be shown, traced and logged, against nothing. -/
theorem diagnostics_never_change_execution_speaking :
    PeeksInRange 9223372036854743039 ∧ PeeksInRange (-1) ∧
    (drive [.reset, .tick, .run 3] (speaking true true 9223372036854743039)).1 =
      (drive [.reset, .tick, .run 3] (speaking false false (-1))).1 ∧
    (drive [.reset, .tick, .run 3] (speaking true true 9223372036854743039)).2.quiet =
      (drive [.reset, .tick, .run 3] (speaking false false (-1))).2.quiet := by
  have most : PeeksInRange 9223372036854743039 := by
    unfold PeeksInRange
    decide
  have least : PeeksInRange (-1) := by
    unfold PeeksInRange
    decide
  have same : (speaking true true 9223372036854743039).quiet =
      (speaking false false (-1)).quiet := rfl
  refine ⟨most,least,?_⟩
  exact diagnostics_never_change_execution (speaking true true 9223372036854743039)
    (speaking false false (-1)) same most least [.reset, .tick, .run 3]

end WordMachine.Emulator
