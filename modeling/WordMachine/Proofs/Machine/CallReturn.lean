import WordMachine.Proofs.Machine.Range

/-! Calls and returns. What the stack held at a call, and the return address above it, stay
at the bottom of the stack for as long as no instruction takes a word from that depth. The
first return that does so comes back to the call. -/
namespace WordMachine.Machine

/-- The next instruction takes the top entry off the stack. -/
def TakesTop (machine : Machine) : Prop :=
  machine.memory[machine.pc.toNat]? = some Opcode.pop.word ∨
    machine.memory[machine.pc.toNat]? = some Opcode.ret.word

instance (machine : Machine) : Decidable machine.TakesTop :=
  inferInstanceAs (Decidable (_ ∨ _))

theorem suffix_tail {α : Type} {base entries : List α} (rests : base <:+ entries)
    (deep : base.length < entries.length) : base <:+ entries.tail := by
  obtain ⟨above,joined⟩ := rests
  cases above with
  | nil =>
    rw [← joined,List.nil_append] at deep
    exact absurd deep (Nat.lt_irrefl _)
  | cons top above =>
    rw [← joined]
    exact List.suffix_append above base

theorem after_base {machine : Machine} {opcode : Opcode} {base : List Word}
    (executable : Executable machine opcode)
    (deep : machine.TakesTop → base.length < machine.stack.depth)
    (rests : base <:+ machine.stack.entries) : base <:+ (machine.after opcode).stack.entries := by
  cases opcode with
  | push | call => exact rests.trans (List.suffix_cons _ _)
  | pop => exact suffix_tail rests (deep (.inl executable.fetched))
  | ret => exact suffix_tail rests (deep (.inr executable.fetched))
  | jt | jf | input =>
    simp only [after]
    split
    · exact rests
    · exact rests
  | halt | noop | jmp | wmem | output | set | eq | gt | add | mult | mod | and | or | not | rmem =>
    exact rests

theorem ticked_base {machine : Machine} {base : List Word}
    (deep : machine.TakesTop → base.length < machine.stack.depth)
    (rests : base <:+ machine.stack.entries) : base <:+ machine.ticked.stack.entries := by
  rcases ticked_cases machine with ⟨opcode,executable,effect⟩ | ⟨-,begun,count,fetched⟩
  · have stack := congrArg Machine.stack effect
    change machine.ticked.stack = _ at stack
    rw [stack]
    exact after_base executable deep rests
  · rw [fetched.stack]
    exact rests

theorem run_base {first final : Machine} {trace : List Machine} {base : List Word}
    (rests : base <:+ first.stack.entries) (run : Run first trace final)
    (deep : ∀ visited ∈ trace, visited.TakesTop → base.length < visited.stack.depth) :
    ∀ moment ∈ trace ++ [final], base <:+ moment.stack.entries := by
  induction run with
  | start =>
    intro moment member
    rw [List.mem_singleton.mp member]
    exact rests
  | tick trace machine console probe run ih =>
    have before := ih fun visited member => deep visited (List.mem_append_left _ member)
    have last : base <:+ machine.stack.entries := before machine (by simp)
    intro moment member
    rcases List.mem_append.mp member with visited | final
    · rcases List.mem_append.mp visited with earlier | begun
      · exact before moment (List.mem_append_left _ earlier)
      · rw [List.mem_singleton.mp begun]
        exact last
    · rw [List.mem_singleton.mp final]
      exact ticked_base (deep _ (List.mem_append_right _ (List.mem_singleton_self _))) last

/-- The entries with the bottom first start with a base, whose own top entry is first. -/
theorem take_toList {base : List Word} {stack : Stack} (rests : base <:+ stack.entries) :
    stack.toList.take base.length = base.reverse := by
  obtain ⟨above,joined⟩ := rests
  rw [Stack.toList,← joined,List.reverse_append,← List.length_reverse,List.take_left]

theorem call_effect {machine called : Machine}
    (calls : machine.memory[machine.pc.toNat]? = some Opcode.call.word)
    (ok : tick machine = .ok () called) :
    machine.pc.toNat + 2 ≤ 32768 ∧ called.stack.entries = (machine.pc + 2) :: machine.stack.entries := by
  obtain ⟨opcode,executable⟩ := tick_executable ok
  have same : opcode = .call :=
    Opcode.word_injective (Option.some.inj (executable.fetched.symm.trans calls))
  subst same
  have inside : machine.pc.toNat + 2 ≤ 32768 := executable.inside
  obtain ⟨final,reached,effect⟩ := executable_tick executable
  rw [ok] at reached
  cases reached
  have next : (machine.pc.toNat + 2).toUInt16 = machine.pc + 2 := by
    apply UInt16.toNat_inj.mp
    rw [Nat.toUInt16_eq,UInt16.toNat_ofNat',UInt16.toNat_add]
    rfl
  have stack := congrArg (fun after : Machine => after.stack.entries) effect
  change called.stack.entries = (machine.pc.toNat + 2).toUInt16 :: machine.stack.entries at stack
  rw [next] at stack
  exact ⟨inside,stack⟩

/-- A return succeeds if there is an entry to return to. -/
theorem ret_effect {machine : Machine} {top : Word} {rest : List Word}
    (returns : machine.memory[machine.pc.toNat]? = some Opcode.ret.word)
    (entries : machine.stack.entries = top :: rest) :
    ∃ returned, tick machine = .ok () returned ∧ returned.pc = top ∧ returned.stack.entries = rest := by
  have executable : Executable machine .ret := by
    refine ⟨⟨returns,?_,?_⟩,by decide,by simp [Enables,Stack.isEmpty,entries]⟩
    · exact (Vector.getElem?_eq_some_iff.mp returns).1
    · intro index kind listed
      simp [Opcode.operands] at listed
  obtain ⟨returned,ok,effect⟩ := executable_tick executable
  refine ⟨returned,ok,?_,?_⟩
  · have pc := congrArg Machine.pc effect
    change returned.pc = machine.stack.peek?.getD 0 at pc
    rw [pc,Stack.peek?,entries]
    rfl
  · have stack := congrArg (fun after : Machine => after.stack.entries) effect
    change returned.stack.entries = machine.stack.entries.tail at stack
    rw [stack,entries,List.tail_cons]

/-- After a call, whatever its operand names, ticks may follow that push and pop, call and
return, jump and write to memory as they like. As long as none of them takes an entry from
the depth of the return address, the stack rests on the entries before the call and on the
return address. A return at that depth succeeds, goes to the word after the call, and
leaves the stack as it was before the call. -/
theorem call_returns {machine called final : Machine} {trace : List Machine}
    (calls : machine.memory[machine.pc.toNat]? = some Opcode.call.word)
    (ok : tick machine = .ok () called) (run : Run called trace final)
    (deep : ∀ visited ∈ trace, visited.TakesTop → machine.stack.depth + 1 < visited.stack.depth) :
    (∀ moment ∈ trace ++ [final],
      moment.stack.toList.take (machine.stack.depth + 1) = machine.stack.toList ++ [machine.pc + 2]) ∧
    (final.memory[final.pc.toNat]? = some Opcode.ret.word →
      final.stack.depth = machine.stack.depth + 1 →
        ∃ returned, tick final = .ok () returned ∧ returned.pc.toNat = machine.pc.toNat + 2 ∧
          returned.stack = machine.stack) := by
  obtain ⟨inside,pushed⟩ := call_effect calls ok
  have rests : (machine.pc + 2) :: machine.stack.entries <:+ called.stack.entries :=
    ⟨[],pushed.symm⟩
  have based := run_base rests run deep
  refine ⟨?_,?_⟩
  · intro moment member
    have bottom := take_toList (based moment member)
    rw [List.reverse_cons] at bottom
    exact bottom
  · intro returns depth
    have last := based final (by simp)
    have entries : final.stack.entries = (machine.pc + 2) :: machine.stack.entries :=
      (last.eq_of_length depth.symm).symm
    obtain ⟨returned,done,pc,stack⟩ := ret_effect returns entries
    refine ⟨returned,done,?_,congrArg Stack.mk stack⟩
    rw [pc,UInt16.toNat_add]
    change (machine.pc.toNat + 2) % 65536 = _
    omega

/-- A machine before a call of the routine at address 4, which pushes a word, pops it and
returns. The first register holds that address, too. -/
def caller (operand : Word) : Machine :=
  { registers := (Vector.replicate registerCount 0).setIfInBounds 0 4
    memory := padded [17, operand, 0, 0, 2, 7, 3, 32769, 18]
    stack := ⟨[9]⟩ }

/-- The routine runs, and its return goes to the word after the call. -/
def CallerReturns (operand : Word) : Prop :=
  ∃ returned, Run (caller operand).ticked [(caller operand).ticked, (caller operand).ticked.ticked]
      (caller operand).ticked.ticked.ticked ∧
    tick (caller operand).ticked.ticked.ticked = .ok () returned ∧ returned.pc.toNat = 2 ∧
    returned.stack = ⟨[9]⟩

/-- The operand of the call is a literal, or names the register. -/
theorem call_returns_caller : CallerReturns 4 ∧ CallerReturns 32768 := by
  have each : ∀ operand,
      (caller operand).memory[(caller operand).pc.toNat]? = some Opcode.call.word →
      (caller operand).diagnosis = none → ¬ (caller operand).ticked.TakesTop →
      (caller operand).stack.depth + 1 < (caller operand).ticked.ticked.stack.depth →
      (caller operand).ticked.ticked.ticked.memory[
        (caller operand).ticked.ticked.ticked.pc.toNat]? = some Opcode.ret.word →
      (caller operand).ticked.ticked.ticked.stack.depth = 2 → CallerReturns operand := by
    intro operand calls sound first second returns depth
    have begun : Run (caller operand).ticked [] (caller operand).ticked := .start
    have run := run_next (run_next begun)
    have deep : ∀ visited ∈ [(caller operand).ticked, (caller operand).ticked.ticked],
        visited.TakesTop → (caller operand).stack.depth + 1 < visited.stack.depth := by
      intro visited member takes
      rcases List.mem_cons.mp member with rfl | later
      · exact absurd takes first
      · rw [List.mem_singleton.mp later]
        exact second
    obtain ⟨returned,done,pc,stack⟩ :=
      (call_returns calls (ticked_of_sound sound) run deep).2 returns depth
    exact ⟨returned,run,done,pc,stack⟩
  constructor
  · apply each 4
    all_goals decide +kernel
  · apply each 32768
    all_goals decide +kernel

end WordMachine.Machine
