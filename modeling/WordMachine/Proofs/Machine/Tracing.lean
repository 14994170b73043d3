import WordMachine.Proofs.Machine.Range

/-! What a trace shows of a run. The fetches of a tick are the words of memory from the
program counter on, as they were before the tick, and those of a tick that goes well are one
whole instruction. So the fetches of such ticks can be cut into instructions in one way only,
and they tell where each instruction stood. -/
namespace WordMachine.Machine

/-- A probe that shows, since an earlier machine, the fetches of `count` words from its
program counter on. -/
structure Traced (origin : Machine) (count : Nat) (probe : Probe) : Prop where
  tracing : probe.tracing = origin.probe.tracing
  fetches : origin.probe.tracing = true →
    probe.fetches = origin.probe.fetches ++ wordsFrom origin.memory origin.pc.toNat count

theorem fetched_traced {origin machine : Machine} {begun count : Nat}
    (fetched : Fetched origin begun count machine) : Traced origin count machine.probe :=
  ⟨fetched.tracing,fetched.traced⟩

/-- An action of which nothing is observed, whether or not it fails. -/
def Unseen {α : Type} (action : Step α) : Prop :=
  ∀ machine, (stateAfter (action machine)).probe = machine.probe

section unseen

variable {α β : Type}

theorem unseen_pure (value : α) : Unseen (pure value : Step α) := fun _ => rfl

theorem unseen_throw (error : Error) : Unseen (throw error : Step α) := fun _ => rfl

theorem unseen_get : Unseen (get : Step Machine) := fun _ => rfl

theorem unseen_bind {first : Step α} {next : α → Step β} (one : Unseen first)
    (two : ∀ value, Unseen (next value)) : Unseen (first >>= next) := by
  intro machine
  have begun := one machine
  cases ran : first machine with
  | ok value after =>
    rw [ran] at begun
    rw [bind_of_ok ran]
    exact (two value after).trans begun
  | error error after =>
    rw [ran] at begun
    rw [bind_of_error ran]
    exact begun

theorem unseen_setRegister (register : Fin registerCount) (value : Word) :
    Unseen (setRegister register value) := fun _ => rfl

theorem unseen_setMemory (addr : Fin memorySize) (value : Word) : Unseen (setMemory addr value) :=
  fun _ => rfl

theorem unseen_jump (addr : Word) : Unseen (jump addr) := fun _ => rfl

theorem unseen_pushWord (word : Word) : Unseen (pushWord word) := fun _ => rfl

theorem unseen_popWord : Unseen popWord := by
  intro machine
  cases entries : machine.stack.entries with
  | nil => rw [popWord_none entries]; rfl
  | cons top rest => rw [popWord_some entries]; rfl

theorem unseen_onConsole (action : Console.Use α) : Unseen (onConsole action) := by
  intro machine
  rcases onConsole_cases action machine with ⟨cause,console,failed,-⟩ | ⟨result,console,used,-⟩
  · rw [failed]
    rfl
  · rw [used]
    rfl

end unseen

/-- An action that fetches one word if it goes well. -/
def FetchesOne {α : Type} (action : Step α) : Prop :=
  ∀ machine value next, action machine = .ok value next →
    ∃ raw, machine.memory[machine.pc.toNat]? = some raw ∧ next = machine.advance raw

theorem fetch_fetches : FetchesOne fetch := fun _ raw _ ok => ⟨raw,fetch_success ok⟩

theorem fetchValue_fetches : FetchesOne fetchValue := by
  intro machine value next ok
  obtain ⟨raw,there,-,-,advanced⟩ := fetchValue_success ok
  exact ⟨raw,there,advanced⟩

theorem fetchRegister_fetches : FetchesOne fetchRegister := by
  intro machine value next ok
  obtain ⟨raw,there,-,-,advanced⟩ := fetchRegister_success ok
  exact ⟨raw,there,advanced⟩

theorem fetchAddress_fetches : FetchesOne fetchAddress := by
  intro machine addr next ok
  obtain ⟨value,fetched,-⟩ := fetchAddress_success ok
  exact fetchValue_fetches machine value next fetched

/-- An action that goes well in a machine that fetched `count` words since the origin leaves
one that fetched `total` words since then. -/
def Completes (origin : Machine) (count total : Nat) (action : Step Unit) : Prop :=
  ∀ machine final, Fetched origin 1 count machine → action machine = .ok () final →
    Traced origin total final.probe

section completes

variable {origin : Machine} {count total : Nat}

theorem completes_unseen {action : Step Unit} (unseen : Unseen action) :
    Completes origin count count action := by
  intro machine final fetched ok
  have same := unseen machine
  rw [ok] at same
  change final.probe = machine.probe at same
  rw [same]
  exact fetched_traced fetched

theorem completes_fetch {α : Type} {action : Step α} {next : α → Step Unit}
    (fetches : FetchesOne action) (later : ∀ value, Completes origin (count + 1) total (next value)) :
    Completes origin count total (action >>= next) := by
  intro machine final fetched ok
  obtain ⟨value,between,first,rest⟩ := bind_success ok
  obtain ⟨raw,there,rfl⟩ := fetches machine value between first
  exact later value _ final (fetched_advance fetched there) rest

theorem completes_get {next : Machine → Step Unit}
    (later : ∀ machine, Completes origin count total (next machine)) :
    Completes origin count total (get >>= next) :=
  fun machine => later machine machine

theorem completes_onConsole {α : Type} {action : Console.Use α} {next : α → Step Unit}
    (later : ∀ value, Completes origin count total (next value)) :
    Completes origin count total (onConsole action >>= next) := by
  intro machine final fetched ok
  rcases onConsole_cases action machine with ⟨cause,console,failed,-⟩ | ⟨result,console,used,-⟩
  · rw [bind_of_error failed] at ok
    cases ok
  · rw [bind_of_ok used] at ok
    exact later result _ final (fetched_console fetched console) ok

/-- Every operation fetches the operands that the instruction table lists for it. -/
theorem perform_completes (opcode : Opcode) : Completes origin 1 opcode.width (perform opcode) := by
  cases opcode with
  | halt => exact completes_unseen (unseen_throw _)
  | noop => exact completes_unseen (unseen_pure _)
  | set | not =>
    exact completes_fetch fetchRegister_fetches fun _ => completes_fetch fetchValue_fetches fun _ =>
      completes_unseen (unseen_setRegister _ _)
  | eq | gt | add | mult | and | or =>
    exact completes_fetch fetchRegister_fetches fun _ => completes_fetch fetchValue_fetches fun _ =>
      completes_fetch fetchValue_fetches fun _ => completes_unseen (unseen_setRegister _ _)
  | mod =>
    refine completes_fetch fetchRegister_fetches fun register =>
      completes_fetch fetchValue_fetches fun b => completes_fetch fetchValue_fetches fun c => ?_
    apply completes_unseen
    split
    · exact unseen_bind (unseen_throw _) fun _ => unseen_setRegister _ _
    · exact unseen_setRegister _ _
  | jt | jf =>
    refine completes_fetch fetchValue_fetches fun a => completes_fetch fetchValue_fetches fun b => ?_
    apply completes_unseen
    split
    · exact unseen_jump b
    · exact unseen_pure _
  | push => exact completes_fetch fetchValue_fetches fun _ => completes_unseen (unseen_pushWord _)
  | jmp => exact completes_fetch fetchValue_fetches fun _ => completes_unseen (unseen_jump _)
  | pop =>
    exact completes_fetch fetchRegister_fetches fun _ =>
      completes_unseen (unseen_bind unseen_popWord fun _ => unseen_setRegister _ _)
  | ret => exact completes_unseen (unseen_bind unseen_popWord unseen_jump)
  | rmem =>
    exact completes_fetch fetchRegister_fetches fun _ => completes_fetch fetchAddress_fetches fun _ =>
      completes_unseen (unseen_bind unseen_get fun _ => unseen_setRegister _ _)
  | wmem =>
    exact completes_fetch fetchAddress_fetches fun _ => completes_fetch fetchValue_fetches fun _ =>
      completes_unseen (unseen_setMemory _ _)
  | call =>
    exact completes_get fun _ => completes_fetch fetchValue_fetches fun _ =>
      completes_unseen (unseen_bind (unseen_pushWord _) fun _ => unseen_jump _)
  | output =>
    exact completes_fetch fetchValue_fetches fun _ => completes_unseen (unseen_onConsole _)
  | input =>
    refine completes_onConsole fun byte => completes_get fun _ =>
      completes_fetch fetch_fetches fun raw => ?_
    apply completes_unseen
    split
    · exact unseen_setRegister _ _
    · split
      · exact unseen_setMemory _ _
      · exact unseen_throw _

end completes

/-- The number of words of the instruction that begins with a word. -/
def instructionWidth (raw : Word) : Nat := 1 + (Opcode.operandsOf raw.toNat).length

theorem instructionWidth_word (opcode : Opcode) : instructionWidth opcode.word = opcode.width := by
  rw [instructionWidth,ofWord?_operandsOf opcode.ofWord?_word,Opcode.width]

theorem tick_completes {machine final : Machine} (ok : tick machine = .ok () final) :
    ∃ opcode, Executable machine opcode ∧ Traced machine opcode.width final.probe := by
  obtain ⟨opcode,there,performed⟩ := tick_success ok
  obtain ⟨other,executable⟩ := tick_executable ok
  have same : other = opcode :=
    Opcode.word_injective (Option.some.inj (executable.fetched.symm.trans there))
  subst same
  exact ⟨other,executable,perform_completes other _ final (fetched_begun there) performed⟩

/-- The fetches of a tick, whether or not it fails. -/
theorem tick_traced (machine : Machine) : ∃ count,
    Traced machine count machine.ticked.probe ∧
    (count = 0 ∨ machine.pc.toNat + count ≤ memorySize) ∧
    ∀ raw, machine.memory[machine.pc.toNat]? = some raw →
      count ≤ instructionWidth raw ∧
      ∀ final, tick machine = .ok () final → count = instructionWidth raw := by
  have ends := tick_ends machine
  unfold ticked
  cases ended : tick machine with
  | error error final =>
    rw [ended] at ends
    cases ends with
    | failed _ _ count diagnosed fetched within =>
      refine ⟨count,fetched_traced fetched,fetched.reached,?_⟩
      intro raw there
      refine ⟨within raw there,?_⟩
      intro other ok
      cases ok
  | ok _ final =>
    obtain ⟨opcode,executable,traced⟩ := tick_completes ended
    refine ⟨opcode.width,traced,.inr executable.inside,?_⟩
    intro raw there
    rw [← Option.some.inj (executable.fetched.symm.trans there),instructionWidth_word]
    exact ⟨Nat.le_refl _,fun _ _ => rfl⟩

/-- The fetches of the instruction at the program counter. -/
def instruction (machine : Machine) : List (Word × Word) :=
  wordsFrom machine.memory machine.pc.toNat
    (instructionWidth ((machine.memory[machine.pc.toNat]?).getD 0))

/-- Fetches that can be those of one instruction: as many as its first word asks for. -/
def Whole (fetches : List (Word × Word)) : Prop :=
  ∃ addr raw operands, fetches = (addr,raw) :: operands ∧ fetches.length = instructionWidth raw

/-- The addresses at which instructions begin among fetches, the first `pending` of which are
those of operands. -/
def beginnings : Nat → List (Word × Word) → List Word
  | _, [] => []
  | pending + 1, _ :: rest => beginnings pending rest
  | 0, (addr,raw) :: rest => addr :: beginnings (instructionWidth raw - 1) rest

theorem beginnings_skip (operands rest : List (Word × Word)) :
    beginnings operands.length (operands ++ rest) = beginnings 0 rest := by
  induction operands with
  | nil => rfl
  | cons operand operands ih => exact ih

theorem beginnings_whole {addr raw : Word} {operands : List (Word × Word)}
    (whole : ((addr,raw) :: operands).length = instructionWidth raw) (rest : List (Word × Word)) :
    beginnings 0 ((addr,raw) :: operands ++ rest) = addr :: beginnings 0 rest := by
  have counted : instructionWidth raw - 1 = operands.length := by
    rw [← whole,List.length_cons,Nat.add_sub_cancel]
  rw [List.cons_append,beginnings,counted,beginnings_skip]

/-- The first word of an instruction tells where it ends. -/
theorem whole_unique {parts others : List (List (Word × Word))} (whole : ∀ part ∈ parts, Whole part)
    (whole' : ∀ part ∈ others, Whole part) (same : others.flatten = parts.flatten) :
    others = parts := by
  induction parts generalizing others with
  | nil =>
    cases others with
    | nil => rfl
    | cons other others =>
      obtain ⟨addr,raw,operands,rfl,-⟩ := whole' other List.mem_cons_self
      cases same
  | cons part parts ih =>
    obtain ⟨addr,raw,operands,rfl,counted⟩ := whole part List.mem_cons_self
    cases others with
    | nil => cases same
    | cons other others =>
      obtain ⟨addr',raw',operands',rfl,counted'⟩ := whole' other List.mem_cons_self
      rw [List.flatten_cons,List.flatten_cons] at same
      have first : (addr',raw') = (addr,raw) := (List.cons.inj same).1
      cases first
      obtain ⟨begun,rest⟩ := List.append_inj same (counted'.trans counted.symm)
      have later := ih (fun part member => whole part (List.mem_cons_of_mem _ member))
        (fun part member => whole' part (List.mem_cons_of_mem _ member)) rest
      rw [begun,later]

theorem instruction_cons {machine : Machine} {opcode : Opcode}
    (there : machine.memory[machine.pc.toNat]? = some opcode.word) :
    ∃ operands, machine.instruction = (machine.pc,opcode.word) :: operands ∧
      machine.instruction.length = instructionWidth opcode.word := by
  have begins : instructionWidth opcode.word = opcode.operands.length + 1 := by
    rw [instructionWidth_word,Opcode.width,Nat.add_comm]
  refine ⟨machine.instruction.tail,?_,?_⟩
  · unfold instruction wordsFrom
    rw [there,Option.getD_some,begins,List.range_succ_eq_map,List.map_cons,List.tail_cons,
      Nat.add_zero,there,Option.getD_some,Nat.toUInt16_eq,UInt16.ofNat_toNat]
  · rw [instruction,there,Option.getD_some,wordsFrom,List.length_map,List.length_range]

/-- Ticks that go well, one after another, with the machines in which they were begun. Between
ticks the console and what is observed may change, but tracing stays on and the fetches so
far stay recorded. -/
inductive Proceeds (first : Machine) : List Machine → Machine → Prop
  | start : Proceeds first [] first
  | tick {visited : List Machine} {machine next : Machine} (console : Option Console)
      (probe : Probe) (before : Proceeds first visited machine) (tracing : probe.tracing = true)
      (recorded : probe.fetches = machine.probe.fetches)
      (ok : tick { machine with console := console, probe := probe } = .ok () next) :
      Proceeds first (visited ++ [{ machine with console := console, probe := probe }]) next

theorem proceeds_next {first machine next : Machine} {visited : List Machine}
    (before : Proceeds first visited machine) (tracing : machine.probe.tracing = true)
    (ok : Machine.tick machine = .ok () next) : Proceeds first (visited ++ [machine]) next :=
  .tick machine.console machine.probe before tracing rfl ok

section proceeds

variable {first final : Machine} {visited : List Machine}

theorem proceeds_executable (proceeds : Proceeds first visited final) :
    ∀ machine ∈ visited, ∃ opcode, Executable machine opcode := by
  induction proceeds with
  | start => simp
  | tick console probe before tracing recorded ok ih =>
    intro machine member
    rcases List.mem_append.mp member with earlier | last
    · exact ih machine earlier
    · rw [List.mem_singleton.mp last]
      exact tick_executable ok

theorem proceeds_fetches (proceeds : Proceeds first visited final) :
    final.probe.fetches = first.probe.fetches ++ (visited.map instruction).flatten := by
  induction proceeds with
  | start => simp
  | @tick visited machine next console probe before tracing recorded ok ih =>
    obtain ⟨opcode,executable,traced⟩ := tick_completes ok
    have own : wordsFrom machine.memory machine.pc.toNat opcode.width =
        instruction { machine with console := console, probe := probe } := by
      have there : machine.memory[machine.pc.toNat]? = some opcode.word := executable.fetched
      rw [instruction,there,Option.getD_some,instructionWidth_word]
    rw [traced.fetches tracing]
    change probe.fetches ++ wordsFrom machine.memory machine.pc.toNat opcode.width = _
    rw [own,recorded,ih]
    simp

theorem visited_whole (proceeds : Proceeds first visited final) :
    ∀ part ∈ visited.map instruction, Whole part := by
  intro part member
  obtain ⟨machine,listed,rfl⟩ := List.mem_map.mp member
  obtain ⟨opcode,executable⟩ := proceeds_executable proceeds machine listed
  obtain ⟨operands,begins,counted⟩ := instruction_cons executable.fetched
  exact ⟨machine.pc,opcode.word,operands,begins,counted⟩

theorem beginnings_visited {visited : List Machine}
    (executable : ∀ machine ∈ visited, ∃ opcode, Executable machine opcode) :
    beginnings 0 (visited.map instruction).flatten = visited.map pc := by
  induction visited with
  | nil => rfl
  | cons machine visited ih =>
    obtain ⟨opcode,first⟩ := executable machine List.mem_cons_self
    obtain ⟨operands,begins,counted⟩ := instruction_cons first.fetched
    rw [begins] at counted
    rw [List.map_cons,List.flatten_cons,begins,beginnings_whole counted,List.map_cons,
      ih fun other member => executable other (List.mem_cons_of_mem _ member)]

end proceeds

/-- A tick fetches the words from the program counter on, as memory held them before it, and
one that goes well fetches as many as its first word asks for. So the fetches of ticks that
go well are cut into whole instructions in one way, and the address of every instruction can
be read off them. -/
theorem fetches_tell_instructions :
    (∀ machine : Machine, machine.probe.tracing = true → ∃ count,
      machine.ticked.probe.tracing = true ∧
      machine.ticked.probe.fetches = machine.probe.fetches ++
        wordsFrom machine.memory machine.pc.toNat count ∧
      (count = 0 ∨ machine.pc.toNat + count ≤ memorySize) ∧
      ∀ raw, machine.memory[machine.pc.toNat]? = some raw →
        count ≤ instructionWidth raw ∧
        ∀ final, tick machine = .ok () final → count = instructionWidth raw) ∧
    ∀ first visited final, Proceeds first visited final →
      final.probe.fetches = first.probe.fetches ++ (visited.map instruction).flatten ∧
      (∀ part ∈ visited.map instruction, Whole part) ∧
      (∀ parts, (∀ part ∈ parts, Whole part) →
        parts.flatten = (visited.map instruction).flatten → parts = visited.map instruction) ∧
      beginnings 0 (visited.map instruction).flatten = visited.map pc := by
  refine ⟨?_,?_⟩
  · intro machine tracing
    obtain ⟨count,traced,reached,within⟩ := tick_traced machine
    exact ⟨count,traced.tracing.trans tracing,traced.fetches tracing,reached,within⟩
  · intro first visited final proceeds
    have whole := visited_whole proceeds
    refine ⟨proceeds_fetches proceeds,whole,?_,beginnings_visited (proceeds_executable proceeds)⟩
    intro parts whole' same
    exact whole_unique whole whole' same

/-- A write to its own operand, and a jump back to it. -/
def selfWriting : Machine :=
  { memory := padded [16, 1, 9, 6, 0]
    probe := { tracing := true } }

theorem fetches_tell_instructions_selfWriting : ∃ visited final,
    Proceeds selfWriting visited final ∧ visited.map pc = [0, 3, 0] ∧
    final.probe.fetches =
      [(0, 16), (1, 1), (2, 9), (3, 6), (4, 0), (0, 16), (1, 9), (2, 9)] ∧
    beginnings 0 final.probe.fetches = [0, 3, 0] := by
  have one := ticked_of_sound (show selfWriting.diagnosis = none by decide +kernel)
  have two := ticked_of_sound (show selfWriting.ticked.diagnosis = none by decide +kernel)
  have three := ticked_of_sound (show selfWriting.ticked.ticked.diagnosis = none by decide +kernel)
  have proceeds : Proceeds selfWriting
      [selfWriting, selfWriting.ticked, selfWriting.ticked.ticked]
      selfWriting.ticked.ticked.ticked := by
    refine proceeds_next (proceeds_next (proceeds_next .start ?_ one) ?_ two) ?_ three
    all_goals decide +kernel
  obtain ⟨fetches,-,-,addresses⟩ := fetches_tell_instructions.2 _ _ _ proceeds
  have visited : [selfWriting, selfWriting.ticked, selfWriting.ticked.ticked].map pc =
      [0, 3, 0] := by decide +kernel
  have unfetched : selfWriting.probe.fetches = [] := by decide +kernel
  rw [unfetched,List.nil_append] at fetches
  rw [← fetches,visited] at addresses
  refine ⟨_,_,proceeds,visited,?_,addresses⟩
  decide +kernel

end WordMachine.Machine
