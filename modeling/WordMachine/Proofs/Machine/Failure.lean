import WordMachine.Proofs.Machine.Refinement

/-! Failing instructions. The checks of every operation are listed in the order in which
they are made, and each is decided by the machine before the instruction. A failing
instruction reports the first check that fails, has fetched the words up to it, and has
written nothing. -/
namespace WordMachine

/-- What is wrong with an operand word that is not of a class. -/
def OperandClass.refusal : OperandClass → Condition
  | .register => .invalidRegister
  | .value | .target => .invalidInstruction

inductive Check where
  /-- The word of an operand is in memory and of its class. Only this check fetches. -/
  | operand (index : Nat) (kind : OperandClass)
  /-- The value of an operand is an address. -/
  | address (index : Nat)
  | divisor
  | stack
  | output
  | input

def Check.isOperand : Check → Bool
  | .operand _ _ => true
  | _ => false

/-- The checks of an operation other than `halt`, in the order in which they are made. -/
def Opcode.checks : Opcode → List Check
  | .pop => [.operand 0 .register, .stack]
  | .ret => [.stack]
  | .mod => [.operand 0 .register, .operand 1 .value, .operand 2 .value, .divisor]
  | .rmem => [.operand 0 .register, .operand 1 .value, .address 1]
  | .wmem => [.operand 0 .value, .address 0, .operand 1 .value]
  | .output => [.operand 0 .value, .output]
  | .input => [.input, .operand 0 .target]
  | opcode => opcode.operands.zipIdx.map fun (kind, index) => .operand index kind

namespace Machine

def operandAddr (machine : Machine) (index : Nat) : Nat := machine.pc.toNat + 1 + index

def consoleFailure? {α : Type} (machine : Machine) (action : Console.Use α) : Option Error :=
  match machine.console with
  | none => some (.plain .consoleMissing)
  | some console =>
    match action console with
    | .ok _ _ => none
    | .error cause _ => some cause

/-- The failure of a check, if it fails. A bad operand word is reported with its own
address, and with 0 where memory has no such word; a value that is no address is
reported in place of the word. -/
def failure? (machine : Machine) : Check → Option Error
  | .operand index kind =>
    match machine.memory[machine.operandAddr index]? with
    | none => some (.operand (machine.operandAddr index).toUInt16 0 (.plain .outsideMemory))
    | some raw =>
      if kind.admits raw then none
      else some (.operand (machine.operandAddr index).toUInt16 raw (.plain kind.refusal))
  | .address index =>
    if (machine.operandValue index).toNat < 32768 then none
    else some (.operand (machine.operandAddr index).toUInt16 (machine.operandValue index)
      (.plain .outsideMemory))
  | .divisor => if machine.operandValue 2 = 0 then some (.plain .divideByZero) else none
  | .stack => if machine.stack.isEmpty then some (.plain .stackEmpty) else none
  | .output => machine.consoleFailure? (Console.writeByte (machine.operandValue 0).toUInt8)
  | .input => machine.consoleFailure? Console.readByte

/-- How many words a check fetches, whether or not it fails. -/
def fetchedBy (machine : Machine) : Check → Nat
  | .operand index _ => if machine.operandAddr index < memorySize then 1 else 0
  | _ => 0

/-- The first of some checks that fails, with its failure and the number of words fetched
by then; `count` words are fetched before. -/
def firstFailure (machine : Machine) (count : Nat) : List Check → Option (Nat × Error)
  | [] => none
  | check :: rest =>
    match machine.failure? check with
    | some cause => some (count + machine.fetchedBy check, cause)
    | none => machine.firstFailure (count + machine.fetchedBy check) rest

/-- The report of a failed operation. A halt keeps no mark, also where a console raised it. -/
def reported (addr : Word) (opcode : Opcode) (cause : Error) : Error :=
  if cause = .plain .halted then cause else .execute addr opcode.number cause

/-- The failure of the instruction at the program counter and the number of words fetched
by then, if it fails. -/
def diagnosis (machine : Machine) : Option (Nat × Error) :=
  match machine.memory[machine.pc.toNat]? with
  | none => some (0, .operand machine.pc 0 (.plain .outsideMemory))
  | some raw =>
    match Opcode.ofWord? raw with
    | none => some (1, .opcode machine.pc raw)
    | some .halt => some (1, .plain .halted)
    | some opcode =>
      (machine.firstFailure 1 opcode.checks).map fun (count, cause) =>
        (count, reported machine.pc opcode cause)

end Machine

def Probe.fetches (probe : Probe) : List (Word × Word) :=
  probe.events.toList.filterMap fun event =>
    match event with
    | .fetched addr raw => some (addr, raw)
    | _ => none

namespace Machine

def wordsFrom (memory : Memory) (addr count : Nat) : List (Word × Word) :=
  (List.range count).map fun place => ((addr + place).toUInt16, (memory[addr + place]?).getD 0)

/-- A machine that differs from an earlier one in what it fetched since then, in its
console, and in `begun` instructions counted. -/
structure Fetched (origin : Machine) (begun count : Nat) (machine : Machine) : Prop where
  pc : machine.pc.toNat = origin.pc.toNat + count
  reached : count = 0 ∨ origin.pc.toNat + count ≤ memorySize
  registers : machine.registers = origin.registers
  memory : machine.memory = origin.memory
  stack : machine.stack = origin.stack
  ticks : machine.ticks = origin.ticks + begun
  tracing : machine.probe.tracing = origin.probe.tracing
  traced : origin.probe.tracing = true →
    machine.probe.fetches = origin.probe.fetches ++ wordsFrom origin.memory origin.pc.toNat count

end Machine

namespace Probe

theorem trace_tracing (probe : Probe) (event : Event) : (probe.trace event).tracing = probe.tracing := by
  unfold trace
  split <;> rfl

theorem trace_fetches {probe : Probe} (tracing : probe.tracing = true) (addr raw : Word) :
    (probe.trace (.fetched addr raw)).fetches = probe.fetches ++ [(addr, raw)] := by
  simp [trace,tracing,record,fetches]

theorem log_tracing (probe : Probe) (event : Event) : (probe.log event).tracing = probe.tracing := by
  unfold log
  split <;> rfl

theorem log_executing_fetches (probe : Probe) (addr : Word) (opcode : Opcode) :
    (probe.log (.executing addr opcode)).fetches = probe.fetches := by
  unfold log
  split
  · simp [record,fetches]
  · rfl

end Probe

namespace Machine

theorem wordsFrom_succ (memory : Memory) (addr count : Nat) :
    wordsFrom memory addr (count + 1) = wordsFrom memory addr count ++
      [((addr + count).toUInt16, (memory[addr + count]?).getD 0)] := by
  simp [wordsFrom,List.range_succ]

section fetched

variable {origin machine : Machine} {begun count : Nat}

theorem fetched_refl (machine : Machine) : Fetched machine 0 0 machine where
  pc := rfl
  reached := .inl rfl
  registers := rfl
  memory := rfl
  stack := rfl
  ticks := rfl
  tracing := rfl
  traced := fun _ => by simp [wordsFrom]

theorem fetched_next (fetched : Fetched origin begun count machine) :
    machine.memory[machine.pc.toNat]? = origin.memory[origin.pc.toNat + count]? := by
  rw [fetched.memory,fetched.pc]

theorem fetched_advance {raw : Word} (fetched : Fetched origin begun count machine)
    (there : machine.memory[machine.pc.toNat]? = some raw) :
    Fetched origin begun (count + 1) (machine.advance raw) := by
  have moved := advance_pc_toNat there
  have inside : machine.pc.toNat < memorySize := (Vector.getElem?_eq_some_iff.mp there).1
  have before := fetched.pc
  refine ⟨by omega,.inr (by omega),fetched.registers,fetched.memory,fetched.stack,fetched.ticks,?_,?_⟩
  · exact (Probe.trace_tracing _ _).trans fetched.tracing
  · intro tracing
    have same : machine.pc = (origin.pc.toNat + count).toUInt16 := by
      rw [← before,Nat.toUInt16_eq,UInt16.ofNat_toNat]
    have stored : origin.memory[origin.pc.toNat + count]? = some raw := by
      rw [← fetched_next fetched,there]
    change (machine.probe.trace (.fetched machine.pc raw)).fetches = _
    rw [Probe.trace_fetches (fetched.tracing.trans tracing),fetched.traced tracing,wordsFrom_succ,
      stored,same,List.append_assoc]
    rfl

theorem fetched_begun {opcode : Opcode}
    (there : machine.memory[machine.pc.toNat]? = some opcode.word) :
    Fetched machine 1 1 (machine.begun opcode) := by
  have first := fetched_advance (fetched_refl machine) there
  refine ⟨first.pc,first.reached,rfl,rfl,rfl,rfl,?_,?_⟩
  · exact (Probe.log_tracing _ _).trans first.tracing
  · intro tracing
    exact (Probe.log_executing_fetches _ _ _).trans (first.traced tracing)

theorem fetched_console (fetched : Fetched origin begun count machine) (console : Option Console) :
    Fetched origin begun count { machine with console := console } :=
  ⟨fetched.pc,fetched.reached,fetched.registers,fetched.memory,fetched.stack,fetched.ticks,
    fetched.tracing,fetched.traced⟩

end fetched

/-- An action makes the given checks, from a machine that fetched `count` words since the
origin: it fails with the first check that fails, and succeeds if none does. -/
def Follows (origin : Machine) (count : Nat) (checks : List Check) (action : Step Unit) : Prop :=
  ∀ machine, Fetched origin 1 count machine → machine.console = origin.console →
    match origin.firstFailure count checks with
    | none => ∃ final, action machine = .ok () final
    | some (reached, cause) =>
      ∃ final, action machine = .error cause final ∧ Fetched origin 1 reached final

/-- An action fetches one operand of a class, and its result is read off the operand word. -/
structure FetchesOperand {α : Type} (kind : OperandClass) (action : Step α)
    (result : Registers → Word → α) : Prop where
  outside : ∀ machine : Machine, machine.memory[machine.pc.toNat]? = none →
    action machine = .error (.operand machine.pc 0 (.plain .outsideMemory)) machine
  refused : ∀ (machine : Machine) (raw : Word), machine.memory[machine.pc.toNat]? = some raw →
    ¬ kind.admits raw →
      action machine = .error (.operand machine.pc raw (.plain kind.refusal)) (machine.advance raw)
  admitted : ∀ (machine : Machine) (raw : Word), machine.memory[machine.pc.toNat]? = some raw →
    kind.admits raw → action machine = .ok (result machine.registers raw) (machine.advance raw)

theorem fetchValue_operand : FetchesOperand .value fetchValue valueIn where
  outside := fun _ absent => fetchValue_outside absent
  refused := fun _ _ there invalid => fetchValue_invalid there invalid
  admitted := fun _ _ there valid => fetchValue_inside there valid

theorem fetchRegister_operand :
    FetchesOperand .register fetchRegister (fun _ raw => registerOf raw) where
  outside := fun _ absent => fetchRegister_outside absent
  refused := fun _ _ there unnamed => fetchRegister_unnamed there unnamed
  admitted := fun _ _ there named => fetchRegister_inside there named

section follows

variable {origin : Machine} {count index : Nat} {rest : List Check}

theorem follows_total {action : Step Unit} (total : ∀ machine, ∃ final, action machine = .ok () final) :
    Follows origin count [] action := by
  intro machine fetched same
  exact total machine

theorem follows_operand {α : Type} {kind : OperandClass} {action : Step α}
    {result : Registers → Word → α} {next : α → Step Unit} (operand : FetchesOperand kind action result)
    (later : Follows origin (index + 2) rest
      (next (result origin.registers (origin.operandWord index)))) :
    Follows origin (index + 1) (.operand index kind :: rest) (action >>= next) := by
  intro machine fetched same
  have addr : origin.pc.toNat + (index + 1) = origin.operandAddr index := by
    unfold operandAddr
    omega
  have place : machine.pc = (origin.operandAddr index).toUInt16 := by
    rw [← addr,← fetched.pc,Nat.toUInt16_eq,UInt16.ofNat_toNat]
  have next := fetched_next fetched
  rw [addr] at next
  cases stored : origin.memory[origin.operandAddr index]? with
  | none =>
    have outside : ¬ origin.operandAddr index < memorySize := by
      intro inside
      rw [Vector.getElem?_eq_getElem inside] at stored
      cases stored
    simp only [firstFailure,failure?,fetchedBy,stored,if_neg outside]
    refine ⟨machine,?_,fetched⟩
    rw [← place]
    exact bind_of_error (operand.outside machine (next.trans stored))
  | some raw =>
    have there := next.trans stored
    have inside : origin.operandAddr index < memorySize := (Vector.getElem?_eq_some_iff.mp stored).1
    have advanced := fetched_advance fetched there
    by_cases admitted : kind.admits raw
    · have word : origin.operandWord index = raw := by
        change (origin.memory[origin.operandAddr index]?).getD 0 = raw
        rw [stored,Option.getD_some]
      rw [word] at later
      have run := later (machine.advance raw) advanced same
      rw [bind_of_ok (operand.admitted machine raw there admitted),fetched.registers]
      simp only [firstFailure,failure?,fetchedBy,stored,if_pos admitted,if_pos inside]
      exact run
    · simp only [firstFailure,failure?,fetchedBy,stored,if_neg admitted,if_pos inside]
      refine ⟨machine.advance raw,?_,advanced⟩
      rw [← place]
      exact bind_of_error (operand.refused machine raw there admitted)

theorem follows_value {next : Word → Step Unit}
    (later : Follows origin (index + 2) rest (next (origin.operandValue index))) :
    Follows origin (index + 1) (.operand index .value :: rest) (fetchValue >>= next) :=
  follows_operand fetchValue_operand later

theorem follows_register {next : Fin registerCount → Step Unit}
    (later : ∀ register, Follows origin (index + 2) rest (next register)) :
    Follows origin (index + 1) (.operand index .register :: rest) (fetchRegister >>= next) :=
  follows_operand fetchRegister_operand (later _)

theorem fetchAddress_bind (next : Fin memorySize → Step Unit) (machine : Machine) :
    (fetchAddress >>= next) machine =
      (fetchValue >>= fun value =>
        if inside : value.toNat < memorySize then next ⟨value.toNat,inside⟩
        else throw (.operand machine.pc value (.plain .outsideMemory))) machine := by
  cases fetched : fetchValue machine with
  | error error left =>
    have failed : fetchAddress machine = .error error left := by
      unfold fetchAddress
      rw [get_bind,bind_of_error fetched]
    rw [bind_of_error fetched,bind_of_error failed]
  | ok value left =>
    rw [bind_of_ok fetched]
    by_cases inside : value.toNat < memorySize
    · rw [bind_of_ok (fetchAddress_of_value fetched inside),dif_pos inside]
    · rw [bind_of_error (fetchAddress_beyond fetched inside),dif_neg inside]
      rfl

/-- The value is checked before anything else is fetched. -/
theorem follows_address {next : Fin memorySize → Step Unit}
    (later : ∀ addr, Follows origin (index + 2) rest (next addr)) :
    Follows origin (index + 1) (.operand index .value :: .address index :: rest)
      (fetchAddress >>= next) := by
  intro machine fetched same
  have place : machine.pc = (origin.operandAddr index).toUInt16 := by
    have moved := fetched.pc
    rw [Nat.add_comm index,← Nat.add_assoc] at moved
    unfold operandAddr
    rw [← moved,Nat.toUInt16_eq,UInt16.ofNat_toNat]
  rw [fetchAddress_bind]
  refine follows_value ?_ machine fetched same
  intro advanced after same'
  by_cases inside : (origin.operandValue index).toNat < memorySize
  · have checked : (origin.operandValue index).toNat < 32768 := inside
    simp only [firstFailure,failure?,fetchedBy,if_pos checked,dif_pos inside]
    exact later _ advanced after same'
  · have checked : ¬ (origin.operandValue index).toNat < 32768 := inside
    simp only [firstFailure,failure?,fetchedBy,if_neg checked,dif_neg inside]
    refine ⟨advanced,?_,after⟩
    rw [← place]
    rfl

theorem follows_pop {next : Word → Step Unit}
    (total : ∀ top machine, ∃ final, next top machine = .ok () final) :
    Follows origin count [.stack] (popWord >>= next) := by
  intro machine fetched same
  cases entries : origin.stack.entries with
  | nil =>
    have empty : origin.stack.isEmpty = true := by simp [Stack.isEmpty,entries]
    have refused := @popWord_none machine (by rw [fetched.stack,entries])
    simp only [firstFailure,failure?,fetchedBy,if_pos empty]
    exact ⟨machine,bind_of_error refused,fetched⟩
  | cons top below =>
    have held : ¬ origin.stack.isEmpty = true := by simp [Stack.isEmpty,entries]
    have popped := @popWord_some machine top below (by rw [fetched.stack,entries])
    simp only [firstFailure,failure?,if_neg held]
    rw [bind_of_ok popped]
    exact total top _

theorem follows_divisor {action : Step Unit} {divisor : Word} (value : divisor = origin.operandValue 2)
    (total : ∀ machine, ∃ final, action machine = .ok () final) :
    Follows origin count [.divisor]
      (if divisor = 0 then throw (.plain .divideByZero) >>= fun _ : PUnit => action else action) := by
  intro machine fetched same
  by_cases zero : origin.operandValue 2 = 0
  · rw [value]
    simp only [firstFailure,failure?,fetchedBy,if_pos zero]
    exact ⟨machine,rfl,fetched⟩
  · rw [value]
    simp only [firstFailure,failure?,if_neg zero]
    exact total machine

/-- What a use of the console does to a machine: it leaves all else as it is. -/
theorem onConsole_cases {α : Type} (action : Console.Use α) (machine : Machine) :
    (∃ cause console, onConsole action machine = .error cause { machine with console := console } ∧
      machine.consoleFailure? action = some cause) ∨
    ∃ result console, onConsole action machine = .ok result { machine with console := console } ∧
      machine.consoleFailure? action = none := by
  unfold onConsole consoleFailure?
  cases attached : machine.console with
  | none => exact .inl ⟨_,machine.console,rfl,rfl⟩
  | some console =>
    cases used : action console with
    | ok result left => exact .inr ⟨result,some left,by simp only [used],by simp only [used]⟩
    | error cause left => exact .inl ⟨cause,some left,by simp only [used],by simp only [used]⟩

theorem consoleFailure?_congr {α : Type} {machine other : Machine} (action : Console.Use α)
    (same : machine.console = other.console) :
    machine.consoleFailure? action = other.consoleFailure? action := by
  unfold consoleFailure?
  rw [same]

theorem follows_output :
    Follows origin count [.output] (onConsole (Console.writeByte (origin.operandValue 0).toUInt8)) := by
  intro machine fetched same
  have decided := consoleFailure?_congr (Console.writeByte (origin.operandValue 0).toUInt8) same
  rcases onConsole_cases (Console.writeByte (origin.operandValue 0).toUInt8) machine with
    ⟨cause,console,failed,refused⟩ | ⟨result,console,used,accepted⟩
  · rw [refused] at decided
    simp only [firstFailure,failure?,fetchedBy,← decided]
    exact ⟨_,failed,fetched_console fetched console⟩
  · rw [accepted] at decided
    simp only [firstFailure,failure?,← decided]
    exact ⟨_,used⟩

end follows

/-- The byte is read first, so the target is fetched by a machine with another console. -/
theorem readInput_follows (origin : Machine) :
    Follows origin 1 [.input, .operand 0 .target] readInput := by
  intro machine fetched same
  have decided := consoleFailure?_congr Console.readByte same
  unfold readInput
  rcases onConsole_cases Console.readByte machine with
    ⟨cause,console,failed,refused⟩ | ⟨byte,console,used,accepted⟩
  · rw [refused] at decided
    simp only [firstFailure,failure?,fetchedBy,← decided]
    exact ⟨_,bind_of_error failed,fetched_console fetched console⟩
  · rw [accepted] at decided
    rw [bind_of_ok used,get_bind]
    have ready := fetched_console fetched console
    have stored := fetched_next ready
    have place : machine.pc = (origin.operandAddr 0).toUInt16 := by
      unfold operandAddr
      rw [Nat.add_zero,← fetched.pc,Nat.toUInt16_eq,UInt16.ofNat_toNat]
    cases target : origin.memory[origin.operandAddr 0]? with
    | none =>
      have outside : ¬ origin.operandAddr 0 < memorySize := by
        intro inside
        rw [Vector.getElem?_eq_getElem inside] at target
        cases target
      simp only [firstFailure,failure?,fetchedBy,← decided,target,if_neg outside]
      refine ⟨_,?_,ready⟩
      rw [← place]
      exact bind_of_error (fetch_outside (stored.trans target))
    | some raw =>
      have inside : origin.operandAddr 0 < memorySize := (Vector.getElem?_eq_some_iff.mp target).1
      have there := stored.trans target
      rw [bind_of_ok (fetch_inside there)]
      by_cases admitted : OperandClass.target.admits raw
      · simp only [firstFailure,failure?,← decided,target,if_pos admitted]
        cases named : raw.register? with
        | some register => exact ⟨_,rfl⟩
        | none =>
          have literal : raw.toNat < memorySize := by
            apply Classical.byContradiction
            intro beyond
            have valid : raw.toNat < 32776 := admitted
            have range : 32768 ≤ raw.toNat := Nat.le_of_not_lt beyond
            obtain ⟨register,names,-⟩ := Word.register?_of_range ⟨range,valid⟩
            rw [names] at named
            cases named
          simp only [dif_pos literal]
          exact ⟨_,rfl⟩
      · have invalid : ¬ raw.toNat < 32776 := admitted
        have beyond : ¬ raw.toNat < memorySize := by
          change ¬ raw.toNat < 32768
          omega
        simp only [firstFailure,failure?,fetchedBy,← decided,target,if_neg admitted,if_pos inside,
          Word.register?_of_outside (by omega : ¬ (32768 ≤ raw.toNat ∧ _)),dif_neg beyond]
        refine ⟨_,?_,fetched_advance ready there⟩
        rw [← place]
        rfl

section handlers

variable (origin : Machine)

theorem unary_follows (result : Word → Word) :
    Follows origin 1 [.operand 0 .register, .operand 1 .value] (unary result) :=
  follows_register fun _ => follows_value (follows_total fun _ => ⟨_,rfl⟩)

theorem binary_follows (result : Word → Word → Word) :
    Follows origin 1 [.operand 0 .register, .operand 1 .value, .operand 2 .value] (binary result) :=
  follows_register fun _ => follows_value (follows_value (follows_total fun _ => ⟨_,rfl⟩))

theorem branch_follows (taken : Word → Bool) :
    Follows origin 1 [.operand 0 .value, .operand 1 .value] (branch taken) := by
  refine follows_value (follows_value (follows_total fun machine => ?_))
  split
  · exact ⟨_,rfl⟩
  · exact ⟨_,rfl⟩

theorem callAddress_follows : Follows origin 1 [.operand 0 .value] callAddress := by
  intro machine fetched same
  have rest : Follows origin 1 [.operand 0 .value]
      (fetchValue >>= fun addr => pushWord (machine.pc + 1) >>= fun _ => jump addr) :=
    follows_value (follows_total fun _ => ⟨_,rfl⟩)
  exact rest machine fetched same

/-- Every operation makes its listed checks in their order. -/
theorem perform_follows {opcode : Opcode} (running : opcode ≠ .halt) :
    Follows origin 1 opcode.checks (perform opcode) := by
  cases opcode with
  | halt => exact absurd rfl running
  | noop => exact follows_total fun _ => ⟨_,rfl⟩
  | set | not => exact unary_follows origin _
  | eq | gt | add | mult | and | or => exact binary_follows origin _
  | jt | jf => exact branch_follows origin _
  | call => exact callAddress_follows origin
  | input => exact readInput_follows origin
  | push | jmp => exact follows_value (follows_total fun _ => ⟨_,rfl⟩)
  | pop => exact follows_register fun _ => follows_pop fun _ _ => ⟨_,rfl⟩
  | ret => exact follows_pop fun _ _ => ⟨_,rfl⟩
  | mod =>
    exact follows_register fun _ => follows_value (follows_value
      (follows_divisor rfl fun _ => ⟨_,rfl⟩))
  | rmem => exact follows_register fun _ => follows_address fun _ => follows_total fun _ => ⟨_,rfl⟩
  | wmem => exact follows_address fun _ => follows_value (follows_total fun _ => ⟨_,rfl⟩)
  | output => exact follows_value follows_output

end handlers

theorem fetchedBy_le (machine : Machine) (check : Check) :
    machine.fetchedBy check ≤ [check].countP Check.isOperand := by
  cases check with
  | operand index kind =>
    simp only [fetchedBy]
    split <;> simp [Check.isOperand]
  | address index | divisor | stack | output | input => simp [fetchedBy]

theorem firstFailure_le {machine : Machine} {count reached : Nat} {checks : List Check} {cause : Error}
    (failed : machine.firstFailure count checks = some (reached, cause)) :
    reached ≤ count + checks.countP Check.isOperand := by
  induction checks generalizing count with
  | nil => cases failed
  | cons check rest ih =>
    have first := machine.fetchedBy_le check
    rw [List.countP_cons,Nat.add_comm (rest.countP _)]
    rw [List.countP_singleton] at first
    unfold firstFailure at failed
    cases decided : machine.failure? check with
    | some error =>
      simp only [decided,Option.some.injEq,Prod.mk.injEq] at failed
      omega
    | none =>
      simp only [decided] at failed
      have later := ih failed
      omega

theorem checks_operands (opcode : Opcode) :
    opcode.checks.countP Check.isOperand = opcode.operands.length := by
  cases opcode <;> rfl

theorem ofWord?_operandsOf {raw : Word} {opcode : Opcode} (decoded : Opcode.ofWord? raw = some opcode) :
    Opcode.operandsOf raw.toNat = opcode.operands := by
  have same : Opcode.ofNumber? (raw.toNat : Int) = some opcode := by
    unfold Opcode.ofNumber?
    rw [if_pos (Int.natCast_nonneg _)]
    exact decoded
  unfold Opcode.operandsOf
  rw [same]
  rfl

def atOperation (machine : Machine) : Bool :=
  ((machine.memory[machine.pc.toNat]?).bind Opcode.ofWord?).isSome

/-- How a tick ends: as the diagnosis says. -/
inductive Ends (machine : Machine) : EStateM.Result Error Machine Unit → Prop
  | done (final : Machine) (sound : machine.diagnosis = none) : Ends machine (.ok () final)
  | failed (error : Error) (final : Machine) (count : Nat)
      (diagnosed : machine.diagnosis = some (count, error))
      (fetched : Fetched machine machine.atOperation.toNat count final)
      (within : ∀ raw, machine.memory[machine.pc.toNat]? = some raw →
        count ≤ 1 + (Opcode.operandsOf raw.toNat).length) : Ends machine (.error error final)

theorem tick_undefined {machine : Machine} {raw : Word}
    (there : machine.memory[machine.pc.toNat]? = some raw) (undefined : Opcode.ofWord? raw = none) :
    tick machine = .error (.opcode machine.pc raw) (machine.advance raw) := by
  unfold tick
  rw [get_bind,bind_of_ok (fetch_inside there),undefined]
  rfl

theorem tick_outside {machine : Machine} (absent : machine.memory[machine.pc.toNat]? = none) :
    tick machine = .error (.operand machine.pc 0 (.plain .outsideMemory)) machine := by
  unfold tick
  rw [get_bind,bind_of_error (fetch_outside absent)]

theorem tick_ends (machine : Machine) : Ends machine (tick machine) := by
  cases there : machine.memory[machine.pc.toNat]? with
  | none =>
    rw [tick_outside there]
    have begun : machine.atOperation.toNat = 0 := by simp [atOperation,there]
    refine .failed _ _ 0 (by simp only [diagnosis,there]) ?_ ?_
    · rw [begun]
      exact fetched_refl machine
    · intro raw stored
      exact Nat.zero_le _
  | some raw =>
    cases decoded : Opcode.ofWord? raw with
    | none =>
      rw [tick_undefined there decoded]
      have begun : machine.atOperation.toNat = 0 := by simp [atOperation,there,decoded]
      refine .failed _ _ 1 (by simp only [diagnosis,there,decoded]) ?_ ?_
      · rw [begun]
        exact fetched_advance (fetched_refl machine) there
      · intro other stored
        exact Nat.le_add_right _ _
    | some opcode =>
      have begun : machine.atOperation.toNat = 1 := by simp [atOperation,there,decoded]
      have started : machine.memory[machine.pc.toNat]? = some opcode.word := by
        rw [there,Opcode.ofWord?_eq_some decoded]
      rw [tick_fetched started]
      by_cases running : opcode = .halt
      · subst running
        refine .failed _ _ 1 (by simp only [diagnosis,there,decoded]) ?_ ?_
        · rw [begun]
          exact fetched_begun started
        · intro other stored
          exact Nat.le_add_right _ _
      · have diagnosed : machine.diagnosis = (machine.firstFailure 1 opcode.checks).map
            fun (count, cause) => (count, reported machine.pc opcode cause) := by
          simp only [diagnosis,there,decoded]
        have run := perform_follows machine running (machine.begun opcode) (fetched_begun started) rfl
        cases first : machine.firstFailure 1 opcode.checks with
        | none =>
          rw [first] at run diagnosed
          obtain ⟨final,performed⟩ := run
          rw [performed]
          exact .done final diagnosed
        | some failure =>
          obtain ⟨count,cause⟩ := failure
          rw [first] at run diagnosed
          obtain ⟨final,performed,fetched⟩ := run
          rw [performed]
          change Ends machine (if cause = .plain .halted then .error cause final
            else .error (.execute machine.pc opcode.number cause) final)
          rw [← apply_ite fun error => EStateM.Result.error error final]
          refine .failed _ _ count diagnosed (by rw [begun]; exact fetched) ?_
          intro other stored
          rw [there] at stored
          cases stored
          have bound := firstFailure_le first
          rw [checks_operands] at bound
          rw [ofWord?_operandsOf decoded]
          exact bound

/-- A failing instruction writes nothing, and its failure is that of the first check that
fails. The program counter has passed the words fetched by then, which are the ones that
a trace shows, and the instruction is counted if it was one. -/
theorem failing_tick_diagnosed (machine : Machine) :
    ((∃ error final, tick machine = .error error final) ↔ ∃ failure, machine.diagnosis = some failure) ∧
    ∀ error final, tick machine = .error error final →
      final.registers = machine.registers ∧ final.memory = machine.memory ∧
      final.stack = machine.stack ∧
      final.ticks = machine.ticks + (if machine.atOperation then 1 else 0) ∧
      ∃ count, machine.diagnosis = some (count, error) ∧
        final.pc.toNat = machine.pc.toNat + count ∧
        (∀ raw, machine.memory[machine.pc.toNat]? = some raw →
          count ≤ 1 + (Opcode.operandsOf raw.toNat).length) ∧
        (machine.probe.tracing = true → final.probe.fetches =
          machine.probe.fetches ++ wordsFrom machine.memory machine.pc.toNat count) := by
  have ends := tick_ends machine
  refine ⟨⟨?_,?_⟩,?_⟩
  · rintro ⟨error,final,failed⟩
    rw [failed] at ends
    cases ends with
    | failed _ _ count diagnosed fetched within => exact ⟨_,diagnosed⟩
  · rintro ⟨failure,diagnosed⟩
    cases ended : tick machine with
    | error error final => exact ⟨error,final,rfl⟩
    | ok _ final =>
      rw [ended] at ends
      cases ends with
      | done _ sound => rw [diagnosed] at sound; cases sound
  · intro error final failed
    rw [failed] at ends
    cases ends with
    | failed _ _ count diagnosed fetched within =>
      refine ⟨fetched.registers,fetched.memory,fetched.stack,?_,count,diagnosed,fetched.pc,within,
        fetched.traced⟩
      rw [fetched.ticks]
      cases machine.atOperation <;> rfl

/-- A write through a register that holds no address. Its second operand is no value. -/
def writeBeyond : Machine :=
  { registers := (Vector.replicate registerCount 0).setIfInBounds 0 65535
    memory := fill (Vector.replicate memorySize 0) 0 [16,32768,65535]
    probe := { tracing := true } }

theorem writeBeyond_diagnosis : writeBeyond.diagnosis =
    some (2, .execute 0 16 (.operand 1 65535 (.plain .outsideMemory))) := by
  decide +kernel

theorem failing_tick_diagnosed_writeBeyond : ∃ final,
    tick writeBeyond = .error (.execute 0 16 (.operand 1 65535 (.plain .outsideMemory))) final ∧
    final.registers = writeBeyond.registers ∧ final.memory = writeBeyond.memory ∧
    final.stack = writeBeyond.stack ∧ final.ticks = 1 ∧ final.pc = 2 ∧
    final.probe.fetches = [(0, 16), (1, 32768)] := by
  obtain ⟨error,final,failed⟩ :=
    (failing_tick_diagnosed writeBeyond).1.mpr ⟨_,writeBeyond_diagnosis⟩
  obtain ⟨registers,memory,stack,ticks,count,diagnosed,pc,-,traced⟩ :=
    (failing_tick_diagnosed writeBeyond).2 error final failed
  cases writeBeyond_diagnosis.symm.trans diagnosed
  refine ⟨final,failed,registers,memory,stack,?_,UInt16.toNat_inj.mp pc,?_⟩
  · rw [ticks,if_pos (by decide +kernel)]
    rfl
  · rw [traced rfl]
    decide +kernel

/-- A console that has nothing to read and takes nothing, and raises a halt either way. -/
def haltingConsole : Console :=
  { input := some { remaining := [], ending := .raised .halted }
    output := some { sink := { room := some 0, refusal := .raised .halted } } }

def onHaltingConsole (words : List Word) : Machine :=
  { memory := padded words, console := some haltingConsole }

/-- On such a console an `out` and an `in`, which are no `halt`, fail without a mark. -/
theorem console_halt_unmarked :
    failureOf (tick (onHaltingConsole [19, 65])) = some (.plain .halted) ∧
    failureOf (tick (onHaltingConsole [20, 32768])) = some (.plain .halted) := by
  decide +kernel

end Machine
end WordMachine
