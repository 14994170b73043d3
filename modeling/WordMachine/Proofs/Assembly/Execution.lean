import WordMachine.Proofs.Assembly.Padding
import WordMachine.Proofs.Machine.Refinement

/-! Assembled code on the machine: the words of an instruction are what its operation
demands, and the word of a label is the address of the label. -/
namespace WordMachine.Assembly

def isInstruction (statement : Statement) : Bool :=
  statement.fields.head?.all fun head => !isDirective head

structure WellFormed (statement : Statement) (opcode : Opcode) : Prop where
  number : statement.words[0]? = some opcode.word
  counted : statement.words.length = opcode.width
  inside : statement.addr.toNat + opcode.width ≤ memorySize
  admitted : ∀ (index : Nat) (kind : OperandClass), opcode.operands[index]? = some kind →
    ∃ word, statement.words[index + 1]? = some word ∧ kind.admits word

/-- An operand that was checked before its label was known is still of its class after. -/
theorem checkOperand_admits {labels : Table Word} {kind : OperandClass} {operand : Operand}
    {word : Word} (addressed : ∀ name addr, labels.find? name = some addr → addr.toNat ≤ memorySize)
    (ok : checkOperand kind operand = .ok operand) (linked : operand.linked labels = some word) :
    kind.admits word := by
  cases operand with
  | word value =>
    cases linked
    cases kind with
    | value =>
      have valid : word.isValid = true := by
        apply Classical.byContradiction
        intro invalid
        simp [checkOperand,invalid] at ok
      exact word.isValid_iff.mp valid
    | register =>
      have named : word.register?.isSome = true := by
        apply Classical.byContradiction
        intro unnamed
        simp [checkOperand,unnamed] at ok
      have range := word.register?_isSome_iff.mp named
      exact ⟨range.1,Nat.le_of_lt_succ range.2⟩
    | target =>
      have usable : (word.register?.isSome || word.isLiteral) = true := by
        apply Classical.byContradiction
        intro unusable
        simp [checkOperand,unusable] at ok
      rcases Bool.or_eq_true_iff.mp usable with named | literal
      · exact (word.register?_isSome_iff.mp named).2
      · have small := word.isLiteral_iff.mp literal
        change word.toNat < 32776
        omega
  | label name =>
    -- A label may be one past the last address, which a value and a target still admit.
    have bound : word.toNat ≤ 32768 := addressed name word linked
    have small : word.toNat < 32776 := by omega
    cases kind with
    | value => exact small
    | register => cases ok
    | target => exact small

theorem wordsLinked_word {labels : Table Word} {index place : Nat} {emission : Emission}
    {statement : Statement} {operand : Operand}
    (linked : WordsLinked labels [] index emission statement)
    (stands : emission.operands[place]? = some operand) :
    ∃ word, statement.words[place]? = some word ∧ operand.linked labels = some word := by
  have bound : place < statement.words.length := by
    rw [linked.counted]
    exact (List.getElem?_eq_some_iff.mp stands).1
  rcases linked.final place operand stands with final | ⟨name,-,member⟩
  · have found := List.getElem?_eq_getElem bound
    exact ⟨statement.words[place],found,final.symm.trans found⟩
  · cases member

theorem forall₂_getElem? {α β : Type} {related : α → β → Prop} {first : List α} {second : List β}
    (all : List.Forall₂ related first second) {index : Nat} {one : α}
    (found : first[index]? = some one) : ∃ two, second[index]? = some two ∧ related one two := by
  obtain ⟨bound,rfl⟩ := List.getElem?_eq_some_iff.mp found
  have bound' : index < second.length := by
    rw [← all.length_eq]
    exact bound
  exact ⟨second[index],List.getElem?_eq_getElem bound',all.get bound bound'⟩

section accepted

variable {program : Program} {labels : Table Word} {emissions : List Emission}
  (accepted : Accepted program labels emissions) {statement : Statement}
  (member : statement ∈ program.statements) (operation : isInstruction statement = true)
include accepted

theorem accepted_addressed (name : Text) (addr : Word) (found : labels.find? name = some addr) :
    addr.toNat ≤ memorySize :=
  Nat.le_trans (accepted.bounded name addr found) accepted.fits

include member operation

theorem accepted_instruction :
    ∃ (index : Nat) (emission : Emission) (head : Text) (opcode : Opcode)
      (arguments : List Text) (operands : List Operand), emission ∈ emissions ∧
      WordsLinked labels [] index emission statement ∧
      statement.fields = head :: arguments ∧
      emission.operands = .word opcode.word :: operands ∧
      List.Forall₂ (Reads labels) arguments operands ∧
      List.Forall₂ (fun kind operand => checkOperand kind operand = .ok operand)
        opcode.operands operands := by
  obtain ⟨index,emission,emitted,linked⟩ := accepted_statement accepted member
  have encoded := (accepted.valid emission emitted).encoded
  have fields : statement.fields = emission.statement.fields := by rw [linked.rest]
  rw [← fields] at encoded
  unfold isInstruction at operation
  generalize given : emission.operands = operands at encoded
  generalize statement.fields = texts at encoded operation
  cases encoded with
  | data head arguments _ directive reads => simp [directive] at operation
  | instruction head opcode arguments rest _ mnemonic reads checked =>
    exact ⟨index,emission,head,opcode,arguments,rest,emitted,linked,rfl,given,reads,checked⟩

theorem accepted_wellFormed : ∃ opcode, WellFormed statement opcode := by
  obtain ⟨index,emission,head,opcode,arguments,operands,emitted,linked,-,given,-,checked⟩ :=
    accepted_instruction accepted member operation
  have addr : statement.addr = emission.statement.addr := by rw [linked.rest]
  have counted : statement.words.length = opcode.width := by
    rw [linked.counted,given,List.length_cons,← checked.length_eq,Opcode.width,Nat.add_comm]
  refine ⟨opcode,?_,counted,?_,?_⟩
  · have first : emission.operands[0]? = some (.word opcode.word) := by rw [given]; rfl
    obtain ⟨word,found,same⟩ := wordsLinked_word linked first
    rw [found,← same]
    rfl
  · rw [addr,← counted,linked.counted]
    exact accepted.inside emission emitted
  · intro place kind listed
    obtain ⟨operand,stands,ok⟩ := forall₂_getElem? checked listed
    have shifted : emission.operands[place + 1]? = some operand := by rw [given]; exact stands
    obtain ⟨word,found,same⟩ := wordsLinked_word linked shifted
    exact ⟨word,found,checkOperand_admits (accepted_addressed accepted) ok same⟩

theorem accepted_argument {place : Nat} {field : Text}
    (stands : statement.fields[place + 1]? = some field) :
    ∃ word, statement.words[place + 1]? = some word ∧ fieldWord labels field = some word := by
  obtain ⟨index,emission,head,opcode,arguments,operands,-,linked,fields,given,reads,-⟩ :=
    accepted_instruction accepted member operation
  rw [fields,List.getElem?_cons_succ] at stands
  obtain ⟨operand,read,reading⟩ := forall₂_getElem? reads stands
  have shifted : emission.operands[place + 1]? = some operand := by rw [given]; exact read
  obtain ⟨word,found,same⟩ := wordsLinked_word linked shifted
  exact ⟨word,found,(reads_linked reading).symm.trans same⟩

end accepted

def Loaded (machine : Machine) (statement : Statement) : Prop :=
  ∀ index word, statement.words[index]? = some word →
    machine.memory[statement.addr.toNat + index]? = some word

theorem loaded_decodes {machine : Machine} {statement : Statement} {opcode : Opcode}
    (formed : WellFormed statement opcode) (reached : machine.pc = statement.addr)
    (loaded : Loaded machine statement) : machine.Decodes opcode where
  fetched := by
    rw [reached]
    exact loaded 0 opcode.word formed.number
  inside := by
    rw [reached]
    exact formed.inside
  admitted := by
    intro index kind listed
    obtain ⟨word,found,admitted⟩ := formed.admitted index kind listed
    have stored := loaded (index + 1) word found
    have same : machine.operandWord index = word := by
      rw [Machine.operandWord,reached,Nat.add_assoc,Nat.add_comm 1 index,stored]
      rfl
    rw [same]
    exact admitted

/-- The errors of words that are no instruction, and of a fetch outside memory, which has
no word to name. -/
def isMalformed : Error → Bool
  | .plain .undefinedOpcode | .plain .invalidInstruction | .plain .invalidRegister => true
  | .operand _ raw (.plain .outsideMemory) => raw = 0
  | _ => false

/-- A layer of a failure that the console itself gives to a read or a write. -/
def GivenByConsole (machine : Machine) (layer : Error) : Prop :=
  ∃ cause, layer ∈ cause.layers ∧
    (machine.ConsoleFails Console.readByte cause ∨
      ∃ byte, machine.ConsoleFails (Console.writeByte byte) cause)

theorem beyond_layers {value : Word} (beyond : 32768 ≤ value.toNat) (addr : Word) :
    ∀ layer ∈ (Error.operand addr value (.plain .outsideMemory)).layers,
      isMalformed layer = false := by
  have nonzero : value ≠ 0 := by
    rintro rfl
    exact absurd beyond (by decide)
  simp [Error.layers,isMalformed,nonzero]

theorem refuses_layers {machine : Machine} {cause : Error} {opcode : Opcode}
    (refuses : machine.Refuses cause opcode) :
    ∀ layer ∈ cause.layers, isMalformed layer = true → GivenByConsole machine layer := by
  intro layer member malformed
  cases opcode with
  | pop | ret | mod =>
    obtain ⟨-,rfl⟩ := refuses
    rw [List.mem_singleton.mp member] at malformed
    cases malformed
  | rmem | wmem =>
    obtain ⟨beyond,rfl⟩ := refuses
    rw [beyond_layers beyond _ layer member] at malformed
    cases malformed
  | output => exact ⟨cause,member,.inr ⟨_,refuses⟩⟩
  | input => exact ⟨cause,member,.inl refuses⟩
  | halt | set | push | eq | gt | jmp | jt | jf | add | mult | and | or | not | call | noop =>
    exact refuses.elim

/-- An assembled instruction never fails for its own words: no failure says so unless the
console gave it. What is left is a halt, an empty stack, a division by zero, an address value
outside memory, and the console. -/
theorem assembled_instruction_sound {evaluate : Expression.Evaluator} {depth : Nat}
    {assembler left : Assembler} {source : Text} {program : Program}
    {statement : Statement} {machine final : Machine} {error : Error}
    (ok : assembler.parse evaluate depth source = (.ok program, left))
    (member : statement ∈ program.statements) (operation : isInstruction statement = true)
    (reached : machine.pc = statement.addr) (loaded : Loaded machine statement)
    (failed : machine.tick = .error error final) :
    (∀ layer ∈ error.layers, isMalformed layer = true → GivenByConsole machine layer) ∧
    (error = .plain .halted ∨
      ∃ opcode cause, error = .execute statement.addr opcode.number cause ∧
        machine.Refuses cause opcode) := by
  obtain ⟨emissions,accepted⟩ := parse_accepted ok
  obtain ⟨opcode,formed⟩ := accepted_wellFormed accepted member operation
  have decoded := loaded_decodes formed reached loaded
  rcases Machine.tick_failure decoded failed with rfl | ⟨cause,rfl,refuses⟩
  · refine ⟨?_,.inl rfl⟩
    simp [Error.layers,isMalformed]
  · refine ⟨?_,.inr ⟨opcode,cause,by rw [reached],refuses⟩⟩
    intro layer member malformed
    rcases List.mem_cons.mp member with rfl | inner
    · cases malformed
    · exact refuses_layers refuses layer inner malformed

def divisionByRegister : Text := "mod r0 end r2\nend: halt"

def divider : Machine :=
  { memory := ((((Vector.replicate memorySize 0).set 0 11).set 1 32768).set 2 4).set 3 32770 }

theorem divider_loaded (line : Nat) (fields : List Text) :
    Loaded divider ⟨line,0,fields,[11,32768,4,32770]⟩ := by
  intro index word found
  change divider.memory[0 + index]? = some word
  rw [Nat.zero_add]
  match index, found with
  | 0, rfl => decide +kernel
  | 1, rfl => decide +kernel
  | 2, rfl => decide +kernel
  | 3, rfl => decide +kernel

theorem assembled_instruction_sound_divider :
    ∃ program left final, Assembler.parse Expression.evaluate 0 {} divisionByRegister = (.ok program, left) ∧
      divider.tick = .error (.execute 0 11 (.plain .divideByZero)) final ∧
      ∀ layer ∈ (Error.execute 0 11 (.plain .divideByZero)).layers,
        isMalformed layer = true → GivenByConsole divider layer := by
  have evaluated : ((Assembler.parse Expression.evaluate 0 {} divisionByRegister).1.toOption.bind
      fun program => program.statements[0]?) =
        some ⟨1,0,["mod","r0","end","r2"],[11,32768,4,32770]⟩ := by decide +kernel
  have divided : failureOf divider.tick = some (.execute 0 11 (.plain .divideByZero)) := by
    decide +kernel
  rcases parsed : Assembler.parse Expression.evaluate 0 {} divisionByRegister with ⟨error | program,left⟩
  · rw [parsed] at evaluated
    cases evaluated
  cases ticked : divider.tick with
  | ok _ final => rw [ticked] at divided; cases divided
  | error error final =>
    rw [parsed] at evaluated
    rw [ticked] at divided
    cases divided
    have sound := assembled_instruction_sound parsed (Array.mem_of_getElem? evaluated)
      (by decide +kernel) rfl (divider_loaded 1 _) ticked
    exact ⟨program,left,final,rfl,rfl,sound.1⟩

/-- A word stands for an address at run time: it has that value, and input for it goes to
the cell there, whatever the registers hold. -/
def StandsFor (word addr : Word) : Prop :=
  ∀ machine : Machine, machine.memory[machine.pc.toNat]? = some word →
    machine.fetchValue = .ok addr (machine.advance word) ∧
    ∀ byte console, machine.consoleUse? Console.readByte = some (byte, console) →
      machine.readInput = .ok ()
        { machine.advance word with
          memory := machine.memory.setIfInBounds addr.toNat byte.toUInt16
          console := some console }

def NamesRegister (word : Word) (register : Nat) : Prop :=
  ∀ machine : Machine, machine.memory[machine.pc.toNat]? = some word →
    (∀ value, machine.registers[register]? = some value →
      machine.fetchValue = .ok value (machine.advance word)) ∧
    ∀ byte console, machine.consoleUse? Console.readByte = some (byte, console) →
      machine.readInput = .ok ()
        { machine.advance word with
          registers := machine.registers.setIfInBounds register byte.toUInt16
          console := some console }

theorem standsFor_of_literal {addr : Word} (literal : addr.toNat < memorySize) :
    StandsFor addr addr := by
  intro machine there
  have small : addr.toNat < 32768 := literal
  have valid : addr.toNat < 32776 := by omega
  refine ⟨?_,?_⟩
  · rw [Machine.fetchValue_inside there valid,Machine.valueIn_literal _ small]
  · intro byte console used
    have supplied : machine.Supplies [.target] [addr] := ⟨there,valid,Machine.supplies_nil _⟩
    rw [Machine.readInput_of_use supplied used,if_pos small]
    rfl

theorem valueIn_end {registers : Registers} {addr value : Word} (last : addr.toNat = memorySize)
    (first : registers[0]? = some value) : Machine.valueIn registers addr = value := by
  have named : ¬ addr.toNat < 32768 := by rw [last]; decide
  have zero : addr.toNat - 32768 = 0 := by rw [last]; rfl
  rw [Machine.valueIn,if_neg named,zero,first]
  rfl

theorem registerOf_end {addr : Word} (last : addr.toNat = memorySize) :
    (Machine.registerOf addr).val = 0 := by
  have same : addr = 32768 := UInt16.toNat_inj.mp last
  rw [same]
  decide

/-- The address one past the end of memory is the name of the first register. -/
theorem namesRegister_of_end {addr : Word} (last : addr.toNat = memorySize) :
    NamesRegister addr 0 := by
  intro machine there
  have named : ¬ addr.toNat < 32768 := by rw [last]; decide
  have valid : addr.toNat < 32776 := by rw [last]; decide
  refine ⟨?_,?_⟩
  · intro value first
    rw [Machine.fetchValue_inside there valid,valueIn_end last first]
  · intro byte console used
    have supplied : machine.Supplies [.target] [addr] := ⟨there,valid,Machine.supplies_nil _⟩
    rw [Machine.readInput_of_use supplied used,if_neg named,
      ← Machine.setIfInBounds_inside _ _ (Machine.registerOf addr).isLt,registerOf_end last]
    rfl

def fetchingRegister : Machine := { memory := (Vector.replicate memorySize 0).set 0 32768 }

theorem standsFor_iff {addr : Word} (bound : addr.toNat ≤ memorySize) :
    StandsFor addr addr ↔ addr.toNat < memorySize := by
  refine ⟨?_,standsFor_of_literal⟩
  intro stands
  apply Classical.byContradiction
  intro beyond
  have last : addr.toNat = memorySize := Nat.le_antisymm bound (Nat.le_of_not_lt beyond)
  have same : addr = 32768 := UInt16.toNat_inj.mp last
  subst same
  -- The register holds zero, so the word has another value than the address.
  have there : fetchingRegister.memory[fetchingRegister.pc.toNat]? = some 32768 := by decide +kernel
  have register := (namesRegister_of_end last fetchingRegister there).1 0 (by decide +kernel)
  rw [(stands fetchingRegister there).1] at register
  cases register

/-- The word of a label operand is the address of the label, and stands for that address
at run time unless the label is at the end of an image that fills memory. There the
word is the name of the first register. -/
theorem label_operand_meaning {evaluate : Expression.Evaluator} {depth : Nat}
    {assembler left : Assembler} {source : Text} {program : Program} {statement : Statement}
    {place : Nat} {name : Text}
    (ok : assembler.parse evaluate depth source = (.ok program, left))
    (member : statement ∈ program.statements) (operation : isInstruction statement = true)
    (stands : statement.fields[place + 1]? = some name) (shaped : isName name = true)
    (free : register? name = none) :
    ∃ addr, left.state.labels.find? name = some addr ∧
      statement.words[place + 1]? = some addr ∧ addr.toNat ≤ program.words.length ∧
      (StandsFor addr addr ↔ addr.toNat < memorySize) ∧
      (memorySize ≤ addr.toNat → addr.toNat = memorySize ∧
        program.words.length = memorySize ∧ NamesRegister addr 0) := by
  obtain ⟨emissions,accepted⟩ := parse_accepted ok
  obtain ⟨addr,found,meaning⟩ := accepted_argument accepted member operation stands
  have labelled : left.state.labels.find? name = some addr := by
    simpa [fieldWord,free,shaped] using meaning
  have bound := accepted.bounded name addr labelled
  have fits := accepted.fits
  have within : addr.toNat ≤ memorySize := Nat.le_trans bound fits
  refine ⟨addr,labelled,found,bound,standsFor_iff within,?_⟩
  intro beyond
  have last : addr.toNat = memorySize := Nat.le_antisymm within beyond
  exact ⟨last,by omega,namesRegister_of_end last⟩

theorem label_operand_meaning_padded :
    (∃ program left, Assembler.parse Expression.evaluate 0 {} (padded 0) = (.ok program, left) ∧
      left.state.labels.find? "end" = some 3 ∧ StandsFor 3 3) ∧
    ∃ program left, Assembler.parse Expression.evaluate 0 {} (padded 32765) = (.ok program, left) ∧
      left.state.labels.find? "end" = some 32768 ∧ ¬ StandsFor 32768 32768 ∧
      NamesRegister 32768 0 := by
  constructor
  · obtain ⟨program,left,parsed,defined,member⟩ := @padded_parse Expression.evaluate 0 0 (by decide)
    obtain ⟨addr,labelled,-,-,stands,-⟩ := @label_operand_meaning _ _ _ _ _ _ _ 1 "end" parsed
      member
      (by decide) rfl (by decide) (by decide)
    cases labelled.symm.trans defined
    exact ⟨program,left,parsed,defined,stands.mpr (by decide)⟩
  · obtain ⟨program,left,parsed,defined,member⟩ := @padded_parse Expression.evaluate 0 32765 (by decide)
    obtain ⟨addr,labelled,-,-,stands,beyond⟩ := @label_operand_meaning _ _ _ _ _ _ _ 1 "end" parsed
      member
      (by decide) rfl (by decide) (by decide)
    cases labelled.symm.trans defined
    refine ⟨program,left,parsed,defined,?_,(beyond (by decide)).2.2⟩
    intro stand
    exact absurd (stands.mp stand) (by decide)

end WordMachine.Assembly
