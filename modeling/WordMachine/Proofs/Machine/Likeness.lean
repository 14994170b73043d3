import WordMachine.Proofs.Machine.Failure

/-! Two machines side by side that differ in their consoles and in what is observed of
them. An instruction ends alike in both, if the consoles answer alike and what is observed
of one is related to what is observed of the other. -/
namespace WordMachine

/-- Two runs end with the same result or the same error, in related states. -/
inductive Alike {σ α : Type} (states : σ → σ → Prop) :
    EStateM.Result Error σ α → EStateM.Result Error σ α → Prop
  | ok (value : α) {left right : σ} (related : states left right) :
      Alike states (.ok value left) (.ok value right)
  | error (error : Error) {left right : σ} (related : states left right) :
      Alike states (.error error left) (.error error right)

def Respects {σ α : Type} (states : σ → σ → Prop) (action : EStateM Error σ α) : Prop :=
  ∀ left right, states left right → Alike states (action left) (action right)

section alike

variable {σ α β : Type} {states : σ → σ → Prop}

theorem alike_bind {first second : EStateM Error σ α} {next next' : α → EStateM Error σ β}
    {left right : σ} (begun : Alike states (first left) (second right))
    (rest : ∀ value after after', states after after' →
      Alike states (next value after) (next' value after')) :
    Alike states ((first >>= next) left) ((second >>= next') right) := by
  generalize ran : first left = result at begun
  generalize ran' : second right = result' at begun
  cases begun with
  | ok value related =>
    rw [bind_of_ok ran,bind_of_ok ran']
    exact rest value _ _ related
  | error error related =>
    rw [bind_of_error ran,bind_of_error ran']
    exact .error error related

theorem respects_bind {first : EStateM Error σ α} {next : α → EStateM Error σ β}
    (one : Respects states first) (two : ∀ value, Respects states (next value)) :
    Respects states (first >>= next) := by
  intro left right related
  exact alike_bind (one left right related) two

theorem respects_pure (value : α) : Respects states (pure value : EStateM Error σ α) :=
  fun _ _ related => .ok value related

theorem respects_throw (error : Error) : Respects states (throw error : EStateM Error σ α) :=
  fun _ _ related => .error error related

theorem respects_modify {change : σ → σ}
    (kept : ∀ left right, states left right → states (change left) (change right)) :
    Respects states (modify change : EStateM Error σ PUnit) :=
  fun left right related => .ok _ (kept left right related)

theorem respects_discard {action : EStateM Error σ α} (uses : Respects states action) :
    Respects states (discard action : EStateM Error σ PUnit) := by
  intro left right related
  have ended := uses left right related
  change Alike states (EStateM.map _ action left) (EStateM.map _ action right)
  unfold EStateM.map
  generalize action left = result at ended ⊢
  generalize action right = result' at ended ⊢
  cases ended with
  | ok value related => exact .ok _ related
  | error error related => exact .error error related

end alike

namespace Machine

/-- Two machines that differ at most in their consoles and probes, which are related. -/
structure Kin (attached : Option Console → Option Console → Prop)
    (probes : Probe → Probe → Prop) (left right : Machine) : Prop where
  pc : right.pc = left.pc
  registers : right.registers = left.registers
  memory : right.memory = left.memory
  stack : right.stack = left.stack
  ticks : right.ticks = left.ticks
  console : attached left.console right.console
  probe : probes left.probe right.probe

/-- What a read instruction does with its byte. -/
def storeByte (byte : UInt8) : Step Unit := do
  let addr := (← get).pc
  let raw ← fetch
  match raw.register? with
  | some register => setRegister register byte.toUInt16
  | none =>
    if inside : raw.toNat < memorySize then setMemory ⟨raw.toNat, inside⟩ byte.toUInt16
    else throw (.operand addr raw (.plain .invalidInstruction))

theorem readInput_eq : readInput = onConsole Console.readByte >>= storeByte := rfl

/-- A relation between probes that recording the same event keeps. -/
structure Recorded (probes : Probe → Probe → Prop) : Prop where
  trace : ∀ (event : Event) (left right : Probe), probes left right →
    probes (left.trace event) (right.trace event)
  log : ∀ (event : Event) (left right : Probe), probes left right →
    probes (left.log event) (right.log event)

theorem recorded_anything : Recorded fun _ _ => True :=
  ⟨fun _ _ _ _ => trivial,fun _ _ _ _ => trivial⟩

section kin

variable {attached : Option Console → Option Console → Prop}
  {consoles : Console → Console → Prop} {probes : Probe → Probe → Prop}
  {left right : Machine}

theorem kin_there (kin : Kin attached probes left right) :
    right.memory[right.pc.toNat]? = left.memory[left.pc.toNat]? := by
  rw [kin.memory,kin.pc]

theorem kin_console (kin : Kin (Option.Rel consoles) probes left right) {one other : Console}
    (related : consoles one other) :
    Kin (Option.Rel consoles) probes { left with console := some one }
      { right with console := some other } :=
  ⟨kin.pc,kin.registers,kin.memory,kin.stack,kin.ticks,.some related,kin.probe⟩

theorem kin_probe (kin : Kin attached probes left right) {one other : Probe}
    (related : probes one other) :
    Kin attached probes { left with probe := one } { right with probe := other } :=
  ⟨kin.pc,kin.registers,kin.memory,kin.stack,kin.ticks,kin.console,related⟩

theorem setRegister_respects (register : Fin registerCount) (value : Word) :
    Respects (Kin attached probes) (setRegister register value) := by
  apply respects_modify
  intro left right kin
  refine ⟨kin.pc,?_,kin.memory,kin.stack,kin.ticks,kin.console,kin.probe⟩
  simp only [kin.registers]

theorem setMemory_respects (addr : Fin memorySize) (value : Word) :
    Respects (Kin attached probes) (setMemory addr value) := by
  apply respects_modify
  intro left right kin
  refine ⟨kin.pc,kin.registers,?_,kin.stack,kin.ticks,kin.console,kin.probe⟩
  simp only [kin.memory]

theorem jump_respects (addr : Word) : Respects (Kin attached probes) (jump addr) := by
  apply respects_modify
  intro left right kin
  exact ⟨rfl,kin.registers,kin.memory,kin.stack,kin.ticks,kin.console,kin.probe⟩

theorem pushWord_respects (word : Word) : Respects (Kin attached probes) (pushWord word) := by
  apply respects_modify
  intro left right kin
  refine ⟨kin.pc,kin.registers,kin.memory,?_,kin.ticks,kin.console,kin.probe⟩
  simp only [kin.stack]

theorem popWord_respects : Respects (Kin attached probes) popWord := by
  intro left right kin
  cases entries : left.stack.entries with
  | nil =>
    rw [popWord_none entries,popWord_none (by rw [kin.stack,entries])]
    exact .error _ kin
  | cons top rest =>
    rw [popWord_some entries,popWord_some (by rw [kin.stack,entries])]
    exact .ok top ⟨kin.pc,kin.registers,kin.memory,rfl,kin.ticks,kin.console,kin.probe⟩

theorem onConsole_alike {α : Type} {action : Console.Use α}
    (kin : Kin (Option.Rel consoles) probes left right)
    (uses : ∀ one other, left.console = some one → consoles one other →
      Alike consoles (action one) (action other)) :
    Alike (Kin (Option.Rel consoles) probes) (onConsole action left) (onConsole action right) := by
  have consoled := kin.console
  unfold onConsole
  generalize left.console = one at consoled uses
  generalize right.console = other at consoled
  cases consoled with
  | none => exact .error _ kin
  | some related =>
    have ended := uses _ _ rfl related
    dsimp only
    generalize action _ = result at ended
    generalize action _ = result' at ended
    cases ended with
    | ok value related => exact .ok value (kin_console kin related)
    | error error related => exact .error error (kin_console kin related)

theorem onConsole_respects {α : Type} {action : Console.Use α} (uses : Respects consoles action) :
    Respects (Kin (Option.Rel consoles) probes) (onConsole action) :=
  fun _ _ kin => onConsole_alike kin fun one other _ related => uses one other related

variable (recorded : Recorded probes)
include recorded

theorem kin_advance (raw : Word) (kin : Kin attached probes left right) :
    Kin attached probes (left.advance raw) (right.advance raw) := by
  refine ⟨?_,kin.registers,kin.memory,kin.stack,kin.ticks,kin.console,?_⟩
  · rw [advance_pc,advance_pc,kin.pc]
  · change probes (left.probe.trace (.fetched left.pc raw))
      (right.probe.trace (.fetched right.pc raw))
    rw [kin.pc]
    exact recorded.trace _ _ _ kin.probe

theorem fetch_respects : Respects (Kin attached probes) fetch := by
  intro left right kin
  cases there : left.memory[left.pc.toNat]? with
  | none =>
    rw [fetch_outside there,fetch_outside ((kin_there kin).trans there),kin.pc]
    exact .error _ kin
  | some raw =>
    rw [fetch_inside there,fetch_inside ((kin_there kin).trans there)]
    exact .ok raw (kin_advance recorded raw kin)

theorem operand_respects {α : Type} {kind : OperandClass} {action : Step α}
    {result : Registers → Word → α} (operand : FetchesOperand kind action result) :
    Respects (Kin attached probes) action := by
  intro left right kin
  cases there : left.memory[left.pc.toNat]? with
  | none =>
    rw [operand.outside left there,operand.outside right ((kin_there kin).trans there),kin.pc]
    exact .error _ kin
  | some raw =>
    have there' := (kin_there kin).trans there
    have advanced := kin_advance recorded raw kin
    by_cases admitted : kind.admits raw
    · rw [operand.admitted left raw there admitted,operand.admitted right raw there' admitted,
        kin.registers]
      exact .ok _ advanced
    · rw [operand.refused left raw there admitted,operand.refused right raw there' admitted,kin.pc]
      exact .error _ advanced

theorem fetchValue_respects : Respects (Kin attached probes) fetchValue :=
  operand_respects recorded fetchValue_operand

theorem fetchRegister_respects : Respects (Kin attached probes) fetchRegister :=
  operand_respects recorded fetchRegister_operand

theorem fetchAddress_respects : Respects (Kin attached probes) fetchAddress := by
  intro left right kin
  unfold fetchAddress
  rw [get_bind,get_bind,kin.pc]
  apply alike_bind (fetchValue_respects recorded left right kin)
  intro value after after' related
  split
  · exact .ok _ related
  · exact .error _ related

theorem unary_respects (result : Word → Word) : Respects (Kin attached probes) (unary result) :=
  respects_bind (fetchRegister_respects recorded) fun _ =>
    respects_bind (fetchValue_respects recorded) fun _ => setRegister_respects _ _

theorem binary_respects (result : Word → Word → Word) :
    Respects (Kin attached probes) (binary result) :=
  respects_bind (fetchRegister_respects recorded) fun _ =>
    respects_bind (fetchValue_respects recorded) fun _ =>
      respects_bind (fetchValue_respects recorded) fun _ => setRegister_respects _ _

theorem branch_respects (taken : Word → Bool) :
    Respects (Kin attached probes) (branch taken) := by
  apply respects_bind (fetchValue_respects recorded)
  intro a
  apply respects_bind (fetchValue_respects recorded)
  intro b
  split
  · exact jump_respects b
  · exact respects_pure _

theorem remainder_respects : Respects (Kin attached probes) remainder := by
  apply respects_bind (fetchRegister_respects recorded)
  intro register
  apply respects_bind (fetchValue_respects recorded)
  intro b
  apply respects_bind (fetchValue_respects recorded)
  intro c
  split
  · exact respects_bind (respects_throw _) fun _ => setRegister_respects _ _
  · exact setRegister_respects _ _

theorem readMemory_respects : Respects (Kin attached probes) readMemory := by
  apply respects_bind (fetchRegister_respects recorded)
  intro register
  apply respects_bind (fetchAddress_respects recorded)
  intro addr left right kin
  rw [get_bind,get_bind,kin.memory]
  exact setRegister_respects _ _ left right kin

theorem writeMemory_respects : Respects (Kin attached probes) writeMemory :=
  respects_bind (fetchAddress_respects recorded) fun _ =>
    respects_bind (fetchValue_respects recorded) fun _ => setMemory_respects _ _

theorem callAddress_respects : Respects (Kin attached probes) callAddress := by
  intro left right kin
  unfold callAddress
  rw [get_bind,get_bind,kin.pc]
  refine respects_bind (fetchValue_respects recorded) ?_ left right kin
  intro addr
  exact respects_bind (pushWord_respects _) fun _ => jump_respects addr

/-- An operation that does not use the console ends alike whatever the consoles are. -/
theorem perform_respects {opcode : Opcode} (silent : opcode ≠ .output ∧ opcode ≠ .input) :
    Respects (Kin attached probes) (perform opcode) := by
  cases opcode with
  | halt => exact respects_throw _
  | noop => exact respects_pure _
  | set | not => exact unary_respects recorded _
  | eq | gt | add | mult | and | or => exact binary_respects recorded _
  | mod => exact remainder_respects recorded
  | jt | jf => exact branch_respects recorded _
  | jmp => exact respects_bind (fetchValue_respects recorded) jump_respects
  | push => exact respects_bind (fetchValue_respects recorded) pushWord_respects
  | pop =>
    exact respects_bind (fetchRegister_respects recorded) fun register =>
      respects_bind popWord_respects fun top => setRegister_respects register top
  | ret => exact respects_bind popWord_respects jump_respects
  | rmem => exact readMemory_respects recorded
  | wmem => exact writeMemory_respects recorded
  | call => exact callAddress_respects recorded
  | output => exact absurd rfl silent.1
  | input => exact absurd rfl silent.2

theorem writeOutput_respects (writes : ∀ byte, Respects consoles (Console.writeByte byte)) :
    Respects (Kin (Option.Rel consoles) probes) writeOutput :=
  respects_bind (fetchValue_respects recorded) fun _ => onConsole_respects (writes _)

theorem storeByte_respects (byte : UInt8) : Respects (Kin attached probes) (storeByte byte) := by
  intro left right kin
  unfold storeByte
  rw [get_bind,get_bind,kin.pc]
  refine respects_bind (fetch_respects recorded) ?_ left right kin
  intro raw
  split
  · exact setRegister_respects _ _
  · split
    · exact setMemory_respects _ _
    · exact respects_throw _

theorem readInput_alike (kin : Kin (Option.Rel consoles) probes left right)
    (reads : ∀ one other, left.console = some one → consoles one other →
      Alike consoles (Console.readByte one) (Console.readByte other)) :
    Alike (Kin (Option.Rel consoles) probes) (readInput left) (readInput right) := by
  rw [readInput_eq]
  exact alike_bind (onConsole_alike kin reads) (storeByte_respects recorded)

theorem begun_kin (opcode : Opcode) (kin : Kin attached probes left right) :
    Kin attached probes (left.begun opcode) (right.begun opcode) := by
  have advanced := kin_advance recorded opcode.word kin
  refine ⟨advanced.pc,advanced.registers,advanced.memory,advanced.stack,?_,advanced.console,?_⟩
  · rw [begun_ticks,begun_ticks,kin.ticks]
  · change probes ((left.advance opcode.word).probe.log (.executing left.pc opcode))
      ((right.advance opcode.word).probe.log (.executing right.pc opcode))
    rw [kin.pc]
    exact recorded.log _ _ _ advanced.probe

/-- A tick ends alike, if a read that it makes does. -/
theorem tick_alike (kin : Kin (Option.Rel consoles) probes left right)
    (reads : left.memory[left.pc.toNat]? = some Opcode.input.word → ∀ one other,
      left.console = some one → consoles one other →
        Alike consoles (Console.readByte one) (Console.readByte other))
    (writes : ∀ byte, Respects consoles (Console.writeByte byte)) :
    Alike (Kin (Option.Rel consoles) probes) (tick left) (tick right) := by
  have performs : ∀ opcode : Opcode, left.memory[left.pc.toNat]? = some opcode.word →
      Alike (Kin (Option.Rel consoles) probes) (perform opcode (left.begun opcode))
        (perform opcode (right.begun opcode)) := by
    intro opcode there
    have begun := begun_kin recorded opcode kin
    by_cases out : opcode = .output
    · subst out
      exact writeOutput_respects recorded writes _ _ begun
    by_cases read : opcode = .input
    · subst read
      exact readInput_alike recorded begun (reads there)
    exact perform_respects recorded ⟨out,read⟩ _ _ begun
  cases there : left.memory[left.pc.toNat]? with
  | none =>
    rw [tick_outside there,tick_outside ((kin_there kin).trans there),kin.pc]
    exact .error _ kin
  | some raw =>
    have there' := (kin_there kin).trans there
    cases decoded : Opcode.ofWord? raw with
    | none =>
      rw [tick_undefined there decoded,tick_undefined there' decoded,kin.pc]
      exact .error _ (kin_advance recorded raw kin)
    | some opcode =>
      rw [Opcode.ofWord?_eq_some decoded] at there there'
      have ended := performs opcode there
      rw [tick_fetched there,tick_fetched there',kin.pc]
      generalize perform opcode (left.begun opcode) = result at ended ⊢
      generalize perform opcode (right.begun opcode) = result' at ended ⊢
      cases ended with
      | ok value related => exact .ok () related
      | error error related =>
        dsimp only
        split
        · exact .error _ related
        · exact .error _ related

theorem tick_respects (reads : Respects consoles Console.readByte)
    (writes : ∀ byte, Respects consoles (Console.writeByte byte)) :
    Respects (Kin (Option.Rel consoles) probes) tick :=
  fun _ _ kin => tick_alike recorded kin (fun _ one other _ related => reads one other related)
    writes

end kin

end Machine
end WordMachine
