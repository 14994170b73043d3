import WordMachine.Proofs.Console.Uses

/-! Two consoles side by side, of which one writes to its sink directly and the other one
may have a buffer in between. Both never fail, and every use of them ends alike. -/
namespace WordMachine

/-- One output is direct, the other one may have bytes pending, and both never fail. -/
structure Output.Lags (direct buffered : Output) : Prop where
  unbuffered : direct.buffer = none
  reliable : direct.Reliable
  reliable' : buffered.Reliable
  passed : buffered.passed = direct.passed

namespace Output

variable {direct buffered : Output}

theorem flush_reliable {output : Output} (reliable : output.Reliable) :
    ∃ next, output.flush = (none, next) ∧ next.Reliable ∧ next.passed = output.passed ∧
      (output.buffer = none → next.buffer = none) := by
  have flushed := output.flush_flushes
  generalize output.flush = result at flushed
  cases flushed with
  | failed failure next unreliable stuck delivered => exact absurd reliable unreliable
  | done next cleared delivered kept direct =>
    refine ⟨next,rfl,kept reliable,?_,direct⟩
    rw [passed,cleared,List.append_nil,delivered]

theorem write_reliable {output : Output} (reliable : output.Reliable) (byte : UInt8) :
    ∃ next, output.write byte = (none, next) ∧ next.Reliable ∧
      next.passed = output.passed ++ [byte] ∧ (output.buffer = none → next.buffer = none) := by
  have taken := output.write_takes byte
  generalize output.write byte = result at taken
  cases taken with
  | failed failure next unreliable stuck delivered => exact absurd reliable unreliable
  | done next passed kept direct => exact ⟨next,rfl,kept reliable,passed,direct⟩

theorem flush_lags (lags : Lags direct buffered) : ∃ next next', direct.flush = (none, next) ∧
    buffered.flush = (none, next') ∧ Lags next next' := by
  obtain ⟨next,flushed,reliable,same,unbuffered⟩ := flush_reliable lags.reliable
  obtain ⟨next',flushed',reliable',same',_⟩ := flush_reliable lags.reliable'
  refine ⟨next,next',flushed,flushed',unbuffered lags.unbuffered,reliable,reliable',?_⟩
  rw [same,same',lags.passed]

theorem write_lags (lags : Lags direct buffered) (byte : UInt8) :
    ∃ next next', direct.write byte = (none, next) ∧ buffered.write byte = (none, next') ∧
      Lags next next' := by
  obtain ⟨next,written,reliable,same,unbuffered⟩ := write_reliable lags.reliable byte
  obtain ⟨next',written',reliable',same',_⟩ := write_reliable lags.reliable' byte
  refine ⟨next,next',written,written',unbuffered lags.unbuffered,reliable,reliable',?_⟩
  rw [same,same',lags.passed]

end Output

namespace Console

/-- Two consoles that differ in their outputs alone, of which one lags behind. -/
structure Behind (direct buffered : Console) : Prop where
  input : buffered.input = direct.input
  raw : buffered.raw = direct.raw
  held : buffered.held = direct.held
  restore : buffered.restore = direct.restore
  unreleased : buffered.unreleased = direct.unreleased
  granted : buffered.granted = direct.granted
  output : Option.Rel Output.Lags direct.output buffered.output

theorem behind_output {left right : Console} (behind : Behind left right) {one other : Output}
    (lags : Output.Lags one other) :
    Behind { left with output := some one } { right with output := some other } :=
  ⟨behind.input,behind.raw,behind.held,behind.restore,behind.unreleased,behind.granted,.some lags⟩

theorem behind_raw {left right : Console} (behind : Behind left right) (raw : Option RawMode) :
    Behind { left with raw := raw } { right with raw := raw } :=
  ⟨behind.input,rfl,behind.held,behind.restore,behind.unreleased,behind.granted,behind.output⟩

theorem behind_input {left right : Console} (behind : Behind left right) (input : Option Input) :
    Behind { left with input := input } { right with input := input } :=
  ⟨rfl,behind.raw,behind.held,behind.restore,behind.unreleased,behind.granted,behind.output⟩

theorem behind_cases {left right : Console} (behind : Behind left right) :
    left.output = none ∧ right.output = none ∨
    ∃ one other, left.output = some one ∧ right.output = some other ∧ Output.Lags one other := by
  have outputs := behind.output
  generalize left.output = one at outputs ⊢
  generalize right.output = other at outputs ⊢
  cases outputs with
  | none => exact .inl ⟨rfl,rfl⟩
  | some lags => exact .inr ⟨_,_,rfl,rfl,lags⟩

theorem flush_respects : Respects Behind flush := by
  intro left right behind
  rcases behind_cases behind with ⟨absent,absent'⟩ | ⟨one,other,there,there',lags⟩
  · rw [flush_none absent,flush_none absent']
    exact .ok () behind
  · obtain ⟨next,next',flushed,flushed',further⟩ := Output.flush_lags lags
    rw [flush_ok there flushed,flush_ok there' flushed']
    exact .ok () (behind_output behind further)

theorem writeByte_respects (byte : UInt8) : Respects Behind (writeByte byte) := by
  intro left right behind
  rcases behind_cases behind with ⟨absent,absent'⟩ | ⟨one,other,there,there',lags⟩
  · rw [writeByte_none absent,writeByte_none absent']
    exact .error _ behind
  · obtain ⟨next,next',written,written',further⟩ := Output.write_lags lags byte
    rw [writeByte_ok there written,writeByte_ok there' written']
    exact .ok () (behind_output behind further)

theorem enterRaw_respects : Respects Behind enterRaw := by
  intro left right behind
  cases there : left.raw with
  | none =>
    unfold enterRaw
    rw [behind.raw,there]
    exact .ok none behind
  | some raw =>
    have there' := behind.raw.trans there
    cases refuses : raw.refuses (raw.attempts + 1) with
    | some failure =>
      rw [enterRaw_refused there refuses,enterRaw_refused there' refuses]
      exact .error _ (behind_raw behind _)
    | none =>
      rw [enterRaw_entered there refuses,enterRaw_entered there' refuses]
      exact .ok _ (behind_raw behind _)

theorem prepareRead_respects : Respects Behind prepareRead := by
  intro left right behind
  unfold prepareRead
  rw [get_bind,get_bind,behind.input]
  split
  · exact .error _ behind
  · apply alike_bind (flush_respects left right behind)
    intro _ left right behind
    rw [get_bind,get_bind,behind.raw,behind.held]
    split
    · exact enterRaw_respects left right behind
    · exact .ok none behind

theorem readDevice_respects : Respects Behind readDevice := by
  intro left right behind
  have active : right.rawActive = left.rawActive := congrArg isRaw behind.raw
  cases there : left.input with
  | none =>
    rw [readDevice_none there,readDevice_none (behind.input.trans there)]
    exact .error _ behind
  | some input =>
    have there' := behind.input.trans there
    cases refused : input.refusal? with
    | some failure =>
      rw [readDevice_refused there refused,readDevice_refused there' refused,active]
      exact .error _ (behind_input behind _)
    | none =>
      obtain ⟨byte,rest,more⟩ := Input.remaining_of_willing refused
      rw [readDevice_byte there refused more,readDevice_byte there' refused more,active]
      exact .ok byte (behind_input behind _)

theorem restoring_respects {α : Type} {action : Use α} (uses : Respects Behind action)
    (function : Option Nat) : Respects Behind (restoring function action) := by
  intro left right behind
  refine restoring_alike ?_ function (uses left right behind)
  intro entry left right behind
  unfold restoreRaw
  rw [behind.raw]
  exact behind_raw behind _

theorem readByte_respects : Respects Behind readByte :=
  respects_bind prepareRead_respects (restoring_respects readDevice_respects)

theorem enterHeld_respects : Respects Behind enterHeld := by
  have keeping : ∀ (function : Option Nat) {left right : Console}, Behind left right →
      Behind { left with restore := function } { right with restore := function } := by
    intro function left right behind
    exact ⟨behind.input,behind.raw,behind.held,rfl,behind.unreleased,behind.granted,behind.output⟩
  intro left right behind
  have ended := enterRaw_respects left right behind
  unfold enterHeld
  generalize enterRaw left = result at ended ⊢
  generalize enterRaw right = result' at ended ⊢
  cases ended with
  | ok function related => exact .ok () (keeping function related)
  | error error related => exact .error error (keeping none related)

theorem grant_respects : Respects Behind grant := by
  intro left right behind
  change Alike Behind (.ok (some left.granted) _) (.ok (some right.granted) _)
  rw [behind.granted]
  apply Alike.ok
  refine ⟨behind.input,behind.raw,?_,behind.restore,?_,rfl,behind.output⟩
  · simp only [behind.held]
  · simp only [behind.unreleased]

theorem hold_respects : Respects Behind hold := by
  intro left right behind
  unfold hold
  rw [get_bind,get_bind,behind.raw,behind.held]
  split
  · exact .ok none behind
  · split
    · exact respects_bind enterHeld_respects (fun _ => grant_respects) left right behind
    · exact grant_respects left right behind

theorem release_behind (held : Option Nat) {left right : Console} (behind : Behind left right) :
    Behind (left.release held) (right.release held) := by
  cases held with
  | none => exact behind
  | some number =>
    unfold release
    dsimp only
    rw [behind.unreleased,behind.held]
    split
    · split
      · unfold restoreRaw
        dsimp only
        rw [behind.raw,behind.restore]
        exact ⟨behind.input,rfl,rfl,rfl,rfl,behind.granted,behind.output⟩
      · exact ⟨behind.input,behind.raw,rfl,behind.restore,rfl,behind.granted,behind.output⟩
    · exact behind

/-- What two consoles have in common of which one lags behind. -/
theorem behind_rest {left right : Console} (behind : Behind left right) :
    { left with output := none } = { right with output := none } := by
  obtain ⟨input,output,raw,held,restore,unreleased,granted⟩ := left
  obtain ⟨input',output',raw',held',restore',unreleased',granted'⟩ := right
  obtain ⟨rfl,rfl,rfl,rfl,rfl,rfl,_⟩ := behind
  rfl

theorem behind_delivered {left right : Console} (behind : Behind left right) :
    left.delivered = right.delivered ++ right.pending := by
  unfold delivered pending
  rcases behind_cases behind with ⟨absent,absent'⟩ | ⟨one,other,there,there',lags⟩
  · rw [absent,absent']
    rfl
  · have passed := lags.passed
    unfold Output.passed at passed
    have nothing : one.pending = [] := by
      unfold Output.pending
      rw [lags.unbuffered]
    rw [nothing,List.append_nil] at passed
    rw [there,there']
    exact passed.symm

end Console

end WordMachine
