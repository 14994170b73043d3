import WordMachine.Proofs.Machine.Likeness

/-! The way of bytes to a sink. An output is seen as the bytes that were delivered and those
that are pending. Writing adds a byte to them, flushing moves all that is pending over, and
where one of them fails nothing is delivered ever after. -/
namespace WordMachine

namespace Sink

/-- What a write of bytes to a sink comes to. -/
inductive Writes (sink : Sink) (bytes : List UInt8) : Nat × Option Failure × Sink → Prop
  | all (next : Sink) (room : sink.room = none → next.room = none)
      (taken : next.taken.toList = sink.taken.toList ++ bytes) :
      Writes sink bytes (bytes.length, none, next)
  | part (count : Nat) (next : Sink) (limited : sink.room ≠ none) (full : next.room = some 0)
      (taken : next.taken.toList = sink.taken.toList ++ bytes.take count) :
      Writes sink bytes (count, some sink.refusal, next)

theorem write_writes (sink : Sink) (bytes : List UInt8) :
    Writes sink bytes (sink.write bytes) := by
  unfold write accepts
  cases limit : sink.room with
  | none =>
    dsimp only
    rw [if_neg (Nat.lt_irrefl _),List.take_length]
    exact .all _ (fun _ => rfl) Array.toList_appendList
  | some room =>
    have limited : sink.room ≠ none := by
      rw [limit]
      exact Option.some_ne_none room
    dsimp only
    by_cases fits : bytes.length ≤ room
    · rw [Nat.min_eq_right fits,if_neg (Nat.lt_irrefl _),List.take_length]
      exact .all _ (fun unlimited => absurd unlimited limited) Array.toList_appendList
    · have short := Nat.lt_of_not_le fits
      rw [Nat.min_eq_left (Nat.le_of_lt short),if_pos short]
      exact .part room _ limited (congrArg some (Nat.sub_self room)) Array.toList_appendList

/-- A sink that is full takes nothing, and stays full. -/
theorem write_full {sink : Sink} (full : sink.room = some 0) (bytes : List UInt8) :
    (sink.write bytes).2.2.room = some 0 ∧ (sink.write bytes).2.2.taken = sink.taken := by
  unfold write accepts
  rw [full]
  exact ⟨rfl,by simp⟩

end Sink

namespace Output

def delivered (output : Output) : List UInt8 := output.sink.taken.toList

def pending (output : Output) : List UInt8 :=
  match output.buffer with
  | none => []
  | some buffer => buffer.pending.toList

/-- All bytes that an output took, delivered or not. -/
def passed (output : Output) : List UInt8 := output.delivered ++ output.pending

structure Reliable (output : Output) : Prop where
  room : output.sink.room = none
  sound : ∀ buffer, output.buffer = some buffer → buffer.failure = none

/-- An output that delivers nothing any more. -/
def Stuck (output : Output) : Prop :=
  output.sink.room = some 0 ∨ ∃ buffer, output.buffer = some buffer ∧ buffer.failure ≠ none

inductive Flushes (output : Output) : Option Failure × Output → Prop
  | done (next : Output) (cleared : next.pending = []) (delivered : next.delivered = output.passed)
      (reliable : output.Reliable → next.Reliable)
      (direct : output.buffer = none → next.buffer = none) : Flushes output (none, next)
  | failed (failure : Failure) (next : Output) (unreliable : ¬ output.Reliable)
      (stuck : next.Stuck) (delivered : next.delivered <+: output.passed) :
      Flushes output (some failure, next)

inductive Takes (output : Output) (byte : UInt8) : Option Failure × Output → Prop
  | done (next : Output) (passed : next.passed = output.passed ++ [byte])
      (reliable : output.Reliable → next.Reliable)
      (direct : output.buffer = none → next.buffer = none) : Takes output byte (none, next)
  | failed (failure : Failure) (next : Output) (unreliable : ¬ output.Reliable)
      (stuck : next.Stuck) (delivered : next.delivered <+: output.passed ++ [byte]) :
      Takes output byte (some failure, next)

theorem unreliable_limited {sink : Sink} {buffer : Option Buffer} (limited : sink.room ≠ none) :
    ¬ Reliable ⟨sink, buffer⟩ := fun reliable => limited reliable.room

theorem reliable_direct {sink : Sink} (unlimited : sink.room = none) : Reliable ⟨sink, none⟩ := by
  refine ⟨unlimited,?_⟩
  intro buffer absent
  cases absent

theorem reliable_buffered {sink : Sink} {buffer : Buffer} (unlimited : sink.room = none)
    (sound : buffer.failure = none) : Reliable ⟨sink, some buffer⟩ := by
  refine ⟨unlimited,?_⟩
  intro other same
  cases same
  exact sound

theorem prefix_part {sink next : Sink} {bytes : List UInt8} {count : Nat}
    (taken : next.taken.toList = sink.taken.toList ++ bytes.take count) :
    next.taken.toList <+: sink.taken.toList ++ bytes := by
  rw [taken]
  exact (List.prefix_append_right_inj _).mpr (List.take_prefix count bytes)

theorem flushBuffer_flushes (buffer : Buffer) (sink : Sink) :
    Flushes ⟨sink, some buffer⟩ (flushBuffer buffer sink) := by
  unfold flushBuffer
  cases sound : buffer.failure with
  | some failure =>
    have failing : buffer.failure ≠ none := by
      rw [sound]
      exact Option.some_ne_none failure
    refine .failed failure _ ?_ (.inr ⟨buffer,rfl,failing⟩) (List.prefix_append _ _)
    intro reliable
    exact failing (reliable.sound buffer rfl)
  | none =>
    dsimp only
    split
    · next empty =>
      have nothing : buffer.pending.toList = [] := by simpa using empty
      refine .done _ nothing ?_ id nofun
      unfold passed pending
      dsimp only
      rw [nothing,List.append_nil]
    · have written := sink.write_writes buffer.pending.toList
      generalize sink.write buffer.pending.toList = result at written ⊢
      cases written with
      | all next room taken =>
        refine .done _ ?_ taken ?_ nofun
        · unfold pending
          simp
        · intro reliable
          exact reliable_buffered (room reliable.room) rfl
      | part count next limited full taken =>
        exact .failed _ _ (unreliable_limited limited) (.inl full) (prefix_part taken)

theorem flush_flushes (output : Output) : Flushes output output.flush := by
  obtain ⟨sink,buffer⟩ := output
  cases buffer with
  | none => exact .done _ rfl (List.append_nil _).symm id fun _ => rfl
  | some buffer => exact flushBuffer_flushes buffer sink

theorem append_passed {output : Output} (buffered : output.buffer ≠ none) (byte : UInt8) :
    (output.append byte).passed = output.passed ++ [byte] := by
  obtain ⟨sink,buffer⟩ := output
  cases buffer with
  | none => exact absurd rfl buffered
  | some buffer =>
    unfold append passed pending delivered
    simp

theorem append_reliable {output : Output} (reliable : output.Reliable) (byte : UInt8) :
    (output.append byte).Reliable := by
  obtain ⟨sink,buffer⟩ := output
  cases buffer with
  | none => exact reliable
  | some buffer => exact reliable_buffered reliable.room (reliable.sound buffer rfl)

theorem flushBuffer_buffered (buffer : Buffer) (sink : Sink) :
    (flushBuffer buffer sink).2.buffer ≠ none := by
  unfold flushBuffer
  split
  · exact Option.some_ne_none _
  · split
    · exact Option.some_ne_none _
    · exact Option.some_ne_none _

theorem writeBuffered_takes (byte : UInt8) (buffer : Buffer) (sink : Sink) :
    Takes ⟨sink, some buffer⟩ byte (writeBuffered byte buffer sink) := by
  unfold writeBuffered
  cases sound : buffer.failure with
  | some failure =>
    have failing : buffer.failure ≠ none := by
      rw [sound]
      exact Option.some_ne_none failure
    refine .failed failure _ ?_ (.inr ⟨buffer,rfl,failing⟩) ?_
    · intro reliable
      exact failing (reliable.sound buffer rfl)
    · exact (List.prefix_append _ _).trans (List.prefix_append _ _)
  | none =>
    dsimp only
    split
    · refine .done _ ?_ (fun reliable => reliable_buffered reliable.room rfl) nofun
      unfold passed pending delivered
      simp
    · have flushed := flushBuffer_flushes buffer sink
      have buffered := flushBuffer_buffered buffer sink
      generalize flushBuffer buffer sink = result at flushed buffered ⊢
      cases flushed with
      | failed failure next unreliable stuck delivered =>
        exact .failed failure next unreliable stuck (delivered.trans (List.prefix_append _ _))
      | done next cleared delivered reliable direct =>
        refine .done _ ?_ (fun before => append_reliable (reliable before) byte) nofun
        rw [append_passed buffered]
        unfold passed at delivered ⊢
        rw [cleared,List.append_nil,delivered]

theorem write_takes (output : Output) (byte : UInt8) : Takes output byte (output.write byte) := by
  obtain ⟨sink,buffer⟩ := output
  cases buffer with
  | some buffer => exact writeBuffered_takes byte buffer sink
  | none =>
    have written := sink.write_writes [byte]
    unfold write
    dsimp only
    generalize sink.write [byte] = result at written ⊢
    cases written with
    | all next room taken =>
      refine .done _ ?_ (fun reliable => reliable_direct (room reliable.room)) fun _ => rfl
      unfold passed delivered pending
      dsimp only
      rw [taken,List.append_nil,List.append_nil]
    | part count next limited full taken =>
      refine .failed _ _ (unreliable_limited limited) (.inl full) ?_
      unfold passed pending
      dsimp only
      rw [List.append_nil]
      exact prefix_part taken

theorem flushBuffer_stuck {buffer : Buffer} {sink : Sink} (stuck : Stuck ⟨sink, some buffer⟩) :
    (flushBuffer buffer sink).2.Stuck ∧
      (flushBuffer buffer sink).2.delivered = sink.taken.toList := by
  unfold flushBuffer
  cases sound : buffer.failure with
  | some failure => exact ⟨stuck,rfl⟩
  | none =>
    have full : sink.room = some 0 := by
      rcases stuck with full | ⟨other,same,failing⟩
      · exact full
      · cases same
        exact absurd sound failing
    dsimp only
    split
    · exact ⟨stuck,rfl⟩
    · obtain ⟨room,taken⟩ := Sink.write_full full buffer.pending.toList
      exact ⟨.inl room,congrArg Array.toList taken⟩

theorem append_stuck {output : Output} (stuck : output.Stuck) (byte : UInt8) :
    (output.append byte).Stuck ∧ (output.append byte).delivered = output.delivered := by
  obtain ⟨sink,buffer⟩ := output
  cases buffer with
  | none => exact ⟨stuck,rfl⟩
  | some buffer =>
    refine ⟨?_,rfl⟩
    rcases stuck with full | ⟨other,same,failing⟩
    · exact .inl full
    · cases same
      exact .inr ⟨_,rfl,failing⟩

theorem flush_stuck {output : Output} (stuck : output.Stuck) :
    output.flush.2.Stuck ∧ output.flush.2.delivered = output.delivered := by
  obtain ⟨sink,buffer⟩ := output
  cases buffer with
  | none => exact ⟨stuck,rfl⟩
  | some buffer => exact flushBuffer_stuck stuck

theorem writeBuffered_stuck {buffer : Buffer} {sink : Sink} (stuck : Stuck ⟨sink, some buffer⟩)
    (byte : UInt8) : (writeBuffered byte buffer sink).2.Stuck ∧
      (writeBuffered byte buffer sink).2.delivered = sink.taken.toList := by
  unfold writeBuffered
  split
  · exact ⟨stuck,rfl⟩
  · split
    · exact append_stuck stuck byte
    · obtain ⟨still,same⟩ := flushBuffer_stuck stuck
      generalize flushBuffer buffer sink = result at still same ⊢
      obtain ⟨failure,next⟩ := result
      cases failure with
      | some failure => exact ⟨still,same⟩
      | none =>
        obtain ⟨appended,kept⟩ := append_stuck still byte
        exact ⟨appended,kept.trans same⟩

theorem write_stuck {output : Output} (stuck : output.Stuck) (byte : UInt8) :
    (output.write byte).2.Stuck ∧ (output.write byte).2.delivered = output.delivered := by
  obtain ⟨sink,buffer⟩ := output
  cases buffer with
  | some buffer => exact writeBuffered_stuck stuck byte
  | none =>
    have full : sink.room = some 0 := by
      rcases stuck with full | ⟨buffer,absent,_⟩
      · exact full
      · cases absent
    obtain ⟨room,taken⟩ := Sink.write_full full [byte]
    exact ⟨.inl room,congrArg Array.toList taken⟩

/-- Of the bytes that were to be written, all are passed on, or the delivery stopped after
the first of them. -/
def Conveys (bytes : List UInt8) (output : Output) : Prop :=
  output.passed = bytes ∨ output.Stuck ∧ output.delivered <+: bytes

theorem conveys_delivered {bytes : List UInt8} {output : Output}
    (conveys : output.Conveys bytes) : output.delivered <+: bytes := by
  rcases conveys with all | ⟨_,first⟩
  · rw [← all]
    exact List.prefix_append _ _
  · exact first

theorem conveys_flush {bytes : List UInt8} {output : Output} (conveys : output.Conveys bytes) :
    output.flush.2.Conveys bytes := by
  rcases conveys with all | ⟨stuck,first⟩
  · have flushed := output.flush_flushes
    generalize output.flush = result at flushed ⊢
    cases flushed with
    | done next cleared delivered reliable direct =>
      refine .inl ?_
      rw [passed,cleared,List.append_nil,delivered,all]
    | failed failure next unreliable stuck delivered =>
      rw [all] at delivered
      exact .inr ⟨stuck,delivered⟩
  · obtain ⟨still,same⟩ := flush_stuck stuck
    rw [← same] at first
    exact .inr ⟨still,first⟩

theorem conveys_write {bytes : List UInt8} {output : Output} (conveys : output.Conveys bytes)
    (byte : UInt8) : (output.write byte).2.Conveys (bytes ++ [byte]) := by
  rcases conveys with all | ⟨stuck,first⟩
  · have taken := output.write_takes byte
    generalize output.write byte = result at taken ⊢
    cases taken with
    | done next passed reliable direct =>
      rw [all] at passed
      exact .inl passed
    | failed failure next unreliable stuck delivered =>
      rw [all] at delivered
      exact .inr ⟨stuck,delivered⟩
  · obtain ⟨still,same⟩ := write_stuck stuck byte
    rw [← same] at first
    exact .inr ⟨still,first.trans (List.prefix_append _ _)⟩

end Output
end WordMachine
