import WordMachine.Proofs.Emulator.Buffering
import WordMachine.Proofs.Emulator.Ticks

/-! The result of a run says whether all of its output was delivered. A buffer in front of a
sink keeps the account: until a flush fails it holds what the sink lacks, and afterwards the
sink stays short of what was written, and every flush fails again. -/
namespace WordMachine

namespace Sink

theorem write_taken (sink : Sink) (bytes : List UInt8) :
    (sink.write bytes).2.2.taken.toList =
      sink.taken.toList ++ bytes.take (sink.write bytes).1 := by
  simp [write]

theorem write_refused (sink : Sink) (bytes : List UInt8) :
    (sink.write bytes).2.1 = none ↔ bytes.length ≤ (sink.write bytes).1 := by
  simp [write]

end Sink

namespace Output

/-- Of the bytes that were written to a buffered output, all are passed on unless a flush
failed, and then some are never delivered. -/
def Accounts (bytes : List UInt8) (output : Output) : Prop :=
  ∃ buffer, output.buffer = some buffer ∧
    (buffer.failure = none → output.passed = bytes) ∧
    (buffer.failure ≠ none → output.delivered.length < bytes.length)

theorem flushBuffer_accounts {buffer : Buffer} {sink : Sink} {bytes : List UInt8}
    (accounts : Accounts bytes ⟨sink, some buffer⟩) :
    (flushBuffer buffer sink).2.Accounts bytes ∧
      ((flushBuffer buffer sink).1 = none ↔ (flushBuffer buffer sink).2.delivered = bytes) := by
  obtain ⟨_,same,passes,lacks⟩ := accounts
  cases same
  unfold flushBuffer
  cases sound : buffer.failure with
  | some failure =>
    have short := lacks (by simp [sound])
    refine ⟨⟨buffer,rfl,passes,lacks⟩,⟨nofun,?_⟩⟩
    intro whole
    change sink.taken.toList = bytes at whole
    rw [delivered,whole] at short
    exact absurd short (Nat.lt_irrefl _)
  | none =>
    have all := passes sound
    change sink.taken.toList ++ buffer.pending.toList = bytes at all
    dsimp only
    split
    · next empty =>
      have nothing : buffer.pending.toList = [] := by simpa using empty
      refine ⟨⟨buffer,rfl,passes,lacks⟩,⟨fun _ => ?_,fun _ => rfl⟩⟩
      rw [← all,nothing,List.append_nil]
      rfl
    · have taken := sink.write_taken buffer.pending.toList
      have refused := sink.write_refused buffer.pending.toList
      generalize sink.write buffer.pending.toList = result at taken refused
      obtain ⟨count,refusal,next⟩ := result
      dsimp only at taken refused ⊢
      cases refusal with
      | none =>
        have enough := refused.mp rfl
        rw [List.take_of_length_le enough,all] at taken
        refine ⟨⟨_,rfl,?_,nofun⟩,⟨fun _ => taken,fun _ => rfl⟩⟩
        intro _
        have cleared : (buffer.pending.extract count buffer.pending.size).toList = [] := by
          simpa using .inr enough
        change next.taken.toList ++ (buffer.pending.extract count buffer.pending.size).toList = bytes
        rw [cleared,List.append_nil,taken]
      | some failure =>
        have part : count < buffer.pending.toList.length :=
          Nat.lt_of_not_le fun enough => nomatch refused.mpr enough
        have short : next.taken.toList.length < bytes.length := by
          rw [taken,← all]
          simp only [List.length_append,List.length_take]
          omega
        refine ⟨⟨_,rfl,nofun,fun _ => short⟩,⟨nofun,?_⟩⟩
        intro whole
        change next.taken.toList = bytes at whole
        rw [whole] at short
        exact absurd short (Nat.lt_irrefl _)

theorem flush_accounts {output : Output} {bytes : List UInt8} (accounts : output.Accounts bytes) :
    output.flush.2.Accounts bytes ∧ (output.flush.1 = none ↔ output.flush.2.delivered = bytes) := by
  obtain ⟨sink,buffer⟩ := output
  cases buffer with
  | none =>
    obtain ⟨_,absent,_⟩ := accounts
    cases absent
  | some buffer => exact flushBuffer_accounts accounts

theorem flushBuffer_failure (buffer : Buffer) (sink : Sink) :
    ∃ next, (flushBuffer buffer sink).2.buffer = some next ∧
      next.failure = (flushBuffer buffer sink).1 := by
  unfold flushBuffer
  cases sound : buffer.failure with
  | some failure => exact ⟨buffer,rfl,sound⟩
  | none =>
    dsimp only
    split
    · exact ⟨buffer,rfl,sound⟩
    · exact ⟨_,rfl,rfl⟩

theorem append_accounts {output : Output} {bytes : List UInt8} {buffer : Buffer}
    (there : output.buffer = some buffer) (sound : buffer.failure = none)
    (passes : output.passed = bytes) (byte : UInt8) :
    (output.append byte).Accounts (bytes ++ [byte]) := by
  have appended : (output.append byte).passed = bytes ++ [byte] := by
    rw [append_passed (by simp [there]),passes]
  obtain ⟨sink,_⟩ := output
  cases there
  exact ⟨_,rfl,fun _ => appended,fun failing => absurd sound failing⟩

theorem write_accounts {output : Output} {bytes : List UInt8} (accounts : output.Accounts bytes)
    (byte : UInt8) : (output.write byte).2.Accounts (bytes ++ [byte]) := by
  obtain ⟨buffer,there,passes,lacks⟩ := accounts
  obtain ⟨sink,_⟩ := output
  cases there
  -- what is short of the bytes before stays short with one more
  have longer : ∀ {output : Output}, output.delivered.length < bytes.length →
      output.delivered.length < (bytes ++ [byte]).length := by
    intro output short
    rw [List.length_append]
    exact Nat.lt_add_right _ short
  change (writeBuffered byte buffer sink).2.Accounts _
  unfold writeBuffered
  cases sound : buffer.failure with
  | some failure =>
    refine ⟨buffer,rfl,fun working => ?_,fun failing => longer (lacks failing)⟩
    rw [sound] at working
    cases working
  | none =>
    dsimp only
    split
    · refine ⟨_,rfl,fun _ => ?_,nofun⟩
      rw [← passes sound]
      simp [passed,delivered,pending]
    · obtain ⟨next,there,same⟩ := flushBuffer_failure buffer sink
      obtain ⟨⟨_,there',passes,lacks⟩,_⟩ := flushBuffer_accounts ⟨buffer,rfl,passes,lacks⟩
      cases there.symm.trans there'
      generalize flushBuffer buffer sink = result at there same passes lacks ⊢
      obtain ⟨failure,output⟩ := result
      cases failure with
      | none => exact append_accounts there same (passes same) byte
      | some failure =>
        refine ⟨next,there,fun working => ?_,fun failing => longer (lacks failing)⟩
        rw [same] at working
        cases working

end Output

namespace Emulator

theorem exchange_output {first console : Console} {bytes : List UInt8}
    (exchange : Exchange first bytes console) : console.output.isSome = first.output.isSome := by
  induction exchange with
  | start => rfl
  | write bytes console byte before ih =>
    rw [Console.writeByte_state]
    simpa using ih
  | read bytes console before ih =>
    rcases Console.readByte_output console with same | flushed
    · rw [same,ih]
    · rw [flushed,Console.flush_state]
      simpa using ih

theorem exchange_accounts {first console : Console} {bytes : List UInt8} {sink : Sink} {size : Nat}
    (exchange : Exchange first bytes console)
    (there : first.output = some ⟨sink, some { size := size }⟩) :
    ∀ output, console.output = some output → output.Accounts (sink.taken.toList ++ bytes) := by
  refine exchange_kept (fun bytes => Output.Accounts (sink.taken.toList ++ bytes)) ?_ ?_ exchange ?_
  · intro bytes output byte accounts
    rw [← List.append_assoc]
    exact Output.write_accounts accounts byte
  · intro bytes output accounts
    exact (Output.flush_accounts accounts).1
  · intro output same
    cases there.symm.trans same
    exact ⟨_,rfl,fun _ => rfl,nofun⟩

theorem deliver_failure {emulator : Emulator} {console : Console} {output : Output}
    (attached : emulator.machine.console = some console) (there : console.output = some output) :
    (deliver emulator).1 = none ↔ output.flush.1 = none := by
  unfold deliver flush
  rcases flushed : output.flush with ⟨_ | failure,next⟩
  · have ok := Console.flush_ok there flushed
    have used : Machine.onConsole Console.flush emulator.machine =
        .ok () { emulator.machine with console := some { console with output := some next } } := by
      rw [Machine.onConsole,attached]
      dsimp only
      rw [ok]
    rw [onMachine_ok used]
    simp
  · have failed := Console.flush_error there flushed
    have used : Machine.onConsole Console.flush emulator.machine = .error failure.error
        { emulator.machine with console := some { console with output := some next } } := by
      rw [Machine.onConsole,attached]
      dsimp only
      rw [failed]
    rw [onMachine_error used]
    simp

/-- A run is over within a limit: its hold is refused, or its ticks end. -/
def EndsWithin (limit : Nat) (emulator : Emulator) : Prop :=
  ∀ held opened, hold emulator = .ok held opened → (tickUpTo limit opened).2.1 ≠ .ok false

theorem run_of_held {emulator opened : Emulator} {held : Option Nat}
    (granted : hold emulator = .ok held opened) (limit : Nat) :
    run limit emulator =
      conclude held (tickUpTo limit opened).2.1 (tickUpTo limit opened).2.2 := by
  rw [run,granted]

/-- A run that is over does not change with a higher limit. -/
theorem run_more {emulator : Emulator} {limit : Nat} (ended : emulator.EndsWithin limit)
    (more : Nat) : run (limit + more) emulator = run limit emulator := by
  cases granted : hold emulator with
  | error error left => rw [run,run,granted]
  | ok held opened =>
    have same : tickUpTo (limit + more) opened = tickUpTo limit opened :=
      tickFrom_more (ended held opened granted) more
    rw [run_of_held granted,run_of_held granted,same]

theorem conclude_failure {held : Option Nat} {result : Except Error Bool} {emulator : Emulator}
    (ends : Ends result emulator) (ended : result ≠ .ok false) :
    (conclude held result emulator).2.1 = none ↔
      (conclude held result emulator).1 ≠ .running ∧ (deliver emulator).1 = none := by
  cases ends with
  | further => exact absurd rfl ended
  | fatal addr line cause running => exact ⟨nofun,fun both => absurd rfl both.1⟩
  | unshown last running => exact ⟨nofun,fun both => absurd rfl both.1⟩
  | ended finished =>
    have kept : (deliver emulator).2.outcome = emulator.outcome := by
      rw [deliver_after]
      rfl
    change _ ↔ (deliver emulator).2.outcome ≠ .running ∧ _
    rw [kept]
    exact ⟨fun delivered => ⟨finished,delivered⟩,fun both => both.2⟩

theorem held_succeeds {limit : Nat} {emulator : Emulator} {console : Console} {sink : Sink}
    {size : Nat} (held : Option Nat) (attached : emulator.machine.console = some console)
    (there : console.output = some ⟨sink, some { size := size }⟩)
    (ended : (tickUpTo limit emulator).2.1 ≠ .ok false) :
    (conclude held (tickUpTo limit emulator).2.1 (tickUpTo limit emulator).2.2).2.1 = none ↔
      (conclude held (tickUpTo limit emulator).2.1 (tickUpTo limit emulator).2.2).1 ≠ .running ∧
        (conclude held (tickUpTo limit emulator).2.1
            (tickUpTo limit emulator).2.2).2.2.sink.taken.toList =
          sink.taken.toList ++ utteredFrom limit emulator := by
  obtain ⟨used,reached,exchange⟩ := tickFrom_exchange 0 limit attached .start
  rw [List.nil_append] at exchange
  have buffered : used.output.isSome = true := by
    rw [exchange_output exchange,there]
    rfl
  obtain ⟨output,kept⟩ := Option.isSome_iff_exists.mp buffered
  obtain ⟨-,delivers⟩ := Output.flush_accounts (exchange_accounts exchange there output kept)
  have final : (conclude held (tickUpTo limit emulator).2.1
      (tickUpTo limit emulator).2.2).2.2.sink.taken.toList = output.flush.2.delivered := by
    rw [conclude_after]
    unfold Emulator.sink mapConsole
    rw [show (tickUpTo limit emulator).2.2.machine.console = some used from reached]
    simp [Console.release_output,Console.flush_state,kept,Output.delivered]
  have ends : Ends (tickUpTo limit emulator).2.1 (tickUpTo limit emulator).2.2 :=
    tickFrom_ends 0 limit emulator
  rw [final,← delivers,← deliver_failure reached kept]
  exact conclude_failure ends ended

/-- A run that is over has no failure if and only if it has an outcome and all that the
program wrote is in the sink. -/
theorem run_succeeds {limit : Nat} {emulator : Emulator} {console : Console} {sink : Sink}
    {size : Nat} (attached : emulator.machine.console = some console)
    (there : console.output = some ⟨sink, some { size := size }⟩)
    (ended : emulator.EndsWithin limit) :
    (run limit emulator).2.1 = none ↔
      (run limit emulator).1 ≠ .running ∧
        (run limit emulator).2.2.sink.taken.toList =
          sink.taken.toList ++ utteredRun limit emulator := by
  have output := Console.hold_output console
  cases asked : Console.hold console with
  | error error left =>
    rw [run,hold_error attached asked]
    simp
  | ok held opened =>
    have granted := hold_ok attached asked
    rw [asked] at output
    rw [run_of_held granted,utteredRun,granted]
    exact held_succeeds held rfl (output.trans there) (ended held _ granted)

end Emulator
end WordMachine
