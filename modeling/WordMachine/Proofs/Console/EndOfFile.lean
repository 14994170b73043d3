import WordMachine.Outcome
import WordMachine.Proofs.Console.Uses

/-! The ends of files that a console reports. A read reports one where the input has no byte
left, but also where this read, earlier output or raw mode is refused with one, and a write
where the sink refuses with one. A console that never refuses so reports only the end of its
input. -/
namespace WordMachine

namespace Failure

/-- The failure is the end of a file, whatever the device was doing. -/
def isEnd : Failure → Bool
  | .endOfFile => true
  | .broken _ | .raised _ => false
  | .during _ cause => cause.isEnd

/-- The outcome to which a failure leads is that of its cause. -/
theorem outcome_endOfInput (failure : Failure) :
    Outcome.ofError? failure.error = some .endOfInput ↔ failure.isEnd = true := by
  induction failure with
  | endOfFile => simp [error,Outcome.ofError?,Error.root,isEnd]
  | broken reason => simp [error,Outcome.ofError?,Error.root,isEnd]
  | raised condition => cases condition <;> simp [error,Outcome.ofError?,Error.root,isEnd]
  | during activity cause ih => exact ih

end Failure

namespace Console

def failure? {α : Type} (action : Use α) (console : Console) : Option Error :=
  match action console with
  | .ok _ _ => none
  | .error error _ => some error

def undelivered? (console : Console) : Option Failure :=
  console.output.bind fun output => output.flush.1

/-- Why raw mode, if a read asks for it, cannot be entered. -/
def unentered? (console : Console) : Option Failure :=
  console.raw.bind fun raw => if console.held = 0 then raw.refuses (raw.attempts + 1) else none

def unread? (console : Console) : Option Failure := console.input.bind Input.refusal?

def unwritten? (console : Console) (byte : UInt8) : Option Failure :=
  console.output.bind fun output => (output.write byte).1

section failures

variable {console : Console}

theorem flush_failure (console : Console) :
    failure? flush console = console.undelivered?.map Failure.error := by
  unfold failure? undelivered?
  cases there : console.output with
  | none =>
    rw [flush_none there]
    rfl
  | some output =>
    rcases flushed : output.flush with ⟨failure | failure,next⟩
    · rw [flush_ok there flushed]
      simp [flushed]
    · rw [flush_error there flushed]
      simp [flushed]

theorem writeByte_failure {output : Output} (there : console.output = some output) (byte : UInt8) :
    failure? (writeByte byte) console = (console.unwritten? byte).map Failure.error := by
  unfold failure? unwritten?
  rcases written : output.write byte with ⟨failure | failure,next⟩
  · rw [writeByte_ok there written]
    simp [there,written]
  · rw [writeByte_error there written]
    simp [there,written]

theorem readDevice_failure {input : Input} (there : console.input = some input) :
    failure? readDevice console = console.unread?.map Failure.error := by
  unfold failure? unread?
  cases refused : input.refusal? with
  | some failure =>
    rw [readDevice_refused there refused]
    simp [there,refused]
  | none =>
    obtain ⟨byte,rest,more⟩ := Input.remaining_of_willing refused
    rw [readDevice_byte there refused more]
    simp [there,refused]

theorem restoring_failure {α : Type} (function : Option Nat) (action : Use α) (console : Console) :
    failure? (restoring function action) console = failure? action console := by
  cases function with
  | none => rfl
  | some entry =>
    unfold failure? restoring
    cases action console with
    | ok value left => rfl
    | error error left => rfl

theorem enterRaw_failure (free : console.held = 0) :
    failure? enterRaw console = console.unentered?.map Failure.error := by
  unfold failure? unentered?
  cases there : console.raw with
  | none =>
    unfold enterRaw
    simp [there]
  | some raw =>
    cases refuses : raw.refuses (raw.attempts + 1) with
    | some failure =>
      rw [enterRaw_refused there refuses]
      simp [free,refuses]
    | none =>
      rw [enterRaw_entered there refuses]
      simp [free,refuses]

theorem failure?_error {α : Type} {action : Use α} {error : Error} {left : Console}
    (failed : action console = .error error left) : failure? action console = some error := by
  rw [failure?,failed]

theorem failure?_ok {α : Type} {action : Use α} {value : α} {left : Console}
    (ok : action console = .ok value left) : failure? action console = none := by
  rw [failure?,ok]

theorem prepareRead_inputless (absent : console.input = none) :
    prepareRead console = .error (.plain .noInput) console := by
  unfold prepareRead
  rw [get_bind,if_pos (Option.isNone_iff_eq_none.mpr absent)]
  rfl

theorem prepareRead_eq {input : Input} (there : console.input = some input) :
    prepareRead console = (flush >>= fun _ => get >>= fun console =>
      if console.raw.isSome && console.held == 0 then enterRaw else pure none) console := by
  unfold prepareRead
  rw [get_bind,if_neg (by simp [there])]

/-- Before it reads the device, a read delivers output and then enters raw mode. -/
theorem prepareRead_failure {input : Input} (there : console.input = some input) :
    failure? prepareRead console =
      (console.undelivered?.or console.unentered?).map Failure.error := by
  have delivery := flush_failure console
  have frame := flush_state console
  cases delivered : flush console with
  | error error left =>
    rw [failure?_error delivered] at delivery
    rw [failure?_error ((prepareRead_eq there).trans (bind_of_error delivered)),delivery]
    cases undelivered : console.undelivered? with
    | none => simp [undelivered] at delivery
    | some failure => rfl
  | ok value flushed =>
    rw [failure?_ok delivered] at delivery
    have undelivered : console.undelivered? = none := by simpa using delivery.symm
    have same : flushed.unentered? = console.unentered? := by
      rw [delivered] at frame
      rw [show flushed = _ from frame]
      rfl
    rw [undelivered,Option.none_or,← same,failure?,prepareRead_eq there,bind_of_ok delivered,
      get_bind]
    by_cases asked : (flushed.raw.isSome && flushed.held == 0) = true
    · rw [if_pos asked]
      apply enterRaw_failure
      simpa using (Bool.and_eq_true_iff.mp asked).2
    · rw [if_neg asked]
      have unasked : flushed.unentered? = none := by
        unfold unentered?
        cases raw : flushed.raw with
        | none => rfl
        | some raw => simp_all
      rw [unasked]
      rfl

/-- A read of a console with an input fails as the first of its three parts that fails. -/
theorem readByte_failure {input : Input} (there : console.input = some input) :
    failure? readByte console =
      (console.undelivered?.or (console.unentered?.or console.unread?)).map Failure.error := by
  have untouched := prepareRead_input console
  have prepared := prepareRead_failure there
  rcases readByte_cases console with ⟨error,left,failed,unready⟩ | ⟨function,opened,read,ready⟩
  · rw [failure?_error unready] at prepared
    rw [failure?_error failed,prepared]
    cases undelivered : console.undelivered? with
    | some failure => rfl
    | none =>
      cases unentered : console.unentered? with
      | some failure => rfl
      | none => simp [undelivered,unentered] at prepared
  · have kept : opened.input = console.input := by
      rw [ready] at untouched
      exact untouched
    have same : opened.unread? = console.unread? := by rw [unread?,unread?,kept]
    rw [failure?_ok ready] at prepared
    have neither : console.undelivered?.or console.unentered? = none := by
      simpa using prepared.symm
    have device := readDevice_failure (kept.trans there)
    rw [← Option.or_assoc,neither,Option.none_or,← same,← device,
      ← restoring_failure function readDevice]
    unfold failure?
    rw [read]

theorem readByte_inputless (absent : console.input = none) :
    failure? readByte console = some (.plain .noInput) :=
  failure?_error (bind_of_error (prepareRead_inputless absent))

end failures

end Console

namespace Sink

/-- A sink that never refuses with the end of a file. -/
def Candid (sink : Sink) : Prop := sink.room = none ∨ sink.refusal.isEnd = false

theorem write_candid {sink : Sink} (candid : sink.Candid) (bytes : List UInt8) :
    (sink.write bytes).2.1.any Failure.isEnd = false ∧ (sink.write bytes).2.2.Candid := by
  rcases candid with unlimited | honest
  · unfold write accepts
    rw [unlimited]
    exact ⟨by simp,.inl rfl⟩
  · refine ⟨?_,.inr honest⟩
    unfold write
    dsimp only
    split
    · exact honest
    · rfl

end Sink

namespace Output

/-- An output that never refuses with the end of a file. -/
structure Candid (output : Output) : Prop where
  sink : output.sink.Candid
  buffer : ∀ buffer, output.buffer = some buffer → buffer.failure.any Failure.isEnd = false

/-- A result that is not the end of a file, with an output that stays so. -/
structure Spares (result : Option Failure × Output) : Prop where
  failure : result.1.any Failure.isEnd = false
  output : result.2.Candid

section candid

variable {sink : Sink} {buffer : Buffer}

theorem candid_direct (candid : sink.Candid) : Candid ⟨sink, none⟩ :=
  ⟨candid,nofun⟩

theorem candid_buffered (candid : sink.Candid) (honest : buffer.failure.any Failure.isEnd = false) :
    Candid ⟨sink, some buffer⟩ := by
  refine ⟨candid,?_⟩
  intro other same
  cases same
  exact honest

theorem flushBuffer_spares (candid : sink.Candid) (honest : buffer.failure.any Failure.isEnd = false) :
    Spares (flushBuffer buffer sink) := by
  unfold flushBuffer
  cases sound : buffer.failure with
  | some failure =>
    refine ⟨?_,candid_buffered candid honest⟩
    rw [sound] at honest
    exact honest
  | none =>
    dsimp only
    split
    · exact ⟨rfl,candid_buffered candid honest⟩
    · obtain ⟨refused,next⟩ := Sink.write_candid candid buffer.pending.toList
      exact ⟨refused,candid_buffered next refused⟩

theorem append_candid {output : Output} (candid : output.Candid) (byte : UInt8) :
    (output.append byte).Candid := by
  obtain ⟨sink,_ | buffer⟩ := output
  · exact candid
  · exact candid_buffered candid.sink (candid.buffer buffer rfl)

theorem writeBuffered_spares (candid : sink.Candid) (honest : buffer.failure.any Failure.isEnd = false)
    (byte : UInt8) : Spares (writeBuffered byte buffer sink) := by
  have flushed := flushBuffer_spares candid honest
  unfold writeBuffered
  cases sound : buffer.failure with
  | some failure =>
    refine ⟨?_,candid_buffered candid honest⟩
    rw [sound] at honest
    exact honest
  | none =>
    dsimp only
    split
    · exact ⟨rfl,candid_buffered candid rfl⟩
    · split
      · next failure output result =>
        rw [result] at flushed
        exact flushed
      · next output result =>
        rw [result] at flushed
        exact ⟨rfl,append_candid flushed.output byte⟩

theorem flush_spares {output : Output} (candid : output.Candid) : Spares output.flush := by
  obtain ⟨sink,_ | buffer⟩ := output
  · exact ⟨rfl,candid⟩
  · exact flushBuffer_spares candid.sink (candid.buffer buffer rfl)

theorem write_spares {output : Output} (candid : output.Candid) (byte : UInt8) :
    Spares (output.write byte) := by
  obtain ⟨sink,_ | buffer⟩ := output
  · obtain ⟨refused,next⟩ := Sink.write_candid candid.sink [byte]
    exact ⟨refused,candid_direct next⟩
  · exact writeBuffered_spares candid.sink (candid.buffer buffer rfl) byte

end candid

end Output

/-- A raw mode that never refuses with the end of a file. -/
def RawMode.Candid (raw : RawMode) : Prop :=
  ∀ attempt, (raw.refuses attempt).any Failure.isEnd = false

/-- An input that refuses no read with the end of a file while it has bytes. -/
def Input.Candid (input : Input) : Prop :=
  ∀ read, (input.refuses read).any Failure.isEnd = false

namespace Console

/-- A console of which neither a single read nor output nor raw mode is ever refused with the
end of a file. -/
structure Candid (console : Console) : Prop where
  input : ∀ input, console.input = some input → input.Candid
  output : ∀ output, console.output = some output → output.Candid
  raw : ∀ raw, console.raw = some raw → raw.Candid

section candid

variable {console : Console} (candid : console.Candid)

include candid

theorem candid_delivers : console.undelivered?.any Failure.isEnd = false := by
  unfold undelivered?
  cases there : console.output with
  | none => rfl
  | some output => exact (Output.flush_spares (candid.output output there)).failure

theorem candid_writes (byte : UInt8) : (console.unwritten? byte).any Failure.isEnd = false := by
  unfold unwritten?
  cases there : console.output with
  | none => rfl
  | some output => exact (Output.write_spares (candid.output output there) byte).failure

theorem candid_enters : console.unentered?.any Failure.isEnd = false := by
  unfold unentered?
  cases there : console.raw with
  | none => rfl
  | some raw =>
    rw [Option.bind_some]
    split
    · exact candid.raw raw there _
    · rfl

theorem flush_candid : (stateAfter (flush console)).Candid := by
  rw [flush_state]
  refine ⟨candid.input,?_,candid.raw⟩
  intro output there
  obtain ⟨before,found,rfl⟩ := Option.map_eq_some_iff.mp there
  exact (Output.flush_spares (candid.output before found)).output

theorem writeByte_candid (byte : UInt8) : (stateAfter (writeByte byte console)).Candid := by
  rw [writeByte_state]
  refine ⟨candid.input,?_,candid.raw⟩
  intro output there
  obtain ⟨before,found,rfl⟩ := Option.map_eq_some_iff.mp there
  exact (Output.write_spares (candid.output before found) byte).output

/-- Attempts, entries and restorations do not change what raw mode refuses. -/
theorem candid_attempt {raw next : RawMode} (there : console.raw = some raw)
    (refuses : next.refuses = raw.refuses) : next.Candid := by
  unfold RawMode.Candid
  rw [refuses]
  exact candid.raw raw there

theorem candid_withRaw {left : Console} {raw next : RawMode} (input : left.input = console.input)
    (output : left.output = console.output) (there : console.raw = some raw)
    (now : left.raw = some next) (refuses : next.refuses = raw.refuses) : left.Candid := by
  refine ⟨?_,?_,?_⟩
  · rw [input]
    exact candid.input
  · rw [output]
    exact candid.output
  · intro found same
    cases now.symm.trans same
    exact candid_attempt candid there refuses

/-- A read leaves what the input refuses as it is. -/
theorem candid_withInput {input next : Input} (there : console.input = some input)
    (refuses : next.refuses = input.refuses) : Candid { console with input := some next } := by
  refine ⟨?_,candid.output,candid.raw⟩
  intro found same
  cases same
  unfold Input.Candid
  rw [refuses]
  exact candid.input input there

theorem restoreRaw_candid (function : Option Nat) : (console.restoreRaw function).Candid := by
  refine ⟨candid.input,candid.output,?_⟩
  intro raw there
  obtain ⟨before,found,rfl⟩ := Option.map_eq_some_iff.mp there
  exact candid_attempt candid found rfl

theorem prepareRead_candid : (stateAfter (prepareRead console)).Candid := by
  have flushes := flush_candid candid
  have prepared := prepareRead_prepares console
  generalize prepareRead console = result at prepared ⊢
  cases prepared with
  | inputless absent => exact candid
  | undelivered error left failed =>
    rw [failed] at flushes
    exact flushes
  | unneeded flushed delivered idle =>
    rw [delivered] at flushes
    exact flushes
  | refused flushed delivered raw there free failure refuses =>
    rw [delivered] at flushes
    exact candid_withRaw flushes rfl rfl there rfl rfl
  | entered flushed delivered raw there free =>
    rw [delivered] at flushes
    exact candid_withRaw flushes rfl rfl there rfl rfl

theorem readDevice_candid : (stateAfter (readDevice console)).Candid := by
  have reads := readDevice_reads console
  generalize readDevice console = result at reads ⊢
  cases reads with
  | inputless absent => exact candid
  | refused input failure there refused => exact candid_withInput candid there rfl
  | byte input byte rest there more => exact candid_withInput candid there rfl

theorem readByte_candid : (stateAfter (readByte console)).Candid := by
  have prepared := prepareRead_candid candid
  rcases readByte_cases console with ⟨error,left,failed,unready⟩ | ⟨function,opened,read,ready⟩
  · rw [unready] at prepared
    rw [failed]
    exact prepared
  · rw [ready] at prepared
    have after := readDevice_candid prepared
    rw [read]
    cases function with
    | none => exact after
    | some entry =>
      rw [restoring_state]
      exact restoreRaw_candid after _

theorem hold_candid : (stateAfter (hold console)).Candid := by
  have holds := hold_holds console
  generalize hold console = result at holds ⊢
  cases holds with
  | rawless absent => exact candid
  | nested raw there held => exact ⟨candid.input,candid.output,candid.raw⟩
  | refused raw there free failure refuses => exact candid_withRaw candid rfl rfl there rfl rfl
  | entered raw there free => exact candid_withRaw candid rfl rfl there rfl rfl

theorem release_candid (held : Option Nat) : (console.release held).Candid := by
  cases held with
  | none => exact candid
  | some number =>
    by_cases waiting : number ∈ console.unreleased
    · by_cases last : console.held - 1 = 0
      · rw [release_last waiting last]
        refine ⟨candid.input,candid.output,?_⟩
        intro raw there
        obtain ⟨before,found,rfl⟩ := Option.map_eq_some_iff.mp there
        exact candid_attempt candid found rfl
      · rw [release_nested waiting last]
        exact ⟨candid.input,candid.output,candid.raw⟩
    · rw [release_repeated waiting]
      exact candid

end candid

end Console
end WordMachine
