import WordMachine.Proofs.Console.Delivery

/-! What each use of a console does to it. -/
namespace WordMachine

/-- Why the next read of an input fails, if it does. -/
def Input.refusal? (input : Input) : Option Failure :=
  (input.refuses (input.reads.size + 1)).or
    (if input.remaining = [] then some input.ending else none)

theorem Input.remaining_of_willing {input : Input} (willing : input.refusal? = none) :
    ∃ byte rest, input.remaining = byte :: rest := by
  cases left : input.remaining with
  | nil => simp [refusal?,left] at willing
  | cons byte rest => exact ⟨byte,rest,rfl⟩

namespace Console

/-- The bytes that were written and did not reach the sink. -/
def pending (console : Console) : List UInt8 :=
  (console.output.map Output.pending).getD []

section output

variable {console : Console} {output next : Output} {failure : Failure} {byte : UInt8}

theorem flush_none (absent : console.output = none) : flush console = .ok () console := by
  obtain ⟨input,output,raw,held,restore,unreleased,granted⟩ := console
  cases absent
  rfl

theorem flush_ok (there : console.output = some output) (flushed : output.flush = (none, next)) :
    flush console = .ok () { console with output := some next } := by
  obtain ⟨input,output,raw,held,restore,unreleased,granted⟩ := console
  cases there
  unfold flush
  dsimp only
  rw [flushed]

theorem flush_error (there : console.output = some output)
    (flushed : output.flush = (some failure, next)) :
    flush console = .error failure.error { console with output := some next } := by
  obtain ⟨input,output,raw,held,restore,unreleased,granted⟩ := console
  cases there
  unfold flush
  dsimp only
  rw [flushed]

theorem writeByte_none (absent : console.output = none) :
    writeByte byte console = .error (.plain .noOutput) console := by
  obtain ⟨input,output,raw,held,restore,unreleased,granted⟩ := console
  cases absent
  rfl

theorem writeByte_ok (there : console.output = some output)
    (written : output.write byte = (none, next)) :
    writeByte byte console = .ok () { console with output := some next } := by
  obtain ⟨input,output,raw,held,restore,unreleased,granted⟩ := console
  cases there
  unfold writeByte
  dsimp only
  rw [written]

theorem writeByte_error (there : console.output = some output)
    (written : output.write byte = (some failure, next)) :
    writeByte byte console = .error failure.error { console with output := some next } := by
  obtain ⟨input,output,raw,held,restore,unreleased,granted⟩ := console
  cases there
  unfold writeByte
  dsimp only
  rw [written]

end output

section input

variable {console : Console} {input : Input} {byte : UInt8} {rest : List UInt8}

theorem readDevice_none (absent : console.input = none) :
    readDevice console = .error (.plain .noInput) console := by
  obtain ⟨input,output,raw,held,restore,unreleased,granted⟩ := console
  cases absent
  rfl

theorem readDevice_refused {failure : Failure} (there : console.input = some input)
    (refused : input.refusal? = some failure) :
    readDevice console = .error failure.error
      { console with input := some { input with reads := input.reads.push console.rawActive } } := by
  obtain ⟨_,output,raw,held,restore,unreleased,granted⟩ := console
  obtain ⟨remaining,ending,refuses,reads⟩ := input
  cases there
  unfold readDevice
  unfold Input.refusal? at refused
  simp only [Array.size_push] at refused ⊢
  cases refusal : refuses (reads.size + 1) with
  | some cause =>
    rw [refusal] at refused
    cases refused
    rfl
  | none =>
    cases remaining with
    | nil =>
      rw [refusal] at refused
      cases refused
      rfl
    | cons byte rest => simp [refusal] at refused

theorem readDevice_byte (there : console.input = some input) (willing : input.refusal? = none)
    (more : input.remaining = byte :: rest) :
    readDevice console = .ok byte
      { console with
        input := some
          { input with remaining := rest, reads := input.reads.push console.rawActive } } := by
  obtain ⟨_,output,raw,held,restore,unreleased,granted⟩ := console
  obtain ⟨remaining,ending,refuses,reads⟩ := input
  cases there
  cases more
  have admitted : refuses (reads.size + 1) = none := (Option.or_eq_none_iff.mp willing).1
  unfold readDevice
  simp only [Array.size_push,admitted]
  rfl

end input

inductive Reads (console : Console) : EStateM.Result Error Console UInt8 → Prop
  | inputless (absent : console.input = none) :
      Reads console (.error (.plain .noInput) console)
  | refused (input : Input) (failure : Failure) (there : console.input = some input)
      (refused : input.refusal? = some failure) :
      Reads console (.error failure.error
        { console with input := some { input with reads := input.reads.push console.rawActive } })
  | byte (input : Input) (byte : UInt8) (rest : List UInt8) (there : console.input = some input)
      (more : input.remaining = byte :: rest) :
      Reads console (.ok byte
        { console with
          input := some
            { input with remaining := rest, reads := input.reads.push console.rawActive } })

theorem readDevice_reads (console : Console) : Reads console (readDevice console) := by
  cases there : console.input with
  | none =>
    rw [readDevice_none there]
    exact .inputless there
  | some input =>
    cases refused : input.refusal? with
    | some failure =>
      rw [readDevice_refused there refused]
      exact .refused input failure there refused
    | none =>
      obtain ⟨byte,rest,more⟩ := Input.remaining_of_willing refused
      rw [readDevice_byte there refused more]
      exact .byte input byte rest there more

theorem flush_state (console : Console) : stateAfter (flush console) =
    { console with output := console.output.map fun output => output.flush.2 } := by
  cases there : console.output with
  | none =>
    rw [flush_none there]
    exact congrArg (fun output => { console with output := output }) there
  | some output =>
    rcases flushed : output.flush with ⟨failure | failure,next⟩
    · rw [flush_ok there flushed,Option.map_some,flushed]
      rfl
    · rw [flush_error there flushed,Option.map_some,flushed]
      rfl

theorem writeByte_state (console : Console) (byte : UInt8) : stateAfter (writeByte byte console) =
    { console with output := console.output.map fun output => (output.write byte).2 } := by
  cases there : console.output with
  | none =>
    rw [writeByte_none there]
    exact congrArg (fun output => { console with output := output }) there
  | some output =>
    rcases written : output.write byte with ⟨failure | failure,next⟩
    · rw [writeByte_ok there written,Option.map_some,written]
      rfl
    · rw [writeByte_error there written,Option.map_some,written]
      rfl

theorem flush_fails (console : Console) {error : Error} {left : Console}
    (failed : flush console = .error error left) : ∃ failure : Failure, error = failure.error := by
  cases there : console.output with
  | none =>
    rw [flush_none there] at failed
    cases failed
  | some output =>
    rcases flushed : output.flush with ⟨failure | failure,next⟩
    · rw [flush_ok there flushed] at failed
      cases failed
    · rw [flush_error there flushed] at failed
      cases failed
      exact ⟨failure,rfl⟩

/-- After output was delivered nothing is pending. -/
theorem flush_cleared {console flushed : Console} (ok : flush console = .ok () flushed) :
    flushed.pending = [] := by
  cases there : console.output with
  | none =>
    rw [flush_none there] at ok
    cases ok
    unfold pending
    rw [there]
    rfl
  | some output =>
    have delivered := output.flush_flushes
    generalize result : output.flush = attempt at delivered
    cases delivered with
    | done next cleared delivered reliable direct =>
      rw [flush_ok there result] at ok
      cases ok
      exact cleared
    | failed failure next unreliable stuck delivered =>
      rw [flush_error there result] at ok
      cases ok

inductive Prepares (console : Console) : EStateM.Result Error Console (Option Nat) → Prop
  | inputless (absent : console.input = none) :
      Prepares console (.error (.plain .noInput) console)
  | undelivered (error : Error) (left : Console) (failed : flush console = .error error left) :
      Prepares console (.error error left)
  | unneeded (flushed : Console) (delivered : flush console = .ok () flushed)
      (idle : flushed.raw = none ∨ flushed.held ≠ 0) : Prepares console (.ok none flushed)
  | refused (flushed : Console) (delivered : flush console = .ok () flushed) (raw : RawMode)
      (there : flushed.raw = some raw) (free : flushed.held = 0)
      (failure : Failure) (refuses : raw.refuses (raw.attempts + 1) = some failure) :
      Prepares console (.error failure.error
        { flushed with raw := some { raw with attempts := raw.attempts + 1 } })
  | entered (flushed : Console) (delivered : flush console = .ok () flushed) (raw : RawMode)
      (there : flushed.raw = some raw) (free : flushed.held = 0) :
      Prepares console (.ok (some (raw.entered + 1))
        { flushed with
          raw := some { raw with attempts := raw.attempts + 1, entered := raw.entered + 1 } })

theorem enterRaw_refused {console : Console} {raw : RawMode} {failure : Failure}
    (there : console.raw = some raw) (refuses : raw.refuses (raw.attempts + 1) = some failure) :
    enterRaw console = .error failure.error
      { console with raw := some { raw with attempts := raw.attempts + 1 } } := by
  unfold enterRaw RawMode.enter
  rw [there]
  dsimp only
  rw [refuses]

theorem enterRaw_entered {console : Console} {raw : RawMode} (there : console.raw = some raw)
    (admits : raw.refuses (raw.attempts + 1) = none) :
    enterRaw console = .ok (some (raw.entered + 1))
      { console with
        raw := some { raw with attempts := raw.attempts + 1, entered := raw.entered + 1 } } := by
  unfold enterRaw RawMode.enter
  rw [there]
  dsimp only
  rw [admits]

theorem prepareRead_prepares (console : Console) : Prepares console (prepareRead console) := by
  unfold prepareRead
  rw [get_bind]
  split
  · next absent => exact .inputless (Option.isNone_iff_eq_none.mp absent)
  · change Prepares console ((flush >>= fun _ => get >>= fun console =>
      if console.raw.isSome && console.held == 0 then enterRaw else pure none) console)
    cases delivered : flush console with
    | error error left =>
      rw [bind_of_error delivered]
      exact .undelivered error left delivered
    | ok value flushed =>
      rw [bind_of_ok delivered,get_bind]
      cases there : flushed.raw with
      | none => exact .unneeded flushed delivered (.inl there)
      | some raw =>
        by_cases free : flushed.held = 0
        · rw [free]
          change Prepares console (enterRaw flushed)
          cases refuses : raw.refuses (raw.attempts + 1) with
          | some failure =>
            rw [enterRaw_refused there refuses]
            exact .refused flushed delivered raw there free failure refuses
          | none =>
            rw [enterRaw_entered there refuses]
            exact .entered flushed delivered raw there free
        · rw [if_neg (by simp [free])]
          exact .unneeded flushed delivered (.inr free)

/-- A read of the device happens when nothing is pending. -/
theorem prepareRead_cleared {console opened : Console} {function : Option Nat}
    (ok : prepareRead console = .ok function opened) : opened.pending = [] := by
  have prepared := prepareRead_prepares console
  rw [ok] at prepared
  cases prepared with
  | unneeded _ delivered idle => exact flush_cleared delivered
  | entered flushed delivered raw there free =>
    have cleared := flush_cleared delivered
    exact cleared

/-- A read either fails with the device untouched, or reads the device once. -/
theorem readByte_cases (console : Console) :
    (∃ error left, readByte console = .error error left ∧ prepareRead console = .error error left) ∨
    ∃ function opened, readByte console = restoring function readDevice opened ∧
      prepareRead console = .ok function opened := by
  unfold readByte
  cases prepared : prepareRead console with
  | error error left => exact .inl ⟨error,left,bind_of_error prepared,rfl⟩
  | ok function opened => exact .inr ⟨function,opened,bind_of_ok prepared,rfl⟩

/-- The input is left alone until the device is read. -/
theorem prepareRead_input (console : Console) :
    (stateAfter (prepareRead console)).input = console.input := by
  have frame := congrArg Console.input (flush_state console)
  have prepared := prepareRead_prepares console
  generalize prepareRead console = result at prepared ⊢
  cases prepared with
  | inputless absent => rfl
  | undelivered error left failed =>
    rw [failed] at frame
    exact frame
  | unneeded flushed delivered idle =>
    rw [delivered] at frame
    exact frame
  | refused flushed delivered raw there free failure refuses =>
    rw [delivered] at frame
    exact frame
  | entered flushed delivered raw there free =>
    rw [delivered] at frame
    exact frame

theorem prepareRead_output (console : Console) :
    (stateAfter (prepareRead console)).output = console.output ∨
      (stateAfter (prepareRead console)).output = (stateAfter (flush console)).output := by
  have prepared := prepareRead_prepares console
  generalize prepareRead console = result at prepared ⊢
  cases prepared with
  | inputless absent => exact .inl rfl
  | undelivered error left failed =>
    rw [failed]
    exact .inr rfl
  | unneeded flushed delivered idle =>
    rw [delivered]
    exact .inr rfl
  | refused flushed delivered raw there free failure refuses =>
    rw [delivered]
    exact .inr rfl
  | entered flushed delivered raw there free =>
    rw [delivered]
    exact .inr rfl

/-- A read of the device changes the input alone, and notes whether raw mode was active. -/
theorem readDevice_state (console : Console) : ∃ input,
    stateAfter (readDevice console) = { console with input := input } ∧
      ∀ after, input = some after → ∃ before, console.input = some before ∧
        after.reads = before.reads.push console.rawActive := by
  have reads := readDevice_reads console
  generalize readDevice console = result at reads ⊢
  cases reads with
  | inputless absent =>
    refine ⟨none,?_,nofun⟩
    exact congrArg (fun input => { console with input := input }) absent
  | refused input failure there refused =>
    refine ⟨_,rfl,?_⟩
    intro after same
    cases same
    exact ⟨input,there,rfl⟩
  | byte input byte rest there more =>
    refine ⟨_,rfl,?_⟩
    intro after same
    cases same
    exact ⟨input,there,rfl⟩

theorem restoring_state {α : Type} (entry : Nat) (action : Use α) (console : Console) :
    stateAfter (restoring (some entry) action console) =
      (stateAfter (action console)).restoreRaw (some entry) := by
  unfold restoring
  dsimp only
  cases action console with
  | ok value left => rfl
  | error error left => rfl

theorem restoring_output {α : Type} (function : Option Nat) (action : Use α) (console : Console) :
    (stateAfter (restoring function action console)).output =
      (stateAfter (action console)).output := by
  cases function with
  | none => rfl
  | some entry =>
    rw [restoring_state]
    rfl

theorem restoring_input {α : Type} (function : Option Nat) (action : Use α) (console : Console) :
    (stateAfter (restoring function action console)).input =
      (stateAfter (action console)).input := by
  cases function with
  | none => rfl
  | some entry =>
    rw [restoring_state]
    rfl

theorem restoring_alike {α : Type} {states : Console → Console → Prop} {action : Use α}
    {left right : Console}
    (restored : ∀ (entry : Nat) (left right : Console), states left right →
      states (left.restoreRaw (some entry)) (right.restoreRaw (some entry)))
    (function : Option Nat) (ended : Alike states (action left) (action right)) :
    Alike states (restoring function action left) (restoring function action right) := by
  cases function with
  | none => exact ended
  | some entry =>
    unfold restoring
    dsimp only
    generalize action left = result at ended ⊢
    generalize action right = result' at ended ⊢
    cases ended with
    | ok value related => exact .ok value (restored entry _ _ related)
    | error error related => exact .error error (restored entry _ _ related)

theorem restoring_ok {α : Type} {function : Option Nat} {action : Use α} {console left : Console}
    {value : α} (ok : restoring function action console = .ok value left) :
    ∃ between, action console = .ok value between ∧ left.input = between.input := by
  cases function with
  | none => exact ⟨left,ok,rfl⟩
  | some entry =>
    unfold restoring at ok
    dsimp only at ok
    cases ran : action console with
    | error error between =>
      rw [ran] at ok
      cases ok
    | ok result between =>
      rw [ran] at ok
      cases ok
      exact ⟨between,rfl,rfl⟩

theorem restoring_error {α : Type} {function : Option Nat} {action : Use α}
    {console left : Console} {error : Error}
    (failed : restoring function action console = .error error left) :
    ∃ between, action console = .error error between ∧ left.input = between.input := by
  cases function with
  | none => exact ⟨left,failed,rfl⟩
  | some entry =>
    unfold restoring at failed
    dsimp only at failed
    cases ran : action console with
    | ok result between =>
      rw [ran] at failed
      cases failed
    | error cause between =>
      rw [ran] at failed
      cases failed
      exact ⟨between,rfl,rfl⟩

/-- A read that fails consumes nothing. -/
theorem readByte_unconsumed {console left : Console} {error : Error}
    (failed : readByte console = .error error left) :
    left.input.map Input.remaining = console.input.map Input.remaining := by
  have untouched := prepareRead_input console
  rcases readByte_cases console with ⟨cause,after,read,unready⟩ | ⟨function,opened,read,ready⟩
  · rw [read] at failed
    cases failed
    rw [unready] at untouched
    exact congrArg (Option.map Input.remaining) untouched
  · rw [read] at failed
    rw [ready] at untouched
    obtain ⟨between,device,same⟩ := restoring_error failed
    rw [same,← show opened.input = console.input from untouched]
    have reads := readDevice_reads opened
    rw [device] at reads
    cases reads with
    | inputless absent => rfl
    | refused input failure there refused =>
      rw [there]
      rfl

/-- A read that succeeds consumes the byte that it gives. -/
theorem readByte_consumed {console left : Console} {byte : UInt8}
    (ok : readByte console = .ok byte left) : ∃ before after, console.input = some before ∧
      left.input = some after ∧ before.remaining = byte :: after.remaining := by
  have untouched := prepareRead_input console
  rcases readByte_cases console with ⟨cause,after,read,unready⟩ | ⟨function,opened,read,ready⟩
  · rw [read] at ok
    cases ok
  · rw [read] at ok
    rw [ready] at untouched
    obtain ⟨between,device,same⟩ := restoring_ok ok
    rw [same,← show opened.input = console.input from untouched]
    have reads := readDevice_reads opened
    rw [device] at reads
    cases reads with
    | byte input _ rest there more => exact ⟨input,_,there,rfl,more⟩

/-- A read delivers output, or leaves it alone. -/
theorem readByte_output (console : Console) :
    (stateAfter (readByte console)).output = console.output ∨
      (stateAfter (readByte console)).output = (stateAfter (flush console)).output := by
  have prepared := prepareRead_output console
  rcases readByte_cases console with ⟨error,left,failed,unready⟩ | ⟨function,opened,read,ready⟩
  · rw [unready] at prepared
    rw [failed]
    exact prepared
  · rw [ready] at prepared
    obtain ⟨input,device,_⟩ := readDevice_state opened
    rw [read,restoring_output,device]
    exact prepared

inductive Holds (console : Console) : EStateM.Result Error Console (Option Nat) → Prop
  | rawless (absent : console.raw = none) : Holds console (.ok none console)
  | nested (raw : RawMode) (there : console.raw = some raw) (held : console.held ≠ 0) :
      Holds console (.ok (some console.granted)
        { console with
          held := console.held + 1
          unreleased := console.granted :: console.unreleased
          granted := console.granted + 1 })
  | refused (raw : RawMode) (there : console.raw = some raw) (free : console.held = 0)
      (failure : Failure) (refuses : raw.refuses (raw.attempts + 1) = some failure) :
      Holds console (.error failure.error
        { console with
          raw := some { raw with attempts := raw.attempts + 1 }
          restore := none })
  | entered (raw : RawMode) (there : console.raw = some raw) (free : console.held = 0) :
      Holds console (.ok (some console.granted)
        { console with
          raw := some { raw with attempts := raw.attempts + 1, entered := raw.entered + 1 }
          restore := some (raw.entered + 1)
          held := console.held + 1
          unreleased := console.granted :: console.unreleased
          granted := console.granted + 1 })

theorem hold_holds (console : Console) : Holds console (hold console) := by
  unfold hold
  rw [get_bind]
  cases there : console.raw with
  | none => exact .rawless there
  | some raw =>
    by_cases free : console.held = 0
    · rw [free]
      change Holds console ((enterHeld >>= fun _ => grant) console)
      cases refuses : raw.refuses (raw.attempts + 1) with
      | some failure =>
        have failed : enterHeld console = .error failure.error
            { console with
              raw := some { raw with attempts := raw.attempts + 1 }
              restore := none } := by
          unfold enterHeld
          rw [enterRaw_refused there refuses]
        rw [bind_of_error failed]
        exact .refused raw there free failure refuses
      | none =>
        have entered : enterHeld console = .ok ()
            { console with
              raw := some { raw with attempts := raw.attempts + 1, entered := raw.entered + 1 }
              restore := some (raw.entered + 1) } := by
          unfold enterHeld
          rw [enterRaw_entered there refuses]
        rw [bind_of_ok entered]
        exact .entered raw there free
    · change Holds console ((if console.held == 0 then enterHeld >>= fun _ => grant
        else grant) console)
      rw [if_neg (by simp [free])]
      exact .nested raw there free

theorem hold_fails (console : Console) {error : Error} {left : Console}
    (failed : hold console = .error error left) : ∃ failure : Failure, error = failure.error := by
  have holds := hold_holds console
  rw [failed] at holds
  cases holds with
  | refused raw there free failure refuses => exact ⟨failure,rfl⟩

theorem hold_output (console : Console) : (stateAfter (hold console)).output = console.output := by
  have holds := hold_holds console
  generalize hold console = result at holds ⊢
  cases holds with
  | rawless absent => rfl
  | nested raw there held => rfl
  | refused raw there free failure refuses => rfl
  | entered raw there free => rfl

section release

variable {console : Console} {number : Nat}

theorem release_repeated (called : number ∉ console.unreleased) :
    console.release (some number) = console := by
  unfold release
  dsimp only
  rw [if_neg (fun waiting => called (List.contains_iff_mem.mp waiting))]

theorem release_nested (waiting : number ∈ console.unreleased) (more : console.held - 1 ≠ 0) :
    console.release (some number) =
      { console with
        held := console.held - 1
        unreleased := console.unreleased.erase number } := by
  unfold release
  dsimp only
  rw [if_pos (List.contains_iff_mem.mpr waiting),if_neg (fun same => more (beq_iff_eq.mp same))]

theorem release_last (waiting : number ∈ console.unreleased) (last : console.held - 1 = 0) :
    console.release (some number) =
      { console with
        raw := console.raw.map fun raw => raw.restore console.restore
        held := console.held - 1
        restore := none
        unreleased := console.unreleased.erase number } := by
  unfold release
  dsimp only
  rw [if_pos (List.contains_iff_mem.mpr waiting),if_pos (beq_iff_eq.mpr last)]
  rfl

end release

theorem release_output (console : Console) (held : Option Nat) :
    (console.release held).output = console.output := by
  cases held with
  | none => rfl
  | some number =>
    by_cases waiting : number ∈ console.unreleased
    · by_cases last : console.held - 1 = 0
      · rw [release_last waiting last]
      · rw [release_nested waiting last]
    · rw [release_repeated waiting]

end Console
end WordMachine
