import WordMachine.Proofs.Console.Uses

/-! Two consoles side by side that differ in their inputs alone, where the inputs give the
same up to some number of reads. Every use of them ends alike until that many reads were
made of the device. -/
namespace WordMachine

namespace Input

/-- Two inputs, read equally often, of which the next reads give the same: they are refused
alike, and there are as many bytes, or fewer of them and then the same ending. -/
structure Agree (count : Nat) (one other : Input) : Prop where
  bytes : other.remaining.take count = one.remaining.take count
  ending : one.remaining.length < count → other.ending = one.ending
  refuses : ∀ place, place < count →
    other.refuses (one.reads.size + place + 1) = one.refuses (one.reads.size + place + 1)
  reads : other.reads = one.reads

section agree

variable {count : Nat} {one other : Input}

theorem agree_nil (agree : Agree (count + 1) one other) :
    other.remaining = [] ↔ one.remaining = [] := by
  have bytes := agree.bytes
  constructor
  · intro ended
    rw [ended] at bytes
    simpa using bytes.symm
  · intro ended
    rw [ended] at bytes
    simpa using bytes

theorem agree_refusal? (agree : Agree (count + 1) one other) : other.refusal? = one.refusal? := by
  have refuses := agree.refuses 0 (Nat.succ_pos count)
  unfold refusal?
  rw [agree.reads,show one.reads.size + 1 = one.reads.size + 0 + 1 from rfl,refuses]
  by_cases ended : one.remaining = []
  · rw [if_pos ended,if_pos ((agree_nil agree).mpr ended),agree.ending (by simp [ended])]
  · rw [if_neg ended,if_neg (mt (agree_nil agree).mp ended)]

/-- After a read there is one less to agree on. -/
theorem agree_later {remaining remaining' : List UInt8} (agree : Agree (count + 1) one other)
    (bytes : remaining'.take count = remaining.take count)
    (ending : remaining.length < count → one.remaining.length < count + 1) (active : Bool) :
    Agree count { one with remaining := remaining, reads := one.reads.push active }
      { other with remaining := remaining', reads := other.reads.push active } := by
  refine ⟨bytes,fun shorter => agree.ending (ending shorter),?_,?_⟩
  · intro place before
    have refuses := agree.refuses (place + 1) (Nat.succ_lt_succ before)
    simp only [Array.size_push]
    rw [Nat.add_right_comm one.reads.size 1 place]
    exact refuses
  · exact congrArg (fun reads => reads.push active) agree.reads

theorem agree_refused (agree : Agree (count + 1) one other) (active : Bool) :
    Agree count { one with reads := one.reads.push active }
      { other with reads := other.reads.push active } := by
  refine agree_later agree ?_ (fun shorter => Nat.lt_succ_of_lt shorter) active
  have bytes := congrArg (List.take count) agree.bytes
  rwa [List.take_take,List.take_take,Nat.min_eq_left (Nat.le_succ count)] at bytes

theorem agree_byte {byte : UInt8} {rest : List UInt8} (agree : Agree (count + 1) one other)
    (more : one.remaining = byte :: rest) (active : Bool) :
    ∃ rest', other.remaining = byte :: rest' ∧
      Agree count { one with remaining := rest, reads := one.reads.push active }
        { other with remaining := rest', reads := other.reads.push active } := by
  have bytes := agree.bytes
  rw [more,List.take_succ_cons] at bytes
  cases front : other.remaining with
  | nil => simp [front] at bytes
  | cons first rest' =>
    rw [front,List.take_succ_cons,List.cons.injEq] at bytes
    refine ⟨rest',by rw [bytes.1],agree_later agree bytes.2 ?_ active⟩
    intro shorter
    rw [more,List.length_cons]
    exact Nat.succ_lt_succ shorter

end agree

end Input

namespace Console

def readCount (console : Console) : Nat :=
  (console.input.map fun input => input.reads.size).getD 0

def withInput (console : Console) (input : Option Input) : Console :=
  { console with input := input }

/-- The console without what is still to be read. -/
def withoutAhead (console : Console) : Console :=
  console.withInput
    (console.input.map fun input =>
      { input with remaining := [], ending := .endOfFile, refuses := fun _ => none })

/-- Two consoles that differ in their inputs alone, which agree until the device was read
`limit` times. -/
structure Agree (limit : Nat) (left right : Console) : Prop where
  input : Option.Rel (fun one other => Input.Agree (limit - one.reads.size) one other)
    left.input right.input
  rest : right = left.withInput right.input

/-- A use that neither changes the input nor depends on it. -/
def Deaf {α : Type} (action : Use α) : Prop :=
  ∀ console input, Alike (fun one other => one.input = console.input ∧
    other = one.withInput input) (action console) (action (console.withInput input))

section deaf

theorem flush_deaf : Deaf flush := by
  intro console input
  have same : (console.withInput input).output = console.output := rfl
  cases there : console.output with
  | none =>
    rw [flush_none there,flush_none (same.trans there)]
    exact .ok () ⟨rfl,rfl⟩
  | some output =>
    rcases flushed : output.flush with ⟨failure | failure,next⟩
    · rw [flush_ok there flushed,flush_ok (same.trans there) flushed]
      exact .ok () ⟨rfl,rfl⟩
    · rw [flush_error there flushed,flush_error (same.trans there) flushed]
      exact .error _ ⟨rfl,rfl⟩

theorem writeByte_deaf (byte : UInt8) : Deaf (writeByte byte) := by
  intro console input
  have same : (console.withInput input).output = console.output := rfl
  cases there : console.output with
  | none =>
    rw [writeByte_none there,writeByte_none (same.trans there)]
    exact .error _ ⟨rfl,rfl⟩
  | some output =>
    rcases written : output.write byte with ⟨failure | failure,next⟩
    · rw [writeByte_ok there written,writeByte_ok (same.trans there) written]
      exact .ok () ⟨rfl,rfl⟩
    · rw [writeByte_error there written,writeByte_error (same.trans there) written]
      exact .error _ ⟨rfl,rfl⟩

theorem enterRaw_deaf : Deaf enterRaw := by
  intro console input
  have same : (console.withInput input).raw = console.raw := rfl
  cases there : console.raw with
  | none =>
    unfold enterRaw
    rw [same,there]
    exact .ok none ⟨rfl,rfl⟩
  | some raw =>
    cases refuses : raw.refuses (raw.attempts + 1) with
    | some failure =>
      rw [enterRaw_refused there refuses,enterRaw_refused (same.trans there) refuses]
      exact .error _ ⟨rfl,rfl⟩
    | none =>
      rw [enterRaw_entered there refuses,enterRaw_entered (same.trans there) refuses]
      exact .ok _ ⟨rfl,rfl⟩

end deaf

section agree

variable {limit : Nat} {left right : Console}

theorem deaf_respects {α : Type} {action : Use α} (deaf : Deaf action) :
    Respects (Agree limit) action := by
  intro left right agree
  have ended := deaf left right.input
  rw [← agree.rest] at ended
  have inputs := agree.input
  generalize action left = result at ended ⊢
  generalize action right = result' at ended ⊢
  cases ended with
  | ok value related =>
    obtain ⟨kept,same⟩ := related
    subst same
    exact .ok value ⟨by rw [kept]; exact inputs,rfl⟩
  | error error related =>
    obtain ⟨kept,same⟩ := related
    subst same
    exact .error error ⟨by rw [kept]; exact inputs,rfl⟩

theorem agree_isNone (agree : Agree limit left right) :
    right.input.isNone = left.input.isNone := by
  have inputs := agree.input
  generalize left.input = one at inputs ⊢
  generalize right.input = other at inputs ⊢
  cases inputs with
  | none => rfl
  | some related => rfl

theorem agree_raw (agree : Agree limit left right) : right.raw = left.raw := by
  rw [agree.rest]
  rfl

theorem agree_held (agree : Agree limit left right) : right.held = left.held := by
  rw [agree.rest]
  rfl

theorem prepareRead_agree : Respects (Agree limit) prepareRead := by
  intro left right agree
  unfold prepareRead
  rw [get_bind,get_bind,agree_isNone agree]
  split
  · exact .error _ agree
  · apply alike_bind (deaf_respects flush_deaf left right agree)
    intro _ left right agree
    rw [get_bind,get_bind,agree_raw agree,agree_held agree]
    split
    · exact deaf_respects enterRaw_deaf left right agree
    · exact .ok none agree

theorem readDevice_readCount {console : Console} {input : Input}
    (there : console.input = some input) :
    (stateAfter (readDevice console)).readCount = input.reads.size + 1 := by
  have reads := readDevice_reads console
  generalize readDevice console = result at reads ⊢
  cases reads with
  | inputless absent =>
    rw [absent] at there
    cases there
  | refused before failure present refused =>
    rw [present] at there
    cases there
    exact Array.size_push _
  | byte before byte rest present more =>
    rw [present] at there
    cases there
    exact Array.size_push _

theorem readDevice_agree (agree : Agree limit left right)
    (within : (stateAfter (readDevice left)).readCount ≤ limit) :
    Alike (Agree limit) (readDevice left) (readDevice right) := by
  have active : right.rawActive = left.rawActive := congrArg isRaw (agree_raw agree)
  have inputs := agree.input
  have rest := agree.rest
  cases there : left.input with
  | none =>
    rw [there] at inputs
    cases there' : right.input with
    | none =>
      rw [readDevice_none there,readDevice_none there']
      exact .error _ agree
    | some other =>
      rw [there'] at inputs
      cases inputs
  | some one =>
    rw [there] at inputs
    rw [readDevice_readCount there] at within
    cases there' : right.input with
    | none =>
      rw [there'] at inputs
      cases inputs
    | some other =>
      rw [there'] at inputs rest
      have same : Input.Agree (limit - one.reads.size) one other := by
        cases inputs with
        | some same => exact same
      have more : limit - one.reads.size = limit - (one.reads.size + 1) + 1 := by
        omega
      rw [more] at same
      have further : ∀ active, limit - (one.reads.push active).size =
          limit - (one.reads.size + 1) := by
        intro active
        rw [Array.size_push]
      cases refused : one.refusal? with
      | some failure =>
        rw [readDevice_refused there refused,
          readDevice_refused there' ((Input.agree_refusal? same).trans refused),active]
        refine .error _ ⟨.some ?_,?_⟩
        · rw [further]
          exact Input.agree_refused same left.rawActive
        · rw [rest]
          rfl
      | none =>
        obtain ⟨byte,others,ahead⟩ := Input.remaining_of_willing refused
        obtain ⟨others',ahead',after⟩ := Input.agree_byte same ahead left.rawActive
        rw [readDevice_byte there refused ahead,
          readDevice_byte there' ((Input.agree_refusal? same).trans refused) ahead',active]
        refine .ok byte ⟨.some ?_,?_⟩
        · rw [further]
          exact after
        · rw [rest]
          rfl

theorem restoreRaw_agree (entry : Nat) (left right : Console) (agree : Agree limit left right) :
    Agree limit (left.restoreRaw (some entry)) (right.restoreRaw (some entry)) := by
  refine ⟨agree.input,?_⟩
  rw [agree.rest]
  rfl

/-- A read ends alike, unless it is the first read of the device beyond the limit. -/
theorem readByte_agree (agree : Agree limit left right)
    (within : (stateAfter (readByte left)).readCount ≤ limit) :
    Alike (Agree limit) (readByte left) (readByte right) := by
  have prepared := prepareRead_agree left right agree
  unfold readByte at within ⊢
  generalize ready : prepareRead left = result at prepared
  generalize ready' : prepareRead right = result' at prepared
  cases prepared with
  | error error related =>
    rw [bind_of_error ready,bind_of_error ready']
    exact .error error related
  | ok function related =>
    rw [bind_of_ok ready] at within
    unfold readCount at within
    rw [restoring_input] at within
    rw [bind_of_ok ready,bind_of_ok ready']
    exact restoring_alike restoreRaw_agree function (readDevice_agree related within)

/-- What two consoles have in common whose inputs agree. -/
theorem agree_withoutAhead (agree : Agree limit left right) :
    left.withoutAhead = right.withoutAhead := by
  have inputs := agree.input
  have rest := agree.rest
  generalize right.input = other at inputs rest
  subst rest
  unfold withoutAhead withInput
  dsimp only
  generalize left.input = one at inputs ⊢
  cases inputs with
  | none => rfl
  | some same => rw [Option.map_some,Option.map_some,same.reads]

end agree

/-- No read of the device is undone. -/
theorem readCount_readByte (console : Console) :
    console.readCount ≤ (stateAfter (readByte console)).readCount := by
  have untouched := prepareRead_input console
  unfold readCount
  rcases readByte_cases console with ⟨error,left,failed,unready⟩ | ⟨function,opened,read,ready⟩
  · rw [unready] at untouched
    rw [failed]
    exact Nat.le_of_eq (by rw [← untouched]; rfl)
  · rw [ready] at untouched
    rw [read,restoring_input,← show opened.input = console.input from untouched]
    cases there : opened.input with
    | none => exact Nat.zero_le _
    | some input =>
      have counted := readDevice_readCount there
      unfold readCount at counted
      rw [counted]
      exact Nat.le_succ _

end Console
end WordMachine
