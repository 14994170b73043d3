import WordMachine.Proofs.Console.Uses
import Mathlib.Data.List.Nodup

/-! The protocol of raw mode. A console that is used in any way, with holds that may be
refused and releases in any order, counts the holds that are not released, and raw mode is
entered exactly while there are some or a byte is read. -/
namespace WordMachine

namespace RawMode

/-- The mode was entered `entries` times more often than it was restored, and no function
that restores it was called twice. -/
structure Balanced (entries : Nat) (raw : RawMode) : Prop where
  entered : raw.entered = raw.restored + entries
  called : ∀ function ∈ raw.restores, ∃ entry, function = some entry ∧ entry ≤ raw.restored
  distinct : raw.restores.Nodup

variable {raw : RawMode} {entries : Nat}

theorem balanced_attempt (balanced : raw.Balanced entries) :
    Balanced entries { raw with attempts := raw.attempts + 1 } :=
  ⟨balanced.entered,balanced.called,balanced.distinct⟩

theorem balanced_enter (balanced : raw.Balanced entries) :
    Balanced (entries + 1)
      { raw with attempts := raw.attempts + 1, entered := raw.entered + 1 } :=
  ⟨congrArg (· + 1) balanced.entered,balanced.called,balanced.distinct⟩

theorem balanced_restore (balanced : raw.Balanced 1) :
    Balanced 0 (raw.restore (some raw.entered)) := by
  have restored : (raw.restore (some raw.entered)).restored = raw.restored + 1 := rfl
  refine ⟨?_,?_,?_⟩
  · rw [restored]
    exact balanced.entered
  · intro function called
    rw [restored]
    rcases List.mem_cons.mp called with latest | earlier
    · exact ⟨raw.entered,latest,Nat.le_of_eq balanced.entered⟩
    · obtain ⟨entry,same,bound⟩ := balanced.called function earlier
      exact ⟨entry,same,Nat.le_succ_of_le bound⟩
  · apply List.nodup_cons.mpr
    refine ⟨?_,balanced.distinct⟩
    -- the latest entry is one more than there were restores, and those called are not
    intro called
    obtain ⟨entry,same,bound⟩ := balanced.called _ called
    have latest := balanced.entered
    rw [Option.some.inj same] at latest
    omega

theorem balanced_active (balanced : raw.Balanced entries) : raw.isActive = true ↔ 0 < entries := by
  unfold isActive
  rw [decide_eq_true_iff,balanced.entered]
  omega

end RawMode

namespace Console

/-- What was done to a console. A hold that is granted gives a function that releases it. -/
inductive Deed where
  | granted (release : Option Nat)
  | refused
  | released (release : Option Nat)
  | used
  deriving DecidableEq

/-- A console with its past, the latest deed first: holds, calls of functions that were
given, reads, writes and flushes, in any order. -/
inductive History (first : Console) : List Deed → Console → Prop
  | start : History first [] first
  | granted (past : List Deed) (console next : Console) (release : Option Nat)
      (before : History first past console) (ok : hold console = .ok release next) :
      History first (.granted release :: past) next
  | refused (past : List Deed) (console next : Console) (error : Error)
      (before : History first past console) (failed : hold console = .error error next) :
      History first (.refused :: past) next
  | released (past : List Deed) (console : Console) (release : Option Nat)
      (before : History first past console) (given : .granted release ∈ past) :
      History first (.released release :: past) (console.release release)
  | read (past : List Deed) (console : Console) (before : History first past console) :
      History first (.used :: past) (stateAfter (readByte console))
  | wrote (past : List Deed) (console : Console) (byte : UInt8)
      (before : History first past console) :
      History first (.used :: past) (stateAfter (writeByte byte console))
  | flushed (past : List Deed) (console : Console) (before : History first past console) :
      History first (.used :: past) (stateAfter (flush console))

def Deed.granted? : Deed → Option (Option Nat)
  | .granted release => some release
  | _ => none

/-- The holds that were granted and whose release was not called yet. -/
def outstanding (past : List Deed) : List (Option Nat) :=
  (past.filterMap Deed.granted?).filter fun release => .released release ∉ past

theorem outstanding_silent {deed : Deed} (silent : deed = .used ∨ deed = .refused)
    (past : List Deed) : outstanding (deed :: past) = outstanding past := by
  have same : (deed :: past).filterMap Deed.granted? = past.filterMap Deed.granted? := by
    rcases silent with rfl | rfl
    · rfl
    · rfl
  have uncalled : ∀ release, .released release ≠ deed := by
    rcases silent with rfl | rfl
    · nofun
    · nofun
  unfold outstanding
  rw [same]
  simp [uncalled]

theorem outstanding_granted {past : List Deed} {release : Option Nat}
    (uncalled : .released release ∉ past) :
    outstanding (.granted release :: past) = release :: outstanding past := by
  unfold outstanding
  simp [Deed.granted?,uncalled]

theorem outstanding_released (past : List Deed) (release : Option Nat) :
    outstanding (.released release :: past) = (outstanding past).filter (· ≠ release) := by
  have same : (Deed.released release :: past).filterMap Deed.granted? =
      past.filterMap Deed.granted? := rfl
  unfold outstanding
  rw [same,List.filter_filter]
  simp

/-- The state of raw mode is that of the holds in force. -/
inductive Tended (console : Console) : Prop
  | free (raw : RawMode) (there : console.raw = some raw) (held : console.held = 0)
      (restore : console.restore = none) (balanced : raw.Balanced 0)
  | held (raw : RawMode) (there : console.raw = some raw) (held : 0 < console.held)
      (restore : console.restore = some raw.entered) (balanced : raw.Balanced 1)

/-- Raw mode was active at every read of a device. -/
def ReadRaw (input : Option Input) : Prop :=
  ∀ device, input = some device → ∀ active ∈ device.reads, active = true

/-- A console agrees with its past. -/
structure Sound (past : List Deed) (console : Console) : Prop where
  tended : Tended console
  held : console.held = console.unreleased.length
  unreleased : console.unreleased.map some = outstanding past
  distinct : console.unreleased.Nodup
  granted : ∀ release, .granted release ∈ past → ∃ number, release = some number ∧
    number < console.granted
  released : ∀ release, .released release ∈ past → .granted release ∈ past
  reads : ReadRaw console.input

section sound

variable {past : List Deed} {console : Console}

theorem tended_raw (tended : Tended console) : ∃ raw, console.raw = some raw := by
  cases tended with
  | free raw there held restore balanced => exact ⟨raw,there⟩
  | held raw there held restore balanced => exact ⟨raw,there⟩

theorem tended_output (tended : Tended console) (output : Option Output) :
    Tended { console with output := output } := by
  cases tended with
  | free raw there held restore balanced => exact .free raw there held restore balanced
  | held raw there held restore balanced => exact .held raw there held restore balanced

theorem sound_silent {deed : Deed} (silent : deed = .used ∨ deed = .refused)
    (sound : Sound past console) : Sound (deed :: past) console := by
  have earlier : ∀ release, (.granted release ∈ deed :: past → .granted release ∈ past) ∧
      (.released release ∈ deed :: past → .released release ∈ past) := by
    intro release
    rcases silent with rfl | rfl
    · simp
    · simp
  refine ⟨sound.tended,sound.held,?_,sound.distinct,?_,?_,sound.reads⟩
  · rw [outstanding_silent silent]
    exact sound.unreleased
  · intro release given
    exact sound.granted release ((earlier release).1 given)
  · intro release called
    exact List.mem_cons_of_mem _ (sound.released release ((earlier release).2 called))

theorem sound_output (sound : Sound past console) (output : Option Output) :
    Sound past { console with output := output } :=
  ⟨tended_output sound.tended output,sound.held,sound.unreleased,sound.distinct,sound.granted,
    sound.released,sound.reads⟩

theorem sound_flush (sound : Sound past console) : Sound past (stateAfter (flush console)) := by
  rw [flush_state]
  exact sound_output sound _

theorem sound_write (sound : Sound past console) (byte : UInt8) :
    Sound past (stateAfter (writeByte byte console)) := by
  rw [writeByte_state]
  exact sound_output sound _

/-- A number that was not given yet was not released. -/
theorem sound_uncalled (sound : Sound past console) : .released (some console.granted) ∉ past := by
  intro called
  obtain ⟨number,same,bound⟩ := sound.granted _ (sound.released _ called)
  rw [Option.some.inj same] at bound
  exact Nat.lt_irrefl _ bound

theorem outstanding_fresh (sound : Sound past console) :
    some console.granted ∉ outstanding past := by
  intro listed
  obtain ⟨deed,member,given⟩ := List.mem_filterMap.mp (List.mem_filter.mp listed).1
  cases deed with
  | granted release =>
    rw [Option.some.inj given] at member
    obtain ⟨number,same,bound⟩ := sound.granted _ member
    rw [Option.some.inj same] at bound
    exact Nat.lt_irrefl _ bound
  | refused => cases given
  | released release => cases given
  | used => cases given

theorem unreleased_fresh (sound : Sound past console) :
    console.granted ∉ console.unreleased := by
  intro waiting
  apply outstanding_fresh sound
  rw [← sound.unreleased]
  exact List.mem_map_of_mem waiting

/-- A hold that is granted, whatever it does to raw mode. -/
theorem sound_granted (sound : Sound past console) (raw : Option RawMode) (restore : Option Nat)
    (tended : Tended { console with
      raw := raw
      restore := restore
      held := console.held + 1
      unreleased := console.granted :: console.unreleased
      granted := console.granted + 1 }) :
    Sound (.granted (some console.granted) :: past)
      { console with
        raw := raw
        restore := restore
        held := console.held + 1
        unreleased := console.granted :: console.unreleased
        granted := console.granted + 1 } := by
  refine ⟨tended,?_,?_,List.nodup_cons.mpr ⟨unreleased_fresh sound,sound.distinct⟩,?_,?_,sound.reads⟩
  · have held := sound.held
    simp only [List.length_cons]
    omega
  · rw [outstanding_granted (sound_uncalled sound),List.map_cons,sound.unreleased]
  · intro release given
    rcases List.mem_cons.mp given with latest | earlier
    · cases latest
      exact ⟨console.granted,rfl,Nat.lt_succ_self _⟩
    · obtain ⟨number,same,bound⟩ := sound.granted release earlier
      exact ⟨number,same,Nat.lt_succ_of_lt bound⟩
  · intro release called
    exact List.mem_cons_of_mem _ (sound.released release (by simpa using called))

/-- A hold that is refused leaves everything as it was, but for the attempt. -/
theorem hold_refused {error : Error} {next : Console} (tended : Tended console)
    (failed : hold console = .error error next) : ∃ raw, console.raw = some raw ∧
      next = { console with raw := some { raw with attempts := raw.attempts + 1 } } := by
  have holds := hold_holds console
  rw [failed] at holds
  cases holds with
  | refused raw there free failure refuses =>
    refine ⟨raw,there,?_⟩
    cases tended with
    | held _ _ held _ _ => omega
    | free _ _ _ restore _ => rw [restore]

theorem tended_attempt {raw : RawMode} (there : console.raw = some raw) (tended : Tended console) :
    Tended { console with raw := some { raw with attempts := raw.attempts + 1 } } := by
  cases tended with
  | free other there' held restore balanced =>
    cases Option.some.inj (there.symm.trans there')
    exact .free _ rfl held restore (RawMode.balanced_attempt balanced)
  | held other there' held restore balanced =>
    cases Option.some.inj (there.symm.trans there')
    exact .held _ rfl held restore (RawMode.balanced_attempt balanced)

theorem sound_attempt {raw : RawMode} (there : console.raw = some raw)
    (sound : Sound past console) :
    Sound past { console with raw := some { raw with attempts := raw.attempts + 1 } } :=
  ⟨tended_attempt there sound.tended,sound.held,sound.unreleased,sound.distinct,sound.granted,
    sound.released,sound.reads⟩

theorem sound_hold {release : Option Nat} {next : Console} (sound : Sound past console)
    (ok : hold console = .ok release next) : Sound (.granted release :: past) next := by
  obtain ⟨mode,present⟩ := tended_raw sound.tended
  have holds := hold_holds console
  rw [ok] at holds
  cases holds with
  | rawless absent =>
    rw [present] at absent
    cases absent
  | nested raw there held =>
    refine sound_granted sound console.raw console.restore ?_
    cases sound.tended with
    | free _ _ free _ _ => exact absurd free held
    | held raw there held restore balanced =>
      refine .held raw there ?_ restore balanced
      change 0 < console.held + 1
      omega
  | entered raw there free =>
    refine sound_granted sound _ _ ?_
    cases sound.tended with
    | held _ _ held _ _ => omega
    | free other there' _ restore balanced =>
      cases Option.some.inj (there.symm.trans there')
      refine .held _ rfl ?_ rfl (RawMode.balanced_enter balanced)
      change 0 < console.held + 1
      omega

/-- The holds that are left when one of them is released. -/
theorem map_erase {numbers : List Nat} (distinct : numbers.Nodup) (number : Nat) :
    (numbers.erase number).map some = (numbers.map some).filter (· ≠ some number) := by
  rw [distinct.erase_eq_filter,List.filter_map]
  congr 1
  apply List.filter_congr
  intro other _
  by_cases same : other = number
  · simp [same]
  · simp [same]

/-- Raw mode after a hold is released, which was the last one or not. -/
theorem tended_release {number : Nat} (tended : Tended console) (held : 0 < console.held)
    (waiting : number ∈ console.unreleased) : Tended (console.release (some number)) := by
  cases tended with
  | free _ _ free _ _ => omega
  | held raw there held restore balanced =>
    by_cases last : console.held - 1 = 0
    · rw [release_last waiting last,there,restore]
      exact .free _ rfl last rfl (RawMode.balanced_restore balanced)
    · rw [release_nested waiting last]
      refine .held raw there ?_ restore balanced
      change 0 < console.held - 1
      omega

/-- What a release does beside raw mode. -/
theorem release_counts {number : Nat} (waiting : number ∈ console.unreleased) :
    (console.release (some number)).held = console.held - 1 ∧
    (console.release (some number)).unreleased = console.unreleased.erase number ∧
    (console.release (some number)).granted = console.granted ∧
    (console.release (some number)).input = console.input := by
  by_cases last : console.held - 1 = 0
  · rw [release_last waiting last]
    exact ⟨rfl,rfl,rfl,rfl⟩
  · rw [release_nested waiting last]
    exact ⟨rfl,rfl,rfl,rfl⟩

theorem sound_release {release : Option Nat} (sound : Sound past console)
    (given : .granted release ∈ past) :
    Sound (.released release :: past) (console.release release) := by
  obtain ⟨number,same,_⟩ := sound.granted release given
  subst same
  have givenBefore : ∀ release, .granted release ∈ Deed.released (some number) :: past →
      .granted release ∈ past := by
    intro release given
    simpa using given
  have calledBefore : ∀ release, .released release ∈ Deed.released (some number) :: past →
      .granted release ∈ Deed.released (some number) :: past := by
    intro release called
    rcases List.mem_cons.mp called with latest | earlier
    · cases latest
      exact List.mem_cons_of_mem _ given
    · exact List.mem_cons_of_mem _ (sound.released release earlier)
  have left : outstanding (.released (some number) :: past) =
      (console.unreleased.erase number).map some := by
    rw [outstanding_released,← sound.unreleased,map_erase sound.distinct]
  by_cases waiting : number ∈ console.unreleased
  -- only the first call finds the number among those that wait
  · obtain ⟨held,unreleased,granted,input⟩ := release_counts waiting
    have some' : 0 < console.unreleased.length := List.length_pos_of_mem waiting
    have counted := sound.held
    refine ⟨tended_release sound.tended (by omega) waiting,?_,?_,?_,?_,calledBefore,?_⟩
    · rw [held,unreleased,List.length_erase_of_mem waiting]
      omega
    · rw [unreleased,left]
    · rw [unreleased]
      exact sound.distinct.erase number
    · rw [granted]
      intro release given
      exact sound.granted release (givenBefore release given)
    · rw [input]
      exact sound.reads
  · rw [release_repeated waiting]
    rw [List.erase_of_not_mem waiting] at left
    exact ⟨sound.tended,sound.held,left.symm,sound.distinct,
      fun release given => sound.granted release (givenBefore release given),calledBefore,
      sound.reads⟩

theorem device_reads (active : console.rawActive = true) (reads : ReadRaw console.input) :
    ∃ input, stateAfter (readDevice console) = { console with input := input } ∧
      ReadRaw input := by
  obtain ⟨input,device,noted⟩ := readDevice_state console
  refine ⟨input,device,?_⟩
  intro after same
  obtain ⟨before,there,pushed⟩ := noted after same
  rw [pushed,active]
  intro mode read
  rcases Array.mem_push.mp read with earlier | latest
  · exact reads before there mode earlier
  · exact latest

theorem rawActive_balanced {raw : RawMode} {entries : Nat} (there : console.raw = some raw)
    (balanced : raw.Balanced entries) : console.rawActive = true ↔ 0 < entries := by
  unfold rawActive
  rw [there]
  exact RawMode.balanced_active balanced

/-- A read outside of holds enters raw mode and restores the mode before. -/
theorem sound_entered {raw : RawMode} {opened : Console} (sound : Sound past console)
    (there : console.raw = some raw) (free : console.held = 0)
    (entered : opened = { console with
      raw := some { raw with attempts := raw.attempts + 1, entered := raw.entered + 1 } }) :
    Sound past (stateAfter (restoring (some (raw.entered + 1)) readDevice opened)) := by
  cases sound.tended with
  | held _ _ held _ _ => omega
  | free other there' _ restore balanced =>
    cases Option.some.inj (there.symm.trans there')
    have inside := RawMode.balanced_enter balanced
    have active : opened.rawActive = true := by
      rw [entered]
      exact (rawActive_balanced rfl inside).mpr Nat.one_pos
    have before : ReadRaw opened.input := by
      rw [entered]
      exact sound.reads
    obtain ⟨input,device,reads⟩ := device_reads active before
    rw [restoring_state,device,entered]
    refine ⟨?_,sound.held,sound.unreleased,sound.distinct,sound.granted,sound.released,reads⟩
    exact .free _ rfl free restore (RawMode.balanced_restore inside)

/-- A read while raw mode is held. -/
theorem sound_device (sound : Sound past console) (held : console.held ≠ 0) :
    Sound past (stateAfter (readDevice console)) := by
  cases sound.tended with
  | free _ _ free _ _ => exact absurd free held
  | held raw there held restore balanced =>
    obtain ⟨input,device,reads⟩ :=
      device_reads ((rawActive_balanced there balanced).mpr Nat.one_pos) sound.reads
    rw [device]
    exact ⟨.held raw there held restore balanced,sound.held,sound.unreleased,sound.distinct,
      sound.granted,sound.released,reads⟩

theorem sound_read (sound : Sound past console) : Sound past (stateAfter (readByte console)) := by
  have flushed := sound_flush sound
  have prepared := prepareRead_prepares console
  rcases readByte_cases console with ⟨error,left,failed,unready⟩ | ⟨function,opened,read,ready⟩
  · rw [unready] at prepared
    rw [failed]
    cases prepared with
    | inputless absent => exact sound
    | undelivered _ _ failed =>
      rw [failed] at flushed
      exact flushed
    | refused after delivered raw there free failure refuses =>
      rw [delivered] at flushed
      exact sound_attempt there flushed
  · rw [ready] at prepared
    rw [read]
    cases prepared with
    | unneeded after delivered idle =>
      rw [delivered] at flushed
      obtain ⟨raw,there⟩ := tended_raw flushed.tended
      rcases idle with absent | held
      · rw [show opened.raw = some raw from there] at absent
        cases absent
      · exact sound_device flushed held
    | entered after delivered raw there free =>
      rw [delivered] at flushed
      exact sound_entered flushed there free rfl

theorem history_sound {first : Console} (begun : Sound [] first)
    (history : History first past console) : Sound past console := by
  induction history with
  | start => exact begun
  | granted past console next release before ok hypothesis => exact sound_hold hypothesis ok
  | refused past console next error before failed hypothesis =>
    obtain ⟨raw,there,same⟩ := hold_refused hypothesis.tended failed
    rw [same]
    exact sound_silent (.inr rfl) (sound_attempt there hypothesis)
  | released past console release before given hypothesis => exact sound_release hypothesis given
  | read past console before hypothesis => exact sound_silent (.inl rfl) (sound_read hypothesis)
  | wrote past console byte before hypothesis =>
    exact sound_silent (.inl rfl) (sound_write hypothesis byte)
  | flushed past console before hypothesis => exact sound_silent (.inl rfl) (sound_flush hypothesis)

end sound

end Console
end WordMachine
