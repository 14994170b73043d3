import WordMachine.Proofs.Console.Holding
import WordMachine.Proofs.Emulator.Exchange

/-! Raw mode in the hands of an emulator. A run is a part of the history of its console, and
leaves raw mode as it found it, however it ends. -/
namespace WordMachine

namespace Console

/-- A console that was not used yet, with a raw mode that may refuse any attempt. -/
def fresh (input : Option Input) (output : Option Output) (refuses : Nat → Option Failure) :
    Console where
  input := input.map fun device => { device with reads := #[] }
  output := output
  raw := some { refuses := refuses }

/-- How often raw mode was entered more than it was restored. -/
def rawBalance (console : Console) : Int :=
  match console.raw with
  | some raw => raw.entered - raw.restored
  | none => 0

theorem fresh_sound (input : Option Input) (output : Option Output)
    (refuses : Nat → Option Failure) : Sound [] (fresh input output refuses) := by
  refine ⟨.free _ rfl rfl rfl ⟨rfl,nofun,.nil⟩,rfl,rfl,.nil,nofun,nofun,?_⟩
  intro device there
  obtain ⟨earlier,_,rfl⟩ := Option.map_eq_some_iff.mp there
  nofun

section sound

variable {past : List Deed} {console : Console}

theorem sound_held (sound : Sound past console) : console.held = (outstanding past).length := by
  rw [sound.held,← sound.unreleased,List.length_map]

theorem sound_active (sound : Sound past console) :
    console.rawActive = true ↔ 0 < console.held := by
  cases sound.tended with
  | free raw there free restore balanced =>
    rw [rawActive_balanced there balanced]
    omega
  | held raw there held restore balanced =>
    rw [rawActive_balanced there balanced]
    omega

theorem sound_balance (sound : Sound past console) :
    console.rawBalance = if 0 < console.held then 1 else 0 := by
  unfold rawBalance
  cases sound.tended with
  | free raw there free restore balanced =>
    rw [there,if_neg (by omega)]
    dsimp only
    rw [balanced.entered]
    omega
  | held raw there held restore balanced =>
    rw [there,if_pos held]
    dsimp only
    rw [balanced.entered]
    omega

theorem sound_restores (sound : Sound past console) {raw : RawMode}
    (there : console.raw = some raw) : raw.restores.Nodup ∧ none ∉ raw.restores := by
  have once : ∀ {entries}, raw.Balanced entries → raw.restores.Nodup ∧ none ∉ raw.restores := by
    intro entries balanced
    refine ⟨balanced.distinct,?_⟩
    intro called
    obtain ⟨entry,same,_⟩ := balanced.called none called
    cases same
  cases sound.tended with
  | free other there' _ _ balanced =>
    cases Option.some.inj (there.symm.trans there')
    exact once balanced
  | held other there' _ _ balanced =>
    cases Option.some.inj (there.symm.trans there')
    exact once balanced

/-- A hold that is granted gives a function that was not given before. -/
theorem hold_number {release : Option Nat} {next : Console} (sound : Sound past console)
    (ok : hold console = .ok release next) : release = some console.granted := by
  obtain ⟨mode,present⟩ := tended_raw sound.tended
  have holds := hold_holds console
  rw [ok] at holds
  cases holds with
  | rawless absent =>
    rw [present] at absent
    cases absent
  | nested raw there held => rfl
  | entered raw there free => rfl

end sound

end Console

namespace Emulator
open Console

theorem exchange_history {first opened used : Console} {past : List Deed} {bytes : List UInt8}
    (history : History first past opened) (exchange : Exchange opened bytes used) :
    ∃ count, History first (List.replicate count .used ++ past) used := by
  induction exchange with
  | start => exact ⟨0,history⟩
  | write bytes console byte before hypothesis =>
    obtain ⟨count,earlier⟩ := hypothesis
    exact ⟨count + 1,.wrote _ console byte earlier⟩
  | read bytes console before hypothesis =>
    obtain ⟨count,earlier⟩ := hypothesis
    exact ⟨count + 1,.read _ console earlier⟩

theorem outstanding_uses (count : Nat) (past : List Deed) :
    outstanding (List.replicate count .used ++ past) = outstanding past := by
  induction count with
  | zero => rfl
  | succ count hypothesis =>
    rw [List.replicate_succ,List.cons_append,outstanding_silent (.inl rfl),hypothesis]

/-- A run is a hold, some uses, and the release of the hold, or a hold that is refused. -/
theorem run_history {first console : Console} {past : List Deed} (begun : Sound [] first)
    (history : History first past console) (limit : Nat) {emulator : Emulator}
    (attached : emulator.machine.console = some console) :
    ∃ later final, (run limit emulator).2.2.machine.console = some final ∧ past <:+ later ∧
      History first later final ∧ outstanding later = outstanding past := by
  have sound := history_sound begun history
  cases asked : Console.hold console with
  | error error left =>
    refine ⟨.refused :: past,left,run_refused limit attached asked,List.suffix_cons _ _,?_,?_⟩
    · exact .refused past console left error history asked
    · exact outstanding_silent (.inr rfl) past
  | ok release opened =>
    obtain ⟨used,exchange,final⟩ := run_held limit attached asked
    obtain ⟨count,uses⟩ :=
      exchange_history (.granted past console opened release history asked) exchange
    have given : .granted release ∈
        Deed.used :: (List.replicate count .used ++ .granted release :: past) := by simp
    refine ⟨_,_,final,?_,.released _ _ release (.flushed _ used uses) given,?_⟩
    · apply List.IsSuffix.trans (List.suffix_cons (.granted release) past)
      apply List.IsSuffix.trans (List.suffix_append (List.replicate count .used) _)
      exact (List.suffix_cons _ _).trans (List.suffix_cons _ _)
    -- the function that the hold gives is new, so its call takes away just what was granted
    · have uncalled := sound_uncalled sound
      have fresh := outstanding_fresh sound
      rw [← hold_number sound asked] at uncalled fresh
      rw [outstanding_released,outstanding_silent (.inl rfl),outstanding_uses,
        outstanding_granted uncalled,List.filter_cons_of_neg (by simp)]
      apply List.filter_eq_self.mpr
      intro other waiting
      have different : other ≠ release := by
        intro same
        rw [same] at waiting
        exact fresh waiting
      simpa using different

/-- The protocol of raw mode, at every moment of every history of a console whose raw mode
may refuse any attempt. The holds in force are those that were granted and whose release was
not called; raw mode is active exactly while there are some, it was then entered once more
than it was restored, and no function that restores it is called twice or is missing. Every
read of the device happens in raw mode. A hold that is refused changes nothing but the number
of attempts. A read that fails consumes no byte, and one that succeeds consumes its byte. And a
run takes part in the history, and leaves the holds and the raw mode as they were. -/
theorem raw_mode_protocol (input : Option Input) (output : Option Output)
    (refuses : Nat → Option Failure) (past : List Deed) (console : Console)
    (history : History (fresh input output refuses) past console) :
    console.held = (outstanding past).length ∧
    (console.rawActive = true ↔ 0 < console.held) ∧
    (∃ raw, console.raw = some raw ∧
      (raw.entered : Int) - raw.restored = (if 0 < console.held then 1 else 0) ∧
      raw.restores.Nodup ∧ none ∉ raw.restores) ∧
    (∀ device, console.input = some device → ∀ active ∈ device.reads, active = true) ∧
    (∀ error next, Console.hold console = .error error next →
      ∃ raw, console.raw = some raw ∧
        next = { console with raw := some { raw with attempts := raw.attempts + 1 } }) ∧
    (∀ error next, readByte console = .error error next →
      next.input.map Input.remaining = console.input.map Input.remaining) ∧
    (∀ byte next, readByte console = .ok byte next → ∃ before after, console.input = some before ∧
      next.input = some after ∧ before.remaining = byte :: after.remaining) ∧
    ∀ (emulator : Emulator) (limit : Nat), emulator.machine.console = some console →
      ∃ later final, (run limit emulator).2.2.machine.console = some final ∧ past <:+ later ∧
        History (fresh input output refuses) later final ∧
        outstanding later = outstanding past ∧ final.held = console.held ∧
        final.rawBalance = console.rawBalance := by
  have begun := fresh_sound input output refuses
  have sound := history_sound begun history
  refine ⟨sound_held sound,sound_active sound,?_,sound.reads,
    fun _ _ failed => hold_refused sound.tended failed,fun _ _ failed => readByte_unconsumed failed,
    fun _ _ ok => readByte_consumed ok,?_⟩
  · obtain ⟨raw,there⟩ := tended_raw sound.tended
    have balance := sound_balance sound
    unfold rawBalance at balance
    rw [there] at balance
    exact ⟨raw,there,balance,sound_restores sound there⟩
  · intro emulator limit attached
    obtain ⟨later,final,ended,extends',after,same⟩ := run_history begun history limit attached
    have sound' := history_sound begun after
    have held : final.held = console.held := by
      rw [sound_held sound',sound_held sound,same]
    refine ⟨later,final,ended,extends',after,same,held,?_⟩
    rw [sound_balance sound',sound_balance sound,held]

def refusesFirst (attempt : Nat) : Option Failure :=
  if attempt = 1 then some .endOfFile else none

/-- The first attempt is refused, then two holds are granted, a byte is read, and the first of
the holds is released twice. -/
theorem raw_mode_protocol_nested : ∃ console,
    History (fresh (some { remaining := [65] }) none refusesFirst)
      [.released (some 0), .released (some 0), .used, .granted (some 1), .granted (some 0), .refused]
      console ∧
    console.held = 1 ∧ console.rawActive = true := by
  have refused := History.refused [] _ _ _
    (.start : History (fresh (some { remaining := [65] }) none refusesFirst) [] _) rfl
  have outer := History.granted _ _ _ (some 0) refused rfl
  have inner := History.granted _ _ _ (some 1) outer rfl
  have once := History.released _ _ (some 0) (.read _ _ inner) (by decide)
  have history := History.released _ _ (some 0) once (by decide)
  obtain ⟨held,active,_⟩ := raw_mode_protocol _ _ _ _ _ history
  have one : (outstanding [.released (some 0), .released (some 0), .used, .granted (some 1),
      .granted (some 0), .refused]).length = 1 := by decide
  rw [one] at held
  refine ⟨_,history,held,active.mpr ?_⟩
  rw [held]
  exact Int.one_pos

end Emulator
end WordMachine
