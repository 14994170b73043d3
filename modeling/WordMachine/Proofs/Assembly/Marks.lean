import WordMachine.Assembly.Assemble
import WordMachine.Proofs.Text.Decimal

/-! The texts that stand for at signs. They tell the macro and the number of the line apart,
and those of one macro stay apart whatever follows them. -/
namespace WordMachine

theorem Text.ofNat_injective {n m : Nat} (same : ofNat n = ofNat m) : n = m := by
  have read := natural?_ofNat n
  rw [same,natural?_ofNat m] at read
  exact (Option.some.inj read).symm

namespace Assembly

/-- Texts are told apart by what stands before the first underscore. -/
theorem before_underscore {first second rest rest' : Text} (plain : Byte.underscore ∉ first)
    (plain' : Byte.underscore ∉ second)
    (same : first ++ Byte.underscore :: rest = second ++ Byte.underscore :: rest') :
    first = second ∧ rest = rest' := by
  induction first generalizing second with
  | nil =>
    cases second with
    | nil => exact ⟨rfl,(List.cons.inj same).2⟩
    | cons b second =>
      have begins := (List.cons.inj same).1
      rw [begins] at plain'
      exact absurd List.mem_cons_self plain'
  | cons b first ih =>
    cases second with
    | nil =>
      have begins := (List.cons.inj same).1
      rw [begins] at plain
      exact absurd List.mem_cons_self plain
    | cons c second =>
      obtain ⟨begins,continues⟩ := List.cons.inj same
      obtain ⟨equal,rests⟩ := ih (fun member => plain (List.mem_cons_of_mem b member))
        (fun member => plain' (List.mem_cons_of_mem c member)) continues
      exact ⟨by rw [begins,equal],rests⟩

theorem underscore_not_digit (n : Nat) : Byte.underscore ∉ Text.ofNat n := by
  intro member
  have digit := Text.isDigit_of_mem_ofNat member
  cases digit

section marks

variable {name name' : Text} {line line' : Nat}

/-- Whatever follows them, the marks of a macro are different on different lines. -/
theorem expansionMark_append {suffix suffix' : Text} :
    expansionMark name line ++ suffix = expansionMark name line' ++ suffix' ↔
      line = line' ∧ suffix = suffix' := by
  constructor
  · intro same
    have rest : Text.ofNat line ++ Byte.underscore :: suffix =
        Text.ofNat line' ++ Byte.underscore :: suffix' := by
      simpa [expansionMark] using same
    obtain ⟨numbers,suffixes⟩ :=
      before_underscore (underscore_not_digit line) (underscore_not_digit line') rest
    exact ⟨Text.ofNat_injective numbers,suffixes⟩
  · rintro ⟨rfl,rfl⟩
    rfl

theorem expansionMark_inj :
    expansionMark name line = expansionMark name' line' ↔ name = name' ∧ line = line' := by
  constructor
  · intro same
    -- the number is what stands between the last two underscores
    have reversed : (Text.ofNat line).reverse ++ Byte.underscore :: name.reverse =
        (Text.ofNat line').reverse ++ Byte.underscore :: name'.reverse := by
      have turned := congrArg List.reverse same
      simpa [expansionMark] using turned
    have plain : ∀ n, Byte.underscore ∉ (Text.ofNat n).reverse := by
      intro n member
      exact underscore_not_digit n (List.mem_reverse.mp member)
    obtain ⟨numbers,names⟩ := before_underscore (plain line) (plain line') reversed
    exact ⟨List.reverse_inj.mp names,Text.ofNat_injective (List.reverse_inj.mp numbers)⟩
  · rintro ⟨rfl,rfl⟩
    rfl

end marks

end Assembly
end WordMachine
