import Mathlib.Data.Nat.Digits.Defs
import WordMachine.Text.Numeral

/-! Decimal numerals: what the digits of a number are, and that they read back as the
number. No numeral but that of zero begins with a zero, which would be the mark of
another base. -/
namespace WordMachine.Text

def digitByte (digit : Nat) : UInt8 := (Nat.digitChar digit).toUInt8

theorem ofNat_digit {n : Nat} (small : n < 10) : ofNat n = [digitByte n] := by
  unfold ofNat
  rw [Nat.toDigits_of_lt_base small]
  rfl

theorem ofNat_append {n : Nat} (large : 10 ≤ n) :
    ofNat n = ofNat (n / 10) ++ [digitByte (n % 10)] := by
  unfold ofNat
  rw [Nat.toDigits_of_base_le (by decide) large,List.map_append]
  rfl

theorem isDigit_digitByte {digit : Nat} (small : digit < 10) :
    Byte.isDigit (digitByte digit) = true := by
  have each : ∀ digit : Fin 10, Byte.isDigit (digitByte digit.val) = true := by decide
  exact each ⟨digit,small⟩

theorem digitValue?_digitByte {digit : Nat} (small : digit < 16) :
    Byte.digitValue? (digitByte digit) = some digit := by
  have each : ∀ digit : Fin 16, Byte.digitValue? (digitByte digit.val) = some digit.val := by decide
  exact each ⟨digit,small⟩

theorem digitByte_ne_zero {digit : Nat} (small : digit < 10) (positive : 0 < digit) :
    digitByte digit ≠ Byte.zero := by
  have each : ∀ digit : Fin 10, 0 < digit.val → digitByte digit.val ≠ Byte.zero := by decide
  exact each ⟨digit,small⟩ positive

theorem isDigit_of_mem_ofNat {n : Nat} {b : UInt8} (member : b ∈ ofNat n) : Byte.isDigit b = true := by
  induction n using Nat.strongRecOn with
  | ind n ih =>
    by_cases small : n < 10
    · rw [ofNat_digit small,List.mem_singleton] at member
      rw [member]
      exact isDigit_digitByte small
    · rw [ofNat_append (by omega),List.mem_append,List.mem_singleton] at member
      rcases member with earlier | rfl
      · exact ih (n / 10) (by omega) earlier
      · exact isDigit_digitByte (by omega)

theorem digit_ne {b c : UInt8} (digit : Byte.isDigit b = true) (other : Byte.isDigit c = false) :
    b ≠ c := by
  rintro rfl
  rw [digit] at other
  cases other

theorem ofNat_first (n : Nat) :
    ∃ b rest, ofNat n = b :: rest ∧ Byte.isDigit b = true ∧ (b = Byte.zero → n = 0) := by
  induction n using Nat.strongRecOn with
  | ind n ih =>
    by_cases small : n < 10
    · refine ⟨_,[],ofNat_digit small,isDigit_digitByte small,?_⟩
      intro zero
      by_contra positive
      exact digitByte_ne_zero small (Nat.pos_of_ne_zero positive) zero
    · obtain ⟨b,rest,begins,digit,zero⟩ := ih (n / 10) (by omega)
      refine ⟨b,rest ++ [digitByte (n % 10)],?_,digit,?_⟩
      · rw [ofNat_append (by omega),begins]
        rfl
      · intro same
        have vanishes := zero same
        omega

theorem valueFrom_append {base value result digit : Nat} {seen : Bool} {text : Text} {b : UInt8}
    (read : valueFrom base seen value text = some result) (visible : b ≠ Byte.underscore)
    (found : Byte.digitValue? b = some digit) (small : digit < base) :
    valueFrom base seen value (text ++ [b]) = some (result * base + digit) := by
  induction text generalizing seen value with
  | nil =>
    cases seen with
    | false => cases read
    | true =>
      cases read
      simp [valueFrom,visible,found,small]
  | cons c rest ih =>
    rw [valueFrom] at read
    rw [List.cons_append,valueFrom]
    split at read
    · next mark =>
      rw [if_pos mark]
      split at read
      · next already =>
        rw [if_pos already]
        exact ih read
      · cases read
    · next plain =>
      rw [if_neg plain]
      cases known : Byte.digitValue? c with
      | none => rw [known] at read; cases read
      | some first =>
        rw [known] at read
        simp only at read ⊢
        split at read
        · next less =>
          rw [if_pos less]
          exact ih read
        · cases read

theorem valueFrom_ofNat (n : Nat) : valueFrom 10 false 0 (ofNat n) = some n := by
  have visible : ∀ {digit : Nat}, digit < 10 → digitByte digit ≠ Byte.underscore :=
    fun small => digit_ne (isDigit_digitByte small) (by decide)
  induction n using Nat.strongRecOn with
  | ind n ih =>
    by_cases small : n < 10
    · rw [ofNat_digit small]
      simp [valueFrom,visible small,digitValue?_digitByte (Nat.lt_trans small (by decide)),small]
    · have last : n % 10 < 10 := Nat.mod_lt n (by decide)
      rw [ofNat_append (by omega),valueFrom_append (ih (n / 10) (by omega)) (visible last)
        (digitValue?_digitByte (Nat.lt_trans last (by decide))) last]
      congr 1
      omega

theorem natural?_ofNat (n : Nat) : natural? (ofNat n) = some n := by
  obtain ⟨b,rest,begins,-,zero⟩ := ofNat_first n
  have decimal : digitsOf (ofNat n) = ⟨10,ofNat n,false⟩ := by
    rw [begins]
    cases rest with
    | nil => rfl
    | cons c rest =>
      have nonzero : b ≠ Byte.zero := by
        intro same
        rw [zero same] at begins
        cases begins
      rw [digitsOf,if_neg nonzero]
  unfold natural?
  rw [decimal]
  exact valueFrom_ofNat n

theorem integer?_ofNat {n bits : Nat} (fits : n < powerOfTwo (bits - 1)) :
    integer? bits (ofNat n) = some (n : Int) := by
  obtain ⟨b,rest,begins,digit,-⟩ := ofNat_first n
  have unsigned := natural?_ofNat n
  rw [begins] at unsigned ⊢
  unfold integer?
  simp only [if_neg (digit_ne digit (by decide : Byte.isDigit Byte.minus = false)),
    if_neg (digit_ne digit (by decide : Byte.isDigit Byte.plus = false)),unsigned]
  change (if -(powerOfTwo (bits - 1) : Int) ≤ (n : Int) ∧ (n : Int) < powerOfTwo (bits - 1) then
    some (n : Int) else none) = _
  rw [if_pos ⟨by omega,by omega⟩]

end WordMachine.Text
