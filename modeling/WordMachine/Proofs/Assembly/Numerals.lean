import WordMachine.Proofs.Assembly.Execution
import WordMachine.Proofs.Assembly.Listing

/-! Decimal numerals as operands. A number is written with a sign or without, and a tilde may
stand before it. The word of a negative number is its residue modulo 32768, and a number that
is too small or too large is refused wherever an operand is read. -/
namespace WordMachine

namespace Text

/-- The decimal numerals of an integer, with their signs. -/
inductive Decimal : Int → Text → Prop
  | unsigned (n : Nat) : Decimal n (ofNat n)
  | positive (n : Nat) : Decimal n (Byte.plus :: ofNat n)
  | negative (n : Nat) : Decimal (-n) (Byte.minus :: ofNat n)

/-- The bytes of a numeral with its sign and the tilde before it. -/
def isNumeralByte (b : UInt8) : Bool :=
  Byte.isDigit b || b = Byte.plus || b = Byte.minus || b = Byte.tilde

section decimal

variable {n : Int} {text : Text}

theorem decimal_ofInt (n : Int) : Decimal n (ofInt n) := by
  unfold ofInt
  split
  · next negative =>
    have same : -(n.natAbs : Int) = n := by omega
    have decimal := Decimal.negative n.natAbs
    rwa [same] at decimal
  · next positive =>
    have same : (n.natAbs : Int) = n := by omega
    have decimal := Decimal.unsigned n.natAbs
    rwa [same] at decimal

theorem decimal_given (decimal : Decimal n text) : text ≠ [] := by
  cases decimal with
  | unsigned n =>
    obtain ⟨b,rest,begins,-,-⟩ := ofNat_first n
    rw [begins]
    exact List.cons_ne_nil b rest
  | positive n => exact List.cons_ne_nil _ _
  | negative n => exact List.cons_ne_nil _ _

theorem decimal_bytes (decimal : Decimal n text) : ∀ b ∈ text, isNumeralByte b = true := by
  have digits : ∀ (n : Nat), ∀ b ∈ ofNat n, isNumeralByte b = true := by
    intro n b member
    rw [isNumeralByte,isDigit_of_mem_ofNat member]
    rfl
  cases decimal with
  | unsigned n => exact digits n
  | positive n | negative n => exact List.forall_mem_cons.mpr ⟨by decide,digits n⟩

/-- A numeral is read as its integer, if it fits. -/
theorem integer?_decimal (decimal : Decimal n text) (bits : Nat) :
    integer? bits text =
      if -(powerOfTwo (bits - 1) : Int) ≤ n ∧ n < powerOfTwo (bits - 1) then some n else none := by
  cases decimal with
  | unsigned n =>
    obtain ⟨b,rest,begins,digit,-⟩ := ofNat_first n
    have unsigned := natural?_ofNat n
    rw [begins] at unsigned ⊢
    unfold integer?
    simp only [if_neg (digit_ne digit (by decide : Byte.isDigit Byte.minus = false)),
      if_neg (digit_ne digit (by decide : Byte.isDigit Byte.plus = false)),unsigned]
    rfl
  | positive n =>
    unfold integer?
    simp only [if_neg (by decide : Byte.plus ≠ Byte.minus),if_true,natural?_ofNat]
    rfl
  | negative n =>
    unfold integer?
    simp only [if_true,natural?_ofNat]
    rfl

end decimal

end Text

namespace Assembly

open Text (Decimal)

/-- The integers that a numeral may stand for. -/
def Writable (n : Int) : Prop := -32768 ≤ n ∧ n ≤ 65535

/-- The integers that a numeral may stand for as an operand of an instruction. From 32768 on
they are the words of the registers. -/
def Operable (n : Int) : Prop := -32768 ≤ n ∧ n ≤ 32775

def wordFor (n : Int) : Word := UInt16.ofInt (if n < 0 then 32768 + n else n)

section value

variable {n : Int} {text : Text}

theorem toNat_wordFor (writable : Writable n) :
    ((wordFor n).toNat : Int) = if n < 0 then 32768 + n else n := by
  obtain ⟨least,most⟩ := writable
  unfold wordFor
  generalize place : (if n < 0 then 32768 + n else n) = m
  have small : 0 ≤ m ∧ m < 65536 := by
    split at place <;> omega
  have kept : (m % 2 ^ 16).toNat = m.toNat := by omega
  have fits : m.toNat < 65536 := by omega
  rw [UInt16.ofInt,kept,UInt16.toNat_ofNat']
  omega

theorem toNat_wordFor_literal (least : -32768 ≤ n) (most : n ≤ 32767) :
    ((wordFor n).toNat : Int) = n % 32768 := by
  rw [toNat_wordFor ⟨least,by omega⟩]
  split <;> omega

theorem toNat_complement (writable : Writable n) :
    ((Word.complement (wordFor n)).toNat : Int) = (-1 - n) % 32768 := by
  have word := toNat_wordFor writable
  obtain ⟨least,most⟩ := writable
  rw [Word.complement_eq,Nat.toUInt16_eq,UInt16.toNat_ofNat']
  split at word <;> omega

theorem wordOfInteger_writable (writable : Writable n) : wordOfInteger n = .ok (wordFor n) := by
  obtain ⟨least,most⟩ := writable
  unfold wordOfInteger wordFor
  by_cases negative : n < 0
  · rw [if_pos ⟨least,negative⟩,if_pos negative]
    rfl
  · rw [if_neg fun both => negative both.2,if_pos ⟨Int.not_lt.mp negative,most⟩,if_neg negative]

theorem wordOfInteger_refused (refused : ¬ Writable n) :
    wordOfInteger n = .error (.plain .valueRange) := by
  unfold Writable at refused
  unfold wordOfInteger
  have modulus : (wordModulus : Int) = 32768 := rfl
  rw [if_neg (by omega),if_neg (by omega)]

variable (decimal : Decimal n text)
include decimal

theorem numberWord_writable (writable : Writable n) : numberWord text = .ok (wordFor n) := by
  have fits : -(powerOfTwo (32 - 1) : Int) ≤ n ∧ n < powerOfTwo (32 - 1) := by
    obtain ⟨least,most⟩ := writable
    change -2147483648 ≤ n ∧ n < 2147483648
    omega
  unfold numberWord
  rw [Text.integer?_decimal decimal,if_pos fits]
  exact wordOfInteger_writable writable

theorem numberWord_refused (refused : ¬ Writable n) : ∃ error, numberWord text = .error error := by
  unfold numberWord
  rw [Text.integer?_decimal decimal]
  split
  · next found =>
    split at found
    · cases found
      exact ⟨_,wordOfInteger_refused refused⟩
    · cases found
  · exact ⟨_,rfl⟩

theorem valueOf_decimal : valueOf text = numberWord text := by
  have untilded : ∀ b ∈ text.head?, b ≠ Byte.tilde := by
    cases decimal with
    | unsigned n =>
      obtain ⟨b,rest,begins,digit,-⟩ := Text.ofNat_first n
      rw [begins]
      rintro c same
      cases same
      exact Text.digit_ne digit (by decide)
    | positive n | negative n =>
      rintro c same
      cases same
      decide
  rcases text with _ | ⟨b,_ | ⟨c,rest⟩⟩
  · rfl
  · rfl
  · rw [valueOf,if_neg (untilded b rfl)]

theorem valueOf_tilde :
    valueOf (Byte.tilde :: text) = (numberWord text).map Word.complement := by
  obtain ⟨b,rest,rfl⟩ := List.exists_cons_of_ne_nil (Text.decimal_given decimal)
  rw [valueOf,if_pos rfl]
  rfl

end value

/-- A numeral as an operand: a decimal, or a decimal after a tilde. -/
inductive Numeral : Int → Text → Prop
  | plain {n : Int} {text : Text} (decimal : Decimal n text) : Numeral n text
  | inverted {n : Int} {text : Text} (decimal : Decimal n text) : Numeral n (Byte.tilde :: text)

section operand

variable {n : Int} {text : Text}

theorem numeral_bytes (numeral : Numeral n text) :
    text ≠ [] ∧ ∀ b ∈ text, Text.isNumeralByte b = true := by
  cases numeral with
  | plain decimal => exact ⟨Text.decimal_given decimal,Text.decimal_bytes decimal⟩
  | inverted decimal =>
    exact ⟨List.cons_ne_nil _ _,List.forall_mem_cons.mpr ⟨by decide,Text.decimal_bytes decimal⟩⟩

theorem numeral_unnamed (numeral : Numeral n text) : register? text = none ∧ isName text = false := by
  obtain ⟨given,bytes⟩ := numeral_bytes numeral
  obtain ⟨b,rest,rfl⟩ := List.exists_cons_of_ne_nil given
  have first := bytes b List.mem_cons_self
  simp only [Text.isNumeralByte,Bool.or_eq_true,decide_eq_true_eq] at first
  rcases first with ((digit | rfl) | rfl) | rfl
  · exact ⟨register?_digit digit rest,isName_digit digit rest⟩
  · exact ⟨register?_other (by decide) rest,rfl⟩
  · exact ⟨register?_other (by decide) rest,rfl⟩
  · exact ⟨register?_other (by decide) rest,rfl⟩

theorem numeral_value (numeral : Numeral n text) {word : Word} (value : valueOf text = .ok word) :
    Writable n := by
  apply Classical.byContradiction
  intro refused
  cases numeral with
  | plain decimal =>
    obtain ⟨error,failed⟩ := numberWord_refused decimal refused
    rw [valueOf_decimal decimal,failed] at value
    cases value
  | inverted decimal =>
    obtain ⟨error,failed⟩ := numberWord_refused decimal refused
    rw [valueOf_tilde decimal,failed] at value
    cases value

/-- However a numeral was read, it was read as a number. -/
theorem numeral_reads {labels : Table Word} {operand : Operand} (numeral : Numeral n text)
    (reads : Reads labels text operand) :
    ∃ word, operand = .word word ∧ valueOf text = .ok word := by
  obtain ⟨free,unshaped⟩ := numeral_unnamed numeral
  cases reads with
  | register word named =>
    rw [free] at named
    cases named
  | known addr _ shaped _ =>
    rw [unshaped] at shaped
    cases shaped
  | waiting _ shaped =>
    rw [unshaped] at shaped
    cases shaped
  | number word _ _ value => exact ⟨word,rfl,value⟩

theorem decimal_operable {kind : OperandClass} {word : Word} (decimal : Decimal n text)
    (value : valueOf text = .ok word) (admitted : kind.admits word) : Operable n := by
  have writable := numeral_value (.plain decimal) value
  have place := toNat_wordFor writable
  rw [valueOf_decimal decimal,numberWord_writable decimal writable] at value
  cases value
  obtain ⟨least,most⟩ := writable
  have bound : (wordFor n).toNat ≤ 32775 := by
    cases kind with
    | value | target => exact Nat.le_of_lt_succ admitted
    | register => exact admitted.2
  refine ⟨least,?_⟩
  split at place <;> omega

end operand

theorem checkOperand_word {kind : OperandClass} {word : Word}
    (ok : checkOperand kind (.word word) = .ok (.word word)) : kind.admits word := by
  have unlabelled : ∀ name addr, (Table.empty : Table Word).find? name = some addr →
      addr.toNat ≤ memorySize := by
    intro _ _ found
    cases found
  exact checkOperand_admits unlabelled ok rfl

section encoded

variable {labels : Table Word} {fields : List Text} {operands : List Operand} {n : Int} {text : Text}
  (encoded : Encoded labels fields operands) (argument : text ∈ fields.tail)
include encoded argument

/-- A number that is too small or too large is refused by every statement, with a tilde before
it or without. -/
theorem encoded_numeral (numeral : Numeral n text) : Writable n := by
  obtain ⟨arguments,rest,listed,reads⟩ : ∃ arguments rest, text ∈ arguments ∧
      List.Forall₂ (Reads labels) arguments rest := by
    cases encoded with
    | data head arguments _ directive reads => exact ⟨arguments,_,argument,reads⟩
    | instruction head opcode arguments rest _ mnemonic reads checked =>
      exact ⟨arguments,rest,argument,reads⟩
  obtain ⟨index,stands⟩ := List.mem_iff_getElem?.mp listed
  obtain ⟨operand,_,read⟩ := forall₂_getElem? reads stands
  obtain ⟨word,_,value⟩ := numeral_reads numeral read
  exact numeral_value numeral value

/-- An instruction refuses a number that is no literal and no register, unless a tilde stands
before it. -/
theorem encoded_decimal (operation : fields.head?.all fun head => !isDirective head)
    (decimal : Decimal n text) : Operable n := by
  cases encoded with
  | data head arguments _ directive reads => simp [directive] at operation
  | instruction head opcode arguments rest _ mnemonic reads checked =>
    obtain ⟨index,stands⟩ := List.mem_iff_getElem?.mp argument
    obtain ⟨operand,found,read⟩ := forall₂_getElem? reads stands
    obtain ⟨kind,_,allowed⟩ := forall₂_getElem? checked.flip found
    obtain ⟨word,rfl,value⟩ := numeral_reads (.plain decimal) read
    exact decimal_operable decimal value (checkOperand_word allowed)

end encoded

theorem accepted_numeral {evaluate : Expression.Evaluator} {depth : Nat}
    {assembler left : Assembler} {source : Text} {program : Program} {statement : Statement}
    {n : Int} {text : Text} (ok : assembler.parse evaluate depth source = (.ok program, left))
    (member : statement ∈ program.statements)
    (argument : text ∈ statement.fields.tail) :
    (Numeral n text → Writable n) ∧
      (isInstruction statement = true → Decimal n text → Operable n) := by
  obtain ⟨emissions,accepted⟩ := parse_accepted ok
  obtain ⟨index,emission,emitted,linked⟩ := accepted_statement accepted member
  have encoded := (accepted.valid emission emitted).encoded
  have fields : emission.statement.fields = statement.fields := by rw [linked.rest]
  rw [fields] at encoded
  exact ⟨encoded_numeral encoded argument,encoded_decimal encoded argument⟩

end Assembly
end WordMachine
