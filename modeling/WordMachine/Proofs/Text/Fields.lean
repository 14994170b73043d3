import WordMachine.Proofs.Text.Decimal
import WordMachine.Text.Blank
import WordMachine.Text.Pieces

/-! The fields of a text in which the matches of a pattern are replaced by numerals. A match
may hold blanks and so spread over several fields, but it becomes part of one; a field
without a digit or a minus sign comes from no match and was there before. -/
namespace WordMachine.Text

theorem fieldsFrom_done (skip : Nat) (current : Text) (done : List Text) (text : Text) :
    fieldsFrom skip current done text = done.reverse ++ fieldsFrom skip current [] text := by
  have closed : ∀ (current : Text) (done : List Text),
      closeField current done = closeField current [] ++ done := by
    intro current done
    unfold closeField
    split
    · rfl
    · rfl
  induction text generalizing skip current done with
  | nil =>
    rw [fieldsFrom,fieldsFrom,closed]
    simp
  | cons b rest ih =>
    cases skip with
    | succ skip => exact ih skip current done
    | zero =>
      rw [fieldsFrom,fieldsFrom]
      cases blankWidth (b :: rest) with
      | zero => exact ih 0 (b :: current) done
      | succ skip =>
        simp only
        rw [ih skip [] (closeField current done),ih skip [] (closeField current []),closed]
        simp

theorem fieldsFrom_unblank {word : Text} (visible : ∀ b ∈ word, ∀ rest, blankWidth (b :: rest) = 0)
    (current : Text) (done : List Text) (rest : Text) :
    fieldsFrom 0 current done (word ++ rest) =
      fieldsFrom 0 (word.reverse ++ current) done rest := by
  induction word generalizing current with
  | nil => rfl
  | cons b word ih =>
    rw [List.cons_append,fieldsFrom,visible b List.mem_cons_self]
    simp only
    rw [ih (fun c member => visible c (List.mem_cons_of_mem b member))]
    simp

theorem blankWidth_ascii {b : UInt8} (visible : 0x20 < b) (ascii : b < 0x80) (rest : Text) :
    blankWidth (b :: rest) = 0 := by
  simp only [UInt8.lt_iff_toNat_lt,UInt8.reduceToNat] at visible ascii
  simp only [blankWidth,Bool.or_eq_true,Bool.and_eq_true,beq_iff_eq,decide_eq_true_eq,
    UInt8.le_iff_toNat_le,← UInt8.toNat_inj,UInt8.reduceToNat]
  rw [if_neg (by omega),if_neg (by omega),if_neg (by omega)]

/-- Texts that look the same to a blank before them, whose other bytes are not ASCII. -/
inductive Alike : Text → Text → Prop
  | nil : Alike [] []
  | same (b : UInt8) {first second : Text} (rest : Alike first second) :
      Alike (b :: first) (b :: second)
  | ascii {b c : UInt8} (first second : Text) (low : b < 0x80) (low' : c < 0x80) :
      Alike (b :: first) (c :: second)

theorem low_ne {b c : UInt8} (low : b < 0x80) (high : 0x80 ≤ c) : (b == c) = false := by
  simp only [UInt8.lt_iff_toNat_lt,UInt8.le_iff_toNat_le,UInt8.reduceToNat] at low high
  rw [beq_eq_false_iff_ne]
  rintro rfl
  omega

theorem blankWidth_low {c : UInt8} (b : UInt8) (low : c < 0x80) (rest : Text) :
    blankWidth (b :: c :: rest) = blankWidth [b] := by
  cases rest with
  | nil =>
    simp only [blankWidth,low_ne low (by decide : (0x80 : UInt8) ≤ 0x85),
      low_ne low (by decide : (0x80 : UInt8) ≤ 0xA0),Bool.or_false,Bool.false_eq_true,if_false]
  | cons d rest =>
    simp only [blankWidth,low_ne low (by decide : (0x80 : UInt8) ≤ 0x85),
      low_ne low (by decide : (0x80 : UInt8) ≤ 0xA0),low_ne low (by decide : (0x80 : UInt8) ≤ 0x9A),
      low_ne low (by decide : (0x80 : UInt8) ≤ 0x80),low_ne low (by decide : (0x80 : UInt8) ≤ 0x81),
      Bool.or_false,Bool.and_false,Bool.false_and,Bool.false_eq_true,if_false]

theorem blankWidth_second {d : UInt8} (b c : UInt8) (low : d < 0x80) (rest : Text) :
    blankWidth (b :: c :: d :: rest) = blankWidth [b,c] := by
  have below : decide ((0x80 : UInt8) ≤ d) = false := by
    simp only [UInt8.lt_iff_toNat_lt,UInt8.le_iff_toNat_le,UInt8.reduceToNat,
      decide_eq_false_iff_not] at low ⊢
    omega
  simp only [blankWidth,below,low_ne low (by decide : (0x80 : UInt8) ≤ 0x80),
    low_ne low (by decide : (0x80 : UInt8) ≤ 0xA8),low_ne low (by decide : (0x80 : UInt8) ≤ 0xA9),
    low_ne low (by decide : (0x80 : UInt8) ≤ 0xAF),low_ne low (by decide : (0x80 : UInt8) ≤ 0x9F),
    Bool.or_false,Bool.and_false,Bool.false_and,Bool.false_eq_true,if_false]

theorem blankWidth_alike {first second : Text} (b : UInt8) (alike : Alike first second) :
    blankWidth (b :: first) = blankWidth (b :: second) := by
  cases alike with
  | nil => rfl
  | ascii _ _ low low' => rw [blankWidth_low b low,blankWidth_low b low']
  | same c rest =>
    cases rest with
    | nil => rfl
    | ascii _ _ low low' => rw [blankWidth_second b c low,blankWidth_second b c low']
    | same d rest => rfl

theorem blankWidth_one (b : UInt8) : blankWidth [b] ≤ 1 := by
  simp only [blankWidth]
  split_ifs <;> omega

theorem blankWidth_two (b c : UInt8) : blankWidth [b,c] ≤ 2 := by
  simp only [blankWidth]
  split_ifs <;> omega

theorem blankWidth_three (b c d : UInt8) (rest : Text) : blankWidth (b :: c :: d :: rest) ≤ 3 := by
  simp only [blankWidth]
  split_ifs <;> omega

theorem blankWidth_high {b : UInt8} {text : Text} {skip : Nat}
    (blank : blankWidth (b :: text) = skip + 1) : ∀ c ∈ text.take skip, ¬ c < 0x80 := by
  have first : ∀ c rest, text = c :: rest → 0 < skip → ¬ c < 0x80 := by
    rintro c rest rfl positive low
    have narrow := blankWidth_one b
    rw [blankWidth_low b low] at blank
    omega
  rcases text with _ | ⟨c,_ | ⟨d,rest⟩⟩
  · simp
  · intro byte member
    cases skip with
    | zero => cases member
    | succ skip =>
      rw [List.mem_singleton.mp (List.mem_of_mem_take member)]
      exact first c [] rfl (Nat.succ_pos skip)
  · have second : 1 < skip → ¬ d < 0x80 := by
      intro wide low
      have narrow := blankWidth_two b c
      rw [blankWidth_second b c low] at blank
      omega
    have bound := blankWidth_three b c d rest
    intro byte member
    obtain rfl | rfl | rfl : skip = 0 ∨ skip = 1 ∨ skip = 2 := by omega
    · cases member
    · rw [List.mem_singleton.mp member]
      exact first c _ rfl Nat.one_pos
    · rcases List.mem_cons.mp member with rfl | last
      · exact first byte _ rfl Nat.two_pos
      · rw [List.mem_singleton.mp last]
        exact second Nat.one_lt_two

def isNumeric (b : UInt8) : Bool := Byte.isDigit b || b = Byte.minus

theorem numeric_ascii {b : UInt8} (numeric : isNumeric b = true) : 0x20 < b ∧ b < 0x80 := by
  simp only [isNumeric,Byte.isDigit,Byte.minus,Bool.or_eq_true,Bool.and_eq_true,decide_eq_true_eq,
    UInt8.le_iff_toNat_le,← UInt8.toNat_inj,UInt8.reduceToNat] at numeric
  simp only [UInt8.lt_iff_toNat_lt,UInt8.reduceToNat]
  omega

theorem ofInt_given (n : Int) : ofInt n ≠ [] := by
  obtain ⟨b,rest,begins,-,-⟩ := ofNat_first n.natAbs
  unfold ofInt
  split
  · exact List.cons_ne_nil _ _
  · rw [begins]
    exact List.cons_ne_nil b rest

theorem ofInt_numeric (n : Int) : ∀ b ∈ ofInt n, isNumeric b = true := by
  intro b member
  unfold ofInt at member
  split at member
  · rcases List.mem_cons.mp member with rfl | digit
    · rfl
    · simp [isNumeric,isDigit_of_mem_ofNat digit]
  · simp [isNumeric,isDigit_of_mem_ofNat member]

/-- The texts that pieces become if numerals take the place of the matches. -/
inductive Replaced : List Piece → Text → Prop
  | nil : Replaced [] []
  | plain (b : UInt8) {pieces : List Piece} {text : Text} (rest : Replaced pieces text) :
      Replaced (.plain b :: pieces) (b :: text)
  | numeral (found numeral : Text) {pieces : List Piece} {text : Text} (given : numeral ≠ [])
      (numeric : ∀ b ∈ numeral, isNumeric b = true) (rest : Replaced pieces text) :
      Replaced (.found found :: pieces) (numeral ++ text)

/-- A match that begins with a dollar sign and ends with a parenthesis. -/
def Enclosed (piece : Piece) : Prop :=
  ∀ found, piece = .found found →
    ∃ middle, found = Byte.dollar :: (middle ++ [Byte.parenClose])

def join (pieces : List Piece) : Text := pieces.flatMap Piece.text

theorem replaced_alike {pieces : List Piece} {text : Text} (replaced : Replaced pieces text)
    (enclosed : ∀ piece ∈ pieces, Enclosed piece) : Alike text (join pieces) := by
  induction replaced with
  | nil => exact .nil
  | plain b rest ih =>
    exact .same b (ih fun piece member => enclosed piece (List.mem_cons_of_mem _ member))
  | numeral found numeral given numeric rest ih =>
    obtain ⟨middle,rfl⟩ := enclosed _ List.mem_cons_self found rfl
    obtain ⟨b,numeral,rfl⟩ := List.exists_cons_of_ne_nil given
    exact .ascii _ _ (numeric_ascii (numeric b List.mem_cons_self)).2 (by decide)

theorem plain_of_high {pieces : List Piece} {text : Text} {count : Nat}
    (replaced : Replaced pieces text) (high : ∀ c ∈ text.take count, ¬ c < 0x80) :
    ∀ piece ∈ pieces.take count, ∃ b, piece = .plain b := by
  induction replaced generalizing count with
  | nil => simp
  | plain b rest ih =>
    cases count with
    | zero => simp
    | succ count =>
      intro piece member
      rcases List.mem_cons.mp member with rfl | later
      · exact ⟨b,rfl⟩
      · exact ih (fun c inside => high c (List.mem_cons_of_mem b inside)) piece later
  | numeral found numeral given numeric rest ih =>
    cases count with
    | zero => simp
    | succ count =>
      obtain ⟨b,numeral,rfl⟩ := List.exists_cons_of_ne_nil given
      exact absurd (numeric_ascii (numeric b List.mem_cons_self)).2 (high b List.mem_cons_self)

/-- A match leaves some fields behind and ends outside a blank. -/
theorem fieldsFrom_enclosed (middle : Text) {skip : Nat} (current rest : Text)
    (high : ∀ c ∈ (middle ++ [Byte.parenClose]).take skip, ¬ c < 0x80) :
    ∃ current' more, fieldsFrom skip current [] (middle ++ [Byte.parenClose] ++ rest) =
      more ++ fieldsFrom 0 current' [] rest := by
  induction middle generalizing skip current with
  | nil =>
    cases skip with
    | zero => exact ⟨Byte.parenClose :: current,[],rfl⟩
    | succ skip => exact absurd (by decide) (high Byte.parenClose List.mem_cons_self)
  | cons b middle ih =>
    cases skip with
    | succ skip =>
      exact ih current fun c member => high c (List.mem_cons_of_mem b member)
    | zero =>
      rw [List.cons_append,List.cons_append,fieldsFrom]
      cases blank : blankWidth (b :: (middle ++ [Byte.parenClose] ++ rest)) with
      | zero => exact ih (b :: current) (by simp)
      | succ skip =>
        have later : ∀ c ∈ (middle ++ [Byte.parenClose]).take skip, ¬ c < 0x80 := by
          intro c member
          apply blankWidth_high blank c
          rw [List.take_append]
          exact List.mem_append_left _ member
        obtain ⟨current',more,run⟩ := ih [] later
        refine ⟨current',(closeField current []).reverse ++ more,?_⟩
        simp only
        rw [fieldsFrom_done,run,List.append_assoc]

/-- The fields of a text with numerals beside the fields that it had before. -/
inductive FieldsMatch : List Text → List Text → Prop
  | nil : FieldsMatch [] []
  | same (field : Text) {first second : List Text} (rest : FieldsMatch first second) :
      FieldsMatch (field :: first) (field :: second)
  | numeral (field : Text) (others : List Text) {first second : List Text}
      (numeric : ∃ b ∈ field, isNumeric b = true) (rest : FieldsMatch first second) :
      FieldsMatch (field :: first) (others ++ second)

theorem fieldsMatch_append (fields : List Text) {first second : List Text}
    (rest : FieldsMatch first second) : FieldsMatch (fields ++ first) (fields ++ second) := by
  induction fields with
  | nil => exact rest
  | cons field fields ih => exact .same field ih

theorem closeField_numeric {current : Text} (numeric : ∃ b ∈ current, isNumeric b = true) :
    closeField current [] = [current.reverse] := by
  obtain ⟨b,member,-⟩ := numeric
  unfold closeField
  rw [if_neg]
  intro empty
  rw [List.isEmpty_iff.mp empty] at member
  cases member

theorem numeric_reverse {current : Text} (numeric : ∃ b ∈ current, isNumeric b = true) :
    ∃ b ∈ current.reverse, isNumeric b = true := by
  obtain ⟨b,member,shown⟩ := numeric
  exact ⟨b,List.mem_reverse.mpr member,shown⟩

theorem fieldsFrom_numeral {numeral : Text} (numeric : ∀ b ∈ numeral, isNumeric b = true)
    (current rest : Text) :
    fieldsFrom 0 current [] (numeral ++ rest) = fieldsFrom 0 (numeral.reverse ++ current) [] rest := by
  apply fieldsFrom_unblank
  intro b member after
  have ascii := numeric_ascii (numeric b member)
  exact blankWidth_ascii ascii.1 ascii.2 after

/-- Reading both texts field by field: as long as no numeral belongs to the current field
the two agree on it, and a field with a numeral may stand for several. -/
theorem fieldsFrom_replaced {pieces : List Piece} {text : Text} (replaced : Replaced pieces text)
    (enclosed : ∀ piece ∈ pieces, Enclosed piece) :
    (∀ skip current, (∀ piece ∈ pieces.take skip, ∃ b, piece = .plain b) →
      FieldsMatch (fieldsFrom skip current [] text) (fieldsFrom skip current [] (join pieces))) ∧
    (∀ current current' more, (∃ b ∈ current, isNumeric b = true) →
      FieldsMatch (fieldsFrom 0 current [] text) (more ++ fieldsFrom 0 current' [] (join pieces))) := by
  induction replaced with
  | nil =>
    constructor
    · intro skip current plain
      have same := fieldsMatch_append (fieldsFrom skip current [] []) .nil
      rw [List.append_nil] at same
      exact same
    · intro current current' more numeric
      have closed : fieldsFrom 0 current [] [] = [current.reverse] := by
        rw [fieldsFrom,closeField_numeric numeric]
        rfl
      have match' := FieldsMatch.numeral current.reverse (more ++ fieldsFrom 0 current' [] [])
        (numeric_reverse numeric) .nil
      rw [List.append_nil] at match'
      rw [closed]
      exact match'
  | @plain b pieces text rest ih =>
    have enclosed' : ∀ piece ∈ pieces, Enclosed piece :=
      fun piece member => enclosed piece (List.mem_cons_of_mem _ member)
    obtain ⟨synchronous,numbered⟩ := ih enclosed'
    have same : blankWidth (b :: text) = blankWidth (b :: join pieces) :=
      blankWidth_alike b (replaced_alike rest enclosed')
    have joined : join (.plain b :: pieces) = b :: join pieces := rfl
    rw [joined]
    constructor
    · intro skip current plain
      cases skip with
      | succ skip =>
        exact synchronous skip current fun piece member => plain piece (List.mem_cons_of_mem _ member)
      | zero =>
        rw [fieldsFrom,fieldsFrom,← same]
        cases blank : blankWidth (b :: text) with
        | zero => exact synchronous 0 (b :: current) (by simp)
        | succ skip =>
          simp only
          rw [fieldsFrom_done,fieldsFrom_done skip [] (closeField current []) (join pieces)]
          apply fieldsMatch_append
          exact synchronous skip [] (plain_of_high rest (blankWidth_high blank))
    · intro current current' more numeric
      rw [fieldsFrom,fieldsFrom,← same]
      cases blank : blankWidth (b :: text) with
      | zero =>
        obtain ⟨c,member,shown⟩ := numeric
        exact numbered (b :: current) (b :: current') more ⟨c,List.mem_cons_of_mem b member,shown⟩
      | succ skip =>
        simp only
        rw [fieldsFrom_done,fieldsFrom_done skip [] (closeField current' []) (join pieces),
          closeField_numeric numeric,← List.append_assoc]
        exact .numeral current.reverse _ (numeric_reverse numeric)
          (synchronous skip [] (plain_of_high rest (blankWidth_high blank)))
  | @numeral found numeral pieces text given numeric rest ih =>
    have enclosed' : ∀ piece ∈ pieces, Enclosed piece :=
      fun piece member => enclosed piece (List.mem_cons_of_mem _ member)
    obtain ⟨-,numbered⟩ := ih enclosed'
    obtain ⟨middle,rfl⟩ := enclosed _ List.mem_cons_self found rfl
    obtain ⟨digit,others,rfl⟩ := List.exists_cons_of_ne_nil given
    have marked : ∀ current : Text, ∃ b ∈ (digit :: others).reverse ++ current, isNumeric b = true := by
      intro current
      exact ⟨digit,by simp,numeric digit List.mem_cons_self⟩
    have joined : join (.found (Byte.dollar :: (middle ++ [Byte.parenClose])) :: pieces) =
        Byte.dollar :: middle ++ [Byte.parenClose] ++ join pieces := by
      simp [join,Piece.text]
    have unmatched : ∀ current : Text, ∃ current' more,
        fieldsFrom 0 current [] (join (.found (Byte.dollar :: (middle ++ [Byte.parenClose])) :: pieces)) =
          more ++ fieldsFrom 0 current' [] (join pieces) := by
      intro current
      rw [joined]
      exact fieldsFrom_enclosed (Byte.dollar :: middle) current (join pieces) (by simp)
    constructor
    · intro skip current plain
      cases skip with
      | succ skip =>
        obtain ⟨b,impossible⟩ := plain _ List.mem_cons_self
        cases impossible
      | zero =>
        obtain ⟨current',more,run⟩ := unmatched current
        rw [run,fieldsFrom_numeral numeric]
        exact numbered _ current' more (marked current)
    · intro current current' more _
      obtain ⟨current'',more',run⟩ := unmatched current'
      rw [run,fieldsFrom_numeral numeric,← List.append_assoc]
      exact numbered _ current'' (more ++ more') (marked current)

theorem fields_replaced {pieces : List Piece} {text : Text} (replaced : Replaced pieces text)
    (enclosed : ∀ piece ∈ pieces, Enclosed piece) :
    FieldsMatch (fields text) (fields (join pieces)) :=
  (fieldsFrom_replaced replaced enclosed).1 0 [] (by simp)

section correspondence

variable {first second : List Text} (matched : FieldsMatch first second) {field : Text}
  (plain : ∀ b ∈ field, isNumeric b = false)
include matched plain

theorem mem_of_fieldsMatch (member : field ∈ first) : field ∈ second := by
  induction matched with
  | nil => cases member
  | same other rest ih =>
    rcases List.mem_cons.mp member with rfl | later
    · exact List.mem_cons_self
    · exact List.mem_cons_of_mem other (ih later)
  | numeral other others numeric rest ih =>
    rcases List.mem_cons.mp member with rfl | later
    · obtain ⟨b,inside,shown⟩ := numeric
      rw [plain b inside] at shown
      cases shown
    · exact List.mem_append_right others (ih later)

theorem head_of_fieldsMatch (head : first.head? = some field) : second.head? = some field := by
  cases matched with
  | nil => cases head
  | same other rest => exact head
  | numeral other others numeric rest =>
    cases head
    obtain ⟨b,inside,shown⟩ := numeric
    rw [plain b inside] at shown
    cases shown

end correspondence

end WordMachine.Text
