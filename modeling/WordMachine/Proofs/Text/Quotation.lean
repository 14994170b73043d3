import WordMachine.Proofs.Text.Decimal
import WordMachine.Proofs.Text.Pieces
import WordMachine.Text.Quoted

/-! String literals as a grammar. A literal is found exactly where a quote, a body and
another quote stand, and a body is wrong only where a backslash stands in it. -/
namespace WordMachine.Text

/-- What may stand between the quotes of a string. A backslash takes the byte after it. -/
inductive Body : Text → Prop
  | nil : Body []
  | byte {b : UInt8} {rest : Text} (unquoted : b ≠ Byte.quote) (unescaped : b ≠ Byte.backslash)
      (later : Body rest) : Body (b :: rest)
  | escape (b : UInt8) {rest : Text} (later : Body rest) : Body (Byte.backslash :: b :: rest)

def quoted (body : Text) : Text := Byte.quote :: (body ++ [Byte.quote])

theorem quoted_append (body rest : Text) :
    quoted body ++ rest = Byte.quote :: (body ++ Byte.quote :: rest) := by
  simp [quoted]

theorem inner_quoted (body : Text) : (quoted body).inner = body := by
  simp [quoted,inner]

theorem stringLengthFrom_quote (length : Nat) (rest : Text) :
    stringLengthFrom length (Byte.quote :: rest) = length + 1 := by
  rw [stringLengthFrom.eq_def]
  rfl

theorem stringLengthFrom_byte {b : UInt8} (unquoted : b ≠ Byte.quote)
    (unescaped : b ≠ Byte.backslash) (length : Nat) (rest : Text) :
    stringLengthFrom length (b :: rest) = stringLengthFrom (length + 1) rest := by
  rw [stringLengthFrom.eq_def]
  simp only
  rw [if_neg unquoted,if_neg unescaped]

theorem stringLengthFrom_escape (length : Nat) (b : UInt8) (rest : Text) :
    stringLengthFrom length (Byte.backslash :: b :: rest) = stringLengthFrom (length + 2) rest := by
  rw [stringLengthFrom.eq_def]
  rfl

section extent

variable {body : Text} (shaped : Body body)
include shaped

theorem stringLengthFrom_body (length : Nat) (rest : Text) :
    stringLengthFrom length (body ++ Byte.quote :: rest) = length + body.length + 1 := by
  induction shaped generalizing length with
  | nil => exact stringLengthFrom_quote length rest
  | byte unquoted unescaped later ih =>
    rw [List.cons_append,stringLengthFrom_byte unquoted unescaped,ih,List.length_cons]
    omega
  | escape b later ih =>
    rw [List.cons_append,List.cons_append,stringLengthFrom_escape,ih,List.length_cons,
      List.length_cons]
    omega

theorem stringLength_quoted (rest : Text) :
    stringLength (quoted body ++ rest) = (quoted body).length := by
  rw [quoted_append,stringLength,if_pos rfl,stringLengthFrom_body shaped]
  simp only [quoted,List.length_cons,List.length_append,List.length_nil]
  omega

theorem pieces_quoted (rest : Text) :
    pieces stringLength (quoted body ++ rest) = .found (quoted body) :: pieces stringLength rest :=
  pieces_match (List.cons_ne_nil _ _) (stringLength_quoted shaped rest)

end extent

theorem body_of_closed {length : Nat} {text : Text} (closed : stringLengthFrom length text ≠ 0) :
    ∃ body rest, Body body ∧ text = body ++ Byte.quote :: rest := by
  fun_induction stringLengthFrom length text with
  | case1 => exact absurd rfl closed
  | case2 length rest => exact ⟨[],rest,.nil,rfl⟩
  | case3 => exact absurd rfl closed
  | case4 length b rest =>
    next ih =>
    obtain ⟨body,after,shaped,rfl⟩ := ih closed
    exact ⟨_,after,.escape b shaped,rfl⟩
  | case5 length b rest unquoted unescaped ih =>
    obtain ⟨body,after,shaped,rfl⟩ := ih closed
    exact ⟨_,after,.byte unquoted unescaped shaped,rfl⟩

/-- A text in which a string with a wrong escape stands, where strings are read from the left. -/
inductive Misquoted : Text → Prop
  | byte {b : UInt8} {rest : Text} (unquoted : b ≠ Byte.quote) (later : Misquoted rest) :
      Misquoted (b :: rest)
  | after {body rest : Text} (shaped : Body body) (later : Misquoted rest) :
      Misquoted (quoted body ++ rest)
  | here {body : Text} (shaped : Body body) (wrong : unquote? Byte.quote body = none) (rest : Text) :
      Misquoted (quoted body ++ rest)

theorem misquoted_given {text : Text} (wrong : Misquoted text) : text ≠ [] := by
  cases wrong with
  | byte => exact List.cons_ne_nil _ _
  | after => exact List.cons_ne_nil _ _
  | here => exact List.cons_ne_nil _ _

theorem quoted_closes {body : Text} (shaped : Body body) (length : Nat) (rest : Text) :
    stringLengthFrom length (quoted body ++ rest) ≠ 0 ∧
      stringLengthFrom length (quoted body ++ rest).tail ≠ 0 := by
  rw [quoted_append,List.tail_cons,stringLengthFrom_quote,stringLengthFrom_body shaped]
  exact ⟨Nat.succ_ne_zero _,Nat.succ_ne_zero _⟩

/-- A quote before a text with a wrong string is closed, also if it takes the first byte of
the text as escaped. So no string begins behind a quote that nothing closes. -/
theorem misquoted_closes {text : Text} (wrong : Misquoted text) (length : Nat) :
    stringLengthFrom length text ≠ 0 ∧ stringLengthFrom length text.tail ≠ 0 := by
  induction wrong generalizing length with
  | @byte b rest unquoted later ih =>
    refine ⟨?_,(ih length).1⟩
    by_cases escaped : b = Byte.backslash
    · obtain ⟨c,after,rfl⟩ := List.exists_cons_of_ne_nil (misquoted_given later)
      rw [escaped,stringLengthFrom_escape]
      exact (ih (length + 2)).2
    · rw [stringLengthFrom_byte unquoted escaped]
      exact (ih (length + 1)).1
  | after shaped later ih => exact quoted_closes shaped length _
  | here shaped wrong rest => exact quoted_closes shaped length rest

/-- A byte at the end that is no quote makes no difference. -/
theorem misquoted_snoc {b : UInt8} (unquoted : b ≠ Byte.quote) (text : Text) :
    Misquoted (text ++ [b]) ↔ Misquoted text := by
  -- A literal before the end stays before it, as the last byte closes none.
  have shorter : ∀ {body rest text : Text}, quoted body ++ rest = text ++ [b] →
      ∃ rest', rest = rest' ++ [b] ∧ text = quoted body ++ rest' := by
    intro body rest text same
    rcases List.eq_nil_or_concat rest with rfl | ⟨rest',c,rfl⟩
    · rw [List.append_nil,quoted,← List.cons_append] at same
      exact absurd (List.append_inj_right' same rfl) (by simpa using unquoted.symm)
    · rw [List.concat_eq_append,← List.append_assoc] at same
      obtain ⟨before,last⟩ := List.append_inj' same rfl
      cases last
      exact ⟨rest',List.concat_eq_append,before.symm⟩
  constructor
  · intro wrong
    generalize whole : text ++ [b] = longer at wrong
    induction wrong generalizing text with
    | @byte c rest other later ih =>
      cases text with
      | nil =>
        cases whole
        exact absurd rfl (misquoted_given later)
      | cons d text =>
        cases whole
        exact .byte other (ih text rfl)
    | after shaped later ih =>
      obtain ⟨rest',rfl,rfl⟩ := shorter whole.symm
      exact .after shaped (ih rest' rfl)
    | here shaped wrong rest =>
      obtain ⟨rest',rfl,rfl⟩ := shorter whole.symm
      exact .here shaped wrong rest'
  · intro wrong
    induction wrong with
    | byte other later ih => exact .byte other ih
    | after shaped later ih =>
      rw [List.append_assoc]
      exact .after shaped ih
    | here shaped wrong rest =>
      rw [List.append_assoc]
      exact .here shaped wrong _

section escapes

theorem unquoteFrom_unescaped {body : Text} (unquoted : Byte.quote ∉ body)
    (unescaped : Byte.backslash ∉ body) {fuel : Nat} (enough : body.length ≤ fuel) (done : Text) :
    unquoteFrom Byte.quote fuel done body ≠ none := by
  induction fuel generalizing body done with
  | zero =>
    rw [List.length_eq_zero_iff.mp (Nat.le_zero.mp enough)]
    simp [unquoteFrom]
  | succ fuel ih =>
    cases body with
    | nil => simp [unquoteFrom]
    | cons b rest =>
      rw [List.mem_cons,not_or] at unquoted unescaped
      have drops : ∀ width, (rest.drop width).length ≤ fuel := by
        intro width
        rw [List.length_cons] at enough
        rw [List.length_drop]
        omega
      rw [unquoteFrom,glyph?,if_neg (Ne.symm unquoted.1),if_neg (Ne.symm unescaped.1)]
      cases decode? (b :: rest) with
      | none => exact ih unquoted.2 unescaped.2 (drops 0) _
      | some read =>
        exact ih (fun member => unquoted.2 (List.mem_of_mem_drop member))
          (fun member => unescaped.2 (List.mem_of_mem_drop member)) (drops _) _

theorem body_unquoted {body : Text} (shaped : Body body) (unescaped : Byte.backslash ∉ body) :
    Byte.quote ∉ body := by
  induction shaped with
  | nil => exact List.not_mem_nil
  | byte unquoted other later ih =>
    rw [List.mem_cons,not_or] at unescaped ⊢
    exact ⟨unquoted.symm,ih unescaped.2⟩
  | escape b later ih => exact absurd List.mem_cons_self unescaped

/-- Only what a backslash begins can be wrong. -/
theorem misquoted_escapes {text : Text} (wrong : Misquoted text) :
    ∃ before body after, text = before ++ quoted body ++ after ∧ Byte.backslash ∈ body := by
  induction wrong with
  | @byte b rest unquoted later ih =>
    obtain ⟨before,body,after,rfl,escaped⟩ := ih
    exact ⟨b :: before,body,after,by simp,escaped⟩
  | @after body' rest shaped later ih =>
    obtain ⟨before,body,after,rfl,escaped⟩ := ih
    exact ⟨quoted body' ++ before,body,after,by simp,escaped⟩
  | @here body shaped wrong rest =>
    refine ⟨[],body,rest,rfl,?_⟩
    apply Classical.byContradiction
    intro unescaped
    exact unquoteFrom_unescaped (body_unquoted shaped unescaped) unescaped (Nat.le_refl _) [] wrong

end escapes

section spelling

theorem decode?_ascii {b : UInt8} (ascii : b < 0x80) (rest : Text) :
    decode? (b :: rest) = some (b.toNat,1) := by
  have low : b.toNat < 0x80 := UInt8.lt_iff_toNat_lt.mp ascii
  rw [decode?,if_pos low]

theorem encode_ascii {b : UInt8} (ascii : b < 0x80) : encode b.toNat = [b] := by
  have each : ∀ code : Fin 128, encode code.val = [UInt8.ofNat code.val] := by decide
  have read := each ⟨b.toNat,UInt8.lt_iff_toNat_lt.mp ascii⟩
  rwa [UInt8.ofNat_toNat] at read

theorem glyph?_ascii {quote b : UInt8} (unquoted : b ≠ quote) (unescaped : b ≠ Byte.backslash)
    (ascii : b < 0x80) (rest : Text) :
    glyph? quote (b :: rest) = some (.codePoint b.toNat,rest) := by
  rw [glyph?,if_neg unquoted,if_neg unescaped,decode?_ascii ascii]
  rfl

theorem glyph?_hex {b high low : UInt8} (tens : Byte.digitValue? high = some (b.toNat / 16))
    (ones : Byte.digitValue? low = some (b.toNat % 16)) (rest : Text) :
    glyph? Byte.quote (Byte.backslash :: 0x78 :: high :: low :: rest) = some (.byte b,rest) := by
  have small := b.toNat_lt
  have digits : fixedDigits 16 2 0 (high :: low :: rest) = some (b.toNat,rest) := by
    simp only [fixedDigits,tens,ones]
    rw [if_pos (by omega),if_pos (by omega)]
    congr 2
    omega
  have read : glyph? Byte.quote (Byte.backslash :: 0x78 :: high :: low :: rest) =
      fixedDigits 16 2 0 (high :: low :: rest) >>= byteGlyph 255 := rfl
  rw [read,digits]
  change (if b.toNat ≤ 255 then some (Glyph.byte b.toNat.toUInt8,rest) else none) = _
  rw [if_pos (by omega),Nat.toUInt8_eq,UInt8.ofNat_toNat]

def isPrintable (b : UInt8) : Bool := 0x20 ≤ b && b ≤ 0x7E

theorem printable_ascii {b : UInt8} (printable : isPrintable b = true) : b < 0x80 := by
  simp only [isPrintable,Bool.and_eq_true,decide_eq_true_eq,UInt8.le_iff_toNat_le,
    UInt8.lt_iff_toNat_lt,UInt8.reduceToNat] at printable ⊢
  omega

/-- How bytes are written in a string: a printable one as itself, and any by two digits. -/
inductive Spelled : Text → Text → Prop
  | nil : Spelled [] []
  | itself {b : UInt8} {bytes body : Text} (printable : isPrintable b = true)
      (unquoted : b ≠ Byte.quote) (unescaped : b ≠ Byte.backslash) (later : Spelled bytes body) :
      Spelled (b :: bytes) (b :: body)
  | hex {b high low : UInt8} {bytes body : Text}
      (tens : Byte.digitValue? high = some (b.toNat / 16))
      (ones : Byte.digitValue? low = some (b.toNat % 16)) (later : Spelled bytes body) :
      Spelled (b :: bytes) (Byte.backslash :: 0x78 :: high :: low :: body)

theorem digit_shown {b : UInt8} {value : Nat} (digit : Byte.digitValue? b = some value) :
    b ≠ Byte.quote ∧ b ≠ Byte.backslash := by
  constructor
  · rintro rfl
    cases digit
  · rintro rfl
    cases digit

theorem body_spelled {bytes body : Text} (spelled : Spelled bytes body) : Body body := by
  induction spelled with
  | nil => exact .nil
  | itself printable unquoted unescaped later ih => exact .byte unquoted unescaped ih
  | hex tens ones later ih =>
    exact .escape 0x78 (.byte (digit_shown tens).1 (digit_shown tens).2
      (.byte (digit_shown ones).1 (digit_shown ones).2 ih))

theorem unquoteFrom_spelled {bytes body : Text} (spelled : Spelled bytes body) {fuel : Nat}
    (enough : body.length ≤ fuel) (done : Text) :
    unquoteFrom Byte.quote fuel done body = some (done.reverse ++ bytes) := by
  induction spelled generalizing fuel done with
  | nil => simp [unquoteFrom]
  | @itself b bytes body printable unquoted unescaped later ih =>
    cases fuel with
    | zero => cases enough
    | succ fuel =>
      have ascii := printable_ascii printable
      rw [unquoteFrom,glyph?_ascii unquoted unescaped ascii]
      simp only [Glyph.bytes,encode_ascii ascii]
      rw [ih (Nat.le_of_succ_le_succ enough)]
      simp
  | @hex b high low bytes body tens ones later ih =>
    cases fuel with
    | zero => cases enough
    | succ fuel =>
      have fewer : body.length ≤ fuel := by
        simp only [List.length_cons] at enough
        omega
      rw [unquoteFrom,glyph?_hex tens ones]
      simp only [Glyph.bytes]
      rw [ih fewer]
      simp

theorem unquote?_spelled {bytes body : Text} (spelled : Spelled bytes body) :
    unquote? Byte.quote body = some bytes :=
  unquoteFrom_spelled spelled (Nat.le_refl _) []

/-- The bytes as a string has them, each as itself if it can be. -/
def spell (bytes : Text) : Text :=
  bytes.flatMap fun b =>
    if isPrintable b && b != Byte.quote && b != Byte.backslash then [b]
    else [Byte.backslash,0x78,digitByte (b.toNat / 16),digitByte (b.toNat % 16)]

theorem spelled_spell (bytes : Text) : Spelled bytes (spell bytes) := by
  induction bytes with
  | nil => exact .nil
  | cons b bytes ih =>
    have small := b.toNat_lt
    rw [spell,List.flatMap_cons]
    split
    · next shown =>
      simp only [Bool.and_eq_true,bne_iff_ne] at shown
      exact .itself shown.1.1 shown.1.2 shown.2 ih
    · exact .hex (digitValue?_digitByte (by omega)) (digitValue?_digitByte (by omega)) ih

end spelling

end WordMachine.Text
