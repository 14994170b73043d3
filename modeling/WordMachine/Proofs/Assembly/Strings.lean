import WordMachine.Proofs.Assembly.PlainLine
import WordMachine.Proofs.Text.Quotation

/-! The literals of a line. Strings are replaced by codes where the grammar has them, and a
line is refused for its strings exactly if one of them is wrong; characters are replaced in
what that leaves. -/
namespace WordMachine.Assembly

open Text (Misquoted Spelled)

theorem isBadString_quoted (body : Text) :
    isBadString (.found (Text.quoted body)) = true ↔ Text.unquote? Byte.quote body = none := by
  simp [isBadString,stringLiteral?,Text.inner_quoted]

theorem misquoted_iff (text : Text) :
    (Text.pieces Text.stringLength text).any isBadString = true ↔ Misquoted text := by
  constructor
  · intro wrong
    -- A literal is passed as a whole, so the induction is on the length.
    induction length : text.length using Nat.strongRecOn generalizing text with
    | ind n ih =>
      cases text with
      | nil => cases wrong
      | cons b rest =>
        have unmatched : Text.stringLength (b :: rest) = 0 → Misquoted rest := by
          intro unmatched
          rw [Text.pieces_byte unmatched,List.any_cons] at wrong
          exact ih rest.length (by rw [← length]; exact Nat.lt_succ_self _) rest wrong rfl
        by_cases quote : b = Byte.quote
        · subst quote
          rw [Text.stringLength,if_pos rfl] at unmatched
          by_cases closed : Text.stringLengthFrom 1 rest = 0
          -- A quote that nothing closes is passed as a byte, but then no string follows it.
          · exact absurd closed (Text.misquoted_closes (unmatched closed) 1).1
          · obtain ⟨body,after,shaped,rfl⟩ := Text.body_of_closed closed
            rw [← Text.quoted_append] at wrong length ⊢
            rw [Text.pieces_quoted shaped,List.any_cons,Bool.or_eq_true,isBadString_quoted] at wrong
            rcases wrong with here | later
            · exact .here shaped here after
            · refine .after shaped (ih after.length ?_ after later rfl)
              rw [← length,List.length_append,Text.quoted,List.length_cons]
              omega
        · exact .byte quote (unmatched (by rw [Text.stringLength,if_neg quote]))
  · intro wrong
    induction wrong with
    | byte unquoted later ih =>
      rw [Text.pieces_byte (by rw [Text.stringLength,if_neg unquoted]),List.any_cons,ih,Bool.or_true]
    | after shaped later ih => rw [Text.pieces_quoted shaped,List.any_cons,ih,Bool.or_true]
    | here shaped wrong rest =>
      rw [Text.pieces_quoted shaped,List.any_cons,(isBadString_quoted _).mpr wrong,Bool.true_or]

instance (text : Text) : Decidable (Misquoted text) := decidable_of_iff _ (misquoted_iff text)

def coded (text : Text) : Text := expandStrings (Text.pieces Text.stringLength text)

def recoded (text : Text) : Text :=
  Text.replaceMatches Text.characterLength characterLiteral text

theorem expandLiterals_eq (line : Text) :
    expandLiterals line =
      if Misquoted line then .error (coded line)
      else .ok (Text.trim (Text.before Byte.semicolon (recoded (coded line)))) := by
  unfold expandLiterals
  simp only [misquoted_iff]
  rfl

theorem misquoted_unescaped {text : Text} (unescaped : Byte.backslash ∉ text) : ¬ Misquoted text := by
  intro wrong
  obtain ⟨before,body,after,rfl,escaped⟩ := Text.misquoted_escapes wrong
  simp [Text.quoted,escaped] at unescaped

section unquoted

variable {front : Text} (unquoted : Byte.quote ∉ front) (rest : Text)
include unquoted

theorem misquoted_append : Misquoted (front ++ rest) ↔ Misquoted rest := by
  rw [← misquoted_iff,Text.pieces_append (unquoted_absent unquoted),List.any_append,any_plain,
    Bool.false_or,misquoted_iff]

theorem coded_append : coded (front ++ rest) = front ++ coded rest := by
  unfold coded expandStrings
  rw [Text.pieces_append (unquoted_absent unquoted),List.flatMap_append,Text.expand_plain]

end unquoted

theorem recoded_append {front : Text} (unmarked : Byte.apostrophe ∉ front) (rest : Text) :
    recoded (front ++ rest) = front ++ recoded rest :=
  Text.replaceMatches_append (unmarked_absent unmarked) characterLiteral rest

theorem recoded_absent {text : Text} (unmarked : Byte.apostrophe ∉ text) : recoded text = text := by
  have whole := recoded_append unmarked []
  rw [List.append_nil] at whole
  rw [whole]
  exact List.append_nil text

/-- One quote alone begins no string. -/
theorem coded_few {text : Text} (few : text.count Byte.quote ≤ 1) : coded text = text := by
  induction text with
  | nil => rfl
  | cons b rest ih =>
    rw [List.count_cons] at few
    have unmatched : Text.stringLength (b :: rest) = 0 := by
      rw [Text.stringLength]
      split
      · next quote =>
        rw [if_pos (beq_iff_eq.mpr quote)] at few
        apply Classical.byContradiction
        intro closed
        obtain ⟨body,after,-,rfl⟩ := Text.body_of_closed closed
        have absent : Byte.quote ∉ body ++ Byte.quote :: after := List.count_eq_zero.mp (by omega)
        simp at absent
      · rfl
    have later := ih (by omega)
    unfold coded expandStrings at later ⊢
    rw [Text.pieces_byte unmatched,List.flatMap_cons,later]
    rfl

def codes (bytes : Text) : List Text := bytes.map fun b => Text.ofNat b.toNat

theorem plainWord_codes (bytes : Text) : ∀ field ∈ codes bytes, PlainWord field := by
  intro field member
  obtain ⟨b,-,rfl⟩ := List.mem_map.mp member
  exact plainWord_ofNat b.toNat

section spelled

variable {bytes body : Text} (spelled : Spelled bytes body) (rest : Text)
include spelled

theorem misquoted_spelled : Misquoted (Text.quoted body ++ rest) ↔ Misquoted rest := by
  have right : isBadString (.found (Text.quoted body)) = false := by
    rw [← Bool.not_eq_true,isBadString_quoted,Text.unquote?_spelled spelled]
    exact Option.some_ne_none bytes
  rw [← misquoted_iff,Text.pieces_quoted (Text.body_spelled spelled),List.any_cons,right,
    Bool.false_or,misquoted_iff]

theorem coded_spelled : coded (Text.quoted body ++ rest) = spaced (codes bytes) ++ coded rest := by
  have literal : stringLiteral? (Text.quoted body) = some (spaced (codes bytes)) := by
    rw [stringLiteral?,Text.inner_quoted,Text.unquote?_spelled spelled]
    rfl
  unfold coded expandStrings
  rw [Text.pieces_quoted (Text.body_spelled spelled),List.flatMap_cons,Text.Piece.expand,literal]
  rfl

end spelled

end WordMachine.Assembly
