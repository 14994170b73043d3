import WordMachine.Text.Pieces

/-! The pieces of a text one after another. Where nothing matches they are the bytes of the
text, and behind a match they are the pieces of what follows it. -/
namespace WordMachine.Text

variable {matchLength : Text → Nat}

theorem piecesFrom_eq (skip : Nat) (done : List Piece) (text : Text) :
    piecesFrom matchLength skip done text =
      done.reverse ++ pieces matchLength (text.drop skip) := by
  induction text generalizing skip done with
  | nil => simp [pieces,piecesFrom]
  | cons b rest ih =>
    cases skip with
    | succ skip => exact ih skip done
    | zero =>
      rw [List.drop_zero,pieces,piecesFrom,piecesFrom]
      cases matchLength (b :: rest) with
      | zero =>
        simp only
        rw [ih,ih 0 [.plain b]]
        simp
      | succ skip =>
        simp only
        rw [ih,ih skip [_]]
        simp

theorem pieces_byte {b : UInt8} {rest : Text} (unmatched : matchLength (b :: rest) = 0) :
    pieces matchLength (b :: rest) = .plain b :: pieces matchLength rest := by
  rw [pieces,piecesFrom,unmatched]
  exact piecesFrom_eq 0 [.plain b] rest

theorem pieces_match {found rest : Text} (given : found ≠ [])
    (length : matchLength (found ++ rest) = found.length) :
    pieces matchLength (found ++ rest) = .found found :: pieces matchLength rest := by
  obtain ⟨b,found,rfl⟩ := List.exists_cons_of_ne_nil given
  rw [List.cons_append,List.length_cons] at length
  rw [List.cons_append,pieces,piecesFrom,length]
  simp only
  rw [piecesFrom_eq]
  simp

theorem pieces_append {text : Text} (unmatched : ∀ b ∈ text, ∀ rest, matchLength (b :: rest) = 0)
    (rest : Text) :
    pieces matchLength (text ++ rest) = text.map .plain ++ pieces matchLength rest := by
  induction text with
  | nil => rfl
  | cons b text ih =>
    rw [List.cons_append,pieces_byte (unmatched b List.mem_cons_self _),
      ih fun c member => unmatched c (List.mem_cons_of_mem b member)]
    rfl

theorem pieces_unmatched {text : Text} (unmatched : ∀ b ∈ text, ∀ rest, matchLength (b :: rest) = 0) :
    pieces matchLength text = text.map .plain := by
  have alone := pieces_append unmatched []
  rw [List.append_nil] at alone
  rw [alone]
  exact List.append_nil _

theorem expand_plain (render : Text → Text) (text : Text) :
    (text.map Piece.plain).flatMap (Piece.expand render) = text := by
  induction text with
  | nil => rfl
  | cons b rest ih =>
    rw [List.map_cons,List.flatMap_cons,ih]
    rfl

theorem replaceMatches_byte {b : UInt8} {rest : Text} (unmatched : matchLength (b :: rest) = 0)
    (render : Text → Text) :
    replaceMatches matchLength render (b :: rest) = b :: replaceMatches matchLength render rest := by
  unfold replaceMatches
  rw [pieces_byte unmatched]
  rfl

theorem replaceMatches_append {text : Text}
    (unmatched : ∀ b ∈ text, ∀ rest, matchLength (b :: rest) = 0) (render : Text → Text) (rest : Text) :
    replaceMatches matchLength render (text ++ rest) =
      text ++ replaceMatches matchLength render rest := by
  unfold replaceMatches
  rw [pieces_append unmatched,List.flatMap_append,expand_plain]

theorem replaceMatches_match {found rest : Text} (given : found ≠ [])
    (length : matchLength (found ++ rest) = found.length) (render : Text → Text) :
    replaceMatches matchLength render (found ++ rest) =
      render found ++ replaceMatches matchLength render rest := by
  unfold replaceMatches
  rw [pieces_match given length]
  rfl

end WordMachine.Text
