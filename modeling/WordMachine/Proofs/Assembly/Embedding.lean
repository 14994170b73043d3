import WordMachine.Assembly.Embedded
import WordMachine.Proofs.Expression.Names
import WordMachine.Proofs.Text.Fields

/-! Expressions in lines. Evaluating them puts numerals in their places, so that all other
fields were in the line before, and the result depends on a state only through the
meaning of the names that the expressions mention. -/
namespace WordMachine

namespace Text

variable {matchLength : Text → Nat}

theorem join_piecesFrom (skip : Nat) (done : List Piece) (text : Text) :
    join (piecesFrom matchLength skip done text) = join done.reverse ++ text.drop skip := by
  induction text generalizing skip done with
  | nil => simp [piecesFrom,join]
  | cons b rest ih =>
    cases skip with
    | succ skip => exact ih skip done
    | zero =>
      rw [piecesFrom]
      cases length : matchLength (b :: rest) with
      | zero =>
        simp only
        rw [ih]
        simp [join,Piece.text]
      | succ skip =>
        simp only
        rw [ih]
        simp [join,Piece.text]

theorem join_pieces (text : Text) : join (pieces matchLength text) = text := join_piecesFrom 0 [] text

theorem mem_piecesFrom {skip : Nat} {done : List Piece} {text : Text} {piece : Piece}
    (member : piece ∈ piecesFrom matchLength skip done text) :
    piece ∈ done ∨ (∃ b, piece = .plain b) ∨
      ∃ tail skip, matchLength tail = skip + 1 ∧ piece = .found (tail.take (skip + 1)) := by
  induction text generalizing skip done with
  | nil => exact .inl (List.mem_reverse.mp member)
  | cons b rest ih =>
    cases skip with
    | succ skip => exact ih member
    | zero =>
      rw [piecesFrom] at member
      cases length : matchLength (b :: rest) with
      | zero =>
        rw [length] at member
        rcases ih member with earlier | others
        · rcases List.mem_cons.mp earlier with rfl | earlier
          · exact .inr (.inl ⟨b,rfl⟩)
          · exact .inl earlier
        · exact .inr others
      | succ skip =>
        rw [length] at member
        rcases ih member with earlier | others
        · rcases List.mem_cons.mp earlier with rfl | earlier
          · exact .inr (.inr ⟨b :: rest,skip,length,rfl⟩)
          · exact .inl earlier
        · exact .inr others

theorem found_mem_pieces {text found : Text} (member : .found found ∈ pieces matchLength text) :
    ∃ tail skip, matchLength tail = skip + 1 ∧ found = tail.take (skip + 1) := by
  rcases mem_piecesFrom member with earlier | ⟨b,plain⟩ | ⟨tail,skip,length,same⟩
  · cases earlier
  · cases plain
  · cases same
    exact ⟨tail,skip,length,rfl⟩

end Text

namespace Assembly

theorem lastClose_close {text : Text} {index : Nat} (last : lastClose text = some index) :
    text[index]? = some Byte.parenClose := by
  unfold lastClose at last
  obtain ⟨⟨b,place⟩,found,rfl⟩ := Option.map_eq_some_iff.mp last
  have member := List.mem_of_getLast? found
  rw [List.mem_filter,List.mem_zipIdx_iff_getElem?] at member
  rw [member.1]
  simpa using member.2

/-- What stands where an embedded expression is found. -/
theorem embedded_shape {text : Text} {skip : Nat} (length : embeddedLength text = skip + 1) :
    ∃ middle, text.take (skip + 1) = Byte.dollar :: (middle ++ [Byte.parenClose]) := by
  rcases text with _ | ⟨dollar,_ | ⟨paren,rest⟩⟩
  · cases length
  · cases length
  · rw [embeddedLength] at length
    split at length
    · next marks =>
      simp only [Bool.and_eq_true,decide_eq_true_eq] at marks
      cases last : lastClose (rest.takeWhile (· != Byte.dollar)) with
      | none => rw [last] at length; cases length
      | some index =>
        rw [last] at length
        simp only at length
        have closes : rest[index]? = some Byte.parenClose := by
          have inside := lastClose_close last
          obtain ⟨bound,-⟩ := List.getElem?_eq_some_iff.mp inside
          have whole : rest.takeWhile (· != Byte.dollar) ++ rest.dropWhile (· != Byte.dollar) = rest :=
            List.takeWhile_append_dropWhile
          rw [← whole,List.getElem?_append_left bound]
          exact inside
        have width : skip = index + 2 := by omega
        subst width
        refine ⟨paren :: rest.take index,?_⟩
        rw [List.take_succ_cons,List.take_succ_cons,List.take_add_one,closes,marks.1]
        rfl
    · cases length

theorem pieces_enclosed (text : Text) : ∀ piece ∈ Text.pieces embeddedLength text, Text.Enclosed piece := by
  rintro piece member found rfl
  obtain ⟨tail,skip,length,rfl⟩ := Text.found_mem_pieces member
  exact embedded_shape length

theorem joinPieces_replaced {evaluate : Expression.Evaluator} {symbols : Text → Option Int}
    {done result : Text} {failure : Option Error} {pieces : List Text.Piece}
    (joined : joinPieces done failure (pieces.map (pieceText evaluate symbols)) = .ok result) :
    failure = none ∧ ∃ text, result = done.reverse ++ text ∧ Text.Replaced pieces text := by
  induction pieces generalizing done failure with
  | nil =>
    cases failure with
    | none =>
      cases joined
      exact ⟨rfl,[],by simp,.nil⟩
    | some error => cases joined
  | cons piece rest ih =>
    rw [List.map_cons] at joined
    cases piece with
    | plain b =>
      obtain ⟨sound,text,same,replaced⟩ := ih joined
      exact ⟨sound,b :: text,by simp [same],.plain b replaced⟩
    | found found =>
      rw [pieceText] at joined
      cases value : evaluateEmbedded evaluate symbols (embeddedText found) with
      | error error =>
        rw [value] at joined
        obtain ⟨sound,-⟩ := ih joined
        cases sound
      | ok number =>
        rw [value] at joined
        obtain ⟨sound,text,same,replaced⟩ := ih joined
        refine ⟨sound,Text.ofInt number ++ text,by simp [same],?_⟩
        exact .numeral found _ (Text.ofInt_given number) (Text.ofInt_numeric number) replaced

theorem expandEmbedded_fields {evaluate : Expression.Evaluator} {state : State}
    {text expanded : Text} (ok : expandEmbedded evaluate state text = .ok expanded) :
    Text.FieldsMatch (Text.fields expanded) (Text.fields text) := by
  obtain ⟨-,result,same,replaced⟩ := joinPieces_replaced ok
  have matched := Text.fields_replaced replaced (pieces_enclosed text)
  rw [Text.join_pieces] at matched
  rw [same]
  exact matched

/-- The names that the expressions in a line mention, where those of one are given. -/
def mentioned (mentions : Text → List Text) (text : Text) : List Text :=
  (Text.pieces embeddedLength text).flatMap fun piece =>
    match piece with
    | .plain _ => []
    | .found found => mentions (embeddedText found)

theorem expandEmbedded_congr {evaluate : Expression.Evaluator} {mentions : Text → List Text}
    (determined : Expression.DeterminedBy mentions evaluate) {state other : State} {text : Text}
    (same : ∀ name ∈ mentioned mentions text, symbolValue? state name = symbolValue? other name) :
    expandEmbedded evaluate state text = expandEmbedded evaluate other text := by
  unfold expandEmbedded
  congr 1
  apply List.map_congr_left
  intro piece member
  cases piece with
  | plain b => rfl
  | found found =>
    have evaluated := determined (embeddedText found) (symbolValue? state) (symbolValue? other)
      fun name inside => same name (List.mem_flatMap.mpr ⟨.found found,member,inside⟩)
    rw [pieceText,pieceText,evaluateEmbedded,evaluateEmbedded,evaluated]

end Assembly
end WordMachine
