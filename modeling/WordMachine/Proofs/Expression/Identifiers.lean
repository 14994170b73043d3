import WordMachine.Expression.Evaluate

/-! An expression that is one identifier. It is read as a name, unless it is reserved, and
its value is what the symbols of a program bind to it. -/
namespace WordMachine.Expression

/-- Letters, digits and underscores, the first no digit. -/
def isIdentifier : Text → Bool
  | [] => false
  | b :: rest => (Byte.isLetter b || b = Byte.underscore) && rest.all isNameByte

theorem not_digit_of_begins {b : UInt8}
    (begins : (Byte.isLetter b || b = Byte.underscore) = true) : Byte.isDigit b = false := by
  apply Bool.eq_false_iff.mpr
  intro digit
  simp only [Byte.isLetter,Byte.isDigit,Byte.underscore,Bool.or_eq_true,Bool.and_eq_true,
    decide_eq_true_eq,UInt8.le_iff_toNat_le,← UInt8.toNat_inj,UInt8.reduceToNat] at begins digit
  omega

section identifier

variable {name : Text} (identifier : isIdentifier name = true)
include identifier

theorem identifier_shape : ∃ b rest, name = b :: rest ∧
    (Byte.isLetter b || b = Byte.underscore) = true ∧ ∀ c ∈ name, isNameByte c = true := by
  cases name with
  | nil => cases identifier
  | cons b rest =>
    obtain ⟨first,later⟩ := Bool.and_eq_true_iff.mp identifier
    refine ⟨b,rest,rfl,first,List.forall_mem_cons.mpr ⟨?_,List.all_eq_true.mp later⟩⟩
    unfold isNameByte
    simp only [Bool.or_eq_true] at first ⊢
    rcases first with letter | underscore
    · exact .inl (.inl letter)
    · exact .inr underscore

/-- An identifier is one token where no byte of a name follows it. -/
theorem token?_identifier {rest : Text} (ends : ∀ b ∈ rest.head?, isNameByte b = false) :
    token? (name ++ rest) = (nameToken? name).map fun token => (token, rest) := by
  obtain ⟨b,tail,rfl,first,bytes⟩ := identifier_shape identifier
  have whole : (b :: tail ++ rest).takeWhile isNameByte = b :: tail := by
    rw [List.takeWhile_append_of_pos bytes]
    cases rest with
    | nil => exact List.append_nil _
    | cons c rest => rw [List.takeWhile_cons_of_neg (by simp [ends c rfl]),List.append_nil]
  rw [List.cons_append] at whole ⊢
  rw [token?,if_neg (by simp [not_digit_of_begins first]),if_pos first,whole,← List.cons_append]
  dsimp only
  rw [List.drop_left]
  cases nameToken? (b :: tail) with
  | none => rfl
  | some token => rfl

end identifier

/-- What the bytes of a name can be read as: a name, or a word that is reserved. -/
theorem nameToken?_cases (name : Text) :
    nameToken? name = some (.name name) ∨ nameToken? name = none ∨
      ∃ symbol ∈ [Symbol.and, .or, .not, .if, .else], nameToken? name = some (.symbol symbol) := by
  unfold nameToken?
  cases found : reserved.find? (·.1 == name) with
  | none => exact .inl rfl
  | some entry =>
    have listed := List.mem_of_find?_eq_some found
    have signs : ∀ entry ∈ reserved, ∀ symbol ∈ entry.2,
        symbol ∈ [Symbol.and, .or, .not, .if, .else] := by decide +kernel
    obtain ⟨word,sign⟩ := entry
    cases sign with
    | none => exact .inr (.inl rfl)
    | some symbol => exact .inr (.inr ⟨symbol,signs _ listed symbol rfl,rfl⟩)

theorem tokensFrom_token {b : UInt8}
    (begins : (Byte.isLetter b || b = Byte.underscore || b = Byte.equals) = true) (fuel : Nat)
    (done : List Token) (rest : Text) :
    tokensFrom (fuel + 1) done (b :: rest) =
      (token? (b :: rest)).bind fun read => tokensFrom fuel (read.1 :: done) read.2 := by
  have others : b ≠ Byte.space ∧ b ≠ Byte.tab ∧ b ≠ Byte.hash ∧ b ≠ 0 ∧ b ≠ Byte.backslash ∧
      b ≠ Byte.carriageReturn := by
    refine ⟨?_,?_,?_,?_,?_,?_⟩ <;> (rintro rfl; revert begins; decide)
  simp only [tokensFrom,others,decide_false,Bool.or_self,Bool.false_and,Bool.false_eq_true,if_false]
  cases token? (b :: rest) with
  | none => rfl
  | some read => rfl

theorem token?_assign {b : UInt8} (other : b ≠ Byte.equals) (rest : Text) :
    token? (Byte.equals :: b :: rest) = some (.symbol .assign, b :: rest) := by
  have unmatched : ∀ entry ∈ symbols.take 21, entry.1.isPrefixOf (Byte.equals :: b :: rest) = false := by
    -- the symbols before it begin otherwise, but for the comparison of two equals signs
    have signs : ∀ entry ∈ symbols.take 21, entry.1.head? ≠ some Byte.equals ∧ entry.1 ≠ [] ∨
        entry.1 = [Byte.equals, Byte.equals] := by decide +kernel
    intro entry listed
    rcases signs entry listed with ⟨differs,given⟩ | doubled
    · obtain ⟨c,sign,same⟩ := List.exists_cons_of_ne_nil given
      have first : c ≠ Byte.equals := by
        rintro rfl
        rw [same] at differs
        exact differs rfl
      simp [same,List.isPrefixOf,first]
    · simp [doubled,List.isPrefixOf,Ne.symm other]
  have matched : symbols.find? (fun entry => entry.1.isPrefixOf (Byte.equals :: b :: rest)) =
      some (("=" : Text), .assign) := by
    have split : symbols = symbols.take 21 ++ (("=" : Text), .assign) :: symbols.drop 22 := by
      decide +kernel
    rw [split,List.find?_append,List.find?_eq_none.mpr fun entry listed => by
      rw [unmatched entry listed]; exact Bool.false_ne_true]
    rfl
  change symbolToken? (Byte.equals :: b :: rest) = _
  rw [symbolToken?,matched]
  rfl

theorem integer_of_ofValue? {result : Option Value} {value : Int}
    (integer : Result.ofValue? result = .integer value) : result = some (.integer value) := by
  cases result with
  | none => cases integer
  | some found =>
    cases found with
    | integer number =>
      change (if _ ∧ _ then _ else _) = Result.integer value at integer
      split at integer
      · cases integer
        rfl
      · cases integer
    | nothing | boolean _ | decimal _ | text _ | tuple _ | function _ | other _ => cases integer

/-- No builtin is an integer. -/
theorem symbol_of_meaning? {symbols : Text → Option Int} {name : Text} {value : Int}
    (meant : meaning? symbols name = some (.integer value)) : symbols name = some value := by
  unfold meaning? at meant
  split at meant
  · next bound =>
    cases meant
    exact bound
  · exfalso
    unfold builtin? at meant
    repeat' split at meant
    all_goals cases meant

section identifier

variable {name : Text} (identifier : isIdentifier name = true)
include identifier

theorem tokens?_assigned :
    tokens? (resultName ++ [Byte.equals] ++ name) =
      (nameToken? name).map fun token => [.name resultName, .symbol .assign, token] := by
  obtain ⟨b,rest,rfl,first,-⟩ := identifier_shape identifier
  have other : b ≠ Byte.equals := by
    rintro rfl
    cases first
  have begins : (Byte.isLetter b || b = Byte.underscore || b = Byte.equals) = true := by
    rw [first]
    rfl
  have result : token? (resultName ++ Byte.equals :: b :: rest) =
      some (.name resultName, Byte.equals :: b :: rest) := by
    apply token?_identifier (by decide +kernel)
    rintro c same
    cases same
    decide
  have last := @token?_identifier (b :: rest) identifier [] (by simp)
  rw [List.append_nil] at last
  -- the fuel is the length of the text and one more, of which three tokens are taken
  change tokensFrom (rest.length + 1 + 1 + 2 + 1) [] (0x72 :: 0x63 :: Byte.equals :: b :: rest) = _
  rw [tokensFrom_token (by decide)]
  change (token? (resultName ++ Byte.equals :: b :: rest)).bind _ = _
  rw [result,Option.bind_some,tokensFrom_token (by decide),token?_assign other,Option.bind_some,
    tokensFrom_token begins,last]
  cases nameToken? (b :: rest) with
  | none => rfl
  | some token => rfl

/-- An identifier that is not reserved is read as its name, and any other is refused. -/
theorem read?_identifier : read? name = some (.assignment (.name name)) ∨ read? name = none := by
  unfold read?
  rw [tokens?_assigned identifier]
  rcases nameToken?_cases name with named | refused | ⟨symbol,listed,reserved⟩
  · rw [named]
    exact .inl rfl
  · rw [refused]
    exact .inr rfl
  · rw [reserved]
    simp only [List.mem_cons,List.not_mem_nil,or_false] at listed
    rcases listed with rfl | rfl | rfl | rfl | rfl <;> exact .inr rfl

/-- If the value of an identifier is an integer, it is the one that is bound to it. -/
theorem evaluate_identifier {symbols : Text → Option Int} {value : Int}
    (evaluated : evaluate symbols name = .integer value) : symbols name = some value := by
  unfold evaluate at evaluated
  rcases read?_identifier identifier with read | refused
  · rw [read] at evaluated
    dsimp only at evaluated
    split at evaluated
    · have meant : (if name = resultName then none else meaning? symbols name) =
          some (.integer value) := integer_of_ofValue? evaluated
      by_cases result : name = resultName
      · rw [if_pos result] at meant
        cases meant
      · rw [if_neg result] at meant
        exact symbol_of_meaning? meant
    · cases evaluated
  · rw [refused] at evaluated
    cases evaluated

end identifier

/-- An identifier stands for what is bound to it: it gives no integer but that one. -/
def GivesBindings (evaluate : Evaluator) : Prop :=
  ∀ (symbols : Text → Option Int) (name : Text) (value : Int), isIdentifier name = true →
    evaluate symbols name = .integer value → symbols name = some value

theorem evaluate_givesBindings : GivesBindings evaluate :=
  fun _ _ _ identifier evaluated => evaluate_identifier identifier evaluated

end WordMachine.Expression
