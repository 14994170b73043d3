import WordMachine.Proofs.Assembly.DataLine

/-! Characters in a data directive. Strings are expanded before characters, so that two
quotes that are written as characters make a string of what stands between them. -/
namespace WordMachine.Assembly

open Text (Spelled)

/-- A character that stands for itself between apostrophes. -/
structure Character (c : UInt8) : Prop where
  printable : Text.isPrintable c = true
  unmarked : c ≠ Byte.apostrophe
  unescaped : c ≠ Byte.backslash

instance (c : UInt8) : Decidable (Character c) :=
  decidable_of_iff (Text.isPrintable c = true ∧ c ≠ Byte.apostrophe ∧ c ≠ Byte.backslash)
    ⟨fun shown => ⟨shown.1,shown.2.1,shown.2.2⟩,
      fun character => ⟨character.printable,character.unmarked,character.unescaped⟩⟩

/-- Characters between apostrophes, with a space before each. -/
def marked (characters : Text) : Text :=
  characters.flatMap fun c => [Byte.space,Byte.apostrophe,c,Byte.apostrophe]

def characterLine (characters : Text) : Text := (".data" : Text) ++ marked characters

section marked

theorem marked_append (first second : Text) : marked (first ++ second) = marked first ++ marked second :=
  List.flatMap_append

theorem length_marked (characters : Text) : (marked characters).length = 4 * characters.length := by
  induction characters with
  | nil => rfl
  | cons c rest ih =>
    rw [marked,List.flatMap_cons,List.length_append,← marked,ih]
    change 4 + 4 * rest.length = 4 * (rest.length + 1)
    omega

theorem marked_absent {b : UInt8} {characters : Text} (between : b ≠ Byte.space)
    (other : b ≠ Byte.apostrophe) (absent : b ∉ characters) : b ∉ marked characters := by
  intro member
  obtain ⟨c,inside,found⟩ := List.mem_flatMap.mp member
  simp only [List.mem_cons,List.not_mem_nil,or_false,between,other,false_or] at found
  exact absent (found ▸ inside)

theorem count_marked (characters : Text) :
    (marked characters).count Byte.quote = characters.count Byte.quote := by
  induction characters with
  | nil => rfl
  | cons c rest ih =>
    rw [marked,List.flatMap_cons,List.count_append,← marked,ih,List.count_cons,Nat.add_comm]
    simp [List.count_cons,Byte.space,Byte.apostrophe,Byte.quote]

end marked

section character

variable {c : UInt8} (character : Character c)
include character

theorem characterLength_character (rest : Text) :
    Text.characterLength (Byte.apostrophe :: c :: Byte.apostrophe :: rest) = 3 := by
  have width : Text.headWidth (c :: Byte.apostrophe :: rest) = 1 := by
    rw [Text.headWidth,Text.decode?_ascii (Text.printable_ascii character.printable)]
    rfl
  simp only [Text.characterLength,if_true,if_neg character.unmarked,if_neg character.unescaped,width]
  rfl

theorem characterLiteral_character :
    characterLiteral [Byte.apostrophe,c,Byte.apostrophe] = Text.ofNat c.toNat := by
  have small : c.toNat ≤ Word.max.toNat := by
    have byte := c.toNat_lt
    change c.toNat ≤ 32767
    omega
  have inner : Text.inner [Byte.apostrophe,c,Byte.apostrophe] = [c] := rfl
  rw [characterLiteral,inner,Text.glyph?_ascii character.unmarked character.unescaped
    (Text.printable_ascii character.printable)]
  exact if_pos small

theorem recoded_character (rest : Text) :
    recoded (Byte.apostrophe :: c :: Byte.apostrophe :: rest) =
      Text.ofNat c.toNat ++ recoded rest := by
  have replaced := Text.replaceMatches_match (List.cons_ne_nil Byte.apostrophe [c,Byte.apostrophe])
    (characterLength_character character rest) characterLiteral
  rw [characterLiteral_character character] at replaced
  exact replaced

end character

theorem recoded_marked {characters : Text} (shown : ∀ c ∈ characters, Character c) (rest : Text) :
    recoded (marked characters ++ rest) =
      ((codes characters).flatMap fun code => Byte.space :: code) ++ recoded rest := by
  induction characters with
  | nil => rfl
  | cons c characters ih =>
    have first := shown c List.mem_cons_self
    have later := ih fun other member => shown other (List.mem_cons_of_mem c member)
    have begins : marked (c :: characters) ++ rest = [Byte.space] ++
        (Byte.apostrophe :: c :: Byte.apostrophe :: (marked characters ++ rest)) := rfl
    rw [begins,recoded_append (by decide),recoded_character first,later]
    simp [codes]

theorem plainWord_data (bytes : Text) : ∀ word ∈ (".data" : Text) :: codes bytes, PlainWord word := by
  intro word member
  rcases List.mem_cons.mp member with rfl | code
  · exact plainWord_name (by decide)
  · exact plainWord_codes bytes word code

section line

theorem unescaped_marked {characters : Text} (shown : ∀ c ∈ characters, Character c) :
    Byte.backslash ∉ marked characters :=
  marked_absent (by decide) (by decide) fun member => (shown _ member).unescaped rfl

theorem characterLine_sound {characters : Text} (shown : ∀ c ∈ characters, Character c) :
    ¬ Text.Misquoted (characterLine characters) := by
  apply misquoted_unescaped
  rw [characterLine,List.mem_append,not_or]
  exact ⟨by decide,unescaped_marked shown⟩

theorem characterLine_unreturned {characters : Text} (shown : ∀ c ∈ characters, Character c) :
    Text.dropReturn (characterLine characters) = characterLine characters := by
  apply Text.dropReturn_absent
  rw [characterLine,List.mem_append,not_or]
  refine ⟨by decide,marked_absent (by decide) (by decide) fun member => ?_⟩
  exact absurd (shown _ member).printable (by decide)

/-- With one quote at most there is no string in the line. -/
theorem expandLiterals_few {characters : Text} (shown : ∀ c ∈ characters, Character c)
    (few : characters.count Byte.quote ≤ 1) :
    expandLiterals (characterLine characters) = .ok (spaced ((".data" : Text) :: codes characters)) := by
  have plain := plainWord_data characters
  have counted : (characterLine characters).count Byte.quote ≤ 1 := by
    rw [characterLine,List.count_append,count_marked,List.count_eq_zero.mpr (by decide),Nat.zero_add]
    exact few
  have replaced := recoded_marked shown []
  rw [List.append_nil,recoded_absent List.not_mem_nil,List.append_nil] at replaced
  rw [expandLiterals_eq,if_neg (characterLine_sound shown),coded_few counted,characterLine,
    recoded_append (by decide),replaced,← spaced_flatMap,
    Text.before_absent (spaced_absent plain (by decide) (by decide)),trim_spaced plain]

end line

section quotes

def between (characters : Text) : Text :=
  Byte.apostrophe :: (marked characters ++ [Byte.space,Byte.apostrophe])

theorem marked_quotes (characters rest : Text) :
    marked (Byte.quote :: (characters ++ Byte.quote :: rest)) =
      [Byte.space,Byte.apostrophe] ++
        (Text.quoted (between characters) ++ Byte.apostrophe :: marked rest) := by
  simp [marked,between,Text.quoted]

theorem spelled_itself {text : Text}
    (shown : ∀ b ∈ text, Text.isPrintable b = true ∧ b ≠ Byte.quote ∧ b ≠ Byte.backslash) :
    Spelled text text := by
  induction text with
  | nil => exact .nil
  | cons b rest ih =>
    obtain ⟨printable,unquoted,unescaped⟩ := shown b List.mem_cons_self
    exact .itself printable unquoted unescaped (ih fun c member => shown c (List.mem_cons_of_mem b member))

theorem spelled_between {characters : Text} (shown : ∀ c ∈ characters, Character c)
    (unquoted : Byte.quote ∉ characters) : Spelled (between characters) (between characters) := by
  apply spelled_itself
  intro b member
  by_cases inside : b ∈ characters
  · exact ⟨(shown b inside).printable,fun same => unquoted (same ▸ inside),(shown b inside).unescaped⟩
  · have fixed : b = Byte.space ∨ b = Byte.apostrophe := by
      apply Classical.byContradiction
      intro other
      rw [not_or] at other
      simp [between,other.1,other.2,marked_absent other.1 other.2 inside] at member
    rcases fixed with rfl | rfl
    · decide
    · decide

/-- A text without an embedded expression, also if a dollar sign stands before it. -/
structure Guarded (text : Text) : Prop where
  unembedded : ¬ [Byte.dollar,Byte.parenOpen] <:+: text
  unopened : text.head? ≠ some Byte.parenOpen

theorem unembedded_append {front rest : Text} (absent : Byte.dollar ∉ front)
    (unembedded : ¬ [Byte.dollar,Byte.parenOpen] <:+: rest) :
    ¬ [Byte.dollar,Byte.parenOpen] <:+: front ++ rest := by
  induction front with
  | nil => exact unembedded
  | cons b front ih =>
    rw [List.mem_cons,not_or] at absent
    rw [List.cons_append,List.infix_cons_iff,List.cons_prefix_cons,not_or]
    exact ⟨fun begins => absent.1 begins.1,ih absent.2⟩

theorem unembedded_cons {text : Text} (c : UInt8) (guarded : Guarded text) :
    ¬ [Byte.dollar,Byte.parenOpen] <:+: c :: text := by
  rw [List.infix_cons_iff,List.cons_prefix_cons,not_or]
  refine ⟨?_,guarded.unembedded⟩
  rintro ⟨-,rest,begins⟩
  rw [← begins] at guarded
  exact guarded.unopened rfl

/-- The space before a character is one itself if the apostrophe before it closes no
character. -/
theorem recoded_space (rest : Text) :
    recoded ([Byte.apostrophe,Byte.space,Byte.apostrophe] ++ rest) = ("32" : Text) ++ recoded rest :=
  recoded_character (by decide : Character Byte.space) rest

theorem guarded_space {text : Text} (unembedded : ¬ [Byte.dollar,Byte.parenOpen] <:+: text) :
    Guarded (("32" : Text) ++ text) where
  unembedded := unembedded_append (by decide) unembedded
  unopened := by
    change some 0x33 ≠ some Byte.parenOpen
    decide

theorem coded_alone {c : UInt8} {rest : Text} (unclosed : c = Byte.quote → Byte.quote ∉ rest) :
    coded (Byte.apostrophe :: marked (c :: rest)) =
      [Byte.apostrophe,Byte.space,Byte.apostrophe] ++
        ([c] ++ coded (Byte.apostrophe :: marked rest)) := by
  have begins : Byte.apostrophe :: marked (c :: rest) =
      [Byte.apostrophe,Byte.space,Byte.apostrophe] ++ ([c] ++ Byte.apostrophe :: marked rest) := rfl
  by_cases quote : c = Byte.quote
  · have counted : ∀ characters : Text,
        (Byte.apostrophe :: marked characters).count Byte.quote = characters.count Byte.quote := by
      intro characters
      rw [List.count_cons_of_ne (by decide),count_marked]
    have last := List.count_eq_zero.mpr (unclosed quote)
    have few : (Byte.apostrophe :: marked (c :: rest)).count Byte.quote ≤ 1 := by
      rw [counted,quote,List.count_cons_self,last]
    have few' : (Byte.apostrophe :: marked rest).count Byte.quote ≤ 1 := by
      rw [counted,last]
      exact Nat.zero_le 1
    rw [coded_few few,coded_few few',begins]
  · have unquoted : Byte.quote ∉ [c] := by
      rw [List.mem_singleton]
      exact Ne.symm quote
    rw [begins,coded_append (by decide),coded_append unquoted]

theorem recoded_alone {c : UInt8} {rest : Text} (character : Character c)
    (unclosed : c = Byte.quote → Byte.quote ∉ rest) :
    recoded (coded (Byte.apostrophe :: marked (c :: rest))) =
      ("32" : Text) ++ c :: recoded (coded (Byte.apostrophe :: marked rest)) := by
  have unmarked : Byte.apostrophe ∉ [c] := by
    rw [List.mem_singleton]
    exact character.unmarked.symm
  rw [coded_alone unclosed,recoded_space,recoded_append unmarked]
  rfl

theorem recoded_quotes {inside : Text} (shown : ∀ c ∈ inside, Character c)
    (unquoted : Byte.quote ∉ inside) (rest : Text) :
    recoded (coded (Byte.apostrophe :: marked (Byte.quote :: (inside ++ Byte.quote :: rest)))) =
      ("32" : Text) ++ (spaced (codes (between inside)) ++
        recoded (coded (Byte.apostrophe :: marked rest))) := by
  have unmarked : Byte.apostrophe ∉ spaced (codes (between inside)) :=
    spaced_absent (plainWord_codes _) (by decide) (by decide)
  have parted : Byte.apostrophe :: marked (Byte.quote :: (inside ++ Byte.quote :: rest)) =
      [Byte.apostrophe,Byte.space,Byte.apostrophe] ++
        (Text.quoted (between inside) ++ Byte.apostrophe :: marked rest) := by
    rw [marked_quotes]
    rfl
  rw [parted,coded_append (by decide),coded_spelled (spelled_between shown unquoted),recoded_space,
    recoded_append unmarked]

/-- Behind a string the apostrophes enclose the spaces and not the characters, so that
something stands between any two characters. -/
theorem guarded_behind {characters : Text} (shown : ∀ c ∈ characters, Character c) :
    Guarded (recoded (coded (Byte.apostrophe :: marked characters))) := by
  -- Each step passes one character, or all of them from a quote to the next one.
  induction length : characters.length using Nat.strongRecOn generalizing characters with
  | ind n ih =>
    cases characters with
    | nil => exact ⟨by decide,by decide⟩
    | cons c rest =>
      rw [List.length_cons] at length
      have later : ∀ other ∈ rest, Character other :=
        fun other member => shown other (List.mem_cons_of_mem c member)
      by_cases unclosed : c = Byte.quote → Byte.quote ∉ rest
      · rw [recoded_alone (shown c List.mem_cons_self) unclosed]
        exact guarded_space (unembedded_cons c (ih rest.length (by omega) later rfl))
      · obtain ⟨rfl,closed⟩ := Classical.not_imp.mp unclosed
        obtain ⟨inside,after,rfl,unquoted⟩ := List.eq_append_cons_of_mem (not_not.mp closed)
        rw [List.length_append,List.length_cons] at length
        have undollared : Byte.dollar ∉ spaced (codes (between inside)) :=
          spaced_absent (plainWord_codes _) (by decide) (by decide)
        rw [recoded_quotes (fun other member => later other (List.mem_append_left _ member)) unquoted]
        have behind := ih after.length (by omega)
          (fun other member => later other (List.mem_append_right _ (List.mem_cons_of_mem _ member))) rfl
        exact guarded_space (unembedded_append undollared behind.unembedded)

theorem between_begins (characters : Text) :
    ∃ rest, between characters = Byte.apostrophe :: Byte.space :: rest := by
  cases characters with
  | nil => exact ⟨_,rfl⟩
  | cons c rest => exact ⟨_,rfl⟩

/-- The apostrophe before a string and the first code of the string. -/
def strayMark : Text := "'39"

theorem recoded_stray (rest : Text) :
    recoded (Byte.apostrophe :: (("39" : Text) ++ rest)) = strayMark ++ recoded rest := by
  have unmatched : Text.characterLength (Byte.apostrophe :: (("39" : Text) ++ rest)) = 0 := rfl
  rw [recoded,Text.replaceMatches_byte unmatched]
  exact congrArg (Byte.apostrophe :: ·) (recoded_append (by decide) rest)

theorem spaced_stray (bytes : Text) :
    spaced ((".data" : Text) :: (codes bytes ++ [strayMark])) =
      spaced ((".data" : Text) :: codes bytes) ++ Byte.space :: strayMark := by
  rw [spaced_flatMap,spaced_flatMap,List.flatMap_append,List.append_assoc]
  rfl

theorem visible_stray (bytes : Text) :
    ∀ word ∈ (".data" : Text) :: (codes bytes ++ [strayMark]), Text.Visible word := by
  intro word member
  rw [← List.cons_append] at member
  rcases List.mem_append.mp member with plain | stray
  · exact visible_plain (plainWord_data bytes word plain)
  · have ascii : strayMark.all (fun b => decide (0x20 < b ∧ b < 0x80)) = true := by decide
    rw [List.mem_singleton.mp stray]
    refine ⟨by decide,fun b inside => ?_⟩
    obtain ⟨low,high⟩ := of_decide_eq_true (List.all_eq_true.mp ascii b inside)
    exact Text.blankWidth_ascii low high

theorem stray_absent {b : UInt8} (bytes : Text) (other : isPlainByte b = false)
    (visible : b ≠ Byte.space) (different : b ∉ strayMark) :
    b ∉ spaced ((".data" : Text) :: (codes bytes ++ [strayMark])) := by
  rw [spaced_stray,List.mem_append,List.mem_cons,not_or,not_or]
  exact ⟨spaced_absent (plainWord_data bytes) other visible,visible,different⟩

section pair

variable {first inside rest : Text}
  (shown : ∀ c ∈ first ++ Byte.quote :: (inside ++ Byte.quote :: rest), Character c)
  (unquoted : Byte.quote ∉ first) (unquoted' : Byte.quote ∉ inside)
include shown unquoted unquoted'

theorem coded_pair :
    coded (characterLine (first ++ Byte.quote :: (inside ++ Byte.quote :: rest))) =
      (".data" : Text) ++ (marked first ++ ([Byte.space] ++ Byte.apostrophe ::
        (spaced (codes (between inside)) ++ coded (Byte.apostrophe :: marked rest)))) := by
  have front : Byte.quote ∉ (".data" : Text) ++ (marked first ++ [Byte.space,Byte.apostrophe]) := by
    rw [List.mem_append,List.mem_append,not_or,not_or]
    exact ⟨by decide,marked_absent (by decide) (by decide) unquoted,by decide⟩
  have parted : characterLine (first ++ Byte.quote :: (inside ++ Byte.quote :: rest)) =
      (".data" : Text) ++ (marked first ++ [Byte.space,Byte.apostrophe]) ++
        (Text.quoted (between inside) ++ Byte.apostrophe :: marked rest) := by
    rw [characterLine,marked_append,marked_quotes]
    simp
  have spelled := spelled_between (fun c member => shown c (by simp [member])) unquoted'
  rw [parted,coded_append front,coded_spelled spelled]
  simp

/-- The first two quotes leave an apostrophe before the codes of what is between them. -/
theorem recoded_pair :
    ∃ behind, ¬ [Byte.dollar,Byte.parenOpen] <:+: behind ∧
      recoded (coded (characterLine (first ++ Byte.quote :: (inside ++ Byte.quote :: rest)))) =
        spaced ((".data" : Text) :: (codes first ++ [strayMark])) ++ Byte.space :: behind := by
  obtain ⟨more,begins⟩ := between_begins inside
  have split : spaced (codes (between inside)) =
      ("39" : Text) ++ Byte.space :: spaced (codes (Byte.space :: more)) := by
    rw [begins]
    exact spaced_cons _ _ _
  have unmarked : Byte.apostrophe ∉ Byte.space :: spaced (codes (Byte.space :: more)) := by
    rw [List.mem_cons,not_or]
    exact ⟨by decide,spaced_absent (plainWord_codes _) (by decide) (by decide)⟩
  have undollared : Byte.dollar ∉ spaced (codes (Byte.space :: more)) :=
    spaced_absent (plainWord_codes _) (by decide) (by decide)
  have guarded := guarded_behind fun c (member : c ∈ rest) => shown c (by simp [member])
  refine ⟨_,unembedded_append undollared guarded.unembedded,?_⟩
  rw [coded_pair shown unquoted unquoted',recoded_append (by decide),
    recoded_marked (fun c member => shown c (by simp [member])),recoded_append (by decide),split,
    List.append_assoc,recoded_stray,recoded_append unmarked,spaced_stray,spaced_flatMap]
  simp

theorem expandLiterals_pair :
    ∃ tail, ¬ [Byte.dollar,Byte.parenOpen] <:+: tail ∧
      expandLiterals (characterLine (first ++ Byte.quote :: (inside ++ Byte.quote :: rest))) =
        .ok (Text.trim (spaced ((".data" : Text) :: (codes first ++ [strayMark])) ++
          Byte.space :: tail)) := by
  obtain ⟨behind,unembedded,replaced⟩ := recoded_pair shown unquoted unquoted'
  refine ⟨Text.before Byte.semicolon behind,?_,?_⟩
  · intro embedded
    exact unembedded (embedded.trans (List.takeWhile_prefix _).isInfix)
  · have apart : Text.before Byte.semicolon (Byte.space :: behind) =
        Byte.space :: Text.before Byte.semicolon behind :=
      Text.before_append (by decide : Byte.semicolon ∉ [Byte.space]) behind
    rw [expandLiterals_eq,if_neg (characterLine_sound shown),replaced,
      Text.before_append (stray_absent first (by decide) (by decide) (by decide)),apart]

end pair

end quotes

theorem two_quotes {characters : Text} (many : 1 < characters.count Byte.quote) :
    ∃ first inside rest, characters = first ++ Byte.quote :: (inside ++ Byte.quote :: rest) ∧
      Byte.quote ∉ first ∧ Byte.quote ∉ inside := by
  have one : Byte.quote ∈ characters := List.count_pos_iff.mp (Nat.lt_trans Nat.zero_lt_one many)
  obtain ⟨first,after,rfl,unquoted⟩ := List.eq_append_cons_of_mem one
  rw [List.count_append,List.count_eq_zero.mpr unquoted,List.count_cons_self] at many
  have another : Byte.quote ∈ after := List.count_pos_iff.mp (by omega)
  obtain ⟨inside,rest,rfl,unquoted'⟩ := List.eq_append_cons_of_mem another
  exact ⟨first,inside,rest,rfl,unquoted,unquoted'⟩

section parse

variable {evaluate : Expression.Evaluator} {depth : Nat} {assembler : Assembler}
  {source characters : Text} (fresh : assembler.predefines = .empty)
  (single : source.lines = [characterLine characters])
  (short : (characterLine characters).length < lineLimit)
  (shown : ∀ c ∈ characters, Character c)
include fresh single short shown

theorem parse_few (few : characters.count Byte.quote ≤ 1) :
    (assembler.parse evaluate depth source).1 = .ok (dataProgram ".data" characters) := by
  have literals := expandLiterals_few shown few
  rw [← characterLine_unreturned shown] at literals
  have plain := plainWord_data characters
  have fits : characters.length ≤ memorySize := by
    have bounded : (".data" : Text).length + 4 * characters.length < 65536 := by
      rw [← length_marked,← List.length_append]
      exact short
    change characters.length ≤ 32768
    omega
  exact parse_codes fresh single short literals
    (unembedded_absent (spaced_absent plain (by decide) (by decide))) (by decide)
    (fields_spaced plain) fits

theorem parse_pair (many : 1 < characters.count Byte.quote) :
    ∃ text, (assembler.parse evaluate depth source).1 = .error (.atLine 1 text (.notValue strayMark)) := by
  obtain ⟨first,inside,rest,rfl,unquoted,unquoted'⟩ := two_quotes many
  obtain ⟨tail,unembedded,literals⟩ := expandLiterals_pair shown unquoted unquoted'
  rw [← characterLine_unreturned shown] at literals
  have undollared : Byte.dollar ∉ spaced ((".data" : Text) :: (codes first ++ [strayMark])) :=
    stray_absent first (by decide) (by decide) (by decide)
  have apart : ¬ [Byte.dollar,Byte.parenOpen] <:+: Byte.space :: tail :=
    unembedded_append (by decide : Byte.dollar ∉ [Byte.space]) unembedded
  have fields := @fields_spaced_append _ (Byte.space :: tail) (visible_stray first)
    (.inr (Nat.succ_ne_zero 0))
  rw [← Text.fields_trim,List.cons_append,List.append_assoc] at fields
  refine ⟨_,parse_refused fresh single short literals ?_ (by decide) fields rfl ⟨_,_,rfl,by decide⟩⟩
  intro embedded
  exact unembedded_append undollared apart (embedded.trans (Text.trim_infix _))

end parse

/-- A data directive emits the codes of its characters if and only if one of them at most is
a quote. With two the source is rejected, and the operand that is reported begins with the
apostrophe before the first quote. -/
theorem parse_characterLine {evaluate : Expression.Evaluator} {depth : Nat} {assembler : Assembler}
    {source characters : Text} (fresh : assembler.predefines = .empty)
    (single : source.lines = [characterLine characters])
    (short : (characterLine characters).length < lineLimit)
    (shown : ∀ c ∈ characters, Character c) :
    ((assembler.parse evaluate depth source).1 = .ok (dataProgram ".data" characters) ↔
      characters.count Byte.quote ≤ 1) ∧
    (1 < characters.count Byte.quote →
      ∃ text, (assembler.parse evaluate depth source).1 = .error (.atLine 1 text (.notValue strayMark))) := by
  refine ⟨⟨?_,parse_few fresh single short shown⟩,parse_pair fresh single short shown⟩
  intro accepted
  apply Nat.le_of_not_lt
  intro many
  obtain ⟨text,rejected⟩ := parse_pair fresh single short shown many
  rw [accepted] at rejected
  cases rejected

/-- A letter between two quotes, beside one quote among signs that have meanings elsewhere. -/
theorem parse_characterLine_quotes :
    (∀ c ∈ ("\"A\"" : Text), Character c) ∧
      (Assembler.parse Expression.evaluate 0 {} (characterLine "\"A\"")).1 ≠
        .ok (dataProgram ".data" "\"A\"") ∧
      (Assembler.parse Expression.evaluate 0 {} (characterLine "$(1); \"")).1 =
        .ok (dataProgram ".data" "$(1); \"") := by
  have shown : ∀ c ∈ ("\"A\"" : Text), Character c := by decide +kernel
  have refused := @parse_characterLine Expression.evaluate 0 {} (characterLine "\"A\"") "\"A\"" rfl
    (by decide +kernel) (by decide +kernel) shown
  have accepted := @parse_characterLine Expression.evaluate 0 {} (characterLine "$(1); \"") "$(1); \"" rfl
    (by decide +kernel) (by decide +kernel) (by decide +kernel)
  refine ⟨shown,?_,accepted.1.mpr (by decide +kernel)⟩
  intro emitted
  exact absurd (refused.1.mp emitted) (by decide +kernel)

end WordMachine.Assembly
