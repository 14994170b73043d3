import WordMachine.Proofs.Assembly.DataLine

/-! String directives. Strings become the codes of their bytes before anything else in a
line is read, so that nothing in them is taken for a comment, an expression or a name. -/
namespace WordMachine.Assembly

open Text (Misquoted Spelled Blanks)

/-- String literals that spell the given parts, with blanks before each. -/
inductive Literals : List Text → Text → Prop
  | nil : Literals [] []
  | cons {part blanks body rest : Text} {parts : List Text} (blank : Blanks blanks)
      (apart : blanks ≠ []) (spelled : Spelled part body) (later : Literals parts rest) :
      Literals (part :: parts) (blanks ++ (Text.quoted body ++ rest))

def StringLine (parts : List Text) (line : Text) : Prop :=
  ∃ literals, Literals parts literals ∧ line = (".string" : Text) ++ literals

theorem blanks_absent {blanks : Text} {b : UInt8} (blank : Blanks blanks)
    (visible : 0x20 < b ∧ b < 0x80) : b ∉ blanks :=
  fun member => Text.blanks_bytes blank b member visible

theorem coded_literal {part blanks body : Text} (blank : Blanks blanks)
    (spelled : Spelled part body) (rest : Text) :
    coded (blanks ++ (Text.quoted body ++ rest)) = blanks ++ (spaced (codes part) ++ coded rest) := by
  rw [coded_append (blanks_absent blank (by decide)),coded_spelled spelled]

section literals

variable {parts : List Text} {text : Text} (written : Literals parts text)
include written

theorem literals_sound : ¬ Misquoted text := by
  induction written with
  | nil => exact misquoted_unescaped List.not_mem_nil
  | cons blank apart spelled later ih =>
    rw [misquoted_append (blanks_absent blank (by decide)),misquoted_spelled spelled]
    exact ih

theorem literals_parted : coded text = [] ∨ Text.blankWidth (coded text) ≠ 0 := by
  cases written with
  | nil => exact .inl rfl
  | cons blank apart spelled later =>
    rw [coded_literal blank spelled]
    exact .inr (Text.blanks_width blank apart _)

theorem literals_fields : Text.fields (coded text) = codes parts.flatten := by
  induction written with
  | nil => rfl
  | @cons part blanks body rest parts blank apart spelled later ih =>
    have visible : ∀ word ∈ codes part, Text.Visible word :=
      fun word member => visible_plain (plainWord_codes part word member)
    rw [coded_literal blank spelled,Text.fields_blanks blank,
      fields_spaced_append visible (literals_parted later),ih,List.flatten_cons]
    exact List.map_append.symm

theorem literals_absent {b : UInt8} (visible : 0x20 < b ∧ b < 0x80) (other : isPlainByte b = false) :
    b ∉ coded text := by
  induction written with
  | nil => exact List.not_mem_nil
  | @cons part blanks body rest parts blank apart spelled later ih =>
    have between : b ≠ Byte.space := by
      rintro rfl
      exact absurd visible.1 (by decide)
    rw [coded_literal blank spelled,List.mem_append,List.mem_append,not_or,not_or]
    exact ⟨blanks_absent blank visible,spaced_absent (plainWord_codes part) other between,ih⟩

theorem literals_unreturned : text.getLast? ≠ some Byte.carriageReturn := by
  induction written with
  | nil => simp
  | @cons part blanks body rest parts blank apart spelled later ih =>
    have closed : (Text.quoted body).getLast? = some Byte.quote := by
      rw [Text.quoted,← List.cons_append,List.getLast?_concat]
    rw [List.getLast?_append,List.getLast?_append,closed]
    cases last : rest.getLast? with
    | none =>
      rw [Option.none_or,Option.some_or]
      decide
    | some b =>
      rw [last] at ih
      exact ih

end literals

theorem stringLine_unreturned {parts : List Text} {line : Text} (written : StringLine parts line) :
    Text.dropReturn line = line := by
  obtain ⟨literals,spelled,rfl⟩ := written
  have last := literals_unreturned spelled
  rw [Text.dropReturn,if_neg]
  rw [List.getLast?_append]
  cases ended : literals.getLast? with
  | none => decide
  | some b =>
    rw [ended] at last
    exact last

/-- A string directive emits the bytes that its literals spell, one word for each, whatever
they are. -/
theorem parse_stringLine {evaluate : Expression.Evaluator} {depth : Nat} {assembler : Assembler}
    {source line : Text} {parts : List Text}
    (fresh : assembler.predefines = .empty) (written : StringLine parts line)
    (single : source.lines = [line]) (short : line.length < lineLimit)
    (fits : parts.flatten.length ≤ memorySize) :
    (assembler.parse evaluate depth source).1 = .ok (dataProgram ".string" parts.flatten) := by
  have unreturned := stringLine_unreturned written
  obtain ⟨literals,spelled,rfl⟩ := written
  have absent : ∀ b : UInt8, b ∉ (".string" : Text) → 0x20 < b ∧ b < 0x80 → isPlainByte b = false →
      b ∉ (".string" : Text) ++ coded literals := by
    intro b outside visible other
    rw [List.mem_append,not_or]
    exact ⟨outside,literals_absent spelled visible other⟩
  have unquoted : Byte.quote ∉ (".string" : Text) := by decide
  have unmarked := absent Byte.apostrophe (by decide) (by decide) (by decide)
  have uncommented := absent Byte.semicolon (by decide) (by decide) (by decide)
  have expanded : expandLiterals ((".string" : Text) ++ literals) =
      .ok (Text.trim ((".string" : Text) ++ coded literals)) := by
    rw [expandLiterals_eq,if_neg (mt (misquoted_append unquoted literals).mp (literals_sound spelled)),
      coded_append unquoted,recoded_absent unmarked,Text.before_absent uncommented]
  apply parse_codes fresh single short (by rw [unreturned]; exact expanded) _ (by decide) _ fits
  · intro embedded
    exact unembedded_absent (absent Byte.dollar (by decide) (by decide) (by decide))
      (embedded.trans (Text.trim_infix _))
  · have directive : Text.Visible ".string" := visible_plain (plainWord_name (by decide))
    rw [Text.fields_trim,Text.fields_word directive (literals_parted spelled),literals_fields spelled]

def stringLine (parts : List Text) : Text :=
  (".string" : Text) ++ parts.flatMap fun part => Byte.space :: Text.quoted (Text.spell part)

theorem stringLine_written (parts : List Text) : StringLine parts (stringLine parts) := by
  refine ⟨_,?_,rfl⟩
  induction parts with
  | nil => exact .nil
  | cons part parts ih => exact .cons blanks_space (by decide) (Text.spelled_spell part) ih

/-- Parts that look like a comment, an expression, a label, a register and an equate. -/
def markedParts : List Text := ["; '$(1+2)'", "", "\"r0\\", "HERE:", [0x0A, 0xFF]]

theorem parse_stringLine_marked :
    StringLine markedParts (stringLine markedParts) ∧
      (Assembler.parse Expression.evaluate 0 {} (stringLine markedParts)).1 =
        .ok (dataProgram ".string" markedParts.flatten) := by
  have written := stringLine_written markedParts
  exact ⟨written,parse_stringLine rfl written (by decide +kernel) (by decide +kernel) (by decide +kernel)⟩

end WordMachine.Assembly
