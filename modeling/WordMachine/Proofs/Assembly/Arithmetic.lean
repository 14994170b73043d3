import WordMachine.Proofs.Assembly.Factoring
import WordMachine.Proofs.Assembly.Numerals
import WordMachine.Proofs.Machine.Loading

/-! Instructions with numbers for operands, assembled and executed. Where the numbers are
literals, the instructions compute with them as with integers modulo 32768. -/
namespace WordMachine

namespace Assembly

/-- Whether a byte may stand in a mnemonic, a register or a numeral. -/
def isTidyByte (b : UInt8) : Bool := isPlainByte b || Text.isNumeralByte b

structure Tidy (word : Text) : Prop where
  given : word ≠ []
  bytes : ∀ b ∈ word, isTidyByte b = true

section tidy

theorem tidy_plain {word : Text} (plain : PlainWord word) : Tidy word :=
  ⟨plain.given,fun b member => by rw [isTidyByte,plain.bytes b member]; rfl⟩

theorem tidy_numeral {n : Int} {text : Text} (numeral : Numeral n text) : Tidy text := by
  obtain ⟨given,bytes⟩ := numeral_bytes numeral
  exact ⟨given,fun b member => by rw [isTidyByte,bytes b member,Bool.or_true]⟩

theorem blankWidth_tidy {b : UInt8} (tidy : isTidyByte b = true) (rest : Text) :
    Text.blankWidth (b :: rest) = 0 := by
  rcases Bool.or_eq_true_iff.mp tidy with plain | numeral
  · exact blankWidth_plain plain rest
  · simp only [Text.isNumeralByte,Byte.isDigit,Byte.plus,Byte.minus,Byte.tilde,Bool.or_eq_true,
      Bool.and_eq_true,decide_eq_true_eq,UInt8.le_iff_toNat_le,← UInt8.toNat_inj,
      UInt8.reduceToNat] at numeral
    apply Text.blankWidth_ascii
    · simp only [UInt8.lt_iff_toNat_lt,UInt8.reduceToNat]
      omega
    · simp only [UInt8.lt_iff_toNat_lt,UInt8.reduceToNat]
      omega

variable {words : List Text} (tidy : ∀ word ∈ words, Tidy word)
include tidy

theorem tidy_absent {byte : UInt8} (other : isTidyByte byte = false) (visible : byte ≠ Byte.space) :
    byte ∉ spaced words := by
  intro member
  rcases mem_spaced member with ⟨word,listed,inside⟩ | blank
  · rw [(tidy word listed).bytes byte inside] at other
    cases other
  · exact visible blank

theorem fields_tidy : Text.fields (spaced words) = words := by
  have visible : ∀ word ∈ words, Text.Visible word := fun word member =>
    ⟨(tidy word member).given,fun b inside => blankWidth_tidy ((tidy word member).bytes b inside)⟩
  have whole := fields_spaced_append visible (.inl rfl)
  rw [List.append_nil] at whole
  rw [whole]
  exact List.append_nil words

theorem expandLiterals_tidy :
    expandLiterals (Text.dropReturn (spaced words)) = .ok (Text.trim (spaced words)) := by
  rw [Text.dropReturn_absent (tidy_absent tidy (by decide) (by decide))]
  exact expandLiterals_bare ⟨tidy_absent tidy (by decide) (by decide),
    tidy_absent tidy (by decide) (by decide),tidy_absent tidy (by decide) (by decide)⟩

theorem expandEmbedded_tidy (evaluate : Expression.Evaluator) (state : State) :
    expandEmbedded evaluate state (Text.trim (spaced words)) = .ok (Text.trim (spaced words)) := by
  apply expandEmbedded_unembedded
  apply unembedded_absent
  intro member
  exact tidy_absent tidy (by decide) (by decide) ((Text.trim_infix _).subset member)

end tidy

/-- A register or a number, as it stands in a line: no equate has such a name by itself, and
its word is known at once. -/
structure Immediate (text : Text) : Prop where
  tidy : Tidy text
  direct : isName text = true → (register? text).isSome = true
  small : Small text

/-- The fields are assembled into the given words without a label. -/
def Encodes (fields : List Text) (words : List Word) : Prop :=
  encodeFields .empty fields = .ok (words.map .word)

theorem encodes_unique : Relator.RightUnique Encodes := by
  intro fields words words' encodes encodes'
  have same : words.map Operand.word = words'.map Operand.word :=
    Except.ok.inj (encodes.symm.trans encodes')
  exact List.map_injective_iff.mpr (fun _ _ equal => Operand.word.inj equal) same

/-- An instruction whose operands are registers and numbers. -/
structure Row where
  opcode : Opcode
  operands : List Text
  immediate : ∀ text ∈ operands, Immediate text

namespace Row

def fields (row : Row) : List Text := row.opcode.mnemonic :: row.operands

def line (row : Row) : Text := spaced row.fields

/-- The instruction is not assembled: an operand is wrong, or the line is too long. -/
def Refused (row : Row) : Prop :=
  (∃ cause, encodeFields .empty row.fields = .error cause) ∨ lineLimit ≤ row.line.length

theorem tidy (row : Row) : ∀ field ∈ row.fields, Tidy field :=
  List.forall_mem_cons.mpr ⟨tidy_plain (plainWord_mnemonic row.opcode),
    fun field member => (row.immediate field member).tidy⟩

theorem small (row : Row) : ∀ field ∈ row.fields, Small field :=
  List.forall_mem_cons.mpr ⟨small_mnemonic row.opcode,
    fun field member => (row.immediate field member).small⟩

end Row

section rows

variable {texts : Text → Prop} {state : State} {rows : List (List Word)} {row : Row}

theorem immediate_word {field : Text} {operand : Operand}
    (immediate : isName field = true → (register? field).isSome = true)
    (reads : Reads .empty field operand) : ∃ word, operand = .word word := by
  cases reads with
  | register word _ | number word _ _ _ => exact ⟨word,rfl⟩
  | known addr _ _ found => cases found
  | waiting free shaped =>
    have named := immediate shaped
    rw [free] at named
    cases named

theorem immediate_words {arguments : List Text} {operands : List Operand}
    (immediate : ∀ field ∈ arguments, isName field = true → (register? field).isSome = true)
    (reads : List.Forall₂ (Reads .empty) arguments operands) :
    ∃ words : List Word, operands = words.map .word := by
  induction reads with
  | nil => exact ⟨[],rfl⟩
  | @cons field operand arguments operands first rest ih =>
    obtain ⟨word,rfl⟩ := immediate_word (immediate field List.mem_cons_self) first
    obtain ⟨words,rfl⟩ := ih fun other member => immediate other (List.mem_cons_of_mem field member)
    exact ⟨word :: words,rfl⟩

/-- An instruction has at most four words, and these are known at once. -/
theorem row_words {operands : List Operand} (ok : encodeFields .empty row.fields = .ok operands) :
    ∃ words : List Word, operands = words.map .word ∧ words.length ≤ 4 := by
  have named : Named .empty := by
    intro _ _ found
    cases found
  have encoded := encodeFields_encoded named (List.cons_ne_nil _ _) ok
  cases encoded with
  | data _ _ _ directive _ =>
    rw [isDirective,mnemonic_operation] at directive
    cases directive
  | instruction _ opcode _ rest _ _ reads checked =>
    obtain ⟨words,rfl⟩ :=
      immediate_words (fun text member => (row.immediate text member).direct) reads
    have few : opcode.operands.length ≤ 3 := by cases opcode <;> decide
    have counted := checked.length_eq
    rw [List.length_map] at counted
    exact ⟨opcode.word :: words,rfl,by rw [List.length_cons]; omega⟩

section line

variable (evaluate : Expression.Evaluator) (depth : Nat)
  (small : ∀ text, texts text → Small text) (emitted : Emitted texts state rows)
  (within : ∀ field ∈ row.fields, texts field) (room : rows.flatten.length + 4 ≤ memorySize)
include small emitted within

/-- The line of such an instruction emits its fields as they stand. -/
theorem sourceLine_row (line : Nat) :
    sourceLine (readLine evaluate depth) none line (Text.trim row.line) state =
      (emit row.fields line >>= fun _ => pure none) (located state line) := by
  have read : Text.fields (Text.trim row.line) = row.opcode.mnemonic :: row.operands :=
    (Text.fields_trim row.line).trans (fields_tidy row.tidy)
  have expanded : expandEmbedded evaluate (located state line) (Text.trim row.line) =
      .ok (Text.trim row.line) := expandEmbedded_tidy row.tidy evaluate _
  exact sourceLine_free small emitted expanded read (by cases row.opcode <;> decide)
    (unlabelled_plain (plainWord_mnemonic row.opcode)) within

include room

theorem sourceStep_row (number : Nat) (before : Text) :
    (∃ error next, sourceStep (readLine evaluate depth) number before none row.line state =
        .error error next ∧ row.Refused) ∨
    ∃ words text next, sourceStep (readLine evaluate depth) number before none row.line state =
        .ok (text, none) next ∧
      Encodes row.fields words ∧ words.length ≤ 4 ∧ Emitted texts next (rows ++ [words]) := by
  by_cases long : lineLimit ≤ row.line.length
  · exact .inl ⟨_,_,sourceStep_long number before none state long,.inr long⟩
  have short := Nat.lt_of_not_le long
  have literals : expandLiterals (Text.dropReturn row.line) = .ok (Text.trim row.line) :=
    expandLiterals_tidy row.tidy
  have numbered : Emitted texts (numbered state (number + 1) row.line) rows :=
    emitted_note emitted _
  have ready := emitted_located small numbered (number + 1)
  have read := sourceLine_row evaluate depth small numbered within (number + 1)
  have labels := ready.labels
  cases encoded : encodeFields .empty row.fields with
  | error cause =>
    rw [← labels] at encoded
    rw [bind_of_error (emit_malformed (number + 1) encoded)] at read
    refine .inl ⟨_,_,sourceStep_refused before short literals read,.inl ⟨cause,?_⟩⟩
    rw [← labels]
    exact encoded
  | ok operands =>
    obtain ⟨words,rfl,few⟩ := row_words encoded
    have given : row.fields ≠ [] := List.cons_ne_nil _ _
    have fits : rows.flatten.length + words.length ≤ memorySize := by omega
    have done := emit_run (number + 1) given (by rw [labels]; exact encoded)
      (by rw [ready.here,List.length_map]; exact fits)
    rw [bind_of_ok done] at read
    exact .inr ⟨words,_,_,sourceStep_run before short literals read,encoded,few,
      emitted_emission (emitted_note ready _) fits row.fields (number + 1)⟩

end line

/-- A source of such instructions is refused at the first that is not assembled. -/
theorem sourceLines_rows (evaluate : Expression.Evaluator) (depth : Nat)
    (small : ∀ text, texts text → Small text) {table : List Row}
    (within : ∀ row ∈ table, ∀ field ∈ row.fields, texts field)
    (emitted : Emitted texts state rows)
    (room : rows.flatten.length + 4 * table.length ≤ memorySize) (number : Nat) (before : Text) :
    (∃ error final, sourceLines (readLine evaluate depth) number before none
        (table.map Row.line) state = .error error final ∧ ∃ row ∈ table, row.Refused) ∨
    ∃ encoded final, sourceLines (readLine evaluate depth) number before none
        (table.map Row.line) state = .ok () final ∧
      List.Forall₂ Encodes (table.map Row.fields) encoded ∧ Emitted texts final (rows ++ encoded) := by
  induction table generalizing state rows number before with
  | nil => exact .inr ⟨[],state,rfl,.nil,by rwa [List.append_nil]⟩
  | cons row table ih =>
    rw [List.length_cons,Nat.mul_add] at room
    rw [List.map_cons,sourceLines_cons]
    rcases sourceStep_row evaluate depth small emitted (within row List.mem_cons_self) (by omega)
      number before with ⟨error,next,stopped,refused⟩ | ⟨words,text,next,step,encodes,few,emitted'⟩
    · rw [bind_of_error stopped]
      exact .inl ⟨error,next,rfl,row,List.mem_cons_self,refused⟩
    · rw [bind_of_ok step]
      have counted : (rows ++ [words]).flatten.length = rows.flatten.length + words.length := by
        simp
      rcases ih (fun other member => within other (List.mem_cons_of_mem row member)) emitted'
        (by omega) (number + 1) text with ⟨error,final,stopped,other,member,refused⟩ |
          ⟨encoded,final,run,all,emitted''⟩
      · exact .inl ⟨error,final,stopped,other,List.mem_cons_of_mem row member,refused⟩
      · rw [List.append_assoc] at emitted''
        exact .inr ⟨words :: encoded,final,run,.cons encodes all,emitted''⟩

end rows

/-- A source of instructions with numbers is refused if one of them is, and else it gives
their words. -/
theorem parse_rows (evaluate : Expression.Evaluator) (depth : Nat) {assembler : Assembler}
    {source : Text} {table : List Row}
    (unpredefined : ∀ row ∈ table, ∀ field ∈ row.fields, assembler.predefines.find? field = none)
    (room : 4 * table.length ≤ memorySize) (lines : source.lines = table.map Row.line) :
    (∃ error left, assembler.parse evaluate depth source = (.error error, left) ∧
      ∃ row ∈ table, row.Refused) ∨
    ∃ program left encoded, assembler.parse evaluate depth source = (.ok program, left) ∧
      List.Forall₂ Encodes (table.map Row.fields) encoded ∧ program.words = encoded.flatten := by
  have small : ∀ text, (∃ row ∈ table, text ∈ row.fields) → Small text := by
    rintro text ⟨row,_,inside⟩
    exact row.small text inside
  have free : ∀ text, (∃ row ∈ table, text ∈ row.fields) →
      assembler.predefines.find? text = none := by
    rintro text ⟨row,listed,inside⟩
    exact unpredefined row listed text inside
  rcases sourceLines_rows evaluate depth small (fun row listed field inside => ⟨row,listed,inside⟩)
    (emitted_start small assembler.verbose free)
    (by rw [List.flatten_nil,List.length_nil,Nat.zero_add]; exact room) 0 [] with
    ⟨error,final,stopped,refused⟩ | ⟨encoded,final,read,all,emitted⟩
  · rw [← lines] at stopped
    exact .inl ⟨_,_,parse_of_failed stopped,refused⟩
  · have unlinked : resolveAll final.labels final.links.toList final.statements =
        .ok final.statements := by
      rw [emitted.links]
      rfl
    rw [← lines] at read
    have parsed := parse_of_lines read
    simp only [unlinked] at parsed
    have words := emitted.words
    rw [List.nil_append] at words
    refine .inr ⟨_,_,encoded,parsed,all,?_⟩
    rw [← words]
    exact List.flatMap_def

section operands

variable {n : Int} {text : Text}

theorem small_numeral (numeral : Numeral n text) : Small text := by
  obtain ⟨given,bytes⟩ := numeral_bytes numeral
  obtain ⟨b,rest,rfl⟩ := List.exists_cons_of_ne_nil given
  refine ⟨b,rest,rfl,if_neg ?_⟩
  have first := bytes b List.mem_cons_self
  simp only [Text.isNumeralByte,Byte.isDigit,Byte.plus,Byte.minus,Byte.tilde,Bool.or_eq_true,
    Bool.and_eq_true,decide_eq_true_eq,UInt8.le_iff_toNat_le,← UInt8.toNat_inj,
    UInt8.reduceToNat] at first ⊢
  omega

theorem operandOf_numeral {word : Word} (numeral : Numeral n text)
    (value : valueOf text = .ok word) : operandOf .empty text = .ok (.word word) := by
  obtain ⟨free,unshaped⟩ := numeral_unnamed numeral
  have absent : (Table.empty : Table Word).find? text = none := rfl
  unfold operandOf
  simp only [free,absent,unshaped,Bool.false_eq_true,if_false,value]

theorem length_decimal (decimal : Text.Decimal n text) (writable : Writable n) : text.length ≤ 6 := by
  have digits : ∀ k : Nat, k ≤ 65535 → (Text.ofNat k).length ≤ 5 := by
    intro k small
    rw [Text.ofNat,List.length_map,Nat.length_toDigits_le_iff (by decide) (by decide)]
    omega
  obtain ⟨least,most⟩ := writable
  cases decimal with
  | unsigned k => exact Nat.le_succ_of_le (digits k (by omega))
  | positive k | negative k => exact Nat.succ_le_succ (digits k (by omega))

theorem immediate_numeral (numeral : Numeral n text) : Immediate text where
  tidy := tidy_numeral numeral
  direct := by
    intro shaped
    rw [(numeral_unnamed numeral).2] at shaped
    cases shaped
  small := small_numeral numeral

theorem operandOf_decimal (decimal : Text.Decimal n text) (writable : Writable n) :
    operandOf .empty text = .ok (.word (wordFor n)) := by
  apply operandOf_numeral (.plain decimal)
  rw [valueOf_decimal decimal,numberWord_writable decimal writable]

theorem operandOf_tilde (decimal : Text.Decimal n text) (writable : Writable n) :
    operandOf .empty (Byte.tilde :: text) = .ok (.word (Word.complement (wordFor n))) := by
  apply operandOf_numeral (.inverted decimal)
  rw [valueOf_tilde decimal,numberWord_writable decimal writable]
  rfl

theorem operable_writable (operable : Operable n) : Writable n :=
  ⟨operable.1,Int.le_trans operable.2 (by decide)⟩

theorem admits_operable (operable : Operable n) : OperandClass.value.admits (wordFor n) := by
  have place := toNat_wordFor (operable_writable operable)
  obtain ⟨least,most⟩ := operable
  change (wordFor n).toNat < 32776
  split at place <;> omega

theorem admits_complement (writable : Writable n) :
    OperandClass.value.admits (Word.complement (wordFor n)) := by
  have place := toNat_complement writable
  change (Word.complement (wordFor n)).toNat < 32776
  omega

end operands

/-- Four instructions that compute with numbers, each into a register of its own. -/
def arithmetic (a b c : Text) : List (List Text) :=
  [["add", "r0", a, b], ["mult", "r1", a, b], ["not", "r2", a], ["set", "r3", Byte.tilde :: c]]

def arithmeticWords (u v m : Int) : List (List Word) :=
  [[Opcode.add.word, 32768, wordFor u, wordFor v], [Opcode.mult.word, 32769, wordFor u, wordFor v],
    [Opcode.not.word, 32770, wordFor u], [Opcode.set.word, 32771, Word.complement (wordFor m)]]

section arithmetic

open Text (Decimal)

variable {u v m : Int} {a b c : Text} (first : Decimal u a) (second : Decimal v b)
  (third : Decimal m c)
include first second third

theorem arithmetic_rows : ∃ table : List Row, table.map Row.fields = arithmetic a b c := by
  have register : ∀ text ∈ (["r0", "r1", "r2", "r3"] : List Text), Immediate text := by
    have direct : ∀ text ∈ (["r0", "r1", "r2", "r3"] : List Text),
        (∀ b ∈ text, isTidyByte b = true) ∧ (register? text).isSome = true ∧
          (text.head?.all fun b => Byte.lower b = b) = true ∧ text ≠ [] := by decide +kernel
    intro text listed
    obtain ⟨bytes,named,small,given⟩ := direct text listed
    obtain ⟨b,rest,rfl⟩ := List.exists_cons_of_ne_nil given
    exact ⟨⟨given,bytes⟩,fun _ => named,b,rest,rfl,of_decide_eq_true small⟩
  have one := immediate_numeral (.plain first)
  have two := immediate_numeral (.plain second)
  have three := immediate_numeral (.inverted third)
  refine ⟨[⟨.add,["r0", a, b],?_⟩, ⟨.mult,["r1", a, b],?_⟩, ⟨.not,["r2", a],?_⟩,
    ⟨.set,["r3", Byte.tilde :: c],?_⟩],rfl⟩
  · simp [register,one,two]
  · simp [register,one,two]
  · simp [register,one]
  · simp [register,three]

theorem encodes_operable {encoded : List (List Word)}
    (encodes : List.Forall₂ Encodes (arithmetic a b c) encoded) : Operable u ∧ Operable v ∧ Writable m := by
  have named : Named .empty := by
    intro _ _ found
    cases found
  have read : ∀ (index : Nat) (head : Text) (arguments : List Text),
      (arithmetic a b c)[index]? = some (head :: arguments) →
        ∃ operands, Encoded .empty (head :: arguments) operands := by
    intro index head arguments stands
    obtain ⟨words,_,ok⟩ := forall₂_getElem? encodes stands
    exact ⟨_,encodeFields_encoded named (List.cons_ne_nil _ _) ok⟩
  obtain ⟨_,sum⟩ := read 0 _ _ rfl
  obtain ⟨_,copy⟩ := read 3 _ _ rfl
  have operation : isDirective "add" = false := mnemonic_operation .add
  exact ⟨encoded_decimal sum (by simp) (by simp [operation]) first,
    encoded_decimal sum (by simp) (by simp [operation]) second,
    encoded_numeral copy (by simp) (.inverted third)⟩

variable (operable : Operable u ∧ Operable v ∧ Writable m)
include operable

theorem arithmetic_encodes :
    List.Forall₂ Encodes (arithmetic a b c) (arithmeticWords u v m) := by
  obtain ⟨operable,operable',writable⟩ := operable
  have one := operandOf_decimal first (operable_writable operable)
  have two := operandOf_decimal second (operable_writable operable')
  have three := operandOf_tilde third writable
  have sum := @encodeFields_admitted .add ["r0", a, b] [32768, wordFor u, wordFor v]
    (.cons rfl (.cons one (.cons two .nil)))
    (.cons (by decide) (.cons (admits_operable operable) (.cons (admits_operable operable') .nil)))
  have product := @encodeFields_admitted .mult ["r1", a, b] [32769, wordFor u, wordFor v]
    (.cons rfl (.cons one (.cons two .nil)))
    (.cons (by decide) (.cons (admits_operable operable) (.cons (admits_operable operable') .nil)))
  have inverse := @encodeFields_admitted .not ["r2", a] [32770, wordFor u]
    (.cons rfl (.cons one .nil)) (.cons (by decide) (.cons (admits_operable operable) .nil))
  have copy := @encodeFields_admitted .set ["r3", Byte.tilde :: c]
    [32771, Word.complement (wordFor m)] (.cons rfl (.cons three .nil))
    (.cons (by decide) (.cons (admits_complement writable) .nil))
  exact .cons sum (.cons product (.cons inverse (.cons copy .nil)))

theorem arithmetic_short : ∀ fields ∈ arithmetic a b c, (spaced fields).length < lineLimit := by
  have one := length_decimal first (operable_writable operable.1)
  have two := length_decimal second (operable_writable operable.2.1)
  have three := length_decimal third operable.2.2
  have names : ∀ name ∈ (["add", "mult", "not", "set", "r0", "r1", "r2", "r3"] : List Text),
      name.length ≤ 7 := by decide +kernel
  have written : ∀ fields ∈ arithmetic a b c, fields.length ≤ 4 ∧ ∀ field ∈ fields,
      field ∈ (["add", "mult", "not", "set", "r0", "r1", "r2", "r3"] : List Text) ∨
        field = a ∨ field = b ∨ field = Byte.tilde :: c := by simp [arithmetic]
  intro fields listed
  obtain ⟨few,kinds⟩ := written fields listed
  have narrow : ∀ field ∈ fields, field.length ≤ 7 := by
    intro field member
    rcases kinds field member with name | rfl | rfl | rfl
    · exact names field name
    · exact Nat.le_succ_of_le one
    · exact Nat.le_succ_of_le two
    · exact Nat.succ_le_succ three
  have bound := length_spaced narrow
  change _ < 65536
  omega

end arithmetic

/-- The instructions are assembled exactly where the numbers are operands. A register stands
for the numbers from 32768 on, and behind a tilde a number is a literal in any case. -/
theorem parse_arithmetic (evaluate : Expression.Evaluator) (depth : Nat) {assembler : Assembler}
    {source : Text} {u v m : Int} {a b c : Text}
    (first : Text.Decimal u a) (second : Text.Decimal v b) (third : Text.Decimal m c)
    (unpredefined : ∀ fields ∈ arithmetic a b c, ∀ field ∈ fields,
      assembler.predefines.find? field = none)
    (lines : source.lines = (arithmetic a b c).map spaced) :
    (¬ (Operable u ∧ Operable v ∧ Writable m) ∧
      ∃ error left, assembler.parse evaluate depth source = (.error error, left)) ∨
    (Operable u ∧ Operable v ∧ Writable m) ∧
      ∃ program left, assembler.parse evaluate depth source = (.ok program, left) ∧
        program.words = (arithmeticWords u v m).flatten := by
  obtain ⟨table,rows⟩ := arithmetic_rows first second third
  have counted : table.length = 4 := by
    rw [← table.length_map Row.fields,rows]
    rfl
  rw [← rows,List.forall_mem_map] at unpredefined
  rw [← rows,List.map_map] at lines
  rcases parse_rows evaluate depth unpredefined (by rw [counted]; decide) lines with
    ⟨error,left,failed,row,listed,refused⟩ | ⟨program,left,encoded,ok,encodes,words⟩
  · refine .inl ⟨?_,error,left,failed⟩
    intro operable
    have stands : row.fields ∈ arithmetic a b c := rows ▸ List.mem_map_of_mem listed
    rcases refused with ⟨cause,malformed⟩ | long
    · obtain ⟨index,place⟩ := List.mem_iff_getElem?.mp stands
      obtain ⟨words,_,ok⟩ :=
        forall₂_getElem? (arithmetic_encodes first second third operable) place
      cases malformed.symm.trans ok
    · exact absurd long (Nat.not_le_of_lt (arithmetic_short first second third operable _ stands))
  · rw [rows] at encodes
    have operable := encodes_operable first second third encodes
    have same : encoded = arithmeticWords u v m :=
      encodes_unique.forall₂ encodes (arithmetic_encodes first second third operable)
    exact .inr ⟨operable,program,left,ok,by rw [words,same]⟩

section execution

open Machine

theorem toNat_residue {k : Nat} {z : Int} (same : (k : Int) = z % 32768) :
    (k.toUInt16.toNat : Int) = z % 32768 := by
  have small : k < 32768 := by omega
  rw [Nat.toUInt16_eq,UInt16.toNat_ofNat',Nat.mod_eq_of_lt (Nat.lt_trans small (by decide)),same]

/-- The four instructions, from a load on. -/
theorem run_arithmetic {u v m : Int} (literal : -32768 ≤ u ∧ u ≤ 32767)
    (literal' : -32768 ≤ v ∧ v ≤ 32767) (writable : Writable m) (machine : Machine) :
    ∃ final, (load (arithmeticWords u v m).flatten >>= fun _ => proceed 4) machine =
        .ok () final ∧
      (final.registers.toList.take 4).map (fun word => (word.toNat : Int)) =
        [(u + v) % 32768, u * v % 32768, (-1 - u) % 32768, (-1 - m) % 32768] := by
  have one := toNat_wordFor_literal literal.1 literal.2
  have two := toNat_wordFor_literal literal'.1 literal'.2
  have three := toNat_complement writable
  have small : (wordFor u).toNat < 32768 := by omega
  have small' : (wordFor v).toNat < 32768 := by omega
  have small'' : (Word.complement (wordFor m)).toNat < 32768 := by omega
  have value : ∀ {word : Word}, word.toNat < 32768 → OperandClass.value.admits word :=
    fun small => Nat.lt_trans small (by decide)
  have fits : (arithmeticWords u v m).flatten.length ≤ memorySize := by
    change 14 ≤ memorySize
    decide
  obtain ⟨loaded,load,running⟩ := load_running fits machine
  have sum : (arithmeticWords u v m).flatten.drop 0 =
      Opcode.add.word :: [32768, wordFor u, wordFor v] ++ _ := rfl
  obtain ⟨added,adds,afterSum⟩ := running_assigned running sum
    (.cons (by decide) (.cons (value small) (.cons (value small') .nil))) (by decide)
    (.inr (.inr (.inl rfl))) rfl
    (by rw [running_literal running sum rfl small,running_literal running sum rfl small'])
  have product : (arithmeticWords u v m).flatten.drop (0 + 4) =
      Opcode.mult.word :: [32769, wordFor u, wordFor v] ++ _ := rfl
  obtain ⟨multiplied,multiplies,afterProduct⟩ := running_assigned afterSum product
    (.cons (by decide) (.cons (value small) (.cons (value small') .nil))) (by decide)
    (.inr (.inr (.inr rfl))) rfl
    (by rw [running_literal afterSum product rfl small,running_literal afterSum product rfl small'])
  have inverse : (arithmeticWords u v m).flatten.drop (0 + 4 + 4) =
      Opcode.not.word :: [32770, wordFor u] ++ _ := rfl
  obtain ⟨inverted,inverts,afterInverse⟩ := running_assigned afterProduct inverse
    (.cons (by decide) (.cons (value small) .nil)) (by decide) (.inr (.inl rfl)) rfl
    (by rw [running_literal afterProduct inverse rfl small])
  have copy : (arithmeticWords u v m).flatten.drop (0 + 4 + 4 + 3) =
      Opcode.set.word :: [32771, Word.complement (wordFor m)] ++ [] := rfl
  obtain ⟨final,copies,ends⟩ := running_assigned afterInverse copy
    (.cons (by decide) (.cons (value small'') .nil)) (by decide) (.inl rfl) rfl
    (by rw [running_literal afterInverse copy rfl small''])
  refine ⟨final,?_,?_⟩
  · rw [bind_of_ok load,proceed_tick adds,proceed_tick multiplies,proceed_tick inverts,
      proceed_tick copies]
    rfl
  · have residue : (((wordFor u).toNat + (wordFor v).toNat) % 32768 : Nat) = (u + v) % 32768 := by
      omega
    have residue' : ((wordFor u).toNat * (wordFor v).toNat % 32768 : Nat) = u * v % 32768 := by
      rw [Int.natCast_emod,Int.natCast_mul,one,two]
      exact (Int.mul_emod u v 32768).symm
    have residue'' : (32767 - (wordFor u).toNat % 32768 : Nat) = (-1 - u) % 32768 := by omega
    rw [ends.registers,← toNat_residue residue,← toNat_residue residue',← toNat_residue residue'',
      ← toNat_residue three]
    rfl

end execution

end Assembly
end WordMachine
