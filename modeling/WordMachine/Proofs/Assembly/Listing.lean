import WordMachine.Proofs.Assembly.LineSteps
import WordMachine.Proofs.Assembly.PlainLine
import WordMachine.Proofs.Assembly.TwoPasses
import WordMachine.Proofs.Text.Decimal
import WordMachine.Proofs.Text.Lines

/-! Listings: sources with one line for each word of data and each instruction, written the
way words and operations are displayed. Assembling a listing gives the listed words back,
one statement to the line. -/
namespace WordMachine.Assembly

/-- One line of a listing: any word as data, or an instruction whose operands are of its
operation's classes. -/
inductive Item where
  | data (word : Word)
  | instruction (opcode : Opcode) (operands : List Word)
      (admitted : List.Forall₂ OperandClass.admits opcode.operands operands)

namespace Item

def words : Item → List Word
  | .data word => [word]
  | .instruction opcode operands _ => opcode.word :: operands

def fields : Item → List Text
  | .data word => [(".data" : Text),word.text]
  | .instruction opcode operands _ => opcode.mnemonic :: operands.map Word.text

def line (item : Item) : Text := spaced item.fields

end Item

theorem plainWord_text (word : Word) : PlainWord word.text := by
  unfold Word.text
  cases word.register? with
  | none => exact plainWord_ofNat word.toNat
  | some register =>
    obtain ⟨given,bytes⟩ := plainWord_ofNat register.val
    refine ⟨List.append_ne_nil_of_right_ne_nil _ given,?_⟩
    intro b member
    rcases List.mem_append.mp member with mark | digit
    · rw [List.mem_singleton.mp mark]
      rfl
    · exact bytes b digit

theorem plainWord_mnemonic (opcode : Opcode) : PlainWord opcode.mnemonic := by
  apply plainWord_name
  cases opcode <;> rfl

theorem plainWord_fields (item : Item) : ∀ field ∈ item.fields, PlainWord field := by
  intro field member
  cases item with
  | data word =>
    simp only [Item.fields,List.mem_cons,List.not_mem_nil,or_false] at member
    rcases member with rfl | rfl
    · exact plainWord_name (by decide)
    · exact plainWord_text word
  | instruction opcode operands admitted =>
    simp only [Item.fields,List.mem_cons,List.mem_map] at member
    rcases member with rfl | ⟨word,-,rfl⟩
    · exact plainWord_mnemonic opcode
    · exact plainWord_text word

theorem valueOf_ofNat (word : Word) : valueOf (Text.ofNat word.toNat) = .ok word := by
  have small : word.toNat < 65536 := word.toNat_lt
  obtain ⟨b,rest,begins,digit,-⟩ := Text.ofNat_first word.toNat
  have number : Text.integer? 32 (Text.ofNat word.toNat) = some (word.toNat : Int) := by
    apply Text.integer?_ofNat
    change word.toNat < 2147483648
    omega
  have read : numberWord (Text.ofNat word.toNat) = .ok word := by
    have same : UInt16.ofInt (word.toNat : Int) = word := by
      have kept : ((word.toNat : Int) % 2 ^ 16).toNat = word.toNat := by omega
      rw [UInt16.ofInt,kept,UInt16.ofNat_toNat]
    simp only [numberWord,number,wordOfInteger]
    rw [if_neg (by omega),if_pos (by omega),same]
  have untilded : valueOf (Text.ofNat word.toNat) = numberWord (Text.ofNat word.toNat) := by
    rw [begins]
    cases rest with
    | nil => rfl
    | cons c rest =>
      rw [valueOf,if_neg (Text.digit_ne digit (by decide))]
  rw [untilded,read]

theorem register?_text (register : Fin 8) :
    register? (("r" : Text) ++ Text.ofNat register.val) = some (0x8000 + register.val.toUInt16) := by
  revert register
  decide

theorem word_of_register? {word : Word} {register : Fin 8} (named : word.register? = some register) :
    0x8000 + register.val.toUInt16 = word := by
  have range := (word.register?_isSome_iff).mp (by rw [named]; rfl)
  obtain ⟨other,named',place⟩ := Word.register?_of_range range
  rw [named] at named'
  cases named'
  apply UInt16.toNat_inj.mp
  rw [UInt16.toNat_add,Nat.toUInt16_eq,UInt16.toNat_ofNat',place]
  change (32768 + (word.toNat - 32768) % 65536) % 65536 = _
  omega

theorem register?_other {b : UInt8} (other : b ≠ 0x72) (rest : Text) :
    register? (b :: rest) = none := by
  rcases rest with _ | ⟨c,_ | ⟨d,rest⟩⟩
  · rfl
  · simp [register?,other]
  · rfl

theorem register?_digit {b : UInt8} (digit : Byte.isDigit b = true) (rest : Text) :
    register? (b :: rest) = none := register?_other (Text.digit_ne digit (by decide)) rest

theorem operandOf_ofNat (word : Word) :
    operandOf .empty (Text.ofNat word.toNat) = .ok (.word word) := by
  obtain ⟨b,rest,begins,digit,-⟩ := Text.ofNat_first word.toNat
  have value := valueOf_ofNat word
  have absent : (Table.empty : Table Word).find? (Text.ofNat word.toNat) = none := rfl
  have unnamed : register? (Text.ofNat word.toNat) = none := by
    rw [begins]
    exact register?_digit digit rest
  have unshaped : isName (Text.ofNat word.toNat) = false := by
    rw [begins]
    exact isName_digit digit rest
  unfold operandOf
  simp only [unnamed,absent,unshaped,Bool.false_eq_true,if_false,value]

theorem operandOf_text (word : Word) : operandOf .empty word.text = .ok (.word word) := by
  unfold Word.text
  cases named : word.register? with
  | some register =>
    unfold operandOf
    simp only [register?_text,word_of_register? named]
  | none => exact operandOf_ofNat word

theorem checkOperand_admitted {kind : OperandClass} {word : Word} (admitted : kind.admits word) :
    checkOperand kind (.word word) = .ok (.word word) := by
  cases kind with
  | value =>
    rw [checkOperand,if_pos (word.isValid_iff.mpr admitted)]
  | register =>
    rw [checkOperand,if_pos (word.register?_isSome_iff.mpr ⟨admitted.1,Nat.lt_succ_of_le admitted.2⟩)]
  | target =>
    have small : word.toNat < 32776 := admitted
    have allowed : (word.register?.isSome || word.isLiteral) = true := by
      rw [Bool.or_eq_true,word.register?_isSome_iff,word.isLiteral_iff]
      omega
    rw [checkOperand,if_pos allowed]

theorem operandsFrom_admitted {kinds : List OperandClass} {texts : List Text} {words : List Word}
    (reads : List.Forall₂ (fun text word => operandOf .empty text = .ok (.word word)) texts words)
    (admitted : List.Forall₂ OperandClass.admits kinds words) (done : List Operand) :
    operandsFrom .empty done kinds texts = .ok (done.reverse ++ words.map .word) := by
  induction reads generalizing kinds done with
  | nil =>
    cases admitted
    simp [operandsFrom]
  | cons read reads ih =>
    cases admitted with
    | cons first rest =>
      rw [operandsFrom,read]
      simp only [checkOperand_admitted first]
      rw [ih rest]
      simp

theorem ofMnemonic?_mnemonic (opcode : Opcode) :
    Opcode.ofMnemonic? opcode.mnemonic = some opcode := by
  cases opcode <;> rfl

theorem mnemonic_operation (opcode : Opcode) :
    (opcode.mnemonic = (".data" : Text) || opcode.mnemonic = (".string" : Text)) = false := by
  cases opcode <;> rfl

theorem encodeFields_admitted {opcode : Opcode} {texts : List Text} {words : List Word}
    (reads : List.Forall₂ (fun text word => operandOf .empty text = .ok (.word word)) texts words)
    (admitted : List.Forall₂ OperandClass.admits opcode.operands words) :
    encodeFields .empty (opcode.mnemonic :: texts) = .ok ((opcode.word :: words).map .word) := by
  have counted : opcode.operands.length = words.length := admitted.length_eq
  have counted' : texts.length = words.length := reads.length_eq
  rw [encodeFields,if_neg (by rw [mnemonic_operation]; simp),ofMnemonic?_mnemonic]
  simp only
  rw [if_neg (by omega),if_neg (by omega),operandsFrom_admitted reads admitted]
  rfl

theorem encodeFields_item (item : Item) :
    encodeFields .empty item.fields = .ok (item.words.map .word) := by
  cases item with
  | data word =>
    rw [Item.fields,encodeFields,if_pos (by decide),dataFrom,operandOf_text]
    rfl
  | instruction opcode operands admitted =>
    refine encodeFields_admitted ?_ admitted
    rw [List.forall₂_map_left_iff,List.forall₂_same]
    exact fun word _ => operandOf_text word

theorem length_text (word : Word) : word.text.length ≤ 5 := by
  unfold Word.text
  cases word.register? with
  | some register =>
    have short : ∀ register : Fin 8, (("r" : Text) ++ Text.ofNat register.val).length ≤ 5 := by decide
    exact short register
  | none =>
    change (Text.ofNat word.toNat).length ≤ 5
    rw [Text.ofNat,List.length_map,Nat.length_toDigits_le_iff (by decide) (by decide)]
    exact Nat.lt_trans word.toNat_lt (by decide)

theorem length_field (item : Item) : ∀ field ∈ item.fields, field.length ≤ 5 := by
  intro field member
  cases item with
  | data word =>
    simp only [Item.fields,List.mem_cons,List.not_mem_nil,or_false] at member
    rcases member with rfl | rfl
    · decide
    · exact length_text word
  | instruction opcode operands admitted =>
    simp only [Item.fields,List.mem_cons,List.mem_map] at member
    rcases member with rfl | ⟨word,-,rfl⟩
    · cases opcode <;> decide
    · exact length_text word

theorem length_spaced {words : List Text} {limit : Nat} (short : ∀ word ∈ words, word.length ≤ limit) :
    (spaced words).length ≤ (limit + 1) * words.length := by
  induction words with
  | nil => simp [spaced,Text.joinWith]
  | cons word rest ih =>
    have first := short word List.mem_cons_self
    have later := ih fun other member => short other (List.mem_cons_of_mem word member)
    rw [List.length_cons,Nat.mul_add,Nat.mul_one]
    cases rest with
    | nil =>
      rw [spaced_singleton]
      omega
    | cons next rest =>
      rw [spaced_cons,List.length_append,List.length_cons]
      omega

theorem length_line (item : Item) : item.line.length < lineLimit := by
  have counted : item.fields.length ≤ 4 := by
    cases item with
    | data word => simp [Item.fields]
    | instruction opcode operands admitted =>
      have few : opcode.operands.length ≤ 3 := by cases opcode <;> decide
      have same := admitted.length_eq
      simp only [Item.fields,List.length_cons,List.length_map]
      omega
  have short : item.line.length ≤ 6 * item.fields.length := length_spaced (length_field item)
  change item.line.length < 65536
  omega

/-- A text that begins with no capital letter. -/
def Small (text : Text) : Prop := ∃ first rest, text = first :: rest ∧ Byte.lower first = first

theorem small_ofNat (n : Nat) : Small (Text.ofNat n) := by
  obtain ⟨b,rest,begins,digit,-⟩ := Text.ofNat_first n
  refine ⟨b,rest,begins,if_neg ?_⟩
  simp only [Byte.isDigit,Bool.and_eq_true,decide_eq_true_eq,UInt8.le_iff_toNat_le,
    UInt8.reduceToNat] at digit ⊢
  omega

theorem small_mnemonic (opcode : Opcode) : Small opcode.mnemonic := by
  cases opcode <;> exact ⟨_,_,rfl,by decide⟩

theorem small_fields (item : Item) : ∀ field ∈ item.fields, Small field := by
  have small : ∀ word : Word, Small word.text := by
    intro word
    unfold Word.text
    cases word.register? with
    | some register => exact ⟨_,_,rfl,by decide⟩
    | none => exact small_ofNat word.toNat
  intro field member
  cases item with
  | data word =>
    simp only [Item.fields,List.mem_cons,List.not_mem_nil,or_false] at member
    rcases member with rfl | rfl
    · exact ⟨_,_,rfl,by decide⟩
    · exact small word
  | instruction opcode operands admitted =>
    simp only [Item.fields,List.mem_cons,List.mem_map] at member
    rcases member with rfl | ⟨word,-,rfl⟩
    · exact small_mnemonic opcode
    · exact small word

/-- What is known after some statements without labels, each with the words that it has
emitted. None of the given texts is an equate. -/
structure Emitted (texts : Text → Prop) (state : State) (rows : List (List Word)) : Prop where
  labels : state.labels = .empty
  macros : state.macros = .empty
  links : state.links = #[]
  free : ∀ text, texts text → state.equates.find? text = none
  here : state.here.toNat = rows.flatten.length
  words : state.statements.toList.map Statement.words = rows

theorem pendingLinks_words (index : Nat) (words : List Word) :
    pendingLinks index (words.map Operand.word) = [] := by
  rw [List.eq_nil_iff_forall_not_mem]
  intro link member
  obtain ⟨-,waiting⟩ := mem_pendingLinks.mp member
  rw [List.getElem?_map] at waiting
  cases found : words[link.index]? with
  | none => rw [found] at waiting; cases waiting
  | some word => rw [found] at waiting; cases waiting

theorem emitted_words (words : List Word) :
    (words.map Operand.word).map Operand.emitted = words := by
  rw [List.map_map]
  exact List.map_id words

section emitted

variable {texts : Text → Prop} {state : State} {rows : List (List Word)}

theorem emitted_note (emitted : Emitted texts state rows) (text : Text) :
    Emitted texts (state.note text) rows := by
  obtain ⟨log,same⟩ := note_log state text
  rw [same]
  exact ⟨emitted.labels,emitted.macros,emitted.links,emitted.free,emitted.here,emitted.words⟩

theorem emitted_emission {words : List Word} (emitted : Emitted texts state rows)
    (fits : rows.flatten.length + words.length ≤ memorySize) (fields : List Text) (line : Nat) :
    Emitted texts (emission state fields line (words.map .word)) (rows ++ [words]) := by
  have spoken := emitted_words words
  have room : state.here.toNat + (words.map Operand.word).length ≤ memorySize := by
    rw [emitted.here,List.length_map]
    exact fits
  refine ⟨emitted.labels,emitted.macros,?_,emitted.free,?_,?_⟩
  · change state.links.appendList _ = _
    rw [pendingLinks_words,emitted.links]
    rfl
  · rw [here_emission room,emitted.here]
    simp
  · simp [emission,spoken,emitted.words]

variable (small : ∀ text, texts text → Small text)
include small

theorem emitted_located (emitted : Emitted texts state rows) (line : Nat) :
    Emitted texts (located state line) rows where
  labels := emitted.labels
  macros := emitted.macros
  links := emitted.links
  free := by
    intro text given
    have other : ∀ (mark : UInt8) (name : Text), Byte.lower mark ≠ mark → mark :: name ≠ text := by
      rintro mark name capital rfl
      obtain ⟨first,rest,same,kept⟩ := small _ given
      cases same
      exact capital kept
    rw [located_find? line (other _ _ (by decide)) (other _ _ (by decide))]
    exact emitted.free text given
  here := emitted.here
  words := emitted.words

/-- The names of the equates that are there by themselves begin with capitals. -/
theorem emitted_start {predefines : Table Text} (verbose : Bool)
    (unpredefined : ∀ text, texts text → predefines.find? text = none) :
    Emitted texts (State.start predefines verbose) [] where
  labels := rfl
  macros := rfl
  links := rfl
  free := by
    intro text given
    have capitals : ∀ entry ∈ machineDefines ++ [(lineName, ("0" : Text)), (hereName, ("0" : Text))],
        ∀ mark ∈ entry.1.head?, Byte.lower mark ≠ mark := by decide +kernel
    obtain ⟨first,rest,rfl,kept⟩ := small text given
    cases found : (State.start predefines verbose).equates.find? (first :: rest) with
    | none => rfl
    | some value =>
      rcases Table.find?_insertAll found with listed | held
      · rw [List.flatten_cons,List.flatten_cons,List.flatten_cons,List.flatten_nil,
          List.append_nil,← List.append_assoc,List.mem_append] at listed
        rcases listed with own | predefined
        · exact absurd kept (capitals _ own first rfl)
        · exact absurd rfl
            ((Table.find?_eq_none_iff _ _).mp (unpredefined _ given) _ predefined)
      · cases held
  here := rfl
  words := rfl

/-- A line none of whose fields is an equate or a macro emits them as they stand. -/
theorem sourceLine_free {evaluate : Expression.Evaluator} {depth : Nat} {text head : Text}
    {arguments : List Text} {line : Nat} (emitted : Emitted texts state rows)
    (expanded : expandEmbedded evaluate (located state line) text = .ok text)
    (fields : Text.fields text = head :: arguments)
    (ordinary : head ∉ ([".equ",".macro",".endm"] : List Text))
    (unlabelled : head.getLast? ≠ some Byte.colon)
    (within : ∀ field ∈ head :: arguments, texts field) :
    sourceLine (readLine evaluate depth) none line text state =
      (emit (head :: arguments) line >>= fun _ => pure none) (located state line) := by
  have ready := emitted_located small emitted line
  rw [sourceLine_emit expanded fields ordinary (ready.free head (within head List.mem_cons_self))
    unlabelled (by rw [emitted.macros]; rfl),map_equated fun field member =>
      ready.free field (within field (List.mem_cons_of_mem head member))]

end emitted

/-- What is known after some lines of a listing. Equates begin with capitals, so that no field
of it is one. -/
structure Listed (state : State) (items : List Item) : Prop extends
    Emitted Small state (items.map Item.words) where
  statements : state.statements.toList.map (fun statement => (statement.line,statement.words)) =
    items.mapIdx fun index item => (index + 1,item.words)

theorem listed_start (verbose : Bool) : Listed (State.start .empty verbose) [] :=
  ⟨emitted_start (fun _ small => small) verbose fun _ _ => rfl,rfl⟩

theorem listed_note {state : State} {items : List Item} (listed : Listed state items) (text : Text) :
    Listed (state.note text) items := by
  refine ⟨emitted_note listed.toEmitted text,?_⟩
  rw [(sameCode_note state text).statements]
  exact listed.statements

theorem listed_located {state : State} {items : List Item} (listed : Listed state items) (line : Nat) :
    Listed (located state line) items :=
  ⟨emitted_located (fun _ small => small) listed.toEmitted line,listed.statements⟩

theorem listed_emission {state : State} {items : List Item} {item : Item}
    (listed : Listed state items)
    (fits : ((items ++ [item]).flatMap Item.words).length ≤ memorySize) :
    Listed (emission state item.fields (items.length + 1) (item.words.map .word)) (items ++ [item]) := by
  have spoken := emitted_words item.words
  have room : (items.map Item.words).flatten.length + item.words.length ≤ memorySize := by
    simpa [List.flatMap_def] using fits
  refine ⟨?_,?_⟩
  · rw [List.map_append]
    exact emitted_emission listed.toEmitted room item.fields (items.length + 1)
  · simp [emission,spoken,listed.statements,List.mapIdx_concat]

theorem head_item (item : Item) :
    ∃ head arguments, item.fields = head :: arguments ∧
      head ∉ ([".equ",".macro",".endm"] : List Text) := by
  cases item with
  | data word => exact ⟨_,_,rfl,by decide⟩
  | instruction opcode operands admitted => exact ⟨_,_,rfl,by cases opcode <;> decide⟩

/-- A line of a listing emits its item. -/
theorem sourceLine_item (evaluate : Expression.Evaluator) (depth : Nat) {state : State}
    {items : List Item} {item : Item} (listed : Listed state items)
    (fits : ((items ++ [item]).flatMap Item.words).length ≤ memorySize) :
    ∃ next, sourceLine (readLine evaluate depth) none (items.length + 1) item.line state =
        .ok none next ∧
      Listed next (items ++ [item]) := by
  have plain := plainWord_fields item
  have fields : Text.fields item.line = item.fields := fields_spaced plain
  have expanded : expandEmbedded evaluate (located state (items.length + 1)) item.line =
      .ok item.line := expandEmbedded_spaced evaluate plain _
  obtain ⟨head,arguments,begins,ordinary⟩ := head_item item
  have ready := listed_located listed (items.length + 1)
  have encoded : encodeFields (located state (items.length + 1)).labels item.fields =
      .ok (item.words.map .word) := by
    rw [ready.labels]
    exact encodeFields_item item
  have room : (located state (items.length + 1)).here.toNat +
      (item.words.map Operand.word).length ≤ memorySize := by
    simpa [ready.here,List.flatMap_def] using fits
  have emitted := emit_run (items.length + 1) (by rw [begins]; exact List.cons_ne_nil _ _)
    encoded room
  have reported := listed_note ready
    (report (located state (items.length + 1)) item.fields (item.words.map .word))
  have unlabelled : head.getLast? ≠ some Byte.colon :=
    unlabelled_plain (plain head (by rw [begins]; exact List.mem_cons_self))
  refine ⟨_,?_,listed_emission reported fits⟩
  rw [sourceLine_free (fun _ small => small) listed.toEmitted expanded (fields.trans begins)
    ordinary unlabelled (by rw [← begins]; exact small_fields item),← begins,bind_of_ok emitted]
  rfl

theorem sourceLines_items (evaluate : Expression.Evaluator) (depth : Nat) {state : State}
    {items : List Item} (rest : List Item) (before : Text) (listed : Listed state items)
    (fits : ((items ++ rest).flatMap Item.words).length ≤ memorySize) :
    ∃ final, sourceLines (readLine evaluate depth) items.length before none (rest.map Item.line)
        state = .ok () final ∧
      Listed final (items ++ rest) := by
  -- The lines read so far are the invariant's items, and the first of the rest joins them.
  induction rest generalizing state items before with
  | nil => exact ⟨state,rfl,by rwa [List.append_nil]⟩
  | cons item rest ih =>
    have plain := plainWord_fields item
    have whole : items ++ item :: rest = (items ++ [item]) ++ rest := by simp
    rw [whole] at fits ⊢
    have early : ((items ++ [item]).flatMap Item.words).length ≤ memorySize := by
      rw [List.flatMap_append,List.length_append] at fits
      omega
    have unreturned : Text.dropReturn item.line = item.line :=
      Text.dropReturn_absent (spaced_absent plain (by decide) (by decide))
    obtain ⟨next,read,listed'⟩ := sourceLine_item evaluate depth
      (listed_note listed (Text.ofNat (items.length + 1) ++ (": " : Text) ++ Text.dropReturn item.line))
      early
    have step := @sourceLines_step (readLine evaluate depth) items.length before item.line
      item.line (rest.map Item.line) none none state next (length_line item)
      (by rw [unreturned]; exact expandLiterals_spaced plain) read
    obtain ⟨final,run,listed''⟩ := ih item.line listed' fits
    rw [List.length_append] at run
    exact ⟨final,step.trans run,listed''⟩

/-- The two ways to write a listing: every line ended, or every line but the last. -/
def IsListing (source : Text) (items : List Item) : Prop :=
  source = Text.unlines (items.map Item.line) ∨
    source = Text.joinWith [Byte.newline] (items.map Item.line)

theorem lines_listing {source : Text} {items : List Item} (written : IsListing source items) :
    source.lines = items.map Item.line := by
  have single : ∀ line ∈ items.map Item.line, Byte.newline ∉ line := by
    intro line member
    obtain ⟨item,-,rfl⟩ := List.mem_map.mp member
    exact spaced_absent (plainWord_fields item) (by decide) (by decide)
  have given : ∀ line ∈ items.map Item.line, line ≠ [] := by
    intro line member
    obtain ⟨item,-,rfl⟩ := List.mem_map.mp member
    obtain ⟨head,arguments,begins,-⟩ := head_item item
    obtain ⟨b,after,-,first⟩ := spaced_first (plainWord_fields item head
      (by rw [begins]; exact List.mem_cons_self)) arguments
    change spaced item.fields ≠ []
    rw [begins,first]
    exact List.cons_ne_nil b after
  rcases written with rfl | rfl
  · exact Text.linesFrom_unlines single []
  · exact Text.linesFrom_joined single given []

/-- Assembling a listing that fits in memory gives back what is listed, whatever the
assembler has read before and whatever would evaluate its expressions. -/
theorem parse_listing {evaluate : Expression.Evaluator} {depth : Nat} {assembler : Assembler}
    {source : Text} {items : List Item}
    (unpredefined : assembler.predefines = .empty) (written : IsListing source items)
    (fits : (items.flatMap Item.words).length ≤ memorySize) :
    ∃ program left, assembler.parse evaluate depth source = (.ok program,left) ∧
      program.words = items.flatMap Item.words ∧
      program.statements.toList.map (fun statement => (statement.line,statement.words)) =
        items.mapIdx fun index item => (index + 1,item.words) := by
  obtain ⟨final,read,listed⟩ := sourceLines_items evaluate depth items []
    (listed_start assembler.verbose) fits
  rw [← lines_listing written,← unpredefined] at read
  have unlinked : resolveAll final.labels final.links.toList final.statements =
      .ok final.statements := by
    rw [listed.links]
    rfl
  have parsed := parse_of_lines read
  simp only [unlinked] at parsed
  have words : final.statements.toList.flatMap Statement.words = items.flatMap Item.words := by
    rw [List.flatMap_def,List.flatMap_def]
    exact congrArg List.flatten listed.words
  exact ⟨_,_,parsed,words,listed.statements⟩

theorem admitted_set : List.Forall₂ OperandClass.admits Opcode.set.operands [32769,32767] := by decide

theorem admitted_input : List.Forall₂ OperandClass.admits Opcode.input.operands [5] := by decide

/-- A word that names a register and words that name nothing, between instructions. -/
def mixedItems : List Item :=
  [.data 32775,.instruction .set [32769,32767] admitted_set,.data 65535,.data 0,
    .instruction .input [5] admitted_input,.instruction .halt [] .nil]

theorem parse_listing_mixed :
    ("in 5" : Text) ∈ mixedItems.map Item.line ∧
      ∃ program left, Assembler.parse Expression.evaluate 0 {} (Text.unlines (mixedItems.map Item.line)) =
          (.ok program,left) ∧
        program.words = [32775,1,32769,32767,65535,0,20,5,0] ∧
        program.statements.toList.map (fun statement => (statement.line,statement.words)) =
          [(1,[32775]),(2,[1,32769,32767]),(3,[65535]),(4,[0]),(5,[20,5]),(6,[0])] :=
  ⟨by decide,parse_listing rfl (.inl rfl) (by decide)⟩

end WordMachine.Assembly
