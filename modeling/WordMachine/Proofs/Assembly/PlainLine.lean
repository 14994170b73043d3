import Mathlib.Data.List.TakeWhile
import WordMachine.Assembly.Embedded
import WordMachine.Assembly.Line
import WordMachine.Proofs.Text.Pieces
import WordMachine.Proofs.Text.Spacing

/-! Lines made of plain words, which are letters, digits and the other bytes of names, with
single spaces between them. Nothing in such a line is a literal, a comment or an
expression, so it is read as it stands and its fields are its words. -/
namespace WordMachine

namespace Text

theorem before_append {byte : UInt8} {front : Text} (absent : byte ∉ front) (rest : Text) :
    before byte (front ++ rest) = front ++ before byte rest := by
  unfold before
  apply List.takeWhile_append_of_pos
  intro b member
  have different : b ≠ byte := fun same => absent (same ▸ member)
  simp [different]

theorem before_absent {byte : UInt8} {text : Text} (absent : byte ∉ text) : before byte text = text := by
  have whole := before_append absent []
  rw [List.append_nil] at whole
  rw [whole]
  exact List.append_nil text

theorem before_here (byte : UInt8) (rest : Text) : before byte (byte :: rest) = [] := by
  simp [before]

theorem dropReturn_absent {line : Text} (absent : Byte.carriageReturn ∉ line) :
    dropReturn line = line := by
  unfold dropReturn
  rw [if_neg]
  intro last
  exact absent (List.mem_of_getLast? last)

end Text

namespace Assembly

/-- Whether a byte may stand in a name after its first. -/
def isPlainByte (b : UInt8) : Bool := startsName b || Byte.isDigit b

structure PlainWord (word : Text) : Prop where
  given : word ≠ []
  bytes : ∀ b ∈ word, isPlainByte b = true

theorem plainWord_name {name : Text} (named : isName name = true) : PlainWord name := by
  cases name with
  | nil => cases named
  | cons first rest =>
    simp only [isName,Bool.and_eq_true,List.all_eq_true] at named
    refine ⟨List.cons_ne_nil first rest,?_⟩
    intro b member
    rcases List.mem_cons.mp member with rfl | later
    · simp [isPlainByte,named.1]
    · exact named.2 b later

theorem plainWord_ofNat (n : Nat) : PlainWord (Text.ofNat n) := by
  obtain ⟨b,rest,begins,-,-⟩ := Text.ofNat_first n
  refine ⟨by rw [begins]; exact List.cons_ne_nil b rest,?_⟩
  intro c member
  simp [isPlainByte,Text.isDigit_of_mem_ofNat member]

theorem isName_digit {b : UInt8} (digit : Byte.isDigit b = true) (rest : Text) :
    isName (b :: rest) = false := by
  have other : startsName b = false := by
    simp only [Byte.isDigit,Bool.and_eq_true,decide_eq_true_eq,UInt8.le_iff_toNat_le,
      UInt8.reduceToNat] at digit
    rw [← Bool.not_eq_true]
    simp only [startsName,Byte.isLetter,Byte.underscore,Byte.dot,Byte.atSign,Bool.or_eq_true,
      Bool.and_eq_true,decide_eq_true_eq,UInt8.le_iff_toNat_le,← UInt8.toNat_inj,UInt8.reduceToNat]
    omega
  simp [isName,other]

theorem ofNat_ne_name {name : Text} (named : isName name = true) (n : Nat) : Text.ofNat n ≠ name := by
  rintro rfl
  obtain ⟨b,rest,begins,digit,-⟩ := Text.ofNat_first n
  rw [begins,isName_digit digit rest] at named
  cases named

theorem plain_ne {b c : UInt8} (plain : isPlainByte b = true) (other : isPlainByte c = false) :
    b ≠ c := by
  rintro rfl
  rw [plain] at other
  cases other

theorem unlabelled_plain {word : Text} (plain : PlainWord word) : word.getLast? ≠ some Byte.colon := by
  intro last
  cases plain.bytes _ (List.mem_of_getLast? last)

theorem blankWidth_plain {b : UInt8} (plain : isPlainByte b = true) (rest : Text) :
    Text.blankWidth (b :: rest) = 0 := by
  simp only [isPlainByte,startsName,Byte.isLetter,Byte.isDigit,Byte.underscore,Byte.dot,
    Byte.atSign,Bool.or_eq_true,Bool.and_eq_true,decide_eq_true_eq,UInt8.le_iff_toNat_le,
    ← UInt8.toNat_inj,UInt8.reduceToNat] at plain
  apply Text.blankWidth_ascii
  · simp only [UInt8.lt_iff_toNat_lt,UInt8.reduceToNat]
    omega
  · simp only [UInt8.lt_iff_toNat_lt,UInt8.reduceToNat]
    omega

theorem blankWidth_space (rest : Text) : Text.blankWidth (Byte.space :: rest) = 1 := rfl

theorem blanks_space : Text.Blanks [Byte.space] := .cons (blankWidth_space []) .nil

theorem fields_space (rest : Text) : Text.fields (Byte.space :: rest) = Text.fields rest :=
  Text.fields_blanks blanks_space rest

/-- The line of some words. -/
def spaced (words : List Text) : Text := Text.joinWith [Byte.space] words

theorem spaced_cons (word next : Text) (rest : List Text) :
    spaced (word :: next :: rest) = word ++ Byte.space :: spaced (next :: rest) := by
  simp [spaced,Text.joinWith,List.intercalate_cons_cons]

theorem spaced_singleton (word : Text) : spaced [word] = word := by
  simp [spaced,Text.joinWith]

theorem spaced_flatMap (word : Text) (words : List Text) :
    spaced (word :: words) = word ++ words.flatMap fun next => Byte.space :: next := by
  induction words generalizing word with
  | nil =>
    rw [spaced_singleton,List.flatMap_nil]
    exact (List.append_nil word).symm
  | cons next words ih =>
    rw [spaced_cons,ih,List.flatMap_cons]
    rfl

theorem mem_spaced {words : List Text} {b : UInt8} (member : b ∈ spaced words) :
    (∃ word ∈ words, b ∈ word) ∨ b = Byte.space := by
  induction words with
  | nil => simp [spaced,Text.joinWith] at member
  | cons word rest ih =>
    cases rest with
    | nil =>
      rw [spaced_singleton] at member
      exact .inl ⟨word,List.mem_cons_self,member⟩
    | cons next rest =>
      rw [spaced_cons,List.mem_append,List.mem_cons] at member
      rcases member with inside | blank | after
      · exact .inl ⟨word,List.mem_cons_self,inside⟩
      · exact .inr blank
      · rcases ih after with ⟨other,later,inside⟩ | blank
        · exact .inl ⟨other,List.mem_cons_of_mem word later,inside⟩
        · exact .inr blank

theorem spaced_bytes {words : List Text} (plain : ∀ word ∈ words, PlainWord word) {b : UInt8}
    (member : b ∈ spaced words) : isPlainByte b = true ∨ b = Byte.space := by
  rcases mem_spaced member with ⟨word,listed,inside⟩ | blank
  · exact .inl ((plain word listed).bytes b inside)
  · exact .inr blank

theorem visible_plain {word : Text} (plain : PlainWord word) : Text.Visible word :=
  ⟨plain.given,fun b member => blankWidth_plain (plain.bytes b member)⟩

theorem fields_spaced_append {words : List Text} {rest : Text}
    (visible : ∀ word ∈ words, Text.Visible word) (ended : rest = [] ∨ Text.blankWidth rest ≠ 0) :
    Text.fields (spaced words ++ rest) = words ++ Text.fields rest := by
  induction words with
  | nil => rfl
  | cons word others ih =>
    have first := visible word List.mem_cons_self
    have later := ih fun other member => visible other (List.mem_cons_of_mem word member)
    cases others with
    | nil =>
      rw [spaced_singleton,Text.fields_word first ended]
      rfl
    | cons next others =>
      rw [spaced_cons,List.append_assoc,List.cons_append,
        Text.fields_word first (.inr (by rw [blankWidth_space]; exact Nat.one_ne_zero)),
        fields_space,later]
      rfl

theorem fields_spaced {words : List Text} (plain : ∀ word ∈ words, PlainWord word) :
    Text.fields (spaced words) = words := by
  have whole := fields_spaced_append (fun word member => visible_plain (plain word member)) (.inl rfl)
  rw [List.append_nil] at whole
  rw [whole]
  exact List.append_nil words

/-- Only a blank at the end is lost, so a text that ends otherwise is kept. -/
theorem keptFrom_line {text : Text} (blanks kept : Text)
    (bytes : ∀ b ∈ text, isPlainByte b = true ∨ b = Byte.space)
    (ended : text.getLast? ≠ some Byte.space) (pending : text = [] → blanks = []) :
    Text.keptFrom 0 blanks kept text = kept.reverse ++ (blanks.reverse ++ text) := by
  induction text generalizing blanks kept with
  | nil => simp [Text.keptFrom,pending rfl]
  | cons b rest ih =>
    have later : ∀ c ∈ rest, isPlainByte c = true ∨ c = Byte.space :=
      fun c member => bytes c (List.mem_cons_of_mem b member)
    have ended' : rest.getLast? ≠ some Byte.space := by
      intro last
      apply ended
      rw [List.getLast?_cons,last]
      rfl
    rcases bytes b List.mem_cons_self with plain | rfl
    · rw [Text.keptFrom,blankWidth_plain plain]
      simp only
      rw [ih [] _ later ended' fun _ => rfl]
      simp
    · rw [Text.keptFrom,blankWidth_space]
      simp only
      rw [ih _ kept later ended' ?_]
      · simp
      · rintro rfl
        exact absurd rfl ended

theorem spaced_first {word : Text} (plain : PlainWord word) (rest : List Text) :
    ∃ b after, isPlainByte b = true ∧ spaced (word :: rest) = b :: after := by
  obtain ⟨given,bytes⟩ := plain
  obtain ⟨b,word,rfl⟩ := List.exists_cons_of_ne_nil given
  have first := bytes b List.mem_cons_self
  cases rest with
  | nil => exact ⟨b,word,first,spaced_singleton _⟩
  | cons next rest => exact ⟨b,_,first,spaced_cons _ next rest⟩

theorem spaced_last {words : List Text} (plain : ∀ word ∈ words, PlainWord word) :
    (spaced words).getLast? ≠ some Byte.space := by
  induction words with
  | nil => simp [spaced,Text.joinWith]
  | cons word rest ih =>
    have first := plain word List.mem_cons_self
    have later : ∀ word ∈ rest, PlainWord word :=
      fun other inside => plain other (List.mem_cons_of_mem word inside)
    cases rest with
    | nil =>
      rw [spaced_singleton]
      intro last
      cases first.bytes _ (List.mem_of_getLast? last)
    | cons next rest =>
      obtain ⟨b,after,-,begins⟩ := spaced_first (later next List.mem_cons_self) rest
      have ended := ih later
      rw [begins,List.getLast?_eq_some_getLast (List.cons_ne_nil b after)] at ended
      rw [spaced_cons,begins,List.getLast?_append,List.getLast?_cons_cons,
        List.getLast?_eq_some_getLast (List.cons_ne_nil b after)]
      exact ended

theorem trim_spaced {words : List Text} (plain : ∀ word ∈ words, PlainWord word) :
    Text.trim (spaced words) = spaced words := by
  have begun : Text.dropBlanks 0 (spaced words) = spaced words := by
    cases words with
    | nil => rfl
    | cons word rest =>
      obtain ⟨b,after,first,begins⟩ := spaced_first (plain word List.mem_cons_self) rest
      rw [begins,Text.dropBlanks,blankWidth_plain first]
  unfold Text.trim
  rw [begun,keptFrom_line [] [] (fun _ => spaced_bytes plain) (spaced_last plain) fun _ => rfl]
  rfl

theorem spaced_absent {words : List Text} {byte : UInt8} (plain : ∀ word ∈ words, PlainWord word)
    (other : isPlainByte byte = false) (visible : byte ≠ Byte.space) : byte ∉ spaced words := by
  intro member
  rcases spaced_bytes plain member with inside | blank
  · exact plain_ne inside other rfl
  · exact visible blank

theorem unquoted_absent {text : Text} (absent : Byte.quote ∉ text) :
    ∀ b ∈ text, ∀ rest, Text.stringLength (b :: rest) = 0 := by
  intro b member rest
  have other : b ≠ Byte.quote := fun same => absent (same ▸ member)
  rw [Text.stringLength,if_neg other]

theorem unmarked_absent {text : Text} (absent : Byte.apostrophe ∉ text) :
    ∀ b ∈ text, ∀ rest, Text.characterLength (b :: rest) = 0 := by
  intro b member rest
  have other : b ≠ Byte.apostrophe := fun same => absent (same ▸ member)
  simp only [Text.characterLength,if_neg other]

theorem any_plain (text : Text) : (text.map Text.Piece.plain).any isBadString = false := by
  simp [isBadString]

/-- A text without literals and without a comment. -/
structure Bare (text : Text) : Prop where
  unquoted : Byte.quote ∉ text
  unmarked : Byte.apostrophe ∉ text
  uncommented : Byte.semicolon ∉ text

instance (text : Text) : Decidable (Bare text) :=
  decidable_of_iff (Byte.quote ∉ text ∧ Byte.apostrophe ∉ text ∧ Byte.semicolon ∉ text)
    ⟨fun absent => ⟨absent.1,absent.2.1,absent.2.2⟩,
      fun bare => ⟨bare.unquoted,bare.unmarked,bare.uncommented⟩⟩

theorem expandLiterals_bare {text : Text} (bare : Bare text) :
    expandLiterals text = .ok (Text.trim text) := by
  unfold expandLiterals
  simp only [Text.pieces_unmatched (unquoted_absent bare.unquoted),any_plain,Bool.false_eq_true,
    if_false,expandStrings,Text.expand_plain,Text.replaceMatches,
    Text.pieces_unmatched (unmarked_absent bare.unmarked)]
  rw [Text.before_absent bare.uncommented]

theorem expandLiterals_spaced {words : List Text} (plain : ∀ word ∈ words, PlainWord word) :
    expandLiterals (spaced words) = .ok (spaced words) := by
  have bare : Bare (spaced words) :=
    ⟨spaced_absent plain (by decide) (by decide),spaced_absent plain (by decide) (by decide),
      spaced_absent plain (by decide) (by decide)⟩
  rw [expandLiterals_bare bare,trim_spaced plain]

theorem joinPieces_plain (evaluate : Expression.Evaluator) (symbols : Text → Option Int)
    (done text : Text) (rest : List (Except Error Text)) :
    joinPieces done none ((text.map .plain).map (pieceText evaluate symbols) ++ rest) =
      joinPieces (text.reverse ++ done) none rest := by
  induction text generalizing done with
  | nil => rfl
  | cons b text ih =>
    rw [List.map_cons,List.map_cons,List.cons_append,pieceText,joinPieces,ih]
    simp

theorem expandEmbedded_unembedded (evaluate : Expression.Evaluator) {text : Text}
    (unembedded : ¬ [Byte.dollar,Byte.parenOpen] <:+: text) (state : State) :
    expandEmbedded evaluate state text = .ok text := by
  have plain : Text.pieces embeddedLength text = text.map .plain := by
    induction text with
    | nil => rfl
    | cons b rest ih =>
      rw [List.infix_cons_iff,not_or] at unembedded
      have unmatched : embeddedLength (b :: rest) = 0 := by
        cases rest with
        | nil => rfl
        | cons c rest =>
          have unopened : ¬ (b = Byte.dollar ∧ c = Byte.parenOpen) := by
            rintro ⟨rfl,rfl⟩
            exact unembedded.1 (List.prefix_append [Byte.dollar,Byte.parenOpen] rest)
          simp [embeddedLength,unopened]
      rw [Text.pieces_byte unmatched,ih unembedded.2]
      rfl
  unfold expandEmbedded
  rw [plain,← List.append_nil (List.map _ _),joinPieces_plain]
  simp [joinPieces]

theorem unembedded_absent {text : Text} (absent : Byte.dollar ∉ text) :
    ¬ [Byte.dollar,Byte.parenOpen] <:+: text :=
  fun embedded => absent (embedded.subset List.mem_cons_self)

theorem expandEmbedded_spaced (evaluate : Expression.Evaluator) {words : List Text}
    (plain : ∀ word ∈ words, PlainWord word) (state : State) :
    expandEmbedded evaluate state (spaced words) = .ok (spaced words) :=
  expandEmbedded_unembedded evaluate
    (unembedded_absent (spaced_absent plain (by decide) (by decide))) state

end Assembly
end WordMachine
