import WordMachine.Proofs.Assembly.Factoring
import WordMachine.Proofs.Assembly.Placement
import WordMachine.Proofs.Expression.Identifiers

/-! Symbols as operands and in expressions. An operand is replaced by its equate and then read
as a register, a label or a number, while an expression looks for an equate that is a number
and then for a label. Unless a label is hidden from the operand, both find the same. -/
namespace WordMachine.Assembly

open Expression (isIdentifier)

def dataLine (operand : Text) : Text := spaced [".data", operand]

def embedded (name : Text) : Text := Byte.dollar :: Byte.parenOpen :: name ++ [Byte.parenClose]

/-- The name has a label that an expression sees and an operand does not: there is an equate of
that name which is no number, or there is none and the name is that of a register. -/
def HidesLabel (state : State) (name : Text) : Prop :=
  (state.labels.find? name).isSome = true ∧
    (((state.equates.find? name).map fun value => (valueOf value).toOption) = some none ∨
      state.equates.find? name = none ∧ (register? name).isSome = true)

section names

variable {text : Text} {word : Word}

theorem register?_name (named : register? text = some word) : isName text = true := by
  rcases text with _ | ⟨r,_ | ⟨digit,_ | ⟨b,rest⟩⟩⟩
  case cons.cons.nil =>
    rw [register?] at named
    split at named
    · next shaped =>
      simp only [Bool.and_eq_true,decide_eq_true_eq] at shaped
      obtain ⟨⟨rfl,least⟩,most⟩ := shaped
      have digits : Byte.isDigit digit = true := by
        simp only [Byte.isDigit,Bool.and_eq_true,decide_eq_true_eq,UInt8.le_iff_toNat_le,
          UInt8.reduceToNat] at least most ⊢
        omega
      have letter : startsName 0x72 = true := by decide
      simp [isName,letter,digits]
    · cases named
  all_goals cases named

/-- A letter is no decimal digit, and an underscore has to follow one. -/
theorem valueFrom_name {b : UInt8} (begins : startsName b = true) (rest : Text) :
    Text.valueFrom 10 false 0 (b :: rest) = none := by
  have large : ∀ digit ∈ Byte.digitValue? b, ¬ digit < 10 := by
    intro digit found
    have other : Byte.isDigit b = false := by
      cases digits : Byte.isDigit b with
      | false => rfl
      | true =>
        have unnamed := isName_digit digits []
        simp [isName,begins] at unnamed
    unfold Byte.digitValue? at found
    rw [if_neg (by simp [other])] at found
    split at found
    · cases found
      omega
    · cases found
  rw [Text.valueFrom]
  split
  · rfl
  · split
    · next digit found => rw [if_neg (large digit found)]
    · rfl

/-- No name is a number. -/
theorem unnamed_of_valueOf (value : valueOf text = .ok word) : isName text = false := by
  cases named : isName text with
  | false => rfl
  | true =>
    exfalso
    cases text with
    | nil => cases named
    | cons b rest =>
      have begins : startsName b = true := (Bool.and_eq_true_iff.mp named).1
      have other : ∀ c : UInt8, startsName c = false → b ≠ c := by
        rintro c differs rfl
        rw [begins] at differs
        cases differs
      have whole : valueOf (b :: rest) = numberWord (b :: rest) := by
        cases rest with
        | nil => rfl
        | cons c rest => rw [valueOf,if_neg (other Byte.tilde (by decide))]
      have natural : Text.natural? (b :: rest) = none := by
        unfold Text.natural?
        cases rest with
        | nil => exact valueFrom_name begins []
        | cons c rest =>
          rw [Text.digitsOf,if_neg (other Byte.zero (by decide))]
          exact valueFrom_name begins (c :: rest)
      have unread : Text.integer? 32 (b :: rest) = none := by
        unfold Text.integer?
        simp only [if_neg (other Byte.minus (by decide)),if_neg (other Byte.plus (by decide)),natural]
        rfl
      rw [whole,numberWord,unread] at value
      cases value

end names

section meaning

variable {state : State} {name : Text}

/-- What a name means in an expression is the number of a word. -/
theorem symbolValue?_word {value : Int} (bound : symbolValue? state name = some value) :
    ∃ word : Word, value = word.toNat := by
  unfold symbolValue? at bound
  split at bound
  · next word _ =>
    cases bound
    exact ⟨word,rfl⟩
  · obtain ⟨addr,-,rfl⟩ := Option.map_eq_some_iff.mp bound
    exact ⟨addr,rfl⟩

/-- An operand has the value that its name has in an expression, unless it does not see the
label. -/
theorem reads_symbol {word value : Word} (shaped : isName name = true)
    (visible : ¬ HidesLabel state name)
    (bound : symbolValue? state name = some (value.toNat : Int))
    (reads : Reads state.labels (equated state name) (.word word)) : word = value := by
  unfold symbolValue? at bound
  unfold equated at reads
  cases equate : state.equates.find? name with
  | some text =>
    rw [equate] at bound reads
    rw [Option.getD_some] at reads
    cases number : valueOf text with
    | ok written =>
      simp only [Option.map_some,number] at bound
      have same : written = value := UInt16.toNat_inj.mp (Int.ofNat_inj.mp (Option.some.inj bound))
      have unnamed := unnamed_of_valueOf number
      cases reads with
      | register _ named =>
        rw [register?_name named] at unnamed
        cases unnamed
      | known _ _ named _ =>
        rw [named] at unnamed
        cases unnamed
      | number _ _ _ read =>
        rw [number] at read
        cases read
        exact same
    | error error =>
      simp only [Option.map_some,number] at bound
      obtain ⟨addr,found,-⟩ := Option.map_eq_some_iff.mp bound
      refine absurd ⟨by rw [found]; rfl,.inl ?_⟩ visible
      rw [equate,Option.map_some,number]
      rfl
  | none =>
    rw [equate] at bound reads
    rw [Option.getD_none] at reads
    simp only [Option.map_none] at bound
    obtain ⟨addr,found,same⟩ := Option.map_eq_some_iff.mp bound
    have same : addr = value := UInt16.toNat_inj.mp (Int.ofNat_inj.mp same)
    cases reads with
    | register _ named => exact absurd ⟨by rw [found]; rfl,.inr ⟨equate,by rw [named]; rfl⟩⟩ visible
    | known _ _ _ known =>
      rw [found] at known
      cases known
      exact same
    | number _ _ unshaped _ =>
      rw [shaped] at unshaped
      cases unshaped

theorem reads_ofNat {labels : Table Word} {word : Word} {operand : Operand}
    (reads : Reads labels (Text.ofNat word.toNat) operand) : operand = .word word := by
  have value := valueOf_ofNat word
  have unnamed := unnamed_of_valueOf value
  cases reads with
  | register _ named =>
    rw [register?_name named] at unnamed
    cases unnamed
  | known _ _ named _ | waiting _ named =>
    rw [named] at unnamed
    cases unnamed
  | number _ _ _ read =>
    rw [value] at read
    cases read
    rfl

end meaning

section expansion

theorem lastClose_snoc (text : Text) : lastClose (text ++ [Byte.parenClose]) = some text.length := by
  unfold lastClose
  rw [List.zipIdx_append]
  simp

variable {name : Text} (whole : Byte.dollar ∉ name)
include whole

theorem embeddedLength_embedded : embeddedLength (embedded name) = (embedded name).length := by
  have all : (name ++ [Byte.parenClose]).takeWhile (· != Byte.dollar) = name ++ [Byte.parenClose] := by
    apply List.takeWhile_eq_self_iff.mpr
    intro b member
    rw [bne_iff_ne]
    rintro rfl
    rcases List.mem_append.mp member with inside | closing
    · exact whole inside
    · cases List.mem_singleton.mp closing
  rw [embedded,List.cons_append,List.cons_append,embeddedLength,if_pos (by decide),all,lastClose_snoc]
  simp

/-- An expression that is a name is replaced by the numeral of its value. -/
theorem expandEmbedded_data (evaluate : Expression.Evaluator) (state : State) :
    expandEmbedded evaluate state (dataLine (embedded name)) =
      (evaluateEmbedded evaluate (symbolValue? state) name).map fun value => dataLine (Text.ofInt value) := by
  have split : ∀ operand : Text, dataLine operand = (".data " : Text) ++ operand := by
    intro operand
    rw [dataLine,spaced_cons,spaced_singleton]
    rfl
  have unmatched : ∀ b ∈ (".data " : Text), ∀ rest, embeddedLength (b :: rest) = 0 := by
    have undollared : ∀ b ∈ (".data " : Text), b ≠ Byte.dollar := by decide +kernel
    intro b member rest
    cases rest with
    | nil => rfl
    | cons c rest => simp [embeddedLength,undollared b member]
  have found : Text.pieces embeddedLength (embedded name) = [.found (embedded name)] := by
    have cut := @Text.pieces_match embeddedLength (embedded name) [] (List.cons_ne_nil _ _)
      (by rw [List.append_nil]; exact embeddedLength_embedded whole)
    rw [List.append_nil] at cut
    exact cut
  have inner : embeddedText (embedded name) = name := by
    simp [embeddedText,embedded]
  unfold expandEmbedded
  rw [split,Text.pieces_append unmatched,List.map_append,joinPieces_plain,found,List.map_singleton,
    pieceText,inner]
  cases evaluateEmbedded evaluate (symbolValue? state) name with
  | error error => rfl
  | ok value =>
    simp [Except.map,joinPieces,split]

end expansion

theorem data_words {operand : Text} (plain : PlainWord operand) :
    ∀ word ∈ ([".data", operand] : List Text), PlainWord word := by
  have head : PlainWord ".data" := plainWord_name (by decide +kernel)
  simp [head,plain]

section line

variable {evaluate : Expression.Evaluator} {state next : State} {line depth : Nat}
  {text operand : Text}
  (expanded : expandEmbedded evaluate (located state line) text = .ok (dataLine operand))
  (plain : PlainWord operand)
  (directive : isDirective (equated (located state line) ".data") = true)
include expanded plain directive

theorem statementFields_data :
    statementFields (expandEmbedded evaluate) text line state =
      .ok [equated (located state line) ".data", equated (located state line) operand]
        (located state line) := by
  have unlabelled : (equated (located state line) ".data").getLast? ≠ some Byte.colon := by
    simp only [isDirective,Bool.or_eq_true,decide_eq_true_eq] at directive
    rcases directive with data | string
    · rw [data]
      decide +kernel
    · rw [string]
      decide +kernel
  rw [statementFields_ok expanded,dataLine,fields_spaced (data_words plain),
    statementOf_other (by decide +kernel)]
  exact takeLabels_statement _ _ unlabelled

/-- A data line that is accepted emits the word of its operand. -/
theorem readLine_data (named : Named state.labels)
    (operation : state.macros.find? (equated (located state line) ".data") = none)
    (read : readLine evaluate depth text line state = .ok () next) :
    ∃ value, Reads state.labels (equated (located state line) operand) value ∧
      next.statements = state.statements.push ⟨line, state.here,
        [equated (located state line) ".data", equated (located state line) operand],
        [value.emitted]⟩ ∧
      next.links = state.links.appendList (pendingLinks state.statements.size [value]) := by
  obtain ⟨left,between,taken,performs⟩ := readLine_performs read
  rw [statementFields_data expanded plain directive] at taken
  cases taken
  cases performs with
  | expanded found =>
    change state.macros.find? _ = _ at found
    rw [operation] at found
    cases found
  | emitted _ ran =>
    obtain ⟨operands,encoded,rfl⟩ := emit_success (List.cons_ne_nil _ _) ran
    have same := sameCode_note (located state line)
    have encoded := encodeFields_encoded named (List.cons_ne_nil _ _) encoded
    cases encoded with
    | instruction _ _ _ _ instructs =>
      rw [directive] at instructs
      cases instructs
    | data _ _ _ _ reads =>
      obtain ⟨value,rest,first,others,rfl⟩ := List.forall₂_cons_left_iff.mp reads
      cases List.forall₂_nil_left_iff.mp others
      refine ⟨value,first,?_,?_⟩
      · unfold emission
        rw [here_congr (same _),(same _).statements]
        rfl
      · unfold emission
        rw [(same _).links,(same _).statements]
        rfl

end line

theorem word_of_resolved {links : Array Link} {index : Nat} {value : Operand}
    (resolved : links.appendList (pendingLinks index [value]) = links) : ∃ word, value = .word word := by
  cases value with
  | word word => exact ⟨word,rfl⟩
  | label name =>
    have sized := congrArg Array.size resolved
    change (links.appendList [_]).size = _ at sized
    simp at sized

theorem named_stable : Stable fun state => Named state.labels where
  silent := by
    intro before after same named
    rw [same.labels]
    exact named
  label := fun state name shaped _ named => named_insert state.here named shaped
  emission := fun _ _ _ _ _ _ _ named => named

theorem sourceTurn_holds {evaluate : Expression.Evaluator} {depth : Nat} {holds : State → Prop}
    (stable : Stable holds) {lines : List Text} {start : State} {turn : Turn} (held : holds start)
    (made : SourceTurn evaluate depth lines start turn) : holds turn.state := by
  obtain ⟨-,ran,-,-,made⟩ := made
  have before := keeps_success (keeps_readLines stable (keeps_readLine stable evaluate depth) 0 []
    none _) held ran
  exact lineTurn_holds stable made (stable.silent _ _ (sameCode_note _ _) before)

section identifier

variable {name : Text} (identifier : isIdentifier name = true)
include identifier

theorem isName_identifier : isName name = true := by
  obtain ⟨b,rest,rfl,first,bytes⟩ := Expression.identifier_shape identifier
  rw [isName,Bool.and_eq_true_iff,List.all_eq_true]
  constructor
  · simp only [Bool.or_eq_true] at first
    simp only [startsName,Bool.or_eq_true]
    exact .inl (.inl first)
  · intro c later
    have byte := bytes c (List.mem_cons_of_mem b later)
    simp only [Expression.isNameByte,Bool.or_eq_true] at byte
    simp only [startsName,Bool.or_eq_true]
    rcases byte with (letter | digit) | underscore
    · exact .inl (.inl (.inl (.inl letter)))
    · exact .inr digit
    · exact .inl (.inl (.inl (.inr underscore)))

/-- A data line with an identifier for an expression is only accepted with the number that the
symbol stands for. -/
theorem embedded_expanded {evaluate : Expression.Evaluator}
    (bindings : Expression.GivesBindings evaluate) {state next : State} {line depth : Nat}
    (read : readLine evaluate depth (dataLine (embedded name)) line state = .ok () next) :
    ∃ number : Word, symbolValue? (located state line) name = some (number.toNat : Int) ∧
      expandEmbedded evaluate (located state line) (dataLine (embedded name)) =
        .ok (dataLine (Text.ofNat number.toNat)) := by
  have undollared : Byte.dollar ∉ name := by
    intro member
    cases (plainWord_name (isName_identifier identifier)).bytes _ member
  have expands := expandEmbedded_data undollared evaluate (located state line)
  cases valued : evaluateEmbedded evaluate (symbolValue? (located state line)) name with
  | error error =>
    rw [valued] at expands
    obtain ⟨left,between,taken,-⟩ := readLine_performs read
    rw [statementFields_error expands] at taken
    cases taken
  | ok value =>
    rw [valued] at expands
    have bound : symbolValue? (located state line) name = some value := by
      unfold evaluateEmbedded at valued
      split at valued
      · next integer =>
        cases valued
        exact bindings _ _ _ identifier integer
      · cases valued
      · cases valued
    obtain ⟨number,rfl⟩ := symbolValue?_word bound
    exact ⟨number,bound,expands⟩

end identifier

/-- A symbol means the same as an operand and in an expression. At every line that is read for
a source, whether it stands there or in a macro, a data line with an identifier emits the same
word as one with the expression that is this identifier, if both are accepted and the operand
waits for no label. Excepted is a label that the operand does not see, a value whose numeral is
itself the name of an equate, and a source that gives the name of the directive another
meaning. Of what evaluates expressions it is only asked that identifiers give what is bound to
them. -/
theorem symbol_means_same {evaluate : Expression.Evaluator}
    (bindings : Expression.GivesBindings evaluate) {limit : Nat} {assembler : Assembler}
    {source : Text} {turn : Turn} (reached : turn.ReadBy evaluate limit assembler source)
    {name : Text} (identifier : isIdentifier name = true)
    (directive : isDirective (equated turn.scope ".data") = true)
    (operation : turn.state.macros.find? (equated turn.scope ".data") = none)
    (visible : ¬ HidesLabel turn.scope name)
    (unrenamed : ∀ value, symbolValue? turn.scope name = some value →
      turn.scope.equates.find? (Text.ofInt value) = none)
    {depth depth' : Nat} {next next' : State}
    (plain : readLine evaluate depth (dataLine name) turn.line turn.state = .ok () next)
    (resolved : next.links = turn.state.links)
    (evaluated : readLine evaluate depth' (dataLine (embedded name)) turn.line turn.state =
      .ok () next') :
    ∃ (word : Word) (head field field' : Text),
      symbolValue? turn.scope name = some (word.toNat : Int) ∧
      next.statements = turn.state.statements.push
        ⟨turn.line, turn.state.here, [head, field], [word]⟩ ∧
      next'.statements = turn.state.statements.push
        ⟨turn.line, turn.state.here, [head, field'], [word]⟩ := by
  have named : Named turn.state.labels := by
    apply sourceTurn_holds named_stable _ reached
    intro _ _ found
    cases found
  have shaped := isName_identifier identifier
  have written := plainWord_name shaped
  obtain ⟨number,bound,expanded⟩ := embedded_expanded identifier bindings evaluated
  have kept : equated turn.scope (Text.ofNat number.toNat) = Text.ofNat number.toNat := by
    rw [equated,show turn.scope.equates.find? (Text.ofNat number.toNat) = none from
      unrenamed _ bound,Option.getD_none]
  obtain ⟨value,reads,pushed,linked⟩ := readLine_data
    (expandEmbedded_spaced evaluate (data_words written) turn.scope) written directive named
    operation plain
  obtain ⟨value',reads',pushed',-⟩ :=
    readLine_data expanded (plainWord_ofNat number.toNat) directive named operation evaluated
  change Reads turn.state.labels (equated turn.scope (Text.ofNat number.toNat)) value' at reads'
  rw [kept] at reads'
  cases reads_ofNat reads'
  rw [resolved] at linked
  obtain ⟨word,rfl⟩ := word_of_resolved linked.symm
  cases reads_symbol shaped visible bound reads
  exact ⟨number,_,_,_,bound,pushed,pushed'⟩

/-- A label and an equate with one name, the equate being a number that is inverted. -/
def doubledLines : List Text := ["noop", "K: noop", ".equ K ~5"]

def doubledState : State :=
  stateAfter (readLines (readLine Expression.evaluate 0) 0 [] none doubledLines
    (State.start .empty false))

def doubledTurn : Turn where
  text := ".data K"
  line := 4
  state := numbered doubledState 4 ".data K"

theorem symbol_means_same_doubled :
    doubledTurn.ReadBy Expression.evaluate 0 {}
      (Text.unlines (doubledLines ++ [(".data K" : Text)])) ∧
    doubledTurn.scope.labels.find? "K" = some 1 ∧
    ∃ next next' head field field',
      readLine Expression.evaluate 0 (dataLine "K") 4 doubledTurn.state = .ok () next ∧
      readLine Expression.evaluate 0 (dataLine (embedded "K")) 4 doubledTurn.state =
        .ok () next' ∧
      next.statements = doubledTurn.state.statements.push ⟨4, 2, [head, field], [32762]⟩ ∧
      next'.statements = doubledTurn.state.statements.push ⟨4, 2, [head, field'], [32762]⟩ := by
  have lines : (Text.unlines (doubledLines ++ [(".data K" : Text)])).lines =
      doubledLines ++ [(".data K" : Text)] := by decide +kernel
  have read : (readLines (readLine Expression.evaluate 0) 0 [] none doubledLines).run'
      (State.start .empty false) = some ((".equ K ~5" : Text), none) := by decide +kernel
  have reached : doubledTurn.ReadBy Expression.evaluate 0 {}
      (Text.unlines (doubledLines ++ [(".data K" : Text)])) :=
    .read lines (ok_of_run' read) (by decide +kernel) (by decide +kernel) (.own _ _ _ _)
  have visible : ¬ HidesLabel doubledTurn.scope "K" := by
    unfold HidesLabel
    decide +kernel
  have bound : symbolValue? doubledTurn.scope "K" = some 32762 := by decide +kernel
  have plain : failureOf (readLine Expression.evaluate 0 (dataLine "K") 4 doubledTurn.state) =
      none := by decide +kernel
  have resolved : (stateAfter (readLine Expression.evaluate 0 (dataLine "K") 4
      doubledTurn.state)).links = doubledTurn.state.links := by decide +kernel
  have evaluated : failureOf (readLine Expression.evaluate 0 (dataLine (embedded "K")) 4
      doubledTurn.state) = none := by decide +kernel
  obtain ⟨_,first⟩ := ok_of_failureOf plain
  obtain ⟨_,second⟩ := ok_of_failureOf evaluated
  obtain ⟨word,head,field,field',value,pushed,pushed'⟩ :=
    symbol_means_same Expression.evaluate_givesBindings reached (by decide +kernel)
      (by decide +kernel) (by decide +kernel) visible
      (by
        rw [bound]
        rintro value same
        cases same
        decide +kernel) first resolved second
  rw [bound] at value
  have same : word = 32762 := by
    apply UInt16.toNat_inj.mp
    exact (Int.ofNat_inj.mp (Option.some.inj value)).symm
  subst same
  have here : doubledTurn.state.here = 2 := by decide +kernel
  rw [here] at pushed pushed'
  exact ⟨reached,by decide +kernel,_,_,head,field,field',first,second,pushed,pushed'⟩

/-- A symbol may mean two things: where its equate is a register or where it is the name of a
register, if it is a label too, and where the numeral of its value or the directive has another
meaning in its place. -/
theorem symbol_meanings_differ :
    imageOf ["N: noop", ".equ N r0", ".data N", ".data $(N)"] = some [21, 32768, 0] ∧
    imageOf ["r0: noop", ".data r0", ".data $(r0)"] = some [21, 32768, 0] ∧
    imageOf ["N: noop", ".macro m 0", ".data N", ".data $(N)", ".endm", "m 7"] =
      some [21, 0, 7] ∧
    imageOf ["N: noop", ".macro .data x", "x", ".endm", ".macro N", ".string 1", ".endm",
      ".macro 0", ".string 2", ".endm", ".data N", ".data $(N)"] = some [21, 1, 2] := by
  decide +kernel

end WordMachine.Assembly
