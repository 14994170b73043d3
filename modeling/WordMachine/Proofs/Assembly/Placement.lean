import WordMachine.Emulator
import WordMachine.Proofs.Assembly.Listing
import WordMachine.Proofs.Assembly.Turns

/-! Where the statements of a source come to lie. They tile the image in the order in which
they are emitted, so that every label and the address of a line is the length of what was
emitted before it. An address is traced back to its statement and the line of that. -/
namespace WordMachine.Assembly

/-- The lines that are read for those of a source, whether they stand in it or in a macro. -/
inductive SourceTurn (evaluate : Expression.Evaluator) (depth : Nat) (lines : List Text)
    (start : State) (turn : Turn) : Prop
  | read {before rest : List Text} {raw earlier text : Text} {state : State}
      (whole : lines = before ++ raw :: rest)
      (ran : readLines (readLine evaluate depth) 0 [] none before start = .ok (earlier,none) state)
      (literals : expandLiterals (Text.dropReturn raw) = .ok text)
      (ordinary : delimits text = false)
      (made : LineTurn evaluate depth text (before.length + 1)
        (numbered state (before.length + 1) raw) turn) :
      SourceTurn evaluate depth lines start turn

/-- A line that an assembler reads for a source. -/
def Turn.ReadBy (evaluate : Expression.Evaluator) (depth : Nat) (turn : Turn)
    (assembler : Assembler) (source : Text) : Prop :=
  SourceTurn evaluate depth source.lines (State.start assembler.predefines assembler.verbose) turn

section reader

variable {read : Reader}

theorem keeps_sourceStep {holds : State → Prop} (stable : Stable holds)
    (kept : ∀ text line, Keeps holds (read text line)) (number : Nat) (before : Text)
    (opened : Option Text) (raw : Text) : Keeps holds (sourceStep read number before opened raw) := by
  unfold sourceStep
  refine keeps_ite (keeps_throw_bind _ _) ?_
  refine keeps_bind (keeps_modify stable fun state => sameCode_note state _) fun _ => ?_
  split
  · exact keeps_throw _
  · refine keeps_bind (keeps_atLine _ _ (keeps_sourceLine stable kept _ _ _)) fun opened => ?_
    exact keeps_pure _

theorem keeps_readLines {holds : State → Prop} (stable : Stable holds)
    (kept : ∀ text line, Keeps holds (read text line)) (number : Nat) (before : Text)
    (opened : Option Text) (lines : List Text) :
    Keeps holds (readLines read number before opened lines) := by
  induction lines generalizing number before opened with
  | nil => exact keeps_pure _
  | cons raw rest ih =>
    exact keeps_bind (keeps_sourceStep stable kept _ _ _ _) fun next => ih _ _ _

theorem readLines_snoc {number : Nat} {before raw : Text} {opened : Option Text}
    {lines : List Text} {state between after : State} {next last : Text × Option Text}
    (ran : readLines read number before opened lines state = .ok next between)
    (step : sourceStep read (number + lines.length) next.1 next.2 raw between = .ok last after) :
    readLines read number before opened (lines ++ [raw]) state = .ok last after := by
  induction lines generalizing number before opened state with
  | nil =>
    cases ran
    change sourceStep read number before opened raw between = _ at step
    rw [List.nil_append,readLines,bind_of_ok step]
    rfl
  | cons first lines ih =>
    rw [readLines] at ran
    obtain ⟨next',middle,step',ran⟩ := bind_success ran
    rw [List.cons_append,readLines,bind_of_ok step']
    apply ih ran
    rwa [Nat.add_right_comm,Nat.add_assoc]

theorem openMacro_success {line : Nat} {fields : List Text} {name : Text} {state after : State}
    (opened : openMacro line fields state = .ok name after) : SameCode state after := by
  rcases fields with _ | ⟨head,_ | ⟨key,parameters⟩⟩
  case cons.cons =>
    rw [openMacro_eq] at opened
    split at opened
    · cases opened
    · cases opened
      exact ⟨rfl,rfl,rfl⟩
  all_goals cases opened

/-- A line of a source changes no labels and no statements, unless it is read. -/
theorem sourceLine_success {opened opened' : Option Text} {line : Nat} {text : Text}
    {state after : State} (ran : sourceLine read opened line text state = .ok opened' after) :
    SameCode state after ∨ opened = none ∧ delimits text = false ∧
      read text line state = .ok () after := by
  by_cases opens : (Text.fields text).head? = some (".macro" : Text)
  · rw [sourceLine_open opened line state opens] at ran
    split at ran
    · cases ran
    · obtain ⟨name,between,made,returned⟩ := bind_success ran
      cases returned
      exact .inl (openMacro_success made)
  by_cases closes : (Text.fields text).head? = some (".endm" : Text)
  · rw [sourceLine_close opened line state closes] at ran
    split at ran
    · cases ran
    · cases ran
      exact .inl ⟨rfl,rfl,rfl⟩
  have ordinary : delimits text = false := by simp [delimits,opens,closes]
  cases opened with
  | some name =>
    rw [sourceLine_body ordinary] at ran
    cases ran
    exact .inl ⟨rfl,rfl,rfl⟩
  | none =>
    rw [sourceLine_statement ordinary] at ran
    obtain ⟨_,between,read,returned⟩ := bind_success ran
    cases returned
    exact .inr ⟨rfl,ordinary,read⟩

end reader

section source

variable {evaluate : Expression.Evaluator} {depth : Nat} {lines : List Text} {start : State}

/-- What the lines that are read for a source define and emit is there in the end. -/
theorem sourceTurn_kept {turn : Turn} {final : State} (placed : Placed start)
    (read : sourceLines (readLine evaluate depth) 0 [] none lines start = .ok () final)
    (made : SourceTurn evaluate depth lines start turn) : turn.Kept evaluate final := by
  obtain ⟨whole,ran,literals,ordinary,made⟩ := made
  rename_i before rest raw earlier text state
  rw [whole,sourceLines_append,bind_of_ok ran,Nat.zero_add,sourceLines_cons] at read
  obtain ⟨⟨text',opened⟩,between,step,later⟩ := bind_success read
  obtain ⟨written,stated⟩ := sourceStep_success step
  have same := written.literals
  rw [literals] at same
  cases same
  rw [sourceLine_statement ordinary] at stated
  obtain ⟨_,_,stated,returned⟩ := bind_success stated
  cases returned
  have begun : Placed (numbered state (before.length + 1) raw) :=
    placed_stable.silent state _ (sameCode_note state _)
      (keeps_success (keeps_readLines placed_stable (keeps_readLine placed_stable evaluate depth)
        0 [] none before) placed ran)
  exact kept_extends (lineTurn_kept made begun stated)
    (extends_keeps (keeps_sourceLines (extends_stable _)
      (keeps_readLine (extends_stable _) evaluate depth) _ _ _ _) later)

/-- All that a source leaves comes from the lines that are read for it. -/
theorem sourceLines_explained {before rest : List Text} {next : Text × Option Text}
    {between final : State} (whole : lines = before ++ rest)
    (ran : readLines (readLine evaluate depth) 0 [] none before start = .ok next between)
    (later : sourceLines (readLine evaluate depth) before.length next.1 next.2 rest between = .ok () final) :
    Explained evaluate (SourceTurn evaluate depth lines start) between final := by
  induction rest generalizing before next between with
  | nil =>
    obtain ⟨earlier,opened⟩ := next
    cases opened with
    | none =>
      cases later
      exact explained_same ⟨rfl,rfl,rfl⟩
    | some name => cases later
  | cons raw rest ih =>
    rw [sourceLines_cons] at later
    obtain ⟨next',middle,step,later⟩ := bind_success later
    obtain ⟨written,stated⟩ := sourceStep_success step
    have numbering := @explained_same evaluate (SourceTurn evaluate depth lines start) between
      (numbered between (before.length + 1) raw) (sameCode_note between _)
    have own : Explained evaluate (SourceTurn evaluate depth lines start)
        (numbered between (before.length + 1) raw) middle := by
      rcases sourceLine_success stated with same | ⟨unopened,ordinary,read⟩
      · exact explained_same same
      · apply explained_mono _ (readLine_explained read)
        intro turn made
        obtain ⟨earlier,opened⟩ := next
        cases unopened
        exact .read whole ran written.literals ordinary made
    apply explained_trans (explained_trans numbering own)
    refine @ih (before ++ [raw]) next' middle ?_ (readLines_snoc ran ?_) ?_
    · rw [whole,List.append_assoc]
      rfl
    · rw [Nat.zero_add]
      exact step
    · rw [List.length_append]
      exact later

end source

theorem tiled_stable : Stable fun state => Placed state ∧ Tiled 0 state.statements.toList where
  silent := by
    rintro before after same ⟨placed,tiled⟩
    rw [same.statements]
    exact ⟨placed_stable.silent before after same placed,tiled⟩
  label := by
    rintro state name shaped free ⟨placed,tiled⟩
    exact ⟨placed_stable.label state name shaped free placed,tiled⟩
  emission := by
    rintro state fields line operands given encoded fits ⟨placed,tiled⟩
    refine ⟨placed_stable.emission state fields line operands given encoded fits placed,?_⟩
    have here : state.here.toNat = 0 + extent state.statements.toList := by
      rw [placed.total,Nat.zero_add,extent]
    simp only [emission,Array.toList_push]
    exact tiled_append.mpr ⟨tiled,here,trivial⟩

/-- What is known of the state in which the lines of an accepted source leave an assembler. -/
structure Completed (reader : Reader) (start : State) (lines : List Text) (program : Program)
    (labels : Table Word) (state : State) : Prop where
  read : sourceLines reader 0 [] none lines start = .ok () state
  labels : state.labels = labels
  blank : program.statements.toList.map Statement.blank =
    state.statements.toList.map Statement.blank
  tiles : program.Tiles

theorem parse_completed {evaluate : Expression.Evaluator} {depth : Nat}
    {assembler left : Assembler} {source : Text} {program : Program}
    (parsed : assembler.parse evaluate depth source = (.ok program, left)) :
    ∃ state, Completed (readLine evaluate depth)
      (State.start assembler.predefines assembler.verbose) source.lines program
      left.state.labels state := by
  obtain ⟨state,statements,read,resolved,rfl,rfl⟩ := lines_of_parse parsed
  obtain ⟨emissions,coherent⟩ := lines_coherent read
  have accepted := accepted_of_resolved coherent (lines_placed read) resolved
  have blank : statements.toList.map Statement.blank =
      state.statements.toList.map Statement.blank :=
    (linked_blank accepted.linked).trans (linked_blank (coherent_linked coherent)).symm
  have tiled : Tiled 0 state.statements.toList :=
    (keeps_success (keeps_sourceLines tiled_stable (keeps_readLine tiled_stable evaluate depth)
      0 [] none source.lines) ⟨start_placed _ _,trivial⟩ read).2
  refine ⟨state,read,rfl,blank,rfl,?_⟩
  rw [← tiled_blank,blank,tiled_blank]
  exact tiled

theorem fieldWord_ofNat (labels : Table Word) (word : Word) :
    fieldWord labels (Text.ofNat word.toNat) = some word := by
  have value := valueOf_ofNat word
  obtain ⟨b,rest,begins,digit,-⟩ := Text.ofNat_first word.toNat
  rw [begins] at value ⊢
  simp [fieldWord,register?_digit digit,isName_digit digit,value,Except.toOption]

theorem scope_here (turn : Turn) :
    turn.scope.equates.find? hereName = some (Text.ofNat turn.state.here.toNat) := by
  rw [Turn.scope,located,Table.find?_insert,if_pos rfl]

/-- In an expression the address of a line goes before any label of the same name. -/
theorem symbolValue?_here (turn : Turn) :
    symbolValue? turn.scope hereName = some (turn.state.here.toNat : Int) := by
  rw [symbolValue?,scope_here,Option.map_some,valueOf_ofNat]

theorem encode_operands {labels : Table Word} {head : Text} {arguments : List Text}
    {words : List Word} (encoded : encode labels (head :: arguments) = some words) :
    ∃ lead operands, words = lead ++ operands ∧
      arguments.mapM (fieldWord labels) = some operands := by
  rw [encode] at encoded
  split at encoded
  · exact ⟨[],words,rfl,encoded⟩
  · obtain ⟨opcode,-,rest⟩ := Option.bind_eq_some_iff.mp encoded
    obtain ⟨operands,read,made⟩ := Option.bind_eq_some_iff.mp rest
    cases made
    exact ⟨[opcode.word],operands,rfl,read⟩

theorem mapM_words {labels : Table Word} {arguments : List Text} {operands : List Word}
    (read : arguments.mapM (fieldWord labels) = some operands) :
    operands.length = arguments.length ∧ ∀ (place : Nat) (field : Text),
      arguments[place]? = some field → operands[place]? = fieldWord labels field := by
  induction arguments generalizing operands with
  | nil =>
    cases read
    simp
  | cons first rest ih =>
    rw [List.mapM_cons] at read
    obtain ⟨word,found,read⟩ := Option.bind_eq_some_iff.mp read
    obtain ⟨words,later,made⟩ := Option.bind_eq_some_iff.mp read
    cases made
    obtain ⟨counted,each⟩ := ih later
    refine ⟨by simp [counted],?_⟩
    intro place field there
    cases place with
    | zero =>
      cases there
      exact found.symm
    | succ place => exact each place field there

/-- A field of the statement of a line, counted after the labels, is a field of the line. -/
theorem statement_field {evaluate : Expression.Evaluator} {turn : Turn} {place : Nat} {field : Text}
    (given : turn.statement evaluate ≠ [])
    (there : (turn.written evaluate)[(turn.labels evaluate).length + place]? = some field) :
    (turn.statement evaluate)[place]? = some ((turn.scope.equates.find? field).getD field) := by
  have fields : turn.fields evaluate =
      (turn.written evaluate).map fun field => (turn.scope.equates.find? field).getD field := by
    unfold Turn.fields
    split
    · next equate =>
      exfalso
      apply given
      rw [Turn.statement,Turn.fields,if_pos equate]
      rfl
    · rfl
  have counted : (turn.labels evaluate).length =
      ((turn.fields evaluate).takeWhile isLabel).length := by
    rw [Turn.labels,labelsOf,List.length_map]
  have whole : (turn.fields evaluate)[(turn.labels evaluate).length + place]? =
      some ((turn.scope.equates.find? field).getD field) := by
    rw [fields,List.getElem?_map,there]
    rfl
  rw [← @List.takeWhile_append_dropWhile _ isLabel (turn.fields evaluate),counted,
    List.getElem?_append_right (Nat.le_add_right _ _),Nat.add_sub_cancel_left] at whole
  exact whole

/-- Where a line stands: behind the statements that were emitted before it. Its labels have
that position, its address is written for it in fields and in expressions, and its statement
begins there. -/
structure Turn.Stands (evaluate : Expression.Evaluator) (turn : Turn) (labels : Table Word)
    (program : Program) (position : Word) : Prop where
  counted : turn.state.statements.size ≤ program.statements.size
  preceded : position.toNat =
    extent (program.statements.toList.take turn.state.statements.size)
  labelled : ∀ name ∈ turn.labels evaluate, labels.find? name = some position
  field : turn.scope.equates.find? hereName = some (Text.ofNat position.toNat)
  symbol : symbolValue? turn.scope hereName = some (position.toNat : Int)
  emitted : turn.Emits evaluate → ∃ statement lead operands,
    program.statements[turn.state.statements.size]? = some statement ∧
    statement.line = turn.line ∧ statement.addr = position ∧
    statement.fields = turn.statement evaluate ∧
    statement.words = lead ++ operands ∧ operands.length + 1 = statement.fields.length ∧
    ∀ place, (turn.written evaluate)[(turn.labels evaluate).length + (place + 1)]? = some hereName →
      operands[place]? = some statement.addr

section stands

variable {evaluate : Expression.Evaluator} {reader : Reader} {start state : State}
  {lines : List Text} {program : Program} {labels : Table Word} {turn : Turn}

theorem kept_preceded (completed : Completed reader start lines program labels state)
    (kept : turn.Kept evaluate state) :
    turn.state.statements.size ≤ program.statements.size ∧
      turn.state.here.toNat = extent (program.statements.toList.take turn.state.statements.size) := by
  have before := List.prefix_iff_eq_take.mp kept.earlier
  rw [Array.length_toList] at before
  have counted := congrArg List.length completed.blank
  have bound := kept.earlier.length_le
  simp only [List.length_map,Array.length_toList] at counted bound
  refine ⟨by omega,?_⟩
  rw [kept.placed.total,← extent,before,← extent_blank,← extent_blank (program.statements.toList.take _),
    List.map_take,List.map_take,completed.blank]

theorem kept_emitted (completed : Completed reader start lines program labels state)
    (kept : turn.Kept evaluate state) (emits : turn.Emits evaluate) :
    ∃ statement, program.statements[turn.state.statements.size]? = some statement ∧
      statement.line = turn.line ∧ statement.addr = turn.state.here ∧
      statement.fields = turn.statement evaluate := by
  obtain ⟨words,found⟩ := kept.emitted emits
  have blank := congrArg (fun statements => statements[turn.state.statements.size]?) completed.blank
  simp only [List.getElem?_map,found,Option.map_some] at blank
  obtain ⟨statement,there,same⟩ := Option.map_eq_some_iff.mp blank
  rw [Array.getElem?_toList] at there
  exact ⟨statement,there,congrArg Statement.line same,congrArg Statement.addr same,
    congrArg Statement.fields same⟩

theorem kept_stands (completed : Completed reader start lines program labels state)
    (encoded : ∀ statement ∈ program.statements,
      encode labels statement.fields = some statement.words)
    (kept : turn.Kept evaluate state) : turn.Stands evaluate labels program turn.state.here where
  counted := (kept_preceded completed kept).1
  preceded := (kept_preceded completed kept).2
  labelled := by
    rw [← completed.labels]
    exact kept.defined
  field := scope_here turn
  symbol := symbolValue?_here turn
  emitted := by
    intro emits
    obtain ⟨statement,found,line,addr,fields⟩ := kept_emitted completed kept emits
    obtain ⟨name,arguments,shape,-⟩ := emits
    have words := encoded statement (Array.mem_of_getElem? found)
    rw [fields,shape] at words
    obtain ⟨lead,operands,joined,read⟩ := encode_operands words
    obtain ⟨counted,each⟩ := mapM_words read
    refine ⟨statement,lead,operands,found,line,addr,fields,joined,?_,?_⟩
    · rw [fields,shape,List.length_cons,counted]
    · intro place here
      have given : turn.statement evaluate ≠ [] := by
        rw [shape]
        exact List.cons_ne_nil _ _
      have there := statement_field given here
      rw [scope_here,Option.getD_some,shape,List.getElem?_cons_succ] at there
      rw [each place _ there,fieldWord_ofNat,addr]

end stands

theorem lineAt_located {program : Program} {addr : Word} {statement : Statement} {place : Nat}
    (located : program.locate? addr = some (statement,place)) :
    program.lineAt addr = statement.line := by
  rw [Program.lineAt,located]

theorem parse_encoded {evaluate : Expression.Evaluator} {depth : Nat} {assembler left : Assembler}
    {source : Text} {program : Program}
    (parsed : assembler.parse evaluate depth source = (.ok program, left)) :
    ∀ statement ∈ program.statements,
      encode left.state.labels statement.fields = some statement.words := by
  obtain ⟨emissions,accepted⟩ := parse_accepted parsed
  intro statement member
  obtain ⟨index,emission,emitted,linked⟩ := accepted_statement accepted member
  exact wordsLinked_encode (accepted.valid emission emitted) linked

/-- The statements of an accepted source tile its image, and the lines that are read for it
stand where the statements before them end. An address is located in the one statement that
spans it, at the place of its word, and an address beyond the image in none. -/
theorem statements_tile_image {evaluate : Expression.Evaluator} {depth : Nat}
    {assembler left : Assembler} {source : Text} {program : Program}
    (parsed : assembler.parse evaluate depth source = (.ok program, left)) :
    program.words.length ≤ memorySize ∧
    (∀ first, program.statements[0]? = some first → first.addr = 0) ∧
    (∀ (index : Nat) (statement next : Statement), program.statements[index]? = some statement →
      program.statements[index + 1]? = some next →
        next.addr.toNat = statement.addr.toNat + statement.words.length) ∧
    (∀ turn : Turn, turn.ReadBy evaluate depth assembler source →
      ∃ position, turn.Stands evaluate left.state.labels program position) ∧
    (∀ name addr, left.state.labels.find? name = some addr →
      ∃ turn : Turn, turn.ReadBy evaluate depth assembler source ∧ name ∈ turn.labels evaluate) ∧
    (∀ index < program.statements.size, ∃ turn : Turn,
      turn.ReadBy evaluate depth assembler source ∧ turn.Emits evaluate ∧
      turn.state.statements.size = index) ∧
    ∀ addr : Word,
      (program.words.length ≤ addr.toNat → program.locate? addr = none ∧
        ∀ emulator : Emulator, emulator.program = program → emulator.machine.pc = addr →
          emulator.line = 0) ∧
      (addr.toNat < program.words.length → ∃ (index : Nat) (statement : Statement) (place : Nat),
        program.statements[index]? = some statement ∧
        program.locate? addr = some (statement,place) ∧ statement.Spans addr ∧
        statement.words[place]? = program.words[addr.toNat]? ∧
        (∀ (other : Nat) (statement' : Statement), program.statements[other]? = some statement' →
          statement'.Spans addr → other = index) ∧
        ∀ emulator : Emulator, emulator.program = program → emulator.machine.pc = addr →
          emulator.line = statement.line) := by
  obtain ⟨state,completed⟩ := parse_completed parsed
  obtain ⟨emissions,accepted⟩ := parse_accepted parsed
  have tiles := completed.tiles
  have explained : Explained evaluate (fun turn => turn.ReadBy evaluate depth assembler source) _
      state :=
    @sourceLines_explained evaluate depth source.lines _ [] source.lines _ _ state rfl rfl completed.read
  have sized : program.statements.size = state.statements.size := by
    simpa using congrArg List.length completed.blank
  refine ⟨accepted.fits,?_,?_,?_,?_,?_,?_⟩
  · intro first found
    rw [← Array.getElem?_toList] at found
    exact UInt16.toNat_inj.mp (tiled_addr tiles.tiled found)
  · intro index statement next found following
    rw [← Array.getElem?_toList] at found following
    rw [tiled_addr tiles.tiled found,tiled_addr tiles.tiled following,extent_take_succ found,
      Nat.add_assoc]
  · intro turn read
    have kept := sourceTurn_kept (start_placed _ _) completed.read read
    exact ⟨turn.state.here,kept_stands completed (parse_encoded parsed) kept⟩
  · intro name addr found
    rw [← completed.labels] at found
    rcases explained.labels name addr found with earlier | new
    · cases earlier
    · exact new
  · intro index bound
    exact explained.statements index (Nat.zero_le _) (sized ▸ bound)
  · intro addr
    constructor
    · intro beyond
      have absent := Program.locate?_beyond tiles beyond
      refine ⟨absent,?_⟩
      rintro emulator rfl rfl
      rw [Emulator.line,Program.lineAt,absent]
    · intro inside
      obtain ⟨index,statement,found,located,spans,word,unique⟩ :=
        Program.locate?_inside tiles inside
      refine ⟨index,statement,_,found,located,spans,word,unique,?_⟩
      rintro emulator rfl rfl
      exact lineAt_located located

/-- A macro is called behind a statement without words, with the address of the call. The
last jump in its body names its own address. -/
def markedSource : Text :=
  ".macro mark X\n@loop: set r0 X\njmp HERE\n.endm\nstart: noop\n.data\n" ++
    ("mark HERE\n.data HERE start $(HERE+1)\nend: halt" : Text)

theorem statements_tile_image_marked :
    ∃ program left, Assembler.parse Expression.evaluate 1 {} markedSource = (.ok program, left) ∧
      program.words = [21, 1, 32768, 1, 6, 4, 6, 0, 7, 0] ∧
      (∀ turn : Turn, turn.ReadBy Expression.evaluate 1 {} markedSource →
        ∃ position, turn.Stands Expression.evaluate left.state.labels program position) ∧
      (∀ index < program.statements.size, ∃ turn : Turn,
        turn.ReadBy Expression.evaluate 1 {} markedSource ∧ turn.Emits Expression.evaluate ∧
        turn.state.statements.size = index) ∧
      program.locate? 10 = none ∧
      ∃ statement place, program.locate? 9 = some (statement,place) ∧
        statement.words[place]? = some 0 := by
  have evaluated : (Assembler.parse Expression.evaluate 1 {} markedSource).1.toOption.map Program.words =
      some [21, 1, 32768, 1, 6, 4, 6, 0, 7, 0] := by decide +kernel
  rcases parsed : Assembler.parse Expression.evaluate 1 {} markedSource with ⟨error | program,left⟩
  · rw [parsed] at evaluated
    cases evaluated
  · rw [parsed] at evaluated
    have words : program.words = [21, 1, 32768, 1, 6, 4, 6, 0, 7, 0] := Option.some.inj evaluated
    obtain ⟨-,-,-,stands,-,emitted,located⟩ := statements_tile_image parsed
    have beyond := ((located 10).1 (by rw [words]; decide)).1
    obtain ⟨index,statement,place,-,inside,-,word,-⟩ := (located 9).2 (by rw [words]; decide)
    rw [words] at word
    exact ⟨program,left,rfl,words,stands,emitted,beyond,statement,place,inside,word⟩

end WordMachine.Assembly
