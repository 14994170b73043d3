import WordMachine.Proofs.Assembly.Coherence
import WordMachine.Proofs.Machine.Fetch

/-! What reading one line does to the state, as equations. A line is located, its
expressions are evaluated and its labels are taken; what is left of it is emitted, or is
the call of a macro. -/
namespace WordMachine.Assembly

def located (state : State) (line : Nat) : State :=
  { state with
    equates := (state.equates.insert lineName (Text.ofNat line)).insert hereName
      (Text.ofNat state.here.toNat) }

theorem located_find? {state : State} {name : Text} (line : Nat) (other : lineName ≠ name)
    (other' : hereName ≠ name) :
    (located state line).equates.find? name = state.equates.find? name := by
  unfold located
  rw [Table.find?_insert,if_neg other',Table.find?_insert,if_neg other]

/-- Takes the labels before a statement. An equate leaves no statement. -/
def statementOf : List Text → Assemble (List Text)
  | [] => return []
  | head :: rest =>
    if head = (".equ" : Text) then do
      defineEquate (head :: rest)
      return []
    else do
      let equates := (← get).equates
      takeLabels ((head :: rest).map fun field => (equates.find? field).getD field)

/-- The fields of a line that are left to be emitted or expanded. -/
def statementFields (expand : Expander) (text : Text) (line : Nat) : Assemble (List Text) := do
  locate line
  let expanded ← failing (expand (← get) text)
  statementOf (Text.fields expanded)

/-- Emits the fields of a line, or expands the macro that they call. -/
def perform (readBody : Text → Reader) (line : Nat) : List Text → Assemble Unit
  | [] => return
  | name :: arguments => do
    match (← get).macros.find? name with
    | none => emit (name :: arguments) line
    | some definition => expandMacro (readBody name) name definition arguments

theorem lineWith_eq (expand : Expander) (readBody : Text → Reader) (text : Text) (line : Nat) :
    lineWith expand readBody text line =
      statementFields expand text line >>= perform readBody line := by
  unfold lineWith statementFields
  simp only [bind_assoc]
  congr 1
  funext _
  congr 1
  funext state
  congr 1
  funext expanded
  cases Text.fields expanded with
  | nil => rfl
  | cons head rest =>
    rw [statementOf]
    dsimp only
    by_cases equate : head = (".equ" : Text)
    · rw [if_pos equate,if_pos equate,bind_assoc]
      exact (bind_pure (defineEquate (head :: rest))).symm
    · rw [if_neg equate,if_neg equate,bind_assoc]
      congr 1
      funext state
      congr 1
      funext fields
      cases fields with
      | nil => rfl
      | cons name arguments => rfl

/-- A line is located and its labels are taken; what is left is emitted or expanded. -/
theorem readLine_run (evaluate : Expression.Evaluator) (depth : Nat) (text : Text) (line : Nat) :
    readLine evaluate depth text line =
      statementFields (expandEmbedded evaluate) text line >>=
        perform (bodyReader evaluate depth) line := by
  rw [readLine_eq,lineWith_eq]

section expand

variable {expand : Expander} {state : State} {text expanded : Text} {line : Nat} {error : Error}

theorem statementFields_ok (expands : expand (located state line) text = .ok expanded) :
    statementFields expand text line state =
      statementOf (Text.fields expanded) (located state line) := by
  have moved : locate line state = .ok () (located state line) := rfl
  unfold statementFields
  rw [bind_of_ok moved,get_bind,expands]
  rfl

theorem statementFields_error (fails : expand (located state line) text = .error error) :
    statementFields expand text line state = .error error (located state line) := by
  have moved : locate line state = .ok () (located state line) := rfl
  unfold statementFields
  rw [bind_of_ok moved,get_bind,fails]
  rfl

end expand

theorem statementOf_equate (rest : List Text) (state : State) :
    statementOf ((".equ" : Text) :: rest) state =
      (defineEquate ((".equ" : Text) :: rest) >>= fun _ => pure []) state := by
  rw [statementOf,if_pos rfl]

theorem statementOf_other {head : Text} (other : head ≠ (".equ" : Text)) (rest : List Text)
    (state : State) :
    statementOf (head :: rest) state =
      takeLabels ((head :: rest).map fun field => (state.equates.find? field).getD field) state := by
  rw [statementOf,if_neg other,get_bind]

/-- The value of the equate that a field names; any other field as it stands. -/
def equated (state : State) (field : Text) : Text := (state.equates.find? field).getD field

theorem map_equated {state : State} {fields : List Text}
    (plain : ∀ field ∈ fields, state.equates.find? field = none) :
    fields.map (equated state) = fields := by
  have same : ∀ field ∈ fields, equated state field = field := by
    intro field member
    rw [equated,plain field member,Option.getD_none]
  exact (List.map_congr_left same).trans (List.map_id fields)

section plain

variable {evaluate : Expression.Evaluator} {state : State} {text head : Text}
  {arguments : List Text} {line : Nat}
  (expanded : expandEmbedded evaluate (located state line) text = .ok text)
  (fields : Text.fields text = head :: arguments) (other : head ≠ (".equ" : Text))
  (plain : ∀ field ∈ head :: arguments, (located state line).equates.find? field = none)
include expanded fields other plain

theorem statementFields_plain :
    statementFields (expandEmbedded evaluate) text line state =
      takeLabels (head :: arguments) (located state line) := by
  rw [statementFields_ok expanded,fields,statementOf_other other]
  exact congrArg (takeLabels · (located state line)) (map_equated plain)

theorem readLine_plain (depth : Nat) :
    readLine evaluate depth text line state =
      (takeLabels (head :: arguments) >>= perform (bodyReader evaluate depth) line)
        (located state line) := by
  rw [readLine_run]
  exact bind_of_same (statementFields_plain expanded fields other plain) _

end plain

theorem takeLabels_statement {head : Text} (arguments : List Text) (state : State)
    (unlabelled : head.getLast? ≠ some Byte.colon) :
    takeLabels (head :: arguments) state = .ok (head :: arguments) state := by
  rw [takeLabels,if_neg unlabelled]
  rfl

theorem perform_emit {state : State} {name : Text} (readBody : Text → Reader)
    (line : Nat) (arguments : List Text) (operation : state.macros.find? name = none) :
    perform readBody line (name :: arguments) state = emit (name :: arguments) line state := by
  simp only [perform]
  rw [get_bind,operation]

theorem perform_expand {state : State} {name : Text} {definition : MacroDef}
    (readBody : Text → Reader) (line : Nat) (arguments : List Text)
    (found : state.macros.find? name = some definition) :
    perform readBody line (name :: arguments) state =
      expandMacro (readBody name) name definition arguments state := by
  simp only [perform]
  rw [get_bind,found]

theorem defineLabel_eq (name : Text) (state : State) :
    defineLabel name state =
      if isName name = false then .error (.plain .labelForm) state
      else if state.labels.contains name = true then .error (.plain .labelRepeated) state
      else .ok () { state with labels := state.labels.insert name state.here } := by
  unfold defineLabel
  cases isName name with
  | false => rfl
  | true =>
    change (if state.labels.contains name = true then _ else _ : Assemble Unit) state = _
    cases state.labels.contains name with
    | true => rfl
    | false => rfl

theorem defineLabel_run {name : Text} {state : State} (shaped : isName name = true)
    (free : state.labels.contains name = false) :
    defineLabel name state =
      .ok () { state with labels := state.labels.insert name state.here } := by
  rw [defineLabel_eq,if_neg (by simp [shaped]),if_neg (by simp [free])]

theorem defineLabel_success {name : Text} {state next : State}
    (defined : defineLabel name state = .ok () next) :
    state.labels.contains name = false ∧
      next = { state with labels := state.labels.insert name state.here } := by
  rw [defineLabel_eq] at defined
  split at defined
  · cases defined
  · split at defined
    · cases defined
    · next free =>
      cases defined
      exact ⟨Bool.eq_false_iff.mpr free,rfl⟩

theorem defineEquate_eq (head key value : Text) (state : State) :
    defineEquate [head,key,value] state =
      if isName key = false then .error (.plain .equateForm) state
      else if state.equates.contains key = true then .error (.plain .equateRepeated) state
      else .ok () { state with equates := state.equates.insert key value } := by
  simp only [defineEquate]
  cases isName key with
  | false => rfl
  | true =>
    change (if state.equates.contains key = true then _ else _ : Assemble Unit) state = _
    cases state.equates.contains key with
    | true => rfl
    | false => rfl

/-- What a verbose run says of an emitted statement. -/
def report (state : State) (fields : List Text) (operands : List Operand) : Text :=
  Text.hex4 state.here.toNat ++ (": " : Text) ++ Text.bracketed fields ++ [Byte.space]
    ++ Text.bracketed ((operands.map Operand.emitted).map Word.text)

theorem note_log (state : State) (line : Text) : ∃ log, state.note line = { state with log := log } := by
  unfold State.note
  split
  · exact ⟨_,rfl⟩
  · exact ⟨_,rfl⟩

theorem note_quiet {state : State} (quiet : state.verbose = false) (line : Text) :
    state.note line = state := by
  unfold State.note
  rw [quiet]
  rfl

theorem emit_malformed {state : State} {fields : List Text} {error : Error} (line : Nat)
    (malformed : encodeFields state.labels fields = .error error) :
    emit fields line state = .error error state := by
  cases fields with
  | nil => cases malformed
  | cons head arguments =>
    change (failing (encodeFields state.labels (head :: arguments)) >>= _) state = _
    rw [malformed]
    rfl

theorem emit_overflow {state : State} {fields : List Text} {operands : List Operand} (line : Nat)
    (given : fields ≠ []) (encoded : encodeFields state.labels fields = .ok operands)
    (large : memorySize < state.here.toNat + operands.length) :
    emit fields line state = .error (.capacity (state.here.toNat + operands.length)) state := by
  cases fields with
  | nil => exact absurd rfl given
  | cons head arguments =>
    change (failing (encodeFields state.labels (head :: arguments)) >>= _) state = _
    rw [encoded]
    change (if memorySize < state.here.toNat + operands.length then _ else _ : Assemble Unit) state = _
    rw [if_pos large]
    rfl

theorem emit_run {state : State} {fields : List Text} {operands : List Operand} (line : Nat)
    (given : fields ≠ []) (encoded : encodeFields state.labels fields = .ok operands)
    (fits : state.here.toNat + operands.length ≤ memorySize) :
    emit fields line state =
      .ok () (emission (state.note (report state fields operands)) fields line operands) := by
  have same := sameCode_note state (report state fields operands)
  cases fields with
  | nil => exact absurd rfl given
  | cons head arguments =>
    change (failing (encodeFields state.labels (head :: arguments)) >>= _) state = _
    rw [encoded]
    change (if memorySize < state.here.toNat + operands.length then _ else _ : Assemble Unit) state = _
    rw [if_neg (Nat.not_lt.mpr fits)]
    unfold emission
    rw [here_congr same,same.statements,same.links]
    rfl

theorem emit_success {state next : State} {fields : List Text} {line : Nat} (given : fields ≠ [])
    (emitted : emit fields line state = .ok () next) : ∃ operands,
      encodeFields state.labels fields = .ok operands ∧
      next = emission (state.note (report state fields operands)) fields line operands := by
  cases encoded : encodeFields state.labels fields with
  | error error =>
    rw [emit_malformed line encoded] at emitted
    cases emitted
  | ok operands =>
    by_cases large : memorySize < state.here.toNat + operands.length
    · rw [emit_overflow line given encoded large] at emitted
      cases emitted
    · rw [emit_run line given encoded (Nat.le_of_not_lt large)] at emitted
      cases emitted
      exact ⟨operands,rfl,rfl⟩

theorem openMacro_eq (line : Nat) (head key : Text) (parameters : List Text) (state : State) :
    openMacro line (head :: key :: parameters) state =
      if state.macros.contains key = true then .error (.plain .macroRepeated) state
      else .ok key { state with
        macros := state.macros.insert key { line := line + 1, parameters := parameters } } := by
  simp only [openMacro]
  rw [get_bind]
  cases state.macros.contains key with
  | true => rfl
  | false => rfl

/-- Whether a line opens or closes the definition of a macro. -/
def delimits (text : Text) : Bool :=
  (Text.fields text).head? = some (".macro" : Text) || (Text.fields text).head? = some (".endm" : Text)

section source

variable {read : Reader}

theorem sourceLine_open {text : Text} (opened : Option Text) (line : Nat) (state : State)
    (opens : (Text.fields text).head? = some (".macro" : Text)) :
    sourceLine read opened line text state =
      if opened.isSome = true then .error (.plain .macroNested) state
      else (openMacro line (Text.fields text) >>= fun name => pure (some name)) state := by
  unfold sourceLine
  simp only [if_pos opens]
  cases opened with
  | none => rfl
  | some name => rfl

theorem sourceLine_close {text : Text} (opened : Option Text) (line : Nat) (state : State)
    (closes : (Text.fields text).head? = some (".endm" : Text)) :
    sourceLine read opened line text state =
      if opened.isNone = true then .error (.plain .macroUnopened) state else .ok none state := by
  have other : (Text.fields text).head? ≠ some (".macro" : Text) := by
    rw [closes]
    decide
  unfold sourceLine
  simp only [if_neg other,if_pos closes]
  cases opened with
  | none => rfl
  | some name => rfl

section ordinary

variable {text : Text} (ordinary : delimits text = false) (line : Nat) (state : State)
include ordinary

theorem sourceLine_body (name : Text) :
    sourceLine read (some name) line text state =
      .ok (some name) { state with
        macros := state.macros.modify name fun definition =>
          { definition with body := definition.body.push text } } := by
  simp only [delimits,Bool.or_eq_false_iff,decide_eq_false_iff_not] at ordinary
  unfold sourceLine
  simp only [if_neg ordinary.1,if_neg ordinary.2]
  rfl

theorem sourceLine_statement :
    sourceLine read none line text state = (read text line >>= fun _ => pure none) state := by
  simp only [delimits,Bool.or_eq_false_iff,decide_eq_false_iff_not] at ordinary
  unfold sourceLine
  simp only [if_neg ordinary.1,if_neg ordinary.2]

end ordinary

theorem sourceLine_read {state next : State} {text : Text} {line : Nat}
    (unopened : (Text.fields text).head? ≠ some (".macro" : Text))
    (unclosed : (Text.fields text).head? ≠ some (".endm" : Text))
    (done : read text line state = .ok () next) :
    sourceLine read none line text state = .ok none next := by
  rw [sourceLine_statement (by simp [delimits,unopened,unclosed]),bind_of_ok done]
  rfl

/-- A line that begins with no label, no macro and none of the words that belong to
definitions emits its fields, with the equates among its arguments replaced. -/
theorem sourceLine_emit {evaluate : Expression.Evaluator} {depth : Nat} {state : State}
    {text head : Text} {arguments : List Text} {line : Nat}
    (expanded : expandEmbedded evaluate (located state line) text = .ok text)
    (fields : Text.fields text = head :: arguments)
    (ordinary : head ∉ ([".equ",".macro",".endm"] : List Text))
    (plain : (located state line).equates.find? head = none)
    (unlabelled : head.getLast? ≠ some Byte.colon) (uncalled : state.macros.find? head = none) :
    sourceLine (readLine evaluate depth) none line text state =
      (emit (head :: arguments.map (equated (located state line))) line >>= fun _ => pure none)
        (located state line) := by
  simp only [List.mem_cons,List.not_mem_nil,or_false,not_or] at ordinary
  obtain ⟨unequated,unopened,unclosed⟩ := ordinary
  have taken : statementFields (expandEmbedded evaluate) text line state =
      .ok (head :: arguments.map (equated (located state line))) (located state line) := by
    rw [statementFields_ok expanded,fields,statementOf_other unequated,List.map_cons,plain]
    exact takeLabels_statement _ _ unlabelled
  have emits : readLine evaluate depth text line state =
      emit (head :: arguments.map (equated (located state line))) line (located state line) := by
    rw [readLine_run,bind_of_ok taken]
    exact perform_emit _ line _ uncalled
  rw [sourceLine_statement (by simp [delimits,fields,unopened,unclosed])]
  exact bind_of_same emits _

/-- The state in which a source line is read. -/
def numbered (state : State) (number : Nat) (raw : Text) : State :=
  state.note (Text.ofNat number ++ (": " : Text) ++ Text.dropReturn raw)

theorem numbered_macros (state : State) (number : Nat) (raw : Text) :
    (numbered state number raw).macros = state.macros := by
  obtain ⟨log,same⟩ := note_log state (Text.ofNat number ++ (": " : Text) ++ Text.dropReturn raw)
  rw [numbered,same]

/-- One line of a source after line number `number`, whose text was `before`. The result is
the line with its literals expanded, and the macro that is open after it. -/
def sourceStep (read : Reader) (number : Nat) (before : Text) (opened : Option Text) (raw : Text) :
    Assemble (Text × Option Text) := do
  if lineLimit ≤ raw.length then throw (.atLine number before .lineTooLong)
  modify fun state => numbered state (number + 1) raw
  match expandLiterals (Text.dropReturn raw) with
  | .error text => throw (.atLine (number + 1) text (.plain .stringForm))
  | .ok text =>
    let opened ← atLine (number + 1) text (sourceLine read opened (number + 1) text)
    return (text, opened)

/-- Some lines of a source that others follow. -/
def readLines (read : Reader) : Nat → Text → Option Text → List Text → Assemble (Text × Option Text)
  | _, before, opened, [] => return (before, opened)
  | number, before, opened, raw :: rest => do
    let next ← sourceStep read number before opened raw
    readLines read (number + 1) next.1 next.2 rest

theorem sourceLines_cons (number : Nat) (before : Text) (opened : Option Text) (raw : Text)
    (rest : List Text) :
    sourceLines read number before opened (raw :: rest) =
      sourceStep read number before opened raw >>= fun next =>
        sourceLines read (number + 1) next.1 next.2 rest := by
  funext state
  rw [sourceLines]
  unfold sourceStep
  by_cases long : lineLimit ≤ raw.length
  · rw [if_pos long,if_pos long]
    rfl
  · rw [if_neg long,if_neg long]
    cases literals : expandLiterals (Text.dropReturn raw) with
    | error text =>
      simp only [literals]
      rfl
    | ok text =>
      simp only [literals,bind_assoc]
      rfl

theorem sourceLines_append (number : Nat) (before : Text) (opened : Option Text)
    (lines rest : List Text) :
    sourceLines read number before opened (lines ++ rest) =
      readLines read number before opened lines >>= fun next =>
        sourceLines read (number + lines.length) next.1 next.2 rest := by
  induction lines generalizing number before opened with
  | nil => rfl
  | cons raw lines ih =>
    rw [List.cons_append,sourceLines_cons,readLines,bind_assoc]
    congr 1
    funext next
    rw [ih,List.length_cons,Nat.add_right_comm,Nat.add_assoc]

theorem sourceStep_long {raw : Text} (number : Nat) (before : Text) (opened : Option Text)
    (state : State) (long : lineLimit ≤ raw.length) :
    sourceStep read number before opened raw state =
      .error (.atLine number before .lineTooLong) state := by
  unfold sourceStep
  rw [if_pos long]
  rfl

theorem sourceStep_misquoted {raw text : Text} (number : Nat) (before : Text)
    (opened : Option Text) (state : State) (short : ¬ lineLimit ≤ raw.length)
    (literals : expandLiterals (Text.dropReturn raw) = .error text) :
    sourceStep read number before opened raw state =
      .error (.atLine ((number + 1 : Nat) : Int) text (.plain .stringForm))
        (numbered state (number + 1) raw) := by
  unfold sourceStep
  rw [if_neg short,literals]
  rfl

theorem sourceStep_eq {raw text : Text} (number : Nat) (before : Text) (opened : Option Text)
    (state : State) (short : ¬ lineLimit ≤ raw.length)
    (literals : expandLiterals (Text.dropReturn raw) = .ok text) :
    sourceStep read number before opened raw state =
      (atLine (number + 1) text (sourceLine read opened (number + 1) text) >>= fun opened =>
        pure (text,opened)) (numbered state (number + 1) raw) := by
  unfold sourceStep
  rw [if_neg short,literals]
  rfl

theorem sourceStep_run {number : Nat} {raw text : Text} {opened opened' : Option Text}
    {state next : State} (before : Text) (short : raw.length < lineLimit)
    (literals : expandLiterals (Text.dropReturn raw) = .ok text)
    (done : sourceLine read opened (number + 1) text (numbered state (number + 1) raw) =
      .ok opened' next) :
    sourceStep read number before opened raw state = .ok (text,opened') next := by
  have marked : atLine (number + 1) text (sourceLine read opened (number + 1) text)
      (numbered state (number + 1) raw) = .ok opened' next := by
    simp only [atLine,done]
  rw [sourceStep_eq number before opened state (Nat.not_le.mpr short) literals,bind_of_ok marked]
  rfl

theorem sourceStep_refused {number : Nat} {raw text : Text} {opened : Option Text} {cause : Error}
    {state next : State} (before : Text) (short : raw.length < lineLimit)
    (literals : expandLiterals (Text.dropReturn raw) = .ok text)
    (refused : sourceLine read opened (number + 1) text (numbered state (number + 1) raw) =
      .error cause next) :
    sourceStep read number before opened raw state =
      .error (.atLine ((number + 1 : Nat) : Int) text cause) next := by
  have marked : atLine (number + 1) text (sourceLine read opened (number + 1) text)
      (numbered state (number + 1) raw) =
        .error (.atLine ((number + 1 : Nat) : Int) text cause) next := by
    simp only [atLine,refused]
  rw [sourceStep_eq number before opened state (Nat.not_le.mpr short) literals,
    bind_of_error marked]

theorem sourceLines_step {number : Nat} {before raw text : Text} {rest : List Text}
    {opened opened' : Option Text} {state next : State} (short : raw.length < lineLimit)
    (literals : expandLiterals (Text.dropReturn raw) = .ok text)
    (done : sourceLine read opened (number + 1) text (numbered state (number + 1) raw) =
      .ok opened' next) :
    sourceLines read number before opened (raw :: rest) state =
      sourceLines read (number + 1) text opened' rest next := by
  rw [sourceLines_cons,bind_of_ok (sourceStep_run before short literals done)]

/-- A line that can be read, with its literals expanded. -/
structure Written (raw text : Text) : Prop where
  short : raw.length < lineLimit
  literals : expandLiterals (Text.dropReturn raw) = .ok text

theorem sourceStep_success {raw : Text} {number : Nat} {before : Text} {opened : Option Text}
    {state after : State} {next : Text × Option Text}
    (ran : sourceStep read number before opened raw state = .ok next after) :
    Written raw next.1 ∧
      sourceLine read opened (number + 1) next.1 (numbered state (number + 1) raw) =
        .ok next.2 after := by
  by_cases long : lineLimit ≤ raw.length
  · rw [sourceStep_long _ _ _ _ long] at ran
    cases ran
  · cases literals : expandLiterals (Text.dropReturn raw) with
    | error text =>
      rw [sourceStep_misquoted _ _ _ _ long literals] at ran
      cases ran
    | ok text =>
      rw [sourceStep_eq _ _ _ _ long literals] at ran
      obtain ⟨opened',between,marked,returned⟩ := bind_success ran
      cases returned
      refine ⟨⟨Nat.lt_of_not_le long,literals⟩,?_⟩
      unfold atLine at marked
      cases stated : sourceLine read opened (number + 1) text (numbered state (number + 1) raw) with
      | ok value last =>
        rw [stated] at marked
        cases marked
        rfl
      | error error last =>
        rw [stated] at marked
        cases marked

end source

end WordMachine.Assembly
