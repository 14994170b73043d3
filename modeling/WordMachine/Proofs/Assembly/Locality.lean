import WordMachine.Proofs.Assembly.Placement

/-! Lines do not reach back. What the lines of a source made is not changed by lines that
follow them, and a line that is refused is refused whatever follows it. -/
namespace WordMachine.Assembly

section encoding

variable {labels more : Table Word} (within : labels.Within more)
include within

theorem fieldWord_within {field : Text} {word : Word} (read : fieldWord labels field = some word) :
    fieldWord more field = some word := by
  unfold fieldWord at read ⊢
  cases free : register? field with
  | some register =>
    rw [free] at read
    exact read
  | none =>
    simp only [free] at read ⊢
    split at read
    · next shaped =>
      rw [if_pos shaped]
      exact within field word read
    · next unshaped =>
      rw [if_neg unshaped]
      exact read

theorem mapM_within {arguments : List Text} {words : List Word}
    (read : arguments.mapM (fieldWord labels) = some words) :
    arguments.mapM (fieldWord more) = some words := by
  induction arguments generalizing words with
  | nil => exact read
  | cons first rest ih =>
    rw [List.mapM_cons] at read
    obtain ⟨word,found,read⟩ := Option.bind_eq_some_iff.mp read
    obtain ⟨later,found',made⟩ := Option.bind_eq_some_iff.mp read
    rw [List.mapM_cons,fieldWord_within within found,ih found']
    exact made

/-- Labels that are added leave the words of a statement that has all of its own. -/
theorem encode_within {fields : List Text} {words : List Word}
    (encoded : encode labels fields = some words) : encode more fields = some words := by
  cases fields with
  | nil => exact encoded
  | cons head arguments =>
    rw [encode] at encoded ⊢
    split at encoded
    · next directive =>
      rw [if_pos directive]
      exact mapM_within within encoded
    · next operation =>
      rw [if_neg operation]
      obtain ⟨opcode,mnemonic,rest⟩ := Option.bind_eq_some_iff.mp encoded
      obtain ⟨operands,read,made⟩ := Option.bind_eq_some_iff.mp rest
      rw [mnemonic]
      change (arguments.mapM (fieldWord more)).bind _ = _
      rw [mapM_within within read]
      exact made

end encoding

/-- A statement is told by all but its words where these are those of its fields. -/
theorem statement_of_blank {labels : Table Word} {statement other : Statement}
    (blank : statement.blank = other.blank)
    (encoded : encode labels statement.fields = some statement.words)
    (encoded' : encode labels other.fields = some other.words) : statement = other := by
  simp only [Statement.blank,Statement.mk.injEq] at blank
  obtain ⟨line,addr,fields,-⟩ := blank
  rw [fields,encoded'] at encoded
  have words : other.words = statement.words := Option.some.inj encoded
  cases statement
  cases other
  simp_all only

theorem statements_of_blank {labels : Table Word} {statements others : List Statement}
    (blank : statements.map Statement.blank <+: others.map Statement.blank)
    (encoded : ∀ statement ∈ statements, encode labels statement.fields = some statement.words)
    (encoded' : ∀ statement ∈ others, encode labels statement.fields = some statement.words) :
    statements <+: others := by
  induction statements generalizing others with
  | nil => exact List.nil_prefix
  | cons statement statements ih =>
    cases others with
    | nil =>
      rw [List.map_nil,List.map_cons] at blank
      exact absurd (List.prefix_nil.mp blank) (List.cons_ne_nil _ _)
    | cons other others =>
      rw [List.map_cons,List.map_cons,List.cons_prefix_cons] at blank
      have same : statement = other := statement_of_blank blank.1
        (encoded statement List.mem_cons_self) (encoded' other List.mem_cons_self)
      rw [same,List.cons_prefix_cons]
      refine ⟨rfl,ih blank.2 ?_ ?_⟩
      · exact fun later member => encoded later (List.mem_cons_of_mem _ member)
      · exact fun later member => encoded' later (List.mem_cons_of_mem _ member)

section reader

variable {read : Reader}

theorem readLines_of_sourceLines {number : Nat} {before : Text} {opened : Option Text}
    {lines : List Text} {state final : State}
    (done : sourceLines read number before opened lines state = .ok () final) :
    ∃ text, readLines read number before opened lines state = .ok (text,none) final := by
  rw [← List.append_nil lines,sourceLines_append] at done
  obtain ⟨⟨text,opened'⟩,after,ran,ended⟩ := bind_success done
  cases opened' with
  | none =>
    cases ended
    exact ⟨text,ran⟩
  | some name => cases ended

/-- The errors that do not belong to the line that they name: a label that no line defines,
a definition that no line closes, and a line behind the named one that is too long. -/
inductive Belated : Error → Prop
  | missing (line : Int) (text name : Text) : Belated (.atLine line text (.labelMissing name))
  | unclosed (line : Int) (text : Text) : Belated (.atLine line text (.plain .macroUnclosed))
  | long (line : Int) (text : Text) : Belated (.atLine line text .lineTooLong)

theorem sourceStep_error {number : Nat} {before raw : Text} {opened : Option Text}
    {state after : State} {error : Error}
    (failed : sourceStep read number before opened raw state = .error error after) :
    Belated error ∨ ∃ text cause, error = .atLine ((number + 1 : Nat) : Int) text cause := by
  by_cases long : lineLimit ≤ raw.length
  · rw [sourceStep_long number before opened state long] at failed
    cases failed
    exact .inl (.long number before)
  · cases literals : expandLiterals (Text.dropReturn raw) with
    | error text =>
      rw [sourceStep_misquoted number before opened state long literals] at failed
      cases failed
      exact .inr ⟨text,.plain .stringForm,rfl⟩
    | ok text =>
      cases ran : sourceLine read opened (number + 1) text (numbered state (number + 1) raw) with
      | ok opened' next =>
        rw [sourceStep_run before (Nat.lt_of_not_le long) literals ran] at failed
        cases failed
      | error cause next =>
        rw [sourceStep_refused before (Nat.lt_of_not_le long) literals ran] at failed
        cases failed
        exact .inr ⟨text,cause,rfl⟩

/-- A source fails in a line of which no later one is read, or with a belated error. -/
theorem sourceLines_failed {number : Nat} {before : Text} {opened : Option Text}
    {lines : List Text} {state after : State} {error : Error}
    (failed : sourceLines read number before opened lines state = .error error after) :
    Belated error ∨ ∃ count text cause, count < lines.length ∧
      error = .atLine ((number + count + 1 : Nat) : Int) text cause ∧
      readLines read number before opened (lines.take (count + 1)) state = .error error after := by
  induction lines generalizing number before opened state with
  | nil =>
    rw [sourceLines] at failed
    split at failed
    · cases failed
      exact .inl (.unclosed number before)
    · cases failed
  | cons raw rest ih =>
    rw [sourceLines_cons] at failed
    cases ran : sourceStep read number before opened raw state with
    | error cause next =>
      rw [bind_of_error ran] at failed
      cases failed
      rcases sourceStep_error ran with belated | ⟨text,cause,rfl⟩
      · exact .inl belated
      · refine .inr ⟨0,text,cause,Nat.succ_pos _,rfl,?_⟩
        rw [List.take_succ_cons,readLines,bind_of_error ran]
    | ok next between =>
      rw [bind_of_ok ran] at failed
      rcases ih failed with belated | ⟨count,text,cause,bound,rfl,stopped⟩
      · exact .inl belated
      · refine .inr ⟨count + 1,text,cause,Nat.succ_lt_succ bound,?_,?_⟩
        · rw [Nat.add_right_comm number 1 count,Nat.add_assoc number count 1]
        · rw [List.take_succ_cons,readLines,bind_of_ok ran]
          exact stopped

end reader

/-- Lines that follow those of a source extend the state that these leave. -/
theorem sourceLines_extends {evaluate : Expression.Evaluator} {depth : Nat} {lines rest : List Text}
    {start state final : State}
    (read : sourceLines (readLine evaluate depth) 0 [] none lines start = .ok () state)
    (read' : sourceLines (readLine evaluate depth) 0 [] none (lines ++ rest) start = .ok () final) :
    Extends state final := by
  obtain ⟨text,ran⟩ := readLines_of_sourceLines read
  rw [sourceLines_append,bind_of_ok ran] at read'
  exact extends_keeps (keeps_sourceLines (extends_stable state)
    (keeps_readLine (extends_stable state) evaluate depth) _ _ _ _) read'

theorem parse_extends {evaluate : Expression.Evaluator} {depth : Nat}
    {assembler left left' : Assembler} {source longer : Text} {program extended : Program}
    (continued : source.lines <+: longer.lines)
    (parsed : assembler.parse evaluate depth source = (.ok program, left))
    (parsed' : assembler.parse evaluate depth longer = (.ok extended, left')) :
    program.statements.toList <+: extended.statements.toList ∧
      left.state.labels.Within left'.state.labels := by
  obtain ⟨state,completed⟩ := parse_completed parsed
  obtain ⟨final,completed'⟩ := parse_completed parsed'
  obtain ⟨rest,lines⟩ := continued
  have read := completed'.read
  rw [← lines] at read
  have grown := sourceLines_extends completed.read read
  have within : left.state.labels.Within left'.state.labels := by
    rw [← completed.labels,← completed'.labels]
    exact grown.labels
  refine ⟨?_,within⟩
  -- The words are not compared: both are what the fields give under the later labels.
  apply @statements_of_blank left'.state.labels
  · rw [completed.blank,completed'.blank]
    exact grown.statements.map _
  · intro statement member
    exact encode_within within (parse_encoded parsed statement (Array.mem_toList_iff.mp member))
  · intro statement member
    exact parse_encoded parsed' statement (Array.mem_toList_iff.mp member)

/-- A source is rejected while its lines are read, or for a label that is missing then. -/
theorem parse_rejected {evaluate : Expression.Evaluator} {depth : Nat}
    {assembler left : Assembler} {source : Text} {error : Error}
    (rejected : assembler.parse evaluate depth source = (.error error, left)) :
    Belated error ∨ ∃ after, left = { assembler with state := after } ∧
      sourceLines (readLine evaluate depth) 0 [] none source.lines
        (State.start assembler.predefines assembler.verbose) = .error error after := by
  cases read : sourceLines (readLine evaluate depth) 0 [] none source.lines
      (State.start assembler.predefines assembler.verbose) with
  | error cause after =>
    rw [parse_of_failed read] at rejected
    cases rejected
    exact .inr ⟨after,rfl,rfl⟩
  | ok _ state =>
    obtain ⟨emissions,coherent⟩ := lines_coherent read
    rw [parse_of_lines read] at rejected
    cases missing : firstMissing state.labels state.statements.toList with
    | none =>
      obtain ⟨statements,resolved⟩ := resolveAll_of_nothing_missing coherent missing
      rw [resolved] at rejected
      cases rejected
    | some found =>
      rw [resolveAll_of_firstMissing coherent missing] at rejected
      cases rejected
      exact .inl (.missing _ _ _)

/-- What a source is assembled to depends on no later line. The program of an accepted source
begins that of every accepted source that continues it, and its labels keep their addresses.
A line that is refused is refused in every source with the same lines up to it, with the same
error, and the assembler is left in the same state. -/
theorem lines_reach_no_earlier (evaluate : Expression.Evaluator) (depth : Nat)
    (assembler : Assembler) (source : Text) :
    (∀ program left, assembler.parse evaluate depth source = (.ok program, left) →
      ∀ longer extended left', source.lines <+: longer.lines →
        assembler.parse evaluate depth longer = (.ok extended, left') →
          program.words <+: extended.words ∧
          program.statements.toList <+: extended.statements.toList ∧
          left.state.labels.Within left'.state.labels) ∧
    ∀ error left, assembler.parse evaluate depth source = (.error error, left) → ¬ Belated error →
      ∃ (line : Nat) (text : Text) (cause : Error), error = .atLine line text cause ∧
        1 ≤ line ∧ line ≤ source.lines.length ∧
        ∀ other : Text, other.lines.take line = source.lines.take line →
          assembler.parse evaluate depth other = (.error error, left) := by
  refine ⟨?_,?_⟩
  · intro program left parsed longer extended left' continued parsed'
    obtain ⟨statements,within⟩ := parse_extends continued parsed parsed'
    obtain ⟨emissions,accepted⟩ := parse_accepted parsed
    obtain ⟨emissions',accepted'⟩ := parse_accepted parsed'
    refine ⟨?_,statements,within⟩
    obtain ⟨rest,whole⟩ := statements
    rw [accepted.words,accepted'.words,← whole,List.flatMap_append]
    exact List.prefix_append _ _
  · intro error left rejected prompt
    rcases parse_rejected rejected with belated | ⟨after,rfl,failed⟩
    · exact absurd belated prompt
    · rcases sourceLines_failed failed with belated | ⟨count,text,cause,bound,named,stopped⟩
      · exact absurd belated prompt
      · refine ⟨count + 1,text,cause,?_,Nat.succ_pos count,bound,?_⟩
        · rw [named,Nat.zero_add]
        · intro other same
          apply parse_of_failed
          rw [← List.take_append_drop (count + 1) other.lines,same,sourceLines_append,
            bind_of_error stopped]

def greeting : Text := ".macro put X\nout X\n.endm\nstart: put 65\njmp end\nend: halt"

/-- The lines that follow equate a label and the parameter of a macro. -/
def continuedGreeting : Text :=
  greeting ++ ("\n.equ start 9\nmore: .data start end more\n.equ X 1\nput 66" : Text)

def faultyCall : Text := ".macro put X\nout X Y\n.endm\nput 65\nhalt"

/-- The lines that follow equate the field that is too much. -/
def mendedCall : Text := ".macro put X\nout X Y\n.endm\nput 65\n.equ Y 1\nhalt halt"

def faultyCallError : Error :=
  .atLine 4 "put 65" (.inMacro "put" 2 (.plain .extraArguments))

theorem lines_reach_no_earlier_calls :
    (∃ program left extended left', Assembler.parse Expression.evaluate 1 {} greeting = (.ok program, left) ∧
      Assembler.parse Expression.evaluate 1 {} continuedGreeting = (.ok extended, left') ∧
      program.words = [19, 65, 6, 4, 0] ∧ extended.words = [19, 65, 6, 4, 0, 9, 4, 5, 19, 66] ∧
      program.statements.toList <+: extended.statements.toList ∧
      left.state.labels.Within left'.state.labels) ∧
    ∃ left, Assembler.parse Expression.evaluate 1 {} faultyCall = (.error faultyCallError, left) ∧
      Assembler.parse Expression.evaluate 1 {} mendedCall = (.error faultyCallError, left) := by
  constructor
  · have evaluated : (Assembler.parse Expression.evaluate 1 {} greeting).1.toOption.map Program.words =
        some [19, 65, 6, 4, 0] := by decide +kernel
    have evaluated' : (Assembler.parse Expression.evaluate 1 {} continuedGreeting).1.toOption.map Program.words =
        some [19, 65, 6, 4, 0, 9, 4, 5, 19, 66] := by decide +kernel
    rcases parsed : Assembler.parse Expression.evaluate 1 {} greeting with ⟨error | program,left⟩
    · rw [parsed] at evaluated
      cases evaluated
    · rcases parsed' : Assembler.parse Expression.evaluate 1 {} continuedGreeting with ⟨error | extended,left'⟩
      · rw [parsed'] at evaluated'
        cases evaluated'
      · rw [parsed] at evaluated
        rw [parsed'] at evaluated'
        have continued : greeting.lines <+: continuedGreeting.lines := by decide +kernel
        have kept := (lines_reach_no_earlier Expression.evaluate 1 {} greeting).1 program left parsed
          continuedGreeting extended left' continued parsed'
        exact ⟨program,left,extended,left',rfl,rfl,Option.some.inj evaluated,
          Option.some.inj evaluated',kept.2⟩
  · have evaluated : failureOf (sourceLines (readLine Expression.evaluate 1) 0 [] none
        faultyCall.lines (State.start .empty false)) = some faultyCallError := by decide +kernel
    cases read : sourceLines (readLine Expression.evaluate 1) 0 [] none faultyCall.lines
        (State.start .empty false) with
    | ok _ state =>
      rw [read] at evaluated
      cases evaluated
    | error error state =>
      rw [read] at evaluated
      have named : error = faultyCallError := Option.some.inj evaluated
      have rejected := @parse_of_failed Expression.evaluate 1 {} faultyCall error state read
      rw [named] at rejected
      have prompt : ¬ Belated faultyCallError := by
        intro belated
        cases belated
      obtain ⟨line,text,cause,same,-,-,others⟩ :=
        (lines_reach_no_earlier Expression.evaluate 1 {} faultyCall).2 faultyCallError _ rejected prompt
      have fourth : line = 4 := by
        rw [faultyCallError,Error.atLine.injEq] at same
        omega
      rw [fourth] at others
      exact ⟨_,rejected,others mendedCall (by decide +kernel)⟩

end WordMachine.Assembly
