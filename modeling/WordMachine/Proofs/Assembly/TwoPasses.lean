import WordMachine.Proofs.Assembly.Linking
import WordMachine.Proofs.Program.Tiling

/-! Whole sources: what is accepted was linked completely, so that one pass gives the same
words as two. -/
namespace WordMachine.Assembly

section assemble

variable {reader : Reader} {source : Text}

theorem assemble_of_lines {before state : State}
    (read : sourceLines reader 0 [] none source.lines before = .ok () state) :
    assemble reader source before =
      match resolveAll state.labels state.links.toList state.statements with
      | .ok statements =>
        .ok { words := statements.toList.flatMap (·.words), statements := statements }
          { state with statements := statements }
      | .error error => .error error state := by
  unfold assemble
  change EStateM.bind _ _ _ = _
  simp only [EStateM.bind,read]
  change EStateM.bind (failing (resolveAll state.labels state.links.toList state.statements)) _ state = _
  cases resolveAll state.labels state.links.toList state.statements with
  | ok statements => rfl
  | error error => rfl

theorem assemble_of_failed {before after : State} {error : Error}
    (failed : sourceLines reader 0 [] none source.lines before = .error error after) :
    assemble reader source before = .error error after := by
  unfold assemble
  change EStateM.bind _ _ _ = _
  simp only [EStateM.bind,failed]

theorem lines_of_assemble {before after : State} {program : Program}
    (ok : assemble reader source before = .ok program after) :
    ∃ state statements, sourceLines reader 0 [] none source.lines before = .ok () state ∧
      resolveAll state.labels state.links.toList state.statements = .ok statements ∧
      program = { words := statements.toList.flatMap (·.words), statements := statements } ∧
      after = { state with statements := statements } := by
  cases read : sourceLines reader 0 [] none source.lines before with
  | error error state =>
    rw [assemble_of_failed read] at ok
    cases ok
  | ok _ state =>
    rw [assemble_of_lines read] at ok
    cases resolved : resolveAll state.labels state.links.toList state.statements with
    | error error => rw [resolved] at ok; cases ok
    | ok statements =>
      rw [resolved] at ok
      cases ok
      exact ⟨state,statements,rfl,resolved,rfl,rfl⟩

end assemble

theorem start_coherent (predefines : Table Text) (verbose : Bool) :
    Coherent (State.start predefines verbose) [] where
  named := by
    intro name addr found
    cases found
  statements := rfl
  links := rfl
  valid := by
    intro emission member
    cases member

theorem start_placed (predefines : Table Text) (verbose : Bool) :
    Placed (State.start predefines verbose) where
  total := rfl
  fits := Nat.zero_le _
  inside := by
    intro statement member
    cases member
  bounded := by
    intro name addr found
    cases found

section lines

variable {evaluate : Expression.Evaluator} {depth : Nat} {predefines : Table Text} {verbose : Bool}
  {lines : List Text} {state : State}
  (read : sourceLines (readLine evaluate depth) 0 [] none lines (State.start predefines verbose) =
    .ok () state)
include read

theorem lines_coherent : ∃ emissions, Coherent state emissions := by
  have kept := keeps_sourceLines coherent_stable (keeps_readLine coherent_stable evaluate depth)
    0 [] none lines _ ⟨[],start_coherent predefines verbose⟩
  rw [read] at kept
  exact kept

theorem lines_placed : Placed state := by
  have kept := keeps_sourceLines placed_stable (keeps_readLine placed_stable evaluate depth)
    0 [] none lines _ (start_placed predefines verbose)
  rw [read] at kept
  exact kept

end lines

theorem coherent_waiting {state : State} {emissions : List Emission}
    (coherent : Coherent state emissions) :
    ∀ link ∈ state.links.toList, link ∈ waitingLinks 0 emissions := by
  intro link member
  rw [← coherent.links]
  exact member

theorem mapM_of_final {labels : Table Word} {operands : List Operand} {words : List Word}
    (counted : words.length = operands.length)
    (final : ∀ (place : Nat) (operand : Operand), operands[place]? = some operand →
      words[place]? = operand.linked labels) :
    operands.mapM (Operand.linked labels) = some words := by
  induction operands generalizing words with
  | nil => rw [List.eq_nil_of_length_eq_zero counted]; rfl
  | cons operand operands ih =>
    cases words with
    | nil => cases counted
    | cons word words =>
      have first : some word = operand.linked labels := final 0 operand rfl
      have rest := ih (Nat.succ.inj counted) fun place other stands => final (place + 1) other stands
      rw [List.mapM_cons,← first,rest]
      rfl

theorem wordsLinked_encode {labels : Table Word} {index : Nat} {emission : Emission}
    {statement : Statement} (valid : emission.Valid labels)
    (linked : WordsLinked labels [] index emission statement) :
    encode labels statement.fields = some statement.words := by
  have fields : statement.fields = emission.statement.fields := by rw [linked.rest]
  rw [fields,← encoded_encode valid.encoded]
  apply mapM_of_final linked.counted
  intro place operand stands
  rcases linked.final place operand stands with final | ⟨name,-,member⟩
  · exact final
  · cases member

/-- What is known of a source that was accepted: some emissions were linked to the end. -/
structure Accepted (program : Program) (labels : Table Word) (emissions : List Emission) : Prop where
  valid : ∀ emission ∈ emissions, emission.Valid labels
  linked : Linked labels emissions [] program.statements
  words : program.words = program.statements.toList.flatMap Statement.words
  fits : program.words.length ≤ memorySize
  bounded : ∀ name addr, labels.find? name = some addr → addr.toNat ≤ program.words.length
  inside : ∀ emission ∈ emissions,
    emission.statement.addr.toNat + emission.operands.length ≤ memorySize

/-- Linking changes words and no more. -/
theorem linked_blank {labels : Table Word} {emissions : List Emission} {remaining : List Link}
    {statements : Array Statement} (linked : Linked labels emissions remaining statements) :
    statements.toList.map Statement.blank = emissions.map fun emission =>
      { emission.statement with words := List.replicate emission.operands.length 0 } := by
  apply List.ext_getElem?
  intro index
  rw [List.getElem?_map,List.getElem?_map,Array.getElem?_toList]
  cases emitted : emissions[index]? with
  | none =>
    have beyond : statements[index]? = none := by
      rw [Array.getElem?_eq_none_iff,linked.sized]
      exact List.getElem?_eq_none_iff.mp emitted
    rw [beyond]
    rfl
  | some emission =>
    obtain ⟨statement,found,words⟩ := linked_statement linked emitted
    rw [found]
    simp only [Option.map_some,Statement.blank,words.counted]
    rw [words.rest]

theorem linked_total {labels : Table Word} {emissions : List Emission} {links remaining : List Link}
    {before after : Array Statement} (first : Linked labels emissions links before)
    (last : Linked labels emissions remaining after) :
    (after.toList.flatMap Statement.words).length = (before.toList.flatMap Statement.words).length := by
  rw [← extent,← extent,← extent_blank,linked_blank last,← linked_blank first,extent_blank]

theorem accepted_of_resolved {state : State} {emissions : List Emission} {statements : Array Statement}
    (coherent : Coherent state emissions) (placed : Placed state)
    (resolved : resolveAll state.labels state.links.toList state.statements = .ok statements) :
    Accepted ⟨statements.toList.flatMap Statement.words,statements⟩ state.labels emissions := by
  have begun := coherent_linked coherent
  -- All links are resolved, so none remains.
  have linked : Linked state.labels emissions [] statements := by
    apply resolveAll_linked (coherent_waiting coherent) _ resolved
    rw [List.append_nil]
    exact begun
  have total : (statements.toList.flatMap Statement.words).length = state.here.toNat := by
    rw [linked_total begun linked,placed.total]
  refine ⟨coherent.valid,linked,rfl,?_,?_,?_⟩
  · change (statements.toList.flatMap Statement.words).length ≤ memorySize
    rw [total]
    exact placed.fits
  · intro name addr found
    change addr.toNat ≤ (statements.toList.flatMap Statement.words).length
    rw [total]
    exact placed.bounded name addr found
  · intro emission member
    have held : emission.statement ∈ state.statements.toList := by
      rw [coherent.statements]
      exact List.mem_map_of_mem member
    have inside := placed.inside emission.statement held
    rwa [(coherent.valid emission member).words,List.length_map] at inside

section parse

variable {evaluate : Expression.Evaluator} {depth : Nat} {assembler left : Assembler}
  {source : Text} {program : Program}

theorem parse_of_lines {state : State}
    (read : sourceLines (readLine evaluate depth) 0 [] none source.lines
      (State.start assembler.predefines assembler.verbose) = .ok () state) :
    assembler.parse evaluate depth source =
      match resolveAll state.labels state.links.toList state.statements with
      | .ok statements =>
        (.ok ⟨statements.toList.flatMap Statement.words,statements⟩,
          { assembler with state := { state with statements := statements } })
      | .error error => (.error error, { assembler with state := state }) := by
  unfold Assembler.parse
  rw [assemble_of_lines read]
  cases resolveAll state.labels state.links.toList state.statements with
  | ok statements => rfl
  | error error => rfl

theorem parse_of_failed {error : Error} {after : State}
    (failed : sourceLines (readLine evaluate depth) 0 [] none source.lines
      (State.start assembler.predefines assembler.verbose) = .error error after) :
    assembler.parse evaluate depth source = (.error error, { assembler with state := after }) := by
  unfold Assembler.parse
  rw [assemble_of_failed failed]

theorem lines_of_parse (ok : assembler.parse evaluate depth source = (.ok program, left)) :
    ∃ state statements, sourceLines (readLine evaluate depth) 0 [] none source.lines
        (State.start assembler.predefines assembler.verbose) = .ok () state ∧
      resolveAll state.labels state.links.toList state.statements = .ok statements ∧
      program = ⟨statements.toList.flatMap Statement.words,statements⟩ ∧
      left = { assembler with state := { state with statements := statements } } := by
  unfold Assembler.parse at ok
  split at ok
  · next result after assembled =>
    cases ok
    obtain ⟨state,statements,read,resolved,rfl,rfl⟩ := lines_of_assemble assembled
    exact ⟨state,statements,read,resolved,rfl,rfl⟩
  · cases ok

theorem parse_accepted (ok : assembler.parse evaluate depth source = (.ok program, left)) :
    ∃ emissions, Accepted program left.state.labels emissions := by
  obtain ⟨state,statements,read,resolved,rfl,rfl⟩ := lines_of_parse ok
  obtain ⟨emissions,coherent⟩ := lines_coherent read
  have accepted := accepted_of_resolved coherent (lines_placed read) resolved
  exact ⟨emissions,accepted⟩

end parse

theorem accepted_statement {program : Program} {labels : Table Word} {emissions : List Emission}
    (accepted : Accepted program labels emissions) {statement : Statement}
    (member : statement ∈ program.statements) :
    ∃ index emission, emission ∈ emissions ∧ WordsLinked labels [] index emission statement := by
  obtain ⟨index,found⟩ := Array.mem_iff_getElem?.mp member
  have bound : index < emissions.length := by
    rw [← accepted.linked.sized]
    exact (Array.getElem?_eq_some_iff.mp found).1
  have emitted : emissions[index]? = some emissions[index] := List.getElem?_eq_getElem bound
  exact ⟨index,emissions[index],List.getElem_mem bound,
    accepted.linked.each index _ statement emitted found⟩

theorem link_in_range {state : State} {emissions : List Emission} {done rest : List Link}
    {link : Link} {statements : Array Statement} (coherent : Coherent state emissions)
    (links : state.links.toList = done ++ link :: rest)
    (resolved : resolveAll state.labels done state.statements = .ok statements) :
    ∃ statement, statements[link.statement]? = some statement ∧
      link.index < statement.words.length := by
  have waiting := coherent_waiting coherent
  rw [links] at waiting
  have begun := coherent_linked coherent
  rw [links] at begun
  have linked := resolveAll_linked (fun other member => waiting other (by simp [member])) begun resolved
  obtain ⟨emission,emitted,waits⟩ := mem_waitingLinks.mp (waiting link (by simp))
  obtain ⟨statement,found,words⟩ := linked_statement linked emitted
  refine ⟨statement,found,?_⟩
  rw [words.counted]
  exact (List.getElem?_eq_some_iff.mp waits).1

theorem resolveAll_of_firstMissing {state : State} {emissions : List Emission}
    (coherent : Coherent state emissions) {statement : Statement} {field : Text}
    (missing : firstMissing state.labels state.statements.toList = some (statement, field)) :
    resolveAll state.labels state.links.toList state.statements =
      .error (.atLine statement.line (Text.joinWith [Byte.space] statement.fields)
        (.labelMissing field)) := by
  rw [coherent.statements,
    firstMissing_eq 0 fun emission member => (coherent.valid emission member).encoded,
    ← coherent.links] at missing
  obtain ⟨link,first,rest⟩ := Option.bind_eq_some_iff.mp missing
  obtain ⟨emission,emitted,failed⟩ :=
    resolveAll_missing (coherent_waiting coherent) (coherent_linked coherent) first
  rw [Nat.sub_zero,emitted] at rest
  cases rest
  exact failed

theorem resolveAll_of_nothing_missing {state : State} {emissions : List Emission}
    (coherent : Coherent state emissions)
    (complete : firstMissing state.labels state.statements.toList = none) :
    ∃ statements, resolveAll state.labels state.links.toList state.statements = .ok statements := by
  apply resolveAll_succeeds
  rw [coherent.statements,
    firstMissing_eq 0 fun emission member => (coherent.valid emission member).encoded,
    ← coherent.links,Option.bind_eq_none_iff] at complete
  cases first : state.links.toList.find? (isUnresolved state.labels) with
  | none => rfl
  | some link =>
    have absent := complete link first
    obtain ⟨emission,emitted,-⟩ :=
      mem_waitingLinks.mp (coherent_waiting coherent link (List.mem_of_find?_eq_some first))
    rw [Nat.sub_zero,emitted] at absent
    cases absent

/-- One pass with links gives what two passes give: the words of every statement are those
of its fields under the final labels. Where some label is missing in the end, the first
field that needs one is reported at its statement. No link is ever out of range. -/
theorem parse_eq_two_passes (evaluate : Expression.Evaluator) (depth : Nat)
    (assembler : Assembler) (source : Text) :
    (∀ program left, assembler.parse evaluate depth source = (.ok program, left) →
      (∀ statement ∈ program.statements,
        encode left.state.labels statement.fields = some statement.words) ∧
      program.words = program.statements.toList.flatMap Statement.words) ∧
    ∀ state, sourceLines (readLine evaluate depth) 0 [] none source.lines
        (State.start assembler.predefines assembler.verbose) = .ok () state →
      (∀ statement field,
        firstMissing state.labels state.statements.toList = some (statement, field) →
          assembler.parse evaluate depth source =
            (.error (.atLine statement.line (Text.joinWith [Byte.space] statement.fields)
              (.labelMissing field)), { assembler with state := state })) ∧
      (firstMissing state.labels state.statements.toList = none →
        ∃ program left, assembler.parse evaluate depth source = (.ok program, left)) ∧
      ∀ done link rest statements, state.links.toList = done ++ link :: rest →
        resolveAll state.labels done state.statements = .ok statements →
          ∃ statement, statements[link.statement]? = some statement ∧
            link.index < statement.words.length := by
  refine ⟨?_,?_⟩
  · intro program left ok
    obtain ⟨emissions,accepted⟩ := parse_accepted ok
    refine ⟨?_,accepted.words⟩
    intro statement member
    obtain ⟨index,emission,emitted,linked⟩ := accepted_statement accepted member
    exact wordsLinked_encode (accepted.valid emission emitted) linked
  · intro state read
    obtain ⟨emissions,coherent⟩ := lines_coherent read
    refine ⟨?_,?_,?_⟩
    · intro statement field missing
      rw [parse_of_lines read,resolveAll_of_firstMissing coherent missing]
    · intro complete
      obtain ⟨statements,resolved⟩ := resolveAll_of_nothing_missing coherent complete
      rw [parse_of_lines read,resolved]
      exact ⟨_,_,rfl⟩
    · intro done link rest statements links resolved
      exact link_in_range coherent links resolved

def nestedMacros : Text :=
  ".macro load X\nset r0 X\n.endm\n.macro visit Y\nload Y\njmp done\n.endm\n" ++
    ("start: visit done\n.data start 7\ndone: halt" : Text)

def undefinedLabels : Text := "start: jmp start\njt r0 later\ncall never"

theorem parse_eq_two_passes_examples :
    (∃ program left, Assembler.parse Expression.evaluate 2 {} nestedMacros = (.ok program, left) ∧
      program.words = [1, 32768, 7, 6, 7, 0, 7, 0] ∧ ∀ statement ∈ program.statements,
        encode left.state.labels statement.fields = some statement.words) ∧
    ∃ left, Assembler.parse Expression.evaluate 0 {} undefinedLabels =
      (.error (.atLine 2 "jt r0 later" (.labelMissing "later")), left) := by
  constructor
  · have evaluated : (Assembler.parse Expression.evaluate 2 {} nestedMacros).1.toOption.map Program.words =
        some [1, 32768, 7, 6, 7, 0, 7, 0] := by decide +kernel
    rcases parsed : Assembler.parse Expression.evaluate 2 {} nestedMacros with ⟨error | program,left⟩
    · rw [parsed] at evaluated
      cases evaluated
    · rw [parsed] at evaluated
      have words : program.words = [1, 32768, 7, 6, 7, 0, 7, 0] := Option.some.inj evaluated
      exact ⟨program,left,rfl,words,((parse_eq_two_passes Expression.evaluate 2 {} nestedMacros).1 program left parsed).1⟩
  · have accepted : failureOf (sourceLines (readLine Expression.evaluate 0) 0 [] none undefinedLabels.lines
        (State.start .empty false)) = none := by decide +kernel
    have evaluated : firstMissing
        (stateAfter (sourceLines (readLine Expression.evaluate 0) 0 [] none undefinedLabels.lines (State.start .empty false))).labels
        (stateAfter (sourceLines (readLine Expression.evaluate 0) 0 [] none undefinedLabels.lines
          (State.start .empty false))).statements.toList =
        some (⟨2,2,["jt","r0","later"],[7,32768,0]⟩,("later" : Text)) := by decide +kernel
    cases read : sourceLines (readLine Expression.evaluate 0) 0 [] none undefinedLabels.lines (State.start .empty false) with
    | error error state =>
      rw [read] at accepted
      cases accepted
    | ok _ state =>
      rw [read] at evaluated
      exact ⟨_,((parse_eq_two_passes Expression.evaluate 0 {} undefinedLabels).2 state read).1 _ _ evaluated⟩

end WordMachine.Assembly
