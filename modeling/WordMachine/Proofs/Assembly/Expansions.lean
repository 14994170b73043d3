import Mathlib.Data.List.Lattice
import WordMachine.Proofs.Assembly.Declarations
import WordMachine.Proofs.Assembly.Marks

/-! At signs in the course of a source. Each time that a line of a body is read, its at signs
stand for a text that belongs to this line of the source: two readings share it if and only
if they are of the same line, whether in one expansion or in two. -/
namespace WordMachine.Assembly

/-- A line at one of its readings: the numbers of the lines that are being read, the
innermost first, the macro of which it is a line, with its text there, and the line as it is
read. -/
structure Occurrence where
  path : List Nat
  origin : Option (Text × Text)
  turn : Turn

/-- The readings of a line and of those of the macros that it calls. -/
inductive LineOccurs (evaluate : Expression.Evaluator) :
    Nat → List Nat → Option (Text × Text) → Text → Nat → State → Occurrence → Prop
  | own (depth : Nat) (path : List Nat) (origin : Option (Text × Text)) (text : Text) (line : Nat)
      (state : State) :
      LineOccurs evaluate depth path origin text line state ⟨path,origin,⟨text,line,state⟩⟩
  | body {depth : Nat} {path : List Nat} {origin : Option (Text × Text)} {text : Text}
      {line : Nat} {state next between : State} {name : Text} {arguments : List Text}
      {definition : MacroDef} {before after : List Text} {bodyText : Text}
      {occurrence : Occurrence}
      (taken : statementFields (expandEmbedded evaluate) text line state = .ok (name :: arguments) next)
      (found : next.macros.find? name = some definition)
      (counted : arguments.length = definition.parameters.length)
      (lines : definition.body.toList = before ++ bodyText :: after)
      (read : expandBody (readLine evaluate depth) name definition.line before
        (bindParameters next definition arguments) = .ok () between)
      (inner : LineOccurs evaluate depth ((definition.line + before.length) :: path)
        (some (name,bodyText))
        (Text.substitute Byte.atSign (expansionMark name (definition.line + before.length)) bodyText)
        (definition.line + before.length) between occurrence) :
      LineOccurs evaluate (depth + 1) path origin text line state occurrence

section line

variable {evaluate : Expression.Evaluator} {depth : Nat} {path : List Nat}
  {origin : Option (Text × Text)} {text : Text} {line : Nat} {state : State} {occurrence : Occurrence}

theorem lineOccurs_turn (made : LineOccurs evaluate depth path origin text line state occurrence) :
    LineTurn evaluate depth text line state occurrence.turn := by
  induction made with
  | own depth path origin text line state => exact .own depth text line state
  | body taken found counted lines read inner ih => exact .body taken found counted lines read ih

/-- What is read in place of a line of a body, if the occurrence is one. -/
def Occurrence.Marked (occurrence : Occurrence) : Prop :=
  ∀ name text, occurrence.origin = some (name,text) →
    occurrence.turn.text =
      Text.substitute Byte.atSign (expansionMark name occurrence.turn.line) text

theorem lineOccurs_marked (made : LineOccurs evaluate depth path origin text line state occurrence)
    (begun : Occurrence.Marked ⟨path,origin,⟨text,line,state⟩⟩) : occurrence.Marked := by
  induction made with
  | own depth path origin text line state => exact begun
  | body taken found counted lines read inner ih =>
    apply ih
    intro name text same
    cases same
    rfl

/-- The line of the source that is read, if it is a line of a body. -/
def Occurrence.Declared (occurrence : Occurrence) (lines : List Text) : Prop :=
  ∀ name text, occurrence.origin = some (name,text) → ∃ definition index,
    Declares lines name definition ∧ definition.body.toList[index]? = some text ∧
      occurrence.turn.line = definition.line + index

theorem lineOccurs_declared {source : List Text}
    (made : LineOccurs evaluate depth path origin text line state occurrence)
    (macros : ∀ name definition, state.macros.find? name = some definition →
      Declares source name definition)
    (begun : Occurrence.Declared ⟨path,origin,⟨text,line,state⟩⟩ source) :
    occurrence.Declared source := by
  induction made with
  | own depth path origin text line state => exact begun
  | @body depth path origin text line state next between name arguments definition before after
      bodyText occurrence taken found counted lines read inner ih =>
    have same : next.macros = state.macros :=
      (@statementFields_defines evaluate ⟨text,line,state⟩ _ _ taken).2.macros
    have kept : between.macros = state.macros :=
      (keeps_success (keeps_expandBody (readLine_macros evaluate depth) name _ before) rfl
        read).trans same
    apply ih
    · rw [kept]
      exact macros
    · intro name' text' declared
      cases declared
      rw [same] at found
      refine ⟨definition,before.length,macros _ _ found,?_,rfl⟩
      rw [lines,List.getElem?_append_right (Nat.le_refl _),Nat.sub_self]
      rfl

end line

/-- The readings for the lines of a source. -/
inductive SourceOccurs (evaluate : Expression.Evaluator) (depth : Nat) (lines : List Text)
    (start : State) (occurrence : Occurrence) : Prop
  | read {before rest : List Text} {raw earlier text : Text} {state : State}
      (whole : lines = before ++ raw :: rest)
      (ran : readLines (readLine evaluate depth) 0 [] none before start = .ok (earlier,none) state)
      (literals : expandLiterals (Text.dropReturn raw) = .ok text)
      (ordinary : delimits text = false)
      (made : LineOccurs evaluate depth [before.length + 1] none text (before.length + 1)
        (numbered state (before.length + 1) raw) occurrence) :
      SourceOccurs evaluate depth lines start occurrence

/-- A reading of a line by an assembler. -/
def Occurrence.ReadBy (evaluate : Expression.Evaluator) (depth : Nat) (occurrence : Occurrence)
    (assembler : Assembler) (source : Text) : Prop :=
  SourceOccurs evaluate depth source.lines
    (State.start assembler.predefines assembler.verbose) occurrence

section source

variable {evaluate : Expression.Evaluator} {depth : Nat} {lines : List Text} {start : State}
  {occurrence : Occurrence}

theorem sourceOccurs_marked (made : SourceOccurs evaluate depth lines start occurrence) :
    occurrence.Marked := by
  obtain ⟨whole,ran,literals,ordinary,made⟩ := made
  exact lineOccurs_marked made nofun

theorem sourceOccurs_declared (empty : start.macros = .empty)
    (made : SourceOccurs evaluate depth lines start occurrence) : occurrence.Declared lines := by
  obtain ⟨whole,ran,literals,ordinary,made⟩ := made
  rename_i before rest raw earlier text state
  have begun : Gathered lines 0 none start.macros := by
    rw [empty]
    exact ⟨nofun,nofun⟩
  have gathered := @readLines_gathered lines none evaluate depth [] before (raw :: rest) [] start state
    (earlier,none) whole begun ran
  apply lineOccurs_declared made _ nofun
  rw [numbered_macros]
  exact gathered.declared

end source

section fresh

variable {evaluate : Expression.Evaluator}

theorem takeLabels_fresh {fields left : List Text} {state next : State}
    (taken : takeLabels fields state = .ok left next) :
    ∀ name ∈ labelsOf fields, state.labels.find? name = none := by
  induction fields generalizing state with
  | nil => simp [labelsOf]
  | cons field rest ih =>
    rw [takeLabels] at taken
    by_cases labelled : field.getLast? = some Byte.colon
    · have isLabel : isLabel field = true := decide_eq_true labelled
      rw [if_pos labelled] at taken
      obtain ⟨_,between,defined,taken⟩ := bind_success taken
      obtain ⟨free,rfl⟩ := defineLabel_success defined
      simp only [labelsOf,List.takeWhile_cons,isLabel,if_true,List.map_cons]
      rw [List.forall_mem_cons]
      refine ⟨Table.find?_of_not_contains free,?_⟩
      intro name member
      have later := ih taken name member
      rw [Table.find?_insert] at later
      split at later
      · cases later
      · exact later
    · have other : isLabel field = false := decide_eq_false labelled
      simp [labelsOf,other]

/-- A line that is read defines labels that were not there. -/
theorem statementFields_fresh {turn : Turn} {left : List Text} {next : State}
    (taken : statementFields (expandEmbedded evaluate) turn.text turn.line turn.state =
      .ok left next) :
    ∀ name ∈ turn.labels evaluate, turn.state.labels.find? name = none := by
  cases expands : expandEmbedded evaluate turn.scope turn.text with
  | error error =>
    rw [statementFields_error expands] at taken
    cases taken
  | ok expanded =>
    have written : turn.written evaluate = Text.fields expanded := by
      rw [Turn.written,lineFields,expands]
    rw [statementFields_ok expands] at taken
    unfold Turn.labels Turn.fields
    rw [written]
    cases fields : Text.fields expanded with
    | nil => simp [labelsOf]
    | cons head rest =>
      rw [fields] at taken
      by_cases equate : head = (".equ" : Text)
      · simp [labelsOf,equate]
      · have other : (head :: rest).head? ≠ some (".equ" : Text) :=
          fun same => equate (Option.some.inj same)
        rw [statementOf_other equate] at taken
        rw [if_neg other]
        have fresh := takeLabels_fresh taken
        exact fresh

section turns

variable {depth : Nat} {text : Text} {line : Nat} {state after : State} {turn : Turn}

theorem lineTurn_extends (made : LineTurn evaluate depth text line state turn) :
    Extends state turn.state :=
  lineTurn_holds (extends_stable state) made (extends_refl state)

/-- Each line of the macro that a line calls is read. -/
theorem body_read {next between : State} {name : Text} {arguments : List Text}
    {definition : MacroDef} {before rest : List Text} {bodyText : Text}
    (taken : statementFields (expandEmbedded evaluate) text line state = .ok (name :: arguments) next)
    (found : next.macros.find? name = some definition)
    (lines : definition.body.toList = before ++ bodyText :: rest)
    (ran : expandBody (readLine evaluate depth) name definition.line before
      (bindParameters next definition arguments) = .ok () between)
    (read : readLine evaluate (depth + 1) text line state = .ok () after) :
    ∃ final, readLine evaluate depth
      (Text.substitute Byte.atSign (expansionMark name (definition.line + before.length)) bodyText)
      (definition.line + before.length) between = .ok () final := by
  obtain ⟨left,next',taken',performs⟩ := readLine_performs read
  rw [taken] at taken'
  cases taken'
  cases performs with
  | emitted operation =>
    rw [operation] at found
    cases found
  | @expanded _ _ definition' final _ found' _ whole same =>
    rw [found] at found'
    cases found'
    change expandBody (readLine evaluate depth) name definition.line definition.body.toList _ = _
      at whole
    rw [lines,expandBody_append,bind_of_ok ran] at whole
    obtain ⟨middle,own,later⟩ := expandBody_cons whole
    exact ⟨middle,own⟩

theorem lineTurn_fresh (made : LineTurn evaluate depth text line state turn)
    (read : readLine evaluate depth text line state = .ok () after) :
    ∀ name ∈ turn.labels evaluate, turn.state.labels.find? name = none := by
  induction made generalizing after with
  | own depth text line state =>
    obtain ⟨left,next,taken,performs⟩ := readLine_performs read
    exact @statementFields_fresh evaluate ⟨text,line,state⟩ _ _ taken
  | body taken found counted lines ran inner ih =>
    obtain ⟨final,own⟩ := body_read taken found lines ran read
    exact ih own

end turns

/-- Two lines define different labels if the second is read when the labels of the first are
there. -/
theorem labels_disjoint {first second : Turn} {middle : State} {addr : Word}
    (defined : ∀ name ∈ first.labels evaluate, middle.labels.find? name = some addr)
    (further : Extends middle second.state)
    (fresh : ∀ name ∈ second.labels evaluate, second.state.labels.find? name = none) :
    (first.labels evaluate).Disjoint (second.labels evaluate) := by
  intro name member member'
  have there := further.labels name addr (defined name member)
  rw [fresh name member'] at there
  cases there

end fresh

section apart

variable {evaluate : Expression.Evaluator} {depth : Nat} {name : Text} {definition : MacroDef}
  {before : List Text} {between : State}

/-- A line and one of the macro that it calls. -/
theorem call_apart_body {first second : Turn} {next : State} {arguments : List Text}
    {text : Text} {line : Nat}
    (taken : statementFields (expandEmbedded evaluate) first.text first.line first.state =
      .ok (name :: arguments) next)
    (ran : expandBody (readLine evaluate depth) name definition.line before
      (bindParameters next definition arguments) = .ok () between)
    (inner : LineTurn evaluate depth text line between second)
    (fresh : ∀ name ∈ second.labels evaluate, second.state.labels.find? name = none) :
    (first.labels evaluate).Disjoint (second.labels evaluate) := by
  have bound : Extends next (bindParameters next definition arguments) :=
    extends_same ⟨rfl,rfl,rfl⟩
  have body := extends_keeps (keeps_expandBody
    (keeps_readLine (extends_stable _) evaluate depth) name _ before) ran
  exact labels_disjoint (statementFields_defines taken).2.defined
    (extends_trans bound (extends_trans body (lineTurn_extends inner))) fresh

/-- Two lines of a body, or of the macros that they call. -/
theorem earlier_apart_later {start between' : State} {bodyText text' : Text} {line line' : Nat}
    {middle : List Text} {first second : Turn} (placed : Placed start)
    (ran : expandBody (readLine evaluate depth) name line before start = .ok () between)
    (ran' : expandBody (readLine evaluate depth) name line (before ++ bodyText :: middle) start =
      .ok () between')
    (inner : LineTurn evaluate depth
      (Text.substitute Byte.atSign (expansionMark name (line + before.length)) bodyText)
      (line + before.length) between first)
    (inner' : LineTurn evaluate depth text' line' between' second)
    (fresh : ∀ name ∈ second.labels evaluate, second.state.labels.find? name = none) :
    (first.labels evaluate).Disjoint (second.labels evaluate) := by
  rw [expandBody_append,bind_of_ok ran] at ran'
  obtain ⟨next,own,later⟩ := expandBody_cons ran'
  have placed' : Placed between :=
    keeps_success (keeps_expandBody
      (keeps_readLine placed_stable evaluate depth) name _ before) placed ran
  have further := extends_keeps (keeps_expandBody
    (keeps_readLine (extends_stable _) evaluate depth) name _ middle) later
  exact labels_disjoint (lineTurn_kept inner placed' own).defined
    (extends_trans further (lineTurn_extends inner')) fresh

theorem earlier_lines {before before' rest rest' : List Text} {text text' : Text}
    (same : before ++ text :: rest = before' ++ text' :: rest')
    (shorter : before.length < before'.length) : ∃ middle, before' = before ++ text :: middle := by
  rcases List.append_eq_append_iff.mp same with ⟨more,longer,begins⟩ | ⟨more,longer,begins⟩
  · cases more with
    | nil =>
      rw [List.append_nil] at longer
      rw [longer] at shorter
      exact absurd shorter (Nat.lt_irrefl _)
    | cons first middle =>
      cases begins
      exact ⟨middle,longer⟩
  · rw [longer,List.length_append] at shorter
    omega

/-- Two different readings for a line define different labels. -/
theorem lineOccurs_apart {path : List Nat} {origin : Option (Text × Text)} {text : Text} {line : Nat}
    {state after : State} {first second : Occurrence}
    (made : LineOccurs evaluate depth path origin text line state first)
    (made' : LineOccurs evaluate depth path origin text line state second) (placed : Placed state)
    (read : readLine evaluate depth text line state = .ok () after) (apart : first.path ≠ second.path) :
    (first.turn.labels evaluate).Disjoint (second.turn.labels evaluate) := by
  induction made generalizing second after with
  | own depth path origin text line state =>
    have fresh := lineTurn_fresh (lineOccurs_turn made') read
    cases made' with
    | own => exact absurd rfl apart
    | body taken found counted lines ran inner =>
      exact @call_apart_body _ _ _ _ _ _ ⟨text,line,state⟩ _ _ _ _ _ taken ran (lineOccurs_turn inner)
        fresh
  | @body depth path origin text line state next between name arguments definition before rest
      bodyText first taken found counted lines ran inner ih =>
    have fresh := lineTurn_fresh (.body taken found counted lines ran (lineOccurs_turn inner)) read
    have fresh' := lineTurn_fresh (lineOccurs_turn made') read
    cases made' with
    | own =>
      exact List.Disjoint.symm (@call_apart_body _ _ _ _ _ _ ⟨text,line,state⟩ _ _ _ _ _ taken ran
        (lineOccurs_turn inner) fresh)
    | @body _ _ _ _ _ _ next' between' name' arguments' definition' before' rest' bodyText' _ taken'
        found' counted' lines' ran' inner' =>
      rw [taken] at taken'
      cases taken'
      rw [found] at found'
      cases found'
      have whole := lines.symm.trans lines'
      have begun : Placed (bindParameters next definition arguments) :=
        placed_stable.silent next _ ⟨rfl,rfl,rfl⟩
          (keeps_success (keeps_statementFields placed_stable _ text line) placed taken)
      rcases Nat.lt_trichotomy before.length before'.length with shorter | same | longer
      · obtain ⟨middle,rfl⟩ := earlier_lines whole shorter
        exact earlier_apart_later begun ran ran' (lineOccurs_turn inner) (lineOccurs_turn inner')
          fresh'
      · obtain ⟨rfl,tails⟩ := List.append_inj whole same
        cases tails
        rw [ran] at ran'
        cases ran'
        obtain ⟨final,own⟩ := body_read taken found lines ran read
        have placed' := keeps_success (keeps_expandBody
          (keeps_readLine placed_stable evaluate depth) name _ before) begun ran
        exact ih inner' placed' own apart
      · obtain ⟨middle,rfl⟩ := earlier_lines whole.symm longer
        exact List.Disjoint.symm (earlier_apart_later begun ran' ran (lineOccurs_turn inner')
          (lineOccurs_turn inner) fresh)

theorem readLines_append (read : Reader) (number : Nat) (before : Text) (opened : Option Text)
    (lines rest : List Text) :
    readLines read number before opened (lines ++ rest) =
      readLines read number before opened lines >>= fun next =>
        readLines read (number + lines.length) next.1 next.2 rest := by
  induction lines generalizing number before opened with
  | nil => rfl
  | cons raw lines ih =>
    rw [List.cons_append,readLines,readLines,bind_assoc]
    congr 1
    funext next
    rw [ih,List.length_cons,Nat.add_right_comm,Nat.add_assoc]

section source

variable {start : State} {before rest : List Text} {raw earlier text : Text} {state : State}
  (ran : readLines (readLine evaluate depth) 0 [] none before start = .ok (earlier,none) state)
  (literals : expandLiterals (Text.dropReturn raw) = .ok text) (ordinary : delimits text = false)

include literals ordinary

theorem sourceStep_read {number : Nat} {next : Text × Option Text} {after : State}
    (step : sourceStep (readLine evaluate depth) number earlier none raw state = .ok next after) :
    readLine evaluate depth text (number + 1) (numbered state (number + 1) raw) =
      .ok () after := by
  obtain ⟨written,stated⟩ := sourceStep_success step
  have same := written.literals
  rw [literals] at same
  obtain ⟨text',opened⟩ := next
  cases same
  rw [sourceLine_statement ordinary] at stated
  obtain ⟨_,_,read,returned⟩ := bind_success stated
  cases returned
  exact read

include ran

theorem sourceLines_read {final : State}
    (read : sourceLines (readLine evaluate depth) 0 [] none (before ++ raw :: rest) start =
      .ok () final) :
    ∃ after, readLine evaluate depth text (before.length + 1)
      (numbered state (before.length + 1) raw) = .ok () after := by
  rw [sourceLines_append,bind_of_ok ran,Nat.zero_add,sourceLines_cons] at read
  obtain ⟨next,after,step,later⟩ := bind_success read
  exact ⟨after,sourceStep_read literals ordinary step⟩

omit literals ordinary in
theorem numbered_placed (placed : Placed start) : Placed (numbered state (before.length + 1) raw) :=
  placed_stable.silent state _ (sameCode_note state _)
    (keeps_success (keeps_readLines placed_stable
      (keeps_readLine placed_stable evaluate depth) 0 [] none before) placed ran)

/-- Two lines of a source, or of the macros that they call. -/
theorem earlier_source_apart {middle : List Text} {raw' earlier' text' : Text} {number' : Nat}
    {state' : State} {first second : Turn} (placed : Placed start)
    (ran' : readLines (readLine evaluate depth) 0 [] none (before ++ raw :: middle) start =
      .ok (earlier',none) state')
    (inner : LineTurn evaluate depth text (before.length + 1)
      (numbered state (before.length + 1) raw) first)
    (inner' : LineTurn evaluate depth text' number' (numbered state' number' raw') second)
    (fresh : ∀ name ∈ second.labels evaluate, second.state.labels.find? name = none) :
    (first.labels evaluate).Disjoint (second.labels evaluate) := by
  rw [readLines_append,bind_of_ok ran,Nat.zero_add,readLines] at ran'
  obtain ⟨next,after,step,later⟩ := bind_success ran'
  have own := sourceStep_read literals ordinary step
  have further := extends_keeps (keeps_readLines (extends_stable _)
    (keeps_readLine (extends_stable _) evaluate depth) _ _ _ middle) later
  have numbering : Extends state' (numbered state' number' raw') :=
    extends_same (sameCode_note state' _)
  exact labels_disjoint
    (lineTurn_kept inner (numbered_placed ran placed) own).defined
    (extends_trans further (extends_trans numbering (lineTurn_extends inner'))) fresh

end source

/-- Two different readings for the lines of a source define different labels. -/
theorem sourceOccurs_apart {lines : List Text} {start final : State} {first second : Occurrence}
    (placed : Placed start)
    (read : sourceLines (readLine evaluate depth) 0 [] none lines start = .ok () final)
    (made : SourceOccurs evaluate depth lines start first)
    (made' : SourceOccurs evaluate depth lines start second) (apart : first.path ≠ second.path) :
    (first.turn.labels evaluate).Disjoint (second.turn.labels evaluate) := by
  obtain ⟨whole,ran,literals,ordinary,made⟩ := made
  obtain ⟨whole',ran',literals',ordinary',made'⟩ := made'
  rename_i before rest raw earlier text state before' rest' raw' earlier' text' state'
  have same := whole.symm.trans whole'
  obtain ⟨after,own⟩ := sourceLines_read ran literals ordinary (whole ▸ read)
  obtain ⟨after',own'⟩ := sourceLines_read ran' literals' ordinary' (whole' ▸ read)
  rcases Nat.lt_trichotomy before.length before'.length with shorter | equal | longer
  · obtain ⟨middle,rfl⟩ := earlier_lines same shorter
    exact earlier_source_apart ran literals ordinary placed ran' (lineOccurs_turn made)
      (lineOccurs_turn made') (lineTurn_fresh (lineOccurs_turn made') own')
  · obtain ⟨rfl,tails⟩ := List.append_inj same equal
    cases tails
    rw [ran] at ran'
    cases ran'
    rw [literals] at literals'
    cases literals'
    exact lineOccurs_apart made made' (numbered_placed ran placed) own apart
  · obtain ⟨middle,rfl⟩ := earlier_lines same.symm longer
    exact List.Disjoint.symm (earlier_source_apart ran' literals' ordinary' placed ran
      (lineOccurs_turn made') (lineOccurs_turn made) (lineTurn_fresh (lineOccurs_turn made) own))

end apart

/-- At signs stand for the line of the source on which they are written. The line that is
read has in their place a text that two readings share if and only if they are of the same
line: two lines of one expansion never do, and two expansions of one macro always do. A label
made from it is never that of another line of the macro. In a source that is accepted no two
readings define the same label, so that a line whose label is the same in two expansions is
not read twice. -/
theorem at_signs_mark_source_lines (evaluate : Expression.Evaluator) (depth : Nat)
    (assembler : Assembler) (source : Text) :
    (∀ first second : Occurrence, first.ReadBy evaluate depth assembler source →
      second.ReadBy evaluate depth assembler source →
      ∀ name text name' text', first.origin = some (name,text) → second.origin = some (name',text') →
        sourceText source.lines first.turn.line = some text ∧
        first.turn.text =
          Text.substitute Byte.atSign (expansionMark name first.turn.line) text ∧
        (expansionMark name first.turn.line = expansionMark name' second.turn.line ↔
          first.turn.line = second.turn.line) ∧
        (name = name' → ∀ suffix suffix',
          expansionMark name first.turn.line ++ suffix =
              expansionMark name' second.turn.line ++ suffix' ↔
            first.turn.line = second.turn.line ∧ suffix = suffix')) ∧
    ∀ program left, assembler.parse evaluate depth source = (.ok program,left) →
      ∀ first second : Occurrence, first.ReadBy evaluate depth assembler source →
        second.ReadBy evaluate depth assembler source → first.path ≠ second.path →
          (first.turn.labels evaluate).Disjoint (second.turn.labels evaluate) := by
  constructor
  · intro first second made made' name text name' text' origin origin'
    obtain ⟨definition,index,declares,found,line⟩ := sourceOccurs_declared rfl made name text origin
    obtain ⟨definition',index',declares',found',line'⟩ :=
      sourceOccurs_declared rfl made' name' text' origin'
    refine ⟨?_,sourceOccurs_marked made name text origin,?_,?_⟩
    · rw [line]
      exact (declares.body index text found).1
    · rw [expansionMark_inj]
      constructor
      · exact And.right
      · intro same
        rw [line,line'] at same
        exact ⟨declares_unique declares declares' found found' same,by rw [line,line',same]⟩
    · rintro rfl suffix suffix'
      exact expansionMark_append
  · intro program left parsed first second made made' apart
    obtain ⟨state,statements,read,-⟩ := lines_of_parse parsed
    exact sourceOccurs_apart (start_placed _ _) read made made' apart

/-- The first line that a call of a macro reads. -/
theorem sourceOccurs_call {evaluate : Expression.Evaluator} {depth : Nat}
    {lines before rest : List Text} {start : State} {raw earlier text name bodyText : Text}
    {arguments after : List Text} {definition : MacroDef}
    (whole : lines = before ++ raw :: rest)
    (ran : (readLines (readLine evaluate (depth + 1)) 0 [] none before).run' start =
      some (earlier,none))
    (literals : expandLiterals (Text.dropReturn raw) = .ok text) (ordinary : delimits text = false)
    (taken : (statementFields (expandEmbedded evaluate) text (before.length + 1)).run'
      (numbered (stateAfter (readLines (readLine evaluate (depth + 1)) 0 [] none before start))
        (before.length + 1) raw) = some (name :: arguments))
    (found : (stateAfter (readLines (readLine evaluate (depth + 1)) 0 [] none before
      start)).macros.find? name = some definition)
    (counted : arguments.length = definition.parameters.length)
    (body : definition.body.toList = bodyText :: after) :
    ∃ state, SourceOccurs evaluate (depth + 1) lines start
      ⟨[definition.line,before.length + 1],some (name,bodyText),
        ⟨Text.substitute Byte.atSign (expansionMark name definition.line) bodyText,
          definition.line,state⟩⟩ := by
  have stated := ok_of_run' taken
  have macros := ((@statementFields_defines evaluate ⟨_,_,_⟩ _ _ stated).2.macros).trans
    (numbered_macros _ _ _)
  have first : definition.body.toList = [] ++ bodyText :: after := body
  exact ⟨_,.read whole (ok_of_run' ran) literals ordinary
    (.body stated (by rw [macros,found]) counted first rfl (.own _ _ _ _ _ _))⟩

/-- A macro with a label that is made from an at sign, called twice. -/
def markedTwice : Text := ".macro m\n@x: noop\n.endm\nm\nm"

theorem at_signs_mark_source_lines_twice :
    (Assembler.parse Expression.evaluate 1 {} markedTwice).1 =
      .error (.atLine 5 "m" (.inMacro "m" 2 (.plain .labelRepeated))) ∧
    ∃ first second : Occurrence, first.ReadBy Expression.evaluate 1 {} markedTwice ∧
      second.ReadBy Expression.evaluate 1 {} markedTwice ∧
      first.path = [2,4] ∧ second.path = [2,5] ∧ first.turn.line = second.turn.line ∧
      first.turn.text = ("m_2_x: noop" : Text) ∧ second.turn.text = first.turn.text := by
  obtain ⟨state,made⟩ := @sourceOccurs_call Expression.evaluate 0 markedTwice.lines
    [".macro m","@x: noop",".endm"] ["m"] (State.start .empty false) "m" ".endm" "m" "m" "@x: noop"
    [] [] ⟨2,[],#["@x: noop"]⟩ (by decide +kernel) (by decide +kernel) (by decide +kernel)
    (by decide +kernel) (by decide +kernel) (by decide +kernel) rfl rfl
  obtain ⟨state',made'⟩ := @sourceOccurs_call Expression.evaluate 0 markedTwice.lines
    [".macro m","@x: noop",".endm","m"] [] (State.start .empty false) "m" "m" "m" "m" "@x: noop"
    [] [] ⟨2,[],#["@x: noop"]⟩ (by decide +kernel) (by decide +kernel) (by decide +kernel)
    (by decide +kernel) (by decide +kernel) (by decide +kernel) rfl rfl
  have marks := (at_signs_mark_source_lines Expression.evaluate 1 {} markedTwice).1
  have marked := (marks _ _ made made' _ _ _ _ rfl rfl).2.1
  have marked' := (marks _ _ made' made _ _ _ _ rfl rfl).2.1
  have read : Text.substitute Byte.atSign (expansionMark ("m" : Text) 2) "@x: noop" =
    ("m_2_x: noop" : Text) := by decide +kernel
  exact ⟨by decide +kernel,_,_,made,made',rfl,rfl,rfl,marked.trans read,marked'.trans marked.symm⟩

end WordMachine.Assembly
