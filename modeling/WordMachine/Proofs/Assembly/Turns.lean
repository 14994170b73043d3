import WordMachine.Proofs.Assembly.MacroBody

/-! The lines that are read for a source, each with the state before it. A line of the source
that belongs to no definition is read, and then the lines of the macro that it calls, each
time that one is called. What such a line defines and emits stays to the end, and all labels
and statements come from such lines. -/
namespace WordMachine.Assembly

/-- A line that is read, and the state before it. -/
structure Turn where
  text : Text
  line : Nat
  state : State

namespace Turn

variable (evaluate : Expression.Evaluator) (turn : Turn)

def scope : State := located turn.state turn.line

/-- The fields as they are written, with the values of expressions. -/
def written : List Text := lineFields (expandEmbedded evaluate) turn.scope turn.text

/-- The fields with the values of equates in place of their names. The line of an equate has
none. -/
def fields : List Text :=
  if (turn.written evaluate).head? = some (".equ" : Text) then []
  else (turn.written evaluate).map fun field => (turn.scope.equates.find? field).getD field

end Turn

def isLabel (field : Text) : Bool := field.getLast? = some Byte.colon

def labelsOf (fields : List Text) : List Text := (fields.takeWhile isLabel).map List.dropLast

namespace Turn

variable (evaluate : Expression.Evaluator) (turn : Turn)

def labels : List Text := labelsOf (turn.fields evaluate)

def statement : List Text := (turn.fields evaluate).dropWhile isLabel

/-- The line has a statement that is no call of a macro. -/
def Emits : Prop :=
  ∃ name arguments, turn.statement evaluate = name :: arguments ∧ turn.state.macros.find? name = none

end Turn

/-- The second state has the first one's labels and those with the given names, which have
the current address. -/
structure Defines (state : State) (names : List Text) (next : State) : Prop where
  statements : next.statements = state.statements
  macros : next.macros = state.macros
  within : state.labels.Within next.labels
  defined : ∀ name ∈ names, next.labels.find? name = some state.here
  known : ∀ name addr, next.labels.find? name = some addr →
    state.labels.find? name = some addr ∨ name ∈ names

theorem defines_nothing {state next : State} (statements : next.statements = state.statements)
    (macros : next.macros = state.macros) (labels : next.labels = state.labels) :
    Defines state [] next where
  statements := statements
  macros := macros
  within := by
    rw [labels]
    exact fun _ _ found => found
  defined := by simp
  known := by
    rw [labels]
    exact fun _ _ found => .inl found

theorem defines_cons {state next : State} {name : Text} {names : List Text}
    (free : state.labels.contains name = false)
    (later : Defines { state with labels := state.labels.insert name state.here } names next) :
    Defines state (name :: names) next where
  statements := later.statements
  macros := later.macros
  within := fun other addr found =>
    later.within other addr (Table.within_insert state.here free other addr found)
  defined := by
    have first : next.labels.find? name = some state.here := by
      apply later.within
      rw [Table.find?_insert,if_pos rfl]
    exact List.forall_mem_cons.mpr ⟨first,later.defined⟩
  known := by
    intro other addr found
    rcases later.known other addr found with before | member
    · rw [Table.find?_insert] at before
      split at before
      · next same => exact .inr (same ▸ List.mem_cons_self)
      · exact .inl before
    · exact .inr (List.mem_cons_of_mem _ member)

theorem takeLabels_defines {fields left : List Text} {state next : State}
    (taken : takeLabels fields state = .ok left next) :
    left = fields.dropWhile isLabel ∧ Defines state (labelsOf fields) next := by
  induction fields generalizing state with
  | nil =>
    cases taken
    exact ⟨rfl,defines_nothing rfl rfl rfl⟩
  | cons field rest ih =>
    rw [takeLabels] at taken
    by_cases labelled : field.getLast? = some Byte.colon
    · have isLabel : isLabel field = true := decide_eq_true labelled
      rw [if_pos labelled] at taken
      obtain ⟨_,between,defined,taken⟩ := bind_success taken
      obtain ⟨free,rfl⟩ := defineLabel_success defined
      obtain ⟨rfl,later⟩ := ih taken
      refine ⟨by simp [isLabel],?_⟩
      simp only [labelsOf,List.takeWhile_cons,isLabel,if_true,List.map_cons]
      exact defines_cons free later
    · have other : isLabel field = false := decide_eq_false labelled
      rw [if_neg labelled] at taken
      cases taken
      refine ⟨by simp [other],?_⟩
      simp only [labelsOf,List.takeWhile_cons,other,Bool.false_eq_true,if_false,List.map_nil]
      exact defines_nothing rfl rfl rfl

theorem defineEquate_defines {fields : List Text} {state next : State}
    (defined : defineEquate fields state = .ok () next) : Defines state [] next := by
  rcases fields with _ | ⟨head,_ | ⟨key,_ | ⟨value,_ | ⟨more,rest⟩⟩⟩⟩
  case cons.cons.cons.nil =>
    rw [defineEquate_eq] at defined
    split at defined
    · cases defined
    · split at defined
      · cases defined
      · cases defined
        exact defines_nothing rfl rfl rfl
  all_goals cases defined

/-- What is left of a line after its labels, and the labels that it defined. -/
theorem statementFields_defines {evaluate : Expression.Evaluator} {turn : Turn} {left : List Text}
    {next : State}
    (taken : statementFields (expandEmbedded evaluate) turn.text turn.line turn.state = .ok left next) :
    left = turn.statement evaluate ∧ Defines turn.state (turn.labels evaluate) next := by
  cases expands : expandEmbedded evaluate turn.scope turn.text with
  | error error =>
    rw [statementFields_error expands] at taken
    cases taken
  | ok expanded =>
    have written : turn.written evaluate = Text.fields expanded := by
      rw [Turn.written,lineFields,expands]
    -- the location of a line changes its equates alone
    suffices left = turn.statement evaluate ∧ Defines turn.scope (turn.labels evaluate) next from
      ⟨this.1,this.2.statements,this.2.macros,this.2.within,this.2.defined,this.2.known⟩
    rw [statementFields_ok expands] at taken
    unfold Turn.statement Turn.labels Turn.fields
    rw [written]
    cases fields : Text.fields expanded with
    | nil =>
      rw [fields] at taken
      cases taken
      exact ⟨rfl,defines_nothing rfl rfl rfl⟩
    | cons head rest =>
      rw [fields] at taken
      by_cases equate : head = (".equ" : Text)
      · subst equate
        rw [statementOf_equate] at taken
        obtain ⟨_,between,defined,returned⟩ := bind_success taken
        cases returned
        exact ⟨rfl,defineEquate_defines defined⟩
      · have other : (head :: rest).head? ≠ some (".equ" : Text) :=
          fun same => equate (Option.some.inj same)
        rw [statementOf_other equate] at taken
        rw [if_neg other]
        exact takeLabels_defines taken

/-- The second state has all labels and statements of the first one. -/
structure Extends (before after : State) : Prop where
  labels : before.labels.Within after.labels
  statements : before.statements.toList <+: after.statements.toList

theorem extends_refl (state : State) : Extends state state :=
  ⟨fun _ _ found => found,List.prefix_refl _⟩

theorem extends_trans {first second third : State} (before : Extends first second)
    (after : Extends second third) : Extends first third :=
  ⟨fun name addr found => after.labels name addr (before.labels name addr found),
    before.statements.trans after.statements⟩

theorem extends_stable (first : State) : Stable (Extends first) where
  silent := by
    rintro before after same ⟨labels,statements⟩
    rw [← same.labels] at labels
    rw [← same.statements] at statements
    exact ⟨labels,statements⟩
  label := by
    rintro state name - free ⟨labels,statements⟩
    exact ⟨fun other addr found =>
      Table.within_insert state.here free other addr (labels other addr found),statements⟩
  emission := by
    rintro state fields line operands - - - ⟨labels,statements⟩
    refine ⟨labels,statements.trans ?_⟩
    simp [emission]

theorem extends_same {before after : State} (same : SameCode before after) :
    Extends before after :=
  (extends_stable before).silent before after same (extends_refl before)

theorem keeps_success {α : Type} {holds : State → Prop} {action : Assemble α} {state next : State}
    {value : α} (kept : Keeps holds action) (held : holds state)
    (ran : action state = .ok value next) : holds next := by
  have final := kept state held
  rwa [ran] at final

theorem extends_keeps {α : Type} {action : Assemble α} {state next : State} {value : α}
    (kept : Keeps (Extends state) action) (ran : action state = .ok value next) :
    Extends state next :=
  keeps_success kept (extends_refl state) ran

theorem keeps_statementFields {holds : State → Prop} (stable : Stable holds) (expand : Expander)
    (text : Text) (line : Nat) : Keeps holds (statementFields expand text line) := by
  unfold statementFields
  refine keeps_bind (keeps_locate stable line) fun _ => ?_
  refine keeps_bind keeps_get fun state => ?_
  refine keeps_bind (keeps_failing _) fun expanded => ?_
  unfold statementOf
  split
  · exact keeps_pure _
  · refine keeps_ite ?_ ?_
    · exact keeps_bind (keeps_defineEquate stable _) fun _ => keeps_pure _
    · exact keeps_bind keeps_get fun state => keeps_takeLabels stable _

theorem emit_pushes {fields : List Text} {line : Nat} {state next : State}
    (given : fields ≠ []) (emitted : emit fields line state = .ok () next) :
    next.labels = state.labels ∧ ∃ words,
      next.statements = state.statements.push ⟨line,state.here,fields,words⟩ := by
  obtain ⟨operands,-,rfl⟩ := emit_success given emitted
  have same := sameCode_note state (report state fields operands)
  refine ⟨same.labels,operands.map Operand.emitted,?_⟩
  unfold emission
  rw [here_congr same,same.statements]

theorem expandMacro_success {read : Reader} {name : Text}
    {definition : MacroDef} {arguments : List Text} {state after : State}
    (expanded : expandMacro read name definition arguments state = .ok () after) :
    arguments.length = definition.parameters.length ∧ ∃ final,
      expandBody read name definition.line definition.body.toList
        (bindParameters state definition arguments) = .ok () final ∧ SameCode final after := by
  by_cases counted : arguments.length = definition.parameters.length
  · rw [expandMacro_run read name state counted] at expanded
    unfold keepingEquates at expanded
    cases ran : expandBody read name definition.line definition.body.toList
        (bindParameters state definition arguments) with
    | ok value final =>
      simp only [ran] at expanded
      cases expanded
      exact ⟨counted,final,rfl,rfl,rfl,rfl⟩
    | error error final =>
      simp only [ran] at expanded
      cases expanded
  · rw [expandMacro_mismatch read name state counted] at expanded
    cases expanded

theorem keeps_bodyReader {holds : State → Prop} (stable : Stable holds)
    (evaluate : Expression.Evaluator) (depth : Nat) (name text : Text) (line : Nat) :
    Keeps holds (bodyReader evaluate depth name text line) := by
  cases depth with
  | zero => exact keeps_throw _
  | succ depth => exact keeps_readLine stable evaluate depth text line

/-- What is done with the fields that are left of a line: nothing if there are none, or they
are emitted, or the lines of the macro that they call are read. -/
inductive Performs (evaluate : Expression.Evaluator) (depth line : Nat) (next : State) : List Text → State → Prop
  | nothing : Performs evaluate depth line next [] next
  | emitted {name : Text} {arguments : List Text} {after : State}
      (operation : next.macros.find? name = none)
      (ran : emit (name :: arguments) line next = .ok () after) :
      Performs evaluate depth line next (name :: arguments) after
  | expanded {name : Text} {arguments : List Text} {definition : MacroDef} {final after : State}
      (found : next.macros.find? name = some definition)
      (counted : arguments.length = definition.parameters.length)
      (ran : expandBody (bodyReader evaluate depth name) name definition.line definition.body.toList
        (bindParameters next definition arguments) = .ok () final)
      (same : SameCode final after) : Performs evaluate depth line next (name :: arguments) after

section performs

variable {evaluate : Expression.Evaluator}

theorem readLine_performs {depth : Nat} {text : Text} {line : Nat} {state after : State}
    (read : readLine evaluate depth text line state = .ok () after) :
    ∃ left next, statementFields (expandEmbedded evaluate) text line state = .ok left next ∧
      Performs evaluate depth line next left after := by
  rw [readLine_run] at read
  obtain ⟨left,next,taken,performed⟩ := bind_success read
  refine ⟨left,next,taken,?_⟩
  cases left with
  | nil =>
    cases performed
    exact .nothing
  | cons name arguments =>
    cases found : next.macros.find? name with
    | none =>
      rw [perform_emit _ _ _ found] at performed
      exact .emitted found performed
    | some definition =>
      rw [perform_expand _ _ _ found] at performed
      obtain ⟨counted,final,ran,same⟩ := expandMacro_success performed
      exact .expanded found counted ran same

theorem performs_extends {depth line : Nat} {next after : State} {left : List Text}
    (performs : Performs evaluate depth line next left after) : Extends next after := by
  cases performs with
  | nothing => exact extends_refl next
  | emitted operation ran => exact extends_keeps (keeps_emit (extends_stable _) _ _) ran
  | @expanded name arguments definition final _ found counted ran same =>
    have begun : Extends next (bindParameters next definition arguments) :=
      extends_same ⟨rfl,rfl,rfl⟩
    have body := extends_keeps (keeps_expandBody
      (fun text line => keeps_bodyReader (extends_stable _) evaluate depth name text line) name
      definition.line definition.body.toList) ran
    exact extends_trans begun (extends_trans body (extends_same same))

end performs

theorem expandBody_append (read : Reader) (name : Text) (line : Nat)
    (lines rest : List Text) :
    expandBody read name line (lines ++ rest) =
      expandBody read name line lines >>= fun _ => expandBody read name (line + lines.length) rest := by
  induction lines generalizing line with
  | nil => rfl
  | cons text lines ih =>
    rw [List.cons_append,expandBody,expandBody,bind_assoc,ih,List.length_cons,Nat.add_right_comm,
      Nat.add_assoc]

theorem expandBody_cons {read : Reader} {name text : Text} {line : Nat}
    {rest : List Text} {state after : State}
    (ran : expandBody read name line (text :: rest) state = .ok () after) :
    ∃ middle, read (Text.substitute Byte.atSign (expansionMark name line) text) line state =
        .ok () middle ∧ expandBody read name (line + 1) rest middle = .ok () after := by
  rw [expandBody] at ran
  obtain ⟨_,middle,first,later⟩ := bind_success ran
  refine ⟨middle,?_,later⟩
  unfold inMacroLine at first
  generalize read (Text.substitute Byte.atSign (expansionMark name line) text) line state = result
    at first ⊢
  cases result with
  | ok value final =>
    cases first
    rfl
  | error error final => cases first

/-- The lines that are read for one line: the line itself, and those of the macro that it
calls, each after the ones before it. -/
inductive LineTurn (evaluate : Expression.Evaluator) : Nat → Text → Nat → State → Turn → Prop
  | own (depth : Nat) (text : Text) (line : Nat) (state : State) :
      LineTurn evaluate depth text line state ⟨text,line,state⟩
  | body {depth : Nat} {text : Text} {line : Nat} {state next between : State} {name : Text}
      {arguments : List Text} {definition : MacroDef} {before after : List Text} {bodyText : Text}
      {turn : Turn} (taken : statementFields (expandEmbedded evaluate) text line state = .ok (name :: arguments) next)
      (found : next.macros.find? name = some definition)
      (counted : arguments.length = definition.parameters.length)
      (lines : definition.body.toList = before ++ bodyText :: after)
      (read : expandBody (readLine evaluate depth) name definition.line before
        (bindParameters next definition arguments) = .ok () between)
      (inner : LineTurn evaluate depth
        (Text.substitute Byte.atSign (expansionMark name (definition.line + before.length)) bodyText)
        (definition.line + before.length) between turn) :
      LineTurn evaluate (depth + 1) text line state turn

section turns

variable {evaluate : Expression.Evaluator}

/-- What is kept by every line that is read holds before each of them. -/
theorem lineTurn_holds {holds : State → Prop} (stable : Stable holds) {depth : Nat} {text : Text}
    {line : Nat} {state : State} {turn : Turn} (made : LineTurn evaluate depth text line state turn)
    (held : holds state) : holds turn.state := by
  induction made with
  | own depth text line state => exact held
  | @body depth text line state next between name arguments definition before rest bodyText turn
      taken found counted lines read inner ih =>
    have begun := keeps_success (keeps_statementFields stable _ text line) held taken
    have bound : holds (bindParameters next definition arguments) :=
      stable.silent next _ ⟨rfl,rfl,rfl⟩ begun
    exact ih (keeps_success (keeps_expandBody
      (keeps_readLine stable evaluate depth) name _ before) bound read)

/-- What is left of a line in the end: the statements before it, its labels at the address
where they end, and its statement at that address. -/
structure Turn.Kept (evaluate : Expression.Evaluator) (turn : Turn) (final : State) : Prop where
  placed : Placed turn.state
  earlier : turn.state.statements.toList <+: final.statements.toList
  defined : ∀ name ∈ turn.labels evaluate, final.labels.find? name = some turn.state.here
  emitted : turn.Emits evaluate → ∃ words, final.statements.toList[turn.state.statements.size]? =
    some ⟨turn.line,turn.state.here,turn.statement evaluate,words⟩

theorem kept_extends {turn : Turn} {middle final : State} (kept : turn.Kept evaluate middle)
    (further : Extends middle final) : turn.Kept evaluate final where
  placed := kept.placed
  earlier := kept.earlier.trans further.statements
  defined := fun name member => further.labels _ _ (kept.defined name member)
  emitted := by
    intro emits
    obtain ⟨words,found⟩ := kept.emitted emits
    obtain ⟨rest,whole⟩ := further.statements
    refine ⟨words,?_⟩
    rw [← whole]
    exact List.getElem?_append_left (List.getElem?_eq_some_iff.mp found).1 ▸ found

theorem own_kept {depth : Nat} {turn : Turn} {after : State} (placed : Placed turn.state)
    (read : readLine evaluate depth turn.text turn.line turn.state = .ok () after) : turn.Kept evaluate after := by
  obtain ⟨left,next,taken,performs⟩ := readLine_performs read
  obtain ⟨rfl,defines⟩ := statementFields_defines taken
  have further := performs_extends performs
  refine ⟨placed,?_,fun name member => further.labels _ _ (defines.defined name member),?_⟩
  · have statements := further.statements
    rwa [defines.statements] at statements
  · rintro ⟨name,arguments,statement,operation⟩
    rw [statement] at performs ⊢
    cases performs with
    | emitted _ ran =>
      obtain ⟨-,words,pushed⟩ := emit_pushes (List.cons_ne_nil _ _) ran
      have here : next.here = turn.state.here := by
        unfold State.here
        rw [defines.statements]
      refine ⟨words,?_⟩
      rw [pushed,defines.statements,here]
      simp
    | expanded found =>
      rw [defines.macros,operation] at found
      cases found

/-- What a line defines and emits is kept, also if it is a line of a macro. -/
theorem lineTurn_kept {depth : Nat} {text : Text} {line : Nat} {state after : State} {turn : Turn}
    (made : LineTurn evaluate depth text line state turn) (placed : Placed state)
    (read : readLine evaluate depth text line state = .ok () after) : turn.Kept evaluate after := by
  induction made generalizing after with
  | own depth text line state => exact @own_kept evaluate depth ⟨text,line,state⟩ after placed read
  | @body depth text line state next between name arguments definition before rest bodyText turn
      taken found counted lines ran inner ih =>
    obtain ⟨left,next',taken',performs⟩ := readLine_performs read
    rw [taken] at taken'
    cases taken'
    cases performs with
    | emitted operation =>
      rw [operation] at found
      cases found
    | @expanded _ _ definition' final _ found' _ whole same =>
      rw [found] at found'
      cases found'
      -- the lines before it were read, and the others follow it
      change expandBody (readLine evaluate depth) name definition.line definition.body.toList _ = _ at whole
      rw [lines,expandBody_append,bind_of_ok ran] at whole
      obtain ⟨middle,own,later⟩ := expandBody_cons whole
      have further := extends_keeps (keeps_expandBody
        (keeps_readLine (extends_stable _) evaluate depth) name _ rest) later
      have begun : Placed (bindParameters next definition arguments) :=
        placed_stable.silent next _ ⟨rfl,rfl,rfl⟩
          (keeps_success (keeps_statementFields placed_stable _ text line) placed taken)
      have between : Placed between :=
        keeps_success (keeps_expandBody
          (keeps_readLine placed_stable evaluate depth) name _ before) begun ran
      exact kept_extends (ih between own) (extends_trans further (extends_same same))

end turns

/-- All labels and statements that one state has and an earlier one had not come from some of
the given lines. -/
structure Explained (evaluate : Expression.Evaluator) (turns : Turn → Prop) (before after : State) : Prop where
  labels : ∀ name addr, after.labels.find? name = some addr →
    before.labels.find? name = some addr ∨ ∃ turn, turns turn ∧ name ∈ turn.labels evaluate
  statements : ∀ index, before.statements.size ≤ index → index < after.statements.size →
    ∃ turn, turns turn ∧ turn.Emits evaluate ∧ turn.state.statements.size = index

section explained

variable {evaluate : Expression.Evaluator} {turns : Turn → Prop} {first second third : State}

theorem explained_same (same : SameCode first second) : Explained evaluate turns first second where
  labels := by
    rw [same.labels]
    exact fun _ _ found => .inl found
  statements := by
    rw [same.statements]
    intro index lower upper
    omega

theorem explained_trans (before : Explained evaluate turns first second)
    (after : Explained evaluate turns second third) : Explained evaluate turns first third where
  labels := by
    intro name addr found
    rcases after.labels name addr found with earlier | new
    · exact before.labels name addr earlier
    · exact .inr new
  statements := by
    intro index lower upper
    by_cases earlier : index < second.statements.size
    · exact before.statements index lower earlier
    · exact after.statements index (Nat.le_of_not_lt earlier) upper

theorem explained_mono {more : Turn → Prop} (included : ∀ turn, turns turn → more turn)
    (explained : Explained evaluate turns first second) : Explained evaluate more first second where
  labels := by
    intro name addr found
    rcases explained.labels name addr found with earlier | ⟨turn,member,labelled⟩
    · exact .inl earlier
    · exact .inr ⟨turn,included turn member,labelled⟩
  statements := by
    intro index lower upper
    obtain ⟨turn,member,rest⟩ := explained.statements index lower upper
    exact ⟨turn,included turn member,rest⟩

theorem explained_defines {turn : Turn} {next : State} (member : turns turn)
    (defines : Defines turn.state (turn.labels evaluate) next) : Explained evaluate turns turn.state next where
  labels := by
    intro name addr found
    rcases defines.known name addr found with earlier | new
    · exact .inl earlier
    · exact .inr ⟨turn,member,new⟩
  statements := by
    rw [defines.statements]
    intro index lower upper
    omega

end explained

theorem expandBody_snoc {read : Reader} {name text : Text} {line : Nat}
    {lines : List Text} {state between after : State}
    (ran : expandBody read name line lines state = .ok () between)
    (next : read (Text.substitute Byte.atSign (expansionMark name (line + lines.length)) text)
      (line + lines.length) between = .ok () after) :
    expandBody read name line (lines ++ [text]) state = .ok () after := by
  have last : inMacroLine name (line + lines.length) (read (Text.substitute Byte.atSign
      (expansionMark name (line + lines.length)) text) (line + lines.length)) between =
        .ok () after := by
    simp only [inMacroLine,next]
  rw [expandBody_append,bind_of_ok ran,expandBody,bind_of_ok last]
  rfl

section body

variable {evaluate : Expression.Evaluator} {read : Reader} {name : Text} {line : Nat}
  {body : List Text} {start : State} {turns : Turn → Prop} {lineTurns : Text → Nat → State → Turn → Prop}
  (each : ∀ text line state after, read text line state = .ok () after →
    Explained evaluate (lineTurns text line state) state after)
  (part : ∀ before text rest between, body = before ++ text :: rest →
    expandBody read name line before start = .ok () between → ∀ turn,
      lineTurns (Text.substitute Byte.atSign (expansionMark name (line + before.length)) text)
        (line + before.length) between turn → turns turn)

include each part

/-- The lines of a body explain what they leave if each of them does. -/
theorem expandBody_explained {before rest : List Text} {between final : State}
    (whole : body = before ++ rest)
    (ran : expandBody read name line before start = .ok () between)
    (later : expandBody read name (line + before.length) rest between = .ok () final) :
    Explained evaluate turns between final := by
  -- the lines that were read grow by one in each step
  induction rest generalizing before between with
  | nil =>
    cases later
    exact explained_same ⟨rfl,rfl,rfl⟩
  | cons text rest ih =>
    obtain ⟨middle,own,later⟩ := expandBody_cons later
    have own' := explained_mono (part before text rest between whole ran) (each _ _ _ _ own)
    apply explained_trans own'
    refine @ih (before ++ [text]) middle ?_ (expandBody_snoc ran own) ?_
    · rw [whole,List.append_assoc]
      rfl
    · rw [List.length_append]
      exact later

end body

/-- A line explains what it leaves, with the lines of the macro that it may call. -/
theorem explained_of_body {evaluate : Expression.Evaluator} {depth : Nat} {turn : Turn} {after : State} {turns : Turn → Prop}
    (own : turns turn) (read : readLine evaluate depth turn.text turn.line turn.state = .ok () after)
    (body : ∀ next name arguments definition final,
      statementFields (expandEmbedded evaluate) turn.text turn.line turn.state = .ok (name :: arguments) next →
      next.macros.find? name = some definition →
      arguments.length = definition.parameters.length →
      expandBody (bodyReader evaluate depth name) name definition.line definition.body.toList
        (bindParameters next definition arguments) = .ok () final →
      Explained evaluate turns (bindParameters next definition arguments) final) :
    Explained evaluate turns turn.state after := by
  obtain ⟨left,next,taken,performs⟩ := readLine_performs read
  obtain ⟨statement,defines⟩ := statementFields_defines taken
  apply explained_trans (explained_defines own defines)
  cases performs with
  | nothing => exact explained_same ⟨rfl,rfl,rfl⟩
  | @emitted name arguments _ operation ran =>
    obtain ⟨labels,words,pushed⟩ := emit_pushes (List.cons_ne_nil _ _) ran
    refine ⟨?_,?_⟩
    · rw [labels]
      exact fun _ _ found => .inl found
    · rw [pushed,defines.statements,Array.size_push]
      intro index lower upper
      rw [defines.macros] at operation
      exact ⟨turn,own,⟨name,arguments,statement.symm,operation⟩,by omega⟩
  | @expanded name arguments definition final _ found counted ran same =>
    have begun : SameCode next (bindParameters next definition arguments) := ⟨rfl,rfl,rfl⟩
    have body := body next name arguments definition final taken found counted ran
    exact explained_trans (explained_same begun) (explained_trans body (explained_same same))

/-- What a line leaves comes from the line and from those of the macros that it calls. -/
theorem readLine_explained {evaluate : Expression.Evaluator} {depth : Nat} {text : Text} {line : Nat} {state after : State}
    (read : readLine evaluate depth text line state = .ok () after) :
    Explained evaluate (LineTurn evaluate depth text line state) state after := by
  induction depth generalizing text line state after with
  | zero =>
    refine @explained_of_body evaluate 0 ⟨text,line,state⟩ _ _ (.own 0 text line state) read ?_
    -- no line of a body can be read at this depth
    intro next name arguments definition final taken found counted ran
    refine @expandBody_explained evaluate _ _ _ _ _ _ (fun _ _ _ _ => False) ?_ ?_ [] _ _ _ rfl rfl ran
    · intro text line state after thrown
      cases thrown
    · intro before text rest between whole ran turn impossible
      cases impossible
  | succ depth ih =>
    refine @explained_of_body evaluate _ ⟨text,line,state⟩ _ _ (.own (depth + 1) text line state) read ?_
    intro next name arguments definition final taken found counted ran
    refine @expandBody_explained evaluate _ _ _ _ _ _ (LineTurn evaluate depth) ?_ ?_ [] _ _ _ rfl rfl ran
    · intro text line state after read
      exact ih read
    · intro before text rest between whole ran turn inner
      exact .body taken found counted whole ran inner

end WordMachine.Assembly
