import WordMachine.Proofs.Assembly.Trace

/-! What a line leaves as it is. Labels and statements have no part in equates and macros,
only the lines of definitions change the macros, and a macro that is called gives the equates
back, also where one of its lines fails. -/
namespace WordMachine.Assembly

/-- A property that is decided by the equates and the macros of a state. -/
def OfNames (holds : State → Prop) : Prop :=
  ∀ before after : State, after.equates = before.equates → after.macros = before.macros →
    holds before → holds after

theorem equates_ofNames (equates : Table Text) : OfNames fun state => state.equates = equates :=
  fun _ _ same _ held => same.trans held

theorem macros_ofNames (macros : Table MacroDef) : OfNames fun state => state.macros = macros :=
  fun _ _ _ same held => same.trans held

section names

variable {holds : State → Prop} (names : OfNames holds)
include names

theorem takeLabels_names (fields : List Text) : Keeps holds (takeLabels fields) := by
  induction fields with
  | nil => exact keeps_pure _
  | cons field rest ih =>
    unfold takeLabels
    refine keeps_ite (keeps_bind ?_ fun _ => ih) (keeps_pure _)
    intro state held
    rw [defineLabel_eq]
    split
    · exact held
    · split
      · exact held
      · exact names state _ rfl rfl held

theorem emit_names (fields : List Text) (line : Nat) : Keeps holds (emit fields line) := by
  intro state held
  cases fields with
  | nil => exact held
  | cons head arguments =>
    cases encoded : encodeFields state.labels (head :: arguments) with
    | error error =>
      rw [emit_malformed line encoded]
      exact held
    | ok operands =>
      by_cases large : memorySize < state.here.toNat + operands.length
      · rw [emit_overflow line (List.cons_ne_nil _ _) encoded large]
        exact held
      · obtain ⟨log,noted⟩ := note_log state (report state (head :: arguments) operands)
        rw [emit_run line (List.cons_ne_nil _ _) encoded (Nat.le_of_not_lt large),noted]
        exact names state _ rfl rfl held

end names

section macros

variable {macros : Table MacroDef}

theorem keeps_macros {change : State → State} (same : ∀ state, (change state).macros = state.macros) :
    Keeps (fun state => state.macros = macros) (modify change : Assemble PUnit) :=
  fun state held => (same state).trans held

theorem keepingEquates_macros {α : Type} {action : Assemble α}
    (kept : Keeps (fun state => state.macros = macros) action) :
    Keeps (fun state => state.macros = macros) (keepingEquates action) := by
  intro state held
  have between := kept state held
  unfold keepingEquates
  cases ran : action state with
  | ok value after => rwa [ran] at between
  | error error after => rwa [ran] at between

theorem defineEquate_macros (fields : List Text) :
    Keeps (fun state => state.macros = macros) (defineEquate fields) := by
  unfold defineEquate
  split
  · refine keeps_ite (keeps_throw_bind _ _) (keeps_bind keeps_get fun _ => ?_)
    exact keeps_ite (keeps_throw_bind _ _) (keeps_macros fun _ => rfl)
  · exact keeps_throw _

theorem statementFields_macros (expand : Expander) (text : Text) (line : Nat) :
    Keeps (fun state => state.macros = macros) (statementFields expand text line) := by
  unfold statementFields
  refine keeps_bind (keeps_macros fun _ => rfl) fun _ => keeps_bind keeps_get fun _ => ?_
  refine keeps_bind (keeps_failing _) fun expanded => ?_
  unfold statementOf
  split
  · exact keeps_pure _
  · refine keeps_ite ?_ ?_
    · exact keeps_bind (defineEquate_macros _) fun _ => keeps_pure _
    · exact keeps_bind keeps_get fun _ => takeLabels_names (macros_ofNames macros) _

theorem perform_macros {read : Text → Reader}
    (kept : ∀ name text line, Keeps (fun state => state.macros = macros) (read name text line))
    (line : Nat) (fields : List Text) :
    Keeps (fun state => state.macros = macros) (perform read line fields) := by
  unfold perform
  split
  · exact keeps_pure _
  · refine keeps_bind keeps_get fun state => ?_
    split
    · exact emit_names (macros_ofNames macros) _ _
    · unfold expandMacro
      refine keeps_ite (keeps_throw_bind _ _) (keepingEquates_macros ?_)
      exact keeps_bind (keeps_macros fun _ => rfl) fun _ => keeps_expandBody (kept _) _ _ _

/-- No line that is read changes the macros, and none of those that it calls. -/
theorem readLine_macros (evaluate : Expression.Evaluator) (depth : Nat) (text : Text)
    (line : Nat) :
    Keeps (fun state => state.macros = macros) (readLine evaluate depth text line) := by
  induction depth generalizing text line with
  | zero =>
    rw [readLine_run]
    exact keeps_bind (statementFields_macros _ text line)
      (perform_macros (fun name _ _ => keeps_throw (.macroDepth name)) line)
  | succ depth ih =>
    rw [readLine_run]
    exact keeps_bind (statementFields_macros _ text line) (perform_macros (fun _ => ih) line)

/-- A line of a source defines at most one macro. -/
theorem sourceLine_count {evaluate : Expression.Evaluator} {depth line : Nat} {text : Text}
    {opened next : Option Text} {state after : State}
    (stated : sourceLine (readLine evaluate depth) opened line text state = .ok next after) :
    after.macros.entries.length ≤ state.macros.entries.length + 1 := by
  by_cases opens : (Text.fields text).head? = some (".macro" : Text)
  · rw [sourceLine_open _ _ _ opens] at stated
    split at stated
    · cases stated
    · obtain ⟨name,between,defined,returned⟩ := bind_success stated
      cases returned
      rcases fields : Text.fields text with _ | ⟨head,_ | ⟨key,parameters⟩⟩
      · rw [fields] at defined; cases defined
      · rw [fields] at defined; cases defined
      · rw [fields,openMacro_eq] at defined
        split at defined
        · cases defined
        · next free =>
          cases defined
          exact Nat.le_of_eq (Table.length_insert _ (Bool.eq_false_iff.mpr free))
  · by_cases closes : (Text.fields text).head? = some (".endm" : Text)
    · rw [sourceLine_close _ _ _ closes] at stated
      split at stated
      · cases stated
      · cases stated
        exact Nat.le_succ _
    · have ordinary : delimits text = false := by simp [delimits,opens,closes]
      cases opened with
      | some key =>
        rw [sourceLine_body ordinary] at stated
        cases stated
        rw [Table.length_modify]
        exact Nat.le_succ _
      | none =>
        rw [sourceLine_statement ordinary] at stated
        obtain ⟨_,between,done,returned⟩ := bind_success stated
        cases returned
        have kept := readLine_macros evaluate depth text line state rfl
        rw [done] at kept
        rw [← kept]
        exact Nat.le_succ _

theorem sourceStep_count {evaluate : Expression.Evaluator} {depth number : Nat}
    {before raw : Text} {opened : Option Text} {state after : State} {next : Text × Option Text}
    (ran : sourceStep (readLine evaluate depth) number before opened raw state = .ok next after) :
    after.macros.entries.length ≤ state.macros.entries.length + 1 := by
  obtain ⟨-,stated⟩ := sourceStep_success ran
  rw [← numbered_macros state (number + 1) raw]
  exact sourceLine_count stated

theorem readLines_count {evaluate : Expression.Evaluator} {depth number : Nat}
    {lines : List Text} {before : Text} {opened : Option Text} {state after : State}
    {next : Text × Option Text}
    (read : readLines (readLine evaluate depth) number before opened lines state = .ok next after) :
    after.macros.entries.length ≤ state.macros.entries.length + lines.length := by
  induction lines generalizing number before opened state with
  | nil =>
    cases read
    exact Nat.le_refl _
  | cons raw rest ih =>
    rw [readLines] at read
    obtain ⟨step,between,ran,read⟩ := bind_success read
    have first := sourceStep_count ran
    have later := ih read
    rw [List.length_cons]
    omega

end macros

section equates

variable {equates : Table Text}

theorem statementOf_equates {fields : List Text} (other : fields.head? ≠ some (".equ" : Text)) :
    Keeps (fun state => state.equates = equates) (statementOf fields) := by
  cases fields with
  | nil => exact keeps_pure _
  | cons head rest =>
    rw [statementOf,if_neg fun same => other (congrArg some same)]
    exact keeps_bind keeps_get fun _ => takeLabels_names (equates_ofNames equates) _

/-- The equates come back from the body of a macro, whatever its lines do. -/
theorem expandMacro_equates (read : Reader) (name : Text)
    (definition : MacroDef) (arguments : List Text) :
    Keeps (fun state => state.equates = equates) (expandMacro read name definition arguments) := by
  unfold expandMacro
  refine keeps_ite (keeps_throw_bind _ _) ?_
  intro state held
  unfold keepingEquates
  dsimp only
  split
  · exact held
  · exact held

theorem perform_equates (read : Text → Reader) (line : Nat)
    (fields : List Text) : Keeps (fun state => state.equates = equates) (perform read line fields) := by
  unfold perform
  split
  · exact keeps_pure _
  · refine keeps_bind keeps_get fun state => ?_
    split
    · exact emit_names (equates_ofNames equates) _ _
    · exact expandMacro_equates _ _ _ _

end equates

/-- A line that is no equate changes only the equates of its number and its address, also if
it fails. -/
theorem readLine_equates {evaluate : Expression.Evaluator} (depth : Nat) {text : Text}
    {line : Nat} {state : State}
    (other : (lineFields (expandEmbedded evaluate) (located state line) text).head? ≠
      some (".equ" : Text)) :
    (stateAfter (readLine evaluate depth text line state)).equates =
      (located state line).equates := by
  rw [readLine_run]
  cases expands : expandEmbedded evaluate (located state line) text with
  | error error =>
    rw [bind_of_error (statementFields_error expands)]
    rfl
  | ok expanded =>
    rw [lineFields,expands] at other
    rw [bind_of_same (statementFields_ok expands)]
    exact keeps_bind (statementOf_equates other) (perform_equates _ line) (located state line) rfl

end WordMachine.Assembly
