import WordMachine.Assembly.Assemble
import WordMachine.Proofs.Result

/-! Properties of an assembler's labels, statements and links that hold throughout a
source. Only two things ever change these: defining a label and emitting a statement. A
property that both keep is kept by every line, failing or not, and by every expansion
of a macro, however deep. -/
namespace WordMachine.Assembly

structure SameCode (before after : State) : Prop where
  labels : after.labels = before.labels
  statements : after.statements = before.statements
  links : after.links = before.links

def emission (state : State) (fields : List Text) (line : Nat) (operands : List Operand) : State :=
  { state with
    statements := state.statements.push
      { line, addr := state.here, fields, words := operands.map Operand.emitted }
    links := state.links.appendList (pendingLinks state.statements.size operands) }

/-- A property that is kept by all that changes labels, statements and links. -/
structure Stable (holds : State → Prop) : Prop where
  silent : ∀ before after, SameCode before after → holds before → holds after
  label : ∀ state name, isName name = true → state.labels.contains name = false → holds state →
    holds { state with labels := state.labels.insert name state.here }
  emission : ∀ state fields line operands, fields ≠ [] →
    encodeFields state.labels fields = .ok operands →
    state.here.toNat + operands.length ≤ memorySize → holds state →
    holds (emission state fields line operands)

/-- An action after which a property holds if it held before, also if the action fails. -/
def Keeps {α : Type} (holds : State → Prop) (action : Assemble α) : Prop :=
  ∀ state, holds state → holds (stateAfter (action state))

section keeps

variable {α β : Type} {holds : State → Prop}

theorem keeps_pure (value : α) : Keeps holds (pure value : Assemble α) := fun _ held => held

theorem keeps_throw (error : Error) : Keeps holds (throw error : Assemble α) := fun _ held => held

theorem keeps_throw_bind (error : Error) (next : α → Assemble β) :
    Keeps holds (throw error >>= next) := fun _ held => held

theorem keeps_get : Keeps holds (get : Assemble State) := fun _ held => held

theorem keeps_failing (result : Except Error α) : Keeps holds (failing result) := by
  cases result with
  | ok value => exact keeps_pure value
  | error error => exact keeps_throw error

theorem keeps_bind {first : Assemble α} {next : α → Assemble β} (kept : Keeps holds first)
    (rest : ∀ value, Keeps holds (next value)) : Keeps holds (first >>= next) := by
  intro state held
  have between := kept state held
  change holds (stateAfter (EStateM.bind first next state))
  unfold EStateM.bind
  cases computed : first state with
  | ok value after => rw [computed] at between; exact rest value after between
  | error error after => rw [computed] at between; exact between

theorem keeps_of_same {action : Assemble α} {wrapped : Assemble β} (kept : Keeps holds action)
    (same : ∀ state, stateAfter (wrapped state) = stateAfter (action state)) : Keeps holds wrapped := by
  intro state held
  rw [same state]
  exact kept state held

theorem keeps_ite {condition : Prop} [Decidable condition] {yes no : Assemble α}
    (kept : Keeps holds yes) (kept' : Keeps holds no) :
    Keeps holds (if condition then yes else no) := by
  split
  · exact kept
  · exact kept'

theorem keeps_modify (stable : Stable holds) {change : State → State}
    (same : ∀ state, SameCode state (change state)) : Keeps holds (modify change : Assemble PUnit) :=
  fun state held => stable.silent state (change state) (same state) held

end keeps

theorem sameCode_note (state : State) (line : Text) : SameCode state (state.note line) := by
  unfold State.note
  split
  · exact ⟨rfl,rfl,rfl⟩
  · exact ⟨rfl,rfl,rfl⟩

/-- What reads the lines of a macro that a line calls. -/
def bodyReader (evaluate : Expression.Evaluator) : Nat → Text → Reader
  | 0 => fun name _ _ => throw (.macroDepth name)
  | depth + 1 => fun _ => readLine evaluate depth

/-- Where expressions are always replaced alike, it does not matter which lines are being
read. -/
theorem readNested_path (expand : Expander) (depth : Nat) (path : List Nat) :
    readNested (fun _ => expand) depth path = readNested (fun _ => expand) depth [] := by
  induction depth generalizing path with
  | zero => rfl
  | succ depth ih =>
    funext text line
    rw [readNested,readNested,ih (line :: path),ih [line]]

theorem readLine_eq (evaluate : Expression.Evaluator) (depth : Nat) :
    readLine evaluate depth = lineWith (expandEmbedded evaluate) (bodyReader evaluate depth) := by
  cases depth with
  | zero => rfl
  | succ depth =>
    funext text line
    rw [readLine,readNested,readNested_path]
    rfl

section stable

variable {α : Type} {holds : State → Prop} (stable : Stable holds)
include stable

theorem keeps_emit (fields : List Text) (line : Nat) : Keeps holds (emit fields line) := by
  intro state held
  cases fields with
  | nil => exact held
  | cons head arguments =>
    change holds (stateAfter ((failing (encodeFields state.labels (head :: arguments)) >>= _) state))
    cases encoded : encodeFields state.labels (head :: arguments) with
    | error error => exact held
    | ok operands =>
      change holds (stateAfter ((if memorySize < state.here.toNat + operands.length then _ else _ :
        Assemble Unit) state))
      by_cases large : memorySize < state.here.toNat + operands.length
      · rw [if_pos large]
        exact held
      · rw [if_neg large]
        have emitted := stable.emission state (head :: arguments) line operands (by simp) encoded
          (Nat.le_of_not_lt large) held
        -- A report in a verbose run is all that the state has besides the emission.
        refine stable.silent (emission state (head :: arguments) line operands) _ ⟨?_,rfl,rfl⟩ emitted
        exact (sameCode_note state _).labels

theorem keeps_locate (line : Nat) : Keeps holds (locate line) :=
  keeps_modify stable fun _ => ⟨rfl,rfl,rfl⟩

theorem keeps_defineEquate (fields : List Text) : Keeps holds (defineEquate fields) := by
  unfold defineEquate
  split
  · refine keeps_ite (keeps_throw_bind _ _) ?_
    refine keeps_bind keeps_get fun state => ?_
    refine keeps_ite (keeps_throw_bind _ _) ?_
    exact keeps_modify stable fun _ => ⟨rfl,rfl,rfl⟩
  · exact keeps_throw _

theorem keeps_defineLabel (name : Text) : Keeps holds (defineLabel name) := by
  intro state held
  unfold defineLabel
  cases named : isName name with
  | false => exact held
  | true =>
    change holds (stateAfter ((if state.labels.contains name = true then _ else _ :
      Assemble Unit) state))
    cases known : state.labels.contains name with
    | true => exact held
    | false => exact stable.label state name named known held

theorem keeps_takeLabels (fields : List Text) : Keeps holds (takeLabels fields) := by
  induction fields with
  | nil => exact keeps_pure _
  | cons field rest ih =>
    unfold takeLabels
    exact keeps_ite (keeps_bind (keeps_defineLabel stable _) fun _ => ih) (keeps_pure _)

theorem keeps_keepingEquates {action : Assemble α} (kept : Keeps holds action) :
    Keeps holds (keepingEquates action) := by
  intro state held
  have between := kept state held
  unfold keepingEquates
  cases computed : action state with
  | ok value after =>
    rw [computed] at between
    exact stable.silent after _ ⟨rfl,rfl,rfl⟩ between
  | error error after =>
    rw [computed] at between
    exact stable.silent after _ ⟨rfl,rfl,rfl⟩ between

omit stable in
theorem keeps_inMacroLine {action : Assemble α} (name : Text) (line : Nat)
    (kept : Keeps holds action) : Keeps holds (inMacroLine name line action) := by
  apply keeps_of_same kept
  intro state
  unfold inMacroLine
  cases action state with
  | ok value after => rfl
  | error error after => rfl

omit stable in
theorem keeps_atLine {action : Assemble α} (line : Nat) (text : Text) (kept : Keeps holds action) :
    Keeps holds (atLine line text action) := by
  apply keeps_of_same kept
  intro state
  unfold atLine
  cases action state with
  | ok value after => rfl
  | error error after => rfl

omit stable in
theorem keeps_expandBody {read : Reader}
    (kept : ∀ text line, Keeps holds (read text line)) (name : Text) (line : Nat)
    (body : List Text) : Keeps holds (expandBody read name line body) := by
  induction body generalizing line with
  | nil => exact keeps_pure _
  | cons text rest ih =>
    exact keeps_bind (keeps_inMacroLine name line (kept _ line)) fun _ => ih (line + 1)

theorem keeps_expandMacro {read : Reader}
    (kept : ∀ text line, Keeps holds (read text line)) (name : Text) (definition : MacroDef)
    (arguments : List Text) : Keeps holds (expandMacro read name definition arguments) := by
  unfold expandMacro
  refine keeps_ite (keeps_throw_bind _ _) ?_
  apply keeps_keepingEquates stable
  refine keeps_bind (keeps_modify stable fun _ => ⟨rfl,rfl,rfl⟩) fun _ => ?_
  exact keeps_expandBody kept name _ _

theorem keeps_lineWith (expand : Expander) {readBody : Text → Reader}
    (kept : ∀ name text line, Keeps holds (readBody name text line)) (text : Text) (line : Nat) :
    Keeps holds (lineWith expand readBody text line) := by
  unfold lineWith
  refine keeps_bind (keeps_locate stable line) fun _ => ?_
  refine keeps_bind keeps_get fun state => ?_
  refine keeps_bind (keeps_failing _) fun expanded => ?_
  dsimp only
  split
  · exact keeps_pure _
  · refine keeps_ite (keeps_defineEquate stable _) ?_
    refine keeps_bind keeps_get fun state => ?_
    refine keeps_bind (keeps_takeLabels stable _) fun fields => ?_
    split
    · exact keeps_pure _
    · refine keeps_bind keeps_get fun state => ?_
      split
      · exact keeps_emit stable _ _
      · exact keeps_expandMacro stable (kept _) _ _ _

theorem keeps_readLine (evaluate : Expression.Evaluator) (depth : Nat) (text : Text) (line : Nat) :
    Keeps holds (readLine evaluate depth text line) := by
  -- Only the depth decreases from a line to the lines of the macros that it calls.
  induction depth generalizing text line with
  | zero =>
    rw [readLine_eq]
    exact keeps_lineWith stable _ (fun name _ _ => keeps_throw (.macroDepth name)) text line
  | succ depth ih =>
    rw [readLine_eq]
    exact keeps_lineWith stable _ (fun _ => ih) text line

theorem keeps_openMacro (line : Nat) (fields : List Text) : Keeps holds (openMacro line fields) := by
  unfold openMacro
  split
  · refine keeps_bind keeps_get fun state => ?_
    refine keeps_ite (keeps_throw_bind _ _) ?_
    exact keeps_bind (keeps_modify stable fun _ => ⟨rfl,rfl,rfl⟩) fun _ => keeps_pure _
  · exact keeps_throw _

variable {read : Reader} (kept : ∀ text line, Keeps holds (read text line))
include kept

theorem keeps_sourceLine (opened : Option Text) (line : Nat) (text : Text) :
    Keeps holds (sourceLine read opened line text) := by
  unfold sourceLine
  refine keeps_ite ?_ (keeps_ite ?_ ?_)
  · refine keeps_ite (keeps_throw_bind _ _) ?_
    exact keeps_bind (keeps_openMacro stable _ _) fun _ => keeps_pure _
  · exact keeps_ite (keeps_throw_bind _ _) (keeps_pure _)
  · split
    · exact keeps_bind (keeps_modify stable fun _ => ⟨rfl,rfl,rfl⟩) fun _ => keeps_pure _
    · exact keeps_bind (kept _ _) fun _ => keeps_pure _

theorem keeps_sourceLines (line : Nat) (text : Text) (opened : Option Text) (lines : List Text) :
    Keeps holds (sourceLines read line text opened lines) := by
  induction lines generalizing line text opened with
  | nil => exact keeps_ite (keeps_throw _) (keeps_pure _)
  | cons raw rest ih =>
    rw [sourceLines]
    refine keeps_ite (keeps_throw_bind _ _) ?_
    refine keeps_bind (keeps_modify stable fun state => sameCode_note state _) fun _ => ?_
    split
    · exact keeps_throw _
    · refine keeps_bind (keeps_atLine _ _ (keeps_sourceLine stable kept _ _ _)) fun opened => ?_
      exact ih _ _ _

end stable

end WordMachine.Assembly
