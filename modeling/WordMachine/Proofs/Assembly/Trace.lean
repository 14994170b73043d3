import Mathlib.Data.List.Basic
import WordMachine.Proofs.Assembly.LineSteps

/-! The lines that are read in the course of a source: the lines of the source itself that
belong to no definition, and the lines of the macros that they call, each time that they
are called. An expansion nests no deeper than there are macros unless one of them is
entered again. -/
namespace WordMachine.Assembly

/-- A line that is read: the macros in whose expansion it stands, the innermost first, and
its fields after its expressions are evaluated. -/
structure Reading where
  within : List Text
  fields : List Text
  deriving DecidableEq

def lineFields (expand : Expander) (state : State) (text : Text) : List Text :=
  match expand state text with
  | .ok expanded => Text.fields expanded
  | .error _ => []

/-- The lines that are read for the body of a macro, where those for one line are given. -/
def bodyReadings (lineReadings : Text → Nat → State → List Reading)
    (read : Reader) (name : Text) : Nat → List Text → State → List Reading
  | _, [], _ => []
  | line, text :: rest, state =>
    let text := Text.substitute Byte.atSign (expansionMark name line) text
    lineReadings text line state ++
      match read text line state with
      | .ok _ next => bodyReadings lineReadings read name (line + 1) rest next
      | .error _ _ => []

/-- The state in which the body of a macro is read. -/
def bindParameters (state : State) (definition : MacroDef) (arguments : List Text) : State :=
  { state with equates := state.equates.insertAll (definition.parameters.zip arguments) }

theorem expandMacro_mismatch {definition : MacroDef} {arguments : List Text}
    (read : Reader) (name : Text) (state : State)
    (mismatch : arguments.length ≠ definition.parameters.length) :
    expandMacro read name definition arguments state = .error (.plain .macroForm) state := by
  unfold expandMacro
  rw [if_pos mismatch]
  rfl

theorem expandMacro_run {definition : MacroDef} {arguments : List Text}
    (read : Reader) (name : Text) (state : State)
    (counted : arguments.length = definition.parameters.length) :
    expandMacro read name definition arguments state =
      keepingEquates (fun state => expandBody read name definition.line definition.body.toList
        (bindParameters state definition arguments)) state := by
  unfold expandMacro
  rw [if_neg (not_not_intro counted)]
  rfl

/-- The lines that are read for one line, the line itself first. -/
def readings (evaluate : Expression.Evaluator) :
    Nat → List Text → Text → Nat → State → List Reading
  | depth, within, text, line, state =>
    { within, fields := lineFields (expandEmbedded evaluate) (located state line) text } ::
      match statementFields (expandEmbedded evaluate) text line state with
      | .ok (name :: arguments) next =>
        match next.macros.find? name with
        | some definition =>
          if arguments.length = definition.parameters.length then
            match depth with
            | 0 => []
            | depth + 1 =>
              bodyReadings (readings evaluate depth (name :: within)) (readLine evaluate depth) name
                definition.line definition.body.toList (bindParameters next definition arguments)
          else []
        | none => []
      | _ => []

section source

variable {evaluate : Expression.Evaluator} {depth : Nat}

/-- The lines that are read for one line of a source. -/
def stepReadings (evaluate : Expression.Evaluator) (depth number : Nat) (opened : Option Text)
    (raw : Text) (state : State) : List Reading :=
  match expandLiterals (Text.dropReturn raw) with
  | .ok text =>
    if opened.isSome || delimits text then []
    else readings evaluate depth [] text (number + 1) (numbered state (number + 1) raw)
  | .error _ => []

theorem mem_stepReadings {number : Nat} {raw text : Text} {state : State} {reading : Reading}
    (literals : expandLiterals (Text.dropReturn raw) = .ok text) (ordinary : delimits text = false)
    (member : reading ∈ readings evaluate depth [] text (number + 1)
      (numbered state (number + 1) raw)) :
    reading ∈ stepReadings evaluate depth number none raw state := by
  unfold stepReadings
  rw [literals]
  simp only [Option.isSome_none,ordinary,Bool.or_false,Bool.false_eq_true,if_false]
  exact member

/-- The lines that are read for the lines of a source after line number `number`. -/
def sourceReadings (evaluate : Expression.Evaluator) (depth : Nat) :
    Nat → Text → Option Text → List Text → State → List Reading
  | _, _, _, [], _ => []
  | number, before, opened, raw :: rest, state =>
    stepReadings evaluate depth number opened raw state ++
      match sourceStep (readLine evaluate depth) number before opened raw state with
      | .ok next state => sourceReadings evaluate depth (number + 1) next.1 next.2 rest state
      | .error _ _ => []

theorem self_mem_readings (evaluate : Expression.Evaluator) (depth : Nat) (within : List Text)
    (text : Text) (line : Nat) (state : State) :
    { within, fields := lineFields (expandEmbedded evaluate) (located state line) text } ∈
      readings evaluate depth within text line state := by
  rw [readings.eq_def]
  exact List.mem_cons_self

theorem body_mem_readings {line : Nat} {within : List Text} {text name : Text}
    {arguments : List Text} {state next : State} {definition : MacroDef} {reading : Reading}
    (left : statementFields (expandEmbedded evaluate) text line state =
      .ok (name :: arguments) next)
    (found : next.macros.find? name = some definition)
    (counted : arguments.length = definition.parameters.length)
    (member : reading ∈ bodyReadings (readings evaluate depth (name :: within))
      (readLine evaluate depth) name definition.line definition.body.toList
      (bindParameters next definition arguments)) :
    reading ∈ readings evaluate (depth + 1) within text line state := by
  rw [readings]
  simp only [left,found,if_pos counted]
  exact List.mem_cons_of_mem _ member

theorem first_mem_bodyReadings {lineReadings : Text → Nat → State → List Reading}
    {read : Reader} {name text : Text} {line : Nat} {rest : List Text}
    {state : State} {reading : Reading}
    (member : reading ∈ lineReadings
      (Text.substitute Byte.atSign (expansionMark name line) text) line state) :
    reading ∈ bodyReadings lineReadings read name line (text :: rest) state :=
  List.mem_append_left _ member

theorem rest_mem_bodyReadings {lineReadings : Text → Nat → State → List Reading}
    {read : Reader} {name text : Text} {line : Nat} {rest : List Text}
    {state next : State} {reading : Reading}
    (done : read (Text.substitute Byte.atSign (expansionMark name line) text) line state =
      .ok () next)
    (member : reading ∈ bodyReadings lineReadings read name (line + 1) rest next) :
    reading ∈ bodyReadings lineReadings read name line (text :: rest) state := by
  rw [bodyReadings]
  simp only [done]
  exact List.mem_append_right _ member

theorem step_mem_sourceReadings {number : Nat} {opened : Option Text} {raw : Text} {state : State}
    {reading : Reading} (before : Text) (rest : List Text)
    (member : reading ∈ stepReadings evaluate depth number opened raw state) :
    reading ∈ sourceReadings evaluate depth number before opened (raw :: rest) state :=
  List.mem_append_left _ member

theorem rest_mem_sourceReadings {number : Nat} {before : Text} {opened : Option Text} {raw : Text}
    {rest : List Text} {state after : State} {next : Text × Option Text} {reading : Reading}
    (step : sourceStep (readLine evaluate depth) number before opened raw state = .ok next after)
    (member : reading ∈ sourceReadings evaluate depth (number + 1) next.1 next.2 rest after) :
    reading ∈ sourceReadings evaluate depth number before opened (raw :: rest) state := by
  rw [sourceReadings,step]
  exact List.mem_append_right _ member

theorem earlier_mem_sourceReadings {number : Nat} {before : Text} {opened : Option Text}
    {lines : List Text} {state : State} {reading : Reading} (rest : List Text)
    (member : reading ∈ sourceReadings evaluate depth number before opened lines state) :
    reading ∈ sourceReadings evaluate depth number before opened (lines ++ rest) state := by
  induction lines generalizing number before opened state with
  | nil => cases member
  | cons raw lines ih =>
    rw [sourceReadings,List.mem_append] at member
    rcases member with first | later
    · exact step_mem_sourceReadings before (lines ++ rest) first
    · cases step : sourceStep (readLine evaluate depth) number before opened raw state with
      | ok next after =>
        rw [step] at later
        exact rest_mem_sourceReadings step (ih later)
      | error error after =>
        rw [step] at later
        cases later

theorem later_mem_sourceReadings {number : Nat} {before : Text} {opened : Option Text}
    {lines rest : List Text} {state after : State} {next : Text × Option Text} {reading : Reading}
    (read : readLines (readLine evaluate depth) number before opened lines state = .ok next after)
    (member : reading ∈ sourceReadings evaluate depth (number + lines.length) next.1 next.2 rest after) :
    reading ∈ sourceReadings evaluate depth number before opened (lines ++ rest) state := by
  induction lines generalizing number before opened state with
  | nil =>
    cases read
    exact member
  | cons raw lines ih =>
    rw [readLines] at read
    obtain ⟨between,middle,step,read⟩ := bind_success read
    apply rest_mem_sourceReadings step
    apply ih read
    rw [Nat.add_right_comm,Nat.add_assoc]
    exact member

end source

/-- Macros that are entered once each are no more than there are. -/
theorem length_within {macros : Table MacroDef} {within : List Text} (distinct : within.Nodup)
    (known : ∀ name ∈ within, macros.contains name = true) :
    within.length ≤ macros.entries.length := by
  have inside : within ⊆ macros.entries.map Prod.fst := by
    intro name member
    have held := known name member
    rw [List.mem_map]
    by_contra absent
    have unlisted : macros.find? name = none := by
      rw [Table.find?_eq_none_iff]
      intro entry listed same
      exact absent ⟨entry,listed,same⟩
    rw [Table.contains,unlisted] at held
    cases held
  have bound := distinct.length_le_of_subset inside
  rwa [List.length_map] at bound

end WordMachine.Assembly
