import WordMachine.Proofs.Assembly.Turns

/-! How deep expansions nest. A line is read here without any bound on the depth, so that a
line whose macros call each other without end has no result. Where no macro is entered while
it is expanded there is one, the expansions nest no deeper than there are macros, and every
depth from that number on leads to it. -/
namespace WordMachine.Assembly

/-- What is read: a line, or the lines of a macro from one of them on. -/
inductive Passage where
  | line (text : Text) (number : Nat)
  | body (name : Text) (number : Nat) (texts : List Text)

def markedText (name : Text) (line : Nat) (text : Text) : Text :=
  Text.substitute Byte.atSign (expansionMark name line) text

def restored (equates : Table Text) :
    EStateM.Result Error State Unit → EStateM.Result Error State Unit
  | .ok value state => .ok value { state with equates := equates }
  | .error error state => .error error { state with equates := equates }

/-- What comes of reading. A macro is expanded however many expansions are in progress. -/
inductive Yields (evaluate : Expression.Evaluator) :
    Passage → State → EStateM.Result Error State Unit → Prop
  | refused {text : Text} {line : Nat} {state next : State} {error : Error}
      (failed : statementFields (expandEmbedded evaluate) text line state = .error error next) :
      Yields evaluate (.line text line) state (.error error next)
  | blank {text : Text} {line : Nat} {state next : State}
      (taken : statementFields (expandEmbedded evaluate) text line state = .ok [] next) :
      Yields evaluate (.line text line) state (.ok () next)
  | emitted {text name : Text} {line : Nat} {arguments : List Text} {state next : State}
      (taken : statementFields (expandEmbedded evaluate) text line state = .ok (name :: arguments) next)
      (operation : next.macros.find? name = none) :
      Yields evaluate (.line text line) state (emit (name :: arguments) line next)
  | mismatched {text name : Text} {line : Nat} {arguments : List Text} {state next : State}
      {definition : MacroDef}
      (taken : statementFields (expandEmbedded evaluate) text line state = .ok (name :: arguments) next)
      (found : next.macros.find? name = some definition)
      (mismatch : arguments.length ≠ definition.parameters.length) :
      Yields evaluate (.line text line) state (.error (.plain .macroForm) next)
  | expanded {text name : Text} {line : Nat} {arguments : List Text} {state next : State}
      {definition : MacroDef} {result : EStateM.Result Error State Unit}
      (taken : statementFields (expandEmbedded evaluate) text line state = .ok (name :: arguments) next)
      (found : next.macros.find? name = some definition)
      (counted : arguments.length = definition.parameters.length)
      (inner : Yields evaluate (.body name definition.line definition.body.toList)
        (bindParameters next definition arguments) result) :
      Yields evaluate (.line text line) state (restored next.equates result)
  | ended {name : Text} {line : Nat} {state : State} :
      Yields evaluate (.body name line []) state (.ok () state)
  | stopped {name text : Text} {line : Nat} {rest : List Text} {state next : State} {error : Error}
      (first : Yields evaluate (.line (markedText name line text) line) state (.error error next)) :
      Yields evaluate (.body name line (text :: rest)) state (.error (.inMacro name line error) next)
  | passed {name text : Text} {line : Nat} {rest : List Text} {state next : State}
      {result : EStateM.Result Error State Unit}
      (first : Yields evaluate (.line (markedText name line text) line) state (.ok () next))
      (later : Yields evaluate (.body name (line + 1) rest) next result) :
      Yields evaluate (.body name line (text :: rest)) state result

/-- While a passage is read in the expansions of the macros `within`, the innermost first, a
macro is entered in the expansions of others. -/
inductive Enters (evaluate : Expression.Evaluator) :
    List Text → Passage → State → List Text → Text → Prop
  | own {within : List Text} {text name : Text} {line : Nat} {arguments : List Text}
      {state next : State} {definition : MacroDef}
      (taken : statementFields (expandEmbedded evaluate) text line state = .ok (name :: arguments) next)
      (found : next.macros.find? name = some definition)
      (counted : arguments.length = definition.parameters.length) :
      Enters evaluate within (.line text line) state within name
  | inner {within others : List Text} {text name entered : Text} {line : Nat}
      {arguments : List Text} {state next : State} {definition : MacroDef}
      (taken : statementFields (expandEmbedded evaluate) text line state = .ok (name :: arguments) next)
      (found : next.macros.find? name = some definition)
      (counted : arguments.length = definition.parameters.length)
      (deeper : Enters evaluate (name :: within) (.body name definition.line definition.body.toList)
        (bindParameters next definition arguments) others entered) :
      Enters evaluate within (.line text line) state others entered
  | first {within others : List Text} {name text entered : Text} {line : Nat} {rest : List Text}
      {state : State}
      (here : Enters evaluate within (.line (markedText name line text) line) state others entered) :
      Enters evaluate within (.body name line (text :: rest)) state others entered
  | later {within others : List Text} {name text entered : Text} {line : Nat} {rest : List Text}
      {state next : State}
      (passed : Yields evaluate (.line (markedText name line text) line) state (.ok () next))
      (there : Enters evaluate within (.body name (line + 1) rest) next others entered) :
      Enters evaluate within (.body name line (text :: rest)) state others entered

/-- No macro is entered while it is expanded. -/
def EntersOnce (evaluate : Expression.Evaluator) (within : List Text) (passage : Passage)
    (state : State) : Prop :=
  ∀ others entered, Enters evaluate within passage state others entered → entered ∉ others

def Passage.read (evaluate : Expression.Evaluator) (depth : Nat) : Passage → Assemble Unit
  | .line text number => readLine evaluate depth text number
  | .body name number texts => expandBody (readLine evaluate depth) name number texts

theorem expandMacro_restored {definition : MacroDef} {arguments : List Text}
    (read : Reader) (name : Text) (state : State)
    (counted : arguments.length = definition.parameters.length) :
    expandMacro read name definition arguments state = restored state.equates
      (expandBody read name definition.line definition.body.toList
        (bindParameters state definition arguments)) := by
  rw [expandMacro_run read name state counted]
  unfold keepingEquates restored
  dsimp only
  generalize expandBody read name definition.line definition.body.toList _ = result
  cases result with
  | ok value final => rfl
  | error error final => rfl

section body

variable {read : Reader} {name text : Text} {line : Nat} {state next : State}
  (rest : List Text)

theorem expandBody_passed (first : read (markedText name line text) line state = .ok () next) :
    expandBody read name line (text :: rest) state = expandBody read name (line + 1) rest next := by
  have marked : inMacroLine name line (read (markedText name line text) line) state =
      .ok () next := by
    simp only [inMacroLine,first]
  rw [expandBody]
  exact bind_of_ok marked

theorem expandBody_stopped {error : Error}
    (first : read (markedText name line text) line state = .error error next) :
    expandBody read name line (text :: rest) state = .error (.inMacro name line error) next := by
  have marked : inMacroLine name line (read (markedText name line text) line) state =
      .error (.inMacro name line error) next := by
    simp only [inMacroLine,first]
  rw [expandBody]
  exact bind_of_error marked

end body

section yields

variable {evaluate : Expression.Evaluator}

/-- What a passage yields is found at every depth that is large enough. -/
theorem yields_read {passage : Passage} {state : State} {result : EStateM.Result Error State Unit}
    (yields : Yields evaluate passage state result) :
    ∃ least, ∀ depth, least ≤ depth → passage.read evaluate depth state = result := by
  induction yields with
  | @refused text line state next error failed =>
    refine ⟨0,fun depth _ => ?_⟩
    rw [Passage.read,readLine_run,bind_of_error failed]
  | @blank text line state next taken =>
    refine ⟨0,fun depth _ => ?_⟩
    rw [Passage.read,readLine_run,bind_of_ok taken]
    rfl
  | @emitted text name line arguments state next taken operation =>
    refine ⟨0,fun depth _ => ?_⟩
    rw [Passage.read,readLine_run,bind_of_ok taken,perform_emit _ _ _ operation]
  | @mismatched text name line arguments state next definition taken found mismatch =>
    refine ⟨0,fun depth _ => ?_⟩
    rw [Passage.read,readLine_run,bind_of_ok taken,perform_expand _ _ _ found,
      expandMacro_mismatch _ _ _ mismatch]
  | @expanded text name line arguments state next definition result taken found counted inner ih =>
    obtain ⟨least,same⟩ := ih
    refine ⟨least + 1,fun depth enough => ?_⟩
    obtain ⟨depth,rfl⟩ := Nat.exists_eq_add_of_lt enough
    rw [Passage.read,readLine_run,bind_of_ok taken,perform_expand _ _ _ found,
      expandMacro_restored _ _ _ counted,← same (least + depth) (Nat.le_add_right least depth)]
    rfl
  | ended => exact ⟨0,fun _ _ => rfl⟩
  | @stopped name text line rest state next error first ih =>
    obtain ⟨least,same⟩ := ih
    exact ⟨least,fun depth enough => expandBody_stopped rest (same depth enough)⟩
  | @passed name text line rest state next result first later ih ih' =>
    obtain ⟨least,same⟩ := ih
    obtain ⟨least',same'⟩ := ih'
    refine ⟨max least least',fun depth enough => ?_⟩
    have here := same depth (Nat.le_trans (Nat.le_max_left _ _) enough)
    exact (expandBody_passed rest here).trans
      (same' depth (Nat.le_trans (Nat.le_max_right _ _) enough))

theorem yields_unique {passage : Passage} {state : State}
    {result result' : EStateM.Result Error State Unit} (one : Yields evaluate passage state result)
    (other : Yields evaluate passage state result') : result = result' := by
  obtain ⟨least,same⟩ := yields_read one
  obtain ⟨least',same'⟩ := yields_read other
  rw [← same _ (Nat.le_max_left least least'),same' _ (Nat.le_max_right least least')]

/-- A line yields what it is read as at some depth if the body that it expands does. -/
theorem line_yields {depth : Nat} {text : Text} {line : Nat} {state : State}
    (body : ∀ name arguments definition next,
      statementFields (expandEmbedded evaluate) text line state = .ok (name :: arguments) next →
      next.macros.find? name = some definition →
      arguments.length = definition.parameters.length →
      Yields evaluate (.body name definition.line definition.body.toList)
        (bindParameters next definition arguments)
        (expandBody (bodyReader evaluate depth name) name definition.line definition.body.toList
          (bindParameters next definition arguments))) :
    Yields evaluate (.line text line) state (readLine evaluate depth text line state) := by
  rw [readLine_run]
  cases taken : statementFields (expandEmbedded evaluate) text line state with
  | error error next =>
    rw [bind_of_error taken]
    exact .refused taken
  | ok fields next =>
    rw [bind_of_ok taken]
    cases fields with
    | nil => exact .blank taken
    | cons name arguments =>
      cases found : next.macros.find? name with
      | none =>
        rw [perform_emit _ _ _ found]
        exact .emitted taken found
      | some definition =>
        rw [perform_expand _ _ _ found]
        by_cases counted : arguments.length = definition.parameters.length
        · rw [expandMacro_restored _ _ _ counted]
          exact .expanded taken found counted (body name arguments definition next taken found counted)
        · rw [expandMacro_mismatch _ _ _ counted]
          exact .mismatched taken found counted

end yields

section bounded

variable {evaluate : Expression.Evaluator} {macros : Table MacroDef}

/-- Expansions that can be in progress: each macro is known and stands there once. -/
structure Stacked (macros : Table MacroDef) (within : List Text) : Prop where
  distinct : within.Nodup
  known : ∀ name ∈ within, macros.contains name = true

theorem stacked_cons {within : List Text} {name : Text} {definition : MacroDef}
    (stacked : Stacked macros within) (fresh : name ∉ within)
    (found : macros.find? name = some definition) : Stacked macros (name :: within) where
  distinct := List.nodup_cons.mpr ⟨fresh,stacked.distinct⟩
  known := List.forall_mem_cons.mpr ⟨by rw [Table.contains,found]; rfl,stacked.known⟩

theorem taken_macros {text : Text} {line : Nat} {fields : List Text} {state next : State}
    (same : state.macros = macros) (taken : statementFields (expandEmbedded evaluate) text line state = .ok fields next) :
    next.macros = macros :=
  keeps_success (statementFields_macros _ text line) same taken

theorem body_yields {depth : Nat} {within : List Text} (name : Text)
    (each : ∀ text line state, state.macros = macros → EntersOnce evaluate within (.line text line) state →
      Yields evaluate (.line text line) state (readLine evaluate depth text line state))
    {line : Nat} {texts : List Text} {state : State} (same : state.macros = macros)
    (once : EntersOnce evaluate within (.body name line texts) state) :
    Yields evaluate (.body name line texts) state (expandBody (readLine evaluate depth) name line texts state) := by
  induction texts generalizing line state with
  | nil => exact .ended
  | cons text rest ih =>
    have first := each (markedText name line text) line state same fun others entered here =>
      once others entered (.first here)
    cases ran : readLine evaluate depth (markedText name line text) line state with
    | error error next =>
      rw [ran] at first
      rw [expandBody_stopped rest ran]
      exact .stopped first
    | ok value next =>
      rw [ran] at first
      rw [expandBody_passed rest ran]
      have kept : next.macros = macros := keeps_success (readLine_macros evaluate depth _ line) same ran
      exact .passed first (ih kept fun others entered there => once others entered (.later first there))

/-- The macros that are not expanded yet bound the depth that is needed. -/
theorem readLine_yields {depth : Nat} {within : List Text} {text : Text} {line : Nat}
    {state : State} (stacked : Stacked macros within) (same : state.macros = macros)
    (enough : macros.entries.length ≤ within.length + depth)
    (once : EntersOnce evaluate within (.line text line) state) :
    Yields evaluate (.line text line) state (readLine evaluate depth text line state) := by
  induction depth generalizing within text line state with
  | zero =>
    apply line_yields
    intro name arguments definition next taken found counted
    rw [taken_macros same taken] at found
    have deeper := stacked_cons stacked (once within name (.own taken (by
      rw [taken_macros same taken]; exact found) counted)) found
    have bound := length_within deeper.distinct deeper.known
    rw [List.length_cons] at bound
    omega
  | succ depth ih =>
    apply line_yields
    intro name arguments definition next taken found counted
    have kept := taken_macros same taken
    have deeper := stacked_cons stacked (once within name (.own taken found counted))
      (kept ▸ found)
    refine @body_yields evaluate macros depth (name :: within) name ?_ _ _ _ kept ?_
    · intro text line state same once
      refine ih deeper same ?_ once
      rw [List.length_cons]
      omega
    · intro others entered inside
      exact once others entered (.inner taken found counted inside)

theorem yields_macros {text : Text} {line : Nat} {state next : State} (same : state.macros = macros)
    (yields : Yields evaluate (.line text line) state (.ok () next)) : next.macros = macros := by
  obtain ⟨least,read⟩ := yields_read yields
  exact keeps_success (readLine_macros evaluate least text line) same (read least (Nat.le_refl least))

/-- The macros that are expanded at a time are distinct and known. -/
theorem enters_stacked {within others : List Text} {passage : Passage} {state : State}
    {entered : Text} (enters : Enters evaluate within passage state others entered)
    (once : EntersOnce evaluate within passage state) (same : state.macros = macros)
    (stacked : Stacked macros within) : Stacked macros (entered :: others) := by
  induction enters with
  | own taken found counted =>
    have fresh := once _ _ (.own taken found counted)
    rw [taken_macros same taken] at found
    exact stacked_cons stacked fresh found
  | inner taken found counted deeper ih =>
    have fresh := once _ _ (.own taken found counted)
    have kept := taken_macros same taken
    have once' := fun others entered inside => once others entered (.inner taken found counted inside)
    exact ih once' kept (stacked_cons stacked fresh (kept ▸ found))
  | first here ih =>
    exact ih (fun others entered inside => once others entered (.first inside)) same stacked
  | later passed there ih =>
    exact ih (fun others entered inside => once others entered (.later passed inside))
      (yields_macros same passed) stacked

end bounded

/-- The macros that are entered for the lines of a body, where those for one line are given. -/
def bodyEntries (lineEntries : Text → Nat → State → List (List Text × Text))
    (readLine : Reader) (name : Text) :
    Nat → List Text → State → List (List Text × Text)
  | _, [], _ => []
  | line, text :: rest, state =>
    lineEntries (markedText name line text) line state ++
      match readLine (markedText name line text) line state with
      | .ok _ next => bodyEntries lineEntries readLine name (line + 1) rest next
      | .error _ _ => []

/-- The macros that are entered for a line down to a depth, each with those in whose
expansion it is entered. -/
def entriesOf (evaluate : Expression.Evaluator) :
    Nat → List Text → Text → Nat → State → List (List Text × Text)
  | depth, within, text, line, state =>
    match statementFields (expandEmbedded evaluate) text line state with
    | .ok (name :: arguments) next =>
      match next.macros.find? name with
      | some definition =>
        if arguments.length = definition.parameters.length then
          (within,name) ::
            match depth with
            | 0 => []
            | depth + 1 =>
              bodyEntries (entriesOf evaluate depth (name :: within)) (readLine evaluate depth) name definition.line
                definition.body.toList (bindParameters next definition arguments)
        else []
      | none => []
    | _ => []

section entries

variable {evaluate : Expression.Evaluator} {depth : Nat} {within : List Text}
  {text name : Text} {line : Nat} {arguments : List Text} {state next : State} {definition : MacroDef}
  (taken : statementFields (expandEmbedded evaluate) text line state = .ok (name :: arguments) next)
  (found : next.macros.find? name = some definition)
  (counted : arguments.length = definition.parameters.length)
include taken found counted

theorem own_mem_entriesOf : (within,name) ∈ entriesOf evaluate depth within text line state := by
  rw [entriesOf.eq_def]
  simp only [taken,found,if_pos counted]
  exact List.mem_cons_self

theorem inner_mem_entriesOf {entry : List Text × Text}
    (member : entry ∈ bodyEntries (entriesOf evaluate depth (name :: within)) (readLine evaluate depth) name
      definition.line definition.body.toList (bindParameters next definition arguments)) :
    entry ∈ entriesOf evaluate (depth + 1) within text line state := by
  rw [entriesOf]
  simp only [taken,found,if_pos counted]
  exact List.mem_cons_of_mem _ member

end entries

section looking

variable {evaluate : Expression.Evaluator} {macros : Table MacroDef}

/-- The entries show that no macro is entered while it is expanded. -/
def Apart (entries : List (List Text × Text)) : Prop := ∀ entry ∈ entries, entry.2 ∉ entry.1

theorem body_entersOnce {depth : Nat} {within : List Text} (name : Text)
    (stacked : Stacked macros within) (enough : macros.entries.length ≤ within.length + depth)
    (each : ∀ text line state, state.macros = macros →
      Apart (entriesOf evaluate depth within text line state) → EntersOnce evaluate within (.line text line) state)
    {line : Nat} {texts : List Text} {state : State} (same : state.macros = macros)
    (apart : Apart (bodyEntries (entriesOf evaluate depth within) (readLine evaluate depth) name line texts state)) :
    EntersOnce evaluate within (.body name line texts) state := by
  induction texts generalizing line state with
  | nil =>
    intro others entered enters
    cases enters
  | cons text rest ih =>
    rw [bodyEntries] at apart
    have once := each _ line state same fun entry member => apart entry (List.mem_append_left _ member)
    intro others entered enters
    cases enters with
    | first here => exact once others entered here
    | later passed there =>
      have read := yields_unique (readLine_yields stacked same enough once) passed
      rw [read] at apart
      exact ih (yields_macros same passed)
        (fun entry member => apart entry (List.mem_append_right _ member)) others entered there

/-- To see whether a macro is entered while it is expanded it is enough to look as deep as
there are macros. -/
theorem line_entersOnce {depth : Nat} {within : List Text} {text : Text} {line : Nat}
    {state : State} (stacked : Stacked macros within) (same : state.macros = macros)
    (enough : macros.entries.length ≤ within.length + depth)
    (apart : Apart (entriesOf evaluate depth within text line state)) :
    EntersOnce evaluate within (.line text line) state := by
  induction depth generalizing within text line state with
  | zero =>
    intro others entered enters
    cases enters with
    | own taken found counted => exact apart _ (own_mem_entriesOf taken found counted)
    | inner taken found counted deeper =>
      have fresh := apart _ (own_mem_entriesOf taken found counted)
      rw [taken_macros same taken] at found
      have inside := stacked_cons stacked fresh found
      have bound := length_within inside.distinct inside.known
      rw [List.length_cons] at bound
      omega
  | succ depth ih =>
    intro others entered enters
    cases enters with
    | own taken found counted => exact apart _ (own_mem_entriesOf taken found counted)
    | @inner _ _ _ name _ _ arguments _ next definition taken found counted deeper =>
      have kept := taken_macros same taken
      have inside := stacked_cons stacked (apart _ (own_mem_entriesOf taken found counted))
        (kept ▸ found)
      have enough' : macros.entries.length ≤ (name :: within).length + depth := by
        rw [List.length_cons]
        omega
      refine @body_entersOnce evaluate macros depth (name :: within) name inside enough' ?_ _ _
        (bindParameters next definition arguments) kept ?_ others entered deeper
      · exact fun text line state same apart => ih inside same enough' apart
      · exact fun entry member => apart entry (inner_mem_entriesOf taken found counted member)

end looking

/-- A line is read to an end if no macro is entered while it is expanded. The expansions nest
no deeper than there are macros, so that a depth of that number gives the same result and the
same state as every larger one, and as no bound at all. -/
theorem expansion_ends_of_entersOnce {evaluate : Expression.Evaluator} {text : Text}
    {line : Nat} {state : State} (once : EntersOnce evaluate [] (.line text line) state) :
    (∀ result, Yields evaluate (.line text line) state result ↔
      readLine evaluate state.macros.entries.length text line state = result) ∧
    (∀ depth, state.macros.entries.length ≤ depth →
      readLine evaluate depth text line state = readLine evaluate state.macros.entries.length text line state) ∧
    ∀ others entered, Enters evaluate [] (.line text line) state others entered →
      (entered :: others).length ≤ state.macros.entries.length := by
  have unentered : Stacked state.macros [] := ⟨List.nodup_nil,by simp⟩
  have yields : ∀ depth, state.macros.entries.length ≤ depth →
      Yields evaluate (.line text line) state (readLine evaluate depth text line state) := by
    intro depth enough
    exact readLine_yields unentered rfl (by rwa [List.length_nil,Nat.zero_add]) once
  refine ⟨fun result => ⟨?_,?_⟩,?_,?_⟩
  · exact yields_unique (yields _ (Nat.le_refl _))
  · rintro rfl
    exact yields _ (Nat.le_refl _)
  · exact fun depth enough => yields_unique (yields depth enough) (yields _ (Nat.le_refl _))
  · intro others entered enters
    have stacked := enters_stacked enters once rfl unentered
    exact length_within stacked.distinct stacked.known

/-- Two macros, the first of which calls the one that its argument names, and an equate that
names the second. -/
def calling : State where
  equates := ⟨[("say","put")]⟩
  macros := ⟨[("twice",{ line := 2, parameters := ["what"], body := #["what 65","what 66"] }),
    ("put",{ line := 6, parameters := ["x"], body := #["out x"] })]⟩

theorem expansion_ends_of_entersOnce_calling :
    EntersOnce Expression.evaluate [] (.line "twice say" 9) calling ∧
    entriesOf Expression.evaluate 2 [] "twice say" 9 calling =
      ([([],"twice"),(["twice"],"put"),(["twice"],"put")] : List (List Text × Text)) ∧
    (∃ final, Yields Expression.evaluate (.line "twice say" 9) calling (.ok () final) ∧
      final.statements.toList.map Statement.words = [[19,65],[19,66]]) ∧
    readLine Expression.evaluate 2002 "twice say" 9 calling =
      readLine Expression.evaluate 2 "twice say" 9 calling ∧
    failureOf (readLine Expression.evaluate 1 "twice say" 9 calling) =
      some (.inMacro "twice" 2 (.inMacro "put" 6 (.macroDepth "put"))) := by
  have apart : Apart (entriesOf Expression.evaluate 2 [] "twice say" 9 calling) := by
    unfold Apart
    decide +kernel
  have once : EntersOnce Expression.evaluate [] (.line "twice say" 9) calling :=
    line_entersOnce ⟨List.nodup_nil,by simp⟩ rfl (by decide) apart
  have ends := expansion_ends_of_entersOnce once
  refine ⟨once,by decide +kernel,?_,?_,by decide +kernel⟩
  · have words : (stateAfter (readLine Expression.evaluate 2 "twice say" 9
        calling)).statements.toList.map Statement.words = [[19,65],[19,66]] := by decide +kernel
    have read : failureOf (readLine Expression.evaluate 2 "twice say" 9 calling) = none := by
      decide +kernel
    obtain ⟨value,ran⟩ := ok_of_failureOf read
    exact ⟨_,(ends.1 _).mpr ran,words⟩
  · exact ends.2.1 2002 (by decide)

end WordMachine.Assembly
