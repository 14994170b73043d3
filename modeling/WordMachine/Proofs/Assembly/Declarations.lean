import WordMachine.Proofs.Assembly.Placement

/-! Macros as the source declares them. A macro begins behind its header and has the lines
from there on, so that every line of a body is that of one macro. Only the lines of
definitions change the macros. -/
namespace WordMachine.Assembly

/-- The text of a line of a source, which are numbered from 1, with its literals expanded. -/
def sourceText (lines : List Text) (number : Nat) : Option Text :=
  (lines[number - 1]?).bind fun raw => (expandLiterals (Text.dropReturn raw)).toOption

/-- A macro is declared by a header and the lines behind it. -/
structure Declares (lines : List Text) (name : Text) (definition : MacroDef) : Prop where
  header : ∃ number text, definition.line = number + 1 ∧ sourceText lines number = some text ∧
    ∃ parameters, Text.fields text = (".macro" : Text) :: name :: parameters
  body : ∀ index text, definition.body.toList[index]? = some text →
    sourceText lines (definition.line + index) = some text ∧ delimits text = false

section declares

variable {lines : List Text} {name name' : Text} {definition definition' : MacroDef}

/-- The header of a macro stands behind every line of the bodies before it. -/
theorem declares_le (one : Declares lines name definition) (two : Declares lines name' definition')
    {index index' : Nat} {text : Text} (found : definition.body.toList[index]? = some text)
    (same : definition.line + index = definition'.line + index') :
    definition'.line ≤ definition.line := by
  by_contra later
  obtain ⟨number,header,begins,stands,parameters,fields⟩ := two.header
  have inside : index < definition.body.toList.length := (List.getElem?_eq_some_iff.mp found).1
  obtain ⟨offset,place⟩ : ∃ offset, number = definition.line + offset := ⟨number - definition.line,by omega⟩
  have earlier : definition.body.toList[offset]? = some (definition.body.toList[offset]) :=
    List.getElem?_eq_getElem (by omega)
  obtain ⟨text',ordinary⟩ := one.body offset _ earlier
  rw [← place,stands] at text'
  cases text'
  rw [delimits,fields] at ordinary
  cases ordinary

theorem declares_unique (one : Declares lines name definition)
    (two : Declares lines name' definition') {index index' : Nat} {text text' : Text}
    (found : definition.body.toList[index]? = some text)
    (found' : definition'.body.toList[index']? = some text')
    (same : definition.line + index = definition'.line + index') : name = name' := by
  have line : definition.line = definition'.line :=
    Nat.le_antisymm (declares_le two one found' same.symm) (declares_le one two found same)
  obtain ⟨number,header,begins,stands,parameters,fields⟩ := one.header
  obtain ⟨number',header',begins',stands',parameters',fields'⟩ := two.header
  have numbers : number = number' := by omega
  rw [numbers,stands'] at stands
  cases stands
  rw [fields] at fields'
  exact (List.cons.inj (List.cons.inj fields').2).1

end declares

/-- The macros that the first lines of a source declare, the last of which may be open. -/
structure Gathered (lines : List Text) (number : Nat) (opened : Option Text)
    (macros : Table MacroDef) : Prop where
  declared : ∀ name definition, macros.find? name = some definition →
    Declares lines name definition
  reached : ∀ name, opened = some name → ∃ definition, macros.find? name = some definition ∧
    definition.line + definition.body.size = number + 1

section gathered

variable {lines : List Text} {number : Nat} {opened : Option Text} {macros : Table MacroDef}

theorem gathered_closed (gathered : Gathered lines number opened macros) (later : Nat) :
    Gathered lines later none macros :=
  ⟨gathered.declared,nofun⟩

theorem gathered_open {text name : Text} {parameters : List Text}
    (gathered : Gathered lines number opened macros)
    (stands : sourceText lines (number + 1) = some text)
    (fields : Text.fields text = (".macro" : Text) :: name :: parameters) :
    Gathered lines (number + 1) (some name)
      (macros.insert name { line := number + 2, parameters := parameters }) where
  declared := by
    intro other definition found
    rw [Table.find?_insert] at found
    split at found
    · next same =>
      cases found
      subst same
      exact ⟨⟨number + 1,text,rfl,stands,parameters,fields⟩,by simp⟩
    · exact gathered.declared other definition found
  reached := by
    intro other same
    cases same
    refine ⟨{ line := number + 2, parameters := parameters },?_,rfl⟩
    rw [Table.find?_insert,if_pos rfl]

theorem gathered_push {text name : Text} (gathered : Gathered lines number (some name) macros)
    (stands : sourceText lines (number + 1) = some text) (ordinary : delimits text = false) :
    Gathered lines (number + 1) (some name)
      (macros.modify name fun definition =>
        { definition with body := definition.body.push text }) := by
  obtain ⟨definition,known,last⟩ := gathered.reached name rfl
  constructor
  · intro other changed found
    rw [Table.find?_modify] at found
    split at found
    · next same =>
      subst same
      rw [known] at found
      cases found
      have declared := gathered.declared name definition known
      refine ⟨declared.header,?_⟩
      intro index line there
      simp only [Array.toList_push,List.getElem?_append,Array.length_toList] at there
      split at there
      · exact declared.body index line there
      · rw [List.getElem?_singleton] at there
        split at there
        · have last : definition.line + index = number + 1 := by omega
          cases there
          rw [last]
          exact ⟨stands,ordinary⟩
        · cases there
    · exact gathered.declared other changed found
  · intro other same
    cases same
    refine ⟨{ definition with body := definition.body.push text },?_,?_⟩
    · rw [Table.find?_modify,if_pos rfl,known]
      rfl
    · simp only [Array.size_push]
      omega

theorem sourceText_written {raw text : Text} (there : lines[number]? = some raw)
    (written : Written raw text) : sourceText lines (number + 1) = some text := by
  rw [sourceText,Nat.add_sub_cancel,there,Option.bind_some,written.literals]
  rfl

theorem sourceStep_gathered {evaluate : Expression.Evaluator} {depth : Nat} {raw before : Text}
    {state after : State} {next : Text × Option Text} (there : lines[number]? = some raw)
    (gathered : Gathered lines number opened state.macros)
    (ran : sourceStep (readLine evaluate depth) number before opened raw state = .ok next after) :
    Gathered lines (number + 1) next.2 after.macros := by
  obtain ⟨written,stated⟩ := sourceStep_success ran
  have stands := sourceText_written there written
  have begun := numbered_macros state (number + 1) raw
  rw [← begun] at gathered
  obtain ⟨text,opened'⟩ := next
  by_cases opens : (Text.fields text).head? = some (".macro" : Text)
  · rw [sourceLine_open opened _ _ opens] at stated
    split at stated
    · cases stated
    · obtain ⟨name,between,made,returned⟩ := bind_success stated
      cases returned
      rcases fields : Text.fields text with _ | ⟨head,_ | ⟨key,parameters⟩⟩
      · rw [fields] at opens
        cases opens
      · rw [fields] at made
        cases made
      · rw [fields] at opens made
        cases opens
        rw [openMacro_eq] at made
        split at made
        · cases made
        · cases made
          exact gathered_open gathered stands fields
  by_cases closes : (Text.fields text).head? = some (".endm" : Text)
  · rw [sourceLine_close opened _ _ closes] at stated
    split at stated
    · cases stated
    · cases stated
      exact gathered_closed gathered _
  have ordinary : delimits text = false := by simp [delimits,opens,closes]
  cases opened with
  | some name =>
    rw [sourceLine_body ordinary] at stated
    cases stated
    exact gathered_push gathered stands ordinary
  | none =>
    rw [sourceLine_statement ordinary] at stated
    obtain ⟨_,between,read,returned⟩ := bind_success stated
    cases returned
    rw [keeps_success (readLine_macros evaluate depth _ _) rfl read]
    exact gathered_closed gathered _

/-- The macros that some lines of a source leave are declared by these lines. -/
theorem readLines_gathered {evaluate : Expression.Evaluator} {depth : Nat}
    {done part rest : List Text} {before : Text} {state after : State} {next : Text × Option Text} (whole : lines = done ++ (part ++ rest))
    (gathered : Gathered lines done.length opened state.macros)
    (ran : readLines (readLine evaluate depth) done.length before opened part state = .ok next after) :
    Gathered lines (done.length + part.length) next.2 after.macros := by
  induction part generalizing done before opened state with
  | nil =>
    cases ran
    exact gathered
  | cons raw part ih =>
    rw [readLines] at ran
    obtain ⟨next',middle,step,later⟩ := bind_success ran
    have there : lines[done.length]? = some raw := by simp [whole]
    have stepped := sourceStep_gathered there gathered step
    have length : (done ++ [raw]).length = done.length + 1 := by simp
    rw [← length] at stepped later
    have result := @ih next'.2 (done ++ [raw]) next'.1 middle (by simp [whole]) stepped later
    rw [length] at result
    rw [List.length_cons,Nat.add_comm part.length,← Nat.add_assoc]
    exact result

end gathered

end WordMachine.Assembly
