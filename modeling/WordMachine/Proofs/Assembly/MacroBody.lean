import WordMachine.Proofs.Assembly.Frames
import WordMachine.Proofs.Assembly.SourceMatching

/-! Lines that stand in a source on one side and in the body of a macro on the other. They
are read alike, and where none of them is an equate they leave the equates as they were. -/
namespace WordMachine.Assembly

/-- A line that is written as no equate changes only the equates of its number and its
address. -/
theorem readLine_unequated {evaluate : Expression.Evaluator} {depth line : Nat} {text : Text}
    {state next : State} (other : (Text.fields text).head? ≠ some (".equ" : Text))
    (read : readLine evaluate depth text line state = .ok () next) :
    next.equates = (located state line).equates := by
  have evaluated : (lineFields (expandEmbedded evaluate) (located state line) text).head? ≠
      some (".equ" : Text) := by
    unfold lineFields
    split
    · next expanded expands =>
      intro head
      exact other (Text.head_of_fieldsMatch (expandEmbedded_fields expands) (by decide +kernel) head)
    · simp
  have kept := readLine_equates depth evaluated
  rw [read] at kept
  exact kept

section body

variable {name : Text} {macros others : Table MacroDef} {state other : State}

/-- Two states have the same equates, apart from those that differ between two lines. -/
def SameEquates (state other : State) : Prop :=
  ∀ key, key ∉ betweenLines → other.equates.find? key = state.equates.find? key

theorem located_equates (state : State) (line : Nat) : SameEquates state (located state line) := by
  intro key shown
  simp only [betweenLines,List.mem_cons,List.not_mem_nil,or_false,not_or] at shown
  exact located_find? line (Ne.symm shown.1) (Ne.symm shown.2)

theorem numbered_equates (state : State) (number : Nat) (raw : Text) :
    (numbered state number raw).equates = state.equates := by
  obtain ⟨log,same⟩ := note_log state (Text.ofNat number ++ (": " : Text) ++ Text.dropReturn raw)
  rw [numbered,same]

variable {evaluate : Expression.Evaluator} {mentions : Text → List Text} {depth : Nat}
  (determined : Expression.DeterminedBy mentions evaluate) (shaped : isName name = true)
  (apart : name ∉ betweenLines) (known : MacrosMatch mentions name macros others)
  (enough : macros.entries.length < depth)
include determined shaped apart known enough

/-- A line of the source on one side, and on the other the same line in a body, which is one
macro deeper. -/
theorem bodyLine_agree {raw text : Text} {number : Nat} (before caller : Text) (line : Nat)
    (written : Written raw text) (portable : Portable mentions text)
    (ordinary : delimits text = false)
    (clean : ∀ reading ∈ stepReadings evaluate (depth + 1) number none raw state,
      Clean name reading)
    (matched : Matches name betweenLines macros others state other) :
    Agree (fun next _ => next = (text,none)) (Matches name betweenLines macros others)
      (sourceStep (readLine evaluate (depth + 1)) number before none raw state)
      (inMacroLine caller line (readLine evaluate depth text line) other) := by
  have noted : Matches name betweenLines macros others (numbered state (number + 1) raw) other := by
    obtain ⟨log,same⟩ := note_log state
      (Text.ofNat (number + 1) ++ (": " : Text) ++ Text.dropReturn raw)
    rw [numbered,same]
    exact { matched with }
  have agreed := @readLine_agree evaluate mentions name _ _ determined shaped apart known
    (depth + 1) depth [] text (number + 1) line _ other (by simp) (Nat.lt_succ_of_lt enough) enough
    portable
    (fun reading member => clean reading (mem_stepReadings written.literals ordinary member)) noted
  have stated : Agree (fun opened _ => opened = none) (Matches name betweenLines macros others)
      (sourceLine (readLine evaluate (depth + 1)) none (number + 1) text
        (numbered state (number + 1) raw))
      (readLine evaluate depth text line other) := by
    rw [sourceLine_statement ordinary,← bind_pure (readLine evaluate depth text line)]
    apply agree_bind agreed
    intro _ _ after after' _ _ _ matched'
    exact .ok rfl matched'
  rw [sourceStep_eq _ _ _ _ (Nat.not_le.mpr written.short) written.literals,
    ← bind_pure (inMacroLine caller line (readLine evaluate depth text line))]
  apply agree_bind (agree_marks (marks_atLine (number + 1) text _)
    (marks_inMacroLine caller line _) stated)
  rintro opened _ after after' _ _ rfl matched'
  exact .ok rfl matched'

theorem bodyLines_agree {lines texts : List Text} {number line : Nat} {before : Text}
    (caller : Text) (written : List.Forall₂ Written lines texts)
    (portable : ∀ text ∈ texts, Portable mentions text)
    (ordinary : ∀ text ∈ texts, delimits text = false)
    (clean : ∀ reading ∈ sourceReadings evaluate (depth + 1) number before none lines state,
      Clean name reading)
    (matched : Matches name betweenLines macros others state other) :
    Agree (fun next _ => next.2 = none) (Matches name betweenLines macros others)
      (readLines (readLine evaluate (depth + 1)) number before none lines state)
      (expandBody (readLine evaluate depth) caller line texts other) := by
  induction written generalizing number line before state other with
  | nil => exact .ok rfl matched
  | @cons raw text lines texts first rest ih =>
    have whole := portable text List.mem_cons_self
    have step := @bodyLine_agree name macros others state other evaluate mentions depth determined
      shaped apart known enough raw text number before caller line first whole
      (ordinary text List.mem_cons_self)
      (fun reading member => clean reading (step_mem_sourceReadings before lines member)) matched
    rw [readLines,expandBody,substitute_absent _ whole.unmarked]
    apply agree_bind step
    rintro next _ after after' ran _ rfl matched'
    exact ih (fun text member => portable text (List.mem_cons_of_mem _ member))
      (fun text member => ordinary text (List.mem_cons_of_mem _ member))
      (fun reading member => clean reading (rest_mem_sourceReadings ran member)) matched'

end body

/-- Lines that define no equate and no macro leave the equates as they are. -/
theorem readLines_equates {evaluate : Expression.Evaluator} {depth number : Nat}
    {lines texts : List Text} {before : Text} {state after : State} {next : Text × Option Text}
    (written : List.Forall₂ Written lines texts)
    (ordinary : ∀ text ∈ texts, delimits text = false)
    (unequated : ∀ text ∈ texts, (Text.fields text).head? ≠ some (".equ" : Text))
    (read : readLines (readLine evaluate depth) number before none lines state = .ok next after) :
    SameEquates state after := by
  induction written generalizing number before state with
  | nil =>
    cases read
    exact fun _ _ => rfl
  | @cons raw text lines texts first rest ih =>
    rw [readLines] at read
    obtain ⟨step,between,ran,read⟩ := bind_success read
    obtain ⟨written,line⟩ := sourceStep_success ran
    obtain ⟨text',opened⟩ := step
    have same : text' = text := by
      have literals := written.literals
      rw [first.literals] at literals
      exact (Except.ok.inj literals).symm
    subst same
    rw [sourceLine_statement (ordinary _ List.mem_cons_self)] at line
    obtain ⟨_,_,stated,returned⟩ := bind_success line
    cases returned
    have kept := readLine_unequated (unequated _ List.mem_cons_self) stated
    have later := ih (fun text member => ordinary text (List.mem_cons_of_mem _ member))
      (fun text member => unequated text (List.mem_cons_of_mem _ member)) read
    intro key shown
    rw [later key shown,kept,located_equates _ _ key shown,numbered_equates]

end WordMachine.Assembly
