import WordMachine.Proofs.Assembly.Embedding
import WordMachine.Proofs.Assembly.PlainLine
import WordMachine.Proofs.Assembly.Trace

/-! Two assemblers side by side that read the same lines under different numbers, where the
second may know one macro more. Lines that do not use their numbers are read alike: both
assemblers fail, or both go on and emit the same words under the same labels. -/
namespace WordMachine

def Statement.unnumbered (statement : Statement) : Statement := { statement with line := 0 }

namespace Assembly

def MacroDef.unnumbered (definition : MacroDef) : MacroDef := { definition with line := 0 }

/-- Both runs fail, or both succeed with results and states that are related. -/
inductive Agree {α β : Type} (values : α → β → Prop) (states : State → State → Prop) :
    EStateM.Result Error State α → EStateM.Result Error State β → Prop
  | ok {value : α} {value' : β} {state other : State} (same : values value value')
      (related : states state other) : Agree values states (.ok value state) (.ok value' other)
  | error (error error' : Error) (state other : State) :
      Agree values states (.error error state) (.error error' other)

section agree

variable {α β γ δ : Type} {values : α → β → Prop} {values' : γ → δ → Prop}
  {states states' : State → State → Prop} {first : Assemble α} {second : Assemble β}
  {state other : State}

theorem agree_bind {next : α → Assemble γ} {next' : β → Assemble δ}
    (agreed : Agree values states (first state) (second other))
    (rest : ∀ value value' after after', first state = .ok value after →
      second other = .ok value' after' → values value value' → states after after' →
      Agree values' states' (next value after) (next' value' after')) :
    Agree values' states' ((first >>= next) state) ((second >>= next') other) := by
  cases ran : first state with
  | ok value after =>
    cases ran' : second other with
    | ok value' after' =>
      rw [ran,ran'] at agreed
      cases agreed with
      | ok same related =>
        rw [bind_of_ok ran,bind_of_ok ran']
        exact rest value value' after after' ran ran' same related
    | error error after' => rw [ran,ran'] at agreed; cases agreed
  | error error after =>
    cases ran' : second other with
    | ok value' after' => rw [ran,ran'] at agreed; cases agreed
    | error error' after' =>
      rw [bind_of_error ran,bind_of_error ran']
      exact .error _ _ _ _

theorem agree_mono (agreed : Agree values states (first state) (second other))
    (weaker : ∀ after after', states after after' → states' after after') :
    Agree values states' (first state) (second other) := by
  generalize first state = result at agreed ⊢
  generalize second other = result' at agreed ⊢
  cases agreed with
  | ok same related => exact .ok same (weaker _ _ related)
  | error error error' after after' => exact .error _ _ _ _

/-- An action that does what another does, but may report its failures otherwise. -/
def Marks (marked action : Assemble α) : Prop :=
  ∀ state, (∀ value after, action state = .ok value after → marked state = .ok value after) ∧
    ∀ error after, action state = .error error after → ∃ error', marked state = .error error' after

theorem marks_self (action : Assemble α) : Marks action action :=
  fun _ => ⟨fun _ _ ran => ran,fun error _ failed => ⟨error,failed⟩⟩

theorem marks_inMacroLine (name : Text) (line : Nat) (action : Assemble α) :
    Marks (inMacroLine name line action) action := by
  intro state
  unfold inMacroLine
  constructor
  · intro value after ran
    rw [ran]
  · intro error after failed
    rw [failed]
    exact ⟨_,rfl⟩

theorem marks_atLine (line : Nat) (text : Text) (action : Assemble α) :
    Marks (atLine line text action) action := by
  intro state
  unfold atLine
  constructor
  · intro value after ran
    rw [ran]
  · intro error after failed
    rw [failed]
    exact ⟨_,rfl⟩

theorem agree_marks {marked : Assemble α} {marked' : Assemble β} (marks : Marks marked first)
    (marks' : Marks marked' second) (agreed : Agree values states (first state) (second other)) :
    Agree values states (marked state) (marked' other) := by
  cases ran : first state with
  | ok value after =>
    cases ran' : second other with
    | ok value' after' =>
      rw [(marks state).1 value after ran,(marks' other).1 value' after' ran']
      rwa [ran,ran'] at agreed
    | error error after' => rw [ran,ran'] at agreed; cases agreed
  | error error after =>
    cases ran' : second other with
    | ok value' after' => rw [ran,ran'] at agreed; cases agreed
    | error error' after' =>
      obtain ⟨_,failed⟩ := (marks state).2 error after ran
      obtain ⟨_,failed'⟩ := (marks' other).2 error' after' ran'
      rw [failed,failed']
      exact .error _ _ _ _

end agree

/-- A line that reads the same whatever its number and wherever it stands: it has no at
sign, and it uses the line number neither as a field nor in an expression. -/
structure Portable (mentions : Text → List Text) (text : Text) : Prop where
  unmarked : Byte.atSign ∉ text
  unnumbered : lineName ∉ Text.fields text
  unmentioned : lineName ∉ mentioned mentions text

instance (mentions : Text → List Text) : DecidablePred (Portable mentions) := fun _ =>
  decidable_of_iff (_ ∧ _ ∧ _)
    ⟨fun checked => ⟨checked.1,checked.2.1,checked.2.2⟩,
      fun portable => ⟨portable.unmarked,portable.unnumbered,portable.unmentioned⟩⟩

/-- The second assembler's macros beside the first one's, which are portable and know
nothing of the name of the second one's own macro. -/
structure MacrosMatch (mentions : Text → List Text) (name : Text)
    (macros others : Table MacroDef) : Prop where
  same : ∀ key, key ≠ name →
    (others.find? key).map MacroDef.unnumbered = (macros.find? key).map MacroDef.unnumbered
  absent : macros.find? name = none
  parameters : ∀ key definition, macros.find? key = some definition → name ∉ definition.parameters
  bodies : ∀ key definition, macros.find? key = some definition →
    ∀ text ∈ definition.body.toList, Portable mentions text

/-- The states of the two assemblers while they read the same line. The equates with the
hidden names may differ. -/
structure Matches (name : Text) (hidden : List Text) (macros others : Table MacroDef)
    (state other : State) : Prop where
  labels : other.labels = state.labels
  statements : other.statements.map Statement.unnumbered = state.statements.map Statement.unnumbered
  links : other.links = state.links
  equates : ∀ key, key ∉ hidden → other.equates.find? key = state.equates.find? key
  unequated : state.equates.find? name = none
  values : ∀ key value, state.equates.find? key = some value → value ≠ name
  macros : state.macros = macros
  others : other.macros = others

/-- What differs between two lines. -/
def betweenLines : List Text := [lineName,hereName]

section states

variable {name : Text} {hidden : List Text} {macros others : Table MacroDef} {state other : State}

theorem here_unnumbered (state : State) :
    state.here = ((state.statements.map Statement.unnumbered).back?.map fun statement =>
      statement.addr + statement.words.length.toUInt16).getD 0 := by
  unfold State.here
  rw [Array.back?_map]
  cases state.statements.back? with
  | none => rfl
  | some statement => rfl

theorem matches_here (matched : Matches name hidden macros others state other) :
    other.here = state.here := by
  rw [here_unnumbered,here_unnumbered,matched.statements]

theorem matches_note (matched : Matches name hidden macros others state other) (text text' : Text) :
    Matches name hidden macros others (state.note text) (other.note text') := by
  obtain ⟨log,same⟩ := note_log state text
  obtain ⟨log',same'⟩ := note_log other text'
  rw [same,same']
  exact ⟨matched.labels,matched.statements,matched.links,matched.equates,matched.unequated,
    matched.values,matched.macros,matched.others⟩

theorem matches_weaken {more : List Text} (matched : Matches name hidden macros others state other)
    (wider : hidden ⊆ more) : Matches name more macros others state other :=
  { matched with equates := fun key shown => matched.equates key fun inside => shown (wider inside) }

theorem matches_located {line line' : Nat} (shaped : isName name = true)
    (apart : name ∉ betweenLines) (matched : Matches name betweenLines macros others state other) :
    Matches name [lineName] macros others (located state line) (located other line') := by
  simp only [betweenLines,List.mem_cons,List.not_mem_nil,or_false,not_or] at apart
  refine ⟨matched.labels,matched.statements,matched.links,?_,?_,?_,matched.macros,matched.others⟩
  · intro key shown
    rw [List.mem_singleton] at shown
    simp only [located,Table.find?_insert,matches_here matched,if_neg (Ne.symm shown)]
    by_cases here : hereName = key
    · rw [if_pos here,if_pos here]
    · rw [if_neg here,if_neg here]
      apply matched.equates
      simp only [betweenLines,List.mem_cons,List.not_mem_nil,or_false,not_or]
      exact ⟨shown,Ne.symm here⟩
  · rw [located_find? line (Ne.symm apart.1) (Ne.symm apart.2)]
    exact matched.unequated
  · intro key value found
    simp only [located,Table.find?_insert] at found
    split at found
    · cases found
      exact ofNat_ne_name shaped _
    · split at found
      · cases found
        exact ofNat_ne_name shaped _
      · exact matched.values key value found

theorem matches_insert {key value : Text} (matched : Matches name hidden macros others state other)
    (apart : key ≠ name) (apart' : value ≠ name) :
    Matches name hidden macros others { state with equates := state.equates.insert key value }
      { other with equates := other.equates.insert key value } where
  labels := matched.labels
  statements := matched.statements
  links := matched.links
  equates := by
    intro key' shown
    rw [Table.find?_insert,Table.find?_insert,matched.equates key' shown]
  unequated := by
    rw [Table.find?_insert,if_neg apart]
    exact matched.unequated
  values := by
    intro key' value' found
    rw [Table.find?_insert] at found
    split at found
    · cases found
      exact apart'
    · exact matched.values key' value' found
  macros := matched.macros
  others := matched.others

theorem matches_insertAll {pairs : List (Text × Text)}
    (matched : Matches name hidden macros others state other)
    (apart : ∀ pair ∈ pairs, pair.1 ≠ name ∧ pair.2 ≠ name) :
    Matches name hidden macros others { state with equates := state.equates.insertAll pairs }
      { other with equates := other.equates.insertAll pairs } := by
  induction pairs generalizing state other with
  | nil => exact matched
  | cons pair rest ih =>
    have first := apart pair List.mem_cons_self
    exact ih (matches_insert matched first.1 first.2)
      fun pair member => apart pair (List.mem_cons_of_mem _ member)

theorem matches_label {key : Text} (matched : Matches name hidden macros others state other) :
    Matches name hidden macros others { state with labels := state.labels.insert key state.here }
      { other with labels := other.labels.insert key other.here } :=
  { matched with labels := by rw [matched.labels,matches_here matched] }

theorem matches_emission {fields : List Text} {operands : List Operand} (line line' : Nat)
    (matched : Matches name hidden macros others state other) :
    Matches name hidden macros others (emission state fields line operands)
      (emission other fields line' operands) := by
  have counted : other.statements.size = state.statements.size := by
    have sizes := congrArg Array.size matched.statements
    rwa [Array.size_map,Array.size_map] at sizes
  refine { matched with statements := ?_, links := ?_ }
  · simp only [emission,Array.map_push,matched.statements,matches_here matched]
    rfl
  · simp only [emission,matched.links,counted]

end states

/-- Results of two actions that have nothing to say. -/
def done (_ _ : Unit) : Prop := True

section actions

variable {name : Text} {macros others : Table MacroDef} {state other : State}
  (matched : Matches name [lineName] macros others state other)
include matched

theorem symbolValue?_matches {key : Text} (shown : key ≠ lineName) :
    symbolValue? state key = symbolValue? other key := by
  have same := matched.equates key (by simpa using shown)
  unfold symbolValue?
  rw [same,matched.labels]

theorem expandEmbedded_matches {evaluate : Expression.Evaluator} {mentions : Text → List Text}
    {text : Text} (determined : Expression.DeterminedBy mentions evaluate)
    (portable : Portable mentions text) :
    expandEmbedded evaluate state text = expandEmbedded evaluate other text := by
  apply expandEmbedded_congr determined
  intro key member
  apply symbolValue?_matches matched
  rintro rfl
  exact portable.unmentioned member

theorem defineEquate_agree {fields : List Text} (unnumbered : lineName ∉ fields)
    (unnamed : name ∉ fields) :
    Agree done (Matches name [lineName] macros others) (defineEquate fields state)
      (defineEquate fields other) := by
  rcases fields with _ | ⟨head,_ | ⟨key,_ | ⟨value,_ | ⟨extra,rest⟩⟩⟩⟩
  · exact .error _ _ _ _
  · exact .error _ _ _ _
  · exact .error _ _ _ _
  · have shown : key ∉ [lineName] := by
      rw [List.mem_singleton]
      rintro rfl
      exact unnumbered (by simp)
    have same : other.equates.contains key = state.equates.contains key := by
      unfold Table.contains
      rw [matched.equates key shown]
    rw [defineEquate_eq,defineEquate_eq,same]
    by_cases misshapen : isName key = false
    · rw [if_pos misshapen,if_pos misshapen]
      exact .error _ _ _ _
    · rw [if_neg misshapen,if_neg misshapen]
      by_cases known : state.equates.contains key = true
      · rw [if_pos known,if_pos known]
        exact .error _ _ _ _
      · have apart : key ≠ name := by rintro rfl; exact unnamed (by simp)
        have apart' : value ≠ name := by rintro rfl; exact unnamed (by simp)
        rw [if_neg known,if_neg known]
        exact .ok trivial (matches_insert matched apart apart')
  · exact .error _ _ _ _

theorem defineLabel_agree (key : Text) :
    Agree done (Matches name [lineName] macros others) (defineLabel key state)
      (defineLabel key other) := by
  rw [defineLabel_eq,defineLabel_eq,matched.labels]
  by_cases misshapen : isName key = false
  · rw [if_pos misshapen,if_pos misshapen]
    exact .error _ _ _ _
  · rw [if_neg misshapen,if_neg misshapen]
    by_cases known : state.labels.contains key = true
    · rw [if_pos known,if_pos known]
      exact .error _ _ _ _
    · rw [if_neg known,if_neg known]
      exact .ok trivial (matched.labels ▸ matches_label matched)

/-- Fields that both assemblers are left with, in which the name does not occur. -/
def SameFields (name : Text) (fields fields' : List Text) : Prop := fields' = fields ∧ name ∉ fields

theorem takeLabels_agree {fields : List Text} (unnamed : name ∉ fields) :
    Agree (SameFields name) (Matches name [lineName] macros others) (takeLabels fields state)
      (takeLabels fields other) := by
  induction fields generalizing state other with
  | nil => exact .ok ⟨rfl,unnamed⟩ matched
  | cons field rest ih =>
    have later : name ∉ rest := fun member => unnamed (List.mem_cons_of_mem field member)
    rw [takeLabels]
    by_cases labelled : field.getLast? = some Byte.colon
    · rw [if_pos labelled]
      apply agree_bind (defineLabel_agree matched field.dropLast)
      intro _ _ after after' _ _ _ matched'
      exact ih matched' later
    · rw [if_neg labelled]
      exact .ok ⟨rfl,unnamed⟩ matched

theorem emit_agree (fields : List Text) (line line' : Nat) :
    Agree done (Matches name [lineName] macros others) (emit fields line state)
      (emit fields line' other) := by
  cases fields with
  | nil => exact .ok trivial matched
  | cons head arguments =>
    have given : head :: arguments ≠ [] := List.cons_ne_nil head arguments
    cases encoded : encodeFields state.labels (head :: arguments) with
    | error error =>
      rw [emit_malformed line encoded,emit_malformed line' (by rw [matched.labels,encoded])]
      exact .error _ _ _ _
    | ok operands =>
      have encoded' : encodeFields other.labels (head :: arguments) = .ok operands := by
        rw [matched.labels,encoded]
      by_cases large : memorySize < state.here.toNat + operands.length
      · rw [emit_overflow line given encoded large,
          emit_overflow line' given encoded' (by rw [matches_here matched]; exact large)]
        exact .error _ _ _ _
      · have room := Nat.le_of_not_lt large
        rw [emit_run line given encoded room,
          emit_run line' given encoded' (by rw [matches_here matched]; exact room)]
        exact .ok trivial (matches_emission line line' (matches_note matched _ _))

end actions

theorem unnumbered_fields {evaluate : Expression.Evaluator} {mentions : Text → List Text}
    {state : State} {text expanded : Text} (portable : Portable mentions text)
    (expands : expandEmbedded evaluate state text = .ok expanded) :
    lineName ∉ Text.fields expanded := by
  intro member
  exact portable.unnumbered
    (Text.mem_of_fieldsMatch (expandEmbedded_fields expands) (by decide +kernel) member)

theorem statementOf_agree {name : Text} {macros others : Table MacroDef} {state other : State}
    {fields : List Text} (unnumbered : lineName ∉ fields) (unnamed : name ∉ fields)
    (matched : Matches name [lineName] macros others state other) :
    Agree (SameFields name) (Matches name [lineName] macros others) (statementOf fields state)
      (statementOf fields other) := by
  cases fields with
  | nil => exact .ok ⟨rfl,List.not_mem_nil⟩ matched
  | cons head rest =>
    by_cases equate : head = (".equ" : Text)
    · subst equate
      rw [statementOf_equate,statementOf_equate]
      apply agree_bind (defineEquate_agree matched unnumbered unnamed)
      intro _ _ after after' _ _ _ matched'
      exact .ok ⟨rfl,List.not_mem_nil⟩ matched'
    · have same : (head :: rest).map (fun field => (other.equates.find? field).getD field) =
          (head :: rest).map fun field => (state.equates.find? field).getD field := by
        apply List.map_congr_left
        intro field member
        rw [matched.equates field (by rw [List.mem_singleton]; rintro rfl; exact unnumbered member)]
      rw [statementOf_other equate,statementOf_other equate,same]
      apply takeLabels_agree matched
      intro member
      obtain ⟨field,inside,substituted⟩ := List.mem_map.mp member
      cases value : state.equates.find? field with
      | none =>
        rw [value,Option.getD_none] at substituted
        exact unnamed (substituted ▸ inside)
      | some value' =>
        rw [value,Option.getD_some] at substituted
        exact matched.values field value' value substituted

theorem statementFields_agree {evaluate : Expression.Evaluator} {mentions : Text → List Text}
    {name text : Text} {macros others : Table MacroDef} {state other : State} {line line' : Nat}
    (determined : Expression.DeterminedBy mentions evaluate) (shaped : isName name = true)
    (apart : name ∉ betweenLines) (portable : Portable mentions text)
    (unnamed : name ∉ lineFields (expandEmbedded evaluate) (located state line) text)
    (matched : Matches name betweenLines macros others state other) :
    Agree (SameFields name) (Matches name [lineName] macros others)
      (statementFields (expandEmbedded evaluate) text line state)
      (statementFields (expandEmbedded evaluate) text line' other) := by
  have ready := @matches_located name macros others state other line line' shaped apart matched
  have expands' := expandEmbedded_matches ready determined portable
  cases expands : expandEmbedded evaluate (located state line) text with
  | error error =>
    rw [statementFields_error expands,statementFields_error (expands'.symm.trans expands)]
    exact .error _ _ _ _
  | ok expanded =>
    have unnumbered := unnumbered_fields portable expands
    have unnamed : name ∉ Text.fields expanded := by
      unfold lineFields at unnamed
      rwa [expands] at unnamed
    rw [statementFields_ok expands,statementFields_ok (expands'.symm.trans expands)]
    exact statementOf_agree unnumbered unnamed ready

theorem keepingEquates_agree {name : Text} {macros others : Table MacroDef} {state other : State}
    {first second : Assemble Unit} (matched : Matches name [lineName] macros others state other)
    (agreed : Agree done (Matches name betweenLines macros others) (first state) (second other)) :
    Agree done (Matches name betweenLines macros others) (keepingEquates first state)
      (keepingEquates second other) := by
  unfold keepingEquates
  generalize first state = result at agreed ⊢
  generalize second other = result' at agreed ⊢
  cases agreed with
  | ok same related =>
    refine .ok same { related with equates := ?_, unequated := matched.unequated, values := matched.values }
    intro key shown
    apply matched.equates
    intro hidden
    exact shown (List.mem_cons.mpr (.inl (List.mem_singleton.mp hidden)))
  | error error error' after after' => exact .error _ _ _ _

theorem substitute_absent {byte : UInt8} {text : Text} (replacement : Text) (absent : byte ∉ text) :
    Text.substitute byte replacement text = text := by
  unfold Text.substitute
  induction text with
  | nil => rfl
  | cons b rest ih =>
    have other : b ≠ byte := fun same => absent (same ▸ List.mem_cons_self)
    have later : byte ∉ rest := fun member => absent (List.mem_cons_of_mem b member)
    rw [List.flatMap_cons,if_neg other,ih later]
    rfl

/-- A line that is read without the name among its fields, and in no macro twice. -/
def Clean (name : Text) (reading : Reading) : Prop :=
  name ∉ reading.fields ∧ reading.within.Nodup

theorem expandBody_agree {mentions : Text → List Text} {name caller : Text}
    {macros others : Table MacroDef}
    {lineReadings : Text → Nat → State → List Reading} {read read' : Reader}
    {body : List Text} {state other : State} {line line' : Nat}
    (portable : ∀ text ∈ body, Portable mentions text)
    (alike : ∀ text line line' state other, Portable mentions text →
      (∀ reading ∈ lineReadings text line state, Clean name reading) →
      Matches name betweenLines macros others state other →
      Agree done (Matches name betweenLines macros others) (read text line state)
        (read' text line' other))
    (clean : ∀ reading ∈ bodyReadings lineReadings read caller line body state, Clean name reading)
    (matched : Matches name betweenLines macros others state other) :
    Agree done (Matches name betweenLines macros others) (expandBody read caller line body state)
      (expandBody read' caller line' body other) := by
  induction body generalizing line line' state other with
  | nil => exact .ok trivial matched
  | cons text rest ih =>
    have first := portable text List.mem_cons_self
    have same : ∀ line, Text.substitute Byte.atSign (expansionMark caller line) text = text :=
      fun line => substitute_absent _ first.unmarked
    have agreed := alike text line line' state other first
      (fun reading member => clean reading (first_mem_bodyReadings (by rw [same]; exact member))) matched
    rw [expandBody,expandBody,same,same]
    apply agree_bind (agree_marks (marks_inMacroLine caller line _) (marks_inMacroLine caller line' _) agreed)
    intro _ _ after after' ran _ _ matched'
    have ran' : read (Text.substitute Byte.atSign (expansionMark caller line) text) line state =
        .ok () after := by
      rw [same]
      unfold inMacroLine at ran
      cases result : read text line state with
      | ok value between => rw [result] at ran; cases ran; rfl
      | error error between => rw [result] at ran; cases ran
    exact ih (fun text member => portable text (List.mem_cons_of_mem _ member))
      (fun reading member => clean reading (rest_mem_bodyReadings ran' member)) matched'

theorem macrosMatch_found {mentions : Text → List Text} {name key : Text}
    {macros others : Table MacroDef}
    (known : MacrosMatch mentions name macros others) (apart : key ≠ name) :
    (macros.find? key = none ∧ others.find? key = none) ∨
      ∃ definition line, macros.find? key = some definition ∧
        others.find? key = some { definition with line := line } := by
  have same := known.same key apart
  cases found : macros.find? key with
  | none =>
    rw [found,Option.map_none,Option.map_eq_none_iff] at same
    exact .inl ⟨rfl,same⟩
  | some definition =>
    rw [found,Option.map_some,Option.map_eq_some_iff] at same
    obtain ⟨definition',found',same⟩ := same
    refine .inr ⟨definition,definition'.line,rfl,?_⟩
    obtain ⟨line',parameters',body'⟩ := definition'
    obtain ⟨line,parameters,body⟩ := definition
    simp only [MacroDef.unnumbered,MacroDef.mk.injEq,true_and] at same
    rw [found',same.1,same.2]

theorem bindParameters_matches {mentions : Text → List Text} {name key : Text}
    {macros others : Table MacroDef} {state other : State} {definition : MacroDef} {arguments : List Text} (line : Nat)
    (known : MacrosMatch mentions name macros others) (found : macros.find? key = some definition)
    (unnamed : name ∉ arguments) (matched : Matches name [lineName] macros others state other) :
    Matches name betweenLines macros others (bindParameters state definition arguments)
      (bindParameters other { definition with line := line } arguments) := by
  have apart : ∀ pair ∈ definition.parameters.zip arguments, pair.1 ≠ name ∧ pair.2 ≠ name := by
    intro pair member
    obtain ⟨parameter,argument⟩ := List.of_mem_zip member
    constructor
    · intro same
      exact known.parameters key definition found (same ▸ parameter)
    · intro same
      exact unnamed (same ▸ argument)
  apply matches_weaken (matches_insertAll matched apart)
  intro hidden member
  exact List.mem_cons.mpr (.inl (List.mem_singleton.mp member))

theorem expandMacro_agree {mentions : Text → List Text} {name caller : Text}
    {macros others : Table MacroDef}
    {lineReadings : Text → Nat → State → List Reading} {read read' : Reader}
    {state other : State} {definition : MacroDef} {arguments : List Text} (line : Nat)
    (known : MacrosMatch mentions name macros others) (found : macros.find? caller = some definition)
    (unnamed : name ∉ arguments)
    (alike : ∀ text line line' state other, Portable mentions text →
      (∀ reading ∈ lineReadings text line state, Clean name reading) →
      Matches name betweenLines macros others state other →
      Agree done (Matches name betweenLines macros others) (read text line state)
        (read' text line' other))
    (clean : arguments.length = definition.parameters.length →
      ∀ reading ∈ bodyReadings lineReadings read caller definition.line definition.body.toList
        (bindParameters state definition arguments), Clean name reading)
    (matched : Matches name [lineName] macros others state other) :
    Agree done (Matches name betweenLines macros others)
      (expandMacro read caller definition arguments state)
      (expandMacro read' caller { definition with line := line } arguments other) := by
  by_cases counted : arguments.length = definition.parameters.length
  · rw [expandMacro_run read caller state counted,
      @expandMacro_run { definition with line := line } arguments read' caller other counted]
    apply keepingEquates_agree matched
    exact expandBody_agree (known.bodies caller definition found) alike (clean counted)
      (bindParameters_matches line known found unnamed matched)
  · rw [expandMacro_mismatch read caller state counted,
      @expandMacro_mismatch { definition with line := line } arguments read' caller other counted]
    exact .error _ _ _ _

/-- Two assemblers read a portable line alike, at any depths that suffice for all macros
that are not yet entered. -/
theorem readLine_agree {evaluate : Expression.Evaluator} {mentions : Text → List Text}
    {name : Text} {macros others : Table MacroDef}
    (determined : Expression.DeterminedBy mentions evaluate) (shaped : isName name = true)
    (apart : name ∉ betweenLines) (known : MacrosMatch mentions name macros others)
    (depth depth' : Nat)
    {within : List Text} {text : Text} {line line' : Nat} {state other : State}
    (entered : ∀ caller ∈ within, macros.contains caller = true)
    (enough : macros.entries.length < depth + within.length)
    (enough' : macros.entries.length < depth' + within.length) (portable : Portable mentions text)
    (clean : ∀ reading ∈ readings evaluate depth within text line state, Clean name reading)
    (matched : Matches name betweenLines macros others state other) :
    Agree done (Matches name betweenLines macros others) (readLine evaluate depth text line state)
      (readLine evaluate depth' text line' other) := by
  induction depth generalizing depth' within text line line' state other with
  | zero =>
    have self := clean _ (self_mem_readings evaluate 0 within text line state)
    have few : within.length ≤ macros.entries.length := length_within self.2 entered
    omega
  | succ depth ih =>
    have self := clean _ (self_mem_readings evaluate (depth + 1) within text line state)
    have few : within.length ≤ macros.entries.length := length_within self.2 entered
    obtain ⟨depth',rfl⟩ : ∃ depth'', depth' = depth'' + 1 := ⟨depth' - 1,by omega⟩
    rw [readLine_run,readLine_run]
    apply agree_bind (statementFields_agree determined shaped apart portable self.1 matched)
    rintro _ fields after after' left _ ⟨rfl,unnamed⟩ matched'
    have wider : [lineName] ⊆ betweenLines := by
      intro key member
      exact List.mem_cons.mpr (.inl (List.mem_singleton.mp member))
    cases fields with
    | nil => exact .ok trivial (matches_weaken matched' wider)
    | cons caller arguments =>
      have other' : caller ≠ name := by rintro rfl; exact unnamed List.mem_cons_self
      have unnamed' : name ∉ arguments := fun member => unnamed (List.mem_cons_of_mem caller member)
      rcases macrosMatch_found known other' with ⟨absent,absent'⟩ | ⟨definition,start,found,found'⟩
      · rw [← matched'.macros] at absent
        rw [← matched'.others] at absent'
        rw [perform_emit _ _ _ absent,perform_emit _ _ _ absent']
        exact agree_mono (emit_agree matched' _ line line') fun _ _ kept => matches_weaken kept wider
      · have called : after.macros.find? caller = some definition := by rw [matched'.macros,found]
        have called' : after'.macros.find? caller = some { definition with line := start } := by
          rw [matched'.others,found']
        rw [perform_expand _ _ _ called,perform_expand _ _ _ called']
        -- The lines of the body are one macro deeper, and that macro is now entered.
        have entered' : ∀ entry ∈ caller :: within, macros.contains entry = true := by
          intro entry member
          rcases List.mem_cons.mp member with rfl | earlier
          · rw [Table.contains,found]
            rfl
          · exact entered entry earlier
        have inside : arguments.length = definition.parameters.length →
            ∀ reading ∈ bodyReadings (readings evaluate depth (caller :: within))
              (readLine evaluate depth) caller definition.line definition.body.toList
              (bindParameters after definition arguments), Clean name reading :=
          fun counted reading member => clean reading (body_mem_readings left called counted member)
        refine expandMacro_agree start known found unnamed' ?_ inside matched'
        intro text line line' state other portable clean matched
        exact ih depth' entered' (by rw [List.length_cons]; omega) (by rw [List.length_cons]; omega)
          portable clean matched

end Assembly
end WordMachine
