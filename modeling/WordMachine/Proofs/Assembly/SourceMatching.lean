import WordMachine.Proofs.Assembly.Frames
import WordMachine.Proofs.Assembly.Matching

/-! Whole sources read side by side: two assemblers that agree up to line numbers and one
macro of the second go on to agree, line by line, and link the same words. -/
namespace WordMachine.Assembly

/-- The states of the two assemblers between the lines of their sources. -/
structure Aligned (mentions : Text → List Text) (name : Text) (state other : State) : Prop where
  known : MacrosMatch mentions name state.macros other.macros
  matched : Matches name betweenLines state.macros other.macros state other

/-- A line that is portable once its literals are expanded, and then has no field that is
the name. -/
def Admissible (mentions : Text → List Text) (name raw : Text) : Prop :=
  ∀ text, expandLiterals (Text.dropReturn raw) = .ok text →
    Portable mentions text ∧ name ∉ Text.fields text

section macros

variable {mentions : Text → List Text} {name key : Text} {macros others : Table MacroDef}

theorem macrosMatch_contains (known : MacrosMatch mentions name macros others) (apart : key ≠ name) :
    others.contains key = macros.contains key := by
  have same := congrArg Option.isSome (known.same key apart)
  rwa [Option.isSome_map,Option.isSome_map] at same

theorem macrosMatch_insert {parameters : List Text} (line line' : Nat)
    (known : MacrosMatch mentions name macros others) (apart : key ≠ name)
    (unnamed : name ∉ parameters) :
    MacrosMatch mentions name (macros.insert key { line := line, parameters := parameters })
      (others.insert key { line := line', parameters := parameters }) where
  same := by
    intro other different
    rw [Table.find?_insert,Table.find?_insert]
    by_cases equal : key = other
    · rw [if_pos equal,if_pos equal]
      rfl
    · rw [if_neg equal,if_neg equal]
      exact known.same other different
  absent := by
    rw [Table.find?_insert,if_neg apart]
    exact known.absent
  parameters := by
    intro other definition found
    rw [Table.find?_insert] at found
    split at found
    · cases found
      exact unnamed
    · exact known.parameters other definition found
  bodies := by
    intro other definition found
    rw [Table.find?_insert] at found
    split at found
    · cases found
      simp
    · exact known.bodies other definition found

theorem macrosMatch_push {text : Text} (known : MacrosMatch mentions name macros others)
    (apart : key ≠ name) (portable : Portable mentions text) :
    MacrosMatch mentions name
      (macros.modify key fun definition => { definition with body := definition.body.push text })
      (others.modify key fun definition => { definition with body := definition.body.push text }) where
  same := by
    intro other different
    have same := known.same other different
    rw [Table.find?_modify,Table.find?_modify]
    by_cases equal : key = other
    · rw [if_pos equal,if_pos equal,Option.map_map,Option.map_map]
      have pushed := congrArg (Option.map fun definition : MacroDef =>
        { definition with body := definition.body.push text }) same
      rw [Option.map_map,Option.map_map] at pushed
      exact pushed
    · rw [if_neg equal,if_neg equal]
      exact same
  absent := by
    rw [Table.find?_modify,if_neg apart]
    exact known.absent
  parameters := by
    intro other definition found
    rw [Table.find?_modify] at found
    split at found
    · obtain ⟨before,held,rfl⟩ := Option.map_eq_some_iff.mp found
      exact known.parameters other before held
    · exact known.parameters other definition found
  bodies := by
    intro other definition found
    rw [Table.find?_modify] at found
    split at found
    · obtain ⟨before,held,rfl⟩ := Option.map_eq_some_iff.mp found
      intro text' member
      rw [Array.toList_push,List.mem_append,List.mem_singleton] at member
      rcases member with earlier | rfl
      · exact known.bodies other before held text' earlier
      · exact portable
    · exact known.bodies other definition found

end macros

section lines

variable {evaluate : Expression.Evaluator} {mentions : Text → List Text} {depth : Nat}
  {name : Text} {state other : State}

theorem aligned_note (aligned : Aligned mentions name state other) (text text' : Text) :
    Aligned mentions name (state.note text) (other.note text') := by
  have matched := matches_note aligned.matched text text'
  obtain ⟨log,same⟩ := note_log state text
  obtain ⟨log',same'⟩ := note_log other text'
  rw [same,same'] at matched ⊢
  exact ⟨aligned.known,matched⟩

theorem aligned_macros {macros others : Table MacroDef} (aligned : Aligned mentions name state other)
    (known : MacrosMatch mentions name macros others) :
    Aligned mentions name { state with macros := macros } { other with macros := others } :=
  ⟨known,{ aligned.matched with macros := rfl, others := rfl }⟩

theorem aligned_of_matches {after after' : State} (aligned : Aligned mentions name state other)
    (matched : Matches name betweenLines state.macros other.macros after after') :
    Aligned mentions name after after' := by
  have known := aligned.known
  rw [← matched.macros,← matched.others] at known
  refine ⟨known,?_⟩
  rw [matched.macros,matched.others]
  exact matched

/-- The same macro is open in both sources, and it is not the second one's own. -/
def SameOpened (name : Text) (opened opened' : Option Text) : Prop :=
  opened' = opened ∧ opened ≠ some name

theorem openMacro_agree {fields : List Text} (line line' : Nat) (unnamed : name ∉ fields)
    (aligned : Aligned mentions name state other) :
    Agree (fun key key' => key' = key ∧ key ≠ name) (Aligned mentions name) (openMacro line fields state)
      (openMacro line' fields other) := by
  rcases fields with _ | ⟨head,_ | ⟨key,parameters⟩⟩
  · exact .error _ _ _ _
  · exact .error _ _ _ _
  · have apart : key ≠ name := by rintro rfl; exact unnamed (by simp)
    have unnamed' : name ∉ parameters := fun member => unnamed (by simp [member])
    rw [openMacro_eq,openMacro_eq,macrosMatch_contains aligned.known apart]
    by_cases defined : state.macros.contains key = true
    · rw [if_pos defined,if_pos defined]
      exact .error _ _ _ _
    · rw [if_neg defined,if_neg defined]
      exact .ok ⟨rfl,apart⟩ (aligned_macros aligned
        (macrosMatch_insert _ _ aligned.known apart unnamed'))

variable (determined : Expression.DeterminedBy mentions evaluate) (shaped : isName name = true)
  (apart : name ∉ betweenLines)
include determined shaped apart

theorem statement_agree {text : Text} {line line' : Nat} (portable : Portable mentions text)
    (deep : state.macros.entries.length < depth)
    (clean : ∀ reading ∈ readings evaluate depth [] text line state, Clean name reading)
    (aligned : Aligned mentions name state other) :
    Agree done (Aligned mentions name) (readLine evaluate depth text line state)
      (readLine evaluate depth text line' other) := by
  have agreed := @readLine_agree evaluate mentions name _ _ determined shaped apart aligned.known
    depth depth [] text line line' state other (by simp) deep deep portable clean aligned.matched
  exact agree_mono agreed fun _ _ matched => aligned_of_matches aligned matched

theorem sourceLine_agree {text : Text} {opened : Option Text} {line line' : Nat}
    (portable : Portable mentions text) (unnamed : name ∉ Text.fields text)
    (unopened : opened ≠ some name) (deep : state.macros.entries.length < depth)
    (clean : opened = none → delimits text = false →
      ∀ reading ∈ readings evaluate depth [] text line state, Clean name reading)
    (aligned : Aligned mentions name state other) :
    Agree (SameOpened name) (Aligned mentions name)
      (sourceLine (readLine evaluate depth) opened line text state)
      (sourceLine (readLine evaluate depth) opened line' text other) := by
  by_cases opens : (Text.fields text).head? = some (".macro" : Text)
  · rw [sourceLine_open _ _ _ opens,sourceLine_open _ _ _ opens]
    cases opened with
    | some key => exact .error _ _ _ _
    | none =>
      apply agree_bind (openMacro_agree line line' unnamed aligned)
      rintro key _ after after' _ _ ⟨rfl,different⟩ aligned'
      refine .ok ⟨rfl,?_⟩ aligned'
      rintro same
      exact different (Option.some.inj same)
  · by_cases closes : (Text.fields text).head? = some (".endm" : Text)
    · rw [sourceLine_close _ _ _ closes,sourceLine_close _ _ _ closes]
      cases opened with
      | none => exact .error _ _ _ _
      | some key => exact .ok ⟨rfl,by simp⟩ aligned
    · have ordinary : delimits text = false := by simp [delimits,opens,closes]
      cases opened with
      | some key =>
        have different : key ≠ name := by rintro rfl; exact unopened rfl
        rw [sourceLine_body ordinary,sourceLine_body ordinary]
        exact .ok ⟨rfl,unopened⟩
          (aligned_macros aligned (macrosMatch_push aligned.known different portable))
      | none =>
        rw [sourceLine_statement ordinary,sourceLine_statement ordinary]
        apply agree_bind
          (statement_agree determined shaped apart portable deep (clean rfl ordinary) aligned)
        intro _ _ after after' _ _ _ aligned'
        exact .ok ⟨rfl,by simp⟩ aligned'

theorem sourceStep_agree {raw : Text} {opened : Option Text} {number number' : Nat}
    (before before' : Text) (admissible : Admissible mentions name raw)
    (unopened : opened ≠ some name) (deep : state.macros.entries.length < depth)
    (clean : ∀ reading ∈ stepReadings evaluate depth number opened raw state, Clean name reading)
    (aligned : Aligned mentions name state other) :
    Agree (fun next next' => next' = next ∧ next.2 ≠ some name) (Aligned mentions name)
      (sourceStep (readLine evaluate depth) number before opened raw state)
      (sourceStep (readLine evaluate depth) number' before' opened raw other) := by
  by_cases long : lineLimit ≤ raw.length
  · rw [sourceStep_long _ _ _ _ long,sourceStep_long _ _ _ _ long]
    exact .error _ _ _ _
  · cases literals : expandLiterals (Text.dropReturn raw) with
    | error text =>
      rw [sourceStep_misquoted _ _ _ _ long literals,sourceStep_misquoted _ _ _ _ long literals]
      exact .error _ _ _ _
    | ok text =>
      obtain ⟨portable,unnamed⟩ := admissible text literals
      have clean' : opened = none → delimits text = false →
          ∀ reading ∈ readings evaluate depth [] text (number + 1)
            (numbered state (number + 1) raw), Clean name reading := by
        rintro rfl ordinary reading member
        exact clean reading (mem_stepReadings literals ordinary member)
      have noted : Aligned mentions name (numbered state (number + 1) raw)
          (numbered other (number' + 1) raw) := aligned_note aligned _ _
      have deep' : (numbered state (number + 1) raw).macros.entries.length < depth := by
        rw [numbered_macros]
        exact deep
      have agreed := @sourceLine_agree evaluate mentions depth name _ _ determined shaped apart text
        opened (number + 1) (number' + 1) portable unnamed unopened deep' clean' noted
      rw [sourceStep_eq _ _ _ _ long literals,sourceStep_eq _ _ _ _ long literals]
      apply agree_bind (agree_marks (marks_atLine (number + 1) text _)
        (marks_atLine (number' + 1) text _) agreed)
      rintro opened' _ after after' _ _ ⟨rfl,unopened'⟩ aligned'
      exact .ok ⟨rfl,unopened'⟩ aligned'

theorem readLines_agree {lines : List Text} {opened : Option Text} {number number' : Nat}
    {before before' : Text} (admissible : ∀ raw ∈ lines, Admissible mentions name raw)
    (unopened : opened ≠ some name) (deep : state.macros.entries.length + lines.length ≤ depth)
    (clean : ∀ reading ∈ sourceReadings evaluate depth number before opened lines state,
      Clean name reading)
    (aligned : Aligned mentions name state other) :
    Agree (fun next next' => SameOpened name next.2 next'.2) (Aligned mentions name)
      (readLines (readLine evaluate depth) number before opened lines state)
      (readLines (readLine evaluate depth) number' before' opened lines other) := by
  -- A line adds at most one macro, so that the depth suffices for those of the lines to come.
  induction lines generalizing number number' before before' opened state other with
  | nil => exact .ok ⟨rfl,unopened⟩ aligned
  | cons raw rest ih =>
    rw [List.length_cons] at deep
    have step := @sourceStep_agree evaluate mentions depth name state other determined shaped apart
      raw opened number number' before before' (admissible raw List.mem_cons_self) unopened
      (by omega)
      (fun reading member => clean reading (step_mem_sourceReadings before rest member)) aligned
    rw [readLines,readLines]
    apply agree_bind step
    rintro next _ after after' ran _ ⟨rfl,unopened'⟩ aligned'
    have count := sourceStep_count ran
    exact ih (fun raw member => admissible raw (List.mem_cons_of_mem _ member)) unopened'
      (by omega) (fun reading member => clean reading (rest_mem_sourceReadings ran member)) aligned'

omit determined shaped apart in
theorem sourceLines_eq {read : Reader} (number : Nat) (before : Text) (opened : Option Text)
    (lines : List Text) :
    sourceLines read number before opened lines =
      readLines read number before opened lines >>= fun next =>
        sourceLines read (number + lines.length) next.1 next.2 [] := by
  have split := @sourceLines_append read number before opened lines []
  rwa [List.append_nil] at split

theorem sourceLines_agree {lines : List Text} {opened : Option Text} {number number' : Nat}
    {before before' : Text} (admissible : ∀ raw ∈ lines, Admissible mentions name raw)
    (unopened : opened ≠ some name) (deep : state.macros.entries.length + lines.length ≤ depth)
    (clean : ∀ reading ∈ sourceReadings evaluate depth number before opened lines state,
      Clean name reading)
    (aligned : Aligned mentions name state other) :
    Agree done (Aligned mentions name)
      (sourceLines (readLine evaluate depth) number before opened lines state)
      (sourceLines (readLine evaluate depth) number' before' opened lines other) := by
  rw [sourceLines_eq,sourceLines_eq]
  apply agree_bind
    (readLines_agree determined shaped apart admissible unopened deep clean aligned)
  rintro next next' after after' _ _ ⟨same,-⟩ aligned'
  rw [same,sourceLines,sourceLines]
  cases next.2 with
  | none => exact .ok trivial aligned'
  | some key => exact .error _ _ _ _

end lines

section linking

variable {labels : Table Word} {links : List Link}

theorem modify_unnumbered (statements : Array Statement) (index place : Nat) (addr : Word) :
    (statements.modify index fun statement =>
        { statement with words := statement.words.set place addr }).map Statement.unnumbered =
      (statements.map Statement.unnumbered).modify index fun statement =>
        { statement with words := statement.words.set place addr } := by
  apply Array.ext_getElem?
  intro other
  rw [Array.getElem?_map,Array.getElem?_modify,Array.getElem?_modify,Array.getElem?_map]
  split
  · rw [Option.map_map,Option.map_map]
    rfl
  · rfl

/-- Linking does not look at line numbers, except to report a label that is missing. -/
theorem resolveAll_unnumbered (labels : Table Word) (links : List Link) (statements : Array Statement) :
    (resolveAll labels links statements).toOption.map (Array.map Statement.unnumbered) =
      (resolveAll labels links (statements.map Statement.unnumbered)).toOption := by
  induction links generalizing statements with
  | nil => rfl
  | cons link rest ih =>
    rw [resolveAll,resolveAll]
    cases found : labels.find? link.label with
    | some addr =>
      simp only [resolve,found]
      rw [ih,modify_unnumbered]
    | none =>
      have fails : ∀ statements : Array Statement,
          ∃ error, resolve labels statements link = .error error := by
        intro statements
        simp only [resolve,found]
        split
        · exact ⟨_,rfl⟩
        · exact ⟨_,rfl⟩
      obtain ⟨error,failed⟩ := fails statements
      obtain ⟨error',failed'⟩ := fails (statements.map Statement.unnumbered)
      rw [failed,failed']
      rfl

end linking

end WordMachine.Assembly
