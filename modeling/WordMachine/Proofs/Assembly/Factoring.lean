import WordMachine.Proofs.Assembly.MacroBody
import WordMachine.Proofs.Assembly.TwoPasses
import WordMachine.Proofs.Text.Lines

/-! Lines of a source moved into a macro that is called in their place. The source with the
macro is accepted if and only if the other is, and gives the same words and labels. -/
namespace WordMachine.Assembly

/-- The line that opens the definition of a macro without parameters. -/
def macroLine (name : Text) : Text := spaced [(".macro" : Text),name]

def closingLine : Text := ".endm"

/-- The lines of a source with some of them moved into a macro that is called in their place. -/
def factor (name : Text) (earlier body rest : List Text) : List Text :=
  earlier ++ (macroLine name :: (body ++ (closingLine :: name :: rest)))

theorem written_spaced {words : List Text} (plain : ∀ word ∈ words, PlainWord word)
    (short : (spaced words).length < lineLimit) : Written (spaced words) (spaced words) := by
  refine ⟨short,?_⟩
  rw [Text.dropReturn_absent (spaced_absent plain (by decide) (by decide))]
  exact expandLiterals_spaced plain

theorem length_macroLine (name : Text) : (macroLine name).length = name.length + 7 := by
  rw [macroLine,spaced_cons,spaced_singleton,List.length_append,List.length_cons,Nat.add_comm]
  rfl

theorem macroLine_plain {name : Text} (shaped : isName name = true) :
    ∀ word ∈ [(".macro" : Text),name], PlainWord word := by
  have opening : PlainWord (".macro" : Text) := ⟨by decide,by decide +kernel⟩
  intro word member
  simp only [List.mem_cons,List.not_mem_nil,or_false] at member
  rcases member with rfl | rfl
  · exact opening
  · exact plainWord_name shaped

theorem name_plain {name : Text} (shaped : isName name = true) : ∀ word ∈ [name], PlainWord word := by
  intro word member
  rw [List.mem_singleton.mp member]
  exact plainWord_name shaped

theorem fields_name {name : Text} (shaped : isName name = true) : Text.fields name = [name] := by
  have same := fields_spaced (name_plain shaped)
  rwa [spaced_singleton] at same

theorem written_name {name : Text} (shaped : isName name = true) (short : name.length < lineLimit) :
    Written name name := by
  have same := written_spaced (name_plain shaped)
  rw [spaced_singleton] at same
  exact same short

section collecting

variable {reader : Reader} {mentions : Text → List Text} {name : Text} {state other : State}
  {line : Nat} {body : List Text}

/-- The second assembler while it collects the body of its own macro, beside the first one
that waits for it. -/
structure Collecting (mentions : Text → List Text) (name : Text) (line : Nat) (body : List Text)
    (state other : State) : Prop where
  aligned : Aligned mentions name state other
  found : other.macros.find? name =
    some { line := line, parameters := [], body := body.toArray }

theorem aligned_numbered (aligned : Aligned mentions name state other) (number : Nat) (raw : Text) :
    Aligned mentions name state (numbered other number raw) := by
  obtain ⟨log,same⟩ := note_log other (Text.ofNat number ++ (": " : Text) ++ Text.dropReturn raw)
  rw [numbered,same]
  exact ⟨aligned.known,{ aligned.matched with }⟩

theorem collecting_numbered (collecting : Collecting mentions name line body state other) (number : Nat)
    (raw : Text) : Collecting mentions name line body state (numbered other number raw) := by
  refine ⟨aligned_numbered collecting.aligned number raw,?_⟩
  rw [numbered_macros]
  exact collecting.found

/-- What the second assembler does to its own macro does not concern the first. -/
theorem aligned_own {others : Table MacroDef} (aligned : Aligned mentions name state other)
    (same : ∀ key, key ≠ name → others.find? key = other.macros.find? key) :
    Aligned mentions name state { other with macros := others } where
  known :=
    { aligned.known with
      same := fun key apart => by rw [same key apart]; exact aligned.known.same key apart }
  matched := { aligned.matched with others := rfl }

theorem collecting_open {number : Nat} (before : Text) (shaped : isName name = true)
    (short : (macroLine name).length < lineLimit) (free : other.macros.find? name = none)
    (aligned : Aligned mentions name state other) :
    ∃ after, sourceStep reader number before none (macroLine name) other =
        .ok (macroLine name,some name) after ∧
      Collecting mentions name (number + 1 + 1) [] state after := by
  have plain := macroLine_plain shaped
  have fields : Text.fields (macroLine name) = [(".macro" : Text),name] := fields_spaced plain
  have written : Written (macroLine name) (macroLine name) := written_spaced plain short
  have noted := aligned_numbered aligned (number + 1) (macroLine name)
  have absent : (numbered other (number + 1) (macroLine name)).macros.contains name = false := by
    rw [numbered_macros,Table.contains,free]
    rfl
  have opened := @sourceLine_open reader _ none (number + 1) (numbered other (number + 1) (macroLine name))
    (by rw [fields]; rfl)
  rw [if_neg (by decide),fields,bind_of_ok (by rw [openMacro_eq,if_neg (by rw [absent]; decide)])]
    at opened
  refine ⟨_,sourceStep_run before written.short written.literals opened,?_,?_⟩
  · apply aligned_own noted
    intro key apart
    rw [Table.find?_insert,if_neg (Ne.symm apart)]
  · rw [Table.find?_insert,if_pos rfl]

theorem collecting_push {number : Nat} {raw text : Text} (before : Text) (written : Written raw text)
    (ordinary : delimits text = false) (collecting : Collecting mentions name line body state other) :
    ∃ after, sourceStep reader number before (some name) raw other = .ok (text,some name) after ∧
      Collecting mentions name line (body ++ [text]) state after := by
  have noted := collecting_numbered collecting (number + 1) raw
  refine ⟨_,sourceStep_run before written.short written.literals (sourceLine_body ordinary _ _ name),
    ?_,?_⟩
  · apply aligned_own noted.aligned
    intro key apart
    rw [Table.find?_modify,if_neg (Ne.symm apart)]
  · rw [Table.find?_modify,if_pos rfl,noted.found]
    simp

theorem collecting_lines {lines texts : List Text} {number : Nat} {before : Text}
    (written : List.Forall₂ Written lines texts) (ordinary : ∀ text ∈ texts, delimits text = false)
    (collecting : Collecting mentions name line body state other) :
    ∃ next after, readLines reader number before (some name) lines other = .ok next after ∧
      next.2 = some name ∧ Collecting mentions name line (body ++ texts) state after := by
  induction written generalizing number before body other with
  | nil =>
    refine ⟨_,_,rfl,rfl,?_⟩
    rwa [List.append_nil]
  | @cons raw text lines texts first rest ih =>
    obtain ⟨between,ran,pushed⟩ := collecting_push before first (ordinary text List.mem_cons_self)
      collecting
    obtain ⟨next,after,read,opened,collected⟩ :=
      ih (fun text member => ordinary text (List.mem_cons_of_mem _ member)) pushed
    refine ⟨next,after,?_,opened,?_⟩
    · rw [readLines,bind_of_ok ran]
      exact read
    · rwa [List.append_assoc] at collected

theorem collecting_close {number : Nat} (before : Text)
    (collecting : Collecting mentions name line body state other) :
    ∃ after, sourceStep reader number before (some name) closingLine other = .ok (closingLine,none) after ∧
      Collecting mentions name line body state after := by
  have literals : expandLiterals (Text.dropReturn closingLine) = .ok closingLine := by decide
  have closed := @sourceLine_close reader _ (some name) (number + 1)
    (numbered other (number + 1) closingLine) (by decide : (Text.fields closingLine).head? = _)
  rw [if_neg (by simp)] at closed
  exact ⟨_,sourceStep_run before (by decide) literals closed,
    collecting_numbered collecting (number + 1) closingLine⟩

end collecting

section call

variable {evaluate : Expression.Evaluator} {mentions : Text → List Text} {depth : Nat}
  {name : Text} {state other : State} {line : Nat} {texts : List Text}

theorem matches_located_right {macros others : Table MacroDef} (line : Nat)
    (matched : Matches name betweenLines macros others state other) :
    Matches name betweenLines macros others state (located other line) :=
  { matched with
    equates := fun key shown =>
      (located_equates other line key shown).trans (matched.equates key shown) }

/-- The call of the macro, down to the lines of its body. -/
theorem readLine_call {number : Nat} (shaped : isName name = true)
    (apart : name ∉ betweenLines) (undirected : name ≠ (".equ" : Text))
    (collecting : Collecting mentions name line texts state other) :
    readLine evaluate (depth + 1) name number other =
      keepingEquates (expandBody (readLine evaluate depth) name line texts)
        (located other number) := by
  have expanded : expandEmbedded evaluate (located other number) name = .ok name := by
    have same := expandEmbedded_spaced evaluate (name_plain shaped) (located other number)
    rwa [spaced_singleton] at same
  have unequated : ∀ field ∈ [name], (located other number).equates.find? field = none := by
    intro field member
    rw [List.mem_singleton.mp member,located_equates other number name apart,
      collecting.aligned.matched.equates name apart]
    exact collecting.aligned.matched.unequated
  have found : (located other number).macros.find? name =
      some { line := line, parameters := [], body := texts.toArray } := collecting.found
  have labelled := takeLabels_statement [] (located other number)
    (unlabelled_plain (plainWord_name shaped))
  rw [readLine_plain expanded (fields_name shaped) undirected unequated,bind_of_ok labelled,
    perform_expand _ _ _ found,expandMacro_run _ _ _ rfl]
  rfl

/-- Where the first assembler's equates are what they were, the second puts its own back. -/
theorem agree_keepingEquates {α : Type} {values : α → Unit → Prop} {macros others : Table MacroDef}
    {first : Assemble α} {second : Assemble Unit}
    (agreed : Agree values (Matches name betweenLines macros others) (first state) (second other))
    (held : ∀ value after, first state = .ok value after → SameEquates state after)
    (matched : Matches name betweenLines macros others state other) :
    Agree values (Matches name betweenLines macros others) (first state)
      (keepingEquates second other) := by
  unfold keepingEquates
  cases ran : first state with
  | ok value after =>
    cases ran' : second other with
    | ok value' after' =>
      rw [ran,ran'] at agreed
      cases agreed with
      | ok same related =>
        refine .ok same { related with equates := ?_ }
        intro key shown
        rw [held value after ran key shown]
        exact matched.equates key shown
    | error error after' => rw [ran,ran'] at agreed; cases agreed
  | error error after =>
    cases ran' : second other with
    | ok value' after' => rw [ran,ran'] at agreed; cases agreed
    | error error' after' => exact .error _ _ _ _

/-- The words that make a line something other than a statement. -/
def lineDirectives : List Text := [".macro",".endm",".equ"]

/-- A line that is a statement, or holds nothing but labels. -/
def Movable (text : Text) : Prop := ∀ head ∈ lineDirectives, (Text.fields text).head? ≠ some head

instance : DecidablePred Movable := fun text =>
  inferInstanceAs (Decidable (∀ head ∈ lineDirectives, (Text.fields text).head? ≠ some head))

theorem movable_ordinary {text : Text} (movable : Movable text) : delimits text = false := by
  have unopened := movable ".macro" (by decide)
  have unclosed := movable ".endm" (by decide)
  simp [delimits,unopened,unclosed]

theorem movable_unequated {text : Text} (movable : Movable text) :
    (Text.fields text).head? ≠ some (".equ" : Text) := movable ".equ" (by decide)

theorem name_movable (shaped : isName name = true) (undirected : name ∉ lineDirectives) :
    Movable name := by
  intro head member
  rw [fields_name shaped,List.head?_cons]
  rintro same
  exact undirected (Option.some.inj same ▸ member)

/-- The lines of the body on one side, and on the other the call of the macro. -/
theorem call_agree {lines : List Text} {number number' : Nat} {before : Text} (before' : Text)
    (determined : Expression.DeterminedBy mentions evaluate) (shaped : isName name = true)
    (apart : name ∉ betweenLines) (undirected : name ∉ lineDirectives)
    (short : name.length < lineLimit) (deep : state.macros.entries.length < depth)
    (written : List.Forall₂ Written lines texts)
    (portable : ∀ text ∈ texts, Portable mentions text) (movable : ∀ text ∈ texts, Movable text)
    (clean : ∀ reading ∈ sourceReadings evaluate (depth + 1) number before none lines state,
      Clean name reading)
    (collecting : Collecting mentions name line texts state other) :
    Agree (fun next next' => next.2 = none ∧ next'.2 = none) (Aligned mentions name)
      (readLines (readLine evaluate (depth + 1)) number before none lines state)
      (sourceStep (readLine evaluate (depth + 1)) number' before' none name other) := by
  have written' := written_name shaped short
  have noted := collecting_numbered collecting (number' + 1) name
  have matched := matches_located_right (number' + 1) noted.aligned.matched
  have ordinary := fun text member => movable_ordinary (movable text member)
  have body := @bodyLines_agree name _ _ state _ evaluate mentions depth determined shaped apart
    noted.aligned.known deep lines texts number line before name written portable ordinary clean
    matched
  have kept := agree_keepingEquates body
    (fun next after read => readLines_equates written ordinary
      (fun text member => movable_unequated (movable text member)) read) matched
  have called := @readLine_call evaluate mentions depth name state _ line texts (number' + 1) shaped
    apart (fun same => undirected (same ▸ by decide)) noted
  rw [← called] at kept
  have stated : Agree (fun next opened => next.2 = none ∧ opened = none) (Aligned mentions name)
      (readLines (readLine evaluate (depth + 1)) number before none lines state)
      (sourceLine (readLine evaluate (depth + 1)) none (number' + 1) name
        (numbered other (number' + 1) name)) := by
    rw [sourceLine_statement (movable_ordinary (name_movable shaped undirected)),
      ← bind_pure (readLines (readLine evaluate (depth + 1)) number before none lines)]
    apply agree_bind kept
    intro next _ after after' _ _ unopened matched'
    exact .ok ⟨unopened,rfl⟩ (aligned_of_matches noted.aligned matched')
  rw [sourceStep_eq _ _ _ _ (Nat.not_le.mpr written'.short) written'.literals,
    ← bind_pure (readLines (readLine evaluate (depth + 1)) number before none lines)]
  apply agree_bind (agree_marks (marks_self _) (marks_atLine (number' + 1) name _) stated)
  intro next opened after after' _ _ unopened aligned'
  exact .ok unopened aligned'

end call

section source

variable {reader : Reader}

theorem sourceLines_unreadable {lines : List Text} {raw : Text} (member : raw ∈ lines)
    (unreadable : ∀ text, ¬ Written raw text) (number : Nat) (before : Text) (opened : Option Text)
    (state : State) :
    ∃ error after, sourceLines reader number before opened lines state = .error error after := by
  induction lines generalizing number before opened state with
  | nil => cases member
  | cons first rest ih =>
    rw [sourceLines_cons]
    cases ran : sourceStep reader number before opened first state with
    | error error after => exact ⟨error,after,bind_of_error ran⟩
    | ok next after =>
      rw [bind_of_ok ran]
      rcases List.mem_cons.mp member with rfl | later
      · exact absurd (sourceStep_success ran).1 (unreadable next.1)
      · exact ih later _ _ _ _

theorem written_or_unreadable (lines : List Text) :
    (∃ texts, List.Forall₂ Written lines texts) ∨ ∃ raw ∈ lines, ∀ text, ¬ Written raw text := by
  induction lines with
  | nil => exact .inl ⟨[],.nil⟩
  | cons raw rest ih =>
    by_cases readable : ∃ text, Written raw text
    · obtain ⟨text,written⟩ := readable
      rcases ih with ⟨texts,later⟩ | ⟨other,member,unreadable⟩
      · exact .inl ⟨text :: texts,.cons written later⟩
      · exact .inr ⟨other,List.mem_cons_of_mem _ member,unreadable⟩
    · exact .inr ⟨raw,List.mem_cons_self,not_exists.mp readable⟩

theorem written_of_mem {lines texts : List Text} (written : List.Forall₂ Written lines texts)
    {text : Text} (member : text ∈ texts) : ∃ raw ∈ lines, Written raw text := by
  induction written with
  | nil => cases member
  | @cons raw first lines texts head rest ih =>
    rcases List.mem_cons.mp member with rfl | later
    · exact ⟨raw,List.mem_cons_self,head⟩
    · obtain ⟨raw',listed,readable⟩ := ih later
      exact ⟨raw',List.mem_cons_of_mem _ listed,readable⟩

def expandedLines (lines : List Text) : List Text :=
  lines.filterMap fun raw => (expandLiterals (Text.dropReturn raw)).toOption

theorem mem_expandedLines {lines : List Text} {raw text : Text} (member : raw ∈ lines)
    (literals : expandLiterals (Text.dropReturn raw) = .ok text) : text ∈ expandedLines lines :=
  List.mem_filterMap.mpr ⟨raw,member,by rw [literals]; rfl⟩

/-- Whether the definition of a macro is open after some lines, where `opened` says whether
one is open before them. -/
def leavesOpen (opened : Bool) : List Text → Bool
  | [] => opened
  | text :: rest =>
    if (Text.fields text).head? = some (".macro" : Text) then leavesOpen true rest
    else if (Text.fields text).head? = some (".endm" : Text) then leavesOpen false rest
    else leavesOpen opened rest

theorem sourceLine_opened {opened next : Option Text} {line : Nat} {text : Text}
    {state after : State} (read : sourceLine reader opened line text state = .ok next after) :
    next.isSome =
      if (Text.fields text).head? = some (".macro" : Text) then true
      else if (Text.fields text).head? = some (".endm" : Text) then false
      else opened.isSome := by
  by_cases opens : (Text.fields text).head? = some (".macro" : Text)
  · rw [if_pos opens]
    rw [sourceLine_open _ _ _ opens] at read
    split at read
    · cases read
    · obtain ⟨key,between,-,returned⟩ := bind_success read
      cases returned
      rfl
  · rw [if_neg opens]
    by_cases closes : (Text.fields text).head? = some (".endm" : Text)
    · rw [if_pos closes]
      rw [sourceLine_close _ _ _ closes] at read
      split at read
      · cases read
      · cases read
        rfl
    · rw [if_neg closes]
      have ordinary : delimits text = false := by simp [delimits,opens,closes]
      cases opened with
      | some key =>
        rw [sourceLine_body ordinary] at read
        cases read
        rfl
      | none =>
        rw [sourceLine_statement ordinary] at read
        obtain ⟨_,between,-,returned⟩ := bind_success read
        cases returned
        rfl

theorem readLines_opened {lines : List Text} {number : Nat} {before : Text} {opened : Option Text}
    {state after : State} {next : Text × Option Text}
    (read : readLines reader number before opened lines state = .ok next after) :
    next.2.isSome = leavesOpen opened.isSome (expandedLines lines) := by
  induction lines generalizing number before opened state with
  | nil =>
    cases read
    rfl
  | cons raw rest ih =>
    rw [readLines] at read
    obtain ⟨step,between,ran,read⟩ := bind_success read
    obtain ⟨written,line⟩ := sourceStep_success ran
    have first : expandedLines (raw :: rest) = step.1 :: expandedLines rest := by
      simp [expandedLines,written.literals,Except.toOption]
    rw [ih read,sourceLine_opened line,first,leavesOpen]
    split
    · rfl
    · split
      · rfl
      · rfl

variable {evaluate : Expression.Evaluator} {mentions : Text → List Text} {depth : Nat}
  {name : Text} {state : State} {body rest : List Text}

/-- The lines of a body and what follows them, and the same lines moved into the macro. -/
theorem moved_agree {number : Nat} {before : Text}
    (determined : Expression.DeterminedBy mentions evaluate) (shaped : isName name = true)
    (apart : name ∉ betweenLines) (undirected : name ∉ lineDirectives)
    (short : (macroLine name).length < lineLimit)
    (deep : state.macros.entries.length + (body ++ rest).length < depth)
    (admissible : ∀ raw ∈ body ++ rest, Admissible mentions name raw)
    (movable : ∀ text ∈ expandedLines body, Movable text)
    (clean : ∀ reading ∈ sourceReadings evaluate (depth + 1) number before none (body ++ rest)
      state, Clean name reading)
    (aligned : Aligned mentions name state state) :
    Agree done (Aligned mentions name)
      (sourceLines (readLine evaluate (depth + 1)) number before none (body ++ rest) state)
      (sourceLines (readLine evaluate (depth + 1)) number before none
        (macroLine name :: (body ++ (closingLine :: name :: rest))) state) := by
  rw [List.length_append] at deep
  rcases written_or_unreadable body with ⟨texts,written⟩ | ⟨raw,member,unreadable⟩
  · have portable : ∀ text ∈ texts, Portable mentions text := by
      intro text member
      obtain ⟨raw,listed,readable⟩ := written_of_mem written member
      exact (admissible raw (List.mem_append_left _ listed) text readable.literals).1
    have movable' : ∀ text ∈ texts, Movable text := by
      intro text member
      obtain ⟨raw,listed,readable⟩ := written_of_mem written member
      exact movable text (mem_expandedLines listed readable.literals)
    have short' : name.length < lineLimit := by
      rw [length_macroLine] at short
      omega
    obtain ⟨second,opened,collecting⟩ := @collecting_open (readLine evaluate (depth + 1)) mentions
      name state state number before shaped short aligned.known.absent aligned
    obtain ⟨next,third,collected,still,collecting⟩ :=
      @collecting_lines (readLine evaluate (depth + 1)) _ _ _ _ _ _ _ _ (number + 1)
        (macroLine name) written (fun text member => movable_ordinary (movable' text member))
        collecting
    obtain ⟨fourth,closed,collecting⟩ := @collecting_close (readLine evaluate (depth + 1)) _ name
      _ _ _ _ (number + 1 + body.length) next.1 collecting
    rw [List.nil_append] at collecting
    have called := @call_agree evaluate mentions depth name _ _ _ _ body number
      (number + 1 + body.length + 1) before closingLine determined shaped apart undirected short'
      (by omega) written portable movable'
      (fun reading member => clean reading (earlier_mem_sourceReadings rest member)) collecting
    rw [sourceLines_append,sourceLines_cons,bind_of_ok opened,sourceLines_append,
      bind_of_ok collected,still,sourceLines_cons,bind_of_ok closed,sourceLines_cons]
    apply agree_bind called
    rintro ⟨last,_⟩ ⟨last',_⟩ after after' read _ ⟨rfl,rfl⟩ aligned'
    have count := readLines_count read
    apply sourceLines_agree determined shaped apart
      (fun raw member => admissible raw (List.mem_append_right _ member)) (by simp) (by omega) _
      aligned'
    intro reading member
    exact clean reading (later_mem_sourceReadings read member)
  · obtain ⟨error,after,failed⟩ := @sourceLines_unreadable (readLine evaluate (depth + 1)) _ _
      (List.mem_append_left rest member) unreadable number before none state
    obtain ⟨error',after',failed'⟩ := @sourceLines_unreadable (readLine evaluate (depth + 1)) _ _
      (List.mem_cons_of_mem (macroLine name)
        (List.mem_append_left (closingLine :: name :: rest) member))
      unreadable number before none state
    rw [failed,failed']
    exact .error _ _ _ _

end source

section start

variable {mentions : Text → List Text} {name : Text} {predefines : Table Text}

theorem start_found {verbose : Bool} {key value : Text}
    (found : (State.start predefines verbose).equates.find? key = some value) :
    (key ∈ machineDefines.map Prod.fst ++ betweenLines ∧ ∃ n, value = Text.ofNat n) ∨
      (key,value) ∈ predefines.entries := by
  rcases Table.find?_insertAll found with member | held
  · simp only [List.flatten_cons,List.flatten_nil,List.append_nil,List.mem_append] at member
    rcases member with machine | between | predefined
    · refine .inl ⟨List.mem_append_left _ (List.mem_map_of_mem machine),?_⟩
      simp only [machineDefines,List.mem_cons,List.not_mem_nil,or_false,Prod.mk.injEq] at machine
      rcases machine with ⟨-,rfl⟩ | ⟨-,rfl⟩ | ⟨-,rfl⟩
      · exact ⟨_,rfl⟩
      · exact ⟨_,rfl⟩
      · exact ⟨_,rfl⟩
    · simp only [List.mem_cons,List.not_mem_nil,or_false,Prod.mk.injEq] at between
      rcases between with ⟨rfl,rfl⟩ | ⟨rfl,rfl⟩
      · exact .inl ⟨List.mem_append_right _ (by decide),0,by decide⟩
      · exact .inl ⟨List.mem_append_right _ (by decide),0,by decide⟩
    · exact .inr predefined
  · cases held

theorem start_aligned (shaped : isName name = true)
    (unequated : name ∉ machineDefines.map Prod.fst ++ betweenLines)
    (unpredefined : ∀ entry ∈ predefines.entries, entry.1 ≠ name ∧ entry.2 ≠ name) (verbose : Bool) :
    Aligned mentions name (State.start predefines verbose) (State.start predefines verbose) where
  known :=
    { same := fun _ _ => rfl
      absent := rfl
      parameters := by
        intro key definition found
        cases found
      bodies := by
        intro key definition found
        cases found }
  matched :=
    { labels := rfl
      statements := rfl
      links := rfl
      equates := fun _ _ => rfl
      unequated := by
        rw [Option.eq_none_iff_forall_not_mem]
        intro value found
        rcases start_found found with ⟨own,-⟩ | predefined
        · exact unequated own
        · exact (unpredefined _ predefined).1 rfl
      values := by
        intro key value found
        rcases start_found found with ⟨-,n,rfl⟩ | predefined
        · exact ofNat_ne_name shaped n
        · exact (unpredefined _ predefined).2
      macros := rfl
      others := rfl }

end start

/-- A name that a source can be given for a new macro: a label could be named so, no line
and no equate uses it, and no expression makes a field of it. -/
structure Fresh (evaluate : Expression.Evaluator) (depth : Nat) (assembler : Assembler)
    (lines : List Text) (name : Text) : Prop where
  shaped : isName name = true
  undirected : name ∉ lineDirectives
  unequated : name ∉ machineDefines.map Prod.fst ++ betweenLines
  unpredefined : ∀ entry ∈ assembler.predefines.entries, entry.1 ≠ name ∧ entry.2 ≠ name
  unused : ∀ text ∈ expandedLines lines, name ∉ Text.fields text
  unformed : ∀ reading ∈ sourceReadings evaluate depth 0 [] none lines
    (State.start assembler.predefines assembler.verbose), name ∉ reading.fields

section parse

variable {evaluate : Expression.Evaluator} {mentions : Text → List Text} {depth : Nat}
  {assembler : Assembler} {source factored name : Text} {earlier body rest : List Text}

theorem factored_agree (determined : Expression.DeterminedBy mentions evaluate)
    (fresh : Fresh evaluate (depth + 1) assembler (earlier ++ (body ++ rest)) name)
    (short : (macroLine name).length < lineLimit)
    (deep : (earlier ++ (body ++ rest)).length < depth)
    (closed : leavesOpen false (expandedLines earlier) = false)
    (movable : ∀ text ∈ expandedLines body, Movable text)
    (portable : ∀ text ∈ expandedLines (earlier ++ (body ++ rest)), Portable mentions text)
    (once : ∀ reading ∈ sourceReadings evaluate (depth + 1) 0 [] none (earlier ++ (body ++ rest))
      (State.start assembler.predefines assembler.verbose), reading.within.Nodup) :
    Agree done (Aligned mentions name)
      (sourceLines (readLine evaluate (depth + 1)) 0 [] none (earlier ++ (body ++ rest))
        (State.start assembler.predefines assembler.verbose))
      (sourceLines (readLine evaluate (depth + 1)) 0 [] none (factor name earlier body rest)
        (State.start assembler.predefines assembler.verbose)) := by
  have apart : name ∉ betweenLines := fun member =>
    fresh.unequated (List.mem_append_right _ member)
  have admissible : ∀ raw ∈ earlier ++ (body ++ rest), Admissible mentions name raw :=
    fun raw member text literals =>
      have listed := mem_expandedLines member literals
      ⟨portable text listed,fresh.unused text listed⟩
  have clean : ∀ reading ∈ sourceReadings evaluate (depth + 1) 0 [] none
      (earlier ++ (body ++ rest)) (State.start assembler.predefines assembler.verbose),
      Clean name reading :=
    fun reading member => ⟨fresh.unformed reading member,once reading member⟩
  have start := @start_aligned mentions name _ fresh.shaped fresh.unequated fresh.unpredefined
    assembler.verbose
  have empty : (State.start assembler.predefines assembler.verbose).macros.entries.length = 0 := rfl
  rw [List.length_append] at deep
  -- Up to the body both sources are one, so that its reading agrees with itself.
  have agreed := @readLines_agree evaluate mentions (depth + 1) name _ _ determined fresh.shaped
    apart earlier none 0 0 [] [] (fun raw member => admissible raw (List.mem_append_left _ member))
    (by simp) (by omega)
    (fun reading member => clean reading (earlier_mem_sourceReadings _ member)) start
  rw [factor,sourceLines_append,sourceLines_append]
  cases read : readLines (readLine evaluate (depth + 1)) 0 [] none earlier
      (State.start assembler.predefines assembler.verbose) with
  | error error after =>
    rw [bind_of_error read,bind_of_error read]
    exact .error _ _ _ _
  | ok next after =>
    have aligned : Aligned mentions name after after := by
      rw [read] at agreed
      cases agreed with
      | ok same related => exact related
    have unopened : next.2 = none := by
      have opened := readLines_opened read
      rw [Option.isSome_none,closed] at opened
      exact Option.isNone_iff_eq_none.mp (by simpa using opened)
    have count := readLines_count read
    rw [bind_of_ok read,bind_of_ok read,unopened]
    apply moved_agree determined fresh.shaped apart fresh.undirected short (by omega)
      (fun raw member => admissible raw (List.mem_append_right _ member)) movable _ aligned
    intro reading member
    apply clean reading
    apply later_mem_sourceReadings read
    rwa [unopened]

theorem accepted_iff {result : Except Error Program} :
    (result.toOption.map Program.words).isSome = true ↔ ∃ program, result = .ok program := by
  cases result with
  | error error => simp [Except.toOption]
  | ok program => simp [Except.toOption]

theorem flatMap_unnumbered (statements : Array Statement) :
    (statements.map Statement.unnumbered).toList.flatMap Statement.words =
      statements.toList.flatMap Statement.words := by
  rw [Array.toList_map,List.flatMap_map]
  rfl

/-- The words and the labels of a source whose lines were read depend on no line number. -/
theorem parse_words {state : State}
    (read : sourceLines (readLine evaluate depth) 0 [] none source.lines
      (State.start assembler.predefines assembler.verbose) = .ok () state) :
    (assembler.parse evaluate depth source).1.toOption.map Program.words =
        (resolveAll state.labels state.links.toList
          (state.statements.map Statement.unnumbered)).toOption.map
          (fun statements => statements.toList.flatMap Statement.words) ∧
      (assembler.parse evaluate depth source).2.state.labels = state.labels := by
  rw [parse_of_lines read,← resolveAll_unnumbered]
  cases resolveAll state.labels state.links.toList state.statements with
  | error error => exact ⟨rfl,rfl⟩
  | ok statements => exact ⟨congrArg some (flatMap_unnumbered statements).symm,rfl⟩

theorem parse_unread {error : Error} {state : State}
    (failed : sourceLines (readLine evaluate depth) 0 [] none source.lines
      (State.start assembler.predefines assembler.verbose) = .error error state) :
    (assembler.parse evaluate depth source).1.toOption = none := by
  rw [parse_of_failed failed]
  rfl

/-- Sources whose lines agree are accepted alike, with the same words and labels. -/
theorem parse_agree
    (agreed : Agree done (Aligned mentions name)
      (sourceLines (readLine evaluate depth) 0 [] none source.lines
        (State.start assembler.predefines assembler.verbose))
      (sourceLines (readLine evaluate depth) 0 [] none factored.lines
        (State.start assembler.predefines assembler.verbose))) :
    (assembler.parse evaluate depth factored).1.toOption.map Program.words =
        (assembler.parse evaluate depth source).1.toOption.map Program.words ∧
      ((assembler.parse evaluate depth source).1.toOption.isSome = true →
        (assembler.parse evaluate depth factored).2.state.labels =
          (assembler.parse evaluate depth source).2.state.labels) := by
  cases read : sourceLines (readLine evaluate depth) 0 [] none source.lines
      (State.start assembler.predefines assembler.verbose) with
  | error error state =>
    cases read' : sourceLines (readLine evaluate depth) 0 [] none factored.lines
        (State.start assembler.predefines assembler.verbose) with
    | ok _ other => rw [read,read'] at agreed; cases agreed
    | error error' other =>
      rw [parse_unread read,parse_unread read']
      exact ⟨rfl,by simp⟩
  | ok _ state =>
    cases read' : sourceLines (readLine evaluate depth) 0 [] none factored.lines
        (State.start assembler.predefines assembler.verbose) with
    | error error other => rw [read,read'] at agreed; cases agreed
    | ok _ other =>
      rw [read,read'] at agreed
      cases agreed with
      | ok same aligned =>
        obtain ⟨words,labels⟩ := parse_words read
        obtain ⟨words',labels'⟩ := parse_words read'
        have matched := aligned.matched
        rw [words,words',labels,labels',matched.labels,matched.links,matched.statements]
        exact ⟨rfl,fun _ => rfl⟩

theorem length_factor (name : Text) (earlier body rest : List Text) :
    (factor name earlier body rest).length = (earlier ++ (body ++ rest)).length + 3 := by
  simp only [factor,List.length_append,List.length_cons]
  omega

/-- Lines that a source moves into a macro of a fresh name, and calls there, mean what they
meant, whatever evaluates their expressions, as long as only the names that it mentions
decide what comes of one. No macro is entered again while it is expanded, so that a depth
of as many macros as there are lines suffices. -/
theorem parse_factored (determined : Expression.DeterminedBy mentions evaluate)
    (fresh : Fresh evaluate depth assembler source.lines name)
    (short : (macroLine name).length < lineLimit)
    (direct : source.lines = earlier ++ (body ++ rest))
    (moved : factored.lines = factor name earlier body rest)
    (deep : factored.lines.length ≤ depth)
    (closed : leavesOpen false (expandedLines earlier) = false)
    (movable : ∀ text ∈ expandedLines body, Movable text)
    (portable : ∀ text ∈ expandedLines source.lines, Portable mentions text)
    (once : ∀ reading ∈ sourceReadings evaluate depth 0 [] none source.lines
      (State.start assembler.predefines assembler.verbose), reading.within.Nodup) :
    ((∃ program, (assembler.parse evaluate depth source).1 = .ok program) ↔
        ∃ program, (assembler.parse evaluate depth factored).1 = .ok program) ∧
      ∀ program program', (assembler.parse evaluate depth source).1 = .ok program →
        (assembler.parse evaluate depth factored).1 = .ok program' →
        program'.words = program.words ∧
          (assembler.parse evaluate depth factored).2.state.labels =
            (assembler.parse evaluate depth source).2.state.labels := by
  have agreed : Agree done (Aligned mentions name)
      (sourceLines (readLine evaluate depth) 0 [] none source.lines
        (State.start assembler.predefines assembler.verbose))
      (sourceLines (readLine evaluate depth) 0 [] none factored.lines
        (State.start assembler.predefines assembler.verbose)) := by
    rw [moved,length_factor] at deep
    obtain ⟨less,rfl⟩ : ∃ less, depth = less + 1 := ⟨depth - 1,by omega⟩
    rw [direct] at fresh portable once
    rw [direct,moved]
    exact factored_agree determined fresh short (by omega) closed movable portable once
  obtain ⟨words,labels⟩ := parse_agree agreed
  refine ⟨?_,?_⟩
  · rw [← accepted_iff,← accepted_iff,words]
  · intro program program' accepted accepted'
    rw [accepted,accepted'] at words
    exact ⟨Option.some.inj words,labels (by rw [accepted]; rfl)⟩

end parse

/-- Lines before a loop, with an equate and a macro that the loop uses. -/
def loopEarlier : List Text :=
  [".equ STEP 3",".macro inc R","add R R STEP",".endm","start: set r0 end"]

/-- A loop that defines a label, calls a macro, evaluates an expression and refers ahead. -/
def loopBody : List Text := ["loop: inc r0","jt r0 $(loop + 1)","jf r1 end"]

def loopRest : List Text := ["jmp loop","end: halt"]

theorem parse_factored_loop :
    ∃ program program',
      (Assembler.parse Expression.evaluate 16 {} (Text.unlines (loopEarlier ++ (loopBody ++ loopRest)))).1 = .ok program ∧
      (Assembler.parse Expression.evaluate 16 {} (Text.unlines (factor "bump" loopEarlier loopBody loopRest))).1 =
        .ok program' ∧
      program.words = [1,32768,15,9,32768,32768,3,7,32768,4,8,32769,15,6,3,0] ∧
      program'.words = program.words ∧
      (Assembler.parse Expression.evaluate 16 {} (Text.unlines (factor "bump" loopEarlier loopBody loopRest))).2.state.labels =
        (Assembler.parse Expression.evaluate 16 {} (Text.unlines (loopEarlier ++ (loopBody ++ loopRest)))).2.state.labels := by
  have fresh : Fresh Expression.evaluate 16 {} (Text.unlines (loopEarlier ++ (loopBody ++ loopRest))).lines "bump" :=
    { shaped := by decide
      undirected := by decide
      unequated := by decide
      unpredefined := by decide
      unused := by decide +kernel
      unformed := by decide +kernel }
  have factored := @parse_factored Expression.evaluate Expression.namesIn 16 {}
    (Text.unlines (loopEarlier ++ (loopBody ++ loopRest)))
    (Text.unlines (factor "bump" loopEarlier loopBody loopRest)) "bump" loopEarlier loopBody loopRest
    Expression.evaluate_names fresh (by decide) (by decide +kernel) (by decide +kernel)
    (by decide +kernel) (by decide +kernel) (by decide +kernel) (by decide +kernel)
    (by decide +kernel)
  have evaluated :
      (Assembler.parse Expression.evaluate 16 {} (Text.unlines (loopEarlier ++ (loopBody ++ loopRest)))).1.toOption.map
        Program.words = some [1,32768,15,9,32768,32768,3,7,32768,4,8,32769,15,6,3,0] := by
    decide +kernel
  obtain ⟨program,accepted⟩ := accepted_iff.mp (by rw [evaluated]; rfl)
  obtain ⟨program',accepted'⟩ := factored.1.mp ⟨program,accepted⟩
  rw [accepted] at evaluated
  exact ⟨program,program',accepted,accepted',Option.some.inj evaluated,
    factored.2 program program' accepted accepted'⟩

section limits

theorem parse_overlong {evaluate : Expression.Evaluator} {depth : Nat} {assembler : Assembler}
    {source raw : Text} (member : raw ∈ source.lines) (long : lineLimit ≤ raw.length) :
    (assembler.parse evaluate depth source).1.toOption = none := by
  obtain ⟨error,after,failed⟩ := @sourceLines_unreadable (readLine evaluate depth) _ _ member
    (fun text written => Nat.not_lt.mpr long written.short) 0 [] none
    (State.start assembler.predefines assembler.verbose)
  exact parse_unread failed

/-- The words of a source that is read by a new assembler. -/
def imageOf (lines : List Text) : Option (List Word) :=
  (Assembler.parse Expression.evaluate 16 {} (Text.unlines lines)).1.toOption.map Program.words

theorem isName_letters (n : Nat) : isName (List.replicate (n + 1) 97) = true := by
  rw [List.replicate_succ,isName,List.all_replicate]
  have letter : startsName 97 = true := by decide
  simp [letter]

theorem imageOf_overlong {name : Text} (body rest : List Text) (shaped : isName name = true)
    (single : ∀ line ∈ body ++ rest, Byte.newline ∉ line)
    (long : lineLimit ≤ (macroLine name).length) : imageOf (factor name [] body rest) = none := by
  have broken : ∀ line ∈ factor name [] body rest, Byte.newline ∉ line := by
    have opening := @spaced_absent _ Byte.newline (macroLine_plain shaped) (by decide) (by decide)
    have call : Byte.newline ∉ name :=
      fun member => plain_ne ((plainWord_name shaped).bytes _ member) (by decide) rfl
    have closing : Byte.newline ∉ closingLine := by decide
    intro line member
    simp only [factor,List.nil_append,List.mem_cons,List.mem_append] at member
    rcases member with rfl | inBody | rfl | rfl | inRest
    · exact opening
    · exact single line (List.mem_append_left _ inBody)
    · exact closing
    · exact call
    · exact single line (List.mem_append_right _ inRest)
  have lines : (Text.unlines (factor name [] body rest)).lines = factor name [] body rest :=
    Text.linesFrom_unlines broken []
  unfold imageOf
  rw [@parse_overlong _ _ _ _ (macroLine name) (by rw [lines]; exact List.mem_cons_self) long]
  rfl

/-- It is not enough that the text of a source is free of the name, of the line number and
of directives, since literals may form them, nor that the name can be one of a label,
since the line that opens its macro may be too long. -/
theorem factoring_changes_meaning :
    (¬ ("a65" : Text) <:+: Text.unlines ["noop","a'A'"] ∧
      imageOf ["noop","a'A'"] = none ∧
      imageOf (factor "a65" [] ["noop"] ["a'A'"]) = some [21,21]) ∧
    (¬ lineName <:+: Text.unlines [".data LINE\"\"NO"] ∧
      imageOf [".data LINE\"\"NO"] = some [1] ∧
      imageOf (factor "m" [] [".data LINE\"\"NO"] []) = some [2]) ∧
    (Movable ".e\"\"qu K 5" ∧
      imageOf [".e\"\"qu K 5",".data K"] = some [5] ∧
      imageOf (factor "m" [] [".e\"\"qu K 5"] [".data K"]) = none) ∧
    isName (List.replicate 65530 97) = true ∧
      imageOf ["noop"] = some [21] ∧
      imageOf (factor (List.replicate 65530 97) [] ["noop"] []) = none := by
  refine ⟨⟨by decide +kernel,by decide +kernel,by decide +kernel⟩,
    ⟨by decide +kernel,by decide +kernel,by decide +kernel⟩,
    ⟨by decide +kernel,by decide +kernel,by decide +kernel⟩,
    isName_letters 65529,by decide +kernel,?_⟩
  apply imageOf_overlong _ _ (isName_letters 65529) (by decide)
  rw [length_macroLine,List.length_replicate]
  decide

end limits

end WordMachine.Assembly
