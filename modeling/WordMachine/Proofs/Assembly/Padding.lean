import WordMachine.Proofs.Assembly.LineSteps
import WordMachine.Proofs.Assembly.TwoPasses

/-! Sources of any length: an instruction that refers to a label at the end, and between
the two as many words of data as are wanted. -/
namespace WordMachine.Assembly

/-- A forward reference, some words of data, and the label. -/
def padded (count : Nat) : Text :=
  ("set r1 end\n" : Text) ++ ((List.replicate count (".data 0\n" : Text)).flatten ++ ("end:" : Text))

theorem linesFrom_padding (count : Nat) (done : List Text) :
    Text.linesFrom [] done ((List.replicate count (".data 0\n" : Text)).flatten ++ ("end:" : Text)) =
      done.reverse ++ (List.replicate count (".data 0" : Text) ++ [("end:" : Text)]) := by
  induction count generalizing done with
  | zero => exact List.reverse_cons
  | succ count ih =>
    rw [List.replicate_succ,List.flatten_cons,List.append_assoc]
    refine (ih ((".data 0" : Text) :: done)).trans ?_
    rw [List.reverse_cons,List.replicate_succ,List.append_assoc]
    rfl

theorem lines_padded (count : Nat) :
    (padded count).lines =
      ("set r1 end" : Text) :: (List.replicate count (".data 0" : Text) ++ [("end:" : Text)]) :=
  linesFrom_padding count [("set r1 end" : Text)]

/-- What is known after the reference and some words of data. -/
structure Padded (state : State) (count : Nat) : Prop where
  labels : state.labels = .empty
  macros : state.macros = .empty
  quiet : state.verbose = false
  plain : ∀ field ∈ ([".data","0","end:"] : List Text), state.equates.find? field = none
  here : state.here.toNat = 3 + count
  links : state.links = #[⟨0,2,"end"⟩]
  first : state.statements[0]? = some ⟨1,0,["set","r1","end"],[1,32769,0]⟩

theorem padded_located {state : State} {count : Nat} (padded : Padded state count) (line : Nat) :
    Padded (located state line) count where
  labels := padded.labels
  macros := padded.macros
  quiet := padded.quiet
  plain := by
    intro field member
    have names : ∀ name ∈ ([".data","0","end:"] : List Text), lineName ≠ name ∧ hereName ≠ name := by
      decide
    rw [located_find? line (names field member).1 (names field member).2]
    exact padded.plain field member
  here := padded.here
  links := padded.links
  first := padded.first

section reading

variable {evaluate : Expression.Evaluator} {depth : Nat}

theorem sourceLine_padding {state : State} {count line : Nat} (padded : Padded state count)
    (fits : 3 + count < memorySize) :
    ∃ next, sourceLine (readLine evaluate depth) none line ".data 0" state = .ok none next ∧ Padded next (count + 1) := by
  have ready := padded_located padded line
  have room : (located state line).here.toNat + 1 ≤ memorySize := by rw [ready.here]; exact fits
  have encoded : encodeFields (located state line).labels [".data","0"] = .ok [.word 0] := by
    rw [ready.labels]
    rfl
  have emitted := emit_run line (by simp) encoded room
  rw [note_quiet ready.quiet] at emitted
  refine ⟨emission (located state line) [".data","0"] line [.word 0],?_,?_⟩
  · have unchanged : ∀ field ∈ [(".data" : Text),"0"],
        (located state line).equates.find? field = none := by
      intro field member
      exact ready.plain field (List.mem_append_left [("end:" : Text)] member)
    have read := @sourceLine_emit evaluate depth state ".data 0" ".data" ["0"] line rfl rfl (by decide)
      (unchanged _ List.mem_cons_self) (by decide) (by rw [padded.macros]; rfl)
    rw [read,map_equated fun field member => unchanged field (List.mem_cons_of_mem _ member),
      bind_of_ok emitted]
    rfl
  · have moved := @here_emission (located state line) [".data","0"] line [.word 0] room
    refine ⟨ready.labels,ready.macros,ready.quiet,ready.plain,?_,?_,?_⟩
    · rw [moved,ready.here]
      rfl
    · change (located state line).links.appendList [] = _
      rw [ready.links]
      rfl
    · have inside := (Array.getElem?_eq_some_iff.mp ready.first).1
      change ((located state line).statements.push _)[0]? = _
      rw [Array.getElem?_push,if_neg (Nat.ne_of_lt inside),ready.first]

theorem sourceLines_padding {number count : Nat} {before : Text} {rest : List Text} {state : State}
    (more : Nat) (padded : Padded state count) (fits : 3 + count + more ≤ memorySize) :
    ∃ number' before' next, Padded next (count + more) ∧
      sourceLines (readLine evaluate depth) number before none (List.replicate more (".data 0" : Text) ++ rest) state =
        sourceLines (readLine evaluate depth) number' before' none rest next := by
  induction more generalizing number before count state with
  | zero => exact ⟨number,before,state,padded,rfl⟩
  | succ more ih =>
    obtain ⟨between,read,padded'⟩ :=
      @sourceLine_padding evaluate depth state count (number + 1) padded (by omega)
    have step := @sourceLines_step (readLine evaluate depth) number before ".data 0" ".data 0"
      (List.replicate more (".data 0" : Text) ++ rest) none none state between (by decide) rfl
      (by rw [numbered,note_quiet padded.quiet]; exact read)
    obtain ⟨number',before',next,final,run⟩ :=
      @ih (number + 1) (count + 1) ".data 0" between padded' (by omega)
    refine ⟨number',before',next,by rwa [Nat.add_comm more,← Nat.add_assoc],?_⟩
    rw [List.replicate_succ]
    exact step.trans run

theorem sourceLine_end {state : State} {count line : Nat} (padded : Padded state count) :
    sourceLine (readLine evaluate depth) none line "end:" state =
      .ok none { located state line with labels := state.labels.insert "end" state.here } := by
  have ready := padded_located padded line
  apply sourceLine_read (by decide) (by decide)
  have defined := @defineLabel_run "end" (located state line) rfl (by rw [ready.labels]; rfl)
  have taken : takeLabels [("end:" : Text)] (located state line) =
      .ok [] { located state line with labels := state.labels.insert "end" state.here } := by
    rw [takeLabels,if_pos (by decide)]
    exact bind_of_ok defined
  have unchanged : ∀ field ∈ [("end:" : Text)], (located state line).equates.find? field = none := by
    intro field member
    exact ready.plain field (List.mem_append_right [(".data" : Text),"0"] member)
  have read := @readLine_plain evaluate state "end:" "end:" [] line rfl rfl (by decide) unchanged
    depth
  rw [read,bind_of_ok taken]
  rfl

def referred : State :=
  emission (located (State.start .empty false) 1) ["set","r1","end"] 1
    [.word 1,.word 32769,.label "end"]

theorem sourceLine_reference :
    sourceLine (readLine evaluate depth) none 1 "set r1 end" (State.start .empty false) = .ok none referred := by
  have unchanged : ∀ field ∈ [("set" : Text),"r1","end"],
      (located (State.start .empty false) 1).equates.find? field = none := by
    decide +kernel
  have emitted : emit ["set","r1","end"] 1 (located (State.start .empty false) 1) = .ok () referred :=
    emit_run 1 (by simp) rfl (by decide +kernel)
  have read := @sourceLine_emit evaluate depth (State.start .empty false) "set r1 end" "set" ["r1","end"] 1
    rfl rfl (by decide) (unchanged _ List.mem_cons_self) (by decide) rfl
  rw [read,map_equated fun field member => unchanged field (List.mem_cons_of_mem _ member),
    bind_of_ok emitted]
  rfl

theorem padded_referred : Padded referred 0 where
  labels := rfl
  macros := rfl
  quiet := rfl
  plain := by decide +kernel
  here := by decide +kernel
  links := rfl
  first := by decide +kernel

theorem lines_of_padded {count : Nat} (fits : 3 + count ≤ memorySize) :
    ∃ number state, Padded state count ∧
      sourceLines (readLine evaluate depth) 0 [] none (padded count).lines (State.start .empty false) =
        .ok () { located state number with labels := state.labels.insert "end" state.here } := by
  have first := @sourceLines_step (readLine evaluate depth) 0 [] "set r1 end" "set r1 end"
    (List.replicate count (".data 0" : Text) ++ [("end:" : Text)]) none none
    (State.start .empty false) referred (by decide) rfl sourceLine_reference
  obtain ⟨number,before,state,ready,run⟩ :=
    @sourceLines_padding evaluate depth 1 0 "set r1 end" [("end:" : Text)] referred count padded_referred (by omega)
  rw [Nat.zero_add] at ready
  have last := @sourceLines_step (readLine evaluate depth) number before "end:" "end:" [] none none state _ (by decide) rfl
    (by rw [numbered,note_quiet ready.quiet]; exact sourceLine_end ready)
  refine ⟨number + 1,state,ready,?_⟩
  rw [lines_padded,first,run,last]
  rfl

/-- The label of a padded source is as far on as there are words, and the word that
waited for it is its address. -/
theorem padded_parse {count : Nat} (fits : 3 + count ≤ memorySize) :
    ∃ program left, Assembler.parse evaluate depth {} (padded count) = (.ok program, left) ∧
      left.state.labels.find? "end" = some (3 + count).toUInt16 ∧
      ⟨1,0,["set","r1","end"],[1,32769,(3 + count).toUInt16]⟩ ∈ program.statements := by
  obtain ⟨number,state,ready,read⟩ := lines_of_padded fits
  have here : state.here = (3 + count).toUInt16 := by
    rw [← ready.here,Nat.toUInt16_eq,UInt16.ofNat_toNat]
  have found : (state.labels.insert "end" state.here).find? "end" = some state.here := by
    rw [Table.find?_insert,if_pos rfl]
  have resolved : resolveAll (state.labels.insert "end" state.here) state.links.toList
      state.statements = .ok (state.statements.modify 0 fun statement =>
        { statement with words := statement.words.set 2 state.here }) := by
    rw [ready.links]
    simp only [resolveAll,resolve,found]
  have parsed := @parse_of_lines evaluate depth {} (padded count) _ read
  simp only [located,resolved] at parsed
  refine ⟨_,_,parsed,found.trans (congrArg some here),?_⟩
  apply Array.mem_of_getElem? (i := 0)
  rw [Array.getElem?_modify,if_pos rfl,ready.first,← here]
  rfl

end reading

end WordMachine.Assembly
