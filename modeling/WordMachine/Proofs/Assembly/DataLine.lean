import WordMachine.Proofs.Assembly.Listing
import WordMachine.Proofs.Assembly.Strings

/-! A source of one line that holds data, read by an assembler without predefined equates.
If its arguments are the codes of bytes they are emitted, and the first argument that is no
operand is reported. -/
namespace WordMachine.Assembly

theorem dataFrom_codes (done : List Operand) (bytes : Text) (rest : List Text) :
    dataFrom .empty done (codes bytes ++ rest) =
      dataFrom .empty (((bytes.map UInt8.toUInt16).map Operand.word).reverse ++ done) rest := by
  induction bytes generalizing done with
  | nil => rfl
  | cons b bytes ih =>
    have read := operandOf_ofNat b.toUInt16
    rw [UInt8.toNat_toUInt16] at read
    rw [codes,List.map_cons,List.cons_append,dataFrom,read]
    simp only
    rw [← codes,ih]
    simp

theorem encodeFields_directive {head : Text} (directive : isDirective head = true)
    (labels : Table Word) (arguments : List Text) :
    encodeFields labels (head :: arguments) = dataFrom labels [] arguments := by
  rw [encodeFields]
  exact if_pos directive

def dataProgram (head bytes : Text) : Program where
  words := bytes.map UInt8.toUInt16
  statements := #[{
    line := 1
    addr := 0
    fields := head :: codes bytes
    words := bytes.map UInt8.toUInt16 }]

section emit

variable {state : State} {head : Text} (ready : Listed state []) (directive : isDirective head = true)
include ready directive

theorem emit_codes {bytes : Text} (fits : bytes.length ≤ memorySize) :
    ∃ final, emit (head :: codes bytes) 1 state = .ok () final ∧ final.labels = .empty ∧
      final.links = #[] ∧ final.statements = (dataProgram head bytes).statements := by
  have encoded : encodeFields state.labels (head :: codes bytes) =
      .ok ((bytes.map UInt8.toUInt16).map .word) := by
    have read := dataFrom_codes [] bytes []
    rw [List.append_nil,List.append_nil,dataFrom,List.reverse_reverse] at read
    rw [ready.labels,encodeFields_directive directive,read]
  have unstated : state.statements = #[] := by
    have listed := ready.statements
    rw [List.mapIdx_nil,List.map_eq_nil_iff] at listed
    exact Array.toList_eq_nil_iff.mp listed
  have first : state.here = 0 := UInt16.toNat_inj.mp ready.here
  refine ⟨_,emit_run 1 (List.cons_ne_nil _ _) encoded ?_,?_⟩
  · rw [first,List.length_map,List.length_map]
    exact (Nat.zero_add _).trans_le fits
  · obtain ⟨log,noted⟩ := note_log state (report state (head :: codes bytes)
      ((bytes.map UInt8.toUInt16).map .word))
    rw [noted]
    refine ⟨ready.labels,?_,?_⟩
    · change state.links.appendList (pendingLinks _ _) = _
      rw [pendingLinks_words,ready.links]
      rfl
    · change state.statements.push ⟨1,state.here,head :: codes bytes,_⟩ = _
      rw [unstated,first,emitted_words]
      rfl

theorem emit_refused {bytes field : Text} {error : Error}
    (wrong : operandOf .empty field = .error error) (more : List Text) :
    emit (head :: (codes bytes ++ field :: more)) 1 state = .error error state := by
  apply emit_malformed
  rw [ready.labels,encodeFields_directive directive,dataFrom_codes,dataFrom,wrong]

end emit

section single

variable {evaluate : Expression.Evaluator} {depth : Nat} {assembler : Assembler}
  {source raw text head bytes : Text} (fresh : assembler.predefines = .empty)
  (single : source.lines = [raw]) (short : raw.length < lineLimit)
  (literals : expandLiterals (Text.dropReturn raw) = .ok text)
  (unembedded : ¬ [Byte.dollar,Byte.parenOpen] <:+: text) (directive : isDirective head = true)
include unembedded directive

theorem sourceLine_data {state : State} {arguments : List Text}
    (fields : Text.fields text = head :: (codes bytes ++ arguments)) (listed : Listed state []) :
    sourceLine (readLine evaluate depth) none 1 text state =
      (emit (head :: (codes bytes ++ arguments.map (equated (located state 1)))) 1 >>=
        fun _ => pure none) (located state 1) := by
  have ready := listed_located listed 1
  -- The names of the equates so far begin with capitals, so that no field is one.
  have uncoded : (codes bytes).map (equated (located state 1)) = codes bytes := by
    apply map_equated
    intro field member
    obtain ⟨b,-,rfl⟩ := List.mem_map.mp member
    exact ready.free _ (small_ofNat b.toNat)
  simp only [isDirective,Bool.or_eq_true,decide_eq_true_eq] at directive
  have ordinary : head ∉ ([".equ",".macro",".endm"] : List Text) := by
    rcases directive with rfl | rfl <;> decide
  have plain : (located state 1).equates.find? head = none := by
    rcases directive with rfl | rfl <;> exact ready.free _ ⟨_,_,rfl,by decide⟩
  have unlabelled : head.getLast? ≠ some Byte.colon := by
    rcases directive with rfl | rfl <;> decide
  have uncalled : state.macros.find? head = none := by
    rw [listed.macros]
    rfl
  rw [sourceLine_emit (expandEmbedded_unembedded evaluate unembedded _) fields ordinary plain unlabelled
    uncalled,List.map_append,uncoded]

include fresh single short literals

theorem parse_codes (fields : Text.fields text = head :: codes bytes)
    (fits : bytes.length ≤ memorySize) :
    (assembler.parse evaluate depth source).1 = .ok (dataProgram head bytes) := by
  have listed : Listed (numbered (State.start .empty assembler.verbose) 1 raw) [] :=
    listed_note (listed_start assembler.verbose) _
  obtain ⟨final,emitted,labels,links,statements⟩ :=
    emit_codes (listed_located listed 1) directive fits
  rw [← List.append_nil (codes bytes)] at fields
  have read := @sourceLine_data evaluate depth _ _ _ unembedded directive _ _ fields listed
  rw [List.map_nil,List.append_nil,bind_of_ok emitted] at read
  have run := @sourceLines_step (readLine evaluate depth) 0 [] raw text [] none none _ final short literals read
  rw [← single,← fresh] at run
  rw [parse_of_lines run,labels,links,statements]
  simp [dataProgram,resolveAll]

theorem parse_refused {field : Text} {more : List Text} {error : Error}
    (fields : Text.fields text = head :: (codes bytes ++ field :: more))
    (wrong : operandOf .empty field = .error error)
    (small : ∃ first rest, field = first :: rest ∧ Byte.lower first = first) :
    (assembler.parse evaluate depth source).1 = .error (.atLine 1 text error) := by
  have listed : Listed (numbered (State.start .empty assembler.verbose) 1 raw) [] :=
    listed_note (listed_start assembler.verbose) _
  have ready := listed_located listed 1
  have kept : equated (located (numbered (State.start .empty assembler.verbose) 1 raw) 1) field =
      field := by
    rw [equated,ready.free field small,Option.getD_none]
  have read := @sourceLine_data evaluate depth _ _ _ unembedded directive _ _ fields listed
  rw [List.map_cons,kept,bind_of_error (emit_refused ready directive wrong _)] at read
  have stopped := sourceStep_refused [] short literals read
  have run := congrFun (@sourceLines_cons (readLine evaluate depth) 0 [] none raw [])
    (State.start .empty assembler.verbose)
  rw [bind_of_error stopped,← single,← fresh] at run
  rw [parse_of_failed run]
  rfl

end single

end WordMachine.Assembly
