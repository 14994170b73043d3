import WordMachine.Proofs.Assembly.Encoding
import WordMachine.Proofs.Assembly.Stable

/-! What holds of labels, statements and links throughout a source: every statement is
what its fields were read as, every operand that waits for a label has a link and every
link such an operand, and statements and labels lie in memory one after another. -/
namespace WordMachine.Assembly

/-- A statement with the operands that it was emitted from. -/
structure Emission where
  statement : Statement
  operands : List Operand

structure Emission.Valid (labels : Table Word) (emission : Emission) : Prop where
  encoded : Encoded labels emission.statement.fields emission.operands
  words : emission.statement.words = emission.operands.map Operand.emitted

/-- The links of several emissions, in their order; the first has the given index. -/
def waitingLinks (start : Nat) (emissions : List Emission) : List Link :=
  (emissions.zipIdx start).flatMap fun (emission, index) => pendingLinks index emission.operands

/-- The statements and links of a state are those of the given emissions. -/
structure Coherent (state : State) (emissions : List Emission) : Prop where
  named : Named state.labels
  statements : state.statements.toList = emissions.map Emission.statement
  links : state.links.toList = waitingLinks 0 emissions
  valid : ∀ emission ∈ emissions, emission.Valid state.labels

theorem waitingLinks_snoc (emissions : List Emission) (emission : Emission) :
    waitingLinks 0 (emissions ++ [emission]) =
      waitingLinks 0 emissions ++ pendingLinks emissions.length emission.operands := by
  simp [waitingLinks,List.zipIdx_append]

theorem named_insert {labels : Table Word} {name : Text} (addr : Word) (named : Named labels)
    (shaped : isName name = true) : Named (labels.insert name addr) := by
  intro other value found
  rw [Table.find?_insert] at found
  split at found
  · next same => rw [← same]; exact shaped
  · exact named other value found

theorem coherent_label {state : State} {emissions : List Emission} {name : Text}
    (shaped : isName name = true) (free : state.labels.contains name = false)
    (coherent : Coherent state emissions) :
    Coherent { state with labels := state.labels.insert name state.here } emissions where
  named := named_insert state.here coherent.named shaped
  statements := coherent.statements
  links := coherent.links
  valid := by
    intro emission member
    have valid := coherent.valid emission member
    exact ⟨encoded_mono (Table.within_insert state.here free) valid.encoded,valid.words⟩

theorem coherent_emission {state : State} {emissions : List Emission} {fields : List Text}
    {operands : List Operand} (line : Nat) (given : fields ≠ [])
    (encoded : encodeFields state.labels fields = .ok operands)
    (coherent : Coherent state emissions) :
    Coherent (emission state fields line operands)
      (emissions ++ [⟨⟨line,state.here,fields,operands.map Operand.emitted⟩,operands⟩]) where
  named := coherent.named
  statements := by simp [emission,coherent.statements]
  links := by
    have counted : state.statements.size = emissions.length := by
      rw [← Array.length_toList,coherent.statements,List.length_map]
    rw [waitingLinks_snoc,← coherent.links,← counted]
    simp [emission]
  valid := by
    intro emission member
    rcases List.mem_append.mp member with earlier | last
    · exact coherent.valid emission earlier
    · rw [List.mem_singleton.mp last]
      exact ⟨encodeFields_encoded coherent.named given encoded,rfl⟩

theorem coherent_stable : Stable fun state => ∃ emissions, Coherent state emissions where
  silent := by
    rintro before after same ⟨emissions,coherent⟩
    refine ⟨emissions,?_,?_,?_,?_⟩
    · rw [same.labels]; exact coherent.named
    · rw [same.statements]; exact coherent.statements
    · rw [same.links]; exact coherent.links
    · rw [same.labels]; exact coherent.valid
  label := by
    rintro state name shaped free ⟨emissions,coherent⟩
    exact ⟨emissions,coherent_label shaped free coherent⟩
  emission := by
    rintro state fields line operands given encoded - ⟨emissions,coherent⟩
    exact ⟨_,coherent_emission line given encoded coherent⟩

/-- Statements and labels lie in memory one after another. -/
structure Placed (state : State) : Prop where
  total : state.here.toNat = (state.statements.toList.flatMap Statement.words).length
  fits : state.here.toNat ≤ memorySize
  inside : ∀ statement ∈ state.statements.toList,
    statement.addr.toNat + statement.words.length ≤ memorySize
  bounded : ∀ name addr, state.labels.find? name = some addr → addr.toNat ≤ state.here.toNat

theorem here_congr {before after : State} (same : SameCode before after) :
    after.here = before.here := by
  unfold State.here
  rw [same.statements]

theorem here_emission {state : State} {fields : List Text} {line : Nat} {operands : List Operand}
    (fits : state.here.toNat + operands.length ≤ memorySize) :
    (emission state fields line operands).here.toNat = state.here.toNat + operands.length := by
  have within : state.here.toNat + operands.length ≤ 32768 := fits
  have last : (emission state fields line operands).here =
      state.here + operands.length.toUInt16 := by
    simp [State.here,emission]
  rw [last,UInt16.toNat_add,Nat.toUInt16_eq,UInt16.toNat_ofNat']
  change (state.here.toNat + operands.length % 65536) % 65536 = _
  omega

theorem placed_stable : Stable Placed where
  silent := by
    intro before after same placed
    refine ⟨?_,?_,?_,?_⟩
    · rw [here_congr same,same.statements]; exact placed.total
    · rw [here_congr same]; exact placed.fits
    · rw [same.statements]; exact placed.inside
    · rw [here_congr same,same.labels]; exact placed.bounded
  label := by
    intro state name shaped free placed
    refine ⟨placed.total,placed.fits,placed.inside,?_⟩
    intro other addr found
    rw [Table.find?_insert] at found
    split at found
    · cases found
      exact Nat.le_refl _
    · exact placed.bounded other addr found
  emission := by
    intro state fields line operands given encoded fits placed
    have moved := @here_emission state fields line operands fits
    refine ⟨?_,?_,?_,?_⟩
    · rw [moved,placed.total]
      simp [emission]
    · rw [moved]; exact fits
    · intro statement member
      simp only [emission,Array.toList_push,List.mem_append,List.mem_singleton] at member
      rcases member with earlier | rfl
      · exact placed.inside statement earlier
      · simpa using fits
    · intro name addr found
      have earlier := placed.bounded name addr found
      omega

end WordMachine.Assembly
