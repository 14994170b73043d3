import WordMachine.Program

/-! Statements that tile an image. Each begins where the one before it ends, so that an
address within the image belongs to exactly one of them, which has the word of the image at
that address. -/
namespace WordMachine

def extent (statements : List Statement) : Nat := (statements.flatMap Statement.words).length

section extent

variable (statement : Statement) (statements others : List Statement)

@[simp] theorem extent_nil : extent [] = 0 := rfl

@[simp] theorem extent_cons :
    extent (statement :: statements) = statement.words.length + extent statements := by
  simp [extent]

@[simp] theorem extent_append : extent (statements ++ others) = extent statements + extent others := by
  simp [extent]

theorem extent_take_le (count : Nat) : extent (statements.take count) ≤ extent statements := by
  have whole := extent_append (statements.take count) (statements.drop count)
  rw [List.take_append_drop] at whole
  omega

theorem extent_take_mono {one other : Nat} (ordered : one ≤ other) :
    extent (statements.take one) ≤ extent (statements.take other) := by
  have bound := extent_take_le (statements.take other) one
  rwa [List.take_take,Nat.min_eq_left ordered] at bound

theorem extent_take_succ {statement : Statement} {statements : List Statement} {index : Nat}
    (found : statements[index]? = some statement) :
    extent (statements.take (index + 1)) =
      extent (statements.take index) + statement.words.length := by
  rw [List.take_add_one,found,extent_append]
  simp

end extent

/-- Statements that follow one another in memory, the first of them at the given address. -/
def Tiled : Nat → List Statement → Prop
  | _, [] => True
  | start, statement :: rest =>
    statement.addr.toNat = start ∧ Tiled (start + statement.words.length) rest

theorem tiled_append {start : Nat} {statements others : List Statement} :
    Tiled start (statements ++ others) ↔
      Tiled start statements ∧ Tiled (start + extent statements) others := by
  induction statements generalizing start with
  | nil => simp [Tiled]
  | cons statement statements ih => simp [Tiled,ih,and_assoc,Nat.add_assoc]

section tiled

variable {start : Nat} {statements : List Statement} (tiled : Tiled start statements)

include tiled

theorem tiled_addr {index : Nat} {statement : Statement}
    (found : statements[index]? = some statement) :
    statement.addr.toNat = start + extent (statements.take index) := by
  induction statements generalizing start index with
  | nil => cases found
  | cons first rest ih =>
    cases index with
    | zero =>
      cases found
      simpa using tiled.1
    | succ index =>
      rw [ih tiled.2 found,List.take_succ_cons,extent_cons,Nat.add_assoc]

/-- A statement ends where a later one begins, or before it. -/
theorem tiled_ordered {one other : Nat} {statement later : Statement} (before : one < other)
    (found : statements[one]? = some statement) (found' : statements[other]? = some later) :
    statement.addr.toNat + statement.words.length ≤ later.addr.toNat := by
  have step := extent_take_succ found
  have bound : extent (statements.take (one + 1)) ≤ extent (statements.take other) :=
    extent_take_mono statements before
  rw [tiled_addr tiled found,tiled_addr tiled found']
  omega

end tiled

namespace Statement

/-- The address is that of one of the statement's words. -/
def Spans (statement : Statement) (addr : Word) : Prop :=
  statement.addr.toNat ≤ addr.toNat ∧ addr.toNat < statement.addr.toNat + statement.words.length

theorem covers_iff (statement : Statement) (addr : Word) :
    statement.covers addr = true ↔ statement.Spans addr := by
  simp [covers,Spans,UInt16.le_iff_toNat_le]

/-- A statement without the values of its words. -/
def blank (statement : Statement) : Statement :=
  { statement with words := List.replicate statement.words.length 0 }

end Statement

/-! How statements lie depends on how many words they have and not on which. -/

@[simp] theorem extent_blank (statements : List Statement) :
    extent (statements.map Statement.blank) = extent statements := by
  induction statements with
  | nil => rfl
  | cons statement rest ih => simp [ih,Statement.blank]

@[simp] theorem tiled_blank {start : Nat} {statements : List Statement} :
    Tiled start (statements.map Statement.blank) ↔ Tiled start statements := by
  induction statements generalizing start with
  | nil => rfl
  | cons statement rest ih => simp [Tiled,ih,Statement.blank]

section covered

variable {start : Nat} {statements : List Statement} {addr : Word}

theorem tiled_unique (tiled : Tiled start statements) {one other : Nat}
    {statement statement' : Statement} (found : statements[one]? = some statement)
    (found' : statements[other]? = some statement') (spans : statement.Spans addr)
    (spans' : statement'.Spans addr) : one = other := by
  unfold Statement.Spans at spans spans'
  rcases Nat.lt_trichotomy one other with before | same | after
  · have ordered := tiled_ordered tiled before found found'
    omega
  · exact same
  · have ordered := tiled_ordered tiled after found' found
    omega

/-- No statement covers an address that is beyond them all. -/
theorem tiled_beyond (tiled : Tiled start statements)
    (beyond : start + extent statements ≤ addr.toNat) :
    statements.find? (·.covers addr) = none := by
  rw [List.find?_eq_none]
  intro statement member covered
  obtain ⟨index,found⟩ := List.mem_iff_getElem?.mp member
  have last := extent_take_le statements (index + 1)
  rw [extent_take_succ found] at last
  rw [Statement.covers_iff,Statement.Spans,tiled_addr tiled found] at covered
  omega

/-- The statement that covers an address between the first and the last has the word there. -/
theorem tiled_covering (tiled : Tiled start statements) (begun : start ≤ addr.toNat)
    (inside : addr.toNat < start + extent statements) :
    ∃ (index : Nat) (statement : Statement), statements[index]? = some statement ∧
      statement.Spans addr ∧ statements.find? (·.covers addr) = some statement ∧
      statement.words[addr.toNat - statement.addr.toNat]? =
        (statements.flatMap Statement.words)[addr.toNat - start]? := by
  induction statements generalizing start with
  | nil =>
    rw [extent_nil] at inside
    omega
  | cons first rest ih =>
    obtain ⟨here,tiled⟩ := tiled
    rw [extent_cons] at inside
    by_cases within : addr.toNat < start + first.words.length
    · have spans : first.Spans addr := by
        unfold Statement.Spans
        omega
      have covered := (first.covers_iff addr).mpr spans
      refine ⟨0,first,rfl,spans,by simp [covered],?_⟩
      rw [here,List.flatMap_cons,List.getElem?_append_left (by omega)]
    · have uncovered : first.covers addr = false := by
        rw [← Bool.not_eq_true,Statement.covers_iff,Statement.Spans]
        omega
      obtain ⟨index,statement,found,spans,chosen,word⟩ := ih tiled (by omega) (by omega)
      refine ⟨index + 1,statement,found,spans,by simp [uncovered,chosen],?_⟩
      rw [word,List.flatMap_cons,List.getElem?_append_right (by omega),Nat.sub_sub]

end covered

namespace Program

/-- A program whose words are those of its statements, which tile them. -/
structure Tiles (program : Program) : Prop where
  words : program.words = program.statements.toList.flatMap Statement.words
  tiled : Tiled 0 program.statements.toList

variable {program : Program} (tiles : program.Tiles) {addr : Word}

include tiles

theorem locate?_beyond (beyond : program.words.length ≤ addr.toNat) :
    program.locate? addr = none := by
  rw [tiles.words] at beyond
  have absent := tiled_beyond tiles.tiled (Nat.le_trans (Nat.le_of_eq (Nat.zero_add _)) beyond)
  rw [locate?,← Array.find?_toList,absent]
  rfl

/-- An address in the image is located in the one statement that covers it. -/
theorem locate?_inside (inside : addr.toNat < program.words.length) :
    ∃ (index : Nat) (statement : Statement), program.statements[index]? = some statement ∧
      program.locate? addr = some (statement, addr.toNat - statement.addr.toNat) ∧
      statement.Spans addr ∧
      statement.words[addr.toNat - statement.addr.toNat]? = program.words[addr.toNat]? ∧
      ∀ (other : Nat) (statement' : Statement), program.statements[other]? = some statement' →
        statement'.Spans addr → other = index := by
  have within : addr.toNat < 0 + extent program.statements.toList := by
    rwa [Nat.zero_add,extent,← tiles.words]
  obtain ⟨index,statement,found,spans,chosen,word⟩ :=
    tiled_covering tiles.tiled (Nat.zero_le _) within
  rw [Nat.sub_zero,← tiles.words] at word
  rw [Array.getElem?_toList] at found
  refine ⟨index,statement,found,?_,spans,word,?_⟩
  · rw [locate?,← Array.find?_toList,chosen]
    rfl
  · intro other statement' found' spans'
    rw [← Array.getElem?_toList] at found found'
    exact tiled_unique tiles.tiled found' found spans' spans

end Program
end WordMachine
