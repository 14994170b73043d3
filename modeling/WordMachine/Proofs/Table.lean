import WordMachine.Table

/-! Looking up names in tables, and tables that keep what others hold. -/
namespace WordMachine.Table

variable {α : Type}

theorem find?_insert (table : Table α) (name other : Text) (value : α) :
    (table.insert name value).find? other = if name = other then some value else table.find? other := by
  obtain ⟨entries⟩ := table
  simp only [insert,find?]
  induction entries with
  | nil => by_cases same : name = other <;> simp [insertEntry,same]
  | cons entry rest ih =>
    by_cases held : entry.1 = name
    · by_cases same : name = other
      · simp [insertEntry,held,same]
      · simp [insertEntry,held,same]
    · by_cases first : entry.1 = other
      · have different : ¬ name = other := fun same => held (first.trans same.symm)
        simp [insertEntry,first,different,Ne.symm different]
      · simpa [insertEntry,held,first] using ih

theorem find?_of_not_contains {table : Table α} {name : Text} (absent : table.contains name = false) :
    table.find? name = none := by
  simpa [contains] using absent

theorem find?_eq_none_iff (table : Table α) (name : Text) :
    table.find? name = none ↔ ∀ entry ∈ table.entries, entry.1 ≠ name := by
  simp [find?]

theorem find?_modify (table : Table α) (name other : Text) (change : α → α) :
    (table.modify name change).find? other =
      if name = other then (table.find? other).map change else table.find? other := by
  obtain ⟨entries⟩ := table
  simp only [modify,find?]
  induction entries with
  | nil => simp
  | cons entry rest ih =>
    by_cases held : entry.1 = other
    · by_cases same : name = other
      · simp [held,same]
      · simp [held,same,Ne.symm same]
    · by_cases same : entry.1 = name
      · have different : name ≠ other := fun equal => held (same.trans equal)
        simpa [same,held,different] using ih
      · simpa [same,held] using ih

theorem length_modify (table : Table α) (name : Text) (change : α → α) :
    (table.modify name change).entries.length = table.entries.length := List.length_map _

theorem length_insert {table : Table α} {name : Text} (value : α)
    (absent : table.contains name = false) :
    (table.insert name value).entries.length = table.entries.length + 1 := by
  have unlisted := (find?_eq_none_iff table name).mp (find?_of_not_contains absent)
  obtain ⟨entries⟩ := table
  simp only [insert]
  induction entries with
  | nil => rfl
  | cons entry rest ih =>
    have other : ¬ entry.1 = name := unlisted entry List.mem_cons_self
    have later := fun entry member => unlisted entry (List.mem_cons_of_mem _ member)
    have absent' : (Table.mk rest).contains name = false := by
      rw [contains,(find?_eq_none_iff ⟨rest⟩ name).mpr later]
      rfl
    simp only [insertEntry,beq_iff_eq,if_neg other,List.length_cons,ih absent' later]

theorem find?_insertAll {table : Table α} {pairs : List (Text × α)} {name : Text} {value : α}
    (found : (table.insertAll pairs).find? name = some value) :
    (name,value) ∈ pairs ∨ table.find? name = some value := by
  induction pairs generalizing table with
  | nil => exact .inr found
  | cons pair rest ih =>
    rcases ih found with later | held
    · exact .inl (List.mem_cons_of_mem pair later)
    · rw [find?_insert] at held
      split at held
      · next same =>
        cases held
        rw [← same]
        exact .inl List.mem_cons_self
      · exact .inr held

def Within (first second : Table α) : Prop :=
  ∀ name value, first.find? name = some value → second.find? name = some value

theorem within_insert {table : Table α} {name : Text} (value : α)
    (absent : table.contains name = false) : Within table (table.insert name value) := by
  intro other held found
  rw [find?_insert,if_neg]
  · exact found
  · rintro rfl
    rw [find?_of_not_contains absent] at found
    cases found

end WordMachine.Table
