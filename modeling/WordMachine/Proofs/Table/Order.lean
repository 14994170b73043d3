import WordMachine.Proofs.Table

/-! Walks through the entries of a table. Where no name occurs twice, what a walk finds under
a name does not depend on its order, and a table that is filled from it holds the same. -/
namespace WordMachine.Table

variable {α β : Type}

/-- A walk through entries, in some order. -/
structure Walk (α : Type) where
  visit : List (Text × α) → List (Text × α)
  perm : ∀ entries, (visit entries).Perm entries

/-- The value of a name in a sequence of which a later pair wins. -/
def lastValue? (name : Text) : List (Text × α) → Option α
  | [] => none
  | pair :: rest => (lastValue? name rest).or (if pair.1 = name then some pair.2 else none)

def Distinct (pairs : List (Text × α)) : Prop := (pairs.map Prod.fst).Nodup

instance (pairs : List (Text × α)) : Decidable (Distinct pairs) :=
  inferInstanceAs (Decidable (pairs.map Prod.fst).Nodup)

theorem find?_insertAll_eq (table : Table α) (pairs : List (Text × α)) (name : Text) :
    (table.insertAll pairs).find? name = (lastValue? name pairs).or (table.find? name) := by
  induction pairs generalizing table with
  | nil => rfl
  | cons pair rest ih =>
    have inserted := ih (table.insert pair.1 pair.2)
    rw [find?_insert] at inserted
    rw [lastValue?,Option.or_assoc]
    by_cases same : pair.1 = name
    · rw [if_pos same] at inserted ⊢
      exact inserted
    · rw [if_neg same] at inserted ⊢
      exact inserted

theorem lastValue?_append (name : Text) (pairs others : List (Text × α)) :
    lastValue? name (pairs ++ others) = (lastValue? name others).or (lastValue? name pairs) := by
  induction pairs with
  | nil => rw [List.nil_append,lastValue?,Option.or_none]
  | cons pair rest ih => rw [List.cons_append,lastValue?,ih,lastValue?,Option.or_assoc]

section distinct

variable {pairs others : List (Text × α)} {name : Text}

theorem lastValue?_eq_none (absent : name ∉ pairs.map Prod.fst) : lastValue? name pairs = none := by
  induction pairs with
  | nil => rfl
  | cons pair rest ih =>
    rw [List.map_cons,List.mem_cons,not_or] at absent
    rw [lastValue?,ih absent.2,if_neg (Ne.symm absent.1)]
    rfl

theorem lastValue?_eq_some (distinct : Distinct pairs) (value : α) :
    lastValue? name pairs = some value ↔ (name,value) ∈ pairs := by
  induction pairs with
  | nil => simp [lastValue?]
  | cons pair rest ih =>
    obtain ⟨key,held⟩ := pair
    obtain ⟨fresh,later⟩ := List.nodup_cons.mp distinct
    rw [lastValue?,List.mem_cons,← ih later]
    by_cases same : key = name
    · subst same
      rw [lastValue?_eq_none fresh,if_pos rfl]
      simp [eq_comm]
    · rw [if_neg same,Option.or_none]
      simp [Ne.symm same]

/-- The order of a walk makes no difference to what it finds. -/
theorem lastValue?_perm (distinct : Distinct others) (walked : pairs.Perm others) :
    lastValue? name pairs = lastValue? name others := by
  have distinct' : Distinct pairs := (walked.map Prod.fst).nodup_iff.mpr distinct
  apply Option.ext
  intro value
  rw [lastValue?_eq_some distinct',lastValue?_eq_some distinct,walked.mem_iff]

theorem find?_eq_lastValue? {table : Table α} (distinct : Distinct table.entries) (name : Text) :
    table.find? name = lastValue? name table.entries := by
  obtain ⟨entries⟩ := table
  induction entries with
  | nil => rfl
  | cons entry rest ih =>
    obtain ⟨fresh,later⟩ := List.nodup_cons.mp distinct
    rw [lastValue?]
    by_cases same : entry.1 = name
    · subst same
      rw [lastValue?_eq_none fresh,if_pos rfl]
      simp [find?]
    · rw [if_neg same,Option.or_none,← ih later]
      simp [find?,same]

theorem lastValue?_filterMap (distinct : Distinct pairs) (pick : α → Option β) :
    lastValue? name (pairs.filterMap fun pair => (pick pair.2).map fun value => (pair.1,value)) =
      (lastValue? name pairs).bind pick := by
  induction pairs with
  | nil => rfl
  | cons pair rest ih =>
    obtain ⟨fresh,later⟩ := List.nodup_cons.mp distinct
    rw [List.filterMap_cons,lastValue?]
    by_cases same : pair.1 = name
    · subst same
      have absent := lastValue?_eq_none fresh
      rw [absent,if_pos rfl,Option.none_or,Option.bind_some]
      have ih := ih later
      rw [absent,Option.bind_none] at ih
      cases picked : pick pair.2 with
      | none => exact ih
      | some value =>
        simp only [Option.map_some,lastValue?,ih,if_true,Option.none_or]
    · rw [if_neg same,Option.or_none,← ih later]
      cases picked : pick pair.2 with
      | none => rfl
      | some value => simp only [Option.map_some,lastValue?,if_neg same,Option.or_none]

/-- What a walk finds among the entries that can be picked. -/
theorem lastValue?_visit {table : Table α} (distinct : Distinct table.entries) (walk : Walk α)
    (pick : α → Option β) :
    lastValue? name ((walk.visit table.entries).filterMap fun pair =>
        (pick pair.2).map fun value => (pair.1,value)) = (table.find? name).bind pick := by
  have walked := walk.perm table.entries
  have distinct' : Distinct (walk.visit table.entries) :=
    (walked.map Prod.fst).nodup_iff.mpr distinct
  rw [lastValue?_filterMap distinct',lastValue?_perm distinct walked,find?_eq_lastValue? distinct]

end distinct

theorem names_insertEntry (name : Text) (value : α) (entries : List (Text × α)) (key : Text) :
    key ∈ (insertEntry name value entries).map Prod.fst ↔
      key = name ∨ key ∈ entries.map Prod.fst := by
  induction entries with
  | nil => simp [insertEntry]
  | cons entry rest ih =>
    rw [insertEntry]
    by_cases same : entry.1 = name
    · simp [same]
    · simp only [beq_iff_eq,if_neg same,List.map_cons,List.mem_cons,ih]
      exact or_left_comm

theorem distinct_insert {table : Table α} (distinct : Distinct table.entries) (name : Text)
    (value : α) : Distinct (table.insert name value).entries := by
  obtain ⟨entries⟩ := table
  change Distinct (insertEntry name value entries)
  induction entries with
  | nil => simp [insertEntry,Distinct]
  | cons entry rest ih =>
    obtain ⟨fresh,later⟩ := List.nodup_cons.mp distinct
    rw [insertEntry]
    by_cases same : entry.1 = name
    · rw [if_pos (beq_iff_eq.mpr same)]
      subst same
      exact distinct
    · rw [if_neg (by simpa using same)]
      refine List.nodup_cons.mpr ⟨?_,ih later⟩
      rw [names_insertEntry]
      rintro (equal | member)
      · exact same equal
      · exact fresh member

theorem distinct_insertAll {table : Table α} (distinct : Distinct table.entries)
    (pairs : List (Text × α)) : Distinct (table.insertAll pairs).entries := by
  induction pairs generalizing table with
  | nil => exact distinct
  | cons pair rest ih => exact ih (distinct_insert distinct pair.1 pair.2)

theorem distinct_empty : Distinct (empty : Table α).entries := List.nodup_nil

end WordMachine.Table
