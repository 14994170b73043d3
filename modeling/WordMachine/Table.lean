import WordMachine.Text.Basic

/-! Tables of named entries, in the order in which the names first appeared. -/
namespace WordMachine

structure Table (α : Type) where
  entries : List (Text × α)
  deriving DecidableEq

namespace Table

variable {α : Type}

def empty : Table α := ⟨[]⟩

def find? (table : Table α) (name : Text) : Option α :=
  (table.entries.find? (·.1 == name)).map (·.2)

def contains (table : Table α) (name : Text) : Bool := (table.find? name).isSome

/-- Entries with one entry set, in its old place if it had one. -/
def insertEntry (name : Text) (value : α) : List (Text × α) → List (Text × α)
  | [] => [(name, value)]
  | entry :: rest =>
    if entry.1 == name then (name, value) :: rest else entry :: insertEntry name value rest

/-- The table with one entry set, whether or not the name had one. -/
def insert (table : Table α) (name : Text) (value : α) : Table α :=
  ⟨insertEntry name value table.entries⟩

/-- The table with the entry of a name changed, if there is one. -/
def modify (table : Table α) (name : Text) (change : α → α) : Table α :=
  ⟨table.entries.map fun entry => if entry.1 == name then (entry.1, change entry.2) else entry⟩

def insertAll (table : Table α) (pairs : List (Text × α)) : Table α :=
  pairs.foldl (fun result pair => result.insert pair.1 pair.2) table

/-- The pairs of several sequences in one table; a later pair of a name wins. -/
def merge (sequences : List (List (Text × α))) : Table α :=
  insertAll empty sequences.flatten

end Table

/-- A visit of several sequences one after another, ended after `limit` pairs. -/
structure Visit (α : Type) where
  pairs : List (Text × α)
  started : Nat

namespace Visit

variable {α : Type}

/-- A visit of further sequences after the pairs in `done`. -/
def visitFrom (done : List (Text × α)) (started : Nat) :
    Nat → List (List (Text × α)) → Visit α
  | _, [] => ⟨done, started⟩
  | limit, sequence :: rest =>
    if limit ≤ sequence.length then ⟨done ++ sequence.take limit, started + 1⟩
    else visitFrom (done ++ sequence) (started + 1) (limit - sequence.length) rest

/-- The pairs seen and the number of sequences begun. No limit visits them all, and
a limit of 0 begins none. -/
def ofSequences (limit : Option Nat) (sequences : List (List (Text × α))) : Visit α :=
  match limit with
  | none => ⟨sequences.flatten, sequences.length⟩
  | some 0 => ⟨[], 0⟩
  | some limit => visitFrom [] 0 limit sequences

end Visit
end WordMachine
