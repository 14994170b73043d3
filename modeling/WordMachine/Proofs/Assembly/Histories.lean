import WordMachine.Proofs.Assembly.Orders

/-! Assemblers that were used before. What comes of a source depends on the source and on the
values that were last predefined: not on earlier sources, accepted or not, nor on the order
of the calls, nor on the orders in which the tables are walked. -/
namespace WordMachine.Assembler

open Assembly (Orders Twin)

section calls

variable (evaluate : Expression.Evaluator) (depth : Nat)

/-- Assembles a source with the tables walked in the given orders. -/
def parseIn (orders : Orders) (assembler : Assembler) (source : Text) :
    Except Error Program × Assembler :=
  match Assembly.assemble (orders.readLine evaluate depth) source
      (orders.start assembler.predefines assembler.verbose) with
  | .ok program state => (.ok program, { assembler with state := state })
  | .error error state => (.error error, { assembler with state := state })

/-- What an assembler is used for. -/
inductive Call where
  | predefine (name value : Text)
  | parse (orders : Orders) (source : Text)

def Call.definition? : Call → Option (Text × Text)
  | .predefine name value => some (name, value)
  | .parse _ _ => none

def use (assembler : Assembler) : Call → Assembler
  | .predefine name value => assembler.predefine name value
  | .parse orders source => (assembler.parseIn evaluate depth orders source).2

def after (verbose : Bool) (calls : List Call) : Assembler :=
  calls.foldl (use evaluate depth) { verbose := verbose }

end calls

def predefined? (calls : List Call) (name : Text) : Option Text :=
  Table.lastValue? name (calls.filterMap Call.definition?)

section predefines

variable (evaluate : Expression.Evaluator) (depth : Nat)

theorem parseIn_predefines (orders : Orders) (assembler : Assembler) (source : Text) :
    (assembler.parseIn evaluate depth orders source).2.predefines = assembler.predefines := by
  unfold parseIn
  split
  · rfl
  · rfl

theorem foldl_predefines (assembler : Assembler) (calls : List Call) :
    (calls.foldl (use evaluate depth) assembler).predefines =
      assembler.predefines.insertAll (calls.filterMap Call.definition?) := by
  induction calls generalizing assembler with
  | nil => rfl
  | cons call rest ih =>
    rw [List.foldl_cons,ih]
    cases call with
    | predefine name value => rfl
    | parse orders source =>
      rw [use,parseIn_predefines]
      rfl

variable (verbose : Bool) (calls : List Call)

theorem after_predefines (name : Text) :
    (after evaluate depth verbose calls).predefines.find? name = predefined? calls name := by
  unfold after
  rw [foldl_predefines,Table.find?_insertAll_eq]
  exact Option.or_none

theorem after_distinct : Table.Distinct (after evaluate depth verbose calls).predefines.entries := by
  unfold after
  rw [foldl_predefines]
  exact Table.distinct_insertAll Table.distinct_empty _

end predefines

/-- The same program or error, and the same labels, macros and equates after it. -/
structure SameParse (first second : Except Error Program × Assembler) : Prop where
  result : second.1 = first.1
  labels : second.2.state.labels = first.2.state.labels
  macros : second.2.state.macros = first.2.state.macros
  equates : ∀ name, second.2.state.equates.find? name = first.2.state.equates.find? name

theorem sameParse_of_twin {evaluate : Expression.Evaluator} {depth : Nat} {orders : Orders}
    {assembler other : Assembler} (source : Text)
    (begun : Twin (orders.start assembler.predefines assembler.verbose)
      (Assembly.State.start other.predefines other.verbose)) :
    SameParse (assembler.parseIn evaluate depth orders source) (other.parse evaluate depth source) := by
  have ended := Assembly.assemble_similar (Assembly.readLine_similar orders evaluate depth)
    (Assembly.sameLines_refl source.lines) _ _ begun
  unfold parseIn parse
  generalize Assembly.assemble (orders.readLine evaluate depth) source _ = result at ended ⊢
  generalize Assembly.assemble (Assembly.readLine evaluate depth) source _ = result' at ended ⊢
  cases ended with
  | ok program twin => exact ⟨rfl,twin.labels,twin.macros,twin.equates⟩
  | error error twin => exact ⟨rfl,twin.labels,twin.macros,twin.equates⟩

/-- Two assemblers with any histories make the same of a source if the values that were last
predefined are the same, whatever the orders in which one of them walks its tables, and
whatever evaluates expressions from their texts and symbols. -/
theorem parse_depends_on_predefined (evaluate : Expression.Evaluator) (depth : Nat)
    (orders : Orders) (verbose verbose' : Bool) (calls calls' : List Call) (source : Text)
    (same : ∀ name, predefined? calls name = predefined? calls' name) :
    SameParse ((after evaluate depth verbose calls).parseIn evaluate depth orders source)
      ((after evaluate depth verbose' calls').parse evaluate depth source) := by
  apply sameParse_of_twin
  apply Assembly.start_twin orders (after_distinct evaluate depth verbose calls)
    (after_distinct evaluate depth verbose' calls')
  intro name
  rw [after_predefines,after_predefines,same]

def backwards : Orders where
  machine := ⟨List.reverse,List.reverse_perm⟩
  system := ⟨List.reverse,List.reverse_perm⟩
  predefined := ⟨List.reverse,List.reverse_perm⟩
  labels _ _ := ⟨List.reverse,List.reverse_perm⟩
  equates _ _ := ⟨List.reverse,List.reverse_perm⟩

/-- A source that fails inside of a macro comes between the predefined equates. -/
def usedBefore : List Call :=
  [.predefine "A" "1", .predefine "B" "3",
    .parse backwards ".macro inner\n@x: bad\n.endm\n.macro outer A\ninner\n.endm\nouter 9",
    .predefine "A" "2"]

def symbolSource : Text := ".data A $(A+B)\nx: noop\n.data $(x+HERE) x"

theorem parse_depends_on_predefined_usedBefore :
    ((after Expression.evaluate 2 true usedBefore).parseIn Expression.evaluate 2 backwards
      symbolSource).1.toOption.map Program.words =
      some [2, 5, 21, 5, 2] := by
  have same : ∀ name, predefined? usedBefore name =
      predefined? [.predefine "A" "2", .predefine "B" "3"] name := by
    intro name
    simp only [predefined?,usedBefore,List.filterMap_cons,Call.definition?,List.filterMap_nil,
      Table.lastValue?]
    by_cases first : ("A" : Text) = name
    · subst first
      decide +kernel
    · simp [first]
  have evaluated : ((after Expression.evaluate 2 false [.predefine "A" "2",
      .predefine "B" "3"]).parse Expression.evaluate 2 symbolSource).1.toOption.map Program.words = some [2, 5, 21, 5, 2] := by
    decide +kernel
  rw [← (parse_depends_on_predefined Expression.evaluate 2 backwards true false usedBefore _ _ same).result]
  exact evaluated

end WordMachine.Assembler
