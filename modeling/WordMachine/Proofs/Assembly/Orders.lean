import WordMachine.Proofs.Assembly.LineSteps
import WordMachine.Proofs.Assembly.Listing
import WordMachine.Proofs.Assembly.Trace
import WordMachine.Proofs.Machine.Likeness
import WordMachine.Proofs.Table.Order

/-! Assembling with the tables walked in any order. The first equates are filled from walks,
and so are the symbols of each expression, from the labels and then the equates that are
numbers. Whatever the orders, lines are read alike. -/
namespace WordMachine.Assembly

/-- The orders of all walks in the course of a source. The walks for two expressions are
told apart by the numbers of the lines that are being read, the innermost first, and by the
place in the line. -/
structure Orders where
  machine : Table.Walk Text
  system : Table.Walk Text
  predefined : Table.Walk Text
  labels : List Nat → Nat → Table.Walk Word
  equates : List Nat → Nat → Table.Walk Text

def numeric? (text : Text) : Option Int := (valueOf text).toOption.map fun word => (word.toNat : Int)

/-- The numbers among the pairs of a walk; a later one of a name wins. -/
def collect (pairs : List (Text × Text)) : Table Int :=
  Table.empty.insertAll
    (pairs.filterMap fun pair => (numeric? pair.2).map fun value => (pair.1,value))

namespace Orders

variable (orders : Orders)

def start (predefines : Table Text) (verbose : Bool) : State :=
  { equates := Table.merge
      [orders.machine.visit machineDefines,
        orders.system.visit [(lineName, ("0" : Text)), (hereName, ("0" : Text))],
        orders.predefined.visit predefines.entries]
    verbose := verbose }

def symbols (path : List Nat) (place : Nat) (state : State) : Table Int :=
  collect (((orders.labels path place).visit state.labels.entries).map
      (fun pair => (pair.1,Text.ofNat pair.2.toNat)) ++
    (orders.equates path place).visit state.equates.entries)

/-- A line with its expressions replaced while those in the path are being read. -/
def expandEmbedded (evaluate : Expression.Evaluator) (path : List Nat) : Expander :=
  fun state line =>
    joinPieces [] none ((Text.pieces embeddedLength line).mapIdx fun place =>
      pieceText evaluate (orders.symbols path place state).find?)

def readLine (evaluate : Expression.Evaluator) (depth : Nat) : Reader :=
  readNested (orders.expandEmbedded evaluate) depth []

end Orders

/-- Runs an action and says more of its failure. -/
def reporting {α : Type} (report : Error → Error) (action : Assemble α) : Assemble α := fun state =>
  match action state with
  | .ok result state => .ok result state
  | .error error state => .error (report error) state

theorem inMacroLine_reporting {α : Type} (name : Text) (line : Nat) (action : Assemble α) :
    inMacroLine name line action = reporting (.inMacro name line) action := rfl

theorem atLine_reporting {α : Type} (line : Nat) (text : Text) (action : Assemble α) :
    atLine line text action = reporting (.atLine line text) action := rfl

/-- Two states with the same entries in their tables, where the first one's tables have no
name twice. The equates may be in different orders. -/
structure Twin (left right : State) : Prop where
  labels : right.labels = left.labels
  equates : ∀ name, right.equates.find? name = left.equates.find? name
  macros : right.macros = left.macros
  statements : right.statements = left.statements
  links : right.links = left.links
  labelled : Table.Distinct left.labels.entries
  equated : Table.Distinct left.equates.entries

/-- Two actions that end alike in states with the same entries. -/
def Similar {α : Type} (first second : Assemble α) : Prop :=
  ∀ left right, Twin left right → Alike Twin (first left) (second right)

section similar

variable {α β : Type} {first second : Assemble α}

theorem similar_bind {next next' : α → Assemble β} (begun : Similar first second)
    (rest : ∀ value, Similar (next value) (next' value)) :
    Similar (first >>= next) (second >>= next') := by
  intro left right twin
  exact alike_bind (begun left right twin) rest

theorem similar_pure (value : α) : Similar (pure value : Assemble α) (pure value) :=
  respects_pure value

theorem similar_throw (error : Error) : Similar (throw error : Assemble α) (throw error) :=
  respects_throw error

theorem similar_failing (result : Except Error α) : Similar (failing result) (failing result) := by
  cases result with
  | ok value => exact similar_pure value
  | error error => exact similar_throw error

theorem similar_reporting (report : Error → Error) (alike : Similar first second) :
    Similar (reporting report first) (reporting report second) := by
  intro left right twin
  have ended := alike left right twin
  unfold reporting
  generalize first left = result at ended ⊢
  generalize second right = result' at ended ⊢
  cases ended with
  | ok value related => exact .ok value related
  | error error related => exact .error (report error) related

theorem similar_keepingEquates (alike : Similar first second) :
    Similar (keepingEquates first) (keepingEquates second) := by
  intro left right twin
  have ended := alike left right twin
  unfold keepingEquates
  generalize first left = result at ended ⊢
  generalize second right = result' at ended ⊢
  cases ended with
  | ok value related =>
    exact .ok value { related with equates := twin.equates, equated := twin.equated }
  | error error related =>
    exact .error error { related with equates := twin.equates, equated := twin.equated }

end similar

section states

variable {left right : State}

theorem twin_here (twin : Twin left right) : right.here = left.here := by
  unfold State.here
  rw [twin.statements]

theorem twin_note (twin : Twin left right) (text text' : Text) :
    Twin (left.note text) (right.note text') := by
  obtain ⟨log,same⟩ := note_log left text
  obtain ⟨log',same'⟩ := note_log right text'
  rw [same,same']
  exact { twin with }

theorem twin_equates (twin : Twin left right) {equates equates' : Table Text}
    (same : ∀ name, equates'.find? name = equates.find? name)
    (equated : Table.Distinct equates.entries) :
    Twin { left with equates := equates } { right with equates := equates' } :=
  { twin with equates := same, equated := equated }

theorem twin_equate (twin : Twin left right) (name value : Text) :
    Twin { left with equates := left.equates.insert name value }
      { right with equates := right.equates.insert name value } := by
  apply twin_equates twin _ (Table.distinct_insert twin.equated name value)
  intro other
  rw [Table.find?_insert,Table.find?_insert,twin.equates]

theorem twin_located (twin : Twin left right) (line : Nat) :
    Twin (located left line) (located right line) := by
  unfold located
  rw [twin_here twin]
  exact twin_equate (twin_equate twin lineName (Text.ofNat line)) hereName _

theorem twin_parameters (twin : Twin left right) (definition : MacroDef) (arguments : List Text) :
    Twin (bindParameters left definition arguments) (bindParameters right definition arguments) := by
  apply twin_equates twin _ (Table.distinct_insertAll twin.equated _)
  intro other
  rw [Table.find?_insertAll_eq,Table.find?_insertAll_eq,twin.equates]

theorem twin_label (twin : Twin left right) (name : Text) :
    Twin { left with labels := left.labels.insert name left.here }
      { right with labels := right.labels.insert name right.here } :=
  { twin with
    labels := by rw [twin.labels,twin_here twin]
    labelled := Table.distinct_insert twin.labelled name left.here }

theorem twin_emission (twin : Twin left right) (fields : List Text) (line : Nat)
    (operands : List Operand) :
    Twin (emission left fields line operands) (emission right fields line operands) :=
  { twin with
    statements := by simp only [emission,twin.statements,twin_here twin]
    links := by simp only [emission,twin.links,twin.statements] }

end states

section actions

theorem locate_similar (line : Nat) : Similar (locate line) (locate line) :=
  fun _ _ twin => .ok () (twin_located twin line)

theorem defineEquate_similar (fields : List Text) :
    Similar (defineEquate fields) (defineEquate fields) := by
  intro left right twin
  rcases fields with _ | ⟨head,_ | ⟨key,_ | ⟨value,_ | ⟨extra,rest⟩⟩⟩⟩
  case cons.cons.cons.nil =>
    have same : right.equates.contains key = left.equates.contains key := by
      unfold Table.contains
      rw [twin.equates]
    rw [defineEquate_eq,defineEquate_eq,same]
    split
    · exact .error _ twin
    · split
      · exact .error _ twin
      · exact .ok () (twin_equate twin key value)
  all_goals exact .error _ twin

theorem defineLabel_similar (name : Text) : Similar (defineLabel name) (defineLabel name) := by
  intro left right twin
  have defined := twin_label twin name
  rw [defineLabel_eq,defineLabel_eq]
  rw [twin.labels] at defined ⊢
  split
  · exact .error _ twin
  · split
    · exact .error _ twin
    · exact .ok () defined

theorem takeLabels_similar (fields : List Text) : Similar (takeLabels fields) (takeLabels fields) := by
  induction fields with
  | nil => exact similar_pure []
  | cons field rest ih =>
    rw [takeLabels]
    split
    · exact similar_bind (defineLabel_similar field.dropLast) fun _ => ih
    · exact similar_pure (field :: rest)

theorem statementOf_similar (fields : List Text) :
    Similar (statementOf fields) (statementOf fields) := by
  intro left right twin
  cases fields with
  | nil => exact .ok [] twin
  | cons head rest =>
    by_cases equate : head = (".equ" : Text)
    · subst equate
      rw [statementOf_equate,statementOf_equate]
      exact alike_bind (defineEquate_similar _ left right twin) fun _ => similar_pure []
    · simp only [statementOf_other equate,twin.equates]
      exact takeLabels_similar _ left right twin

theorem emit_similar (fields : List Text) (line : Nat) :
    Similar (emit fields line) (emit fields line) := by
  intro left right twin
  cases fields with
  | nil => exact .ok () twin
  | cons head arguments =>
    have given : head :: arguments ≠ [] := List.cons_ne_nil head arguments
    have here := twin_here twin
    cases encoded : encodeFields left.labels (head :: arguments) with
    | error error =>
      rw [emit_malformed line encoded,emit_malformed line (by rw [twin.labels,encoded])]
      exact .error error twin
    | ok operands =>
      have encoded' : encodeFields right.labels (head :: arguments) = .ok operands := by
        rw [twin.labels,encoded]
      by_cases large : memorySize < left.here.toNat + operands.length
      · rw [emit_overflow line given encoded large,
          emit_overflow line given encoded' (by rw [here]; exact large),here]
        exact .error _ twin
      · have room := Nat.le_of_not_lt large
        rw [emit_run line given encoded room,
          emit_run line given encoded' (by rw [here]; exact room)]
        exact .ok () (twin_emission (twin_note twin _ _) _ line operands)

theorem expandBody_similar {read read' : Reader}
    (alike : ∀ text line, Similar (read text line) (read' text line)) (name : Text) (line : Nat)
    (body : List Text) :
    Similar (expandBody read name line body) (expandBody read' name line body) := by
  induction body generalizing line with
  | nil => exact similar_pure ()
  | cons text rest ih =>
    rw [expandBody,expandBody,inMacroLine_reporting,inMacroLine_reporting]
    exact similar_bind (similar_reporting _ (alike _ line)) fun _ => ih (line + 1)

theorem expandMacro_similar {read read' : Reader}
    (alike : ∀ text line, Similar (read text line) (read' text line)) (name : Text)
    (definition : MacroDef) (arguments : List Text) :
    Similar (expandMacro read name definition arguments)
      (expandMacro read' name definition arguments) := by
  intro left right twin
  by_cases counted : arguments.length = definition.parameters.length
  · rw [expandMacro_run read name left counted,expandMacro_run read' name right counted]
    apply similar_keepingEquates _ left right twin
    intro left right twin
    exact expandBody_similar alike name definition.line definition.body.toList _ _
      (twin_parameters twin definition arguments)
  · rw [expandMacro_mismatch read name left counted,expandMacro_mismatch read' name right counted]
    exact .error _ twin

theorem perform_similar {readBody readBody' : Text → Reader}
    (alike : ∀ name text line, Similar (readBody name text line) (readBody' name text line))
    (line : Nat) (fields : List Text) :
    Similar (perform readBody line fields) (perform readBody' line fields) := by
  intro left right twin
  cases fields with
  | nil => exact .ok () twin
  | cons name arguments =>
    have same : right.macros.find? name = left.macros.find? name := by rw [twin.macros]
    cases found : left.macros.find? name with
    | none =>
      rw [perform_emit _ _ _ found,perform_emit _ _ _ (same.trans found)]
      exact emit_similar _ line left right twin
    | some definition =>
      rw [perform_expand _ _ _ found,perform_expand _ _ _ (same.trans found)]
      exact expandMacro_similar (alike name) name definition arguments left right twin

end actions

section symbols

theorem numeric?_ofNat (addr : Word) : numeric? (Text.ofNat addr.toNat) = some (addr.toNat : Int) := by
  rw [numeric?,valueOf_ofNat]
  rfl

theorem symbolValue?_eq (state : State) (name : Text) :
    symbolValue? state name = ((state.equates.find? name).bind numeric?).or
      ((state.labels.find? name).bind fun addr => some (addr.toNat : Int)) := by
  have label : (state.labels.find? name).map (fun addr => (addr.toNat : Int)) =
      (state.labels.find? name).bind fun addr => some (addr.toNat : Int) := by
    cases state.labels.find? name with
    | none => rfl
    | some addr => rfl
  unfold symbolValue?
  rw [label]
  cases state.equates.find? name with
  | none => rfl
  | some value =>
    rw [Option.map_some,Option.bind_some,numeric?]
    cases valueOf value with
    | ok word => rfl
    | error error => rfl

variable (orders : Orders) {left right : State}

theorem symbols_find? (twin : Twin left right) (path : List Nat) (place : Nat) (name : Text) :
    (orders.symbols path place left).find? name = symbolValue? right name := by
  have labels := @Table.lastValue?_visit _ _ name _ twin.labelled (orders.labels path place)
    fun addr => some (addr.toNat : Int)
  have equates := @Table.lastValue?_visit _ _ name _ twin.equated (orders.equates path place) numeric?
  unfold Orders.symbols collect
  rw [Table.find?_insertAll_eq,List.filterMap_append,Table.lastValue?_append,List.filterMap_map]
  simp only [Function.comp_def,numeric?_ofNat]
  rw [labels,equates,symbolValue?_eq,twin.equates,twin.labels]
  exact Option.or_none

theorem expandEmbedded_twin (twin : Twin left right) (evaluate : Expression.Evaluator)
    (path : List Nat) (line : Text) :
    orders.expandEmbedded evaluate path left line = expandEmbedded evaluate right line := by
  have symbols : ∀ place, (orders.symbols path place left).find? = symbolValue? right :=
    fun place => funext (symbols_find? orders twin path place)
  unfold Orders.expandEmbedded expandEmbedded
  simp only [symbols]
  congr 1
  apply List.ext_getElem?
  intro place
  rw [List.getElem?_mapIdx,List.getElem?_map]

end symbols

section lines

theorem statementFields_similar {expand expand' : Expander}
    (same : ∀ left right text, Twin left right → expand left text = expand' right text)
    (text : Text) (line : Nat) :
    Similar (statementFields expand text line) (statementFields expand' text line) := by
  apply similar_bind (locate_similar line)
  intro _ left right twin
  rw [get_bind,get_bind,same left right text twin]
  exact similar_bind (similar_failing _) (fun _ => statementOf_similar _) left right twin

/-- A line is read alike where its expressions, and those of the lines of the macros that it
calls, are replaced alike. -/
theorem readNested_similar {expand expand' : List Nat → Expander}
    (same : ∀ path left right text, Twin left right → expand path left text = expand' path right text)
    (depth : Nat) (path : List Nat) (text : Text) (line : Nat) :
    Similar (readNested expand depth path text line) (readNested expand' depth path text line) := by
  induction depth generalizing path text line with
  | zero =>
    rw [readNested,readNested,lineWith_eq,lineWith_eq]
    exact similar_bind (statementFields_similar (same _) text line)
      (perform_similar (fun name _ _ => similar_throw (.macroDepth name)) line)
  | succ depth ih =>
    rw [readNested,readNested,lineWith_eq,lineWith_eq]
    exact similar_bind (statementFields_similar (same _) text line)
      (perform_similar (fun _ => ih (line :: path)) line)

/-- The orders in which the tables are walked do not show. -/
theorem readLine_similar (orders : Orders) (evaluate : Expression.Evaluator) (depth : Nat)
    (text : Text) (line : Nat) :
    Similar (orders.readLine evaluate depth text line) (readLine evaluate depth text line) :=
  readNested_similar (fun path _ _ text twin => expandEmbedded_twin orders twin evaluate path text)
    depth [] text line

end lines

section source

/-- Two lines that are the same when their literals are expanded and their comments cut. -/
structure SameLine (raw raw' : Text) : Prop where
  long : lineLimit ≤ raw.length ↔ lineLimit ≤ raw'.length
  literals : expandLiterals (Text.dropReturn raw) = expandLiterals (Text.dropReturn raw')

theorem sameLines_refl (lines : List Text) : List.Forall₂ SameLine lines lines :=
  List.forall₂_same.mpr fun _ _ => ⟨Iff.rfl,rfl⟩

theorem openMacro_similar (line : Nat) (fields : List Text) :
    Similar (openMacro line fields) (openMacro line fields) := by
  intro left right twin
  rcases fields with _ | ⟨head,_ | ⟨name,parameters⟩⟩
  · exact .error _ twin
  · exact .error _ twin
  · rw [openMacro_eq,openMacro_eq,twin.macros]
    split
    · exact .error _ twin
    · exact .ok name { twin with macros := rfl }

variable {read read' : Reader} (alike : ∀ text line, Similar (read text line) (read' text line))
include alike

theorem sourceLine_similar (opened : Option Text) (line : Nat) (text : Text) :
    Similar (sourceLine read opened line text) (sourceLine read' opened line text) := by
  unfold sourceLine
  dsimp only
  split
  · cases opened with
    | none => exact similar_bind (openMacro_similar line _) fun name => similar_pure (some name)
    | some name => exact similar_throw _
  · split
    · cases opened with
      | none => exact similar_throw _
      | some name => exact similar_pure none
    · cases opened with
      | none =>
        exact similar_bind (alike text line) fun _ => similar_pure none
      | some name =>
        intro left right twin
        exact .ok _ { twin with macros := by simp only [twin.macros] }

theorem sourceLines_similar (line : Nat) (text : Text) (opened : Option Text)
    {lines lines' : List Text} (same : List.Forall₂ SameLine lines lines') :
    Similar (sourceLines read line text opened lines)
      (sourceLines read' line text opened lines') := by
  induction same generalizing line text opened with
  | nil =>
    cases opened with
    | none => exact similar_pure ()
    | some name => exact similar_throw _
  | @cons raw raw' rest rest' first later ih =>
    rw [sourceLines,sourceLines,if_congr first.long rfl rfl]
    split
    · exact similar_throw _
    · apply similar_bind (fun left right twin => .ok () (twin_note twin _ _))
      intro _
      rw [first.literals]
      cases expandLiterals (Text.dropReturn raw') with
      | error text => exact similar_throw _
      | ok text =>
        dsimp only
        rw [atLine_reporting,atLine_reporting]
        exact similar_bind
          (similar_reporting _ (sourceLine_similar alike opened (line + 1) text))
          fun opened => ih (line + 1) text opened

theorem assemble_similar {source source' : Text}
    (same : List.Forall₂ SameLine source.lines source'.lines) :
    Similar (assemble read source) (assemble read' source') := by
  apply similar_bind (sourceLines_similar alike 0 [] none same)
  intro _
  apply similar_bind
  · intro left right twin
    unfold resolveLinks
    rw [get_bind,get_bind,twin.labels,twin.links,twin.statements]
    exact similar_failing _ left right twin
  · intro statements left right twin
    exact .ok _ { twin with statements := rfl }

end source

section start

theorem machineDefines_distinct : Table.Distinct machineDefines := by decide +kernel

/-- The first equates of a source depend on the predefined ones as a table, not on the order
of their walks. -/
theorem start_twin (orders : Orders) {predefines predefines' : Table Text}
    (distinct : Table.Distinct predefines.entries) (distinct' : Table.Distinct predefines'.entries)
    (same : ∀ name, predefines.find? name = predefines'.find? name) (verbose verbose' : Bool) :
    Twin (orders.start predefines verbose) (State.start predefines' verbose') where
  labels := rfl
  equates := by
    intro name
    have system : Table.Distinct [(lineName, ("0" : Text)), (hereName, ("0" : Text))] := by
      decide +kernel
    have machine := @Table.lastValue?_perm _ _ _ name machineDefines_distinct
      (orders.machine.perm machineDefines)
    have system := @Table.lastValue?_perm _ _ _ name system (orders.system.perm _)
    have predefined := @Table.lastValue?_perm _ _ _ name distinct
      (orders.predefined.perm predefines.entries)
    rw [← Table.find?_eq_lastValue? distinct,same,Table.find?_eq_lastValue? distinct'] at predefined
    simp only [State.start,Orders.start,Table.merge,Table.find?_insertAll_eq,List.flatten_cons,
      Table.lastValue?_append,machine,system,predefined]
  macros := rfl
  statements := rfl
  links := rfl
  labelled := Table.distinct_empty
  equated := Table.distinct_insertAll Table.distinct_empty _

end start

end WordMachine.Assembly
