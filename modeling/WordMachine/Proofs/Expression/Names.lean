import WordMachine.Expression.Evaluate

/-! The names that an expression mentions. Its value depends on the symbols of a program
only where they give those names a meaning. -/
namespace WordMachine.Expression

/-- What comes of a text is decided by the symbols whose names it mentions. -/
def DeterminedBy (mentions : Text → List Text) (evaluate : Evaluator) : Prop :=
  ∀ text symbols symbols', (∀ name ∈ mentions text, symbols name = symbols' name) →
    evaluate symbols text = evaluate symbols' text

namespace Tree

mutual

theorem evaluate_congr {lookup lookup' : Text → Option Value} (tree : Tree)
    (agree : ∀ name ∈ tree.names, lookup name = lookup' name) :
    tree.evaluate lookup = tree.evaluate lookup' := by
  cases tree with
  | integer value | decimal value | text content => rfl
  | name content => exact agree content (by simp [names])
  | tuple items =>
    have same := evaluateAll_congr items agree
    simp only [evaluate,same]
  | unary operator operand | negation operand | member operand name =>
    have same := evaluate_congr operand agree
    simp only [evaluate,same]
  | binary operator left right | conjunction left right | disjunction left right =>
    have same := evaluate_congr left fun name member => agree name (by simp [names,member])
    have same' := evaluate_congr right fun name member => agree name (by simp [names,member])
    simp only [evaluate,same,same']
  | choice condition yes no =>
    have decided := evaluate_congr condition fun name member => agree name (by simp [names,member])
    have same := evaluate_congr yes fun name member => agree name (by simp [names,member])
    have same' := evaluate_congr no fun name member => agree name (by simp [names,member])
    simp only [evaluate,decided,same,same']
  | call function arguments =>
    have called := evaluate_congr function fun name member => agree name (by simp [names,member])
    have same := evaluateAll_congr arguments fun name member => agree name (by simp [names,member])
    simp only [evaluate,called,same]

theorem evaluateAll_congr {lookup lookup' : Text → Option Value} (items : List Tree)
    (agree : ∀ name ∈ namesOfAll items, lookup name = lookup' name) :
    evaluateAll lookup items = evaluateAll lookup' items := by
  cases items with
  | nil => rfl
  | cons item rest =>
    have same := evaluate_congr item fun name member => agree name (by simp [namesOfAll,member])
    have same' := evaluateAll_congr rest fun name member => agree name (by simp [namesOfAll,member])
    simp only [evaluateAll,same,same']

end

end Tree

/-- The names in a text that is an expression. -/
def namesIn (text : Text) : List Text :=
  match read? text with
  | some (.assignment tree) | some (.comparison tree) => tree.names
  | none => []

theorem all_congr {names : List Text} {first second : Text → Bool}
    (agree : ∀ name ∈ names, first name = second name) : names.all first = names.all second := by
  induction names with
  | nil => rfl
  | cons name rest ih =>
    rw [List.all_cons,List.all_cons,agree name List.mem_cons_self,
      ih fun other member => agree other (List.mem_cons_of_mem name member)]

theorem evaluate_names : DeterminedBy namesIn evaluate := by
  intro text symbols symbols' agree
  unfold evaluate
  unfold namesIn at agree
  cases written : read? text with
  | none => rfl
  | some clause =>
    rw [written] at agree
    cases clause with
    | assignment tree =>
      have meanings : ∀ name ∈ tree.names, meaning? symbols name = meaning? symbols' name := by
        intro name member
        unfold meaning?
        rw [agree name member]
      have known : (tree.names.all fun name => name == resultName || (meaning? symbols name).isSome) =
          tree.names.all fun name => name == resultName || (meaning? symbols' name).isSome := by
        apply all_congr
        intro name member
        rw [meanings name member]
      have same : tree.evaluate (fun name => if name = resultName then none else meaning? symbols name) =
          tree.evaluate (fun name => if name = resultName then none else meaning? symbols' name) := by
        apply Tree.evaluate_congr
        intro name member
        rw [meanings name member]
      simp only [known,same]
    | comparison tree =>
      have meanings : ∀ name ∈ tree.names, meaning? symbols name = meaning? symbols' name := by
        intro name member
        unfold meaning?
        rw [agree name member]
      have known : (tree.names.all fun name => (meaning? symbols name).isSome) =
          tree.names.all fun name => (meaning? symbols' name).isSome := by
        apply all_congr
        intro name member
        rw [meanings name member]
      simp only [known,Tree.evaluate_congr tree meanings]

end WordMachine.Expression
