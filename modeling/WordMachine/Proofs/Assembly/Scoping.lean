import WordMachine.Proofs.Assembly.Turns

/-! The scope of a macro that is called. What its lines bind and equate ends with the call,
and so does what the macros bind that they call in turn, wherever one of them fails. What they
emit and the labels that they define stay. -/
namespace WordMachine.Assembly

/-- The first field after the labels names a macro. -/
def Turn.Calls (evaluate : Expression.Evaluator) (turn : Turn) : Prop :=
  ∃ name arguments definition, turn.statement evaluate = name :: arguments ∧
    turn.state.macros.find? name = some definition

/-- What a call leaves of the state before it: the same macros, the same equates with the
number and the address of the calling line, and all labels, statements and links. -/
structure Turn.Scoped (turn : Turn) (after : State) : Prop where
  equates : after.equates =
    (turn.state.equates.insert lineName (Text.ofNat turn.line)).insert hereName
      (Text.ofNat turn.state.here.toNat)
  macros : after.macros = turn.state.macros
  labels : turn.state.labels.Within after.labels
  statements : turn.state.statements.toList <+: after.statements.toList
  links : turn.state.links.toList <+: after.links.toList

theorem links_stable (first : State) :
    Stable fun state => first.links.toList <+: state.links.toList where
  silent := by
    intro before after same links
    rwa [same.links]
  label := by
    intro state name shaped free links
    exact links
  emission := by
    intro state fields line operands given encoded fits links
    exact links.trans (by simp [emission])

theorem calls_written {evaluate : Expression.Evaluator} {turn : Turn}
    (calls : turn.Calls evaluate) : (turn.written evaluate).head? ≠ some (".equ" : Text) := by
  intro equate
  obtain ⟨name,arguments,definition,statement,-⟩ := calls
  rw [Turn.statement,Turn.fields,if_pos equate] at statement
  cases statement

/-- A call of a macro, with whatever macros are called from it, leaves no equate behind and
destroys none, whether it succeeds or fails at any depth. Macros stay as they are, and labels,
statements and links are only added. -/
theorem macro_call_scoped {evaluate : Expression.Evaluator} {turn : Turn}
    (calls : turn.Calls evaluate) (depth : Nat) :
    turn.Scoped (stateAfter (readLine evaluate depth turn.text turn.line turn.state)) := by
  have extended := keeps_readLine (extends_stable turn.state) evaluate depth turn.text turn.line
    turn.state (extends_refl turn.state)
  exact {
    equates := readLine_equates depth (calls_written calls)
    macros := readLine_macros evaluate depth turn.text turn.line turn.state rfl
    labels := extended.labels
    statements := extended.statements
    links := keeps_readLine (links_stable turn.state) evaluate depth turn.text turn.line
      turn.state (List.prefix_refl _) }

/-- A call whose argument hides an equate. The macro has an equate of its own and calls
another one, which binds its parameter over the second equate, emits data, and fails. -/
def hidingCall : Turn where
  text := "start: outer 5"
  line := 9
  state :=
    { equates := ⟨[("X","1"),("Y","2")]⟩
      macros := ⟨[("outer",{ line := 2, parameters := ["X"], body := #[".equ Z 7","inner X"] }),
        ("inner",{ line := 6, parameters := ["Y"], body := #[".data X Y Z","nothing"] })]⟩ }

def hidingRead : EStateM.Result Error State Unit :=
  readLine Expression.evaluate 2 hidingCall.text hidingCall.line hidingCall.state

theorem macro_call_scoped_hiding : hidingCall.Calls Expression.evaluate ∧
    failureOf hidingRead =
      some (.inMacro "outer" 3 (.inMacro "inner" 7 (.plain .unknownOpcode))) ∧
    hidingCall.Scoped (stateAfter hidingRead) ∧
    (stateAfter hidingRead).equates = ⟨[("X","1"),("Y","2"),("LINENO","9"),("HERE","0")]⟩ ∧
    (stateAfter hidingRead).statements.toList.map Statement.words = [[5,5,7]] := by
  have calls : hidingCall.Calls Expression.evaluate :=
    ⟨"outer",["5"],{ line := 2, parameters := ["X"], body := #[".equ Z 7","inner X"] },
      by decide +kernel,by decide +kernel⟩
  have kept := macro_call_scoped calls 2
  refine ⟨calls,by decide +kernel,kept,?_,by decide +kernel⟩
  change (stateAfter (readLine Expression.evaluate 2 hidingCall.text hidingCall.line
    hidingCall.state)).equates = _
  rw [kept.equates]
  decide +kernel

end WordMachine.Assembly
