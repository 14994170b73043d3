import WordMachine.Assembly.Embedded
import WordMachine.Assembly.Line

/-! The assembler: lines, labels, equates, macros, and the links that wait for labels. -/
namespace WordMachine.Assembly

/-- A result that was computed without the state. -/
def failing {α : Type} : Except Error α → Assemble α
  | .ok value => pure value
  | .error error => throw error

def pendingLinks (statement : Nat) (operands : List Operand) : List Link :=
  operands.zipIdx.filterMap fun (operand, index) =>
    operand.label?.map fun label => { statement := statement, index := index, label := label }

def emit (fields : List Text) (line : Nat) : Assemble Unit := do
  if fields.isEmpty then return
  let state ← get
  let operands ← failing (encodeFields state.labels fields)
  let addr := state.here
  let size := addr.toNat + operands.length
  if memorySize < size then throw (.capacity size)
  let words := operands.map Operand.emitted
  let report := Text.hex4 addr.toNat ++ (": " : Text) ++ Text.bracketed fields ++ [Byte.space]
    ++ Text.bracketed (words.map Word.text)
  modify fun state =>
    let links := pendingLinks state.statements.size operands
    { state.note report with
      statements := state.statements.push { line, addr, fields, words }
      links := state.links.appendList links }

/-- Makes the line number and the address known to the line that is read. -/
def locate (line : Nat) : Assemble Unit :=
  modify fun state =>
    { state with
      equates := (state.equates.insert lineName (Text.ofNat line)).insert hereName
        (Text.ofNat state.here.toNat) }

def defineEquate : List Text → Assemble Unit
  | [_, name, value] => do
    if !isName name then throw (.plain .equateForm)
    if (← get).equates.contains name then throw (.plain .equateRepeated)
    modify fun state => { state with equates := state.equates.insert name value }
  | _ => throw (.plain .equateForm)

def defineLabel (name : Text) : Assemble Unit := do
  if !isName name then throw (.plain .labelForm)
  if (← get).labels.contains name then throw (.plain .labelRepeated)
  modify fun state => { state with labels := state.labels.insert name state.here }

def takeLabels : List Text → Assemble (List Text)
  | [] => return []
  | field :: rest =>
    if field.getLast? = some Byte.colon then do
      defineLabel field.dropLast
      takeLabels rest
    else return field :: rest

/-- Runs an action and then puts back the equates, whether or not it fails. -/
def keepingEquates {α : Type} (action : Assemble α) : Assemble α := fun state =>
  let equates := state.equates
  match action state with
  | .ok result state => .ok result { state with equates := equates }
  | .error error state => .error error { state with equates := equates }

def inMacroLine {α : Type} (name : Text) (line : Nat) (action : Assemble α) : Assemble α :=
  fun state =>
    match action state with
    | .ok result state => .ok result state
    | .error error state => .error (.inMacro name line error) state

/-- The text that stands for an at sign in a line of a macro's body. -/
def expansionMark (name : Text) (line : Nat) : Text :=
  name ++ [Byte.underscore] ++ Text.ofNat line ++ [Byte.underscore]

/-- How a line of a given number is read. -/
abbrev Reader := Text → Nat → Assemble Unit

def expandBody (read : Reader) (name : Text) : Nat → List Text → Assemble Unit
  | _, [] => return
  | line, text :: rest => do
    inMacroLine name line
      (read (Text.substitute Byte.atSign (expansionMark name line) text) line)
    expandBody read name (line + 1) rest

/-- Expands a macro with its parameters as equates of the body only. -/
def expandMacro (read : Reader) (name : Text) (definition : MacroDef) (arguments : List Text) :
    Assemble Unit := do
  if arguments.length ≠ definition.parameters.length then throw (.plain .macroForm)
  keepingEquates do
    modify fun state =>
      { state with equates := state.equates.insertAll (definition.parameters.zip arguments) }
    expandBody read name definition.line definition.body.toList

/-- How the expressions of a line are replaced. -/
abbrev Expander := State → Text → Except Error Text

/-- Reads one line. Expressions are replaced first; a line is then an equate, or labels
followed by a macro call, an instruction or a data directive. The lines of a macro that is
called are read by `readBody`. -/
def lineWith (expand : Expander) (readBody : Text → Reader) : Reader := fun text line => do
  locate line
  let fields := Text.fields (← failing (expand (← get) text))
  match fields with
  | [] => return
  | head :: _ =>
    if head = (".equ" : Text) then defineEquate fields
    else
      let equates := (← get).equates
      let fields ← takeLabels (fields.map fun field => (equates.find? field).getD field)
      match fields with
      | [] => return
      | name :: arguments =>
        match (← get).macros.find? name with
        | none => emit fields line
        | some definition => expandMacro (readBody name) name definition arguments

/-- Reads one line where macros may call macros down to the given depth. How expressions
are replaced may depend on the numbers of the lines that are being read, which are the
path, the innermost first. -/
def readNested (expand : List Nat → Expander) : Nat → List Nat → Reader
  | 0, path, text, line =>
    lineWith (expand (line :: path)) (fun name _ _ => throw (.macroDepth name)) text line
  | depth + 1, path, text, line =>
    lineWith (expand (line :: path)) (fun _ => readNested expand depth (line :: path)) text line

def readLine (evaluate : Expression.Evaluator) (depth : Nat) : Reader :=
  readNested (fun _ => expandEmbedded evaluate) depth []

def openMacro (line : Nat) : List Text → Assemble Text
  | _ :: name :: parameters => do
    if (← get).macros.contains name then throw (.plain .macroRepeated)
    modify fun state =>
      { state with macros := state.macros.insert name { line := line + 1, parameters } }
    return name
  | _ => throw (.plain .macroForm)

/-- Reads one line of a source. The result is the macro whose definition is open after
the line. -/
def sourceLine (read : Reader) (opened : Option Text) (line : Nat) (text : Text) :
    Assemble (Option Text) := do
  let fields := Text.fields text
  let head := fields.head?
  if head = some (".macro" : Text) then
    if opened.isSome then throw (.plain .macroNested)
    return some (← openMacro line fields)
  else if head = some (".endm" : Text) then
    if opened.isNone then throw (.plain .macroUnopened)
    return none
  else
    match opened with
    | some name =>
      modify fun state =>
        { state with
          macros := state.macros.modify name fun definition =>
            { definition with body := definition.body.push text } }
      return some name
    | none =>
      read text line
      return none

def atLine {α : Type} (line : Nat) (text : Text) (action : Assemble α) : Assemble α :=
  fun state =>
    match action state with
    | .ok result state => .ok result state
    | .error error state => .error (.atLine line text error) state

/-- Lines of this many bytes or more are refused. -/
def lineLimit : Nat := 65536

/-- Reads the lines of a source after line number `line`, whose text was `text`. A line
that is too long and a definition that is never closed are reported at the line before. -/
def sourceLines (read : Reader) : Nat → Text → Option Text → List Text → Assemble Unit
  | line, text, opened, [] =>
    if opened.isSome then throw (.atLine line text (.plain .macroUnclosed)) else return
  | line, text, opened, raw :: rest => do
    if lineLimit ≤ raw.length then throw (.atLine line text .lineTooLong)
    let raw := Text.dropReturn raw
    let line := line + 1
    modify fun state => state.note (Text.ofNat line ++ (": " : Text) ++ raw)
    match expandLiterals raw with
    | .error text => throw (.atLine line text (.plain .stringForm))
    | .ok text =>
      let opened ← atLine line text (sourceLine read opened line text)
      sourceLines read line text opened rest

/-- Puts the address of a label into the word that waits for it. -/
def resolve (labels : Table Word) (statements : Array Statement) (link : Link) :
    Except Error (Array Statement) :=
  match labels.find? link.label with
  | some addr =>
    .ok (statements.modify link.statement fun statement =>
      { statement with words := statement.words.set link.index addr })
  | none =>
    match statements[link.statement]? with
    | some statement =>
      .error (.atLine statement.line (Text.joinWith [Byte.space] statement.fields)
        (.labelMissing link.label))
    | none => .error (.labelMissing link.label)

/-- Resolves links in the order in which they arose. -/
def resolveAll (labels : Table Word) : List Link → Array Statement → Except Error (Array Statement)
  | [], statements => .ok statements
  | link :: rest, statements =>
    match resolve labels statements link with
    | .ok statements => resolveAll labels rest statements
    | .error error => .error error

def resolveLinks : Assemble (Array Statement) := do
  let state ← get
  failing (resolveAll state.labels state.links.toList state.statements)

def assemble (read : Reader) (source : Text) : Assemble Program := do
  sourceLines read 0 [] none source.lines
  let statements ← resolveLinks
  modify fun state => { state with statements := statements }
  return { words := statements.toList.flatMap (·.words), statements := statements }

end WordMachine.Assembly

namespace WordMachine

/-- An assembler keeps its predefined equates from source to source, and the state that
the last source left. -/
structure Assembler where
  verbose : Bool := false
  predefines : Table Text := .empty
  state : Assembly.State := {}
  deriving DecidableEq

namespace Assembler

/-- Predefines an equate, whether or not it was predefined before. -/
def predefine (assembler : Assembler) (name value : Text) : Assembler :=
  { assembler with predefines := assembler.predefines.insert name value }

/-- Assembles a source from the predefined equates alone. Expressions are evaluated by
`evaluate`, and macros may call macros down to the given depth. -/
def parse (evaluate : Expression.Evaluator) (depth : Nat) (assembler : Assembler)
    (source : Text) : Except Error Program × Assembler :=
  match Assembly.assemble (Assembly.readLine evaluate depth) source
      (Assembly.State.start assembler.predefines assembler.verbose) with
  | .ok program state => (.ok program, { assembler with state := state })
  | .error error state => (.error error, { assembler with state := state })

end Assembler
end WordMachine
