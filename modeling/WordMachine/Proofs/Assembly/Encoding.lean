import Mathlib.Data.List.Forall2
import WordMachine.Assembly.Assemble
import WordMachine.Proofs.Table

/-! The words of a statement in the second of two passes, when all labels are known, and
how the operands of the only pass stand to them. -/
namespace WordMachine.Assembly

def isDirective (head : Text) : Bool := head = (".data" : Text) || head = (".string" : Text)

def fieldWord (labels : Table Word) (field : Text) : Option Word :=
  match register? field with
  | some word => some word
  | none => if isName field then labels.find? field else (valueOf field).toOption

/-- The words of a statement's fields. A mnemonic gives the number of its operation and a
data directive nothing. -/
def encode (labels : Table Word) : List Text → Option (List Word)
  | [] => some []
  | head :: arguments =>
    if isDirective head then arguments.mapM (fieldWord labels)
    else do
      let opcode ← Opcode.ofMnemonic? head
      let words ← arguments.mapM (fieldWord labels)
      return opcode.word :: words

def isMissing (labels : Table Word) (field : Text) : Bool :=
  (register? field).isNone && isName field && (labels.find? field).isNone

def Operand.linked (labels : Table Word) : Operand → Option Word
  | .word value => some value
  | .label name => labels.find? name

/-- The operands that a field may have been read as, at any time up to now. -/
inductive Reads (labels : Table Word) (field : Text) : Operand → Prop
  | register (word : Word) (named : register? field = some word) :
      Reads labels field (.word word)
  | known (addr : Word) (free : register? field = none) (shaped : isName field = true)
      (found : labels.find? field = some addr) : Reads labels field (.word addr)
  | waiting (free : register? field = none) (shaped : isName field = true) :
      Reads labels field (.label field)
  | number (word : Word) (free : register? field = none) (unshaped : isName field = false)
      (value : valueOf field = .ok word) : Reads labels field (.word word)

inductive Encoded (labels : Table Word) : List Text → List Operand → Prop
  | data (head : Text) (arguments : List Text) (operands : List Operand)
      (directive : isDirective head = true)
      (reads : List.Forall₂ (Reads labels) arguments operands) :
      Encoded labels (head :: arguments) operands
  | instruction (head : Text) (opcode : Opcode) (arguments : List Text) (operands : List Operand)
      (operation : isDirective head = false) (mnemonic : Opcode.ofMnemonic? head = some opcode)
      (reads : List.Forall₂ (Reads labels) arguments operands)
      (checked : List.Forall₂ (fun kind operand => checkOperand kind operand = .ok operand)
        opcode.operands operands) :
      Encoded labels (head :: arguments) (.word opcode.word :: operands)

def Named (labels : Table Word) : Prop :=
  ∀ name addr, labels.find? name = some addr → isName name = true

theorem reads_mono {labels more : Table Word} {field : Text} {operand : Operand}
    (within : labels.Within more) (reads : Reads labels field operand) :
    Reads more field operand := by
  cases reads with
  | register word named => exact .register word named
  | known addr free shaped found => exact .known addr free shaped (within field addr found)
  | waiting free shaped => exact .waiting free shaped
  | number word free unshaped value => exact .number word free unshaped value

theorem encoded_mono {labels more : Table Word} {fields : List Text} {operands : List Operand}
    (within : labels.Within more) (encoded : Encoded labels fields operands) :
    Encoded more fields operands := by
  cases encoded with
  | data head arguments _ directive reads =>
    exact .data head arguments operands directive (reads.imp fun _ _ => reads_mono within)
  | instruction head opcode arguments rest operation mnemonic reads checked =>
    exact .instruction head opcode arguments rest operation mnemonic
      (reads.imp fun _ _ => reads_mono within) checked

theorem reads_linked {labels : Table Word} {field : Text} {operand : Operand}
    (reads : Reads labels field operand) : operand.linked labels = fieldWord labels field := by
  cases reads with
  | register word named => simp [Operand.linked,fieldWord,named]
  | known addr free shaped found => simp [Operand.linked,fieldWord,free,shaped,found]
  | waiting free shaped => simp [Operand.linked,fieldWord,free,shaped]
  | number word free unshaped value => simp [Operand.linked,fieldWord,free,unshaped,value,Except.toOption]

theorem reads_missing {labels : Table Word} {field : Text} {operand : Operand}
    (reads : Reads labels field operand) :
    isMissing labels field = (operand.linked labels).isNone := by
  cases reads with
  | register word named => simp [Operand.linked,isMissing,named]
  | known addr free shaped found => simp [Operand.linked,isMissing,found]
  | waiting free shaped => simp [Operand.linked,isMissing,free,shaped]
  | number word free unshaped value => simp [Operand.linked,isMissing,unshaped]

theorem mapM_linked {labels : Table Word} {arguments : List Text} {operands : List Operand}
    (reads : List.Forall₂ (Reads labels) arguments operands) :
    operands.mapM (Operand.linked labels) = arguments.mapM (fieldWord labels) := by
  induction reads with
  | nil => rfl
  | cons first rest ih => rw [List.mapM_cons,List.mapM_cons,reads_linked first,ih]

/-- The one pass and the two passes agree, whenever the labels of an operand became known. -/
theorem encoded_encode {labels : Table Word} {fields : List Text} {operands : List Operand}
    (encoded : Encoded labels fields operands) :
    operands.mapM (Operand.linked labels) = encode labels fields := by
  cases encoded with
  | data head arguments _ directive reads => rw [mapM_linked reads,encode,if_pos directive]
  | instruction head opcode arguments rest operation mnemonic reads checked =>
    rw [List.mapM_cons,mapM_linked reads,encode,if_neg (by simp [operation]),mnemonic]
    rfl

theorem operandOf_reads {labels : Table Word} (named : Named labels) {field : Text}
    {operand : Operand} (ok : operandOf labels field = .ok operand) : Reads labels field operand := by
  unfold operandOf at ok
  cases free : register? field with
  | some word =>
    simp only [free,Except.ok.injEq] at ok
    subst operand
    exact .register word free
  | none =>
    simp only [free] at ok
    cases found : labels.find? field with
    | some addr =>
      simp only [found,Except.ok.injEq] at ok
      subst operand
      exact .known addr free (named field addr found) found
    | none =>
      simp only [found] at ok
      cases shaped : isName field with
      | true =>
        simp only [shaped,if_true,Except.ok.injEq] at ok
        subst operand
        exact .waiting free shaped
      | false =>
        simp only [shaped,Bool.false_eq_true,if_false] at ok
        split at ok
        · next word value =>
          cases ok
          exact .number word free shaped value
        · cases ok
        · cases ok

theorem checkOperand_same {kind : OperandClass} {operand checked : Operand}
    (ok : checkOperand kind operand = .ok checked) : checked = operand := by
  cases operand with
  | word value =>
    cases kind with
    | value | register | target =>
      simp only [checkOperand] at ok
      split at ok
      · cases ok
        rfl
      · cases ok
  | label name =>
    cases kind with
    | value | target =>
      cases ok
      rfl
    | register => cases ok

theorem dataFrom_reads {labels : Table Word} (named : Named labels) {done result : List Operand}
    {texts : List Text} (ok : dataFrom labels done texts = .ok result) :
    ∃ operands, result = done.reverse ++ operands ∧
      List.Forall₂ (Reads labels) texts operands := by
  induction texts generalizing done with
  | nil =>
    cases ok
    exact ⟨[],by simp,.nil⟩
  | cons text texts ih =>
    unfold dataFrom at ok
    cases read : operandOf labels text with
    | error error => simp [read] at ok
    | ok operand =>
      simp only [read] at ok
      obtain ⟨operands,same,reads⟩ := ih ok
      exact ⟨operand :: operands,by simp [same],.cons (operandOf_reads named read) reads⟩

theorem operandsFrom_reads {labels : Table Word} (named : Named labels) {done result : List Operand}
    {kinds : List OperandClass} {texts : List Text} (counted : kinds.length = texts.length)
    (ok : operandsFrom labels done kinds texts = .ok result) :
    ∃ operands, result = done.reverse ++ operands ∧
      List.Forall₂ (Reads labels) texts operands ∧
      List.Forall₂ (fun kind operand => checkOperand kind operand = .ok operand) kinds operands := by
  induction kinds generalizing done texts with
  | nil =>
    cases texts with
    | nil =>
      cases ok
      exact ⟨[],by simp,.nil,.nil⟩
    | cons text texts => simp at counted
  | cons kind kinds ih =>
    cases texts with
    | nil => simp at counted
    | cons text texts =>
      unfold operandsFrom at ok
      cases read : operandOf labels text with
      | error error => simp [read] at ok
      | ok operand =>
        cases accepted : checkOperand kind operand with
        | error error => simp [read,accepted] at ok
        | ok checked =>
          have same := checkOperand_same accepted
          subst checked
          simp only [read,accepted] at ok
          obtain ⟨operands,same,reads,checks⟩ := ih (by simpa using counted) ok
          exact ⟨operand :: operands,by simp [same],.cons (operandOf_reads named read) reads,
            .cons accepted checks⟩

theorem encodeFields_encoded {labels : Table Word} (named : Named labels) {fields : List Text}
    {operands : List Operand} (given : fields ≠ [])
    (ok : encodeFields labels fields = .ok operands) : Encoded labels fields operands := by
  cases fields with
  | nil => exact absurd rfl given
  | cons head arguments =>
    change (if isDirective head = true then dataFrom labels [] arguments else _) = _ at ok
    cases directive : isDirective head with
    | true =>
      rw [if_pos directive] at ok
      obtain ⟨rest,same,reads⟩ := dataFrom_reads named ok
      rw [List.reverse_nil,List.nil_append] at same
      subst rest
      exact .data head arguments operands directive reads
    | false =>
      rw [if_neg (by simp [directive])] at ok
      cases mnemonic : Opcode.ofMnemonic? head with
      | none => simp [mnemonic] at ok
      | some opcode =>
        simp only [mnemonic] at ok
        split at ok
        · cases ok
        · split at ok
          · cases ok
          · next few many =>
            obtain ⟨rest,rfl,reads,checked⟩ := operandsFrom_reads named (by omega) ok
            exact .instruction head opcode arguments rest directive mnemonic reads checked

end WordMachine.Assembly
