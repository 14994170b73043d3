import WordMachine.Proofs.Assembly.Coherence

/-! The final linking: every word that waited for a label gets its address, and the first
label that is missing is reported. The one pass of the assembler, with its links, gives
what two passes give. -/
namespace WordMachine.Assembly

def isUnresolved (labels : Table Word) (link : Link) : Bool := (labels.find? link.label).isNone

def pendingFrom (statement start : Nat) (operands : List Operand) : List Link :=
  (operands.zipIdx start).filterMap fun (operand, index) =>
    operand.label?.map fun label => { statement := statement, index := index, label := label }

theorem mem_pendingLinks {statement : Nat} {operands : List Operand} {link : Link} :
    link ∈ pendingLinks statement operands ↔
      link.statement = statement ∧ operands[link.index]? = some (.label link.label) := by
  unfold pendingLinks
  rw [List.mem_filterMap]
  constructor
  · rintro ⟨⟨operand,index⟩,member,made⟩
    rw [List.mem_zipIdx_iff_getElem?] at member
    obtain ⟨label,labelled,rfl⟩ := Option.map_eq_some_iff.mp made
    cases operand with
    | word value => cases labelled
    | label name =>
      cases labelled
      exact ⟨rfl,member⟩
  · rintro ⟨rfl,found⟩
    exact ⟨(.label link.label,link.index),List.mem_zipIdx_iff_getElem?.mpr found,rfl⟩

theorem mem_waitingLinks {emissions : List Emission} {link : Link} :
    link ∈ waitingLinks 0 emissions ↔ ∃ emission, emissions[link.statement]? = some emission ∧
      emission.operands[link.index]? = some (.label link.label) := by
  unfold waitingLinks
  rw [List.mem_flatMap]
  constructor
  · rintro ⟨⟨emission,index⟩,member,pending⟩
    obtain ⟨rfl,found⟩ := mem_pendingLinks.mp pending
    exact ⟨emission,List.mem_zipIdx_iff_getElem?.mp member,found⟩
  · rintro ⟨emission,emitted,found⟩
    exact ⟨(emission,link.statement),List.mem_zipIdx_iff_getElem?.mpr emitted,
      mem_pendingLinks.mpr ⟨rfl,found⟩⟩

/-- A statement is that of an emission, and each of its words is final unless a link is
left for it. -/
structure WordsLinked (labels : Table Word) (remaining : List Link) (index : Nat)
    (emission : Emission) (statement : Statement) : Prop where
  rest : statement = { emission.statement with words := statement.words }
  counted : statement.words.length = emission.operands.length
  final : ∀ place operand, emission.operands[place]? = some operand →
    statement.words[place]? = operand.linked labels ∨
      ∃ name, operand = .label name ∧ ⟨index,place,name⟩ ∈ remaining

structure Linked (labels : Table Word) (emissions : List Emission) (remaining : List Link)
    (statements : Array Statement) : Prop where
  sized : statements.size = emissions.length
  each : ∀ (index : Nat) (emission : Emission) (statement : Statement),
    emissions[index]? = some emission → statements[index]? = some statement →
      WordsLinked labels remaining index emission statement

theorem linked_statement {labels : Table Word} {emissions : List Emission} {remaining : List Link}
    {statements : Array Statement} (linked : Linked labels emissions remaining statements)
    {index : Nat} {emission : Emission} (emitted : emissions[index]? = some emission) :
    ∃ statement, statements[index]? = some statement ∧
      WordsLinked labels remaining index emission statement := by
  have bound : index < statements.size := by
    rw [linked.sized]
    exact (List.getElem?_eq_some_iff.mp emitted).1
  have found : statements[index]? = some statements[index] := Array.getElem?_eq_getElem bound
  exact ⟨statements[index],found,linked.each index emission _ emitted found⟩

theorem coherent_linked {state : State} {emissions : List Emission}
    (coherent : Coherent state emissions) :
    Linked state.labels emissions state.links.toList state.statements where
  sized := by rw [← Array.length_toList,coherent.statements,List.length_map]
  each := by
    intro index emission statement emitted found
    have same : emission.statement = statement := by
      rw [← Array.getElem?_toList,coherent.statements,List.getElem?_map,emitted] at found
      exact Option.some.inj found
    subst same
    have valid := coherent.valid emission (List.mem_of_getElem? emitted)
    refine ⟨rfl,by rw [valid.words,List.length_map],?_⟩
    intro place operand stands
    cases operand with
    | word value =>
      left
      rw [valid.words,List.getElem?_map,stands]
      rfl
    | label name =>
      right
      refine ⟨name,rfl,?_⟩
      rw [coherent.links]
      exact mem_waitingLinks.mpr ⟨emission,emitted,stands⟩

theorem wordsLinked_tail {labels : Table Word} {link : Link} {remaining : List Link} {index : Nat}
    {emission : Emission} {statement : Statement} (other : index ≠ link.statement)
    (linked : WordsLinked labels (link :: remaining) index emission statement) :
    WordsLinked labels remaining index emission statement := by
  refine ⟨linked.rest,linked.counted,?_⟩
  intro place operand stands
  rcases linked.final place operand stands with final | ⟨name,waits,member⟩
  · exact .inl final
  · rcases List.mem_cons.mp member with rfl | later
    · exact absurd rfl other
    · exact .inr ⟨name,waits,later⟩

theorem wordsLinked_set {labels : Table Word} {link : Link} {remaining : List Link}
    {emission : Emission} {statement : Statement} {addr : Word}
    (waits : emission.operands[link.index]? = some (.label link.label))
    (found : labels.find? link.label = some addr)
    (linked : WordsLinked labels (link :: remaining) link.statement emission statement) :
    WordsLinked labels remaining link.statement emission
      { statement with words := statement.words.set link.index addr } where
  rest := by rw [linked.rest]
  counted := by rw [List.length_set,linked.counted]
  final := by
    intro place operand stands
    by_cases here : link.index = place
    · subst here
      rw [waits] at stands
      cases stands
      have bound : link.index < statement.words.length := by
        rw [linked.counted]
        exact (List.getElem?_eq_some_iff.mp waits).1
      left
      rw [List.getElem?_set_self bound,Operand.linked,found]
    · rcases linked.final place operand stands with final | ⟨name,same,member⟩
      · left
        rw [List.getElem?_set_ne here,final]
      · rcases List.mem_cons.mp member with first | later
        · exact absurd (congrArg Link.index first).symm here
        · exact .inr ⟨name,same,later⟩

theorem resolve_linked {labels : Table Word} {emissions : List Emission} {link : Link}
    {remaining : List Link} {statements result : Array Statement}
    (waiting : link ∈ waitingLinks 0 emissions)
    (linked : Linked labels emissions (link :: remaining) statements)
    (ok : resolve labels statements link = .ok result) :
    Linked labels emissions remaining result := by
  obtain ⟨emission,emitted,waits⟩ := mem_waitingLinks.mp waiting
  unfold resolve at ok
  cases found : labels.find? link.label with
  | none =>
    simp only [found] at ok
    split at ok <;> cases ok
  | some addr =>
    simp only [found,Except.ok.injEq] at ok
    subst result
    refine ⟨by rw [Array.size_modify,linked.sized],?_⟩
    intro index other statement stands changed
    rw [Array.getElem?_modify] at changed
    by_cases here : link.statement = index
    · subst here
      rw [emitted] at stands
      cases stands
      rw [if_pos rfl] at changed
      obtain ⟨before,held,rfl⟩ := Option.map_eq_some_iff.mp changed
      exact wordsLinked_set waits found (linked.each _ emission before emitted held)
    · rw [if_neg here] at changed
      exact wordsLinked_tail (fun same => here same.symm)
        (linked.each index other statement stands changed)

/-- Resolving the first of some links leaves the others. -/
theorem resolveAll_linked {labels : Table Word} {emissions : List Emission}
    {links remaining : List Link} {statements result : Array Statement}
    (waiting : ∀ link ∈ links, link ∈ waitingLinks 0 emissions)
    (linked : Linked labels emissions (links ++ remaining) statements)
    (ok : resolveAll labels links statements = .ok result) :
    Linked labels emissions remaining result := by
  -- The links that remain stay behind the ones that are resolved here.
  induction links generalizing statements with
  | nil =>
    cases ok
    exact linked
  | cons link links ih =>
    unfold resolveAll at ok
    cases resolved : resolve labels statements link with
    | error error => simp [resolved] at ok
    | ok between =>
      simp only [resolved] at ok
      have first := resolve_linked (waiting link (by simp)) linked resolved
      exact ih (fun other member => waiting other (by simp [member])) first ok

theorem resolve_of_found {labels : Table Word} {link : Link} (statements : Array Statement)
    (resolvable : isUnresolved labels link = false) :
    ∃ result, resolve labels statements link = .ok result := by
  unfold resolve
  cases found : labels.find? link.label with
  | none => simp [isUnresolved,found] at resolvable
  | some addr => exact ⟨_,rfl⟩

theorem resolveAll_succeeds {labels : Table Word} {links : List Link}
    (statements : Array Statement) (resolvable : links.find? (isUnresolved labels) = none) :
    ∃ result, resolveAll labels links statements = .ok result := by
  induction links generalizing statements with
  | nil => exact ⟨statements,rfl⟩
  | cons link links ih =>
    rw [List.find?_cons] at resolvable
    cases first : isUnresolved labels link with
    | true => simp [first] at resolvable
    | false =>
      obtain ⟨between,resolved⟩ := resolve_of_found statements first
      simp only [first] at resolvable
      obtain ⟨result,ok⟩ := ih between resolvable
      exact ⟨result,by simp only [resolveAll,resolved,ok]⟩

theorem resolveAll_missing {labels : Table Word} {emissions : List Emission}
    {links : List Link} {link : Link} {statements : Array Statement}
    (waiting : ∀ link ∈ links, link ∈ waitingLinks 0 emissions)
    (linked : Linked labels emissions links statements)
    (first : links.find? (isUnresolved labels) = some link) :
    ∃ emission, emissions[link.statement]? = some emission ∧
      resolveAll labels links statements =
        .error (.atLine emission.statement.line
          (Text.joinWith [Byte.space] emission.statement.fields) (.labelMissing link.label)) := by
  induction links generalizing statements with
  | nil => cases first
  | cons head links ih =>
    rw [List.find?_cons] at first
    cases missing : isUnresolved labels head with
    | true =>
      simp only [missing,Option.some.injEq] at first
      subst head
      obtain ⟨emission,emitted,-⟩ := mem_waitingLinks.mp (waiting link (by simp))
      obtain ⟨statement,found,words⟩ := linked_statement linked emitted
      have absent : labels.find? link.label = none := by simpa [isUnresolved] using missing
      refine ⟨emission,emitted,?_⟩
      simp only [resolveAll,resolve,absent,found]
      rw [words.rest]
    | false =>
      simp only [missing] at first
      obtain ⟨between,resolved⟩ := resolve_of_found statements missing
      have rest := resolve_linked (waiting head (by simp)) linked resolved
      obtain ⟨emission,emitted,failed⟩ :=
        ih (fun other member => waiting other (by simp [member])) rest first
      exact ⟨emission,emitted,by simp only [resolveAll,resolved,failed]⟩

def missingFields (labels : Table Word) (statement : Statement) : List Text :=
  statement.fields.tail.filter (isMissing labels)

/-- The first field that needs a label that is not there, with its statement. -/
def firstMissing (labels : Table Word) (statements : List Statement) : Option (Statement × Text) :=
  (statements.flatMap fun statement =>
    (missingFields labels statement).map fun field => (statement, field)).head?

theorem pendingFrom_missing {labels : Table Word} (statement start : Nat) {arguments : List Text}
    {operands : List Operand} (reads : List.Forall₂ (Reads labels) arguments operands) :
    ((pendingFrom statement start operands).filter (isUnresolved labels)).map Link.label =
      arguments.filter (isMissing labels) := by
  induction reads generalizing start with
  | nil => rfl
  | @cons field operand arguments operands first rest ih =>
    have missing := reads_missing first
    have later := ih (start + 1)
    unfold pendingFrom at later ⊢
    cases operand with
    | word value =>
      have present : isMissing labels field = false := missing
      simpa [Operand.label?,present] using later
    | label name =>
      have same : name = field := by cases first; rfl
      subst same
      have decided : isMissing labels name = (labels.find? name).isNone := missing
      cases absent : (labels.find? name).isNone with
      | true => simpa [Operand.label?,isUnresolved,decided,absent] using later
      | false => simpa [Operand.label?,isUnresolved,decided,absent] using later

theorem pendingLinks_missing {labels : Table Word} (index : Nat) {emission : Emission}
    (encoded : Encoded labels emission.statement.fields emission.operands) :
    ((pendingLinks index emission.operands).filter (isUnresolved labels)).map Link.label =
      missingFields labels emission.statement := by
  obtain ⟨⟨line,addr,fields,words⟩,operands⟩ := emission
  cases encoded with
  | data head arguments _ directive reads => exact pendingFrom_missing index 0 reads
  | instruction head opcode arguments rest operation mnemonic reads checked =>
    -- The number of the operation comes before the operands and waits for nothing.
    exact pendingFrom_missing index 1 reads

theorem find?_pendingLinks {labels : Table Word} (index : Nat) {emission : Emission}
    (encoded : Encoded labels emission.statement.fields emission.operands) :
    ((pendingLinks index emission.operands).find? (isUnresolved labels)).map Link.label =
      (missingFields labels emission.statement).head? := by
  rw [← List.head?_filter,← List.head?_map,pendingLinks_missing index encoded]

theorem firstMissing_cons (labels : Table Word) (statement : Statement)
    (statements : List Statement) :
    firstMissing labels (statement :: statements) =
      (((missingFields labels statement).head?).map fun field => (statement, field)).or
        (firstMissing labels statements) := by
  simp only [firstMissing,List.flatMap_cons,List.head?_append,List.head?_map]

theorem waitingLinks_cons (start : Nat) (emission : Emission) (emissions : List Emission) :
    waitingLinks start (emission :: emissions) =
      pendingLinks start emission.operands ++ waitingLinks (start + 1) emissions := by
  simp only [waitingLinks,List.zipIdx_cons,List.flatMap_cons]

theorem start_le_of_mem_waitingLinks {start : Nat} {emissions : List Emission} {link : Link}
    (member : link ∈ waitingLinks start emissions) : start ≤ link.statement := by
  obtain ⟨⟨emission,index⟩,placed,pending⟩ := List.mem_flatMap.mp member
  obtain ⟨rfl,-⟩ := mem_pendingLinks.mp pending
  exact (List.mem_zipIdx placed).1

theorem firstMissing_eq {labels : Table Word} (start : Nat) {emissions : List Emission}
    (encoded : ∀ emission ∈ emissions, Encoded labels emission.statement.fields emission.operands) :
    firstMissing labels (emissions.map Emission.statement) =
      ((waitingLinks start emissions).find? (isUnresolved labels)).bind fun link =>
        (emissions[link.statement - start]?).map fun emission =>
          (emission.statement, link.label) := by
  -- The start moves with the induction, since links count statements from the first one.
  induction emissions generalizing start with
  | nil => rfl
  | cons emission emissions ih =>
    have own := find?_pendingLinks start (encoded emission (by simp))
    rw [List.map_cons,firstMissing_cons,waitingLinks_cons,List.find?_append,← own,
      ih (start + 1) (fun other member => encoded other (by simp [member]))]
    cases first : (pendingLinks start emission.operands).find? (isUnresolved labels) with
    | some link =>
      obtain ⟨same,-⟩ := mem_pendingLinks.mp (List.mem_of_find?_eq_some first)
      simp [same]
    | none =>
      cases later : (waitingLinks (start + 1) emissions).find? (isUnresolved labels) with
      | none => rfl
      | some link =>
        have beyond := start_le_of_mem_waitingLinks (List.mem_of_find?_eq_some later)
        have shifted : link.statement - start = link.statement - (start + 1) + 1 := by omega
        simp [shifted]

end WordMachine.Assembly
