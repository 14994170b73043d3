import WordMachine.Proofs.Machine.Reference

/-! What each handler does with operands that are there and of their classes. The operands
of a handler are the words that the machine fetches next. -/
namespace WordMachine

namespace Machine

/-- The words that a machine fetches next are of the given classes. -/
def Supplies : Machine → List OperandClass → List Word → Prop
  | _, [], [] => True
  | machine, kind :: kinds, raw :: raws =>
    machine.memory[machine.pc.toNat]? = some raw ∧ kind.admits raw ∧
      Supplies (machine.advance raw) kinds raws
  | _, _, _ => False

def advanceAll (machine : Machine) : List Word → Machine
  | [] => machine
  | raw :: raws => (machine.advance raw).advanceAll raws

theorem supplies_nil (machine : Machine) : Supplies machine [] [] := by
  simp [Supplies]

theorem advance_pc_toNat {machine : Machine} {raw : Word}
    (there : machine.memory[machine.pc.toNat]? = some raw) :
    (machine.advance raw).pc.toNat = machine.pc.toNat + 1 := by
  have inside : machine.pc.toNat < 32768 := (Vector.getElem?_eq_some_iff.mp there).1
  rw [advance_pc,UInt16.toNat_add]
  change (machine.pc.toNat + 1) % 65536 = _
  omega

theorem supplies_iff (machine : Machine) (kinds : List OperandClass) (raws : List Word)
    (reached : machine.pc.toNat ≤ memorySize) :
    Supplies machine kinds raws ↔ raws.length = kinds.length ∧
      machine.pc.toNat + kinds.length ≤ memorySize ∧
      ∀ (index : Nat) (kind : OperandClass), kinds[index]? = some kind →
        ∃ raw, raws[index]? = some raw ∧ machine.memory[machine.pc.toNat + index]? = some raw ∧
          kind.admits raw := by
  induction kinds generalizing machine raws with
  | nil =>
    cases raws with
    | nil => simp [Supplies,reached]
    | cons raw raws => simp [Supplies]
  | cons kind kinds ih =>
    cases raws with
    | nil => simp [Supplies]
    | cons raw raws =>
      simp only [Supplies,List.length_cons,Nat.add_right_cancel_iff]
      constructor
      · rintro ⟨there,admitted,rest⟩
        have moved := advance_pc_toNat there
        have inside : machine.pc.toNat < memorySize := (Vector.getElem?_eq_some_iff.mp there).1
        obtain ⟨same,fits,each⟩ := (ih (machine.advance raw) raws (by omega)).mp rest
        refine ⟨same,by omega,?_⟩
        intro index found listed
        cases index with
        | zero =>
          cases listed
          exact ⟨raw,rfl,there,admitted⟩
        | succ index =>
          obtain ⟨word,stands,stored,fit⟩ := each index found listed
          refine ⟨word,stands,?_,fit⟩
          rw [← stored,moved,advance_memory]
          congr 1
          omega
      · rintro ⟨same,fits,each⟩
        obtain ⟨word,stands,there,admitted⟩ := each 0 kind rfl
        cases stands
        have moved := advance_pc_toNat there
        refine ⟨there,admitted,(ih (machine.advance raw) raws (by omega)).mpr ⟨same,by omega,?_⟩⟩
        intro index found listed
        obtain ⟨word,stands,stored,fit⟩ := each (index + 1) found listed
        refine ⟨word,stands,?_,fit⟩
        rw [← stored,moved,advance_memory]
        congr 1
        omega

section advanceAll

variable (machine : Machine) (raws : List Word)

theorem advanceAll_eq : machine.advanceAll raws =
    { machine with
      pc := (machine.pc.toNat + raws.length).toUInt16
      probe := (machine.advanceAll raws).probe } := by
  induction raws generalizing machine with
  | nil => simp [advanceAll]
  | cons raw raws ih =>
    have moved : ((machine.advance raw).pc.toNat + raws.length).toUInt16 =
        (machine.pc.toNat + (raw :: raws).length).toUInt16 := by
      apply UInt16.toNat_inj.mp
      simp only [advance_pc,UInt16.toNat_add,Nat.toUInt16_eq,UInt16.toNat_ofNat',List.length_cons]
      change ((machine.pc.toNat + 1) % 65536 + raws.length) % 65536 = _
      omega
    rw [advanceAll,ih,moved]
    rfl

@[simp] theorem advanceAll_registers : (machine.advanceAll raws).registers = machine.registers := by
  rw [advanceAll_eq]

@[simp] theorem advanceAll_memory : (machine.advanceAll raws).memory = machine.memory := by
  rw [advanceAll_eq]

@[simp] theorem advanceAll_stack : (machine.advanceAll raws).stack = machine.stack := by
  rw [advanceAll_eq]

@[simp] theorem advanceAll_console : (machine.advanceAll raws).console = machine.console := by
  rw [advanceAll_eq]

@[simp] theorem advanceAll_ticks : (machine.advanceAll raws).ticks = machine.ticks := by
  rw [advanceAll_eq]

theorem advanceAll_pc :
    (machine.advanceAll raws).pc = (machine.pc.toNat + raws.length).toUInt16 := by
  rw [advanceAll_eq]

end advanceAll

theorem setIfInBounds_inside {size : Nat} (words : Vector Word size) (word : Word) {index : Nat}
    (inside : index < size) : words.setIfInBounds index word = words.set index word := by
  apply Vector.ext
  intro other bound
  rw [Vector.getElem_setIfInBounds,Vector.getElem_set]

theorem registerOf_val {raw : Word} (named : 32768 ≤ raw.toNat ∧ raw.toNat ≤ 32775) :
    (registerOf raw).val = raw.toNat - 32768 := by
  obtain ⟨register,names,same⟩ := Word.register?_of_range ⟨named.1,Nat.lt_succ_of_le named.2⟩
  rw [registerOf,names,Option.getD_some,same]

section handlers

variable {machine : Machine} {a b c : Word}

theorem unary_run (result : Word → Word) (supplied : Supplies machine [.register, .value] [a, b]) :
    unary result machine = .ok ()
      { machine.advanceAll [a, b] with
        registers := machine.registers.set (registerOf a) (result (valueIn machine.registers b)) } := by
  obtain ⟨first,named,second,valid,-⟩ := supplied
  unfold unary
  rw [bind_of_ok (fetchRegister_inside first named),bind_of_ok (fetchValue_inside second valid)]
  rfl

theorem binary_run (result : Word → Word → Word)
    (supplied : Supplies machine [.register, .value, .value] [a, b, c]) :
    binary result machine = .ok ()
      { machine.advanceAll [a, b, c] with
        registers := machine.registers.set (registerOf a)
          (result (valueIn machine.registers b) (valueIn machine.registers c)) } := by
  obtain ⟨first,named,second,valid,third,valid',-⟩ := supplied
  unfold binary
  rw [bind_of_ok (fetchRegister_inside first named),bind_of_ok (fetchValue_inside second valid),
    bind_of_ok (fetchValue_inside third valid')]
  rfl

theorem branch_taken {taken : Word → Bool} (supplied : Supplies machine [.value, .value] [a, b])
    (holds : taken (valueIn machine.registers a) = true) :
    branch taken machine = .ok ()
      { machine.advanceAll [a, b] with pc := valueIn machine.registers b } := by
  obtain ⟨first,valid,second,valid',-⟩ := supplied
  unfold branch
  rw [bind_of_ok (fetchValue_inside first valid),bind_of_ok (fetchValue_inside second valid'),
    if_pos holds]
  rfl

theorem branch_passed {taken : Word → Bool} (supplied : Supplies machine [.value, .value] [a, b])
    (fails : taken (valueIn machine.registers a) = false) :
    branch taken machine = .ok () (machine.advanceAll [a, b]) := by
  obtain ⟨first,valid,second,valid',-⟩ := supplied
  unfold branch
  rw [bind_of_ok (fetchValue_inside first valid),bind_of_ok (fetchValue_inside second valid'),
    if_neg (by simp [fails])]
  rfl

theorem remainder_run (supplied : Supplies machine [.register, .value, .value] [a, b, c]) :
    remainder machine =
      if valueIn machine.registers c = 0 then
        .error (.plain .divideByZero) (machine.advanceAll [a, b, c])
      else
        .ok () { machine.advanceAll [a, b, c] with
          registers := machine.registers.set (registerOf a)
            (valueIn machine.registers b % valueIn machine.registers c) } := by
  obtain ⟨first,named,second,valid,third,valid',-⟩ := supplied
  unfold remainder
  rw [bind_of_ok (fetchRegister_inside first named),bind_of_ok (fetchValue_inside second valid),
    bind_of_ok (fetchValue_inside third valid')]
  change (if valueIn machine.registers c = 0 then _ else _ : Step Unit) _ = _
  by_cases zero : valueIn machine.registers c = 0
  · rw [if_pos zero,if_pos zero]
    rfl
  · rw [if_neg zero,if_neg zero]
    rfl

theorem readMemory_run (supplied : Supplies machine [.register, .value] [a, b])
    (inside : (valueIn machine.registers b).toNat < memorySize) :
    readMemory machine = .ok ()
      { machine.advanceAll [a, b] with
        registers := machine.registers.set (registerOf a)
          (machine.memory[(valueIn machine.registers b).toNat]) } := by
  obtain ⟨first,named,second,valid,-⟩ := supplied
  unfold readMemory
  rw [bind_of_ok (fetchRegister_inside first named),
    bind_of_ok (fetchAddress_of_value (fetchValue_inside second valid) inside)]
  rfl

theorem readMemory_beyond (supplied : Supplies machine [.register, .value] [a, b])
    (outside : ¬ (valueIn machine.registers b).toNat < memorySize) :
    readMemory machine =
      .error (.operand (machine.pc + 1) (valueIn machine.registers b) (.plain .outsideMemory))
        (machine.advanceAll [a, b]) := by
  obtain ⟨first,named,second,valid,-⟩ := supplied
  unfold readMemory
  rw [bind_of_ok (fetchRegister_inside first named),
    bind_of_error (fetchAddress_beyond (fetchValue_inside second valid) outside)]
  rfl

theorem writeMemory_run (supplied : Supplies machine [.value, .value] [a, b])
    (inside : (valueIn machine.registers a).toNat < memorySize) :
    writeMemory machine = .ok ()
      { machine.advanceAll [a, b] with
        memory := machine.memory.set (valueIn machine.registers a).toNat
          (valueIn machine.registers b) } := by
  obtain ⟨first,valid,second,valid',-⟩ := supplied
  unfold writeMemory
  rw [bind_of_ok (fetchAddress_of_value (fetchValue_inside first valid) inside),
    bind_of_ok (fetchValue_inside second valid')]
  rfl

theorem writeMemory_beyond (supplied : Supplies machine [.value, .value] [a, b])
    (outside : ¬ (valueIn machine.registers a).toNat < memorySize) :
    writeMemory machine =
      .error (.operand machine.pc (valueIn machine.registers a) (.plain .outsideMemory))
        (machine.advance a) := by
  obtain ⟨first,valid,-⟩ := supplied
  unfold writeMemory
  rw [bind_of_error (fetchAddress_beyond (fetchValue_inside first valid) outside)]

theorem callAddress_run (supplied : Supplies machine [.value] [a]) :
    callAddress machine = .ok ()
      { machine.advanceAll [a] with
        stack := machine.stack.push (machine.pc + 1)
        pc := valueIn machine.registers a } := by
  obtain ⟨first,valid,-⟩ := supplied
  unfold callAddress
  rw [get_bind,bind_of_ok (fetchValue_inside first valid)]
  rfl

theorem pushValue_run (supplied : Supplies machine [.value] [a]) :
    perform .push machine = .ok ()
      { machine.advanceAll [a] with stack := machine.stack.push (valueIn machine.registers a) } := by
  obtain ⟨first,valid,-⟩ := supplied
  exact bind_of_ok (fetchValue_inside first valid)

theorem jumpValue_run (supplied : Supplies machine [.value] [a]) :
    perform .jmp machine = .ok ()
      { machine.advanceAll [a] with pc := valueIn machine.registers a } := by
  obtain ⟨first,valid,-⟩ := supplied
  exact bind_of_ok (fetchValue_inside first valid)

theorem popWord_some {top : Word} {rest : List Word}
    (entries : machine.stack.entries = top :: rest) :
    popWord machine = .ok top { machine with stack := ⟨rest⟩ } := by
  simp only [popWord,Stack.pop?,entries]

theorem popWord_none (entries : machine.stack.entries = []) :
    popWord machine = .error (.plain .stackEmpty) machine := by
  simp only [popWord,Stack.pop?,entries]

theorem returnAddress_run {top : Word} {rest : List Word}
    (entries : machine.stack.entries = top :: rest) :
    perform .ret machine = .ok () { machine with stack := ⟨rest⟩, pc := top } :=
  bind_of_ok (popWord_some entries)

theorem popRegister_run {top : Word} {rest : List Word} (supplied : Supplies machine [.register] [a])
    (entries : machine.stack.entries = top :: rest) :
    popRegister machine = .ok ()
      { machine.advanceAll [a] with
        registers := machine.registers.set (registerOf a) top
        stack := ⟨rest⟩ } := by
  obtain ⟨first,named,-⟩ := supplied
  have popped : popWord (machine.advance a) = .ok top { machine.advance a with stack := ⟨rest⟩ } :=
    popWord_some entries
  unfold popRegister
  rw [bind_of_ok (fetchRegister_inside first named),bind_of_ok popped]
  rfl

theorem popRegister_empty (supplied : Supplies machine [.register] [a])
    (entries : machine.stack.entries = []) :
    popRegister machine = .error (.plain .stackEmpty) (machine.advanceAll [a]) := by
  obtain ⟨first,named,-⟩ := supplied
  have refused : popWord (machine.advance a) = .error (.plain .stackEmpty) (machine.advance a) :=
    popWord_none entries
  unfold popRegister
  rw [bind_of_ok (fetchRegister_inside first named),bind_of_error refused]
  rfl

def ConsoleFails {α : Type} (machine : Machine) (action : Console.Use α) (cause : Error) : Prop :=
  machine.console = none ∧ cause = .plain .consoleMissing ∨
    ∃ console left, machine.console = some console ∧ action console = .error cause left

theorem onConsole_run {α : Type} {action : Console.Use α} {result : α} {console : Console}
    (used : machine.consoleUse? action = some (result, console)) :
    onConsole action machine = .ok result { machine with console := some console } := by
  unfold consoleUse? at used
  unfold onConsole
  cases attached : machine.console with
  | none => simp [attached] at used
  | some device =>
    cases computed : action device with
    | ok value left =>
      simp only [attached,Option.bind_some,computed,Option.some.injEq,Prod.mk.injEq] at used
      obtain ⟨rfl,rfl⟩ := used
      simp only [computed]
    | error error left => simp [attached,computed] at used

theorem onConsole_fails {α : Type} {action : Console.Use α}
    (unused : machine.consoleUse? action = none) :
    ∃ cause left, onConsole action machine = .error cause left ∧
      machine.ConsoleFails action cause := by
  unfold consoleUse? at unused
  unfold onConsole
  cases attached : machine.console with
  | none => exact ⟨_,_,rfl,.inl ⟨attached,rfl⟩⟩
  | some device =>
    cases computed : action device with
    | ok value left => simp [attached,computed] at unused
    | error error left =>
      exact ⟨error,{ machine with console := some left },by simp only [computed],
        .inr ⟨device,left,attached,computed⟩⟩

theorem writeOutput_run {console : Console} (supplied : Supplies machine [.value] [a])
    (used : machine.consoleUse? (Console.writeByte (valueIn machine.registers a).toUInt8) =
      some ((), console)) :
    writeOutput machine = .ok () { machine.advanceAll [a] with console := some console } := by
  obtain ⟨first,valid,-⟩ := supplied
  have written : onConsole (Console.writeByte (valueIn machine.registers a).toUInt8)
      (machine.advance a) = .ok () { machine.advance a with console := some console } :=
    onConsole_run used
  unfold writeOutput
  rw [bind_of_ok (fetchValue_inside first valid),written]
  rfl

theorem writeOutput_fails (supplied : Supplies machine [.value] [a])
    (unused : machine.consoleUse? (Console.writeByte (valueIn machine.registers a).toUInt8) = none) :
    ∃ cause left, writeOutput machine = .error cause left ∧
      machine.ConsoleFails (Console.writeByte (valueIn machine.registers a).toUInt8) cause := by
  obtain ⟨first,valid,-⟩ := supplied
  have refused : (machine.advance a).consoleUse?
      (Console.writeByte (valueIn machine.registers a).toUInt8) = none := unused
  obtain ⟨cause,left,failed,reason⟩ := onConsole_fails refused
  refine ⟨cause,left,?_,reason⟩
  unfold writeOutput
  rw [bind_of_ok (fetchValue_inside first valid),failed]

theorem readInput_of_use {byte : UInt8} {console : Console}
    (supplied : Supplies machine [.target] [a])
    (used : machine.consoleUse? Console.readByte = some (byte, console)) :
    readInput machine = .ok ()
      (if a.toNat < 32768 then
        { machine.advanceAll [a] with
          memory := machine.memory.setIfInBounds a.toNat byte.toUInt16
          console := some console }
      else
        { machine.advanceAll [a] with
          registers := machine.registers.set (registerOf a) byte.toUInt16
          console := some console }) := by
  obtain ⟨first,valid,-⟩ := supplied
  change a.toNat < 32776 at valid
  have there : ({ machine with console := some console } : Machine).memory[
      ({ machine with console := some console } : Machine).pc.toNat]? = some a := first
  unfold readInput
  rw [bind_of_ok (onConsole_run used),get_bind,bind_of_ok (fetch_inside there)]
  by_cases literal : a.toNat < 32768
  · have inside : a.toNat < memorySize := literal
    simp only [if_pos literal,Word.register?_of_outside (by omega : ¬ (32768 ≤ a.toNat ∧ _)),
      dif_pos inside,setIfInBounds_inside _ _ inside]
    rfl
  · have named : 32768 ≤ a.toNat ∧ a.toNat < 32776 := ⟨by omega,valid⟩
    obtain ⟨register,names,-⟩ := Word.register?_of_range named
    simp only [if_neg literal,registerOf,names,Option.getD_some]
    rfl

theorem readInput_fails (unused : machine.consoleUse? Console.readByte = none) :
    ∃ cause left, readInput machine = .error cause left ∧
      machine.ConsoleFails Console.readByte cause := by
  obtain ⟨cause,left,failed,reason⟩ := onConsole_fails unused
  refine ⟨cause,left,?_,reason⟩
  unfold readInput
  rw [bind_of_error failed]

end handlers

section supplied

variable {machine next : Machine} {kinds : List OperandClass}

theorem supplied_value {value : Word} (fetched : fetchValue machine = .ok value next)
    (rest : ∃ raws, Supplies next kinds raws) : ∃ raws, Supplies machine (.value :: kinds) raws := by
  obtain ⟨raw,there,valid,-,rfl⟩ := fetchValue_success fetched
  obtain ⟨raws,supplied⟩ := rest
  exact ⟨raw :: raws,there,valid,supplied⟩

theorem supplied_register {register : Fin registerCount}
    (fetched : fetchRegister machine = .ok register next)
    (rest : ∃ raws, Supplies next kinds raws) :
    ∃ raws, Supplies machine (.register :: kinds) raws := by
  obtain ⟨raw,there,named,-,rfl⟩ := fetchRegister_success fetched
  obtain ⟨raws,supplied⟩ := rest
  exact ⟨raw :: raws,there,named,supplied⟩

theorem supplied_address {addr : Fin memorySize} (fetched : fetchAddress machine = .ok addr next)
    (rest : ∃ raws, Supplies next kinds raws) : ∃ raws, Supplies machine (.value :: kinds) raws := by
  obtain ⟨value,resolved,-⟩ := fetchAddress_success fetched
  exact supplied_value resolved rest

theorem supplied_nothing (machine : Machine) : ∃ raws, Supplies machine [] raws :=
  ⟨[],supplies_nil machine⟩

variable {final : Machine}

theorem unary_supplied {result : Word → Word} (ok : unary result machine = .ok () final) :
    ∃ raws, Supplies machine [.register, .value] raws := by
  obtain ⟨_,_,first,ok⟩ := bind_success ok
  obtain ⟨_,_,second,-⟩ := bind_success ok
  exact supplied_register first (supplied_value second (supplied_nothing _))

theorem binary_supplied {result : Word → Word → Word} (ok : binary result machine = .ok () final) :
    ∃ raws, Supplies machine [.register, .value, .value] raws := by
  obtain ⟨_,_,first,ok⟩ := bind_success ok
  obtain ⟨_,_,second,ok⟩ := bind_success ok
  obtain ⟨_,_,third,-⟩ := bind_success ok
  exact supplied_register first (supplied_value second (supplied_value third (supplied_nothing _)))

theorem branch_supplied {taken : Word → Bool} (ok : branch taken machine = .ok () final) :
    ∃ raws, Supplies machine [.value, .value] raws := by
  obtain ⟨_,_,first,ok⟩ := bind_success ok
  obtain ⟨_,_,second,-⟩ := bind_success ok
  exact supplied_value first (supplied_value second (supplied_nothing _))

theorem remainder_supplied (ok : remainder machine = .ok () final) :
    ∃ raws, Supplies machine [.register, .value, .value] raws := by
  obtain ⟨_,_,first,ok⟩ := bind_success ok
  obtain ⟨_,_,second,ok⟩ := bind_success ok
  obtain ⟨_,_,third,-⟩ := bind_success ok
  exact supplied_register first (supplied_value second (supplied_value third (supplied_nothing _)))

theorem onConsole_success {α : Type} {action : Console.Use α} {result : α}
    (ok : onConsole action machine = .ok result next) :
    ∃ console, next = { machine with console := some console } := by
  unfold onConsole at ok
  cases attached : machine.console with
  | none => simp [attached] at ok
  | some device =>
    cases computed : action device with
    | ok value left => simp only [attached,computed] at ok; cases ok; exact ⟨left,rfl⟩
    | error error left => simp [attached,computed] at ok

theorem readInput_supplied (ok : readInput machine = .ok () final) :
    ∃ raws, Supplies machine [.target] raws := by
  obtain ⟨byte,used,read,ok⟩ := bind_success ok
  obtain ⟨console,rfl⟩ := onConsole_success read
  rw [get_bind] at ok
  obtain ⟨raw,fetched,found,ok⟩ := bind_success ok
  obtain ⟨there,rfl⟩ := fetch_success found
  refine ⟨[raw],there,?_,trivial⟩
  change raw.toNat < 32776
  by_cases valid : raw.toNat < 32776
  · exact valid
  · have beyond : ¬ raw.toNat < memorySize := by
      change ¬ raw.toNat < 32768
      omega
    rw [Word.register?_of_outside (by omega)] at ok
    simp only [dif_neg beyond] at ok
    cases ok

end supplied

theorem perform_supplied {machine final : Machine} {opcode : Opcode}
    (ok : perform opcode machine = .ok () final) :
    ∃ raws, Supplies machine opcode.operands raws := by
  cases opcode with
  | halt | ret | noop => exact supplied_nothing machine
  | set | not => exact unary_supplied ok
  | eq | gt | add | mult | and | or => exact binary_supplied ok
  | jt | jf => exact branch_supplied ok
  | mod => exact remainder_supplied ok
  | input => exact readInput_supplied ok
  | push | jmp | output =>
    obtain ⟨_,_,first,-⟩ := bind_success ok
    exact supplied_value first (supplied_nothing _)
  | pop =>
    obtain ⟨_,_,first,-⟩ := bind_success ok
    exact supplied_register first (supplied_nothing _)
  | rmem =>
    obtain ⟨_,_,first,ok⟩ := bind_success ok
    obtain ⟨_,_,second,-⟩ := bind_success ok
    exact supplied_register first (supplied_address second (supplied_nothing _))
  | wmem =>
    obtain ⟨_,_,first,ok⟩ := bind_success ok
    obtain ⟨_,_,second,-⟩ := bind_success ok
    exact supplied_address first (supplied_value second (supplied_nothing _))
  | call =>
    change callAddress machine = _ at ok
    unfold callAddress at ok
    rw [get_bind] at ok
    obtain ⟨_,_,first,-⟩ := bind_success ok
    exact supplied_value first (supplied_nothing _)

end Machine
end WordMachine
