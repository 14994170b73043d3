import WordMachine.Command.Options

/-! The words of a command line that give flags their values, and the options that they
come to. -/
namespace WordMachine.Command

namespace Flag

def word (flag : Flag) : Text := Byte.minus :: flag.name

theorem ofWord_word (flag : Flag) : Form.ofWord flag.word = .flag flag.name none := by
  cases flag <;> decide +kernel

theorem ofName?_name (flag : Flag) : ofName? flag.name = some flag := by
  cases flag <;> decide +kernel

end Flag

def definitions (pairs : List (Text × Text)) : List Text :=
  pairs.flatMap fun pair => [Flag.predefine.word, pair.1 ++ Byte.equals :: pair.2]

def Predefinable (name : Text) : Prop := name ≠ [] ∧ Byte.equals ∉ name

theorem definition?_pair {name : Text} (predefinable : Predefinable name) (value : Text) :
    definition? (name ++ Byte.equals :: value) = some (name, value) := by
  obtain ⟨named,plain⟩ := predefinable
  have divided : Text.before Byte.equals (name ++ Byte.equals :: value) = name := by
    rw [Text.before,List.takeWhile_append_of_pos]
    · simp
    · intro byte member
      have different : byte ≠ Byte.equals := fun same => plain (same ▸ member)
      simp [different]
  simp [definition?,divided,named]

namespace Request

theorem parseFrom_value {options next : Options} {flag : Flag} {value : Text}
    (takes : flag.isSwitch = false) (set : options.set value flag = some next)
    (rest : List Text) :
    parseFrom options (flag.word :: value :: rest) = parseFrom next rest := by
  rw [parseFrom,Flag.ofWord_word]
  simp only [Flag.ofName?_name,takes,Bool.false_eq_true,if_false,set]

theorem parseFrom_definitions (options : Options) {pairs : List (Text × Text)}
    (predefinable : ∀ pair ∈ pairs, Predefinable pair.1) (rest : List Text) :
    parseFrom options (definitions pairs ++ rest) =
      parseFrom { options with predefines := options.predefines.insertAll pairs } rest := by
  induction pairs generalizing options with
  | nil => rfl
  | cons pair pairs ih =>
    have set : options.set (pair.1 ++ Byte.equals :: pair.2) .predefine =
        some { options with predefines := options.predefines.insert pair.1 pair.2 } := by
      rw [Options.set,definition?_pair (predefinable pair List.mem_cons_self)]
      rfl
    change parseFrom options (Flag.predefine.word :: (pair.1 ++ Byte.equals :: pair.2) ::
      (definitions pairs ++ rest)) = _
    rw [parseFrom_value rfl set,ih _ fun other member =>
      predefinable other (List.mem_cons_of_mem _ member)]
    rfl

end Request

def sourceWords (source : Text) (pairs : List (Text × Text)) : List Text :=
  Flag.source.word :: source :: definitions pairs

def sourceOptions (source : Text) (pairs : List (Text × Text)) : Options :=
  { source := source, predefines := Table.insertAll .empty pairs }

section source

variable (source : Text) {pairs : List (Text × Text)}
  (predefinable : ∀ pair ∈ pairs, Predefinable pair.1)

include predefinable

theorem parse_sourceWords :
    Request.parse (sourceWords source pairs) = .job (sourceOptions source pairs) [] := by
  have read := Request.parseFrom_definitions { source := source } predefinable []
  rw [List.append_nil] at read
  rw [Request.parse,sourceWords,Request.parseFrom_value rfl rfl]
  exact read

theorem parse_saveWords (image : Text) :
    Request.parse (sourceWords source pairs ++ [Flag.save.word, image]) =
      .job { sourceOptions source pairs with save := image } [] := by
  rw [Request.parse,sourceWords,List.cons_append,List.cons_append,Request.parseFrom_value rfl rfl,
    Request.parseFrom_definitions _ predefinable,Request.parseFrom_value rfl rfl]
  rfl

end source

theorem parse_imageWords (image : Text) :
    Request.parse [Flag.image.word, image] = .job { image := image } [] := by
  rw [Request.parse,Request.parseFrom_value rfl rfl]
  rfl

end WordMachine.Command
