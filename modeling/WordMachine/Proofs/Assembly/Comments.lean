import WordMachine.Proofs.Assembly.Histories
import WordMachine.Proofs.Assembly.Locality
import WordMachine.Proofs.Assembly.Strings

/-! Comments. Strings are expanded before a comment is cut, so that a string with a wrong
escape is an error in a comment too. No other comment makes a difference to what becomes of
a source. -/
namespace WordMachine

open Text (Misquoted)

namespace Assembly

section comment

variable {line comment : Text} (bare : Bare line)
include bare

theorem unquoted_semicolon : Byte.quote ∉ line ++ [Byte.semicolon] := by
  rw [List.mem_append,not_or]
  exact ⟨bare.unquoted,by decide⟩

theorem misquoted_comment : Misquoted (line ++ Byte.semicolon :: comment) ↔ Misquoted comment := by
  rw [List.append_cons,misquoted_append (unquoted_semicolon bare)]

theorem coded_comment :
    coded (line ++ Byte.semicolon :: comment) = line ++ [Byte.semicolon] ++ coded comment := by
  rw [List.append_cons,coded_append (unquoted_semicolon bare)]

theorem expandLiterals_comment (sound : ¬ Misquoted comment) :
    expandLiterals (line ++ Byte.semicolon :: comment) = .ok (Text.trim line) := by
  have unmarked : Byte.apostrophe ∉ line ++ [Byte.semicolon] := by
    rw [List.mem_append,not_or]
    exact ⟨bare.unmarked,by decide⟩
  rw [expandLiterals_eq,if_neg (mt (misquoted_comment bare).mp sound),coded_comment bare,
    recoded_append unmarked,List.append_assoc,
    Text.before_append bare.uncommented,List.singleton_append,Text.before_here,List.append_nil]

theorem expandLiterals_misquoted (wrong : Misquoted comment) :
    expandLiterals (line ++ Byte.semicolon :: comment) =
      .error (line ++ [Byte.semicolon] ++ coded comment) := by
  rw [expandLiterals_eq,if_pos ((misquoted_comment bare).mpr wrong),coded_comment bare]

end comment

section returns

theorem dropReturn_behind {b : UInt8} (other : b ≠ Byte.carriageReturn) (line text : Text) :
    Text.dropReturn (line ++ b :: text) = line ++ b :: Text.dropReturn text := by
  unfold Text.dropReturn
  cases text with
  | nil => simp [other]
  | cons c rest =>
    have last : (line ++ b :: c :: rest).getLast? = (c :: rest).getLast? := by
      rw [List.getLast?_append,List.getLast?_cons_cons,
        List.getLast?_eq_some_getLast (List.cons_ne_nil c rest),Option.some_or]
    rw [last]
    split
    · rw [List.dropLast_append_of_ne_nil (List.cons_ne_nil b (c :: rest))]
      rfl
    · rfl

theorem misquoted_dropReturn (comment : Text) :
    Misquoted (Text.dropReturn comment) ↔ Misquoted comment := by
  rcases Text.dropReturn_cases comment with same | ended
  · rw [same]
  · have unquoted : Byte.carriageReturn ≠ Byte.quote := by decide
    have longer := Text.misquoted_snoc unquoted (Text.dropReturn comment)
    rw [← ended] at longer
    exact longer.symm

end returns

/-- A line alone or with a comment in which no string is wrong. -/
inductive Commented (line : Text) : Text → Prop
  | alone : Commented line line
  | comment {comment : Text} (sound : ¬ Misquoted comment) :
      Commented line (line ++ Byte.semicolon :: comment)

theorem expandLiterals_commented {line raw : Text} (bare : Bare line)
    (commented : Commented line raw) :
    expandLiterals (Text.dropReturn raw) = .ok (Text.trim line) := by
  cases commented with
  | alone =>
    rcases Text.dropReturn_cases line with same | ended
    · rw [same,expandLiterals_bare bare]
    · generalize Text.dropReturn line = shorter at ended ⊢
      subst ended
      have bare' : Bare shorter :=
        ⟨fun member => bare.unquoted (List.mem_append_left _ member),
          fun member => bare.unmarked (List.mem_append_left _ member),
          fun member => bare.uncommented (List.mem_append_left _ member)⟩
      rw [expandLiterals_bare bare',Text.trim_return]
  | @comment comment sound =>
    rw [dropReturn_behind (by decide),
      expandLiterals_comment bare (mt (misquoted_dropReturn comment).mp sound)]

/-- A line whose comment is added, changed or taken away. -/
inductive Recommented : Text → Text → Prop
  | same (raw : Text) : Recommented raw raw
  | changed {line raw raw' : Text} (bare : Bare line) (commented : Commented line raw)
      (commented' : Commented line raw') (short : raw.length < lineLimit)
      (short' : raw'.length < lineLimit) : Recommented raw raw'

theorem recommented_sameLine {raw raw' : Text} (changed : Recommented raw raw') :
    SameLine raw raw' := by
  cases changed with
  | same => exact ⟨Iff.rfl,rfl⟩
  | changed bare commented commented' short short' =>
    refine ⟨by simp only [Nat.not_le.mpr short,Nat.not_le.mpr short'],?_⟩
    rw [expandLiterals_commented bare commented,expandLiterals_commented bare commented']

theorem twin_start (predefines : Table Text) (verbose : Bool) :
    Twin (State.start predefines verbose) (State.start predefines verbose) where
  labels := rfl
  equates := fun _ => rfl
  macros := rfl
  statements := rfl
  links := rfl
  labelled := Table.distinct_empty
  equated := Table.distinct_insertAll Table.distinct_empty _

theorem expandEmbedded_alike {left right : State} (twin : Twin left right)
    (evaluate : Expression.Evaluator) (line : Text) :
    expandEmbedded evaluate left line = expandEmbedded evaluate right line := by
  have symbols : symbolValue? left = symbolValue? right := by
    funext name
    rw [symbolValue?_eq,symbolValue?_eq,twin.equates,twin.labels]
  rw [expandEmbedded,expandEmbedded,symbols]

/-- What becomes of a source depends on what its lines are without comments. -/
theorem sameParse_of_sameLines (evaluate : Expression.Evaluator) (depth : Nat)
    (assembler : Assembler) {source source' : Text}
    (same : List.Forall₂ SameLine source.lines source'.lines) :
    Assembler.SameParse (assembler.parse evaluate depth source)
      (assembler.parse evaluate depth source') := by
  have alike : ∀ text line, Similar (readLine evaluate depth text line)
      (readLine evaluate depth text line) :=
    readNested_similar (fun _ _ _ text twin => expandEmbedded_alike twin evaluate text) depth []
  have ended := assemble_similar alike same _ _
    (twin_start assembler.predefines assembler.verbose)
  unfold Assembler.parse
  generalize assemble (readLine evaluate depth) source _ = result at ended ⊢
  generalize assemble (readLine evaluate depth) source' _ = result' at ended ⊢
  cases ended with
  | ok program twin => exact ⟨rfl,twin.labels,twin.macros,twin.equates⟩
  | error error twin => exact ⟨rfl,twin.labels,twin.macros,twin.equates⟩

/-- A source with a wrong string in a comment is rejected, unless before that for an earlier
line. -/
theorem parse_misquoted (evaluate : Expression.Evaluator) (depth : Nat) (assembler : Assembler)
    {source line comment : Text} {lines rest : List Text} (bare : Bare line) (wrong : Misquoted comment)
    (split : source.lines = lines ++ (line ++ Byte.semicolon :: comment) :: rest)
    (short : (line ++ Byte.semicolon :: comment).length < lineLimit) :
    ∃ error, (assembler.parse evaluate depth source).1 = .error error ∧
      ((∃ state, readLines (readLine evaluate depth) 0 [] none lines
          (State.start assembler.predefines assembler.verbose) = .error error state) ∨
        ∃ text, error = .atLine (lines.length + 1 : Nat) text (.plain .stringForm)) := by
  have literals := expandLiterals_misquoted bare ((misquoted_dropReturn comment).mpr wrong)
  rw [← dropReturn_behind (by decide)] at literals
  have read := @sourceLines_append (readLine evaluate depth) 0 [] none lines
    ((line ++ Byte.semicolon :: comment) :: rest)
  rw [← split,Nat.zero_add] at read
  cases earlier : readLines (readLine evaluate depth) 0 [] none lines
      (State.start assembler.predefines assembler.verbose) with
  | error error state =>
    have failed := congrFun read (State.start assembler.predefines assembler.verbose)
    rw [bind_of_error earlier] at failed
    exact ⟨error,congrArg Prod.fst (parse_of_failed failed),.inl ⟨state,rfl⟩⟩
  | ok next state =>
    have stopped := @sourceStep_misquoted (readLine evaluate depth) _ _ lines.length next.1 next.2
      state (Nat.not_le.mpr short) literals
    have failed := congrFun read (State.start assembler.predefines assembler.verbose)
    rw [bind_of_ok earlier,sourceLines_cons,bind_of_error stopped] at failed
    exact ⟨_,congrArg Prod.fst (parse_of_failed failed),.inr ⟨_,rfl⟩⟩

/-- A comment behind a line without literals is cut, and makes no difference to what becomes
of a source, if and only if no string in it is wrong. A wrong string has a backslash between
its quotes, and the source is rejected for it. -/
theorem comment_ignored_iff (evaluate : Expression.Evaluator) (depth : Nat) {line comment : Text}
    (bare : Bare line) :
    (expandLiterals (line ++ Byte.semicolon :: comment) = .ok (Text.trim line) ↔
      ¬ Misquoted comment) ∧
    (Misquoted comment → ∃ before body after,
      comment = before ++ Text.quoted body ++ after ∧ Byte.backslash ∈ body) ∧
    (∀ (assembler : Assembler) (source source' : Text),
      List.Forall₂ Recommented source.lines source'.lines →
        Assembler.SameParse (assembler.parse evaluate depth source)
          (assembler.parse evaluate depth source')) ∧
    (∀ (assembler : Assembler) (source : Text) (lines rest : List Text),
      source.lines = lines ++ (line ++ Byte.semicolon :: comment) :: rest →
      (line ++ Byte.semicolon :: comment).length < lineLimit → Misquoted comment →
        ∃ error, (assembler.parse evaluate depth source).1 = .error error ∧
          ((∃ state, readLines (readLine evaluate depth) 0 [] none lines
              (State.start assembler.predefines assembler.verbose) = .error error state) ∨
            ∃ text, error = .atLine (lines.length + 1 : Nat) text (.plain .stringForm))) := by
  refine ⟨⟨?_,expandLiterals_comment bare⟩,Text.misquoted_escapes,?_,?_⟩
  · intro expanded wrong
    rw [expandLiterals_misquoted bare wrong] at expanded
    cases expanded
  · intro assembler source source' changed
    exact sameParse_of_sameLines evaluate depth assembler (changed.imp fun _ _ => recommented_sameLine)
  · intro assembler source lines rest split short wrong
    exact parse_misquoted evaluate depth assembler bare wrong split short

def pathComment : Text := " see \"C:\\dir\""

def remarkedSource : Text := "start: noop ; it's \"so\\n\"; done\njmp start"

def unremarkedSource : Text := "start: noop \njmp start"

/-- A path in a comment, beside a comment in which all strings are right. -/
theorem comment_ignored_iff_path :
    Bare "start: noop " ∧ Misquoted pathComment ∧
      expandLiterals (("start: noop " : Text) ++ Byte.semicolon :: pathComment) ≠ .ok "start: noop" ∧
      (∃ error, (Assembler.parse Expression.evaluate 0 {}
        (("start: noop " : Text) ++ Byte.semicolon :: pathComment)).1 = .error error) ∧
      Assembler.SameParse (Assembler.parse Expression.evaluate 0 {} remarkedSource)
        (Assembler.parse Expression.evaluate 0 {} unremarkedSource) := by
  have bare : Bare "start: noop " := by decide +kernel
  have wrong : Misquoted pathComment := by decide +kernel
  obtain ⟨cut,-,recommented,rejected⟩ := @comment_ignored_iff Expression.evaluate 0 _ pathComment bare
  refine ⟨bare,wrong,?_,?_,?_⟩
  · intro expanded
    exact cut.mp expanded wrong
  · have lines : (("start: noop " : Text) ++ Byte.semicolon :: pathComment).lines =
        [("start: noop " : Text) ++ Byte.semicolon :: pathComment] := by decide +kernel
    obtain ⟨error,failed,-⟩ := rejected {} _ [] [] lines (by decide +kernel) wrong
    exact ⟨error,failed⟩
  · apply recommented
    have lines : remarkedSource.lines =
        [("start: noop " : Text) ++ Byte.semicolon :: " it's \"so\\n\"; done", "jmp start"] := by
      decide +kernel
    have lines' : unremarkedSource.lines = ["start: noop ", "jmp start"] := by decide +kernel
    rw [lines,lines']
    refine .cons (.changed bare (.comment ?_) .alone ?_ ?_) (.cons (.same _) .nil)
    · decide +kernel
    · decide +kernel
    · decide +kernel

end Assembly
end WordMachine
