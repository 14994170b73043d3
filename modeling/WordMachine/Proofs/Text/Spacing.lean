import WordMachine.Proofs.Text.Fields

/-! Blanks between words and at the two ends of a text. Blanks part the words, however many
they are, and trimming takes them from the ends, so that the fields stay the same. -/
namespace WordMachine.Text

/-- A blank is recognised by its own bytes. -/
theorem blankWidth_within {b : UInt8} {front tail : Text}
    (within : blankWidth (b :: (front ++ tail)) ≤ front.length + 1) :
    blankWidth (b :: front) = blankWidth (b :: (front ++ tail)) := by
  rcases front with _ | ⟨c,_ | ⟨d,front⟩⟩
  · rcases tail with _ | ⟨c,_ | ⟨d,tail⟩⟩
    · rfl
    · simp only [List.nil_append,blankWidth,List.length_nil] at within ⊢
      split_ifs at within ⊢ <;> omega
    · simp only [List.nil_append,blankWidth,List.length_nil] at within ⊢
      split_ifs at within ⊢ <;> omega
  · rcases tail with _ | ⟨d,tail⟩
    · rfl
    · simp only [List.cons_append,List.nil_append,blankWidth,List.length_cons,List.length_nil] at within ⊢
      split_ifs at within ⊢ <;> omega
  · rfl

theorem blankWidth_snoc {c : UInt8} (low : c < 0x80) (b : UInt8) (text : Text) :
    blankWidth (b :: (text ++ [c])) = blankWidth (b :: text) := by
  rcases text with _ | ⟨d,_ | ⟨e,text⟩⟩
  · exact blankWidth_low b low []
  · exact blankWidth_second b d low []
  · rfl

theorem fieldsFrom_visible {b : UInt8} {rest : Text} (visible : blankWidth (b :: rest) = 0)
    (current : Text) (done : List Text) :
    fieldsFrom 0 current done (b :: rest) = fieldsFrom 0 (b :: current) done rest := by
  rw [fieldsFrom,visible]

theorem fieldsFrom_skip {b : UInt8} {rest : Text} {skip : Nat}
    (blank : blankWidth (b :: rest) = skip + 1) (current : Text) (done : List Text) :
    fieldsFrom 0 current done (b :: rest) = fieldsFrom skip [] (closeField current done) rest := by
  rw [fieldsFrom,blank]

theorem fieldsFrom_drop (skip : Nat) (current : Text) (done : List Text) (text : Text) :
    fieldsFrom skip current done text = fieldsFrom 0 current done (text.drop skip) := by
  induction text generalizing skip with
  | nil => cases skip <;> rfl
  | cons b rest ih =>
    cases skip with
    | zero => rfl
    | succ skip => exact ih skip

section words

structure Visible (word : Text) : Prop where
  given : word ≠ []
  bytes : ∀ b ∈ word, ∀ rest, blankWidth (b :: rest) = 0

inductive Blanks : Text → Prop
  | nil : Blanks []
  | cons {b : UInt8} {more rest : Text} (width : blankWidth (b :: more) = more.length + 1)
      (later : Blanks rest) : Blanks (b :: (more ++ rest))

theorem blankWidth_append {b : UInt8} {more : Text} (width : blankWidth (b :: more) = more.length + 1)
    (rest : Text) : blankWidth (b :: (more ++ rest)) = more.length + 1 := by
  rcases more with _ | ⟨c,_ | ⟨d,more⟩⟩
  · rcases rest with _ | ⟨c,_ | ⟨d,rest⟩⟩
    · exact width
    · simp only [List.nil_append,blankWidth,List.length_nil] at width ⊢
      split_ifs at width ⊢
      rfl
    · simp only [List.nil_append,blankWidth,List.length_nil] at width ⊢
      split_ifs at width ⊢
      rfl
  · rcases rest with _ | ⟨d,rest⟩
    · exact width
    · simp only [List.cons_append,List.nil_append,blankWidth,List.length_cons,List.length_nil] at width ⊢
      split_ifs at width ⊢ <;> omega
  · exact width

theorem blanks_bytes {blanks : Text} (blank : Blanks blanks) : ∀ b ∈ blanks, ¬ (0x20 < b ∧ b < 0x80) := by
  induction blank with
  | nil => simp
  | @cons b more rest width later ih =>
    intro c member
    rcases List.mem_cons.mp member with rfl | inside
    · intro ascii
      rw [blankWidth_ascii ascii.1 ascii.2] at width
      cases width
    · rcases List.mem_append.mp inside with own | after
      · intro ascii
        exact blankWidth_high width c (by rwa [List.take_length]) ascii.2
      · exact ih c after

theorem blanks_width {blanks : Text} (blank : Blanks blanks) (given : blanks ≠ []) (rest : Text) :
    blankWidth (blanks ++ rest) ≠ 0 := by
  cases blank with
  | nil => exact absurd rfl given
  | cons width later =>
    rw [List.cons_append,List.append_assoc,blankWidth_append width]
    exact Nat.succ_ne_zero _

theorem fields_blanks {blanks : Text} (blank : Blanks blanks) (rest : Text) :
    fields (blanks ++ rest) = fields rest := by
  induction blank with
  | nil => rfl
  | cons width later ih =>
    rw [← ih,List.cons_append,List.append_assoc,fields,
      fieldsFrom_skip (blankWidth_append width _),fieldsFrom_drop,List.drop_left]
    rfl

theorem fields_word {word rest : Text} (visible : Visible word)
    (ended : rest = [] ∨ blankWidth rest ≠ 0) : fields (word ++ rest) = word :: fields rest := by
  have closed : closeField word.reverse [] = [word] := by
    simp [closeField,visible.given]
  unfold fields
  rw [fieldsFrom_unblank visible.bytes,List.append_nil]
  rcases rest with _ | ⟨b,rest⟩
  · rw [fieldsFrom,closed]
    rfl
  · obtain ⟨skip,width⟩ := Nat.exists_eq_succ_of_ne_zero (ended.resolve_left (List.cons_ne_nil b rest))
    rw [fieldsFrom_skip width,fieldsFrom_skip width,closed,fieldsFrom_done]
    rfl

end words

section ends

theorem dropBlanks_suffix (skip : Nat) (text : Text) :
    ∃ lead, text = lead ++ dropBlanks skip text := by
  induction text generalizing skip with
  | nil => exact ⟨[],by cases skip <;> rfl⟩
  | cons b rest ih =>
    cases skip with
    | succ skip =>
      obtain ⟨lead,same⟩ := ih skip
      exact ⟨b :: lead,congrArg (b :: ·) same⟩
    | zero =>
      rw [dropBlanks]
      cases blankWidth (b :: rest) with
      | zero => exact ⟨[],rfl⟩
      | succ skip =>
        obtain ⟨lead,same⟩ := ih skip
        exact ⟨b :: lead,congrArg (b :: ·) same⟩

theorem fieldsFrom_dropBlanks (skip : Nat) (done : List Text) (text : Text) :
    fieldsFrom skip [] done text = fieldsFrom 0 [] done (dropBlanks skip text) := by
  induction text generalizing skip with
  | nil => cases skip <;> rfl
  | cons b rest ih =>
    cases skip with
    | succ skip => exact ih skip
    | zero =>
      cases blank : blankWidth (b :: rest) with
      | zero => rw [dropBlanks,blank]
      | succ skip =>
        rw [dropBlanks,fieldsFrom_skip blank,blank]
        exact ih skip

theorem fieldsFrom_blank {skip : Nat} {text : Text} (blank : dropBlanks skip text = [])
    (current : Text) (done : List Text) :
    fieldsFrom skip current done text = (closeField current done).reverse := by
  have closed : ∀ current done, closeField [] (closeField current done) = closeField current done :=
    fun _ _ => rfl
  induction text generalizing skip current done with
  | nil => cases skip <;> rfl
  | cons b rest ih =>
    cases skip with
    | succ skip => exact ih blank current done
    | zero =>
      rw [dropBlanks] at blank
      cases width : blankWidth (b :: rest) with
      | zero =>
        rw [width] at blank
        cases blank
      | succ skip =>
        rw [width] at blank
        rw [fieldsFrom_skip width,ih blank,closed]

theorem keptFrom_blank {skip : Nat} {text : Text} (blank : dropBlanks skip text = [])
    (blanks kept : Text) : keptFrom skip blanks kept text = kept.reverse := by
  induction text generalizing skip blanks with
  | nil => cases skip <;> rfl
  | cons b rest ih =>
    cases skip with
    | succ skip => exact ih blank (b :: blanks)
    | zero =>
      rw [dropBlanks] at blank
      rw [keptFrom]
      cases width : blankWidth (b :: rest) with
      | zero =>
        rw [width] at blank
        cases blank
      | succ skip =>
        rw [width] at blank
        exact ih blank (b :: blanks)

/-- A text of which something is visible is kept up to its last visible byte. The fields
are read from what is kept as from the whole, since no blank reaches beyond it. -/
theorem keptFrom_visible {skip : Nat} {text : Text} (visible : dropBlanks skip text ≠ [])
    (blanks kept : Text) :
    ∃ front tail, text = front ++ tail ∧ skip ≤ front.length ∧
      keptFrom skip blanks kept text = kept.reverse ++ (blanks.reverse ++ front) ∧
      ∀ current done, fieldsFrom skip current done front = fieldsFrom skip current done text := by
  induction text generalizing skip blanks kept with
  | nil => exact absurd (by cases skip <;> rfl) visible
  | cons b rest ih =>
    cases skip with
    | succ skip =>
      obtain ⟨front,tail,rfl,within,ends,fields⟩ := ih visible (b :: blanks) kept
      refine ⟨b :: front,tail,rfl,Nat.succ_le_succ within,?_,fields⟩
      rw [keptFrom,ends]
      simp
    | zero =>
      rw [dropBlanks] at visible
      cases width : blankWidth (b :: rest) with
      | zero =>
        by_cases last : dropBlanks 0 rest = []
        · refine ⟨[b],rest,rfl,Nat.zero_le _,?_,?_⟩
          · rw [keptFrom,width]
            simp only
            rw [keptFrom_blank last]
            simp
          · intro current done
            have alone : blankWidth [b] = 0 :=
              (blankWidth_within (by simp [width])).trans width
            rw [fieldsFrom_visible alone,fieldsFrom_visible width,fieldsFrom_blank last]
            rfl
        · obtain ⟨front,tail,rfl,-,ends,fields⟩ := ih last [] (b :: (blanks ++ kept))
          refine ⟨b :: front,tail,rfl,Nat.zero_le _,?_,?_⟩
          · rw [keptFrom,width]
            simp only
            rw [ends]
            simp
          · intro current done
            have same : blankWidth (b :: front) = 0 :=
              (blankWidth_within (by simp [width])).trans width
            rw [fieldsFrom_visible same,fieldsFrom_visible width]
            exact fields (b :: current) done
      | succ skip =>
        rw [width] at visible
        obtain ⟨front,tail,rfl,within,ends,fields⟩ := ih visible (b :: blanks) kept
        refine ⟨b :: front,tail,rfl,Nat.zero_le _,?_,?_⟩
        · rw [keptFrom,width]
          simp only
          rw [ends]
          simp
        · intro current done
          have same : blankWidth (b :: front) = skip + 1 :=
            (blankWidth_within (by rw [width]; exact Nat.succ_le_succ within)).trans width
          rw [fieldsFrom_skip same,fieldsFrom_skip width]
          exact fields [] (closeField current done)

theorem trim_part (text : Text) : trim text <:+: text ∧ fields (trim text) = fields text := by
  obtain ⟨lead,same⟩ := dropBlanks_suffix 0 text
  unfold fields trim
  rw [fieldsFrom_dropBlanks 0 [] text]
  by_cases blank : dropBlanks 0 (dropBlanks 0 text) = []
  · rw [keptFrom_blank blank,fieldsFrom_blank blank]
    exact ⟨List.nil_infix,rfl⟩
  · obtain ⟨front,tail,split,-,ends,read⟩ := keptFrom_visible blank [] []
    rw [ends]
    refine ⟨⟨lead,tail,?_⟩,read [] []⟩
    rw [List.append_assoc]
    exact (same.trans (congrArg (lead ++ ·) split)).symm

theorem trim_infix (text : Text) : trim text <:+: text := (trim_part text).1

theorem fields_trim (text : Text) : fields (trim text) = fields text := (trim_part text).2

end ends

section returns

theorem keptFrom_return (skip : Nat) (blanks kept text : Text) :
    keptFrom skip blanks kept (text ++ [Byte.carriageReturn]) = keptFrom skip blanks kept text := by
  induction text generalizing skip blanks kept with
  | nil => cases skip <;> rfl
  | cons b rest ih =>
    cases skip with
    | succ skip => exact ih skip (b :: blanks) kept
    | zero =>
      rw [List.cons_append,keptFrom,keptFrom,blankWidth_snoc (by decide)]
      cases blankWidth (b :: rest) with
      | zero => exact ih 0 [] (b :: (blanks ++ kept))
      | succ skip => exact ih skip (b :: blanks) kept

theorem trim_return (text : Text) : trim (text ++ [Byte.carriageReturn]) = trim text := by
  have each : ∀ skip, keptFrom 0 [] [] (dropBlanks skip (text ++ [Byte.carriageReturn])) =
      keptFrom 0 [] [] (dropBlanks skip text) := by
    induction text with
    | nil =>
      intro skip
      cases skip <;> rfl
    | cons b rest ih =>
      intro skip
      cases skip with
      | succ skip => exact ih skip
      | zero =>
        rw [List.cons_append,dropBlanks,dropBlanks,blankWidth_snoc (by decide)]
        cases blankWidth (b :: rest) with
        | zero => exact keptFrom_return 0 [] [] (b :: rest)
        | succ skip => exact ih skip
  exact each 0

theorem dropReturn_cases (line : Text) :
    dropReturn line = line ∨ line = dropReturn line ++ [Byte.carriageReturn] := by
  unfold dropReturn
  split
  · next last =>
    have given : line ≠ [] := by
      rintro rfl
      cases last
    rw [List.getLast?_eq_some_getLast given,Option.some_inj] at last
    exact .inr (by rw [← last,List.dropLast_concat_getLast])
  · exact .inl rfl

end returns

end WordMachine.Text
