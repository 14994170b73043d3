import WordMachine.Program

/-! The image format. Writing and reading words are inverse to each other but for a last odd
byte, a source that fails changes nothing, and a sink that is too small takes the first bytes
of the image. -/
namespace WordMachine.Program

theorem low_toNat (word : Word) : word.toUInt8.toNat = word.toNat % 256 := by simp

theorem high_toNat (word : Word) : (word >>> 8).toUInt8.toNat = word.toNat / 256 := by
  have small := word.toNat_lt
  simp [UInt16.toNat_shiftRight,Nat.shiftRight_eq_div_pow]
  omega

theorem joined_toNat (low high : UInt8) :
    (low.toUInt16 ||| (high.toUInt16 <<< 8)).toNat = low.toNat + 256 * high.toNat := by
  have small := high.toNat_lt
  have shifted : (high.toUInt16 <<< 8).toNat = 256 * high.toNat := by
    simp [UInt16.toNat_shiftLeft,Nat.shiftLeft_eq]
    omega
  have disjoint : 256 * high.toNat ||| low.toNat = 256 * high.toNat + low.toNat :=
    (Nat.two_pow_add_eq_or_of_lt low.toNat_lt high.toNat).symm
  rw [UInt16.toNat_or,shifted,UInt8.toNat_toUInt16,Nat.or_comm,disjoint,Nat.add_comm]

theorem joined_encodeWord (word : Word) :
    word.toUInt8.toUInt16 ||| ((word >>> 8).toUInt8.toUInt16 <<< 8) = word := by
  apply UInt16.toNat_inj.mp
  rw [joined_toNat,low_toNat,high_toNat]
  omega

theorem encodeWord_joined (low high : UInt8) :
    encodeWord (low.toUInt16 ||| (high.toUInt16 <<< 8)) = [low, high] := by
  have small := low.toNat_lt
  have joined := joined_toNat low high
  have first : (low.toUInt16 ||| (high.toUInt16 <<< 8)).toUInt8 = low := by
    apply UInt8.toNat_inj.mp
    rw [low_toNat,joined]
    omega
  have second : ((low.toUInt16 ||| (high.toUInt16 <<< 8)) >>> 8).toUInt8 = high := by
    apply UInt8.toNat_inj.mp
    rw [high_toNat,joined]
    omega
  rw [encodeWord,first,second]

theorem decodeFrom_encode (done words : List Word) :
    decodeFrom done (encode words) = done.reverse ++ words := by
  induction words generalizing done with
  | nil => simp [encode,decodeFrom]
  | cons word words ih =>
    change decodeFrom done (word.toUInt8 :: (word >>> 8).toUInt8 :: encode words) = _
    rw [decodeFrom,joined_encodeWord,ih]
    simp

theorem encode_decodeFrom (done : List Word) (bytes : List UInt8) :
    encode (decodeFrom done bytes) =
      encode done.reverse ++ bytes.take (2 * (bytes.length / 2)) := by
  fun_induction decodeFrom done bytes with
  | case1 done low high rest ih =>
    have whole : 2 * ((low :: high :: rest).length / 2) = 2 * (rest.length / 2) + 1 + 1 := by
      simp only [List.length_cons]
      omega
    rw [ih,whole,List.take_succ_cons,List.take_succ_cons]
    simp [encode,encodeWord_joined]
  | case2 bytes done short =>
    rcases bytes with _ | ⟨low,_ | ⟨high,rest⟩⟩
    · simp
    · simp
    · exact (short low high rest rfl).elim

theorem length_encode (words : List Word) : (encode words).length = 2 * words.length := by
  induction words with
  | nil => rfl
  | cons word words ih =>
    change (encode words).length + 2 = 2 * (words.length + 1)
    omega

theorem encode_bytes {words : List Word} {index : Nat} {word : Word}
    (there : words[index]? = some word) :
    (encode words)[2 * index]? = some word.toUInt8 ∧
      (encode words)[2 * index + 1]? = some (word >>> 8).toUInt8 := by
  induction words generalizing index with
  | nil => cases there
  | cons first words ih =>
    change (first.toUInt8 :: (first >>> 8).toUInt8 :: encode words)[2 * index]? = _ ∧
      (first.toUInt8 :: (first >>> 8).toUInt8 :: encode words)[2 * index + 1]? = _
    cases index with
    | zero =>
      cases there
      exact ⟨rfl,rfl⟩
    | succ index =>
      have rest := ih there
      rw [show 2 * (index + 1) = 2 * index + 1 + 1 by omega]
      simpa using rest

/-- The bytes that a program writes to a sink that takes all of them. -/
def image (program : Program) : List UInt8 := (program.write {}).2.2.taken.toList

theorem image_eq (program : Program) : program.image = encode program.words := by
  simp [image,write,Sink.write,Sink.accepts]

theorem decode_image (program : Program) : decode program.image = program.words := by
  rw [image_eq,decode,decodeFrom_encode,List.reverse_nil,List.nil_append]

theorem write_limited {sink : Sink} {room : Nat} (limited : sink.room = some room)
    (program : Program) :
    (program.write sink).1 = min room (2 * program.words.length) ∧
    (program.write sink).2.2.taken.toList =
      sink.taken.toList ++ program.image.take (min room (2 * program.words.length)) ∧
    ((program.write sink).2.1.isSome = true ↔ room < 2 * program.words.length) := by
  have counted : sink.accepts (encode program.words) = min room (2 * program.words.length) := by
    simp [Sink.accepts,limited,length_encode]
  refine ⟨counted,?_,?_⟩
  · rw [image_eq,← counted]
    simp [write,Sink.write]
  · have refused : (program.write sink).2.1.isSome = true ↔
        min room (2 * program.words.length) < 2 * program.words.length := by
      simp [write,Sink.write,counted,length_encode]
    rw [refused]
    omega

/-- The codec of images. The image of a program has the low byte of every word before its
high byte. Reading it gives the words back and no statements; reading any bytes and writing
them gives them back up to a last odd byte. Programs with the same image have the same words.
A source that fails at any point leaves the program as it was. A sink that takes only some
bytes gets the first bytes of the image, as many as it takes, and refuses if they are not all. -/
theorem image_codec :
    (∀ program other : Program, other.read program.image .endOfFile =
      (2 * program.words.length, none, { words := program.words, statements := #[] })) ∧
    (∀ (program : Program) (index : Nat) (word : Word), program.words[index]? = some word →
      ∃ low high, program.image[2 * index]? = some low ∧ program.image[2 * index + 1]? = some high ∧
        low.toNat = word.toNat % 256 ∧ high.toNat = word.toNat / 256) ∧
    (∀ (program : Program) (bytes : List UInt8), ∃ result,
      program.read bytes .endOfFile = (bytes.length, none, result) ∧
        result.image = bytes.take (2 * (bytes.length / 2))) ∧
    (∀ program other : Program, program.image = other.image → program.words = other.words) ∧
    (∀ (program : Program) (bytes : List UInt8) (failure : Failure), failure ≠ .endOfFile →
      ∃ error, program.read bytes failure = (bytes.length, some error, program)) ∧
    ∀ (program : Program) (sink : Sink) (room : Nat), sink.room = some room →
      (program.write sink).1 = min room (2 * program.words.length) ∧
      (program.write sink).2.2.taken.toList =
        sink.taken.toList ++ program.image.take (min room (2 * program.words.length)) ∧
      ((program.write sink).2.1.isSome = true ↔ room < 2 * program.words.length) := by
  refine ⟨?_,?_,?_,?_,?_,fun program sink room limited => write_limited limited program⟩
  · intro program other
    simp only [read,decode_image]
    rw [image_eq,length_encode]
  · intro program index word there
    obtain ⟨first,second⟩ := encode_bytes there
    rw [image_eq]
    exact ⟨_,_,first,second,low_toNat word,high_toNat word⟩
  · intro program bytes
    refine ⟨_,rfl,?_⟩
    rw [image_eq]
    exact encode_decodeFrom [] bytes
  · intro program other same
    rw [← decode_image program,← decode_image other,same]
  · intro program bytes failure failing
    cases failure with
    | endOfFile => exact absurd rfl failing
    | broken reason | raised condition | during activity cause => exact ⟨_,rfl⟩

/-- A sink that takes the first word and half of the second one. -/
theorem image_codec_cut :
    (({ words := [1, 65535, 258] } : Program).write { room := some 3 }).1 = 3 ∧
    (({ words := [1, 65535, 258] } : Program).write { room := some 3 }).2.2.taken.toList =
      [1, 0, 255] ∧
    (({ words := [1, 65535, 258] } : Program).write { room := some 3 }).2.1.isSome = true := by
  obtain ⟨-,-,-,-,-,limited⟩ := image_codec
  obtain ⟨count,taken,refused⟩ := limited { words := [1, 65535, 258] } { room := some 3 } 3 rfl
  refine ⟨count,?_,refused.mpr (by decide)⟩
  rw [taken,image_eq]
  decide

end WordMachine.Program
