/-
Module: AbcBuild.Proofs.Utf8
Purpose: Every text has one UTF-8 form, and the reader accepts exactly these forms.  The format of texts
  follows.
Main exports: Utf8.decode_encode, Utf8.encode_of_decode, Codec.string
-/
import AbcBuild.Proofs.Integers

namespace AbcBuild

namespace Utf8

variable {text : List Char} {input : List UInt8} {c : Char}

/-- What is written for a character is read as that character, whatever follows. -/
theorem first?_append (c : Char) (rest : List UInt8) :
    first? (String.utf8EncodeChar c ++ rest) = some c := by
  have short : (String.utf8EncodeChar c).length ≤ 4 := by
    rw [String.length_utf8EncodeChar]
    exact c.utf8Size_le_four
  rw [first?, List.take_append, List.take_of_length_le short, List.toByteArray_append]
  exact ByteArray.utf8DecodeChar?_utf8EncodeChar_append

/-- Bytes that start with a character start with what is written for it. -/
theorem eq_append_of_first? (h : first? input = some c) :
    ∃ rest, input = String.utf8EncodeChar c ++ rest := by
  obtain ⟨more, split⟩ := ByteArray.exists_of_utf8DecodeChar?_eq_some h
  have split : input.take 4 = String.utf8EncodeChar c ++ more.data.toList := by
    simpa using congrArg (fun bytes => bytes.data.toList) split
  refine ⟨more.data.toList ++ input.drop 4, ?_⟩
  rw [← List.append_assoc, ← split, List.take_append_drop]

/-! ### Texts -/

/-- The bytes of a character are passed over once it is read. -/
theorem decodeFrom_inside (index : Nat) (bytes rest : List UInt8) :
    decodeFrom index bytes.length (bytes ++ rest) = decodeFrom (index + bytes.length) 0 rest := by
  induction bytes generalizing index with
  | nil => rfl
  | cons b bytes ih =>
    rw [List.length_cons, List.cons_append, decodeFrom, ih, Nat.add_right_comm, Nat.add_assoc]

theorem decodeFrom_encode (index : Nat) (text : List Char) :
    decodeFrom index 0 (encode text) = .ok text := by
  induction text generalizing index with
  | nil => simp [encode, decodeFrom]
  | cons c text ih =>
    have first := first?_append c (encode text)
    have size := String.length_utf8EncodeChar c
    rw [encode, List.flatMap_cons]
    cases bytes : String.utf8EncodeChar c with
    | nil =>
      rw [bytes] at size
      exact absurd size c.utf8Size_pos.ne
    | cons b more =>
      rw [bytes] at first size
      have inside : c.utf8Size - 1 = more.length := by rw [← size, List.length_cons, Nat.add_sub_cancel]
      rw [List.cons_append, decodeFrom]
      rw [List.cons_append, encode] at first
      simp only [first, inside, decodeFrom_inside]
      exact congrArg (Except.map (c :: ·)) (ih _)

/-- Every text is read back from its form. -/
theorem decode_encode (text : List Char) : decode (encode text) = .ok text :=
  decodeFrom_encode 0 text

theorem encode_of_decodeFrom {index inside : Nat} (h : decodeFrom index inside input = .ok text) :
    encode text = input.drop inside := by
  induction input generalizing index inside text with
  | nil =>
    cases inside <;> cases h <;> rfl
  | cons b rest ih =>
    cases inside with
    | succ inside => exact ih h
    | zero =>
      rw [decodeFrom] at h
      split at h
      next c found =>
        obtain ⟨more, later, rfl⟩ := map_eq_ok.1 h
        obtain ⟨after, split⟩ := eq_append_of_first? found
        have size := String.length_utf8EncodeChar c
        have after : rest.drop (c.utf8Size - 1) = after :=
          calc rest.drop (c.utf8Size - 1)
              = (b :: rest).drop (c.utf8Size - 1 + 1) := rfl
            _ = after := by rw [Nat.sub_add_cancel c.utf8Size_pos, split, ← size, List.drop_left]
        rw [encode, List.flatMap_cons, List.drop_zero, split, ← after]
        exact congrArg (String.utf8EncodeChar c ++ ·) (ih later)
      next => cases h

/-- Only the form of a text is read as that text. -/
theorem encode_of_decode (h : decode input = .ok text) : encode text = input :=
  encode_of_decodeFrom h

end Utf8

namespace Codec

/-- Once the bytes are read, one text at most has them. -/
theorem utf8 (taken : List UInt8) :
    Codec (Reader.utf8 taken) (fun _ => []) (fun text => Utf8.encodeString text = taken) := by
  unfold Reader.utf8
  cases hdecode : Utf8.decode taken with
  | ok chars =>
    refine done (String.ofList chars) fun text => ⟨?_, ?_⟩
    · rintro rfl
      rw [Utf8.encodeString, Utf8.decode_encode] at hdecode
      cases hdecode
      exact String.ofList_toList.symm
    · rintro rfl
      rw [Utf8.encodeString, String.toList_ofList, Utf8.encode_of_decode hdecode]
  | error fault =>
    refine ⟨fun text written => ?_, fun before text after hread => by cases hread⟩
    rw [← written, Utf8.encodeString, Utf8.decode_encode] at hdecode
    cases hdecode

/-- Texts of less than 2^30 bytes. -/
theorem string :
    Codec Reader.string Writer.string (fun text => (Utf8.encodeString text).length < 1073741824) := by
  refine seq (fun text => (Utf8.encodeString text).length) u30 (fun text h => h) fun n hn => ?_
  refine ((bytes n).bind Utf8.encodeString (fun taken _ => utf8 taken) ?_).congr (fun text => ?_)
    fun _ _ => rfl
  · rintro taken text rfl
    exact (List.append_nil _).symm
  · constructor
    · rintro ⟨hlength, -⟩
      exact ⟨_, hlength, rfl⟩
    · rintro ⟨_, hlength, rfl⟩
      exact ⟨hlength, hlength.symm ▸ hn⟩

end Codec

end AbcBuild
