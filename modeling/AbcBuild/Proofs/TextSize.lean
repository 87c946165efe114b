/-
Module: AbcBuild.Proofs.TextSize
Purpose: Names that are read from texts, and the bytes that texts take.  Of distinct texts, not many are
  short, so their size tells how many there can be.
Main exports: Text.splitLast?_eq_some, QName.parse_eq_unnamed_iff, Abc.length_le_of_size, Abc.textSize_parse
-/
import AbcBuild.Name.Basic
import AbcBuild.Proofs.Utf8
import Mathlib.Data.Nat.Digits.Lemmas

namespace AbcBuild

/-! ### Names read from texts -/

namespace Text

theorem splitLast?_eq_none_iff {mark : Char} {text : List Char} :
    splitLast? mark text = none ↔ mark ∉ text := by
  induction text with
  | nil => simp [splitLast?]
  | cons c rest ih =>
    rw [splitLast?]
    split
    next before after found => simp_all
    next absent =>
      have absent := ih.1 absent
      by_cases here : c = mark
      · simp [here]
      · simp [here, absent, Ne.symm here]

/-- The mark stands between the parts, and not in the second. -/
theorem splitLast?_eq_some {mark : Char} {text before after : List Char}
    (h : splitLast? mark text = some (before, after)) : text = before ++ mark :: after ∧ mark ∉ after := by
  induction text generalizing before with
  | nil => cases h
  | cons c rest ih =>
    rw [splitLast?] at h
    split at h
    next found =>
      cases h
      obtain ⟨parts, last⟩ := ih found
      exact ⟨by rw [parts, List.cons_append], last⟩
    next absent =>
      split at h
      next here =>
        cases h
        exact ⟨by rw [here, List.nil_append], splitLast?_eq_none_iff.1 absent⟩
      next => cases h

end Text

namespace QName

/-- A text without a colon or a dot is a name of the unnamed package, and no other text is. -/
theorem parse_eq_unnamed_iff (text : String) :
    parse text = unnamed text ↔ ':' ∉ text.toList ∧ '.' ∉ text.toList := by
  have divided {mark : Char} {before after : List Char}
      (h : Text.splitLast? mark text.toList = some (before, after)) : (⟨String.ofList before,
        String.ofList after⟩ : QName) ≠ unnamed text := by
    intro same
    have whole : String.ofList after = text := congrArg QName.name same
    have parts := (Text.splitLast?_eq_some h).1
    rw [← whole, String.toList_ofList] at parts
    have length := congrArg List.length parts
    rw [List.length_append, List.length_cons] at length
    omega
  unfold parse
  split
  next space name colon =>
    have member : ':' ∈ text.toList := by
      rw [(Text.splitLast?_eq_some colon).1]
      exact List.mem_append_right _ (.head _)
    exact iff_of_false (divided colon) fun none => none.1 member
  next noColon =>
    split
    next space name dot =>
      have member : '.' ∈ text.toList := by
        rw [(Text.splitLast?_eq_some dot).1]
        exact List.mem_append_right _ (.head _)
      exact iff_of_false (divided dot) fun none => none.2 member
    next noDot =>
      exact iff_of_true rfl ⟨Text.splitLast?_eq_none_iff.1 noColon, Text.splitLast?_eq_none_iff.1 noDot⟩

end QName

/-! ### Sizes -/

namespace Abc

/-- The number of bytes that a text takes. -/
def textSize (text : String) : Nat := (Utf8.encodeString text).length

theorem encodeString_injective {text text' : String} (h : Utf8.encodeString text = Utf8.encodeString text') :
    text = text' := by
  have decoded : Except.ok text.toList = Except.ok (ε := Utf8.Fault) text'.toList := by
    rw [← Utf8.decode_encode, ← Utf8.decode_encode]
    exact congrArg Utf8.decode h
  exact String.toList_inj.1 (Except.ok.inj decoded)

theorem encodeString_append (text text' : String) :
    Utf8.encodeString (text ++ text') = Utf8.encodeString text ++ Utf8.encodeString text' := by
  simp only [Utf8.encodeString, Utf8.encode, String.toList_append, List.flatMap_append]

/-- Bytes as the digits of a number, none of them zero. -/
def digitsOf (bytes : List UInt8) : List Nat := bytes.map fun b => b.toNat + 1

theorem mem_digitsOf {bytes : List UInt8} {n : Nat} (member : n ∈ digitsOf bytes) : n < 257 ∧ n ≠ 0 := by
  obtain ⟨b, -, rfl⟩ := List.mem_map.1 member
  have := b.toNat_lt
  omega

theorem ofDigits_injective {bytes bytes' : List UInt8}
    (h : Nat.ofDigits 257 (digitsOf bytes) = Nat.ofDigits 257 (digitsOf bytes')) : bytes = bytes' := by
  have back (bytes : List UInt8) : Nat.digits 257 (Nat.ofDigits 257 (digitsOf bytes)) = digitsOf bytes :=
    Nat.digits_ofDigits 257 (by decide) _ (fun n member => (mem_digitsOf member).1) fun filled =>
      (mem_digitsOf (List.getLast_mem filled)).2
  have same : digitsOf bytes = digitsOf bytes' := by rw [← back bytes, h, back bytes']
  apply List.map_injective_iff.2 _ same
  intro b b' equal
  exact UInt8.toNat_inj.1 (Nat.succ.inj equal)

/-- There are not many texts of at most three bytes. -/
theorem length_le_of_short {texts : List (List UInt8)} (distinct : texts.Nodup)
    (short : ∀ text ∈ texts, text.length ≤ 3) : texts.length ≤ 257 ^ 3 := by
  let codes := texts.map fun text => Nat.ofDigits 257 (digitsOf text)
  have apart : codes.Nodup := distinct.map fun _ _ => ofDigits_injective
  have inside : codes ⊆ List.range (257 ^ 3) := by
    intro code member
    obtain ⟨text, listed, rfl⟩ := List.mem_map.1 member
    rw [List.mem_range]
    calc Nat.ofDigits 257 (digitsOf text)
        < 257 ^ (digitsOf text).length :=
          Nat.ofDigits_lt_base_pow_length (by decide) fun n member => (mem_digitsOf member).1
      _ = 257 ^ text.length := by rw [digitsOf, List.length_map]
      _ ≤ 257 ^ 3 := Nat.pow_le_pow_right (by decide) (short text listed)
  calc texts.length
      = codes.length := by rw [List.length_map]
    _ ≤ (List.range (257 ^ 3)).length := (apart.subperm inside).length_le
    _ = 257 ^ 3 := List.length_range

/-- All but the short texts take four bytes each. -/
theorem four_mul_length_le (texts : List (List UInt8)) :
    4 * texts.length ≤ (texts.map List.length).sum + 4 * (texts.filter fun text =>
      text.length ≤ 3).length := by
  induction texts with
  | nil => rfl
  | cons text rest ih =>
    rw [List.map_cons, List.sum_cons, List.length_cons]
    by_cases short : text.length ≤ 3
    · rw [List.filter_cons_of_pos (by simpa using short), List.length_cons]
      omega
    · rw [List.filter_cons_of_neg (by simpa using short)]
      omega

/-- Distinct texts are not many more than their bytes allow for. -/
theorem length_le_of_size {texts : List String} (distinct : texts.Nodup)
    (size : (texts.map textSize).sum < 1073741824) : 3 * texts.length + 5 ≤ 1073741822 := by
  let encoded := texts.map Utf8.encodeString
  have apart : encoded.Nodup := distinct.map fun _ _ => encodeString_injective
  have short : (encoded.filter fun text => text.length ≤ 3).length ≤ 257 ^ 3 := by
    apply length_le_of_short (apart.filter _)
    intro text member
    exact of_decide_eq_true (List.mem_filter.1 member).2
  have bytes : (encoded.map List.length).sum = (texts.map textSize).sum := by
    rw [List.map_map]
    rfl
  have count := four_mul_length_le encoded
  rw [bytes, List.length_map] at count
  omega

theorem textSize_ofList (text : List Char) : textSize (String.ofList text) = (Utf8.encode text).length := by
  rw [textSize, Utf8.encodeString, String.toList_ofList]

/-- The parts of a name are no longer than the text it is read from. -/
theorem textSize_parse (text : String) :
    textSize (QName.parse text).space ≤ textSize text ∧ textSize (QName.parse text).name ≤ textSize text ∧
      textSize (QName.parse text).text ≤ textSize text := by
  have divided {mark : Char} {before after : List Char} (one : 1 ≤ (String.utf8EncodeChar mark).length)
      (h : Text.splitLast? mark text.toList = some (before, after)) :
      textSize (String.ofList before) + 1 + textSize (String.ofList after) ≤ textSize text := by
    rw [textSize_ofList, textSize_ofList, textSize, Utf8.encodeString, (Text.splitLast?_eq_some h).1,
      Utf8.encode, Utf8.encode, Utf8.encode, List.flatMap_append, List.flatMap_cons, List.length_append,
      List.length_append]
    omega
  have joined (q : QName) : textSize q.text ≤ textSize q.space + 1 + textSize q.name := by
    unfold QName.text
    split
    next => omega
    next =>
      rw [textSize, encodeString_append, encodeString_append, List.length_append, List.length_append]
      exact le_rfl
  have parts : QName.parse text = QName.unnamed text ∨
      textSize (QName.parse text).space + 1 + textSize (QName.parse text).name ≤ textSize text := by
    unfold QName.parse
    split
    next colon => exact Or.inr (divided (by decide) colon)
    next =>
      split
      next dot => exact Or.inr (divided (by decide) dot)
      next => exact Or.inl rfl
  rcases parts with plain | apart
  · rw [plain]
    exact ⟨Nat.zero_le _, le_rfl, le_rfl⟩
  · have whole := joined (QName.parse text)
    omega

end Abc

end AbcBuild
