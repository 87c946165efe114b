/-
Module: AbcBuild.Proofs.Escapes
Purpose: Escapes in the keys and values of a properties file.  Read from the left, a backslash escapes the
  character after it, and an escaped `u` takes four more characters, which stand for the character with that
  number.
Main exports: Properties.escaping, Properties.isContinued_reverse, Properties.unescape_append,
  Properties.escapes_accepted
-/
import AbcBuild.Proofs.Codec
import AbcBuild.Properties
import Mathlib.Data.List.Induction
import Mathlib.Tactic.IntervalCases

namespace AbcBuild.Properties

/-! ### Which characters are escaped -/

/-- Read from the left, the text ends in a backslash that escapes what comes next. -/
def escaping (text : List Char) : Bool := text.foldl (fun pending c => !pending && c = '\\') false

theorem escaping_concat (text : List Char) (c : Char) :
    escaping (text ++ [c]) = (!escaping text && decide (c = '\\')) := by
  simp [escaping]

/-- Text that does not end in an open escape does not affect how the text after it is read. -/
theorem escaping_append {before : List Char} (settled : escaping before = false) (after : List Char) :
    escaping (before ++ after) = escaping after := by
  rw [escaping, List.foldl_append]
  exact congrArg (fun start => after.foldl _ start) settled

variable {c : Char}

@[simp] theorem escaping_cons (plain : c ≠ '\\') (rest : List Char) :
    escaping (c :: rest) = escaping rest := by
  have settled : escaping [c] = false := by simp [escaping, plain]
  exact escaping_append settled rest

@[simp] theorem escaping_pair (c : Char) (rest : List Char) :
    escaping ('\\' :: c :: rest) = escaping rest := by
  have settled : escaping ['\\', c] = false := by simp [escaping]
  exact escaping_append settled rest

/-- Whether a line goes on is decided by the backslash that would escape what comes next. -/
theorem isContinued_reverse (text : List Char) : isContinued text.reverse = escaping text := by
  induction text using List.reverseRecOn with
  | nil => rfl
  | append_singleton text c ih =>
    rw [escaping_concat, ← ih, List.reverse_concat]
    by_cases backslash : c = '\\'
    · have parity (n : Nat) : decide ((n + 1) % 2 = 1) = !decide (n % 2 = 1) := by
        rw [← decide_not, decide_eq_decide]
        omega
      simpa [isContinued, backslash] using parity _
    · simp [isContinued, backslash]

/-! ### Hexadecimal digits -/

/-- The character is the hexadecimal digit of the number, in lower or in upper case. -/
def HexDigit (c : Char) (d : Nat) : Prop :=
  "0123456789abcdef".toList[d]? = some c ∨ "0123456789ABCDEF".toList[d]? = some c

instance (c : Char) (d : Nat) : Decidable (HexDigit c d) := inferInstanceAs (Decidable (_ ∨ _))

theorem HexDigit.lt {d : Nat} (h : HexDigit c d) : d < 16 := by
  rcases h with h | h
  · exact (List.getElem?_eq_some_iff.1 h).1
  · exact (List.getElem?_eq_some_iff.1 h).1

/-- What holds of every character of one byte is seen by looking at each. -/
theorem forall_ascii {P : Char → Prop} (each : ∀ n < 128, P (Char.ofNat n)) (ascii : c.toNat < 128) :
    P c := by
  have here := each c.toNat ascii
  rwa [Char.ofNat_toNat] at here

/-- Hexadecimal digits are ASCII characters. -/
theorem ascii_of_hexDigit? {d : Nat} (h : hexDigit? c = some d) : c.toNat < 128 := by
  have below {low high : Char} (within : (decide (low ≤ c) && decide (c ≤ high)) = true)
      (ascii : high.toNat < 128) : c.toNat < 128 := by
    rw [Bool.and_eq_true, decide_eq_true_eq, decide_eq_true_eq] at within
    exact Nat.lt_of_le_of_lt within.2 ascii
  unfold hexDigit? at h
  split at h
  next within => exact below within (by decide)
  next =>
    split at h
    next within => exact below within (by decide)
    next =>
      split at h
      next within => exact below within (by decide)
      next => cases h

/-- The reader of digits accepts exactly those of `HexDigit`, with their values. -/
theorem hexDigit?_eq_some_iff {d : Nat} : hexDigit? c = some d ↔ HexDigit c d := by
  constructor
  · intro h
    have each : ∀ n < 128, ∀ d ∈ hexDigit? (Char.ofNat n), HexDigit (Char.ofNat n) d := by decide
    exact forall_ascii (P := fun c => ∀ d ∈ hexDigit? c, HexDigit c d) each (ascii_of_hexDigit? h) d h
  · intro h
    have bound := h.lt
    rcases h with h | h
    · interval_cases d <;> cases h <;> rfl
    · interval_cases d <;> cases h <;> rfl

/-! ### The character after an escaped `u` -/

/-- The text starts with the four hexadecimal digits of a character, and `rest` comes after them. -/
inductive FourDigits : List Char → Char → List Char → Prop
  | mk {a b c d ch : Char} {w x y z : Nat} {rest : List Char} (first : HexDigit a w) (second : HexDigit b x)
      (third : HexDigit c y) (fourth : HexDigit d z) (value : ch.toNat = 4096 * w + 256 * x + 16 * y + z) :
      FourDigits (a :: b :: c :: d :: rest) ch rest

/-- The text with the digit 0 for a plus sign at its start. -/
def unsigned : List Char → List Char
  | [] => []
  | c :: rest => (if c = '+' then '0' else c) :: rest

theorem hexValue?_cons {value n : Nat} {rest : List Char} :
    hexValue? value (c :: rest) = some n ↔ ∃ d, HexDigit c d ∧ hexValue? (16 * value + d) rest = some n := by
  rw [hexValue?]
  cases digit : hexDigit? c with
  | none | some => simp [← hexDigit?_eq_some_iff, digit]

/-- Four digits have the value that they have in base 16. -/
theorem hexValue?_four {a b d : Char} {n : Nat} : hexValue? 0 [a, b, c, d] = some n ↔
    ∃ w x y z, HexDigit a w ∧ HexDigit b x ∧ HexDigit c y ∧ HexDigit d z ∧
      n = 4096 * w + 256 * x + 16 * y + z := by
  have none (value : Nat) : hexValue? value [] = some value := rfl
  simp only [hexValue?_cons, none, Option.some.injEq]
  constructor
  · intro ⟨w, first, x, second, y, third, z, fourth, value⟩
    exact ⟨w, x, y, z, first, second, third, fourth, by omega⟩
  · intro ⟨w, x, y, z, first, second, third, fourth, value⟩
    exact ⟨w, first, x, second, y, third, z, fourth, by omega⟩

theorem code?_eq (a b c d : Char) : code? a b c d = hexValue? 0 (unsigned [a, b, c, d]) := by
  by_cases plus : a = '+'
  · simp [code?, unsigned, plus, hexValue?, show hexDigit? '0' = some 0 from rfl]
  · simp [code?, unsigned, plus]

theorem toNat_ofNat_char {n : Nat} (h : n < 0xd800 ∨ (0xdfff < n ∧ n < 0x110000)) :
    (Char.ofNat n).toNat = n := by
  have valid : n.isValidChar := h
  have made : Char.ofNat n = Char.ofNatAux n valid := dif_pos valid
  rw [made]
  rfl

/-- Four characters are read as an escape just if they are four digits, a plus sign in the first place being
    read as 0, of a character. -/
theorem escaped_eq_ok_iff {a b d ch : Char} (rest : List Char) :
    escaped a b c d = .ok ch ↔ FourDigits (unsigned (a :: b :: c :: d :: rest)) ch rest := by
  have reads : escaped a b c d = .ok ch ↔ code? a b c d = some ch.toNat := by
    rw [escaped]
    split
    next none => simp [none]
    next n found =>
      rw [found, Option.some.injEq]
      split
      next valid =>
        rw [Except.ok.injEq]
        constructor
        · intro made
          rw [← made, toNat_ofNat_char valid]
        · intro value
          rw [value, Char.ofNat_toNat]
      next invalid =>
        have outside : n ≠ ch.toNat := by
          intro value
          exact invalid (value ▸ ch.valid)
        simp [outside]
  rw [reads, code?_eq, unsigned, unsigned, hexValue?_four]
  constructor
  · intro ⟨w, x, y, z, first, second, third, fourth, value⟩
    exact .mk first second third fourth value
  · intro ⟨first, second, third, fourth, value⟩
    exact ⟨_, _, _, _, first, second, third, fourth, value⟩

/-- What follows each escaped `u` is as `reads` says. -/
def EveryEscape (reads : List Char → Prop) (raw : List Char) : Prop :=
  ∀ before after, raw = before ++ 'u' :: after → escaping before = true → reads after

section EveryEscape

variable {reads : List Char → Prop}

theorem everyEscape_nil : EveryEscape reads [] := by
  intro before after whole
  simp at whole

@[simp] theorem everyEscape_cons {c : Char} (plain : c ≠ '\\') (rest : List Char) :
    EveryEscape reads (c :: rest) ↔ EveryEscape reads rest := by
  constructor
  · intro every before after whole escaped
    exact every (c :: before) after (by rw [whole, List.cons_append]) (by rwa [escaping_cons plain])
  · intro every before after whole escaped
    cases before with
    | nil => cases escaped
    | cons first before =>
      rw [List.cons_append, List.cons.injEq] at whole
      rw [← whole.1, escaping_cons plain] at escaped
      exact every before after whole.2 escaped

/-- An escaped character is the place of an escape just if it is a `u`. -/
@[simp] theorem everyEscape_pair (c : Char) (rest : List Char) :
    EveryEscape reads ('\\' :: c :: rest) ↔ (c = 'u' → reads rest) ∧ EveryEscape reads rest := by
  constructor
  · intro every
    constructor
    · intro letter
      exact every ['\\'] rest (by rw [letter]; rfl) rfl
    · intro before after whole escaped
      exact every ('\\' :: c :: before) after (by rw [whole]; rfl) (by rwa [escaping_pair])
  · intro ⟨here, every⟩ before after whole escaped
    rcases before with _ | ⟨first, _ | ⟨second, before⟩⟩
    · cases escaped
    · simp only [List.cons_append, List.nil_append, List.cons.injEq] at whole
      exact whole.2.2 ▸ here whole.2.1
    · simp only [List.cons_append, List.cons.injEq] at whole
      rw [← whole.1, escaping_pair] at escaped
      exact every before after whole.2.2 escaped

theorem everyEscape_backslash : EveryEscape reads ['\\'] := by
  intro before after whole escaped
  rcases before with _ | ⟨first, before⟩
  · cases escaped
  · simp at whole

end EveryEscape

/-! ### Texts that can be read -/

theorem unescape_cons (plain : c ≠ '\\') (rest : List Char) :
    unescape (c :: rest) = (unescape rest).map (c :: ·) := by
  rw [unescape]
  all_goals simp [plain]

theorem unescape_pair (other : c ≠ 'u') (rest : List Char) :
    unescape ('\\' :: c :: rest) = (unescape rest).map (letterEscape c :: ·) := by
  rw [unescape]
  all_goals simp [other]

theorem unescape_four {a b d ch : Char} (found : escaped a b c d = .ok ch) (rest : List Char) :
    unescape ('\\' :: 'u' :: a :: b :: c :: d :: rest) = (unescape rest).map (ch :: ·) := by
  rw [unescape, found]

/-- The text starts with the four hexadecimal digits of some character. -/
def Coded (text : List Char) : Prop := ∃ ch rest, FourDigits text ch rest

/-- The same, where a plus sign in the first place counts as the digit 0. -/
def Readable (text : List Char) : Prop := Coded (unsigned text)

/-- What can be read after an escaped `u` are four characters that `escaped` accepts. -/
theorem readable_iff {after : List Char} :
    Readable after ↔ ∃ a b c d rest ch, after = a :: b :: c :: d :: rest ∧ escaped a b c d = .ok ch := by
  constructor
  · intro ⟨ch, rest, four⟩
    cases after with
    | nil => cases four
    | cons a more =>
      rw [unsigned] at four
      cases four with
      | @mk _ b c d _ _ _ _ _ _ first second third fourth value =>
        exact ⟨a, b, c, d, rest, ch, rfl, (escaped_eq_ok_iff rest).2 (.mk first second third fourth value)⟩
  · intro ⟨a, b, c, d, rest, ch, whole, found⟩
    rw [whole]
    exact ⟨ch, rest, (escaped_eq_ok_iff rest).1 found⟩

/-- The digits of an escape start no escape of their own. -/
theorem ne_backslash_of_escaped {a b d ch : Char} (found : escaped a b c d = .ok ch) :
    a ≠ '\\' ∧ b ≠ '\\' ∧ c ≠ '\\' ∧ d ≠ '\\' := by
  have digit {c : Char} {n : Nat} (h : HexDigit c n) : c ≠ '\\' := by
    intro backslash
    rw [backslash, ← hexDigit?_eq_some_iff] at h
    cases h
  have four := (escaped_eq_ok_iff []).1 found
  rw [unsigned] at four
  cases four with
  | mk first second third fourth value =>
    refine ⟨?_, digit second, digit third, digit fourth⟩
    intro backslash
    rw [backslash] at first
    exact digit first rfl

/-- None of the four characters starts an escape. -/
theorem everyEscape_four {reads : List Char → Prop} {a b d ch : Char} (found : escaped a b c d = .ok ch)
    (rest : List Char) : EveryEscape reads (a :: b :: c :: d :: rest) ↔ EveryEscape reads rest := by
  obtain ⟨first, second, third, fourth⟩ := ne_backslash_of_escaped found
  rw [everyEscape_cons first, everyEscape_cons second, everyEscape_cons third, everyEscape_cons fourth]

/-- A character that is not the first of an escape is no backslash. -/
theorem ne_backslash {rest : List Char} (last : c = '\\' → rest = [] → False)
    (pair : ∀ (d : Char) (more : List Char), c = '\\' → rest = d :: more → False) : c ≠ '\\' := by
  intro backslash
  cases rest with
  | nil => exact last backslash rfl
  | cons d more => exact pair d more backslash rfl

/-- A text can be unescaped exactly if each of its escaped `u`s is followed by digits that can be read. -/
theorem exists_unescape_iff (raw : List Char) :
    (∃ text, unescape raw = .ok text) ↔ EveryEscape Readable raw := by
  fun_induction unescape raw with
  | case1 => simp [everyEscape_nil]
  | case2 => simp [everyEscape_backslash]
  | case3 a b c d rest ch found ih =>
    have here : Readable (a :: b :: c :: d :: rest) := readable_iff.2 ⟨a, b, c, d, rest, ch, rfl, found⟩
    simp [exists_map_eq_ok, ih, everyEscape_four found, here]
  | case4 a b c d rest e failed =>
    have here : ¬Readable (a :: b :: c :: d :: rest) := by
      rw [readable_iff]
      intro ⟨a', b', c', d', rest', ch, whole, found⟩
      cases whole
      rw [failed] at found
      cases found
    simp [here]
  | case5 digits short =>
    have here : ¬Readable digits := by
      rw [readable_iff]
      intro ⟨a, b, c, d, rest, ch, whole, found⟩
      exact short a b c d rest whole
    simp [here]
  | case6 c rest _ other ih =>
    have free : c ≠ 'u' := other
    simp [exists_map_eq_ok, ih, free]
  | case7 c rest last _ _ pair ih => rw [exists_map_eq_ok, ih, everyEscape_cons (ne_backslash last pair)]

/-- A text that does not end within an escape and what comes after it are read apart from each other. -/
theorem unescape_append {before text : List Char} (read : unescape before = .ok text)
    (settled : escaping before = false) (rest : List Char) :
    unescape (before ++ rest) = (unescape rest).map (text ++ ·) := by
  fun_induction unescape before generalizing text with
  | case1 =>
    cases read
    cases read : unescape rest <;> simp [read, Except.map]
  | case2 => cases settled
  | case3 a b c d more ch found ih =>
    obtain ⟨first, second, third, fourth⟩ := ne_backslash_of_escaped found
    rw [escaping_pair, escaping_cons first, escaping_cons second, escaping_cons third,
      escaping_cons fourth] at settled
    obtain ⟨inner, readInner, rfl⟩ := map_eq_ok.1 read
    simp only [List.cons_append]
    rw [unescape_four found, ih readInner settled, map_map_result]
  | case4 a b c d more e failed => cases read
  | case5 digits short => cases read
  | case6 c more _ other ih =>
    rw [escaping_pair] at settled
    obtain ⟨inner, readInner, rfl⟩ := map_eq_ok.1 read
    simp only [List.cons_append]
    rw [unescape_pair other, ih readInner settled, map_map_result]
  | case7 c more last _ _ pair ih =>
    have plain := ne_backslash last pair
    rw [escaping_cons plain] at settled
    obtain ⟨inner, readInner, rfl⟩ := map_eq_ok.1 read
    simp only [List.cons_append]
    rw [unescape_cons plain, ih readInner settled, map_map_result]

/-- If the whole can be read, so can each part of it that ends before an escape. -/
theorem exists_unescape_of_append {before after text : List Char}
    (read : unescape (before ++ '\\' :: after) = .ok text) :
    ∃ text, unescape before = .ok text := by
  have every := (exists_unescape_iff _).1 ⟨text, read⟩
  rw [exists_unescape_iff]
  intro first last whole escaped
  have here :=
    every first (last ++ '\\' :: after) (by rw [whole, List.append_assoc, List.cons_append]) escaped
  rw [readable_iff] at here ⊢
  obtain ⟨a, b, c, d, rest, ch, split, found⟩ := here
  obtain ⟨notFirst, notSecond, notThird, notFourth⟩ := ne_backslash_of_escaped found
  rcases last with _ | ⟨a', _ | ⟨b', _ | ⟨c', _ | ⟨d', rest'⟩⟩⟩⟩ <;>
    simp only [List.cons_append, List.nil_append, List.cons.injEq] at split
  · exact absurd split.1.symm notFirst
  · exact absurd split.2.1.symm notSecond
  · exact absurd split.2.2.1.symm notThird
  · exact absurd split.2.2.2.1.symm notFourth
  · exact ⟨a', b', c', d', rest', ch, rfl, by rw [split.1, split.2.1, split.2.2.1, split.2.2.2.1, found]⟩

theorem unsigned_eq_self {text : List Char} (digits : text.head? ≠ some '+') : unsigned text = text := by
  cases text with
  | nil => rfl
  | cons c rest =>
    have notPlus : c ≠ '+' := by simpa using digits
    rw [unsigned, if_neg notPlus]

theorem Coded.head?_ne_plus {text : List Char} (coded : Coded text) : text.head? ≠ some '+' := by
  obtain ⟨ch, rest, first, second, third, fourth, value⟩ := coded
  intro plus
  cases plus
  rw [← hexDigit?_eq_some_iff] at first
  cases first

/-- A text can be read just if four hexadecimal digits of a character follow each escaped `u`, of which a
    plus sign may stand for the first.  Each such escape gives that character and takes up these four.  So
    the digits alone decide, except for texts that are read with a plus sign after an escaped `u`. -/
theorem escapes_accepted (raw : List Char) :
    ((∃ text, unescape raw = .ok text) ↔ EveryEscape Readable raw) ∧
      (∀ before after text, raw = before ++ '\\' :: 'u' :: after → escaping before = false →
        unescape raw = .ok text → ∃ ch rest first last, FourDigits (unsigned after) ch rest ∧
          unescape before = .ok first ∧ unescape rest = .ok last ∧ text = first ++ ch :: last) ∧
      (((∃ text, unescape raw = .ok text) ↔ EveryEscape Coded raw) ↔
        ¬∃ before after text, raw = before ++ 'u' :: '+' :: after ∧ escaping before = true ∧
          unescape raw = .ok text) := by
  refine ⟨exists_unescape_iff raw, ?_, ?_⟩
  · intro before after text whole settled read
    rw [whole] at read
    obtain ⟨first, readFirst⟩ := exists_unescape_of_append read
    rw [unescape_append readFirst settled] at read
    obtain ⟨more, readMore, same⟩ := map_eq_ok.1 read
    have here := ((everyEscape_pair _ _).1 ((exists_unescape_iff _).1 ⟨more, readMore⟩)).1 rfl
    obtain ⟨a, b, c, d, rest, ch, rfl, found⟩ := readable_iff.1 here
    rw [unescape_four found] at readMore
    obtain ⟨last, readLast, rfl⟩ := map_eq_ok.1 readMore
    exact ⟨ch, rest, first, last, (escaped_eq_ok_iff rest).1 found, readFirst, readLast, same.symm⟩
  · constructor
    · intro decides ⟨before, after, text, whole, escaped, read⟩
      exact (decides.1 ⟨text, read⟩ before _ whole escaped).head?_ne_plus rfl
    · intro noPlus
      constructor
      · intro ⟨text, read⟩ before after whole escaped
        have readable : Readable after := (exists_unescape_iff raw).1 ⟨text, read⟩ before after whole escaped
        have digits : after.head? ≠ some '+' := by
          intro plus
          obtain ⟨rest, rfl⟩ := List.head?_eq_some_iff.1 plus
          exact noPlus ⟨before, rest, text, whole, escaped, read⟩
        rwa [Readable, unsigned_eq_self digits] at readable
      · intro coded
        rw [exists_unescape_iff]
        intro before after whole escaped
        have here := coded before after whole escaped
        rwa [Readable, unsigned_eq_self here.head?_ne_plus]

/-- A plus sign and three digits are read as a letter. -/
theorem plus_sign_accepted :
    unescape "\\u+041".toList = .ok ['A'] ∧ ¬EveryEscape Coded "\\u+041".toList := by
  constructor
  · decide
  · intro every
    exact (every ['\\'] "+041".toList rfl rfl).head?_ne_plus rfl

end AbcBuild.Properties
