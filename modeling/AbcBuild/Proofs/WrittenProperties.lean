/-
Module: AbcBuild.Proofs.WrittenProperties
Purpose: Writing a table as a properties file, one line for each key.  Every character but letters and digits
  is escaped, so nothing in a written line is a blank, a comment, a separator or a line end, and each table
  is read back.
Main exports: Properties.writeText, Properties.writeEntry, Properties.readAt_writeEntry,
  Properties.written_read_back
-/
import AbcBuild.Proofs.PropertyLines
import Mathlib.Tactic.MkIffOfInductiveProp

namespace AbcBuild

namespace Text

/-- A line without line ends of its own, with the line feed that ends it. -/
theorem lines_line {line : List Char} (inner : ∀ c ∈ line, c ≠ '\n' ∧ c ≠ '\r') :
    lines (line ++ ['\n']) = [line] := by
  induction line with
  | nil => rfl
  | cons c rest ih =>
    have here := inner c (.head _)
    refine lines_cons here.1 ?_ (ih fun d member => inner d (List.mem_cons_of_mem c member))
    exact fun after carriage => absurd carriage here.2

/-- A last line may lack its line feed. -/
theorem lines_last {line : List Char} (inner : ∀ c ∈ line, c ≠ '\n' ∧ c ≠ '\r') (some : line ≠ []) :
    lines line = [line] := by
  induction line with
  | nil => exact absurd rfl some
  | cons c rest ih =>
    have here := inner c (.head _)
    cases rest with
    | nil => simp [lines, here]
    | cons d rest =>
      have following :=
        ih (fun e member => inner e (List.mem_cons_of_mem c member)) (List.cons_ne_nil d rest)
      exact lines_cons here.1 (fun after carriage => absurd carriage here.2) following

end Text

namespace Properties

/-! ### Writing -/

/-- A character with its escape: a letter for the line ends, tabs and form feeds, nothing for letters and
    digits, and a backslash for any other. -/
def writeChar (c : Char) : List Char :=
  if c = '\n' then ['\\', 'n']
  else if c = '\r' then ['\\', 'r']
  else if c = '\t' then ['\\', 't']
  else if c = '\x0c' then ['\\', 'f']
  else if c.isAlphanum then [c]
  else ['\\', c]

def writeText (text : List Char) : List Char := text.flatMap writeChar

/-- The line of a key and its value. -/
def writeEntry (pair : String × String) : List Char :=
  writeText pair.1.toList ++ '=' :: writeText pair.2.toList

/-- The file of a list of keys with their values, one line for each. -/
def written (pairs : List (String × String)) : List Char :=
  pairs.flatMap fun pair => writeEntry pair ++ ['\n']

/-! ### Written characters -/

variable {c : Char}

theorem ascii_of_isAlphanum (h : c.isAlphanum = true) : c.toNat < 128 := by
  delta Char.isAlphanum Char.isAlpha Char.isUpper Char.isLower Char.isDigit at h
  simp only [Bool.or_eq_true, Bool.and_eq_true, decide_eq_true_eq, ge_iff_le, UInt32.le_iff_toNat_le] at h
  have value : c.toNat = c.val.toNat := rfl
  have upper : 'Z'.val.toNat = 90 := rfl
  have lower : 'z'.val.toNat = 122 := rfl
  have digit : '9'.val.toNat = 57 := rfl
  omega

/-- A character that no reader takes for anything but itself. -/
@[mk_iff]
structure Inert (c : Char) : Prop where
  plain : c ≠ '\\'
  noFeed : c ≠ '\n'
  noReturn : c ≠ '\r'
  noSeparator : (c = '=' || c = ':' || isGap c) = false
  noGap : isGap c = false
  visible : Text.isBlank c = false
  noComment : (c = '#' || c = '!') = false

instance (c : Char) : Decidable (Inert c) := decidable_of_iff _ (inert_iff c).symm

theorem inert_of_isAlphanum (h : c.isAlphanum = true) : Inert c := by
  have each : ∀ n < 128, (Char.ofNat n).isAlphanum = true → Inert (Char.ofNat n) := by decide
  exact forall_ascii (P := fun c => c.isAlphanum = true → Inert c) each (ascii_of_isAlphanum h) h

/-- A written character stands for itself, or it is an escape of two characters. -/
theorem writeChar_cases (c : Char) : (writeChar c = [c] ∧ Inert c) ∨
    ∃ d, writeChar c = ['\\', d] ∧ letterEscape d = c ∧ d ≠ 'u' ∧ d ≠ '\n' ∧ d ≠ '\r' := by
  by_cases feed : c = '\n'
  · exact Or.inr ⟨'n', by simp [writeChar, feed], by simp [letterEscape, feed], by decide⟩
  by_cases carriage : c = '\r'
  · exact Or.inr ⟨'r', by simp [writeChar, carriage], by simp [letterEscape, carriage], by decide⟩
  by_cases tab : c = '\t'
  · exact Or.inr ⟨'t', by simp [writeChar, tab], by simp [letterEscape, tab], by decide⟩
  by_cases form : c = '\x0c'
  · exact Or.inr ⟨'f', by simp [writeChar, form], by simp [letterEscape, form], by decide⟩
  by_cases letter : c.isAlphanum = true
  · exact Or.inl ⟨by simp [writeChar, feed, carriage, tab, form, letter], inert_of_isAlphanum letter⟩
  · have other {d : Char} (alphanumeric : d.isAlphanum = true) : c ≠ d := by
      intro same
      exact letter (same ▸ alphanumeric)
    have itself : letterEscape c = c := by
      simp [letterEscape, other (d := 't') rfl, other (d := 'n') rfl, other (d := 'r') rfl,
        other (d := 'f') rfl]
    exact Or.inr ⟨c, by simp [writeChar, feed, carriage, tab, form, letter], itself, other rfl,
      feed, carriage⟩

@[simp] theorem writeText_cons (c : Char) (text : List Char) :
    writeText (c :: text) = writeChar c ++ writeText text :=
  List.flatMap_cons

/-- Text that is written with escapes is read back as it was. -/
theorem unescape_writeText (text : List Char) : unescape (writeText text) = .ok text := by
  induction text with
  | nil => rfl
  | cons c text ih =>
    rw [writeText_cons]
    rcases writeChar_cases c with ⟨same, inert⟩ | ⟨d, same, stands, other, -⟩
    · rw [same, List.singleton_append, unescape_cons inert.plain, ih]
      rfl
    · rw [same, List.cons_append, List.singleton_append, unescape_pair other, ih, stands]
      rfl

theorem escaping_writeText (text : List Char) : escaping (writeText text) = false := by
  induction text with
  | nil => rfl
  | cons c text ih =>
    rw [writeText_cons]
    rcases writeChar_cases c with ⟨same, inert⟩ | ⟨d, same, -⟩
    · rw [same, List.singleton_append, escaping_cons inert.plain, ih]
    · rw [same, List.cons_append, List.singleton_append, escaping_pair, ih]

theorem mem_writeText {text : List Char} (member : c ∈ writeText text) : c ≠ '\n' ∧ c ≠ '\r' := by
  obtain ⟨d, -, here⟩ := List.mem_flatMap.1 member
  rcases writeChar_cases d with ⟨same, inert⟩ | ⟨e, same, -, -, noFeed, noReturn⟩
  · rw [same, List.mem_singleton] at here
    rw [here]
    exact ⟨inert.noFeed, inert.noReturn⟩
  · rw [same, List.mem_cons, List.mem_singleton] at here
    rcases here with rfl | rfl
    · decide
    · exact ⟨noFeed, noReturn⟩

/-- A written text starts with nothing that is skipped. -/
theorem head_writeText {text : List Char} (first : (writeText text).head? = some c) :
    Inert c ∨ c = '\\' := by
  cases text with
  | nil => cases first
  | cons d text =>
    rw [writeText_cons] at first
    rcases writeChar_cases d with ⟨same, inert⟩ | ⟨e, same, -⟩
    · rw [same] at first
      cases first
      exact Or.inl inert
    · rw [same] at first
      cases first
      exact Or.inr rfl

/-! ### Written lines -/

theorem splitKey_pair (c : Char) (rest : List Char) :
    splitKey ('\\' :: c :: rest) = ('\\' :: c :: (splitKey rest).1, (splitKey rest).2) := by
  rw [splitKey]

theorem splitKey_cons (inert : Inert c) (rest : List Char) :
    splitKey (c :: rest) = (c :: (splitKey rest).1, (splitKey rest).2) := by
  rw [splitKey]
  · simp only [inert.noSeparator, Bool.false_eq_true, if_false]
  · exact fun backslash => absurd backslash inert.plain
  · exact fun d more backslash => absurd backslash inert.plain

/-- The key ends at the equals sign, since those within it are escaped. -/
theorem splitKey_writeText (text rest : List Char) :
    splitKey (writeText text ++ '=' :: rest) = (writeText text, '=' :: rest) := by
  induction text with
  | nil => simp [writeText, splitKey]
  | cons c text ih =>
    rw [writeText_cons]
    rcases writeChar_cases c with ⟨same, inert⟩ | ⟨d, same, -⟩
    · rw [same, List.singleton_append, List.cons_append, splitKey_cons inert, ih]
    · rw [same, List.cons_append, List.singleton_append, List.cons_append, List.cons_append,
        splitKey_pair, ih]

theorem dropWhile_eq_self {skipped : Char → Bool} {text : List Char}
    (start : ∀ c, text.head? = some c → skipped c = false) : text.dropWhile skipped = text := by
  cases text with
  | nil => rfl
  | cons c rest => rw [List.dropWhile_cons, start c rfl, if_neg Bool.false_ne_true]

theorem dropSeparator_writeText (text : List Char) :
    dropSeparator ('=' :: writeText text) = writeText text := by
  have kept : (writeText text).dropWhile isGap = writeText text := by
    refine dropWhile_eq_self fun c first => ?_
    rcases head_writeText first with inert | rfl
    · exact inert.noGap
    · decide
  have sign : ('=' :: writeText text).dropWhile isGap = '=' :: writeText text := rfl
  simp [dropSeparator, sign, kept]

theorem readAt_writeEntry (number : Nat) (pair : String × String) :
    readAt (number, writeEntry pair) = .ok pair := by
  simp [readAt, readEntry, splitEntry, writeEntry, splitKey_writeText, dropSeparator_writeText,
    unescape_writeText, Except.mapError]

theorem head_writeEntry {pair : String × String} (first : (writeEntry pair).head? = some c) :
    Text.isBlank c = false ∧ (c = '#' || c = '!') = false := by
  have here : Inert c ∨ c = '\\' ∨ c = '=' := by
    rw [writeEntry, List.head?_append] at first
    cases key : (writeText pair.1.toList).head? with
    | none =>
      rw [key] at first
      cases first
      exact Or.inr (Or.inr rfl)
    | some d =>
      rw [key] at first
      cases first
      exact (head_writeText key).imp_right Or.inl
  rcases here with inert | rfl | rfl
  · exact ⟨inert.visible, inert.noComment⟩
  · decide
  · decide

theorem escaping_writeEntry (pair : String × String) : escaping (writeEntry pair) = false := by
  rw [writeEntry, escaping_append (escaping_writeText _), escaping_cons (by decide), escaping_writeText]

/-- A written line is an entry of its own. -/
theorem readLine_writeEntry (number : Nat) (pair : String × String) :
    readLine number none (writeEntry pair) = ([(number, writeEntry pair)], none) := by
  have trimmed : Text.trimStart (writeEntry pair) = writeEntry pair :=
    dropWhile_eq_self fun c first => (head_writeEntry first).1
  have counts : isIgnored (writeEntry pair) = false := by
    cases written : writeEntry pair with
    | nil => simp [writeEntry] at written
    | cons c rest => exact (head_writeEntry (congrArg List.head? written)).2
  simp [readLine, trimmed, counts, isContinued_reverse, escaping_writeEntry]

theorem mem_writeEntry (pair : String × String) (member : c ∈ writeEntry pair) : c ≠ '\n' ∧ c ≠ '\r' := by
  rcases List.mem_append.1 member with key | later
  · exact mem_writeText key
  · rcases List.mem_cons.1 later with rfl | value
    · decide
    · exact mem_writeText value

/-! ### Written files -/

/-- An entry is a line of its own. -/
theorem lines_writeEntry (pair : String × String) (rest : List Char) :
    Text.lines (writeEntry pair ++ ['\n'] ++ rest) = writeEntry pair :: Text.lines rest := by
  rw [Text.lines_append (Or.inr List.getLast?_concat), Text.lines_line fun c member =>
    mem_writeEntry pair member]
  rfl

/-- Each entry is written on a line of its own. -/
theorem lines_written (pairs : List (String × String)) :
    Text.lines (written pairs) = pairs.map writeEntry := by
  induction pairs with
  | nil => rfl
  | cons pair rest ih =>
    rw [written, List.flatMap_cons, ← written, lines_writeEntry, ih, List.map_cons]

/-- The last line feed may be missing. -/
theorem lines_written_dropLast (pairs : List (String × String)) :
    Text.lines (written pairs).dropLast = pairs.map writeEntry := by
  induction pairs with
  | nil => rfl
  | cons pair rest ih =>
    have some : writeEntry pair ≠ [] := by simp [writeEntry]
    have last := Text.lines_last (fun c member => mem_writeEntry pair (c := c) member) some
    rw [written, List.flatMap_cons, ← written, List.dropLast_append]
    split
    next none =>
      have done : rest = [] := by
        cases rest with
        | nil => rfl
        | cons pair more => simp [written] at none
      rw [List.dropLast_concat, last, done]
      rfl
    next => rw [lines_writeEntry, ih, List.map_cons]

theorem mapM_readAt_written (number : Nat) (pairs : List (String × String)) :
    (logicalLines number none (pairs.map writeEntry)).mapM readAt = .ok pairs := by
  induction pairs generalizing number with
  | nil => rfl
  | cons pair rest ih =>
    rw [List.map_cons, logicalLines_cons, readLine_writeEntry, List.singleton_append, List.mapM_cons,
      readAt_writeEntry, ih]
    rfl

/-- Every table is read back from the file that it is written to, with its keys in their order, whether or
    not the last line is ended. -/
theorem written_read_back {pairs : List (String × String)} (distinct : (pairs.map Prod.fst).Nodup) :
    parse (written pairs) = .ok ⟨pairs⟩ ∧ parse (written pairs).dropLast = .ok ⟨pairs⟩ := by
  have table : Table.empty.insertAll pairs = ⟨pairs⟩ := Table.insertAll_entries (t := ⟨pairs⟩) distinct
  rw [parse_eq, parse_eq, lines_written, lines_written_dropLast, mapM_readAt_written, ← table]
  exact ⟨rfl, rfl⟩

/-- Keys and values with every kind of character that means something in a file: the empty key, comment
    signs, blanks, separators, backslashes, line ends and characters beyond ASCII. -/
def oddities : List (String × String) :=
  [("", ""), ("#!", " =:"), ("a b", "\\"), ("\u00a0é", "x\\\n"), ("\t\r", "\\u12")]

theorem written_read_back_oddities :
    (oddities.map Prod.fst).Nodup ∧ parse (written oddities) = .ok ⟨oddities⟩ :=
  ⟨by decide, (written_read_back (show (oddities.map Prod.fst).Nodup by decide)).1⟩

end Properties

end AbcBuild
