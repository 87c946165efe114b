/-
Module: AbcBuild.Proofs.PropertyLines
Purpose: How the lines of a properties file make up its entries.  Each line either ends the entry that it
  belongs to or lets it go on, and what comes before an entry matters only by that.  So files can be read one
  after the other.
Main exports: Text.lines_append, Table.overlay, Properties.EndsInside, Properties.properties_compose
-/
import AbcBuild.Proofs.Escapes
import AbcBuild.Proofs.Table

namespace AbcBuild

/-! ### Lines of a text -/

namespace Text

/-- A text that consists of whole lines. -/
def Whole (text : List Char) : Prop := text = [] ∨ text.getLast? = some '\n'

instance (text : List Char) : Decidable (Whole text) := inferInstanceAs (Decidable (_ ∨ _))

theorem Whole.tail {c : Char} {rest : List Char} (whole : Whole (c :: rest)) : Whole rest := by
  cases rest with
  | nil => exact Or.inl rfl
  | cons d more => exact Or.inr (by simpa [Whole] using whole)

/-- Only a line feed is a whole line of one character. -/
theorem Whole.ne_nil {c : Char} {rest : List Char} (whole : Whole (c :: rest)) (inner : c ≠ '\n') :
    rest ≠ [] := by
  intro last
  rw [last] at whole
  simp [Whole, inner] at whole

theorem lines_eq_nil_iff {text : List Char} : lines text = [] ↔ text = [] := by
  fun_cases lines text <;> simp

/-- A character that ends no line stands in the first line. -/
theorem lines_cons {c : Char} {rest line : List Char} {more : List (List Char)} (inner : c ≠ '\n')
    (single : ∀ after, c = '\r' → rest ≠ '\n' :: after) (found : lines rest = line :: more) :
    lines (c :: rest) = (c :: line) :: more := by
  rw [lines, found]
  · exact fun after carriage here => single after carriage here
  · exact inner

/-- A text of whole lines may be split off before the lines are told apart. -/
theorem lines_append {first : List Char} (whole : Whole first) (second : List Char) :
    lines (first ++ second) = lines first ++ lines second := by
  fun_induction lines first with
  | case1 => rfl
  | case2 rest ih =>
    rw [List.cons_append, List.cons_append, lines, ih whole.tail.tail, List.cons_append]
  | case3 rest ih =>
    rw [List.cons_append, lines, ih whole.tail, List.cons_append]
  | case4 c rest _ inner none ih => exact absurd (lines_eq_nil_iff.1 none) (whole.ne_nil inner)
  | case5 c rest single inner line more found ih =>
    rw [List.cons_append, List.cons_append]
    refine lines_cons inner ?_ (by rw [ih whole.tail, found, List.cons_append])
    intro after carriage here
    cases rest with
    | nil => exact whole.ne_nil inner rfl
    | cons d rest =>
      rw [List.cons_append, List.cons.injEq] at here
      exact single rest carriage (by rw [here.1])

theorem length_lines {text : List Char} (whole : Whole text) : (lines text).length = text.count '\n' := by
  fun_induction lines text with
  | case1 => rfl
  | case2 rest ih =>
    rw [List.length_cons, ih whole.tail.tail]
    simp
  | case3 rest ih =>
    rw [List.length_cons, ih whole.tail]
    simp
  | case4 c rest _ inner none ih => exact absurd (lines_eq_nil_iff.1 none) (whole.ne_nil inner)
  | case5 c rest _ inner line more found ih =>
    have same : ((c :: line) :: more).length = (lines rest).length := by rw [found]; rfl
    rw [same, ih whole.tail, List.count_cons_of_ne inner]

end Text

/-! ### Tables on top of each other -/

namespace Table

variable {κ ν : Type} [DecidableEq κ]

/-- A table with another one on top.  A key of both keeps its place and takes the new value; new keys
    follow. -/
def overlay (t added : Table κ ν) : Table κ ν :=
  ⟨t.entries.map (fun entry => (entry.1, (added.get? entry.1).getD entry.2)) ++
    added.entries.filter fun entry => entry.1 ∉ t.keys⟩

theorem keys_overlay (t added : Table κ ν) :
    (t.overlay added).keys = t.keys ++ added.keys.filter fun key => key ∉ t.keys := by
  simp [keys, overlay, List.filter_map, Function.comp_def]

theorem lookup_filter (kept : κ → Bool) {key : κ} (h : kept key = true) (entries : List (κ × ν)) :
    lookup key (entries.filter fun entry => kept entry.1) = lookup key entries := by
  induction entries with
  | nil => rfl
  | cons entry rest ih =>
    by_cases here : entry.1 = key
    · simp [lookup, here, h]
    · by_cases keeps : kept entry.1 = true <;> simp [lookup, keeps, here, ih]

theorem get?_overlay (t added : Table κ ν) (key : κ) :
    (t.overlay added).get? key = (added.get? key).or (t.get? key) := by
  have first : lookup key (t.entries.map fun entry => (entry.1, (added.get? entry.1).getD entry.2)) =
      (t.get? key).map fun value => (added.get? key).getD value :=
    lookup_map key (fun key value => (added.get? key).getD value) t.entries
  rw [get?, overlay, lookup_append, first]
  cases known : t.get? key with
  | some value => cases added.get? key <;> rfl
  | none =>
    have absent : key ∉ t.keys := by simp [← isSome_get?, known]
    rw [lookup_filter (fun key => key ∉ t.keys) (decide_eq_true absent)]
    simp [get?]

/-- Entries of a table that are added one by one overlay the others. -/
theorem insertAll_eq_overlay {t added : Table κ ν} (distinct : t.keys.Nodup) (distinct' : added.keys.Nodup) :
    t.insertAll added.entries = t.overlay added := by
  have adopts := adopts_entries t distinct'
  have once : enter [] added.keys = added.keys := by
    have made := keys_insertAll (empty : Table κ ν) added.entries
    rw [insertAll_entries distinct'] at made
    exact made.symm
  refine (ext_get? (nodup_keys_insertAll distinct _) ?_ ?_).symm
  · rw [keys_overlay, adopts.keys, enter_eq, once]
  · intro key
    rw [get?_overlay, adopts.get?]

end Table

/-! ### Entries and their lines -/

namespace Properties

variable {opened : Option (Nat × List Char)}

/-- What a line gives: the entry that it ends, and the one that goes on after it, each with the number of its
    first line. -/
def readLine (number : Nat) (opened : Option (Nat × List Char)) (line : List Char) :
    List (Nat × List Char) × Option (Nat × List Char) :=
  let trimmed := Text.trimStart line
  let start := opened.getD (number, [])
  let joined := trimmed.reverse ++ start.2
  if opened.isNone && isIgnored trimmed then ([], none)
  else if isContinued joined then ([], some (start.1, joined.tail))
  else ([(start.1, joined.reverse)], none)

/-- Lines are joined one at a time, each by `readLine` with the entry that is open. -/
theorem logicalLines_cons (number : Nat) (opened : Option (Nat × List Char)) (line : List Char)
    (rest : List (List Char)) : logicalLines number opened (line :: rest) =
      (readLine number opened line).1 ++ logicalLines (number + 1) (readLine number opened line).2 rest := by
  rw [logicalLines, readLine]
  split
  next => rfl
  next =>
    split
    next first before start =>
      simp only [start]
      split <;> rfl

/-- An entry goes on after the line.  Within an entry a backslash at the end of the line suffices; before
    one, blank lines and comments do not count. -/
def goesOn (within : Bool) (line : List Char) : Bool :=
  (within || !isIgnored (Text.trimStart line)) && escaping (Text.trimStart line)

/-- No backslash is pending in an entry that goes on. -/
def Settled (opened : Option (Nat × List Char)) : Prop := ∀ entry ∈ opened, escaping entry.2.reverse = false

theorem settled_none : Settled none := by
  intro entry member
  cases member

theorem isContinued_joined {number : Nat} (settled : Settled opened) (trimmed : List Char) :
    isContinued (trimmed.reverse ++ (opened.getD (number, [])).2) = escaping trimmed := by
  have before : escaping (opened.getD (number, [])).2.reverse = false := by
    cases opened with
    | none => rfl
    | some entry => exact settled entry rfl
  rw [← escaping_append before, ← isContinued_reverse]
  simp

theorem isSome_readLine (number : Nat) (settled : Settled opened)
    (line : List Char) : (readLine number opened line).2.isSome = goesOn opened.isSome line := by
  rw [readLine, isContinued_joined settled, goesOn]
  cases opened with
  | none => cases isIgnored (Text.trimStart line) <;> cases escaping (Text.trimStart line) <;> rfl
  | some entry => cases escaping (Text.trimStart line) <;> rfl

/-- The backslash that lets an entry go on is dropped, and none is pending then. -/
theorem escaping_tail {backwards : List Char} (continued : isContinued backwards = true) :
    escaping backwards.tail.reverse = false := by
  cases backwards with
  | nil => rfl
  | cons c rest =>
    rw [← List.reverse_reverse (c :: rest), isContinued_reverse, List.reverse_cons, escaping_concat,
      Bool.and_eq_true, Bool.not_eq_true'] at continued
    exact continued.1

/-- The backslash that continues an entry is taken off, so that none is pending. -/
theorem settled_readLine (number : Nat) (opened : Option (Nat × List Char)) (line : List Char) :
    Settled (readLine number opened line).2 := by
  intro entry member
  rw [readLine] at member
  split at member
  next => cases member
  next =>
    split at member
    next continued =>
      cases member
      exact escaping_tail continued
    next => cases member

/-! ### Runs over many lines -/

/-- After lines that end all their entries, reading starts anew. -/
theorem logicalLines_append {number : Nat} (settled : Settled opened)
    {first : List (List Char)} (ended : first.foldl goesOn opened.isSome = false)
    (second : List (List Char)) :
    logicalLines number opened (first ++ second) =
      logicalLines number opened first ++ logicalLines (number + first.length) none second := by
  induction first generalizing number opened with
  | nil =>
    have none : opened = none := by simpa using ended
    subst none
    rfl
  | cons line rest ih =>
    rw [List.foldl_cons, ← isSome_readLine number settled] at ended
    rw [List.cons_append, logicalLines_cons, logicalLines_cons,
      ih (settled_readLine number opened line) ended, List.append_assoc, List.length_cons,
      Nat.add_right_comm, Nat.add_assoc]

/-- More lines change at most the last entry. -/
theorem dropLast_isPrefix (number : Nat) (opened : Option (Nat × List Char))
    (first second : List (List Char)) :
    (logicalLines number opened first).dropLast <+: logicalLines number opened (first ++ second) := by
  induction first generalizing number opened with
  | nil => cases opened <;> exact List.nil_prefix
  | cons line rest ih =>
    rw [List.cons_append, logicalLines_cons, logicalLines_cons, List.dropLast_append]
    split
    · exact (List.dropLast_prefix _).trans (List.prefix_append _ _)
    · exact (List.prefix_append_right_inj _).2 (ih _ _)

/-- The same entry, so many lines later. -/
def later (lines : Nat) (entry : Nat × List Char) : Nat × List Char := (entry.1 + lines, entry.2)

theorem readLine_later (lines number : Nat) (opened : Option (Nat × List Char)) (line : List Char) :
    readLine (number + lines) (opened.map (later lines)) line =
      ((readLine number opened line).1.map (later lines), (readLine number opened line).2.map
        (later lines)) := by
  cases opened with
  | none =>
    simp only [readLine, Option.map_none, Option.getD_none]
    cases isIgnored (Text.trimStart line) <;> cases isContinued ((Text.trimStart line).reverse ++ []) <;> rfl
  | some entry =>
    by_cases continued : isContinued ((Text.trimStart line).reverse ++ entry.2) = true
    · simp [readLine, later, continued]
    · simp [readLine, later, continued]

/-- The numbers of lines are counted from wherever the text starts. -/
theorem logicalLines_later (lines number : Nat) (opened : Option (Nat × List Char))
    (text : List (List Char)) :
    logicalLines (number + lines) (opened.map (later lines)) text =
      (logicalLines number opened text).map (later lines) := by
  induction text generalizing number opened with
  | nil => cases opened <;> rfl
  | cons line rest ih =>
    rw [logicalLines_cons, logicalLines_cons, readLine_later, List.map_append, ← ih, Nat.add_right_comm]

/-! ### Files one after the other -/

/-- The key and the value of an entry, or the line of its fault. -/
def readAt (entry : Nat × List Char) : Except ParseError (String × String) :=
  (readEntry entry.2).mapError fun fault => ⟨entry.1, fault⟩

/-- Entries are read one by one, and the table has them all if none fails. -/
theorem readEntries_eq (table : Table String String) (entries : List (Nat × List Char)) :
    readEntries table entries = (entries.mapM readAt).map table.insertAll := by
  induction entries generalizing table with
  | nil => rfl
  | cons entry rest ih =>
    rw [List.mapM_cons, readEntries, readAt]
    cases readEntry entry.2 with
    | error fault => rfl
    | ok pair =>
      obtain ⟨key, value⟩ := pair
      refine (ih (table.insert key value)).trans ?_
      cases List.mapM readAt rest <;> rfl

theorem parse_eq (text : List Char) :
    parse text = ((logicalLines 1 none (Text.lines text)).mapM readAt).map Table.empty.insertAll :=
  readEntries_eq .empty _

theorem mapM_readAt_later (lines : Nat) (entries : List (Nat × List Char)) :
    (entries.map (later lines)).mapM readAt =
      (entries.mapM readAt).mapError fun e => ⟨e.line + lines, e.fault⟩ := by
  induction entries with
  | nil => rfl
  | cons entry rest ih =>
    rw [List.map_cons, List.mapM_cons, List.mapM_cons, ih]
    have same : readAt (later lines entry) = (readAt entry).mapError fun e => ⟨e.line + lines, e.fault⟩ := by
      rw [readAt, readAt, later]
      cases readEntry entry.2 <;> rfl
    rw [same]
    cases readAt entry with
    | error e => rfl
    | ok pair => cases List.mapM readAt rest <;> rfl

/-- An entry that cannot be read is reported whatever comes after it. -/
theorem mapM_error_of_isPrefix {entries more : List (Nat × List Char)} {e : ParseError}
    (failed : entries.mapM readAt = .error e) (start : entries <+: more) : more.mapM readAt = .error e := by
  obtain ⟨rest, rfl⟩ := start
  rw [List.mapM_append, failed]
  rfl

/-- Reading the text ends within an entry: it goes on after the last line, and nothing before it is at
    fault. -/
def EndsInside (text : List Char) : Prop :=
  (Text.lines text).foldl goesOn false = true ∧
    ∃ table, readEntries .empty (logicalLines 1 none (Text.lines text)).dropLast = .ok table

/-- A file whose lines are whole and whose reading does not end within an entry can be put before another
    one.  If the first is at fault, its fault is reported, else that of the second, so many lines later; and
    if none is, the entries of the second come on top of those of the first. -/
theorem properties_compose {first second : List Char} (whole : Text.Whole first)
    (ended : ¬EndsInside first) :
    (∀ e, parse first = .error e → parse (first ++ second) = .error e) ∧
      (∀ table e, parse first = .ok table → parse second = .error e →
        parse (first ++ second) = .error ⟨e.line + first.count '\n', e.fault⟩) ∧
      ∀ table added, parse first = .ok table → parse second = .ok added →
        parse (first ++ second) = .ok (table.overlay added) := by
  cases onward : (Text.lines first).foldl goesOn false with
  | true =>
    -- the last entry goes on, so reading has stopped before it, at a fault that more lines do not change
    obtain ⟨e, failed⟩ : ∃ e, (logicalLines 1 none (Text.lines first)).dropLast.mapM readAt = .error e := by
      cases read : (logicalLines 1 none (Text.lines first)).dropLast.mapM readAt with
      | error e => exact ⟨e, rfl⟩
      | ok pairs => exact absurd ⟨onward, _, by rw [readEntries_eq, read]; rfl⟩ ended
    have alone : parse first = .error e := by
      rw [parse_eq, mapM_error_of_isPrefix failed (List.dropLast_prefix _)]
      rfl
    have both : parse (first ++ second) = .error e := by
      rw [parse_eq, Text.lines_append whole, mapM_error_of_isPrefix failed (dropLast_isPrefix ..)]
      rfl
    simp [alone, both]
  | false =>
    have entries : logicalLines 1 none (Text.lines (first ++ second)) =
        logicalLines 1 none (Text.lines first) ++
          (logicalLines 1 none (Text.lines second)).map (later (first.count '\n')) := by
      rw [Text.lines_append whole, logicalLines_append settled_none onward, Text.length_lines whole,
        ← logicalLines_later]
      rfl
    simp only [parse_eq, entries, List.mapM_append, mapM_readAt_later]
    cases (logicalLines 1 none (Text.lines first)).mapM readAt with
    | error e => simp [Except.map, bind, Except.bind]
    | ok pairs =>
      cases (logicalLines 1 none (Text.lines second)).mapM readAt with
      | error e => simp [Except.map, Except.mapError, bind, Except.bind]
      | ok added =>
        have distinct := Table.nodup_keys_insertAll (t := (.empty : Table String String)) List.nodup_nil
        have laid : (Table.empty.insertAll pairs).overlay (Table.empty.insertAll added) =
            Table.empty.insertAll (pairs ++ added) := by
          rw [← Table.insertAll_eq_overlay (distinct pairs) (distinct added),
            Table.insertAll_insertAll (distinct pairs), Table.insertAll_append]
        simp [Except.map, Except.mapError, bind, Except.bind, pure, Except.pure, laid]

/-- A continued entry, a comment that ends in a backslash, and a line with a carriage return. -/
def opening : List Char := "a=1\\\n  2\n# b \\\nb=3\r\n".toList

/-- Put before another file, its entries are kept or overridden, and a fault comes four lines later. -/
theorem properties_compose_opening :
    Text.Whole opening ∧ ¬EndsInside opening ∧
      parse (opening ++ "c=4\na=5".toList) = .ok ⟨[("a", "5"), ("b", "3"), ("c", "4")]⟩ ∧
      parse (opening ++ "\nc=\\u12G4".toList) = .error ⟨6, .badEscape "12G4".toList⟩ := by
  have whole : Text.Whole opening := by decide
  have ended : ¬EndsInside opening := fun inside => absurd inside.1 (by decide)
  exact ⟨whole, ended, (properties_compose whole ended).2.2 ⟨[("a", "12"), ("b", "3")]⟩
    ⟨[("c", "4"), ("a", "5")]⟩ rfl rfl, (properties_compose whole ended).2.1 ⟨[("a", "12"), ("b", "3")]⟩
    ⟨2, .badEscape "12G4".toList⟩ rfl rfl⟩

end Properties

end AbcBuild
