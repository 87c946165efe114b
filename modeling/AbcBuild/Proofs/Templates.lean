/-
Module: AbcBuild.Proofs.Templates
Purpose: A template is read once, from left to right.  What has no dollar sign stays, a placeholder gives way
  to the value of its argument, and a template that mentions no argument is left alone, whether its
  placeholders are closed or not.
Main exports: Template.Piece, Template.Mentions, Template.expand_exact
-/
import AbcBuild.Message.Catalogue
import Mathlib.Data.List.Infix

namespace AbcBuild.Template

variable {arguments : List (String × String)} {rest text read : List Char}

/-! ### Templates made of pieces -/

/-- A placeholder as it stands in a template. -/
def placeholder (name : String) : String := "$\x7b" ++ name ++ "\x7d"

/-- The value of the first argument of a name, or the placeholder itself if there is none. -/
def valueOf (arguments : List (String × String)) (name : String) : String :=
  ((arguments.find? fun argument => argument.1 = name).map Prod.snd).getD (placeholder name)

/-- A part of a template: a text without a dollar sign, or a placeholder whose name has no closing brace. -/
inductive Piece where
  | literal (text : String) (plain : '$' ∉ text.toList)
  | placeholder (name : String) (closed : '\x7d' ∉ name.toList)

/-- The piece as it stands in a template. -/
def Piece.source : Piece → String
  | literal text _ => text
  | placeholder name _ => Template.placeholder name

/-- What stands for the piece in the result. -/
def Piece.value (arguments : List (String × String)) : Piece → String
  | literal text _ => text
  | placeholder name _ => valueOf arguments name

theorem toList_placeholder (name : String) :
    (placeholder name).toList = '$' :: '\x7b' :: (name.toList ++ ['\x7d']) := by
  simp [placeholder]

theorem expandName_toList (arguments : List (String × String)) (name : String) :
    expandName arguments name.toList = (valueOf arguments name).toList := by
  rw [expandName, valueOf, String.ofList_toList]
  cases arguments.find? fun argument => argument.1 = name with
  | none => exact (toList_placeholder name).symm
  | some argument => rfl

theorem expandFrom_literal (plain : '$' ∉ text) :
    expandFrom arguments none (text ++ rest) = text ++ expandFrom arguments none rest := by
  induction text with
  | nil => rfl
  | cons c text ih =>
    obtain ⟨here, later⟩ := not_or.1 (mt List.mem_cons.2 plain)
    rw [List.cons_append, expandFrom, ih later, List.cons_append]
    exact fun _ dollar => absurd dollar.symm here

/-- A name is read up to the brace that closes it. -/
theorem expandFrom_name (closed : '\x7d' ∉ text) :
    expandFrom arguments (some read) (text ++ '\x7d' :: rest) =
      expandName arguments (read.reverse ++ text) ++ expandFrom arguments none rest := by
  induction text generalizing read with
  | nil => rw [List.nil_append, expandFrom, List.append_nil]
  | cons c text ih =>
    obtain ⟨here, later⟩ := not_or.1 (mt List.mem_cons.2 closed)
    rw [List.cons_append, expandFrom, ih later, List.reverse_cons, List.append_assoc, List.singleton_append]
    exact Ne.symm here

/-- One piece is expanded, and reading goes on after it. -/
theorem expandFrom_piece (piece : Piece) :
    expandFrom arguments none (piece.source.toList ++ rest) =
      (piece.value arguments).toList ++ expandFrom arguments none rest := by
  cases piece with
  | literal text plain => exact expandFrom_literal plain
  | placeholder name closed =>
    rw [Piece.source, Piece.value, toList_placeholder, List.cons_append, List.cons_append, List.append_assoc,
      expandFrom, List.singleton_append, expandFrom_name closed]
    exact congrArg (· ++ _) (expandName_toList arguments name)

theorem expandFrom_pieces (pieces : List Piece) :
    expandFrom arguments none (String.join (pieces.map Piece.source)).toList =
      (String.join (pieces.map (Piece.value arguments))).toList := by
  induction pieces with
  | nil => rfl
  | cons piece pieces ih =>
    rw [List.map_cons, List.map_cons, String.join_cons, String.join_cons, String.toList_append,
      String.toList_append, expandFrom_piece, ih]

/-! ### Templates that mention no argument -/

/-- The name is the text between an opening mark and the next closing brace. -/
def Mentions (text : List Char) (name : String) : Prop :=
  '\x7d' ∉ name.toList ∧ (placeholder name).toList <:+: text

instance (text : List Char) (name : String) : Decidable (Mentions text name) :=
  inferInstanceAs (Decidable (_ ∧ _))

theorem Mentions.of_suffix {name : String} (h : Mentions rest name) (suffix : rest <:+ text) :
    Mentions text name :=
  ⟨h.1, h.2.trans suffix.isInfix⟩

/-- The placeholder that is being read, and all that follows. -/
def pending : Option (List Char) → List Char → List Char
  | none, rest => rest
  | some read, rest => '$' :: '\x7b' :: (read.reverse ++ rest)

theorem expandName_of_unmentioned (closed : '\x7d' ∉ read)
    (unmentioned : ∀ argument ∈ arguments, ¬Mentions (pending (some read) ('\x7d' :: rest)) argument.1) :
    expandName arguments read.reverse = '$' :: '\x7b' :: (read.reverse ++ ['\x7d']) := by
  have missing : arguments.find? (fun argument => argument.1 = String.ofList read.reverse) = none := by
    rw [List.find?_eq_none]
    intro argument member same
    have named : argument.1.toList = read.reverse := by rw [of_decide_eq_true same, String.toList_ofList]
    refine unmentioned argument member ⟨by simpa [named] using closed, [], rest, ?_⟩
    simp [toList_placeholder, named, pending]
  rw [expandName, missing]
  rfl

/-- Nothing is lost or added on the way, since every opening that is read is followed by what stands
    there. -/
theorem expandFrom_eq_pending {state : Option (List Char)} (opened : ∀ read ∈ state, '\x7d' ∉ read)
    (unmentioned : ∀ argument ∈ arguments, ¬Mentions (pending state rest) argument.1) :
    expandFrom arguments state rest = pending state rest := by
  fun_induction expandFrom arguments state rest with
  | case1 => rfl
  | case2 rest ih => exact ih (by simp) unmentioned
  | case3 c rest _ ih =>
    rw [ih opened fun argument member inside =>
      unmentioned argument member (inside.of_suffix (List.suffix_cons c rest))]
    rfl
  | case4 read => simp [pending]
  | case5 read rest ih =>
    have whole : pending (some read) ('\x7d' :: rest)
        = '$' :: '\x7b' :: (read.reverse ++ ['\x7d']) ++ rest := by
      simp [pending]
    rw [expandName_of_unmentioned (opened read rfl) unmentioned, ih (by simp) fun argument member inside =>
      unmentioned argument member (inside.of_suffix ⟨_, whole.symm⟩), whole]
    rfl
  | case6 read c rest other ih =>
    have same : pending (some (c :: read)) rest = pending (some read) (c :: rest) := by simp [pending]
    rw [ih ?_ (same ▸ unmentioned), same]
    intro _ here
    cases here
    exact mt List.mem_cons.1 (not_or.2 ⟨fun brace => other brace.symm, opened read rfl⟩)

/-- Of a template made of pieces, exactly the placeholders with an argument are replaced, each by the value
    of the first argument of its name, which is not read again.  Any template that mentions no argument stays
    as it is. -/
theorem expand_exact (arguments : List (String × String)) :
    (∀ pieces : List Piece, expand (String.join (pieces.map Piece.source)) arguments =
        String.join (pieces.map (Piece.value arguments))) ∧
      ∀ template : String, (∀ argument ∈ arguments, ¬Mentions template.toList argument.1) →
        expand template arguments = template := by
  constructor
  · intro pieces
    rw [expand, expandFrom_pieces, String.ofList_toList]
  · intro template unmentioned
    have same : expandFrom arguments none template.toList = template.toList :=
      expandFrom_eq_pending (by simp) unmentioned
    rw [expand, same, String.ofList_toList]

/-- A value that looks like a placeholder is put in as it is.  Openings that overlap or are never closed
    mention other names than those of the arguments. -/
theorem expand_exact_overlapping :
    expand "$\x7ba\x7d-$\x7bb\x7d" [("a", "$\x7bc\x7d"), ("a", "2"), ("c", "3")] = "$\x7bc\x7d-$\x7bb\x7d" ∧
      (∀ argument ∈ [("a", "1"), ("b", "2")], ¬Mentions "$\x7ba$\x7bc\x7d$\x7bb".toList argument.1) ∧
      expand "$\x7ba$\x7bc\x7d$\x7bb" [("a", "1"), ("b", "2")] = "$\x7ba$\x7bc\x7d$\x7bb" :=
  ⟨(expand_exact _).1 [.placeholder "a" (by decide), .literal "-" (by decide), .placeholder "b" (by decide)],
    by decide, (expand_exact _).2 _ (by decide)⟩

end AbcBuild.Template
