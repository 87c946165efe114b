/-
Module: AbcBuild.Proofs.Log
Purpose: The log of a build only grows.  Its count of errors is right, it hides no error, and it shows
  warnings only if they are asked for.
Main exports: Log.addAll, Log.GrowsBy, Message.isClash, Diagnostic.IsAside
-/
import AbcBuild.Diagnostic
import Mathlib.Tactic.Common

namespace AbcBuild

/-- The message tells of a style or of a class that two sources declare, which need not stop a build. -/
def Message.isClash : Message → Bool
  | .styleConflict .. => true
  | .classRedefined .. => true
  | _ => false

/-- A warning that is about one source alone. -/
structure Diagnostic.IsAside (d : Diagnostic) : Prop where
  severity : d.severity = .warning
  message : d.message.isClash = false

namespace Log

/-- Record diagnostics one after the other. -/
def addAll (log : Log) (reports : List Diagnostic) : Log := reports.foldl add log

/-- The second log is the first with more diagnostics of a kind. -/
def GrowsBy (kind : Diagnostic → Prop) (log log' : Log) : Prop :=
  ∃ reports, log' = log.addAll reports ∧ ∀ d ∈ reports, kind d

/-- The errors are counted, and warnings that are not to be shown are not there. -/
structure Tallied (log : Log) : Prop where
  errors : log.errors = (log.ofSeverity .error).length
  warnings : log.showWarnings = false → log.ofSeverity .warning = []

variable {kind kind' : Diagnostic → Prop} {log log' log'' : Log}

/-! ### Growth -/

theorem GrowsBy.refl (kind : Diagnostic → Prop) (log : Log) : log.GrowsBy kind log :=
  ⟨[], rfl, fun _ none => (List.not_mem_nil none).elim⟩

theorem GrowsBy.trans (h : log.GrowsBy kind log') (h' : log'.GrowsBy kind log'') :
    log.GrowsBy kind log'' := by
  obtain ⟨first, rfl, ofKind⟩ := h
  obtain ⟨second, rfl, ofKind'⟩ := h'
  refine ⟨first ++ second, List.foldl_append.symm, fun d member => ?_⟩
  exact (List.mem_append.1 member).elim (ofKind d) (ofKind' d)

theorem GrowsBy.imp (h : log.GrowsBy kind log') (weaker : ∀ d, kind d → kind' d) :
    log.GrowsBy kind' log' := by
  obtain ⟨reports, grown, ofKind⟩ := h
  exact ⟨reports, grown, fun d member => weaker d (ofKind d member)⟩

theorem growsBy_add {d : Diagnostic} (h : kind d) (log : Log) : log.GrowsBy kind (log.add d) :=
  ⟨[d], rfl, fun _ member => List.mem_singleton.1 member ▸ h⟩

/-- What every record keeps, growth keeps. -/
theorem GrowsBy.keeps {P : Log → Prop} (h : log.GrowsBy kind log') (start : P log)
    (step : ∀ log d, kind d → P log → P (log.add d)) : P log' := by
  obtain ⟨reports, rfl, ofKind⟩ := h
  induction reports generalizing log with
  | nil => exact start
  | cons d rest ih =>
    have first := step log d (ofKind d (.head _)) start
    exact ih first fun later member => ofKind later (.tail _ member)

@[simp] theorem showWarnings_add (log : Log) (d : Diagnostic) :
    (log.add d).showWarnings = log.showWarnings := by
  unfold add
  split
  · rfl
  · dsimp only
    split <;> rfl
  · rfl

/-- Only errors are counted. -/
@[simp] theorem errors_add (log : Log) (d : Diagnostic) :
    (log.add d).errors = log.errors + if d.severity = .error then 1 else 0 := by
  unfold add
  split
  next error => rw [if_pos error]
  next warning =>
    dsimp only
    split <;> simp [warning]
  next info => simp [info]

theorem GrowsBy.showWarnings (h : log.GrowsBy kind log') : log'.showWarnings = log.showWarnings :=
  h.keeps (P := fun l => l.showWarnings = log.showWarnings) rfl fun l d _ same =>
    (l.showWarnings_add d).trans same

/-- A log never forgets an error. -/
theorem GrowsBy.errors_le (h : log.GrowsBy kind log') : log.errors ≤ log'.errors :=
  h.keeps (P := fun l => log.errors ≤ l.errors) (Nat.le_refl _) fun l d _ le => by
    rw [errors_add]
    exact Nat.le_add_right_of_le le

theorem hasErrors_iff (log : Log) : log.hasErrors = true ↔ 0 < log.errors := by
  rw [hasErrors, decide_eq_true_iff, Nat.pos_iff_ne_zero]

theorem GrowsBy.hasErrors (h : log.GrowsBy kind log') (failed : log.hasErrors = true) :
    log'.hasErrors = true := by
  rw [hasErrors_iff] at failed ⊢
  exact Nat.lt_of_lt_of_le failed h.errors_le

/-- Growth without errors is no failure. -/
theorem GrowsBy.errors_eq (h : log.GrowsBy kind log') (harmless : ∀ d, kind d → d.severity ≠ .error) :
    log'.errors = log.errors :=
  h.keeps (P := fun l => l.errors = log.errors) rfl fun l d ofKind same => by
    rw [errors_add, if_neg (harmless d ofKind), Nat.add_zero, same]

/-- Asides do not make a build fail. -/
theorem GrowsBy.hasErrors_eq (h : log.GrowsBy Diagnostic.IsAside log') : log'.hasErrors = log.hasErrors := by
  have same := h.errors_eq fun d aside error => by
    rw [aside.severity] at error
    cases error
  rw [Log.hasErrors, Log.hasErrors, same]

/-! ### The count of errors -/

/-- A record adds its diagnostic, unless that is a warning that is not to be shown. -/
@[simp] theorem entries_add (log : Log) (d : Diagnostic) : (log.add d).entries =
    log.entries ++ if d.severity = .warning ∧ log.showWarnings = false then [] else [d] := by
  unfold add
  split
  next error => simp [error]
  next warning =>
    dsimp only
    split
    next shown => simp [shown]
    next hidden => simp [warning, Bool.eq_false_iff.2 hidden]
  next info => simp [info]

/-- Whatever is in the log was there before, or is of the given kind. -/
theorem GrowsBy.entries (h : log.GrowsBy kind log') {d : Diagnostic} (member : d ∈ log'.entries) :
    d ∈ log.entries ∨ kind d := by
  revert d
  refine h.keeps (P := fun l => ∀ {d}, d ∈ l.entries → d ∈ log.entries ∨ kind d) Or.inl
    fun l e ofKind all d member => ?_
  rw [entries_add] at member
  rcases List.mem_append.1 member with earlier | last
  · exact all earlier
  · split at last
    · cases last
    · exact Or.inr (List.mem_singleton.1 last ▸ ofKind)

/-- The count of errors is kept in step with the entries, and hidden warnings are not entered. -/
theorem Tallied.add (h : log.Tallied) (d : Diagnostic) : (log.add d).Tallied where
  errors := by
    rw [errors_add, h.errors]
    simp only [ofSeverity, entries_add]
    cases severity : d.severity with
    | error | info => simp [severity]
    | warning => cases log.showWarnings <;> simp [severity]
  warnings := by
    rw [showWarnings_add]
    intro hidden
    have none := h.warnings hidden
    simp only [ofSeverity, entries_add, List.filter_append] at none ⊢
    rw [none]
    cases severity : d.severity with
    | error | info => simp [severity]
    | warning => simp [hidden]

theorem Tallied.grows (h : log.Tallied) (grows : log.GrowsBy kind log') : log'.Tallied :=
  grows.keeps h fun _ d _ tallied => tallied.add d

end Log

end AbcBuild
