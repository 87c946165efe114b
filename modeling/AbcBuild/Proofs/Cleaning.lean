/-
Module: AbcBuild.Proofs.Cleaning
Purpose: What is left of the frames of other sources once a frame that took them over is cleaned.  No slot
  is, but the names of definitions are.
Main exports: Frame.slotNames, Frame.isClean_clean, Frame.clean_after_inheriting
-/
import AbcBuild.Proofs.Taking

namespace AbcBuild

theorem ClassSlot.isDetached_detach (slot : ClassSlot) : slot.detach.isDetached = true := by
  simp [ClassSlot.isDetached, ClassSlot.detach]

namespace Frame

/-- The classes that a frame has slots of, its own first. -/
def slotNames (f : Frame) : List QName := (f.own.values ++ f.imported.values).map ClassSlot.name

/-- One of the frames lists the name as a definition, and neither it nor one before it has a slot of that
    name. -/
def Leaves (others : List Frame) (q : QName) : Prop :=
  ∃ before other after, others = before ++ other :: after ∧ q ∈ other.definitions ∧
    ∀ g ∈ before ++ [other], q ∉ g.slotNames

theorem not_leaves_nil (q : QName) : ¬ Leaves [] q := by
  rintro ⟨before, other, after, split, -⟩
  cases before <;> cases split

theorem leaves_cons {other : Frame} {rest : List Frame} {q : QName} :
    Leaves (other :: rest) q ↔ q ∉ other.slotNames ∧ (q ∈ other.definitions ∨ Leaves rest q) := by
  constructor
  · rintro ⟨before, g, after, split, listed, fresh⟩
    cases before with
    | nil =>
      cases split
      exact ⟨fresh _ (List.mem_singleton.2 rfl), Or.inl listed⟩
    | cons first before =>
      cases split
      apply And.intro (fresh _ (.head _))
      exact Or.inr ⟨before, g, after, rfl, listed, fun h later => fresh h (.tail _ later)⟩
  · rintro ⟨fresh, here | ⟨before, g, after, rfl, listed, later⟩⟩
    · apply Exists.intro []
      refine ⟨other, rest, rfl, here, ?_⟩
      intro g only
      cases List.mem_singleton.1 only
      exact fresh
    · apply Exists.intro (other :: before)
      refine ⟨g, after, rfl, listed, ?_⟩
      intro h member
      rcases List.mem_cons.1 member with rfl | rest
      · exact fresh
      · exact later h rest

/-! ### The names of definitions -/

/-- Each name that is not known yet is appended once. -/
theorem definitions_importDefinitions (f : Frame) (names : List QName) :
    ∃ new, (f.importDefinitions names).definitions = f.definitions ++ new ∧ new.Nodup ∧
      ∀ q, q ∈ new ↔ f.contains q = false ∧ q ∈ names := by
  induction names generalizing f with
  | nil => exact ⟨[], (List.append_nil _).symm, List.nodup_nil, by simp⟩
  | cons name rest ih =>
    rw [importDefinitions]
    split
    next known =>
      obtain ⟨new, appended, distinct, iff⟩ := ih f
      apply Exists.intro new
      refine ⟨appended, distinct, ?_⟩
      intro q
      rw [iff, List.mem_cons]
      grind
    next unknown =>
      obtain ⟨new, appended, distinct, iff⟩ := ih { f with definitions := f.definitions ++ [name] }
      have known (q : QName) : ({ f with definitions := f.definitions ++ [name] } : Frame).contains
          q = false ↔ f.contains q = false ∧ q ≠ name := by
        simp only [← Bool.not_eq_true, contains_iff, List.mem_append, List.mem_singleton]
        grind
      apply Exists.intro (name :: new)
      refine ⟨by rw [appended, List.append_assoc, List.singleton_append],
        List.nodup_cons.2 ⟨?_, distinct⟩, ?_⟩
      · intro again
        exact ((known name).1 ((iff name).1 again).1).2 rfl
      · intro q
        rw [List.mem_cons, iff, known, List.mem_cons]
        grind

theorem contains_inheritFrom_iff (f other : Frame) (q : QName) :
    (f.inheritFrom other).1.contains q = true ↔
      f.contains q = true ∨ q ∈ other.slotNames ∨ q ∈ other.definitions := by
  rw [inheritFrom, contains_importDefinitions, contains_importSlots, or_assoc, slotNames]

/-- Of the definitions of another frame those are appended that neither frame knows otherwise. -/
theorem definitions_inheritFrom (f other : Frame) :
    ∃ new, (f.inheritFrom other).1.definitions = f.definitions ++ new ∧ new.Nodup ∧
      ∀ q, q ∈ new ↔ f.contains q = false ∧ q ∉ other.slotNames ∧ q ∈ other.definitions := by
  obtain ⟨new, appended, distinct, iff⟩ :=
    definitions_importDefinitions (f.importSlots (other.own.values ++ other.imported.values)).1
      other.definitions
  apply Exists.intro new
  refine ⟨by rw [← definitions_importSlots f (other.own.values ++ other.imported.values)]; exact appended,
    distinct, ?_⟩
  intro q
  rw [iff, ← Bool.not_eq_true, contains_importSlots, ← slotNames, not_or, Bool.not_eq_true, and_assoc]

theorem definitions_inheritAll (f : Frame) (others : List Frame) :
    ∃ new, (f.inheritAll others).definitions = f.definitions ++ new ∧ new.Nodup ∧
      ∀ q, q ∈ new ↔ f.contains q = false ∧ Leaves others q := by
  induction others generalizing f with
  | nil => exact ⟨[], (List.append_nil _).symm, List.nodup_nil, by simp [not_leaves_nil]⟩
  | cons other rest ih =>
    obtain ⟨first, appended, distinct, iff⟩ := f.definitions_inheritFrom other
    obtain ⟨later, appended', distinct', iff'⟩ := ih (f.inheritFrom other).1
    have unknown (q : QName) : (f.inheritFrom other).1.contains q = false ↔
        f.contains q = false ∧ q ∉ other.slotNames ∧ q ∉ other.definitions := by
      rw [← Bool.not_eq_true, contains_inheritFrom_iff, not_or, not_or, Bool.not_eq_true]
    apply Exists.intro (first ++ later)
    refine ⟨?_, List.nodup_append'.2 ⟨distinct, distinct', ?_⟩, ?_⟩
    · calc (f.inheritAll (other :: rest)).definitions
          = (f.inheritFrom other).1.definitions ++ later := appended'
        _ = f.definitions ++ (first ++ later) := by rw [appended, List.append_assoc]
    · intro q early late
      exact ((unknown q).1 ((iff' q).1 late).1).2.2 ((iff q).1 early).2.2
    · intro q
      rw [List.mem_append, iff, iff', unknown, leaves_cons]
      grind

/-! ### Cleaning -/

@[simp] theorem isClean_clean (f : Frame) : f.clean.isClean = true := by
  rw [isClean, Bool.and_eq_true]
  apply And.intro rfl
  rw [List.all_eq_true]
  intro slot listed
  obtain ⟨entry, member, rfl⟩ := List.mem_map.1 listed
  obtain ⟨old, -, rfl⟩ := List.mem_map.1 member
  exact old.2.isDetached_detach

/-- Cleaning a frame that took over others leaves the slots that cleaning it at once leaves.  The definitions
    of the others stay: those names that the frame does not know and that no slot stood for when they were
    taken over.  So both ways give one frame just if there is no such name. -/
theorem clean_after_inheriting (f : Frame) (others : List Frame) :
    (f.inheritAll others).clean.own = f.clean.own ∧
      (f.inheritAll others).clean.imported = f.clean.imported ∧
      (∃ left, (f.inheritAll others).clean.definitions = f.clean.definitions ++ left ∧ left.Nodup ∧
        ∀ q, q ∈ left ↔ f.contains q = false ∧ Leaves others q) ∧
      ((f.inheritAll others).clean = f.clean ↔ ∀ q, Leaves others q → f.contains q = true) := by
  have own : (f.inheritAll others).clean.own = f.clean.own := by
    unfold clean
    rw [own_inheritAll]
  obtain ⟨left, appended, distinct, iff⟩ := f.definitions_inheritAll others
  refine ⟨own, rfl, ⟨left, appended, distinct, iff⟩, ?_⟩
  constructor
  · intro same q leaves
    have nothing : left = [] :=
      List.self_eq_append_right.1 ((congrArg Frame.definitions same).symm.trans appended)
    by_contra unknown
    exact List.not_mem_nil (nothing ▸ (iff q).2 ⟨Bool.eq_false_iff.2 unknown, leaves⟩)
  · intro known
    have nothing : left = [] := by
      apply List.eq_nil_iff_forall_not_mem.2
      intro q listed
      obtain ⟨unknown, leaves⟩ := (iff q).1 listed
      exact Bool.eq_false_iff.1 unknown (known q leaves)
    have definitions : (f.inheritAll others).clean.definitions = f.clean.definitions := by
      rw [nothing, List.append_nil] at appended
      exact appended
    calc (f.inheritAll others).clean
        = { own := f.clean.own, imported := .empty, definitions := f.clean.definitions } := by
          rw [← own, ← definitions]
          rfl
      _ = f.clean := rfl

/-- A function of a library is still listed once the frame that took the library over is cleaned. -/
theorem clean_keeps_taken_definition :
    ¬ (({} : Frame).inheritAll [{ definitions := [⟨"lib", "f"⟩] }]).clean.same
      ({} : Frame).clean = true := by
  decide

end Frame

end AbcBuild
