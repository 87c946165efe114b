/-
Module: AbcBuild.Proofs.Merging
Purpose: The laws of taking over frames.  A frame keeps its own slots and its answers, and answers what it
  did not know as the other frame does, without places in a program.  Taking over the same frame again is no
  change, and the names that are known in the end do not depend on the order.
Main exports: Frame.Made, Frame.lookup?_inheritFrom, Frame.contains_inheritAll, Frame.inheritFrom_laws
-/
import AbcBuild.Proofs.Cleaning

namespace AbcBuild

/-- In a table of slots under their own names the slot of a name is the first that has it. -/
theorem Table.find?_values {t : Table QName ClassSlot} (named : ∀ entry ∈ t.entries, entry.2.name = entry.1)
    (q : QName) : (t.values.find? fun slot => slot.name = q) = t.get? q := by
  obtain ⟨entries⟩ := t
  simp only [values, get?] at named ⊢
  induction entries with
  | nil => rfl
  | cons entry rest ih =>
    have here : entry.2.name = entry.1 := named entry (.head _)
    have later := ih fun entry member => named entry (.tail _ member)
    rw [List.map_cons, List.find?_cons, lookup, later, here]
    by_cases same : entry.1 = q <;> simp [same]

namespace Frame

variable {f g : Frame}

/-! ### Frames as they are made -/

/-- Frames as they are made.  A slot may be changed where it stands, but it keeps the name of its class: left
    out is only to rename a slot in place, which access to a slot for writing would allow and no phase does.
    A frame with a renamed slot need not be `Named`, and what takes it over then knows the slot's name and
    not the key. -/
inductive Made : Frame → Prop where
  | empty : Made {}
  | insertClass {f : Frame} (made : Made f) (slot : ClassSlot) : Made (f.insertClass slot)
  | insertDefinition {f : Frame} (made : Made f) (name : QName) : Made (f.insertDefinition name)
  | change {f : Frame} (made : Made f) (name : QName) {change : ClassSlot → ClassSlot}
      (same : ∀ slot, (change slot).name = slot.name) : Made { f with own := f.own.modify name change }
  | inheritFrom {f g : Frame} (made : Made f) (other : Made g) : Made (f.inheritFrom g).1
  | clean {f : Frame} (made : Made f) : Made f.clean

theorem Named.clean (h : f.Named) : f.clean.Named := by
  intro entry member
  have cleaned : entry ∈ f.clean.own.entries := by simpa [Frame.clean, Table.empty] using member
  obtain ⟨old, listed, rfl⟩ := List.mem_map.1 cleaned
  exact h old (List.mem_append_left _ listed)

theorem Named.insertDefinition (h : f.Named) (name : QName) : (f.insertDefinition name).Named := by
  unfold Frame.insertDefinition
  split
  next => exact h
  next => exact h.of_own rfl rfl

theorem Made.named (made : f.Made) : f.Named := by
  induction made with
  | empty => intro entry none; cases none
  | insertClass _ slot ih => exact named_insertClass ih slot
  | insertDefinition _ name ih => exact ih.insertDefinition name
  | change _ name same ih => exact ih.modify name same
  | inheritFrom _ _ ih _ => exact ih.inheritFrom _
  | clean _ ih => exact ih.clean

/-! ### Slots -/

theorem hasClass_eq_isSome (f : Frame) (q : QName) : f.hasClass q = (f.lookup? q).isSome := by
  rw [hasClass, lookup?, Option.isSome_or, Table.contains, Table.contains]

theorem lookup?_eq_none_iff {q : QName} : f.lookup? q = none ↔ f.hasClass q = false := by
  rw [hasClass_eq_isSome, Option.isSome_eq_false_iff, Option.isNone_iff_eq_none]

/-- A slot is taken over under its name unless there is one. -/
theorem lookup?_importSlot (f : Frame) (slot : ClassSlot) (q : QName) :
    (f.importSlot slot).1.lookup? q
    = (f.lookup? q).or (if slot.name = q then some slot.detach else none) := by
  unfold importSlot
  split
  next known =>
    split
    next here =>
      rw [here, hasClass_eq_isSome] at known
      obtain ⟨old, found⟩ := Option.isSome_iff_exists.1 known
      rw [found, Option.some_or]
    next => rw [Option.or_none]
  next unknown =>
    rw [lookup?, Table.get?_insert, lookup?]
    by_cases here : slot.name = q
    · rw [here, Bool.not_eq_true, ← lookup?_eq_none_iff, lookup?, Option.or_eq_none_iff] at unknown
      rw [if_pos here, if_pos here, unknown.1, unknown.2, Option.none_or, Option.none_or, Option.none_or]
    · rw [if_neg here, if_neg here, Option.or_none]

theorem lookup?_importSlots (f : Frame) (slots : List ClassSlot) (q : QName) :
    (f.importSlots slots).1.lookup? q =
      (f.lookup? q).or ((slots.find? fun slot => slot.name = q).map ClassSlot.detach) := by
  induction slots generalizing f with
  | nil => exact (Option.or_none).symm
  | cons slot rest ih =>
    rw [importSlots]
    simp only [ih, lookup?_importSlot, Option.or_assoc, List.find?_cons]
    by_cases here : slot.name = q <;> simp [here]

theorem lookup?_importDefinitions (f : Frame) (names : List QName) (q : QName) :
    (f.importDefinitions names).lookup? q = f.lookup? q := by
  induction names generalizing f with
  | nil => rfl
  | cons name rest ih =>
    rw [importDefinitions, ih]
    split <;> rfl

theorem Named.find?_slots (named : g.Named) (q : QName) :
    ((g.own.values ++ g.imported.values).find? fun slot => slot.name = q) = g.lookup? q := by
  rw [List.find?_append, Table.find?_values fun entry member => named entry (List.mem_append_left _ member),
    Table.find?_values fun entry member => named entry (List.mem_append_right _ member), lookup?]

/-- What the frame does not answer it answers as the other one, without places in a program. -/
theorem lookup?_inheritFrom (f : Frame) (named : g.Named) (q : QName) :
    (f.inheritFrom g).1.lookup? q = (f.lookup? q).or ((g.lookup? q).map ClassSlot.detach) := by
  rw [inheritFrom, lookup?_importDefinitions, lookup?_importSlots, named.find?_slots]

/-- As many slots are counted as there are names that had none. -/
theorem count_importSlots (f : Frame) (slots : List ClassSlot) :
    ∃ new : List QName, new.Nodup ∧ (∀ q, q ∈ new ↔ f.hasClass q = false ∧ q ∈ slots.map ClassSlot.name) ∧
      (f.importSlots slots).2 = new.length := by
  induction slots generalizing f with
  | nil => exact ⟨[], List.nodup_nil, by simp, rfl⟩
  | cons slot rest ih =>
    obtain ⟨new, distinct, iff, count⟩ := ih (f.importSlot slot).1
    have fresh (q : QName) : q ∈ new ↔ (f.hasClass q = false ∧ q ≠ slot.name) ∧
        q ∈ rest.map ClassSlot.name := by
      rw [iff, ← Bool.not_eq_true, hasClass_importSlot, not_or, Bool.not_eq_true]
    by_cases known : f.hasClass slot.name = true
    · refine ⟨new, distinct, ?_, ?_⟩
      · intro q
        rw [fresh, List.map_cons, List.mem_cons]
        grind
      · rw [importSlots, importSlot, if_pos known]
        simpa [importSlot, known] using count
    · refine ⟨slot.name :: new, List.nodup_cons.2 ⟨fun again => ((fresh _).1 again).1.2 rfl, distinct⟩,
        ?_, ?_⟩
      · intro q
        rw [List.mem_cons, fresh, List.map_cons, List.mem_cons]
        grind
      · rw [importSlots, List.length_cons, ← count]
        simp only [importSlot, known, Bool.false_eq_true, if_false]
        omega

/-! ### Taking over again -/

theorem importSlots_of_known {slots : List ClassSlot} (known : ∀ slot ∈ slots, f.hasClass slot.name = true) :
    f.importSlots slots = (f, 0) := by
  induction slots with
  | nil => rfl
  | cons slot rest ih =>
    have here : f.importSlot slot = (f, 0) := by rw [importSlot, if_pos (known slot (.head _))]
    simp only [importSlots, here, ih fun slot later => known slot (.tail _ later)]

theorem importDefinitions_of_known {names : List QName} (known : ∀ name ∈ names, f.contains name = true) :
    f.importDefinitions names = f := by
  induction names with
  | nil => rfl
  | cons name rest ih =>
    rw [importDefinitions, if_pos (known name (.head _))]
    exact ih fun name later => known name (.tail _ later)

/-- A frame that is taken over already brings nothing new. -/
theorem inheritFrom_again (f g : Frame) : (f.inheritFrom g).1.inheritFrom g = ((f.inheritFrom g).1, 0) := by
  have slots : ∀ slot ∈ g.own.values ++ g.imported.values, (f.inheritFrom g).1.hasClass slot.name
      = true := by
    intro slot listed
    rw [inheritFrom, hasClass_importDefinitions, hasClass_importSlots]
    exact Or.inr (List.mem_map_of_mem listed)
  have definitions : ∀ name ∈ g.definitions, (f.inheritFrom g).1.contains name = true := by
    intro name listed
    exact (contains_inheritFrom_iff f g name).2 (Or.inr (Or.inr listed))
  generalize (f.inheritFrom g).1 = merged at slots definitions ⊢
  simp only [inheritFrom, importSlots_of_known slots, importDefinitions_of_known definitions]

/-! ### Taking over several frames -/

theorem contains_inheritAll (f : Frame) (others : List Frame) (q : QName) :
    (f.inheritAll others).contains q = true ↔
      f.contains q = true ∨ ∃ other ∈ others, q ∈ other.slotNames ∨ q ∈ other.definitions := by
  induction others generalizing f with
  | nil => simp [inheritAll]
  | cons other rest ih =>
    calc (f.inheritAll (other :: rest)).contains q = true
        ↔ (f.inheritFrom other).1.contains q = true ∨
            ∃ other ∈ rest, q ∈ other.slotNames ∨ q ∈ other.definitions := ih (f.inheritFrom other).1
      _ ↔ f.contains q = true ∨ ∃ g ∈ other :: rest, q ∈ g.slotNames ∨ q ∈ g.definitions := by
        rw [contains_inheritFrom_iff, List.exists_mem_cons_iff, or_assoc]

/-- The names that are known in the end do not depend on the order in which frames are taken over. -/
theorem contains_inheritAll_perm (f : Frame) {others others' : List Frame} (perm : others.Perm others')
    (q : QName) :
    (f.inheritAll others).contains q = (f.inheritAll others').contains q := by
  rw [Bool.eq_iff_iff, contains_inheritAll, contains_inheritAll]
  simp only [perm.mem_iff]

/-- The laws of taking over a frame.  The unit's own slots stay; a slot that was there stays, and one that
    was not is the other frame's without its places; just the names of both are known; the slots counted are
    the new ones; a second time changes nothing; and the order of several frames does not matter to what is
    known. -/
theorem inheritFrom_laws (f : Frame) {g : Frame} (made : g.Made) :
    (f.inheritFrom g).1.own = f.own ∧
      (∀ q, (f.inheritFrom g).1.lookup? q = (f.lookup? q).or ((g.lookup? q).map fun slot =>
        { slot with classIndex := none, members := slot.members.map fun m =>
        { m with traitRef := none } })) ∧
      (∀ q, (f.inheritFrom g).1.contains q = true ↔ f.contains q = true ∨ g.contains q = true) ∧
      (∃ new : List QName, new.Nodup ∧
        (∀ q, q ∈ new ↔ f.lookup? q = none ∧ ((f.inheritFrom g).1.lookup? q).isSome = true) ∧
        (f.inheritFrom g).2 = new.length) ∧
      (f.inheritFrom g).1.inheritFrom g = ((f.inheritFrom g).1, 0) ∧
      ∀ others others' : List Frame, others.Perm others' →
        ∀ q, (f.inheritAll others).contains q = (f.inheritAll others').contains q := by
  refine ⟨own_inheritFrom f g, lookup?_inheritFrom f made.named, f.contains_inheritFrom made.named, ?_,
    f.inheritFrom_again g, fun _ _ => f.contains_inheritAll_perm⟩
  obtain ⟨new, distinct, iff, count⟩ := f.count_importSlots (g.own.values ++ g.imported.values)
  refine ⟨new, distinct, ?_, count⟩
  intro q
  rw [iff, lookup?_eq_none_iff, ← hasClass_eq_isSome, inheritFrom, hasClass_importDefinitions,
    hasClass_importSlots]
  grind

/-- A class of a library with one variable, at its place in a program. -/
def librarySlot (name : String) : ClassSlot where
  name := ⟨"lib", name⟩
  members := [{ name := "x", space := "", isStatic := false, kind := .var, declaredType := none
                traitRef := some ⟨0, false, 0⟩ }]
  classIndex := some 0

/-- A library that took over another one is taken over with both classes, also by a frame that lists the name
    of one as a definition. -/
theorem inheritFrom_laws_library :
    let library := ((({} : Frame).insertClass (librarySlot "Mid")).inheritFrom
      (({} : Frame).insertClass (librarySlot "Base"))).1.insertDefinition ⟨"lib", "f"⟩
    let app := ({} : Frame).insertDefinition ⟨"lib", "Base"⟩
    library.Made ∧ (app.inheritFrom library).2 = 2 ∧
      (app.inheritFrom library).1.lookup? ⟨"lib", "Base"⟩ = some (librarySlot "Base").detach ∧
      (app.inheritFrom library).1.contains ⟨"lib", "f"⟩ = true ∧
      (app.inheritFrom library).1.inheritFrom library = ((app.inheritFrom library).1, 0) := by
  intro library app
  have made : library.Made :=
    ((Made.empty.insertClass _).inheritFrom (Made.empty.insertClass _)).insertDefinition _
  obtain ⟨-, slots, known, -, again, -⟩ := inheritFrom_laws app made
  exact ⟨made, by decide, (slots _).trans (by decide), (known _).2 (Or.inr (by decide)), again⟩

end Frame

end AbcBuild
