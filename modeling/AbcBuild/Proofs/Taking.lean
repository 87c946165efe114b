/-
Module: AbcBuild.Proofs.Taking
Purpose: What a frame knows once it takes over the frames of other sources.  It forgets nothing, it learns
  nothing but what those frames know, and each source that a name asks for is taken over unless it has no
  frame.
Main exports: Frame.Named, Frame.Within, Frame.Takes, mergeDependencies_takes
-/
import AbcBuild.Analysis.Merge
import AbcBuild.Proofs.Effects

namespace AbcBuild

/-! ### Frames -/

theorem Table.mem_put {κ ν : Type} [DecidableEq κ] {key : κ} {value : ν} {entries : List (κ × ν)}
    {entry : κ × ν} (h : entry ∈ Table.put key value entries) : entry = (key, value) ∨ entry ∈ entries := by
  induction entries with
  | nil => exact Or.inl (List.mem_singleton.1 h)
  | cons first rest ih =>
    rw [Table.put] at h
    split at h
    next here =>
      rcases List.mem_cons.1 h with rfl | later
      · exact Or.inl (by rw [here])
      · exact Or.inr (.tail _ later)
    next =>
      rcases List.mem_cons.1 h with rfl | later
      · exact Or.inr (.head _)
      · exact (ih later).imp id (List.mem_cons_of_mem _)

namespace Frame

variable {f g : Frame}

/-- Each slot stands under the name of its class. -/
def Named (f : Frame) : Prop := ∀ entry ∈ f.own.entries ++ f.imported.entries, entry.2.name = entry.1

theorem hasClass_iff {q : QName} : f.hasClass q = true ↔ q ∈ f.own.keys ∨ q ∈ f.imported.keys := by
  simp only [hasClass, Table.contains, Bool.or_eq_true, Table.isSome_get?]

theorem contains_iff {q : QName} :
    f.contains q = true ↔ q ∈ f.own.keys ∨ q ∈ f.imported.keys ∨ q ∈ f.definitions := by
  rw [contains, Bool.or_eq_true, List.contains_iff_mem, hasClass_iff, or_assoc]

/-- To import a slot adds its class to what a frame knows, unless it is there already. -/
theorem hasClass_importSlot (f : Frame) (slot : ClassSlot) (q : QName) :
    (f.importSlot slot).1.hasClass q = true ↔ f.hasClass q = true ∨ q = slot.name := by
  unfold importSlot
  split
  next known =>
    refine ⟨Or.inl, fun h => h.elim id ?_⟩
    rintro rfl
    exact known
  next =>
    simp only [hasClass_iff, Table.keys, Table.insert]
    rw [Table.fst_put]
    split
    next there => grind
    next => simp only [List.mem_append, List.mem_singleton]; grind

@[simp] theorem hasClass_importSlots (f : Frame) (slots : List ClassSlot) (q : QName) :
    (f.importSlots slots).1.hasClass q = true ↔ f.hasClass q = true ∨ q ∈ slots.map ClassSlot.name := by
  induction slots generalizing f with
  | nil => simp [importSlots]
  | cons slot rest ih =>
    rw [importSlots]
    simp only [ih, hasClass_importSlot, List.map_cons, List.mem_cons, or_assoc]

theorem definitions_importSlots (f : Frame) (slots : List ClassSlot) :
    (f.importSlots slots).1.definitions = f.definitions := by
  induction slots generalizing f with
  | nil => rfl
  | cons slot rest ih =>
    refine (ih (f.importSlot slot).1).trans ?_
    unfold importSlot
    split <;> rfl

@[simp] theorem contains_importSlots (f : Frame) (slots : List ClassSlot) (q : QName) :
    (f.importSlots slots).1.contains q = true ↔ f.contains q = true ∨ q ∈ slots.map ClassSlot.name := by
  rw [contains, contains, Bool.or_eq_true, Bool.or_eq_true, hasClass_importSlots, definitions_importSlots,
    or_right_comm]

@[simp] theorem hasClass_importDefinitions (f : Frame) (names : List QName) :
    (f.importDefinitions names).hasClass = f.hasClass := by
  induction names generalizing f with
  | nil => rfl
  | cons name rest ih =>
    rw [importDefinitions, ih]
    split <;> rfl

theorem subset_importDefinitions (f : Frame) (names : List QName) :
    f.definitions ⊆ (f.importDefinitions names).definitions := by
  induction names generalizing f with
  | nil => exact fun _ => id
  | cons name rest ih =>
    refine fun q listed => ih _ ?_
    split
    · exact listed
    · exact List.mem_append_left _ listed

/-- To import definitions adds their names to what a frame knows. -/
@[simp] theorem contains_importDefinitions (f : Frame) (names : List QName) (q : QName) :
    (f.importDefinitions names).contains q = true ↔ f.contains q = true ∨ q ∈ names := by
  induction names generalizing f with
  | nil => simp [importDefinitions]
  | cons name rest ih =>
    rw [importDefinitions, ih, List.mem_cons]
    split
    next known => grind
    next =>
      simp only [contains_iff, List.mem_append, List.mem_singleton]
      grind

/-- The second frame knows what the first does. -/
structure Within (f g : Frame) : Prop where
  names : ∀ q, f.contains q = true → g.contains q = true
  classes : ∀ q, f.hasClass q = true → g.hasClass q = true

theorem Within.refl (f : Frame) : f.Within f := ⟨fun _ => id, fun _ => id⟩

theorem Within.trans {h : Frame} (first : f.Within g) (second : g.Within h) : f.Within h :=
  ⟨fun q known => second.names q (first.names q known), fun q known =>
    second.classes q (first.classes q known)⟩

/-- A frame forgets nothing as it takes over another. -/
theorem within_inheritFrom (f other : Frame) : f.Within (f.inheritFrom other).1 where
  names := fun q known => by
    rw [inheritFrom, contains_importDefinitions, contains_importSlots]
    exact Or.inl (Or.inl known)
  classes := fun q known => by
    rw [inheritFrom, hasClass_importDefinitions, hasClass_importSlots]
    exact Or.inl known

/-- The slots of a frame have the names under which they stand. -/
theorem Named.slotNames (h : f.Named) :
    (f.own.values ++ f.imported.values).map ClassSlot.name = f.own.keys ++ f.imported.keys := by
  simp only [Table.values, Table.keys, ← List.map_append, List.map_map]
  exact List.map_congr_left h

/-- A frame that takes over another knows what both know. -/
theorem contains_inheritFrom (f : Frame) {other : Frame} (named : other.Named) (q : QName) :
    (f.inheritFrom other).1.contains q = true ↔ f.contains q = true ∨ other.contains q = true := by
  rw [inheritFrom, contains_importDefinitions, contains_importSlots, named.slotNames,
    contains_iff (f := other), List.mem_append, or_assoc, or_assoc]

/-- A frame that takes over another knows all that the other knows. -/
theorem Named.within_inheritFrom {other : Frame} (named : other.Named) (f : Frame) :
    other.Within (f.inheritFrom other).1 where
  names := fun q known => (f.contains_inheritFrom named q).2 (Or.inr known)
  classes := fun q known => by
    rw [inheritFrom, hasClass_importDefinitions, hasClass_importSlots, named.slotNames, List.mem_append]
    exact Or.inr (hasClass_iff.1 known)

section

variable (h : f.Named)
include h

theorem Named.of_own (own : g.own = f.own) (imported : g.imported = f.imported) : g.Named := by
  unfold Named
  rw [own, imported]
  exact h

theorem Named.importSlots (slots : List ClassSlot) : (f.importSlots slots).1.Named := by
  induction slots generalizing f with
  | nil => exact h
  | cons slot rest ih =>
    rw [Frame.importSlots]
    refine ih (f := (f.importSlot slot).1) ?_
    unfold importSlot
    split
    next => exact h
    next =>
      intro entry member
      rcases List.mem_append.1 member with own | imported
      · exact h entry (List.mem_append_left _ own)
      · rcases Table.mem_put imported with rfl | old
        · rfl
        · exact h entry (List.mem_append_right _ old)

theorem Named.inheritFrom (other : Frame) : (f.inheritFrom other).1.Named := by
  have kept (f : Frame) (names : List QName) :
      (f.importDefinitions names).own = f.own ∧ (f.importDefinitions names).imported = f.imported := by
    induction names generalizing f with
    | nil => exact ⟨rfl, rfl⟩
    | cons name rest ih =>
      rw [importDefinitions, (ih _).1, (ih _).2]
      split <;> exact ⟨rfl, rfl⟩
  exact (h.importSlots _).of_own (kept _ _).1 (kept _ _).2

/-- A change to a slot that keeps its name. -/
theorem Named.modify (name : QName) {change : ClassSlot → ClassSlot}
    (same : ∀ slot, (change slot).name = slot.name) :
    ({ f with own := f.own.modify name change } : Frame).Named := by
  unfold Table.modify
  split
  next => exact h
  next slot found =>
    intro entry member
    rcases List.mem_append.1 member with own | imported
    · rcases Table.mem_put own with rfl | old
      · exact (same slot).trans (h (name, slot) (List.mem_append_left _ (Table.mem_of_get? found)))
      · exact h entry (List.mem_append_left _ old)
    · exact h entry (List.mem_append_right _ imported)

theorem Named.resolveInheritance (names : List QName) : (f.resolveInheritance names).1.Named := by
  unfold Frame.resolveInheritance
  generalize names.filterMap f.bindClass = bindings
  simp only
  induction bindings generalizing f with
  | nil => exact h
  | cons b rest ih => exact ih (f := f.applyBinding b) (h.modify b.name fun _ => rfl)

theorem Named.resolveTypes : f.resolveTypes.1.Named := by
  unfold Frame.resolveTypes
  generalize f.boundSlots = bound
  simp only
  induction bound generalizing f with
  | nil => exact h
  | cons entry rest ih => exact ih (f := f.applyType entry.1 entry.2) (h.modify entry.1.owner fun _ => rfl)

theorem named_insertClass (slot : ClassSlot) : (f.insertClass slot).Named := by
  intro entry member
  rcases List.mem_append.1 member with own | imported
  · rcases Table.mem_put own with rfl | old
    · rfl
    · exact h entry (List.mem_append_left _ old)
  · exact h entry (List.mem_append_right _ imported)

end

/-! ### Taking over -/

/-- What happens to a frame that takes over the frames of the sources that names ask for.  Sources that are
    done are not looked at again. -/
structure Takes (frames : String → Option Frame) (asks : Name → Option String) (names : List Name)
    (f : Frame) (done : List String) (f' : Frame) (done' : List String) : Prop where
  own : f'.own = f.own
  definitions : f.definitions ⊆ f'.definitions
  named : f.Named → f'.Named
  grows : f.Within f'
  only : ∀ q, f'.contains q = true →
    f.contains q = true ∨ ∃ source g, frames source = some g ∧ (g.Named → g.contains q = true)
  taken : ∀ source ∈ done', source ∈ done ∨
    ∃ g, frames source = some g ∧ (g.Named → g.Within f')
  asked : ∀ n ∈ names, ∀ source ∈ asks n, source ∈ done' ∨ frames source = none

/-- What a frame keeps and what it learns from the frames that it takes over, one after the other. -/
structure Learns (f : Frame) (calls : List MergeCall) (f' : Frame) : Prop where
  own : f'.own = f.own
  definitions : f.definitions ⊆ f'.definitions
  named : f.Named → f'.Named
  grows : f.Within f'
  only : ∀ q, f'.contains q = true →
    f.contains q = true ∨ ∃ call ∈ calls, call.frame.Named → call.frame.contains q = true
  taken : ∀ call ∈ calls, call.frame.Named → call.frame.Within f'

/-- Frames that are taken over one after the other leave what the frame owns alone, and all that they know is
    learned. -/
theorem learns (f : Frame) (calls : List MergeCall) :
    f.Learns calls (calls.foldl (fun own call => takeOver call.frame own) f) := by
  induction calls generalizing f with
  | nil => exact ⟨rfl, fun _ => id, id, .refl f, fun _ => Or.inl, fun _ none => (List.not_mem_nil none).elim⟩
  | cons call rest ih =>
    have h := ih (f.inheritFrom call.frame).1
    refine ⟨h.own.trans (own_inheritFrom f call.frame), fun q listed => h.definitions ?_,
      fun named => h.named (named.inheritFrom call.frame), (f.within_inheritFrom call.frame).trans h.grows,
      fun q known => ?_, List.forall_mem_cons.2 ⟨?_, h.taken⟩⟩
    · have imported := f.definitions_importSlots (call.frame.own.values ++ call.frame.imported.values)
      exact subset_importDefinitions _ _ (imported ▸ listed)
    · rcases h.only q known with merged | ⟨later, listed, new⟩
      · by_cases named : call.frame.Named
        · refine ((f.contains_inheritFrom named q).1 merged).imp_right fun new => ?_
          exact ⟨call, .head _, fun _ => new⟩
        · exact Or.inr ⟨call, .head _, fun h => (named h).elim⟩
      · exact Or.inr ⟨later, .tail _ listed, new⟩
    · exact fun named => (named.within_inheritFrom f).trans h.grows

end Frame

namespace Context

/-- The source that a name asks for, if another one than the unit's own defines it. -/
def asks (cx : Context) (u : BuildUnit) (n : Name) : Option String :=
  (cx.registry.answer n).bind (dependency? cx u)

/-- What a unit asks for does not change by asking. -/
theorem Asks.asks {cx cx' : Context} (h : cx.Asks cx') (u : BuildUnit) : cx'.asks u = cx.asks u := by
  have same : dependency? cx' u = dependency? cx u := by
    obtain ⟨r, rfl, resolves⟩ := h
    funext name
    simp only [dependency?, Registry.definedIn?, resolves.definitions]
  funext n
  rw [Context.asks, Context.asks, h.answer, same]

theorem Asks.frameOf? {cx cx' : Context} (h : cx.Asks cx') : cx'.frameOf? = cx.frameOf? := by
  obtain ⟨r, rfl, -⟩ := h
  rfl

@[simp] theorem dependency?_resolveName (cx : Context) (n : Name) (u : BuildUnit) :
    (cx.resolveName n).1.bind (dependency? (cx.resolveName n).2 u) = cx.asks u n := by
  obtain ⟨answered, asked⟩ := cx.asks_resolveName n
  rw [← asked.asks u, asks, answered, asked.answer]

end Context

/-! ### One name -/

/-- A unit does not ask for a frame of its own source. -/
theorem Context.ne_of_asks {cx : Context} {u : BuildUnit} {n : Name} {source : String}
    (asked : cx.asks u n = some source) : source ≠ u.source.name := by
  obtain ⟨q, -, found⟩ := Option.bind_eq_some_iff.1 asked
  unfold dependency? at found
  split at found
  next => cases found
  next => simpa using (Option.filter_eq_some_iff.1 found).2

/-- What happens for one name: there is nothing to merge; or there is, but the unit has no frame; or a source
    that is not on record yet is merged and put on record. -/
theorem mergeNamesBy_cons (merge : Frame → Frame → Frame) (name : Name) (rest : List Name) (u : BuildUnit)
    (cx : Context) :
    (∃ processed, processed.getD [] = u.mergedSources ∧
      (∀ source ∈ cx.asks u name, source ∈ u.mergedSources ∨ cx.frameOf? source = none) ∧
      mergeNamesBy merge (name :: rest) u cx =
        mergeNamesBy merge rest (u.withFrame u.typeInfo processed) (cx.resolveName name).2) ∨
    (u.typeInfo = none ∧ mergeNamesBy merge (name :: rest) u cx =
      ⟨u.withFrame u.typeInfo (some u.mergedSources), (cx.resolveName name).2, 0, []⟩) ∨
    ∃ source frame own later, cx.asks u name = some source ∧ source ∉ u.mergedSources ∧
      cx.frameOf? source = some frame ∧ u.typeInfo = some own ∧ later = mergeNamesBy merge rest
        (u.withFrame (some (merge frame own)) (some (u.mergedSources ++ [source]))) (cx.resolveName name).2 ∧
      mergeNamesBy merge (name :: rest) u cx =
        { later with count := later.count + 1, calls := ⟨source, frame⟩ :: later.calls } := by
  rw [mergeNamesBy]
  simp only [cx.dependency?_resolveName, (cx.asks_resolveName name).2.frameOf?]
  cases asks : cx.asks u name with
  | none => exact Or.inl ⟨u.scratch.processed, rfl, fun _ none => (Option.not_mem_none _ none).elim, rfl⟩
  | some source =>
    simp only [Option.mem_def, Option.some.injEq]
    split
    next known =>
      refine Or.inl ⟨some u.mergedSources, rfl, ?_, rfl⟩
      rintro _ rfl
      exact Or.inl (List.contains_iff_mem.1 known)
    next new =>
      cases framed : cx.frameOf? source with
      | none =>
        refine Or.inl ⟨some u.mergedSources, rfl, ?_, rfl⟩
        rintro _ rfl
        exact Or.inr framed
      | some frame =>
        cases info : u.typeInfo with
        | none => exact Or.inr (Or.inl ⟨rfl, rfl⟩)
        | some own =>
          refine Or.inr (Or.inr ⟨source, frame, own, _, rfl, ?_, framed, rfl, rfl, rfl⟩)
          exact fun listed => new (List.contains_iff_mem.2 listed)

/-! ### One visit -/

/-- What one visit leaves behind is accounted for by its calls: the unit's frame, the number that is returned
    and the record of sources.  Each call hands over the frame of a source that was not on record and is not
    the unit's own, and no source that is asked for is left out. -/
structure Merged.Accounts (r : Merged) (merge : Frame → Frame → Frame) (names : List Name) (u : BuildUnit)
    (cx : Context) : Prop where
  asks : cx.Asks r.context
  unit : ∃ typeInfo processed, r.unit = u.withFrame typeInfo processed
  frame : r.unit.typeInfo = u.typeInfo.map fun own =>
    r.calls.foldl (fun own call => merge call.frame own) own
  count : r.count = r.calls.length
  record : r.unit.mergedSources = u.mergedSources ++ r.calls.map MergeCall.source
  distinct : (r.calls.map MergeCall.source).Nodup
  fresh : ∀ call ∈ r.calls, call.source ∉ u.mergedSources
  foreign : ∀ call ∈ r.calls, call.source ≠ u.source.name
  frames : ∀ call ∈ r.calls, cx.frameOf? call.source = some call.frame
  complete : u.typeInfo.isSome = true → ∀ n ∈ names, ∀ source ∈ cx.asks u n,
    source ∈ r.unit.mergedSources ∨ cx.frameOf? source = none

namespace Merged

variable {merge : Frame → Frame → Frame} {name : Name} {names : List Name} {u : BuildUnit} {cx cx' : Context}
  {r : Merged}

theorem accounts_nil (merge : Frame → Frame → Frame) (u : BuildUnit) (cx : Context) :
    Accounts ⟨u, cx, 0, []⟩ merge [] u cx where
  asks := .refl cx
  unit := ⟨u.typeInfo, u.scratch.processed, rfl⟩
  frame := Option.map_id_apply.symm
  count := rfl
  record := (List.append_nil _).symm
  distinct := List.nodup_nil
  fresh := fun _ none => (List.not_mem_nil none).elim
  foreign := fun _ none => (List.not_mem_nil none).elim
  frames := fun _ none => (List.not_mem_nil none).elim
  complete := fun _ _ none => (List.not_mem_nil none).elim

/-- A name asks for nothing that is left to merge. -/
theorem Accounts.skip {processed : Option (List String)}
    (h : r.Accounts merge names (u.withFrame u.typeInfo processed) cx') (asked : cx.Asks cx')
    (same : processed.getD [] = u.mergedSources)
    (nothing : ∀ source ∈ cx.asks u name, source ∈ u.mergedSources ∨ cx.frameOf? source = none) :
    r.Accounts merge (name :: names) u cx := by
  have merged : (u.withFrame u.typeInfo processed).mergedSources = u.mergedSources := same
  have record : r.unit.mergedSources = u.mergedSources ++ r.calls.map MergeCall.source := merged ▸ h.record
  refine { h with
    asks := asked.trans h.asks, record, fresh := merged ▸ h.fresh, frames := ?_, complete := ?_ }
  · exact asked.frameOf? ▸ h.frames
  · intro framed n listed source wanted
    rcases List.mem_cons.1 listed with rfl | later
    · refine (nothing source wanted).imp_left fun old => ?_
      rw [record]
      exact List.mem_append_left _ old
    · rw [← asked.frameOf?]
      refine h.complete framed n later source ?_
      rw [asked.asks]
      exact wanted

/-- A unit without a frame merges nothing. -/
theorem accounts_unframed (merge : Frame → Frame → Frame) (names : List Name) (unframed : u.typeInfo = none)
    (asked : cx.Asks cx') : Accounts ⟨u.withFrame u.typeInfo (some u.mergedSources), cx', 0, []⟩ merge
    names u cx := by
  refine { accounts_nil merge u cx with asks := asked, unit := ⟨_, _, rfl⟩, complete := ?_ }
  intro framed
  rw [unframed] at framed
  cases framed

/-- A name asks for a source that is merged and put on record. -/
theorem Accounts.take {source : String} {frame own : Frame}
    (h : r.Accounts merge names (u.withFrame (some (merge frame own)) (some (u.mergedSources ++ [source])))
      cx')
    (asked : cx.Asks cx') (wanted : cx.asks u name = some source) (new : source ∉ u.mergedSources)
    (found : cx.frameOf? source = some frame) (framed : u.typeInfo = some own) :
    Accounts { r with count := r.count + 1, calls := ⟨source, frame⟩ :: r.calls } merge
      (name :: names) u cx where
  asks := asked.trans h.asks
  unit := h.unit
  frame := by
    rw [framed]
    exact h.frame
  count := congrArg (· + 1) h.count
  record := h.record.trans (List.append_assoc ..)
  distinct := by
    refine List.nodup_cons.2 ⟨fun again => ?_, h.distinct⟩
    obtain ⟨call, listed, rfl⟩ := List.mem_map.1 again
    exact h.fresh call listed (List.mem_append_right _ (List.mem_singleton.2 rfl))
  fresh := by
    intro call listed
    rcases List.mem_cons.1 listed with rfl | later
    · exact new
    · exact fun old => h.fresh call later (List.mem_append_left _ old)
  foreign := by
    intro call listed
    rcases List.mem_cons.1 listed with rfl | later
    · exact Context.ne_of_asks wanted
    · exact h.foreign call later
  frames := by
    intro call listed
    rcases List.mem_cons.1 listed with rfl | later
    · exact found
    · exact asked.frameOf? ▸ h.frames call later
  complete := by
    intro _ n listed source' wanted'
    rcases List.mem_cons.1 listed with rfl | later
    · cases wanted.symm.trans wanted'
      refine Or.inl (h.record ▸ List.mem_append_left _ ?_)
      exact List.mem_append_right _ (List.mem_singleton.2 rfl)
    · rw [← asked.frameOf?]
      refine h.complete rfl n later source' ?_
      rw [asked.asks]
      exact wanted'

end Merged

/-- Every visit is accounted for. -/
theorem accounts_mergeNamesBy (merge : Frame → Frame → Frame) (names : List Name) (u : BuildUnit)
    (cx : Context) :
    (mergeNamesBy merge names u cx).Accounts merge names u cx := by
  induction names generalizing u cx with
  | nil => exact Merged.accounts_nil merge u cx
  | cons name rest ih =>
    have asked := (cx.asks_resolveName name).2
    rcases mergeNamesBy_cons merge name rest u cx with
      ⟨processed, same, nothing, heq⟩ | ⟨unframed, heq⟩ |
      ⟨source, frame, own, later, wanted, new, found, framed, rfl, heq⟩
    · rw [heq]
      exact (ih _ _).skip asked same nothing
    · rw [heq]
      exact Merged.accounts_unframed merge _ unframed asked
    · rw [heq]
      exact (ih _ _).take asked wanted new found framed

/-- A unit with a frame takes over the frames that one set of dependencies asks for. -/
theorem mergeDependencies_takes (set : DependencySet) (u : BuildUnit) (cx : Context) {f : Frame}
    (hf : u.typeInfo = some f) :
    ∃ f' done, (mergeDependencies set u cx).1 = u.withFrame (some f') done ∧
      f.Takes cx.frameOf? (cx.asks u) (u.dependencies.ofSet set) u.mergedSources f' (done.getD []) ∧
      cx.Asks (mergeDependencies set u cx).2.1 := by
  have h := accounts_mergeNamesBy takeOver (u.dependencies.ofSet set) u cx
  rw [mergeDependencies, mergeBy]
  generalize mergeNamesBy takeOver (u.dependencies.ofSet set) u cx = r at h ⊢
  obtain ⟨typeInfo, done, same⟩ := h.unit
  have learns := f.learns r.calls
  obtain rfl : typeInfo = some (r.calls.foldl (fun own call => takeOver call.frame own) f) := by
    have frame := h.frame
    rwa [same, hf] at frame
  have record : done.getD [] = u.mergedSources ++ r.calls.map MergeCall.source := by
    rw [← h.record, same]
    rfl
  refine ⟨_, done, same, { learns with only := ?_, taken := ?_, asked := ?_ }, h.asks⟩
  · intro q known
    refine (learns.only q known).imp_right ?_
    rintro ⟨call, listed, new⟩
    exact ⟨call.source, call.frame, h.frames call listed, new⟩
  · intro source listed
    refine (List.mem_append.1 (record ▸ listed)).imp_right fun new => ?_
    obtain ⟨call, made, rfl⟩ := List.mem_map.1 new
    exact ⟨call.frame, h.frames call made, learns.taken call made⟩
  · intro n listed source wanted
    have complete := h.complete (by rw [hf]; rfl) n listed source wanted
    rwa [same] at complete

end AbcBuild
