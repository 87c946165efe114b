/-
Module: AbcBuild.Proofs.Publication
Purpose: The values and descriptors that a program publishes.  Both are told by the program and the scope in
  which it is written down.
Main exports: Program.StartsIn, Program.TypesOf.startsIn, Publication.gives_descriptors,
  Publication.gives_origins
-/
import AbcBuild.Proofs.Folding
import AbcBuild.Proofs.Rendering

namespace AbcBuild

/-! ### Values -/

namespace Program

/-- Each data slot of a last class starts as in a scope. -/
def StartsIn (p : Program) (s : Scope) (values : Table TraitRef ConstantValue) : Prop :=
  ∀ name index c, p.lastOf? name = some (index, c) → ∀ ref d declared initializer isConst,
    (ref, d) ∈ members index c → d.body = .slot declared initializer isConst →
      values.get? ref = p.start? s declared initializer

/-- Values are taken over into the types that slots are bound to. -/
theorem TypesOf.get?_constants {p : Program} {known : QName → Bool} {types : SlotTypes}
    (h : p.TypesOf known types) (strict : Bool) (source : String) (log : Log) {name : QName} {index : Nat}
    {c : ClassDef} (hlast : p.lastOf? name = some (index, c)) {ref : TraitRef} {d : TraitDef}
    {declared : Option Name} {initializer : Option Abc.OptionalValue} {isConst : Bool}
    (hmember : (ref, d) ∈ members index c) (hbody : d.body = .slot declared initializer isConst) :
    (p.constants types strict source log).1.get? ref =
      (initializer.bind fun i => (Constant.ofPool p.pool i).toOption).map fun value =>
        (declared.bind (Name.boundIn known)).elim value fun q => Constant.inType q value := by
  rw [p.get?_constants types strict source log (mem_of_lastOf? hlast).1 hmember hbody]
  cases initializer with
  | none => rfl
  | some i =>
    simp only [Option.bind_some, valueOf]
    rw [h name index c hlast ref d declared (some i) isConst hmember hbody]

theorem TypesOf.startsIn {p : Program} {s : Scope} {types : SlotTypes} (h : p.TypesOf s.late types)
    (strict : Bool) (source : String) (log : Log) : p.StartsIn s (p.constants types strict source log).1 :=
  fun _ _ _ hlast _ _ _ _ _ hmember hbody => h.get?_constants strict source log hlast hmember hbody

end Program

/-! ### Types -/

/-- A reference that nothing binds is not known either. -/
theorem Name.written_boundIn (known : QName → Bool) (n : Name) (ask : Name → Option QName) :
    n.written (Name.boundIn known) ask =
      (n.boundIn known).elim (n.written (fun n => n.candidates.find? known) ask) QName.text := by
  cases bound : n.boundIn known with
  | some q =>
    rw [Name.written, bound]
    rfl
  | none =>
    have unknown := (Option.or_eq_none_iff.1 bound).1
    simp only [Name.written, bound, unknown, Option.elim_none]

/-- A coherent registry takes a reference for its first candidate that is defined. -/
theorem Registry.Coherent.written {r : Registry} (h : r.Coherent) (n : Name) (bind : Name → Option QName) :
    n.written bind r.answer = n.written bind fun n => n.candidates.find? r.definitions.contains := by
  unfold Name.written
  rw [h.answer]
  cases n with
  | qualified q =>
    cases bind (.qualified q) with
    | some _ => rfl
    | none => cases known : r.definitions.contains q <;> simp [Registry.meaning, Name.candidates, known]
  | multi m => rfl

namespace Publication

/-- The pen of a unit that bound supertypes by what was known early, and the types of data slots by what is
    known late. -/
def boundPen (early late : QName → Bool) (values : Table TraitRef ConstantValue)
    (ask : Name → Option QName) : Pen where
  superName n := n.map fun n => n.written (fun n => (n.boundIn early).or (n.candidates.find? late)) ask
  slotType _ n := n.map fun n => n.written (Name.boundIn late) ask
  value ref _ _ := values.get? ref
  type n := n.written (fun n => n.candidates.find? late) ask

/-- The descriptor of a class shows what the frame bound its supertype and its own slots to. -/
theorem drawn_eq {p : Program} {frame : Frame} {early : QName → Bool}
    (hframe : p.Mirrors (Program.BoundIn early frame.contains) frame) {placed : Nat × ClassDef}
    (last : p.lastOf? placed.2.name = some placed) (values : Table TraitRef ConstantValue) (source : String)
    (ask : Name → Option QName) : drawn frame values source placed ask =
      (boundPen early frame.contains values ask).draw source placed.2
        (Program.members placed.1 placed.2) := by
  obtain ⟨index, c⟩ := placed
  obtain ⟨slot, -, found, -, super, types⟩ := hframe.slot last
  rw [drawn, found]
  refine Pen.draw_congr source ?_ rfl fun m hm declared initializer isConst body => ⟨?_, rfl⟩
  · have bound : (some slot).bind ClassSlot.resolvedSuper = c.superName.bind (Name.boundIn early) := super
    exact (congrArg (fun q => (Option.map QName.text q).or _) bound).trans (Name.map_or_written ..)
  · have bound : boundType? (some slot) m.1
        = (declared.bind (Name.boundIn frame.contains)).map QName.text := by
      rw [← types m.1 m.2 declared initializer isConst hm body, ClassSlot.typeAt, Option.map_bind]
      rfl
    calc (boundType? (some slot) m.1).or (declared.map fun n => n.written frame.resolve ask)
        = declared.map fun n => n.written (fun n => (n.boundIn frame.contains).or (frame.resolve n))
          ask := by
          rw [bound, Name.map_or_written]
      _ = declared.map fun n => n.written (Name.boundIn frame.contains) ask := by
          simp only [Name.written_or, Name.written_boundIn]
          rfl

/-! ### Steps that resolve names -/

variable {α : Type} {defined : Option (QName → Bool)}

/-- The step gives a result with a property, and does no more to the registry than to resolve names.  Where
    it matters what is defined, the registry is a coherent one that knows this. -/
def Gives (defined : Option (QName → Bool)) (step : Resolving α) (P : α → Prop) : Prop :=
  ∀ r : Registry, (∀ known ∈ defined, r.Coherent ∧ r.definitions.contains = known) →
    P (step.run r).1 ∧ r.Resolves (step.run r).2

theorem Tells.gives {step : Resolving α} {result : (Name → Option QName) → α} (h : Tells step result)
    {P : α → Prop}
    (holds : ∀ ask, (∀ known ∈ defined, ∀ (n : Name) (bind : Name → Option QName),
      n.written bind ask = n.written bind fun n => n.candidates.find? known) → P (result ask))
    :
    Gives defined step P := by
  intro r hr
  obtain ⟨told, resolves⟩ := h r
  refine ⟨told ▸ holds r.answer fun known here => ?_, resolves⟩
  obtain ⟨coherent, rfl⟩ := hr known here
  exact coherent.written

/-! ### Descriptors -/

variable {p : Program} {s : Scope} {frame : Frame} {values : Table TraitRef ConstantValue} {source : String}

/-- What is known of the descriptor of the class at a place, once these members are in it.  A class that a
    later one of its name hides need not be shown. -/
structure Presents (p : Program) (s : Scope) (origin : String) (placed : Nat × ClassDef)
    (shown : List (TraitRef × TraitDef)) (d : ClassDescriptor) : Prop where
  name : d.name = placed.2.name.text
  source : d.source = some origin
  shows : p.lastOf? placed.2.name = some placed → d = p.describe s origin placed.2 shown

/-- Each class gets its descriptor. -/
theorem gives_descriptors (hlate : frame.contains = s.late)
    (hframe : p.Mirrors (Program.BoundIn s.early s.late) frame) (hvalues : p.StartsIn s values)
    (source : String) :
    Gives (some s.defined) (descriptors p frame values source)
      (List.Forall₂ (fun placed => Presents p s source placed (Program.members placed.1 placed.2))
        (Program.indexed p.classes)) := by
  refine (tells_descriptors p frame values source).gives fun ask asked => ?_
  have text (n : Name) : n.written (fun n => n.candidates.find? s.late) ask = s.text n :=
    asked s.defined rfl n _
  rw [List.forall₂_map_right_iff, List.forall₂_same]
  intro placed _
  refine ⟨rfl, rfl, fun last => ?_⟩
  rw [← hlate] at hframe
  rw [drawn_eq hframe last, Program.describe, hlate]
  refine Pen.draw_congr source ?_ ?_ fun m hm declared initializer isConst body => ⟨?_, ?_⟩
  · exact Option.map_congr fun n _ => by rw [Scope.superText, Name.written_or, text]
  · exact funext text
  · exact Option.map_congr fun n _ => by rw [Scope.slotText, Name.written_boundIn, text]
  · exact hvalues placed.2.name placed.1 placed.2 last m.1 m.2 declared initializer isConst hm body

/-- Each descriptor tells the source that it comes from. -/
theorem gives_origins (p : Program) (frame : Frame) (values : Table TraitRef ConstantValue)
    (source : String) :
    Gives none (descriptors p frame values source) fun ds => ∀ d ∈ ds, d.source = some source := by
  refine (tells_descriptors p frame values source).gives fun ask _ => ?_
  exact List.forall_mem_map.2 fun placed _ => rfl

end Publication

end AbcBuild
