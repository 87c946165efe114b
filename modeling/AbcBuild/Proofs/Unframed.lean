/-
Module: AbcBuild.Proofs.Unframed
Purpose: How a class is written down by a unit that has no frame.  Types are written as the sources of the
  build define them, and values as the pool has them; the rest of a descriptor does not depend on the frame
  at all.
Main exports: Scope.unframed, Program.describeUnframed, ClassDescriptor.skeleton, Publication.gives_skeleton
-/
import AbcBuild.Proofs.Publication

namespace AbcBuild

/-- The scope of a unit that has no frame. -/
def Scope.unframed (defined : QName → Bool) : Scope := ⟨fun _ => false, fun _ => false, defined, fun _ => id⟩

namespace Program

/-- The pen of a unit that has no frame.  No type is preferred because it is builtin, and no slot has a type
    into which its value is taken over. -/
def unframedPen (p : Program) (defined : QName → Bool) : Publication.Pen where
  superName n := n.map (Scope.unframed defined).text
  slotType _ n := n.map (Scope.unframed defined).text
  value _ _ initializer := initializer.bind fun i => (Constant.ofPool p.pool i).toOption
  type := (Scope.unframed defined).text

/-- The descriptor of a class with these members, in order, as a unit without a frame writes it. -/
def describeUnframed (p : Program) (defined : QName → Bool) (source : String) (c : ClassDef)
    (shown : List (TraitRef × TraitDef)) : ClassDescriptor :=
  (p.unframedPen defined).draw source c shown

/-- Without types for the slots, each value is the one in the pool. -/
theorem get?_constants_untyped (p : Program) (strict : Bool) (source : String) (log : Log) {index : Nat}
    {c : ClassDef} {ref : TraitRef} {d : TraitDef} {declared : Option Name}
    {initializer : Option Abc.OptionalValue} {isConst : Bool} (hplaced : (index, c) ∈ indexed p.classes)
    (hmember : (ref, d) ∈ members index c) (hbody : d.body = .slot declared initializer isConst) :
    (p.constants .empty strict source log).1.get? ref
      = initializer.bind fun i => (Constant.ofPool p.pool i).toOption := by
  rw [get?_constants p .empty strict source log hplaced hmember hbody]
  refine Option.bind_congr fun i _ => ?_
  exact Option.map_id'

end Program

namespace Publication

/-- A unit without a frame and without types for its slots describes its classes in this way. -/
theorem gives_unframed (p : Program) (defined : QName → Bool) (strict : Bool) (source : String) (log : Log) :
    Gives (some defined) (descriptors p {} (p.constants .empty strict source log).1 source)
      (List.Forall₂ (fun placed d =>
        d = p.describeUnframed defined source placed.2 (Program.members placed.1 placed.2))
        (Program.indexed p.classes)) := by
  refine (tells_descriptors p {} _ source).gives fun ask asked => ?_
  have text (n : Name) : n.written (fun n => n.candidates.find? fun _ => false) ask
      = (Scope.unframed defined).text n :=
    asked defined rfl n _
  rw [List.forall₂_map_right_iff, List.forall₂_same]
  rintro ⟨index, c⟩ placed
  refine Pen.draw_congr source ?_ (funext text) fun m hm declared initializer isConst body => ⟨?_, ?_⟩
  · exact Option.map_congr fun n _ => text n
  · exact Option.map_congr fun n _ => text n
  · exact p.get?_constants_untyped strict source log placed hm body

end Publication

/-! ### What does not depend on the frame -/

def Variable.skeleton (v : Variable) : Variable := { v with typeName := none, value := none }

def Method.skeleton (f : Method) : Method :=
  { f with returnType := none, parameters := f.parameters.map fun param => { param with typeName := none } }

/-- What a descriptor tells of its class besides the types and values in it. -/
def ClassDescriptor.skeleton (d : ClassDescriptor) : ClassDescriptor :=
  { d with
    superName := none
    interfaces := d.interfaces.map fun _ => ""
    vars := d.vars.map Variable.skeleton
    methods := d.methods.map Method.skeleton
    getters := d.getters.map Method.skeleton
    setters := d.setters.map Method.skeleton }

namespace Publication

/-- Pens differ in types and values only. -/
theorem Pen.skeleton_draw (pen pen' : Pen) (source : String) (c : ClassDef)
    (shown : List (TraitRef × TraitDef)) :
    (pen.draw source c shown).skeleton = (pen'.draw source c shown).skeleton := by
  have data (m : TraitRef × TraitDef) :
      (pen.data? c.name.text m).map Variable.skeleton
        = (pen'.data? c.name.text m).map Variable.skeleton := by
    unfold Pen.data?
    cases m.2.body <;> rfl
  have called (kind : MethodKind) (m : TraitRef × TraitDef) :
      ((pen.method? c.name.text m).filter fun f => f.kind = kind).map Method.skeleton =
        ((pen'.method? c.name.text m).filter fun f => f.kind = kind).map Method.skeleton := by
    unfold Pen.method?
    cases m.2.body with
    | method k params returns =>
      by_cases here : k = kind <;> simp [here, Option.filter_some, Method.skeleton]
    | slot | classRef | function => rfl
  simp only [ClassDescriptor.skeleton, Pen.draw, Pen.methods, List.filter_filterMap, List.map_filterMap,
    List.map_map, funext data, funext (called _)]
  rfl

/-- Whatever frame a unit has, its descriptors tell the same but for types and values. -/
theorem gives_skeleton (p : Program) (defined : QName → Bool) (frame : Frame)
    (values : Table TraitRef ConstantValue) (source : String) :
    Gives none (descriptors p frame values source)
      (List.Forall₂ (fun placed d => d.skeleton =
        (p.describeUnframed defined source placed.2 (Program.members placed.1 placed.2)).skeleton)
        (Program.indexed p.classes)) := by
  refine (tells_descriptors p frame values source).gives fun ask _ => ?_
  rw [List.forall₂_map_right_iff, List.forall₂_same]
  exact fun placed _ => Pen.skeleton_draw ..

end Publication

end AbcBuild
