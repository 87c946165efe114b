/-
Module: AbcBuild.Proofs.Rendering
Purpose: Descriptors as a function of what they are made from.  A unit asks the registry while it writes its
  classes down, but no question changes a later answer, so what it writes is told by the answers that the
  registry gives at the start.
Main exports: Name.written, Publication.Tells, Publication.drawn, Publication.tells_descriptors
-/
import AbcBuild.Analysis.Publication
import AbcBuild.Proofs.Answers

namespace AbcBuild

/-- How a reference is written: as what it is bound to, else as what it is taken for, else as its first
    candidate.  A reference without candidates is written as its local name. -/
def Name.written (n : Name) (bind ask : Name → Option QName) : String :=
  (((bind n).or (ask n)).or n.candidates.head?).elim n.localName QName.text

/-- What a reference is bound to comes first. -/
theorem Name.written_or (n : Name) (bound bind ask : Name → Option QName) :
    n.written (fun n => (bound n).or (bind n)) ask = (bound n).elim (n.written bind ask) QName.text := by
  simp only [Name.written]
  cases bound n <;> rfl

/-- A bound name goes before one that is looked up when the reference is written. -/
theorem Name.map_or_written (n : Option Name) (bound bind ask : Name → Option QName) :
    ((n.bind bound).map QName.text).or (n.map fun n => n.written bind ask) =
      n.map fun n => n.written (fun n => (bound n).or (bind n)) ask := by
  cases n with
  | none => rfl
  | some n =>
    simp only [Option.bind_some, Option.map_some, Name.written_or]
    cases bound n <;> rfl

namespace Publication

variable {α β : Type}

/-! ### Steps that ask the registry -/

/-- The result of the step is told by what the registry takes references for, and the step leaves these
    answers as they are. -/
def Tells (step : Resolving α) (result : (Name → Option QName) → α) : Prop :=
  ∀ r : Registry, (step.run r).1 = result r.answer ∧ r.Resolves (step.run r).2

theorem Tells.pure (a : α) : Tells (pure a) fun _ => a := fun r => ⟨rfl, .refl r⟩

theorem Tells.congr {step : Resolving α} {result result' : (Name → Option QName) → α} (h : Tells step result)
    (same : ∀ ask, result ask = result' ask) : Tells step result' :=
      fun r => ⟨(h r).1.trans (same _), (h r).2⟩

/-- A step that tells its result may be followed by steps that tell theirs. -/
theorem Tells.bind {step : Resolving α} {next : α → Resolving β} {result : (Name → Option QName) → α}
    {result' : α → (Name → Option QName) → β} (h : Tells step result) (hnext : ∀ a,
      Tells (next a) (result' a)) :
    Tells (step >>= next) fun ask => result' (result ask) ask := by
  intro r
  obtain ⟨first, resolves⟩ := h r
  obtain ⟨second, resolves'⟩ := hnext (step.run r).1 (step.run r).2
  refine ⟨?_, resolves.trans resolves'⟩
  calc ((step >>= next).run r).1
      = result' (step.run r).1 (step.run r).2.answer := second
    _ = result' (result r.answer) r.answer := by rw [first, resolves.answer]

theorem Tells.mapM {make : α → Resolving β} {result : α → (Name → Option QName) → β}
    (h : ∀ a, Tells (make a) (result a)) (items : List α) :
    Tells (items.mapM make) fun ask => items.map fun a => result a ask := by
  induction items with
  | nil => exact Tells.pure []
  | cons a rest ih =>
    rw [List.mapM_cons]
    exact (h a).bind fun b => ih.bind fun made => Tells.pure (b :: made)

theorem Tells.foldlM {step : β → α → Resolving β} {result : β → α → (Name → Option QName) → β}
    (h : ∀ b a, Tells (step b a) (result b a)) (items : List α) (b : β) :
    Tells (items.foldlM step b) fun ask => items.foldl (fun b a => result b a ask) b := by
  induction items generalizing b with
  | nil => exact Tells.pure b
  | cons a rest ih =>
    rw [List.foldlM_cons]
    exact (h b a).bind fun b' => ih b'

/-- Without a frame, a reference is written as the registry answers. -/
theorem tells_registryText (n : Name) : Tells (registryText n) (n.written fun _ => none) := by
  intro r
  cases n with
  | qualified q => exact ⟨rfl, .refl r⟩
  | multi m =>
    obtain ⟨answered, resolves⟩ := r.resolveMultiname_eq m
    have run : (registryText (.multi m)).run r =
        (((r.answer (.multi m)).or m.candidates.head?).elim m.name QName.text,
          (r.resolveMultiname m).2) := by
      rw [← answered]
      cases found : (r.resolveMultiname m).1.or m.candidates.head? <;>
        simp [registryText, StateT.run, bind, StateT.bind, found]
      all_goals rfl
    rw [run]
    exact ⟨rfl, resolves⟩

variable (frame : Frame)

/-- With a frame, it is written as what the frame knows, and else as the registry answers. -/
theorem tells_typeText (n : Name) : Tells (typeText frame n) (n.written frame.resolve) := by
  unfold typeText
  split
  next q known =>
    have text : n.written frame.resolve = fun _ => q.text := by
      funext ask
      rw [Name.written, known, Option.some_or, Option.some_or, Option.elim_some]
    rw [text]
    exact Tells.pure q.text
  next unknown =>
    have text : n.written frame.resolve = n.written fun _ => none := by
      funext ask
      rw [Name.written, unknown, Name.written]
    rw [text]
    exact tells_registryText n

theorem tells_typeText? (n : Option Name) :
    Tells (typeText? frame n) fun ask => n.map fun n => n.written frame.resolve ask := by
  cases n with
  | none => exact Tells.pure none
  | some n => exact (tells_typeText frame n).bind fun text => Tells.pure (some text)

theorem tells_parameter (p : ParamDef) : Tells (parameter frame p) fun ask =>
  ⟨p.name, p.typeName.map fun n => n.written frame.resolve ask, p.optional⟩ :=
  (tells_typeText? frame p.typeName).bind fun typeName =>
    Tells.pure (Parameter.mk p.name typeName p.optional)

/-! ### Descriptors -/

/-- How the types and values of a class are written down: its supertype, the types of its slots and what they
    start with by their places, and all other types. -/
structure Pen where
  superName : Option Name → Option String
  slotType : TraitRef → Option Name → Option String
  value : TraitRef → Option Name → Option Abc.OptionalValue → Option ConstantValue
  type : Name → String

namespace Pen

/-- The variable that shows a member, if it is a data slot. -/
def data? (pen : Pen) (owner : String) (member : TraitRef × TraitDef) : Option Variable :=
  match member.2.body with
  | .slot declared initializer isConst => some
      { name := member.2.name
        space := member.2.space
        typeName := pen.slotType member.1 declared
        isConst := isConst
        isStatic := member.1.isStatic
        value := pen.value member.1 declared initializer
        metadata := member.2.metadata
        declaringClass := owner }
  | _ => none

/-- The method or accessor that shows a member, if it is one. -/
def method? (pen : Pen) (owner : String) (member : TraitRef × TraitDef) : Option Method :=
  match member.2.body with
  | .method kind params returns => some
      { name := member.2.name
        space := member.2.space
        kind := kind
        returnType := returns.map pen.type
        parameters := params.map fun p => ⟨p.name, p.typeName.map pen.type, p.optional⟩
        isStatic := member.1.isStatic
        isFinal := member.2.isFinal
        isOverride := member.2.isOverride
        metadata := member.2.metadata
        declaringClass := owner }
  | _ => none

/-- The methods or accessors of a kind that show members, in order. -/
def methods (pen : Pen) (owner : String) (kind : MethodKind) (shown : List (TraitRef × TraitDef)) :
    List Method :=
  (shown.filterMap (pen.method? owner)).filter fun m => m.kind = kind

/-- The descriptor of a class with these members, in order. -/
def draw (pen : Pen) (source : String) (c : ClassDef) (shown : List (TraitRef × TraitDef)) :
    ClassDescriptor where
  name := c.name.text
  superName := pen.superName c.superName
  interfaces := c.interfaces.map pen.type
  elementType := elementType? c.name
  isInterface := c.isInterface
  isDynamic := !c.flags.has Abc.InstanceFlag.sealed
  isFinal := c.flags.has Abc.InstanceFlag.final
  isPublic := c.isPublic
  vars := shown.filterMap (pen.data? c.name.text)
  methods := pen.methods c.name.text .method shown
  getters := pen.methods c.name.text .getter shown
  setters := pen.methods c.name.text .setter shown
  metadata := c.metadata
  source := some source

variable (pen : Pen) (source : String) (c : ClassDef) (shown : List (TraitRef × TraitDef))

theorem ofKind_draw (kind : MethodKind) :
    (pen.draw source c shown).ofKind kind = pen.methods c.name.text kind shown := by
  cases kind <;> rfl

/-- Add a member to the descriptor of its class. -/
def add (pen : Pen) (d : ClassDescriptor) (m : TraitRef × TraitDef) : ClassDescriptor :=
  (pen.data? d.name m).elim ((pen.method? d.name m).elim d d.addMethod) d.addVariable

/-- Drawing one member more is adding it to what is drawn already. -/
theorem add_draw (m : TraitRef × TraitDef) :
    pen.add (pen.draw source c shown) m = pen.draw source c (shown ++ [m]) := by
  have name : (pen.draw source c shown).name = c.name.text := rfl
  rw [add, name]
  cases body : m.2.body with
  | slot declared initializer isConst =>
    simp [draw, methods, ClassDescriptor.addVariable, List.filterMap_append, data?, method?, body]
  | method kind params returns =>
    cases kind <;>
      simp [draw, methods, ClassDescriptor.addMethod, List.filterMap_append, data?, method?, body]
  | classRef | function => simp [draw, methods, List.filterMap_append, data?, method?, body]

theorem foldl_add : shown.foldl pen.add (pen.draw source c []) = pen.draw source c shown := by
  -- the members that are drawn already stay in front
  have onward (done : List (TraitRef × TraitDef)) :
      shown.foldl pen.add (pen.draw source c done) = pen.draw source c (done ++ shown) := by
    induction shown generalizing done with
    | nil => rw [List.foldl_nil, List.append_nil]
    | cons m rest ih => rw [List.foldl_cons, add_draw, ih, List.append_assoc, List.singleton_append]
  exact onward []

/-- Pens that write the supertype of a class, its data slots and all other types alike draw it alike. -/
theorem draw_congr {pen pen' : Pen} {c : ClassDef} {shown : List (TraitRef × TraitDef)}
    (super : pen.superName c.superName = pen'.superName c.superName) (type : pen.type = pen'.type)
    (slots : ∀ m ∈ shown, ∀ declared initializer isConst, m.2.body = .slot declared initializer isConst →
      pen.slotType m.1 declared = pen'.slotType m.1 declared ∧
      pen.value m.1 declared initializer = pen'.value m.1 declared initializer) :
    pen.draw source c shown = pen'.draw source c shown := by
  have data : shown.filterMap (pen.data? c.name.text) = shown.filterMap (pen'.data? c.name.text) := by
    refine List.filterMap_congr fun m hm => ?_
    unfold data?
    cases body : m.2.body with
    | slot declared initializer isConst =>
      obtain ⟨slotType, value⟩ := slots m hm declared initializer isConst body
      simp only [slotType, value]
    | method | classRef | function => rfl
  have called : pen.method? c.name.text = pen'.method? c.name.text := by
    funext m
    simp only [method?, type]
  simp only [draw, methods, super, type, data, called]

end Pen

/-- The pen of a unit: a supertype or a slot is written as the frame bound it, and values stand in a
    table. -/
def penOf (frame : Frame) (slot : Option ClassSlot) (values : Table TraitRef ConstantValue)
    (ask : Name → Option QName) : Pen where
  superName n :=
    ((slot.bind ClassSlot.resolvedSuper).map QName.text).or (n.map fun n => n.written frame.resolve ask)
  slotType ref n := (boundType? slot ref).or (n.map fun n => n.written frame.resolve ask)
  value ref _ _ := values.get? ref
  type n := n.written frame.resolve ask

/-- A member is added as the pen of the frame draws it. -/
theorem tells_addMember (slot : Option ClassSlot) (values : Table TraitRef ConstantValue)
    (d : ClassDescriptor) (m : TraitRef × TraitDef) :
    Tells (addMember frame slot values d m) fun ask => (penOf frame slot values ask).add d m := by
  obtain ⟨ref, definition⟩ := m
  unfold addMember
  cases body : definition.body with
  | slot declared initializer isConst =>
    simp only [body, Pen.add, Pen.data?, Option.elim_some, penOf]
    split
    next type bound =>
      rw [bound]
      exact Tells.pure _
    next unbound =>
      rw [unbound]
      simp only [Option.none_or]
      exact (tells_typeText? frame declared).bind fun typeName => Tells.pure (d.addVariable
        ⟨definition.name, definition.space, typeName, isConst, ref.isStatic, values.get? ref,
        definition.metadata,
          d.name⟩)
  | method kind params returns =>
    simp only [body, Pen.add, Pen.data?, Pen.method?, Option.elim_some, Option.elim_none, penOf]
    exact (tells_typeText? frame returns).bind fun returnType =>
      (Tells.mapM (tells_parameter frame) params).bind fun parameters => Tells.pure (d.addMethod
        ⟨definition.name, definition.space, kind, returnType, parameters, ref.isStatic, definition.isFinal,
          definition.isOverride, definition.metadata, d.name⟩)
  | classRef | function =>
    simp only [body, Pen.add, Pen.data?, Pen.method?, Option.elim_none]
    exact Tells.pure d

/-- The descriptor that a unit writes for the class at a place. -/
def drawn (frame : Frame) (values : Table TraitRef ConstantValue) (source : String) (placed : Nat × ClassDef)
    (ask : Name → Option QName) : ClassDescriptor :=
  (penOf frame (frame.lookup? placed.2.name) values ask).draw source placed.2
    (Program.members placed.1 placed.2)

/-- The descriptor of a class is drawn with that pen, and names are only asked for. -/
theorem tells_descriptor (values : Table TraitRef ConstantValue) (source : String) (index : Nat)
    (c : ClassDef) :
    Tells (descriptor frame values source index c) (drawn frame values source (index, c)) := by
  have pens (ask : Name → Option QName) :=
    Pen.foldl_add (penOf frame (frame.lookup? c.name) values ask) source c (Program.members index c)
  -- whatever supertype is found, interfaces and members follow
  have follow (superName : Option String) :=
    (Tells.mapM (tells_typeText frame) c.interfaces).bind fun interfaces =>
    Tells.foldlM (tells_addMember frame (frame.lookup? c.name) values) (Program.members index c)
      { name := c.name.text
        superName := superName
        interfaces := interfaces
        elementType := elementType? c.name
        isInterface := c.isInterface
        isDynamic := !c.flags.has Abc.InstanceFlag.sealed
        isFinal := c.flags.has Abc.InstanceFlag.final
        isPublic := c.isPublic
        metadata := c.metadata
        source := some source }
  unfold descriptor
  simp only
  split
  next q found =>
    refine (follow (some q.text)).congr fun ask => ?_
    have bound : (penOf frame (frame.lookup? c.name) values ask).superName c.superName = some q.text := by
      simp [penOf, found]
    rw [drawn, ← pens, ← bound]
    rfl
  next unbound =>
    refine ((tells_typeText? frame c.superName).bind follow).congr fun ask => ?_
    have written : (penOf frame (frame.lookup? c.name) values ask).superName c.superName =
        c.superName.map fun n => n.written frame.resolve ask := by
      simp [penOf, unbound]
    rw [drawn, ← pens, ← written]
    rfl

/-- A unit writes one descriptor for each class, in order. -/
theorem tells_descriptors (p : Program) (frame : Frame) (values : Table TraitRef ConstantValue)
    (source : String) :
    Tells (descriptors p frame values source) fun ask =>
      (Program.indexed p.classes).map fun placed => drawn frame values source placed ask :=
  Tells.mapM (fun placed : Nat × ClassDef => tells_descriptor frame values source placed.1 placed.2) _

end Publication

end AbcBuild
