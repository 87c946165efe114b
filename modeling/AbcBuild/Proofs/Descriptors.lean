/-
Module: AbcBuild.Proofs.Descriptors
Purpose: Descriptors mirror their program.  Types and values come back to the members of a class through
  tables that are kept by places, and each member gets its own.
Main exports: Program.PortraysSlot, Program.PortraysMethod, Program.Portrays,
  Program.descriptors_mirror_program
-/
import AbcBuild.Proofs.Cleaning
import AbcBuild.Proofs.Publication

namespace AbcBuild.Program

/-- The variable shows the data slot that the program has at this place, with the type that its declared type
    is bound to and with the value at its place: its own initial value, in its own type. -/
def PortraysSlot (p : Program) (frame : Frame) (ask : Name → Option QName)
    (values : Table TraitRef ConstantValue) (owner : String) (member : TraitRef × TraitDef) (v : Variable) :
    Prop :=
  p.traitAt? member.1 = some member.2 ∧ ∃ declared initializer isConst,
    member.2.body = .slot declared initializer isConst ∧
      values.get? member.1 = (initializer.bind fun i => (Constant.ofPool p.pool i).toOption).map
        (fun value =>
        (declared.bind frame.bind).elim value fun q => Constant.inType q value) ∧
      v = { name := member.2.name
            space := member.2.space
            typeName := declared.map fun n => n.written frame.bind ask
            isConst := isConst
            isStatic := member.1.isStatic
            value := values.get? member.1
            metadata := member.2.metadata
            declaringClass := owner }

/-- The method or accessor shows the one that the program has at this place. -/
def PortraysMethod (p : Program) (frame : Frame) (ask : Name → Option QName) (owner : String)
    (member : TraitRef × TraitDef) (m : Method) : Prop :=
  p.traitAt? member.1 = some member.2 ∧ ∃ kind params returns, member.2.body = .method kind params returns ∧
    m = { name := member.2.name
          space := member.2.space
          kind := kind
          returnType := returns.map fun n => n.written frame.resolve ask
          parameters := params.map fun param =>
            ⟨param.name, param.typeName.map fun n => n.written frame.resolve ask, param.optional⟩
          isStatic := member.1.isStatic
          isFinal := member.2.isFinal
          isOverride := member.2.isOverride
          metadata := member.2.metadata
          declaringClass := owner }

/-- The descriptor shows the class at a place, as a unit sees it that bound supertypes through an early frame
    and all other types through its frame.  Data slots are its variables, and methods and accessors are
    sorted by their kinds; other members are left out. -/
structure Portrays (p : Program) (early frame : Frame) (ask : Name → Option QName)
    (values : Table TraitRef ConstantValue) (origin : String) (placed : Nat × ClassDef)
    (d : ClassDescriptor) :
    Prop where
  name : d.name = placed.2.name.text
  superName : d.superName = placed.2.superName.map fun n =>
    n.written (fun n => (early.bind n).or (frame.resolve n)) ask
  interfaces : d.interfaces = placed.2.interfaces.map fun n => n.written frame.resolve ask
  elementType : d.elementType = Publication.elementType? placed.2.name
  isInterface : d.isInterface = placed.2.isInterface
  isDynamic : d.isDynamic = !placed.2.flags.has Abc.InstanceFlag.sealed
  isFinal : d.isFinal = placed.2.flags.has Abc.InstanceFlag.final
  isPublic : d.isPublic = placed.2.isPublic
  metadata : d.metadata = placed.2.metadata
  source : d.source = some origin
  vars : List.Forall₂ (p.PortraysSlot frame ask values d.name)
    ((members placed.1 placed.2).filter isSlot) d.vars
  methods : ∀ kind, List.Forall₂ (p.PortraysMethod frame ask d.name)
    ((members placed.1 placed.2).filter (isMethod kind)) (d.ofKind kind)

open Publication

theorem portrays_draw {p : Program} {early frame : Frame} {values : Table TraitRef ConstantValue}
    {placed : Nat × ClassDef} (listed : placed ∈ indexed p.classes)
    (own : ∀ ref d declared initializer isConst, (ref, d) ∈ members placed.1 placed.2 →
      d.body = .slot declared initializer isConst →
        values.get? ref = (initializer.bind fun i => (Constant.ofPool p.pool i).toOption).map (fun value =>
          (declared.bind frame.bind).elim value fun q => Constant.inType q value))
    (ask : Name → Option QName) (source : String) :
    p.Portrays early frame ask values source placed
      ((boundPen early.contains frame.contains values ask).draw source placed.2 (members placed.1 placed.2))
        where
  name := rfl
  superName := rfl
  interfaces := rfl
  elementType := rfl
  isInterface := rfl
  isDynamic := rfl
  isFinal := rfl
  isPublic := rfl
  metadata := rfl
  source := rfl
  vars := by
    refine forall₂_filterMap fun m member => ?_
    have place : p.traitAt? m.1 = some m.2 := traitAt?_eq_some_iff.2 ⟨placed.1, placed.2, listed, member⟩
    unfold isSlot Pen.data?
    cases body : m.2.body with
    | slot declared initializer isConst =>
      exact ⟨_, rfl, place, declared, initializer, isConst, body,
        own m.1 m.2 declared initializer isConst member body, rfl⟩
    | method | classRef | function => rfl
  methods := by
    intro kind
    rw [Pen.ofKind_draw, Pen.methods, List.filter_filterMap]
    refine forall₂_filterMap fun m member => ?_
    have place : p.traitAt? m.1 = some m.2 := traitAt?_eq_some_iff.2 ⟨placed.1, placed.2, listed, member⟩
    unfold isMethod Pen.method?
    cases body : m.2.body with
    | method k params returns =>
      by_cases here : k = kind
      · simp only [here, decide_true, if_true, Option.filter_some]
        exact ⟨_, rfl, place, kind, params, returns, here ▸ body, rfl⟩
      · simp [here, Option.filter_some]
    | slot | classRef | function => rfl

/-- Whatever frames a unit takes over before and after it binds the inheritance, each of its descriptors
    shows the class at its place, and each member of a descriptor shows a member of the class with its own
    type and its own value. -/
theorem descriptors_mirror_program (p : Program) (distinct : p.classNames.Nodup) (others later : List Frame)
    (strict : Bool) (origin : String) (log : Log) (source : String) (r : Registry) :
    let early := p.frame.inheritAll others
    let bound := (early.resolveInheritance p.classNames).1.inheritAll later
    let typed := bound.resolveTypes
    let values := (p.constants typed.2.1 strict origin log).1
    List.Forall₂ (p.Portrays early typed.1 r.answer values source) (indexed p.classes)
      ((descriptors p typed.1 values source).run r).1 := by
  intro early bound typed values
  have inherited : p.Mirrors (fun _ c slot => Untyped slot ∧ SuperIn early.contains c slot) bound :=
    ((p.mirrors_frame.of_own (Frame.own_inheritAll _ others)).resolveInheritance).of_own
      (Frame.own_inheritAll _ later)
  have known : typed.1.contains = bound.contains := bound.contains_resolveTypes
  have mirrors : p.Mirrors (BoundIn early.contains typed.1.contains) typed.1 := by
    rw [known]
    exact inherited.resolveTypes
  have types : p.TypesOf typed.1.contains typed.2.1 := by
    rw [known]
    exact inherited.typesOf fun _ _ _ holds => holds.1
  rw [(tells_descriptors p typed.1 values source r).1, List.forall₂_map_right_iff, List.forall₂_same]
  intro placed listed
  have last := lastOf?_of_mem distinct listed
  rw [drawn_eq mirrors last]
  exact portrays_draw listed (fun _ _ _ _ _ member body =>
    types.get?_constants strict origin log last member body) r.answer source

/-- Two classes.  One has a name for three slots, a class and a function between them, and a pair of
    accessors. -/
def toolkit : Program where
  file := { pool := { ints := [7], uints := [9] } }
  classes := [
    { name := ⟨"ui", "View"⟩
      isPublic := true
      superName := none
      interfaces := [.multi ⟨["ui", "lib"], "Drawn"⟩]
      flags := Abc.InstanceFlag.sealed
      metadata := []
      instanceTraits := [
        ⟨"size", "", "", .slot (some (.qualified ⟨"", "int"⟩)) (some ⟨.int, 1⟩) false, false, false, []⟩,
        ⟨"Part", "", "", .classRef 1, false, false, []⟩,
        ⟨"size", "private", "", .slot (some (.multi ⟨["ui", ""], "Number"⟩)) (some ⟨.int, 1⟩) true,
        false, false, []⟩, ⟨"title", "", "", .method .getter [] (some (.qualified ⟨"", "String"⟩)),
        false, false, []⟩, ⟨"title", "", "",
        .method .setter [⟨some "text", some (.qualified ⟨"", "String"⟩), false⟩] none, false, false,
          []⟩]
      staticTraits := [
        ⟨"make", "", "", .function [] none, false, false, []⟩,
        ⟨"size", "", "", .slot (some (.multi ⟨["ui", "lib"], "Size"⟩)) (some ⟨.uint, 1⟩) true, false,
        false, []⟩] },
    { name := ⟨"ui", "Panel"⟩
      isPublic := false
      superName := some (.multi ⟨["lib", "ui"], "View"⟩)
      interfaces := []
      flags := Abc.InstanceFlag.final
      metadata := []
      instanceTraits := [
        ⟨"draw", "protected", "", .method .method [⟨none, some (.multi ⟨["ui", "lib"], "Size"⟩), true⟩] none,
        true, true,
          []⟩]
      staticTraits := [] }]
  definitions := []
  topLevel := [⟨"ui", "View"⟩, ⟨"ui", "Panel"⟩]

/-- A frame with a class that the toolkit refers to. -/
def measures : Frame := Frame.insertClass {} { name := ⟨"lib", "Size"⟩ }

theorem descriptors_mirror_toolkit :
    let early := toolkit.frame.inheritAll [measures]
    let typed := ((early.resolveInheritance toolkit.classNames).1.inheritAll []).resolveTypes
    let values := (toolkit.constants typed.2.1 true "toolkit.abc" {}).1
    let shown := ((descriptors toolkit typed.1 values "toolkit.abc").run default).1
    toolkit.classNames.Nodup ∧
      List.Forall₂ (toolkit.Portrays early typed.1 (default : Registry).answer values "toolkit.abc")
        (indexed toolkit.classes) shown ∧
      (shown.flatMap ClassDescriptor.vars).map
        (fun v => (v.name, v.space, v.isStatic, v.typeName, v.value))
          = [("size", "", false, some "int", some (.int 7)),
            ("size", "private", false, some "Number", some (.number (.ofInt 7))),
          ("size", "", true, some "lib:Size", some (.uint 9))] := by
  intro early typed values shown
  have distinct : toolkit.classNames.Nodup := by decide
  refine ⟨distinct, descriptors_mirror_program toolkit distinct [measures] [] true "toolkit.abc"
    {} "toolkit.abc" default, ?_⟩
  decide

end AbcBuild.Program
