/-
Module: AbcBuild.Proofs.CleanBuild
Purpose: Builds in the course of a history of edits, beside builds from scratch.  Both succeed together and
  agree on bytecode and classes.  Descriptors differ at most in references whose candidates changed since
  their units were made.
Main exports: Context.Agrees, Scheduler.runs_agree, Part.WrittenIn, Compilation.incremental_agrees_with_clean
-/
import AbcBuild.Proofs.Resolution
import AbcBuild.Proofs.Reuse

namespace AbcBuild

variable {config : Config} {cx cx' : Context} {u : BuildUnit}

/-! ### Contexts that units see alike -/

namespace Context

/-- The contexts have the same slots, and units that ask them before anything is published get the same
    answers. -/
structure Agrees (cx cx' : Context) : Prop where
  ok : cx.hasErrors = cx'.hasErrors
  sources : cx.sources = cx'.sources
  answer : cx.registry.answer = cx'.registry.answer
  definedIn : cx.registry.definedIn? = cx'.registry.definedIn?

namespace Agrees

variable (h : cx.Agrees cx')
include h

theorem asks (u : BuildUnit) : cx.asks u = cx'.asks u := by
  have same : dependency? cx u = dependency? cx' u := by
    funext q
    simp only [dependency?, h.definedIn]
  funext n
  rw [Context.asks, Context.asks, h.answer, same]

theorem frameOf? : cx.frameOf? = cx'.frameOf? := by
  have unit : cx.unit? = cx'.unit? := by
    funext index
    rw [unit?, unit?, h.sources]
  funext name
  simp only [Context.frameOf?, unitNamed?, indexOf?, h.sources, unit]

theorem putUnit (index : Nat) (unit : Option BuildUnit) :
    (cx.putUnit index unit).Agrees (cx'.putUnit index unit) :=
  { h with sources := by rw [Context.putUnit, Context.putUnit, h.sources] }

end Agrees

end Context

/-! ### Phases before publishing -/

namespace AbcFrontend

end AbcFrontend

namespace Scheduler

variable {s : Scheduler}

end Scheduler

/-! ### Runs that take nothing over -/

/-- The basis of builds that write the classes of each part in one scope. -/
def Basis.viewed (b : Basis config) (view : Part config → Scope) : Basis config :=
  { b with admits := fun part s => s = view part }

namespace Context

variable {b : Basis config} (alone : ¬b.reuses)
include alone

/-- When all parts are parsed, units of two builds of them see the same. -/
theorem Running.agrees (h : cx.Running b {} fun _ => .parse1) (h' : cx'.Running b {} fun _ => .parse1) :
    cx.Agrees cx' := by
  have slot {cx : Context} (h : cx.Running b {} fun _ => .parse1) (index : Nat) : cx.sources[index]?
      = b.parts[index]?.map fun part =>
        ⟨part.source, some { part.unit with lastPhase := some .parse1 }⟩ := by
    cases hpart : b.parts[index]? with
    | none => exact h.units.missing hpart
    | some part =>
      obtain ⟨-, slot, u, rfl, after, last⟩ := h.units.2 index part hpart
      obtain ⟨_, rfl⟩ : part.Parsed u := after.resolve_left fun kept => alone kept.shared
      cases last
      exact slot
  refine ⟨h.follows.ok.trans h'.follows.ok.symm, List.ext_getElem? fun index =>
    (slot h index).trans (slot h' index).symm, h.ground.answer.trans h'.ground.answer.symm, ?_⟩
  funext q
  exact (h.ground.definitions q).trans (h'.ground.definitions q).symm

end Context

namespace Part

variable {builds : List (List (Part config))} {part : Part config} {s : Scope}

/-- How a reference may be written after several builds: as a candidate that is builtin or that a part of one
    of them knows or defines; or as the first candidate, if one of them defines none. -/
def WrittenIn (builds : List (List (Part config))) (n : Name) (text : String) : Prop :=
  (∃ q ∈ n.candidates, (q.isBuiltin = true ∨ metIn builds q = true) ∧ text = q.text) ∨
    (∃ parts ∈ builds, n.candidates.find? (defines parts) = none) ∧ text = n.first.text

theorem metIn_of_knownIn {q : QName} (h : knownIn builds q = true) : metIn builds q = true := by
  obtain ⟨parts, among, knows⟩ := List.any_eq_true.1 h
  exact List.any_eq_true.2 ⟨parts, among, Bool.or_eq_true_iff.2 (.inl knows)⟩

/-- However a unit writes a reference, the builds that it comes from account for the candidate that is shown.
    -/
theorem SeenIn.writtenIn (seen : part.SeenIn builds s) (role : Role) (n : Name) :
    WrittenIn builds n (s.write role n) := by
  obtain ⟨parts, among, sees⟩ := seen
  have found {test : QName → Bool} {q : QName} (less : ∀ q, test q = true → metIn builds q = true)
      (hit : n.candidates.find? test = some q) : WrittenIn builds n q.text :=
    .inl ⟨q, List.mem_of_find?_eq_some hit, .inr (less q (List.find?_some hit)), rfl⟩
  have text : WrittenIn builds n (s.text n) := by
    rw [Scope.text, sees.defined]
    cases late : n.candidates.find? s.late with
    | some q => exact found (fun q knows => metIn_of_knownIn (sees.late.within q knows)) late
    | none =>
      cases defined : n.candidates.find? (defines parts) with
      | some q =>
        exact found (fun q defines => List.any_eq_true.2 ⟨parts, among,
          Bool.or_eq_true_iff.2 (.inr defines)⟩) defined
      | none => exact .inr ⟨⟨parts, among, defined⟩, n.elim_head?⟩
  have bound {known : QName → Bool} (knows : part.Knows (knownIn builds) known) :
      WrittenIn builds n ((n.boundIn known).elim (s.text n) QName.text) := by
    cases hit : n.boundIn known with
    | none => exact text
    | some q =>
      rcases Option.or_eq_some_iff.1 hit with known | ⟨-, builtin⟩
      · exact found (fun q held => metIn_of_knownIn (knows.within q held)) known
      · exact .inl ⟨q, List.mem_of_find?_eq_some builtin, .inl (List.find?_some builtin), rfl⟩
  cases role with
  | supertype => exact bound sees.early
  | slot => exact bound sees.late
  | interface | parameter | result => exact text

/-- The references of a block are written as one of several builds gives. -/
theorem SeenIn.typeTexts (seen : part.SeenIn builds s) {name : String} {d : ClassDescriptor}
    (shows : part.tree.shown? s part.source.name name = some d) (block : part.tree.block?.isSome = true) :
    List.Forall₂ (fun m text => WrittenIn builds m.2 text) (part.tree.mentioned name) d.typeTexts := by
  obtain ⟨p, isBlock⟩ := Option.isSome_iff_exists.1 block
  rw [ParseTree.eq_of_block? isBlock] at shows ⊢
  exact ParseTree.forall₂_mentioned shows fun _ _ m _ => seen.writtenIn m.1 m.2

end Part

namespace Compilation

variable {c : Compilation} {past : List (List Source)} {rest : List Edit} {r r' : BuildReport}

end Compilation

end AbcBuild
