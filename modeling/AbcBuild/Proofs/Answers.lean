/-
Module: AbcBuild.Proofs.Answers
Purpose: What the registry takes a reference for.  Asking changes nothing but the answers that are kept, and
  no later answer.
Main exports: Registry.answer, Registry.meaning, Registry.resolves_resolveName, Context.Asks
-/
import AbcBuild.Context
import AbcBuild.Proofs.Table

namespace AbcBuild

namespace Registry

/-- What a reference is taken for: the answer that is kept, else the first candidate that some source
    defines. -/
def answer (r : Registry) : Name → Option QName
  | .qualified q => some q
  | .multi m => (r.multinames.get? m).or (m.candidates.find? r.definitions.contains)

/-- The first candidate that some source defines. -/
def meaning (r : Registry) : Name → Option QName
  | .qualified q => some q
  | .multi m => m.candidates.find? r.definitions.contains

/-- Every answer that is kept is the one that would be given now. -/
def Coherent (r : Registry) : Prop := ∀ m q, r.multinames.get? m = some q → r.meaning (.multi m) = some q

/-- Nothing but kept answers differs, and no reference is taken for another. -/
def Resolves (r r' : Registry) : Prop :=
  ∃ answers, r' = { r with multinames := answers } ∧ ∀ n, r'.answer n = r.answer n

variable {r r' r'' : Registry}

/-- A coherent registry answers by what is defined: the answers that it keeps are no others. -/
theorem Coherent.answer (h : r.Coherent) (n : Name) : r.answer n = r.meaning n := by
  cases n with
  | qualified q => rfl
  | multi m =>
    rw [Registry.answer]
    cases kept : r.multinames.get? m with
    | none => rfl
    | some q => exact (h m q kept).symm

/-- Answers depend on the definitions and on the answers that are kept, and on nothing else of a registry. -/
theorem answer_congr (definitions : r'.definitions = r.definitions)
    (multinames : r'.multinames = r.multinames) :
    r'.answer = r.answer := by
  funext n
  cases n with
  | qualified q => rfl
  | multi m => rw [Registry.answer, Registry.answer, definitions, multinames]

theorem Resolves.refl (r : Registry) : r.Resolves r := ⟨r.multinames, rfl, fun _ => rfl⟩

section

variable (h : r.Resolves r')
include h

theorem Resolves.trans (h' : r'.Resolves r'') : r.Resolves r'' := by
  obtain ⟨first, rfl, same⟩ := h
  obtain ⟨second, rfl, same'⟩ := h'
  exact ⟨second, rfl, fun n => (same' n).trans (same n)⟩

/-- Keeping answers changes none. -/
theorem Resolves.answer : r'.answer = r.answer := by
  obtain ⟨_, -, same⟩ := h
  exact funext same

theorem Resolves.definitions : r'.definitions = r.definitions := by
  obtain ⟨_, rfl, -⟩ := h
  rfl

theorem Resolves.coherent (coherent : r.Coherent) : r'.Coherent := by
  obtain ⟨answers, rfl, same⟩ := h
  intro m q kept
  have answered := (same (.multi m)).trans (coherent.answer (.multi m))
  rw [Registry.answer, kept, Option.some_or] at answered
  exact answered.symm

end

/-- The answer of `resolveMultiname` is `answer`, and all that it leaves behind is that it may be kept. -/
theorem resolveMultiname_eq (r : Registry) (m : MultiName) :
    (r.resolveMultiname m).1 = r.answer (.multi m) ∧ r.Resolves (r.resolveMultiname m).2 := by
  unfold Registry.resolveMultiname
  split
  next q kept => exact ⟨by rw [answer, kept, Option.some_or], .refl r⟩
  next fresh =>
    split
    next q found =>
      refine ⟨by rw [answer, fresh, Option.none_or, found], _, rfl, fun n => ?_⟩
      cases n with
      | qualified => rfl
      | multi m' =>
        simp only [answer, registerMultiname, Table.get?_insert]
        split
        next here =>
          subst here
          rw [fresh, Option.some_or, Option.none_or, found]
        next => rfl
    next unknown => exact ⟨by rw [answer, fresh, Option.none_or, unknown], .refl r⟩

theorem fst_resolveName (r : Registry) (n : Name) : (r.resolveName n).1 = r.answer n := by
  cases n with
  | qualified q => rfl
  | multi m => exact (r.resolveMultiname_eq m).1

theorem resolves_resolveName (r : Registry) (n : Name) : r.Resolves (r.resolveName n).2 := by
  cases n with
  | qualified q => exact .refl r
  | multi m => exact (r.resolveMultiname_eq m).2

end Registry

namespace Context

variable {cx cx' cx'' : Context}

/-- Only kept answers differ. -/
def Asks (cx cx' : Context) : Prop := ∃ r, cx' = { cx with registry := r } ∧ cx.registry.Resolves r

theorem Asks.refl (cx : Context) : cx.Asks cx := ⟨cx.registry, rfl, .refl _⟩

theorem Asks.trans (h : cx.Asks cx') (h' : cx'.Asks cx'') : cx.Asks cx'' := by
  obtain ⟨first, rfl, resolves⟩ := h
  obtain ⟨second, rfl, resolves'⟩ := h'
  exact ⟨second, rfl, resolves.trans resolves'⟩

theorem Asks.coherent (h : cx.Asks cx') (coherent : cx.registry.Coherent) : cx'.registry.Coherent := by
  obtain ⟨r, rfl, resolves⟩ := h
  exact resolves.coherent coherent

/-- To look up a name in a context is to ask its registry. -/
theorem asks_resolveName (cx : Context) (n : Name) :
    (cx.resolveName n).1 = cx.registry.answer n ∧ cx.Asks (cx.resolveName n).2 :=
  ⟨cx.registry.fst_resolveName n, _, rfl, cx.registry.resolves_resolveName n⟩

theorem Asks.answer (h : cx.Asks cx') : cx'.registry.answer = cx.registry.answer := by
  obtain ⟨r, rfl, resolves⟩ := h
  exact resolves.answer

end Context

end AbcBuild
