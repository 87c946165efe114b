/-
Module: AbcBuild.Proofs.Codec
Purpose: When a reader and a writer speak the same format, and how that carries over from the parts of a
  format to the whole.  A format is read in one way only, is told apart from each of its strict prefixes, and
  is written with no more bytes than were read.
Main exports: Reads, Needs, Codec.times, Codec.list
-/
import AbcBuild.Bytes.Reader
import AbcBuild.Bytes.Writer
import Mathlib.Data.List.Basic

namespace AbcBuild

variable {α β γ : Type}

/-! ### Results that may be errors -/

section

variable {ε : Type} {result : Except ε α}

@[simp] theorem toOption_eq_some {a : α} : result.toOption = some a ↔ result = .ok a := by
  cases result <;> simp [Except.toOption]

theorem map_eq_ok {f : α → β} {b : β} : result.map f = .ok b ↔ ∃ a, result = .ok a ∧ f a = b := by
  cases result <;> simp [Except.map]

theorem exists_map_eq_ok {f : α → β} : (∃ b, result.map f = .ok b) ↔ ∃ a, result = .ok a := by
  cases result <;> simp [Except.map]

@[simp] theorem map_map_result (f : α → β) (g : β → γ) :
    (result.map f).map g = result.map fun a => g (f a) := by
  cases result <;> rfl

theorem bind_eq_ok {next : α → Except ε β} {b : β} :
    (result >>= next) = .ok b ↔ ∃ a, result = .ok a ∧ next a = .ok b := by
  cases result <;> simp [bind, Except.bind]

end

/-! ### Formats -/

/-- The reader takes exactly `input` for `a`, wherever it stands and whatever follows. -/
def Reads (reader : Reader α) (input : List UInt8) (a : α) : Prop :=
  ∀ (position : Nat) (rest : List UInt8),
    reader ⟨position, input ++ rest⟩ = .ok a ⟨position + input.length, rest⟩

/-- Wherever `input` is cut short, the reader finds the end of the data there, and no other fault before. -/
def Needs (reader : Reader α) (input : List UInt8) : Prop :=
  ∀ (position : Nat) (cut : List UInt8), cut <+: input → cut ≠ input →
    ∃ stop, reader ⟨position, cut⟩ = .error (.unexpectedEnd (position + cut.length)) stop

/-- A successful reading went over `used`, which stands for `a` on its own. -/
structure Took (reader : Reader α) (before : Cursor) (a : α) (after : Cursor) (used : List UInt8) :
    Prop where
  input : before.rest = used ++ after.rest
  position : after.position = before.position + used.length
  reads : Reads reader used a
  needs : Needs reader used

/-- The reader and the writer speak the same format, whose values are the valid ones. -/
structure Codec (reader : Reader α) (writer : α → List UInt8) (valid : α → Prop) : Prop where
  /-- What is written is read back. -/
  readsBack : ∀ a, valid a → Reads reader (writer a) a
  /-- What is read is valid, and takes no more bytes when it is written. -/
  sound : ∀ before a after, reader before = .ok a after →
    ∃ used, Took reader before a after used ∧ valid a ∧ (writer a).length ≤ used.length

/-! ### Sequences of readings -/

theorem Reader.bind_apply (r : Reader α) (k : α → Reader β) (c : Cursor) :
    (r >>= k) c = match r c with
      | .ok a c' => k a c'
      | .error e c' => .error e c' := by
  show EStateM.bind r k c = _
  unfold EStateM.bind
  cases r c <;> rfl

variable {r : Reader α} {k : α → Reader β} {a : α} {first second : List UInt8} {b : β}

/-- A sequence that succeeds has two parts that do. -/
theorem Reader.bind_eq_ok {before after : Cursor} (h : (r >>= k) before = .ok b after) :
    ∃ a middle, r before = .ok a middle ∧ k a middle = .ok b after := by
  rw [Reader.bind_apply] at h
  cases hr : r before with
  | ok a middle =>
    rw [hr] at h
    exact ⟨a, middle, rfl, h⟩
  | error e stop =>
    rw [hr] at h
    cases h

theorem Reads.bind (hr : Reads r first a) (hk : Reads (k a) second b) :
    Reads (r >>= k) (first ++ second) b := by
  intro position rest
  rw [Reader.bind_apply, List.append_assoc, hr position (second ++ rest)]
  simp only [hk (position + first.length) rest, List.length_append, Nat.add_assoc]

theorem Reads.pure (a : α) : Reads (pure a : Reader α) [] a := fun _ _ => rfl

theorem Needs.pure (a : α) : Needs (pure a : Reader α) [] :=
  fun _ _ hcut hne => absurd (List.prefix_nil.1 hcut) hne

theorem Took.pure (a : α) (c : Cursor) : Took (pure a : Reader α) c a c [] :=
  ⟨rfl, rfl, Reads.pure a, Needs.pure a⟩

/-- A cut falls into the first part or into the second. -/
theorem Needs.bind (hr : Reads r first a) (hfirst : Needs r first) (hsecond : Needs (k a) second) :
    Needs (r >>= k) (first ++ second) := by
  intro position cut hcut hne
  rw [Reader.bind_apply]
  rcases List.prefix_or_prefix_of_prefix hcut (List.prefix_append first second) with inside | ⟨more, rfl⟩
  · by_cases whole : cut = first
    · subst whole
      have short : ([] : List UInt8) ≠ second := fun h => hne (by rw [← h, List.append_nil])
      obtain ⟨stop, hstop⟩ := hsecond (position + cut.length) [] List.nil_prefix short
      have read := hr position []
      rw [List.append_nil] at read
      refine ⟨stop, ?_⟩
      simpa [read] using hstop
    · obtain ⟨stop, hstop⟩ := hfirst position cut inside whole
      exact ⟨stop, by rw [hstop]⟩
  · have hmore : more <+: second := (List.prefix_append_right_inj first).1 hcut
    have short : more ≠ second := fun h => hne (by rw [h])
    obtain ⟨stop, hstop⟩ := hsecond (position + first.length) more hmore short
    refine ⟨stop, ?_⟩
    rw [hr position more]
    simp only [hstop, List.length_append, Nat.add_assoc]

theorem Took.bind {before middle after : Cursor} (hr : Took r before a middle first)
    (hk : Took (k a) middle b after second) : Took (r >>= k) before b after (first ++ second) where
  input := by rw [hr.input, hk.input, List.append_assoc]
  position := by rw [hk.position, hr.position, List.length_append, Nat.add_assoc]
  reads := hr.reads.bind hk.reads
  needs := hr.needs.bind hr.reads hk.needs

/-! ### Formats made of formats -/

namespace Codec

variable {reader : Reader α} {first : Reader β} {writer : β → List UInt8} {valid : α → Prop}
  {known : β → Prop}
variable {next : β → Reader α}

/-- What the writer makes of values that are not valid does not matter. -/
theorem congr {writer writer' : α → List UInt8} {valid' : α → Prop} (h : Codec reader writer valid)
    (same : ∀ a, valid' a ↔ valid a) (agree : ∀ a, valid' a → writer' a = writer a) :
    Codec reader writer' valid' where
  readsBack a ha := by
    rw [agree a ha]
    exact h.readsBack a ((same a).1 ha)
  sound before a after hread := by
    obtain ⟨used, took, ha, short⟩ := h.sound before a after hread
    have ha' : valid' a := (same a).2 ha
    exact ⟨used, took, ha', by rw [agree a ha']; exact short⟩

/-- Nothing is written after the last part. -/
theorem closed {writer : α → List UInt8} (h : Codec reader (fun a => writer a ++ []) valid) :
    Codec reader writer valid :=
  h.congr (fun _ => Iff.rfl) fun a _ => (List.append_nil (writer a)).symm

/-- All parts are read, and just one valid value has them. -/
theorem done (a : α) (only : ∀ b, valid b ↔ b = a) : Codec (pure a : Reader α) (fun _ => []) valid where
  readsBack b hb := by
    rw [(only b).1 hb]
    exact Reads.pure a
  sound before b after hread := by
    cases hread
    exact ⟨[], Took.pure a before, (only a).2 rfl, Nat.le_refl 0⟩

/-- A reader that always fails reads the format without values. -/
theorem fails (e : DecodeError) (writer : α → List UInt8) (none : ∀ a, ¬ valid a) :
    Codec (throw e : Reader α) writer valid where
  readsBack a ha := absurd ha (none a)
  sound before a after hread := by cases hread

/-- Read a part of a value, then a value that has this part. -/
theorem bind {others : β → α → List UInt8} {valid : β → α → Prop} (whole : α → List UInt8)
    (hfirst : Codec first writer known) (hnext : ∀ b, known b → Codec (next b) (others b) (valid b))
    (written : ∀ b a, valid b a → whole a = writer b ++ others b a) :
    Codec (first >>= next) whole (fun a => ∃ b, known b ∧ valid b a) where
  readsBack a ha := by
    obtain ⟨b, known_b, valid_a⟩ := ha
    rw [written b a valid_a]
    exact (hfirst.readsBack b known_b).bind ((hnext b known_b).readsBack a valid_a)
  sound before a after hread := by
    obtain ⟨b, middle, hb, ha⟩ := Reader.bind_eq_ok hread
    obtain ⟨used, took, known_b, short⟩ := hfirst.sound before b middle hb
    obtain ⟨more, took', valid_a, short'⟩ := (hnext b known_b).sound middle a after ha
    refine ⟨used ++ more, took.bind took', ⟨b, known_b, valid_a⟩, ?_⟩
    rw [written b a valid_a, List.length_append, List.length_append]
    omega

/-- Read one part of a value, then the others, which leave open only values with that part. -/
theorem seq {others : α → List UInt8} (part : α → β) (hfirst : Codec first writer known)
    (hpart : ∀ a, valid a → known (part a)) (hnext : ∀ b, known b → Codec (next b) others fun a =>
      part a = b ∧ valid a) :
    Codec (first >>= next) (fun a => writer (part a) ++ others a) valid := by
  refine (hfirst.bind (fun a => writer (part a) ++ others a) hnext ?_).congr (fun a => ?_) (fun a _ => rfl)
  · rintro b a ⟨rfl, -⟩
    rfl
  · constructor
    · exact fun ha => ⟨part a, hpart a ha, rfl, ha⟩
    · exact fun ⟨_, _, _, ha⟩ => ha

/-- A part that is there only under a condition, which is known when the part is reached. -/
theorem seqIf {others : α → List UInt8} {c : Bool} {absent : β} (condition : α → Bool)
    (part : α → β) (hfirst : Codec first writer known) (hcondition : ∀ a, valid a → condition a = c)
    (hpart : ∀ a, valid a → if c then known (part a) else part a = absent)
    (hnext : ∀ b, (if c then known b else b = absent) → Codec (next b) others fun a => part a = b ∧
      valid a) :
    Codec (if c then first >>= next else pure absent >>= next)
      (fun a => (if condition a then writer (part a) else []) ++ others a) valid := by
  cases c with
  | true =>
    refine (hfirst.seq part hpart hnext).congr (fun a => Iff.rfl) fun a ha => ?_
    rw [hcondition a ha]
    rfl
  | false =>
    refine ((done absent fun b => Iff.rfl).seq part hpart hnext).congr (fun a => Iff.rfl) fun a ha => ?_
    rw [hcondition a ha]
    rfl

/-- A value made of one part. -/
theorem one {reader : Reader β} (whole : α → List UInt8) (make : β → α) (h : Codec reader writer known)
    (written : ∀ b, whole (make b) = writer b) :
    Codec (do let b ← reader; return make b) whole (fun a => ∃ b, known b ∧ a = make b) := by
  refine h.bind whole (fun b _ => done (make b) fun a => Iff.rfl) ?_
  rintro b a rfl
  rw [written, List.append_nil]

/-- A value made of two parts. -/
theorem two {second : Reader γ} {writer' : γ → List UInt8} {known' : γ → Prop} (whole : α → List UInt8)
    (make : β → γ → α) (h : Codec first writer known) (h' : Codec second writer' known')
    (written : ∀ b c, whole (make b c) = writer b ++ writer' c) :
    Codec (do let b ← first; let c ← second; return make b c) whole
      (fun a => ∃ b, known b ∧ ∃ c, known' c ∧ a = make b c) := by
  -- what is written of the second part is what is left of the whole without the first
  refine h.bind whole (fun b _ => h'.one (fun a => (whole a).drop (writer b).length) (make b) fun c => ?_) ?_
  · rw [written, List.drop_left]
  · rintro b a ⟨c, -, rfl⟩
    rw [written, List.drop_left]

/-- A value made of three parts. -/
theorem three {δ : Type} {second : Reader γ} {third : Reader δ} {writer' : γ → List UInt8}
    {writer'' : δ → List UInt8} {known' : γ → Prop} {known'' : δ → Prop} (whole : α → List UInt8)
    (make : β → γ → δ → α) (h : Codec first writer known) (h' : Codec second writer' known')
    (h'' : Codec third writer'' known'')
    (written : ∀ b c d, whole (make b c d) = writer b ++ (writer' c ++ writer'' d)) :
    Codec (do let b ← first; let c ← second; let d ← third; return make b c d) whole
      (fun a => ∃ b, known b ∧ ∃ c, known' c ∧ ∃ d, known'' d ∧ a = make b c d) := by
  refine h.bind whole (fun b _ => h'.two (fun a => (whole a).drop (writer b).length) (make b) h''
    fun c d => ?_) ?_
  · rw [written, List.drop_left]
  · rintro b a ⟨c, -, d, -, rfl⟩
    rw [written, List.drop_left]

/-- Two readers of one format, each for one case. -/
theorem ite {reader' : Reader α} {writer : α → List UInt8} {c : Prop} [Decidable c]
    (h : c → Codec reader writer valid) (h' : ¬ c → Codec reader' writer valid) :
    Codec (if c then reader else reader') writer valid := by
  split
  · exact h ‹c›
  · exact h' ‹¬ c›

/-- The same format `n` times. -/
theorem times {writer : α → List UInt8} (h : Codec reader writer valid) (n : Nat) :
    Codec (Reader.times n reader) (fun items => items.flatMap writer)
      (fun items => items.length = n ∧ ∀ a ∈ items, valid a) := by
  induction n with
  | zero =>
    refine (done ([] : List α) fun items => Iff.rfl).congr (fun items => ?_) (fun items hitems => ?_)
    · constructor
      · exact fun hitems => List.eq_nil_of_length_eq_zero hitems.1
      · rintro rfl
        exact ⟨rfl, by simp⟩
    · rw [List.eq_nil_of_length_eq_zero hitems.1]
      rfl
  | succ n ih =>
    constructor
    · rintro items ⟨hlength, hitems⟩
      obtain ⟨a, more, rfl⟩ := List.exists_cons_of_length_eq_add_one hlength
      have hmore : more.length = n ∧ ∀ b ∈ more, valid b :=
        ⟨by simpa using hlength, fun b hb => hitems b (List.mem_cons_of_mem a hb)⟩
      have read : Reads (Reader.times n reader >>= fun more => pure (a :: more)) (more.flatMap writer ++ [])
          (a :: more) := (ih.readsBack more hmore).bind (Reads.pure (a :: more))
      rw [List.append_nil] at read
      exact (h.readsBack a (hitems a (.head _))).bind read
    · intro before items after hread
      obtain ⟨a, middle, ha, hread⟩ := Reader.bind_eq_ok hread
      obtain ⟨more, last, hmore, hread⟩ := Reader.bind_eq_ok hread
      cases hread
      obtain ⟨used, took, valid_a, short⟩ := h.sound before a middle ha
      obtain ⟨used', took', ⟨rfl, valid_more⟩, short'⟩ := ih.sound middle more after hmore
      refine ⟨used ++ (used' ++ []), took.bind (took'.bind (Took.pure _ _)), ⟨rfl, ?_⟩, ?_⟩
      · intro b hb
        rcases List.mem_cons.1 hb with rfl | hb
        · exact valid_a
        · exact valid_more b hb
      · simp only [List.flatMap_cons, List.length_append, List.length_nil]
        omega

/-- A count in a format of its own, and as many items. -/
theorem list {writer : α → List UInt8} {count : Reader Nat} {countWriter : Nat → List UInt8}
    {known : Nat → Prop} (hcount : Codec count countWriter known) (h : Codec reader writer valid) :
    Codec (count >>= fun n => Reader.times n reader)
      (fun items => countWriter items.length ++ items.flatMap writer)
      (fun items => known items.length ∧ ∀ a ∈ items, valid a) := by
  refine hcount.seq List.length (fun items hitems => hitems.1) fun n hn => ?_
  refine (h.times n).congr (fun items => ?_) fun items _ => rfl
  constructor
  · rintro ⟨hlength, -, hitems⟩
    exact ⟨hlength, hitems⟩
  · rintro ⟨hlength, hitems⟩
    exact ⟨hlength, hlength ▸ hn, hitems⟩

end Codec

end AbcBuild
