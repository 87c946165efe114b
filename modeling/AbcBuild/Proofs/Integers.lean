/-
Module: AbcBuild.Proofs.Integers
Purpose: The formats of bytes, words and integers.  An integer is a list of groups of seven bits; the reader
  accepts every list that is not too long, and the writer chooses the shortest.
Main exports: Codec.u8, Codec.bytes, Codec.s32, Codec.counted
-/
import AbcBuild.Proofs.Codec
import Mathlib.Data.Int.ModEq
import Mathlib.Tactic.Ring

namespace AbcBuild

variable {α β : Type} {rest : List Nat} {limit more offset count : Nat}

/-! ### Bytes -/

namespace Codec

theorem u8 : Codec Reader.u8 (fun b => [b]) (fun _ => True) where
  readsBack b _ := fun position rest => rfl
  sound before b after hread := by
    rcases before with ⟨position, _ | ⟨b', rest⟩⟩
    · cases hread
    · cases hread
      refine ⟨[b], ⟨rfl, rfl, fun position rest => rfl, ?_⟩, trivial, Nat.le_refl 1⟩
      intro position cut hcut hne
      have empty : cut = [] := by
        rcases List.prefix_cons_iff.1 hcut with h | ⟨more, rfl, hmore⟩
        · exact h
        · exact absurd (by rw [List.prefix_nil.1 hmore]) hne
      subst empty
      exact ⟨⟨position, []⟩, rfl⟩

theorem bytes (n : Nat) : Codec (Reader.bytes n) id (fun taken => taken.length = n) := by
  have reads (taken : List UInt8) (hlength : taken.length = n) : Reads (Reader.bytes n) taken taken := by
    intro position rest
    simp [Reader.bytes, ← hlength]
  refine ⟨reads, fun before taken after hread => ?_⟩
  unfold Reader.bytes at hread
  split at hread
  next enough =>
    cases hread
    have hlength := List.length_take_of_le enough
    refine ⟨_, ⟨(List.take_append_drop n _).symm, by rw [hlength], reads _ hlength, ?_⟩, hlength,
      Nat.le_refl _⟩
    intro position cut hcut hne
    have short : cut.length < n :=
      hlength ▸ Nat.lt_of_le_of_ne hcut.length_le fun h => hne (hcut.eq_of_length h)
    exact ⟨⟨position, cut⟩, if_neg (Nat.not_le.2 short)⟩
  next => cases hread

/-- Read a value through another one.  Of the readings that stand for a value, `pick` gives the one that is
    written. -/
theorem via {reader : Reader β} {writer : β → List UInt8} {known : β → Prop} {valid : α → Prop}
    (h : Codec reader writer known) (value : β → α) (pick : α → β)
    (hpick : ∀ a, valid a → known (pick a) ∧ value (pick a) = a)
    (hvalue : ∀ b, known b → valid (value b) ∧ (writer (pick (value b))).length ≤ (writer b).length) :
    Codec (do let b ← reader; return value b) (fun a => writer (pick a)) valid where
  readsBack a ha := by
    obtain ⟨hknown, heq⟩ := hpick a ha
    have read : Reads (reader >>= fun b => pure (value b)) (writer (pick a) ++ []) (value (pick a)) :=
      (h.readsBack (pick a) hknown).bind (Reads.pure (value (pick a)))
    rwa [List.append_nil, heq] at read
  sound before a after hread := by
    obtain ⟨b, middle, hb, hread⟩ := Reader.bind_eq_ok hread
    cases hread
    obtain ⟨used, took, hknown, short⟩ := h.sound before b after hb
    obtain ⟨hvalid, hle⟩ := hvalue b hknown
    refine ⟨used ++ [], took.bind (Took.pure (value b) after), hvalid, ?_⟩
    rw [List.append_nil]
    exact Nat.le_trans hle short

end Codec

/-! ### Words -/

theorem Writer.length_littleEndian (count n : Nat) : (Writer.littleEndian count n).length = count := by
  induction count generalizing n with
  | zero => rfl
  | succ count ih => simp [Writer.littleEndian, ih]

theorem Reader.littleEndian_cons (b : UInt8) (rest : List UInt8) :
    Reader.littleEndian (b :: rest) = b.toNat + 256 * Reader.littleEndian rest := rfl

/-- The low bytes of a number stand for the number, up to what they do not hold. -/
theorem Reader.littleEndian_littleEndian (count n : Nat) :
    Reader.littleEndian (Writer.littleEndian count n) = n % 256 ^ count := by
  induction count generalizing n with
  | zero => simp [Writer.littleEndian, Reader.littleEndian, Nat.mod_one]
  | succ count ih =>
    rw [Writer.littleEndian, Reader.littleEndian_cons, ih, Nat.pow_succ, Nat.mul_comm (256 ^ count),
      Nat.mod_mul, UInt8.toNat_ofNat']

namespace Codec

theorem u16 : Codec Reader.u16 Writer.u16 (fun _ => True) := by
  refine (Codec.bytes 2).via (fun taken => UInt16.ofNat (Reader.littleEndian taken))
    (fun value => Writer.littleEndian 2 value.toNat) (fun value _ => ⟨Writer.length_littleEndian _ _, ?_⟩)
    (fun taken hlength => ⟨trivial, by simp [Writer.length_littleEndian, hlength]⟩)
  rw [Reader.littleEndian_littleEndian]
  apply UInt16.toNat.inj
  have := value.toNat_lt
  rw [UInt16.toNat_ofNat']
  omega

theorem d64 : Codec Reader.d64 Writer.d64 (fun _ => True) := by
  refine (Codec.bytes 8).via (fun taken => (⟨UInt64.ofNat (Reader.littleEndian taken)⟩ : Double))
    (fun value => Writer.littleEndian 8 value.bits.toNat) (fun value _ =>
      ⟨Writer.length_littleEndian _ _, ?_⟩)
    (fun taken hlength => ⟨trivial, by simp [Writer.length_littleEndian, hlength]⟩)
  rcases value with ⟨bits⟩
  have := bits.toNat_lt
  have same : UInt64.ofNat (bits.toNat % 256 ^ 8) = bits := by
    apply UInt64.toNat.inj
    rw [UInt64.toNat_ofNat']
    omega
  rw [Reader.littleEndian_littleEndian, same]

end Codec

/-! ### Groups of seven bits -/

namespace Groups

/-- The bytes of groups: each but the last has its high bit set. -/
def spell : List Nat → List UInt8
  | [] => []
  | [g] => [UInt8.ofNat g]
  | g :: g' :: rest => UInt8.ofNat (g + 128) :: spell (g' :: rest)

/-- Groups that the reader accepts: some, at most `limit`, each of seven bits. -/
def Fit (limit : Nat) (groups : List Nat) : Prop :=
  groups ≠ [] ∧ groups.length ≤ limit ∧ ∀ g ∈ groups, g < 128

@[simp] theorem length_spell (groups : List Nat) : (spell groups).length = groups.length := by
  induction groups with
  | nil => rfl
  | cons g rest ih =>
    cases rest with
    | nil => rfl
    | cons g' rest => simpa [spell] using ih

theorem toNat_ofNat_of_lt {n : Nat} (h : n < 256) : (UInt8.ofNat n).toNat = n := by
  rw [UInt8.toNat_ofNat']
  exact Nat.mod_eq_of_lt h

theorem spell_cons {g : Nat} (h : rest ≠ []) :
    spell (g :: rest) = UInt8.ofNat (g + 128) :: spell rest := by
  cases rest with
  | nil => exact absurd rfl h
  | cons g' rest => rfl

theorem tail_spell (g : Nat) (rest : List Nat) : (spell (g :: rest)).tail = spell rest := by
  cases rest <;> rfl

/-- The first byte tells whether it is the last, and then what is left. -/
theorem fit_succ_iff {groups : List Nat} (b : UInt8) :
    Fit (limit + 1) groups ∧ (spell groups).head? = some b ↔
    if b.toNat < 128 then groups = [b.toNat] else ∃ rest, Fit limit rest ∧
      groups = (b.toNat - 128) :: rest := by
  constructor
  · rintro ⟨⟨some, bound, small⟩, first⟩
    cases groups with
    | nil => exact absurd rfl some
    | cons g rest =>
      have hg : g < 128 := small g (.head _)
      cases rest with
      | nil =>
        cases first
        simp [toNat_ofNat_of_lt (show g < 256 by omega), hg]
      | cons g' rest =>
        cases first
        rw [toNat_ofNat_of_lt (by omega), if_neg (by omega), Nat.add_sub_cancel]
        exact ⟨g' :: rest, ⟨List.cons_ne_nil _ _, Nat.le_of_succ_le_succ bound,
          (List.forall_mem_cons.1 small).2⟩, rfl⟩
  · split
    next last =>
      rintro rfl
      exact ⟨⟨by simp, by simp, by simpa using last⟩, by simp [spell]⟩
    next high =>
      rintro ⟨rest, ⟨some, bound, small⟩, rfl⟩
      have hb := b.toNat_lt
      refine ⟨⟨List.cons_ne_nil _ _, Nat.succ_le_succ bound, List.forall_mem_cons.2 ⟨by omega, small⟩⟩, ?_⟩
      rw [spell_cons some, Nat.sub_add_cancel (Nat.le_of_not_lt high), UInt8.ofNat_toNat]
      rfl

end Groups

namespace Codec

open Groups

/-- The first byte is read, and then the groups that it leaves open. -/
theorem groupsWithin (limit : Nat) : Codec (Reader.groupsWithin limit) spell (Fit limit) := by
  induction limit with
  | zero =>
    have none (groups : List Nat) : ¬ Fit 0 groups :=
      fun fit => fit.1 (List.eq_nil_of_length_eq_zero (Nat.le_zero.1 fit.2.1))
    exact ⟨fun groups fit => absurd fit (none groups), fun before groups after hread => by cases hread⟩
  | succ limit ih =>
    have next (b : UInt8) : Codec (if b.toNat < 128 then pure [b.toNat] else do
          let more ← Reader.groupsWithin limit
          return (b.toNat - 128) :: more) (fun groups => (spell groups).tail)
        (fun groups => Fit (limit + 1) groups ∧ (spell groups).head? = some b) := by
      refine ite (fun last => ?_) fun high => ?_
      · refine (done [b.toNat] fun _ => Iff.rfl).congr (fun groups => ?_) fun groups fit => ?_
        · rw [fit_succ_iff, if_pos last]
        · rw [fit_succ_iff, if_pos last] at fit
          rw [fit]
          rfl
      · refine (ih.one (fun groups => (spell groups).tail) _ (tail_spell _)).congr (fun groups => ?_)
          fun _ _ => rfl
        rw [fit_succ_iff, if_neg high]
    refine (u8.bind spell (fun b _ => next b) ?_).congr (fun groups => ?_) fun _ _ => rfl
    · rintro b groups ⟨-, first⟩
      exact (List.cons_head?_tail first).symm
    · constructor
      · intro fit
        have some : spell groups ≠ [] := by
          rw [← List.length_pos_iff, length_spell, List.length_pos_iff]
          exact fit.1
        exact ⟨_, trivial, fit, List.head?_eq_some_head some⟩
      · rintro ⟨-, -, fit, -⟩
        exact fit

end Codec

/-! ### Unsigned integers -/

namespace Groups

@[simp] theorem value_cons (g : Nat) (rest : List Nat) :
    Reader.groupsValue (g :: rest) = g + 128 * Reader.groupsValue rest := rfl

theorem value_lt {groups : List Nat} (h : ∀ g ∈ groups, g < 128) :
    Reader.groupsValue groups < 128 ^ groups.length := by
  induction groups with
  | nil => simp [Reader.groupsValue]
  | cons g rest ih =>
    have hg := h g (.head _)
    have hrest := ih fun x hx => h x (List.mem_cons_of_mem g hx)
    rw [value_cons, List.length_cons, Nat.pow_succ]
    omega

/-- The groups that are written for a number. -/
def ofNat : Nat → Nat → List Nat
  | 0, n => [n]
  | more + 1, n => if n < 128 then [n] else n % 128 :: ofNat more (n / 128)

theorem ofNat_ne_nil (more n : Nat) : ofNat more n ≠ [] := by
  cases more with
  | zero => simp [ofNat]
  | succ more =>
    rw [ofNat]
    split <;> simp

theorem spell_ofNat (more n : Nat) : spell (ofNat more n) = Writer.groups more n := by
  induction more generalizing n with
  | zero => rfl
  | succ more ih =>
    rw [ofNat, Writer.groups]
    split
    · rfl
    · rw [spell_cons (ofNat_ne_nil _ _), ih]

theorem value_ofNat (more n : Nat) : Reader.groupsValue (ofNat more n) = n := by
  induction more generalizing n with
  | zero => simp [ofNat, Reader.groupsValue]
  | succ more ih =>
    rw [ofNat]
    split
    · simp [Reader.groupsValue]
    · rw [value_cons, ih]
      omega

/-- A number of at most `count` groups is written with at most `count`, and the first with no more than asked
    for. -/
theorem length_ofNat_le {n : Nat} (h : n < 128 ^ (count + 1)) : (ofNat more n).length ≤ count + 1 := by
  induction more generalizing n count with
  | zero => simp [ofNat]
  | succ more ih =>
    rw [ofNat]
    split
    · simp
    next large =>
      cases count with
      | zero => omega
      | succ count =>
        have : n / 128 < 128 ^ (count + 1) := by
          rw [Nat.div_lt_iff_lt_mul (by omega), ← Nat.pow_succ]
          exact h
        simpa using ih this

theorem fit_ofNat {n : Nat} (h : n < 128 ^ (more + 1)) : Fit (more + 1) (ofNat more n) := by
  refine ⟨ofNat_ne_nil more n, length_ofNat_le h, ?_⟩
  induction more generalizing n with
  | zero => simpa [ofNat] using h
  | succ more ih =>
    rw [ofNat]
    split
    next small => simpa using small
    next large =>
      have : n / 128 < 128 ^ (more + 1) := by
        rw [Nat.div_lt_iff_lt_mul (by omega), ← Nat.pow_succ]
        exact h
      intro g hg
      rcases List.mem_cons.1 hg with heq | hg
      · omega
      · exact ih this g hg

/-- Dropping high bits never makes a number longer. -/
theorem length_ofNat_le_of_le {n : Nat} {found : List Nat} (h : Fit limit found)
    (hle : n ≤ Reader.groupsValue found) : (ofNat more n).length ≤ found.length := by
  obtain ⟨some, -, small⟩ := h
  obtain ⟨count, hcount⟩ := Nat.exists_eq_succ_of_ne_zero (List.length_pos_iff.2 some).ne'
  have bound := value_lt small
  rw [hcount] at bound ⊢
  exact length_ofNat_le (Nat.lt_of_le_of_lt hle bound)

end Groups

namespace Codec

open Groups

theorem u32 : Codec Reader.u32 Writer.u32 (fun _ => True) := by
  refine ((groupsWithin 5).via (fun found => UInt32.ofNat (Reader.groupsValue found))
    (fun value => Groups.ofNat 4 value.toNat) (fun value _ => ⟨fit_ofNat ?_, ?_⟩)
    (fun found fit => ⟨trivial, ?_⟩)).congr (fun value => Iff.rfl) (fun value _ => (spell_ofNat _ _).symm)
  · have := value.toNat_lt
    omega
  · rw [value_ofNat, UInt32.ofNat_toNat]
  · rw [length_spell, length_spell, UInt32.toNat_ofNat']
    exact length_ofNat_le_of_le fit (Nat.mod_le _ _)

/-- Numbers of 30 bits. -/
theorem u30 : Codec Reader.u30 Writer.u30 (fun n => n < 1073741824) := by
  refine (u32.via (fun value => value.toNat % 1073741824) UInt32.ofNat (fun n hn => ⟨trivial, ?_⟩)
    (fun value _ => ⟨Nat.mod_lt _ (by decide), ?_⟩)).congr (fun n => Iff.rfl) (fun n hn => ?_)
  · rw [UInt32.toNat_ofNat']
    omega
  · have smaller : (UInt32.ofNat (value.toNat % 1073741824)).toNat ≤ value.toNat := by
      rw [UInt32.toNat_ofNat']
      omega
    have fit : Fit 5 (Groups.ofNat 4 value.toNat) := by
      apply fit_ofNat
      have := value.toNat_lt
      omega
    rw [Writer.u32, Writer.u32, ← spell_ofNat, ← spell_ofNat, length_spell, length_spell]
    exact length_ofNat_le_of_le fit (by rw [value_ofNat]; exact smaller)
  · have small : (UInt32.ofNat n).toNat = n % 1073741824 := by
      rw [UInt32.toNat_ofNat']
      omega
    rw [Writer.u30, Writer.u32, small]

/-- A count, and as many items. -/
theorem counted {reader : Reader α} {writer : α → List UInt8} {valid : α → Prop}
    (h : Codec reader writer valid) :
    Codec (Reader.counted reader) (Writer.counted writer)
      (fun items => items.length < 1073741824 ∧ ∀ a ∈ items, valid a) :=
  u30.list h

end Codec

/-! ### Signed integers -/

namespace Groups

/-- The integer of groups whose last one carries the sign. -/
def signed : List Nat → Int
  | [] => 0
  | [g] => if 64 ≤ g then (g : Int) - 128 else g
  | g :: g' :: rest => g + 128 * signed (g' :: rest)

/-- The groups that are written for an integer. -/
def ofInt : Nat → Int → List Nat
  | 0, v => [(v % 128).toNat]
  | more + 1, v => if -64 ≤ v && v < 64 then [(v % 128).toNat] else (v % 128).toNat :: ofInt more (v / 128)

theorem ofInt_ne_nil (more : Nat) (v : Int) : ofInt more v ≠ [] := by
  cases more with
  | zero => simp [ofInt]
  | succ more =>
    rw [ofInt]
    split <;> simp

theorem spell_ofInt (more : Nat) (v : Int) : spell (ofInt more v) = Writer.signedGroups more v := by
  induction more generalizing v with
  | zero => rfl
  | succ more ih =>
    rw [ofInt, Writer.signedGroups]
    split
    · rfl
    · rw [spell_cons (ofInt_ne_nil _ _), ih]

theorem fit_ofInt (more : Nat) (v : Int) : Fit (more + 1) (ofInt more v) := by
  have small : (v % 128).toNat < 128 := by omega
  induction more generalizing v with
  | zero => exact ⟨by simp [ofInt], by simp [ofInt], by simpa [ofInt] using small⟩
  | succ more ih =>
    rw [ofInt]
    split
    · exact ⟨by simp, by simp, by simpa using small⟩
    · obtain ⟨-, bound, below⟩ := ih (v / 128) (by omega)
      refine ⟨by simp, Nat.succ_le_succ bound, fun g hg => ?_⟩
      rcases List.mem_cons.1 hg with heq | hg
      · omega
      · exact below g hg

theorem signed_cons {g : Nat} (h : rest ≠ []) : signed (g :: rest) = g + 128 * signed rest := by
  cases rest with
  | nil => exact absurd rfl h
  | cons g' rest => rfl

/-- As long as not all groups are used up, the last one has the sign. -/
theorem signed_ofInt {v : Int} (h : (ofInt more v).length ≤ more) : signed (ofInt more v) = v := by
  induction more generalizing v with
  | zero => simp [ofInt] at h
  | succ more ih =>
    rw [ofInt] at h ⊢
    split at h
    next near =>
      simp only [Bool.and_eq_true, decide_eq_true_eq] at near
      rw [if_pos (by simpa using near), signed]
      split <;> omega
    next far =>
      rw [if_neg far, signed_cons (ofInt_ne_nil _ _), ih (by simpa using h)]
      omega

/-- Groups without a sign hold an integer up to a power of 128. -/
theorem dvd_sub_value_ofInt (more : Nat) (v : Int) :
    (128 : Int) ^ (ofInt more v).length ∣ v - Reader.groupsValue (ofInt more v) := by
  have single : (128 : Int) ^ 1 ∣ v - Reader.groupsValue [(v % 128).toNat] := by
    simp only [Reader.groupsValue, List.foldr]
    omega
  induction more generalizing v with
  | zero => exact single
  | succ more ih =>
    rw [ofInt]
    split
    · exact single
    · have rest : (128 : Int) ^ (ofInt more (v / 128)).length ∣
          v / 128 - Reader.groupsValue (ofInt more (v / 128)) := by
        apply ih
        simp only [Reader.groupsValue, List.foldr]
        omega
      have split : v - (Reader.groupsValue ((v % 128).toNat :: ofInt more (v / 128)) : Int) =
          128 * (v / 128 - Reader.groupsValue (ofInt more (v / 128))) := by
        rw [value_cons]
        push_cast
        omega
      rw [split, List.length_cons, pow_succ']
      exact mul_dvd_mul_left 128 rest

/-- The sign is worth one unit beyond the highest group. -/
theorem signed_eq_value {groups : List Nat} (h : groups ≠ []) :
    signed groups = Reader.groupsValue groups -
      (if 64 ≤ groups.getLastD 0 then (128 : Int) ^ groups.length else 0) := by
  induction groups with
  | nil => exact absurd rfl h
  | cons g rest ih =>
    cases rest with
    | nil =>
      have value : Reader.groupsValue [g] = g := by simp [Reader.groupsValue]
      have last : [g].getLastD 0 = g := rfl
      rw [signed, value, last]
      split <;> simp
    | cons g' rest =>
      have last : (g :: g' :: rest).getLastD 0 = (g' :: rest).getLastD 0 := by simp
      rw [signed_cons (List.cons_ne_nil g' rest), ih (List.cons_ne_nil g' rest), value_cons g, last,
        List.length_cons (a := g), pow_succ']
      push_cast
      split <;> ring

theorem signedValue_eq_signed {groups : List Nat} (h : groups ≠ []) (short : groups.length < 5) :
    Reader.signedValue groups = signed groups := by
  rw [signed_eq_value h, Reader.signedValue]
  simp only [short, decide_true, Bool.true_and, decide_eq_true_eq]
  split
  · simp [Nat.pow_eq]
  · simp

theorem signed_bounds {groups : List Nat} (hlength : groups.length = count + 1)
    (h : ∀ g ∈ groups, g < 128) :
    -(64 * 128 ^ count) ≤ signed groups ∧ signed groups < 64 * 128 ^ count := by
  induction count generalizing groups with
  | zero =>
    obtain ⟨g, rfl⟩ := List.length_eq_one_iff.1 hlength
    have hg := h g (List.mem_singleton_self g)
    simp only [signed]
    split <;> omega
  | succ count ih =>
    obtain ⟨g, rest, rfl⟩ := List.exists_cons_of_length_eq_add_one hlength
    have hg := h g (.head _)
    have hrest : rest.length = count + 1 := by simpa using hlength
    obtain ⟨low, high⟩ := ih hrest fun x hx => h x (List.mem_cons_of_mem g hx)
    rw [signed_cons (List.ne_nil_of_length_eq_add_one hrest), pow_succ]
    omega

/-- An integer is written with as few groups as can hold it with its sign. -/
theorem length_ofInt_le {v : Int} (low : -(64 * 128 ^ count) ≤ v) (high : v < 64 * 128 ^ count) :
    (ofInt more v).length ≤ count + 1 := by
  induction more generalizing v count with
  | zero => simp [ofInt]
  | succ more ih =>
    rw [ofInt]
    split
    · simp
    next far =>
      simp only [Bool.and_eq_true, decide_eq_true_eq] at far
      cases count with
      | zero => omega
      | succ count =>
        rw [pow_succ] at low high
        have low' : -(64 * 128 ^ count) ≤ v / 128 := by omega
        have high' : v / 128 < 64 * 128 ^ count := by omega
        exact Nat.succ_le_succ (ih low' high')

end Groups

namespace Codec

open Groups

theorem ofInt_signedValue_ofInt (value : Int32) :
    Int32.ofInt (Reader.signedValue (Groups.ofInt 4 value.toInt)) = value := by
  obtain ⟨some, bound, -⟩ := fit_ofInt 4 value.toInt
  by_cases short : (Groups.ofInt 4 value.toInt).length ≤ 4
  · rw [signedValue_eq_signed some (by omega), signed_ofInt short, Int32.ofInt_toInt]
  · have full : (Groups.ofInt 4 value.toInt).length = 5 := by omega
    have same := dvd_sub_value_ofInt 4 value.toInt
    rw [full] at same
    have low := value.le_toInt
    have high := value.toInt_lt
    rw [Int32.ofInt_eq_iff_bmod_eq_toInt, Reader.signedValue, full]
    simp only [Nat.lt_irrefl, decide_false, Bool.false_and, Bool.false_eq_true, if_false]
    -- both sides differ by a multiple of 2 ^ 35, and the right one is in range
    rw [Int.bmod_def]
    split <;> omega

theorem s32 : Codec Reader.s32 Writer.s32 (fun _ => True) := by
  refine ((groupsWithin 5).via (fun found => Int32.ofInt (Reader.signedValue found))
    (fun value => Groups.ofInt 4 value.toInt) (fun value _ => ⟨fit_ofInt 4 _, ofInt_signedValue_ofInt value⟩)
    (fun found fit => ⟨trivial, ?_⟩)).congr (fun value => Iff.rfl) (fun value _ => (spell_ofInt _ _).symm)
  obtain ⟨some, bound, small⟩ := fit
  rw [length_spell, length_spell]
  by_cases short : found.length < 5
  · obtain ⟨count, hcount⟩ := Nat.exists_eq_succ_of_ne_zero (List.length_pos_iff.2 some).ne'
    obtain ⟨low, high⟩ := signed_bounds hcount small
    have range : (128 : Int) ^ count ≤ 128 ^ 3 := by
      exact_mod_cast Nat.pow_le_pow_right (by decide : 0 < 128) (by omega : count ≤ 3)
    rw [signedValue_eq_signed some short, Int32.toInt_ofInt_of_le (by omega) (by omega), hcount]
    exact length_ofInt_le low high
  · have five : found.length = 5 := by omega
    rw [five]
    exact (fit_ofInt 4 _).2.1

end Codec

end AbcBuild
