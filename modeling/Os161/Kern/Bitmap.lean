import Mathlib.Tactic.IntervalCases
import Os161.Kern.Uio

/-!
# Bitmaps

`kern/lib/bitmap.c`. The bits are kept in bytes because the data of a bitmap is
also written to disk. `bitmap_alloc` looks for a byte that is not full and then
for the first clear bit in it.

`Bitmap.isset` is what a bitmap is about, and the lemmas say what each operation
does to it.
-/

namespace Os161

/-- `struct bitmap`. -/
structure Bitmap where
  nbits : Nat
  v : Bytes

namespace Bitmap

/-- `DIVROUNDUP(nbits, BITS_PER_WORD)`. -/
def words (nbits : Nat) : Nat :=
  uint32 (nbits + 8 - 1) / 8

/-- `((WORD_TYPE)1) << offset`. -/
def mask (offset : Nat) : UInt8 :=
  1 <<< UInt8.ofNat offset

/-- `bitmap_translate`. -/
def bitmapTranslate (bitno : Nat) : Nat × UInt8 :=
  (bitno / 8, mask (bitno % 8))

/-- `bitmap_isset`. -/
def isset (b : Bitmap) (index : Nat) : Bool :=
  let (ix, mask) := bitmapTranslate index
  b.v ix &&& mask != 0

/-- `b->v[ix] |= mask`. -/
def set (b : Bitmap) (index : Nat) : Bitmap :=
  let (ix, mask) := bitmapTranslate index
  { b with v := Function.update b.v ix (b.v ix ||| mask) }

/-- `b->v[ix] &= ~mask`. -/
def clear (b : Bitmap) (index : Nat) : Bitmap :=
  let (ix, mask) := bitmapTranslate index
  { b with v := Function.update b.v ix (b.v ix &&& ~~~mask) }

/-- `bitmap_create`; the bits of the last byte that are not part of the map are marked. -/
def bitmapCreate (nbits : Nat) : HeapM (Option Bitmap) := do
  let words := words nbits
  if !(← kmalloc) then
    pure none
  else if !(← kmalloc) then
    pure none
  else if nbits / 8 < words then
    let ix := words - 1
    let overbits := uint32 (nbits - ix * 8)
    assert .bitmapIndex (nbits / 8 = words - 1)
    assert .bitmapIndex (0 < overbits ∧ overbits < 8)
    pure (some ((List.range' overbits (8 - overbits)).foldl (fun b j => b.set (ix * 8 + j))
      { nbits, v := fun _ => 0 }))
  else
    pure (some { nbits, v := fun _ => 0 })

abbrev BitmapM := Prog Panic Bitmap Errno

/-- `bitmap_alloc`. -/
def bitmapAlloc : BitmapM Nat := do
  let b ← get
  match (List.range (words b.nbits)).find? (fun ix => b.v ix ≠ 0xff) with
  | none => fail .enospc
  | some ix =>
      match (List.range 8).find? (fun offset => b.v ix &&& mask offset = 0) with
      | none => halt .bitmapAlloc
      | some offset =>
          let index := ix * 8 + offset
          modify fun b => b.set index
          assert .bitmapIndex (index < b.nbits)
          pure index

/-- `bitmap_mark`. -/
def bitmapMark (index : Nat) : BitmapM Unit := do
  let b ← get
  assert .bitmapIndex (index < b.nbits)
  assert .bitmapMark (b.isset index = false)
  modify fun b => b.set index

/-- `bitmap_unmark`. -/
def bitmapUnmark (index : Nat) : BitmapM Unit := do
  let b ← get
  assert .bitmapIndex (index < b.nbits)
  assert .bitmapUnmark (b.isset index = true)
  modify fun b => b.clear index

/-! ## The bits -/

theorem toBitVec_mask {offset : Nat} (inside : offset < 8) :
    (mask offset).toBitVec = BitVec.twoPow 8 offset := by
  interval_cases offset <;> rfl

theorem and_mask_ne_zero (byte : UInt8) {offset : Nat} (inside : offset < 8) :
    byte &&& mask offset ≠ 0 ↔ byte.toBitVec.getLsbD offset = true := by
  have nonzero : BitVec.twoPow 8 offset ≠ 0#8 := by
    interval_cases offset <;> decide
  rw [ne_eq, ← UInt8.toBitVec_inj, UInt8.toBitVec_and, toBitVec_mask inside, BitVec.and_twoPow]
  split <;> simp_all

theorem isset_eq (b : Bitmap) (index : Nat) :
    b.isset index = (b.v (index / 8)).toBitVec.getLsbD (index % 8) := by
  have inside : index % 8 < 8 := Nat.mod_lt _ (by decide)
  rw [Bool.eq_iff_iff, ← and_mask_ne_zero _ inside]
  simp only [isset, bitmapTranslate, bne_iff_ne]

theorem ne_of_same_byte {first second : Nat} (sameByte : first / 8 = second / 8) :
    first % 8 = second % 8 ↔ first = second := by
  omega

@[simp]
theorem isset_set (b : Bitmap) (index other : Nat) :
    (b.set index).isset other = (decide (other = index) || b.isset other) := by
  have inside : index % 8 < 8 := Nat.mod_lt _ (by decide)
  rw [isset_eq, isset_eq]
  simp only [set, bitmapTranslate]
  by_cases sameByte : other / 8 = index / 8
  · rw [sameByte, update_self, UInt8.toBitVec_or, toBitVec_mask inside,
      BitVec.getLsbD_or, BitVec.getLsbD_twoPow, Bool.or_comm]
    congr 1
    simp [inside, eq_comm, ne_of_same_byte sameByte.symm]
  · have different : other ≠ index := by
      rintro rfl
      exact sameByte rfl
    rw [update_of_ne sameByte]
    simp [different]

@[simp]
theorem isset_clear (b : Bitmap) (index other : Nat) :
    (b.clear index).isset other = (decide (other ≠ index) && b.isset other) := by
  have inside : index % 8 < 8 := Nat.mod_lt _ (by decide)
  have otherInside : other % 8 < 8 := Nat.mod_lt _ (by decide)
  rw [isset_eq, isset_eq]
  simp only [clear, bitmapTranslate]
  by_cases sameByte : other / 8 = index / 8
  · rw [sameByte, update_self, UInt8.toBitVec_and, UInt8.toBitVec_not, toBitVec_mask inside,
      BitVec.getLsbD_and, BitVec.getLsbD_not, BitVec.getLsbD_twoPow, Bool.and_comm]
    congr 1
    simp [inside, otherInside, eq_comm, ne_of_same_byte sameByte.symm]
  · have different : other ≠ index := by
      rintro rfl
      exact sameByte rfl
    rw [update_of_ne sameByte]
    simp [different]

@[simp]
theorem nbits_set (b : Bitmap) (index : Nat) : (b.set index).nbits = b.nbits := rfl

@[simp]
theorem nbits_clear (b : Bitmap) (index : Nat) : (b.clear index).nbits = b.nbits := rfl

/-! ## Allocation -/

theorem eq_full_iff (byte : UInt8) :
    byte = 0xff ↔ ∀ offset < 8, byte.toBitVec.getLsbD offset = true := by
  constructor
  · rintro rfl
    decide
  · intro all
    apply UInt8.toBitVec_inj.mp
    apply BitVec.eq_of_getLsbD_eq
    intro offset inside
    rw [all offset inside]
    interval_cases offset <;> rfl

/-- The bits of the last byte that are not part of the map are set. -/
def Padded (b : Bitmap) : Prop :=
  ∀ index, b.nbits ≤ index → index < words b.nbits * 8 → b.isset index = true

theorem words_eq {nbits : Nat} (small : nbits < 2 ^ 32 - 7) : words nbits = (nbits + 7) / 8 := by
  rw [words, uint32_eq (by omega) (by omega)]
  congr 1
  omega

theorem le_words {nbits : Nat} (small : nbits < 2 ^ 32 - 7) : nbits ≤ words nbits * 8 := by
  rw [words_eq small]
  omega

theorem bitmapAlloc_spec {b : Bitmap} (small : b.nbits < 2 ^ 32 - 7) (padded : b.Padded) :
    Ensures bitmapAlloc b (fun _ => False)
      (fun failure b' => failure = .enospc ∧ b' = b ∧ ∀ index < b.nbits, b.isset index = true)
      (fun index b' => index < b.nbits ∧ b.isset index = false ∧
        (∀ earlier < index, b.isset earlier = true) ∧ b' = b.set index) := by
  have full : ∀ ix, b.v ix = 0xff → ∀ offset < 8, b.isset (ix * 8 + offset) = true := by
    intro ix byteEq offset inside
    rw [isset_eq, show (ix * 8 + offset) / 8 = ix by omega,
      show (ix * 8 + offset) % 8 = offset by omega]
    exact (eq_full_iff _).mp byteEq offset inside
  have clear_iff : ∀ ix, ∀ offset < 8,
      b.v ix &&& mask offset = 0 ↔ b.isset (ix * 8 + offset) = false := by
    intro ix offset inside
    rw [isset_eq, show (ix * 8 + offset) / 8 = ix by omega,
      show (ix * 8 + offset) % 8 = offset by omega, ← Bool.not_eq_true,
      ← and_mask_ne_zero _ inside, ne_eq, not_not]
  simp only [bitmapAlloc, ensures_bind, ensures_get]
  cases byteFound : (List.range (words b.nbits)).find? (fun ix => b.v ix ≠ 0xff) with
  | none =>
      rw [ensures_fail]
      refine ⟨rfl, rfl, ?_⟩
      intro index inside
      have byteEq := List.find?_range_eq_none.mp byteFound (index / 8) (by
        rw [words_eq small]
        omega)
      have bit := full (index / 8) (by simpa using byteEq) (index % 8) (Nat.mod_lt _ (by decide))
      rwa [Nat.div_add_mod'] at bit
  | some ix =>
      rcases List.find?_range_eq_some.mp byteFound with ⟨notFull, ixInside, before⟩
      simp only [ne_eq, decide_not, Bool.not_eq_true', decide_eq_false_iff_not] at notFull
      have ixInside := mem_range.mp ixInside
      dsimp only
      cases bitFound : (List.range 8).find? (fun offset => b.v ix &&& mask offset = 0) with
      | none =>
          refine absurd ((eq_full_iff _).mpr ?_) notFull
          intro offset inside
          have set := List.find?_range_eq_none.mp bitFound offset inside
          rw [← and_mask_ne_zero _ inside]
          simpa using set
      | some offset =>
          rcases List.find?_range_eq_some.mp bitFound with ⟨isClear, offsetInside, earlierSet⟩
          have offsetInside := mem_range.mp offsetInside
          have free := (clear_iff ix offset offsetInside).mp (by simpa using isClear)
          have inside : ix * 8 + offset < b.nbits := by
            by_contra outside
            have marked := padded (ix * 8 + offset) (by omega) (by omega)
            rw [free] at marked
            cases marked
          simp only [ensures_bind, ensures_modify, ensures_assert_of inside, ensures_pure]
          refine ⟨inside, free, ?_, trivial⟩
          intro earlier isEarlier
          by_cases sameByte : earlier / 8 = ix
          · have set := earlierSet (earlier % 8) (by omega)
            have bit := (clear_iff ix (earlier % 8) (Nat.mod_lt _ (by decide))).not.mp
              (by simpa using set)
            rwa [← sameByte, Nat.div_add_mod', Bool.not_eq_false] at bit
          · have byteEq := before (earlier / 8) (by omega)
            have bit := full (earlier / 8) (by simpa using byteEq) (earlier % 8)
              (Nat.mod_lt _ (by decide))
            rwa [Nat.div_add_mod'] at bit

theorem bitmapUnmark_spec {b : Bitmap} {index : Nat} (inside : index < b.nbits)
    (marked : b.isset index = true) :
    Ensures (bitmapUnmark index) b (fun _ => False) (fun _ _ => False)
      (fun _ b' => b' = b.clear index) := by
  simp [bitmapUnmark, ensures_assert_of inside, ensures_assert_of marked]

end Bitmap

end Os161
