import Mathlib.Algebra.Order.Group.Nat

/-!
# memcpy and memmove

`lib/libc/memcpy.c` and `lib/libc/memmove.c` on the whole address space. All four loops
copy elements of some width, upwards or downwards; an element is read as a whole before
it is written.

What a loop has done after some of its turns is `moved`: part of the destination holds
the bytes that were at the source before the first turn. Going upwards, with the
destination below the source, the part that is written lies below what is still to be
read; going downwards, with the destination at or above the source, it lies above.
-/

namespace Os161.Memmove

open BitVec (ofNat ofNat_toNat setWidth_eq sub_sub toNat_ofNat toNat_sub)

abbrev AddressSpace := BitVec 32 → UInt8

variable {mem : AddressSpace} {dst src : BitVec 32} {len lo hi width i : Nat}

/-- `sizeof(long)`. -/
def sizeofLong : Nat := 4

def load (mem : AddressSpace) (p : BitVec 32) (j : Nat) : UInt8 :=
  mem (p + BitVec.ofNat 32 j)

def store (mem : AddressSpace) (p : BitVec 32) (width : Nat) (bytes : Nat → UInt8) :
    AddressSpace :=
  fun a => if (a - p).toNat < width then bytes (a - p).toNat else mem a

/-- `d[i] = s[i]`, for elements of `width` bytes. -/
def assign (dst src : BitVec 32) (width i : Nat) (mem : AddressSpace) : AddressSpace :=
  store mem (dst + BitVec.ofNat 32 (i * width)) width
    (load mem (src + BitVec.ofNat 32 (i * width)))

/-- `for (i=0; i<n; i++)`, with `count` turns left. -/
def copyUp (dst src : BitVec 32) (width : Nat) : (count i : Nat) → AddressSpace → AddressSpace
  | 0, _, mem => mem
  | count + 1, i, mem => copyUp dst src width count (i + 1) (assign dst src width i mem)

/-- `for (i=n; i>0; i--)`, from `i` on. -/
def copyDown (dst src : BitVec 32) (width : Nat) : (i : Nat) → AddressSpace → AddressSpace
  | 0, mem => mem
  | i + 1, mem => copyDown dst src width i (assign dst src width i mem)

/-- The test for copying by words. -/
def Aligned (dst src : BitVec 32) (len : Nat) : Prop :=
  dst.toNat % sizeofLong = 0 ∧ src.toNat % sizeofLong = 0 ∧ len % sizeofLong = 0

instance (dst src : BitVec 32) (len : Nat) : Decidable (Aligned dst src len) :=
  inferInstanceAs (Decidable (_ ∧ _))

/-- `memcpy`: what it returns, and the memory after it. -/
def memcpy (dst src : BitVec 32) (len : Nat) (mem : AddressSpace) : BitVec 32 × AddressSpace :=
  if Aligned dst src len then
    (dst, copyUp dst src sizeofLong (len / sizeofLong) 0 mem)
  else
    (dst, copyUp dst src 1 len 0 mem)

/-- `memmove`: what it returns, and the memory after it. -/
def memmove (dst src : BitVec 32) (len : Nat) (mem : AddressSpace) : BitVec 32 × AddressSpace :=
  if dst.toNat < src.toNat then
    memcpy dst src len mem
  else if Aligned dst src len then
    (dst, copyDown dst src sizeofLong (len / sizeofLong) mem)
  else
    (dst, copyDown dst src 1 len mem)

/-! ## The loops -/

/-- The memory with the bytes from `lo` to `hi` of the destination replaced by those that
belong there. -/
def moved (dst src : BitVec 32) (lo hi : Nat) (mem : AddressSpace) : AddressSpace :=
  fun a => if lo ≤ (a - dst).toNat ∧ (a - dst).toNat < hi then mem (src + (a - dst)) else mem a

theorem moved_of_le (nothing : hi ≤ lo) : moved dst src lo hi mem = mem := by
  funext a
  exact if_neg (by omega)

/-- What an assignment does to a byte, by its offset in the destination. -/
theorem assign_apply (fits : (i + 1) * width ≤ 2 ^ 32) (a : BitVec 32) :
    assign dst src width i mem a =
      if i * width ≤ (a - dst).toNat ∧ (a - dst).toNat < (i + 1) * width then
        mem (src + (a - dst))
      else mem a := by
  have inElement : (a - (dst + ofNat 32 (i * width))).toNat < width ↔
      i * width ≤ (a - dst).toNat ∧ (a - dst).toNat < (i + 1) * width := by
    rw [← sub_sub, toNat_sub, toNat_ofNat]
    rw [Nat.add_mul] at fits ⊢
    generalize i * width = start at fits ⊢
    by_cases top : start < 2 ^ 32
    · rw [Nat.mod_eq_of_lt top]
      omega
    · omega
  have sameByte : src + ofNat 32 (i * width) +
      ofNat 32 (a - (dst + ofNat 32 (i * width))).toNat = src + (a - dst) := by
    rw [ofNat_toNat, setWidth_eq, ← sub_sub, BitVec.add_assoc,
      BitVec.add_comm (ofNat 32 (i * width)), BitVec.sub_add_cancel]
  simp only [assign, store, load, inElement, sameByte]

/-- One more element, when the bytes of it at the source are still those of the start. -/
theorem assign_moved (fits : (i + 1) * width ≤ 2 ^ 32)
    (unread : ∀ k, i * width ≤ k → k < (i + 1) * width →
      moved dst src lo hi mem (src + ofNat 32 k) = mem (src + ofNat 32 k))
    (a : BitVec 32) :
    assign dst src width i (moved dst src lo hi mem) a =
      if i * width ≤ (a - dst).toNat ∧ (a - dst).toNat < (i + 1) * width then
        mem (src + (a - dst))
      else moved dst src lo hi mem a := by
  rw [assign_apply fits]
  split
  · rename_i inElement
    have still := unread (a - dst).toNat inElement.1 inElement.2
    rwa [ofNat_toNat, setWidth_eq] at still
  · rfl

/-- The offset in the destination of a byte of the source. -/
theorem source_offset (dst : BitVec 32) (srcFits : src.toNat + len ≤ 2 ^ 32) {k : Nat}
    (inside : k < len) :
    (src + ofNat 32 k - dst).toNat =
      if dst.toNat ≤ src.toNat + k then src.toNat + k - dst.toNat
      else 2 ^ 32 + src.toNat + k - dst.toNat := by
  rw [toNat_sub, BitVec.toNat_add, toNat_ofNat]
  split <;> omega

theorem assign_up (below : dst.toNat < src.toNat) (srcFits : src.toNat + len ≤ 2 ^ 32)
    (fits : (i + 1) * width ≤ len) :
    assign dst src width i (moved dst src 0 (i * width) mem) =
      moved dst src 0 ((i + 1) * width) mem := by
  have grows : i * width ≤ (i + 1) * width := Nat.mul_le_mul_right _ (Nat.le_succ i)
  funext a
  rw [assign_moved (by omega)]
  · simp only [moved]
    split_ifs <;> first | rfl | omega
  · intro k behind inside
    have offset := source_offset dst srcFits (lt_of_lt_of_le inside fits)
    rw [if_pos (by omega)] at offset
    exact if_neg (by omega)

theorem assign_down (above : src.toNat ≤ dst.toNat) (dstFits : dst.toNat + len ≤ 2 ^ 32)
    (srcFits : src.toNat + len ≤ 2 ^ 32) (fits : (i + 1) * width ≤ len) :
    assign dst src width i (moved dst src ((i + 1) * width) len mem) =
      moved dst src (i * width) len mem := by
  have grows : i * width ≤ (i + 1) * width := Nat.mul_le_mul_right _ (Nat.le_succ i)
  funext a
  rw [assign_moved (by omega)]
  · simp only [moved]
    split_ifs <;> first | rfl | omega
  · -- below the destination the offset wraps around and is too large
    intro k behind inside
    have offset := source_offset dst srcFits (lt_of_lt_of_le inside fits)
    apply if_neg
    split at offset <;> omega

theorem copyUp_eq (mem : AddressSpace) (below : dst.toNat < src.toNat)
    (srcFits : src.toNat + len ≤ 2 ^ 32) (width count i : Nat) (fits : (i + count) * width ≤ len) :
    copyUp dst src width count i (moved dst src 0 (i * width) mem) =
      moved dst src 0 ((i + count) * width) mem := by
  induction count generalizing i with
  | zero => rfl
  | succ count ih =>
      have next : i + 1 + count = i + (count + 1) := by omega
      have turn : (i + 1) * width ≤ (i + (count + 1)) * width :=
        Nat.mul_le_mul_right _ (by omega)
      rw [copyUp, assign_up below srcFits (turn.trans fits), ih (i + 1) (by rwa [next]), next]

theorem copyDown_eq (mem : AddressSpace) (above : src.toNat ≤ dst.toNat)
    (dstFits : dst.toNat + len ≤ 2 ^ 32) (srcFits : src.toNat + len ≤ 2 ^ 32) (width i : Nat)
    (fits : i * width ≤ len) :
    copyDown dst src width i (moved dst src (i * width) len mem) = moved dst src 0 len mem := by
  induction i with
  | zero => simp [copyDown]
  | succ i ih =>
      have turn : i * width ≤ (i + 1) * width := Nat.mul_le_mul_right _ (Nat.le_succ i)
      rw [copyDown, assign_down above dstFits srcFits fits, ih (turn.trans fits)]

/-! ## The functions -/

theorem words_eq (aligned : Aligned dst src len) : len / sizeofLong * sizeofLong = len :=
  Nat.div_mul_cancel (Nat.dvd_of_mod_eq_zero aligned.2.2)

/-- `memcpy` copies upwards, so it can be used for a destination below the source. -/
theorem memcpy_eq (below : dst.toNat < src.toNat) (srcFits : src.toNat + len ≤ 2 ^ 32) :
    memcpy dst src len mem = (dst, moved dst src 0 len mem) := by
  have loop (width count : Nat) (all : count * width = len) :
      copyUp dst src width count 0 mem = moved dst src 0 len mem := by
    have run := copyUp_eq mem below srcFits width count 0 (by simp [all])
    rwa [moved_of_le (by simp), Nat.zero_add, all] at run
  rw [memcpy]
  split
  · rename_i aligned
    rw [loop _ _ (words_eq aligned)]
  · rw [loop _ _ (Nat.mul_one len)]

theorem memmove_eq (dstFits : dst.toNat + len ≤ 2 ^ 32) (srcFits : src.toNat + len ≤ 2 ^ 32) :
    memmove dst src len mem = (dst, moved dst src 0 len mem) := by
  rw [memmove]
  split
  · rename_i below
    exact memcpy_eq below srcFits
  · rename_i above
    have loop (width count : Nat) (all : count * width = len) :
        copyDown dst src width count mem = moved dst src 0 len mem := by
      have run := copyDown_eq mem (by omega) dstFits srcFits width count all.le
      rwa [moved_of_le all.ge] at run
    split
    · rename_i aligned
      rw [loop _ _ (words_eq aligned)]
    · rw [loop _ _ (Nat.mul_one len)]

/-- **`memmove` handles every overlap and alignment.** The destination holds the bytes that the
source held before the call, and no other byte changes. -/
theorem memmove_moves (mem : AddressSpace) (dst src : BitVec 32) (len : Nat)
    (dstFits : dst.toNat + len ≤ 2 ^ 32) (srcFits : src.toNat + len ≤ 2 ^ 32) :
    (memmove dst src len mem).1 = dst ∧
    (∀ i < len, (memmove dst src len mem).2 (dst + BitVec.ofNat 32 i) =
      mem (src + BitVec.ofNat 32 i)) ∧
    ∀ a, (∀ i < len, a ≠ dst + BitVec.ofNat 32 i) → (memmove dst src len mem).2 a = mem a := by
  rw [memmove_eq dstFits srcFits]
  refine ⟨rfl, ?_, ?_⟩
  · intro i inside
    have offset : dst + BitVec.ofNat 32 i - dst = BitVec.ofNat 32 i := by
      rw [BitVec.add_comm, BitVec.add_sub_cancel]
    have small : (BitVec.ofNat 32 i).toNat = i := by
      rw [BitVec.toNat_ofNat]
      omega
    simp [moved, offset, small, inside]
  · intro a outside
    apply if_neg
    rintro ⟨_, inside⟩
    apply outside _ inside
    rw [BitVec.ofNat_toNat, BitVec.setWidth_eq, BitVec.add_comm, BitVec.sub_add_cancel]

/-- Eight bytes to an address four above and four below theirs, by words, and one above, by
bytes. -/
theorem memmove_moves_overlapping :
    (memmove 0x1004 0x1000 8 fun a => UInt8.ofNat a.toNat).2 0x100b = 0x07 ∧
    (memmove 0x1000 0x1004 8 fun a => UInt8.ofNat a.toNat).2 0x1000 = 0x04 ∧
    (memmove 0x1001 0x1000 8 fun a => UInt8.ofNat a.toNat).2 0x1000 = 0x00 := by
  refine ⟨?_, ?_, ?_⟩
  · exact (memmove_moves _ 0x1004 0x1000 8 (by decide) (by decide)).2.1 7 (by decide)
  · exact (memmove_moves _ 0x1000 0x1004 8 (by decide) (by decide)).2.1 0 (by decide)
  · exact (memmove_moves _ 0x1001 0x1000 8 (by decide) (by decide)).2.2 0x1000 (by decide)

end Os161.Memmove
