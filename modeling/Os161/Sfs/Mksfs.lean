import Os161.Kern.BitmapRuns
import Os161.Sfs.FileMap

/-!
# The freemap that mksfs writes

`sbin/mksfs/mksfs.c` marks the blocks in use in a buffer of its own and writes that
buffer to the blocks of the freemap; `sfs_mapio` reads them into the bitmap of the
volume when it is mounted, and `sfs_balloc` hands out blocks from there.

The two programs agree on the bits. `SFS_BITMAPSIZE` is computed with 32 bits, though:
for a device of more than `2 ^ 32 - 4096` blocks it is zero. Such a device passes the
test against `MAXBITBLOCKS`, nothing is written, and the mounted volume has a freemap
without bits, in which `sfs_balloc` finds no block.
-/

namespace Os161

open SfsM Bitmap

namespace Mksfs

/-! ## mksfs -/

/-- `MAXBITBLOCKS`. -/
def maxbitblocks : Nat := 32

/-- The buffer `bitbuf` and the disk. -/
structure State where
  bitbuf : Bytes
  disk : Nat → Block

/-- The assertion of `doallocbit`, and a write outside of `bitbuf`. -/
inductive Fault where
  | allocated
  | outside

/-- The call of `errx` in `writebitmap`. -/
inductive Exit where
  | tooLarge

abbrev MksfsM := Prog Fault State Exit

/-- `doallocbit`. -/
def doallocbit (bit : Nat) : MksfsM Unit := do
  let byte := bit / 8
  let mask : UInt8 := 1 <<< UInt8.ofNat (bit % 8)
  let s ← get
  assert .outside (byte < maxbitblocks * blockSize)
  assert .allocated (s.bitbuf byte &&& mask = 0)
  modify fun s => { s with bitbuf := Function.update s.bitbuf byte (s.bitbuf byte ||| mask) }

/-- A loop of `writebitmap` around `doallocbit`, with `count` bits left. -/
def allocLoop : (count bit : Nat) → MksfsM Unit
  | 0, _ => pure ()
  | count + 1, bit => do
      doallocbit bit
      allocLoop count (bit + 1)

def diskwrite (ptr : Bytes) (block : Nat) : MksfsM Unit :=
  modify fun s => { s with disk := Function.update s.disk block (Block.ofBytes ptr) }

/-- The loop of `writebitmap` around `diskwrite`, with `count` blocks left. -/
def writeLoop : (count i : Nat) → MksfsM Unit
  | 0, _ => pure ()
  | count + 1, i => do
      let s ← get
      diskwrite (fun k => s.bitbuf (i * blockSize + k)) (sfsMapLocation + i)
      writeLoop count (i + 1)

/-- `writebitmap`. -/
def writebitmap (fsblocks : Nat) : MksfsM Unit := do
  let nbits := sfsBitmapsize fsblocks
  let nblocks := sfsBitblocks fsblocks
  if maxbitblocks < nblocks then
    fail .tooLarge
  else
    doallocbit sfsSbLocation
    doallocbit sfsRootLocation
    allocLoop nblocks sfsMapLocation
    allocLoop (nbits - fsblocks) fsblocks
    writeLoop nblocks 0

/-! ## The mount -/

section Mount

variable {δ : Type} (dev : Device δ)

/-- One call of `sfs_balloc` after the other. -/
def sfsBallocs : (count : Nat) → SfsM δ (List Nat)
  | 0 => pure []
  | count + 1 => do
      let block ← sfsBalloc dev
      let blocks ← sfsBallocs count
      pure (block :: blocks)

/-- What is seen of a volume: its freemap, the blocks allocated, and what happens next. -/
structure Observed where
  freemap : Bitmap
  blocks : List Nat
  next : Except Errno Nat

/-- Read the freemap, allocate `count` blocks and try once more. -/
def observe (count : Nat) : SfsM δ Observed := do
  sfsDomountFreemap dev
  let sfs ← get
  let blocks ← sfsBallocs dev count
  let next ← attempt (sfsBalloc dev)
  pure { freemap := sfs.sfsFreemap, blocks, next }

end Mount

/-- The blocks that are not free on a new volume of `n` blocks, and the bits behind its end. -/
def Reserved (n i : Nat) : Prop :=
  i = sfsSbLocation ∨ i = sfsRootLocation ∨
    (sfsMapLocation ≤ i ∧ i < sfsMapLocation + sfsBitblocks n) ∨ (n ≤ i ∧ i < sfsBitmapsize n)

/-- The number of blocks that are free on a new volume. -/
def freeBlocks (n : Nat) : Nat :=
  n - sfsMapLocation - sfsBitblocks n

/-- The freemap has the bits of `Reserved`; the free blocks are handed out in order, and then
there is no space. -/
structure Right (n : Nat) (observed : Observed) : Prop where
  bits : ∀ i, i < observed.freemap.nbits ∧ observed.freemap.isset i = true ↔ Reserved n i
  blocks : observed.blocks = List.range' (sfsMapLocation + sfsBitblocks n) (freeBlocks n)
  next : observed.next = .error .enospc

variable {n bit : Nat} {s : State}

/-! ## Sizes -/

theorem sfsBitmapsize_eq (n : Nat) : sfsBitmapsize n = (n + 4095) % 2 ^ 32 / 4096 * 4096 := by
  have bits : (n : Int) + (sfsBlockbits : Nat) - 1 = (n + 4095 : Nat) := by
    simp only [sfsBlockbits, blockSize]
    omega
  have whole : (((n + 4095) % 2 ^ 32 : Nat) : Int) / (sfsBlockbits : Nat) *
      (sfsBlockbits : Nat) = ((n + 4095) % 2 ^ 32 / 4096 * 4096 : Nat) := by
    simp only [sfsBlockbits, blockSize]
    omega
  rw [sfsBitmapsize, bits, uint32_natCast, whole, uint32_natCast]
  omega

theorem sfsBitblocks_eq (n : Nat) : sfsBitblocks n = (n + 4095) % 2 ^ 32 / 4096 := by
  rw [sfsBitblocks, sfsBitmapsize_eq, show sfsBlockbits = 4096 from rfl]
  omega

/-! ## The bits in the buffer -/

def State.bits (s : State) : Bitmap :=
  { nbits := 0, v := s.bitbuf }

theorem doallocbit_spec (inside : bit < 131072) (isClear : s.bits.isset bit = false) :
    Ensures (doallocbit bit) s (fun _ => False) (fun _ _ => False)
      (fun _ s' => s'.bits = s.bits.set bit ∧ s'.disk = s.disk) := by
  have inBuffer : bit / 8 < maxbitblocks * blockSize := by
    simp only [maxbitblocks, blockSize]
    omega
  have free : s.bitbuf (bit / 8) &&& (1 <<< UInt8.ofNat (bit % 8)) = 0 := by
    simpa [State.bits, isset, bitmapTranslate, mask] using isClear
  simp only [doallocbit, ensures_bind, ensures_get, ensures_assert_of inBuffer,
    ensures_assert_of free, ensures_modify]
  exact ⟨rfl, trivial⟩

theorem allocLoop_spec (count : Nat) {bit : Nat} {s : State}
    (free : ∀ i, bit ≤ i → i < bit + count → i < 131072 ∧ s.bits.isset i = false) :
    Ensures (allocLoop count bit) s (fun _ => False) (fun _ _ => False)
      (fun _ s' => s'.disk = s.disk ∧ ∀ i, s'.bits.isset i = true ↔
        s.bits.isset i = true ∨ (bit ≤ i ∧ i < bit + count)) := by
  induction count generalizing bit s with
  | zero =>
      simp only [allocLoop, ensures_pure]
      refine ⟨trivial, fun i => ⟨Or.inl, ?_⟩⟩
      rintro (held | impossible)
      · exact held
      · omega
  | succ count ih =>
      have first := free bit le_rfl (by omega)
      rw [allocLoop, ensures_bind]
      apply (doallocbit_spec first.1 first.2).total
      rintro _ s₁ ⟨bitsEq, diskEq⟩
      have free₁ : ∀ i, bit + 1 ≤ i → i < bit + 1 + count →
          i < 131072 ∧ s₁.bits.isset i = false := by
        intro i above below
        have clear := free i (by omega) (by omega)
        refine ⟨clear.1, ?_⟩
        simp [bitsEq, clear.2]
        omega
      apply (ih free₁).total
      rintro _ s₂ ⟨diskEq₂, bits₂⟩
      refine ⟨diskEq₂.trans diskEq, fun i => ?_⟩
      rw [bits₂, bitsEq]
      simp only [isset_set, Bool.or_eq_true, decide_eq_true_eq]
      constructor
      · rintro ((rfl | held) | range)
        · exact Or.inr (by omega)
        · exact Or.inl held
        · exact Or.inr (by omega)
      · rintro (held | range)
        · exact Or.inl (Or.inr held)
        · by_cases here : i = bit
          · exact Or.inl (Or.inl here)
          · exact Or.inr (by omega)

theorem writeLoop_spec (count : Nat) {i : Nat} {s : State} :
    Ensures (writeLoop count i) s (fun _ => False) (fun _ _ => False)
      (fun _ s' => ∀ j, s'.disk (sfsMapLocation + j) = if i ≤ j ∧ j < i + count then
        Block.ofBytes fun k => s.bitbuf (j * blockSize + k) else s.disk (sfsMapLocation + j)) := by
  induction count generalizing i s with
  | zero =>
      simp only [writeLoop, ensures_pure]
      intro j
      rw [if_neg (by omega)]
  | succ count ih =>
      simp only [writeLoop, diskwrite, ensures_bind, ensures_get, ensures_modify]
      apply ih.total
      intro _ s' written j
      rw [written j]
      by_cases here : j = i
      · simp [here]
      · have elsewhere : sfsMapLocation + j ≠ sfsMapLocation + i := by omega
        simp only [update_of_ne elsewhere]
        split_ifs <;> first | rfl | omega

/-- The blocks of the freemap hold the bits of `Reserved`. -/
def Formatted (n : Nat) (disk : Nat → Block) : Prop :=
  ∃ v : Bytes, (∀ i, Bitmap.isset { nbits := 0, v } i = true ↔ Reserved n i) ∧
    ∀ j < sfsBitblocks n, disk (sfsMapLocation + j) =
      Block.ofBytes fun k => v (j * blockSize + k)

/-- `writebitmap` completes: no bit is allocated twice, and none is outside the buffer. -/
theorem writebitmap_spec (fits : sfsBitblocks n ≤ maxbitblocks)
    (room : sfsMapLocation + sfsBitblocks n ≤ n) (disk : Nat → Block) :
    Ensures (writebitmap n) { bitbuf := fun _ => 0, disk } (fun _ => False) (fun _ _ => False)
      (fun _ s' => Formatted n s'.disk) := by
  have blocksEq := sfsBitblocks_eq n
  have sizeEq := sfsBitmapsize_eq n
  simp only [maxbitblocks] at fits
  simp only [sfsMapLocation] at room
  rw [writebitmap]
  simp only [ensures_ite]
  rw [if_neg (by simp only [maxbitblocks]; omega), ensures_bind]
  have superInside : sfsSbLocation < 131072 := by decide
  have superClear : (State.bits { bitbuf := fun _ => 0, disk }).isset sfsSbLocation = false :=
    isset_zero ..
  apply (doallocbit_spec superInside superClear).total
  rintro _ s₁ ⟨bits₁, disk₁⟩
  rw [ensures_bind]
  have super : ∀ i, s₁.bits.isset i = true ↔ i = 0 := by
    intro i
    rw [bits₁]
    simp [State.bits, isset_zero, sfsSbLocation]
  have rootClear : s₁.bits.isset sfsRootLocation = false := by
    rw [← Bool.not_eq_true, super]
    decide
  apply (doallocbit_spec (by decide) rootClear).total
  rintro _ s₂ ⟨bits₂, disk₂⟩
  have system : ∀ i, s₂.bits.isset i = true ↔ i = 0 ∨ i = 1 := by
    intro i
    rw [bits₂]
    simp only [isset_set, Bool.or_eq_true, decide_eq_true_eq, super, sfsRootLocation]
    omega
  rw [ensures_bind]
  refine (allocLoop_spec _ fun i above below => ⟨?_, ?_⟩).total ?_
  · simp only [sfsMapLocation] at below
    omega
  · rw [← Bool.not_eq_true, system]
    simp only [sfsMapLocation] at above
    omega
  rintro _ s₃ ⟨disk₃, bits₃⟩
  rw [ensures_bind]
  refine (allocLoop_spec _ fun i above below => ⟨?_, ?_⟩).total ?_
  · omega
  · rw [← Bool.not_eq_true, bits₃, system]
    simp only [sfsMapLocation]
    omega
  rintro _ s₄ ⟨disk₄, bits₄⟩
  apply (writeLoop_spec _).total
  intro _ s₅ written
  refine ⟨s₄.bitbuf, ?_, ?_⟩
  · intro i
    have held := bits₄ i
    rw [bits₃, system] at held
    refine held.trans ?_
    simp only [Reserved, sfsSbLocation, sfsRootLocation, sfsMapLocation]
    omega
  · intro j inside
    rw [written j, if_pos (by omega)]

/-! ## The mounted volume -/

section Volume

variable {δ : Type} {dev : Device δ} {content : δ → Nat → Block} {s : Sfs δ} {first last : Nat}

theorem sfsMapioLoop_read (works : dev.Works content) (todo : Nat) {j : Nat} {s : Sfs δ}
    (inside : ∀ k < j + todo, sfsMapLocation + k < dev.dBlocks ∧ sfsMapLocation + k < 2 ^ 22) :
    Ensures (sfsMapioLoop dev .read todo j) s (fun _ => False) (fun _ _ => False)
      (fun _ s' => s'.sfsSuper = s.sfsSuper ∧ s'.sfsFreemap.nbits = s.sfsFreemap.nbits ∧
        ∀ i, s'.sfsFreemap.v i = if j * blockSize ≤ i ∧ i < (j + todo) * blockSize then
          (content s.disk (sfsMapLocation + i / blockSize)).toBytes (i % blockSize)
          else s.sfsFreemap.v i) := by
  induction todo generalizing j s with
  | zero =>
      simp only [sfsMapioLoop, ensures_pure]
      refine ⟨trivial, trivial, fun i => ?_⟩
      rw [Nat.add_zero, if_neg (by omega)]
  | succ todo ih =>
      simp only [sfsMapioLoop, ensures_bind, SfsM.ensures_onDisk, ensures_modify]
      have here := inside j (by omega)
      apply (sfsRblock_obeys (works.obeys fun _ => False) here.1 here.2).answers
      · exact fun _ _ failed => failed.2
      · rintro _ disk ⟨contentEq, rfl⟩
        apply (ih fun k below => inside k (by omega)).total
        rintro _ s' ⟨superEq, nbitsEq, bytesEq⟩
        refine ⟨superEq, nbitsEq, fun i => ?_⟩
        have next : (j + 1) * blockSize = j * blockSize + blockSize := Nat.succ_mul _ _
        have turns : j + 1 + todo = j + (todo + 1) := by omega
        have ends : (j + 1) * blockSize ≤ (j + (todo + 1)) * blockSize :=
          Nat.mul_le_mul_right _ (by omega)
        rw [bytesEq i, turns, next]
        simp only [Bytes.overlay, contentEq]
        by_cases inBlock : j * blockSize ≤ i ∧ i < j * blockSize + blockSize
        · have place : i / blockSize = j := Nat.div_eq_of_lt_le inBlock.1 (next ▸ inBlock.2)
          have offset : i - j * blockSize = i % blockSize := by
            rw [← place, Nat.mul_comm, Nat.mod_eq_sub]
          rw [if_neg (by omega), if_pos inBlock, if_pos (by omega), place, offset]
        · rw [if_neg inBlock]
          split_ifs <;> first | rfl | omega

theorem sfsMapioLoop_write (works : dev.Works content) (todo : Nat) {j : Nat} {s : Sfs δ}
    (inside : ∀ k < j + todo, sfsMapLocation + k < dev.dBlocks ∧ sfsMapLocation + k < 2 ^ 22) :
    Ensures (sfsMapioLoop dev .write todo j) s (fun _ => False) (fun _ _ => False)
      (fun _ s' => ∀ k, content s'.disk (sfsMapLocation + k) = if j ≤ k ∧ k < j + todo then
        Block.ofBytes fun i => s.sfsFreemap.v (k * blockSize + i)
        else content s.disk (sfsMapLocation + k)) := by
  induction todo generalizing j s with
  | zero =>
      rw [sfsMapioLoop, ensures_pure]
      exact fun k => (if_neg (by omega)).symm
  | succ todo ih =>
      simp only [sfsMapioLoop, ensures_bind, ensures_get, SfsM.ensures_onDisk]
      have here := inside j (by omega)
      apply (sfsWblock_obeys (works.obeys fun _ => False) here.1 here.2 _).answers
      · exact fun _ _ failed => failed.2
      · intro _ disk contentEq
        apply (ih fun k below => inside k (by omega)).total
        intro _ s' stored k
        rw [stored, contentEq]
        by_cases same : k = j
        · simp [same]
        · have elsewhere : sfsMapLocation + k ≠ sfsMapLocation + j := by omega
          rw [update_of_ne elsewhere]
          split_ifs <;> first | rfl | omega

/-- The freemap of a volume of `n` blocks, of which those before `first` and behind the end are
in use. -/
structure Filled (n first : Nat) (s : Sfs δ) : Prop where
  nblocks_eq : s.nblocks = n
  nbits_eq : s.sfsFreemap.nbits = sfsBitmapsize n
  bits : ∀ i < sfsBitmapsize n, s.sfsFreemap.isset i = true ↔ i < first ∨ n ≤ i

theorem Filled.clean (filled : Filled n first s) :
    Filled n first { s with sfsSuperdirty := false, sfsFreemapdirty := false } :=
  ⟨filled.nblocks_eq, filled.nbits_eq, filled.bits⟩

section Domount

variable (works : dev.Works content) (fits : sfsBitblocks n ≤ maxbitblocks)
  (room : sfsMapLocation + sfsBitblocks n ≤ n) (onDevice : dev.dBlocks = n)
include works fits room onDevice

theorem sfsDomountLoad_spec (formatted : Formatted n (content s.disk)) (nblocksEq : s.nblocks = n)
    {new : Bitmap} (newBits : new.nbits = sfsBitmapsize n) :
    Ensures (sfsDomountLoad dev new) s (fun _ => False) (fun _ _ => False)
      (fun _ s' => Filled n (sfsMapLocation + sfsBitblocks n) s' ∧
        ∀ i < sfsBitmapsize n, s'.sfsFreemap.isset i = true ↔ Reserved n i) := by
  have blocksEq := sfsBitblocks_eq n
  have sizeEq := sfsBitmapsize_eq n
  simp only [maxbitblocks] at fits
  obtain ⟨v, reserved, stored⟩ := formatted
  have sameBlocks : Sfs.nblocks { s with sfsFreemap := new } = n := nblocksEq
  rw [sfsDomountLoad, ensures_bind, ensures_modify, ensures_bind, sfsMapio,
    ensures_bind, ensures_get, sameBlocks]
  refine (sfsMapioLoop_read works _ fun k below => ?_).total ?_
  · simp only [sfsMapLocation] at room ⊢
    omega
  rintro _ s' ⟨superEq, nbitsEq, bytesEq⟩
  have bits : ∀ i < sfsBitmapsize n, s'.sfsFreemap.isset i = true ↔ Reserved n i := by
    intro i inside
    have byteEq : s'.sfsFreemap.v (i / 8) = v (i / 8) := by
      have block := stored (i / 8 / blockSize) (by simp only [blockSize]; omega)
      have whole : i / 8 / blockSize * blockSize + i / 8 % blockSize = i / 8 :=
        Nat.div_add_mod' _ _
      have within : i / 8 % blockSize < blockSize := Nat.mod_lt _ (by decide)
      rw [bytesEq, if_pos (by simp only [blockSize]; omega), block, Block.toBytes_ofBytes _ within,
        whole]
    rw [← reserved i]
    simp only [isset, bitmapTranslate, byteEq]
  have filled : Filled n (sfsMapLocation + sfsBitblocks n) s' := by
    refine ⟨?_, nbitsEq.trans newBits, fun i inside => ?_⟩
    · rw [Sfs.nblocks, superEq]
      exact nblocksEq
    · rw [bits i inside]
      simp only [Reserved, sfsSbLocation, sfsRootLocation, sfsMapLocation]
      omega
  rw [ensures_modify]
  exact ⟨filled.clean, bits⟩

/-- The volume that is mounted from the disk that `writebitmap` has written. -/
theorem sfsDomountFreemap_spec (formatted : Formatted n (content s.disk))
    (nblocksEq : s.nblocks = n) (memory : s.heap.Grants 2) :
    Ensures (sfsDomountFreemap dev) s (fun _ => False) (fun _ _ => False)
      (fun _ s' => Filled n (sfsMapLocation + sfsBitblocks n) s' ∧
        ∀ i < sfsBitmapsize n, s'.sfsFreemap.isset i = true ↔ Reserved n i) := by
  have sizeEq := sfsBitmapsize_eq n
  simp only [sfsDomountFreemap, ensures_bind, ensures_get, nblocksEq, onHeap, ensures_zoom]
  apply (bitmapCreate_spec (by omega) s.heap).total
  rintro created heap ⟨granted, fresh⟩
  obtain ⟨new, rfl⟩ := isSome_iff_exists.mp (granted memory)
  exact sfsDomountLoad_spec (s := { s with heap }) works fits room onDevice formatted nblocksEq
    (fresh new rfl).nbits_eq

end Domount

theorem Filled.padded (filled : Filled n first s) (small : n < 2 ^ 22) : s.sfsFreemap.Padded := by
  have sizeEq := sfsBitmapsize_eq n
  intro i behind inLast
  rw [filled.nbits_eq] at behind inLast
  rw [words_eq (by omega)] at inLast
  omega

theorem sfsBalloc_next (works : dev.Works content) (onDevice : dev.dBlocks = n)
    (small : n < 2 ^ 22) (filled : Filled n first s) (free : first < n) :
    Ensures (sfsBalloc dev) s (fun _ => False) (fun _ _ => False)
      (fun block s' => block = first ∧ Filled n (first + 1) s') := by
  have sizeEq := sfsBitmapsize_eq n
  have isClear : s.sfsFreemap.isset first = false := by
    rw [← Bool.not_eq_true, filled.bits first (by omega)]
    omega
  simp only [sfsBalloc, ensures_bind, SfsM.ensures_onFreemap]
  apply (bitmapAlloc_spec (by rw [filled.nbits_eq]; omega) (filled.padded small)).answers
  · rintro _ _ ⟨_, _, full⟩
    have marked := full first (by rw [filled.nbits_eq]; omega)
    rw [isClear] at marked
    cases marked
  · rintro block _ ⟨inside, blockClear, before, rfl⟩
    rw [filled.nbits_eq] at inside
    have notUsed : ¬(block < first ∨ n ≤ block) := by
      rw [← filled.bits block inside, blockClear]
      simp
    have least : ¬first < block := by
      intro earlier
      have marked := before first earlier
      rw [isClear] at marked
      cases marked
    obtain rfl : block = first := by omega
    simp only [ensures_modify, ensures_get, sfsClearblock]
    have nblocksEq := filled.nblocks_eq
    rw [Sfs.nblocks] at nblocksEq
    rw [ensures_assert_of (by simp only [Sfs.nblocks]; omega), SfsM.ensures_onDisk]
    apply (sfsWblock_obeys (works.obeys fun _ => False) (by omega) (by omega) Block.zero).answers
    · exact fun _ _ failed => failed.2
    · intro _ disk _
      refine ⟨rfl, filled.nblocks_eq, filled.nbits_eq, fun i inMap => ?_⟩
      have old := filled.bits i inMap
      simp only [isset_set, Bool.or_eq_true, decide_eq_true_eq, old]
      omega

theorem sfsBalloc_full (small : n < 2 ^ 22) (filled : Filled n n s) :
    Ensures (sfsBalloc dev) s (fun _ => False) (fun error _ => error = .enospc)
      (fun _ _ => False) := by
  have sizeEq := sfsBitmapsize_eq n
  simp only [sfsBalloc, ensures_bind, SfsM.ensures_onFreemap]
  apply (bitmapAlloc_spec (by rw [filled.nbits_eq]; omega) (filled.padded small)).answers
  · exact fun _ _ failed => failed.1
  · rintro block _ ⟨inside, blockClear, _⟩
    rw [filled.nbits_eq] at inside
    have marked := (filled.bits block inside).mpr (by omega)
    rw [blockClear] at marked
    cases marked

theorem sfsBallocs_spec (works : dev.Works content) (onDevice : dev.dBlocks = n)
    (small : n < 2 ^ 22) (count : Nat) {first : Nat} {s : Sfs δ} (filled : Filled n first s)
    (free : first + count ≤ n) :
    Ensures (sfsBallocs dev count) s (fun _ => False) (fun _ _ => False)
      (fun blocks s' => blocks = List.range' first count ∧ Filled n (first + count) s') := by
  induction count generalizing first s with
  | zero =>
      simp only [sfsBallocs, ensures_pure]
      exact ⟨rfl, filled⟩
  | succ count ih =>
      simp only [sfsBallocs, ensures_bind, ensures_pure]
      apply (sfsBalloc_next works onDevice small filled (by omega)).total
      rintro _ s₁ ⟨rfl, filled₁⟩
      apply (ih filled₁ (by omega)).total
      rintro _ s₂ ⟨rfl, filled₂⟩
      refine ⟨by rw [List.range'_succ], ?_⟩
      rwa [Nat.add_assoc, Nat.add_comm 1] at filled₂

/-- With the size of the freemap computed exactly, what is seen of the volume is right. -/
theorem observe_right (works : dev.Works content) (fits : sfsBitblocks n ≤ maxbitblocks)
    (room : sfsMapLocation + sfsBitblocks n ≤ n) (onDevice : dev.dBlocks = n)
    (formatted : Formatted n (content s.disk)) (nblocksEq : s.nblocks = n)
    (memory : s.heap.Grants 2) (exact32 : n + 4095 < 2 ^ 32) :
    Ensures (observe dev (freeBlocks n)) s (fun _ => False) (fun _ _ => False)
      (fun observed _ => Right n observed) := by
  have blocksEq := sfsBitblocks_eq n
  have sizeEq := sfsBitmapsize_eq n
  have small : n < 2 ^ 22 := by
    simp only [maxbitblocks] at fits
    omega
  have all : sfsMapLocation + sfsBitblocks n + freeBlocks n = n := by
    simp only [freeBlocks]
    omega
  simp only [observe, ensures_bind, ensures_get, ensures_attempt, ensures_pure]
  apply (sfsDomountFreemap_spec works fits room onDevice formatted nblocksEq memory).total
  rintro _ s₁ ⟨filled, bits⟩
  apply (sfsBallocs_spec works onDevice small (freeBlocks n) filled all.le).total
  rintro _ s₂ ⟨rfl, filled₂⟩
  rw [all] at filled₂
  apply (sfsBalloc_full small filled₂).answers
  · rintro _ _ rfl
    refine ⟨fun i => ?_, rfl, rfl⟩
    simp only [filled.nbits_eq]
    constructor
    · exact fun held => (bits i held.1).mp held.2
    · intro reserved
      have inside : i < sfsBitmapsize n := by
        simp only [Reserved, sfsSbLocation, sfsRootLocation, sfsMapLocation] at reserved room
        omega
      exact ⟨inside, (bits i inside).mpr reserved⟩
  · exact fun _ _ impossible => impossible.elim

theorem sfsDomountLoad_empty (dev : Device δ) (blocksZero : sfsBitblocks s.nblocks = 0)
    (new : Bitmap) :
    Ensures (sfsDomountLoad dev new) s (fun _ => False) (fun _ _ => False)
      (fun _ s' => s'.sfsFreemap = new) := by
  have sameBlocks : sfsBitblocks (Sfs.nblocks { s with sfsFreemap := new }) = 0 := blocksZero
  rw [sfsDomountLoad, ensures_bind, ensures_modify, ensures_bind, sfsMapio, ensures_bind,
    ensures_get, sameBlocks, sfsMapioLoop, ensures_pure, ensures_modify]

/-- With a freemap without bits the first `sfs_balloc` fails. -/
theorem observe_empty (dev : Device δ) (sizeZero : sfsBitmapsize n = 0) (nblocksEq : s.nblocks = n)
    (memory : s.heap.Grants 2) (count : Nat) :
    Ensures (observe dev (count + 1)) s (fun _ => False) (fun error _ => error = .enospc)
      (fun _ _ => False) := by
  have blocksZero : sfsBitblocks n = 0 := by rw [sfsBitblocks, sizeZero, Nat.zero_div]
  simp only [observe, sfsDomountFreemap, ensures_bind, ensures_get, nblocksEq, onHeap, ensures_zoom]
  apply (bitmapCreate_spec (by omega) s.heap).total
  rintro created heap ⟨granted, fresh⟩
  obtain ⟨new, rfl⟩ := isSome_iff_exists.mp (granted memory)
  have noBits : new.nbits = 0 := (fresh new rfl).nbits_eq.trans sizeZero
  have created : sfsBitblocks (Sfs.nblocks { s with heap }) = 0 := nblocksEq ▸ blocksZero
  apply (sfsDomountLoad_empty dev created new).total
  rintro _ s' rfl
  simp only [sfsBallocs, sfsBalloc, ensures_bind, SfsM.ensures_onFreemap]
  apply (bitmapAlloc_spec (by omega) (fresh s'.sfsFreemap rfl).padded).answers
  · exact fun _ _ failed => failed.1
  · rintro block _ ⟨inside, _⟩
    omega

/-- **The freemap survives.** What `sfs_mapio` has written is what it reads when the disk is
mounted again. -/
theorem freemap_survives (works : dev.Works content) (inside : ∀ k < sfsBitblocks s.nblocks,
      sfsMapLocation + k < dev.dBlocks ∧ sfsMapLocation + k < 2 ^ 22) :
    Prog.Ensures (sfsMapio dev .write) s (fun _ => False) (fun _ _ => False)
      (fun _ written => ∀ next : Sfs δ, content next.disk = content written.disk →
        next.nblocks = s.nblocks →
        Prog.Ensures (sfsMapio dev .read) next (fun _ => False) (fun _ _ => False)
          (fun _ loaded => ∀ i < sfsBitblocks s.nblocks * blockSize,
            loaded.sfsFreemap.v i = s.sfsFreemap.v i)) := by
  have inMap : ∀ k < 0 + sfsBitblocks s.nblocks, _ := fun k below => inside k (by omega)
  rw [sfsMapio, ensures_bind, ensures_get]
  apply (sfsMapioLoop_write works _ inMap).total
  intro _ written stored next diskEq nblocksEq
  rw [sfsMapio, ensures_bind, ensures_get, nblocksEq]
  apply (sfsMapioLoop_read works _ inMap).total
  rintro _ loaded ⟨_, _, bytesEq⟩ i below
  have within : i % blockSize < blockSize := Nat.mod_lt _ (by decide)
  have block : i / blockSize < sfsBitblocks s.nblocks :=
    Nat.div_lt_of_lt_mul (by rwa [Nat.mul_comm])
  rw [bytesEq, if_pos ⟨by omega, by rwa [Nat.zero_add]⟩, diskEq, stored,
    if_pos ⟨Nat.zero_le _, by omega⟩, Block.toBytes_ofBytes _ within, Nat.div_add_mod']

end Volume

/-- **The freemap of a new volume.** For every device size that passes the tests `writebitmap`
completes; what is then seen of the volume is right exactly when the size of the freemap was
computed without overflow. -/
theorem freemap_right_iff {δ : Type} {dev : Device δ} {content : δ → Nat → Block}
    (works : dev.Works content) (range : n < 2 ^ 32) (onDevice : dev.dBlocks = n)
    (fits : sfsBitblocks n ≤ maxbitblocks) (room : sfsMapLocation + sfsBitblocks n ≤ n)
    (disk : Nat → Block) :
    ∃ written, writebitmap n { bitbuf := fun _ => 0, disk } = .ok (.ok (), written) ∧
      ∀ s : Sfs δ, content s.disk = written.disk → s.nblocks = n → s.heap.Grants 2 →
        (Prog.Ensures (observe dev (freeBlocks n)) s (fun _ => False) (fun _ _ => False)
          (fun observed _ => Right n observed) ↔ n + 4095 < 2 ^ 32) := by
  rcases (writebitmap_spec fits room disk).outcomes with
    ⟨_, _, impossible⟩ | ⟨_, _, _, impossible⟩ | ⟨_, written, completes, formatted⟩
  · exact impossible.elim
  · exact impossible.elim
  refine ⟨written, completes, ?_⟩
  intro s diskEq nblocksEq memory
  rw [← diskEq] at formatted
  constructor
  · intro right
    by_contra overflow
    have sizeZero : sfsBitmapsize n = 0 := by
      rw [sfsBitmapsize_eq]
      omega
    obtain ⟨count, countEq⟩ : ∃ count, freeBlocks n = count + 1 := by
      refine ⟨freeBlocks n - 1, ?_⟩
      simp only [freeBlocks, sfsBitblocks_eq, sfsMapLocation]
      omega
    rw [countEq] at right
    have empty := observe_empty dev sizeZero nblocksEq memory count
    rcases (right.and empty).outcomes with ⟨_, _, h⟩ | ⟨_, _, _, h⟩ | ⟨_, _, _, h⟩
    · exact h.1
    · exact h.1
    · exact h.2
  · exact observe_right works fits room onDevice formatted nblocksEq memory

/-- A volume of `nblocks` blocks on a disk, before its freemap is read. -/
def unread (nblocks : UInt32) (sectors : Nat → Block) : Sfs Lhd where
  disk := { sectors, ops := 0, written := [] }
  sfsSuper := { spNblocks := nblocks }
  sfsSuperdirty := false
  sfsFreemap := { nbits := 0, v := fun _ => 0 }
  sfsFreemapdirty := false
  vnodes := fun _ => none
  heap := enoughMemory

theorem freemap_survives_small :
    Prog.Ensures (sfsMapio (lhdDevice 8 fun _ => true) .write)
      { unread 8 (fun _ => Block.zero) with sfsFreemap := { nbits := 8, v := fun _ => 0x0f } }
      (fun _ => False) (fun _ _ => False)
      (fun _ written => ∀ next : Sfs Lhd, next.disk.sectors = written.disk.sectors →
        next.nblocks = 8 →
        Prog.Ensures (sfsMapio (lhdDevice 8 fun _ => true) .read) next (fun _ => False)
          (fun _ _ => False) (fun _ loaded => ∀ i < 512, loaded.sfsFreemap.v i = 0x0f)) :=
  freemap_survives (lhdDevice_works 8) (by decide)

theorem freemap_right_iff_small :
    ∃ written, writebitmap 20 { bitbuf := fun _ => 0, disk := fun _ => Block.zero } =
        .ok (.ok (), written) ∧
      (Prog.Ensures (observe (lhdDevice 20 fun _ => true) (freeBlocks 20))
        (unread 20 written.disk) (fun _ => False) (fun _ _ => False)
        (fun observed _ => Right 20 observed) ↔ 20 + 4095 < 2 ^ 32) := by
  obtain ⟨written, completes, iff⟩ := freemap_right_iff (lhdDevice_works 20) (by decide) rfl
    (by decide) (by decide) fun _ => Block.zero
  exact ⟨written, completes, iff (unread 20 written.disk) rfl rfl fun _ _ => rfl⟩

/-- The largest device passes the tests, but `sfs_balloc` finds no block on it. -/
theorem freemap_missing :
    sfsBitblocks 4294967295 ≤ maxbitblocks ∧
    sfsMapLocation + sfsBitblocks 4294967295 ≤ 4294967295 ∧
    ∃ written, writebitmap 4294967295 { bitbuf := fun _ => 0, disk := fun _ => Block.zero } =
        .ok (.ok (), written) ∧
      Prog.Ensures (observe (lhdDevice 4294967295 fun _ => true) (freeBlocks 4294967295))
        (unread 4294967295 written.disk) (fun _ => False) (fun error _ => error = .enospc)
        (fun _ _ => False) := by
  have fits : sfsBitblocks 4294967295 ≤ maxbitblocks := by decide
  have room : sfsMapLocation + sfsBitblocks 4294967295 ≤ 4294967295 := by decide
  refine ⟨fits, room, ?_⟩
  rcases (writebitmap_spec fits room fun _ => Block.zero).outcomes with
    ⟨_, _, impossible⟩ | ⟨_, _, _, impossible⟩ | ⟨_, written, completes, _⟩
  · exact impossible.elim
  · exact impossible.elim
  · have count : freeBlocks 4294967295 = 4294967292 + 1 := by decide
    rw [count]
    have sizeZero : sfsBitmapsize 4294967295 = 0 := by decide
    exact ⟨written, completes, observe_empty _ sizeZero rfl (fun _ _ => rfl) _⟩

end Mksfs

end Os161
