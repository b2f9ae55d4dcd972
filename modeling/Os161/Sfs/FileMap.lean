import Os161.Lib.Ownership
import Os161.Sfs.File

/-!
# The blocks of a file

A mounted file system on a device that works is looked at as a volume: the same
state with the content of the blocks in place of the device. `SfsInode.ptr` reads
off the blocks that a file has, number 143 being the indirect block, and
`SfsInode.bytes` its content, with zeros where no block is mapped.

The main results are about `sfs_bmap`. What it may do to a volume is to attach
blocks that were free to the file, filled with zeros, and to leave everything
else alone; this is `Grew`.
-/

namespace Os161

open SfsM SfsIoM SfsInode
open Function (update)

variable {δ : Type}

/-! ## Volumes -/

/-- A mounted file system with the content of its blocks as the device. -/
abbrev Vol := Sfs (Nat → Block)

def Sfs.vol (content : δ → Nat → Block) (sfs : Sfs δ) : Vol where
  disk := content sfs.disk
  sfsSuper := sfs.sfsSuper
  sfsSuperdirty := sfs.sfsSuperdirty
  sfsFreemap := sfs.sfsFreemap
  sfsFreemapdirty := sfs.sfsFreemapdirty
  vnodes := sfs.vnodes
  heap := sfs.heap

namespace Vol

def setBlock (V : Vol) (block : Nat) (data : Block) : Vol :=
  { V with disk := Function.update V.disk block data }

/-- The volume after `sfs_balloc` has handed out a block. -/
def take (V : Vol) (block : Nat) : Vol :=
  { V with
    sfsFreemap := V.sfsFreemap.set block
    sfsFreemapdirty := true
    disk := Function.update V.disk block Block.zero }

/-- The volume after `sfs_bfree` of a block. -/
def release (V : Vol) (block : Nat) : Vol :=
  { V with sfsFreemap := V.sfsFreemap.clear block, sfsFreemapdirty := true }

def mark (V : Vol) (block : Nat) : Vol :=
  { V with sfsFreemap := V.sfsFreemap.set block, sfsFreemapdirty := true }

def Used (V : Vol) (block : Nat) : Prop :=
  V.sfsFreemap.isset block = true

/-- The freemap covers the volume, the blocks past its end and the superblock are marked, and
the device is large enough. -/
structure Ready (dev : Device δ) (V : Vol) : Prop where
  nblocks_le : V.nblocks ≤ dev.dBlocks
  nblocks_lt : V.nblocks < 2 ^ 22
  nblocks_le_nbits : V.nblocks ≤ V.sfsFreemap.nbits
  nbits_lt : V.sfsFreemap.nbits < 2 ^ 32 - 7
  used_of_le : ∀ block, V.nblocks ≤ block → block < Bitmap.words V.sfsFreemap.nbits * 8 →
    V.Used block
  used_zero : V.Used sfsSbLocation

end Vol

/-! ## Access to the parts of the state -/

namespace SfsM

variable {α : Type} {s : Sfs δ} {panics : Panic → Prop} {fails : Errno → Sfs δ → Prop}

theorem ensures_onDisk {program : Prog Panic δ Errno α} {returns : α → Sfs δ → Prop} :
    Ensures (onDisk program) s panics fails returns ↔
      Ensures program s.disk panics (fun failure disk => fails failure { s with disk })
        (fun value disk => returns value { s with disk }) :=
  ensures_zoom

theorem ensures_onFreemap {program : Bitmap.BitmapM α} {returns : α → Sfs δ → Prop} :
    Ensures (onFreemap program) s panics fails returns ↔
      Ensures program s.sfsFreemap panics
        (fun failure sfsFreemap => fails failure { s with sfsFreemap })
        (fun value sfsFreemap => returns value { s with sfsFreemap }) :=
  ensures_zoom

variable {sv : Nat} {v : SfsVnode}

theorem ensures_deref (present : s.vnodes sv = some v) {returns : SfsVnode → Sfs δ → Prop} :
    Ensures (deref sv) s panics fails returns ↔ returns v s := by
  simp only [deref, ensures_bind, ensures_get, present, ensures_pure]

theorem ensures_store {returns : Unit → Sfs δ → Prop} :
    Ensures (store sv v) s panics fails returns ↔ returns () (s.setVnode sv v) :=
  Iff.rfl

theorem ensures_updateInode (present : s.vnodes sv = some v) {change : SfsInode → SfsInode}
    {returns : Unit → Sfs δ → Prop} :
    Ensures (updateInode sv change) s panics fails returns ↔
      returns () (s.setVnode sv (v.setInode (change v.svI))) := by
  simp only [updateInode, ensures_bind, ensures_deref present, ensures_store]

end SfsM

/-! ## Blocks on a device that obeys -/

section Blocks

variable {dev : Device δ} {content : δ → Nat → Block} {faults : Nat → Prop} {s : Sfs δ} {V : Vol}
  {block : Nat}

theorem Vol.Ready.onDevice (ready : V.Ready dev) (inside : block < V.nblocks) :
    block < dev.dBlocks ∧ block < 2 ^ 22 :=
  ⟨lt_of_lt_of_le inside ready.nblocks_le, lt_trans inside ready.nblocks_lt⟩

theorem rblock_obeys (obeys : dev.Obeys content faults)
    (inside : block < dev.dBlocks ∧ block < 2 ^ 22) (volEq : s.vol content = V) :
    Ensures (onDisk (sfsRblock dev block)) s (fun _ => False)
      (fun _ s' => faults block ∧ s'.vol content = V)
      (fun data s' => data = V.disk block ∧ s'.vol content = V) := by
  subst volEq
  rw [SfsM.ensures_onDisk]
  apply (sfsRblock_obeys obeys inside.1 inside.2).answers
  · rintro _ disk ⟨contentEq, fault⟩
    refine ⟨fault, ?_⟩
    simp only [Sfs.vol, contentEq]
  · rintro data disk ⟨contentEq, rfl⟩
    refine ⟨rfl, ?_⟩
    simp only [Sfs.vol, contentEq]

theorem wblock_obeys (obeys : dev.Obeys content faults)
    (inside : block < dev.dBlocks ∧ block < 2 ^ 22) (volEq : s.vol content = V) (data : Block) :
    Ensures (onDisk (sfsWblock dev data block)) s (fun _ => False)
      (fun _ s' => faults block ∧ s'.vol content = V)
      (fun _ s' => s'.vol content = V.setBlock block data) := by
  subst volEq
  rw [SfsM.ensures_onDisk]
  apply (sfsWblock_obeys obeys inside.1 inside.2 data).answers
  · rintro _ disk ⟨contentEq, fault⟩
    refine ⟨fault, ?_⟩
    simp only [Sfs.vol, contentEq]
  · intro _ disk contentEq
    simp only [Sfs.vol, contentEq, Vol.setBlock]

theorem rblock_spec (works : dev.Works content) (inside : block < dev.dBlocks ∧ block < 2 ^ 22)
    (volEq : s.vol content = V) :
    Ensures (onDisk (sfsRblock dev block)) s (fun _ => False) (fun _ _ => False)
      (fun data s' => data = V.disk block ∧ s'.vol content = V) := by
  apply (rblock_obeys (works.obeys fun _ => False) inside volEq).answers
  · exact fun _ _ failed => failed.1
  · exact fun _ _ returned => returned

theorem wblock_spec (works : dev.Works content) (inside : block < dev.dBlocks ∧ block < 2 ^ 22)
    (volEq : s.vol content = V) (data : Block) :
    Ensures (onDisk (sfsWblock dev data block)) s (fun _ => False) (fun _ _ => False)
      (fun _ s' => s'.vol content = V.setBlock block data) := by
  apply (wblock_obeys (works.obeys fun _ => False) inside volEq data).answers
  · exact fun _ _ failed => failed.1
  · exact fun _ _ returned => returned

/-- `sfs_balloc` hands out a free block of the volume, filled with zeros, if there is one. When
the block cannot be cleared it stays marked. -/
theorem sfsBalloc_obeys (obeys : dev.Obeys content faults) (ready : V.Ready dev)
    (volEq : s.vol content = V) :
    Ensures (sfsBalloc dev) s (fun _ => False)
      (fun failure s' =>
        failure = .enospc ∧ (∀ b < V.nblocks, V.Used b) ∧ s'.vol content = V ∨
        ∃ block < V.nblocks, ¬V.Used block ∧ faults block ∧ s'.vol content = V.mark block)
      (fun block s' => block < V.nblocks ∧ ¬V.Used block ∧ s'.vol content = V.take block) := by
  have padded : V.sfsFreemap.Padded := by
    intro index outside inside
    exact ready.used_of_le index (le_trans ready.nblocks_le_nbits outside) inside
  subst volEq
  simp only [sfsBalloc, ensures_bind, SfsM.ensures_onFreemap]
  apply (Bitmap.bitmapAlloc_spec ready.nbits_lt padded).answers
  · rintro failure freemap ⟨rfl, rfl, full⟩
    refine Or.inl ⟨rfl, ?_, rfl⟩
    intro b inside
    exact full b (lt_of_lt_of_le inside ready.nblocks_le_nbits)
  · rintro block freemap ⟨inside, free, _, rfl⟩
    have bits := Bitmap.le_words ready.nbits_lt
    have small : block < s.nblocks := by
      by_contra outside
      have used := ready.used_of_le block (Nat.le_of_not_lt outside) (lt_of_lt_of_le inside bits)
      rw [Vol.Used] at used
      rw [used] at free
      cases free
    have notUsed : ¬(s.vol content).Used block := by
      rw [Vol.Used]
      simpa using free
    simp only [ensures_modify, ensures_get, sfsClearblock]
    rw [ensures_assert_of (by exact small)]
    apply (wblock_obeys obeys (ready.onDevice small) rfl Block.zero).answers
    · exact fun _ _ failed => Or.inr ⟨block, small, notUsed, failed⟩
    · exact fun _ _ volEq => ⟨small, notUsed, volEq⟩

theorem sfsBfree_spec (volEq : s.vol content = V) (inside : block < V.sfsFreemap.nbits)
    (used : V.Used block) :
    Ensures (sfsBfree block) s (fun _ => False) (fun _ _ => False)
      (fun _ s' => s'.vol content = V.release block) := by
  subst volEq
  simp only [sfsBfree, ensures_bind, SfsM.ensures_onFreemap]
  apply (Bitmap.bitmapUnmark_spec inside used).imp
  rintro _ freemap rfl
  rfl

theorem sfsBused_spec (volEq : s.vol content = V) (inside : block < V.nblocks) :
    Ensures (sfsBused block) s (fun _ => False) (fun _ _ => False)
      (fun used s' => used = V.sfsFreemap.isset block ∧ s'.vol content = V) := by
  subst volEq
  simp only [sfsBused, ensures_bind, ensures_get]
  rw [ensures_assert_of (by exact inside)]
  exact ⟨rfl, rfl⟩

end Blocks

/-! ## What a file has -/

/-- The number of data blocks that a file can have; also the place of its indirect block. -/
def sfsMaxblocks : Nat := sfsNdirect + sfsDbperidb

theorem sfsMaxblocks_eq : sfsMaxblocks = sfsNdirect + sfsDbperidb := rfl

theorem maxSize_eq : sfsMaxblocks * blockSize = 73216 := rfl

/-- A block number, where zero stands for no block. -/
def blockNumber (number : Nat) : Option Nat :=
  if number = 0 then none else some number

theorem blockNumber_zero : blockNumber 0 = none := rfl

theorem blockNumber_of_ne {number : Nat} (nonzero : number ≠ 0) :
    blockNumber number = some number :=
  if_neg nonzero

theorem blockNumber_eq_some_iff {number block : Nat} :
    blockNumber number = some block ↔ number = block ∧ block ≠ 0 := by
  simp only [blockNumber, Option.ite_none_left_eq_some, Option.some.injEq]
  constructor
  · rintro ⟨nonzero, rfl⟩
    exact ⟨rfl, nonzero⟩
  · rintro ⟨rfl, nonzero⟩
    exact ⟨nonzero, rfl⟩

namespace SfsInode

variable {inode : SfsInode} {disk disk' : Nat → Block}

theorem setDirect_sfiDirect (i : Fin sfsNdirect) (block : Nat) :
    (inode.setDirect i block).sfiDirect =
      update inode.sfiDirect i (UInt32.ofNat block) := rfl

theorem setDirect_sfiIndirect (i : Fin sfsNdirect) (block : Nat) :
    (inode.setDirect i block).sfiIndirect = inode.sfiIndirect := rfl

theorem setIndirect_sfiDirect (block : Nat) :
    (inode.setIndirect block).sfiDirect = inode.sfiDirect := rfl

theorem setIndirect_sfiIndirect (block : Nat) :
    (inode.setIndirect block).sfiIndirect = UInt32.ofNat block := rfl

/-- The blocks of a file: the data blocks, and last the indirect block. -/
def ptr (inode : SfsInode) (disk : Nat → Block) (k : Nat) : Option Nat :=
  if direct : k < sfsNdirect then
    blockNumber (inode.sfiDirect ⟨k, direct⟩).toNat
  else if entry : k - sfsNdirect < sfsDbperidb then
    (blockNumber inode.sfiIndirect.toNat).bind fun idblock =>
      blockNumber ((disk idblock).toWords ⟨k - sfsNdirect, entry⟩).toNat
  else if k = sfsMaxblocks then
    blockNumber inode.sfiIndirect.toNat
  else
    none

/-- The content of a file, with zeros where it has no block. -/
def bytes (inode : SfsInode) (disk : Nat → Block) : Bytes :=
  fun i =>
    if i / blockSize < sfsMaxblocks then
      match inode.ptr disk (i / blockSize) with
      | some block => (disk block).toBytes (i % blockSize)
      | none => 0
    else
      0

theorem ptr_direct (inode : SfsInode) (disk : Nat → Block) (i : Fin sfsNdirect) :
    inode.ptr disk i = blockNumber (inode.sfiDirect i).toNat := by
  rw [ptr, dif_pos i.isLt]

theorem ptr_indirect (inode : SfsInode) (disk : Nat → Block) :
    inode.ptr disk sfsMaxblocks = blockNumber inode.sfiIndirect.toNat := by
  rw [ptr, dif_neg (by decide), dif_neg (by decide), if_pos rfl]

theorem ptr_entry (inode : SfsInode) (disk : Nat → Block) (j : Fin sfsDbperidb) :
    inode.ptr disk (sfsNdirect + j) = (blockNumber inode.sfiIndirect.toNat).bind fun idblock =>
      blockNumber ((disk idblock).toWords j).toNat := by
  rw [ptr, dif_neg (by omega), dif_pos (by omega)]
  simp only [Nat.add_sub_cancel_left]

variable {k block : Nat} {other : SfsInode}

theorem ptr_of_lt (inode : SfsInode) (disk : Nat → Block) (outside : sfsMaxblocks < k) :
    inode.ptr disk k = none := by
  have ndirect := sfsMaxblocks_eq
  rw [ptr, dif_neg (by omega), dif_neg (by omega), if_neg (by omega)]

theorem ptr_ne_zero (mapped : inode.ptr disk k = some block) : block ≠ 0 := by
  simp only [ptr] at mapped
  split_ifs at mapped
  · exact (blockNumber_eq_some_iff.mp mapped).2
  · rcases bind_eq_some_iff.mp mapped with ⟨idblock, _, entry⟩
    exact (blockNumber_eq_some_iff.mp entry).2
  · exact (blockNumber_eq_some_iff.mp mapped).2

@[elab_as_elim]
theorem place_cases {motive : Nat → Prop} (direct : ∀ i : Fin sfsNdirect, motive i)
    (entry : ∀ j : Fin sfsDbperidb, motive (sfsNdirect + j)) (indirect : motive sfsMaxblocks)
    (outside : ∀ k, sfsMaxblocks < k → motive k) (k : Nat) : motive k := by
  have ndirect := sfsMaxblocks_eq
  by_cases isDirect : k < sfsNdirect
  · exact direct ⟨k, isDirect⟩
  · by_cases isEntry : k - sfsNdirect < sfsDbperidb
    · have place := entry ⟨k - sfsNdirect, isEntry⟩
      rwa [Nat.add_sub_cancel' (by omega)] at place
    · by_cases isIndirect : k = sfsMaxblocks
      · rwa [isIndirect]
      · exact outside k (by omega)

theorem ptr_congr (directEq : other.sfiDirect = inode.sfiDirect)
    (indirectEq : other.sfiIndirect = inode.sfiIndirect)
    (same : ∀ idblock, inode.ptr disk sfsMaxblocks = some idblock → disk' idblock = disk idblock) :
    other.ptr disk' = inode.ptr disk := by
  funext k
  rw [ptr_indirect] at same
  cases k using place_cases with
  | direct i => rw [ptr_direct, ptr_direct, directEq]
  | entry j =>
      rw [ptr_entry, ptr_entry, indirectEq]
      cases idblockEq : blockNumber inode.sfiIndirect.toNat with
      | none => rw [bind_none, bind_none]
      | some idblock => rw [bind_some, bind_some, same idblock idblockEq]
  | indirect => rw [ptr_indirect, ptr_indirect, indirectEq]
  | outside k outside => rw [ptr_of_lt _ _ outside, ptr_of_lt _ _ outside]

theorem ptr_setDirect (inode : SfsInode) (disk : Nat → Block) (i : Fin sfsNdirect)
    (small : block < 2 ^ 32) :
    (inode.setDirect i block).ptr disk =
      update (inode.ptr disk) i (blockNumber block) := by
  have ndirect := sfsMaxblocks_eq
  funext k
  cases k using place_cases with
  | direct k =>
      rw [ptr_direct, setDirect_sfiDirect]
      by_cases same : k = i
      · subst same
        rw [update_self, update_self, UInt32.toNat_ofNat_of_lt' small]
      · have different : k.val ≠ i.val := fun equal => same (Fin.ext equal)
        rw [update_of_ne same, update_of_ne different, ptr_direct]
  | entry j => rw [update_of_ne (by omega), ptr_entry, ptr_entry, setDirect_sfiIndirect]
  | indirect => rw [update_of_ne (by omega), ptr_indirect, ptr_indirect, setDirect_sfiIndirect]
  | outside k outside =>
      rw [update_of_ne (by omega), ptr_of_lt _ _ outside, ptr_of_lt _ _ outside]

/-- The map after an empty indirect block has been attached to a file that had none. -/
theorem ptr_setIndirect (small : block < 2 ^ 32) (nonzero : block ≠ 0)
    (none : inode.ptr disk sfsMaxblocks = none) (empty : disk' block = Block.zero) :
    (inode.setIndirect block).ptr disk' =
      update (inode.ptr disk) sfsMaxblocks (some block) := by
  have ndirect := sfsMaxblocks_eq
  have numberEq : blockNumber (inode.setIndirect block).sfiIndirect.toNat = some block := by
    rw [setIndirect_sfiIndirect, UInt32.toNat_ofNat_of_lt' small, blockNumber_of_ne nonzero]
  rw [ptr_indirect] at none
  funext k
  cases k using place_cases with
  | direct i =>
      rw [update_of_ne (by have := i.isLt; omega), ptr_direct, ptr_direct, setIndirect_sfiDirect]
  | entry j =>
      rw [update_of_ne (by have := j.isLt; omega), ptr_entry, ptr_entry, numberEq, none,
        bind_some, bind_none, empty, Block.toWords_zero]
      exact blockNumber_zero
  | indirect => rw [update_self, ptr_indirect, numberEq]
  | outside k outside =>
      rw [update_of_ne (by omega), ptr_of_lt _ _ outside, ptr_of_lt _ _ outside]

theorem ptr_setEntry {idblock : Nat} (indirect : inode.ptr disk sfsMaxblocks = some idblock)
    (j : Fin sfsDbperidb) (small : block < 2 ^ 32)
    (entryEq : disk' idblock =
      Block.ofWords (update (disk idblock).toWords j (UInt32.ofNat block))) :
    inode.ptr disk' = update (inode.ptr disk) (sfsNdirect + j)
      (blockNumber block) := by
  have ndirect := sfsMaxblocks_eq
  rw [ptr_indirect] at indirect
  funext k
  cases k using place_cases with
  | direct i =>
      rw [update_of_ne (by have := i.isLt; omega), ptr_direct, ptr_direct]
  | entry k =>
      rw [ptr_entry, indirect, bind_some, entryEq, Block.toWords_ofWords]
      by_cases same : k = j
      · subst same
        rw [update_self, update_self, UInt32.toNat_ofNat_of_lt' small]
      · have different : sfsNdirect + k.val ≠ sfsNdirect + j.val := by
          intro equal
          exact same (Fin.ext (by omega))
        rw [update_of_ne same, update_of_ne different, ptr_entry, indirect, bind_some]
  | indirect => rw [update_of_ne (by omega), ptr_indirect, ptr_indirect]
  | outside k outside =>
      rw [update_of_ne (by omega), ptr_of_lt _ _ outside, ptr_of_lt _ _ outside]

theorem bytes_place {i : Nat} (inside : k < sfsMaxblocks) (below : i < blockSize) :
    inode.bytes disk (k * blockSize + i) =
      match inode.ptr disk k with
      | some block => (disk block).toBytes i
      | none => 0 := by
  have positive : 0 < blockSize := by decide
  have place : (k * blockSize + i) / blockSize = k := by
    rw [Nat.mul_comm, Nat.mul_add_div positive, Nat.div_eq_of_lt below, Nat.add_zero]
  have rest : (k * blockSize + i) % blockSize = i := by
    rw [Nat.mul_comm, Nat.mul_add_mod, Nat.mod_eq_of_lt below]
  rw [bytes, place, rest, if_pos inside]

theorem bytes_congr (ptrEq : ∀ k < sfsMaxblocks, other.ptr disk' k = inode.ptr disk k)
    (same : ∀ k < sfsMaxblocks, ∀ block, inode.ptr disk k = some block → disk' block = disk block) :
    other.bytes disk' = inode.bytes disk := by
  funext i
  simp only [bytes]
  split
  · rename_i inside
    rw [ptrEq _ inside]
    cases mapped : inode.ptr disk (i / blockSize) with
    | none => rfl
    | some block => simp only [same _ inside block mapped]
  · rfl

theorem bytes_attach (ptrEq : other.ptr disk' = update (inode.ptr disk) k (some block))
    (unmapped : inode.ptr disk k = none) (empty : disk' block = Block.zero)
    (same : ∀ j < sfsMaxblocks, ∀ mapped, inode.ptr disk j = some mapped →
      disk' mapped = disk mapped) :
    other.bytes disk' = inode.bytes disk := by
  funext i
  simp only [bytes, ptrEq]
  split
  · rename_i inside
    by_cases here : i / blockSize = k
    · rw [here, update_self, unmapped]
      simp [empty]
    · rw [update_of_ne here]
      cases mapped : inode.ptr disk (i / blockSize) with
      | none => rfl
      | some block => simp only [same _ inside block mapped]
  · rfl

theorem bytes_setBlock (exclusive : Ownership.Exclusive (inode.ptr disk))
    (inside : k < sfsMaxblocks) (mapped : inode.ptr disk k = some block) (start n : Nat)
    (fits : start + n ≤ blockSize) (source : Bytes) :
    inode.bytes (update disk block
        (Block.ofBytes ((disk block).toBytes.overlay start n source))) =
      (inode.bytes disk).overlay (k * blockSize + start) n source := by
  have size : blockSize = 512 := rfl
  have ptrEq : inode.ptr (update disk block
      (Block.ofBytes ((disk block).toBytes.overlay start n source))) = inode.ptr disk := by
    apply ptr_congr rfl rfl
    intro idblock indirect
    apply update_of_ne
    rintro rfl
    have same := exclusive indirect mapped
    omega
  funext i
  simp only [bytes, ptrEq, Bytes.overlay]
  by_cases here : i / blockSize = k
  · rw [here, if_pos inside, if_pos inside, mapped]
    simp only [update_self]
    rw [Block.toBytes_ofBytes _ (Nat.mod_lt _ (by decide)), Bytes.overlay]
    have place : i = k * blockSize + i % blockSize := by
      rw [← here, Nat.div_add_mod']
    by_cases covered : start ≤ i % blockSize ∧ i % blockSize < start + n
    · rw [if_pos covered, if_pos (by omega)]
      congr 1
      omega
    · rw [if_neg covered, if_neg (by omega)]
  · have outside : ¬(k * blockSize + start ≤ i ∧ i < k * blockSize + start + n) := by
      rw [size] at here fits ⊢
      omega
    rw [if_neg outside]
    split
    · cases other : inode.ptr disk (i / blockSize) with
      | none => rfl
      | some mappedThere =>
          have different : mappedThere ≠ block := by
            rintro rfl
            exact here (exclusive other mapped)
          simp only [update_of_ne different]
    · rfl

end SfsInode

/-! ## Growth -/

/-- A loaded file whose blocks are all its own, on a volume that is in order. -/
structure FileAt (dev : Device δ) (V : Vol) (sv : Nat) (v : SfsVnode) : Prop where
  present : V.vnodes sv = some v
  ready : V.Ready dev
  inside : ∀ {k block}, v.svI.ptr V.disk k = some block → block < V.nblocks
  used : ∀ {k block}, v.svI.ptr V.disk k = some block → V.Used block
  exclusive : Ownership.Exclusive (v.svI.ptr V.disk)

/-- The volume with other blocks, another freemap and another state of one vnode. -/
def Vol.withFile (V : Vol) (disk : Nat → Block) (sfsFreemap : Bitmap) (sfsFreemapdirty : Bool)
    (sv : Nat) (v : SfsVnode) : Vol :=
  { V with disk, sfsFreemap, sfsFreemapdirty, vnodes := Function.update V.vnodes sv (some v) }

def SfsVnode.withInode (v : SfsVnode) (svI : SfsInode) (svDirty : Bool) : SfsVnode :=
  { v with svI, svDirty }

def SfsInode.withMap (inode : SfsInode) (sfiSize : UInt32) (sfiDirect : Fin sfsNdirect → UInt32)
    (sfiIndirect : UInt32) : SfsInode :=
  { inode with sfiSize, sfiDirect, sfiIndirect }

theorem Vol.withFile_withFile (V : Vol) (disk disk' : Nat → Block) (freemap freemap' : Bitmap)
    (dirty dirty' : Bool) (sv : Nat) (v v' : SfsVnode) :
    (V.withFile disk freemap dirty sv v).withFile disk' freemap' dirty' sv v' =
      V.withFile disk' freemap' dirty' sv v' := by
  simp only [Vol.withFile, update_idem]

/-- The device can refuse a request for a block that is free, or for the indirect block of the
file. -/
def Leaky (faults : Nat → Prop) (V : Vol) (v : SfsVnode) : Prop :=
  ∃ block, faults block ∧ (¬V.Used block ∨ v.svI.ptr V.disk sfsMaxblocks = some block)

/-- Between two volumes the file of a vnode has got blocks that were free, and nothing else has
happened except to its own blocks and its size. If the device refuses requests, blocks that were
free can be marked although nobody has them. -/
structure Grew (faults : Nat → Prop) (sv : Nat) (V : Vol) (v : SfsVnode) (V' : Vol)
    (v' : SfsVnode) : Prop where
  frame : V' = V.withFile V'.disk V'.sfsFreemap V'.sfsFreemapdirty sv v'
  nbits : V'.sfsFreemap.nbits = V.sfsFreemap.nbits
  vnode : v' = v.withInode v'.svI v'.svDirty
  inode : v'.svI = v.svI.withMap v'.svI.sfiSize v'.svI.sfiDirect v'.svI.sfiIndirect
  dirty : v' = v ∨ v'.svDirty = true
  mapDirty : (V'.sfsFreemap = V.sfsFreemap ∧ V'.sfsFreemapdirty = V.sfsFreemapdirty) ∨
    V'.sfsFreemapdirty = true
  ptr : ∀ k, v'.svI.ptr V'.disk k = v.svI.ptr V.disk k ∨
    (v.svI.ptr V.disk k = none ∧
      ∃ block, v'.svI.ptr V'.disk k = some block ∧ block < V.nblocks ∧ ¬V.Used block)
  used : ∀ block, (V.Used block ∨ ∃ k, v'.svI.ptr V'.disk k = some block) → V'.Used block
  fresh : ∀ block, V'.Used block → (V.Used block ∨ ∃ k, v'.svI.ptr V'.disk k = some block) ∨
    block < V.nblocks ∧ Leaky faults V v
  other : ∀ block, V.Used block → (∀ k, v.svI.ptr V.disk k ≠ some block) →
    V'.disk block = V.disk block

namespace Grew

variable {dev : Device δ} {faults : Nat → Prop} {sv : Nat} {V V' V₁ V₂ : Vol}
  {v v' v₁ v₂ : SfsVnode}

theorem refl (file : FileAt dev V sv v) : Grew faults sv V v V v where
  frame := by rw [Vol.withFile, ← file.present, update_eq_self]
  nbits := rfl
  vnode := rfl
  inode := rfl
  dirty := Or.inl rfl
  mapDirty := Or.inl ⟨rfl, rfl⟩
  ptr := fun _ => Or.inl rfl
  used := by
    rintro block (used | ⟨k, mapped⟩)
    · exact used
    · exact file.used mapped
  fresh := fun _ used => Or.inl (Or.inl used)
  other := fun _ _ _ => rfl

theorem nblocks (grew : Grew faults sv V v V' v') : V'.nblocks = V.nblocks := by
  rw [grew.frame]
  rfl

theorem used_mono (grew : Grew faults sv V v V' v') {block : Nat} (used : V.Used block) :
    V'.Used block :=
  grew.used block (Or.inl used)

theorem mapped_mono (grew : Grew faults sv V v V' v') {k block : Nat}
    (mapped : v.svI.ptr V.disk k = some block) : v'.svI.ptr V'.disk k = some block := by
  rcases grew.ptr k with same | ⟨unmapped, _⟩
  · rw [same, mapped]
  · rw [mapped] at unmapped
    cases unmapped

theorem unmapped (grew : Grew faults sv V v V' v') {k : Nat}
    (unmapped : v'.svI.ptr V'.disk k = none) : v.svI.ptr V.disk k = none := by
  cases before : v.svI.ptr V.disk k with
  | none => rfl
  | some block =>
      rw [grew.mapped_mono before] at unmapped
      cases unmapped

/-- A block of the file after growth was its own before, or free. -/
theorem mapped_cases (grew : Grew faults sv V v V' v') {k block : Nat}
    (mapped : v'.svI.ptr V'.disk k = some block) :
    v.svI.ptr V.disk k = some block ∨
      (v.svI.ptr V.disk k = none ∧ block < V.nblocks ∧ ¬V.Used block) := by
  rcases grew.ptr k with same | ⟨unmapped, fresh, mappedFresh, inside, free⟩
  · exact Or.inl (same ▸ mapped)
  · rw [mappedFresh, Option.some.injEq] at mapped
    rw [← mapped]
    exact Or.inr ⟨unmapped, inside, free⟩

theorem leaky (grew : Grew faults sv V v V' v') (leaky : Leaky faults V' v') :
    Leaky faults V v := by
  rcases leaky with ⟨block, fault, free | indirect⟩
  · exact ⟨block, fault, Or.inl fun used => free (grew.used_mono used)⟩
  · rcases grew.mapped_cases indirect with before | ⟨_, _, free⟩
    · exact ⟨block, fault, Or.inr before⟩
    · exact ⟨block, fault, Or.inl free⟩

theorem trans (first : Grew faults sv V v V₁ v₁) (second : Grew faults sv V₁ v₁ V₂ v₂) :
    Grew faults sv V v V₂ v₂ where
  frame := by
    have between := congrArg
      (fun V => V.withFile V₂.disk V₂.sfsFreemap V₂.sfsFreemapdirty sv v₂) first.frame
    rw [Vol.withFile_withFile] at between
    exact second.frame.trans between
  nbits := second.nbits.trans first.nbits
  vnode := second.vnode.trans (congrArg (fun v => v.withInode v₂.svI v₂.svDirty) first.vnode)
  inode := second.inode.trans (congrArg
    (fun inode => inode.withMap v₂.svI.sfiSize v₂.svI.sfiDirect v₂.svI.sfiIndirect) first.inode)
  dirty := by
    rcases second.dirty with rfl | dirty
    · exact first.dirty
    · exact Or.inr dirty
  mapDirty := by
    rcases second.mapDirty with ⟨mapEq, dirtyEq⟩ | dirty
    · rw [mapEq, dirtyEq]
      exact first.mapDirty
    · exact Or.inr dirty
  ptr := by
    intro k
    rcases second.ptr k with same | ⟨unmapped, block, mapped, inside, free⟩
    · rw [same]
      exact first.ptr k
    · exact Or.inr ⟨first.unmapped unmapped, block, mapped, first.nblocks ▸ inside,
        fun used => free (first.used_mono used)⟩
  used := by
    rintro block (used | mapped)
    · exact second.used_mono (first.used_mono used)
    · exact second.used block (Or.inr mapped)
  fresh := by
    intro block used
    rcases second.fresh block used with (used₁ | mapped) | ⟨inside, leaky⟩
    · rcases first.fresh block used₁ with (used | ⟨k, mapped⟩) | leaked
      · exact Or.inl (Or.inl used)
      · exact Or.inl (Or.inr ⟨k, second.mapped_mono mapped⟩)
      · exact Or.inr leaked
    · exact Or.inl (Or.inr mapped)
    · exact Or.inr ⟨first.nblocks ▸ inside, first.leaky leaky⟩
  other := by
    intro block used notOwn
    rw [second.other block (first.used_mono used), first.other block used notOwn]
    intro k mapped
    rcases first.mapped_cases mapped with before | ⟨_, _, free⟩
    · exact notOwn k before
    · exact free used

end Grew

section Attach

variable {dev : Device δ} {faults : Nat → Prop} {sv : Nat} {V V' V₁ V₂ : Vol}
  {v v' v₁ v₂ : SfsVnode} {block k : Nat}

theorem Vol.Ready.take (ready : V.Ready dev) {disk : Nat → Block} {dirty : Bool} :
    (V.withFile disk (V.sfsFreemap.set block) dirty sv v).Ready dev where
  nblocks_le := ready.nblocks_le
  nblocks_lt := ready.nblocks_lt
  nblocks_le_nbits := ready.nblocks_le_nbits
  nbits_lt := ready.nbits_lt
  used_of_le := by
    intro other outside inside
    have used : V.sfsFreemap.isset other = true := ready.used_of_le other outside inside
    simp [Vol.Used, Vol.withFile, used]
  used_zero := by
    have used : V.sfsFreemap.isset sfsSbLocation = true := ready.used_zero
    simp [Vol.Used, Vol.withFile, used]

theorem Vol.Ready.setBlock (ready : V.Ready dev) {data : Block} :
    (V.setBlock block data).Ready dev where
  nblocks_le := ready.nblocks_le
  nblocks_lt := ready.nblocks_lt
  nblocks_le_nbits := ready.nblocks_le_nbits
  nbits_lt := ready.nbits_lt
  used_of_le := ready.used_of_le
  used_zero := ready.used_zero

variable {disk' : Nat → Block}

/-- The file has grown, has kept its size, and has got this content. -/
structure Updated (dev : Device δ) (faults : Nat → Prop) (sv : Nat) (V : Vol) (v : SfsVnode)
    (bytes : Bytes) (V' : Vol) (v' : SfsVnode) : Prop where
  grew : Grew faults sv V v V' v'
  file : FileAt dev V' sv v'
  size : v'.svI.sfiSize = v.svI.sfiSize
  bytesEq : v'.svI.bytes V'.disk = bytes

theorem Updated.refl (file : FileAt dev V sv v) :
    Updated dev faults sv V v (v.svI.bytes V.disk) V v :=
  ⟨Grew.refl file, file, rfl, rfl⟩

theorem Updated.trans {bytes bytes' : Bytes} (first : Updated dev faults sv V v bytes V₁ v₁)
    (second : Updated dev faults sv V₁ v₁ bytes' V₂ v₂) : Updated dev faults sv V v bytes' V₂ v₂ :=
  ⟨first.grew.trans second.grew, second.file, second.size.trans first.size, second.bytesEq⟩

theorem FileAt.leak_updated (file : FileAt dev V sv v) (inside : block < V.nblocks)
    (leaky : Leaky faults V v) (volEq : V' = V.withFile disk' (V.sfsFreemap.set block) true sv v)
    (other : ∀ c, V.Used c → disk' c = V.disk c) :
    Updated dev faults sv V v (v.svI.bytes V.disk) V' v := by
  have used_iff : ∀ c, V'.Used c ↔ c = block ∨ V.Used c := by
    intro c
    rw [volEq]
    simp [Vol.Used, Vol.withFile]
  have diskEq : V'.disk = disk' := by rw [volEq]; rfl
  have nblocksEq : V'.nblocks = V.nblocks := by rw [volEq]; rfl
  have ptrEq : v.svI.ptr V'.disk = v.svI.ptr V.disk := by
    rw [diskEq]
    apply ptr_congr rfl rfl
    exact fun idblock indirect => other idblock (file.used indirect)
  refine ⟨⟨?_, ?_, rfl, rfl, Or.inl rfl, ?_, ?_, ?_, ?_, ?_⟩, ⟨?_, ?_, ?_, ?_, ?_⟩, rfl, ?_⟩
  · rw [volEq]
    rfl
  · rw [volEq]
    rfl
  · rw [volEq]
    exact Or.inr rfl
  · exact fun k => Or.inl (congrFun ptrEq k)
  · intro c
    rw [used_iff, ptrEq]
    rintro (used | ⟨k, mapped⟩)
    · exact Or.inr used
    · exact Or.inr (file.used mapped)
  · intro c
    rw [used_iff]
    rintro (rfl | used)
    · exact Or.inr ⟨inside, leaky⟩
    · exact Or.inl (Or.inl used)
  · intro c used _
    rw [diskEq]
    exact other c used
  · rw [volEq]
    exact update_self ..
  · rw [volEq]
    exact file.ready.take
  · intro k c mapped
    rw [ptrEq] at mapped
    rw [nblocksEq]
    exact file.inside mapped
  · intro k c mapped
    rw [ptrEq] at mapped
    rw [used_iff]
    exact Or.inr (file.used mapped)
  · rw [ptrEq]
    exact file.exclusive
  · apply bytes_congr
    · exact fun k _ => congrFun ptrEq k
    · intro k _ c mapped
      rw [diskEq]
      exact other c (file.used mapped)

section Block

variable (file : FileAt dev V sv v) (inside : block < V.nblocks) (free : ¬V.Used block)
  (unmapped : v.svI.ptr V.disk k = none)
  (volEq : V' = V.withFile disk' (V.sfsFreemap.set block) true sv v')
  (vnodeEq : v' = v.withInode v'.svI v'.svDirty) (dirty : v' = v ∨ v'.svDirty = true)
  (ptrEq : v'.svI.ptr disk' = update (v.svI.ptr V.disk) k (some block))
include file inside free unmapped volEq vnodeEq dirty ptrEq

theorem FileAt.attach
    (inodeEq : v'.svI = v.svI.withMap v'.svI.sfiSize v'.svI.sfiDirect v'.svI.sfiIndirect)
    (other : ∀ c, V.Used c → (∀ j, v.svI.ptr V.disk j ≠ some c) → disk' c = V.disk c) :
    Grew faults sv V v V' v' ∧ FileAt dev V' sv v' := by
  have unheld : Ownership.Unheld (v.svI.ptr V.disk) block :=
    fun _ mapped => free (file.used mapped)
  have used_iff : ∀ c, V'.Used c ↔ c = block ∨ V.Used c := by
    intro c
    rw [volEq]
    simp [Vol.Used, Vol.withFile]
  have mapped_cases : ∀ j c, v'.svI.ptr disk' j = some c →
      (j = k ∧ c = block) ∨ v.svI.ptr V.disk j = some c := by
    intro j c mapped
    rw [ptrEq] at mapped
    by_cases same : j = k
    · rw [same, update_self, Option.some.injEq] at mapped
      exact Or.inl ⟨same, mapped.symm⟩
    · rw [update_of_ne same] at mapped
      exact Or.inr mapped
  have newMapped : v'.svI.ptr disk' k = some block := by
    rw [ptrEq, update_self]
  have diskEq : V'.disk = disk' := by rw [volEq]; rfl
  have nblocksEq : V'.nblocks = V.nblocks := by rw [volEq]; rfl
  constructor
  · refine ⟨?_, ?_, vnodeEq, inodeEq, dirty, ?_, ?_, ?_, ?_, ?_⟩
    · rw [volEq]
      rfl
    · rw [volEq]
      rfl
    · rw [volEq]
      exact Or.inr rfl
    · intro j
      rw [diskEq, ptrEq]
      by_cases same : j = k
      · subst same
        exact Or.inr ⟨unmapped, block, update_self .., inside, free⟩
      · exact Or.inl (update_of_ne same ..)
    · intro c
      rw [used_iff, diskEq]
      rintro (used | ⟨j, mapped⟩)
      · exact Or.inr used
      · rcases mapped_cases j c mapped with ⟨_, same⟩ | before
        · exact Or.inl same
        · exact Or.inr (file.used before)
    · intro c
      rw [used_iff, diskEq]
      rintro (rfl | used)
      · exact Or.inl (Or.inr ⟨k, newMapped⟩)
      · exact Or.inl (Or.inl used)
    · rw [diskEq]
      exact other
  · refine ⟨?_, ?_, ?_, ?_, ?_⟩
    · rw [volEq]
      exact update_self ..
    · rw [volEq]
      exact file.ready.take
    · intro j c mapped
      rw [diskEq] at mapped
      rw [nblocksEq]
      rcases mapped_cases j c mapped with ⟨_, same⟩ | before
      · rw [same]
        exact inside
      · exact file.inside before
    · intro j c mapped
      rw [diskEq] at mapped
      rw [used_iff]
      rcases mapped_cases j c mapped with ⟨_, same⟩ | before
      · exact Or.inl same
      · exact Or.inr (file.used before)
    · rw [diskEq, ptrEq]
      exact file.exclusive.give unheld k

/-- Attaching a free block of zeros changes neither the content nor the size. -/
theorem FileAt.attach_updated
    (inodeEq : v'.svI = v.svI.withMap v.svI.sfiSize v'.svI.sfiDirect v'.svI.sfiIndirect)
    (empty : disk' block = Block.zero)
    (other : ∀ c, V.Used c → v.svI.ptr V.disk sfsMaxblocks ≠ some c → disk' c = V.disk c) :
    Updated dev faults sv V v (v.svI.bytes V.disk) V' v' ∧
      v'.svI.ptr V'.disk k = some block := by
  have sizeEq : v'.svI.sfiSize = v.svI.sfiSize := by rw [inodeEq]; rfl
  rw [← sizeEq] at inodeEq
  have attached : Grew faults sv V v V' v' ∧ FileAt dev V' sv v' :=
    file.attach inside free unmapped volEq vnodeEq dirty ptrEq inodeEq
      (fun c used notOwn => other c used (notOwn sfsMaxblocks))
  constructor
  · refine ⟨attached.1, attached.2, sizeEq, ?_⟩
    rw [volEq]
    apply bytes_attach ptrEq unmapped empty
    intro j below c mapped
    apply other c (file.used mapped)
    intro indirect
    have same := file.exclusive indirect mapped
    omega
  · rw [volEq]
    exact (congrFun ptrEq k).trans (update_self ..)

end Block

theorem FileAt.setBlock_updated (file : FileAt dev V sv v) (below : k < sfsMaxblocks)
    (mapped : v.svI.ptr V.disk k = some block) (start n : Nat) (fits : start + n ≤ blockSize)
    (source : Bytes) :
    Updated dev faults sv V v ((v.svI.bytes V.disk).overlay (k * blockSize + start) n source)
      (V.setBlock block (Block.ofBytes ((V.disk block).toBytes.overlay start n source))) v := by
  have ptrEq : v.svI.ptr (update V.disk block
      (Block.ofBytes ((V.disk block).toBytes.overlay start n source))) = v.svI.ptr V.disk := by
    apply ptr_congr rfl rfl
    intro idblock indirect
    apply update_of_ne
    rintro rfl
    have same := file.exclusive indirect mapped
    omega
  refine ⟨?_, ?_, rfl, bytes_setBlock file.exclusive below mapped start n fits source⟩
  · refine ⟨?_, rfl, rfl, rfl, Or.inl rfl, Or.inl ⟨rfl, rfl⟩, ?_, ?_, ?_, ?_⟩
    · rw [Vol.withFile, ← file.present, update_eq_self]
      rfl
    · intro j
      exact Or.inl (congrFun ptrEq j)
    · rintro c (used | ⟨j, mappedThere⟩)
      · exact used
      · exact file.used ((congrFun ptrEq j).symm.trans mappedThere)
    · exact fun c used => Or.inl (Or.inl used)
    · intro c _ notOwn
      apply update_of_ne
      rintro rfl
      exact notOwn k mapped
  · refine ⟨file.present, ?_, ?_, ?_, ?_⟩
    · exact file.ready.setBlock
    · intro j c mappedThere
      exact file.inside ((congrFun ptrEq j).symm.trans mappedThere)
    · intro j c mappedThere
      exact file.used ((congrFun ptrEq j).symm.trans mappedThere)
    · rw [show (V.setBlock block _).disk = update V.disk block _ from rfl, ptrEq]
      exact file.exclusive

end Attach

/-! ## `sfs_bmap` -/

section Bmap

variable {dev : Device δ} {content : δ → Nat → Block} {faults : Nat → Prop} {s : Sfs δ}
  {sv block k : Nat} {V : Vol} {v : SfsVnode}

theorem sfsBmap_direct (dev : Device δ) (sv : Nat) (i : Fin sfsNdirect) (doalloc : Bool) :
    sfsBmap dev sv i doalloc = sfsBmapDirect dev sv i doalloc := by
  rw [sfsBmap, dif_pos i.isLt]

theorem sfsBmap_entry (dev : Device δ) (sv : Nat) (j : Fin sfsDbperidb) (doalloc : Bool) :
    sfsBmap dev sv (sfsNdirect + j) doalloc = sfsBmapIndirect dev sv j doalloc := by
  have inside := j.isLt
  rw [sfsBmap, dif_neg (by omega)]
  simp only [Nat.add_sub_cancel_left, Nat.div_eq_of_lt inside, Nat.mod_eq_of_lt inside,
    Nat.lt_irrefl, if_false]

theorem sfsBmap_outside (dev : Device δ) (sv : Nat) (doalloc : Bool)
    (outside : sfsMaxblocks ≤ k) : sfsBmap dev sv k doalloc = fail .einval := by
  have ndirect := sfsMaxblocks_eq
  have positive : 0 < (k - sfsNdirect) / sfsDbperidb := by
    apply Nat.div_pos (by omega) (by decide)
  rw [sfsBmap, dif_neg (by omega)]
  simp only [positive, if_true]

/-- A block of the file is marked, so that it is handed back. -/
theorem sfsBmapHand_spec (file : FileAt dev V sv v) (volEq : s.vol content = V)
    (ptrEq : blockNumber block = v.svI.ptr V.disk k) :
    Ensures (sfsBmapHand block) s (fun _ => False) (fun _ _ => False)
      (fun result s' => result = block ∧ s'.vol content = V) := by
  simp only [sfsBmapHand, ensures_ite]
  split
  · exact ⟨by omega, volEq⟩
  · rename_i nonzero
    have mapped : v.svI.ptr V.disk k = some block := by
      rw [← ptrEq, blockNumber_of_ne nonzero]
    rw [ensures_bind]
    apply (sfsBused_spec volEq (file.inside mapped)).total
    rintro _ s' ⟨rfl, volEq'⟩
    have marked : V.sfsFreemap.isset block = true := file.used mapped
    rw [ensures_bind, ensures_assert_of marked]
    exact ⟨rfl, volEq'⟩

theorem FileAt.deref {panics : Panic → Prop} {fails : Errno → Sfs δ → Prop}
    {returns : SfsVnode → Sfs δ → Prop} (file : FileAt dev V sv v) (volEq : s.vol content = V) :
    Ensures (deref sv) s panics fails returns ↔ returns v s := by
  apply SfsM.ensures_deref
  have present := file.present
  rw [← volEq] at present
  exact present

theorem sfsBmap_obeys (obeys : dev.Obeys content faults) (file : FileAt dev V sv v)
    (volEq : s.vol content = V) :
    Ensures (sfsBmap dev sv k false) s (fun _ => False)
      (fun failure s' => (failure = .einval ∧ sfsMaxblocks ≤ k ∨ ∃ c, faults c) ∧
        s'.vol content = V)
      (fun result s' => k < sfsMaxblocks ∧ s'.vol content = V ∧
        blockNumber result = v.svI.ptr V.disk k) := by
  have ndirect := sfsMaxblocks_eq
  cases k using place_cases with
  | direct i =>
      have inside := i.isLt
      have ptrEq := ptr_direct v.svI V.disk i
      simp only [sfsBmap_direct, sfsBmapDirect, ensures_bind, file.deref volEq,
        Bool.false_eq_true, and_false, if_false]
      apply (sfsBmapHand_spec file volEq ptrEq.symm).total
      rintro _ s' ⟨rfl, volEq'⟩
      exact ⟨by omega, volEq', ptrEq.symm⟩
  | entry j =>
      have inside := j.isLt
      have ptrEq := ptr_entry v.svI V.disk j
      have indirectEq := ptr_indirect v.svI V.disk
      simp only [sfsBmap_entry, sfsBmapIndirect, ensures_bind, file.deref volEq, and_true,
        ensures_ite, ensures_pure, sfsBmapIdblock]
      split
      · rename_i zero
        rw [zero, blockNumber_zero, bind_none] at ptrEq
        exact ⟨by omega, volEq, by rw [blockNumber_zero, ptrEq]⟩
      · rename_i nonzero
        rw [blockNumber_of_ne nonzero] at ptrEq indirectEq
        rw [bind_some] at ptrEq
        apply (rblock_obeys obeys (file.ready.onDevice (file.inside indirectEq)) volEq).answers
        · exact fun _ _ failed => ⟨Or.inr ⟨_, failed.1⟩, failed.2⟩
        · rintro _ s' ⟨rfl, volEq'⟩
          simp only [Bool.false_eq_true, and_false, if_false]
          apply (sfsBmapHand_spec file volEq' ptrEq.symm).total
          rintro _ s'' ⟨rfl, volEq''⟩
          exact ⟨by omega, volEq'', ptrEq.symm⟩
  | indirect =>
      rw [sfsBmap_outside dev sv false (Nat.le_refl _), ensures_fail]
      exact ⟨Or.inl ⟨rfl, Nat.le_refl _⟩, volEq⟩
  | outside k outside =>
      rw [sfsBmap_outside dev sv false (Nat.le_of_lt outside), ensures_fail]
      exact ⟨Or.inl ⟨rfl, Nat.le_of_lt outside⟩, volEq⟩

theorem updateInode_spec (volEq : s.vol content = V) (present : V.vnodes sv = some v)
    (change : SfsInode → SfsInode) :
    Ensures (updateInode sv change) s (fun _ => False) (fun _ _ => False)
      (fun _ s' => s'.vol content = V.setVnode sv (v.setInode (change v.svI))) := by
  subst volEq
  rw [SfsM.ensures_updateInode (show s.vnodes sv = some v from present)]
  rfl

theorem Vol.Ready.ne_zero (ready : V.Ready dev) (free : ¬V.Used block) : block ≠ 0 := by
  rintro rfl
  exact free ready.used_zero

/-- Taking a free block does not touch the blocks in use, and so not the map of a file. -/
theorem Vol.take_other {c : Nat} (free : ¬V.Used block) (used : V.Used c) :
    (V.take block).disk c = V.disk c := by
  apply update_of_ne
  rintro rfl
  exact free used

theorem FileAt.ptr_take (file : FileAt dev V sv v) (free : ¬V.Used block) :
    v.svI.ptr (V.take block).disk = v.svI.ptr V.disk := by
  apply ptr_congr rfl rfl
  intro idblock indirect
  exact Vol.take_other free (file.used indirect)

/-- The volume after a failed or a successful allocation for the place `k`. -/
def BmapFailed (dev : Device δ) (faults : Nat → Prop) (sv : Nat) (V : Vol) (v : SfsVnode) (k : Nat)
    (failure : Errno) (V' : Vol) : Prop :=
  (failure = .einval ∧ sfsMaxblocks ≤ k ∨
    failure = .enospc ∧ k < sfsMaxblocks ∧ v.svI.ptr V.disk k = none ∧
      (∀ block < V.nblocks, V'.Used block) ∨
    ∃ c, faults c) ∧
  ∃ v', Updated dev faults sv V v (v.svI.bytes V.disk) V' v'

def BmapDone (dev : Device δ) (faults : Nat → Prop) (sv : Nat) (V : Vol) (v : SfsVnode)
    (k result : Nat) (V' : Vol) : Prop :=
  k < sfsMaxblocks ∧ ∃ v', Updated dev faults sv V v (v.svI.bytes V.disk) V' v' ∧
    v'.svI.ptr V'.disk k = some result

theorem FileAt.mark_updated (file : FileAt dev V sv v) (inside : block < V.nblocks)
    (free : ¬V.Used block) (fault : faults block) :
    Updated dev faults sv V v (v.svI.bytes V.disk) (V.mark block) v := by
  have withFileEq : V.mark block = V.withFile V.disk (V.sfsFreemap.set block) true sv v := by
    rw [Vol.withFile, ← file.present, update_eq_self]
    rfl
  exact file.leak_updated inside ⟨block, fault, Or.inl free⟩ withFileEq fun _ _ => rfl

theorem sfsBmapDirect_alloc_spec (obeys : dev.Obeys content faults) (file : FileAt dev V sv v)
    (volEq : s.vol content = V) (i : Fin sfsNdirect) :
    Ensures (sfsBmapDirect dev sv i true) s (fun _ => False)
      (fun failure s' => BmapFailed dev faults sv V v i failure (s'.vol content))
      (fun result s' => BmapDone dev faults sv V v i result (s'.vol content)) := by
  have inside : i.val < sfsMaxblocks := lt_trans i.isLt (by decide)
  have ptrEq := ptr_direct v.svI V.disk i
  simp only [sfsBmapDirect, ensures_bind, file.deref volEq, and_true, ensures_ite]
  split
  · rename_i zero
    rw [zero, blockNumber_zero] at ptrEq
    apply (sfsBalloc_obeys obeys file.ready volEq).answers
    · rintro failure s' (⟨rfl, full, volEq'⟩ | ⟨block, below, free, fault, volEq'⟩) <;>
        rw [BmapFailed, volEq']
      · exact ⟨Or.inr (Or.inl ⟨rfl, inside, ptrEq, full⟩), v, Updated.refl file⟩
      · exact ⟨Or.inr (Or.inr ⟨block, fault⟩), v, file.mark_updated below free fault⟩
    · rintro block s₁ ⟨below, free, volEq₁⟩
      have nonzero := file.ready.ne_zero free
      have small : block < 2 ^ 32 := lt_trans (lt_trans below file.ready.nblocks_lt) (by decide)
      apply (updateInode_spec volEq₁ file.present _).total
      intro _ s₂ volEq₂
      have volEq₂ : s₂.vol content = V.withFile (update V.disk block Block.zero)
          (V.sfsFreemap.set block) true sv (v.setInode (v.svI.setDirect i block)) := volEq₂
      have mapEq := ptr_setDirect v.svI (V.take block).disk i small
      rw [file.ptr_take free, blockNumber_of_ne nonzero] at mapEq
      rcases file.attach_updated below free ptrEq volEq₂ rfl (Or.inr rfl) mapEq rfl
        (update_self ..) (fun c used _ => Vol.take_other free used) with ⟨updated, mapped⟩
      apply (sfsBmapHand_spec updated.file rfl (by rw [mapped, blockNumber_of_ne nonzero])).total
      rintro _ s₃ ⟨rfl, volEq₃⟩
      rw [BmapDone, volEq₃]
      exact ⟨inside, _, updated, mapped⟩
  · rename_i nonzero
    apply (sfsBmapHand_spec file volEq ptrEq.symm).total
    rintro _ s' ⟨rfl, volEq'⟩
    rw [BmapDone, volEq']
    exact ⟨inside, v, Updated.refl file, by rw [ptrEq, blockNumber_of_ne nonzero]⟩

theorem sfsBmapIdblock_spec (obeys : dev.Obeys content faults) (file : FileAt dev V sv v)
    (volEq : s.vol content = V) :
    Ensures (sfsBmapIdblock dev sv) s (fun _ => False)
      (fun failure s' =>
        (failure = .enospc ∧ (∀ block < V.nblocks, (s'.vol content).Used block) ∧
            v.svI.ptr V.disk sfsMaxblocks = none ∨
          ∃ c, faults c) ∧
        ∃ v', Updated dev faults sv V v (v.svI.bytes V.disk) (s'.vol content) v')
      (fun result s' =>
        ∃ v', Updated dev faults sv V v (v.svI.bytes V.disk) (s'.vol content) v' ∧
          v'.svI.ptr (s'.vol content).disk sfsMaxblocks = some result.1 ∧
          result.2 = ((s'.vol content).disk result.1).toWords) := by
  have ptrEq := ptr_indirect v.svI V.disk
  simp only [sfsBmapIdblock, ensures_bind, file.deref volEq, ensures_ite]
  split
  · rename_i zero
    rw [zero, blockNumber_zero] at ptrEq
    apply (sfsBalloc_obeys obeys file.ready volEq).answers
    · rintro failure s' (⟨rfl, full, volEq'⟩ | ⟨block, below, free, fault, volEq'⟩) <;> rw [volEq']
      · exact ⟨Or.inl ⟨rfl, full, ptrEq⟩, v, Updated.refl file⟩
      · exact ⟨Or.inr ⟨block, fault⟩, v, file.mark_updated below free fault⟩
    · rintro block s₁ ⟨below, free, volEq₁⟩
      have nonzero := file.ready.ne_zero free
      have small : block < 2 ^ 32 := lt_trans (lt_trans below file.ready.nblocks_lt) (by decide)
      have empty : (V.take block).disk block = Block.zero := update_self ..
      apply (updateInode_spec volEq₁ file.present _).total
      intro _ s₂ volEq₂
      have volEq₂ : s₂.vol content = V.withFile (V.take block).disk
          (V.sfsFreemap.set block) true sv (v.setInode (v.svI.setIndirect block)) := volEq₂
      rcases file.attach_updated below free ptrEq volEq₂ rfl (Or.inr rfl)
        (ptr_setIndirect small nonzero ptrEq empty) rfl empty
        (fun c used _ => Vol.take_other free used) with ⟨updated, mapped⟩
      refine ⟨_, updated, mapped, ?_⟩
      rw [volEq₂]
      exact (congrArg Block.toWords empty).trans Block.toWords_zero |>.symm
  · rename_i nonzero
    rw [blockNumber_of_ne nonzero] at ptrEq
    apply (rblock_obeys obeys (file.ready.onDevice (file.inside ptrEq)) volEq).answers
    · rintro _ s' ⟨fault, volEq'⟩
      rw [volEq']
      exact ⟨Or.inr ⟨_, fault⟩, v, Updated.refl file⟩
    · rintro _ s' ⟨rfl, volEq'⟩
      rw [ensures_pure, volEq']
      exact ⟨v, Updated.refl file, ptrEq, rfl⟩

theorem FileAt.attach_entry (file : FileAt dev V sv v) {idblock : Nat} {j : Fin sfsDbperidb}
    (indirect : v.svI.ptr V.disk sfsMaxblocks = some idblock)
    (unmapped : v.svI.ptr V.disk (sfsNdirect + j) = none) (inside : block < V.nblocks)
    (free : ¬V.Used block) {V' : Vol}
    (volEq : V' = (V.take block).setBlock idblock
      (Block.ofWords (update (V.disk idblock).toWords j (UInt32.ofNat block)))) :
    Updated dev faults sv V v (v.svI.bytes V.disk) V' v ∧
      v.svI.ptr V'.disk (sfsNdirect + j) = some block := by
  have nonzero := file.ready.ne_zero free
  have small : block < 2 ^ 32 := lt_trans (lt_trans inside file.ready.nblocks_lt) (by decide)
  have different : block ≠ idblock := by
    rintro rfl
    exact free (file.used indirect)
  have withFileEq : V' = V.withFile V'.disk (V.sfsFreemap.set block) true sv v := by
    rw [Vol.withFile, ← file.present, update_eq_self, volEq]
    rfl
  have entryEq : V'.disk idblock =
      Block.ofWords (update (V.disk idblock).toWords j (UInt32.ofNat block)) := by
    rw [volEq]
    exact update_self ..
  have mapEq := ptr_setEntry indirect j small entryEq
  rw [blockNumber_of_ne nonzero] at mapEq
  refine file.attach_updated inside free unmapped withFileEq rfl (Or.inl rfl) mapEq rfl ?_ ?_
  · rw [volEq]
    exact (update_of_ne different ..).trans (update_self ..)
  · intro c used notIndirect
    rw [volEq]
    have other : c ≠ idblock := by
      rintro rfl
      exact notIndirect indirect
    exact (update_of_ne other ..).trans (Vol.take_other free used)

theorem FileAt.take_updated (file : FileAt dev V sv v) (inside : block < V.nblocks)
    (free : ¬V.Used block) {idblock : Nat}
    (indirect : v.svI.ptr V.disk sfsMaxblocks = some idblock) (fault : faults idblock) :
    Updated dev faults sv V v (v.svI.bytes V.disk) (V.take block) v := by
  have withFileEq : V.take block =
      V.withFile (V.take block).disk (V.sfsFreemap.set block) true sv v := by
    rw [Vol.withFile, ← file.present, update_eq_self]
    rfl
  exact file.leak_updated inside ⟨idblock, fault, Or.inr indirect⟩ withFileEq
    fun _ used => Vol.take_other free used

theorem sfsBmapIndirect_alloc_spec (obeys : dev.Obeys content faults) (file : FileAt dev V sv v)
    (volEq : s.vol content = V) (j : Fin sfsDbperidb) :
    Ensures (sfsBmapIndirect dev sv j true) s (fun _ => False)
      (fun failure s' => BmapFailed dev faults sv V v (sfsNdirect + j) failure (s'.vol content))
      (fun result s' => BmapDone dev faults sv V v (sfsNdirect + j) result (s'.vol content)) := by
  have inside : sfsNdirect + j.val < sfsMaxblocks := Nat.add_lt_add_left j.isLt _
  simp only [sfsBmapIndirect, ensures_bind, file.deref volEq, Bool.true_eq_false, and_false,
    if_false, and_true]
  apply (sfsBmapIdblock_spec obeys file volEq).answers
  · rintro failure s' ⟨⟨rfl, full, noIndirect⟩ | fault, grown⟩
    · have ptrEq := ptr_entry v.svI V.disk j
      rw [← ptr_indirect v.svI V.disk, noIndirect, bind_none] at ptrEq
      exact ⟨Or.inr (Or.inl ⟨rfl, inside, ptrEq, full⟩), grown⟩
    · exact ⟨Or.inr (Or.inr fault), grown⟩
  · rintro ⟨idblock, idbuf⟩ s₁ ⟨v₁, updated, indirect, idbufEq⟩
    dsimp only at indirect idbufEq ⊢
    subst idbufEq
    have file₁ := updated.file
    have ptrEq := ptr_entry v₁.svI (s₁.vol content).disk j
    rw [← ptr_indirect v₁.svI (s₁.vol content).disk, indirect, bind_some] at ptrEq
    simp only [ensures_ite]
    split
    · rename_i zero
      rw [zero, blockNumber_zero] at ptrEq
      rw [ensures_bind]
      apply (sfsBalloc_obeys obeys file₁.ready rfl).answers
      · rintro failure s' (⟨rfl, full, volEq'⟩ | ⟨block, below, free, fault, volEq'⟩) <;>
          rw [BmapFailed, volEq']
        · rw [updated.grew.nblocks] at full
          exact ⟨Or.inr (Or.inl ⟨rfl, inside, updated.grew.unmapped ptrEq, full⟩), v₁, updated⟩
        · exact ⟨Or.inr (Or.inr ⟨block, fault⟩), v₁,
            updated.bytesEq ▸ updated.trans (file₁.mark_updated below free fault)⟩
      · rintro block s₂ ⟨below, free, volEq₂⟩
        rw [ensures_bind]
        apply (wblock_obeys obeys (file₁.ready.onDevice (file₁.inside indirect)) volEq₂ _).answers
        · rintro failure s' ⟨fault, volEq'⟩
          rw [BmapFailed, volEq']
          exact ⟨Or.inr (Or.inr ⟨idblock, fault⟩), v₁,
            updated.bytesEq ▸ updated.trans (file₁.take_updated below free indirect fault)⟩
        · intro _ s₃ volEq₃
          rcases file₁.attach_entry indirect ptrEq below free volEq₃ with ⟨attached, mapped⟩
          have nonzero := file₁.ready.ne_zero free
          apply (sfsBmapHand_spec attached.file rfl
            (by rw [mapped, blockNumber_of_ne nonzero])).total
          rintro _ s₄ ⟨rfl, volEq₄⟩
          rw [BmapDone, volEq₄]
          exact ⟨inside, v₁, updated.bytesEq ▸ updated.trans attached, mapped⟩
    · rename_i nonzero
      apply (sfsBmapHand_spec file₁ rfl ptrEq.symm).total
      rintro _ s₂ ⟨rfl, volEq₂⟩
      rw [BmapDone, volEq₂]
      exact ⟨inside, v₁, updated, by rw [ptrEq, blockNumber_of_ne nonzero]⟩

theorem sfsBmap_alloc_spec (obeys : dev.Obeys content faults) (file : FileAt dev V sv v)
    (volEq : s.vol content = V) :
    Ensures (sfsBmap dev sv k true) s (fun _ => False)
      (fun failure s' => BmapFailed dev faults sv V v k failure (s'.vol content))
      (fun result s' => BmapDone dev faults sv V v k result (s'.vol content)) := by
  have failed : ∀ k, sfsMaxblocks ≤ k → BmapFailed dev faults sv V v k .einval (s.vol content) := by
    intro k outside
    rw [volEq]
    exact ⟨Or.inl ⟨rfl, outside⟩, v, Updated.refl file⟩
  cases k using place_cases with
  | direct i =>
      rw [sfsBmap_direct]
      exact sfsBmapDirect_alloc_spec obeys file volEq i
  | entry j =>
      rw [sfsBmap_entry]
      exact sfsBmapIndirect_alloc_spec obeys file volEq j
  | indirect =>
      rw [sfsBmap_outside dev sv true (Nat.le_refl _), ensures_fail]
      exact failed _ (Nat.le_refl _)
  | outside k outside =>
      rw [sfsBmap_outside dev sv true (Nat.le_of_lt outside), ensures_fail]
      exact failed _ (Nat.le_of_lt outside)

end Bmap

end Os161
