import Mathlib.Data.List.GetD
import Mathlib.Data.List.TakeWhile
import Os161.Dev.Device

/-!
# The disk format of sfs

The structures of `kern/sfs.h` and how they lie in blocks. Numbers are kept most
significant byte first, which is the byte order of the machine and of `mksfs`.
What is written as a structure and read back is the same structure.
-/

namespace Os161

/-- `SFS_NDIRECT`. -/
def sfsNdirect : Nat := 15

/-- `SFS_DBPERIDB`. -/
def sfsDbperidb : Nat := 128

/-- `SFS_NAMELEN`. -/
def sfsNamelen : Nat := 60

/-- `SFS_SB_LOCATION`. -/
def sfsSbLocation : Nat := 0

/-- `SFS_ROOT_LOCATION`. -/
def sfsRootLocation : Nat := 1

/-- `SFS_MAP_LOCATION`. -/
def sfsMapLocation : Nat := 2

/-- `SFS_NOINO`. -/
def sfsNoino : UInt32 := 0

/-- `SFS_BLOCKBITS`. -/
def sfsBlockbits : Nat := blockSize * 8

/-- `SFS_BITMAPSIZE`. -/
def sfsBitmapsize (nblocks : Nat) : Nat :=
  uint32 (uint32 (nblocks + sfsBlockbits - 1) / sfsBlockbits * sfsBlockbits)

/-- `SFS_BITBLOCKS`. -/
def sfsBitblocks (nblocks : Nat) : Nat :=
  sfsBitmapsize nblocks / sfsBlockbits

/-- `SFS_TYPE_DIR`. -/
def sfsTypeDir : UInt16 := 2

/-- `struct sfs_super`, of which only the size of the volume is used here. -/
structure SfsSuper where
  spNblocks : UInt32

/-- `struct sfs_inode`, without the link count and the padding. -/
structure SfsInode where
  sfiSize : UInt32
  sfiType : UInt16
  sfiDirect : Fin sfsNdirect → UInt32
  sfiIndirect : UInt32

/-- `struct sfs_dir`. -/
@[ext]
structure SfsDir where
  sfdIno : UInt32
  sfdName : Fin sfsNamelen → UInt8

/-! ## Words -/

/-- The 32-bit word at `start`; the machine is big-endian. -/
def Bytes.word (bytes : Bytes) (start : Nat) : UInt32 :=
  UInt32.ofNat ((bytes start).toNat * 2 ^ 24 + (bytes (start + 1)).toNat * 2 ^ 16 +
    (bytes (start + 2)).toNat * 2 ^ 8 + (bytes (start + 3)).toNat)

/-- The bytes of a word. -/
def wordBytes (word : UInt32) : Bytes :=
  fun k => UInt8.ofNat (word.toNat / 2 ^ (8 * (3 - k)))

theorem Bytes.word_congr {first second : Bytes} {start other : Nat}
    (same : ∀ k < 4, first (start + k) = second (other + k)) :
    first.word start = second.word other := by
  have head := same 0 (by decide)
  simp only [Nat.add_zero] at head
  rw [Bytes.word, Bytes.word, head, same 1 (by decide), same 2 (by decide), same 3 (by decide)]

theorem word_wordBytes (word : UInt32) : Bytes.word (wordBytes word) 0 = word := by
  have small := word.toNat_lt
  apply UInt32.toNat_inj.mp
  simp only [Bytes.word, wordBytes, UInt32.toNat_ofNat', UInt8.toNat_ofNat']
  omega

theorem word_zero (start : Nat) : Bytes.word (fun _ => 0) start = 0 := by
  simp [Bytes.word]

/-- A block of numbers, such as an indirect block. -/
abbrev Words := Fin sfsDbperidb → UInt32

/-- A block as an array of words, as an indirect block is. -/
def Block.toWords (block : Block) : Words :=
  fun k => block.toBytes.word (4 * k)

/-- The block that holds an array of words. -/
def Block.ofWords (words : Words) : Block :=
  Block.ofBytes fun k => wordBytes (words ⟨k / 4 % sfsDbperidb, Nat.mod_lt _ (by decide)⟩) (k % 4)

@[simp]
theorem Block.toWords_ofWords (words : Words) : (Block.ofWords words).toWords = words := by
  funext k
  have inside := k.isLt
  simp only [sfsDbperidb] at inside
  rw [Block.toWords, ← word_wordBytes (words k)]
  apply Bytes.word_congr
  intro j below
  rw [Block.ofWords, Block.toBytes_ofBytes _ (by simp only [blockSize]; omega)]
  have place : (4 * (k : Nat) + j) / 4 % sfsDbperidb = k := by
    simp only [sfsDbperidb]
    omega
  have rest : (4 * (k : Nat) + j) % 4 = 0 + j := by omega
  simp only [place, rest]

@[simp]
theorem Block.toWords_zero : Block.zero.toWords = fun _ => 0 := by
  funext k
  rw [Block.toWords, Block.toBytes_zero, word_zero]

/-! ## Directory entries -/

namespace SfsDir

/-- `sizeof(struct sfs_dir)`. -/
def size : Nat := 64

/-- A directory entry as it is on the disk. -/
def toBytes (entry : SfsDir) : Bytes :=
  fun k =>
    if k < 4 then
      wordBytes entry.sfdIno k
    else if name : k - 4 < sfsNamelen then
      entry.sfdName ⟨k - 4, name⟩
    else
      0

/-- The directory entry at `start`. -/
def ofBytes (bytes : Bytes) (start : Nat) : SfsDir where
  sfdIno := bytes.word start
  sfdName := fun k => bytes (start + 4 + k)

theorem ofBytes_congr {first second : Bytes} {start other : Nat}
    (same : ∀ k < size, first (start + k) = second (other + k)) :
    ofBytes first start = ofBytes second other := by
  apply SfsDir.ext
  · exact Bytes.word_congr fun k below => same k (by simp only [size]; omega)
  · funext k
    have inside := k.isLt
    simp only [sfsNamelen] at inside
    have byte := same (4 + k) (by simp only [size]; omega)
    simpa only [ofBytes, Nat.add_assoc] using byte

theorem ofBytes_toBytes (entry : SfsDir) : ofBytes entry.toBytes 0 = entry := by
  apply SfsDir.ext
  · rw [← word_wordBytes entry.sfdIno]
    apply Bytes.word_congr
    intro k below
    simp only [toBytes, Nat.zero_add, below, if_true]
  · funext k
    simp only [ofBytes, toBytes]
    rw [if_neg (by omega), dif_pos (by omega)]
    congr
    omega

end SfsDir

/-! ## Names -/

/-- A C string; the byte that ends it is not one of its characters. -/
structure CString where
  chars : List UInt8
  noNul : 0 ∉ chars
  deriving DecidableEq

/-- `strcpy` into a buffer of zeros. -/
def strcpy (name : CString) : Fin sfsNamelen → UInt8 :=
  fun k => name.chars.getD k 0

/-- The string in `sfd_name`, whose last byte is taken to be zero. -/
def SfsDir.name (entry : SfsDir) : List UInt8 :=
  (List.ofFn fun k : Fin sfsNamelen =>
    if k.val = sfsNamelen - 1 then 0 else entry.sfdName k).takeWhile (· ≠ 0)

/-- A name that fits can be read back. -/
theorem SfsDir.name_strcpy (ino : UInt32) {name : CString}
    (fits : name.chars.length + 1 ≤ sfsNamelen) :
    SfsDir.name { sfdIno := ino, sfdName := strcpy name } = name.chars := by
  have buffer : (List.ofFn fun k : Fin sfsNamelen =>
      if k.val = sfsNamelen - 1 then 0 else strcpy name k) =
      name.chars ++ List.replicate (sfsNamelen - name.chars.length - 1 + 1) 0 := by
    apply List.ext_getElem
    · simp
      omega
    · intro k inside _
      simp only [List.length_ofFn] at inside
      simp only [List.getElem_ofFn, strcpy]
      by_cases char : k < name.chars.length
      · rw [if_neg (by omega), List.getElem_append_left char, List.getD_eq_getElem _ _ char]
      · rw [List.getElem_append_right (by omega), List.getElem_replicate,
          List.getD_eq_default _ _ (by omega), ite_self]
  have nonzero : ∀ char ∈ name.chars, decide (char ≠ 0) = true := by
    intro char member
    have different : char ≠ 0 := by
      rintro rfl
      exact name.noNul member
    simp [different]
  rw [SfsDir.name, buffer, List.takeWhile_append_of_pos nonzero, List.replicate_succ]
  simp

end Os161
