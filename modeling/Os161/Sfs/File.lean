import Os161.Kern.Array
import Os161.Kern.Bitmap
import Os161.Sfs.Format
import Os161.Sfs.Io

/-!
# Files of sfs

The state of a mounted file system, and the part of `sfs_vnode.c` that works on a
single file: space allocation, `sfs_bmap`, file input and output, and
`sfs_truncate`; then the entries of the directory, of which there is only one, and the
freemap of `sfs_fs.c`. Vnodes are objects in memory that are named by their address; the
device is a parameter. The static buffers of the source are always filled before
they are used, and appear here as local values.
-/

namespace Os161

/-! ## The state -/

/-- `struct sfs_vnode`. -/
structure SfsVnode where
  svI : SfsInode
  svIno : Nat
  svDirty : Bool

/-- `struct sfs_fs`, with the state of its device, the vnodes in memory and the kernel heap. -/
structure Sfs (δ : Type) where
  disk : δ
  sfsSuper : SfsSuper
  sfsSuperdirty : Bool
  sfsFreemap : Bitmap
  sfsFreemapdirty : Bool
  vnodes : Nat → Option SfsVnode
  heap : KHeap

variable {δ α : Type}

def Sfs.nblocks (sfs : Sfs δ) : Nat :=
  sfs.sfsSuper.spNblocks.toNat

def Sfs.setVnode (sfs : Sfs δ) (sv : Nat) (v : SfsVnode) : Sfs δ :=
  { sfs with vnodes := Function.update sfs.vnodes sv (some v) }

def SfsVnode.setInode (v : SfsVnode) (inode : SfsInode) : SfsVnode :=
  { v with svI := inode, svDirty := true }

def SfsInode.setDirect (inode : SfsInode) (i : Fin sfsNdirect) (block : Nat) : SfsInode :=
  { inode with sfiDirect := Function.update inode.sfiDirect i (UInt32.ofNat block) }

def SfsInode.setIndirect (inode : SfsInode) (block : Nat) : SfsInode :=
  { inode with sfiIndirect := UInt32.ofNat block }

def SfsInode.setSize (inode : SfsInode) (size : Nat) : SfsInode :=
  { inode with sfiSize := UInt32.ofNat size }

abbrev SfsM (δ : Type) := Prog Panic (Sfs δ) Errno

/-- Code that also has a `uio`. -/
abbrev SfsIoM (δ : Type) := Prog Panic (Sfs δ × Uio) Errno

namespace SfsM

def onDisk (program : Prog Panic δ Errno α) : SfsM δ α :=
  zoom Sfs.disk (fun disk sfs => { sfs with disk }) program

def onFreemap (program : Bitmap.BitmapM α) : SfsM δ α :=
  zoom Sfs.sfsFreemap (fun sfsFreemap sfs => { sfs with sfsFreemap }) program

def onHeap (program : HeapM α) : SfsM δ α :=
  zoom Sfs.heap (fun heap sfs => { sfs with heap }) program

/-- Follow a pointer to a vnode. -/
def deref (sv : Nat) : SfsM δ SfsVnode := do
  match (← get).vnodes sv with
  | some v => pure v
  | none => halt .vnodePointer

def store (sv : Nat) (v : SfsVnode) : SfsM δ Unit :=
  modify fun sfs => sfs.setVnode sv v

def updateInode (sv : Nat) (change : SfsInode → SfsInode) : SfsM δ Unit := do
  let v ← deref sv
  store sv (v.setInode (change v.svI))

end SfsM

namespace SfsIoM

def onSfs (program : SfsM δ α) : SfsIoM δ α :=
  zoom Prod.fst (fun sfs pair => (sfs, pair.2)) program

def onUio (program : UioM α) : SfsIoM δ α :=
  zoom Prod.snd (fun uio pair => (pair.1, uio)) program

def onDevice (program : Prog Panic (δ × Uio) Errno α) : SfsIoM δ α :=
  zoom (fun pair => (pair.1.disk, pair.2))
    (fun request pair => ({ pair.1 with disk := request.1 }, request.2)) program

end SfsIoM

open SfsM SfsIoM

variable (dev : Device δ)

/-! ## Space allocation -/

/-- `sfs_clearblock`. -/
def sfsClearblock (block : Nat) : SfsM δ Unit :=
  onDisk (sfsWblock dev Block.zero block)

/-- `sfs_balloc`. -/
def sfsBalloc : SfsM δ Nat := do
  let diskblock ← onFreemap Bitmap.bitmapAlloc
  modify fun sfs => { sfs with sfsFreemapdirty := true }
  let sfs ← get
  assert .sfsBallocInvalid (diskblock < sfs.nblocks)
  sfsClearblock dev diskblock
  pure diskblock

/-- `sfs_bfree`. -/
def sfsBfree (diskblock : Nat) : SfsM δ Unit := do
  onFreemap (Bitmap.bitmapUnmark diskblock)
  modify fun sfs => { sfs with sfsFreemapdirty := true }

/-- `sfs_bused`. -/
def sfsBused (diskblock : Nat) : SfsM δ Bool := do
  let sfs ← get
  assert .sfsBusedRange (diskblock < sfs.nblocks)
  pure (sfs.sfsFreemap.isset diskblock)

/-! ## Block mapping -/

/-- The end of `sfs_bmap`: hand back the block. -/
def sfsBmapHand (block : Nat) : SfsM δ Nat := do
  if block = 0 then
    pure 0
  else
    let used ← sfsBused block
    assert .sfsBmapFree (used = true)
    pure block

/-- `sfs_bmap` for a direct block. -/
def sfsBmapDirect (sv : Nat) (fileblock : Fin sfsNdirect) (doalloc : Bool) : SfsM δ Nat := do
  let v ← deref sv
  let block := (v.svI.sfiDirect fileblock).toNat
  if block = 0 ∧ doalloc = true then
    let block ← sfsBalloc dev
    updateInode sv fun inode => inode.setDirect fileblock block
    sfsBmapHand block
  else
    sfsBmapHand block

/-- The number and the content of the indirect block in `sfs_bmap`, which is allocated when there
is none. -/
def sfsBmapIdblock (sv : Nat) : SfsM δ (Nat × Words) := do
  let v ← deref sv
  let idblock := v.svI.sfiIndirect.toNat
  if idblock = 0 then
    let idblock ← sfsBalloc dev
    updateInode sv fun inode => inode.setIndirect idblock
    pure (idblock, fun _ => 0)
  else
    let idbuf ← onDisk (sfsRblock dev idblock)
    pure (idblock, idbuf.toWords)

/-- `sfs_bmap` for the block number `idoff` of the indirect block. -/
def sfsBmapIndirect (sv : Nat) (idoff : Fin sfsDbperidb) (doalloc : Bool) : SfsM δ Nat := do
  let v ← deref sv
  if v.svI.sfiIndirect.toNat = 0 ∧ doalloc = false then
    pure 0
  else
    let (idblock, idbuf) ← sfsBmapIdblock dev sv
    let block := (idbuf idoff).toNat
    if block = 0 ∧ doalloc = true then
      let block ← sfsBalloc dev
      onDisk (sfsWblock dev
        (Block.ofWords (Function.update idbuf idoff (UInt32.ofNat block))) idblock)
      sfsBmapHand block
    else
      sfsBmapHand block

/-- `sfs_bmap`; block 0 stands for a block that is not there. -/
def sfsBmap (sv fileblock : Nat) (doalloc : Bool) : SfsM δ Nat :=
  if direct : fileblock < sfsNdirect then
    sfsBmapDirect dev sv ⟨fileblock, direct⟩ doalloc
  else
    let idnum := (fileblock - sfsNdirect) / sfsDbperidb
    let idoff := (fileblock - sfsNdirect) % sfsDbperidb
    if 0 < idnum then
      fail .einval
    else
      sfsBmapIndirect dev sv ⟨idoff, Nat.mod_lt _ (by decide)⟩ doalloc

/-! ## File input and output -/

/-- The block in which `sfs_partialio` works: that of the disk, or zeros when there is none. -/
def sfsPartialioLoad (rw : UioRw) (diskblock : Nat) : SfsM δ Block := do
  if diskblock = 0 then
    assert .sfsPartialioRw (rw = .read)
    pure Block.zero
  else
    onDisk (sfsRblock dev diskblock)

/-- `sfs_partialio`. With a `skipstart` that is the remainder of a negative offset the sum in the
assertion wraps around, and the pointer into `iobuf` is out of bounds. -/
def sfsPartialio (sv skipstart len : Nat) : SfsIoM δ Unit := do
  let (_, uio) ← get
  let doalloc := uio.uioRw = .write
  assert .sfsPartialioSize (uint32 (skipstart + len) ≤ blockSize)
  let fileblock := uint32 (uio.uioOffset.tdiv blockSize)
  let diskblock ← onSfs (sfsBmap dev sv fileblock doalloc)
  let iobuf ← onSfs (sfsPartialioLoad dev uio.uioRw diskblock)
  assert .bufferBounds (skipstart + len ≤ blockSize)
  let moved ← onUio (uiomove (fun k => iobuf.toBytes (skipstart + k)) len)
  match uio.uioRw with
  | .write =>
      let iobuf := Block.ofBytes (iobuf.toBytes.overlay skipstart len moved)
      onSfs (onDisk (sfsWblock dev iobuf diskblock))
  | .read => pure ()

/-- The transfer in `sfs_blockio`: the offset and the residue of the `uio` are replaced by those
of the block on the device, and put back with the progress that was made. -/
def sfsBlockioTransfer (diskblock : Nat) : SfsIoM δ Unit := do
  let (_, uio) ← get
  let saveoff := uio.uioOffset
  let diskoff := int32 (diskblock * blockSize)
  assert .sfsBlockioResid (blockSize ≤ uio.uioResid)
  let saveres := int32 uio.uioResid
  modify fun pair => (pair.1, { pair.2 with uioOffset := diskoff, uioResid := blockSize })
  let result ← attempt (onDevice (sfsRwblock dev))
  modify fun pair => (pair.1, { pair.2 with
    uioOffset := int32 (int32 (pair.2.uioOffset - diskoff) + saveoff)
    uioResid := uint32 (pair.2.uioResid - blockSize + saveres) })
  ofExcept result

/-- `sfs_blockio`. -/
def sfsBlockio (sv : Nat) : SfsIoM δ Unit := do
  let (_, uio) ← get
  let doalloc := uio.uioRw = .write
  let fileblock := uint32 (uio.uioOffset.tdiv blockSize)
  let diskblock ← onSfs (sfsBmap dev sv fileblock doalloc)
  if diskblock = 0 then
    assert .sfsBlockioRw (uio.uioRw = .read)
    onUio (uiomovezeros blockSize)
  else
    sfsBlockioTransfer dev diskblock

/-- `for (i=0; i<nblocks; i++)` in `sfs_io`. -/
def sfsIoLoop (sv : Nat) : (nblocks : Nat) → SfsIoM δ Unit
  | 0 => pure ()
  | nblocks + 1 => do
      sfsBlockio dev sv
      sfsIoLoop sv nblocks

/-- The leading partial block in `sfs_io`. -/
def sfsIoFirst (sv : Nat) : SfsIoM δ Unit := do
  let (_, uio) ← get
  let blkoff := uint32 (uio.uioOffset.tmod blockSize)
  if blkoff ≠ 0 then
    sfsPartialio dev sv blkoff (min (uint32 (blockSize - blkoff)) uio.uioResid)

/-- The whole blocks and the trailing partial block in `sfs_io`. -/
def sfsIoRest (sv : Nat) : SfsIoM δ Unit := do
  let (_, uio) ← get
  if uio.uioResid ≠ 0 then
    assert .sfsIoAligned (uio.uioOffset.tmod blockSize = 0)
    sfsIoLoop dev sv (uio.uioResid / blockSize)
    let (_, uio) ← get
    assert .sfsIoRest (uio.uioResid < blockSize)
    if 0 < uio.uioResid then
      sfsPartialio dev sv 0 uio.uioResid

/-- `sfs_io` up to the label `out`. -/
def sfsIoTransfer (sv : Nat) : SfsIoM δ Unit := do
  sfsIoFirst dev sv
  sfsIoRest dev sv

/-- What `sfs_io` does at the label `out`. -/
def sfsIoOut (sv extraresid : Nat) : SfsIoM δ Unit := do
  let (_, uio) ← get
  let v ← onSfs (deref sv)
  if uio.uioRw = .write ∧ int32 v.svI.sfiSize.toNat < uio.uioOffset then
    onSfs (updateInode sv fun inode => inode.setSize (uint32 uio.uioOffset))
  modify fun pair =>
    (pair.1, { pair.2 with uioResid := uint32 (pair.2.uioResid + extraresid) })

/-- `sfs_io` after the check for the end of the file. -/
def sfsIoBody (sv extraresid : Nat) : SfsIoM δ Unit := do
  let result ← attempt (sfsIoTransfer dev sv)
  sfsIoOut sv extraresid
  ofExcept result

/-- `sfs_io`. -/
def sfsIo (sv : Nat) : SfsIoM δ Unit := do
  let (_, uio) ← get
  match uio.uioRw with
  | .write => sfsIoBody dev sv 0
  | .read =>
      let v ← onSfs (deref sv)
      let size := int32 v.svI.sfiSize.toNat
      let endpos := int32 (uio.uioOffset + uio.uioResid)
      if size ≤ uio.uioOffset then
        pure ()
      else if size < endpos then
        let extraresid := uint32 (endpos - size)
        assert .sfsIoExtraresid (extraresid < uio.uioResid)
        modify fun pair =>
          (pair.1, { pair.2 with uioResid := pair.2.uioResid - extraresid })
        sfsIoBody dev sv extraresid
      else
        sfsIoBody dev sv 0

/-! ## Truncation -/

/-- The loop over the direct blocks in `sfs_truncate`. -/
def sfsTruncateDirect (sv blocklen : Nat) : List (Fin sfsNdirect) → SfsM δ Unit
  | [] => pure ()
  | i :: rest => do
      let v ← deref sv
      let block := (v.svI.sfiDirect i).toNat
      if blocklen ≤ i ∧ block ≠ 0 then
        sfsBfree block
        updateInode sv fun inode => inode.setDirect i 0
      sfsTruncateDirect sv blocklen rest

/-- The loop over the indirect block in `sfs_truncate`, with `idbuf`, `hasnonzero` and
`iddirty`. -/
def sfsTruncateIdbuf (blocklen : Nat) :
    List (Fin sfsDbperidb) → Words × Bool × Bool → SfsM δ (Words × Bool × Bool)
  | [], state => pure state
  | j :: rest, (idbuf, hasnonzero, iddirty) => do
      if blocklen < sfsNdirect + j ∧ idbuf j ≠ 0 then
        sfsBfree (idbuf j).toNat
        sfsTruncateIdbuf blocklen rest (Function.update idbuf j 0, hasnonzero, true)
      else
        sfsTruncateIdbuf blocklen rest (idbuf, hasnonzero || idbuf j ≠ 0, iddirty)

/-- The part of `sfs_truncate` that is about the indirect block. -/
def sfsTruncateIndirect (sv blocklen : Nat) : SfsM δ Unit := do
  let v ← deref sv
  let idblock := v.svI.sfiIndirect.toNat
  let highblock := sfsNdirect + sfsDbperidb - 1
  if blocklen < highblock ∧ idblock ≠ 0 then
    let data ← onDisk (sfsRblock dev idblock)
    let (idbuf, hasnonzero, iddirty) ←
      sfsTruncateIdbuf blocklen (List.finRange sfsDbperidb) (data.toWords, false, false)
    if hasnonzero = false then
      sfsBfree idblock
      updateInode sv fun inode => inode.setIndirect 0
    else if iddirty then
      onDisk (sfsWblock dev (Block.ofWords idbuf) idblock)

/-- `sfs_truncate`. -/
def sfsTruncate (sv : Nat) (len : Int) : SfsM δ Unit := do
  let blocklen := uint32 ((int32 (len + blockSize - 1)).tdiv blockSize)
  sfsTruncateDirect sv blocklen (List.finRange sfsNdirect)
  sfsTruncateIndirect dev sv blocklen
  updateInode sv fun inode => inode.setSize (uint32 len)

/-! ## The directory -/

/-- `sfs_readdir`. -/
def sfsReaddir (sv slot : Nat) : SfsM δ SfsDir := do
  let actualpos := int32 (slot * SfsDir.size)
  let (_, ku) ← withLocal (mkKuio (fun _ => 0) SfsDir.size actualpos .read) (sfsIo dev sv)
  assert .sfsReaddirShort (ku.uioResid = 0)
  pure (SfsDir.ofBytes ku.mem.kernel 0)

/-- `sfs_writedir`. -/
def sfsWritedir (sv : Nat) (sd : SfsDir) (slot : Nat) : SfsM δ Unit := do
  let actualpos := int32 (slot * SfsDir.size)
  let (_, ku) ← withLocal (mkKuio sd.toBytes SfsDir.size actualpos .write) (sfsIo dev sv)
  assert .sfsWritedirShort (ku.uioResid = 0)

/-- `sfs_dir_nentries`. -/
def sfsDirNentries (sv : Nat) : SfsM δ Nat := do
  let v ← deref sv
  assert .sfsDirType (v.svI.sfiType = sfsTypeDir)
  let size := v.svI.sfiSize.toNat
  assert .sfsDirSize (size % SfsDir.size = 0)
  pure (size / SfsDir.size)

/-- What `sfs_dir_findname` hands back: the inode and the slot of the name, if it was found, and
the last free slot that was seen. -/
structure Findname where
  found : Option (Nat × Nat)
  emptyslot : Option Nat

/-- The loop in `sfs_dir_findname`, with `todo` entries left, from the slot `i` on. -/
def sfsDirFindnameLoop (sv : Nat) (name : CString) :
    (todo i : Nat) → Findname → SfsM δ Findname
  | 0, _, result => pure result
  | todo + 1, i, result => do
      let tsd ← sfsReaddir dev sv i
      if tsd.sfdIno = sfsNoino then
        sfsDirFindnameLoop sv name todo (i + 1) { result with emptyslot := some i }
      else if tsd.name = name.chars then
        assert .sfsDirDuplicate (result.found = none)
        sfsDirFindnameLoop sv name todo (i + 1)
          { result with found := some (tsd.sfdIno.toNat, i) }
      else
        sfsDirFindnameLoop sv name todo (i + 1) result

/-- `sfs_dir_findname`; `ENOENT` is a result without `found`. -/
def sfsDirFindname (sv : Nat) (name : CString) : SfsM δ Findname := do
  let nentries ← sfsDirNentries sv
  sfsDirFindnameLoop dev sv name nentries 0 { found := none, emptyslot := none }

/-- `sfs_dir_link`. -/
def sfsDirLink (sv : Nat) (name : CString) (ino : Nat) : SfsM δ Nat := do
  let result ← sfsDirFindname dev sv name
  match result.found with
  | some _ => fail .eexist
  | none =>
      if sfsNamelen < name.chars.length + 1 then
        fail .enametoolong
      else
        let slot ← match result.emptyslot with
          | some slot => pure slot
          | none => sfsDirNentries sv
        sfsWritedir dev sv { sfdIno := UInt32.ofNat ino, sfdName := strcpy name } slot
        pure slot

/-- `sfs_dir_unlink`. -/
def sfsDirUnlink (sv slot : Nat) : SfsM δ Unit :=
  sfsWritedir dev sv { sfdIno := sfsNoino, sfdName := fun _ => 0 } slot

/-! ## The freemap on the disk -/

/-- The loop in `sfs_mapio`, with `todo` blocks of the bitmap left, from block `j` on. -/
def sfsMapioLoop (rw : UioRw) : (todo j : Nat) → SfsM δ Unit
  | 0, _ => pure ()
  | todo + 1, j => do
      match rw with
      | .read =>
          let data ← onDisk (sfsRblock dev (sfsMapLocation + j))
          modify fun sfs => { sfs with
            sfsFreemap := { sfs.sfsFreemap with
              v := sfs.sfsFreemap.v.overlay (j * blockSize) blockSize data.toBytes } }
      | .write =>
          let sfs ← get
          onDisk (sfsWblock dev (Block.ofBytes fun k => sfs.sfsFreemap.v (j * blockSize + k))
            (sfsMapLocation + j))
      sfsMapioLoop rw todo (j + 1)

/-- `sfs_mapio`. -/
def sfsMapio (rw : UioRw) : SfsM δ Unit := do
  let sfs ← get
  sfsMapioLoop dev rw (sfsBitblocks sfs.nblocks) 0

/-- The end of `sfs_domount`, with the new bitmap. -/
def sfsDomountLoad (sfsFreemap : Bitmap) : SfsM δ Unit := do
  modify fun sfs => { sfs with sfsFreemap }
  sfsMapio dev .read
  modify fun sfs => { sfs with sfsSuperdirty := false, sfsFreemapdirty := false }

/-- The free space bitmap in `sfs_domount`. -/
def sfsDomountFreemap : SfsM δ Unit := do
  let sfs ← get
  match ← onHeap (Bitmap.bitmapCreate (sfsBitmapsize sfs.nblocks)) with
  | none => fail .enomem
  | some sfsFreemap => sfsDomountLoad dev sfsFreemap

end Os161
