import Os161.Dev.Device

/-!
# The disk driver

`lhd_io` of `lhd.c`. The disk is its sectors, the number of operations it has
carried out, and the list of the writes it has completed. Which operations fail
with a media error is a parameter: the answer to the `n`-th operation. The two
semaphores of the driver, which order the requests of several threads, are not
part of this model of a single request.
-/

namespace Os161

structure Lhd where
  sectors : Nat → Block
  ops : Nat
  written : List (Nat × Block)

/-! ## The device -/

/-- The status register when an operation is over: `LHD_OK`, `LHD_INVSECT` or `LHD_MEDIA`. -/
inductive LhdStatus where
  | ok
  | invsect
  | media
  deriving DecidableEq

/-- `lhd_code_to_errno`, for the codes that `lhd_irq` reports. -/
def lhdCodeToErrno : LhdStatus → Option Errno
  | .ok => none
  | .invsect => some .einval
  | .media => some .eio

/-- One operation of the device: what becomes of the disk and of its buffer. -/
def Lhd.operate (nsect : Nat) (outcomes : Nat → Bool) (disk : Lhd) (write : Bool) (sector : Nat)
    (buf : Block) : LhdStatus × Block × Lhd :=
  let started := { disk with ops := disk.ops + 1 }
  if nsect ≤ sector then
    (.invsect, buf, started)
  else if outcomes disk.ops = false then
    (.media, buf, started)
  else if write then
    (.ok, buf, { started with
      sectors := Function.update disk.sectors sector buf
      written := (sector, buf) :: disk.written })
  else
    (.ok, disk.sectors sector, started)

/-! ## The driver -/

abbrev LhdM := Prog Panic (Lhd × Uio) Errno

namespace LhdM

def onUio {α : Type} (program : UioM α) : LhdM α :=
  zoom Prod.snd (fun uio pair => (pair.1, uio)) program

theorem ensures_onUio {α : Type} {program : UioM α} {pair : Lhd × Uio} {panics : Panic → Prop}
    {fails : Errno → Lhd × Uio → Prop} {returns : α → Lhd × Uio → Prop} :
    Ensures (onUio program) pair panics fails returns ↔
      Ensures program pair.2 panics (fun failure uio => fails failure (pair.1, uio))
        (fun value uio => returns value (pair.1, uio)) :=
  ensures_zoom

end LhdM

/-- The body of the loop in `lhd_io`, for one sector. -/
def lhdSector (nsect : Nat) (outcomes : Nat → Bool) (sector : Nat) : LhdM Unit := do
  let (disk, uio) ← get
  match uio.uioRw with
  | .write =>
      let buf ← LhdM.onUio (uiomove Block.zero.toBytes blockSize)
      let (status, _, disk') := disk.operate nsect outcomes true sector (Block.ofBytes buf)
      modify fun pair => (disk', pair.2)
      match lhdCodeToErrno status with
      | some failure => fail failure
      | none => pure ()
  | .read =>
      let (status, buf, disk') := disk.operate nsect outcomes false sector Block.zero
      modify fun pair => (disk', pair.2)
      match lhdCodeToErrno status with
      | some failure => fail failure
      | none =>
          let _ ← LhdM.onUio (uiomove buf.toBytes blockSize)
          pure ()

/-- `for (i=0; i<len; i++)` in `lhd_io`, from sector `sector` on. -/
def lhdLoop (nsect : Nat) (outcomes : Nat → Bool) : (len sector : Nat) → LhdM Unit
  | 0, _ => pure ()
  | len + 1, sector => do
      lhdSector nsect outcomes sector
      lhdLoop nsect outcomes len (uint32 (sector + 1))

/-- `lhd_io`. -/
def lhdIo (nsect : Nat) (outcomes : Nat → Bool) : LhdM Unit := do
  let (_, uio) ← get
  let sector := uint32 (uio.uioOffset.tdiv blockSize)
  let sectoff := uint32 (uio.uioOffset.tmod blockSize)
  let len := uio.uioResid / blockSize
  let lenoff := uio.uioResid % blockSize
  if sectoff ≠ 0 ∨ lenoff ≠ 0 then
    fail .einval
  else if nsect < uint32 (sector + len) then
    fail .einval
  else
    lhdLoop nsect outcomes len sector

/-- The disk as a device; `outcomes` are the answers it will give. -/
def lhdDevice (nsect : Nat) (outcomes : Nat → Bool) : Device Lhd where
  dBlocks := nsect
  dIo := lhdIo nsect outcomes

/-! ## Requests for one block -/

variable {nsect sector : Nat} {outcomes : Nat → Bool} {disk : Lhd} {uio : Uio}

variable {panics : Panic → Prop} {fails : Errno → Lhd × Uio → Prop}
  {returns : Unit → Lhd × Uio → Prop}

/-- A request for one sector is one operation, if it is not past the end of the disk. -/
theorem lhdIo_one (resid : uio.uioResid = blockSize) (aligned : uio.uioOffset.tmod blockSize = 0)
    (sectorEq : uint32 (uio.uioOffset.tdiv blockSize) = sector) :
    Ensures (lhdIo nsect outcomes) (disk, uio) panics fails returns ↔
      if uint32 (sector + 1) ≤ nsect then
        Ensures (lhdSector nsect outcomes sector) (disk, uio) panics fails returns
      else
        fails .einval (disk, uio) := by
  have lenEq : uio.uioResid / blockSize = 1 := by rw [resid]; rfl
  have lenoffEq : uio.uioResid % blockSize = 0 := by rw [resid]; rfl
  have sectoffEq : uint32 (uio.uioOffset.tmod blockSize) = 0 := by rw [aligned]; rfl
  simp only [lhdIo, ensures_bind, ensures_get, lenEq, lenoffEq, sectoffEq, sectorEq,
    ne_eq, not_true_eq_false, or_self, if_false, ensures_ite, ensures_fail, lhdLoop,
    ensures_pure, Nat.cast_one]
  by_cases inside : uint32 (sector + 1) ≤ nsect
  · rw [if_neg (by omega), if_pos inside]
  · rw [if_pos (by omega), if_neg inside]

theorem lhdIo_none (resid : uio.uioResid = 0) (aligned : uio.uioOffset.tmod blockSize = 0) :
    Ensures (lhdIo nsect outcomes) (disk, uio) panics fails returns ↔
      if uint32 (uint32 (uio.uioOffset.tdiv blockSize)) ≤ nsect then
        returns () (disk, uio)
      else
        fails .einval (disk, uio) := by
  have lenEq : uio.uioResid / blockSize = 0 := by rw [resid]; rfl
  have lenoffEq : uio.uioResid % blockSize = 0 := by rw [resid]; rfl
  have sectoffEq : uint32 (uio.uioOffset.tmod blockSize) = 0 := by rw [aligned]; rfl
  simp only [lhdIo, ensures_bind, ensures_get, lenEq, lenoffEq, sectoffEq, ne_eq, not_true_eq_false,
    or_self, if_false, ensures_ite, ensures_fail, lhdLoop, ensures_pure, Nat.cast_zero, add_zero]
  by_cases inside : uint32 (uint32 (uio.uioOffset.tdiv blockSize)) ≤ nsect
  · rw [if_neg (by omega), if_pos inside]
  · rw [if_pos (by omega), if_neg inside]

theorem lhdSector_write (writing : uio.uioRw = .write) (fits : uio.Fits blockSize) :
    Ensures (lhdSector nsect outcomes sector) (disk, uio) (fun _ => False)
      (fun failure after =>
        (failure = .efault ∧ ¬uio.Accessible blockSize ∧ after.1 = disk ∧
          ∃ mem, after.2 = uio.setMem mem) ∨
        (uio.Accessible blockSize ∧ after.2 = uio.advance blockSize ∧
          after.1 = { disk with ops := disk.ops + 1 } ∧
          (failure = .einval ∧ nsect ≤ sector ∨
            failure = .eio ∧ sector < nsect ∧ outcomes disk.ops = false)))
      (fun _ after => uio.Accessible blockSize ∧ after.2 = uio.advance blockSize ∧
        sector < nsect ∧ outcomes disk.ops = true ∧
        after.1.sectors = Function.update disk.sectors sector (Block.ofBytes uio.data) ∧
        after.1.written = (sector, Block.ofBytes uio.data) :: disk.written) := by
  simp only [lhdSector, ensures_bind, ensures_get, writing, LhdM.ensures_onUio]
  apply (Uio.uiomove_spec fits Block.zero.toBytes).answers
  · rintro failure uio' ⟨rfl, refused, mem, rfl⟩
    exact Or.inl ⟨rfl, refused, trivial, mem, rfl⟩
  · rintro buf uio' ⟨accessible, between, moved, rfl⟩
    rcases moved with ⟨_, rfl, rfl⟩ | ⟨reading, _⟩
    · have accessible := accessible (by decide)
      have whole : Block.ofBytes (Block.zero.toBytes.overlay 0 blockSize between.data) =
          Block.ofBytes between.data := by
        apply Block.ofBytes_congr
        intro k inside
        simp [Bytes.overlay, inside]
      simp only [ensures_modify, whole, Lhd.operate]
      by_cases outside : nsect ≤ sector
      · simp only [outside, if_true, lhdCodeToErrno, ensures_fail]
        exact Or.inr ⟨accessible, trivial, trivial, Or.inl ⟨trivial, trivial⟩⟩
      · cases outcome : outcomes disk.ops with
        | false =>
            simp only [outside, if_false, if_true, lhdCodeToErrno, ensures_fail]
            exact Or.inr ⟨accessible, trivial, trivial, Or.inr ⟨trivial, by omega, trivial⟩⟩
        | true =>
            simp only [outside, if_false, if_true, Bool.true_eq_false, lhdCodeToErrno, ensures_pure]
            exact ⟨accessible, trivial, by omega, trivial, trivial, trivial⟩
    · cases writing.symm.trans reading

theorem lhdSector_read (reading : uio.uioRw = .read) (fits : uio.Fits blockSize)
    (inside : sector < nsect) (succeeds : outcomes disk.ops = true) :
    Ensures (lhdSector nsect outcomes sector) (disk, uio) (fun _ => False)
      (fun failure after => failure = .efault ∧ ¬uio.Accessible blockSize ∧
        after.1.sectors = disk.sectors ∧ ∃ mem, after.2 = uio.setMem mem)
      (fun _ after => uio.Accessible blockSize ∧ after.1.sectors = disk.sectors ∧
        after.2 = (uio.fill blockSize (disk.sectors sector).toBytes).advance blockSize) := by
  simp only [lhdSector, ensures_bind, ensures_get, reading, ensures_modify,
    Lhd.operate, not_le.mpr inside, succeeds, if_false, Bool.true_eq_false, lhdCodeToErrno,
    LhdM.ensures_onUio, ensures_pure, Bool.false_eq_true]
  apply (Uio.uiomove_spec fits (disk.sectors sector).toBytes).answers
  · rintro failure uio' ⟨rfl, refused, mem, rfl⟩
    exact ⟨rfl, refused, trivial, mem, rfl⟩
  · rintro buf uio' ⟨accessible, between, moved, rfl⟩
    rcases moved with ⟨writing, _⟩ | ⟨_, _, rfl⟩
    · cases reading.symm.trans writing
    · exact ⟨accessible (by decide), trivial, rfl⟩

theorem sector_of_offset {block : Nat} (offsetEq : uio.uioOffset = block * blockSize)
    (fits : uio.Fits blockSize) :
    uio.uioOffset.tmod blockSize = 0 ∧ uint32 (uio.uioOffset.tdiv blockSize) = block ∧
      uint32 (block + 1) = block + 1 := by
  have offset_lt := fits.offset_lt
  rw [offsetEq] at offset_lt ⊢
  simp only [blockSize] at offset_lt ⊢
  refine ⟨Int.mul_tmod_left _ _, ?_, ?_⟩
  · rw [Int.mul_tdiv_cancel _ (by decide), uint32_eq (by omega) (by omega)]
    omega
  · rw [uint32_eq (by omega) (by omega)]
    omega

theorem lhdDevice_works (nsect : Nat) : (lhdDevice nsect fun _ => true).Works Lhd.sectors where
  transfers := by
    intro disk uio block inside offsetEq resid fits
    rcases sector_of_offset offsetEq fits with ⟨aligned, sectorEq, nextEq⟩
    have inside : block < nsect := inside
    rw [lhdDevice, lhdIo_one resid aligned sectorEq, if_pos (by omega)]
    cases rw : uio.uioRw with
    | write =>
        apply (lhdSector_write rw fits).answers
        · rintro failure after (⟨rfl, refused, same, stopped⟩ |
            ⟨_, _, _, ⟨_, outside⟩ | ⟨_, _, failed⟩⟩)
          · exact ⟨rfl, refused, by rw [same], stopped⟩
          · omega
          · cases failed
        · rintro _ after ⟨accessible, uioEq, _, _, sectorsEq, _⟩
          exact ⟨accessible, Or.inl ⟨rw, sectorsEq, uioEq⟩⟩
    | read =>
        apply (lhdSector_read rw fits inside rfl).answers
        · rintro failure after ⟨rfl, refused, same, stopped⟩
          exact ⟨rfl, refused, same, stopped⟩
        · rintro _ after ⟨accessible, same, uioEq⟩
          exact ⟨accessible, Or.inr ⟨rw, same, uioEq⟩⟩

end Os161
