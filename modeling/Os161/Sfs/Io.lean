import Os161.Dev.Lhd

/-!
# Block input and output of sfs

`sfs_io.c`. A block is read or written by one request to the device, which
`sfs_rwblock` repeats up to ten times while the device answers with `EIO`. The
request lives in a `uio` that the driver advances while it moves the data, and
`sfs_rwblock` does not wind it back before it repeats the request. On a device
that works this does not matter; on the disk driver the effect of a media error
on a write is worked out below.
-/

namespace Os161

variable {δ : Type}

/-! ## The functions -/

/-- What `sfs_rwblock` makes of the result of `d_io`. -/
def sfsCheckIo (retry : Prog Panic (δ × Uio) Errno Unit) :
    Except Errno Unit → Prog Panic (δ × Uio) Errno Unit
  | .error .einval => halt .sfsDioInval
  | .error .eio => retry
  | result => ofExcept result

/-- `sfs_rwblock` when it may still try again `retries` times. -/
def sfsRwblockRetry (dev : Device δ) : (retries : Nat) → Prog Panic (δ × Uio) Errno Unit
  | 0 => do
      let result ← attempt dev.dIo
      sfsCheckIo (fail .eio) result
  | retries + 1 => do
      let result ← attempt dev.dIo
      sfsCheckIo (sfsRwblockRetry dev retries) result

/-- `sfs_rwblock`. -/
def sfsRwblock (dev : Device δ) : Prog Panic (δ × Uio) Errno Unit :=
  sfsRwblockRetry dev 10

/-- `SFSUIO`: the request for a block; the byte offset is an `off_t`. -/
def sfsuio (data : Block) (block : Nat) (rw : UioRw) : Uio :=
  mkKuio data.toBytes blockSize (int32 (block * blockSize)) rw

/-- `sfs_rblock`. -/
def sfsRblock (dev : Device δ) (block : Nat) : Prog Panic δ Errno Block := do
  let (_, uio) ← withLocal (sfsuio Block.zero block .read) (sfsRwblock dev)
  pure (Block.ofBytes uio.mem.kernel)

/-- `sfs_wblock`. -/
def sfsWblock (dev : Device δ) (data : Block) (block : Nat) : Prog Panic δ Errno Unit := do
  let _ ← withLocal (sfsuio data block .write) (sfsRwblock dev)
  pure ()

/-! ## The request -/

theorem sfsuio_fits (data : Block) (block : Nat) (rw : UioRw) :
    (sfsuio data block rw).Fits blockSize := by
  have le_offset := le_int32 (block * blockSize)
  have offset_lt := int32_lt (block * blockSize)
  rw [sfsuio, mkKuio]
  refine ⟨Nat.le_refl _, Nat.le_refl _, ?_, rfl, ?_, ?_⟩
  · norm_num [blockSize]
  · simpa only using le_offset
  · simpa only using offset_lt

theorem sfsuio_accessible (data : Block) (block : Nat) (rw : UioRw) :
    (sfsuio data block rw).Accessible blockSize :=
  Or.inl rfl

theorem sfsuio_data (data : Block) (block : Nat) (rw : UioRw) :
    (sfsuio data block rw).data = data.toBytes := by
  funext k
  simp [sfsuio, mkKuio, Uio.data, Memory.load]

theorem sfsuio_offset (data : Block) {block : Nat} (rw : UioRw) (small : block < 2 ^ 22) :
    (sfsuio data block rw).uioOffset = block * blockSize := by
  have offsetEq : int32 (block * blockSize) = block * blockSize := by
    simp only [blockSize]
    rw [int32_eq (by omega) (by omega)]
  simpa only [sfsuio, mkKuio] using offsetEq

/-! ## On a device that obeys -/

section Obeying

variable {dev : Device δ} {content : δ → Nat → Block} {faults : Nat → Prop} {d : δ} {uio : Uio}
  {block : Nat}

theorem Transferred.congr {d' : δ} {after : δ × Uio} (contentEq : content d' = content d)
    (transferred : Transferred content block (d', uio) after) :
    Transferred content block (d, uio) after := by
  simpa only [Transferred, contentEq] using transferred

section Obeys

variable (obeys : dev.Obeys content faults) (inside : block < dev.dBlocks)
include obeys inside

/-- A block is transferred, or the memory of the caller is not accessible, or the device refuses. -/
theorem sfsRwblockRetry_obeys (offsetEq : uio.uioOffset = block * blockSize)
    (resid : uio.uioResid = blockSize) (fits : uio.Fits blockSize) (retries : Nat) :
    ∀ d : δ, Ensures (sfsRwblockRetry dev retries) (d, uio) (fun _ => False)
      (fun failure after => content after.1 = content d ∧
        (failure = .efault ∧ ¬uio.Accessible blockSize ∧ (∃ mem, after.2 = uio.setMem mem) ∨
          faults block ∧ after.2 = uio))
      (fun _ after => uio.Accessible blockSize ∧ Transferred content block (d, uio) after) := by
  induction retries with
  | zero =>
      intro d
      simp only [sfsRwblockRetry, ensures_bind, ensures_attempt]
      apply (obeys.transfers d uio block inside offsetEq resid fits).answers
      · rintro failure after ⟨contentEq, refused | ⟨notInval, fault, same⟩⟩
        · rcases refused with ⟨rfl, refused⟩
          exact ⟨contentEq, Or.inl ⟨rfl, refused⟩⟩
        · cases failure <;>
            first
            | exact absurd rfl notInval
            | exact ⟨contentEq, Or.inr ⟨fault, same⟩⟩
      · exact fun _ _ transferred => transferred
  | succ retries ih =>
      intro d
      simp only [sfsRwblockRetry, ensures_bind, ensures_attempt]
      apply (obeys.transfers d uio block inside offsetEq resid fits).answers
      · rintro failure ⟨d', uio'⟩ ⟨contentEq, refused | ⟨notInval, fault, rfl⟩⟩
        · rcases refused with ⟨rfl, refused⟩
          exact ⟨contentEq, Or.inl ⟨rfl, refused⟩⟩
        · by_cases again : failure = .eio
          · subst again
            apply (ih d').answers
            · exact fun _ _ failed => ⟨failed.1.trans contentEq, failed.2⟩
            · exact fun _ _ transferred => ⟨transferred.1, transferred.2.congr contentEq⟩
          · cases failure <;>
              first
              | exact absurd rfl notInval
              | exact absurd rfl again
              | exact ⟨contentEq, Or.inr ⟨fault, rfl⟩⟩
      · exact fun _ _ transferred => transferred

theorem sfsRblock_obeys (small : block < 2 ^ 22) :
    Ensures (sfsRblock dev block) d (fun _ => False)
      (fun _ after => content after = content d ∧ faults block)
      (fun data after => content after = content d ∧ data = content d block) := by
  simp only [sfsRblock, ensures_bind, ensures_withLocal, ensures_pure]
  have fits := sfsuio_fits Block.zero block .read
  apply (sfsRwblockRetry_obeys obeys inside (sfsuio_offset _ _ small) rfl fits 10 d).answers
  · rintro failure after ⟨contentEq, ⟨_, refused, _⟩ | ⟨fault, _⟩⟩
    · exact absurd (sfsuio_accessible ..) refused
    · exact ⟨contentEq, fault⟩
  · rintro _ ⟨after, uio⟩ ⟨_, ⟨writing, _⟩ | ⟨_, contentEq, rfl⟩⟩
    · cases writing
    · refine ⟨contentEq, ?_⟩
      rw [← Block.ofBytes_toBytes (content d block)]
      apply Block.ofBytes_congr
      intro k below
      simp [Uio.advance, Uio.fill, Uio.setMem, sfsuio, mkKuio, Memory.store, Bytes.overlay, below]

theorem sfsWblock_obeys (small : block < 2 ^ 22) (data : Block) :
    Ensures (sfsWblock dev data block) d (fun _ => False)
      (fun _ after => content after = content d ∧ faults block)
      (fun _ after => content after = Function.update (content d) block data) := by
  simp only [sfsWblock, ensures_bind, ensures_withLocal, ensures_pure]
  have fits := sfsuio_fits data block .write
  apply (sfsRwblockRetry_obeys obeys inside (sfsuio_offset _ _ small) rfl fits 10 d).answers
  · rintro failure after ⟨contentEq, ⟨_, refused, _⟩ | ⟨fault, _⟩⟩
    · exact absurd (sfsuio_accessible ..) refused
    · exact ⟨contentEq, fault⟩
  · rintro _ after ⟨_, ⟨_, contentEq, _⟩ | ⟨reading, _⟩⟩
    · rw [contentEq, sfsuio_data, Block.ofBytes_toBytes]
    · cases reading

end Obeys

end Obeying

/-! ## Media errors -/

section MediaErrors

variable {nsect block : Nat} {outcomes : Nat → Bool} {disk disk' : Lhd} {uio : Uio}
  {data : Block}

/-- Between two states the disk has completed a write of `data` to the sector `block`. -/
def Lhd.Completed (before after : Lhd) (block : Nat) (data : Block) : Prop :=
  ∃ during, after.written = during ++ before.written ∧ (block, data) ∈ during

/-- The write returns success only when the disk has completed it, and an error otherwise. -/
def ReportsWrite {σ : Type} (write : Prog Panic σ Errno Unit) (disk : σ → Lhd) (state : σ)
    (block : Nat) (data : Block) : Prop :=
  Prog.Ensures write state (fun _ => False) (fun _ _ => True)
    (fun _ state' => (disk state).Completed (disk state') block data)

/-- The sector in which the driver looks for a block. -/
def sectorOf (block : Nat) : Nat :=
  uint32 ((int32 (block * blockSize)).tdiv blockSize)

/-- The block is the sector of the disk that the driver finds for it, and the disk carries out
its next operation. -/
def WriteTaken (nsect : Nat) (outcomes : Nat → Bool) (disk : Lhd) (block : Nat) : Prop :=
  sectorOf block = block ∧ block < nsect ∧ outcomes disk.ops = true

instance : Decidable (WriteTaken nsect outcomes disk block) :=
  inferInstanceAs (Decidable (_ ∧ _ ∧ _))

theorem blockSize_dvd_int32 {value : Int} (aligned : (blockSize : Int) ∣ value) :
    (blockSize : Int) ∣ int32 value := by
  simp only [blockSize, int32, Int.bmod_def] at aligned ⊢
  split <;> omega

theorem Lhd.Completed.written_ne (completed : disk.Completed disk' block data) :
    disk'.written ≠ disk.written := by
  rcases completed with ⟨during, writtenEq, member⟩
  intro same
  rw [same, List.self_eq_append_left] at writtenEq
  rw [writtenEq] at member
  cases member

theorem Lhd.completed_iff_of_cons {sector : Nat} {buf : Block}
    (writtenEq : disk'.written = (sector, buf) :: disk.written) :
    disk.Completed disk' block data ↔ (block, data) = (sector, buf) := by
  have split : ∀ during, disk'.written = during ++ disk.written ↔ [(sector, buf)] = during := by
    intro during
    rw [writtenEq, ← List.singleton_append, List.append_left_inj]
  simp only [Lhd.Completed, split, exists_eq_left', List.mem_singleton]

/-- When the data has already been moved, trying again writes nothing and returns success. -/
theorem not_reportsWrite_retry (retries : Nat) (resid : uio.uioResid = 0)
    (aligned : uio.uioOffset.tmod blockSize = 0) (writtenEq : disk'.written = disk.written) :
    ¬Ensures (sfsRwblockRetry (lhdDevice nsect outcomes) retries) (disk', uio)
      (fun _ => False) (fun _ _ => True) (fun _ after => disk.Completed after.1 block data) := by
  cases retries <;>
  · simp only [sfsRwblockRetry, ensures_bind, ensures_attempt, lhdDevice,
      lhdIo_none resid aligned, sfsCheckIo, Prog.ensures_halt, ensures_ofExcept_ok]
    split
    · exact fun completed => completed.written_ne writtenEq
    · exact fun impossible => impossible

/-- A block write over the disk driver reports truthfully exactly when its first attempt is
carried out; only memory of the caller that cannot be read is noticed otherwise. -/
theorem sfsRwblock_reportsWrite_iff (writing : uio.uioRw = .write)
    (offsetEq : uio.uioOffset = int32 (block * blockSize)) (resid : uio.uioResid = blockSize)
    (fits : uio.Fits blockSize) :
    ReportsWrite (sfsRwblock (lhdDevice nsect outcomes)) Prod.fst (disk, uio) block
        (Block.ofBytes uio.data) ↔
      (uio.Accessible blockSize → WriteTaken nsect outcomes disk block) ∧
        (¬uio.Accessible blockSize → uint32 (sectorOf block + 1) ≤ nsect) := by
  have aligned : (blockSize : Int) ∣ uio.uioOffset := by
    rw [offsetEq]
    exact blockSize_dvd_int32 (Int.dvd_mul_left _ _)
  have sectorEq : uint32 (uio.uioOffset.tdiv blockSize) = sectorOf block := by
    rw [offsetEq, sectorOf]
  simp only [ReportsWrite, sfsRwblock, sfsRwblockRetry, ensures_bind, ensures_attempt]
  rw [lhdDevice, lhdIo_one resid (Int.tmod_eq_zero_of_dvd aligned) sectorEq]
  by_cases inside : uint32 (sectorOf block + 1) ≤ nsect
  · rw [if_pos inside]
    rcases (lhdSector_write writing fits).outcomes with ⟨_, _, impossible⟩ |
      ⟨failure, ⟨disk', uio'⟩, outcome, failed⟩ | ⟨_, ⟨disk', uio'⟩, outcome, written⟩
    · exact impossible.elim
    · rw [ensures_of_fail_eq outcome]
      rcases failed with ⟨rfl, refused, _⟩ |
        ⟨accessible, rfl, rfl, ⟨rfl, outside⟩ | ⟨rfl, _, failed⟩⟩
      · simp only [sfsCheckIo, Prog.ensures_ofExcept_error, refused, inside, false_imp_iff,
          imp_true_iff, and_self]
      · simp only [sfsCheckIo, Prog.ensures_halt, accessible, WriteTaken, forall_const,
          not_true_eq_false, false_imp_iff, and_true, false_iff]
        rintro ⟨same, below, _⟩
        omega
      · apply iff_of_false
        · apply not_reportsWrite_retry 9
          · simp [Uio.advance, resid]
          · apply Int.tmod_eq_zero_of_dvd
            exact blockSize_dvd_int32 (Int.dvd_add aligned (Int.dvd_refl _))
          · rfl
        · rintro ⟨taken, _⟩
          have carried : outcomes disk.ops = true := (taken accessible).2.2
          rw [failed] at carried
          cases carried
    · rcases written with ⟨accessible, _, below, carried, _, writtenEq⟩
      rw [ensures_of_ok_eq outcome]
      simp only [sfsCheckIo, ensures_ofExcept_ok, Lhd.completed_iff_of_cons writtenEq]
      simp only [accessible, WriteTaken, carried, forall_const, not_true_eq_false, false_imp_iff,
        and_true, Prod.mk.injEq]
      omega
  · rw [if_neg inside]
    simp only [sfsCheckIo, Prog.ensures_halt, false_iff]
    rintro ⟨taken, refused⟩
    by_cases accessible : uio.Accessible blockSize
    · rcases taken accessible with ⟨same, below, _⟩
      have next_le := uint32_le (sectorOf block + 1) (by omega)
      omega
    · exact inside (refused accessible)

theorem sfsWblock_reportsWrite_iff (nsect block : Nat) (outcomes : Nat → Bool) (disk : Lhd)
    (data : Block) :
    ReportsWrite (sfsWblock (lhdDevice nsect outcomes) data block) id disk block data ↔
      WriteTaken nsect outcomes disk block := by
  have offsetEq : (sfsuio data block .write).uioOffset = int32 (block * blockSize) := by
    rw [sfsuio, mkKuio]
  have request : ReportsWrite (sfsWblock (lhdDevice nsect outcomes) data block) id disk block data ↔
      ReportsWrite (sfsRwblock (lhdDevice nsect outcomes)) Prod.fst
        (disk, sfsuio data block .write) block (Block.ofBytes (sfsuio data block .write).data) := by
    simp only [ReportsWrite, sfsWblock, ensures_bind, ensures_withLocal,
      ensures_pure, sfsuio_data, Block.ofBytes_toBytes, id]
  rw [request, sfsRwblock_reportsWrite_iff rfl offsetEq rfl (sfsuio_fits ..)]
  simp only [sfsuio_accessible, forall_const, not_true_eq_false, false_imp_iff, and_true]

/-- A block write reports success only for data that is on the disk, and an error otherwise,
exactly when the block is a sector of the disk and the first attempt does not end with a media
error: after one the `uio` is used up, and the second attempt succeeds without a transfer. -/
theorem block_write_reported_iff (nsect block : Nat) (outcomes : Nat → Bool) (disk : Lhd)
    (data : Block) :
    (ReportsWrite (sfsWblock (lhdDevice nsect outcomes) data block) id disk block data ↔
      WriteTaken nsect outcomes disk block) ∧
    ∀ uio : Uio, uio.uioRw = .write → uio.uioOffset = int32 (block * blockSize) →
      uio.uioResid = blockSize → uio.Fits blockSize →
      (ReportsWrite (sfsRwblock (lhdDevice nsect outcomes)) Prod.fst (disk, uio) block
          (Block.ofBytes uio.data) ↔
        (uio.Accessible blockSize → WriteTaken nsect outcomes disk block) ∧
          (¬uio.Accessible blockSize → uint32 (sectorOf block + 1) ≤ nsect)) :=
  ⟨sfsWblock_reportsWrite_iff nsect block outcomes disk data,
    fun _ writing offsetEq resid fits =>
      sfsRwblock_reportsWrite_iff writing offsetEq resid fits⟩

def blankDisk : Lhd := { sectors := fun _ => Block.zero, ops := 0, written := [] }

theorem block_write_reported_blank_disk :
    WriteTaken 4 (fun n => n = 0) blankDisk 2 ∧
      ReportsWrite (sfsWblock (lhdDevice 4 fun n => n = 0) (fun _ => 1) 2) id blankDisk 2
        (fun _ => 1) :=
  have taken : WriteTaken 4 (fun n => n = 0) blankDisk 2 := by decide
  ⟨taken, (block_write_reported_iff 4 2 (fun n => n = 0) blankDisk (fun _ => 1)).1.mpr taken⟩

/-- The first attempt ends with a media error, and the write that returned success has not
happened. -/
theorem block_write_lost_after_media_error :
    ∃ disk', sfsWblock (lhdDevice 4 fun n => n ≠ 0) (fun _ => 1) 2 blankDisk =
        .ok (.ok (), disk') ∧ disk'.written = [] ∧ disk'.sectors 2 = Block.zero :=
  ⟨_, rfl, rfl, rfl⟩

end MediaErrors

end Os161
