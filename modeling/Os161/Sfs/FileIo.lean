import Os161.Sfs.FileMap

/-!
# Reading and writing files

`sfs_io` moves a range of bytes as a leading partial block, whole blocks and a
trailing partial block. `IoDone` says what has happened when `n` bytes at the
offset `o` of a file have been moved: a write has put them into the content of the
file, a read has put that part of the content into memory. It composes, so that
the three parts of `sfs_io` and the loop over the blocks need no more than a
lemma each; `IoFailed` is the same for a transfer that stops with an error.
-/

namespace Os161

open SfsM SfsIoM SfsInode

variable {δ : Type} {dev : Device δ} {content : δ → Nat → Block} {faults : Nat → Prop}
  {sv o n : Nat} {V V' : Vol} {v v' : SfsVnode} {uio uio' : Uio}

/-- The bytes from `o` on, `n` of them, have been moved. -/
def IoDone (dev : Device δ) (faults : Nat → Prop) (sv o n : Nat) (V : Vol) (v : SfsVnode)
    (uio : Uio) (V' : Vol) (v' : SfsVnode) (uio' : Uio) : Prop :=
  (uio.uioRw = .write ∧
      Updated dev faults sv V v ((v.svI.bytes V.disk).overlay o n uio.data) V' v' ∧
      uio' = uio.advance n) ∨
    (uio.uioRw = .read ∧ (0 < n → uio.Accessible n) ∧ V' = V ∧ v' = v ∧
      uio' = (uio.fill n fun i => v.svI.bytes V.disk (o + i)).advance n)

/-- The transfer has returned; what it moved is inside of the largest possible file. -/
def IoReturned (dev : Device δ) (faults : Nat → Prop) (sv o n : Nat) (V : Vol) (v : SfsVnode)
    (uio : Uio) (V' : Vol) (uio' : Uio) : Prop :=
  (0 < n → o + n ≤ sfsMaxblocks * blockSize) ∧ ∃ v', IoDone dev faults sv o n V v uio V' v' uio'

/-- Why a write stops after `k` of `n` bytes: the file cannot be larger, the volume is full, or
the memory of the caller cannot be read. -/
def WriteStops (o n k : Nat) (V : Vol) (v : SfsVnode) (uio : Uio) (failure : Errno)
    (V' : Vol) : Prop :=
  failure = .einval ∧ sfsMaxblocks * blockSize ≤ o + k ∨
    failure = .enospc ∧ v.svI.ptr V.disk ((o + k) / blockSize) = none ∧
      (∀ block < V.nblocks, V'.Used block) ∨
    failure = .efault ∧ ¬uio.Accessible n

/-- Why a read stops after `k` of `n` bytes. -/
def ReadStops (o n k : Nat) (uio : Uio) (failure : Errno) : Prop :=
  failure = .einval ∧ sfsMaxblocks * blockSize ≤ o + k ∨
    failure = .efault ∧ ¬uio.Accessible n

/-- The transfer has stopped with an error. A write stops at the end of a block; if the device
refuses a block of which a part is written, the `uio` is already behind this part. -/
def IoFailed (dev : Device δ) (faults : Nat → Prop) (sv o n : Nat) (V : Vol) (v : SfsVnode)
    (uio : Uio) (failure : Errno) (V' : Vol) (uio' : Uio) : Prop :=
  (uio.uioRw = .write ∧ ∃ k moved v' mem, k ≤ moved ∧ moved ≤ n ∧ (0 < n → k < n) ∧
      (0 < moved → o + moved ≤ sfsMaxblocks * blockSize) ∧ (0 < k → (o + k) % blockSize = 0) ∧
      (0 < moved → moved = n ∨ (o + moved) % blockSize = 0) ∧
      Updated dev faults sv V v ((v.svI.bytes V.disk).overlay o k uio.data) V' v' ∧
      uio' = (uio.advance moved).setMem mem ∧
      (moved = k ∧ WriteStops o n k V v uio failure V' ∨ ∃ block, faults block)) ∨
    (uio.uioRw = .read ∧ V' = V ∧ ∃ k, uio.Stopped n k uio' ∧
      (ReadStops o n k uio failure ∨ ∃ block, faults block))

/-- The program moves the `n` bytes at `o` of the file, or stops with an error. -/
def Moves (dev : Device δ) (content : δ → Nat → Block) (faults : Nat → Prop) (sv o n : Nat)
    (V : Vol) (v : SfsVnode) (uio : Uio) (program : SfsIoM δ Unit) (s : Sfs δ) : Prop :=
  Ensures program (s, uio) (fun _ => False)
    (fun failure pair => IoFailed dev faults sv o n V v uio failure (pair.1.vol content) pair.2)
    (fun _ pair => IoReturned dev faults sv o n V v uio (pair.1.vol content) pair.2)

/-! ## One transfer after another -/

theorem IoDone.file (file : FileAt dev V sv v)
    (done : IoDone dev faults sv o n V v uio V' v' uio') : FileAt dev V' sv v' := by
  rcases done with ⟨_, updated, _⟩ | ⟨_, _, rfl, rfl, _⟩
  · exact updated.file
  · exact file

section Done

variable (done : IoDone dev faults sv o n V v uio V' v' uio')
include done

theorem IoDone.rw_eq : uio'.uioRw = uio.uioRw := by
  rcases done with ⟨_, _, rfl⟩ | ⟨_, _, _, _, rfl⟩ <;> rfl

theorem IoDone.offset_eq (offsetEq : uio.uioOffset = o) :
    uio'.uioOffset = int32 ((o + n : Nat) : Int) := by
  rw [Nat.cast_add, ← offsetEq]
  rcases done with ⟨_, _, rfl⟩ | ⟨_, _, _, _, rfl⟩ <;> rfl

theorem IoDone.resid_eq : uio'.uioResid = uio.uioResid - n := by
  rcases done with ⟨_, _, rfl⟩ | ⟨_, _, _, _, rfl⟩ <;> rfl

theorem IoDone.fits {m : Nat} (fits : uio.Fits (n + m)) : uio'.Fits m := by
  rcases done with ⟨_, _, rfl⟩ | ⟨_, _, _, _, rfl⟩
  · exact fits.advance
  · exact (fits.fill ..).advance

theorem IoDone.accessible {m : Nat} (accessible : uio.Accessible (n + m)) : uio'.Accessible m := by
  rcases done with ⟨_, _, rfl⟩ | ⟨_, _, _, _, rfl⟩
  · exact accessible.advance
  · exact (accessible.fill ..).advance

end Done

theorem IoDone.zero (file : FileAt dev V sv v) (fits : uio.Fits n) :
    IoDone dev faults sv o 0 V v uio V v uio := by
  cases rw : uio.uioRw with
  | write =>
      refine Or.inl ⟨rw, ?_, fits.advance_zero.symm⟩
      rw [Bytes.overlay_zero]
      exact Updated.refl file
  | read =>
      refine Or.inr ⟨rw, fun impossible => absurd impossible (Nat.lt_irrefl 0), rfl, rfl, ?_⟩
      rw [Uio.fill_zero, fits.advance_zero]

variable {m : Nat} {V₁ : Vol} {v₁ : SfsVnode} {uio₁ : Uio}

theorem IoDone.trans (fits : uio.Fits n) (first : IoDone dev faults sv o n V v uio V₁ v₁ uio₁)
    (second : IoDone dev faults sv (o + n) m V₁ v₁ uio₁ V' v' uio') :
    IoDone dev faults sv o (n + m) V v uio V' v' uio' := by
  rcases first with ⟨writing, updated, rfl⟩ | ⟨reading, accessible, rfl, rfl, rfl⟩
  · rcases second with ⟨_, updated', rfl⟩ | ⟨reading, _⟩
    · refine Or.inl ⟨writing, ?_, Uio.advance_advance ..⟩
      have both := updated.trans updated'
      rw [updated.bytesEq, Bytes.overlay_overlay, Uio.data_advance] at both
      convert both using 2
      funext i
      simp only [Bytes.append]
      split
      · rfl
      · rw [Nat.add_sub_cancel' (by omega)]
    · cases writing.symm.trans reading
  · rcases second with ⟨writing, _⟩ | ⟨_, accessible', rfl, rfl, rfl⟩
    · cases reading.symm.trans writing
    · refine Or.inr
        ⟨reading, Uio.Accessible.append_of_pos accessible accessible' fits, rfl, rfl, ?_⟩
      rw [Uio.fill_advance_fill, Uio.advance_advance]
      congr 2
      funext i
      simp only [Bytes.append]
      split
      · rfl
      · congr 1
        omega

theorem IoDone.failed {failure : Errno} (fits : uio.Fits n)
    (first : IoDone dev faults sv o n V v uio V₁ v₁ uio₁)
    (inside : 0 < n → o + n ≤ sfsMaxblocks * blockSize) (aligned : (o + n) % blockSize = 0)
    (positive : 0 < m) (second : IoFailed dev faults sv (o + n) m V₁ v₁ uio₁ failure V' uio') :
    IoFailed dev faults sv o (n + m) V v uio failure V' uio' := by
  have access : ¬uio₁.Accessible m → ¬uio.Accessible (n + m) :=
    fun refused accessible => refused (first.accessible accessible)
  rcases second with ⟨writing, k, moved, v', mem, k_le, moved_le, k_lt, inside', aligned', ends',
    updated', rfl, stops⟩ | ⟨reading, rfl, k, stopped, stops⟩
  · have k_lt := k_lt positive
    rcases first.trans fits (Or.inl ⟨writing, updated', rfl⟩) with
      ⟨writing, both, _⟩ | ⟨reading, _⟩
    · rcases first with ⟨_, updated, rfl⟩ | ⟨reading, _⟩
      · refine Or.inl ⟨writing, n + k, n + moved, v', mem, by omega, by omega, fun _ => by omega,
          fun _ => by omega, fun _ => ?_, fun _ => ?_, both, ?_, ?_⟩
        · rw [← Nat.add_assoc]
          rcases Nat.eq_zero_or_pos k with rfl | some
          · exact aligned
          · exact aligned' some
        · rw [← Nat.add_assoc]
          rcases Nat.eq_zero_or_pos moved with rfl | some
          · exact Or.inr aligned
          · rcases ends' some with all | aligned'
            · exact Or.inl (congrArg (n + ·) all)
            · exact Or.inr aligned'
        · rw [Uio.advance_advance]
        · rcases stops with ⟨rfl, stops⟩ | fault
          · refine Or.inl ⟨rfl, ?_⟩
            rw [WriteStops, ← Nat.add_assoc]
            rcases stops with einval | ⟨enospc, unmapped, full⟩ | ⟨efault, refused⟩
            · exact Or.inl einval
            · rw [updated.grew.nblocks] at full
              exact Or.inr (Or.inl ⟨enospc, updated.grew.unmapped unmapped, full⟩)
            · exact Or.inr (Or.inr ⟨efault, access refused⟩)
          · exact Or.inr fault
      · cases writing.symm.trans reading
    · rw [first.rw_eq] at writing
      cases writing.symm.trans reading
  · rw [first.rw_eq] at reading
    rcases first with ⟨writing, _⟩ | ⟨_, accessible, rfl, rfl, rfl⟩
    · cases writing.symm.trans reading
    · refine Or.inr ⟨reading, rfl, n + k, stopped.after fits accessible positive, ?_⟩
      rcases stops with (⟨einval, outside⟩ | ⟨efault, refused⟩) | fault
      · exact Or.inl (Or.inl ⟨einval, by omega⟩)
      · exact Or.inl (Or.inr ⟨efault, access refused⟩)
      · exact Or.inr fault

theorem IoFailed.mono {failure : Errno}
    (failed : IoFailed dev faults sv o n V v uio failure V' uio') (less : n ≤ m)
    (positive : 0 < m → 0 < n) (ends : n = m ∨ (o + n) % blockSize = 0) :
    IoFailed dev faults sv o m V v uio failure V' uio' := by
  have access : ¬uio.Accessible n → ¬uio.Accessible m :=
    fun refused accessible => refused (accessible.mono less)
  rcases failed with ⟨writing, k, moved, v', mem, k_le, moved_le, k_lt, inside, aligned, ends',
    updated, uioEq, stops⟩ | ⟨reading, volEq, k, stopped, stops⟩
  · have endsThere : 0 < moved → moved = m ∨ (o + moved) % blockSize = 0 := by
      intro some
      rcases ends' some with rfl | aligned'
      · exact ends
      · exact Or.inr aligned'
    refine Or.inl ⟨writing, k, moved, v', mem, k_le, by omega,
      fun more => (k_lt (positive more)).trans_le less, inside, aligned, endsThere, updated, uioEq,
      ?_⟩
    rcases stops with ⟨movedEq, einval | enospc | ⟨efault, refused⟩⟩ | fault
    · exact Or.inl ⟨movedEq, Or.inl einval⟩
    · exact Or.inl ⟨movedEq, Or.inr (Or.inl enospc)⟩
    · exact Or.inl ⟨movedEq, Or.inr (Or.inr ⟨efault, access refused⟩)⟩
    · exact Or.inr fault
  · refine Or.inr ⟨reading, volEq, k, stopped.mono less positive, ?_⟩
    rcases stops with (einval | ⟨efault, refused⟩) | fault
    · exact Or.inl (Or.inl einval)
    · exact Or.inl (Or.inr ⟨efault, access refused⟩)
    · exact Or.inr fault

theorem IoReturned.zero (file : FileAt dev V sv v) (fits : uio.Fits n) :
    IoReturned dev faults sv o 0 V v uio V uio :=
  ⟨fun positive => absurd positive (Nat.lt_irrefl 0), v, IoDone.zero file fits⟩

theorem IoDone.returned (fits : uio.Fits n) (first : IoDone dev faults sv o n V v uio V₁ v₁ uio₁)
    (inside : 0 < n → o + n ≤ sfsMaxblocks * blockSize)
    (second : IoReturned dev faults sv (o + n) m V₁ v₁ uio₁ V' uio') :
    IoReturned dev faults sv o (n + m) V v uio V' uio' := by
  rcases second with ⟨inside', v', done⟩
  refine ⟨fun positive => ?_, v', first.trans fits done⟩
  by_cases more : 0 < m
  · have inside' := inside' more
    omega
  · have inside := inside (by omega)
    omega

/-- The offset does not wrap around: there are no files that large. -/
theorem IoDone.offset_returned (done : IoDone dev faults sv o n V v uio V' v' uio')
    (inside : 0 < n → o + n ≤ sfsMaxblocks * blockSize) (offsetEq : uio.uioOffset = o)
    (offset_lt : uio.uioOffset < 2 ^ 31) : uio'.uioOffset = (o + n : Nat) := by
  have limit := maxSize_eq
  rw [done.offset_eq offsetEq, int32_eq] <;> omega

/-! ## Part of a block -/

section Partial

variable {s : Sfs δ} {k diskblock skip len : Nat}

theorem ensures_onSfs {α : Type} {program : SfsM δ α} {panics : Panic → Prop}
    {fails : Errno → Sfs δ × Uio → Prop} {returns : α → Sfs δ × Uio → Prop} :
    Ensures (onSfs program) (s, uio) panics fails returns ↔
      Ensures program s panics (fun failure s' => fails failure (s', uio))
        (fun value s' => returns value (s', uio)) :=
  ensures_zoom

theorem ensures_onUio {α : Type} {program : UioM α} {panics : Panic → Prop}
    {fails : Errno → Sfs δ × Uio → Prop} {returns : α → Sfs δ × Uio → Prop} :
    Ensures (onUio program) (s, uio) panics fails returns ↔
      Ensures program uio panics (fun failure uio' => fails failure (s, uio'))
        (fun value uio' => returns value (s, uio')) :=
  ensures_zoom

theorem sfsPartialioLoad_spec (obeys : dev.Obeys content faults) (file : FileAt dev V sv v)
    (volEq : s.vol content = V) (inside : k < sfsMaxblocks)
    (mapped : blockNumber diskblock = v.svI.ptr V.disk k) {rw : UioRw}
    (reading : diskblock = 0 → rw = .read) :
    Ensures (sfsPartialioLoad dev rw diskblock) s (fun _ => False)
      (fun _ s' => s'.vol content = V ∧ ∃ block, faults block)
      (fun iobuf s' => s'.vol content = V ∧ (diskblock ≠ 0 → iobuf = V.disk diskblock) ∧
        ∀ i < blockSize, iobuf.toBytes i = v.svI.bytes V.disk (k * blockSize + i)) := by
  simp only [sfsPartialioLoad, ensures_ite]
  split
  · rename_i zero
    rw [zero, blockNumber_zero] at mapped
    rw [ensures_bind, ensures_assert_of (reading zero), ensures_pure]
    refine ⟨volEq, fun nonzero => absurd zero nonzero, ?_⟩
    intro i below
    rw [bytes_place inside below, ← mapped, Block.toBytes_zero]
  · rename_i nonzero
    rw [blockNumber_of_ne nonzero] at mapped
    apply (rblock_obeys obeys (file.ready.onDevice (file.inside mapped.symm)) volEq).answers
    · exact fun _ _ failed => ⟨failed.2, diskblock, failed.1⟩
    · rintro _ s' ⟨rfl, volEq'⟩
      refine ⟨volEq', fun _ => rfl, ?_⟩
      intro i below
      rw [bytes_place inside below, ← mapped]

/-- The first assertion of `sfs_partialio`. -/
theorem partialio_size {skip len : Nat} (inside : skip + len ≤ blockSize) :
    uint32 (skip + len) ≤ blockSize := by
  have := uint32_le (skip + len) (by omega)
  omega

theorem blkoff_eq (offsetEq : uio.uioOffset = o) :
    uint32 (uio.uioOffset.tmod blockSize) = o % blockSize := by
  have blkoff_lt : o % blockSize < blockSize := Nat.mod_lt _ (by decide)
  have size : blockSize < 2 ^ 32 := by decide
  rw [offsetEq, ← Int.ofNat_tmod, uint32_eq] <;> omega

theorem block_rest_eq (o : Nat) :
    uint32 ((blockSize : Int) - (o % blockSize : Nat)) = blockSize - o % blockSize := by
  have blkoff_lt : o % blockSize < blockSize := Nat.mod_lt _ (by decide)
  have size : blockSize < 2 ^ 32 := by decide
  rw [uint32_eq] <;> omega

theorem tmod_of_aligned (offsetEq : uio.uioOffset = o) (aligned : o % blockSize = 0) :
    uio.uioOffset.tmod blockSize = 0 := by
  rw [offsetEq, ← Int.ofNat_tmod, aligned, Int.natCast_zero]

theorem fileblock_eq (offsetEq : uio.uioOffset = o) (fits : uio.Fits n) :
    uint32 (uio.uioOffset.tdiv blockSize) = o / blockSize := by
  have offset_lt := fits.offset_lt
  rw [offsetEq] at offset_lt ⊢
  have small : o / blockSize ≤ o := Nat.div_le_self ..
  have divEq : (o : Int).tdiv blockSize = ((o / blockSize : Nat) : Int) := (Int.ofNat_tdiv ..).symm
  rw [divEq, uint32_eq (Int.natCast_nonneg _) (by omega), Int.toNat_natCast]

theorem end_le (below : o / blockSize < sfsMaxblocks) (skipEq : o % blockSize = skip)
    (inside : skip + len ≤ blockSize) : o + len ≤ sfsMaxblocks * blockSize := by
  have place := Nat.div_add_mod' o blockSize
  have next : (o / blockSize + 1) * blockSize ≤ sfsMaxblocks * blockSize :=
    Nat.mul_le_mul_right _ below
  rw [Nat.add_mul, Nat.one_mul] at next
  omega

variable {failure : Errno}

theorem Updated.ioFailed {moved : Nat}
    (updated : Updated dev faults sv V v (v.svI.bytes V.disk) V' v')
    (writing : uio.uioRw = .write) (moved_le : moved ≤ n)
    (inside : 0 < moved → o + moved ≤ sfsMaxblocks * blockSize) (ends : 0 < moved → moved = n)
    (stops : moved = 0 ∧ WriteStops o n 0 V v uio failure V' ∨ ∃ block, faults block)
    (mem : Memory) :
    IoFailed dev faults sv o n V v uio failure V' ((uio.advance moved).setMem mem) := by
  refine Or.inl ⟨writing, 0, moved, v', mem, Nat.zero_le _, moved_le, fun positive => positive,
    inside, fun impossible => absurd impossible (Nat.lt_irrefl 0), fun some => Or.inl (ends some),
    ?_, rfl, stops⟩
  rw [Bytes.overlay_zero]
  exact updated

theorem Updated.ioFailed_setMem (updated : Updated dev faults sv V v (v.svI.bytes V.disk) V' v')
    (writing : uio.uioRw = .write) (fits : uio.Fits n)
    (stops : WriteStops o n 0 V v uio failure V' ∨ ∃ block, faults block) (mem : Memory) :
    IoFailed dev faults sv o n V v uio failure V' (uio.setMem mem) := by
  have stops : 0 = 0 ∧ WriteStops o n 0 V v uio failure V' ∨ ∃ block, faults block := by
    rcases stops with stops | fault
    · exact Or.inl ⟨rfl, stops⟩
    · exact Or.inr fault
  have failed := updated.ioFailed writing (Nat.zero_le n)
    (fun impossible => absurd impossible (Nat.lt_irrefl 0))
    (fun impossible => absurd impossible (Nat.lt_irrefl 0)) stops mem
  rwa [fits.advance_zero] at failed

theorem BmapFailed.ioFailed (failed : BmapFailed dev faults sv V v (o / blockSize) failure V')
    (writing : uio.uioRw = .write) (fits : uio.Fits n) :
    IoFailed dev faults sv o n V v uio failure V' uio := by
  rcases failed with ⟨reason, v', updated⟩
  apply updated.ioFailed_setMem writing fits
  rcases reason with ⟨einval, outside⟩ | ⟨enospc, _, unmapped, full⟩ | fault
  · exact Or.inl (Or.inl ⟨einval, (Nat.le_div_iff_mul_le (by decide)).mp outside⟩)
  · exact Or.inl (Or.inr (Or.inl ⟨enospc, unmapped, full⟩))
  · exact Or.inr fault

theorem Uio.Fits.ioFailed_read (fits : uio.Fits n) (reading : uio.uioRw = .read) (mem : Memory)
    (stops : ReadStops o n 0 uio failure ∨ ∃ block, faults block) (volEq : V' = V) :
    IoFailed dev faults sv o n V v uio failure V' (uio.setMem mem) :=
  Or.inr ⟨reading, volEq, 0, fits.stopped_setMem mem, stops⟩

theorem Uio.Fits.ioFailed_place (fits : uio.Fits n) (reading : uio.uioRw = .read)
    (stops : failure = .einval ∧ sfsMaxblocks ≤ o / blockSize ∨ ∃ block, faults block)
    (volEq : V' = V) : IoFailed dev faults sv o n V v uio failure V' uio := by
  apply fits.ioFailed_read reading uio.mem ?_ volEq
  rcases stops with ⟨einval, outside⟩ | fault
  · exact Or.inl (Or.inl ⟨einval, (Nat.le_div_iff_mul_le (by decide)).mp outside⟩)
  · exact Or.inr fault

section Partialio

variable (obeys : dev.Obeys content faults) (file : FileAt dev V sv v) (volEq : s.vol content = V)
  (offsetEq : uio.uioOffset = o) (skipEq : o % blockSize = skip) (inside : skip + len ≤ blockSize)
  (fits : uio.Fits len)
include obeys file volEq offsetEq skipEq inside fits

theorem sfsPartialio_read_spec (reading : uio.uioRw = .read) :
    Moves dev content faults sv o len V v uio (sfsPartialio dev sv skip len) s := by
  have placeEq : o / blockSize * blockSize + skip = o := by rw [← skipEq, Nat.div_add_mod']
  have sizeOk := partialio_size inside
  simp only [Moves, sfsPartialio, ensures_bind, ensures_get, ensures_assert_of sizeOk,
    fileblock_eq offsetEq fits, ensures_onSfs, reading, reduceCtorEq, decide_false]
  apply (sfsBmap_obeys obeys file volEq).answers
  · exact fun failure s' failed => fits.ioFailed_place reading failed.1 failed.2
  · rintro diskblock s₁ ⟨below, volEq₁, mapped⟩
    apply (sfsPartialioLoad_spec obeys file volEq₁ below mapped fun _ => rfl).answers
    · exact fun failure s' failed => fits.ioFailed_place reading (Or.inr failed.2) failed.1
    · rintro iobuf s₂ ⟨volEq₂, _, bufEq⟩
      rw [ensures_assert_of inside, ensures_onUio]
      apply (Uio.uiomove_spec fits _).answers
      · rintro failure uio' ⟨rfl, refused, mem, rfl⟩
        exact fits.ioFailed_read reading mem (Or.inl (Or.inr ⟨rfl, refused⟩)) volEq₂
      · rintro moved uio' ⟨accessible, between, moves, rfl⟩
        rcases moves with ⟨writing, _⟩ | ⟨_, _, rfl⟩
        · cases reading.symm.trans writing
        · rw [ensures_pure]
          refine ⟨fun _ => end_le below skipEq inside, v,
            Or.inr ⟨reading, accessible, volEq₂, rfl, ?_⟩⟩
          dsimp only
          rw [Uio.fill_congr uio]
          intro i small
          rw [bufEq _ (by omega), ← Nat.add_assoc, placeEq]

theorem sfsPartialio_write_spec (writing : uio.uioRw = .write) :
    Moves dev content faults sv o len V v uio (sfsPartialio dev sv skip len) s := by
  have placeEq : o / blockSize * blockSize + skip = o := by rw [← skipEq, Nat.div_add_mod']
  have sizeOk := partialio_size inside
  simp only [Moves, sfsPartialio, ensures_bind, ensures_get, ensures_assert_of sizeOk,
    fileblock_eq offsetEq fits, ensures_onSfs, writing, decide_true]
  apply (sfsBmap_alloc_spec obeys file volEq).answers
  · rintro failure s' failed
    exact failed.ioFailed writing fits
  · rintro diskblock s₁ ⟨below, v₁, updated, mapped⟩
    have nonzero : diskblock ≠ 0 := ptr_ne_zero mapped
    apply (sfsPartialioLoad_spec obeys updated.file rfl below
      (by rw [mapped, blockNumber_of_ne nonzero]) fun zero => absurd zero nonzero).answers
    · rintro failure s' ⟨volEq', fault⟩
      rw [← volEq'] at updated
      exact updated.ioFailed_setMem writing fits (Or.inr fault) uio.mem
    · rintro iobuf s₂ ⟨volEq₂, bufEq, _⟩
      rw [bufEq nonzero, ensures_assert_of inside, ensures_onUio]
      apply (Uio.uiomove_spec fits _).answers
      · rintro failure uio' ⟨rfl, refused, mem, rfl⟩
        rw [← volEq₂] at updated
        exact updated.ioFailed_setMem writing fits (Or.inl (Or.inr (Or.inr ⟨rfl, refused⟩))) mem
      · rintro moved uio' ⟨_, between, moves, rfl⟩
        rcases moves with ⟨_, rfl, rfl⟩ | ⟨reading, _⟩
        · have onDevice := updated.file.ready.onDevice (updated.file.inside mapped)
          rw [ensures_onSfs, Bytes.overlay_source]
          apply (wblock_obeys obeys onDevice volEq₂ _).answers
          · rintro failure s₃ ⟨fault, volEq₃⟩
            rw [← volEq₃] at updated
            exact updated.ioFailed writing le_rfl (fun _ => end_le below skipEq inside)
              (fun _ => rfl) (Or.inr ⟨diskblock, fault⟩) between.mem
          · intro _ s₃ volEq₃
            have written : Updated dev faults sv (s₁.vol content) v₁ _ _ v₁ :=
              updated.file.setBlock_updated below mapped skip len inside between.data
            rw [placeEq, updated.bytesEq] at written
            refine ⟨fun _ => end_le below skipEq inside, v₁, Or.inl ⟨writing, ?_, rfl⟩⟩
            rw [volEq₃]
            exact updated.trans written
        · cases writing.symm.trans reading

theorem sfsPartialio_spec :
    Moves dev content faults sv o len V v uio (sfsPartialio dev sv skip len) s := by
  cases rw : uio.uioRw with
  | read => exact sfsPartialio_read_spec obeys file volEq offsetEq skipEq inside fits rw
  | write => exact sfsPartialio_write_spec obeys file volEq offsetEq skipEq inside fits rw

end Partialio

end Partial

/-! ## Whole blocks -/

section Whole

variable {s : Sfs δ} {k diskblock : Nat}

theorem ensures_onDevice {α : Type} {program : Prog Panic (δ × Uio) Errno α}
    {panics : Panic → Prop} {fails : Errno → Sfs δ × Uio → Prop}
    {returns : α → Sfs δ × Uio → Prop} :
    Ensures (onDevice program) (s, uio) panics fails returns ↔
      Ensures program (s.disk, uio) panics
        (fun failure request => fails failure ({ s with disk := request.1 }, request.2))
        (fun value request => returns value ({ s with disk := request.1 }, request.2)) :=
  ensures_zoom

/-- The `uio` of `sfs_blockio` while it is used for the device. -/
def Uio.request (uio : Uio) (diskoff : Int) : Uio :=
  { uio with uioOffset := diskoff, uioResid := blockSize }

/-- The `uio` of `sfs_blockio` when it is put back. -/
def Uio.putBack (uio : Uio) (diskoff saveoff saveres : Int) : Uio :=
  { uio with
    uioOffset := int32 (int32 (uio.uioOffset - diskoff) + saveoff)
    uioResid := uint32 (uio.uioResid - blockSize + saveres) }

theorem Uio.request_fits (fits : uio.Fits blockSize) {diskoff : Int} (low : -2 ^ 31 ≤ diskoff)
    (high : diskoff < 2 ^ 31) : (uio.request diskoff).Fits blockSize :=
  ⟨fits.len, Nat.le_refl _, by simp only [request, blockSize]; decide, fits.space, low, high⟩

theorem Uio.putBack_advance (fits : uio.Fits blockSize) (diskoff : Int) (mem : Memory) :
    (((uio.request diskoff).setMem mem).advance blockSize).putBack diskoff uio.uioOffset
      (int32 uio.uioResid) = (uio.setMem mem).advance blockSize := by
  have resid := fits.resid
  have resid_lt := fits.resid_lt
  have offsetEq : int32 (int32 (int32 (diskoff + blockSize) - diskoff) + uio.uioOffset) =
      int32 (uio.uioOffset + blockSize) := by
    rw [int32_add, sub_eq_add_neg (int32 _), add_assoc, int32_add]
    congr 1
    omega
  have residEq : uint32 (((blockSize - blockSize : Nat) : Int) - blockSize + int32 uio.uioResid) =
      uio.uioResid - blockSize := by
    rw [uint32_add_int32, uint32_eq (by omega) (by omega)]
    omega
  simp only [putBack, advance, setMem, request, offsetEq, residEq]

theorem Uio.putBack_setMem (fits : uio.Fits blockSize) (diskoff : Int) (mem : Memory) :
    ((uio.request diskoff).setMem mem).putBack diskoff uio.uioOffset (int32 uio.uioResid) =
      uio.setMem mem := by
  have resid_lt := fits.resid_lt
  have offsetEq : int32 (int32 (diskoff - diskoff) + uio.uioOffset) = uio.uioOffset := by
    rw [int32_add, sub_self, zero_add, int32_eq fits.le_offset fits.offset_lt]
  have residEq : uint32 ((blockSize : Int) - blockSize + int32 uio.uioResid) = uio.uioResid := by
    rw [uint32_add_int32, uint32_eq (by omega) (by omega)]
    omega
  simp only [putBack, setMem, request, offsetEq, residEq]

theorem sfsBlockioTransfer_spec (obeys : dev.Obeys content faults) (file : FileAt dev V sv v)
    (volEq : s.vol content = V) (below : k < sfsMaxblocks)
    (mapped : v.svI.ptr V.disk k = some diskblock) (fits : uio.Fits blockSize) :
    Ensures (sfsBlockioTransfer dev diskblock) (s, uio) (fun _ => False)
      (fun failure pair => (failure = .efault ∧ ¬uio.Accessible blockSize ∨ faults diskblock) ∧
        pair.1.vol content = V ∧ ∃ mem, pair.2 = uio.setMem mem)
      (fun _ pair => IoDone dev faults sv (k * blockSize) blockSize V v uio (pair.1.vol content) v
        pair.2) := by
  rcases file.ready.onDevice (file.inside mapped) with ⟨onDevice, small⟩
  have high : (diskblock : Int) * blockSize < 2 ^ 31 := by simp only [blockSize]; omega
  have low : -2 ^ 31 ≤ (diskblock : Int) * blockSize := by simp only [blockSize]; omega
  have diskoffEq := int32_eq low high
  have requestFits := Uio.request_fits fits low high
  simp only [sfsBlockioTransfer, ensures_bind, ensures_get, ensures_assert_of fits.resid,
    ensures_modify, ensures_attempt, ensures_onDevice, diskoffEq]
  apply (sfsRwblockRetry_obeys obeys onDevice rfl rfl requestFits 10 s.disk).answers
  · rintro failure ⟨disk', _⟩ ⟨contentEq, stops⟩
    have volEq' : ({ s with disk := disk' } : Sfs δ).vol content = V := by
      simp only [← volEq, Sfs.vol, contentEq]
    rcases stops with ⟨efault, refused, mem, rfl⟩ | ⟨fault, rfl⟩
    · exact ⟨Or.inl ⟨efault, refused⟩, volEq', mem, Uio.putBack_setMem fits _ mem⟩
    · exact ⟨Or.inr fault, volEq', uio.mem, Uio.putBack_setMem fits _ uio.mem⟩
  · rintro _ ⟨disk', _⟩ ⟨accessible, ⟨writing, contentEq, rfl⟩ | ⟨reading, contentEq, rfl⟩⟩
    · have written : Updated dev faults sv V v _ _ v :=
        file.setBlock_updated below mapped 0 blockSize (by omega) uio.data
      have blockEq : Block.ofBytes ((V.disk diskblock).toBytes.overlay 0 blockSize uio.data) =
          Block.ofBytes uio.data := by
        apply Block.ofBytes_congr
        intro i small
        simp [Bytes.overlay, small]
      refine Or.inl ⟨writing, ?_, Uio.putBack_advance fits _ uio.mem⟩
      rw [blockEq, Nat.add_zero] at written
      convert written using 1
      simp only [← volEq, Sfs.vol, Vol.setBlock, contentEq]
      rfl
    · refine Or.inr ⟨reading, fun _ => accessible, ?_, rfl, ?_⟩
      · simp only [← volEq, Sfs.vol, contentEq]
      · have filled : uio.fill blockSize (V.disk diskblock).toBytes =
            uio.fill blockSize fun i => v.svI.bytes V.disk (k * blockSize + i) := by
          apply Uio.fill_congr
          intro i small
          rw [bytes_place below small, mapped]
        refine (Uio.putBack_advance fits _ _).trans ?_
        rw [← filled, ← volEq]
        rfl

theorem sfsBlockio_spec (obeys : dev.Obeys content faults) (file : FileAt dev V sv v)
    (volEq : s.vol content = V) (offsetEq : uio.uioOffset = o) (aligned : o % blockSize = 0)
    (fits : uio.Fits blockSize) :
    Moves dev content faults sv o blockSize V v uio (sfsBlockio dev sv) s := by
  have placeEq : o / blockSize * blockSize = o :=
    Nat.div_mul_cancel (Nat.dvd_of_mod_eq_zero aligned)
  simp only [Moves, sfsBlockio, ensures_bind, ensures_get, fileblock_eq offsetEq fits,
    ensures_onSfs]
  cases rw : uio.uioRw with
  | read =>
      simp only [reduceCtorEq, decide_false]
      apply (sfsBmap_obeys obeys file volEq).answers
      · exact fun failure s' failed => fits.ioFailed_place rw failed.1 failed.2
      · rintro diskblock s₁ ⟨below, volEq₁, mapped⟩
        by_cases zero : diskblock = 0
        · rw [if_pos zero, ensures_bind, ensures_assert_of rfl, ensures_onUio]
          rw [zero, blockNumber_zero] at mapped
          apply (Uio.uiomovezeros_spec rw fits).answers
          · rintro failure uio' ⟨rfl, refused, k, stopped⟩
            exact Or.inr ⟨rw, volEq₁, k, stopped, Or.inl (Or.inr ⟨rfl, refused⟩)⟩
          · rintro _ uio' ⟨accessible, rfl⟩
            refine ⟨fun _ => end_le below aligned (by omega), v,
              Or.inr ⟨rw, accessible, volEq₁, rfl, ?_⟩⟩
            dsimp only
            rw [Uio.fill_congr uio]
            intro i small
            rw [← placeEq, bytes_place below small, ← mapped]
        · rw [if_neg zero]
          rw [blockNumber_of_ne zero] at mapped
          apply (sfsBlockioTransfer_spec obeys file volEq₁ below mapped.symm fits).answers
          · rintro failure ⟨s', _⟩ ⟨stops, volEq', mem, rfl⟩
            apply fits.ioFailed_read rw mem ?_ volEq'
            rcases stops with refused | fault
            · exact Or.inl (Or.inr refused)
            · exact Or.inr ⟨diskblock, fault⟩
          · rw [placeEq]
            exact fun _ _ done => ⟨fun _ => end_le below aligned (by omega), v, done⟩
  | write =>
      simp only [decide_true]
      apply (sfsBmap_alloc_spec obeys file volEq).answers
      · exact fun failure s' failed => failed.ioFailed rw fits
      · rintro diskblock s₁ ⟨below, v₁, updated, mapped⟩
        rw [if_neg (ptr_ne_zero mapped)]
        apply (sfsBlockioTransfer_spec obeys updated.file rfl below mapped fits).answers
        · rintro failure ⟨s', _⟩ ⟨stops, volEq', mem, rfl⟩
          rw [← volEq'] at updated
          apply updated.ioFailed_setMem rw fits ?_ mem
          rcases stops with refused | fault
          · exact Or.inl (Or.inr (Or.inr refused))
          · exact Or.inr ⟨diskblock, fault⟩
        · rintro _ ⟨s', uio'⟩ done
          rw [placeEq] at done
          rcases done with ⟨_, written, uioEq⟩ | ⟨reading, _⟩
          · rw [updated.bytesEq] at written
            exact ⟨fun _ => end_le below aligned (by omega), v₁,
              Or.inl ⟨rw, updated.trans written, uioEq⟩⟩
          · cases rw.symm.trans reading

end Whole

/-! ## The whole transfer -/

section Transfer

variable {s : Sfs δ}

theorem sfsIoLoop_spec (obeys : dev.Obeys content faults) (nblocks : Nat) :
    ∀ {o : Nat} {V : Vol} {v : SfsVnode} {uio : Uio} {s : Sfs δ}, FileAt dev V sv v →
      s.vol content = V → uio.uioOffset = o → o % blockSize = 0 →
      uio.Fits (nblocks * blockSize) →
      Ensures (sfsIoLoop dev sv nblocks) (s, uio) (fun _ => False)
        (fun failure pair => 0 < nblocks ∧
          IoFailed dev faults sv o (nblocks * blockSize) V v uio failure (pair.1.vol content)
            pair.2)
        (fun _ pair => IoReturned dev faults sv o (nblocks * blockSize) V v uio (pair.1.vol content)
          pair.2) := by
  induction nblocks with
  | zero =>
      intro o V v uio s file volEq _ _ fits
      rw [sfsIoLoop, ensures_pure, volEq, Nat.zero_mul]
      exact IoReturned.zero file fits
  | succ nblocks ih =>
      intro o V v uio s file volEq offsetEq aligned fits
      have size : 0 < blockSize := by decide
      have split : (nblocks + 1) * blockSize = blockSize + nblocks * blockSize := by
        rw [Nat.succ_mul, Nat.add_comm]
      rw [split] at fits
      have first : uio.Fits blockSize := fits.mono (by omega)
      rw [sfsIoLoop, ensures_bind, split]
      apply (sfsBlockio_spec obeys file volEq offsetEq aligned first).answers
      · exact fun _ _ failed => ⟨by omega, failed.mono (by omega) (by omega)
          (Or.inr (by rw [Nat.add_mod_right, aligned]))⟩
      · rintro _ ⟨s₁, uio₁⟩ ⟨inside, v₁, done⟩
        have offsetEq₁ := done.offset_returned inside offsetEq fits.offset_lt
        have aligned₁ : (o + blockSize) % blockSize = 0 := by rw [Nat.add_mod_right, aligned]
        apply (ih (done.file file) rfl offsetEq₁ aligned₁ (done.fits fits)).answers
        · exact fun _ _ failed =>
            ⟨by omega, done.failed first inside aligned₁ (Nat.mul_pos failed.1 size) failed.2⟩
        · exact fun _ _ returned => done.returned first inside returned

variable (obeys : dev.Obeys content faults) (file : FileAt dev V sv v)
  (volEq : s.vol content = V) (offsetEq : uio.uioOffset = o) (residEq : uio.uioResid = n)
include obeys file volEq offsetEq residEq

/-- The leading partial block: after it the offset is at a block boundary, or nothing is left. -/
theorem sfsIoFirst_spec (fits : uio.Fits n) :
    Ensures (sfsIoFirst dev sv) (s, uio) (fun _ => False)
      (fun failure pair => IoFailed dev faults sv o n V v uio failure (pair.1.vol content) pair.2)
      (fun _ pair => ∃ m ≤ n, ((o + m) % blockSize = 0 ∨ m = n) ∧
        IoReturned dev faults sv o m V v uio (pair.1.vol content) pair.2) := by
  have blkoff_lt : o % blockSize < blockSize := Nat.mod_lt _ (by decide)
  simp only [sfsIoFirst, ensures_bind, ensures_get, blkoff_eq offsetEq, block_rest_eq,
    residEq, ensures_ite]
  split
  · have less : min (blockSize - o % blockSize) n ≤ n := Nat.min_le_right ..
    apply (sfsPartialio_spec obeys file volEq offsetEq rfl (by omega) (fits.mono less)).answers
    · exact fun _ _ failed => failed.mono less (by omega) (by simp only [blockSize]; omega)
    · intro _ _ returned
      refine ⟨_, less, ?_, returned⟩
      by_cases whole : blockSize - o % blockSize ≤ n
      · left
        rw [Nat.min_eq_left whole]
        simp only [blockSize]
        omega
      · omega
  · rename_i aligned
    rw [ensures_pure]
    refine ⟨0, Nat.zero_le n, Or.inl (not_not.mp aligned), ?_⟩
    dsimp only
    rw [volEq]
    exact IoReturned.zero file fits

theorem sfsIoRest_spec (aligned : o % blockSize = 0 ∨ n = 0) (fits : uio.Fits n) :
    Ensures (sfsIoRest dev sv) (s, uio) (fun _ => False)
      (fun failure pair => 0 < n ∧
        IoFailed dev faults sv o n V v uio failure (pair.1.vol content) pair.2)
      (fun _ pair => IoReturned dev faults sv o n V v uio (pair.1.vol content) pair.2) := by
  have split : n / blockSize * blockSize + n % blockSize = n := Nat.div_add_mod' ..
  have rest_lt : n % blockSize < blockSize := Nat.mod_lt _ (by decide)
  simp only [sfsIoRest, ensures_bind, ensures_get, residEq, ensures_ite]
  by_cases nothing : n = 0
  · rw [if_neg (not_not.mpr nothing), ensures_pure]
    subst nothing
    dsimp only
    rw [volEq]
    exact IoReturned.zero file fits
  · have aligned : o % blockSize = 0 := aligned.resolve_right nothing
    rw [if_pos nothing, ensures_assert_of (tmod_of_aligned offsetEq aligned)]
    rw [← split] at fits
    have first : uio.Fits (n / blockSize * blockSize) := fits.mono (by omega)
    apply (sfsIoLoop_spec obeys _ file volEq offsetEq aligned first).answers
    · exact fun _ _ failed => ⟨by omega, failed.2.mono (by omega)
        (fun _ => Nat.mul_pos failed.1 (by decide))
        (Or.inr (by rw [Nat.add_mul_mod_self_right, aligned]))⟩
    · rintro _ ⟨s₁, uio₁⟩ ⟨inside, v₁, done⟩
      have offsetEq₁ := done.offset_returned inside offsetEq fits.offset_lt
      have residEq₁ : uio₁.uioResid = n % blockSize := by
        rw [done.resid_eq, residEq]
        omega
      have aligned₁ : (o + n / blockSize * blockSize) % blockSize = 0 := by
        rw [Nat.add_mul_mod_self_right, aligned]
      have rest_lt₁ : uio₁.uioResid < blockSize := residEq₁ ▸ rest_lt
      simp only [ensures_assert_of rest_lt₁, residEq₁]
      split
      · rename_i more
        apply (sfsPartialio_spec obeys (done.file file) rfl offsetEq₁ aligned₁ (by omega)
          (done.fits fits)).answers
        · exact fun _ _ failed => ⟨by omega, split ▸ done.failed first inside aligned₁ more failed⟩
        · intro _ _ returned
          have whole := done.returned first inside returned
          rwa [split] at whole
      · rename_i none
        rw [ensures_pure]
        have whole : n / blockSize * blockSize = n := by omega
        rw [whole] at inside done
        exact ⟨inside, v₁, done⟩

theorem sfsIoTransfer_spec (fits : uio.Fits n) :
    Moves dev content faults sv o n V v uio (sfsIoTransfer dev sv) s := by
  rw [Moves, sfsIoTransfer, ensures_bind]
  apply (sfsIoFirst_spec obeys file volEq offsetEq residEq fits).imp
  rintro _ ⟨s₁, uio₁⟩ ⟨m, less, aligned, inside, v₁, done⟩
  have split : m + (n - m) = n := by omega
  have offsetEq₁ := done.offset_returned inside offsetEq fits.offset_lt
  have residEq₁ : uio₁.uioResid = n - m := by rw [done.resid_eq, residEq]
  have first : uio.Fits m := fits.mono less
  rw [← split] at fits
  apply (sfsIoRest_spec obeys (done.file file) rfl offsetEq₁ residEq₁ (by omega)
    (done.fits fits)).answers
  · exact fun _ _ failed =>
      split ▸ done.failed first inside (by have := failed.1; omega) failed.1 failed.2
  · intro _ _ returned
    have whole := done.returned first inside returned
    rwa [split] at whole

end Transfer

/-! ## `sfs_io` -/

/-- The file has grown, and has got this content and this size. -/
structure Written (dev : Device δ) (faults : Nat → Prop) (sv : Nat) (V : Vol) (v : SfsVnode)
    (bytes : Bytes) (size : Nat) (V' : Vol) (v' : SfsVnode) : Prop where
  grew : Grew faults sv V v V' v'
  file : FileAt dev V' sv v'
  size : v'.svI.sfiSize.toNat = size
  bytesEq : v'.svI.bytes V'.disk = bytes

section Io

variable {s : Sfs δ}

theorem FileAt.resize (file : FileAt dev V sv v) (size : Nat) :
    Grew faults sv V v (V.setVnode sv (v.setInode (v.svI.setSize size)))
        (v.setInode (v.svI.setSize size)) ∧
      FileAt dev (V.setVnode sv (v.setInode (v.svI.setSize size))) sv
        (v.setInode (v.svI.setSize size)) := by
  have ptrEq : (v.setInode (v.svI.setSize size)).svI.ptr V.disk = v.svI.ptr V.disk :=
    ptr_congr rfl rfl fun _ _ => rfl
  constructor
  · refine ⟨rfl, rfl, rfl, rfl, Or.inr rfl, Or.inl ⟨rfl, rfl⟩, ?_, ?_, ?_, fun _ _ _ => rfl⟩
    · intro k
      exact Or.inl (congrFun ptrEq k)
    · rintro block (used | ⟨k, mapped⟩)
      · exact used
      · exact file.used ((congrFun ptrEq k).symm.trans mapped)
    · exact fun block used => Or.inl (Or.inl used)
  · refine ⟨update_self .., ?_, ?_, ?_, ?_⟩
    · exact ⟨file.ready.nblocks_le, file.ready.nblocks_lt, file.ready.nblocks_le_nbits,
        file.ready.nbits_lt, file.ready.used_of_le, file.ready.used_zero⟩
    · intro k block mapped
      exact file.inside ((congrFun ptrEq k).symm.trans mapped)
    · intro k block mapped
      exact file.used ((congrFun ptrEq k).symm.trans mapped)
    · rw [show (V.setVnode sv _).disk = V.disk from rfl, ptrEq]
      exact file.exclusive

theorem Updated.written {bytes : Bytes} (updated : Updated dev faults sv V v bytes V' v') :
    Written dev faults sv V v bytes v.svI.sfiSize.toNat V' v' :=
  ⟨updated.grew, updated.file, congrArg _ updated.size, updated.bytesEq⟩

theorem Updated.resize {bytes : Bytes} (updated : Updated dev faults sv V v bytes V' v')
    {size : Nat} (small : size < 2 ^ 32) :
    Written dev faults sv V v bytes size (V'.setVnode sv (v'.setInode (v'.svI.setSize size)))
      (v'.setInode (v'.svI.setSize size)) := by
  rcases updated.file.resize size with ⟨grew, file⟩
  refine ⟨updated.grew.trans grew, file, UInt32.toNat_ofNat_of_lt' small, ?_⟩
  rw [← updated.bytesEq]
  apply bytes_congr
  · intro k _
    exact congrFun (ptr_congr rfl rfl fun _ _ => rfl) k
  · exact fun _ _ _ _ => rfl

/-- At the end of a write the size is that of the end of what was written, if this is more. -/
theorem sfsIoOut_write_spec {bytes : Bytes} (updated : Updated dev faults sv V v bytes V' v')
    (volEq : s.vol content = V') (writing : uio.uioRw = .write) (offsetEq : uio.uioOffset = o)
    (resid_lt : uio.uioResid < 2 ^ 32) (offset_lt : o < 2 ^ 31)
    (small : v.svI.sfiSize.toNat < 2 ^ 31) :
    Ensures (sfsIoOut sv 0) (s, uio) (fun _ => False) (fun _ _ => False)
      (fun _ pair => pair.2 = uio ∧
        ∃ v', Written dev faults sv V v bytes (max v.svI.sfiSize.toNat o) (pair.1.vol content) v' ∧
          (pair.1.vol content).sfsFreemap = V'.sfsFreemap) := by
  have residEq : uint32 (uio.uioResid + (0 : Nat)) = uio.uioResid := by
    rw [uint32_eq] <;> omega
  have sizeEq : int32 v.svI.sfiSize.toNat = v.svI.sfiSize.toNat := int32_eq (by omega) (by omega)
  have newSizeEq : uint32 (o : Int) = o := by rw [uint32_eq] <;> omega
  simp only [sfsIoOut, ensures_bind, ensures_get, ensures_onSfs, updated.file.deref volEq, writing,
    true_and, updated.size, offsetEq, sizeEq, newSizeEq, ensures_ite]
  split
  · apply (updateInode_spec volEq updated.file.present _).total
    intro _ s' volEq'
    rw [ensures_modify, residEq, volEq', Nat.max_eq_right (by omega)]
    exact ⟨rfl, _, updated.resize (by omega), rfl⟩
  · rw [ensures_modify, residEq, volEq, Nat.max_eq_left (by omega)]
    exact ⟨rfl, _, updated.written, rfl⟩

/-- A write has ended after `k` bytes, and the `uio` has moved past `moved` bytes. -/
def Wrote (dev : Device δ) (faults : Nat → Prop) (sv o k moved : Nat) (V : Vol) (v : SfsVnode)
    (uio : Uio) (V' : Vol) (uio' : Uio) : Prop :=
  (0 < moved → o + moved ≤ sfsMaxblocks * blockSize) ∧
    (∃ mem, uio' = (uio.advance moved).setMem mem) ∧
    ∃ v', Written dev faults sv V v ((v.svI.bytes V.disk).overlay o k uio.data)
      (max v.svI.sfiSize.toNat (o + moved)) V' v'

theorem sfsIoOut_wrote {k moved : Nat} {mem : Memory}
    (updated : Updated dev faults sv V v ((v.svI.bytes V.disk).overlay o k uio.data) V' v')
    (volEq : s.vol content = V') (writing : uio.uioRw = .write) (offsetEq : uio.uioOffset = o)
    (fits : uio.Fits moved) (inside : 0 < moved → o + moved ≤ sfsMaxblocks * blockSize)
    (small : v.svI.sfiSize.toNat < 2 ^ 31) :
    Ensures (sfsIoOut sv 0) (s, (uio.advance moved).setMem mem) (fun _ => False) (fun _ _ => False)
      (fun _ pair => Wrote dev faults sv o k moved V v uio (pair.1.vol content) pair.2 ∧
        (pair.1.vol content).sfsFreemap = V'.sfsFreemap) := by
  have limit := maxSize_eq
  have offset_lt := fits.offset_lt
  have resid_lt := fits.resid_lt
  have offsetEq' : ((uio.advance moved).setMem mem).uioOffset = (o + moved : Nat) := by
    simp only [Uio.setMem, Uio.advance, offsetEq]
    rw [int32_eq] <;> omega
  have resid_lt' : ((uio.advance moved).setMem mem).uioResid < 2 ^ 32 := by
    simp only [Uio.setMem, Uio.advance]
    omega
  have writing' : ((uio.advance moved).setMem mem).uioRw = .write := writing
  apply (sfsIoOut_write_spec updated volEq writing' offsetEq' resid_lt' (by omega) small).imp
  rintro _ ⟨s', _⟩ ⟨rfl, v', written, freemapEq⟩
  exact ⟨⟨inside, ⟨mem, rfl⟩, v', written⟩, freemapEq⟩

/-- `sfs_io` writes all of the bytes, or stops at the end of a block with an error. -/
theorem sfsIo_write_spec (works : dev.Works content) (file : FileAt dev V sv v)
    (volEq : s.vol content = V) (writing : uio.uioRw = .write) (offsetEq : uio.uioOffset = o)
    (residEq : uio.uioResid = n) (fits : uio.Fits n) (small : v.svI.sfiSize.toNat < 2 ^ 31) :
    Ensures (sfsIo dev sv) (s, uio) (fun _ => False)
      (fun failure pair => ∃ k ≤ n, (0 < n → k < n) ∧
        Wrote dev (fun _ => False) sv o k k V v uio (pair.1.vol content) pair.2 ∧
        WriteStops o n k V v uio failure (pair.1.vol content) ∧
        (0 < k → (o + k) % blockSize = 0))
      (fun _ pair => Wrote dev (fun _ => False) sv o n n V v uio (pair.1.vol content) pair.2) := by
  have obeys := works.obeys fun _ => False
  simp only [sfsIo, ensures_bind, ensures_get, writing, sfsIoBody, ensures_attempt]
  apply (sfsIoTransfer_spec obeys file volEq offsetEq residEq fits).answers
  · rintro failure ⟨s₁, _⟩ (⟨_, k, moved, v₁, mem, k_le, moved_le, k_lt, inside, aligned, ends,
      updated, rfl, ⟨rfl, stops⟩ | ⟨_, impossible⟩⟩ | ⟨reading, _⟩)
    · apply (sfsIoOut_wrote updated rfl writing offsetEq (fits.mono moved_le) inside small).total
      rintro _ ⟨s₂, uio₂⟩ ⟨wrote, freemapEq⟩
      refine ⟨_, moved_le, k_lt, wrote, ?_, aligned⟩
      simpa only [WriteStops, Vol.Used, freemapEq] using stops
    · exact impossible.elim
    · cases writing.symm.trans reading
  · rintro _ ⟨s₁, uio₁⟩ ⟨inside, v₁, done⟩
    rcases done with ⟨_, updated, rfl⟩ | ⟨reading, _⟩
    · apply (sfsIoOut_wrote updated rfl writing offsetEq fits inside small).total
      exact fun _ _ ended => ended.1
    · cases writing.symm.trans reading

/-- The `uio` of `sfs_io` while a read is limited to the end of the file. -/
def Uio.limit (uio : Uio) (m : Nat) : Uio :=
  { uio with uioResid := m }

theorem Uio.limit_advance (uio : Uio) (source : Bytes) (m : Nat) :
    (((uio.limit m).fill m source).advance m).limit (uio.uioResid - m) =
      (uio.fill m source).advance m := rfl

theorem Uio.Fits.limit (fits : uio.Fits n) {m : Nat} (less : m ≤ n) : (uio.limit m).Fits m :=
  ⟨less.trans fits.len, Nat.le_refl m,
    lt_of_le_of_lt (less.trans fits.resid) fits.resid_lt, fits.space, fits.le_offset,
    fits.offset_lt⟩

theorem sfsIoOut_read (file : FileAt dev V sv v) (volEq : s.vol content = V)
    (reading : uio.uioRw = .read) (extraresid : Nat) {panics : Panic → Prop}
    {fails : Errno → Sfs δ × Uio → Prop} {returns : Unit → Sfs δ × Uio → Prop} :
    Ensures (sfsIoOut sv extraresid) (s, uio) panics fails returns ↔
      returns () (s, uio.limit (uint32 (uio.uioResid + extraresid))) := by
  simp only [sfsIoOut, ensures_bind, ensures_get, ensures_onSfs, file.deref volEq,
    reading, reduceCtorEq, false_and, if_false]
  exact Iff.rfl

theorem sfsIoBody_read_spec (works : dev.Works content) (file : FileAt dev V sv v)
    (volEq : s.vol content = V) (reading : uio.uioRw = .read) (offsetEq : uio.uioOffset = o)
    (residEq : uio.uioResid = n) (fits : uio.Fits n) {extraresid : Nat}
    (small : n + extraresid < 2 ^ 32) :
    Ensures (sfsIoBody dev sv extraresid) (s, uio) (fun _ => False)
      (fun failure pair => pair.1.vol content = V ∧ ∃ k mem, k ≤ n ∧ (0 < n → k < n) ∧
        (0 < k → uio.Accessible k) ∧ ReadStops o n k uio failure ∧
        pair.2 = ((uio.setMem mem).advance k).limit (n - k + extraresid))
      (fun _ pair => pair.1.vol content = V ∧ (0 < n → o + n ≤ sfsMaxblocks * blockSize) ∧
        pair.2 = ((uio.fill n fun i => v.svI.bytes V.disk (o + i)).advance n).limit
          extraresid) := by
  have obeys := works.obeys fun _ => False
  simp only [sfsIoBody, ensures_bind, ensures_attempt]
  apply (sfsIoTransfer_spec obeys file volEq offsetEq residEq fits).answers
  · rintro failure ⟨s₁, uio₁⟩ (⟨writing, _⟩ |
      ⟨_, volEq₁, k, ⟨k_le, k_lt, accessible, mem, rfl⟩, stops | ⟨_, impossible⟩⟩)
    · cases reading.symm.trans writing
    · apply (sfsIoOut_read file volEq₁ (by exact reading) extraresid).mpr
      refine ⟨volEq₁, k, mem, k_le, k_lt, accessible, stops, ?_⟩
      have residEq' : ((uio.setMem mem).advance k).uioResid = n - k := by
        simp only [Uio.advance, Uio.setMem, residEq]
      rw [residEq', uint32_eq (by omega) (by omega)]
      rfl
    · exact impossible.elim
  · rintro _ ⟨s₁, uio₁⟩ ⟨inside, v₁, ⟨writing, _⟩ | ⟨_, _, volEq₁, rfl, rfl⟩⟩
    · cases reading.symm.trans writing
    · have extraEq : uint32 (((uio.fill n fun i => v₁.svI.bytes V.disk (o + i)).advance
          n).uioResid + extraresid) = extraresid := by
        simp only [Uio.advance, Uio.fill, Uio.setMem, residEq, Nat.sub_self]
        rw [uint32_eq] <;> omega
      apply (sfsIoOut_read file volEq₁ (by exact reading) extraresid).mpr
      rw [extraEq]
      exact ⟨volEq₁, inside, rfl⟩

/-- Why a read of `n` bytes at `o` fails after `k` bytes. When the end of what is asked for is
not a position in a file, the read is not limited to the end of the file. -/
def ReadFails (o n k : Nat) (v : SfsVnode) (uio : Uio) (failure : Errno) : Prop :=
  o < v.svI.sfiSize.toNat ∧ (0 < k → uio.Accessible k) ∧
    (o + n < 2 ^ 31 ∧ k < v.svI.sfiSize.toNat - o ∧
        ReadStops o (min n (v.svI.sfiSize.toNat - o)) k uio failure ∨
      2 ^ 31 ≤ o + n ∧ ReadStops o n k uio failure)

section Read

variable (works : dev.Works content) (file : FileAt dev V sv v) (volEq : s.vol content = V)
  (reading : uio.uioRw = .read) (offsetEq : uio.uioOffset = o) (residEq : uio.uioResid = n)
  (fits : uio.Fits n) (small : v.svI.sfiSize.toNat < 2 ^ 31)
include works file volEq reading offsetEq residEq fits small

theorem sfsIo_read_exact :
    Ensures (sfsIo dev sv) (s, uio) (fun _ => False)
      (fun failure pair => pair.1.vol content = V ∧ ∃ k mem,
        pair.2 = (uio.setMem mem).advance k ∧ ReadFails o n k v uio failure)
      (fun _ pair => pair.1.vol content = V ∧
        (o < v.svI.sfiSize.toNat → 2 ^ 31 ≤ o + n → o + n ≤ sfsMaxblocks * blockSize) ∧
        pair.2 = (uio.fill (min n (v.svI.sfiSize.toNat - o))
          fun i => v.svI.bytes V.disk (o + i)).advance (min n (v.svI.sfiSize.toNat - o))) := by
  have resid_lt := fits.resid_lt
  have limit := maxSize_eq
  have sizeEq : int32 v.svI.sfiSize.toNat = v.svI.sfiSize.toNat := int32_eq (by omega) (by omega)
  have endEq : o + n < 2 ^ 31 → int32 ((o : Int) + n) = o + n :=
    fun exact => int32_eq (by omega) (by omega)
  have endWrapped : ¬o + n < 2 ^ 31 → int32 ((o : Int) + n) < o := by
    intro wrapped
    simp only [int32, Int.bmod_def]
    omega
  have ends : v.svI.sfiSize.toNat ≤ o ∨
      (o < v.svI.sfiSize.toNat ∧ v.svI.sfiSize.toNat < o + n ∧ o + n < 2 ^ 31) ∨
      (o < v.svI.sfiSize.toNat ∧ int32 ((o : Int) + n) ≤ v.svI.sfiSize.toNat ∧
        (o + n < 2 ^ 31 → o + n ≤ v.svI.sfiSize.toNat)) := by
    omega
  rcases ends with past | ⟨before, clipped, exact⟩ | ⟨before, whole, exact⟩ <;>
    simp only [sfsIo, ensures_bind, ensures_get, reading, ensures_onSfs,
      file.deref volEq, sizeEq, offsetEq, residEq, ensures_ite]
  · have nothing : min n (v.svI.sfiSize.toNat - o) = 0 := by omega
    rw [if_pos (by omega), ensures_pure, nothing, Uio.fill_zero, fits.advance_zero]
    exact ⟨volEq, fun before => absurd before (by omega), rfl⟩
  · have endEq := endEq exact
    have extraEq : uint32 ((o : Int) + n - v.svI.sfiSize.toNat) =
        n - (v.svI.sfiSize.toNat - o) := by rw [uint32_eq] <;> omega
    have asserted : uint32 (int32 (uio.uioOffset + uio.uioResid) -
        int32 v.svI.sfiSize.toNat) < uio.uioResid := by
      rw [offsetEq, residEq, sizeEq, endEq, extraEq]
      omega
    have lengthEq : min n (v.svI.sfiSize.toNat - o) = v.svI.sfiSize.toNat - o := by omega
    have leftEq : n - (n - (v.svI.sfiSize.toNat - o)) = v.svI.sfiSize.toNat - o := by omega
    rw [if_neg (by omega), endEq, if_pos (by omega), ensures_assert_of asserted,
      ensures_modify, extraEq, lengthEq]
    change Ensures _ (s, uio.limit (uio.uioResid - (n - (v.svI.sfiSize.toNat - o)))) _ _ _
    rw [residEq, leftEq]
    have limited : (uio.limit (v.svI.sfiSize.toNat - o)).uioResid = v.svI.sfiSize.toNat - o := rfl
    apply (sfsIoBody_read_spec works file volEq (by exact reading) (by exact offsetEq) limited
      (fits.limit (by omega)) (by omega)).answers
    · rintro failure ⟨s', uio'⟩ ⟨volEq', k, mem, k_le, k_lt, accessible, stops, uioEq⟩
      have residEq' : v.svI.sfiSize.toNat - o - k + (n - (v.svI.sfiSize.toNat - o)) =
          uio.uioResid - k := by omega
      refine ⟨volEq', k, mem, uioEq.trans ?_, before, accessible,
        Or.inl ⟨exact, k_lt (by omega), by rwa [lengthEq]⟩⟩
      rw [residEq']
      rfl
    · rintro _ ⟨s', uio'⟩ ⟨volEq', _, uioEq⟩
      rw [← residEq] at uioEq
      exact ⟨volEq', by omega, uioEq.trans (Uio.limit_advance ..)⟩
  · rw [if_neg (by omega), if_neg (by omega)]
    apply (sfsIoBody_read_spec works file volEq reading offsetEq residEq fits (by omega)).answers
    · rintro failure ⟨s', uio'⟩ ⟨volEq', k, mem, k_le, k_lt, accessible, stops, uioEq⟩
      refine ⟨volEq', k, mem, uioEq.trans ?_, before, accessible, ?_⟩
      · rw [Nat.add_zero, ← residEq]
        rfl
      · by_cases short : o + n < 2 ^ 31
        · have inside := exact short
          refine Or.inl ⟨short, by omega, ?_⟩
          rwa [Nat.min_eq_left (by omega)]
        · exact Or.inr ⟨by omega, stops⟩
    · rintro _ ⟨s', uio'⟩ ⟨volEq', inside, uioEq⟩
      have lengthEq : min n (v.svI.sfiSize.toNat - o) = n := by omega
      have limitEq : ((uio.fill n fun i => v.svI.bytes V.disk (o + i)).advance n).limit 0 =
          (uio.fill n fun i => v.svI.bytes V.disk (o + i)).advance n := by
        simp only [Uio.limit, Uio.advance, Uio.fill, Uio.setMem, residEq, Nat.sub_self]
      rw [lengthEq]
      exact ⟨volEq', by omega, uioEq.trans limitEq⟩

theorem sfsIo_read_spec :
    Ensures (sfsIo dev sv) (s, uio) (fun _ => False)
      (fun failure pair => pair.1.vol content = V ∧ (o + n < 2 ^ 31 →
        failure = .einval ∧ sfsMaxblocks * blockSize < v.svI.sfiSize.toNat ∨
          failure = .efault ∧ ¬uio.Accessible (min n (v.svI.sfiSize.toNat - o))))
      (fun _ pair => pair.1.vol content = V ∧
        pair.2 = (uio.fill (min n (v.svI.sfiSize.toNat - o))
          fun i => v.svI.bytes V.disk (o + i)).advance (min n (v.svI.sfiSize.toNat - o))) := by
  apply (sfsIo_read_exact works file volEq reading offsetEq residEq fits small).answers
  · rintro failure pair ⟨volEq', k, mem, _, before, _, ⟨_, k_lt, stops⟩ | ⟨wrapped, _⟩⟩
    · refine ⟨volEq', fun _ => ?_⟩
      rcases stops with ⟨einval, outside⟩ | refused
      · exact Or.inl ⟨einval, by omega⟩
      · exact Or.inr refused
    · exact ⟨volEq', fun short => absurd short (by omega)⟩
  · exact fun _ pair returned => ⟨returned.1, returned.2.2⟩

end Read

end Io

/-! ## Files as arrays of bytes -/

section Refinement

variable {s : Sfs δ}

/-- What a file holds past its end is zero. -/
def ZeroPast (V : Vol) (v : SfsVnode) : Prop :=
  ∀ i, v.svI.sfiSize.toNat ≤ i → v.svI.bytes V.disk i = 0

/-- A file whose blocks are in use, and none of which belongs to the file of `v`. -/
def OtherFile (V : Vol) (v : SfsVnode) (inode : SfsInode) : Prop :=
  ∀ {k block}, inode.ptr V.disk k = some block →
    V.Used block ∧ ∀ j, v.svI.ptr V.disk j ≠ some block

theorem Grew.other_ptr {inode : SfsInode} (grew : Grew faults sv V v V' v')
    (other : OtherFile V v inode) : inode.ptr V'.disk = inode.ptr V.disk := by
  apply ptr_congr rfl rfl
  intro idblock indirect
  rcases other indirect with ⟨used, notOwn⟩
  exact grew.other idblock used notOwn

theorem Grew.other_bytes {inode : SfsInode} (grew : Grew faults sv V v V' v')
    (other : OtherFile V v inode) : inode.bytes V'.disk = inode.bytes V.disk := by
  apply bytes_congr
  · exact fun k _ => congrFun (grew.other_ptr other) k
  · intro k _ block mapped
    rcases other mapped with ⟨used, notOwn⟩
    exact grew.other block used notOwn

theorem Grew.other_vnode (grew : Grew faults sv V v V' v') {other : Nat} (different : other ≠ sv) :
    V'.vnodes other = V.vnodes other := by
  rw [grew.frame]
  exact update_of_ne different ..

/-- A write has put `k` of `n` bytes into the file at `o`, and has changed no other byte. -/
structure WroteBytes (dev : Device δ) (sv o n k : Nat) (V : Vol) (v : SfsVnode) (uio : Uio)
    (V' : Vol) (v' : SfsVnode) (uio' : Uio) : Prop where
  offset : uio'.uioOffset = o + k
  resid : uio'.uioResid = n - k
  file : FileAt dev V' sv v'
  bytes : ∀ i, v'.svI.bytes V'.disk i =
    if o ≤ i ∧ i < o + k then uio.data (i - o) else v.svI.bytes V.disk i
  size : 0 < k → v'.svI.sfiSize.toNat = max v.svI.sfiSize.toNat (o + k)
  zeros : ZeroPast V' v'
  otherBytes : ∀ inode, OtherFile V v inode → inode.bytes V'.disk = inode.bytes V.disk
  otherVnodes : ∀ other ≠ sv, V'.vnodes other = V.vnodes other

/-- A read has put the bytes of the file from `o` on into memory. -/
structure ReadBytes (o n k : Nat) (V : Vol) (v : SfsVnode) (uio uio' : Uio) : Prop where
  offset : uio'.uioOffset = o + k
  resid : uio'.uioResid = n - k
  memory : uio'.mem = uio.mem.store uio.uioSegflg uio.iovBase k
    fun i => v.svI.bytes V.disk (o + i)

theorem Wrote.bytes {k : Nat} (wrote : Wrote dev faults sv o k k V v uio V' uio')
    (offsetEq : uio.uioOffset = o) (residEq : uio.uioResid = n) (small : o + k < 2 ^ 31)
    (zeros : ZeroPast V v) : ∃ v', WroteBytes dev sv o n k V v uio V' v' uio' := by
  rcases wrote with ⟨_, ⟨mem, rfl⟩, v', written⟩
  have bytesEq : ∀ i, v'.svI.bytes V'.disk i =
      if o ≤ i ∧ i < o + k then uio.data (i - o) else v.svI.bytes V.disk i :=
    fun i => congrFun written.bytesEq i
  refine ⟨v', ?_, ?_, written.file, bytesEq, fun _ => written.size, ?_, ?_, ?_⟩
  · simp only [Uio.setMem, Uio.advance, offsetEq]
    exact int32_eq (by omega) (by omega)
  · simp only [Uio.setMem, Uio.advance, residEq]
  · intro i past
    rw [written.size] at past
    rw [bytesEq, if_neg (by omega), zeros i (by omega)]
  · exact fun _ other => written.grew.other_bytes other
  · exact fun _ different => written.grew.other_vnode different

/-- `sfs_io` on a file that is in order: a write puts its bytes, or a first part of them, in
place and changes nothing else; a read hands back what the file has. -/
theorem file_io_refines_bytes (works : dev.Works content) (file : FileAt dev V sv v)
    (volEq : s.vol content = V) (size_le : v.svI.sfiSize.toNat ≤ sfsMaxblocks * blockSize)
    (zeros : ZeroPast V v) (offsetEq : uio.uioOffset = o) (residEq : uio.uioResid = n)
    (fits : uio.Fits n) (positive : 0 < n) (small : o + n < 2 ^ 31) :
    (uio.uioRw = .write →
      Prog.Ensures (sfsIo dev sv) (s, uio) (fun _ => False)
        (fun failure pair => ∃ k < n, WriteStops o n k V v uio failure (pair.1.vol content) ∧
          ∃ v', WroteBytes dev sv o n k V v uio (pair.1.vol content) v' pair.2)
        (fun _ pair => ∃ v', WroteBytes dev sv o n n V v uio (pair.1.vol content) v' pair.2)) ∧
    (uio.uioRw = .read →
      Prog.Ensures (sfsIo dev sv) (s, uio) (fun _ => False)
        (fun failure pair => failure = .efault ∧
          ¬uio.Accessible (min n (v.svI.sfiSize.toNat - o)) ∧ pair.1.vol content = V)
        (fun _ pair => pair.1.vol content = V ∧
          ReadBytes o n (min n (v.svI.sfiSize.toNat - o)) V v uio pair.2)) := by
  have limit := maxSize_eq
  constructor
  · intro writing
    apply (sfsIo_write_spec works file volEq writing offsetEq residEq fits (by omega)).answers
    · rintro failure pair ⟨k, _, k_lt, wrote, stops, _⟩
      have k_lt := k_lt positive
      exact ⟨k, k_lt, stops, wrote.bytes offsetEq residEq (by omega) zeros⟩
    · exact fun _ _ wrote => wrote.bytes offsetEq residEq small zeros
  · intro reading
    apply (sfsIo_read_spec works file volEq reading offsetEq residEq fits (by omega)).answers
    · rintro failure pair ⟨volEq', stops⟩
      rcases stops small with ⟨_, outside⟩ | ⟨rfl, refused⟩
      · omega
      · exact ⟨rfl, refused, volEq'⟩
    · rintro _ ⟨s', _⟩ ⟨volEq', rfl⟩
      refine ⟨volEq', ?_, ?_, rfl⟩
      · simp only [Uio.advance, Uio.fill, Uio.setMem, offsetEq]
        exact int32_eq (by omega) (by omega)
      · simp only [Uio.advance, Uio.fill, Uio.setMem, residEq]

def emptyFile : SfsVnode where
  svI := { sfiSize := 0, sfiType := 1, sfiDirect := fun _ => 0, sfiIndirect := 0 }
  svIno := 3
  svDirty := false

/-- A volume of eight blocks of which four are in use, with an empty file loaded. -/
def smallVolume : Sfs Lhd where
  disk := blankDisk
  sfsSuper := { spNblocks := 8 }
  sfsSuperdirty := false
  sfsFreemap := { nbits := 8, v := fun _ => 0x0f }
  sfsFreemapdirty := false
  vnodes := fun sv => if sv = 0 then some emptyFile else none
  heap := enoughMemory

theorem emptyFile_ptr (disk : Nat → Block) (k : Nat) : emptyFile.svI.ptr disk k = none := by
  cases k using place_cases with
  | direct i => exact ptr_direct ..
  | entry j => exact ptr_entry ..
  | indirect => exact ptr_indirect ..
  | outside k outside => exact ptr_of_lt _ _ outside

theorem smallVolume_file :
    FileAt (lhdDevice 8 fun _ => true) (smallVolume.vol Lhd.sectors) 0 emptyFile := by
  have unmapped : ∀ k, emptyFile.svI.ptr (smallVolume.vol Lhd.sectors).disk k = none :=
    emptyFile_ptr _
  refine ⟨rfl, ⟨?_, ?_, ?_, ?_, ?_, ?_⟩, ?_, ?_, ?_⟩
  · decide
  · decide
  · decide
  · decide
  · intro block outside inside
    have nblocksEq : (smallVolume.vol Lhd.sectors).nblocks = 8 := by decide
    have bitsEq : Bitmap.words (smallVolume.vol Lhd.sectors).sfsFreemap.nbits * 8 = 8 := by decide
    omega
  · rfl
  · intro k block mapped
    rw [unmapped] at mapped
    cases mapped
  · intro k block mapped
    rw [unmapped] at mapped
    cases mapped
  · intro k j block mapped
    rw [unmapped] at mapped
    cases mapped

def smallWrite : Uio :=
  mkKuio (fun _ => 7) 6 100 .write

theorem file_io_refines_bytes_empty_file :
    Prog.Ensures (sfsIo (lhdDevice 8 fun _ => true) 0) (smallVolume, smallWrite) (fun _ => False)
      (fun failure pair => ∃ k < 6, WriteStops 100 6 k (smallVolume.vol Lhd.sectors) emptyFile
          smallWrite failure (pair.1.vol Lhd.sectors) ∧
        ∃ v', WroteBytes (lhdDevice 8 fun _ => true) 0 100 6 k (smallVolume.vol Lhd.sectors)
          emptyFile smallWrite (pair.1.vol Lhd.sectors) v' pair.2)
      (fun _ pair => ∃ v', WroteBytes (lhdDevice 8 fun _ => true) 0 100 6 6
        (smallVolume.vol Lhd.sectors) emptyFile smallWrite (pair.1.vol Lhd.sectors) v' pair.2) := by
  have zeros : ZeroPast (smallVolume.vol Lhd.sectors) emptyFile := by
    intro i _
    rw [SfsInode.bytes, emptyFile_ptr]
    split <;> rfl
  have fits : smallWrite.Fits 6 :=
    ⟨le_rfl, le_rfl, by decide, rfl, by decide, by decide⟩
  exact (file_io_refines_bytes (o := 100) (n := 6) (lhdDevice_works 8) smallVolume_file rfl
    (by decide) zeros rfl rfl fits (by decide) (by decide)).1 rfl

end Refinement

end Os161
