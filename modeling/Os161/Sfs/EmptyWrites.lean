import Os161.Lib.Machine
import Os161.Sfs.TruncateExact

/-!
# Writes that store nothing

Every write leaves `sfs_io` through the same exit, which compares the size of the file
with the offset of the `uio`. A write that stores nothing has not moved this offset, but
when it is past the end of the file the file grows up to it all the same. Since a file
can be told to grow past the largest place a block can have, reads before its end then
fail.

The runs of a file are made of `sfs_io`, of truncation to nothing, which is the only one
that the kernel asks for, and of whatever else leaves the file as it is. As long as
writes that store nothing begin inside of the file, its size stays within the limit.
-/

namespace Os161

open SfsM SfsIoM

variable {δ : Type} {dev : Device δ} {content : δ → Nat → Block} {sv o : Nat} {V : Vol}
  {v : SfsVnode} {uio uio' : Uio} {s s' : Sfs δ}

/-- A write has consumed no byte because there is none, or because it has stopped at its first
block. -/
def StoredNothing (uio : Uio) (result : Except Errno Unit) (uio' : Uio) : Prop :=
  uio'.uioResid = uio.uioResid ∧
    (uio.uioResid = 0 ∨ result = .error .enospc ∨ result = .error .einval)

/-- The file has its size and its bytes. -/
def SameFile (sv : Nat) (V : Vol) (v : SfsVnode) (V' : Vol) : Prop :=
  ∃ v', V'.vnodes sv = some v' ∧ v'.svI.sfiSize = v.svI.sfiSize ∧
    v'.svI.bytes V'.disk = v.svI.bytes V.disk

theorem sameFile_iff (works : dev.Works content) (file : FileAt dev (s.vol content) sv v)
    (small : v.svI.sfiSize.toNat < 2 ^ 31) (writing : uio.uioRw = .write)
    (offsetEq : uio.uioOffset = o) (fits : uio.Fits uio.uioResid) {result : Except Errno Unit}
    (outcome : sfsIo dev sv (s, uio) = .ok (result, (s', uio')))
    (nothing : StoredNothing uio result uio') :
    SameFile sv (s.vol content) v (s'.vol content) ↔ o ≤ v.svI.sfiSize.toNat := by
  obtain ⟨k, kEq, _, _, v', written⟩ :=
    sfsIo_wrote works file small writing offsetEq fits outcome
  have kZero : k = 0 := by
    have residEq := nothing.1
    omega
  have sizeEq := written.size
  rw [kZero, Nat.add_zero] at sizeEq
  constructor
  · rintro ⟨v'', present, same, _⟩
    cases written.file.present.symm.trans present
    rw [same] at sizeEq
    omega
  · intro inside
    refine ⟨v', written.file.present, UInt32.toNat_inj.mp (by omega), ?_⟩
    rw [written.bytesEq, kZero]
    funext i
    exact if_neg (by omega)

/-! ## Past the largest file -/

section Outside

variable {n : Nat} {panics : Panic → Prop} {fails : Errno → Sfs δ × Uio → Prop}
  {returns : Unit → Sfs δ × Uio → Prop}

theorem sfsPartialio_outside (offsetEq : uio.uioOffset = o) (fits : uio.Fits n)
    (outside : sfsMaxblocks ≤ o / blockSize) {skip len : Nat} (inside : skip + len ≤ blockSize) :
    Ensures (sfsPartialio dev sv skip len) (s, uio) panics fails returns ↔
      fails .einval (s, uio) := by
  have sizeOk := partialio_size inside
  simp only [sfsPartialio, ensures_bind, ensures_get, ensures_assert_of sizeOk,
    fileblock_eq offsetEq fits, ensures_onSfs, sfsBmap_outside _ _ _ outside, ensures_fail]

theorem sfsBlockio_outside (offsetEq : uio.uioOffset = o) (fits : uio.Fits n)
    (outside : sfsMaxblocks ≤ o / blockSize) :
    Ensures (sfsBlockio dev sv) (s, uio) panics fails returns ↔ fails .einval (s, uio) := by
  simp only [sfsBlockio, ensures_bind, ensures_get, fileblock_eq offsetEq fits,
    ensures_onSfs, sfsBmap_outside _ _ _ outside, ensures_fail]

/-- No byte can be moved past the last place that a block can have. -/
theorem sfsIoTransfer_outside (offsetEq : uio.uioOffset = o) (residEq : uio.uioResid = n)
    (fits : uio.Fits n) (positive : 0 < n) (outside : sfsMaxblocks ≤ o / blockSize) :
    Ensures (sfsIoTransfer dev sv) (s, uio) panics fails returns ↔
      fails .einval (s, uio) := by
  have blkoff_lt : o % blockSize < blockSize := Nat.mod_lt _ (by decide)
  simp only [sfsIoTransfer, sfsIoFirst, ensures_bind, ensures_get, blkoff_eq offsetEq,
    block_rest_eq, residEq, ensures_ite]
  by_cases aligned : o % blockSize = 0
  · have tmodEq := tmod_of_aligned offsetEq aligned
    rw [if_neg (not_not.mpr aligned), ensures_pure]
    simp only [sfsIoRest, ensures_bind, ensures_get, residEq, ensures_ite,
      if_pos positive.ne', ensures_assert_of tmodEq]
    cases blocks : n / blockSize with
    | zero =>
        have short : n < blockSize := (Nat.div_eq_zero_iff_lt (by decide)).mp blocks
        have short' : uio.uioResid < blockSize := residEq ▸ short
        simp only [sfsIoLoop, ensures_pure, ensures_assert_of short', residEq, if_pos positive]
        exact sfsPartialio_outside offsetEq fits outside (by omega)
    | succ =>
        rw [sfsIoLoop, ensures_bind]
        exact sfsBlockio_outside offsetEq fits outside
  · rw [if_pos aligned]
    exact sfsPartialio_outside offsetEq fits outside (by omega)

theorem sfsIo_write_outside (file : FileAt dev (s.vol content) sv v) (writing : uio.uioRw = .write)
    (offsetEq : uio.uioOffset = o) (residEq : uio.uioResid = n) (fits : uio.Fits n)
    (positive : 0 < n) (outside : sfsMaxblocks ≤ o / blockSize) :
    Ensures (sfsIo dev sv) (s, uio) (fun _ => False) (fun failure _ => failure = .einval)
      (fun _ _ => False) := by
  have present : s.vnodes sv = some v := file.present
  simp only [sfsIo, ensures_bind, ensures_get, writing, sfsIoBody, ensures_attempt,
    sfsIoTransfer_outside offsetEq residEq fits positive outside, sfsIoOut, ensures_onSfs,
    file.deref rfl, ensures_ite]
  split
  · rw [SfsM.ensures_updateInode present]
    rfl
  · rfl

end Outside

/-! ## Runs -/

/-- What can happen to a file. -/
inductive FileUse (δ : Type) where
  | io (uio : Uio)
  | truncate
  | others (after : Sfs δ)

/-- A write that stores nothing begins inside of the file. -/
def BeginsInside (dev : Device δ) (sv : Nat) (uio : Uio) (s : Sfs δ) : Prop :=
  uio.uioRw = .write → ∀ result s' uio' v, sfsIo dev sv (s, uio) = .ok (result, (s', uio')) →
    StoredNothing uio result uio' → s.vnodes sv = some v → uio.uioOffset ≤ v.svI.sfiSize.toNat

/-- The file is in order and has not changed its size. -/
def LeavesFile (dev : Device δ) (content : δ → Nat → Block) (sv : Nat) (s after : Sfs δ) : Prop :=
  ∀ v, s.vnodes sv = some v → ∃ v', FileAt dev (after.vol content) sv v' ∧
    v'.svI.sfiSize = v.svI.sfiSize

/-- A file in use. -/
def fileMachine (dev : Device δ) (content : δ → Nat → Block) (sv : Nat) :
    Machine Panic (Sfs δ) Errno (FileUse δ) Unit where
  exec
    | .io uio => do
        let _ ← withLocal uio (sfsIo dev sv)
        pure ()
    | .truncate => sfsTruncate dev sv 0
    | .others after => modify fun _ => after
  Enabled
    | .io uio, s => 0 ≤ uio.uioOffset ∧ uio.Fits uio.uioResid ∧ BeginsInside dev sv uio s
    | .truncate, _ => True
    | .others after, s => LeavesFile dev content sv s after
  arm s _ := s

/-- A file that is in order, with a size that a file can have. -/
def FileInOrder (dev : Device δ) (content : δ → Nat → Block) (sv : Nat) (s : Sfs δ) : Prop :=
  ∃ v, FileAt dev (s.vol content) sv v ∧ v.svI.sfiSize.toNat ≤ sfsMaxblocks * blockSize

theorem FileInOrder.write (works : dev.Works content) (inOrder : FileInOrder dev content sv s)
    (writing : uio.uioRw = .write) (offsetEq : uio.uioOffset = o)
    (fits : uio.Fits uio.uioResid) (begins : BeginsInside dev sv uio s) :
    Ensures (sfsIo dev sv) (s, uio) (fun _ => False)
      (fun _ pair => FileInOrder dev content sv pair.1)
      (fun _ pair => FileInOrder dev content sv pair.1) := by
  obtain ⟨v, file, size_le⟩ := inOrder
  have limit := maxSize_eq
  have present : s.vnodes sv = some v := file.present
  have grown : ∀ {k : Nat} {V' : Vol} {uio' : Uio}, (k = 0 → o ≤ sfsMaxblocks * blockSize) →
      Wrote dev (fun _ => False) sv o k k (s.vol content) v uio V' uio' →
      ∃ v', FileAt dev V' sv v' ∧ v'.svI.sfiSize.toNat ≤ sfsMaxblocks * blockSize := by
    rintro k _ _ unmoved ⟨moved, _, v', written⟩
    refine ⟨v', written.file, ?_⟩
    rw [written.size]
    omega
  have inside : ∀ {result s' uio'}, sfsIo dev sv (s, uio) = .ok (result, (s', uio')) →
      StoredNothing uio result uio' → o ≤ sfsMaxblocks * blockSize := by
    intro result s' uio' outcome nothing
    have inside := begins writing result s' uio' v outcome nothing present
    omega
  rcases (sfsIo_write_spec works file rfl writing offsetEq rfl fits (by omega)).outcomes with
    ⟨_, _, impossible⟩ | ⟨failure, ⟨s', uio'⟩, outcome, k, k_le, k_lt, wrote, stops, _⟩ |
    ⟨_, ⟨s', uio'⟩, outcome, wrote⟩
  · exact impossible.elim
  · rw [ensures_of_fail_eq outcome]
    apply grown ?_ wrote
    rintro rfl
    have residEq : uio'.uioResid = uio.uioResid := wrote.resid_eq
    by_cases positive : 0 < uio.uioResid
    · rcases stops with ⟨rfl, _⟩ | ⟨rfl, _⟩ | ⟨rfl, _⟩
      · exact inside outcome ⟨residEq, Or.inr (Or.inr rfl)⟩
      · exact inside outcome ⟨residEq, Or.inr (Or.inl rfl)⟩
      · -- the memory is only looked at when there is a place for the first byte
        by_contra past
        have outside : sfsMaxblocks ≤ o / blockSize :=
          (Nat.le_div_iff_mul_le (by decide)).mpr (by omega)
        have einval := sfsIo_write_outside file writing offsetEq rfl fits positive outside
        rw [ensures_of_fail_eq outcome] at einval
        cases einval
    · exact inside outcome ⟨residEq, Or.inl (by omega)⟩
  · rw [ensures_of_ok_eq outcome]
    apply grown ?_ wrote
    intro nothing
    have residEq : uio'.uioResid = uio.uioResid - uio.uioResid := wrote.resid_eq
    exact inside outcome ⟨by omega, Or.inl nothing⟩

theorem FileInOrder.exec (works : dev.Works content) (inOrder : FileInOrder dev content sv s)
    {operation : FileUse δ} (enabled : (fileMachine dev content sv).Enabled operation s) :
    Ensures ((fileMachine dev content sv).exec operation) s (fun _ => False)
      (fun _ => FileInOrder dev content sv) (fun _ => FileInOrder dev content sv) := by
  have limit := maxSize_eq
  cases operation with
  | io uio =>
      obtain ⟨positive, fits, begins⟩ := enabled
      obtain ⟨o, offsetEq⟩ := Int.eq_ofNat_of_zero_le positive
      simp only [fileMachine, ensures_bind, ensures_withLocal, ensures_pure]
      cases direction : uio.uioRw with
      | write => exact inOrder.write works direction offsetEq fits begins
      | read =>
          obtain ⟨v, file, size_le⟩ := inOrder
          apply (sfsIo_read_exact works file rfl direction offsetEq rfl fits (by omega)).answers
          · rintro _ _ ⟨volEq, _⟩
            exact ⟨v, volEq ▸ file, size_le⟩
          · rintro _ _ ⟨volEq, _⟩
            exact ⟨v, volEq ▸ file, size_le⟩
  | truncate =>
      obtain ⟨v, file, _⟩ := inOrder
      have zero_lt : 0 < 2 ^ 31 := by decide
      apply (sfsTruncate_cut works file rfl zero_lt).total
      rintro _ s' ⟨v', shrank, sizeEq, _⟩
      exact ⟨v', shrank.file file, by omega⟩
  | others after =>
      obtain ⟨v, file, size_le⟩ := inOrder
      obtain ⟨v', file', sizeEq⟩ := enabled v file.present
      exact ⟨v', file', sizeEq ▸ size_le⟩

theorem fileInOrder_of_reachable (works : dev.Works content)
    (reachable : (fileMachine dev content sv).Reachable (FileInOrder dev content sv) s) :
    FileInOrder dev content sv s := by
  apply reachable.invariant fun _ starts => starts
  intro s operation _ _ enabled inOrder
  exact (inOrder.exec works enabled).mono (fun _ _ => trivial) (fun _ _ kept => kept)
    (fun _ _ kept => kept)

/-- **Writes that store nothing.** Such a write leaves the file as it is exactly if it begins
inside of the file. If all of them do, the size of the file never exceeds what its blocks can
hold, and reads before its end succeed. -/
theorem stores_nothing_changes_nothing_iff (works : dev.Works content) :
    (∀ (s : Sfs δ) (v : SfsVnode) (uio : Uio) (o : Nat), FileAt dev (s.vol content) sv v →
      v.svI.sfiSize.toNat < 2 ^ 31 → uio.uioRw = .write → uio.uioOffset = o →
      uio.Fits uio.uioResid →
      Prog.Ensures (sfsIo dev sv) (s, uio) (fun _ => False)
        (fun failure pair => StoredNothing uio (.error failure) pair.2 →
          (SameFile sv (s.vol content) v (pair.1.vol content) ↔ o ≤ v.svI.sfiSize.toNat))
        (fun value pair => StoredNothing uio (.ok value) pair.2 →
          (SameFile sv (s.vol content) v (pair.1.vol content) ↔ o ≤ v.svI.sfiSize.toNat))) ∧
    ∀ s, (fileMachine dev content sv).Reachable (FileInOrder dev content sv) s →
      ∃ v, FileAt dev (s.vol content) sv v ∧
        v.svI.sfiSize.toNat ≤ sfsMaxblocks * blockSize ∧
        ∀ (uio : Uio) (o n : Nat), uio.uioRw = .read → uio.uioOffset = o →
          uio.uioResid = n → uio.Fits n → o + n < 2 ^ 31 →
          uio.Accessible (min n (v.svI.sfiSize.toNat - o)) →
          Prog.Ensures (sfsIo dev sv) (s, uio) (fun _ => False) (fun _ _ => False)
            (fun _ pair => pair.2 = (uio.fill (min n (v.svI.sfiSize.toNat - o))
              fun i => v.svI.bytes (s.vol content).disk (o + i)).advance
                (min n (v.svI.sfiSize.toNat - o))) := by
  constructor
  · intro s v uio o file small writing offsetEq fits
    rcases (sfsIo_write_spec works file rfl writing offsetEq rfl fits small).outcomes with
      ⟨_, _, impossible⟩ | ⟨_, _, outcome, _⟩ | ⟨_, _, outcome, _⟩
    · exact impossible.elim
    · rw [ensures_of_fail_eq outcome]
      exact sameFile_iff works file small writing offsetEq fits outcome
    · rw [ensures_of_ok_eq outcome]
      exact sameFile_iff works file small writing offsetEq fits outcome
  · intro s reachable
    obtain ⟨v, file, size_le⟩ := fileInOrder_of_reachable works reachable
    refine ⟨v, file, size_le, ?_⟩
    intro uio o n reading offsetEq residEq fits short accessible
    have limit := maxSize_eq
    apply (sfsIo_read_spec works file rfl reading offsetEq residEq fits (by omega)).answers
    · rintro _ _ ⟨_, stops⟩
      rcases stops short with ⟨_, larger⟩ | ⟨_, refused⟩
      · omega
      · exact refused accessible
    · exact fun _ _ returned => returned.2

def emptyWrite (o : Nat) : Uio :=
  mkKuio (fun _ => 0) 0 o .write

/-- A write of nothing at the start of an empty file; and a read of six bytes from a file to which
they were written before. -/
theorem stores_nothing_changes_nothing_small_file :
    Prog.Ensures (sfsIo (lhdDevice 8 fun _ => true) 0) (smallVolume, emptyWrite 0) (fun _ => False)
      (fun failure pair => StoredNothing (emptyWrite 0) (.error failure) pair.2 →
        (SameFile 0 (smallVolume.vol Lhd.sectors) emptyFile (pair.1.vol Lhd.sectors) ↔ 0 ≤ 0))
      (fun value pair => StoredNothing (emptyWrite 0) (.ok value) pair.2 →
        (SameFile 0 (smallVolume.vol Lhd.sectors) emptyFile (pair.1.vol Lhd.sectors) ↔ 0 ≤ 0)) ∧
    ∃ s uio' v, sfsIo (lhdDevice 8 fun _ => true) 0 (smallVolume, smallWrite) =
        .ok (.ok (), (s, uio')) ∧
      FileAt (lhdDevice 8 fun _ => true) (s.vol Lhd.sectors) 0 v ∧ v.svI.sfiSize = 106 ∧
      Prog.Ensures (sfsIo (lhdDevice 8 fun _ => true) 0) (s, mkKuio (fun _ => 0) 8 100 .read)
        (fun _ => False) (fun _ _ => False)
        (fun _ pair => pair.2 = ((mkKuio (fun _ => 0) 8 100 .read).fill 6
          fun i => v.svI.bytes (s.vol Lhd.sectors).disk (100 + i)).advance 6) := by
  have fits : (emptyWrite 0).Fits 0 := mkKuio_fits _ _ (by decide) (by decide)
  refine ⟨(stores_nothing_changes_nothing_iff (lhdDevice_works 8)).1 _ _ _ 0 smallVolume_file
    (by decide) rfl rfl fits, ?_⟩
  obtain ⟨s, uio', v₁, written, rest, present, sizeEq⟩ : ∃ s uio' v,
      sfsIo (lhdDevice 8 fun _ => true) 0 (smallVolume, smallWrite) = .ok (.ok (), (s, uio')) ∧
        uio'.uioResid = 0 ∧ s.vnodes 0 = some v ∧ v.svI.sfiSize = 106 :=
    ⟨_, _, _, rfl, rfl, rfl, rfl⟩
  have stores : BeginsInside (lhdDevice 8 fun _ => true) 0 smallWrite smallVolume := by
    rintro _ result s' uio'' _ outcome ⟨same, _⟩ _
    cases written.symm.trans outcome
    exact absurd (rest.symm.trans same) (by decide)
  have moved : withLocal smallWrite (sfsIo (lhdDevice 8 fun _ => true) 0) smallVolume =
      .ok (.ok ((), uio'), s) := by
    rw [withLocal, written]
  have step : (fileMachine (lhdDevice 8 fun _ => true) Lhd.sectors 0).Step smallVolume s :=
    ⟨.io smallWrite, ⟨by decide, mkKuio_fits _ _ (by decide) (by decide), stores⟩, (), .ok (),
      bind_of_ok moved⟩
  obtain ⟨v, file, _, reads⟩ := (stores_nothing_changes_nothing_iff (lhdDevice_works 8)).2 s
    (Machine.Reachable.step (.start ⟨emptyFile, smallVolume_file, by decide⟩) step)
  cases present.symm.trans file.present
  refine ⟨s, uio', v₁, written, file, sizeEq, ?_⟩
  have length : min 8 (v₁.svI.sfiSize.toNat - 100) = 6 := by
    rw [sizeEq]
    rfl
  rw [← length]
  exact reads _ 100 8 rfl rfl rfl (mkKuio_fits _ _ (by decide) (by decide)) (by decide) (Or.inl rfl)

/-- A write of nothing makes an empty file larger than a file can be, and the byte before its
new end cannot be read. -/
theorem empty_write_grows_file :
    ∃ s' uio', sfsIo (lhdDevice 8 fun _ => true) 0 (smallVolume, emptyWrite 102400) =
        .ok (.ok (), (s', uio')) ∧
      StoredNothing (emptyWrite 102400) (.ok ()) uio' ∧
      (s'.vnodes 0).map (fun v => v.svI.sfiSize.toNat) = some 102400 ∧
      ∃ s'' uio'', sfsIo (lhdDevice 8 fun _ => true) 0 (s', mkKuio (fun _ => 0) 1 102399 .read) =
        .ok (.error .einval, (s'', uio'')) :=
  ⟨_, _, rfl, ⟨rfl, Or.inl rfl⟩, rfl, _, _, rfl⟩

end Os161
