import Os161.Sfs.Truncate

/-!
# What truncation discards

A file that has been cut to `len` bytes should have exactly the blocks before the new
end, and what is behind it should be gone for good: when later writes make the file
larger again, the bytes that they skip should read as zeros.

`sfs_truncate` does this when three things are true of the file before (`CutsCleanly`):
the block just behind the new end is not one of the indirect block, an indirect block
that is not looked at is not empty, and the part of the last block that is cut off is
already zero, since the block stays as it is.
-/

namespace Os161

open SfsM SfsIoM

variable {δ : Type} {dev : Device δ} {content : δ → Nat → Block} {sv len : Nat} {V V' : Vol}
  {v v' : SfsVnode} {s s' : Sfs δ}

/-! ## The new end -/

/-- The number of blocks that a file of this size can have. -/
def fileBlocks (len : Nat) : Nat :=
  (len + blockSize - 1) / blockSize

/-- `blocklen` in `sfs_truncate`; where the sum overflows both numbers are past every file. -/
theorem blocklen_cases (small : len < 2 ^ 31) :
    uint32 ((int32 ((len : Int) + blockSize - 1)).tdiv blockSize) = fileBlocks len ∨
      sfsMaxblocks ≤ uint32 ((int32 ((len : Int) + blockSize - 1)).tdiv blockSize) ∧
        sfsMaxblocks ≤ fileBlocks len := by
  have size : blockSize = 512 := rfl
  have blocks : sfsMaxblocks = 143 := rfl
  simp only [fileBlocks, size, blocks]
  by_cases exact : len + 511 < 2 ^ 31
  · left
    rw [int32_eq (by omega) (by omega), Int.tdiv_eq_ediv_of_nonneg (by omega), uint32_eq] <;> omega
  · right
    have wrapped : int32 ((len : Int) + (512 : Nat) - 1) = len + 511 - 2 ^ 32 := by
      simp only [int32, Int.bmod_def]
      omega
    constructor
    · have sign : Int.sign ((512 : Nat) : Int) = 1 := rfl
      rw [wrapped, uint32, Int.tdiv_eq_ediv, sign]
      split <;> omega
    · omega

/-- Past the last possible block it does not matter where a file is cut. -/
theorem Truncated.of_large {c c' : Nat} {ptr ptr' : Nat → Option Nat}
    (truncated : Truncated c ptr ptr') (large : sfsMaxblocks ≤ c) (large' : sfsMaxblocks ≤ c') :
    Truncated c' ptr ptr' := by
  have ndirect := sfsMaxblocks_eq
  refine ⟨fun i => ?_, fun j => ?_, ?_⟩
  · rw [truncated.direct, if_pos (by omega), if_pos (by omega)]
  · rw [truncated.rest.entry, if_pos (by omega), if_pos (by omega)]
  · rw [truncated.rest.indirect, if_pos (Or.inl (by omega)), if_pos (Or.inl (by omega))]

theorem sfsTruncate_cut (works : dev.Works content) (file : FileAt dev V sv v)
    (volEq : s.vol content = V) (small : len < 2 ^ 31) :
    Ensures (sfsTruncate dev sv len) s (fun _ => False) (fun _ _ => False)
      (fun _ s' => ∃ v', Shrank sv V v (s'.vol content) v' ∧ v'.svI.sfiSize.toNat = len ∧
        Truncated (fileBlocks len) (v.svI.ptr V.disk) (v'.svI.ptr (s'.vol content).disk)) := by
  apply (sfsTruncate_spec works file volEq len).imp
  rintro _ s' ⟨v', shrank, _, sizeEq, truncated⟩
  refine ⟨v', shrank, ?_, ?_⟩
  · rw [sizeEq, uint32_eq (by omega) (by omega), Int.toNat_natCast,
      UInt32.toNat_ofNat_of_lt' (lt_trans small (by decide))]
  · rcases blocklen_cases small with same | ⟨large, large'⟩
    · rwa [same] at truncated
    · exact truncated.of_large large large'

/-! ## The property -/

/-- The file has lost the block, or the block was its indirect block and nothing is left in it. -/
def Discarded (ptr ptr' : Nat → Option Nat) (block : Nat) : Prop :=
  (∃ i < sfsMaxblocks, ptr i = some block ∧ ptr' i = none) ∨
    ptr sfsMaxblocks = some block ∧ ∀ j : Fin sfsDbperidb, ptr' (sfsNdirect + j) = none

/-- The file has been cut to `len` bytes: it has exactly its blocks before the new end, and what
it has lost is free. A block that were unmarked twice would have halted the system. -/
structure CutTo (sv len : Nat) (V : Vol) (v : SfsVnode) (V' : Vol) (v' : SfsVnode) : Prop where
  present : V'.vnodes sv = some v'
  size : v'.svI.sfiSize.toNat = len
  mapped : ∀ i < sfsMaxblocks, (v'.svI.ptr V'.disk i).isSome ↔
    (v.svI.ptr V.disk i).isSome ∧ i < fileBlocks len
  kept : ∀ i < sfsMaxblocks, ∀ block, v'.svI.ptr V'.disk i = some block →
    v.svI.ptr V.disk i = some block
  freed : ∀ block, V'.Used block ↔
    V.Used block ∧ ¬Discarded (v.svI.ptr V.disk) (v'.svI.ptr V'.disk) block

/-- Writes to a file one after another, whether they return an error or not, with the places
of the bytes that they have written. -/
inductive LaterWrites (dev : Device δ) (sv : Nat) (s : Sfs δ) : (Nat → Prop) → Sfs δ → Prop
  | none : LaterWrites dev sv s (fun _ => False) s
  | write {rewritten : Nat → Prop} {s₁ s₂ : Sfs δ} {uio uio' : Uio} {result : Except Errno Unit}
      {o : Nat} (before : LaterWrites dev sv s rewritten s₁) (writing : uio.uioRw = .write)
      (offsetEq : uio.uioOffset = o) (fits : uio.Fits uio.uioResid)
      (wrote : sfsIo dev sv (s₁, uio) = .ok (result, (s₂, uio'))) :
      LaterWrites dev sv s
        (fun i => rewritten i ∨ o ≤ i ∧ i < o + (uio.uioResid - uio'.uioResid)) s₂

/-- Every read of the file hands back zeros for these places. -/
def ReadsZero (dev : Device δ) (sv : Nat) (s : Sfs δ) (places : Nat → Prop) : Prop :=
  ∀ ⦃uio uio' : Uio⦄ ⦃s' : Sfs δ⦄ ⦃o : Nat⦄, uio.uioRw = .read → uio.uioOffset = o →
    uio.Fits uio.uioResid → sfsIo dev sv (s, uio) = .ok (.ok (), (s', uio')) →
    ∀ i < uio.uioResid - uio'.uioResid, places (o + i) →
      uio'.mem.load uio.uioSegflg (uio.iovBase + i) = 0

/-- Truncation discards exactly what is past the new end. -/
def TruncatesExactly (dev : Device δ) (content : δ → Nat → Block) (sv len : Nat) (v : SfsVnode)
    (s : Sfs δ) : Prop :=
  Prog.Ensures (sfsTruncate dev sv len) s (fun _ => False) (fun _ _ => False)
    (fun _ s' => (∃ v', CutTo sv len (s.vol content) v (s'.vol content) v') ∧
      ∀ {rewritten s''}, LaterWrites dev sv s' rewritten s'' →
        ReadsZero dev sv s'' fun i => len ≤ i ∧ ¬rewritten i)

/-- No block of the indirect block is just behind the new end, an indirect block that is not
looked at is not empty, and the rest of the last block is zero. -/
structure CutsCleanly (len : Nat) (V : Vol) (v : SfsVnode) : Prop where
  boundary : sfsNdirect ≤ fileBlocks len → fileBlocks len < sfsMaxblocks →
    v.svI.ptr V.disk (fileBlocks len) = none
  indirect : sfsMaxblocks - 1 ≤ fileBlocks len → (v.svI.ptr V.disk sfsMaxblocks).isSome →
    ∃ j : Fin sfsDbperidb, (v.svI.ptr V.disk (sfsNdirect + j)).isSome
  zeros : ∀ i, len ≤ i → i < fileBlocks len * blockSize → v.svI.bytes V.disk i = 0

/-! ## Where blocks are lost -/

section Cut

variable (truncated : Truncated (fileBlocks len) (v.svI.ptr V.disk) (v'.svI.ptr V'.disk))
include truncated

theorem Truncated.mapped_iff (clean : CutsCleanly len V v) {i : Nat} (inside : i < sfsMaxblocks) :
    (v'.svI.ptr V'.disk i).isSome ↔ (v.svI.ptr V.disk i).isSome ∧ i < fileBlocks len := by
  have boundary := clean.boundary
  cases i using SfsInode.place_cases with
  | direct i =>
      rw [truncated.direct]
      split <;> simp [*]
  | entry j =>
      rw [truncated.rest.entry]
      by_cases before : sfsNdirect + j < fileBlocks len
      · rw [if_pos (by omega)]
        simp [before]
      · -- only the block at the new end could be kept by mistake
        by_cases same : sfsNdirect + j = fileBlocks len
        · rw [same, boundary (by omega) (by omega)]
          simp
        · rw [if_neg (by omega)]
          simp [before]
  | indirect => omega
  | outside k outside => omega

theorem Truncated.indirect_none_iff (clean : CutsCleanly len V v)
    (some : (v.svI.ptr V.disk sfsMaxblocks).isSome) :
    v'.svI.ptr V'.disk sfsMaxblocks = none ↔
      ∀ j : Fin sfsDbperidb, v'.svI.ptr V'.disk (sfsNdirect + j) = none := by
  have left : sfsMaxblocks - 1 ≤ fileBlocks len →
      ∃ j : Fin sfsDbperidb, (v'.svI.ptr V'.disk (sfsNdirect + j)).isSome := by
    intro high
    rcases clean.indirect high some with ⟨j, entry⟩
    exact ⟨j, by rwa [truncated.rest.entry, if_pos (Or.inl high)]⟩
  rw [truncated.rest.indirect]
  constructor
  · intro gone j
    by_contra entry
    rw [if_pos (Or.inr ⟨j, isSome_iff_ne_none.mpr entry⟩)] at gone
    rw [gone] at some
    cases some
  · intro empty
    rw [if_neg]
    rintro (high | ⟨j, entry⟩)
    · rcases left high with ⟨j, entry⟩
      rw [empty] at entry
      cases entry
    · rw [empty] at entry
      cases entry

theorem Truncated.freed_iff (clean : CutsCleanly len V v) (shrank : Shrank sv V v V' v')
    (block : Nat) :
    V'.Used block ↔ V.Used block ∧ ¬Discarded (v.svI.ptr V.disk) (v'.svI.ptr V'.disk) block := by
  have kept_iff : ∀ k, (v.svI.ptr V.disk k = some block → v'.svI.ptr V'.disk k = some block) ↔
      ¬(v.svI.ptr V.disk k = some block ∧ v'.svI.ptr V'.disk k = none) := by
    intro k
    constructor
    · rintro kept ⟨mapped, gone⟩
      rw [kept mapped] at gone
      cases gone
    · intro kept mapped
      rcases shrank.ptr k with same | gone
      · rw [same, mapped]
      · exact absurd ⟨mapped, gone⟩ kept
  rw [shrank.used]
  simp only [kept_iff, ← not_exists]
  apply and_congr_right
  intro _
  apply not_congr
  constructor
  · rintro ⟨k, mapped, gone⟩
    by_cases inside : k < sfsMaxblocks
    · exact Or.inl ⟨k, inside, mapped, gone⟩
    · by_cases outside : sfsMaxblocks < k
      · rw [SfsInode.ptr_of_lt _ _ outside] at mapped
        cases mapped
      · obtain rfl : k = sfsMaxblocks := by omega
        have some : (v.svI.ptr V.disk sfsMaxblocks).isSome := by rw [mapped]; rfl
        exact Or.inr ⟨mapped, (truncated.indirect_none_iff clean some).mp gone⟩
  · rintro (⟨i, _, mapped, gone⟩ | ⟨mapped, empty⟩)
    · exact ⟨i, mapped, gone⟩
    · have some : (v.svI.ptr V.disk sfsMaxblocks).isSome := by rw [mapped]; rfl
      exact ⟨sfsMaxblocks, mapped, (truncated.indirect_none_iff clean some).mpr empty⟩

theorem Truncated.bytes_eq (file : FileAt dev V sv v) (shrank : Shrank sv V v V' v') {i : Nat}
    (before : i < fileBlocks len * blockSize) : v'.svI.bytes V'.disk i = v.svI.bytes V.disk i := by
  have place : i / blockSize < fileBlocks len := Nat.div_lt_of_lt_mul (Nat.mul_comm .. ▸ before)
  simp only [SfsInode.bytes]
  split
  · rename_i inside
    have same : v'.svI.ptr V'.disk (i / blockSize) = v.svI.ptr V.disk (i / blockSize) := by
      generalize i / blockSize = k at place inside
      cases k using SfsInode.place_cases with
      | direct k => rw [truncated.direct, if_pos place]
      | entry j => rw [truncated.rest.entry, if_pos (by omega)]
      | indirect => omega
      | outside k outside => omega
    rw [same]
    cases mapped : v.svI.ptr V.disk (i / blockSize) with
    | none => rfl
    | some block =>
        have notIndirect : v.svI.ptr V.disk sfsMaxblocks ≠ some block := by
          intro indirect
          have samePlace := file.exclusive mapped indirect
          omega
        simp only [shrank.other block notIndirect]
  · rfl

theorem Truncated.bytes_past (file : FileAt dev V sv v) (clean : CutsCleanly len V v)
    (shrank : Shrank sv V v V' v') {i : Nat} (past : len ≤ i) : v'.svI.bytes V'.disk i = 0 := by
  by_cases before : i < fileBlocks len * blockSize
  · rw [truncated.bytes_eq file shrank before, clean.zeros i past before]
  · simp only [SfsInode.bytes]
    split
    · rename_i inside
      have behind : ¬i / blockSize < fileBlocks len := by
        rw [Nat.div_lt_iff_lt_mul (by decide)]
        exact before
      have gone : v'.svI.ptr V'.disk (i / blockSize) = none := by
        rw [← Option.not_isSome_iff_eq_none, truncated.mapped_iff clean inside]
        exact fun mapped => behind mapped.2
      rw [gone]
    · rfl

theorem Truncated.cutTo (clean : CutsCleanly len V v) (shrank : Shrank sv V v V' v')
    (sizeEq : v'.svI.sfiSize.toNat = len) : CutTo sv len V v V' v' where
  present := shrank.present
  size := sizeEq
  mapped := fun _ inside => truncated.mapped_iff clean inside
  kept := fun _ _ _ mapped => shrank.mapped_before mapped
  freed := truncated.freed_iff clean shrank

/-- A file that has been cut as it should be had nothing at the new end that stays. -/
theorem CutTo.boundary (cut : CutTo sv len V v V' v') (behind : sfsNdirect ≤ fileBlocks len)
    (inside : fileBlocks len < sfsMaxblocks) : v.svI.ptr V.disk (fileBlocks len) = none := by
  have ndirect := sfsMaxblocks_eq
  have place : fileBlocks len = sfsNdirect + (fileBlocks len - sfsNdirect) := by omega
  have entry := truncated.rest.entry ⟨fileBlocks len - sfsNdirect, by omega⟩
  simp only [← place] at entry
  rw [if_pos (Or.inr le_rfl)] at entry
  by_contra some
  rw [← entry] at some
  have mapped := (cut.mapped _ inside).mp (isSome_iff_ne_none.mpr some)
  exact absurd mapped.2 (Nat.lt_irrefl _)

theorem CutTo.indirect (cut : CutTo sv len V v V' v') (file : FileAt dev V sv v)
    (shrank : Shrank sv V v V' v') (high : sfsMaxblocks - 1 ≤ fileBlocks len)
    (some : (v.svI.ptr V.disk sfsMaxblocks).isSome) :
    ∃ j : Fin sfsDbperidb, (v.svI.ptr V.disk (sfsNdirect + j)).isSome := by
  rcases isSome_iff_exists.mp some with ⟨idblock, mapped⟩
  have kept : v'.svI.ptr V'.disk sfsMaxblocks = Option.some idblock := by
    rw [truncated.rest.indirect, if_pos (Or.inl high), mapped]
  have used := (shrank.file file).used kept
  by_contra empty
  apply ((cut.freed idblock).mp used).2
  refine Or.inr ⟨mapped, fun j => ?_⟩
  rw [truncated.rest.entry, if_pos (Or.inl high)]
  exact Option.not_isSome_iff_eq_none.mp fun entry => empty ⟨j, entry⟩

end Cut

/-! ## Later writes -/

/-- A file that is in order and has zeros at these places. -/
structure ZeroAt (dev : Device δ) (sv : Nat) (V : Vol) (v : SfsVnode) (places : Nat → Prop) :
    Prop where
  file : FileAt dev V sv v
  small : v.svI.sfiSize.toNat < 2 ^ 31
  zero : ∀ i, places i → v.svI.bytes V.disk i = 0

variable {o : Nat} {uio uio' : Uio} {places : Nat → Prop}

theorem Wrote.resid_eq {faults : Nat → Prop} {k moved : Nat}
    (wrote : Wrote dev faults sv o k moved V v uio V' uio') :
    uio'.uioResid = uio.uioResid - moved := by
  rcases wrote with ⟨_, ⟨mem, rfl⟩, _⟩
  rfl

/-- A write has ended: some first part of the bytes has been written. -/
theorem sfsIo_wrote {result : Except Errno Unit} (works : dev.Works content)
    (file : FileAt dev (s.vol content) sv v) (small : v.svI.sfiSize.toNat < 2 ^ 31)
    (writing : uio.uioRw = .write) (offsetEq : uio.uioOffset = o) (fits : uio.Fits uio.uioResid)
    (outcome : sfsIo dev sv (s, uio) = .ok (result, (s', uio'))) :
    ∃ k, k = uio.uioResid - uio'.uioResid ∧
      Wrote dev (fun _ => False) sv o k k (s.vol content) v uio (s'.vol content) uio' := by
  have ended := sfsIo_write_spec works file rfl writing offsetEq rfl fits small
  cases result with
  | error failure =>
      rw [ensures_of_fail_eq outcome] at ended
      rcases ended with ⟨k, k_le, _, wrote, _⟩
      have residEq : uio'.uioResid = uio.uioResid - k := wrote.resid_eq
      exact ⟨k, by omega, wrote⟩
  | ok value =>
      rw [ensures_of_ok_eq outcome] at ended
      have residEq : uio'.uioResid = uio.uioResid - uio.uioResid := ended.resid_eq
      exact ⟨uio.uioResid, by omega, ended⟩

theorem ZeroAt.write {result : Except Errno Unit} (works : dev.Works content)
    (zeros : ZeroAt dev sv (s.vol content) v places) (writing : uio.uioRw = .write)
    (offsetEq : uio.uioOffset = o) (fits : uio.Fits uio.uioResid)
    (outcome : sfsIo dev sv (s, uio) = .ok (result, (s', uio'))) :
    ∃ v', ZeroAt dev sv (s'.vol content) v' fun i =>
      places i ∧ ¬(o ≤ i ∧ i < o + (uio.uioResid - uio'.uioResid)) := by
  have limit := maxSize_eq
  have offset_lt := fits.offset_lt
  have small := zeros.small
  rcases sfsIo_wrote works zeros.file small writing offsetEq fits outcome with
    ⟨k, rfl, inside, _, v', written⟩
  refine ⟨v', written.file, ?_, ?_⟩
  · rw [written.size]
    omega
  · rintro i ⟨place, skipped⟩
    rw [written.bytesEq, Bytes.overlay, if_neg skipped, zeros.zero i place]

theorem LaterWrites.zeroAt {rewritten : Nat → Prop} (works : dev.Works content)
    (zeros : ZeroAt dev sv (s.vol content) v places) (later : LaterWrites dev sv s rewritten s') :
    ∃ v', ZeroAt dev sv (s'.vol content) v' fun i => places i ∧ ¬rewritten i := by
  induction later with
  | none => exact ⟨v, zeros.file, zeros.small, fun i place => zeros.zero i place.1⟩
  | write before writing offsetEq fits wrote ih =>
      rcases ih with ⟨v₁, zeros₁⟩
      rcases zeros₁.write works writing offsetEq fits wrote with ⟨v₂, zeros₂⟩
      refine ⟨v₂, zeros₂.file, zeros₂.small, fun i place => ?_⟩
      rw [not_or] at place
      exact zeros₂.zero i ⟨⟨place.1, place.2.1⟩, place.2.2⟩

theorem ZeroAt.readsZero (works : dev.Works content)
    (zeros : ZeroAt dev sv (s.vol content) v places) : ReadsZero dev sv s places := by
  intro uio uio' s' o reading offsetEq fits outcome i below place
  have ended := sfsIo_read_spec works zeros.file rfl reading offsetEq rfl fits zeros.small
  rw [ensures_of_ok_eq outcome] at ended
  rcases ended with ⟨_, rfl⟩
  simp only [Uio.advance, Uio.fill, Uio.setMem] at below ⊢
  rw [Memory.load_store, if_pos (by omega), Nat.add_sub_cancel_left, zeros.zero _ place]

/-! ## A byte past the end shows -/

theorem mkKuio_fits (kbuf : Bytes) {n : Nat} (rw : UioRw) (len_lt : n < 2 ^ 32)
    (offset_lt : o < 2 ^ 31) : (mkKuio kbuf n o rw).Fits n :=
  ⟨le_rfl, le_rfl, len_lt, rfl, by simp only [mkKuio]; omega, by simp only [mkKuio]; omega⟩

theorem ReadsZero.bytes_eq_zero {i : Nat} (reads : ReadsZero dev sv s places)
    (works : dev.Works content) (file : FileAt dev (s.vol content) sv v)
    (size_le : v.svI.sfiSize.toNat ≤ sfsMaxblocks * blockSize) (before : i < v.svI.sfiSize.toNat)
    (place : places i) : v.svI.bytes (s.vol content).disk i = 0 := by
  have limit := maxSize_eq
  have fits : (mkKuio (fun _ => 0) 1 i .read).Fits 1 := mkKuio_fits _ _ (by decide) (by omega)
  have oneByte : min 1 (v.svI.sfiSize.toNat - i) = 1 := by omega
  have ended := sfsIo_read_spec (n := 1) works file rfl rfl rfl rfl fits (by omega)
  rw [oneByte] at ended
  rcases ended.outcomes with ⟨_, _, impossible⟩ | ⟨failure, _, _, _, stops⟩ |
    ⟨_, ⟨s', uio'⟩, outcome, _, uioEq⟩
  · exact impossible.elim
  · rcases stops (by omega) with ⟨_, outside⟩ | ⟨_, refused⟩
    · omega
    · exact absurd (Or.inl rfl) refused
  · have zero := reads rfl rfl fits outcome 0
    subst uioEq
    simp only [Uio.advance, Uio.fill, Uio.setMem] at zero
    rw [Memory.load_store, if_pos (by omega)] at zero
    simpa using zero (by exact Nat.one_pos) place

/-- A byte past the end can be read after one byte has been written behind it, whether this write
succeeds or not. -/
theorem bytes_zero_of_readsZero (works : dev.Works content)
    (file : FileAt dev (s.vol content) sv v) (sizeEq : v.svI.sfiSize.toNat = len) {i : Nat}
    (past : len ≤ i) (inside : i < sfsMaxblocks * blockSize)
    (reads : ∀ {rewritten s'}, LaterWrites dev sv s rewritten s' →
      ReadsZero dev sv s' fun i => len ≤ i ∧ ¬rewritten i) :
    v.svI.bytes (s.vol content).disk i = 0 := by
  have limit := maxSize_eq
  have fits : (mkKuio (fun _ => 0) 1 (i + 1 : Nat) .write).Fits 1 :=
    mkKuio_fits _ _ (by decide) (by omega)
  have shown : ∀ {result s' uio'}, sfsIo dev sv (s, mkKuio (fun _ => 0) 1 (i + 1 : Nat) .write) =
      .ok (result, (s', uio')) → v.svI.bytes (s.vol content).disk i = 0 := by
    intro result s' uio' outcome
    rcases sfsIo_wrote works file (by omega) rfl rfl fits outcome with
      ⟨k, kEq, inside', _, v', written⟩
    have sizeEq' := written.size
    have bytesEq : v'.svI.bytes (s'.vol content).disk i = v.svI.bytes (s.vol content).disk i := by
      rw [written.bytesEq, Bytes.overlay, if_neg (by omega)]
    rw [← bytesEq]
    apply (reads (LaterWrites.none.write rfl rfl fits outcome)).bytes_eq_zero works written.file
    · rw [sizeEq']
      by_cases some : 0 < k
      · have := inside' some
        omega
      · omega
    · rw [sizeEq']
      omega
    · refine ⟨past, ?_⟩
      simp only [false_or]
      omega
  rcases (sfsIo_write_spec works file rfl rfl rfl rfl fits (by omega)).outcomes with
    ⟨_, _, impossible⟩ | ⟨_, _, outcome, _⟩ | ⟨_, _, outcome, _⟩
  · exact impossible.elim
  · exact shown outcome
  · exact shown outcome

/-! ## The condition -/

/-- `sfs_truncate` discards exactly what is past the new end if and only if the file can be cut
there cleanly. -/
theorem truncate_exact_iff (works : dev.Works content) (file : FileAt dev (s.vol content) sv v)
    (small : len < 2 ^ 31) :
    TruncatesExactly dev content sv len v s ↔ CutsCleanly len (s.vol content) v := by
  have cut := sfsTruncate_cut works file rfl small
  constructor
  · intro exactly
    rcases (cut.and exactly).outcomes with ⟨_, _, impossible⟩ | ⟨_, _, _, impossible⟩ |
      ⟨_, s', _, ⟨v', shrank, sizeEq, truncated⟩, ⟨v'', cutTo⟩, reads⟩
    · exact impossible.1.elim
    · exact impossible.1.elim
    obtain rfl : v'' = v' := Option.some.inj (cutTo.present.symm.trans shrank.present)
    refine ⟨cutTo.boundary truncated, cutTo.indirect truncated file shrank, ?_⟩
    intro i past before
    by_cases inside : i < sfsMaxblocks * blockSize
    · rw [← truncated.bytes_eq file shrank before]
      exact bytes_zero_of_readsZero works (shrank.file file) sizeEq past inside reads
    · rw [SfsInode.bytes, if_neg]
      rw [Nat.div_lt_iff_lt_mul (by decide)]
      exact inside
  · intro clean
    apply cut.imp
    rintro _ s' ⟨v', shrank, sizeEq, truncated⟩
    refine ⟨⟨v', truncated.cutTo clean shrank sizeEq⟩, ?_⟩
    intro rewritten s'' later
    have zeros : ZeroAt dev sv (s'.vol content) v' fun i => len ≤ i :=
      ⟨shrank.file file, sizeEq ▸ small, fun i past => truncated.bytes_past file clean shrank past⟩
    rcases later.zeroAt works zeros with ⟨v'', zeros'⟩
    exact zeros'.readsZero works

/-- A file with one data block, the first of its indirect block. -/
def indirectFile : SfsVnode :=
  { emptyFile with svI := { emptyFile.svI with sfiSize := 8192, sfiIndirect := 4 } }

/-- The small volume with that file, whose blocks are 4 and 5. -/
def indirectVolume : Sfs Lhd :=
  { smallVolume with
    disk := { blankDisk with sectors := fun block k => if block = 4 ∧ k.val = 3 then 5 else 0 }
    sfsFreemap := { nbits := 8, v := fun _ => 0x3f }
    vnodes := fun sv => if sv = 0 then some indirectFile else none }

theorem indirectFile_ptr (k : Nat) :
    indirectFile.svI.ptr (indirectVolume.vol Lhd.sectors).disk k =
      if k = 15 then some 5 else if k = sfsMaxblocks then some 4 else none := by
  cases k using SfsInode.place_cases with
  | direct i => revert i; decide +kernel
  | entry j => revert j; decide +kernel
  | indirect => decide +kernel
  | outside k outside =>
      have blocks : sfsMaxblocks = 143 := rfl
      rw [SfsInode.ptr_of_lt _ _ outside, if_neg (by omega), if_neg (by omega)]

theorem indirectVolume_file :
    FileAt (lhdDevice 8 fun _ => true) (indirectVolume.vol Lhd.sectors) 0 indirectFile := by
  have places : ∀ {k block},
      indirectFile.svI.ptr (indirectVolume.vol Lhd.sectors).disk k = some block →
      k = 15 ∧ block = 5 ∨ k = sfsMaxblocks ∧ block = 4 := by
    intro k block mapped
    rw [indirectFile_ptr] at mapped
    split_ifs at mapped with entry indirect
    · exact Or.inl ⟨entry, (Option.some.inj mapped).symm⟩
    · exact Or.inr ⟨indirect, (Option.some.inj mapped).symm⟩
  refine ⟨rfl, ⟨by decide, by decide, by decide, by decide, ?_, rfl⟩, ?_, ?_, ?_⟩
  · intro block outside inside
    have nblocksEq : (indirectVolume.vol Lhd.sectors).nblocks = 8 := by decide
    have bitsEq : Bitmap.words (indirectVolume.vol Lhd.sectors).sfsFreemap.nbits * 8 = 8 := by
      decide
    omega
  · intro k block mapped
    rcases places mapped with ⟨_, rfl⟩ | ⟨_, rfl⟩ <;> decide
  · intro k block mapped
    rcases places mapped with ⟨_, rfl⟩ | ⟨_, rfl⟩ <;> rfl
  · intro k j block mapped mapped'
    rcases places mapped with ⟨rfl, rfl⟩ | ⟨rfl, rfl⟩ <;>
      rcases places mapped' with ⟨rfl, _⟩ | ⟨rfl, _⟩ <;> first | rfl | contradiction

/-- Cut to 100 bytes, the file gives up its data block and its indirect block. -/
theorem truncate_exact_discards_indirect :
    indirectFile.svI.ptr (indirectVolume.vol Lhd.sectors).disk 15 = some 5 ∧
      CutsCleanly 100 (indirectVolume.vol Lhd.sectors) indirectFile ∧
      TruncatesExactly (lhdDevice 8 fun _ => true) Lhd.sectors 0 100 indirectFile
        indirectVolume := by
  have blocks : fileBlocks 100 = 1 := by decide
  have clean : CutsCleanly 100 (indirectVolume.vol Lhd.sectors) indirectFile := by
    refine ⟨fun past => absurd past (by decide), fun past => absurd past (by decide), ?_⟩
    intro i _ before
    have first : i / blockSize = 0 := Nat.div_eq_of_lt (by simpa [blocks] using before)
    rw [SfsInode.bytes, first, indirectFile_ptr]
    rfl
  have small : 100 < 2 ^ 31 := by norm_num
  exact ⟨indirectFile_ptr 15, clean,
    (truncate_exact_iff (lhdDevice_works 8) indirectVolume_file small).mpr clean⟩

/-- Cut to fifteen blocks, the file keeps its sixteenth. -/
theorem truncate_keeps_block_behind_end :
    FileAt (lhdDevice 8 fun _ => true) (indirectVolume.vol Lhd.sectors) 0 indirectFile ∧
      (∃ s' v', sfsTruncate (lhdDevice 8 fun _ => true) 0 (15 * blockSize : Nat) indirectVolume =
          .ok (.ok (), s') ∧ s'.vnodes 0 = some v' ∧ v'.svI.sfiSize = 7680 ∧
        v'.svI.ptr (s'.vol Lhd.sectors).disk 15 = some 5) ∧
      ¬TruncatesExactly (lhdDevice 8 fun _ => true) Lhd.sectors 0 (15 * blockSize) indirectFile
        indirectVolume := by
  have run : ((sfsTruncate (lhdDevice 8 fun _ => true) 0 (15 * blockSize : Nat)).returned
      indirectVolume).any (fun after => (after.2.vnodes 0).any fun v' =>
        v'.svI.sfiSize = 7680 ∧ v'.svI.ptr (after.2.vol Lhd.sectors).disk 15 = some 5) = true := by
    decide +kernel
  rcases (any_eq_true _ _).mp run with ⟨⟨_, s'⟩, returned, left⟩
  rcases (any_eq_true _ _).mp left with ⟨v', present, about⟩
  have about := of_decide_eq_true about
  have outcome := Prog.returned_eq_some.mp returned
  refine ⟨indirectVolume_file, ⟨s', v', outcome, present, about⟩, ?_⟩
  intro exactly
  rw [TruncatesExactly, ensures_of_ok_eq outcome] at exactly
  rcases exactly.1 with ⟨v'', cut⟩
  obtain rfl : v'' = v' := Option.some.inj (cut.present.symm.trans present)
  have mapped := (cut.mapped 15 (by decide)).mp (by rw [about.2]; rfl)
  exact absurd mapped.2 (by decide)

end Os161
