import Os161.Sfs.TruncateExact

/-!
# The end of a file

A read is limited to the end of the file by comparing the size with the sum of the
offset and the residue. The sum is an `off_t`, a signed word, and when it wraps around
the limit is not applied: the read goes on past the end of the file, up to the end of
the largest possible one, and fails there.
-/

namespace Os161

open SfsM SfsIoM

variable {δ : Type} {dev : Device δ} {content : δ → Nat → Block} {sv o n : Nat} {V V' : Vol}
  {v v' : SfsVnode} {uio uio' : Uio} {s : Sfs δ}

/-- A read hands back what the file has from its offset on. It fails only if the memory for that
is bad, and moves nothing that is past the end. -/
def ReadsToEnd (dev : Device δ) (content : δ → Nat → Block) (sv o n : Nat) (V : Vol)
    (v : SfsVnode) (s : Sfs δ) (uio : Uio) : Prop :=
  Prog.Ensures (sfsIo dev sv) (s, uio) (fun _ => False)
    (fun failure pair => pair.1.vol content = V ∧ failure = .efault ∧
      ¬uio.Accessible (min n (v.svI.sfiSize.toNat - o)) ∧
      ∃ k mem, k ≤ v.svI.sfiSize.toNat - o ∧ pair.2 = (uio.setMem mem).advance k)
    (fun _ pair => pair.1.vol content = V ∧
      ReadBytes o n (min n (v.svI.sfiSize.toNat - o)) V v uio pair.2)

/-- A read stops at the end of the file exactly if it starts there, the end of what is asked for
is a position in a file, or the memory is bad before the end of the file is reached. -/
theorem read_stops_at_end_iff (works : dev.Works content) (file : FileAt dev V sv v)
    (volEq : s.vol content = V) (size_le : v.svI.sfiSize.toNat ≤ sfsMaxblocks * blockSize)
    (reading : uio.uioRw = .read) (offsetEq : uio.uioOffset = o) (residEq : uio.uioResid = n)
    (fits : uio.Fits n) :
    ReadsToEnd dev content sv o n V v s uio ↔
      v.svI.sfiSize.toNat ≤ o ∨ o + n < 2 ^ 31 ∨ ¬uio.Accessible (v.svI.sfiSize.toNat - o) := by
  have limit := maxSize_eq
  have exact := sfsIo_read_exact works file volEq reading offsetEq residEq fits (by omega)
  have offset_lt := fits.offset_lt
  constructor
  · intro reads
    by_contra outside
    simp only [not_or, not_le, not_lt, not_not] at outside
    rcases outside with ⟨before, wrapped, accessible⟩
    have lengthEq : min n (v.svI.sfiSize.toNat - o) = v.svI.sfiSize.toNat - o := by omega
    rcases (reads.and exact).outcomes with ⟨_, _, impossible, _⟩ | ⟨_, _, _, failed, _⟩ |
      ⟨_, _, _, _, _, inside, _⟩
    · exact impossible
    · rw [lengthEq] at failed
      exact failed.2.2.1 accessible
    · have inside := inside before wrapped
      omega
  · intro condition
    apply exact.answers
    · rintro failure pair ⟨volEq', k, mem, uioEq, before, accessible,
        ⟨_, k_lt, stops⟩ | ⟨wrapped, stops⟩⟩
      · rcases stops with ⟨_, outside⟩ | ⟨efault, refused⟩
        · omega
        · exact ⟨volEq', efault, refused, k, mem, by omega, uioEq⟩
      · have refused : ¬uio.Accessible (v.svI.sfiSize.toNat - o) :=
          (condition.resolve_left (by omega)).resolve_left (by omega)
        -- what has been moved is memory that can be used
        have k_lt : k < v.svI.sfiSize.toNat - o := by
          by_contra past
          exact refused ((accessible (by omega)).mono (by omega))
        have lengthEq : min n (v.svI.sfiSize.toNat - o) = v.svI.sfiSize.toNat - o := by omega
        rcases stops with ⟨_, outside⟩ | ⟨efault, _⟩
        · omega
        · exact ⟨volEq', efault, by rwa [lengthEq], k, mem, by omega, uioEq⟩
    · rintro _ ⟨s', _⟩ ⟨volEq', _, rfl⟩
      refine ⟨volEq', ?_, ?_, rfl⟩
      · simp only [Uio.advance, Uio.fill, Uio.setMem, offsetEq]
        exact int32_eq (by omega) (by omega)
      · simp only [Uio.advance, Uio.fill, Uio.setMem, residEq]

/-- A read whose end wraps around fails at the end of the largest possible file, and everything
up to there has been moved. -/
theorem read_fails_past_end (works : dev.Works content) (file : FileAt dev V sv v)
    (volEq : s.vol content = V) (size_le : v.svI.sfiSize.toNat ≤ sfsMaxblocks * blockSize)
    (reading : uio.uioRw = .read) (offsetEq : uio.uioOffset = o) (residEq : uio.uioResid = n)
    (fits : uio.Fits n) (before : o < v.svI.sfiSize.toNat) (wrapped : 2 ^ 31 ≤ o + n)
    (accessible : uio.Accessible n) :
    ∃ s' uio', sfsIo dev sv (s, uio) = .ok (.error .einval, s', uio') ∧
      uio'.uioResid + (sfsMaxblocks * blockSize - o) ≤ n := by
  have limit := maxSize_eq
  have exact := sfsIo_read_exact works file volEq reading offsetEq residEq fits (by omega)
  rcases exact.outcomes with ⟨_, _, impossible⟩ |
    ⟨failure, ⟨s', _⟩, outcome, _, k, mem, rfl, _, _, stops⟩ | ⟨_, _, _, _, inside, _⟩
  · exact impossible.elim
  · rcases stops with ⟨short, _⟩ | ⟨_, ⟨rfl, outside⟩ | ⟨_, refused⟩⟩
    · omega
    · refine ⟨s', _, outcome, ?_⟩
      change uio.uioResid - k + _ ≤ n
      omega
    · exact absurd accessible refused
  · have inside := inside before wrapped
    omega

/-- A request of the kernel to read `n` bytes from the start of a file. -/
def wholeRead (n : Nat) : Uio :=
  mkKuio (fun _ => 0) n 0 .read

theorem wholeRead_rw (n : Nat) : (wholeRead n).uioRw = .read := rfl

theorem wholeRead_offset (n : Nat) : (wholeRead n).uioOffset = (0 : Nat) := rfl

theorem wholeRead_resid (n : Nat) : (wholeRead n).uioResid = n := rfl

theorem wholeRead_accessible (n : Nat) : (wholeRead n).Accessible n := Or.inl rfl

theorem wholeRead_fits (small : n < 2 ^ 32) : (wholeRead n).Fits n := by
  refine ⟨le_rfl, le_rfl, small, rfl, ?_, ?_⟩ <;> rw [wholeRead_offset] <;> norm_num

attribute [local irreducible] wholeRead

theorem indirectFile_size_le : indirectFile.svI.sfiSize.toNat ≤ sfsMaxblocks * blockSize := by
  decide

theorem read_stops_at_end_indirect_file :
    ReadsToEnd (lhdDevice 8 fun _ => true) Lhd.sectors 0 0 8200
      (indirectVolume.vol Lhd.sectors) indirectFile indirectVolume (wholeRead 8200) := by
  have fits : (wholeRead 8200).Fits 8200 := wholeRead_fits (by norm_num)
  exact (read_stops_at_end_iff (lhdDevice_works 8) indirectVolume_file rfl indirectFile_size_le
    (wholeRead_rw 8200) (wholeRead_offset 8200) (wholeRead_resid 8200) fits).mpr
      (Or.inr (Or.inl (by norm_num)))

/-- A read of a file of 8192 bytes takes 73216 bytes from it, and fails. -/
theorem read_runs_past_end :
    indirectFile.svI.sfiSize.toNat = 8192 ∧
      (∃ s' uio', sfsIo (lhdDevice 8 fun _ => true) 0 (indirectVolume, wholeRead (2 ^ 31)) =
        .ok (.error .einval, s', uio') ∧ uio'.uioResid + 73216 ≤ 2 ^ 31) ∧
      ¬ReadsToEnd (lhdDevice 8 fun _ => true) Lhd.sectors 0 0 (2 ^ 31)
        (indirectVolume.vol Lhd.sectors) indirectFile indirectVolume (wholeRead (2 ^ 31)) := by
  have fits : (wholeRead (2 ^ 31)).Fits (2 ^ 31) := wholeRead_fits (by norm_num)
  rcases read_fails_past_end (lhdDevice_works 8) indirectVolume_file rfl indirectFile_size_le
    (wholeRead_rw _) (wholeRead_offset _) (wholeRead_resid _) fits (by decide) (by norm_num)
    (wholeRead_accessible _) with ⟨s', uio', outcome, moved⟩
  refine ⟨rfl, ⟨s', uio', outcome, moved⟩, fun reads => ?_⟩
  rw [ReadsToEnd, ensures_of_fail_eq outcome] at reads
  exact absurd reads.2.1 (by decide)

end Os161
