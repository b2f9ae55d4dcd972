import Os161.Sfs.EmptyWrites

/-!
# The directory

The root directory is a map from names to inodes. An entry lies inside of one block, so a write
of an entry that fails has changed nothing, and the functions on names either change the map as
they should or leave it as it is.
-/

namespace Os161

open SfsDir SfsInode
open Function (update)

attribute [local irreducible] int32 uint32

/-- For every name in a directory, the number of its inode and its slot. -/
abbrev Names := List UInt8 → Option (Nat × Nat)

def SfsDir.Binds (entry : SfsDir) (chars : List UInt8) (ino : Nat) : Prop :=
  entry.sfdIno ≠ sfsNoino ∧ entry.name = chars ∧ entry.sfdIno.toNat = ino

def SfsInode.nentries (inode : SfsInode) : Nat :=
  inode.sfiSize.toNat / size

variable {δ : Type} {dev : Device δ} {content : δ → Nat → Block} {faults : Nat → Prop}
  {s : Sfs δ} {V V' : Vol} {sv ino slot : Nat} {v v' : SfsVnode} {names names' : Names}
  {chars : List UInt8} {inode : SfsInode}

theorem binds_strcpy {other : Nat} {name : CString} (positive : 0 < ino) (small : ino < 2 ^ 32)
    (fits : name.chars.length + 1 ≤ sfsNamelen) :
    Binds { sfdIno := UInt32.ofNat ino, sfdName := strcpy name } chars other ↔
      name.chars = chars ∧ ino = other := by
  have number : (UInt32.ofNat ino).toNat = ino := UInt32.toNat_ofNat_of_lt' small
  have used : UInt32.ofNat ino ≠ sfsNoino := by
    intro zero
    rw [zero] at number
    exact positive.ne number
  rw [Binds, name_strcpy _ fits, number]
  exact and_iff_right used

theorem SfsInode.le_nentries : slot ≤ inode.nentries ↔ slot * size ≤ inode.sfiSize.toNat :=
  Nat.le_div_iff_mul_le (by decide)

/-- A loaded directory that is in order and has these names. -/
structure DirAt (dev : Device δ) (V : Vol) (sv : Nat) (names : Names) (v : SfsVnode) : Prop where
  file : FileAt dev V sv v
  type : v.svI.sfiType = sfsTypeDir
  aligned : v.svI.sfiSize.toNat % size = 0
  size_le : v.svI.sfiSize.toNat ≤ sfsMaxblocks * blockSize
  zeros : ZeroPast V v
  entry : ∀ i chars ino, names chars = some (ino, i) ↔
    (ofBytes (v.svI.bytes V.disk) (i * size)).Binds chars ino

def Directory (dev : Device δ) (content : δ → Nat → Block) (sv : Nat) (names : Names) (s : Sfs δ) :
    Prop :=
  ∃ v, DirAt dev (s.vol content) sv names v

/-- The entry of a slot lies inside of one block. -/
theorem entry_whole (slot : Nat) {k : Nat} (less : k < size)
    (ends : 0 < k → (slot * size + k) % blockSize = 0) : k = 0 := by
  simp only [size, blockSize] at less ends
  omega

section Operations

variable (dir : DirAt dev V sv names v)
include dir

/-- An entry of a name is not all zeros. -/
theorem DirAt.nonzero (bound : names chars = some (ino, slot)) :
    ¬∀ k < 4, v.svI.bytes V.disk (slot * size + k) = 0 := by
  intro zeros
  have zero : (v.svI.bytes V.disk).word (slot * size) = Bytes.word (fun _ => 0) 0 :=
    Bytes.word_congr zeros
  exact ((dir.entry _ _ _).mp bound).1 (zero.trans (word_zero 0))

theorem DirAt.lt_nentries (bound : names chars = some (ino, slot)) : slot < v.svI.nentries := by
  by_contra past
  have aligned := dir.aligned
  have start : v.svI.sfiSize.toNat ≤ slot * size := by
    simp only [nentries, size] at aligned past ⊢
    omega
  exact dir.nonzero bound fun k _ => dir.zeros _ (by omega)

/-- A write that has stored all of an entry or nothing of it. -/
theorem DirAt.written {k : Nat} {source : Bytes} (sd : SfsDir) (inside : slot ≤ v.svI.nentries)
    (stored : k = 0 ∨ k = size ∧ ∀ j < size, source j = sd.toBytes j)
    (namesEq : ∀ i chars ino, names' chars = some (ino, i) ↔
      if i = slot ∧ 0 < k then sd.Binds chars ino else names chars = some (ino, i))
    (limit : 0 < k → slot * size + k ≤ sfsMaxblocks * blockSize)
    (wrote : Written dev faults sv V v ((v.svI.bytes V.disk).overlay (slot * size) k source)
      (max v.svI.sfiSize.toNat (slot * size + k)) V' v') : DirAt dev V' sv names' v' := by
  have aligned := dir.aligned
  have size_le := dir.size_le
  have sizeEq := wrote.size
  have entrySize : size = 64 := rfl
  rw [le_nentries] at inside
  have byteEq : ∀ i, v'.svI.bytes V'.disk i =
      if slot * size ≤ i ∧ i < slot * size + k then source (i - slot * size)
      else v.svI.bytes V.disk i := by
    intro i
    rw [wrote.bytesEq]
    rfl
  refine ⟨wrote.file, ?_, ?_, by omega, ?_, ?_⟩
  · rw [wrote.grew.inode]
    exact dir.type
  · rw [sizeEq]
    rw [entrySize] at aligned inside stored ⊢
    omega
  · intro i past
    rw [byteEq, if_neg (by omega)]
    exact dir.zeros i (by omega)
  · intro i chars ino
    have entryEq : ofBytes (v'.svI.bytes V'.disk) (i * size) =
        if i = slot ∧ 0 < k then sd else ofBytes (v.svI.bytes V.disk) (i * size) := by
      split
      · rename_i hit
        rw [← sd.ofBytes_toBytes]
        apply ofBytes_congr
        intro j below
        rw [byteEq, hit.1, if_pos (by omega), Nat.add_sub_cancel_left, Nat.zero_add]
        exact (stored.resolve_left hit.2.ne').2 j below
      · apply ofBytes_congr
        intro j below
        rw [byteEq, if_neg]
        rw [entrySize] at below ⊢
        omega
    rw [entryEq, namesEq]
    split
    · rfl
    · exact dir.entry i chars ino

theorem DirAt.position (inside : slot ≤ v.svI.nentries) :
    int32 ((slot : Int) * size) = (slot * size : Nat) := by
  have limit := maxSize_eq
  have size_le := dir.size_le
  rw [le_nentries] at inside
  rw [← Nat.cast_mul, int32_eq] <;> omega

variable (volEq : s.vol content = V)
include volEq

theorem sfsDirNentries_spec {panics : Panic → Prop} {fails : Errno → Sfs δ → Prop}
    {returns : Nat → Sfs δ → Prop} :
    Ensures (sfsDirNentries sv) s panics fails returns ↔ returns v.svI.nentries s := by
  simp only [sfsDirNentries, ensures_bind, dir.file.deref volEq, ensures_assert_of dir.type,
    ensures_assert_of dir.aligned, ensures_pure]
  exact Iff.rfl

/-- The slot holds the entry of a name. -/
def Taken (names : Names) (slot : Nat) : Prop :=
  ∃ chars ino, names chars = some (ino, slot)

/-- What the search for a name knows after it has seen the slots before `i`. -/
def Searched (names : Names) (chars : List UInt8) (i : Nat) (result : Findname) : Prop :=
  (∀ ino slot, result.found = some (ino, slot) ↔ names chars = some (ino, slot) ∧ slot < i) ∧
    (∀ slot, result.emptyslot = some slot → slot < i ∧ ¬Taken names slot) ∧
    (result.emptyslot = none → ∀ slot < i, Taken names slot)

/-- The slot that a new entry gets is free, and it is a new one only if no other is free. -/
theorem Searched.place {result : Findname} (searched : Searched names chars v.svI.nentries result) :
    ∃ slot ≤ v.svI.nentries, ¬Taken names slot ∧
      (slot = v.svI.nentries → ∀ other < slot, Taken names other) ∧
      ∀ (next : Nat → SfsM δ Nat) panics fails returns,
        Ensures (match result.emptyslot with
          | some slot => pure slot >>= next
          | none => sfsDirNentries sv >>= next) s panics fails returns ↔
          Ensures (next slot) s panics fails returns := by
  cases empty : result.emptyslot with
  | some slot =>
      obtain ⟨before, free⟩ := searched.2.1 slot empty
      exact ⟨slot, before.le, free, fun new => absurd new before.ne, fun _ _ _ _ => Iff.rfl⟩
  | none =>
      refine ⟨_, le_rfl, ?_, fun _ => searched.2.2 empty, ?_⟩
      · rintro ⟨_, _, bound⟩
        exact (dir.lt_nentries bound).ne rfl
      intro next panics fails returns
      exact ensures_bind.trans (sfsDirNentries_spec dir volEq)

variable (works : dev.Works content)
include works

theorem sfsReaddir_spec (inside : slot < v.svI.nentries) :
    Ensures (sfsReaddir dev sv slot) s (fun _ => False) (fun _ _ => False)
      (fun entry s' => (∀ chars ino, names chars = some (ino, slot) ↔ entry.Binds chars ino) ∧
        s'.vol content = V) := by
  have limit := maxSize_eq
  have size_le := dir.size_le
  have below : (slot + 1) * size ≤ v.svI.sfiSize.toNat := le_nentries.mp inside
  rw [Nat.succ_mul] at below
  rw [sfsReaddir, ensures_bind, ensures_withLocal, dir.position inside.le]
  apply (sfsIo_read_spec (n := size) works dir.file volEq rfl rfl rfl
    (mkKuio_fits _ _ (by decide) (by omega)) (by omega)).answers
  · rintro _ _ ⟨_, stops⟩
    rcases stops (by omega) with ⟨_, outside⟩ | ⟨_, refused⟩
    · omega
    · exact refused (Or.inl rfl)
  · rintro _ ⟨s', ku⟩ ⟨volEq', rfl⟩
    have whole : min size (v.svI.sfiSize.toNat - slot * size) = size := by omega
    rw [whole]
    refine ensures_bind.mpr ((ensures_assert_of (by rfl)).mpr (ensures_pure.mpr ⟨?_, volEq'⟩))
    intro chars ino
    rw [dir.entry, ofBytes_congr]
    intro k small
    simp [Uio.advance, Uio.fill, Uio.setMem, mkKuio, Memory.store, Bytes.overlay, small]

/-- A write of an entry that fails has not changed an entry. -/
theorem sfsWritedir_spec (inside : slot ≤ v.svI.nentries) {sd : SfsDir}
    (namesEq : ∀ i chars ino, names' chars = some (ino, i) ↔
      if i = slot then sd.Binds chars ino else names chars = some (ino, i)) :
    Ensures (sfsWritedir dev sv sd slot) s (fun _ => False)
      (fun failure s' => Directory dev content sv names s' ∧
        (failure = .enospc ∧ v.svI.ptr V.disk (slot * size / blockSize) = none ∧
            (∀ block < V.nblocks, (s'.vol content).Used block) ∨
          failure = .einval ∧ sfsMaxblocks * blockSize ≤ slot * size))
      (fun _ => Directory dev content sv names') := by
  have limit := maxSize_eq
  have size_le := dir.size_le
  have start := le_nentries.mp inside
  rw [sfsWritedir, ensures_bind, ensures_withLocal, dir.position inside]
  apply (sfsIo_write_spec (n := size) works dir.file volEq rfl rfl rfl
    (mkKuio_fits _ _ (by decide) (by omega)) (by omega)).answers
  · rintro _ _ ⟨k, _, partly, ⟨below, _, v', wrote⟩, why, ends⟩
    have nothing := entry_whole slot (partly (by decide)) ends
    subst nothing
    refine ⟨⟨v', dir.written sd inside (Or.inl rfl) ?_ below wrote⟩, ?_⟩
    · simp
    · rcases why with einval | enospc | ⟨_, refused⟩
      · exact Or.inr einval
      · exact Or.inl enospc
      · exact absurd (Or.inl rfl) refused
  · rintro _ ⟨s', ku⟩ ⟨below, ⟨mem, rfl⟩, v', wrote⟩
    refine (ensures_assert_of (by rfl)).mpr ⟨v', ?_⟩
    refine dir.written sd inside (Or.inr ⟨rfl, ?_⟩) ?_ below wrote
    · intro k small
      simp [Uio.data, mkKuio, Memory.load]
    · simpa [size] using namesEq

omit volEq in
theorem sfsDirFindnameLoop_spec (name : CString) (todo : Nat) :
    ∀ {s : Sfs δ} {i : Nat} {result : Findname}, s.vol content = V →
      i + todo = v.svI.nentries → Searched names name.chars i result →
      Ensures (sfsDirFindnameLoop dev sv name todo i result) s (fun _ => False) (fun _ _ => False)
        (fun result s' => Searched names name.chars v.svI.nentries result ∧
          s'.vol content = V) := by
  induction todo with
  | zero =>
      intro s i result volEq all searched
      rw [sfsDirFindnameLoop, ensures_pure, ← all]
      exact ⟨searched, volEq⟩
  | succ todo ih =>
      intro s i result volEq all searched
      rw [sfsDirFindnameLoop, ensures_bind]
      apply (sfsReaddir_spec dir volEq works (by omega)).answers fun _ _ failed => failed
      rintro entry s' ⟨entryEq, volEq'⟩
      split_ifs with free same
      · apply ih volEq' (by omega)
        grind [Searched, Taken, Binds]
      · have bound := (entryEq name.chars _).mpr ⟨free, same, rfl⟩
        -- A name that was found before would be in two slots.
        have first : result.found = none := by
          rcases found : result.found with _ | ⟨ino, slot⟩ <;> grind [Searched]
        rw [ensures_bind, ensures_assert_of first]
        apply ih volEq' (by omega)
        grind [Searched, Taken, Binds]
      · have bound := (entryEq entry.name _).mpr ⟨free, rfl, rfl⟩
        apply ih volEq' (by omega)
        grind [Searched, Taken, Binds]

theorem sfsDirFindname_spec (name : CString) :
    Ensures (sfsDirFindname dev sv name) s (fun _ => False) (fun _ _ => False)
      (fun result s' => result.found = names name.chars ∧
        Searched names name.chars v.svI.nentries result ∧ s'.vol content = V) := by
  rw [sfsDirFindname, ensures_bind, sfsDirNentries_spec dir volEq]
  apply (sfsDirFindnameLoop_spec dir works name _ volEq (Nat.zero_add _)
    (by simp [Searched])).answers fun _ _ failed => failed
  rintro result s' ⟨searched, volEq'⟩
  refine ⟨Option.ext ?_, searched, volEq'⟩
  rintro ⟨ino, slot⟩
  rw [searched.1]
  exact and_iff_left_of_imp dir.lt_nentries

end Operations

/-- A directory of the largest size a file can have, with a name in every slot. -/
def DirFull (names : Names) : Prop :=
  ∀ slot, slot * size < sfsMaxblocks * blockSize → Taken names slot

/-- The functions on names do to a directory what they are to do to a map, and if they fail the
map is what it was. A new name is only refused if it is too long, or if there is no room for it. -/
def ActsAsMap (dev : Device δ) (content : δ → Nat → Block) (sv : Nat) (names : Names) (s : Sfs δ) :
    Prop :=
  (∀ name, Ensures (sfsDirFindname dev sv name) s (fun _ => False) (fun _ _ => False)
    (fun result s' => Directory dev content sv names s' ∧ result.found = names name.chars)) ∧
  (∀ name ino, 0 < ino → ino < 2 ^ 32 →
    Ensures (sfsDirLink dev sv name ino) s (fun _ => False)
      (fun failure s' => Directory dev content sv names s' ∧
        (failure = .eexist ∧ names name.chars ≠ none ∨
          failure = .enametoolong ∧ sfsNamelen ≤ name.chars.length ∨
          failure = .enospc ∧ (∀ block < (s.vol content).nblocks, (s'.vol content).Used block) ∨
          failure = .einval ∧ DirFull names))
      (fun slot s' => Directory dev content sv (update names name.chars (some (ino, slot))) s' ∧
        names name.chars = none)) ∧
  ∀ chars ino slot, names chars = some (ino, slot) →
    Ensures (sfsDirUnlink dev sv slot) s (fun _ => False) (fun _ _ => False)
      (fun _ => Directory dev content sv (update names chars none))

theorem DirAt.acts (works : dev.Works content) (dir : DirAt dev (s.vol content) sv names v) :
    ActsAsMap dev content sv names s := by
  refine ⟨?_, ?_, ?_⟩
  · intro name
    apply (sfsDirFindname_spec dir rfl works name).total
    exact fun _ _ found => ⟨⟨v, found.2.2 ▸ dir⟩, found.1⟩
  · intro name ino positive small
    rw [sfsDirLink, ensures_bind]
    apply (sfsDirFindname_spec dir rfl works name).total
    rintro result s₁ ⟨foundEq, searched, volEq⟩
    cases found : result.found with
    | some place =>
        rw [found] at foundEq
        exact ensures_fail.mpr ⟨⟨v, volEq ▸ dir⟩, Or.inl ⟨rfl, by simp [← foundEq]⟩⟩
    | none =>
        dsimp only
        split_ifs with long
        · exact ensures_fail.mpr ⟨⟨v, volEq ▸ dir⟩, Or.inr (Or.inl ⟨rfl, Nat.le_of_lt_succ long⟩)⟩
        · obtain ⟨slot, inside, free, others, placed⟩ := searched.place dir volEq
          have binds := @binds_strcpy ino
          refine (placed _ _ _ _).mpr (ensures_bind.mpr ?_)
          apply (sfsWritedir_spec dir volEq works inside ?_).answers
          · rintro failure s₂ ⟨same, ⟨enospc, _, full⟩ | ⟨einval, largest⟩⟩
            · exact ⟨same, Or.inr (Or.inr (Or.inl ⟨enospc, full⟩))⟩
            · refine ⟨same, Or.inr (Or.inr (Or.inr ⟨einval, fun other below => ?_⟩))⟩
              have new : slot = v.svI.nentries := by
                refine inside.antisymm (Nat.div_le_of_le_mul ?_)
                rw [Nat.mul_comm]
                exact dir.size_le.trans largest
              exact others new other (Nat.lt_of_mul_lt_mul_right (below.trans_le largest))
          · exact fun _ _ linked => ⟨linked, foundEq ▸ found⟩
          · grind [Function.update, Taken]
  · intro chars ino slot bound
    have entry := dir.entry slot
    have size_le := dir.size_le
    have inside := dir.lt_nentries bound
    have below := le_nentries.mp inside
    apply (sfsWritedir_spec dir rfl works inside.le ?_).answers
    · rintro _ _ ⟨_, ⟨_, hole, _⟩ | ⟨_, full⟩⟩
      · apply dir.nonzero bound
        intro k small
        have place : (slot * size + k) / blockSize = slot * size / blockSize := by
          simp only [size, blockSize]
          omega
        rw [SfsInode.bytes, place, hole]
        split <;> rfl
      · simp only [size] at below full
        omega
    · exact fun _ _ unlinked => unlinked
    · grind [Function.update, Binds]

/-! ## Runs -/

inductive DirUse (δ : Type) where
  | link (name : CString) (ino : Nat)
  | unlink (slot : Nat)
  | others (after : Sfs δ)

/-- A directory in use. Only slots that hold a name are unlinked, and what else happens, such as
finding a name, leaves the names as they are. -/
def dirMachine (dev : Device δ) (content : δ → Nat → Block) (sv : Nat) :
    Machine Panic (Sfs δ) Errno (DirUse δ) Unit where
  exec
    | .link name ino => do
        let _ ← sfsDirLink dev sv name ino
        pure ()
    | .unlink slot => sfsDirUnlink dev sv slot
    | .others after => modify fun _ => after
  Enabled
    | .link _ ino, _ => 0 < ino ∧ ino < 2 ^ 32
    | .unlink slot, s => ∀ names, Directory dev content sv names s →
        ∃ chars ino, names chars = some (ino, slot)
    | .others after, s => ∀ names, Directory dev content sv names s →
        Directory dev content sv names after
  arm s _ := s

/-- **The directory is a map.** In every state that a directory gets into its entries are a map
from names to inodes, and the functions on names find, bind and unbind a name in this map. -/
theorem directory_is_map (works : dev.Works content)
    (reachable : (dirMachine dev content sv).Reachable
      (∃ names, Directory dev content sv names ·) s) :
    ∃ names, Directory dev content sv names s ∧ ActsAsMap dev content sv names s := by
  obtain ⟨names, v, dir⟩ := reachable.invariant (fun _ starts => starts) (by
    rintro s operation _ _ enabled ⟨names, v, dir⟩
    obtain ⟨_, links, unlinks⟩ := dir.acts works
    cases operation with
    | link name ino =>
        refine ensures_bind.mpr ((links name ino enabled.1 enabled.2).mono ?_ ?_ ?_)
        · exact fun _ _ => trivial
        · exact fun _ _ failed => ⟨names, failed.1⟩
        · exact fun _ _ linked => ⟨_, linked.1⟩
    | unlink slot =>
        obtain ⟨chars, ino, bound⟩ := enabled names ⟨v, dir⟩
        exact (unlinks chars ino slot bound).mono (fun _ _ => trivial)
          (fun _ _ failed => failed.elim) fun _ _ unlinked => ⟨_, unlinked⟩
    | others after => exact ⟨names, enabled names ⟨v, dir⟩⟩)
  exact ⟨names, ⟨v, dir⟩, dir.acts works⟩

def emptyDir : SfsVnode :=
  { emptyFile with svI := { emptyFile.svI with sfiType := sfsTypeDir } }

def emptyVolume : Sfs Lhd :=
  { smallVolume with vnodes := update smallVolume.vnodes 0 (some emptyDir) }

theorem emptyVolume_dir :
    DirAt (lhdDevice 8 fun _ => true) (emptyVolume.vol Lhd.sectors) 0 (fun _ => none) emptyDir := by
  have zero : emptyDir.svI.bytes (emptyVolume.vol Lhd.sectors).disk = fun _ => 0 := by
    funext i
    rw [bytes, show emptyDir.svI.ptr _ _ = none from emptyFile_ptr ..]
    split <;> rfl
  refine ⟨?_, rfl, rfl, by decide, fun i _ => congrFun zero i, ?_⟩
  · exact { smallVolume_file with present := rfl, ready := { smallVolume_file.ready with } }
  · intro i chars ino
    rw [zero]
    simp [Binds, ofBytes, word_zero, sfsNoino]

theorem Directory.unique (first : Directory dev content sv names s)
    (second : Directory dev content sv names' s) : names = names' := by
  obtain ⟨v, dir⟩ := first
  obtain ⟨v', dir'⟩ := second
  cases dir.file.present.symm.trans dir'.file.present
  funext chars
  apply Option.ext
  rintro ⟨ino, slot⟩
  rw [dir.entry, dir'.entry]

/-- Two names are linked in an empty directory. -/
theorem directory_is_map_two_names :
    ∃ s names, names [97] = some (5, 0) ∧ names [98] = some (6, 1) ∧
      Directory (lhdDevice 8 fun _ => true) Lhd.sectors 0 names s ∧
      ActsAsMap (lhdDevice 8 fun _ => true) Lhd.sectors 0 names s := by
  have computed : ((sfsDirLink (lhdDevice 8 fun _ => true) 0 ⟨[97], by decide⟩ 5).returned
      emptyVolume).any (fun first => first.1 == 0 &&
        ((sfsDirLink (lhdDevice 8 fun _ => true) 0 ⟨[98], by decide⟩ 6).returned first.2).any
          (·.1 == 1)) = true := by
    decide +kernel
  obtain ⟨⟨slot, s₁⟩, returned, facts⟩ := (any_eq_true _ _).mp computed
  obtain ⟨isFirst, second⟩ := Bool.and_eq_true_iff.mp facts
  obtain ⟨⟨slot', s₂⟩, returned', isSecond⟩ := (any_eq_true _ _).mp second
  cases eq_of_beq isFirst
  cases eq_of_beq isSecond
  have linked := Prog.returned_eq_some.mp returned
  have linked' := Prog.returned_eq_some.mp returned'
  have dir₁ := ((ensures_of_ok_eq linked).mp
    ((emptyVolume_dir.acts (lhdDevice_works 8)).2.1 _ 5 (by decide) (by decide))).1
  obtain ⟨v₁, dirAt₁⟩ := dir₁
  have dir₂ := ((ensures_of_ok_eq linked').mp
    ((dirAt₁.acts (lhdDevice_works 8)).2.1 _ 6 (by decide) (by decide))).1
  have first : (dirMachine (lhdDevice 8 fun _ => true) Lhd.sectors 0).Step emptyVolume s₁ :=
    ⟨.link ⟨[97], by decide⟩ 5, ⟨by decide, by decide⟩, (), .ok (), bind_of_ok linked⟩
  have second : (dirMachine (lhdDevice 8 fun _ => true) Lhd.sectors 0).Step s₁ s₂ :=
    ⟨.link ⟨[98], by decide⟩ 6, ⟨by decide, by decide⟩, (), .ok (), bind_of_ok linked'⟩
  obtain ⟨names, dir, acts⟩ := directory_is_map (lhdDevice_works 8)
    ⟨_, ⟨_, _, emptyVolume_dir⟩, (Relation.ReflTransGen.single first).tail second⟩
  cases dir.unique dir₂
  exact ⟨s₂, _, by decide, by decide, dir, acts⟩

end Os161
