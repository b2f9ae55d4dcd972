import Os161.Kern.Base
import Os161.Lib.Machine

/-!
# Named devices

The table of `vfslist.c`: each device has a name, a raw name if file systems can be
mounted on it, and the volume name of the file system that is mounted. `vfs_doadd`
checks the names of a new device against all names there are; `vfs_mount` learns the
volume name of the file system from the disk and checks nothing, so that it can bring in
a name that another device has already.

The locks do nothing. A string is the list of its characters.
-/

namespace Os161

open List

/-- The text of a C string. -/
abbrev VfsName := List Char

/-- `struct fs`, of which only the volume name matters here. -/
structure Fs where
  id : Nat
  volname : Option VfsName
  deriving DecidableEq

/-- `struct knowndev`. -/
structure Knowndev where
  kdName : VfsName
  kdRawname : Option VfsName
  kdDevice : Option Nat
  kdVnode : Nat
  kdFs : Option Fs
  deriving DecidableEq

/-- `knowndevs`, with the address of the next vnode and the answers of `kmalloc`. -/
structure VfsList where
  knowndevs : List Knowndev
  nextVnode : Nat
  heap : KHeap

abbrev VfsListM := Prog Panic VfsList Errno

namespace VfsList

def onHeap {α : Type} (program : HeapM α) : VfsListM α :=
  zoom VfsList.heap (fun heap s => { s with heap }) program

/-! ## Looking up a device -/

/-- What `vfs_getroot` hands back a vnode of. -/
inductive Rooted where
  | fs (fs : Fs)
  | device (vnode : Nat)
  deriving DecidableEq

/-- The turn of the loop in `vfs_getroot` for one device, if it ends there. -/
def rootOf {σ : Type} (devname : VfsName) (kd : Knowndev) : Option (Prog Panic σ Errno Rooted) :=
  match kd.kdFs with
  | some fs =>
      if kd.kdName = devname ∨ fs.volname = some devname then
        some (pure (.fs fs))
      else if kd.kdRawname = some devname then
        some (do
          assert .knowndevDevice kd.kdDevice.isSome
          pure (.device kd.kdVnode))
      else
        none
  | none =>
      if kd.kdRawname.isSome ∧ kd.kdName = devname then
        some (fail .enxio)
      else if kd.kdName = devname then
        some (do
          assert .knowndevRawname kd.kdRawname.isNone
          assert .knowndevDevice kd.kdDevice.isSome
          pure (.device kd.kdVnode))
      else if kd.kdRawname = some devname then
        some (do
          assert .knowndevDevice kd.kdDevice.isSome
          pure (.device kd.kdVnode))
      else
        none

/-- `vfs_getroot`, up to the reference to the vnode. -/
def vfsGetroot {σ : Type} (devname : VfsName) (knowndevs : List Knowndev) :
    Prog Panic σ Errno Rooted :=
  match knowndevs.findSome? (rootOf devname) with
  | some answer => answer
  | none => fail .enodev

/-! ## Adding devices -/

/-- `mkrawname`. -/
def mkrawname (name : VfsName) : VfsName :=
  name ++ ['r', 'a', 'w']

/-- `samestring3`. -/
def samestring3 (a b c d : Option VfsName) : Bool :=
  a.isSome && (a == b || a == c || a == d)

/-- `badnames`. -/
def badnames (knowndevs : List Knowndev) (n1 n2 n3 : Option VfsName) : Bool :=
  knowndevs.any fun kd =>
    samestring3 (kd.kdFs.bind Fs.volname) n1 n2 n3 || samestring3 kd.kdRawname n1 n2 n3 ||
      samestring3 (some kd.kdName) n1 n2 n3

/-- `lock_create`: the lock and its name. -/
def lockCreate : HeapM Unit := do
  allocate
  allocate

/-- `dev_create_vnode`; `VOP_INIT` makes a lock. -/
def devCreateVnode : VfsListM Nat := do
  onHeap allocate
  match ← attempt (onHeap lockCreate) with
  | .ok _ => do
      let s ← get
      modify fun s => { s with nextVnode := s.nextVnode + 1 }
      pure s.nextVnode
  | .error _ => halt .devCreateVnode

/-- The name of the raw device of one that is `mountable`. -/
def makeRawname (name : VfsName) (mountable : Bool) : VfsListM (Option VfsName) :=
  if mountable then do
    onHeap allocate
    pure (some (mkrawname name))
  else
    pure none

/-- `vfs_doadd`; `array_add` may need memory. -/
def vfsDoadd (dname : VfsName) (mountable : Bool) (dev : Option Nat) (fs : Option Fs) :
    VfsListM Unit := do
  onHeap allocate
  let rawname ← makeRawname dname mountable
  let vnode ← devCreateVnode
  onHeap allocate
  let kd : Knowndev :=
    { kdName := dname, kdRawname := rawname, kdDevice := dev, kdVnode := vnode, kdFs := fs }
  let s ← get
  if badnames s.knowndevs (some dname) rawname (fs.bind Fs.volname) then
    fail .eexist
  else
    onHeap allocate
    modify fun s => { s with knowndevs := s.knowndevs ++ [kd] }

/-- `vfs_adddev`. -/
def vfsAdddev (devname : VfsName) (dev : Nat) (mountable : Bool) : VfsListM Unit :=
  vfsDoadd devname mountable (some dev) none

/-- `vfs_addfs`. -/
def vfsAddfs (devname : VfsName) (fs : Fs) : VfsListM Unit :=
  vfsDoadd devname false none (some fs)

/-! ## Mounting -/

/-- The test in `findmount`. -/
def mountable (devname : VfsName) (kd : Knowndev) : Bool :=
  kd.kdRawname.isSome && kd.kdName == devname

/-- `findmount`, as the place of the device. -/
def findmount (devname : VfsName) (knowndevs : List Knowndev) : VfsListM (Nat × Knowndev) :=
  match knowndevs.findIdx? (mountable devname) with
  | none => fail .enodev
  | some i =>
      match knowndevs[i]? with
      | none => fail .enodev
      | some kd => pure (i, kd)

def setFs (i : Nat) (kd : Knowndev) (fs : Option Fs) : VfsListM Unit :=
  modify fun s => { s with knowndevs := s.knowndevs.set i { kd with kdFs := fs } }

/-- `vfs_mount`; `mounted` is what `mountfunc` hands back. -/
def vfsMount (devname : VfsName) (mounted : Except Errno Fs) : VfsListM Unit := do
  let s ← get
  let (i, kd) ← findmount devname s.knowndevs
  match kd.kdFs with
  | some _ => fail .ebusy
  | none => do
      assert .knowndevRawname kd.kdRawname.isSome
      assert .knowndevDevice kd.kdDevice.isSome
      let fs ← ofExcept mounted
      setFs i kd (some fs)

/-- `vfs_unmount`; `synced` and `unmounted` are the results of `FSOP_SYNC` and `FSOP_UNMOUNT`. -/
def vfsUnmount (devname : VfsName) (synced unmounted : Except Errno Unit) : VfsListM Unit := do
  let s ← get
  let (i, kd) ← findmount devname s.knowndevs
  match kd.kdFs with
  | none => fail .einval
  | some _ => do
      assert .knowndevRawname kd.kdRawname.isSome
      assert .knowndevDevice kd.kdDevice.isSome
      ofExcept synced
      ofExcept unmounted
      setFs i kd none

end VfsList

/-- The calls, with what the device drivers and file systems answer. -/
inductive VfsListOp where
  | adddev (devname : VfsName) (dev : Nat) (mountable : Bool)
  | addfs (devname : VfsName) (fs : Fs)
  | mount (devname : VfsName) (mounted : Except Errno Fs)
  | unmount (devname : VfsName) (synced unmounted : Except Errno Unit)

namespace VfsListOp

def exec : VfsListOp → VfsListM Unit
  | .adddev devname dev mountable => VfsList.vfsAdddev devname dev mountable
  | .addfs devname fs => VfsList.vfsAddfs devname fs
  | .mount devname mounted => VfsList.vfsMount devname mounted
  | .unmount devname synced unmounted => VfsList.vfsUnmount devname synced unmounted

end VfsListOp

/-! ## Names -/

def Knowndev.names (kd : Knowndev) : List VfsName :=
  kd.kdName :: (kd.kdRawname.toList ++ (kd.kdFs.bind Fs.volname).toList)

theorem Knowndev.mem_names {kd : Knowndev} {name : VfsName} :
    name ∈ kd.names ↔ name = kd.kdName ∨ kd.kdRawname = some name ∨
      ∃ fs, kd.kdFs = some fs ∧ fs.volname = some name := by
  simp [Knowndev.names, bind_eq_some_iff]

namespace VfsList

/-- No string is a name of two devices. -/
def Unambiguous (knowndevs : List Knowndev) : Prop :=
  ∀ (i j : Nat) (first second : Knowndev) (name : VfsName), knowndevs[i]? = some first →
    knowndevs[j]? = some second → name ∈ first.names → name ∈ second.names → i = j

/-- No other device than the one that is named has the name of the volume. -/
def VolumeFresh (knowndevs : List Knowndev) (devname : VfsName) (fs : Fs) : Prop :=
  ∀ name, fs.volname = some name → ∀ kd ∈ knowndevs, name ∈ kd.names → kd.kdName = devname

variable {knowndevs : List Knowndev} {name : VfsName} {s : VfsList} {kd : Knowndev}

theorem Unambiguous.eq_of_mem (unambiguous : Unambiguous knowndevs) {first second : Knowndev}
    (mem : first ∈ knowndevs) (mem' : second ∈ knowndevs) (named : name ∈ first.names)
    (named' : name ∈ second.names) : first = second := by
  rcases mem_iff_getElem?.mp mem with ⟨i, at_i⟩
  rcases mem_iff_getElem?.mp mem' with ⟨j, at_j⟩
  have same := unambiguous i j first second name at_i at_j named named'
  subst same
  exact Option.some.inj (at_i.symm.trans at_j)

/-! ### Lookup and order -/

/-- A device is what `vfs_getroot` looks for exactly if the string is a name of it. -/
theorem rootOf_isSome {σ : Type} (devname : VfsName) (kd : Knowndev) :
    (rootOf (σ := σ) devname kd).isSome ↔ devname ∈ kd.names := by
  rw [Knowndev.mem_names]
  cases mounted : kd.kdFs with
  | some fs =>
      simp only [rootOf, mounted]
      split_ifs with named raw
      · simp only [Option.isSome_some, true_iff]
        rcases named with named | named
        · exact Or.inl named.symm
        · exact Or.inr (Or.inr ⟨fs, rfl, named⟩)
      · simp [raw]
      · simp only [not_or] at named
        simp [raw, named.2, Ne.symm named.1]
  | none =>
      simp only [rootOf, mounted]
      split_ifs with unmounted named raw
      · simp [unmounted.2]
      · simp [named]
      · simp [raw]
      · simp [raw, Ne.symm named]

theorem findSome?_eq_some_of_unique {α β : Type} {f : α → Option β} {list : List α} {value : β}
    (unique : ∀ a ∈ list, ∀ b ∈ list, (f a).isSome → (f b).isSome → a = b) :
    list.findSome? f = some value ↔ ∃ a ∈ list, f a = some value := by
  constructor
  · exact exists_of_findSome?_eq_some
  · rintro ⟨a, mem, found⟩
    rcases answer : list.findSome? f with _ | value'
    · rw [findSome?_eq_none_iff] at answer
      rw [answer a mem] at found
      cases found
    · rcases exists_of_findSome?_eq_some answer with ⟨b, mem', found'⟩
      have same := unique a mem b mem' (by simp [found]) (by simp [found'])
      subst same
      rw [← found, ← found']

theorem findSome?_eq_of_perm {α β : Type} {f : α → Option β} {list list' : List α}
    (unique : ∀ a ∈ list, ∀ b ∈ list, (f a).isSome → (f b).isSome → a = b)
    (perm : list'.Perm list) : list'.findSome? f = list.findSome? f := by
  apply Option.ext
  intro value
  rw [findSome?_eq_some_of_unique unique, findSome?_eq_some_of_unique]
  · simp only [perm.mem_iff]
  · intro a mem b mem'
    exact unique a (perm.mem_iff.mp mem) b (perm.mem_iff.mp mem')

theorem Unambiguous.vfsGetroot_perm {σ : Type} {knowndevs' : List Knowndev}
    (unambiguous : Unambiguous knowndevs) (perm : knowndevs'.Perm knowndevs) (devname : VfsName) :
    vfsGetroot (σ := σ) devname knowndevs' = vfsGetroot devname knowndevs := by
  have found : knowndevs'.findSome? (rootOf (σ := σ) devname) =
      knowndevs.findSome? (rootOf devname) := by
    apply findSome?_eq_of_perm _ perm
    intro a mem b mem' named named'
    rw [rootOf_isSome] at named named'
    exact unambiguous.eq_of_mem mem mem' named named'
  simp only [vfsGetroot, found]

/-! ### What the calls do to the names -/

theorem ensures_onHeap {α : Type} {program : HeapM α} {fails : Errno → VfsList → Prop}
    {returns : α → VfsList → Prop} (failed : ∀ failure heap, fails failure { s with heap })
    (rest : ∀ value heap, returns value { s with heap }) :
    Ensures (onHeap program) s (fun _ => True) fails returns := by
  rw [onHeap, ensures_zoom]
  exact Prog.ensures_of_forall (fun _ => trivial) failed rest

theorem makeRawname_spec (name : VfsName) (mountable : Bool) (s : VfsList) :
    Ensures (makeRawname name mountable) s (fun _ => True) (fun _ s' => s'.knowndevs = s.knowndevs)
      (fun _ s' => s'.knowndevs = s.knowndevs) := by
  simp only [makeRawname]
  apply ensures_branch
  · intro _
    rw [ensures_bind]
    exact ensures_onHeap (fun _ _ => rfl) (fun _ _ => rfl)
  · intro _
    rfl

theorem devCreateVnode_spec (s : VfsList) :
    Ensures devCreateVnode s (fun _ => True) (fun _ s' => s'.knowndevs = s.knowndevs)
      (fun _ s' => s'.knowndevs = s.knowndevs) := by
  simp only [devCreateVnode, ensures_bind]
  apply ensures_onHeap (fun _ _ => rfl)
  intro _ heap
  rw [ensures_attempt]
  apply ensures_onHeap
  · exact fun _ _ => trivial
  · exact fun _ _ => rfl

theorem samestring3_iff {a b c d : Option VfsName} :
    samestring3 a b c d = true ↔ ∃ name, a = some name ∧ (b = some name ∨ c = some name ∨
      d = some name) := by
  cases a with
  | none => simp [samestring3]
  | some name =>
      simp only [samestring3, Option.isSome_some, Bool.true_and, Bool.or_eq_true, beq_iff_eq,
        Option.some.injEq, exists_eq_left, or_assoc, @eq_comm _ (some name)]

/-- A device passes the test if none of its names is the name of a device already. -/
theorem badnames_iff :
    badnames knowndevs (some kd.kdName) kd.kdRawname (kd.kdFs.bind Fs.volname) = true ↔
      ∃ other ∈ knowndevs, ∃ name ∈ other.names, name ∈ kd.names := by
  simp only [badnames, List.any_eq_true, Bool.or_eq_true, samestring3_iff, Knowndev.mem_names,
    bind_eq_some_iff, Option.some.injEq]
  refine exists_congr fun other => and_congr_right fun _ => ?_
  constructor
  · rintro ((⟨name, named, same⟩ | ⟨name, named, same⟩) | ⟨name, named, same⟩)
    · exact ⟨name, Or.inr (Or.inr named), same.imp_left Eq.symm⟩
    · exact ⟨name, Or.inr (Or.inl named), same.imp_left Eq.symm⟩
    · exact ⟨name, Or.inl named.symm, same.imp_left Eq.symm⟩
  · rintro ⟨name, named | named | named, same⟩
    · exact Or.inr ⟨name, named.symm, same.imp_left Eq.symm⟩
    · exact Or.inl (Or.inr ⟨name, named, same.imp_left Eq.symm⟩)
    · exact Or.inl (Or.inl ⟨name, named, same.imp_left Eq.symm⟩)

theorem Unambiguous.append (unambiguous : Unambiguous knowndevs)
    (fresh : ¬∃ other ∈ knowndevs, ∃ name ∈ other.names, name ∈ kd.names) :
    Unambiguous (knowndevs ++ [kd]) := by
  intro i j first second name at_i at_j named named'
  rw [getElem?_append] at at_i at_j
  split_ifs at at_i at_j
  · exact unambiguous i j first second name at_i at_j named named'
  · rcases List.getElem?_eq_some_iff.mp at_j with ⟨_, rfl⟩
    refine absurd ⟨first, mem_of_getElem? at_i, name, named, ?_⟩ fresh
    simpa using named'
  · rcases List.getElem?_eq_some_iff.mp at_i with ⟨_, rfl⟩
    refine absurd ⟨second, mem_of_getElem? at_j, name, named', ?_⟩ fresh
    simpa using named
  · rcases List.getElem?_eq_some_iff.mp at_i with ⟨short, _⟩
    rcases List.getElem?_eq_some_iff.mp at_j with ⟨short', _⟩
    simp only [length_singleton] at short short'
    omega

theorem vfsDoadd_unambiguous (unambiguous : Unambiguous s.knowndevs) (dname : VfsName)
    (mountable : Bool) (dev : Option Nat) (fs : Option Fs) :
    Ensures (vfsDoadd dname mountable dev fs) s (fun _ => True)
      (fun _ s' => Unambiguous s'.knowndevs) (fun _ s' => Unambiguous s'.knowndevs) := by
  simp only [vfsDoadd, ensures_bind]
  apply ensures_onHeap (fun _ _ => unambiguous)
  intro _ heap
  apply (makeRawname_spec dname mountable _).mono (fun _ _ => trivial)
  · intro _ s' same
    rwa [same]
  intro rawname s₁ same
  apply (devCreateVnode_spec s₁).mono (fun _ _ => trivial)
  · intro _ s' same'
    rwa [same', same]
  intro vnode s₂ same'
  have unambiguous' : Unambiguous s₂.knowndevs := by
    rwa [same', same]
  apply ensures_onHeap (fun _ _ => unambiguous')
  intro _ heap'
  rw [ensures_get]
  apply ensures_branch
  · intro _
    exact unambiguous'
  · intro good
    rw [ensures_bind]
    apply ensures_onHeap (fun _ _ => unambiguous')
    intro _ heap''
    rw [ensures_modify]
    apply unambiguous'.append
    rwa [← badnames_iff]

theorem findmount_spec (devname : VfsName) (knowndevs : List Knowndev) (s : VfsList) :
    Ensures (findmount devname knowndevs) s (fun _ => False) (fun _ s' => s' = s)
      (fun found s' => s' = s ∧ knowndevs[found.1]? = some found.2 ∧
        found.2.kdRawname.isSome ∧ found.2.kdName = devname) := by
  simp only [findmount]
  cases place : knowndevs.findIdx? (mountable devname) with
  | none => rfl
  | some i =>
      rcases findIdx?_eq_some_iff_getElem.mp place with ⟨below, matching, _⟩
      simp only [getElem?_eq_getElem below, ensures_pure, true_and]
      simpa [mountable] using matching

/-- The new file system of a device adds the name of its volume, if it has one. -/
theorem mem_names_setFs (free : kd.kdFs = none) {fs : Fs} :
    name ∈ { kd with kdFs := some fs }.names ↔ name ∈ kd.names ∨ fs.volname = some name := by
  simp [Knowndev.mem_names, free, or_assoc]

theorem mem_names_of_dropFs (named : name ∈ { kd with kdFs := none }.names) : name ∈ kd.names := by
  simp only [Knowndev.mem_names, reduceCtorEq, false_and, exists_false, or_false] at named ⊢
  exact named.imp_right Or.inl

theorem Unambiguous.drop (unambiguous : Unambiguous knowndevs) {i : Nat}
    (place : knowndevs[i]? = some kd) : Unambiguous (knowndevs.set i { kd with kdFs := none }) := by
  -- every device keeps its place, and none has a name that it did not have
  have kept : ∀ (k : Nat) (after : Knowndev) (name : VfsName),
      (knowndevs.set i { kd with kdFs := none })[k]? = some after → name ∈ after.names →
      ∃ before, knowndevs[k]? = some before ∧ name ∈ before.names := by
    intro k after name at_k named
    rw [getElem?_set] at at_k
    split_ifs at at_k with same below
    · cases at_k
      exact ⟨kd, same ▸ place, mem_names_of_dropFs named⟩
    · exact ⟨after, at_k, named⟩
  intro j k first second name at_j at_k named named'
  rcases kept j first name at_j named with ⟨before, at_j, named⟩
  rcases kept k second name at_k named' with ⟨before', at_k, named'⟩
  exact unambiguous j k before before' name at_j at_k named named'

theorem Unambiguous.mount_iff (unambiguous : Unambiguous knowndevs) {i : Nat}
    (place : knowndevs[i]? = some kd) (free : kd.kdFs = none) (fs : Fs) :
    Unambiguous (knowndevs.set i { kd with kdFs := some fs }) ↔
      VolumeFresh knowndevs kd.kdName fs := by
  have below : i < knowndevs.length := (List.getElem?_eq_some_iff.mp place).1
  constructor
  · intro after name volume other mem named
    rcases mem_iff_getElem?.mp mem with ⟨k, at_k⟩
    by_cases same : k = i
    · subst same
      rw [Option.some.inj (place.symm.trans at_k)]
    · have equal := after k i other { kd with kdFs := some fs } name
        (by rw [getElem?_set_ne (Ne.symm same)]; exact at_k)
        (getElem?_set_self below) named ((mem_names_setFs free).mpr (Or.inr volume))
      exact absurd equal same
  · intro fresh
    have apart : ∀ (k : Nat) (other : Knowndev) (name : VfsName), knowndevs[k]? = some other →
        name ∈ other.names → name ∈ { kd with kdFs := some fs }.names → k = i := by
      intro k other name at_k named named'
      rcases (mem_names_setFs free).mp named' with named' | volume
      · exact unambiguous k i other kd name at_k place named named'
      · have shared := fresh name volume other (mem_of_getElem? at_k) named
        exact unambiguous k i other kd kd.kdName at_k place
          (Knowndev.mem_names.mpr (Or.inl shared.symm)) (Knowndev.mem_names.mpr (Or.inl rfl))
    intro j k first second name at_j at_k named named'
    rw [getElem?_set] at at_j at_k
    split_ifs at at_j at_k with first_is second_is second_is
    · omega
    · cases at_j
      exact first_is.symm.trans (apart k second name at_k named' named).symm
    · cases at_k
      exact (apart j first name at_j named named').trans second_is
    · exact unambiguous j k first second name at_j at_k named named'

/-- A mount keeps the names apart exactly if that of the volume is fresh. -/
theorem vfsMount_spec (unambiguous : Unambiguous s.knowndevs) (devname : VfsName)
    (mounted : Except Errno Fs) :
    Ensures (vfsMount devname mounted) s (fun _ => True) (fun _ s' => s' = s)
      (fun _ s' => ∃ fs, mounted = .ok fs ∧
        (Unambiguous s'.knowndevs ↔ VolumeFresh s.knowndevs devname fs)) := by
  simp only [vfsMount, ensures_bind, ensures_get]
  apply (findmount_spec devname s.knowndevs s).mono (fun _ impossible => impossible.elim)
    (fun _ _ same => same)
  rintro ⟨i, kd⟩ s' ⟨same, place, _, named⟩
  subst same
  simp only at place named
  cases free : kd.kdFs with
  | some _ => rfl
  | none =>
      apply ensures_assert_then (fun _ => trivial)
      intro _
      apply ensures_assert_then (fun _ => trivial)
      intro _
      cases mounted with
      | error failure => rfl
      | ok fs =>
          refine ⟨fs, rfl, ?_⟩
          rw [← named]
          exact unambiguous.mount_iff place free fs

theorem vfsUnmount_unambiguous (unambiguous : Unambiguous s.knowndevs) (devname : VfsName)
    (synced unmounted : Except Errno Unit) :
    Ensures (vfsUnmount devname synced unmounted) s (fun _ => True)
      (fun _ s' => Unambiguous s'.knowndevs) (fun _ s' => Unambiguous s'.knowndevs) := by
  simp only [vfsUnmount, ensures_bind, ensures_get]
  apply (findmount_spec devname s.knowndevs s).mono (fun _ impossible => impossible.elim)
  · intro _ s' same
    rwa [same]
  rintro ⟨i, kd⟩ s' ⟨same, place, _⟩
  subst same
  simp only at place
  cases kd.kdFs with
  | none => exact unambiguous
  | some _ =>
      apply ensures_assert_then (fun _ => trivial)
      intro _
      apply ensures_assert_then (fun _ => trivial)
      intro _
      cases synced with
      | error failure => exact unambiguous
      | ok _ =>
          cases unmounted with
          | error failure => exact unambiguous
          | ok _ => exact unambiguous.drop place

/-! ### Runs -/

/-- `vfs_bootstrap`, before the first device. -/
def bootstrapped : VfsList where
  knowndevs := []
  nextVnode := 0
  heap := enoughMemory

/-- Any sequence of calls. -/
def machine : Machine Panic VfsList Errno VfsListOp KHeap where
  exec := VfsListOp.exec
  Enabled := fun _ _ => True
  arm := fun s heap => { s with heap }

/-- The volume that the call mounts, if it does, has a name that no other device has. -/
def Fresh : VfsListOp → List Knowndev → Prop
  | .mount devname (.ok fs), knowndevs => VolumeFresh knowndevs devname fs
  | _, _ => True

/-- Sequences of calls that mount only volumes with fresh names. -/
def freshMachine : Machine Panic VfsList Errno VfsListOp KHeap :=
  { machine with Enabled := fun operation s => Fresh operation s.knowndevs }

theorem exec_unambiguous (unambiguous : Unambiguous s.knowndevs) {operation : VfsListOp}
    (fresh : Fresh operation s.knowndevs) :
    Ensures operation.exec s (fun _ => True)
      (fun _ s' => Unambiguous s'.knowndevs) (fun _ s' => Unambiguous s'.knowndevs) := by
  cases operation with
  | adddev devname dev mountable => exact vfsDoadd_unambiguous unambiguous _ _ _ _
  | addfs devname fs => exact vfsDoadd_unambiguous unambiguous _ _ _ _
  | unmount devname synced unmounted => exact vfsUnmount_unambiguous unambiguous _ _ _
  | mount devname mounted =>
      apply (vfsMount_spec unambiguous devname mounted).mono (fun _ _ => trivial)
      · intro _ s' same
        rwa [same]
      · rintro _ s' ⟨fs, rfl, kept⟩
        exact kept.mpr fresh

/-- From a table without shared names a mount leads to one exactly if the name of the volume is
fresh, and if all mounts are like that there never are shared names and the order of the devices
never matters. -/
theorem names_unambiguous_iff (s : VfsList) :
    (∀ (s' : VfsList) (devname : VfsName) (fs : Fs), Unambiguous s.knowndevs →
      vfsMount devname (.ok fs) s = .ok (.ok (), s') →
      (Unambiguous s'.knowndevs ↔ VolumeFresh s.knowndevs devname fs)) ∧
    (freshMachine.Reachable (· = bootstrapped) s →
      Unambiguous s.knowndevs ∧
      ∀ knowndevs : List Knowndev, knowndevs.Perm s.knowndevs → ∀ devname : VfsName,
        vfsGetroot (σ := VfsList) devname knowndevs = vfsGetroot devname s.knowndevs) := by
  refine ⟨?_, ?_⟩
  · intro s' devname fs unambiguous outcome
    have ensures := vfsMount_spec unambiguous devname (.ok fs)
    rcases (ensures_of_ok_eq outcome).mp ensures with ⟨fs', same, kept⟩
    cases same
    exact kept
  · intro reachable
    have unambiguous : Unambiguous s.knowndevs := by
      apply Machine.Reachable.invariant (P := fun s => Unambiguous s.knowndevs) _ _ reachable
      · rintro s rfl i j first second name at_i
        cases at_i
      · intro s operation heap _ fresh unambiguous
        exact exec_unambiguous (s := { s with heap }) unambiguous fresh
    exact ⟨unambiguous, fun knowndevs perm devname => unambiguous.vfsGetroot_perm perm devname⟩

/-! A disk with the name of another one as its volume name. -/

def lhd0 : VfsName := ['l', 'h', 'd', '0']

def lhd1 : VfsName := ['l', 'h', 'd', '1']

def disks : List (VfsListOp × KHeap) :=
  [(.adddev lhd0 0 true, enoughMemory), (.adddev lhd1 1 true, enoughMemory)]

/-- The file system whose volume is named `lhd0`. -/
def namesake : Fs where
  id := 7
  volname := some lhd0

instance (operation : VfsListOp) (s : VfsList) : Decidable (machine.Enabled operation s) :=
  inferInstanceAs (Decidable True)

/-- The table after the disks were added and `namesake` was mounted on the second. -/
def mountNamesake (disks : List (VfsListOp × KHeap)) : Option VfsList :=
  machine.execute bootstrapped (disks ++ [(.mount lhd1 (.ok namesake), enoughMemory)])

/-- The disk `lhd0`. -/
def first (vnode : Nat) : Knowndev where
  kdName := lhd0
  kdRawname := some (mkrawname lhd0)
  kdDevice := some 0
  kdVnode := vnode
  kdFs := none

/-- The disk `lhd1`, with `namesake` on it. -/
def second (vnode : Nat) : Knowndev where
  kdName := lhd1
  kdRawname := some (mkrawname lhd1)
  kdDevice := some 1
  kdVnode := vnode
  kdFs := some namesake

theorem mountNamesake_reachable {disks : List (VfsListOp × KHeap)}
    (executed : (mountNamesake disks).map VfsList.knowndevs = some knowndevs) :
    ∃ s, machine.Reachable (· = bootstrapped) s ∧ s.knowndevs = knowndevs := by
  rcases map_eq_some_iff.mp executed with ⟨s, final, same⟩
  have reachable : machine.Reachable (· = bootstrapped) s :=
    Machine.Reachable.execute (Machine.Reachable.start rfl) final
  exact ⟨s, reachable, same⟩

/-- `lhd0` is the first disk, on which nothing is mounted, or the volume of the second,
whichever was registered first. -/
theorem names_shared :
    ∃ s s' : VfsList, machine.Reachable (· = bootstrapped) s ∧
      machine.Reachable (· = bootstrapped) s' ∧ ¬Unambiguous s.knowndevs ∧
      vfsGetroot lhd0 s.knowndevs s = .ok (.error .enxio, s) ∧
      vfsGetroot lhd0 s'.knowndevs s' = .ok (.ok (.fs namesake), s') := by
  have one : (mountNamesake disks).map VfsList.knowndevs = some [first 0, second 1] := by
    decide +kernel
  have other : (mountNamesake disks.reverse).map VfsList.knowndevs =
      some [second 0, first 1] := by
    decide +kernel
  rcases mountNamesake_reachable one with ⟨s, reachable, table⟩
  rcases mountNamesake_reachable other with ⟨s', reachable', table'⟩
  refine ⟨s, s', reachable, reachable', ?_, ?_, ?_⟩
  · intro unambiguous
    rw [table] at unambiguous
    have same := unambiguous 0 1 (first 0) (second 1) lhd0 rfl rfl (by decide) (by decide)
    cases same
  · rw [table]
    rfl
  · rw [table']
    rfl

def volume (name : VfsName) : Fs where
  id := 7
  volname := some name

instance (knowndevs : List Knowndev) (devname : VfsName) (fs : Fs) :
    Decidable (VolumeFresh knowndevs devname fs) :=
  inferInstanceAs (Decidable (∀ name ∈ fs.volname, ∀ kd ∈ knowndevs, name ∈ kd.names →
    kd.kdName = devname))

instance (operation : VfsListOp) (s : VfsList) : Decidable (freshMachine.Enabled operation s) :=
  match operation with
  | .mount _ (.ok _) => inferInstanceAs (Decidable (VolumeFresh _ _ _))
  | .mount _ (.error _) | .adddev .. | .addfs .. | .unmount .. => .isTrue trivial

/-- The volume `boot` on the first of two disks, and then the volume `data` on the second. -/
theorem names_unambiguous_two_disks :
    ∃ s s' : VfsList, freshMachine.Reachable (· = bootstrapped) s ∧
      s.knowndevs.map Knowndev.kdFs = [some (volume ['b', 'o', 'o', 't']), none] ∧
      Unambiguous s.knowndevs ∧
      vfsGetroot (σ := VfsList) ['b', 'o', 'o', 't'] s.knowndevs.reverse =
        vfsGetroot ['b', 'o', 'o', 't'] s.knowndevs ∧
      vfsMount lhd1 (.ok (volume ['d', 'a', 't', 'a'])) s = .ok (.ok (), s') ∧
      Unambiguous s'.knowndevs := by
  have computed : ((freshMachine.execute bootstrapped
      (disks ++ [(.mount lhd0 (.ok (volume ['b', 'o', 'o', 't'])), enoughMemory)])).any fun s =>
        s.knowndevs.map Knowndev.kdFs == [some (volume ['b', 'o', 'o', 't']), none] &&
        VolumeFresh s.knowndevs lhd1 (volume ['d', 'a', 't', 'a']) &&
        ((vfsMount lhd1 (.ok (volume ['d', 'a', 't', 'a']))).returned s).isSome) = true := by
    decide +kernel
  rcases (any_eq_true _ _).mp computed with ⟨s, executed, facts⟩
  simp only [Bool.and_eq_true, decide_eq_true_eq, beq_iff_eq] at facts
  rcases facts with ⟨⟨mounted, fresh⟩, succeeds⟩
  rcases Option.isSome_iff_exists.mp succeeds with ⟨⟨_, s'⟩, returned⟩
  have outcome := Prog.returned_eq_some.mp returned
  have reachable : freshMachine.Reachable (· = bootstrapped) s :=
    Machine.Reachable.execute (.start rfl) executed
  rcases (names_unambiguous_iff s).2 reachable with ⟨unambiguous, same⟩
  exact ⟨s, s', reachable, mounted, unambiguous, same _ s.knowndevs.reverse_perm _, outcome,
    ((names_unambiguous_iff s).1 s' _ _ unambiguous outcome).mpr fresh⟩

end VfsList

end Os161
