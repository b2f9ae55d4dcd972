import Os161.Vfs.Conservation

/-!
# What opening a path leaves alone

Inside of the VFS layer references come and go, but who holds references for longer
than a call does not change: no lookup and no open touches a current directory, the
boot file system, the device table or the record of what is open. With `Counted` this
says that an open that fails leaves every count as it was.
-/

namespace Os161

open VfsRefs Prog.Keeps

/-- Who holds references for longer than a call. -/
def VfsRefs.keepers (s : VfsRefs) :
    (Nat → Option Nat) × Nat × Option Nat × List Nat × (Nat → Nat) :=
  (s.tCwd, s.nextThread, s.bootfsVnode, s.opens, s.kept)

variable {α : Type}

theorem holders_of_keepers {s s' : VfsRefs} (same : s'.keepers = s.keepers) (v : Nat) :
    s'.holders v = s.holders v := by
  simp only [VfsRefs.keepers, Prod.mk.injEq] at same
  simp only [VfsRefs.holders, same]

theorem opens_of_keepers {s s' : VfsRefs} (same : s'.keepers = s.keepers) : s'.opens = s.opens := by
  simp only [VfsRefs.keepers, Prod.mk.injEq] at same
  exact same.2.2.2.1

/-! ## Counts -/

theorem deref_keeps (vn : Option Nat) : Keeps keepers (deref vn) := by
  cases vn with
  | none => exact Prog.keeps_halt _
  | some v =>
      refine Prog.keeps_get.bind fun s => ?_
      cases s.vnodes v with
      | none => exact Prog.keeps_halt _
      | some vnode => exact keeps_pure _

theorem vnodeCheck_keeps (vn : Option Nat) : Keeps keepers (vnodeCheck vn) :=
  (deref_keeps vn).bind fun _ => (keeps_assert _ _).bind fun _ => keeps_pure _

theorem setVnode_keeps (v : Nat) (vnode : VfsVnode) :
    Keeps keepers (modify (setVnode v vnode) : VfsRefsM Unit) :=
  Prog.keeps_modify fun _ => rfl

theorem vnodeIncref_keeps (vn : Option Nat) : Keeps keepers (VfsRefs.vnodeIncref vn) :=
  (vnodeCheck_keeps vn).bind fun _ => setVnode_keeps _ _

theorem vopReclaim_keeps (v : Nat) (vnode : VfsVnode) : Keeps keepers (vopReclaim v vnode) :=
  (keeps_assert _ _).bind fun _ => (keeps_assert _ _).bind fun _ =>
    Prog.keeps_modify fun _ => rfl

theorem vnodeDecref_keeps (vn : Option Nat) : Keeps keepers (VfsRefs.vnodeDecref vn) :=
  (vnodeCheck_keeps vn).bind fun _ => (keeps_assert _ _).bind fun _ =>
    ite (setVnode_keeps _ _) (vopReclaim_keeps _ _)

theorem vnodeIncopen_keeps (vn : Option Nat) : Keeps keepers (vnodeIncopen vn) :=
  (vnodeCheck_keeps vn).bind fun _ => setVnode_keeps _ _

theorem answer_keeps : Keeps keepers answer :=
  fun _ => rfl

theorem vnodeDecopen_keeps (vn : Option Nat) : Keeps keepers (vnodeDecopen vn) := by
  refine (vnodeCheck_keeps vn).bind fun _ => (keeps_assert _ _).bind fun _ =>
    (setVnode_keeps _ _).bind fun _ => ite ?_ (keeps_pure _)
  exact (vnodeCheck_keeps vn).bind fun _ => answer_keeps.bind fun _ => keeps_pure _

theorem thenDecref_keeps {vn : Option Nat} {program : VfsRefsM α}
    (keeps : Keeps keepers program) : Keeps keepers (thenDecref vn program) :=
  keeps.attempt.bind fun _ => (vnodeDecref_keeps vn).bind fun _ => Prog.keeps_ofExcept _

/-! ## The file systems -/

theorem answerOrFail_keeps : Keeps keepers answerOrFail := by
  refine answer_keeps.bind fun given => ?_
  cases given.result with
  | none => exact keeps_pure _
  | some failure => exact keeps_fail _

theorem vop_keeps (vn : Option Nat) : Keeps keepers (vop vn) :=
  (vnodeCheck_keeps vn).bind fun _ => answerOrFail_keeps

theorem handBack_keeps (v : Nat) (fs : Option Nat) : Keeps keepers (handBack v fs) := by
  refine (Prog.keeps_modify fun s => ?_).bind fun _ => keeps_pure _
  rw [addReference]
  cases s.vnodes v <;> rfl

theorem vopVnode_keeps (vn : Option Nat) : Keeps keepers (vopVnode vn) :=
  (vop_keeps vn).bind fun _ => handBack_keeps _ _

theorem fsopGetroot_keeps (fs : Nat) : Keeps keepers (fsopGetroot fs) := by
  refine answer_keeps.bind fun given => ?_
  cases given.roots fs with
  | none => exact keeps_pure _
  | some root => exact handBack_keeps _ _

/-! ## Paths -/

theorem increfHeld_keeps (v : Nat) :
    Keeps keepers (do VfsRefs.vnodeIncref (some v); pure (some v) : VfsRefsM (Option Nat)) :=
  (vnodeIncref_keeps _).bind fun _ => keeps_pure _

theorem vfsGetcurdir_keeps : Keeps keepers vfsGetcurdir := by
  refine Prog.keeps_get.bind fun s => ?_
  cases s.tCwd s.cur with
  | none => exact keeps_fail _
  | some v => exact increfHeld_keeps v

theorem getBootfs_keeps : Keeps keepers getBootfs := by
  refine Prog.keeps_get.bind fun s => ?_
  cases s.bootfsVnode with
  | none => exact keeps_fail _
  | some v => exact increfHeld_keeps v

theorem rootOf_keeps {devname : VfsName} {kd : Knowndev} {found : VfsRefsM VfsList.Rooted}
    (isRoot : VfsList.rootOf devname kd = some found) : Keeps keepers found := by
  unfold VfsList.rootOf at isRoot
  split at isRoot <;> split_ifs at isRoot <;> cases isRoot
  · exact keeps_pure _
  · exact (keeps_assert _ _).bind fun _ => keeps_pure _
  · exact keeps_fail _
  · exact (keeps_assert _ _).bind fun _ => (keeps_assert _ _).bind fun _ =>
      keeps_pure _
  · exact (keeps_assert _ _).bind fun _ => keeps_pure _

theorem rooted_keeps (devname : VfsName) (knowndevs : List Knowndev) :
    Keeps keepers (VfsList.vfsGetroot devname knowndevs : VfsRefsM VfsList.Rooted) := by
  rw [VfsList.vfsGetroot]
  cases found : knowndevs.findSome? (VfsList.rootOf devname) with
  | none => exact keeps_fail _
  | some answer =>
      rcases List.exists_of_findSome?_eq_some found with ⟨kd, _, isRoot⟩
      exact rootOf_keeps isRoot

theorem vfsGetroot_keeps (devname : VfsName) : Keeps keepers (vfsGetroot devname) := by
  refine Prog.keeps_get.bind fun s => (rooted_keeps devname s.knowndevs).bind fun root => ?_
  cases root with
  | fs _ => exact fsopGetroot_keeps _
  | device vnode => exact increfHeld_keeps vnode

theorem getCurrentRoot_keeps : Keeps keepers getCurrentRoot := by
  refine vfsGetcurdir_keeps.bind fun vn => ?_
  have fsKeeps : Keeps keepers (vnFs vn) :=
    (deref_keeps vn).bind fun _ => keeps_pure _
  refine fsKeeps.bind fun fs => ?_
  cases fs with
  | none => exact Prog.keeps_halt _
  | some fs =>
      exact (fsopGetroot_keeps fs).bind fun _ => (vnodeDecref_keeps vn).bind fun _ => keeps_pure _

theorem getdevice_keeps (path : VfsName) : Keeps keepers (getdevice path) := by
  unfold getdevice
  split
  · exact getBootfs_keeps.bind fun _ => keeps_pure _
  · exact getCurrentRoot_keeps.bind fun _ => keeps_pure _
  · exact (vfsGetroot_keeps _).bind fun _ => keeps_pure _
  · exact vfsGetcurdir_keeps.bind fun _ => keeps_pure _

theorem vfsLookparent_keeps (path : VfsName) : Keeps keepers (vfsLookparent path) :=
  (getdevice_keeps path).bind fun _ =>
    thenDecref_keeps (ite (keeps_fail _) (vopVnode_keeps _))

theorem vfsLookup_keeps (path : VfsName) : Keeps keepers (vfsLookup path) :=
  (getdevice_keeps path).bind fun _ =>
    ite (keeps_pure _) (thenDecref_keeps (vopVnode_keeps _))

/-! ## Opening -/

theorem openVnode_keeps (path : VfsName) (openflags : Nat) :
    Keeps keepers (openVnode path openflags) :=
  ite
    ((vfsLookparent_keeps path).bind fun dir => thenDecref_keeps (vopVnode_keeps dir))
    (vfsLookup_keeps path)

theorem openTruncate_keeps (vn : Option Nat) (openflags : Nat) :
    Keeps keepers (openTruncate vn openflags) := by
  refine (ite (keeps_fail _) (vop_keeps vn)).attempt.bind fun result => ?_
  cases result with
  | ok _ => exact keeps_pure _
  | error failure =>
      exact (vnodeDecopen_keeps vn).bind fun _ => (vnodeDecref_keeps vn).bind fun _ =>
        keeps_fail _

theorem vfsOpen_keeps (path : VfsName) (openflags : Nat) :
    Keeps keepers (vfsOpen path openflags) := by
  refine ite (keeps_fail _) ((openVnode_keeps path openflags).bind fun vn => ?_)
  cases vn with
  | none => exact Prog.keeps_halt _
  | some v =>
      refine (vop_keeps (some v)).attempt.bind fun result => ?_
      cases result with
      | error failure => exact (vnodeDecref_keeps _).bind fun _ => keeps_fail _
      | ok _ =>
          refine (vnodeIncopen_keeps _).bind fun _ => ite ?_ (keeps_pure _)
          exact (openTruncate_keeps _ _).bind fun _ => keeps_pure _

/-! ## The counts -/

/-- `vn_refcount`, and 0 for a vnode that is not in memory. -/
def VfsRefs.refcount (s : VfsRefs) (v : Nat) : Nat :=
  (s.vnodes v).elim 0 VfsVnode.vnRefcount

/-- `vn_opencount`. -/
def VfsRefs.opencount (s : VfsRefs) (v : Nat) : Nat :=
  (s.vnodes v).elim 0 VfsVnode.vnOpencount

theorem VfsRefs.Counted.counts {s : VfsRefs} {hand opening : List Nat}
    (counted : VfsRefs.Counted s hand opening)
    (v : Nat) : s.refcount v = s.holders v + hand.count v ∧
      s.opencount v = s.opens.count v + opening.count v := by
  have life := counted.balanced v
  cases present : s.vnodes v with
  | none =>
      simp only [Life, present] at life
      simp only [refcount, opencount, present, Option.elim_none]
      omega
  | some vnode =>
      simp only [Life, present] at life
      simp only [refcount, opencount, present, Option.elim_some]
      omega

/-- A failed open leaves all counts as they were; another one adds a reference and an open to the
vnode that it hands back. -/
theorem vfsOpen_counts {s : VfsRefs} (counted : VfsRefs.Counted s [] []) (path : VfsName)
    (openflags : Nat) :
    Ensures (vfsOpen path openflags) s (fun _ => True)
      (fun _ s' => ∀ v, s'.refcount v = s.refcount v ∧ s'.opencount v = s.opencount v)
      (fun vn s' => ∀ v, s'.refcount v = s.refcount v + [vn].count v ∧
        s'.opencount v = s.opencount v + [vn].count v) := by
  apply ((vfsOpen_spec counted path openflags).and (vfsOpen_keeps path openflags s)).mono
    (fun _ _ => trivial)
  · rintro _ s' ⟨counted', same⟩ v
    rw [(counted'.counts v).1, (counted'.counts v).2, (counted.counts v).1, (counted.counts v).2,
      holders_of_keepers same, opens_of_keepers same]
    exact ⟨rfl, rfl⟩
  · rintro vn s' ⟨counted', same⟩ v
    rw [(counted'.counts v).1, (counted'.counts v).2, (counted.counts v).1, (counted.counts v).2,
      holders_of_keepers same, opens_of_keepers same]
    exact ⟨rfl, rfl⟩

end Os161
