import Os161.Vfs.References

/-!
# Conservation of vnode references

Inside a call references are also held by local variables: `hand` lists them, and `opening`
the opens that are counted in `vn_opencount` and not in `opens`. `Counted` says that the
counts of every vnode are those of its holders together with what is in hand. Each function
of the VFS takes this from what it gets in hand to what it leaves in hand.
-/

namespace Os161

open Ownership Option

namespace VfsRefs

/-! ## Balanced counts -/

/-- A vnode with these numbers of references and opens. -/
def Life (vnode : Option VfsVnode) (loads reclaims refs opens : Nat) : Prop :=
  opens ≤ refs ∧
    match vnode with
    | some vnode => vnode.vnRefcount = refs ∧ vnode.vnOpencount = opens ∧ 0 < refs ∧
        loads = reclaims + 1
    | none => refs = 0 ∧ loads = reclaims

/-- The counts of all vnodes are those given. -/
def Balanced (s : VfsRefs) (refs opens : Nat → Nat) : Prop :=
  ∀ v, Life (s.vnodes v) (s.loads v) (s.reclaims v) (refs v) (opens v)

/-- What the operations on counts leave alone. -/
structure Frame (s s' : VfsRefs) : Prop where
  tCwd : s'.tCwd = s.tCwd
  nextThread : s'.nextThread = s.nextThread
  cur : s'.cur = s.cur
  bootfsVnode : s'.bootfsVnode = s.bootfsVnode
  knowndevs : s'.knowndevs = s.knowndevs
  opens : s'.opens = s.opens
  kept : s'.kept = s.kept

/-- The panics that are about the counts, or about a vnode that is gone. -/
def countPanics : List Panic :=
  [.vnodeCheck, .vnodePointer, .vnodeRefcount, .vnodeOpencount, .vnodeKillRefcount,
    .vnodeKillOpencount]

def OffCounts (reason : Panic) : Prop :=
  reason ∉ countPanics

variable {s : VfsRefs} {refs opens : Nat → Nat} {v : Nat}

theorem Frame.refl (s : VfsRefs) : Frame s s :=
  ⟨rfl, rfl, rfl, rfl, rfl, rfl, rfl⟩

theorem Balanced.some_of_pos (balanced : Balanced s refs opens) (positive : 0 < refs v) :
    ∃ vnode, s.vnodes v = some vnode ∧ vnode.vnRefcount = refs v ∧
      vnode.vnOpencount = opens v ∧ s.loads v = s.reclaims v + 1 := by
  have life := balanced v
  cases present : s.vnodes v with
  | none =>
      simp only [Life, present] at life
      omega
  | some vnode =>
      simp only [Life, present] at life
      exact ⟨vnode, rfl, life.2.1, life.2.2.1, life.2.2.2.2⟩

theorem Balanced.update (balanced : Balanced s refs opens) {s' : VfsRefs} {refs' opens' : Nat → Nat}
    (others : ∀ w, w ≠ v → s'.vnodes w = s.vnodes w ∧ s'.loads w = s.loads w ∧
      s'.reclaims w = s.reclaims w ∧ refs' w = refs w ∧ opens' w = opens w)
    (changed : Life (s'.vnodes v) (s'.loads v) (s'.reclaims v) (refs' v) (opens' v)) :
    Balanced s' refs' opens' := by
  intro w
  by_cases same : w = v
  · rw [same]
    exact changed
  · rcases others w same with ⟨vnode, loads, reclaims, references, opened⟩
    rw [vnode, loads, reclaims, references, opened]
    exact balanced w

variable {vn : Option Nat}

theorem vnodeCheck_spec (balanced : Balanced s refs opens) (held : ∀ v ∈ vn, 0 < refs v) :
    Ensures (vnodeCheck vn) s OffCounts (fun _ _ => False)
      (fun found s' => s' = s ∧ vn = some found.1 ∧ s.vnodes found.1 = some found.2) := by
  cases vn with
  | none => simp [vnodeCheck, deref, OffCounts, countPanics]
  | some v =>
      rcases balanced.some_of_pos (held v rfl) with ⟨vnode, present, references, _⟩
      have positive := held v rfl
      simp only [vnodeCheck, deref, ensures_bind, ensures_get, present, ensures_pure]
      rw [ensures_assert_of (by omega)]
      exact ⟨rfl, trivial, trivial⟩

theorem Balanced.setVnode (balanced : Balanced s refs opens) {vnode : VfsVnode}
    (present : s.vnodes v = some vnode) {refs' opens' : Nat → Nat}
    (others : ∀ w, w ≠ v → refs' w = refs w ∧ opens' w = opens w)
    {vnode' : VfsVnode} (refcount : vnode'.vnRefcount = refs' v)
    (opencount : vnode'.vnOpencount = opens' v) (positive : 0 < refs' v)
    (within : opens' v ≤ refs' v) : Balanced (setVnode v vnode' s) refs' opens' := by
  have life := balanced v
  simp only [Life, present] at life
  apply balanced.update (v := v)
  · intro w other
    simp only [VfsRefs.setVnode, update_of_ne other, true_and]
    exact others w other
  · simp only [VfsRefs.setVnode, update_self, Life]
    exact ⟨within, refcount, opencount, positive, life.2.2.2.2⟩

/-! ## The operations on counts -/

theorem count_toList (vn : Option Nat) (w : Nat) : vn.toList.count w = (vn == some w).toNat := by
  cases vn with
  | none => rfl
  | some v =>
      by_cases same : v = w
      · simp [same]
      · have different : (some v == some w) = false := by
          simp [same]
        simp [same, different]

theorem vnodeIncref_balanced (balanced : Balanced s refs opens) (held : ∀ v ∈ vn, 0 < refs v) :
    Ensures (vnodeIncref vn) s OffCounts (fun _ _ => False)
      (fun _ s' => Frame s s' ∧ Balanced s' (fun w => refs w + vn.toList.count w) opens) := by
  rw [vnodeIncref, ensures_bind]
  apply (vnodeCheck_spec balanced held).imp
  rintro ⟨v, vnode⟩ s' ⟨rfl, rfl, present⟩
  have life := balanced v
  simp only [Life, present] at life
  refine ⟨⟨rfl, rfl, rfl, rfl, rfl, rfl, rfl⟩, ?_⟩
  apply balanced.setVnode present
  · intro w other
    simp [Ne.symm other]
  · simpa using life.2.1
  · exact life.2.2.1
  · simp
  · simp only [toList_some, List.count_singleton_self]
    omega

theorem vnodeDecref_balanced (balanced : Balanced s refs opens)
    (held : ∀ v ∈ vn, opens v < refs v) :
    Ensures (vnodeDecref vn) s OffCounts (fun _ _ => False)
      (fun _ s' => Frame s s' ∧ Balanced s' (fun w => refs w - vn.toList.count w) opens) := by
  rw [vnodeDecref, ensures_bind]
  apply (vnodeCheck_spec balanced fun v mem => Nat.zero_lt_of_lt (held v mem)).imp
  rintro ⟨v, vnode⟩ s' ⟨rfl, rfl, present⟩
  have life := balanced v
  have more := held v rfl
  simp only [Life, present] at life
  rcases life with ⟨_, refcount, opencount, positive, lives⟩
  rw [ensures_bind, ensures_assert_of (by omega)]
  apply ensures_branch
  · intro several
    refine ⟨⟨rfl, rfl, rfl, rfl, rfl, rfl, rfl⟩, ?_⟩
    apply balanced.setVnode present
    · intro w other
      simp [Ne.symm other]
    · simp [refcount]
    · exact opencount
    · simp only [toList_some, List.count_singleton_self]
      omega
    · simp only [toList_some, List.count_singleton_self]
      omega
  · intro last
    simp only [vopReclaim, ensures_bind]
    rw [ensures_assert_of (by omega), ensures_assert_of (by omega)]
    refine ⟨⟨rfl, rfl, rfl, rfl, rfl, rfl, rfl⟩, ?_⟩
    apply balanced.update (v := v)
    · intro w other
      simp [update_of_ne other, Ne.symm other]
    · simp only [Life, update_self, toList_some, List.count_singleton_self]
      omega

theorem vnodeIncopen_balanced (balanced : Balanced s refs opens)
    (held : ∀ v ∈ vn, opens v < refs v) :
    Ensures (vnodeIncopen vn) s OffCounts (fun _ _ => False)
      (fun _ s' => Frame s s' ∧ Balanced s' refs (fun w => opens w + vn.toList.count w)) := by
  rw [vnodeIncopen, ensures_bind]
  apply (vnodeCheck_spec balanced fun v mem => Nat.zero_lt_of_lt (held v mem)).imp
  rintro ⟨v, vnode⟩ s' ⟨rfl, rfl, present⟩
  have life := balanced v
  have more := held v rfl
  simp only [Life, present] at life
  refine ⟨⟨rfl, rfl, rfl, rfl, rfl, rfl, rfl⟩, ?_⟩
  apply balanced.setVnode present
  · intro w other
    simp [Ne.symm other]
  · exact life.2.1
  · simpa using life.2.2.1
  · exact life.2.2.2.1
  · simp only [toList_some, List.count_singleton_self]
    omega

theorem vnodeDecopen_balanced (balanced : Balanced s refs opens) (opened : ∀ v ∈ vn, 0 < opens v) :
    Ensures (vnodeDecopen vn) s OffCounts (fun _ _ => False)
      (fun _ s' => Frame s s' ∧ Balanced s' refs (fun w => opens w - vn.toList.count w)) := by
  have held : ∀ v ∈ vn, 0 < refs v := by
    intro v mem
    exact lt_of_lt_of_le (opened v mem) (balanced v).1
  rw [vnodeDecopen, ensures_bind]
  apply (vnodeCheck_spec balanced held).imp
  rintro ⟨v, vnode⟩ s' ⟨rfl, rfl, present⟩
  have life := balanced v
  have some_open := opened v rfl
  simp only [Life, present] at life
  rcases life with ⟨within, refcount, opencount, positive, lives⟩
  rw [ensures_bind, ensures_assert_of (by omega), ensures_bind, ensures_modify]
  have closed : Balanced (VfsRefs.setVnode v
      { vnode with vnOpencount := vnode.vnOpencount - 1 } s') refs
      (fun w => opens w - (some v).toList.count w) := by
    apply balanced.setVnode present
    · intro w other
      simp [Ne.symm other]
    · exact refcount
    · simp [opencount]
    · exact positive
    · simp only [toList_some, List.count_singleton_self]
      omega
  apply ensures_branch
  · intro _
    rw [ensures_bind]
    apply (vnodeCheck_spec closed held).imp
    rintro _ s'' ⟨rfl, _, _⟩
    exact ⟨⟨rfl, rfl, rfl, rfl, rfl, rfl, rfl⟩, closed⟩
  · intro _
    exact ⟨⟨rfl, rfl, rfl, rfl, rfl, rfl, rfl⟩, closed⟩

theorem Balanced.addReference (balanced : Balanced s refs opens) (v : Nat) (fs : Option Nat) :
    Frame s (addReference v fs s) ∧
      Balanced (addReference v fs s) (fun w => refs w + [v].count w) opens := by
  have life := balanced v
  cases present : s.vnodes v with
  | some vnode =>
      simp only [Life, present] at life
      simp only [VfsRefs.addReference, present]
      refine ⟨⟨rfl, rfl, rfl, rfl, rfl, rfl, rfl⟩, ?_⟩
      apply balanced.setVnode present
      · intro w other
        simp [Ne.symm other]
      · simpa using life.2.1
      · exact life.2.2.1
      · simp
      · simp only [List.count_singleton_self]
        omega
  | none =>
      simp only [Life, present] at life
      simp only [VfsRefs.addReference, present]
      refine ⟨⟨rfl, rfl, rfl, rfl, rfl, rfl, rfl⟩, ?_⟩
      apply balanced.update (v := v)
      · intro w other
        simp [VfsRefs.setVnode, update_of_ne other, Ne.symm other]
      · simp only [Life, VfsRefs.setVnode, update_self, List.count_singleton_self]
        omega

/-! ## Holders and what is in hand -/

structure Counted (s : VfsRefs) (hand opening : List Nat) : Prop where
  balanced : Balanced s (fun v => s.holders v + hand.count v)
    (fun v => s.opens.count v + opening.count v)
  cur : s.cur < s.nextThread
  devices : ∀ kd ∈ s.knowndevs, 0 < s.kept kd.kdVnode

variable {s' : VfsRefs} {hand hand' opening opening' : List Nat} {vn : Option Nat}

theorem Frame.holders (frame : Frame s s') (v : Nat) : s'.holders v = s.holders v := by
  simp only [VfsRefs.holders, frame.tCwd, frame.nextThread, frame.bootfsVnode, frame.opens,
    frame.kept]

theorem Counted.of_frame (counted : Counted s hand opening) (frame : Frame s s')
    (balanced : Balanced s' refs opens) (references : ∀ v, refs v = s.holders v + hand'.count v)
    (opened : ∀ v, opens v = s.opens.count v + opening'.count v) : Counted s' hand' opening' := by
  refine ⟨?_, ?_, ?_⟩
  · intro v
    have life := balanced v
    rw [references, opened] at life
    simp only [frame.holders, frame.opens]
    exact life
  · rw [frame.cur, frame.nextThread]
    exact counted.cur
  · rw [frame.knowndevs, frame.kept]
    exact counted.devices

/-- Someone holds what the pointer points to. -/
def Held (s : VfsRefs) (hand : List Nat) (vn : Option Nat) : Prop :=
  ∀ v ∈ vn, 0 < s.holders v + hand.count v

theorem held_of_mem (inHand : ∀ v ∈ vn, v ∈ hand) : Held s hand vn := by
  intro v mem
  have positive := List.count_pos_iff.mpr (inHand v mem)
  omega

theorem held_append (vn : Option Nat) (hand : List Nat) : Held s (vn.toList ++ hand) vn := by
  apply held_of_mem
  intro v mem
  simp only [mem_def] at mem
  simp [mem]

theorem opens_le_holders (s : VfsRefs) (v : Nat) : s.opens.count v ≤ s.holders v := by
  simp only [VfsRefs.holders]
  omega

theorem Counted.perm (counted : Counted s hand opening) (perm : hand.Perm hand') :
    Counted s hand' opening := by
  apply counted.of_frame (Frame.refl s) counted.balanced _ (fun v => rfl)
  intro v
  rw [perm.count_eq]

theorem Counted.incref (counted : Counted s hand opening) (held : Held s hand vn) :
    Ensures (vnodeIncref vn) s OffCounts (fun _ _ => False)
      (fun _ s' => Frame s s' ∧ Counted s' (vn.toList ++ hand) opening) := by
  apply (vnodeIncref_balanced counted.balanced held).imp
  rintro _ s' ⟨frame, balanced⟩
  refine ⟨frame, counted.of_frame frame balanced ?_ (fun v => rfl)⟩
  intro v
  rw [count_append]
  omega

theorem Counted.decref (counted : Counted s (vn.toList ++ hand) []) :
    Ensures (vnodeDecref vn) s OffCounts (fun _ _ => False)
      (fun _ s' => Frame s s' ∧ Counted s' hand []) := by
  apply (vnodeDecref_balanced counted.balanced _).imp
  · rintro _ s' ⟨frame, balanced⟩
    refine ⟨frame, counted.of_frame frame balanced ?_ (fun v => rfl)⟩
    intro v
    simp only [count_append]
    omega
  · intro v mem
    simp only [mem_def] at mem
    have within := opens_le_holders s v
    simp only [mem, toList_some, count_append, List.count_singleton_self, count_nil]
    omega

theorem Counted.increfUnlessNull (counted : Counted s hand opening) (held : Held s hand vn) :
    Ensures (increfUnlessNull vn) s OffCounts (fun _ _ => False)
      (fun _ s' => Frame s s' ∧ Counted s' (vn.toList ++ hand) opening) := by
  cases vn with
  | none => exact ⟨Frame.refl s, counted⟩
  | some v => exact counted.incref held

theorem Counted.decrefUnlessNull (counted : Counted s (vn.toList ++ hand) []) :
    Ensures (decrefUnlessNull vn) s OffCounts (fun _ _ => False)
      (fun _ s' => Frame s s' ∧ Counted s' hand []) := by
  cases vn with
  | none => exact ⟨Frame.refl s, counted⟩
  | some v => exact counted.decref

theorem Counted.addReference (counted : Counted s hand opening) (v : Nat) (fs : Option Nat) :
    Counted (addReference v fs s) (v :: hand) opening := by
  rcases counted.balanced.addReference v fs with ⟨frame, balanced⟩
  apply counted.of_frame frame balanced _ (fun v => rfl)
  intro w
  have split : (v :: hand).count w = [v].count w + hand.count w := by
    rw [← count_append, List.singleton_append]
  omega

theorem Counted.answers (counted : Counted s hand opening) (answers : Nat → VfsAnswer) :
    Frame s { s with answers } ∧ Counted { s with answers } hand opening :=
  ⟨⟨rfl, rfl, rfl, rfl, rfl, rfl, rfl⟩, counted.balanced, counted.cur, counted.devices⟩

/-! ## Functions that hand something over -/

/-- A function that leaves `leaves` in hand when it returns, and nothing when it fails. -/
def HandsOver {α : Type} (program : VfsRefsM α) (s : VfsRefs) (hand : List Nat)
    (leaves : α → List Nat) : Prop :=
  Prog.Ensures program s OffCounts (fun _ s' => Counted s' hand [])
    (fun result s' => Counted s' (leaves result ++ hand) [])

variable {α : Type}

theorem HandsOver.discard {program : VfsRefsM α} (hands : HandsOver program s hand fun _ => []) :
    HandsOver (discard program) s hand fun _ => [] := by
  rw [HandsOver, VfsRefs.discard, ensures_bind]
  exact hands

theorem answerOrFail_spec (counted : Counted s hand opening) :
    Ensures answerOrFail s OffCounts (fun _ s' => Frame s s' ∧ Counted s' hand opening)
      (fun _ s' => Frame s s' ∧ Counted s' hand opening) := by
  have next := counted.answers fun i => s.answers (i + 1)
  rw [answerOrFail, ensures_bind]
  simp only [Ensures, answer]
  cases (s.answers 0).result with
  | some failure => exact next
  | none => exact next

theorem vop_spec (counted : Counted s hand opening) (held : Held s hand vn) :
    Ensures (vop vn) s OffCounts (fun _ s' => Frame s s' ∧ Counted s' hand opening)
      (fun _ s' => Frame s s' ∧ Counted s' hand opening) := by
  rw [vop, ensures_bind]
  apply (vnodeCheck_spec counted.balanced held).mono (fun _ off => off)
    (fun _ _ impossible => impossible.elim)
  rintro _ s' ⟨rfl, _, _⟩
  exact answerOrFail_spec counted

theorem handBack_spec (counted : Counted s hand []) (v : Nat) (fs : Option Nat) :
    HandsOver (handBack v fs) s hand toList :=
  counted.addReference v fs

theorem vopVnode_spec (counted : Counted s hand []) (held : Held s hand vn) :
    HandsOver (vopVnode vn) s hand toList := by
  rw [HandsOver, vopVnode, ensures_bind]
  apply (vop_spec counted held).mono (fun _ off => off) (fun _ _ failed => failed.2)
  rintro given s' ⟨_, counted'⟩
  exact handBack_spec counted' given.vnode given.vnFs

theorem fsopGetroot_spec (counted : Counted s hand []) (fs : Nat) :
    Ensures (fsopGetroot fs) s OffCounts (fun _ _ => False)
      (fun root s' => Counted s' (root.toList ++ hand) []) := by
  have next := (counted.answers fun i => s.answers (i + 1)).2
  rw [fsopGetroot, ensures_bind]
  simp only [Ensures, answer]
  cases (s.answers 0).roots fs with
  | none => exact next
  | some root => exact next.addReference root (some fs)

/-- The reference that was in hand is dropped whatever the result is. -/
theorem thenDecref_spec {program : VfsRefsM α} {leaves : α → List Nat}
    (keeps : HandsOver program s (vn.toList ++ hand) leaves) :
    HandsOver (thenDecref vn program) s hand leaves := by
  rw [HandsOver, thenDecref, ensures_bind, ensures_attempt]
  apply keeps.mono (fun _ off => off)
  · intro failure s' counted
    rw [ensures_bind]
    exact counted.decref.mono (fun _ off => off) (fun _ _ impossible => impossible.elim)
      (fun _ _ dropped => dropped.2)
  · intro result s' counted
    rw [ensures_bind]
    have reordered : Counted s' (vn.toList ++ (leaves result ++ hand)) [] := by
      apply counted.perm
      rw [← append_assoc, ← append_assoc]
      exact List.perm_append_comm.append_right hand
    exact reordered.decref.mono (fun _ off => off) (fun _ _ impossible => impossible.elim)
      (fun _ _ dropped => dropped.2)

theorem vnFs_spec (counted : Counted s hand opening) (held : Held s hand vn) :
    Ensures (vnFs vn) s OffCounts (fun _ _ => False) (fun _ s' => s' = s) := by
  cases vn with
  | none => simp [vnFs, deref, OffCounts, countPanics]
  | some v =>
      rcases counted.balanced.some_of_pos (held v rfl) with ⟨vnode, present, _⟩
      simp only [vnFs, deref, ensures_bind, ensures_get, present, ensures_pure]

/-! ## Paths -/

theorem holders_pos_of_cwd (inside : s.cur < s.nextThread) (cwd : s.tCwd s.cur = some v) :
    0 < s.holders v := by
  have positive := count_pos inside cwd
  simp only [VfsRefs.holders]
  omega

theorem holders_pos_of_bootfs (bootfs : s.bootfsVnode = some v) : 0 < s.holders v := by
  simp only [VfsRefs.holders, bootfs, BEq.rfl, Bool.toNat_true]
  omega

theorem holders_pos_of_kept (kept : 0 < s.kept v) : 0 < s.holders v := by
  simp only [VfsRefs.holders]
  omega

theorem increfHeld_spec (counted : Counted s hand []) (held : 0 < s.holders v) :
    HandsOver (do vnodeIncref (some v); pure (some v)) s hand toList := by
  have shared : Held s hand (some v) := by
    intro w mem
    cases mem
    omega
  rw [HandsOver, ensures_bind]
  exact (counted.incref shared).mono (fun _ off => off)
    (fun _ _ impossible => impossible.elim) (fun _ _ taken => taken.2)

theorem vfsGetcurdir_spec (counted : Counted s hand []) : HandsOver vfsGetcurdir s hand toList := by
  rw [HandsOver, vfsGetcurdir, ensures_bind, ensures_get]
  cases cwd : s.tCwd s.cur with
  | none => exact counted
  | some v => exact increfHeld_spec counted (holders_pos_of_cwd counted.cur cwd)

theorem getBootfs_spec (counted : Counted s hand []) : HandsOver getBootfs s hand toList := by
  rw [HandsOver, getBootfs, ensures_bind, ensures_get]
  cases bootfs : s.bootfsVnode with
  | none => exact counted
  | some v => exact increfHeld_spec counted (holders_pos_of_bootfs bootfs)

theorem rootOf_spec {devname : VfsName} {kd : Knowndev} {found : VfsRefsM VfsList.Rooted}
    (answer : VfsList.rootOf devname kd = some found) :
    Ensures found s OffCounts (fun _ s' => s' = s)
      (fun rooted s' => s' = s ∧ ∀ vnode, rooted = .device vnode → vnode = kd.kdVnode) := by
  have off : OffCounts .knowndevDevice ∧ OffCounts .knowndevRawname := by
    simp [OffCounts, countPanics]
  have device : Ensures (do
      assert .knowndevDevice (kd.kdDevice.isSome = true)
      pure (VfsList.Rooted.device kd.kdVnode) : VfsRefsM VfsList.Rooted) s OffCounts
      (fun _ s' => s' = s)
      (fun rooted s' => s' = s ∧ ∀ vnode, rooted = .device vnode → vnode = kd.kdVnode) := by
    apply ensures_assert_then (fun _ => off.1)
    intro _
    refine ⟨rfl, ?_⟩
    intro vnode same
    cases same
    rfl
  cases mounted : kd.kdFs with
  | some fs =>
      simp only [VfsList.rootOf, mounted] at answer
      split_ifs at answer with named raw
      · cases answer
        exact ⟨rfl, fun vnode same => by cases same⟩
      · cases answer
        exact device
  | none =>
      simp only [VfsList.rootOf, mounted] at answer
      split_ifs at answer with unmounted named raw
      · cases answer
        rfl
      · cases answer
        exact ensures_assert_then (fun _ => off.2) fun _ => device
      · cases answer
        exact device

theorem vfsGetroot_spec (counted : Counted s hand []) (devname : VfsName) :
    HandsOver (vfsGetroot devname) s hand toList := by
  rw [HandsOver, vfsGetroot, ensures_bind, ensures_get, ensures_bind, VfsList.vfsGetroot]
  cases found : s.knowndevs.findSome? (VfsList.rootOf devname) with
  | none => exact counted
  | some answer =>
      rcases List.exists_of_findSome?_eq_some found with ⟨kd, mem, root⟩
      apply (rootOf_spec root).mono (fun _ off => off)
      · rintro _ s' rfl
        exact counted
      · rintro rooted s' ⟨rfl, device⟩
        cases rooted with
        | fs fs =>
            exact (fsopGetroot_spec counted fs.id).mono (fun _ off => off)
              (fun _ _ impossible => impossible.elim) (fun _ _ handed => handed)
        | device vnode =>
            have kept := counted.devices kd mem
            rw [← device vnode rfl] at kept
            exact increfHeld_spec counted (holders_pos_of_kept kept)

theorem getCurrentRoot_spec (counted : Counted s hand []) :
    HandsOver getCurrentRoot s hand toList := by
  rw [HandsOver, getCurrentRoot, ensures_bind]
  apply (vfsGetcurdir_spec counted).mono (fun _ off => off) (fun _ _ failed => failed)
  intro vn s₁ counted
  rw [ensures_bind]
  apply (vnFs_spec counted (held_append vn hand)).mono (fun _ off => off)
    (fun _ _ impossible => impossible.elim)
  rintro fs s₂ rfl
  cases fs with
  | none => simp [OffCounts, countPanics]
  | some fs => ?_
  rw [ensures_bind]
  apply (fsopGetroot_spec counted fs).unfailing (fun _ off => off)
  intro startvn s₃ counted
  have reordered : Counted s₃ (vn.toList ++ (startvn.toList ++ hand)) [] := by
    apply counted.perm
    rw [← append_assoc, ← append_assoc]
    exact List.perm_append_comm.append_right hand
  rw [ensures_bind]
  exact reordered.decref.mono (fun _ off => off) (fun _ _ impossible => impossible.elim)
    (fun _ _ dropped => dropped.2)

theorem getdevice_spec (counted : Counted s hand []) (path : VfsName) :
    HandsOver (getdevice path) s hand fun found => found.2.toList := by
  have paired : ∀ {program : VfsRefsM (Option Nat)} (subpath : VfsName),
      HandsOver program s hand toList →
      HandsOver (do let startvn ← program; pure (subpath, startvn)) s hand
        fun found => found.2.toList := by
    intro program subpath hands
    rw [HandsOver, ensures_bind]
    exact hands
  rw [getdevice]
  split
  · exact paired _ (getBootfs_spec counted)
  · exact paired _ (getCurrentRoot_spec counted)
  · exact paired _ (vfsGetroot_spec counted _)
  · exact paired _ (vfsGetcurdir_spec counted)

theorem vfsLookparent_spec (counted : Counted s hand []) (path : VfsName) :
    HandsOver (vfsLookparent path) s hand toList := by
  rw [HandsOver, vfsLookparent, ensures_bind]
  apply (getdevice_spec counted path).mono (fun _ off => off) (fun _ _ failed => failed)
  rintro ⟨subpath, startvn⟩ s₁ counted
  apply thenDecref_spec
  apply ensures_branch
  · intro _
    exact counted
  · intro _
    exact vopVnode_spec counted (held_append startvn hand)

theorem vfsLookup_spec (counted : Counted s hand []) (path : VfsName) :
    HandsOver (vfsLookup path) s hand toList := by
  rw [HandsOver, vfsLookup, ensures_bind]
  apply (getdevice_spec counted path).mono (fun _ off => off) (fun _ _ failed => failed)
  rintro ⟨subpath, startvn⟩ s₁ counted
  apply ensures_branch
  · intro _
    exact counted
  · intro _
    exact thenDecref_spec (vopVnode_spec counted (held_append startvn hand))

/-! ## The calls -/

theorem vop_handsOver (counted : Counted s hand []) (held : Held s hand vn) :
    HandsOver (vop vn) s hand fun _ => [] :=
  (vop_spec counted held).mono (fun _ off => off) (fun _ _ failed => failed.2)
    (fun _ _ answered => answered.2)

theorem openVnode_spec (counted : Counted s hand []) (path : VfsName) (openflags : Nat) :
    HandsOver (openVnode path openflags) s hand toList := by
  apply ensures_branch
  · intro _
    rw [ensures_bind]
    apply (vfsLookparent_spec counted path).mono (fun _ off => off) (fun _ _ failed => failed)
    intro dir s₁ counted
    exact thenDecref_spec (vopVnode_spec counted (held_append dir hand))
  · intro _
    exact vfsLookup_spec counted path

theorem Counted.incopen (counted : Counted s (v :: hand) opening)
    (fewer : opening.count v ≤ hand.count v) :
    Ensures (vnodeIncopen (some v)) s OffCounts (fun _ _ => False)
      (fun _ s' => Counted s' (v :: hand) (v :: opening)) := by
  apply (vnodeIncopen_balanced counted.balanced _).imp
  · rintro _ s' ⟨frame, balanced⟩
    apply counted.of_frame frame balanced (fun v => rfl)
    intro w
    simp only [toList_some, List.count_cons, count_nil]
    omega
  · intro w mem
    cases mem
    have within := opens_le_holders s v
    simp only [List.count_cons_self]
    omega

theorem Counted.decopen (counted : Counted s hand (v :: opening)) :
    Ensures (vnodeDecopen (some v)) s OffCounts (fun _ _ => False)
      (fun _ s' => Counted s' hand opening) := by
  apply (vnodeDecopen_balanced counted.balanced _).imp
  · rintro _ s' ⟨frame, balanced⟩
    apply counted.of_frame frame balanced (fun v => rfl)
    intro w
    simp only [toList_some, List.count_cons, count_nil]
    omega
  · intro w mem
    cases mem
    simp

theorem vfsClose_spec (counted : Counted s (v :: hand) [v]) :
    Ensures (vfsClose v) s OffCounts (fun _ _ => False) (fun _ s' => Counted s' hand []) := by
  rw [vfsClose, ensures_bind]
  apply counted.decopen.imp
  intro _ s₁ counted
  have inHand : Counted s₁ ((some v).toList ++ hand) [] := counted
  exact inHand.decref.imp fun _ _ dropped => dropped.2

theorem openTruncate_spec (counted : Counted s (v :: hand) [v]) (openflags : Nat) :
    Ensures (openTruncate (some v) openflags) s OffCounts (fun _ s' => Counted s' hand [])
      (fun _ s' => Counted s' (v :: hand) [v]) := by
  have undone : ∀ (failure : Errno) (s₁ : VfsRefs), Counted s₁ (v :: hand) [v] →
      Ensures (do
          vnodeDecopen (some v)
          vnodeDecref (some v)
          fail failure) s₁ OffCounts (fun _ s' => Counted s' hand [])
        (fun (_ : Unit) s' => Counted s' (v :: hand) [v]) := by
    intro failure s₁ counted
    rw [ensures_bind]
    apply counted.decopen.mono (fun _ off => off) (fun _ _ impossible => impossible.elim)
    intro _ s₂ counted
    have inHand : Counted s₂ ((some v).toList ++ hand) [] := counted
    rw [ensures_bind]
    exact inHand.decref.mono (fun _ off => off) (fun _ _ impossible => impossible.elim)
      (fun _ _ dropped => dropped.2)
  rw [openTruncate, ensures_bind, ensures_attempt]
  apply ensures_branch
  · intro _
    exact undone _ s counted
  · intro _
    have held : Held s (v :: hand) (some v) := held_append (some v) hand
    apply (vop_spec counted held).mono (fun _ off => off)
    · intro failure s₁ failed
      exact undone failure s₁ failed.2
    · intro _ s₁ truncated
      exact truncated.2

theorem vfsOpen_spec (counted : Counted s hand []) (path : VfsName) (openflags : Nat) :
    Ensures (vfsOpen path openflags) s OffCounts (fun _ s' => Counted s' hand [])
      (fun v s' => Counted s' (v :: hand) [v]) := by
  apply ensures_branch
  · intro _
    exact counted
  intro _
  rw [ensures_bind]
  apply (openVnode_spec counted path openflags).mono (fun _ off => off) (fun _ _ failed => failed)
  intro vn s₁ counted
  cases vn with
  | none => simp [OffCounts, countPanics]
  | some v =>
      have held : Held s₁ (v :: hand) (some v) := held_append (some v) hand
      simp only [ensures_bind, ensures_attempt]
      apply (vop_spec counted held).mono (fun _ off => off)
      · intro failure s₂ failed
        have inHand : Counted s₂ ((some v).toList ++ hand) [] := failed.2
        exact inHand.decref.mono (fun _ off => off) (fun _ _ impossible => impossible.elim)
          (fun _ _ dropped => dropped.2)
      · intro _ s₂ opened
        have inHand : Counted s₂ (v :: hand) [] := opened.2
        apply (inHand.incopen (Nat.zero_le _)).mono (fun _ off => off)
          (fun _ _ impossible => impossible.elim)
        intro _ s₃ counted
        apply ensures_branch
        · intro _
          rw [ensures_bind]
          exact openTruncate_spec counted openflags
        · intro _
          exact counted

theorem vfsRemove_spec (counted : Counted s hand []) (path : VfsName) :
    HandsOver (vfsRemove path) s hand fun _ => [] := by
  rw [HandsOver, vfsRemove, ensures_bind]
  apply (vfsLookparent_spec counted path).mono (fun _ off => off) (fun _ _ failed => failed)
  intro dir s₁ counted
  exact thenDecref_spec (vop_handsOver counted (held_append dir hand))

theorem sameFs_spec (counted : Counted s hand []) {vn' target : Option Nat}
    (held : Held s hand vn) (held' : Held s hand vn') (targetHeld : Held s hand target) :
    HandsOver (sameFs vn vn' target) s hand fun _ => [] := by
  rw [HandsOver, sameFs, ensures_bind]
  apply (vnFs_spec counted held).mono (fun _ off => off) (fun _ _ impossible => impossible.elim)
  rintro fs s₁ rfl
  rw [ensures_bind]
  apply (vnFs_spec counted held').mono (fun _ off => off) (fun _ _ impossible => impossible.elim)
  rintro fs' s₂ rfl
  apply ensures_branch
  · intro _
    exact counted
  · intro _
    exact vop_handsOver counted targetHeld

/-- With the first vnode in hand, the directory of the second path is looked up. -/
theorem secondPath_spec (counted : Counted s (vn.toList ++ hand) []) (newpath : VfsName)
    {target : Option Nat → Option Nat} (targets : ∀ dir, target dir = vn ∨ target dir = dir) :
    HandsOver (do
      let newdir ← vfsLookparent newpath
      thenDecref newdir (sameFs vn newdir (target newdir))) s (vn.toList ++ hand)
      fun _ => [] := by
  rw [HandsOver, ensures_bind]
  apply (vfsLookparent_spec counted newpath).mono (fun _ off => off) (fun _ _ failed => failed)
  intro newdir s₁ counted
  have held : Held s₁ (newdir.toList ++ (vn.toList ++ hand)) vn := by
    apply held_of_mem
    intro v mem
    simp only [mem_def] at mem
    simp [mem]
  have held' := held_append (s := s₁) newdir (vn.toList ++ hand)
  apply thenDecref_spec
  apply sameFs_spec counted held held'
  rcases targets newdir with first | second
  · rw [first]
    exact held
  · rw [second]
    exact held'

theorem vfsRename_spec (counted : Counted s hand []) (oldpath newpath : VfsName) :
    HandsOver (vfsRename oldpath newpath) s hand fun _ => [] := by
  rw [HandsOver, vfsRename, ensures_bind]
  apply (vfsLookparent_spec counted oldpath).mono (fun _ off => off) (fun _ _ failed => failed)
  intro olddir s₁ counted
  exact thenDecref_spec (secondPath_spec counted newpath fun _ => Or.inl rfl)

theorem vfsLink_spec (counted : Counted s hand []) (oldpath newpath : VfsName) :
    HandsOver (vfsLink oldpath newpath) s hand fun _ => [] := by
  rw [HandsOver, vfsLink, ensures_bind]
  apply (vfsLookup_spec counted oldpath).mono (fun _ off => off) (fun _ _ failed => failed)
  intro oldfile s₁ counted
  exact thenDecref_spec (secondPath_spec counted newpath fun _ => Or.inr rfl)

/-! ## Directories of threads -/

theorem Counted.transfer (counted : Counted s hand opening) (vnodes : s'.vnodes = s.vnodes)
    (loads : s'.loads = s.loads) (reclaims : s'.reclaims = s.reclaims)
    (references : ∀ v, s'.holders v + hand'.count v = s.holders v + hand.count v)
    (opened : ∀ v, s'.opens.count v + opening'.count v = s.opens.count v + opening.count v)
    (cur : s'.cur < s'.nextThread) (devices : ∀ kd ∈ s'.knowndevs, 0 < s'.kept kd.kdVnode) :
    Counted s' hand' opening' := by
  refine ⟨?_, cur, devices⟩
  intro v
  have life := counted.balanced v
  simp only [references, opened, vnodes, loads, reclaims]
  exact life

/-- The current thread puts what is in hand in the place of its directory, which then is in
hand. -/
theorem Counted.setCwd (counted : Counted s (vn.toList ++ hand) []) :
    Counted (setCwd vn s) ((s.tCwd s.cur).toList ++ hand) [] := by
  refine counted.transfer rfl rfl rfl ?_ (fun v => rfl) counted.cur counted.devices
  intro v
  have moved := count_update s.tCwd counted.cur vn v
  simp only [VfsRefs.holders, VfsRefs.setCwd, count_append, count_toList]
  omega

theorem vfsSetcurdir_spec (counted : Counted s hand []) (held : Held s hand vn) :
    HandsOver (vfsSetcurdir vn) s hand fun _ => [] := by
  rw [HandsOver, vfsSetcurdir, ensures_bind]
  apply (vop_spec counted held).mono (fun _ off => off) (fun _ _ failed => failed.2)
  rintro given s₁ ⟨frame, counted⟩
  have held₁ : Held s₁ hand vn := by
    intro v mem
    rw [frame.holders]
    exact held v mem
  apply ensures_branch
  · intro _
    exact counted
  intro _
  rw [ensures_bind]
  apply (counted.incref held₁).mono (fun _ off => off) (fun _ _ impossible => impossible.elim)
  rintro _ s₂ ⟨_, counted⟩
  rw [ensures_bind, ensures_get, ensures_bind, ensures_modify]
  exact counted.setCwd.decrefUnlessNull.mono (fun _ off => off)
    (fun _ _ impossible => impossible.elim) (fun _ _ dropped => dropped.2)

theorem vfsClearcurdir_spec (counted : Counted s hand []) :
    HandsOver vfsClearcurdir s hand fun _ => [] := by
  have nothing : Counted s ((none : Option Nat).toList ++ hand) [] := counted
  rw [HandsOver, vfsClearcurdir, ensures_bind, ensures_get, ensures_bind, ensures_modify]
  exact nothing.setCwd.decrefUnlessNull.mono (fun _ off => off)
    (fun _ _ impossible => impossible.elim) (fun _ _ dropped => dropped.2)

theorem vfsChdir_spec (counted : Counted s hand []) (path : VfsName) :
    HandsOver (vfsChdir path) s hand fun _ => [] := by
  rw [HandsOver, vfsChdir, ensures_bind]
  apply (vfsLookup_spec counted path).mono (fun _ off => off) (fun _ _ failed => failed)
  intro vn s₁ counted
  exact thenDecref_spec (vfsSetcurdir_spec counted (held_append vn hand))

theorem namecwd_spec (counted : Counted s hand []) (held : Held s hand vn) :
    HandsOver (namecwd vn) s hand fun _ => [] := by
  rw [HandsOver, namecwd, ensures_bind]
  apply (vnFs_spec counted held).mono (fun _ off => off) (fun _ _ impossible => impossible.elim)
  rintro fs s₁ rfl
  cases fs with
  | none => simp [OffCounts, countPanics]
  | some fs =>
      have next := (counted.answers fun i => s₁.answers (i + 1)).2
      rw [ensures_bind]
      change Ensures _ { s₁ with answers := fun i => s₁.answers (i + 1) } _ _ _
      rw [ensures_bind, ensures_get]
      apply ensures_assert_then
      · intro _
        simp [OffCounts, countPanics]
      intro _
      rw [ensures_bind]
      apply (answerOrFail_spec next).mono (fun _ off => off) (fun _ _ failed => failed.2)
      rintro _ s₂ ⟨frame, counted⟩
      rw [ensures_bind]
      apply (answerOrFail_spec counted).mono (fun _ off => off) (fun _ _ failed => failed.2)
      rintro _ s₃ ⟨frame', counted⟩
      have held' : Held s₃ hand vn := by
        intro v mem
        rw [frame'.holders, frame.holders]
        exact held v mem
      rw [ensures_bind]
      exact vop_handsOver counted held'

theorem vfsGetcwd_spec (counted : Counted s hand []) (reads : Bool) :
    HandsOver (vfsGetcwd reads) s hand fun _ => [] := by
  apply ensures_assert_then
  · intro _
    simp [OffCounts, countPanics]
  intro _
  rw [ensures_bind]
  apply (vfsGetcurdir_spec counted).mono (fun _ off => off) (fun _ _ failed => failed)
  intro cwd s₁ counted
  exact thenDecref_spec (namecwd_spec counted (held_append cwd hand))

theorem changeBootfs_spec (counted : Counted s (vn.toList ++ hand) []) :
    HandsOver (changeBootfs vn) s hand fun _ => [] := by
  have changed : Counted { s with bootfsVnode := vn } (s.bootfsVnode.toList ++ hand) [] := by
    refine counted.transfer rfl rfl rfl ?_ (fun v => rfl) counted.cur counted.devices
    intro v
    simp only [VfsRefs.holders, count_append, count_toList]
    omega
  rw [HandsOver, changeBootfs, ensures_bind, ensures_get, ensures_bind, ensures_modify]
  exact changed.decrefUnlessNull.mono (fun _ off => off)
    (fun _ _ impossible => impossible.elim) (fun _ _ dropped => dropped.2)

theorem vfsSetbootfs_spec (counted : Counted s hand []) (fsname : VfsName) :
    HandsOver (vfsSetbootfs fsname) s hand fun _ => [] := by
  apply ensures_branch
  · intro _
    exact counted
  intro _
  rw [ensures_bind]
  apply (vfsChdir_spec counted _).mono (fun _ off => off) (fun _ _ failed => failed)
  intro _ s₁ counted
  rw [ensures_bind]
  apply (vfsGetcurdir_spec counted).mono (fun _ off => off) (fun _ _ failed => failed)
  intro newguy s₂ counted
  exact changeBootfs_spec counted

theorem Counted.addThread (counted : Counted s (vn.toList ++ hand) []) :
    Counted (addThread vn s) hand [] := by
  have cur := counted.cur
  refine counted.transfer rfl rfl rfl ?_ (fun v => rfl) ?_ counted.devices
  · intro v
    have others : count (Function.update s.tCwd s.nextThread vn) s.nextThread v =
        count s.tCwd s.nextThread v :=
      count_update_of_le (Nat.le_refl s.nextThread) vn v
    simp only [VfsRefs.holders, VfsRefs.addThread, count_append, count_toList,
      count_succ, others, update_self]
    omega
  · simp only [VfsRefs.addThread]
    omega

theorem threadFork_spec (counted : Counted s hand []) :
    HandsOver threadFork s hand fun _ => [] := by
  rw [HandsOver, threadFork, ensures_bind]
  apply (answerOrFail_spec counted).mono (fun _ off => off) (fun _ _ failed => failed.2)
  rintro _ s₁ ⟨_, counted⟩
  have held : Held s₁ hand (s₁.tCwd s₁.cur) := by
    intro v mem
    have positive := holders_pos_of_cwd counted.cur mem
    omega
  rw [ensures_bind, ensures_get, ensures_bind]
  apply (counted.increfUnlessNull held).mono (fun _ off => off)
    (fun _ _ impossible => impossible.elim)
  rintro _ s₂ ⟨_, counted⟩
  rw [ensures_bind, ensures_attempt]
  apply (answerOrFail_spec counted).mono (fun _ off => off)
  · rintro failure s₃ ⟨_, counted⟩
    rw [ensures_bind]
    exact counted.decrefUnlessNull.mono (fun _ off => off)
      (fun _ _ impossible => impossible.elim) (fun _ _ dropped => dropped.2)
  · rintro _ s₃ ⟨_, counted⟩
    exact counted.addThread

/-- The reference of the thread is dropped while `t_cwd` still points to the vnode. -/
theorem threadExit_spec (counted : Counted s hand []) :
    HandsOver threadExit s hand fun _ => [] := by
  have dropped : Ensures (decrefUnlessNull (s.tCwd s.cur)) s OffCounts (fun _ _ => False)
      (fun _ s' => Frame s s' ∧ Balanced s'
        (fun v => s.holders v + hand.count v - (s.tCwd s.cur).toList.count v)
        (fun v => s.opens.count v + [].count v)) := by
    cases cwd : s.tCwd s.cur with
    | none => exact ⟨Frame.refl s, counted.balanced⟩
    | some v =>
        apply vnodeDecref_balanced counted.balanced
        intro w mem
        cases mem
        have positive := count_pos counted.cur cwd
        simp only [VfsRefs.holders, count_nil]
        omega
  rw [HandsOver, threadExit, ensures_bind, ensures_get, ensures_bind]
  apply dropped.mono (fun _ off => off) (fun _ _ impossible => impossible.elim)
  rintro _ s' ⟨frame, balanced⟩
  have inside : s'.cur < s'.nextThread := by
    rw [frame.cur, frame.nextThread]
    exact counted.cur
  refine ⟨?_, inside, ?_⟩
  · intro v
    have cleared := count_update s.tCwd counted.cur none v
    have life := balanced v
    have total : (setCwd none s').holders v + hand.count v =
        s.holders v + hand.count v - (s.tCwd s.cur).toList.count v := by
      simp only [VfsRefs.holders, VfsRefs.setCwd, frame.tCwd, frame.nextThread, frame.cur,
        frame.bootfsVnode, frame.opens, frame.kept, count_toList]
      have absent : ((none : Option Nat) == some v).toNat = 0 := rfl
      omega
    simp only [← total, ← frame.opens] at life
    exact life
  · have devices := counted.devices
    rw [← frame.knowndevs, ← frame.kept] at devices
    exact devices

/-! ## Runs -/

theorem initial_counted : Counted initial [] [] := by
  refine ⟨?_, by decide, ?_⟩
  · intro v
    simp [Life, initial, VfsRefs.holders, count]
  · intro kd mem
    cases mem

/-- Every call, and everything between calls, leaves nothing in hand. -/
theorem exec_counted (counted : Counted s [] []) {operation : VfsRefsOp}
    (enabled : Enabled operation s) : HandsOver (exec operation) s [] fun _ => [] := by
  cases operation with
  | «open» path openflags =>
      rw [HandsOver, exec, ensures_bind]
      apply (vfsOpen_spec counted path openflags).imp
      intro v s₁ counted
      refine counted.transfer rfl rfl rfl ?_ ?_ counted.cur counted.devices
      · intro w
        simp only [VfsRefs.holders, recordOpen, List.count_cons, count_nil, append_nil]
        omega
      · intro w
        simp only [recordOpen, List.count_cons, count_nil]
        omega
  | close v =>
      have taken : Counted (forgetOpen v s) [v] [v] := by
        have erased : ∀ w, (s.opens.erase v).count w + [v].count w = s.opens.count w := by
          intro w
          rw [← count_append]
          exact (List.perm_append_singleton v _).trans
            (List.perm_cons_erase enabled.2).symm |>.count_eq w
        refine counted.transfer rfl rfl rfl ?_ ?_ counted.cur counted.devices
        · intro w
          have same := erased w
          simp only [VfsRefs.holders, forgetOpen, count_nil]
          omega
        · intro w
          have same := erased w
          simp only [forgetOpen, count_nil]
          omega
      exact (vfsClose_spec taken).mono (fun _ off => off)
        (fun _ _ impossible => impossible.elim) (fun _ _ closed => closed)
  | remove path => exact (vfsRemove_spec counted path).discard
  | rename oldpath newpath => exact (vfsRename_spec counted oldpath newpath).discard
  | link oldpath newpath => exact (vfsLink_spec counted oldpath newpath).discard
  | chdir path => exact vfsChdir_spec counted path
  | setcurdir dir =>
      apply vfsSetcurdir_spec counted
      intro v mem
      cases mem
      exact Nat.add_pos_left enabled.2 _
  | clearcurdir => exact vfsClearcurdir_spec counted
  | getcwd reads => exact vfsGetcwd_spec counted reads
  | setbootfs fsname => exact vfsSetbootfs_spec counted fsname
  | clearbootfs => exact changeBootfs_spec counted
  | fork => exact threadFork_spec counted
  | exit => exact threadExit_spec counted
  | switch thread => exact ⟨counted.balanced, enabled.1, counted.devices⟩
  | keep v fs =>
      have taken := counted.addReference v fs
      have frame := (counted.balanced.addReference v fs).1
      have more : ∀ w, Function.update s.kept v (s.kept v + 1) w = s.kept w + [v].count w := by
        intro w
        by_cases same : w = v
        · simp [same]
        · simp [update_of_ne same, Ne.symm same]
      refine taken.transfer rfl rfl rfl ?_ (fun w => rfl) taken.cur ?_
      · intro w
        simp only [VfsRefs.holders, keepReference, more, frame.kept, append_nil, count_nil]
        omega
      · intro kd mem
        have kept := taken.devices kd mem
        rw [frame.kept] at kept
        simp only [keepReference, more]
        omega
  | devices knowndevs => exact ⟨counted.balanced, counted.cur, enabled⟩

theorem reachable_counted (reachable : machine.Reachable (· = initial) s) : Counted s [] [] := by
  apply Machine.Reachable.invariant (P := fun s => Counted s [] []) _ _ reachable
  · rintro _ rfl
    exact initial_counted
  · intro s operation answers _ enabled counted
    have armed : Enabled operation { s with answers } := by
      cases operation <;> exact enabled
    exact (exec_counted (counted.answers answers).2 armed).mono (fun _ _ => trivial)
      (fun _ _ failed => failed) (fun _ _ returned => returned)

/-- In every state that can be reached the counts of each vnode are those of its holders, it is
in memory exactly as long as it has one, it was reclaimed once each time it lost the last, and
no call fails an assertion on the counts or uses a vnode that is gone. -/
theorem vnode_references_conserved {s : VfsRefs} (reachable : machine.Reachable (· = initial) s) :
    (∀ v vnode, s.vnodes v = some vnode →
      vnode.vnRefcount = s.holders v ∧ vnode.vnOpencount = s.opens.count v) ∧
    (∀ v, (s.vnodes v).isSome ↔ 0 < s.holders v) ∧
    (∀ v, s.loads v = s.reclaims v + if 0 < s.holders v then 1 else 0) ∧
    ∀ operation, Enabled operation s → ∀ answers reason,
      exec operation { s with answers } = .error reason → reason ∉ countPanics := by
  have counted := reachable_counted reachable
  have life : ∀ v, Life (s.vnodes v) (s.loads v) (s.reclaims v) (s.holders v)
      (s.opens.count v) := counted.balanced
  refine ⟨?_, ?_, ?_, ?_⟩
  · intro v vnode present
    have counts := life v
    simp only [Life, present] at counts
    exact ⟨counts.2.1, counts.2.2.1⟩
  · intro v
    have counts := life v
    cases present : s.vnodes v with
    | none =>
        simp only [Life, present] at counts
        simp [counts.2.1]
    | some vnode =>
        simp only [Life, present] at counts
        simp [counts.2.2.2.1]
  · intro v
    have counts := life v
    cases present : s.vnodes v with
    | none =>
        simp only [Life, present] at counts
        simp [counts.2]
    | some vnode =>
        simp only [Life, present] at counts
        simp [counts.2.2.2]
  · intro operation enabled answers reason halted
    have armed : Enabled operation { s with answers } := by
      cases operation <;> exact enabled
    have ensures := exec_counted (counted.answers answers).2 armed
    exact (ensures_of_halt_eq halted).mp ensures

instance (operation : VfsRefsOp) (s : VfsRefs) : Decidable (machine.Enabled operation s) :=
  match operation with
  | .close v => inferInstanceAs (Decidable (s.alive s.cur = true ∧ v ∈ s.opens))
  | .setcurdir dir => inferInstanceAs (Decidable (s.alive s.cur = true ∧ 0 < s.holders dir))
  | .switch thread => inferInstanceAs (Decidable (thread < s.nextThread ∧ s.alive thread = true))
  | .devices knowndevs => inferInstanceAs (Decidable (∀ kd ∈ knowndevs, 0 < s.kept kd.kdVnode))
  | .keep _ _ => inferInstanceAs (Decidable True)
  | .open _ _ | .remove _ | .rename _ _ | .link _ _ | .chdir _ | .clearcurdir | .getcwd _
  | .setbootfs _ | .clearbootfs | .fork | .exit =>
      inferInstanceAs (Decidable (s.alive s.cur = true))

/-- The vnode `v` of the file system 5, which has the root 1, and it is a directory. -/
def gives (v : Nat) : Nat → VfsAnswer :=
  fun _ => ⟨none, v, some 5, fun fs => some (if fs = 5 then 1 else 0), true, none⟩

def emu0 : VfsName := ['e', 'm', 'u', '0']

/-- A thread goes to the root of a file system, opens a file there twice and closes it once, and
forks. -/
def session : List (VfsRefsOp × (Nat → VfsAnswer)) :=
  [(.keep 1 (some 5), gives 1), (.keep 9 none, gives 1),
    (.devices [⟨emu0, none, none, 9, some ⟨5, none⟩⟩], gives 1), (.setbootfs emu0, gives 1),
    (.open ['f'] 0, gives 2), (.open ['f'] 1, gives 2), (.fork, gives 2), (.close 2, gives 2)]

theorem vnode_references_conserved_session :
    ∃ s, machine.Reachable (· = initial) s ∧ s.holders 1 = 4 ∧ s.holders 2 = 1 ∧
      (s.vnodes 1).isSome ∧ s.loads 2 = s.reclaims 2 + 1 := by
  have ends : (machine.execute initial session).any
      (fun s => s.holders 1 == 4 && s.holders 2 == 1) = true := by
    decide +kernel
  rcases (any_eq_true _ _).mp ends with ⟨s, executed, counts⟩
  simp only [Bool.and_eq_true, beq_iff_eq] at counts
  have reachable : machine.Reachable (· = initial) s :=
    Machine.Reachable.execute (Machine.Reachable.start rfl) executed
  rcases vnode_references_conserved reachable with ⟨_, present, lives, _⟩
  refine ⟨s, reachable, counts.1, counts.2, (present 1).mpr (by omega), ?_⟩
  have life := lives 2
  rwa [if_pos (by omega)] at life

end VfsRefs

end Os161
