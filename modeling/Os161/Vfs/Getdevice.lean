import Mathlib.Data.List.TakeDrop
import Os161.Vfs.Frame
import Os161.Vm.Direct

/-!
# The beginning of a path

`getdevice` looks for the first colon or slash of a path, which is a text in memory, and
ends the text at a colon that has a device name before it. What it makes of the path is
said by a grammar (`Parses`): where the lookup begins, and what is left to look up.

The scanner runs the function for the place that the grammar gives, and leaves a pointer
to the rest that the grammar gives. So it is what `VfsRefs.getdevice` is for texts, and
all that is known of that function is true of it.
-/

namespace Os161.VfsPath

open Text VfsRefs

/-- The characters that end a device name. -/
def IsMark (c : Char) : Prop :=
  c = ':' ∨ c = '/'

/-- The places where a lookup begins. -/
inductive Origin where
  | currentDir
  | device (devname : VfsName)
  | bootFs
  | currentFs

/-- The grammar of paths: the origin, and the path from there. -/
inductive Parses : VfsName → Origin → VfsName → Prop where
  | bare {path} (plain : ∀ c ∈ path, ¬IsMark c) : Parses path .currentDir path
  | relative {before rest} (plain : ∀ c ∈ before, ¬IsMark c) (nonempty : before ≠ []) :
      Parses (before ++ '/' :: rest) .currentDir (before ++ '/' :: rest)
  | device {before rest} (plain : ∀ c ∈ before, ¬IsMark c) (nonempty : before ≠ []) :
      Parses (before ++ ':' :: rest) (.device before) (skipSlashes rest)
  | absolute {rest} : Parses ('/' :: rest) .bootFs (skipSlashes rest)
  | current {rest} : Parses (':' :: rest) .currentFs (skipSlashes rest)

/-- How a reference to the vnode at the origin is got. -/
def Origin.start : Origin → VfsRefsM (Option Nat)
  | .currentDir => vfsGetcurdir
  | .device devname => vfsGetroot devname
  | .bootFs => getBootfs
  | .currentFs => getCurrentRoot

def Origin.vnode (s : VfsRefs) : Origin → Option Nat
  | .currentDir => s.tCwd s.cur
  | .device devname => (Prog.returned (vfsGetroot devname) s).bind Prod.fst
  | .bootFs => s.bootfsVnode
  | .currentFs => do
      let v ← s.tCwd s.cur
      let vnode ← s.vnodes v
      let fs ← vnode.vnFs
      (s.answers 0).roots fs

/-! ## The scanner -/

variable {φ α : Type}

/-- Code of the file systems, which does not see the memory of a path. -/
def onFs (program : Prog Panic φ Errno α) : DirectM φ α :=
  zoom Prod.fst (fun fs state => (fs, state.2)) program

/-- `while (path[1]=='/') path++`; the pointer behind that. -/
def skip (reach : Nat → Bool) (path : Nat) : DirectM φ Nat := do
  let slashes ← scanFrom reach (· ≠ '/') (path + 1)
  pure (path + 1 + slashes.length)

/-- `getdevice`: the pointer to the rest of the path, and what `start` gives for its origin. -/
def getdevice (start : Origin → Prog Panic φ Errno α) (reach : Nat → Bool) (path : Nat) :
    DirectM φ (Nat × α) := do
  let before ← scanFrom reach (fun c => c = nul ∨ c = ':' ∨ c = '/') path
  let state ← get
  let i := before.length
  let mark := state.2.charAt (path + i)
  let colon : Int := if mark = ':' then i else -1
  let slash : Int := if mark = '/' then i else -1
  if colon < 0 ∧ slash ≠ 0 then
    let startvn ← onFs (start .currentDir)
    pure (path, startvn)
  else if 0 < colon then
    modify fun state => (state.1, state.2.clear (path + i))
    let subpath ← skip reach (path + i)
    let devname ← stringAt reach path
    let startvn ← onFs (start (.device devname))
    pure (subpath, startvn)
  else
    assert .getdeviceStart (colon = 0 ∨ slash = 0)
    if state.2.charAt path = '/' then
      let startvn ← onFs (start .bootFs)
      let subpath ← skip reach path
      pure (subpath, startvn)
    else
      assert .getdeviceColon (state.2.charAt path = ':')
      let startvn ← onFs (start .currentFs)
      let subpath ← skip reach path
      pure (subpath, startvn)

variable {mem : Memory} {reach : Nat → Bool} {path : Nat} {text before rest : VfsName}
  {origin : Origin} {s : VfsRefs}

/-- Every path has a place in the grammar. -/
theorem exists_parses (text : VfsName) : ∃ origin rest, Parses text origin rest := by
  induction text with
  | nil => exact ⟨_, _, .bare (by simp)⟩
  | cons c text ih =>
      by_cases mark : IsMark c
      · rcases mark with rfl | rfl
        · exact ⟨_, _, .current⟩
        · exact ⟨_, _, .absolute⟩
      · have single : ∀ d ∈ [c], ¬IsMark d := by simp [mark]
        obtain ⟨_, _, parses⟩ := ih
        cases parses with
        | bare plain => exact ⟨_, _, .bare (forall_mem_cons.mpr ⟨mark, plain⟩)⟩
        | relative plain =>
            exact ⟨_, _, .relative (forall_mem_cons.mpr ⟨mark, plain⟩) (by simp)⟩
        | device plain =>
            exact ⟨_, _, .device (forall_mem_cons.mpr ⟨mark, plain⟩) (by simp)⟩
        | absolute => exact ⟨_, _, .relative single (by simp)⟩
        | current => exact ⟨_, _, .device single (by simp)⟩

section Scanner

variable {start : Origin → Prog Panic φ Errno α} {fs : φ} {panics : Panic → Prop}
  {fails : Errno → φ × Memory → Prop} {returns : Nat × α → φ × Memory → Prop}

theorem skip_eq (isText : mem.IsText reach (path + 1) rest) (fs : φ) :
    ∃ subpath, mem.IsText reach subpath (skipSlashes rest) ∧
      skip reach path (fs, mem) = .ok (.ok subpath, (fs, mem)) := by
  have split : mem.IsText reach (path + 1) (rest.takeWhile (· == '/') ++ skipSlashes rest) := by
    rwa [skipSlashes, List.takeWhile_append_dropWhile]
  have stops : decide ((skipSlashes rest).headD nul ≠ '/') = true := by
    cases behind : skipSlashes rest with
    | nil => decide
    | cons c _ =>
        have head := List.head?_dropWhile_not (· == '/') rest
        rw [show rest.dropWhile (· == '/') = _ from behind] at head
        simpa using head
  refine ⟨_, split.suffix, ?_⟩
  rw [skip, bind_of_ok (scanFrom_eq split (fun c member => ?_) stops fs)]
  · rfl
  · simpa using List.mem_takeWhile_imp member

theorem locate_eq (isText : mem.IsText reach path (before ++ rest))
    (plain : ∀ c ∈ before, ¬IsMark c) (stops : ∀ c ∈ rest.head?, IsMark c) (fs : φ) :
    scanFrom reach (fun c => c = nul ∨ c = ':' ∨ c = '/') path (fs, mem) =
        .ok (.ok before, (fs, mem)) ∧
      mem.charAt (path + before.length) = rest.headD nul := by
  refine ⟨scanFrom_eq isText (fun c member => ?_) ?_ fs, isText.suffix.first.2.2⟩
  · have notNul := isText.ne_nul (List.mem_append_left rest member)
    simpa [notNul, IsMark] using plain c member
  · cases rest with
    | nil => rfl
    | cons c _ => exact decide_eq_true (Or.inr (stops c rfl))

/-- What `getdevice` does: it gets the vnode that the grammar says, and points to the rest. -/
theorem ensures_getdevice (isText : mem.IsText reach path text) (parses : Parses text origin rest)
    (started : Ensures (start origin) fs panics
      (fun failure fs' => ∀ mem', fails failure (fs', mem'))
      (fun vn fs' => ∀ mem' subpath, mem'.IsText reach subpath rest →
        returns (subpath, vn) (fs', mem'))) :
    Ensures (getdevice start reach path) (fs, mem) panics fails returns := by
  cases parses with
  | bare plain =>
      have whole : mem.IsText reach path (text ++ []) := by rwa [append_nil]
      obtain ⟨located, mark⟩ := locate_eq whole plain (by simp) fs
      rw [getdevice, ensures_bind, ensures_of_ok_eq located, ensures_bind, ensures_get]
      dsimp only
      rw [mark, if_pos (by simp [nul]), ensures_bind, onFs, ensures_zoom]
      exact started.mono (fun _ halted => halted) (fun _ _ failed => failed mem)
        (fun _ _ found => found mem path isText)
  | @relative before rest plain nonempty =>
      obtain ⟨located, mark⟩ := locate_eq isText plain (by simp [IsMark]) fs
      rw [getdevice, ensures_bind, ensures_of_ok_eq located, ensures_bind, ensures_get]
      dsimp only
      rw [mark, if_pos (by simp [nonempty]), ensures_bind, onFs, ensures_zoom]
      exact started.mono (fun _ halted => halted) (fun _ _ failed => failed mem)
        (fun _ _ found => found mem path isText)
  | @device before rest plain nonempty =>
      have positive : 0 < before.length := List.length_pos_of_ne_nil nonempty
      obtain ⟨located, mark⟩ := locate_eq isText plain (by simp [IsMark]) fs
      have behind : mem.IsText reach (path + before.length + 1) rest := isText.suffix.2
      obtain ⟨subpath, isRest, skipped⟩ := skip_eq (behind.clear (Nat.lt_succ_self _)) fs
      rw [getdevice, ensures_bind, ensures_of_ok_eq located, ensures_bind, ensures_get]
      dsimp only
      rw [mark, if_neg (by simp), if_pos (by simpa using positive), ensures_bind, ensures_modify,
        ensures_bind, ensures_of_ok_eq skipped, ensures_bind,
        ensures_of_ok_eq (stringAt_eq isText.cut fs), ensures_bind, onFs, ensures_zoom]
      exact started.mono (fun _ halted => halted) (fun _ _ failed => failed _)
        (fun _ _ found => found _ subpath isRest)
  | @absolute rest =>
      have split : mem.IsText reach path ([] ++ '/' :: rest) := isText
      obtain ⟨located, mark⟩ := locate_eq split (by simp) (by simp [IsMark]) fs
      have slash : mem.charAt path = '/' := isText.first.2.2
      rw [getdevice, ensures_bind, ensures_of_ok_eq located, ensures_bind, ensures_get]
      dsimp only
      rw [mark, if_neg (by simp), if_neg (by simp), ensures_bind, ensures_assert_of (by simp),
        if_pos slash, ensures_bind, onFs, ensures_zoom]
      apply started.mono (fun _ halted => halted) (fun _ _ failed => failed mem)
      intro vn fs' found
      obtain ⟨subpath, isRest, skipped⟩ := skip_eq isText.2 fs'
      rw [ensures_bind, ensures_of_ok_eq skipped]
      exact found mem subpath isRest
  | @current rest =>
      have split : mem.IsText reach path ([] ++ ':' :: rest) := isText
      obtain ⟨located, mark⟩ := locate_eq split (by simp) (by simp [IsMark]) fs
      have colon : mem.charAt path = ':' := isText.first.2.2
      rw [getdevice, ensures_bind, ensures_of_ok_eq located, ensures_bind, ensures_get]
      dsimp only
      rw [mark, if_neg (by simp), if_neg (by simp), ensures_bind, ensures_assert_of (by simp),
        if_neg (by simp [colon]), ensures_bind, ensures_assert_of colon, ensures_bind, onFs,
        ensures_zoom]
      apply started.mono (fun _ halted => halted) (fun _ _ failed => failed mem)
      intro vn fs' found
      obtain ⟨subpath, isRest, skipped⟩ := skip_eq isText.2 fs'
      rw [ensures_bind, ensures_of_ok_eq skipped]
      exact found mem subpath isRest

end Scanner

/-- The function on texts that the rest of the VFS layer is modelled with. -/
theorem vfsRefs_getdevice_eq (parses : Parses text origin rest) :
    VfsRefs.getdevice text = (do let startvn ← origin.start; pure (rest, startvn)) := by
  have passes : ∀ {before : VfsName}, (∀ c ∈ before, ¬IsMark c) →
      ∀ c ∈ before, decide (c ≠ ':' ∧ c ≠ '/') = true := by
    intro before plain c member
    simpa [IsMark] using plain c member
  have span_eq : ∀ {before : VfsName} {c : Char} {rest : VfsName}, (∀ c ∈ before, ¬IsMark c) →
      IsMark c → ((before ++ c :: rest).span fun c => c ≠ ':' ∧ c ≠ '/') = (before, c :: rest) := by
    intro before c rest plain mark
    have stop : decide (c ≠ ':' ∧ c ≠ '/') = false := by
      simpa [IsMark, imp_iff_not_or] using mark
    rw [List.span_eq_takeWhile_dropWhile, List.takeWhile_append_of_pos (passes plain),
      List.dropWhile_append_of_pos (passes plain), List.takeWhile_cons_of_neg (by simp [stop]),
      List.dropWhile_cons_of_neg (by simp [stop]), append_nil]
  cases parses with
  | bare plain =>
      rw [VfsRefs.getdevice, List.span_eq_takeWhile_dropWhile,
        List.dropWhile_eq_nil_iff.mpr (passes plain)]
      cases text.takeWhile _ <;> rfl
  | relative plain nonempty =>
      rw [VfsRefs.getdevice, span_eq plain (Or.inr rfl)]
      rename_i before rest
      cases before with
      | nil => exact absurd rfl nonempty
      | cons => rfl
  | device plain nonempty =>
      rw [VfsRefs.getdevice, span_eq plain (Or.inl rfl)]
      rename_i before rest
      cases before with
      | nil => exact absurd rfl nonempty
      | cons => rfl
  | absolute => rfl
  | current => rfl

/-! ## References -/

/-- The assertions on the way to a vnode hold: the current directory is not a device, file
systems have a root, and devices that are named have a device structure. -/
structure Orderly (s : VfsRefs) : Prop where
  curdir : ∀ v vnode, s.tCwd s.cur = some v → s.vnodes v = some vnode → vnode.vnFs.isSome
  roots : ∀ fs, ((s.answers 0).roots fs).isSome
  devices : ∀ kd ∈ s.knowndevs, kd.kdFs = none ∨ kd.kdRawname.isSome → kd.kdDevice.isSome

theorem increfHeld_eq {hand : List Nat} {v : Nat} (counted : Counted s hand [])
    (held : 0 < s.holders v) : ∃ vnode, s.vnodes v = some vnode ∧
      (do VfsRefs.vnodeIncref (some v); pure (some v) : VfsRefsM _) s =
        .ok (.ok (some v), setVnode v { vnode with vnRefcount := vnode.vnRefcount + 1 } s) := by
  obtain ⟨vnode, present, refs, _⟩ := counted.balanced.some_of_pos (v := v) (by omega)
  have positive : vnode.vnRefcount ≠ 0 := by omega
  refine ⟨vnode, present, eq_ok_of_ensures ?_⟩
  simp [VfsRefs.vnodeIncref, vnodeCheck, deref, present, ensures_assert_of positive]

theorem fsopGetroot_eq {fs root : Nat} (isRoot : (s.answers 0).roots fs = some root) :
    ∃ s', fsopGetroot fs s = .ok (.ok (some root), s') := by
  refine ⟨addReference root (some fs) { s with answers := fun i => s.answers (i + 1) }, ?_⟩
  rw [fsopGetroot, bind_of_ok (show answer s = .ok (.ok (s.answers 0), _) from rfl), isRoot]
  rfl

theorem vfsGetroot_ensures (counted : Counted s [] []) (orderly : Orderly s) (devname : VfsName) :
    Ensures (vfsGetroot devname) s (fun _ => False) (fun _ _ => True)
      (fun found _ => found.isSome) := by
  rw [vfsGetroot, ensures_bind, ensures_get, ensures_bind, VfsList.vfsGetroot]
  cases found : s.knowndevs.findSome? (VfsList.rootOf devname) with
  | none => trivial
  | some answer =>
      obtain ⟨kd, mem, root⟩ := List.exists_of_findSome?_eq_some found
      have passes : Ensures answer s (fun _ => False) (fun _ _ => True) (fun _ _ => True) := by
        have device := orderly.devices kd mem
        cases mounted : kd.kdFs with
        | some fs =>
            simp only [VfsList.rootOf, mounted] at root
            split_ifs at root with named raw
            · cases root
              trivial
            · cases root
              simp [ensures_assert_of (device (Or.inr (by simp [raw])))]
        | none =>
            simp only [VfsList.rootOf, mounted] at root
            split_ifs at root with unmounted named raw
            · cases root
              trivial
            · cases root
              have rawless : kd.kdRawname.isNone := by simpa [named] using unmounted
              simp [ensures_assert_of rawless, ensures_assert_of (device (Or.inl mounted))]
            · cases root
              simp [ensures_assert_of (device (Or.inl mounted))]
      apply ((rootOf_spec root).and passes).mono (fun _ halted => halted.2) (fun _ _ _ => trivial)
      rintro rooted s' ⟨⟨rfl, device⟩, _⟩
      cases rooted with
      | fs fs =>
          obtain ⟨root, isRoot⟩ := isSome_iff_exists.mp (orderly.roots fs.id)
          obtain ⟨_, outcome⟩ := fsopGetroot_eq isRoot
          rw [ensures_of_ok_eq outcome]
          rfl
      | device vnode =>
          have kept := counted.devices kd mem
          rw [← device vnode rfl] at kept
          obtain ⟨_, _, outcome⟩ := increfHeld_eq counted (holders_pos_of_kept kept)
          rw [ensures_of_ok_eq outcome]
          rfl

theorem vnodeDecref_halts (v : Nat) (s : VfsRefs) :
    Ensures (VfsRefs.vnodeDecref (some v)) s (· ∈ countPanics) (fun _ _ => True)
      (fun _ _ => True) := by
  cases present : s.vnodes v with
  | none => simp [VfsRefs.vnodeDecref, vnodeCheck, deref, present, countPanics]
  | some vnode =>
      simp only [VfsRefs.vnodeDecref, vnodeCheck, deref, present, vopReclaim, ensures_bind,
        ensures_get, ensures_pure, ensures_assert, ensures_ite]
      simp [countPanics]

theorem getCurrentRoot_ensures {v : Nat} (counted : Counted s [] []) (orderly : Orderly s)
    (cwd : s.tCwd s.cur = some v) :
    Ensures getCurrentRoot s (fun _ => False) (fun _ _ => False)
      (fun found _ => ∃ root, found = some root ∧ Origin.currentFs.vnode s = some root) := by
  obtain ⟨vnode, present, outcome⟩ := increfHeld_eq counted (holders_pos_of_cwd counted.cur cwd)
  obtain ⟨fs, hasFs⟩ := isSome_iff_exists.mp (orderly.curdir v vnode cwd present)
  obtain ⟨root, isRoot⟩ := isSome_iff_exists.mp (orderly.roots fs)
  have origin : Origin.currentFs.vnode s = some root := by
    simp [Origin.vnode, cwd, present, hasFs, isRoot]
  generalize held : setVnode v { vnode with vnRefcount := vnode.vnRefcount + 1 } s = s₁ at outcome
  have present₁ : s₁.vnodes v = some { vnode with vnRefcount := vnode.vnRefcount + 1 } := by
    rw [← held]
    exact update_self ..
  have answers₁ : s₁.answers = s.answers := by
    rw [← held]
    rfl
  have taken : vfsGetcurdir s = .ok (.ok (some v), s₁) := by
    rw [vfsGetcurdir, get_bind_apply, cwd]
    exact outcome
  have counted₁ := vfsGetcurdir_spec counted
  rw [HandsOver, ensures_of_ok_eq taken] at counted₁
  obtain ⟨s₂, rooted⟩ := fsopGetroot_eq (s := s₁) (answers₁ ▸ isRoot)
  have counted₂ := fsopGetroot_spec counted₁ fs
  rw [ensures_of_ok_eq rooted] at counted₂
  have dropped := (counted₂.perm (List.Perm.swap v _ [])).decref.and (vnodeDecref_halts v s₂)
  rw [getCurrentRoot, ensures_bind, ensures_of_ok_eq taken]
  simp only [vnFs, deref, ensures_bind, ensures_get, present₁, ensures_pure, hasFs,
    ensures_of_ok_eq rooted]
  exact dropped.mono (fun _ halted => halted.1 halted.2) (fun _ _ failed => failed.1)
    (fun _ _ _ => ⟨root, rfl, origin⟩)

/-- The vnode at the origin is handed back, or there is none. -/
theorem Origin.start_ensures (counted : Counted s [] []) (orderly : Orderly s) (origin : Origin) :
    Ensures origin.start s (fun _ => False) (fun _ _ => origin.vnode s = none)
      (fun found _ => ∃ v, found = some v ∧ origin.vnode s = some v) := by
  cases origin with
  | currentDir =>
      rw [start, vfsGetcurdir, ensures_bind, ensures_get]
      cases cwd : s.tCwd s.cur with
      | none => exact cwd
      | some v =>
          obtain ⟨_, _, outcome⟩ := increfHeld_eq counted (holders_pos_of_cwd counted.cur cwd)
          exact (ensures_of_ok_eq outcome).mpr ⟨v, rfl, cwd⟩
  | bootFs =>
      rw [start, getBootfs, ensures_bind, ensures_get]
      cases bootfs : s.bootfsVnode with
      | none => exact bootfs
      | some v =>
          obtain ⟨_, _, outcome⟩ := increfHeld_eq counted (holders_pos_of_bootfs bootfs)
          exact (ensures_of_ok_eq outcome).mpr ⟨v, rfl, bootfs⟩
  | device devname =>
      rcases (vfsGetroot_ensures counted orderly devname).outcomes with
        ⟨_, _, impossible⟩ | ⟨_, _, outcome, _⟩ | ⟨found, _, outcome, isSome⟩
      · exact impossible.elim
      · rw [start, ensures_of_fail_eq outcome]
        simp [vnode, Prog.returned, outcome]
      · obtain ⟨v, rfl⟩ := isSome_iff_exists.mp isSome
        rw [start, ensures_of_ok_eq outcome]
        simp [vnode, Prog.returned, outcome]
  | currentFs =>
      cases cwd : s.tCwd s.cur with
      | none =>
          rw [start, getCurrentRoot, vfsGetcurdir, ensures_bind, ensures_bind, ensures_get, cwd]
          simp [vnode, cwd]
      | some v => exact (getCurrentRoot_ensures counted orderly cwd).total fun _ _ found => found

/-- **The beginning of a path.** `getdevice` follows the grammar: it fails exactly if there is
no vnode at the origin, and then no reference is held; otherwise there is one more, to this
vnode, and the text that is left is that of the grammar. -/
theorem getdevice_follows_grammar (isText : mem.IsText reach path text)
    (counted : Counted s [] []) (orderly : Orderly s) :
    (∃ origin rest, Parses text origin rest) ∧
    ∀ origin rest, Parses text origin rest →
      Prog.Ensures (getdevice Origin.start reach path) (s, mem) (fun _ => False)
        (fun _ after => origin.vnode s = none ∧ ∀ w, after.1.refcount w = s.refcount w)
        (fun found after => ∃ v, origin.vnode s = some v ∧ found.2 = some v ∧
          after.2.IsText reach found.1 rest ∧
          ∀ w, after.1.refcount w = s.refcount w + if w = v then 1 else 0) := by
  refine ⟨exists_parses text, ?_⟩
  intro origin rest parses
  have handed := getdevice_spec counted text
  have keeps := getdevice_keeps text s
  rw [HandsOver, vfsRefs_getdevice_eq parses, ensures_bind] at handed
  rw [vfsRefs_getdevice_eq parses, ensures_bind] at keeps
  apply ensures_getdevice isText parses
  apply (((origin.start_ensures counted orderly).and handed).and keeps).mono
  · exact fun _ halted => halted.1.1
  · rintro _ s' ⟨⟨missing, counted'⟩, same⟩ _
    refine ⟨missing, fun w => ?_⟩
    rw [(counted'.counts w).1, (counted.counts w).1, holders_of_keepers same]
  · rintro _ s' ⟨⟨⟨v, rfl, vnodeEq⟩, counted'⟩, same⟩ mem' subpath isRest
    refine ⟨v, vnodeEq, rfl, isRest, fun w => ?_⟩
    rw [(Counted.counts counted' w).1, (counted.counts w).1, holders_of_keepers same]
    rcases eq_or_ne w v with rfl | other
    · simp
    · simp [other, other.symm]

/-- A process with a path at the address `0x4000`. -/
def pathMemory (path : VfsName) : Memory where
  kernel _ := 0
  user a := if a / pageSize = 4 then some (UInt8.ofNat (path.getD (a - 0x4000) nul).toNat) else none
  space := some 0

/-- In the session the path `:/f` starts at the root of the file system 5. -/
theorem getdevice_follows_grammar_session :
    ∃ s, VfsRefs.machine.Reachable (· = VfsRefs.initial) s ∧
      Prog.Ensures (getdevice Origin.start ((pathMemory [':', '/', 'f']).directReach
          (fun _ => true) [] 0x4000) 0x4000) (s, pathMemory [':', '/', 'f'])
        (fun _ => False) (fun _ _ => False)
        (fun found after => found.2 = some 1 ∧ after.2.charAt found.1 = 'f') := by
  have ends : (VfsRefs.machine.execute VfsRefs.initial session).any (fun s => decide
      (s.knowndevs = [⟨emu0, none, none, 9, some ⟨5, none⟩⟩] ∧ s.tCwd s.cur = some 1 ∧
        (s.vnodes 1).map VfsVnode.vnFs = some (some 5))) = true := by
    decide +kernel
  obtain ⟨s, executed, holds⟩ := (any_eq_true _ _).mp ends
  obtain ⟨devices, cwd, hasFs⟩ := of_decide_eq_true holds
  obtain ⟨vnode, present, isFive⟩ := Option.map_eq_some_iff.mp hasFs
  have answers : (VfsRefs.machine.execute VfsRefs.initial session).map (·.answers) =
      some (gives 2) := rfl
  have given : s.answers = gives 2 := by simpa [executed] using answers
  have reachable : VfsRefs.machine.Reachable (· = VfsRefs.initial) s :=
    Machine.Reachable.execute (Machine.Reachable.start rfl) executed
  have orderly : Orderly s := by
    refine ⟨?_, by simp [given, gives], by simp [devices]⟩
    intro v vnode' isCwd present'
    cases cwd.symm.trans isCwd
    cases present.symm.trans present'
    simp [isFive]
  have start : Origin.currentFs.vnode s = some 1 := by
    simp [Origin.vnode, cwd, present, isFive, given, gives]
  have isText : (pathMemory [':', '/', 'f']).IsText ((pathMemory [':', '/', 'f']).directReach
      (fun _ => true) [] 0x4000) 0x4000 [':', '/', 'f'] := by
    simp only [Memory.IsText]
    decide +kernel
  have found := (getdevice_follows_grammar isText (reachable_counted reachable) orderly).2 _ _
    .current
  refine ⟨s, reachable, found.mono (fun _ halted => halted) ?_ ?_⟩
  · rintro _ _ ⟨missing, _⟩
    cases missing.symm.trans start
  · rintro _ _ ⟨v, vnodeEq, startEq, rest, _⟩
    cases start.symm.trans vnodeEq
    exact ⟨startEq, rest.first.2.2⟩

end Os161.VfsPath
