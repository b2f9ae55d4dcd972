import Os161.Lib.Ownership
import Os161.Vfs.Devices

/-!
# Vnode references in the VFS layer

`vfspath.c`, `vfslookup.c` and `vfscwd.c` over the counts of `vnode.c`, with the part of
`thread_fork` and `thread_exit` that deals with `t_cwd`. The operations of the file systems
are left open: whatever they answer, a call that hands back a vnode adds one reference to it,
and loads it if it was not in memory, and a call that fails adds none. `VOP_RECLAIM` succeeds,
and then the vnode is gone.

A pointer is `none` for `NULL`. Besides what the kernel has, the state records who holds
references for longer than a call (`opens`, `kept`), and how often each vnode was loaded and
reclaimed.
-/

namespace Os161

/-- `struct vnode`. -/
structure VfsVnode where
  vnRefcount : Nat
  vnOpencount : Nat
  vnFs : Option Nat
  deriving DecidableEq

/-- What an operation of a file system, or an allocation, answers. `roots` are the roots of the
file systems, for the one that is asked. -/
structure VfsAnswer where
  result : Option Errno
  vnode : Nat
  vnFs : Option Nat
  roots : Nat → Option Nat
  isDir : Bool
  volname : Option VfsName

structure VfsRefs where
  vnodes : Nat → Option VfsVnode
  tCwd : Nat → Option Nat
  nextThread : Nat
  cur : Nat
  alive : Nat → Bool
  bootfsVnode : Option Nat
  knowndevs : List Knowndev
  answers : Nat → VfsAnswer
  /-- The vnodes of the opens that were not closed yet. -/
  opens : List Nat
  /-- How many references the device table and the file systems keep for good. -/
  kept : Nat → Nat
  loads : Nat → Nat
  reclaims : Nat → Nat

abbrev VfsRefsM := Prog Panic VfsRefs Errno

namespace VfsRefs

/-! ## Counts -/

def setVnode (v : Nat) (vnode : VfsVnode) (s : VfsRefs) : VfsRefs :=
  { s with vnodes := Function.update s.vnodes v (some vnode) }

def deref : Option Nat → VfsRefsM (Nat × VfsVnode)
  | none => halt .vnodeNull
  | some v => do
      let s ← get
      match s.vnodes v with
      | none => halt .vnodePointer
      | some vnode => pure (v, vnode)

/-- `vnode_check`. -/
def vnodeCheck (vn : Option Nat) : VfsRefsM (Nat × VfsVnode) := do
  let (v, vnode) ← deref vn
  assert .vnodeCheck (vnode.vnRefcount ≠ 0)
  pure (v, vnode)

/-- `vnode_incref`. -/
def vnodeIncref (vn : Option Nat) : VfsRefsM Unit := do
  let (v, vnode) ← vnodeCheck vn
  modify (setVnode v { vnode with vnRefcount := vnode.vnRefcount + 1 })

/-- `VOP_RECLAIM` and `vnode_kill`. -/
def vopReclaim (v : Nat) (vnode : VfsVnode) : VfsRefsM Unit := do
  assert .vnodeKillRefcount (vnode.vnRefcount = 1)
  assert .vnodeKillOpencount (vnode.vnOpencount = 0)
  modify fun s => { s with
    vnodes := Function.update s.vnodes v none
    reclaims := Function.update s.reclaims v (s.reclaims v + 1) }

/-- `vnode_decref`. -/
def vnodeDecref (vn : Option Nat) : VfsRefsM Unit := do
  let (v, vnode) ← vnodeCheck vn
  assert .vnodeRefcount (0 < vnode.vnRefcount)
  if 1 < vnode.vnRefcount then
    modify (setVnode v { vnode with vnRefcount := vnode.vnRefcount - 1 })
  else
    vopReclaim v vnode

/-- `vnode_incopen`. -/
def vnodeIncopen (vn : Option Nat) : VfsRefsM Unit := do
  let (v, vnode) ← vnodeCheck vn
  modify (setVnode v { vnode with vnOpencount := vnode.vnOpencount + 1 })

def answer : VfsRefsM VfsAnswer :=
  fun s => .ok (.ok (s.answers 0), { s with answers := fun i => s.answers (i + 1) })

/-- `vnode_decopen`; what `VOP_CLOSE` answers is only printed. -/
def vnodeDecopen (vn : Option Nat) : VfsRefsM Unit := do
  let (v, vnode) ← vnodeCheck vn
  assert .vnodeOpencount (0 < vnode.vnOpencount)
  modify (setVnode v { vnode with vnOpencount := vnode.vnOpencount - 1 })
  if vnode.vnOpencount - 1 = 0 then do
    let _ ← vnodeCheck vn
    let _ ← answer
    pure ()
  else
    pure ()

/-- `if (vn != NULL) VOP_INCREF(vn)`. -/
def increfUnlessNull (vn : Option Nat) : VfsRefsM Unit :=
  if vn.isSome then vnodeIncref vn else pure ()

/-- `if (vn != NULL) VOP_DECREF(vn)`. -/
def decrefUnlessNull (vn : Option Nat) : VfsRefsM Unit :=
  if vn.isSome then vnodeDecref vn else pure ()

/-- `result = ..; VOP_DECREF(vn); return result`. -/
def thenDecref {α : Type} (vn : Option Nat) (program : VfsRefsM α) : VfsRefsM α := do
  let result ← attempt program
  vnodeDecref vn
  ofExcept result

/-! ## The file systems -/

/-- An answer that may be an error. -/
def answerOrFail : VfsRefsM VfsAnswer := do
  let given ← answer
  match given.result with
  | some failure => fail failure
  | none => pure given

/-- An operation of the vnode that hands back no other one. -/
def vop (vn : Option Nat) : VfsRefsM VfsAnswer := do
  let _ ← vnodeCheck vn
  answerOrFail

/-- The vnode gets one more reference, and is loaded first if it is not in memory. -/
def addReference (v : Nat) (fs : Option Nat) (s : VfsRefs) : VfsRefs :=
  match s.vnodes v with
  | some vnode => setVnode v { vnode with vnRefcount := vnode.vnRefcount + 1 } s
  | none => { setVnode v ⟨1, 0, fs⟩ s with loads := Function.update s.loads v (s.loads v + 1) }

def handBack (v : Nat) (fs : Option Nat) : VfsRefsM (Option Nat) := do
  modify (addReference v fs)
  pure (some v)

/-- An operation of the vnode that hands back one: `VOP_LOOKUP`, `VOP_LOOKPARENT`, `VOP_CREAT`. -/
def vopVnode (vn : Option Nat) : VfsRefsM (Option Nat) := do
  let given ← vop vn
  handBack given.vnode given.vnFs

/-- `FSOP_GETROOT`, which has no other way to fail than to hand back `NULL`. -/
def fsopGetroot (fs : Nat) : VfsRefsM (Option Nat) := do
  let given ← answer
  match given.roots fs with
  | none => pure none
  | some root => handBack root (some fs)

/-- `vn->vn_fs`. -/
def vnFs (vn : Option Nat) : VfsRefsM (Option Nat) := do
  let (_, vnode) ← deref vn
  pure vnode.vnFs

/-! ## Paths -/

/-- `vfs_getcurdir`. -/
def vfsGetcurdir : VfsRefsM (Option Nat) := do
  let s ← get
  match s.tCwd s.cur with
  | none => fail .enoent
  | some v => do
      vnodeIncref (some v)
      pure (some v)

/-- `vfs_getroot`. -/
def vfsGetroot (devname : VfsName) : VfsRefsM (Option Nat) := do
  let s ← get
  match ← VfsList.vfsGetroot devname s.knowndevs with
  | .fs fs => fsopGetroot fs.id
  | .device vnode => do
      vnodeIncref (some vnode)
      pure (some vnode)

/-- `getdevice` for a path that starts with a slash. -/
def getBootfs : VfsRefsM (Option Nat) := do
  let s ← get
  match s.bootfsVnode with
  | none => fail .enoent
  | some v => do
      vnodeIncref (some v)
      pure (some v)

/-- `getdevice` for a path that starts with a colon. -/
def getCurrentRoot : VfsRefsM (Option Nat) := do
  let vn ← vfsGetcurdir
  match ← vnFs vn with
  | none => halt .curdirFs
  | some fs => do
      let startvn ← fsopGetroot fs
      vnodeDecref vn
      pure startvn

def skipSlashes (path : VfsName) : VfsName :=
  path.dropWhile (· == '/')

/-- `getdevice`: the rest of the path, and where it starts. -/
def getdevice (path : VfsName) : VfsRefsM (VfsName × Option Nat) :=
  match path.span fun c => c ≠ ':' ∧ c ≠ '/' with
  | ([], '/' :: rest) => do
      let startvn ← getBootfs
      pure (skipSlashes rest, startvn)
  | ([], ':' :: rest) => do
      let startvn ← getCurrentRoot
      pure (skipSlashes rest, startvn)
  | (devname, ':' :: rest) => do
      let startvn ← vfsGetroot devname
      pure (skipSlashes rest, startvn)
  | _ => do
      let startvn ← vfsGetcurdir
      pure (path, startvn)

/-- `vfs_lookparent`. -/
def vfsLookparent (path : VfsName) : VfsRefsM (Option Nat) := do
  let (subpath, startvn) ← getdevice path
  thenDecref startvn (if subpath = [] then fail .einval else vopVnode startvn)

/-- `vfs_lookup`. -/
def vfsLookup (path : VfsName) : VfsRefsM (Option Nat) := do
  let (subpath, startvn) ← getdevice path
  if subpath = [] then
    pure startvn
  else
    thenDecref startvn (vopVnode startvn)

/-! ## The calls -/

/-- `openflags & O_ACCMODE`. -/
def accmode (openflags : Nat) : Nat :=
  openflags % 4

/-- The vnode that `vfs_open` opens. -/
def openVnode (path : VfsName) (openflags : Nat) : VfsRefsM (Option Nat) :=
  if openflags / 4 % 2 = 1 then do
    let dir ← vfsLookparent path
    thenDecref dir (vopVnode dir)
  else
    vfsLookup path

/-- The end of `vfs_open`, for `O_TRUNC`. -/
def openTruncate (vn : Option Nat) (openflags : Nat) : VfsRefsM Unit := do
  match ← attempt (if accmode openflags = 0 then fail .einval else vop vn) with
  | .ok _ => pure ()
  | .error failure => do
      vnodeDecopen vn
      vnodeDecref vn
      fail failure

/-- `vfs_open`. -/
def vfsOpen (path : VfsName) (openflags : Nat) : VfsRefsM Nat := do
  if accmode openflags = 3 then
    fail .einval
  else
    match ← openVnode path openflags with
    | none => halt .vfsOpenVnode
    | some v =>
        match ← attempt (vop (some v)) with
        | .error failure => do
            vnodeDecref (some v)
            fail failure
        | .ok _ => do
            vnodeIncopen (some v)
            if openflags / 16 % 2 = 1 then do
              openTruncate (some v) openflags
              pure v
            else
              pure v

/-- `vfs_close`. -/
def vfsClose (v : Nat) : VfsRefsM Unit := do
  vnodeDecopen (some v)
  vnodeDecref (some v)

/-- `vfs_remove`. -/
def vfsRemove (path : VfsName) : VfsRefsM VfsAnswer := do
  let dir ← vfsLookparent path
  thenDecref dir (vop dir)

/-- The test for `EXDEV`, and the operation of the first vnode if it passes. -/
def sameFs (vn vn' target : Option Nat) : VfsRefsM VfsAnswer := do
  let fs ← vnFs vn
  let fs' ← vnFs vn'
  if fs = none ∨ fs' = none ∨ fs ≠ fs' then
    fail .exdev
  else
    vop target

/-- `vfs_rename`. -/
def vfsRename (oldpath newpath : VfsName) : VfsRefsM VfsAnswer := do
  let olddir ← vfsLookparent oldpath
  thenDecref olddir do
    let newdir ← vfsLookparent newpath
    thenDecref newdir (sameFs olddir newdir olddir)

/-- `vfs_link`. -/
def vfsLink (oldpath newpath : VfsName) : VfsRefsM VfsAnswer := do
  let oldfile ← vfsLookup oldpath
  thenDecref oldfile do
    let newdir ← vfsLookparent newpath
    thenDecref newdir (sameFs oldfile newdir newdir)

def setCwd (vn : Option Nat) (s : VfsRefs) : VfsRefs :=
  { s with tCwd := Function.update s.tCwd s.cur vn }

/-- `vfs_setcurdir`. -/
def vfsSetcurdir (dir : Option Nat) : VfsRefsM Unit := do
  let given ← vop dir
  if given.isDir = false then
    fail .enotdir
  else
    vnodeIncref dir
    let s ← get
    modify (setCwd dir)
    decrefUnlessNull (s.tCwd s.cur)

/-- `vfs_clearcurdir`. -/
def vfsClearcurdir : VfsRefsM Unit := do
  let s ← get
  modify (setCwd none)
  decrefUnlessNull (s.tCwd s.cur)

/-- `vfs_chdir`. -/
def vfsChdir (path : VfsName) : VfsRefsM Unit := do
  let vn ← vfsLookup path
  thenDecref vn (vfsSetcurdir vn)

/-- `vfs_getdevname`. -/
def vfsGetdevname (fs : Nat) (knowndevs : List Knowndev) : Option VfsName :=
  (knowndevs.find? fun kd => kd.kdFs.map Fs.id = some fs).map Knowndev.kdName

/-- The texts that `vfs_getcwd` copies; `uiomove` may fail. -/
def namecwd (cwd : Option Nat) : VfsRefsM Unit := do
  let fs ← vnFs cwd
  match fs with
  | none => halt .curdirFs
  | some fs => do
      let volume ← answer
      let s ← get
      assert .getcwdName (volume.volname.or (vfsGetdevname fs s.knowndevs)).isSome
      let _ ← answerOrFail
      let _ ← answerOrFail
      let _ ← vop cwd
      pure ()

/-- `vfs_getcwd`; `reads` is whether `uio_rw` is `UIO_READ`. -/
def vfsGetcwd (reads : Bool) : VfsRefsM Unit := do
  assert .getcwdRw (reads = true)
  let cwd ← vfsGetcurdir
  thenDecref cwd (namecwd cwd)

/-- `change_bootfs`. -/
def changeBootfs (newguy : Option Nat) : VfsRefsM Unit := do
  let s ← get
  modify fun s => { s with bootfsVnode := newguy }
  decrefUnlessNull s.bootfsVnode

/-- `vfs_setbootfs`; a colon is never at the end of `strchr(tmp, ':')`. -/
def vfsSetbootfs (fsname : VfsName) : VfsRefsM Unit :=
  let tmp := fsname.take 254
  if ':' ∈ tmp then
    fail .einval
  else do
    vfsChdir (tmp ++ [':'])
    let newguy ← vfsGetcurdir
    changeBootfs newguy

/-- `vfs_clearbootfs`. -/
def vfsClearbootfs : VfsRefsM Unit :=
  changeBootfs none

def addThread (cwd : Option Nat) (s : VfsRefs) : VfsRefs :=
  { s with
    tCwd := Function.update s.tCwd s.nextThread cwd
    alive := Function.update s.alive s.nextThread true
    nextThread := s.nextThread + 1 }

/-- `thread_fork`, as far as `t_cwd` goes; it may fail before the new thread gets the
directory, and after that. -/
def threadFork : VfsRefsM Unit := do
  let _ ← answerOrFail
  let s ← get
  let cwd := s.tCwd s.cur
  increfUnlessNull cwd
  match ← attempt answerOrFail with
  | .ok _ => modify (addThread cwd)
  | .error failure => do
      decrefUnlessNull cwd
      fail failure

/-- `thread_exit`, as far as `t_cwd` goes. -/
def threadExit : VfsRefsM Unit := do
  let s ← get
  decrefUnlessNull (s.tCwd s.cur)
  modify (setCwd none)
  modify fun s => { s with alive := Function.update s.alive s.cur false }

end VfsRefs

/-- The calls, and what happens around them. -/
inductive VfsRefsOp where
  | open (path : VfsName) (openflags : Nat)
  | close (v : Nat)
  | remove (path : VfsName)
  | rename (oldpath newpath : VfsName)
  | link (oldpath newpath : VfsName)
  | chdir (path : VfsName)
  | setcurdir (dir : Nat)
  | clearcurdir
  | getcwd (reads : Bool)
  | setbootfs (fsname : VfsName)
  | clearbootfs
  | fork
  | exit
  | switch (thread : Nat)
  | keep (v : Nat) (fs : Option Nat)
  | devices (knowndevs : List Knowndev)

namespace VfsRefs

def recordOpen (v : Nat) (s : VfsRefs) : VfsRefs :=
  { s with opens := v :: s.opens }

def forgetOpen (v : Nat) (s : VfsRefs) : VfsRefs :=
  { s with opens := s.opens.erase v }

/-- A device or a file system keeps a reference for good. -/
def keepReference (v : Nat) (fs : Option Nat) (s : VfsRefs) : VfsRefs :=
  { addReference v fs s with kept := Function.update s.kept v (s.kept v + 1) }

/-- A call for its effect. -/
def discard {α : Type} (program : VfsRefsM α) : VfsRefsM Unit := do
  let _ ← program
  pure ()

def exec : VfsRefsOp → VfsRefsM Unit
  | .open path openflags => do
      let v ← vfsOpen path openflags
      modify (recordOpen v)
  | .close v => do
      modify (forgetOpen v)
      vfsClose v
  | .remove path => discard (vfsRemove path)
  | .rename oldpath newpath => discard (vfsRename oldpath newpath)
  | .link oldpath newpath => discard (vfsLink oldpath newpath)
  | .chdir path => vfsChdir path
  | .setcurdir dir => vfsSetcurdir (some dir)
  | .clearcurdir => vfsClearcurdir
  | .getcwd reads => vfsGetcwd reads
  | .setbootfs fsname => vfsSetbootfs fsname
  | .clearbootfs => vfsClearbootfs
  | .fork => threadFork
  | .exit => threadExit
  | .switch thread => modify fun s => { s with cur := thread }
  | .keep v fs => modify (keepReference v fs)
  | .devices knowndevs => modify fun s => { s with knowndevs }

/-- How many references to the vnode are held from one call to the next. -/
def holders (s : VfsRefs) (v : Nat) : Nat :=
  Ownership.count s.tCwd s.nextThread v + (s.bootfsVnode == some v).toNat + s.opens.count v +
    s.kept v

/-- Every open is closed once, the caller of `vfs_setcurdir` has a vnode, the threads that run
have not exited, and the device table holds the vnodes of its devices. -/
def Enabled : VfsRefsOp → VfsRefs → Prop
  | .close v, s => s.alive s.cur ∧ v ∈ s.opens
  | .setcurdir dir, s => s.alive s.cur ∧ 0 < s.holders dir
  | .switch thread, s => thread < s.nextThread ∧ s.alive thread
  | .devices knowndevs, s => ∀ kd ∈ knowndevs, 0 < s.kept kd.kdVnode
  | .keep _ _, _ => True
  | _, s => s.alive s.cur

/-- One thread, and no vnode in memory. -/
def initial : VfsRefs where
  vnodes := fun _ => none
  tCwd := fun _ => none
  nextThread := 1
  cur := 0
  alive := fun thread => thread == 0
  bootfsVnode := none
  knowndevs := []
  answers := fun _ => ⟨none, 0, none, fun _ => none, false, none⟩
  opens := []
  kept := fun _ => 0
  loads := fun _ => 0
  reclaims := fun _ => 0

/-- Any sequence of calls of any threads, whatever the file systems answer. -/
def machine : Machine Panic VfsRefs Errno VfsRefsOp (Nat → VfsAnswer) where
  exec := exec
  Enabled := Enabled
  arm := fun s answers => { s with answers }

end VfsRefs

end Os161
