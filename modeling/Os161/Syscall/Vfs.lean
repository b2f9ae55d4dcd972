import Os161.Vfs.Getdevice

/-!
# The vnode layer

What the system calls use of the VFS: `vfs_open` and `vfs_close` of `vfspath.c`, the
lookup of paths of `vfslookup.c`, the console of `console.c`, and the operations of the
other vnodes, which are left open.

A path is an address, and the kernel reads and changes the text there directly.

A vnode operation that gets a `uio` is a `Transfer`: it works on the state of the
file systems and devices, may look at the offset and the count of the `uio` and set
them, and moves data with `uiomove` and in no other way. When the `uio` points into
the kernel, `uiomove` uses the addresses as they are, so that it faults at an address
that is not mapped.
-/

namespace Os161

/-- A vnode operation on a `uio`; `φ` is the state of the file systems and devices. -/
inductive Transfer (φ : Type) where
  | done (result : Except Errno Unit) (fs : φ)
  | panic (reason : Panic)
  | look (next : Int → Nat → Transfer φ)
  | adjust (offset : Int) (resid : Nat) (next : Transfer φ)
  | move (ptr : Bytes) (n : Nat) (next : Except Errno Bytes → Transfer φ)

namespace Transfer

variable {φ : Type}

/-- Run the operation; `reach` are the addresses at which the kernel does not fault. -/
def run (reach : Nat → Bool) : Transfer φ → UioM (Except Errno Unit × φ)
  | .done result fs => pure (result, fs)
  | .panic reason => halt reason
  | .look next => do
      let uio ← get
      (next uio.uioOffset uio.uioResid).run reach
  | .adjust offset resid next => do
      modify fun uio => { uio with uioOffset := offset, uioResid := resid }
      next.run reach
  | .move ptr n next => do
      let uio ← get
      assert .kernelFault (uio.uioSegflg = .sysspace → 0 < uio.uioResid →
        ∀ i < min n uio.iovLen, reach (uio.iovBase + i) = true)
      let result ← attempt (uiomove ptr n)
      (next result).run reach

end Transfer

/-! ## The console -/

/-- `the_console` with its locks, the characters that will be typed, and those printed, latest
first. -/
structure Console where
  configured : Bool
  input : Nat → UInt8
  output : List UInt8

namespace Console

variable {φ : Type}

/-- `putch`, with interrupts off or on. -/
def putch (con : Console) (ch : UInt8) : Console :=
  { con with output := ch :: con.output }

/-- The turns of `con_io` that read; each takes a character from `getch`. -/
def readLoop (curspl : Nat) (store : Console → φ) : (fuel : Nat) → Console → Transfer φ
  | 0, con => .done (.ok ()) (store con)
  | fuel + 1, con =>
      .look fun _ resid =>
        if resid = 0 then
          .done (.ok ()) (store con)
        else if con.configured = false then
          .panic .getchDevice
        else if curspl ≠ 0 then
          .panic .getchSpl
        else
          let ch := if con.input 0 = 13 then 10 else con.input 0
          let con := { con with input := fun i => con.input (i + 1) }
          .move (fun _ => ch) 1 fun
            | .error failure => .done (.error failure) (store con)
            | .ok _ =>
                if ch = 10 then .done (.ok ()) (store con) else readLoop curspl store fuel con

/-- The turns of `con_io` that write. -/
def writeLoop (store : Console → φ) : (fuel : Nat) → Console → Transfer φ
  | 0, con => .done (.ok ()) (store con)
  | fuel + 1, con =>
      .look fun _ resid =>
        if resid = 0 then
          .done (.ok ()) (store con)
        else
          .move (fun _ => 0) 1 fun
            | .error failure => .done (.error failure) (store con)
            | .ok bytes =>
                let con := if bytes 0 = 10 then con.putch 13 else con
                writeLoop store fuel (con.putch (bytes 0))

/-- `con_io`; there are as many turns as bytes are asked for. The locks do nothing. -/
def conIo (curspl : Nat) (store : Console → φ) (con : Console) (rw : UioRw) : Transfer φ :=
  if con.configured = false then
    .panic .conLock
  else
    .look fun _ resid =>
      match rw with
      | .read => readLoop curspl store resid con
      | .write => writeLoop store resid con

end Console

/-! ## Vnodes -/

/-- Code of the file systems and devices. -/
abbrev FsM (φ : Type) := Prog Panic φ Errno

/-- Code that also has memory. -/
abbrev VfsM (φ : Type) := DirectM φ

/-- The vnode layer, with the state `φ`. `start` gets a reference to the vnode where a lookup
begins. The vnodes that are not the console have the operations `fileRead` and `fileWrite`;
`deviceEnd` is what `sys_lseek` finds as `d_blocksize + d_blocks` behind `vn_data`. -/
structure Vfs (φ : Type) where
  start : VfsPath.Origin → FsM φ Nat
  vopLookup : (vn : Nat) → (path : VfsName) → FsM φ Nat
  vopLookparent : (vn : Nat) → (path : VfsName) → FsM φ (Nat × VfsName)
  vopCreat : (dir : Nat) → (name : VfsName) → (excl : Bool) → FsM φ Nat
  vopOpen : (vn openflags : Nat) → FsM φ Unit
  vopTruncate : (vn len : Nat) → FsM φ Unit
  vopIncopen : (vn : Nat) → φ → φ
  vopDecopen : (vn : Nat) → φ → φ
  vopDecref : (vn : Nat) → φ → φ
  vopTryseek : (vn : Nat) → (pos : Int) → φ → Except Errno Unit
  fileRead : (vn : Nat) → φ → Transfer φ
  fileWrite : (vn : Nat) → φ → Transfer φ
  deviceEnd : (vn : Nat) → φ → Int
  isConsole : (vn : Nat) → φ → Bool
  console : φ → Console
  setConsole : φ → Console → φ

namespace Vfs

open VfsPath (getdevice onFs)

variable {φ : Type} (vfs : Vfs φ)

/-- `VOP_READ`; that of the console ends in `con_io`. -/
def vopRead (curspl vn : Nat) (fs : φ) : Transfer φ :=
  if vfs.isConsole vn fs then
    Console.conIo curspl (vfs.setConsole fs) (vfs.console fs) .read
  else
    vfs.fileRead vn fs

/-- `VOP_WRITE`. -/
def vopWrite (curspl vn : Nat) (fs : φ) : Transfer φ :=
  if vfs.isConsole vn fs then
    Console.conIo curspl (vfs.setConsole fs) (vfs.console fs) .write
  else
    vfs.fileWrite vn fs

/-- `O_ACCMODE` of the flags. -/
def accmode (openflags : Nat) : Nat :=
  openflags % 4

/-- A flag of `kern/unistd.h`, given by its bit. -/
def hasFlag (openflags bit : Nat) : Bool :=
  openflags.testBit bit

/-- Change only the state of the file systems. -/
def onState (change : φ → φ) : VfsM φ Unit :=
  modify fun state => (change state.1, state.2)

/-- An operation on a vnode, after which the reference to it is given up. -/
def thenDecref {α : Type} (vn : Nat) (operation : VfsM φ α) : VfsM φ α := do
  let result ← attempt operation
  onState (vfs.vopDecref vn)
  ofExcept result

/-- `vfs_lookup`. -/
def vfsLookup (reach : Nat → Bool) (path : Nat) : VfsM φ Nat := do
  let (subpath, startvn) ← getdevice vfs.start reach path
  let text ← stringAt reach subpath
  if text = [] then
    pure startvn
  else
    vfs.thenDecref startvn (onFs (vfs.vopLookup startvn text))

/-- `vfs_lookparent`. -/
def vfsLookparent (reach : Nat → Bool) (path : Nat) : VfsM φ (Nat × VfsName) := do
  let (subpath, startvn) ← getdevice vfs.start reach path
  let text ← stringAt reach subpath
  vfs.thenDecref startvn
    (if text = [] then fail .einval else onFs (vfs.vopLookparent startvn text))

/-- `vfs_open` finds the vnode: it is created with `O_CREAT`, and looked up otherwise. -/
def openVnode (reach : Nat → Bool) (path openflags : Nat) : VfsM φ Nat :=
  if hasFlag openflags 2 then do
    let (dir, name) ← vfs.vfsLookparent reach path
    vfs.thenDecref dir (onFs (vfs.vopCreat dir name (hasFlag openflags 3)))
  else
    vfs.vfsLookup reach path

/-- `O_TRUNC` in `vfs_open`. -/
def openTruncate (vn openflags : Nat) : VfsM φ Unit :=
  if hasFlag openflags 4 then do
    let result ← attempt
      (if accmode openflags = 0 then fail .einval else onFs (vfs.vopTruncate vn 0))
    match result with
    | .ok () => pure ()
    | .error failure =>
        onState (vfs.vopDecopen vn)
        onState (vfs.vopDecref vn)
        fail failure
  else
    pure ()

/-- `vfs_open`. -/
def vfsOpen (reach : Nat → Bool) (path openflags : Nat) : VfsM φ Nat :=
  if accmode openflags = 3 then
    fail .einval
  else do
    let vn ← vfs.openVnode reach path openflags
    match ← attempt (onFs (vfs.vopOpen vn openflags)) with
    | .error failure =>
        onState (vfs.vopDecref vn)
        fail failure
    | .ok () =>
        onState (vfs.vopIncopen vn)
        vfs.openTruncate vn openflags
        pure vn

/-- `vfs_close`. -/
def vfsClose (vn : Nat) (fs : φ) : φ :=
  vfs.vopDecref vn (vfs.vopDecopen vn fs)

end Vfs

/-! ## The simplest file system -/

/-- A file, and a console at the vnode 0. -/
structure OneFile where
  content : List UInt8
  console : Console

namespace OneFile

def read (fs : OneFile) : Transfer OneFile :=
  .look fun offset resid =>
    let n := min resid (fs.content.length - uint32 offset)
    .move (fun i => fs.content.getD (uint32 offset + i) 0) n fun
      | .ok _ => .done (.ok ()) fs
      | .error failure => .done (.error failure) fs

/-- The content with the bytes put in at the offset, and zeros where there was nothing. -/
def splice (content : List UInt8) (offset n : Nat) (bytes : Bytes) : List UInt8 :=
  (List.range (max content.length (offset + n))).map
    (Bytes.overlay (fun k => content.getD k 0) offset n bytes)

def write (fs : OneFile) : Transfer OneFile :=
  .look fun offset resid =>
    .move (fun _ => 0) resid fun
      | .ok bytes =>
          .done (.ok ()) { fs with content := splice fs.content (uint32 offset) resid bytes }
      | .error failure => .done (.error failure) fs

/-- Devices are the console, and every other path leads from the directory 2 to the file. -/
def vfs : Vfs OneFile where
  start
    | .device _ => pure 0
    | _ => pure 2
  vopLookup _ _ := pure 1
  vopLookparent _ _ := pure (2, [])
  vopCreat _ _ _ := pure 1
  vopOpen _ _ := pure ()
  vopTruncate _ _ := modify fun fs => { fs with content := [] }
  vopIncopen _ fs := fs
  vopDecopen _ fs := fs
  vopDecref _ fs := fs
  vopTryseek _ pos _ := if pos < 0 then .error .einval else .ok ()
  fileRead _ := read
  fileWrite _ := write
  deviceEnd _ _ := 0
  isConsole vn _ := vn = 0
  console := OneFile.console
  setConsole fs console := { fs with console }

end OneFile

end Os161
