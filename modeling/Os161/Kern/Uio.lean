import Os161.Kern.Base
import Mathlib.Data.List.TakeWhile

/-!
# Moving data between a buffer and a uio

`uiomove` and `uiomovezeros` of `uio.c`, with the copying functions of
`copyinout.c` under them. A buffer of the kernel is the function from its indexes
to its bytes. The memory that a `uio` points into is kept with the `uio`: the
kernel's, in which every address can be used, and that of the current process, in
which an address may be unmapped.
-/

namespace Os161

abbrev Bytes := Nat → UInt8

/-- The bytes with `n` of them, from `start` on, replaced. -/
def Bytes.overlay (bytes : Bytes) (start n : Nat) (source : Bytes) : Bytes :=
  fun k => if start ≤ k ∧ k < start + n then source (k - start) else bytes k

/-- `n` bytes of the first buffer, then the second one. -/
def Bytes.append (bytes : Bytes) (n : Nat) (rest : Bytes) : Bytes :=
  fun k => if k < n then bytes k else rest (k - n)

theorem Bytes.overlay_zero (bytes : Bytes) (start : Nat) (source : Bytes) :
    bytes.overlay start 0 source = bytes := by
  funext k
  exact if_neg (by omega)

theorem Bytes.overlay_source (bytes other : Bytes) (start n : Nat) (source : Bytes) :
    bytes.overlay start n (other.overlay 0 n source) = bytes.overlay start n source := by
  funext k
  simp only [overlay]
  split_ifs <;> first | rfl | omega

theorem Bytes.overlay_overlay (bytes : Bytes) (start m n : Nat) (first second : Bytes) :
    (bytes.overlay start m first).overlay (start + m) n second =
      bytes.overlay start (m + n) (first.append m second) := by
  funext k
  simp only [overlay, append]
  split_ifs <;> first | rfl | omega | (congr 1; omega)

inductive UioSeg where
  | userispace
  | userspace
  | sysspace
  deriving DecidableEq

inductive UioRw where
  | read
  | write
  deriving DecidableEq

/-- The memory a `uio` can point into; `space` is `t_vmspace` of the current thread. -/
structure Memory where
  kernel : Bytes
  user : Nat → Option UInt8
  space : Option Nat

structure Uio where
  iovBase : Nat
  iovLen : Nat
  uioOffset : Int
  uioResid : Nat
  uioSegflg : UioSeg
  uioRw : UioRw
  uioSpace : Option Nat
  mem : Memory

abbrev UioM := Prog Panic Uio Errno

/-! ## Copying to and from user memory -/

/-- `USERTOP`. -/
def userTop : Nat := 0x80000000

/-- `copycheck`: how many bytes from `bot` on are below `USERTOP`. -/
def copycheck (bot len : Nat) : Except Errno Nat :=
  let top := uint32 (bot + len - 1)
  if top < bot then
    .error .efault
  else if userTop ≤ bot then
    .error .efault
  else if userTop ≤ top then
    .ok (userTop - bot)
  else
    .ok len

/-- How many bytes from `addr` on are mapped, up to `len`. -/
def Memory.mapped (mem : Memory) (addr len : Nat) : Nat :=
  ((List.range len).takeWhile fun i => (mem.user (addr + i)).isSome).length

/-- `copyin`. -/
def copyin (mem : Memory) (usersrc len : Nat) : Except Errno Bytes :=
  match copycheck usersrc len with
  | .error failure => .error failure
  | .ok stoplen =>
      if stoplen = len ∧ mem.mapped usersrc len = len then
        .ok fun i => (mem.user (usersrc + i)).getD 0
      else
        .error .efault

def Memory.storeUser (mem : Memory) (addr n : Nat) (source : Bytes) : Memory :=
  { mem with
    user := fun a => if addr ≤ a ∧ a < addr + n then some (source (a - addr)) else mem.user a }

/-- `copyout`; the bytes before one that is not mapped have been copied. -/
def copyout (mem : Memory) (source : Bytes) (userdest len : Nat) : Except Errno Unit × Memory :=
  match copycheck userdest len with
  | .error failure => (.error failure, mem)
  | .ok stoplen =>
      if stoplen = len then
        let copied := mem.mapped userdest len
        (if copied = len then .ok () else .error .efault, mem.storeUser userdest copied source)
      else
        (.error .efault, mem)

/-! ## The code -/

/-- `UIO_SYSSPACE` in `uiomove`: `size` bytes between `ptr + done` and the iovec. -/
def moveKernel (ptr : Bytes) (done size : Nat) : UioM Bytes := do
  let uio ← get
  match uio.uioRw with
  | .read =>
      let kernel := uio.mem.kernel.overlay uio.iovBase size fun i => ptr (done + i)
      modify fun uio => { uio with mem := { uio.mem with kernel } }
      pure ptr
  | .write => pure (ptr.overlay done size fun i => uio.mem.kernel (uio.iovBase + i))

/-- `UIO_USERSPACE` and `UIO_USERISPACE` in `uiomove`. -/
def moveUser (ptr : Bytes) (done size : Nat) : UioM Bytes := do
  let uio ← get
  match uio.uioRw with
  | .read =>
      let (result, mem) := copyout uio.mem (fun i => ptr (done + i)) uio.iovBase size
      modify fun uio => { uio with mem }
      ofExcept result
      pure ptr
  | .write =>
      let bytes ← ofExcept (copyin uio.mem uio.iovBase size)
      pure (ptr.overlay done size bytes)

/-- The switch of `uiomove`. -/
def moveSegment (ptr : Bytes) (done size : Nat) : UioM Bytes := do
  let uio ← get
  match uio.uioSegflg with
  | .sysspace => moveKernel ptr done size
  | .userspace | .userispace => moveUser ptr done size

/-- The updates of the `uio` after `size` bytes were moved. -/
def Uio.step (uio : Uio) (size : Nat) : Uio :=
  { uio with
    iovBase := uio.iovBase + size
    iovLen := uio.iovLen - size
    uioResid := uint32 (uio.uioResid - size)
    uioOffset := int32 (uio.uioOffset + size) }

/-- `while (n > 0 && uio->uio_resid > 0)` in `uiomove`, with `done` bytes moved before. -/
def uiomoveLoop : (fuel : Nat) → (ptr : Bytes) → (done n : Nat) → UioM Bytes
  | 0, ptr, _, _ => pure ptr
  | fuel + 1, ptr, done, n => do
      let uio ← get
      if 0 < n ∧ 0 < uio.uioResid then
        let size := min uio.iovLen n
        assert .uiomoveSize (size ≠ 0)
        let ptr ← moveSegment ptr done size
        modify fun uio => uio.step size
        uiomoveLoop fuel ptr (done + size) (n - size)
      else
        pure ptr

/-- `uiomove`, for a buffer of `n` bytes; what the buffer holds afterwards is returned. Each turn
of the loop moves at least one byte. -/
def uiomove (ptr : Bytes) (n : Nat) : UioM Bytes := do
  let uio ← get
  match uio.uioSegflg with
  | .sysspace => assert .uiomoveSpace (uio.uioSpace = none)
  | _ => assert .uiomoveSpace (uio.uioSpace = uio.mem.space)
  uiomoveLoop n ptr 0 n

/-- `while (n>0)` in `uiomovezeros`. -/
def uiomovezerosLoop : (fuel n : Nat) → UioM Unit
  | 0, _ => pure ()
  | fuel + 1, n => do
      if 0 < n then
        let amt := min 16 n
        let _ ← uiomove (fun _ => 0) amt
        uiomovezerosLoop fuel (n - amt)
      else
        pure ()

/-- `uiomovezeros`. -/
def uiomovezeros (n : Nat) : UioM Unit := do
  let uio ← get
  assert .uiomovezerosRw (uio.uioRw = .read)
  uiomovezerosLoop n n

/-- `mk_kuio`, for a buffer that is all of the memory. -/
def mkKuio (kbuf : Bytes) (len : Nat) (pos : Int) (rw : UioRw) : Uio :=
  { iovBase := 0
    iovLen := len
    uioOffset := pos
    uioResid := len
    uioSegflg := .sysspace
    uioRw := rw
    uioSpace := none
    mem := { kernel := kbuf, user := fun _ => none, space := none } }

/-! ## What the copying functions do -/

def Memory.load (mem : Memory) : UioSeg → Bytes
  | .sysspace => mem.kernel
  | _ => fun addr => (mem.user addr).getD 0

def Memory.store (mem : Memory) (segflg : UioSeg) (addr n : Nat) (source : Bytes) : Memory :=
  match segflg with
  | .sysspace => { mem with kernel := mem.kernel.overlay addr n source }
  | _ => mem.storeUser addr n source

theorem Memory.storeUser_user (mem : Memory) (addr n : Nat) (source : Bytes) (a : Nat) :
    (mem.storeUser addr n source).user a =
      if addr ≤ a ∧ a < addr + n then some (source (a - addr)) else mem.user a :=
  rfl

theorem Memory.store_zero (mem : Memory) (segflg : UioSeg) (addr : Nat) (source : Bytes) :
    mem.store segflg addr 0 source = mem := by
  have nothing : mem.storeUser addr 0 source = mem := by
    rw [storeUser, show (fun a => if addr ≤ a ∧ a < addr + 0 then some (source (a - addr))
      else mem.user a) = mem.user from funext fun a => if_neg (by omega)]
  cases segflg with
  | sysspace => simp only [store, Bytes.overlay_zero]
  | _ => exact nothing

theorem Memory.store_store (mem : Memory) (segflg : UioSeg) (addr m n : Nat)
    (first second : Bytes) :
    (mem.store segflg addr m first).store segflg (addr + m) n second =
      mem.store segflg addr (m + n) (first.append m second) := by
  have user : (mem.storeUser addr m first).storeUser (addr + m) n second =
      mem.storeUser addr (m + n) (first.append m second) := by
    simp only [storeUser, Memory.mk.injEq, true_and, and_true]
    funext a
    simp only [Bytes.append]
    split_ifs <;> first | rfl | omega | (congr 2; omega)
  cases segflg with
  | sysspace => simp only [store, Bytes.overlay_overlay]
  | _ => exact user

theorem Memory.load_store (mem : Memory) (segflg : UioSeg) (addr n : Nat) (source : Bytes)
    (a : Nat) :
    (mem.store segflg addr n source).load segflg a =
      if addr ≤ a ∧ a < addr + n then source (a - addr) else mem.load segflg a := by
  cases segflg with
  | sysspace => rfl
  | _ =>
      simp only [store, load, storeUser_user]
      split_ifs <;> rfl

/-- All of `n` bytes can be used. -/
def Memory.Accessible (mem : Memory) (segflg : UioSeg) (addr n : Nat) : Prop :=
  segflg = .sysspace ∨ addr + n ≤ userTop ∧ ∀ i < n, (mem.user (addr + i)).isSome = true

theorem copycheck_iff {bot len : Nat} (positive : 0 < len) (small : len < 2 ^ 32) :
    copycheck bot len = .ok len ↔ bot + len ≤ userTop := by
  have topEq : bot + len ≤ userTop → uint32 (bot + len - 1) = bot + len - 1 := by
    intro below
    simp only [userTop] at below
    rw [uint32_eq (by omega) (by omega)]
    omega
  simp only [copycheck]
  by_cases below : bot + len ≤ userTop
  · rw [topEq below, if_neg (by omega), if_neg (by omega), if_neg (by omega)]
    exact iff_of_true rfl below
  · apply iff_of_false _ below
    split
    · simp
    · split
      · simp
      · split
        · intro stopped
          have stopped := Except.ok.inj stopped
          omega
        · rename_i inside outside
          simp only [uint32, userTop] at *
          omega

theorem copycheck_error {bot len : Nat} {failure : Errno}
    (refused : copycheck bot len = .error failure) : failure = .efault := by
  simp only [copycheck] at refused
  split at refused
  · exact (Except.error.inj refused).symm
  · split at refused
    · exact (Except.error.inj refused).symm
    · split at refused <;> cases refused

theorem Memory.mapped_iff (mem : Memory) (addr len : Nat) :
    mem.mapped addr len = len ↔ ∀ i < len, (mem.user (addr + i)).isSome = true := by
  have isPrefix := List.takeWhile_prefix (fun i => (mem.user (addr + i)).isSome)
    (l := List.range len)
  constructor
  · intro all
    have same : (List.range len).takeWhile (fun i => (mem.user (addr + i)).isSome) =
        List.range len := isPrefix.eq_of_length (by simpa [mapped] using all)
    have mapped := List.takeWhile_eq_self_iff.mp same
    intro i below
    exact mapped i (mem_range.mpr below)
  · intro mapped
    have same : (List.range len).takeWhile (fun i => (mem.user (addr + i)).isSome) =
        List.range len :=
      List.takeWhile_eq_self_iff.mpr fun i member => mapped i (mem_range.mp member)
    rw [Memory.mapped, same, List.length_range]

theorem copyin_eq (mem : Memory) (usersrc : Nat) {len : Nat} (positive : 0 < len)
    (small : len < 2 ^ 32) :
    (usersrc + len ≤ userTop ∧ (∀ i < len, (mem.user (usersrc + i)).isSome = true) ∧
      copyin mem usersrc len = .ok fun i => (mem.user (usersrc + i)).getD 0) ∨
    (¬(usersrc + len ≤ userTop ∧ ∀ i < len, (mem.user (usersrc + i)).isSome = true) ∧
      copyin mem usersrc len = .error .efault) := by
  rw [copyin, ← copycheck_iff positive small, ← mem.mapped_iff usersrc len]
  cases checked : copycheck usersrc len with
  | error failure => simp [copycheck_error checked]
  | ok stoplen => by_cases usable : stoplen = len ∧ mem.mapped usersrc len = len <;> simp [usable]

theorem copyout_eq (mem : Memory) (source : Bytes) (userdest : Nat) {len : Nat} (positive : 0 < len)
    (small : len < 2 ^ 32) :
    (userdest + len ≤ userTop ∧ (∀ i < len, (mem.user (userdest + i)).isSome = true) ∧
      copyout mem source userdest len = (.ok (), mem.storeUser userdest len source)) ∨
    (¬(userdest + len ≤ userTop ∧ ∀ i < len, (mem.user (userdest + i)).isSome = true) ∧
      ∃ mem', copyout mem source userdest len = (.error .efault, mem')) := by
  rw [copyout, ← copycheck_iff positive small, ← mem.mapped_iff userdest len]
  cases checked : copycheck userdest len with
  | error failure => simp [copycheck_error checked]
  | ok stoplen =>
      by_cases whole : stoplen = len
      · by_cases usable : mem.mapped userdest len = len <;> simp [whole, usable]
      · simp [whole]

namespace Uio

variable {uio : Uio} {n : Nat}

def data (uio : Uio) : Bytes :=
  fun i => uio.mem.load uio.uioSegflg (uio.iovBase + i)

def setMem (uio : Uio) (mem : Memory) : Uio :=
  { uio with mem }

/-- The `uio` after `n` bytes of its memory have been overwritten. -/
def fill (uio : Uio) (n : Nat) (source : Bytes) : Uio :=
  uio.setMem (uio.mem.store uio.uioSegflg uio.iovBase n source)

/-- The `uio` after `n` bytes have been moved. -/
def advance (uio : Uio) (n : Nat) : Uio :=
  { uio with
    iovBase := uio.iovBase + n
    iovLen := uio.iovLen - n
    uioResid := uio.uioResid - n
    uioOffset := int32 (uio.uioOffset + n) }

/-- The next `n` bytes are part of the transfer and of the buffer, and the numbers are those of
machine words. -/
structure Fits (uio : Uio) (n : Nat) : Prop where
  len : n ≤ uio.iovLen
  resid : n ≤ uio.uioResid
  resid_lt : uio.uioResid < 2 ^ 32
  space : uio.uioSpace = if uio.uioSegflg = .sysspace then none else uio.mem.space
  le_offset : -2 ^ 31 ≤ uio.uioOffset
  offset_lt : uio.uioOffset < 2 ^ 31

/-- The next `n` bytes of the buffer can be used. -/
def Accessible (uio : Uio) (n : Nat) : Prop :=
  uio.mem.Accessible uio.uioSegflg uio.iovBase n

theorem Fits.step_eq (fits : uio.Fits n) (mem : Memory) :
    (uio.setMem mem).step n = (uio.setMem mem).advance n := by
  have resid := fits.resid
  have resid_lt := fits.resid_lt
  have residEq : uint32 ((uio.setMem mem).uioResid - n) = (uio.setMem mem).uioResid - n := by
    simp only [setMem]
    rw [uint32_eq (by omega) (by omega)]
    omega
  rw [step, advance, residEq]

theorem Fits.advance_zero (fits : uio.Fits n) : uio.advance 0 = uio := by
  have offsetEq : int32 (uio.uioOffset + (0 : Nat)) = uio.uioOffset := by
    rw [Int.natCast_zero, Int.add_zero, int32_eq fits.le_offset fits.offset_lt]
  rw [advance, offsetEq]
  rfl

/-- What has happened to the buffer and the `uio` when `n` bytes have been moved. -/
def Moved (uio : Uio) (n : Nat) (ptr ptr' : Bytes) (uio' : Uio) : Prop :=
  (uio.uioRw = .write ∧ ptr' = ptr.overlay 0 n uio.data ∧ uio' = uio) ∨
    (uio.uioRw = .read ∧ ptr' = ptr ∧ uio' = uio.fill n ptr)

theorem moveUser_spec (user : uio.uioSegflg ≠ .sysspace) (ptr : Bytes) (positive : 0 < n)
    (small : n < 2 ^ 32) :
    Ensures (moveUser ptr 0 n) uio (fun _ => False)
      (fun failure uio' => failure = .efault ∧ ¬uio.Accessible n ∧ ∃ mem, uio' = uio.setMem mem)
      (fun ptr' uio' => uio.Accessible n ∧ uio.Moved n ptr ptr' uio') := by
  have accessibleIff : uio.Accessible n ↔ uio.iovBase + n ≤ userTop ∧
      ∀ i < n, (uio.mem.user (uio.iovBase + i)).isSome = true := by
    simp [Accessible, Memory.Accessible, user]
  have dataEq : uio.data = fun i => (uio.mem.user (uio.iovBase + i)).getD 0 := by
    funext i
    rw [data]
    cases segflg : uio.uioSegflg with
    | sysspace => exact absurd segflg user
    | _ => rfl
  have storeEq : ∀ source, uio.mem.store uio.uioSegflg uio.iovBase n source =
      uio.mem.storeUser uio.iovBase n source := by
    intro source
    cases segflg : uio.uioSegflg with
    | sysspace => exact absurd segflg user
    | _ => rfl
  rw [accessibleIff]
  simp only [moveUser, ensures_bind, ensures_get]
  cases rw : uio.uioRw with
  | read =>
      simp only [ensures_bind, ensures_modify, ensures_pure, Nat.zero_add]
      rcases copyout_eq uio.mem ptr uio.iovBase positive small with
        ⟨below, mapped, copied⟩ | ⟨refused, mem, copied⟩
      · rw [copied, ensures_ofExcept_ok]
        refine ⟨⟨below, mapped⟩, Or.inr ⟨rw, rfl, ?_⟩⟩
        rw [fill, storeEq]
        rfl
      · rw [copied, Prog.ensures_ofExcept_error]
        exact ⟨rfl, refused, mem, rfl⟩
  | write =>
      simp only [ensures_bind, ensures_pure]
      rcases copyin_eq uio.mem uio.iovBase positive small with
        ⟨below, mapped, copied⟩ | ⟨refused, copied⟩
      · rw [copied, ensures_ofExcept_ok]
        refine ⟨⟨below, mapped⟩, Or.inl ⟨rw, ?_, rfl⟩⟩
        rw [dataEq]
      · rw [copied, Prog.ensures_ofExcept_error]
        exact ⟨rfl, refused, uio.mem, rfl⟩

theorem moveSegment_spec (ptr : Bytes) (positive : 0 < n) (small : n < 2 ^ 32) :
    Ensures (moveSegment ptr 0 n) uio (fun _ => False)
      (fun failure uio' => failure = .efault ∧ ¬uio.Accessible n ∧ ∃ mem, uio' = uio.setMem mem)
      (fun ptr' uio' => uio.Accessible n ∧ uio.Moved n ptr ptr' uio') := by
  simp only [moveSegment, ensures_bind, ensures_get]
  cases segflg : uio.uioSegflg with
  | sysspace =>
      have accessible : uio.Accessible n := Or.inl segflg
      have dataEq : uio.data = fun i => uio.mem.kernel (uio.iovBase + i) := by
        funext i
        rw [data, segflg]
        rfl
      have storeEq : uio.mem.store uio.uioSegflg uio.iovBase n ptr =
          { uio.mem with kernel := uio.mem.kernel.overlay uio.iovBase n ptr } := by
        rw [segflg]
        rfl
      simp only [moveKernel, ensures_bind, ensures_get]
      cases rw : uio.uioRw with
      | read =>
          simp only [ensures_bind, ensures_modify, ensures_pure, Nat.zero_add]
          refine ⟨accessible, Or.inr ⟨rw, rfl, ?_⟩⟩
          rw [fill, storeEq]
          rfl
      | write =>
          rw [ensures_pure]
          refine ⟨accessible, Or.inl ⟨rw, ?_, rfl⟩⟩
          rw [dataEq]
  | _ =>
      have user : uio.uioSegflg ≠ .sysspace := by simp [segflg]
      exact moveUser_spec user ptr positive small

variable {uio' : Uio} {m : Nat} {source : Bytes}

theorem Moved.exists_mem {ptr ptr' : Bytes} (moved : uio.Moved n ptr ptr' uio') :
    ∃ mem, uio' = uio.setMem mem := by
  rcases moved with ⟨_, _, rfl⟩ | ⟨_, _, rfl⟩
  · exact ⟨uio'.mem, rfl⟩
  · exact ⟨_, rfl⟩

theorem moved_zero (uio : Uio) (ptr : Bytes) : uio.Moved 0 ptr ptr uio := by
  cases rw : uio.uioRw with
  | read => exact Or.inr ⟨rw, rfl, by rw [fill, Memory.store_zero]; rfl⟩
  | write => exact Or.inl ⟨rw, by rw [Bytes.overlay_zero], rfl⟩

theorem uiomoveLoop_zero (fuel done : Nat) (ptr : Bytes) :
    uiomoveLoop fuel ptr done 0 uio = .ok (.ok ptr, uio) := by
  cases fuel <;> rfl

theorem uiomove_spec (fits : uio.Fits n) (ptr : Bytes) :
    Ensures (uiomove ptr n) uio (fun _ => False)
      (fun failure uio' => failure = .efault ∧ ¬uio.Accessible n ∧ ∃ mem, uio' = uio.setMem mem)
      (fun ptr' uio' => (0 < n → uio.Accessible n) ∧
        ∃ between, uio.Moved n ptr ptr' between ∧ uio' = between.advance n) := by
  have spaceOk : ∀ {panics fails} {returns : Bytes → Uio → Prop},
      Ensures (uiomoveLoop n ptr 0 n) uio panics fails returns →
      Ensures (uiomove ptr n) uio panics fails returns := by
    intro panics fails returns loop
    have space := fits.space
    simp only [uiomove, ensures_bind, ensures_get]
    cases segflg : uio.uioSegflg <;> simp only [segflg, ensures_bind] at space ⊢ <;>
      apply (ensures_assert_of (by simpa using space)).mpr <;> exact loop
  apply spaceOk
  cases n with
  | zero =>
      rw [ensures_of_ok_eq (uiomoveLoop_zero 0 0 ptr)]
      exact ⟨fun impossible => absurd impossible (Nat.lt_irrefl 0), uio, moved_zero uio ptr,
        fits.advance_zero.symm⟩
  | succ n =>
      have resid := fits.resid
      have len := fits.len
      have resid_lt := fits.resid_lt
      have minEq : min uio.iovLen (n + 1) = n + 1 := by omega
      rw [uiomoveLoop, ensures_bind, ensures_get, if_pos (by omega)]
      simp only [minEq, ensures_bind]
      apply (ensures_assert_of (by omega)).mpr
      apply (moveSegment_spec ptr (by omega) (by omega)).imp
      rintro ptr' between ⟨accessible, moved⟩
      rcases moved.exists_mem with ⟨mem, rfl⟩
      rw [ensures_modify, fits.step_eq mem, Nat.sub_self,
        ensures_of_ok_eq (uiomoveLoop_zero _ _ ptr')]
      exact ⟨fun _ => accessible, _, moved, rfl⟩

/-- The numbers of a `uio` are those of machine words. -/
structure Words (uio : Uio) : Prop where
  resid_lt : uio.uioResid < 2 ^ 32
  le_offset : -2 ^ 31 ≤ uio.uioOffset
  offset_lt : uio.uioOffset < 2 ^ 31

/-- After a piece that ends the buffer the loop finds nothing more to move. -/
theorem uiomoveLoop_exhausted {returns : Bytes → Uio → Prop} (words : uio.Words)
    (short : uio.iovLen < n) (resid : n ≤ uio.uioResid) (ptr : Bytes) :
    Ensures (uiomoveLoop n ptr 0 n) uio (fun _ => True) (fun _ _ => True) returns := by
  have resid_lt := words.resid_lt
  rcases Nat.exists_eq_succ_of_ne_zero (by omega : n ≠ 0) with ⟨m, rfl⟩
  have minEq : min uio.iovLen (m + 1) = uio.iovLen := by omega
  rw [uiomoveLoop, ensures_bind, ensures_get, if_pos (by omega)]
  simp only [minEq]
  refine ensures_assert_then (fun _ => trivial) fun positive => ?_
  rw [ensures_bind]
  apply (moveSegment_spec ptr (by omega) (by omega)).mono
  · exact fun _ _ => trivial
  · exact fun _ _ _ => trivial
  · rintro ptr' between ⟨_, moved⟩
    rcases moved.exists_mem with ⟨mem, rfl⟩
    rcases Nat.exists_eq_succ_of_ne_zero (by omega : m ≠ 0) with ⟨fuel, rfl⟩
    have left : ((uio.setMem mem).step uio.iovLen).uioResid = uio.uioResid - uio.iovLen := by
      simp only [step, setMem]
      rw [uint32_eq (by omega) (by omega)]
      omega
    have empty : ((uio.setMem mem).step uio.iovLen).iovLen = 0 := Nat.sub_self _
    rw [ensures_bind, ensures_modify, uiomoveLoop, ensures_bind, ensures_get, if_pos (by omega)]
    refine ensures_assert_then (fun _ => trivial) fun nonzero => absurd ?_ nonzero
    rw [empty, Nat.zero_min]

/-- A transfer that succeeds had its buffer and its address space. -/
theorem uiomove_fits (words : uio.Words) (resid : n ≤ uio.uioResid) (ptr : Bytes) :
    Ensures (uiomove ptr n) uio (fun _ => True) (fun _ _ => True)
      (fun _ _ => uio.Fits n) := by
  have loop : (uio.uioSpace = if uio.uioSegflg = .sysspace then none else uio.mem.space) →
      Ensures (uiomoveLoop n ptr 0 n) uio (fun _ => True) (fun _ _ => True)
        (fun _ _ => uio.Fits n) := by
    intro space
    by_cases len : n ≤ uio.iovLen
    · exact ensures_any fun _ _ =>
        ⟨len, resid, words.resid_lt, space, words.le_offset, words.offset_lt⟩
    · exact uiomoveLoop_exhausted words (by omega) resid ptr
  simp only [uiomove, ensures_bind, ensures_get]
  cases segflg : uio.uioSegflg with
  | sysspace =>
      refine ensures_assert_then (fun _ => trivial) fun space => loop ?_
      rw [segflg, if_pos rfl, space]
  | _ =>
      refine ensures_assert_then (fun _ => trivial) fun space => loop ?_
      rw [segflg, if_neg (by simp), space]

theorem uiomove_returns (words : uio.Words) (resid : n ≤ uio.uioResid) (ptr : Bytes) :
    Ensures (uiomove ptr n) uio (fun _ => True) (fun _ _ => True)
      (fun ptr' uio' => ∃ between, uio.Moved n ptr ptr' between ∧ uio' = between.advance n) := by
  by_cases fits : uio.Fits n
  · apply (uiomove_spec fits ptr).mono
    · exact fun _ _ => trivial
    · exact fun _ _ _ => trivial
    · exact fun _ _ moved => moved.2
  · exact (uiomove_fits words resid ptr).imp fun _ _ succeeded => absurd succeeded fits

/-! ## One transfer after another -/

theorem Fits.mono (fits : uio.Fits n) (less : m ≤ n) : uio.Fits m :=
  ⟨less.trans fits.len, less.trans fits.resid, fits.resid_lt, fits.space, fits.le_offset,
    fits.offset_lt⟩

theorem store_space (mem : Memory) (segflg : UioSeg) (addr n : Nat) (source : Bytes) :
    (mem.store segflg addr n source).space = mem.space := by
  cases segflg <;> rfl

theorem Fits.fill (fits : uio.Fits n) (m : Nat) (source : Bytes) : (uio.fill m source).Fits n := by
  refine ⟨fits.len, fits.resid, fits.resid_lt, ?_, fits.le_offset, fits.offset_lt⟩
  simp only [Uio.fill, setMem, store_space]
  exact fits.space

theorem Fits.advance (fits : uio.Fits (m + n)) : (uio.advance m).Fits n := by
  have len := fits.len
  have resid := fits.resid
  have resid_lt := fits.resid_lt
  refine ⟨?_, ?_, ?_, fits.space, le_int32 _, int32_lt _⟩ <;> simp only [Uio.advance] <;> omega

theorem advance_advance (uio : Uio) (m n : Nat) :
    (uio.advance m).advance n = uio.advance (m + n) := by
  simp only [advance, Uio.mk.injEq, and_true, int32_add]
  push_cast
  refine ⟨by omega, by omega, by rw [add_assoc], by omega⟩

theorem fill_advance_fill (uio : Uio) (m n : Nat) (first second : Bytes) :
    ((uio.fill m first).advance m).fill n second =
      (uio.fill (m + n) (first.append m second)).advance m := by
  simp only [fill, setMem, advance]
  rw [Memory.store_store]

theorem data_advance (uio : Uio) (m : Nat) : (uio.advance m).data = fun i => uio.data (m + i) := by
  funext i
  simp only [data, advance, Nat.add_assoc]

theorem Accessible.mono (accessible : uio.Accessible n) (less : m ≤ n) : uio.Accessible m := by
  rcases accessible with sys | ⟨below, mapped⟩
  · exact Or.inl sys
  · exact Or.inr ⟨by omega, fun i small => mapped i (by omega)⟩

theorem Accessible.advance (accessible : uio.Accessible (m + n)) :
    (uio.advance m).Accessible n := by
  rcases accessible with sys | ⟨below, mapped⟩
  · exact Or.inl sys
  · refine Or.inr ⟨by simp only [Uio.advance]; omega, fun i small => ?_⟩
    have later := mapped (m + i) (by omega)
    rwa [← Nat.add_assoc] at later

theorem Accessible.fill (accessible : uio.Accessible n) (m : Nat) (source : Bytes) :
    (uio.fill m source).Accessible n := by
  rcases accessible with sys | ⟨below, mapped⟩
  · exact Or.inl sys
  · refine Or.inr ⟨below, fun i small => ?_⟩
    have before := mapped i small
    cases segflg : uio.uioSegflg with
    | sysspace => simpa [Uio.fill, setMem, Memory.store, segflg] using before
    | _ =>
        simp only [Uio.fill, setMem, Memory.store, segflg, Memory.storeUser_user]
        split_ifs
        · rfl
        · exact before

theorem Accessible.append (first : uio.Accessible m)
    (second : ((uio.fill m source).advance m).Accessible n) : uio.Accessible (m + n) := by
  rcases first with sys | ⟨below, mapped⟩
  · exact Or.inl sys
  · rcases second with sys | ⟨below', mapped'⟩
    · exact Or.inl sys
    · have below' : uio.iovBase + m + n ≤ userTop := below'
      refine Or.inr ⟨by omega, fun i small => ?_⟩
      by_cases early : i < m
      · exact mapped i early
      · have later := mapped' (i - m) (by omega)
        have place : uio.iovBase + m + (i - m) = uio.iovBase + i := by omega
        cases segflg : uio.uioSegflg <;>
          simp only [Uio.fill, setMem, Memory.store, segflg, Uio.advance, place,
            Memory.storeUser_user] at later
        · rwa [if_neg (by omega)] at later
        · rwa [if_neg (by omega)] at later
        · exact later

theorem fill_congr (uio : Uio) {first second : Bytes} (same : ∀ i < n, first i = second i) :
    uio.fill n first = uio.fill n second := by
  have storeEq : uio.mem.store uio.uioSegflg uio.iovBase n first =
      uio.mem.store uio.uioSegflg uio.iovBase n second := by
    cases uio.uioSegflg <;> simp only [Memory.store, Memory.storeUser] <;> congr 1 <;> funext a
    · split
      · rw [same _ (by omega)]
      · rfl
    · split
      · rw [same _ (by omega)]
      · rfl
    · simp only [Bytes.overlay]
      split
      · rw [same _ (by omega)]
      · rfl
  rw [fill, fill, storeEq]

theorem fill_zero (uio : Uio) (source : Bytes) : uio.fill 0 source = uio := by
  rw [fill, Memory.store_zero]
  rfl

/-- The end of a transfer of `n` bytes that failed: `k` of them have been moved. -/
def Stopped (uio : Uio) (n k : Nat) (uio' : Uio) : Prop :=
  k ≤ n ∧ (0 < n → k < n) ∧ (0 < k → uio.Accessible k) ∧
    ∃ mem, uio' = (uio.setMem mem).advance k

theorem Fits.setMem_advance_zero (fits : uio.Fits n) (mem : Memory) :
    (uio.setMem mem).advance 0 = uio.setMem mem := by
  have offsetEq : int32 ((uio.setMem mem).uioOffset + (0 : Nat)) = uio.uioOffset := by
    rw [Int.natCast_zero, Int.add_zero]
    exact int32_eq fits.le_offset fits.offset_lt
  rw [Uio.advance, offsetEq]
  rfl

theorem Fits.stopped_setMem (fits : uio.Fits n) (mem : Memory) : uio.Stopped n 0 (uio.setMem mem) :=
  ⟨Nat.zero_le n, fun positive => positive, fun impossible => absurd impossible (Nat.lt_irrefl 0),
    mem, (fits.setMem_advance_zero mem).symm⟩

theorem Stopped.mono {k : Nat} (stopped : uio.Stopped n k uio') (less : n ≤ m)
    (positive : 0 < m → 0 < n) : uio.Stopped m k uio' := by
  rcases stopped with ⟨k_le, k_lt, accessible, moved⟩
  exact ⟨k_le.trans less, fun more => (k_lt (positive more)).trans_le less, accessible, moved⟩

theorem Accessible.append_of_pos (first : 0 < m → uio.Accessible m)
    (second : 0 < n → ((uio.fill m source).advance m).Accessible n) (fits : uio.Fits m)
    (positive : 0 < m + n) : uio.Accessible (m + n) := by
  by_cases some : 0 < m
  · by_cases more : 0 < n
    · exact (first some).append (second more)
    · have nothing : n = 0 := by omega
      subst nothing
      exact first some
  · have nothing : m = 0 := by omega
    subst nothing
    have second := second (by omega)
    rw [fill_zero, fits.advance_zero] at second
    rwa [Nat.zero_add]

/-- A transfer that fails after an earlier one. -/
theorem Stopped.after {k : Nat} (fits : uio.Fits m) (first : 0 < m → uio.Accessible m)
    (positive : 0 < n) (stopped : ((uio.fill m source).advance m).Stopped n k uio') :
    uio.Stopped (m + n) (m + k) uio' := by
  rcases stopped with ⟨_, k_lt, accessible, mem, rfl⟩
  exact ⟨by omega, fun _ => by omega, Accessible.append_of_pos first accessible fits, mem,
    advance_advance (uio.setMem mem) m k⟩

theorem uiomovezerosLoop_spec (fuel : Nat) :
    ∀ {n : Nat} {uio : Uio}, n ≤ fuel → uio.uioRw = .read → uio.Fits n →
      Ensures (uiomovezerosLoop fuel n) uio (fun _ => False)
        (fun failure uio' => failure = .efault ∧ ¬uio.Accessible n ∧ ∃ k, uio.Stopped n k uio')
        (fun _ uio' => (0 < n → uio.Accessible n) ∧
          uio' = (uio.fill n fun _ => 0).advance n) := by
  induction fuel with
  | zero =>
      intro n uio enough _ fits
      have nothing : n = 0 := by omega
      subst nothing
      exact ⟨fun impossible => absurd impossible (Nat.lt_irrefl 0), by
        rw [fill_zero, fits.advance_zero]⟩
  | succ fuel ih =>
      intro n uio enough reading fits
      rw [uiomovezerosLoop]
      by_cases positive : 0 < n
      · rw [if_pos positive, ensures_bind]
        have some : 0 < min 16 n := by omega
        have split : min 16 n + (n - min 16 n) = n := by omega
        generalize min 16 n = amt at some split
        apply (uiomove_spec (fits.mono (by omega)) fun _ => 0).answers
        · rintro failure uio' ⟨rfl, refused, mem, rfl⟩
          exact ⟨rfl, fun accessible => refused (accessible.mono (by omega)), 0,
            fits.stopped_setMem mem⟩
        · rintro ptr uio' ⟨accessible, between, moved, rfl⟩
          rcases moved with ⟨writing, _⟩ | ⟨_, _, rfl⟩
          · cases reading.symm.trans writing
          have accessible := accessible some
          have rest : ((uio.fill amt fun _ => 0).advance amt).Fits (n - amt) :=
            ((split.symm ▸ fits : uio.Fits (amt + (n - amt))).fill amt _).advance
          have left : n - amt ≤ fuel := by omega
          have stillReading : ((uio.fill amt fun _ => 0).advance amt).uioRw = .read := reading
          have amtFits : uio.Fits amt := fits.mono (by omega)
          apply (ih left stillReading rest).answers
          · rintro failure uio' ⟨rfl, refused, k, stopped⟩
            have more : 0 < n - amt := by
              by_contra nothing
              apply refused
              rw [show n - amt = 0 by omega]
              exact (Accessible.fill accessible amt _).advance
            refine ⟨rfl, fun whole => refused ?_, amt + k, ?_⟩
            · exact ((split.symm ▸ whole : uio.Accessible (amt + (n - amt))).fill amt _).advance
            · exact split ▸ stopped.after amtFits (fun _ => accessible) more
          · rintro _ uio' ⟨later, rfl⟩
            have zeros : Bytes.append (fun _ => 0) amt (fun _ => 0) = fun _ => 0 := by
              funext k
              simp [Bytes.append]
            rw [fill_advance_fill, advance_advance, zeros, split]
            refine ⟨fun positive => ?_, rfl⟩
            exact split ▸ Accessible.append_of_pos (fun _ => accessible) later amtFits (by omega)
      · have nothing : n = 0 := by omega
        subst nothing
        exact ⟨fun impossible => absurd impossible (Nat.lt_irrefl 0), by
          rw [fill_zero, fits.advance_zero]⟩

theorem uiomovezeros_spec (reading : uio.uioRw = .read) (fits : uio.Fits n) :
    Ensures (uiomovezeros n) uio (fun _ => False)
      (fun failure uio' => failure = .efault ∧ ¬uio.Accessible n ∧ ∃ k, uio.Stopped n k uio')
      (fun _ uio' => (0 < n → uio.Accessible n) ∧ uio' = (uio.fill n fun _ => 0).advance n) := by
  simp only [uiomovezeros, ensures_bind, ensures_get, ensures_assert_of reading]
  exact uiomovezerosLoop_spec n le_rfl reading fits

end Uio

end Os161
