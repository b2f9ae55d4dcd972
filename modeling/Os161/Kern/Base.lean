import Os161.Lib.Prog

/-!
# Error codes, panics and the kernel heap

The error codes are those of `kern/errno.h`. Every place of the modelled code at
which the kernel stops, by a failed `assert`, by an explicit `panic` or by a
pointer that no longer points to anything, has its own constructor in `Panic`.

The kernel heap appears only through the answers of `kmalloc`: a `KHeap` is the
sequence of the answers to come, and a call takes the next one. A statement about
all of them is a statement about every pattern of allocation failures.
-/

namespace Os161

export Prog (Ensures ensures_any ensures_assert ensures_assert_of ensures_assert_then
  ensures_attempt ensures_bind ensures_bind_any ensures_branch ensures_fail ensures_get
  ensures_ite ensures_modify ensures_of_fail_eq ensures_of_halt_eq ensures_of_ok_eq
  ensures_ofExcept_ok ensures_pure ensures_withLocal ensures_zoom bind_of_ok bind_of_halt
  assert_of get_apply get_bind_apply bind_eq_ok_iff eq_ok_of_ensures ne_halt_of_ensures
  keeps_assert keeps_fail keeps_pure tracks_bind tracks_ite modify assert fail halt attempt zoom
  withLocal ofExcept Keeps Tracks returned_eq_some get)
export Function (update_apply update_eq_self update_idem update_of_ne update_self)
export Option (any_eq_true bind_eq_some_iff bind_none bind_some isSome_iff_exists
  isSome_iff_ne_none map_eq_some_iff map_some toList_some)
export List (append_assoc append_nil cons_append count_append count_nil forall_mem_cons
  length_append mem_append mem_cons mem_cons_of_mem mem_cons_self mem_range nodup_cons suffix_rfl)

/-- The error codes of `kern/errno.h`, in its order. -/
inductive Errno where
  | einval
  | efault
  | enametoolong
  | enomem
  | eio
  | enoent
  | enotdir
  | eisdir
  | eexist
  | exdev
  | eagain
  | espipe
  | eunimp
  | enxio
  | enodev
  | ebusy
  | eioctl
  | enotempty
  | erange
  | enospc
  | emfile
  | enfile
  | enosys
  | enoexec
  | e2big
  | ebadf
  deriving DecidableEq, Repr

/-- The places at which the modelled kernel code stops the machine: the failed assertions of
`queue.c` and `array.c`, of `thread_destroy` and `exorcise`, of `mi_switch`, `thread_wakeup`
and `thread_exit`, and of `P` and `V`; those of `bitmap.c`, `uio.c` and `vnode.c`, and the
panics of sfs; those of `dumbvm.c`, `kheap.c`, `filetable.c`, `console.c` and `syscall.c`; and the
use of a structure that is gone, of memory outside a buffer, or of an address that faults. -/
inductive Panic where
  | qGrowSize
  | qGrowResult
  | qGrowRecursion
  | qSize
  | qEmpty
  | arrayNum
  | arrayIndex
  | arrayStorage
  | bootstrap
  | threadPointer
  | runqueueIndex
  | destroyCurrent
  | destroyVmspace
  | destroyCwd
  | exorciseResult
  | filetableNull
  | filetableVal
  | vnodeRefcount
  | miSwitchState
  | miSwitchResult
  | wakeupResult
  | numthreads
  | cameBackFromTheDead
  | semCount
  | bitmapIndex
  | bitmapMark
  | bitmapUnmark
  | bitmapAlloc
  | uiomoveSpace
  | uiomoveSize
  | uiomovezerosRw
  | bufferBounds
  | vnodePointer
  | vnodeKillRefcount
  | vnodeKillOpencount
  | vnodeOpencount
  | sfsDioInval
  | sfsBallocInvalid
  | sfsBusedRange
  | sfsBmapFree
  | sfsPartialioSize
  | sfsPartialioRw
  | sfsBlockioRw
  | sfsBlockioResid
  | sfsIoExtraresid
  | sfsIoAligned
  | sfsIoRest
  | sfsReaddirShort
  | sfsWritedirShort
  | sfsDirType
  | sfsDirSize
  | sfsDirDuplicate
  | vmFaultReadonly
  | vmFaultSpace
  | vmFaultFrame
  | prepareLoad
  | copySpace
  | spacePointer
  | kheapInuse
  | kheapPageref
  | kheapFreePageref
  | kheapBlktype
  | kheapSize
  | kheapCorrupt
  | kheapOffset
  | kheapNfree
  | kheapFreelist
  | kheapInvalidAddr
  | kheapLoop
  | kfreeAlignment
  | filetableIndex
  | getchDevice
  | getchSpl
  | conLock
  | syscallSpl
  | kernelFault
  | strayPointer
  | lserWbusy
  | lserSpin
  | knowndevRawname
  | knowndevDevice
  | vfsOpenVnode
  | vnodeCheck
  | getdeviceStart
  | getdeviceColon
  | curdirFs
  | getcwdRw
  | getcwdName
  | runprogramSpace
  | devCreateVnode
  | vnodeNull
  | lamebusDuds
  | bowlsAlloc
  | bowlsMutex
  | eatBowlNumber
  | eatSameBowl
  | eatOthersEating
  | eatBowl
  | eatNone
  | eatSome
  | pfSendNul
  | pfModifierDigit
  | pfNumberBuf
  deriving DecidableEq, Repr

/-- The value that an `int` keeps of a number. -/
def int32 (value : Int) : Int :=
  value.bmod (2 ^ 32)

/-- The value that a `u_int32_t` keeps of a number. -/
def uint32 (value : Int) : Nat :=
  (value % 2 ^ 32).toNat

/-- The value that a `u_int16_t` keeps of a number. -/
def uint16 (value : Int) : Nat :=
  (value % 2 ^ 16).toNat

theorem int32_eq {value : Int} (low : -2 ^ 31 ≤ value) (high : value < 2 ^ 31) :
    int32 value = value :=
  Int.bmod_eq_of_le (by norm_num; omega) (by norm_num; omega)

theorem le_int32 (value : Int) : -2 ^ 31 ≤ int32 value := by
  have low := Int.le_bmod (x := value) (m := 2 ^ 32) (by decide)
  simp only [int32]
  omega

theorem int32_lt (value : Int) : int32 value < 2 ^ 31 := by
  have high := Int.bmod_lt (x := value) (m := 2 ^ 32) (by decide)
  simp only [int32]
  omega

theorem int32_add (first second : Int) : int32 (int32 first + second) = int32 (first + second) :=
  Int.bmod_add_bmod

/-- A word that is not negative as an `int` is the same as an `int`. -/
theorem int32_toNat {value : Nat} (small : value < 2 ^ 32) (positive : 0 ≤ int32 value) :
    (int32 value).toNat = value := by
  simp only [int32, Int.bmod_def] at positive ⊢
  split at positive <;> omega

theorem uint32_eq {value : Int} (low : 0 ≤ value) (high : value < 2 ^ 32) :
    uint32 value = value.toNat := by
  rw [uint32, Int.emod_eq_of_lt low high]

theorem uint32_natCast (value : Nat) : uint32 value = value % 2 ^ 32 := by
  simp only [uint32]
  omega

theorem uint16_eq {value : Nat} (low : value < 2 ^ 16) : uint16 value = value := by
  simp only [uint16]
  omega

theorem uint32_add_int32 (first second : Int) :
    uint32 (first + int32 second) = uint32 (first + second) := by
  rw [uint32, uint32, Int.add_emod, Int.add_emod first second]
  congr 3
  exact Int.bmod_emod

theorem uint32_le (value : Int) (low : 0 ≤ value) : uint32 value ≤ value := by
  simp only [uint32]
  omega

/-- The answers the calls of `kmalloc` to come will give: memory, or `NULL`. -/
abbrev KHeap := Nat → Bool

def noMemory : KHeap := fun _ => false

def enoughMemory : KHeap := fun _ => true

/-- The answers that are left after `n` calls. -/
def KHeap.after (heap : KHeap) (n : Nat) : KHeap := fun call => heap (call + n)

/-- A call of `kmalloc`: whether it hands out memory. -/
def kmalloc {ε : Type} : Prog Panic KHeap ε Bool :=
  fun heap => .ok (.ok (heap 0), heap.after 1)

theorem kmalloc_apply {ε : Type} (heap : KHeap) :
    (kmalloc : Prog Panic KHeap ε Bool) heap = .ok (.ok (heap 0), heap.after 1) :=
  rfl

@[simp]
theorem ensures_kmalloc {ε : Type} {heap : KHeap} {panics : Panic → Prop}
    {fails : ε → KHeap → Prop} {returns : Bool → KHeap → Prop} :
    Prog.Ensures kmalloc heap panics fails returns ↔
      returns (heap 0) (heap.after 1) :=
  Iff.rfl

namespace KHeap

/-- The next `n` calls get memory. -/
def Grants (heap : KHeap) (n : Nat) : Prop := ∀ call < n, heap call = true

instance (heap : KHeap) (n : Nat) : Decidable (heap.Grants n) :=
  inferInstanceAs (Decidable (∀ call < n, heap call = true))

theorem after_after (heap : KHeap) (m n : Nat) : (heap.after m).after n = heap.after (m + n) := by
  funext call
  simp only [after]
  congr 1
  omega

theorem grants_zero (heap : KHeap) : heap.Grants 0 :=
  fun _ below => absurd below (Nat.not_lt_zero _)

theorem grants_add (heap : KHeap) (m n : Nat) :
    heap.Grants (m + n) ↔ heap.Grants m ∧ (heap.after m).Grants n := by
  constructor
  · intro grants
    refine ⟨fun call below => grants call (by omega), ?_⟩
    intro call below
    exact grants (call + m) (by omega)
  · rintro ⟨first, second⟩ call below
    by_cases early : call < m
    · exact first call early
    · have granted := second (call - m) (by omega)
      rwa [after, Nat.sub_add_cancel (by omega)] at granted

theorem grants_succ (heap : KHeap) (n : Nat) :
    heap.Grants (n + 1) ↔ heap 0 = true ∧ (heap.after 1).Grants n := by
  rw [Nat.add_comm, grants_add]
  simp [Grants]

end KHeap

/-- Code that has only the kernel heap as its state. -/
abbrev HeapM := Prog Panic KHeap Errno

/-- `if (kmalloc(..) == NULL) return ENOMEM`. -/
def allocate : HeapM Unit := do
  if ← kmalloc then
    pure ()
  else
    fail .enomem

theorem ensures_allocate {heap : KHeap} {panics : Panic → Prop} {fails : Errno → KHeap → Prop}
    {returns : Unit → KHeap → Prop} :
    Prog.Ensures allocate heap panics fails returns ↔
      if heap 0 = true then returns () (heap.after 1) else fails .enomem (heap.after 1) := by
  simp only [allocate, ensures_bind, ensures_kmalloc, ensures_ite, ensures_pure,
    ensures_fail]

end Os161
