import Os161.Vm.Dumbvm

/-!
# The kernel heap

`kheap.c`. Blocks of less than half a page come from pages that are cut into blocks
of one size; a page has a `pageref`, and its free blocks are linked through their
first words. Larger requests get whole pages.

Where the pages come from is left open: at each request `offer` is the address that
the page source would hand out, and the source hands it out if it is the start of a
run of pages that is free. `runs` are the runs that are in use. Memory is a function
from the addresses of words to the words. `live` is a ghost: the blocks that have
been allocated and not freed, which no code reads.
-/

namespace Os161

def nsizes : Nat := 8

def sizes (blktype : Nat) : Nat :=
  [16, 32, 64, 128, 256, 512, 1024, 2048].getD blktype 0

def largestSubpageSize : Nat := 2048

/-- `INVALID_OFFSET`. -/
def invalidOffset : Nat := 0xffff

def npagerefs : Nat := 256

def inuseWords : Nat := npagerefs / 32

/-- `struct pageref`; the pointers are indexes into `pagerefs`. -/
structure Pageref where
  nextSamesize : Option Nat
  nextAll : Option Nat
  pageaddrAndBlocktype : Nat
  freelistOffset : Nat
  nfree : Nat

/-- `PR_PAGEADDR`. -/
def Pageref.pageaddr (pr : Pageref) : Nat :=
  pageFrame pr.pageaddrAndBlocktype

/-- `PR_BLOCKTYPE`. -/
def Pageref.blocktype (pr : Pageref) : Nat :=
  pr.pageaddrAndBlocktype % pageSize

/-- `MKPAB`; the two parts have no bit in common. -/
def mkpab (pa blk : Nat) : Nat :=
  pageFrame pa + blk % pageSize

/-- A block that is in use: its address, and the size that was asked for. -/
structure Allocation where
  ptr : Nat
  sz : Nat
  deriving DecidableEq

structure Kheap where
  pagerefs : Nat → Pageref
  pagerefsInuse : Nat → BitVec 32
  sizebases : Nat → Option Nat
  allbase : Option Nat
  mem : Nat → Nat
  top : Nat
  offer : Nat
  runs : List Arena.Region
  live : List Allocation

abbrev KheapM := Prog Panic Kheap Errno

namespace Kheap

def setPageref (s : Kheap) (p : Nat) (pr : Pageref) : Kheap :=
  { s with pagerefs := Function.update s.pagerefs p pr }

def setWord (s : Kheap) (addr word : Nat) : Kheap :=
  { s with mem := Function.update s.mem addr word }

/-! ## The page source -/

/-- A run of pages that is free; nothing reaches beyond `top`. -/
def Fresh (s : Kheap) (run : Arena.Region) : Prop :=
  run.lo ≠ 0 ∧ run.lo % pageSize = 0 ∧ run.hi ≤ s.top ∧
    ∀ used ∈ s.runs, used.hi ≤ run.lo ∨ run.hi ≤ used.lo

instance (s : Kheap) (run : Arena.Region) : Decidable (s.Fresh run) :=
  inferInstanceAs (Decidable (_ ∧ _ ∧ _ ∧ ∀ used ∈ s.runs, _))

/-- `alloc_kpages`. -/
def allocKpages (npages : Nat) : KheapM Nat := do
  let s ← get
  let run : Arena.Region := ⟨s.offer, s.offer + npages * pageSize⟩
  if s.Fresh run then
    modify fun s => { s with runs := run :: s.runs }
    pure s.offer
  else
    pure 0

/-- `free_kpages`. -/
def freeKpages (addr : Nat) : KheapM Unit :=
  modify fun s => { s with runs := s.runs.filter fun run => run.lo ≠ addr }

/-! ## Pagerefs -/

/-- The loop over the bits of a word in `allocpageref`. -/
def firstClear (word : BitVec 32) : (fuel : Nat) → (k : BitVec 32) → (j : Nat) → Option Nat
  | 0, _, _ => none
  | fuel + 1, k, j =>
      if k = 0 then none
      else if word &&& k = 0 then some j
      else firstClear word fuel (k <<< 1) (j + 1)

/-- The loop over the words in `allocpageref`. -/
def allocpagerefFrom : (left : Nat) → (i : Nat) → KheapM (Option Nat)
  | 0, _ => pure none
  | left + 1, i => do
      let s ← get
      let word := s.pagerefsInuse i
      if word = 0xffffffff then
        allocpagerefFrom left (i + 1)
      else
        match firstClear word 33 1 0 with
        | some j =>
            let word := word ||| 1 <<< j
            modify fun s => { s with pagerefsInuse := Function.update s.pagerefsInuse i word }
            pure (some (i * 32 + j))
        | none => halt .kheapInuse

/-- `allocpageref`. -/
def allocpageref : KheapM (Option Nat) :=
  allocpagerefFrom inuseWords 0

/-- `freepageref`. -/
def freepageref (p : Nat) : KheapM Unit := do
  assert .kheapPageref (p < npagerefs)
  let s ← get
  let i := p / 32
  let k : BitVec 32 := 1 <<< (p % 32)
  assert .kheapFreePageref (s.pagerefsInuse i &&& k ≠ 0)
  let word := s.pagerefsInuse i &&& ~~~k
  modify fun s => { s with pagerefsInuse := Function.update s.pagerefsInuse i word }

/-! ## The lists of pages -/

/-- A list of pagerefs: where it begins, and the link that it uses. -/
structure PageList where
  base : Kheap → Option Nat
  setBase : Option Nat → Kheap → Kheap
  link : Pageref → Option Nat
  setLink : Option Nat → Pageref → Pageref
  base_setBase : ∀ head s, base (setBase head s) = head
  pagerefs_setBase : ∀ head s, (setBase head s).pagerefs = s.pagerefs
  base_setPageref : ∀ s p pr, base (s.setPageref p pr) = base s
  link_setLink : ∀ link' pr, link (setLink link' pr) = link'

/-- `sizebases[blktype]` with `next_samesize`. -/
def samesizeList (blktype : Nat) : PageList where
  base s := s.sizebases blktype
  setBase head s := { s with sizebases := Function.update s.sizebases blktype head }
  link := Pageref.nextSamesize
  setLink link pr := { pr with nextSamesize := link }
  base_setBase _ _ := update_self _ _ _
  pagerefs_setBase _ _ := rfl
  base_setPageref _ _ _ := rfl
  link_setLink _ _ := rfl

/-- `allbase` with `next_all`. -/
def allList : PageList where
  base := Kheap.allbase
  setBase head s := { s with allbase := head }
  link := Pageref.nextAll
  setLink link pr := { pr with nextAll := link }
  base_setBase _ _ := rfl
  pagerefs_setBase _ _ := rfl
  base_setPageref _ _ _ := rfl
  link_setLink _ _ := rfl

/-- `*guy`; `guy` points to the link of a pageref, or to the base. -/
def PageList.target (list : PageList) (s : Kheap) : (guy : Option Nat) → Option Nat
  | none => list.base s
  | some g => list.link (s.pagerefs g)

/-- `*guy = link`. -/
def PageList.setTarget (list : PageList) (link : Option Nat) (s : Kheap) :
    (guy : Option Nat) → Kheap
  | none => list.setBase link s
  | some g => s.setPageref g (list.setLink link (s.pagerefs g))

/-- A loop of `remove_lists`. -/
def removeFrom (list : PageList) (p : Nat) : (fuel : Nat) → (guy : Option Nat) → KheapM Unit
  | 0, _ => halt .kheapLoop
  | fuel + 1, guy => do
      let s ← get
      match list.target s guy with
      | none => pure ()
      | some q =>
          if q = p then
            modify fun s => list.setTarget (list.link (s.pagerefs p)) s guy
          else
            removeFrom list p fuel (some q)

/-- `remove_lists`. -/
def removeLists (p blktype : Nat) : KheapM Unit := do
  assert .kheapBlktype (blktype < nsizes)
  removeFrom (samesizeList blktype) p (npagerefs + 1) none
  removeFrom allList p (npagerefs + 1) none

/-! ## Allocation -/

/-- `blocktype`. -/
def blocktypeOf (sz : Nat) : KheapM Nat :=
  match (List.range nsizes).find? (fun i => sz ≤ sizes i) with
  | some i => pure i
  | none => halt .kheapSize

/-- The search for a page with a free block in `subpage_kmalloc`. -/
def findFree (blktype : Nat) : (fuel : Nat) → (pr : Option Nat) → KheapM (Option Nat)
  | _, none => pure none
  | 0, some _ => halt .kheapLoop
  | fuel + 1, some p => do
      let s ← get
      let pr := s.pagerefs p
      assert .kheapCorrupt (pr.blocktype = blktype)
      if 0 < pr.nfree then
        pure (some p)
      else
        findFree blktype fuel pr.nextSamesize

/-- `doalloc` in `subpage_kmalloc`. -/
def doalloc (p : Nat) : KheapM Nat := do
  let s ← get
  let pr := s.pagerefs p
  assert .kheapOffset (pr.freelistOffset < pageSize)
  let prpage := pr.pageaddr
  let retptr := uint32 (prpage + pr.freelistOffset)
  let fl := s.mem retptr
  let nfree := uint16 (pr.nfree - 1)
  if fl ≠ 0 then
    assert .kheapNfree (0 < nfree)
    let offset := uint32 (fl - prpage)
    assert .kheapOffset (offset < pageSize)
    modify fun s => s.setPageref p { pr with nfree, freelistOffset := uint16 offset }
    pure retptr
  else
    assert .kheapNfree (nfree = 0)
    modify fun s => s.setPageref p { pr with nfree, freelistOffset := invalidOffset }
    pure retptr

/-- The loop in `subpage_kmalloc` that links the blocks of a new page. -/
def linkBlocks (prpage size : Nat) : (left : Nat) → (i fl : Nat) → KheapM Nat
  | 0, _, fl => pure fl
  | left + 1, i, _ => do
      let fl := uint32 (prpage + i * size)
      let next := uint32 (prpage + (i - 1) * size)
      modify fun s => s.setWord fl next
      assert .kheapFreelist (fl ≠ next)
      linkBlocks prpage size left (i + 1) fl

/-- The new page in `subpage_kmalloc`. -/
def newPage (p prpage blktype : Nat) : KheapM Unit := do
  let nfree := pageSize / sizes blktype
  modify fun s => s.setPageref p
    { s.pagerefs p with pageaddrAndBlocktype := mkpab prpage blktype, nfree }
  modify fun s => s.setWord prpage 0
  let fl ← linkBlocks prpage (sizes blktype) (nfree - 1) 1 prpage
  let offset := uint16 (uint32 (fl - prpage))
  modify fun s => s.setPageref p { s.pagerefs p with freelistOffset := offset }
  assert .kheapOffset (offset = (nfree - 1) * sizes blktype)
  modify fun s =>
    { s.setPageref p { s.pagerefs p with nextSamesize := s.sizebases blktype } with
      sizebases := Function.update s.sizebases blktype (some p) }
  modify fun s =>
    { s.setPageref p { s.pagerefs p with nextAll := s.allbase } with allbase := some p }

/-- `subpage_kmalloc`. -/
def subpageKmalloc (sz : Nat) : KheapM Nat := do
  let blktype ← blocktypeOf sz
  let s ← get
  match ← findFree blktype npagerefs (s.sizebases blktype) with
  | some p => doalloc p
  | none =>
      match ← allocpageref with
      | none => pure 0
      | some p =>
          let prpage ← allocKpages 1
          if prpage = 0 then
            freepageref p
            pure 0
          else
            newPage p prpage blktype
            doalloc p

/-- `kmalloc`. -/
def kmalloc (sz : Nat) : KheapM Nat :=
  if largestSubpageSize ≤ sz then
    allocKpages (kmallocNpages sz)
  else
    subpageKmalloc sz

/-! ## Freeing -/

/-- The search for the page of a pointer in `subpage_kfree`. -/
def findPage (ptraddr : Nat) : (fuel : Nat) → (pr : Option Nat) → KheapM (Option Nat)
  | _, none => pure none
  | 0, some _ => halt .kheapLoop
  | fuel + 1, some p => do
      let s ← get
      let pr := s.pagerefs p
      assert .kheapCorrupt (pr.blocktype < nsizes)
      if pr.pageaddr ≤ ptraddr ∧ ptraddr < uint32 (pr.pageaddr + pageSize) then
        pure (some p)
      else
        findPage ptraddr fuel pr.nextAll

/-- `fill_deadbeef`. -/
def fillDeadbeef (ptr len : Nat) : KheapM Unit :=
  modify fun s => { s with
    mem := fun a => if ptr ≤ a ∧ a < ptr + len / 4 * 4 ∧ (a - ptr) % 4 = 0 then 0xdeadbeef
      else s.mem a }

/-- `subpage_kfree` when the page has been found. -/
def freeBlock (p ptraddr : Nat) : KheapM Unit := do
  let s ← get
  let pr := s.pagerefs p
  let prpage := pr.pageaddr
  let size := sizes pr.blocktype
  let offset := uint32 (ptraddr - prpage)
  assert .kheapInvalidAddr (¬(pageSize ≤ offset ∨ offset % size ≠ 0))
  fillDeadbeef ptraddr size
  let fla := uint32 (prpage + offset)
  let next := if pr.freelistOffset = invalidOffset then 0 else uint32 (prpage + pr.freelistOffset)
  modify fun s => s.setWord fla next
  let nfree := uint16 (pr.nfree + 1)
  modify fun s => s.setPageref p { pr with freelistOffset := uint16 offset, nfree }
  assert .kheapNfree (nfree ≤ pageSize / size)
  if nfree = pageSize / size then
    removeLists p pr.blocktype
    freeKpages prpage
    freepageref p

/-- `subpage_kfree`; whether the pointer is one into a page of blocks. -/
def subpageKfree (ptraddr : Nat) : KheapM Bool := do
  let s ← get
  match ← findPage ptraddr npagerefs s.allbase with
  | none => pure false
  | some p =>
      freeBlock p ptraddr
      pure true

/-- `kfree`. -/
def kfree (ptr : Nat) : KheapM Unit := do
  if ptr = 0 then
    pure ()
  else if ← subpageKfree ptr then
    pure ()
  else
    assert .kfreeAlignment (ptr % pageSize = 0)
    freeKpages ptr

end Kheap

end Os161
