import Mathlib.Data.List.Pairwise
import Os161.Lib.Linked
import Os161.Vm.Kheap

/-!
# The invariant of the kernel heap

The pagerefs in use are on the list of all pages and on the list of their block
type. The blocks of a page are those on its free list and those in use, each once.
The runs of pages in use are the pages of the pagerefs and the runs of the large
blocks, and no two of them overlap.

From this the heap's promises follow: blocks in use do not overlap, `kfree` tells
the two kinds of blocks apart, no assertion fails, and a page is given back with
its last block.
-/

namespace Os161

open Arena List

/-! ## Block sizes -/

theorem sizes_spec : ∀ b < nsizes, 16 ≤ sizes b ∧ sizes b ≤ 2048 ∧
    pageSize / sizes b * sizes b = pageSize ∧ sizes b % 4 = 0 := by
  decide

theorem blocks_per_page : ∀ b < nsizes, 2 ≤ pageSize / sizes b ∧ pageSize / sizes b ≤ 256 := by
  decide

/-- The block type that `subpage_kmalloc` chooses. -/
def blockOf (sz : Nat) : Nat :=
  ((List.range nsizes).find? fun i => sz ≤ sizes i).getD 0

theorem find_blockOf {sz : Nat} (small : sz < largestSubpageSize) :
    (range nsizes).find? (fun i => sz ≤ sizes i) = some (blockOf sz) := by
  have found : ((range nsizes).find? fun i => sz ≤ sizes i).isSome := by
    rw [find?_isSome]
    refine ⟨7, by decide, ?_⟩
    simp only [decide_eq_true_eq]
    exact le_of_lt small
  obtain ⟨b, found⟩ := isSome_iff_exists.mp found
  simp [blockOf, found]

theorem blockOf_spec {sz : Nat} (small : sz < largestSubpageSize) :
    blockOf sz < nsizes ∧ sz ≤ sizes (blockOf sz) := by
  have found := find_blockOf small
  constructor
  · simpa using mem_of_find?_eq_some found
  · simpa using find?_some found

/-- The bytes that `kmalloc` sets aside for a request: whole pages, or a block. -/
def Allocation.capacity (a : Allocation) : Nat :=
  if largestSubpageSize ≤ a.sz then kmallocNpages a.sz * pageSize else sizes (blockOf a.sz)

/-- Where the bytes of an allocation are. -/
def Allocation.extent (a : Allocation) : Region :=
  ⟨a.ptr, a.ptr + a.capacity⟩

theorem Allocation.le_capacity {a : Allocation} (word : a.sz + pageSize ≤ 2 ^ 32) :
    a.sz ≤ a.capacity := by
  by_cases large : largestSubpageSize ≤ a.sz
  · simp only [capacity, if_pos large, kmallocNpages]
    rw [show ((a.sz : Int) + pageSize - 1) = ((a.sz + (pageSize - 1) : Nat) : Int) by
      simp only [pageSize]; omega, uint32_natCast]
    simp only [pageSize] at *
    omega
  · rw [capacity, if_neg large]
    exact (blockOf_spec (Nat.lt_of_not_le large)).2

namespace Kheap

variable {s : Kheap}

/-! ## Pagerefs in use -/

/-- The bit of `pagerefs_inuse` for a `struct pageref`. -/
def InUse (s : Kheap) (p : Nat) : Prop :=
  (s.pagerefsInuse (p / 32)).getLsbD (p % 32) = true

instance (s : Kheap) (p : Nat) : Decidable (s.InUse p) :=
  inferInstanceAs (Decidable (_ = true))

variable {j : Nat} {word : BitVec 32} {inuse : Nat → BitVec 32} {p : Nat} {head : Option Nat}
  {nodes : List Nat} {fuel : Nat}

theorem and_bit_eq_zero_iff (word : BitVec 32) (small : j < 32) :
    word &&& (1#32 <<< j) = 0 ↔ word.getLsbD j = false := by
  constructor
  · intro zero
    have bit := congrArg (BitVec.getLsbD · j) zero
    simpa [small] using bit
  · intro clear
    apply BitVec.eq_of_getLsbD_eq
    intro i below
    by_cases same : i = j
    · subst same
      simp [clear]
    · simp [BitVec.getLsbD_shiftLeft]
      omega

theorem exists_clear (notFull : word ≠ 0xffffffff) : ∃ i < 32, word.getLsbD i = false := by
  by_contra all
  apply notFull
  have full : (0xffffffff : BitVec 32) = BitVec.allOnes 32 := rfl
  rw [full]
  apply BitVec.eq_of_getLsbD_eq
  intro i below
  have set : word.getLsbD i = true := by
    by_contra clear
    exact all ⟨i, below, by simpa using clear⟩
  rw [set, BitVec.getLsbD_allOnes]
  simp [below]

/-- The loop over the bits finds a clear one in a word that is not full. -/
theorem firstClear_spec (notFull : word ≠ 0xffffffff) (fuel j : Nat) (enough : fuel + j = 33)
    (before : ∀ i < j, word.getLsbD i = true) :
    ∃ k < 32, firstClear word fuel (1#32 <<< j) j = some k ∧ word.getLsbD k = false := by
  obtain ⟨clear, clearLow, clearBit⟩ := exists_clear notFull
  have notBefore : j ≤ clear := by
    by_contra earlier
    rw [before clear (by omega)] at clearBit
    cases clearBit
  induction fuel generalizing j with
  | zero => omega
  | succ fuel ih =>
      have low : j < 32 := by omega
      have bit : (1#32 <<< j) ≠ 0 := by
        intro zero
        have bit := congrArg (BitVec.getLsbD · j) zero
        simp [low] at bit
      rw [firstClear, if_neg bit]
      by_cases isClear : word.getLsbD j = false
      · refine ⟨j, low, ?_, isClear⟩
        rw [if_pos ((and_bit_eq_zero_iff word low).mpr isClear)]
      · have isSet : ¬word &&& (1#32 <<< j) = 0 := by
          rw [and_bit_eq_zero_iff word low]
          exact isClear
        have upTo : ∀ i < j + 1, word.getLsbD i = true := by
          intro i below
          rcases Nat.lt_succ_iff_lt_or_eq.mp below with earlier | rfl
          · exact before i earlier
          · simpa using isClear
        have shifted : (1#32 <<< j) <<< 1 = 1#32 <<< (j + 1) := (BitVec.shiftLeft_add _ _ _).symm
        rw [if_neg isSet, shifted]
        apply ih (j + 1) (by omega) upTo
        by_contra earlier
        have same : clear = j := by omega
        exact isClear (same ▸ clearBit)

theorem getLsbD_update_or {i : Nat} (low : j < 32) (q : Nat) :
    (Function.update inuse i (inuse i ||| 1#32 <<< j) (q / 32)).getLsbD (q % 32) = true ↔
      q = i * 32 + j ∨ (inuse (q / 32)).getLsbD (q % 32) = true := by
  by_cases sameWord : q / 32 = i
  · subst sameWord
    simp only [update_self, BitVec.getLsbD_or, Bool.or_eq_true, BitVec.getLsbD_shiftLeft]
    by_cases sameBit : q % 32 = j
    · have same : q = q / 32 * 32 + j := by omega
      simp [sameBit, low, ← same]
    · have different : q ≠ q / 32 * 32 + j := by omega
      simp [different]
      omega
  · have different : q ≠ i * 32 + j := by omega
    simp [update_of_ne sameWord, different]

theorem getLsbD_update_and_not (q : Nat) :
    (Function.update inuse (p / 32) (inuse (p / 32) &&& ~~~(1#32 <<< (p % 32))) (q / 32)).getLsbD
        (q % 32) = true ↔
      q ≠ p ∧ (inuse (q / 32)).getLsbD (q % 32) = true := by
  by_cases sameWord : q / 32 = p / 32
  · rw [sameWord, update_self]
    simp only [BitVec.getLsbD_and, BitVec.getLsbD_not, BitVec.getLsbD_shiftLeft]
    by_cases sameBit : q % 32 = p % 32
    · have same : q = p := by omega
      simp [same]
    · have different : q ≠ p := by
        rintro rfl
        exact sameBit rfl
      simp [different]
      intro _
      omega
  · have different : q ≠ p := by
      rintro rfl
      exact sameWord rfl
    simp [update_of_ne sameWord, different]

variable {fails : Errno → Kheap → Prop}

/-- The words after `i` are searched for a pageref that is not in use. -/
theorem allocpagerefFrom_spec (left i : Nat) (words : i + left = inuseWords) :
    Ensures (allocpagerefFrom left i) s (fun _ => False) fails (fun result s' =>
      (result = none ∧ s' = s) ∨
      ∃ p inuse, result = some p ∧ s' = { s with pagerefsInuse := inuse } ∧ p < npagerefs ∧
        ¬s.InUse p ∧ ∀ q, s'.InUse q ↔ q = p ∨ s.InUse q) := by
  induction left generalizing i with
  | zero => exact Or.inl ⟨rfl, rfl⟩
  | succ left ih =>
      rw [allocpagerefFrom, ensures_bind, ensures_get]
      apply ensures_branch
      · intro _
        exact ih (i + 1) (by omega)
      intro notFull
      obtain ⟨j, low, found, clear⟩ := firstClear_spec notFull 33 0 rfl (by simp)
      have start : (1#32 <<< 0 : BitVec 32) = 1 := rfl
      rw [start] at found
      simp only [found, ensures_bind, ensures_modify, ensures_pure]
      right
      refine ⟨i * 32 + j, _, rfl, rfl, ?_, ?_, fun q => getLsbD_update_or low q⟩
      · simp only [inuseWords, npagerefs] at *
        omega
      · have word : (i * 32 + j) / 32 = i := by omega
        have bit : (i * 32 + j) % 32 = j := by omega
        simp [InUse, word, bit, clear]

theorem freepageref_spec (low : p < npagerefs) (inUse : s.InUse p) :
    Ensures (freepageref p) s (fun _ => False) fails (fun _ s' =>
      ∃ inuse, s' = { s with pagerefsInuse := inuse } ∧
        ∀ q, s'.InUse q ↔ q ≠ p ∧ s.InUse q) := by
  rw [freepageref, ensures_bind, ensures_assert_of low, ensures_bind, ensures_get]
  have set : s.pagerefsInuse (p / 32) &&& (1#32 <<< (p % 32)) ≠ 0 := by
    rw [ne_eq, and_bit_eq_zero_iff _ (Nat.mod_lt _ (by omega))]
    simpa [InUse] using inUse
  simp only [ensures_bind]
  rw [ensures_assert_of (by exact set)]
  exact ⟨_, rfl, fun q => getLsbD_update_and_not q⟩

/-! ## The invariant -/

/-- The page of a `struct pageref`. -/
def pageRegion (s : Kheap) (p : Nat) : Region :=
  ⟨(s.pagerefs p).pageaddr, (s.pagerefs p).pageaddr + pageSize⟩

/-- The addresses of the blocks in a page. -/
def blocks (page size : Nat) : List Nat :=
  (List.range (pageSize / size)).map fun i => page + i * size

/-- The blocks of the page of a `struct pageref`. -/
def pageBlocks (s : Kheap) (p : Nat) : List Nat :=
  blocks (s.pagerefs p).pageaddr (sizes (s.pagerefs p).blocktype)

/-- The `next` of a `struct freelist`. -/
def freeNext (mem : Nat → Nat) (addr : Nat) : Option Nat :=
  if mem addr = 0 then none else some (mem addr)

/-- The first block on the free list of a page. -/
def Pageref.freeHead (pr : Pageref) : Option Nat :=
  if pr.freelistOffset = invalidOffset then none else some (pr.pageaddr + pr.freelistOffset)

/-- The allocations that are in a region. -/
def liveIn (s : Kheap) (region : Region) : List Nat :=
  (s.live.map Allocation.ptr).filter fun ptr => region.lo ≤ ptr ∧ ptr < region.hi

/-- The pages that `kmalloc` gave out as they are. -/
def largeRuns (s : Kheap) : List Region :=
  (s.live.filter fun a => largestSubpageSize ≤ a.sz).map Allocation.extent

/-- What a page is: the blocks that are free are linked and counted, and the others are in
use. -/
structure PageOk (s : Kheap) (free : List Nat) (p : Nat) : Prop where
  blocktype : (s.pagerefs p).blocktype < nsizes
  count : (s.pagerefs p).nfree = free.length
  linked : Linked (freeNext s.mem) (Pageref.freeHead (s.pagerefs p)) free
  blocks : (free ++ s.liveIn (s.pageRegion p)).Perm (s.pageBlocks p)

/-- `all` are the pagerefs in use, in the order in which they are linked. -/
structure Lists (s : Kheap) (all : List Nat) : Prop where
  linkedAll : Linked (fun p => (s.pagerefs p).nextAll) s.allbase all
  nodup : all.Nodup
  inUse : ∀ p, p ∈ all ↔ p < npagerefs ∧ s.InUse p
  linkedSame : ∀ b < nsizes, Linked (fun p => (s.pagerefs p).nextSamesize) (s.sizebases b)
    (all.filter fun p => (s.pagerefs p).blocktype = b)

/-- The runs of pages in use are those of the pagerefs and of the large blocks. -/
structure Runs (s : Kheap) (all : List Nat) : Prop where
  top : s.top < 2 ^ 32
  runs : s.runs.Perm (all.map s.pageRegion ++ s.largeRuns)
  apart : s.runs.Pairwise Region.Apart
  placed : ∀ run ∈ s.runs, run.lo ≠ 0 ∧ run.lo % pageSize = 0 ∧ run.lo < run.hi ∧ run.hi ≤ s.top

/-- `free p` are the free blocks of a page. -/
structure Blocks (s : Kheap) (all : List Nat) (free : Nat → List Nat) : Prop where
  pages : ∀ p ∈ all, s.PageOk (free p) p
  words : ∀ a ∈ s.live, a.sz + pageSize ≤ 2 ^ 32
  small : ∀ a ∈ s.live, a.sz < largestSubpageSize → ∃ p ∈ all,
    (s.pagerefs p).blocktype = blockOf a.sz ∧ a.ptr ∈ (s.pageRegion p).addresses
  distinct : (s.live.map Allocation.ptr).Nodup

/-- The invariant of the heap: `all` is the list of its pages, `free` their free lists. -/
structure Ok (s : Kheap) (all : List Nat) (free : Nat → List Nat) : Prop extends
  Lists s all, Runs s all, Blocks s all free

/-- Every page has a block in use. -/
def Busy (s : Kheap) (all : List Nat) : Prop :=
  ∀ p ∈ all, s.liveIn (s.pageRegion p) ≠ []

variable {all : List Nat} {free : Nat → List Nat} {p q : Nat}

variable {page addr b : Nat}

theorem mem_blocks {size : Nat} :
    addr ∈ blocks page size ↔ ∃ i < pageSize / size, addr = page + i * size := by
  simp [blocks, eq_comm]

theorem length_blocks (page size : Nat) : (blocks page size).length = pageSize / size := by
  simp [blocks]

theorem block_inside (type : b < nsizes) (member : addr ∈ blocks page (sizes b)) :
    page ≤ addr ∧ addr + sizes b ≤ page + pageSize ∧ (addr - page) % sizes b = 0 := by
  obtain ⟨i, below, rfl⟩ := mem_blocks.mp member
  obtain ⟨_, _, whole, _⟩ := sizes_spec b type
  have last : (i + 1) * sizes b ≤ pageSize / sizes b * sizes b := Nat.mul_le_mul_right _ below
  rw [Nat.succ_mul, whole] at last
  refine ⟨Nat.le_add_right _ _, by omega, ?_⟩
  rw [Nat.add_sub_cancel_left]
  exact Nat.mul_mod_left _ _

theorem nodup_blocks (type : b < nsizes) (page : Nat) : (blocks page (sizes b)).Nodup := by
  obtain ⟨positive, _, _, _⟩ := sizes_spec b type
  apply nodup_range.map
  intro i j same
  have same : i * sizes b = j * sizes b := Nat.add_left_cancel same
  exact Nat.eq_of_mul_eq_mul_right (by omega) same

theorem blocks_apart {addr' : Nat} (member : addr ∈ blocks page (sizes b))
    (member' : addr' ∈ blocks page (sizes b)) (different : addr ≠ addr') :
    (⟨addr, addr + sizes b⟩ : Region).Apart ⟨addr', addr' + sizes b⟩ := by
  obtain ⟨i, _, rfl⟩ := mem_blocks.mp member
  obtain ⟨j, _, rfl⟩ := mem_blocks.mp member'
  have differentIndex : i ≠ j := by
    rintro rfl
    exact different rfl
  rcases Nat.lt_or_gt_of_ne differentIndex with before | after
  · apply Region.apart_of_le
    have step : (i + 1) * sizes b ≤ j * sizes b := Nat.mul_le_mul_right _ before
    rw [Nat.succ_mul] at step
    simp only
    omega
  · apply Region.Apart.symm
    apply Region.apart_of_le
    have step : (j + 1) * sizes b ≤ i * sizes b := Nat.mul_le_mul_right _ after
    rw [Nat.succ_mul] at step
    simp only
    omega

/-! ## What is apart -/

theorem mem_liveIn {region : Region} {ptr : Nat} :
    ptr ∈ s.liveIn region ↔ ptr ∈ s.live.map Allocation.ptr ∧ ptr ∈ region.addresses := by
  simp [liveIn, Region.mem_addresses]

theorem mem_largeRuns {run : Region} :
    run ∈ s.largeRuns ↔ ∃ a ∈ s.live, largestSubpageSize ≤ a.sz ∧ a.extent = run := by
  simp [largeRuns, and_assoc]

instance {α : Type} (region : α → Region) :
    Std.Symm fun a b => (region a).Apart (region b) :=
  ⟨fun _ _ apart => apart.symm⟩

namespace Ok

variable (ok : s.Ok all free)

include ok

theorem pairwise : (all.map s.pageRegion ++ s.largeRuns).Pairwise Region.Apart :=
  (ok.runs.pairwise_iff fun apart => apart.symm).mp ok.apart

theorem pages_apart (member : p ∈ all) (member' : q ∈ all) (different : p ≠ q) :
    (s.pageRegion p).Apart (s.pageRegion q) := by
  have pages := (pairwise_append.mp ok.pairwise).1
  rw [pairwise_map] at pages
  exact pages.forall member member' different

variable {a a' : Allocation}

theorem page_large_apart (member : p ∈ all) (live : a ∈ s.live)
    (large : largestSubpageSize ≤ a.sz) : (s.pageRegion p).Apart a.extent := by
  have across := (pairwise_append.mp ok.pairwise).2.2
  apply across
  · exact mem_map_of_mem member
  · exact mem_largeRuns.mpr ⟨a, live, large, rfl⟩

theorem large_apart (live : a ∈ s.live) (live' : a' ∈ s.live) (large : largestSubpageSize ≤ a.sz)
    (large' : largestSubpageSize ≤ a'.sz) (different : a ≠ a') : a.extent.Apart a'.extent := by
  have runs := (pairwise_append.mp ok.pairwise).2.1
  rw [largeRuns, pairwise_map] at runs
  apply runs.forall _ _ different
  · simpa using ⟨live, large⟩
  · simpa using ⟨live', large'⟩

theorem small_block (live : a ∈ s.live) (small : a.sz < largestSubpageSize) :
    ∃ p ∈ all, (s.pagerefs p).blocktype = blockOf a.sz ∧ a.ptr ∈ s.pageBlocks p ∧
      a.capacity = sizes (s.pagerefs p).blocktype ∧ a.ptr ∈ (s.pageRegion p).addresses ∧
      (s.pageRegion p).lo ≤ a.extent.lo ∧ a.extent.hi ≤ (s.pageRegion p).hi := by
  obtain ⟨p, member, type, inside⟩ := ok.small a live small
  have page := ok.pages p member
  have capacity : a.capacity = sizes (s.pagerefs p).blocktype := by
    rw [Allocation.capacity, if_neg (Nat.not_le.mpr small), type]
  have block : a.ptr ∈ s.pageBlocks p := by
    apply page.blocks.subset
    apply mem_append_right
    exact mem_liveIn.mpr ⟨mem_map_of_mem live, inside⟩
  obtain ⟨low, high, _⟩ := block_inside page.blocktype block
  refine ⟨p, member, type, block, capacity, inside, low, ?_⟩
  simp only [Allocation.extent, capacity]
  exact high

theorem eq_of_ptr_eq (live : a ∈ s.live) (live' : a' ∈ s.live) (same : a.ptr = a'.ptr) : a = a' :=
  inj_on_of_nodup_map ok.distinct live live' same

theorem extents_apart (live : a ∈ s.live) (live' : a' ∈ s.live) (different : a ≠ a') :
    a.extent.Apart a'.extent := by
  have mixed : ∀ {a a' : Allocation}, a ∈ s.live → a' ∈ s.live → a.sz < largestSubpageSize →
      largestSubpageSize ≤ a'.sz → a.extent.Apart a'.extent := by
    intro a a' live live' small large
    obtain ⟨p, member, _, _, _, _, within⟩ := ok.small_block live small
    exact (ok.page_large_apart member live' large).mono within ⟨le_refl _, le_refl _⟩
  rcases Nat.lt_or_ge a.sz largestSubpageSize with small | large <;>
    rcases Nat.lt_or_ge a'.sz largestSubpageSize with small' | large'
  · obtain ⟨p, member, type, block, capacity, _, within⟩ := ok.small_block live small
    obtain ⟨q, member', type', block', capacity', _, within'⟩ := ok.small_block live' small'
    by_cases samePage : p = q
    · subst samePage
      have differentPtr : a.ptr ≠ a'.ptr := fun same =>
        different (ok.eq_of_ptr_eq live live' same)
      simp only [Allocation.extent, capacity, capacity']
      exact blocks_apart block block' differentPtr
    · exact (ok.pages_apart member member' samePage).mono within within'
  · exact mixed live live' small large'
  · exact (mixed live' live small' large).symm
  · exact ok.large_apart live live' large large' different

theorem free_block (member : p ∈ all) {addr : Nat} (isFree : addr ∈ free p) :
    addr ∈ s.pageBlocks p :=
  (ok.pages p member).blocks.subset (mem_append_left _ isFree)

theorem nodup_free_live (member : p ∈ all) : (free p ++ s.liveIn (s.pageRegion p)).Nodup :=
  (ok.pages p member).blocks.nodup_iff.mpr (nodup_blocks (ok.pages p member).blocktype _)

theorem free_apart (member : p ∈ all) {addr : Nat} (isFree : addr ∈ free p) (live : a ∈ s.live) :
    (⟨addr, addr + sizes (s.pagerefs p).blocktype⟩ : Region).Apart a.extent := by
  have block := ok.free_block member isFree
  obtain ⟨low, high, _⟩ := block_inside (ok.pages p member).blocktype block
  rcases Nat.lt_or_ge a.sz largestSubpageSize with small | large
  · obtain ⟨q, member', _, block', capacity, inside, within⟩ := ok.small_block live small
    by_cases samePage : p = q
    · subst samePage
      simp only [Allocation.extent, capacity]
      apply blocks_apart block block'
      rintro rfl
      have disjoint := disjoint_of_nodup_append (ok.nodup_free_live member)
      exact disjoint isFree (mem_liveIn.mpr ⟨mem_map_of_mem live, inside⟩)
    · exact (ok.pages_apart member member' samePage).mono ⟨low, high⟩ within
  · exact (ok.page_large_apart member live large).mono ⟨low, high⟩ ⟨le_refl _, le_refl _⟩

theorem page_placed (member : p ∈ all) :
    (s.pagerefs p).pageaddr ≠ 0 ∧ (s.pagerefs p).pageaddr % pageSize = 0 ∧
      (s.pagerefs p).pageaddr + pageSize ≤ s.top := by
  have run : s.pageRegion p ∈ s.runs :=
    ok.runs.mem_iff.mpr (mem_append_left _ (mem_map_of_mem member))
  obtain ⟨nonzero, aligned, _, high⟩ := ok.placed _ run
  exact ⟨nonzero, aligned, high⟩

end Ok

/-! ## Searching -/

theorem findFree_spec (linked : Linked (fun p => (s.pagerefs p).nextSamesize) head nodes)
    (types : ∀ p ∈ nodes, (s.pagerefs p).blocktype = b) (enough : nodes.length ≤ fuel) :
    Ensures (findFree b fuel head) s (fun _ => False) fails (fun result s' =>
      s' = s ∧ (result = none ∨ ∃ p ∈ nodes, result = some p ∧ 0 < (s.pagerefs p).nfree)) := by
  induction nodes generalizing head fuel with
  | nil =>
      cases linked
      cases fuel <;> exact ⟨rfl, Or.inl rfl⟩
  | cons p rest ih =>
      obtain ⟨rfl, linked⟩ := linked
      cases fuel with
      | zero => simp at enough
      | succ fuel =>
          rw [findFree, ensures_bind, ensures_get]
          refine ensures_assert_then ?_ fun _ => ?_
          · intro wrong
            exact wrong (types p mem_cons_self)
          apply ensures_branch
          · intro found
            exact ⟨rfl, Or.inr ⟨p, mem_cons_self, rfl, found⟩⟩
          · intro _
            apply (ih linked (fun q member => types q (mem_cons_of_mem _ member))
              (by simpa using enough)).imp
            rintro result s' ⟨rfl, missing | ⟨q, member, found⟩⟩
            · exact ⟨rfl, Or.inl missing⟩
            · exact ⟨rfl, Or.inr ⟨q, mem_cons_of_mem _ member, found⟩⟩

theorem findPage_spec {ptraddr : Nat} (linked : Linked (fun p => (s.pagerefs p).nextAll) head nodes)
    (types : ∀ p ∈ nodes, (s.pagerefs p).blocktype < nsizes)
    (words : ∀ p ∈ nodes, (s.pagerefs p).pageaddr + pageSize < 2 ^ 32)
    (enough : nodes.length ≤ fuel) :
    Ensures (findPage ptraddr fuel head) s (fun _ => False) fails (fun result s' =>
      s' = s ∧ ((result = none ∧ ∀ p ∈ nodes, ptraddr ∉ (s.pageRegion p).addresses) ∨
        ∃ p ∈ nodes, result = some p ∧ ptraddr ∈ (s.pageRegion p).addresses)) := by
  induction nodes generalizing head fuel with
  | nil =>
      cases linked
      cases fuel <;> exact ⟨rfl, Or.inl ⟨rfl, fun _ member => absurd member not_mem_nil⟩⟩
  | cons p rest ih =>
      obtain ⟨rfl, linked⟩ := linked
      cases fuel with
      | zero => simp at enough
      | succ fuel =>
          have last : uint32 ((s.pagerefs p).pageaddr + pageSize) =
              (s.pagerefs p).pageaddr + pageSize := by
            rw [← Nat.cast_add, uint32_natCast]
            exact Nat.mod_eq_of_lt (words p mem_cons_self)
          rw [findPage, ensures_bind, ensures_get]
          refine ensures_assert_then ?_ fun _ => ?_
          · intro wrong
            exact wrong (types p mem_cons_self)
          simp only [last]
          apply ensures_branch
          · intro found
            exact ⟨rfl, Or.inr ⟨p, mem_cons_self, rfl, Region.mem_addresses.mpr found⟩⟩
          · intro elsewhere
            apply (ih linked (fun q member => types q (mem_cons_of_mem _ member))
              (fun q member => words q (mem_cons_of_mem _ member))
              (by simpa using enough)).imp
            rintro result s' ⟨rfl, ⟨missing, others⟩ | ⟨q, member, found⟩⟩
            · refine ⟨rfl, Or.inl ⟨missing, ?_⟩⟩
              intro q member
              rcases mem_cons.mp member with rfl | member
              · exact fun inside => elsewhere (Region.mem_addresses.mp inside)
              · exact others q member
            · exact ⟨rfl, Or.inr ⟨q, mem_cons_of_mem _ member, found⟩⟩

end Kheap

end Os161
