import Mathlib.Data.List.Perm.Subperm
import Os161.Vm.KheapInv

/-!
# Allocating blocks

A block comes from the head of the free list of a page of the right block type. When
no such page has a free block, a new one is cut into blocks, linked from the last to
the first.
-/

namespace Os161

open Arena Pageref Region List Function

attribute [local irreducible] uint16 uint32

theorem Allocation.capacity_pos {a : Allocation} (word : a.sz + pageSize ≤ 2 ^ 32) :
    0 < a.capacity := by
  rcases Nat.lt_or_ge a.sz largestSubpageSize with small | large
  · have least := (sizes_spec _ (blockOf_spec small).1).1
    rw [Allocation.capacity, if_neg (Nat.not_le.mpr small)]
    omega
  · have enough := a.le_capacity word
    simp only [largestSubpageSize] at large
    omega

namespace Kheap

variable {s s' : Kheap} {all : List Nat} {free : Nat → List Nat} {p q : Nat}
  {fails : Errno → Kheap → Prop}

/-! ## What an operation leaves alone -/

theorem Lists.congr (lists : s.Lists all)
    (nextAll : ∀ q, (s'.pagerefs q).nextAll = (s.pagerefs q).nextAll)
    (nextSamesize : ∀ q, (s'.pagerefs q).nextSamesize = (s.pagerefs q).nextSamesize)
    (types : ∀ q, (s'.pagerefs q).blocktype = (s.pagerefs q).blocktype)
    (allbase : s'.allbase = s.allbase) (sizebases : s'.sizebases = s.sizebases)
    (inUse : ∀ q, s'.InUse q ↔ s.InUse q) : s'.Lists all where
  linkedAll := by
    simp only [nextAll, allbase]
    exact lists.linkedAll
  nodup := lists.nodup
  inUse q := by
    rw [inUse]
    exact lists.inUse q
  linkedSame b type := by
    simp only [nextSamesize, types, sizebases]
    exact lists.linkedSame b type

theorem Runs.congr (runs : s.Runs all)
    (pages : ∀ q, (s'.pagerefs q).pageaddr = (s.pagerefs q).pageaddr)
    (sameRuns : s'.runs = s.runs) (top : s'.top = s.top)
    (large : s'.largeRuns = s.largeRuns) : s'.Runs all := by
  have regions : s'.pageRegion = s.pageRegion := by
    funext q
    simp only [pageRegion, pages]
  constructor
  · rw [top]
    exact runs.top
  · rw [sameRuns, regions, large]
    exact runs.runs
  · rw [sameRuns]
    exact runs.apart
  · rw [sameRuns, top]
    exact runs.placed

variable {blocks : List Nat} {sz : Nat} {pr : Pageref} {addr page : Nat} {inuse : Nat → BitVec 32}

theorem PageOk.of_fields (page : s.PageOk blocks p)
    (packed : (s'.pagerefs p).pageaddrAndBlocktype = (s.pagerefs p).pageaddrAndBlocktype)
    (offset : (s'.pagerefs p).freelistOffset = (s.pagerefs p).freelistOffset)
    (nfree : (s'.pagerefs p).nfree = (s.pagerefs p).nfree)
    (mem : ∀ addr ∈ blocks, s'.mem addr = s.mem addr)
    (live : s'.liveIn (s.pageRegion p) = s.liveIn (s.pageRegion p)) : s'.PageOk blocks p := by
  have pageaddr : (s'.pagerefs p).pageaddr = (s.pagerefs p).pageaddr := congrArg pageFrame packed
  have type : (s'.pagerefs p).blocktype = (s.pagerefs p).blocktype :=
    congrArg (· % pageSize) packed
  constructor
  · rw [type]
    exact page.blocktype
  · rw [nfree]
    exact page.count
  · simp only [Pageref.freeHead, pageaddr, offset]
    apply page.linked.congr
    intro addr member
    simp only [freeNext, mem addr member]
  · simp only [pageRegion, pageBlocks, pageaddr, type] at *
    rw [live]
    exact page.blocks

theorem PageOk.congr (page : s.PageOk blocks p) (pageref : s'.pagerefs p = s.pagerefs p)
    (mem : ∀ addr ∈ blocks, s'.mem addr = s.mem addr)
    (live : s'.liveIn (s.pageRegion p) = s.liveIn (s.pageRegion p)) : s'.PageOk blocks p :=
  page.of_fields (by rw [pageref]) (by rw [pageref]) (by rw [pageref]) mem live

/-- The caller of `kmalloc` has got `ptr`. -/
def allocated (s : Kheap) (ptr sz : Nat) : Kheap :=
  { s with live := ⟨ptr, sz⟩ :: s.live }

theorem liveIn_allocated {ptr : Nat} {region : Region} :
    (s.allocated ptr sz).liveIn region =
      if region.lo ≤ ptr ∧ ptr < region.hi then ptr :: s.liveIn region else s.liveIn region := by
  simp only [liveIn, allocated, map_cons, filter_cons, decide_eq_true_eq]

theorem largeRuns_allocated_small {ptr : Nat} (small : sz < largestSubpageSize) :
    (s.allocated ptr sz).largeRuns = s.largeRuns := by
  simp only [largeRuns, allocated, filter_cons, decide_eq_true_eq, if_neg (Nat.not_le.mpr small)]

/-! ## Taking a free block -/

/-- `pr->nfree` and `pr->freelist_offset` are set. -/
def refill (pr : Pageref) (nfree offset : Nat) : Pageref :=
  { pr with nfree, freelistOffset := offset }

theorem PageOk.length_le (page : s.PageOk blocks p) :
    blocks.length ≤ pageSize / sizes (s.pagerefs p).blocktype := by
  have total := page.blocks.length_eq
  rw [length_append, pageBlocks, length_blocks] at total
  omega

theorem freeHead_eq_some :
    Pageref.freeHead pr = some addr ↔
      pr.freelistOffset ≠ invalidOffset ∧ pr.pageaddr + pr.freelistOffset = addr := by
  rw [Pageref.freeHead]
  split_ifs with invalid <;> simp [invalid]

theorem PageOk.block {blocks : List Nat} (page : s.PageOk blocks p) {addr : Nat}
    (member : addr ∈ blocks) : (s.pagerefs p).pageaddr ≤ addr ∧
      addr + sizes (s.pagerefs p).blocktype ≤ (s.pagerefs p).pageaddr + pageSize := by
  have block := page.blocks.subset (mem_append_left _ member)
  obtain ⟨low, high, _⟩ := block_inside page.blocktype block
  exact ⟨low, high⟩

theorem doalloc_spec {rest : List Nat} (page : s.PageOk (addr :: rest) p)
    (word : (s.pagerefs p).pageaddr + pageSize < 2 ^ 32) :
    Ensures (doalloc p) s (fun _ => False) fails (fun result s' =>
      result = addr ∧ ∃ offset, s' = s.setPageref p (refill (s.pagerefs p) rest.length offset) ∧
        Linked (freeNext s.mem) (Pageref.freeHead (refill (s.pagerefs p) rest.length offset))
          rest) := by
  obtain ⟨head, linked⟩ := page.linked
  obtain ⟨_, addrEq⟩ := freeHead_eq_some.mp head
  obtain ⟨low, high⟩ := page.block mem_cons_self
  have size := (sizes_spec _ page.blocktype).1
  have length := page.length_le
  have most := (blocks_per_page _ page.blocktype).2
  have retptr : uint32 ((s.pagerefs p).pageaddr + (s.pagerefs p).freelistOffset) = addr := by
    rw [← Nat.cast_add, addrEq, uint32_natCast]
    exact Nat.mod_eq_of_lt (by omega)
  have nfree : uint16 ((s.pagerefs p).nfree - 1) = rest.length := by
    rw [page.count]
    simp only [length_cons, Nat.cast_add, Nat.cast_one, add_sub_cancel_right] at *
    exact uint16_eq (by omega)
  rw [doalloc, ensures_bind, ensures_get]
  refine ensures_assert_then (fun wrong => wrong (by omega)) fun _ => ?_
  simp only [retptr, nfree]
  cases rest with
  | nil =>
      have null : s.mem addr = 0 := by
        by_contra link
        simp [Linked, freeNext, link] at linked
      apply ensures_branch
      · intro link
        exact absurd null link
      intro _
      refine ensures_assert_then (fun wrong => wrong nfree) fun _ => ?_
      exact ⟨rfl, invalidOffset, rfl, rfl⟩
  | cons next rest =>
      obtain ⟨link, linked⟩ := linked
      obtain ⟨nextLow, nextHigh⟩ := page.block (mem_cons_of_mem _ mem_cons_self)
      have linkEq : s.mem addr = next := by
        rw [freeNext] at link
        split_ifs at link
        exact Option.some.inj link
      have nonzero : s.mem addr ≠ 0 := by
        intro null
        simp [freeNext, null] at link
      have offset : uint32 (s.mem addr - (s.pagerefs p).pageaddr) =
          next - (s.pagerefs p).pageaddr := by
        rw [linkEq, ← Nat.cast_sub nextLow, uint32_natCast]
        exact Nat.mod_eq_of_lt (by omega)
      have short : uint16 (next - (s.pagerefs p).pageaddr : Nat) =
          next - (s.pagerefs p).pageaddr := by
        apply uint16_eq
        simp only [pageSize] at nextHigh
        omega
      apply ensures_branch
      · intro _
        refine ensures_assert_then (fun wrong => wrong ?_) fun _ => ?_
        · rw [nfree]
          exact Nat.succ_pos _
        refine ensures_assert_then (fun wrong => wrong ?_) fun _ => ?_
        · rw [retptr, offset]
          omega
        simp only [offset, short]
        refine ⟨rfl, _, rfl, ?_, linked⟩
        apply freeHead_eq_some.mpr
        simp only [refill, Pageref.pageaddr, invalidOffset, pageSize] at *
        constructor <;> omega
      · intro null
        exact absurd nonzero null

theorem Ok.free_not_live (ok : s.Ok all free) (member : p ∈ all) (isFree : addr ∈ free p) :
    addr ∉ s.live.map Allocation.ptr := by
  intro used
  obtain ⟨a, live, rfl⟩ := mem_map.mp used
  have size := (sizes_spec _ (ok.pages p member).blocktype).1
  have capacity := a.capacity_pos (ok.words a live)
  apply (ok.free_apart member isFree live).ne _ _ rfl
  · exact a.ptr
  · exact mem_addresses.mpr ⟨le_refl _, by simp only; omega⟩
  · exact mem_addresses.mpr ⟨le_refl _, Nat.lt_add_of_pos_right capacity⟩

theorem Ok.not_mem_page (ok : s.Ok all free) (member : p ∈ all) (member' : q ∈ all)
    (different : p ≠ q) (inside : addr ∈ (s.pageRegion p).addresses) :
    addr ∉ (s.pageRegion q).addresses :=
  fun inside' => (ok.pages_apart member member' different).ne inside inside' rfl

theorem setPageref_self : (s.setPageref p pr).pagerefs p = pr :=
  update_self _ _ _

theorem setPageref_of_ne (different : q ≠ p) : (s.setPageref p pr).pagerefs q = s.pagerefs q :=
  update_of_ne different _ _

/-- The free list of one page is set. -/
def refilled (s : Kheap) (p nfree offset : Nat) : Kheap :=
  s.setPageref p (refill (s.pagerefs p) nfree offset)

theorem refilled_part {α : Type} (part : Pageref → α)
    (same : ∀ pr nfree offset, part (refill pr nfree offset) = part pr) (nfree offset : Nat)
    (q : Nat) : part ((s.refilled p nfree offset).pagerefs q) = part (s.pagerefs q) := by
  by_cases samePage : q = p
  · subst samePage
    rw [refilled, setPageref_self, same]
  · rw [refilled, setPageref_of_ne samePage]

theorem Lists.refilled (lists : s.Lists all) (p nfree offset : Nat) :
    (s.refilled p nfree offset).Lists all := by
  apply lists.congr
  · exact refilled_part nextAll (fun _ _ _ => rfl) nfree offset
  · exact refilled_part nextSamesize (fun _ _ _ => rfl) nfree offset
  · exact refilled_part blocktype (fun _ _ _ => rfl) nfree offset
  · rfl
  · rfl
  · exact fun _ => Iff.rfl

theorem Runs.refilled (runs : s.Runs all) (p nfree offset : Nat) :
    (s.refilled p nfree offset).Runs all := by
  apply runs.congr
  · exact refilled_part Pageref.pageaddr (fun _ _ _ => rfl) nfree offset
  · rfl
  · rfl
  · rfl

theorem blocktype_refilled (nfree offset q : Nat) :
    ((s.refilled p nfree offset).pagerefs q).blocktype = (s.pagerefs q).blocktype :=
  refilled_part blocktype (fun _ _ _ => rfl) nfree offset q

theorem pageaddr_refilled (nfree offset q : Nat) :
    ((s.refilled p nfree offset).pagerefs q).pageaddr = (s.pagerefs q).pageaddr :=
  refilled_part Pageref.pageaddr (fun _ _ _ => rfl) nfree offset q

theorem pageRegion_refilled (nfree offset q : Nat) :
    (s.refilled p nfree offset).pageRegion q = s.pageRegion q := by
  simp only [pageRegion, pageaddr_refilled]

theorem pageBlocks_refilled (nfree offset q : Nat) :
    (s.refilled p nfree offset).pageBlocks q = s.pageBlocks q := by
  simp only [pageBlocks, pageaddr_refilled, blocktype_refilled]

section Alloc

variable {addr sz offset : Nat} {rest : List Nat}

theorem Ok.alloc (ok : s.Ok all free) (member : p ∈ all) (first : free p = addr :: rest)
    (small : sz < largestSubpageSize) (type : (s.pagerefs p).blocktype = blockOf sz)
    (linked : Linked (freeNext s.mem)
      (Pageref.freeHead (refill (s.pagerefs p) rest.length offset)) rest) :
    ((s.refilled p rest.length offset).allocated addr sz).Ok all
      (update free p rest) := by
  have page := ok.pages p member
  have isFree : addr ∈ free p := by
    rw [first]
    exact mem_cons_self
  have fresh := ok.free_not_live member isFree
  obtain ⟨low, high⟩ := page.block isFree
  have size := (sizes_spec _ page.blocktype).1
  have inside : addr ∈ (s.pageRegion p).addresses :=
    mem_addresses.mpr ⟨low, by simp only [pageRegion]; omega⟩
  refine ⟨(ok.toLists.refilled p _ _).congr (fun _ => rfl) (fun _ => rfl) (fun _ => rfl) rfl rfl
    (fun _ => Iff.rfl), (ok.toRuns.refilled p _ _).congr (fun _ => rfl) rfl rfl
    (largeRuns_allocated_small small), ?_, ?_, ?_, ?_⟩
  · intro q member'
    by_cases same : q = p
    · subst same
      rw [update_self]
      have live : ((s.refilled q rest.length offset).allocated addr sz).liveIn (s.pageRegion q) =
          addr :: s.liveIn (s.pageRegion q) := by
        rw [liveIn_allocated]
        exact if_pos (mem_addresses.mp inside)
      constructor
      · exact (blocktype_refilled rest.length offset q).symm ▸ page.blocktype
      · exact congrArg nfree setPageref_self
      · exact (congrArg (fun pr => Linked _ (Pageref.freeHead pr) rest) setPageref_self).mpr linked
      · have regions := pageRegion_refilled (s := s) (p := q) rest.length offset q
        have blocks := pageBlocks_refilled (s := s) (p := q) rest.length offset q
        change (rest ++ _).Perm ((s.refilled q rest.length offset).pageBlocks q)
        change (rest ++ Kheap.liveIn _ ((s.refilled q rest.length offset).pageRegion q)).Perm _
        rw [regions, blocks, live]
        have perm := page.blocks
        rw [first] at perm
        exact perm_middle.trans perm
    · rw [update_of_ne same]
      apply (ok.pages q member').congr
      · exact setPageref_of_ne same
      · exact fun _ _ => rfl
      · rw [liveIn_allocated]
        apply if_neg
        exact fun within => ok.not_mem_page member member' (Ne.symm same) inside
          (mem_addresses.mpr within)
  · intro a live
    rcases mem_cons.mp live with rfl | live
    · simp only [largestSubpageSize, pageSize] at *
      omega
    · exact ok.words a live
  · intro a live smallA
    rcases mem_cons.mp live with rfl | live
    · refine ⟨p, member, (blocktype_refilled rest.length offset p).trans type, ?_⟩
      exact (pageRegion_refilled rest.length offset p).symm ▸ inside
    · obtain ⟨q, member', type', inside'⟩ := ok.small a live smallA
      refine ⟨q, member', (blocktype_refilled rest.length offset q).trans type', ?_⟩
      exact (pageRegion_refilled rest.length offset q).symm ▸ inside'
  · exact nodup_cons.mpr ⟨fresh, ok.distinct⟩

end Alloc

/-! ## Taking pages -/

/-- `alloc_kpages` has given a run of pages out. -/
def taken (s : Kheap) (run : Region) : Kheap :=
  { s with runs := run :: s.runs }

theorem allocKpages_spec (npages : Nat) {panics : Panic → Prop} :
    Ensures (allocKpages npages) s panics fails (fun result s' =>
      (result = 0 ∧ s' = s) ∨
      (result = s.offer ∧ s.Fresh ⟨s.offer, s.offer + npages * pageSize⟩ ∧
        s' = s.taken ⟨s.offer, s.offer + npages * pageSize⟩)) := by
  rw [allocKpages, ensures_bind, ensures_get]
  apply ensures_branch
  · intro fresh
    exact Or.inr ⟨rfl, fresh, rfl⟩
  · intro _
    exact Or.inl ⟨rfl, rfl⟩

section Fresh

variable {run : Region} (fresh : s.Fresh run)

include fresh

theorem Fresh.apart {used : Region} (member : used ∈ s.runs) : run.Apart used := by
  rcases fresh.2.2.2 used member with before | after
  · exact (apart_of_le before).symm
  · exact apart_of_le after

variable (ok : s.Ok all free)

include ok

theorem Fresh.page_apart (member : p ∈ all) : run.Apart (s.pageRegion p) := by
  apply fresh.apart
  exact ok.runs.mem_iff.mpr (mem_append_left _ (mem_map_of_mem member))

theorem Fresh.extent_apart {a : Allocation} (live : a ∈ s.live) : run.Apart a.extent := by
  rcases Nat.lt_or_ge a.sz largestSubpageSize with small | large
  · obtain ⟨p, member, _, _, _, _, within⟩ := ok.small_block live small
    exact (fresh.page_apart ok member).mono ⟨le_refl _, le_refl _⟩ within
  · apply fresh.apart
    exact ok.runs.mem_iff.mpr (mem_append_right _ (mem_largeRuns.mpr ⟨a, live, large, rfl⟩))

theorem Fresh.not_live {ptr : Nat} (inside : ptr ∈ run.addresses) :
    ptr ∉ s.live.map Allocation.ptr := by
  intro used
  obtain ⟨a, live, rfl⟩ := mem_map.mp used
  have capacity := a.capacity_pos (ok.words a live)
  apply (fresh.extent_apart ok live).ne inside _ rfl
  exact mem_addresses.mpr ⟨le_refl _, Nat.lt_add_of_pos_right capacity⟩

theorem Fresh.liveIn_eq_nil : s.liveIn run = [] := by
  apply eq_nil_iff_forall_not_mem.mpr
  intro ptr live
  obtain ⟨used, inside⟩ := mem_liveIn.mp live
  exact fresh.not_live ok inside used

theorem Fresh.taken_runs (nonempty : run.lo < run.hi) :
    (run :: s.runs).Pairwise Region.Apart ∧ ∀ used ∈ run :: s.runs,
      used.lo ≠ 0 ∧ used.lo % pageSize = 0 ∧ used.lo < used.hi ∧ used.hi ≤ s.top := by
  constructor
  · exact pairwise_cons.mpr ⟨fun used member => fresh.apart member, ok.apart⟩
  · intro used member
    rcases mem_cons.mp member with rfl | member
    · exact ⟨fresh.1, fresh.2.1, nonempty, fresh.2.2.1⟩
    · exact ok.placed used member

end Fresh

theorem Ok.large {ptr sz : Nat} (ok : s.Ok all free) (large : largestSubpageSize ≤ sz)
    (word : sz + pageSize ≤ 2 ^ 32) (fresh : s.Fresh (Allocation.mk ptr sz).extent) :
    ((s.taken (Allocation.mk ptr sz).extent).allocated ptr sz).Ok all free := by
  have capacity := Allocation.capacity_pos (a := ⟨ptr, sz⟩) word
  have inside : ptr ∈ (Allocation.mk ptr sz).extent.addresses :=
    mem_addresses.mpr ⟨le_refl _, Nat.lt_add_of_pos_right capacity⟩
  obtain ⟨apart, placed⟩ := fresh.taken_runs ok (Nat.lt_add_of_pos_right capacity)
  have largeRuns : ((s.taken (Allocation.mk ptr sz).extent).allocated ptr sz).largeRuns =
      (Allocation.mk ptr sz).extent :: s.largeRuns := by
    simp only [Kheap.largeRuns, allocated, filter_cons, decide_eq_true_eq, if_pos large, map_cons]
    rfl
  refine ⟨ok.toLists.congr (fun _ => rfl) (fun _ => rfl) (fun _ => rfl) rfl rfl
    (fun _ => Iff.rfl), ⟨ok.top, ?_, apart, placed⟩, ?_, ?_, ?_, ?_⟩
  · rw [largeRuns]
    exact (ok.runs.cons _).trans perm_middle.symm
  · intro q member
    refine (ok.pages q member).congr rfl (fun _ _ => rfl) ?_
    rw [liveIn_allocated]
    apply if_neg
    intro within
    exact (fresh.page_apart ok member).ne inside (mem_addresses.mpr within) rfl
  · intro a live
    rcases mem_cons.mp live with rfl | live
    · exact word
    · exact ok.words a live
  · intro a live small
    rcases mem_cons.mp live with rfl | live
    · exact absurd large (Nat.not_le.mpr small)
    · exact ok.small a live small
  · exact nodup_cons.mpr ⟨fresh.not_live ok inside, ok.distinct⟩

/-! ## A new page -/

/-- The first `n` blocks of a page, from the last to the first. -/
def blocksDown (page size : Nat) : Nat → List Nat
  | 0 => []
  | n + 1 => (page + n * size) :: blocksDown page size n

theorem blocksDown_eq (page size n : Nat) :
    blocksDown page size n = ((range n).map fun i => page + i * size).reverse := by
  induction n with
  | zero => rfl
  | succ n ih => simp [blocksDown, range_succ, ih]

theorem mem_blocksDown {size n : Nat} :
    addr ∈ blocksDown page size n ↔ ∃ i < n, addr = page + i * size := by
  simp [blocksDown_eq, eq_comm]

theorem freeNext_setWord (mem : Nat → Nat) (addr word : Nat) :
    freeNext (update mem addr word) =
      update (freeNext mem) addr (if word = 0 then none else some word) := by
  funext a
  by_cases same : a = addr
  · subst same
    simp [freeNext]
  · simp [freeNext, same]

/-- The blocks up to `i` are linked, and the loop links the rest. -/
theorem linkBlocks_spec {size n : Nat} (positive : 0 < size) (nonzero : page ≠ 0)
    (word : page + n * size < 2 ^ 32) (left i : Nat) (count : i + 1 + left = n) {fl : Nat}
    (start : fl = page + i * size)
    (linked : Linked (freeNext s.mem) (some (page + i * size)) (blocksDown page size (i + 1))) :
    Ensures (linkBlocks page size left (i + 1) fl) s (fun _ => False) fails
      (fun fl s' => fl = page + (n - 1) * size ∧ ∃ mem, s' = { s with mem } ∧
        (∀ addr, addr < page ∨ page + n * size ≤ addr → mem addr = s.mem addr) ∧
        Linked (freeNext mem) (some (page + (n - 1) * size)) (blocksDown page size n)) := by
  induction left generalizing s i fl with
  | zero =>
      have last : n = i + 1 := by omega
      subst last
      exact ⟨start, s.mem, rfl, fun _ _ => rfl, linked⟩
  | succ left ih =>
      have inside : (i + 1 + 1) * size ≤ n * size := Nat.mul_le_mul_right _ (by omega)
      simp only [Nat.succ_mul] at inside
      have node : uint32 (page + (i + 1 : Nat) * size) = page + (i + 1) * size := by
        rw [← Nat.cast_mul, ← Nat.cast_add, uint32_natCast]
        apply Nat.mod_eq_of_lt
        simp only [Nat.succ_mul]
        omega
      have next : uint32 (page + ((i + 1 : Nat) - 1) * size) = page + i * size := by
        rw [Nat.cast_succ, add_sub_cancel_right, ← Nat.cast_mul, ← Nat.cast_add, uint32_natCast]
        apply Nat.mod_eq_of_lt
        omega
      have absent : page + (i + 1) * size ∉ blocksDown page size (i + 1) := by
        intro member
        obtain ⟨j, earlier, same⟩ := mem_blocksDown.mp member
        have smaller : j * size < (i + 1) * size := Nat.mul_lt_mul_of_pos_right earlier positive
        omega
      have pushed := linked.push absent
      have links := freeNext_setWord s.mem (page + (i + 1) * size) (page + i * size)
      rw [if_neg (by omega)] at links
      rw [← links] at pushed
      rw [linkBlocks]
      simp only [node, next]
      rw [ensures_bind, ensures_modify]
      refine ensures_assert_then (fun wrong => wrong ?_) fun _ => ?_
      · rw [node, next, Nat.succ_mul]
        omega
      apply (ih (i + 1) (by omega) rfl pushed).imp
      rintro _ _ ⟨last, mem, rfl, others, linked⟩
      refine ⟨last, mem, rfl, ?_, linked⟩
      intro addr outside
      rw [others addr outside]
      apply update_of_ne
      simp only [Nat.succ_mul]
      omega

/-- The `struct pageref` that `subpage_kmalloc` fills in for a new page. -/
def newPageref (s : Kheap) (page b : Nat) : Pageref where
  nextSamesize := s.sizebases b
  nextAll := s.allbase
  pageaddrAndBlocktype := mkpab page b
  freelistOffset := (pageSize / sizes b - 1) * sizes b
  nfree := pageSize / sizes b

/-- A new page is put on the list of its size and on that of all pages. -/
def withPage (s : Kheap) (p page b : Nat) (mem : Nat → Nat) : Kheap :=
  { s with
    pagerefs := Function.update s.pagerefs p (s.newPageref page b)
    mem
    sizebases := Function.update s.sizebases b (some p)
    allbase := some p }

theorem newPageref_pageaddr {b : Nat} (aligned : page % pageSize = 0) (type : b < nsizes) :
    (s.newPageref page b).pageaddr = page ∧ (s.newPageref page b).blocktype = b := by
  simp only [newPageref, Pageref.pageaddr, blocktype, mkpab, pageFrame, pageSize, nsizes] at *
  constructor <;> omega

theorem newPage_spec {b : Nat} (type : b < nsizes) (nonzero : page ≠ 0)
    (word : page + pageSize < 2 ^ 32) :
    Ensures (newPage p page b) s (fun _ => False) fails (fun _ s' =>
      ∃ mem, s' = s.withPage p page b mem ∧
        (∀ addr, addr < page ∨ page + pageSize ≤ addr → mem addr = s.mem addr) ∧
        Linked (freeNext mem) (some (page + (pageSize / sizes b - 1) * sizes b))
          (blocksDown page (sizes b) (pageSize / sizes b))) := by
  obtain ⟨size, _, whole, _⟩ := sizes_spec b type
  obtain ⟨two, _⟩ := blocks_per_page b type
  have positive : 0 < sizes b := by omega
  have first : Linked (freeNext (update s.mem page 0)) (some (page + 0 * sizes b))
      (blocksDown page (sizes b) 1) := by
    refine ⟨rfl, ?_⟩
    simp only [freeNext, Nat.zero_mul, Nat.add_zero, update_self, if_true]
    exact rfl
  rw [newPage]
  simp only [ensures_bind, ensures_modify]
  apply (linkBlocks_spec positive nonzero (whole.symm ▸ word) (pageSize / sizes b - 1) 0 (by omega)
    (by simp) first).imp
  rintro fl _ ⟨rfl, mem, rfl, others, linked⟩
  have inside : (pageSize / sizes b - 1) * sizes b + sizes b = pageSize := by
    rw [← Nat.succ_mul, Nat.succ_eq_add_one, Nat.sub_add_cancel (by omega), whole]
  have offset : uint16 (uint32 ((page + (pageSize / sizes b - 1) * sizes b : Nat) - page)) =
      (pageSize / sizes b - 1) * sizes b := by
    have cast : ((page + (pageSize / sizes b - 1) * sizes b : Nat) : Int) - page =
        ((pageSize / sizes b - 1) * sizes b : Nat) := by
      rw [Nat.cast_add]
      exact add_sub_cancel_left _ _
    rw [cast, uint32_natCast, Nat.mod_eq_of_lt (by omega)]
    apply uint16_eq
    simp only [pageSize] at inside ⊢
    omega
  rw [ensures_assert_of (by exact offset)]
  refine ⟨mem, ?_, ?_, linked⟩
  · simp only [withPage, newPageref, setPageref, setWord, offset, update_self, update_idem]
  · intro addr outside
    rw [others addr (by rwa [whole])]
    exact update_of_ne (by simp only [pageSize] at outside; omega) _ _

theorem comp_update {α β : Type} (part : α → β) (f : Nat → α) (value : α) :
    (fun q => part (update f p value q)) =
      update (fun q => part (f q)) p (part value) := by
  funext q
  by_cases same : q = p
  · subst same
    simp only [update_self]
  · simp only [update_of_ne same]

section NewPage

variable {page b : Nat} {mem : Nat → Nat} {inuse : Nat → BitVec 32}

/-- All that `subpage_kmalloc` does to get a new page. -/
def grown (s : Kheap) (p page b : Nat) (mem : Nat → Nat) (inuse : Nat → BitVec 32) : Kheap :=
  ({ s with pagerefsInuse := inuse }.taken ⟨page, page + pageSize⟩).withPage p page b mem

theorem grown_pagerefs_self : (s.grown p page b mem inuse).pagerefs p = s.newPageref page b :=
  update_self _ _ _

theorem grown_pagerefs_of_ne (different : q ≠ p) :
    (s.grown p page b mem inuse).pagerefs q = s.pagerefs q :=
  update_of_ne different _ _

theorem filter_grown (absent : p ∉ all) (b' : Nat) :
    (all.filter fun q => ((s.grown p page b mem inuse).pagerefs q).blocktype = b') =
      all.filter fun q => (s.pagerefs q).blocktype = b' := by
  apply filter_congr
  intro q member
  rw [grown_pagerefs_of_ne]
  rintro rfl
  exact absent member

theorem Lists.grown (lists : s.Lists all) (aligned : page % pageSize = 0) (type : b < nsizes)
    (absent : p ∉ all) (low : p < npagerefs)
    (inUse : ∀ q, (s.grown p page b mem inuse).InUse q ↔ q = p ∨ s.InUse q) :
    (s.grown p page b mem inuse).Lists (p :: all) := by
  obtain ⟨_, blocktype⟩ := newPageref_pageaddr (s := s) aligned type
  constructor
  · change Linked (fun q => (update s.pagerefs p (s.newPageref page b) q).nextAll)
      (some p) (p :: all)
    rw [comp_update nextAll]
    exact lists.linkedAll.push absent
  · exact nodup_cons.mpr ⟨absent, lists.nodup⟩
  · intro q
    rw [mem_cons, inUse, lists.inUse]
    constructor
    · rintro (rfl | ⟨lowQ, used⟩)
      · exact ⟨low, Or.inl rfl⟩
      · exact ⟨lowQ, Or.inr used⟩
    · rintro ⟨lowQ, rfl | used⟩
      · exact Or.inl rfl
      · exact Or.inr ⟨lowQ, used⟩
  · intro b' type'
    have others := lists.linkedSame b' type'
    rw [filter_cons, grown_pagerefs_self, blocktype, filter_grown absent]
    have absentFilter : p ∉ all.filter fun q => (s.pagerefs q).blocktype = b' :=
      fun member => absent (mem_of_mem_filter member)
    change Linked (fun q => (update s.pagerefs p (s.newPageref page b) q).nextSamesize)
      (update s.sizebases b (some p) b') _
    rw [comp_update nextSamesize]
    by_cases same : b' = b
    · subst same
      rw [if_pos (by simp), update_self]
      exact others.push absentFilter
    · rw [if_neg (by simpa using Ne.symm same), update_of_ne same]
      exact others.update_of_not_mem absentFilter _

theorem pageRegion_grown_self (aligned : page % pageSize = 0) (type : b < nsizes) :
    (s.grown p page b mem inuse).pageRegion p = ⟨page, page + pageSize⟩ := by
  rw [pageRegion, grown_pagerefs_self, (newPageref_pageaddr aligned type).1]

theorem pageRegion_grown_of_ne (different : q ≠ p) :
    (s.grown p page b mem inuse).pageRegion q = s.pageRegion q := by
  simp only [pageRegion, grown_pagerefs_of_ne different]

theorem Ok.grown_runs (ok : s.Ok all free) (type : b < nsizes) (absent : p ∉ all)
    (fresh : s.Fresh ⟨page, page + pageSize⟩) : (s.grown p page b mem inuse).Runs (p :: all) := by
  have nonempty : page < page + pageSize := Nat.lt_add_of_pos_right (Nat.succ_pos _)
  obtain ⟨apart, placed⟩ := fresh.taken_runs ok nonempty
  refine ⟨ok.top, ?_, apart, placed⟩
  have others : all.map (s.grown p page b mem inuse).pageRegion = all.map s.pageRegion := by
    apply map_congr_left
    intro q member
    apply pageRegion_grown_of_ne
    rintro rfl
    exact absent member
  rw [map_cons, pageRegion_grown_self fresh.2.1 type, others]
  exact ok.runs.cons _

theorem Ok.grown (ok : s.Ok all free) (type : b < nsizes) (absent : p ∉ all)
    (low : p < npagerefs) (fresh : s.Fresh ⟨page, page + pageSize⟩)
    (inUse : ∀ q, (s.grown p page b mem inuse).InUse q ↔ q = p ∨ s.InUse q)
    (outside : ∀ addr, addr < page ∨ page + pageSize ≤ addr → mem addr = s.mem addr)
    (linked : Linked (freeNext mem) (some (page + (pageSize / sizes b - 1) * sizes b))
      (blocksDown page (sizes b) (pageSize / sizes b))) :
    (s.grown p page b mem inuse).Ok (p :: all)
      (update free p (blocksDown page (sizes b) (pageSize / sizes b))) := by
  obtain ⟨pageaddr, blocktype⟩ := newPageref_pageaddr (s := s) fresh.2.1 type
  have different : ∀ q ∈ all, q ≠ p := by
    rintro q member rfl
    exact absent member
  have head : Pageref.freeHead (s.newPageref page b) =
      some (page + (pageSize / sizes b - 1) * sizes b) := by
    obtain ⟨size, _, whole, _⟩ := sizes_spec b type
    obtain ⟨two, _⟩ := blocks_per_page b type
    have inside : (pageSize / sizes b - 1) * sizes b + sizes b = pageSize := by
      rw [← Nat.succ_mul, Nat.succ_eq_add_one, Nat.sub_add_cancel (by omega), whole]
    refine freeHead_eq_some.mpr ⟨?_, by rw [pageaddr]; rfl⟩
    simp only [newPageref, invalidOffset]
    simp only [pageSize] at inside ⊢
    omega
  refine ⟨ok.toLists.grown fresh.2.1 type absent low inUse, ok.grown_runs type absent fresh,
    ?_, ok.words, ?_, ok.distinct⟩
  · intro q member
    rcases mem_cons.mp member with rfl | member
    · rw [update_self]
      constructor
      · rw [grown_pagerefs_self, blocktype]
        exact type
      · rw [grown_pagerefs_self, blocksDown_eq]
        simp [newPageref]
      · rw [grown_pagerefs_self, head]
        exact linked
      · have unused : (s.grown q page b mem inuse).liveIn ⟨page, page + pageSize⟩ = [] :=
          fresh.liveIn_eq_nil ok
        rw [pageRegion_grown_self fresh.2.1 type, pageBlocks, grown_pagerefs_self, pageaddr,
          blocktype, unused, append_nil, blocksDown_eq]
        exact reverse_perm _
    · rw [update_of_ne (different q member)]
      apply (ok.pages q member).congr
      · exact grown_pagerefs_of_ne (different q member)
      · intro addr isFree
        apply outside
        obtain ⟨low, high⟩ := (ok.pages q member).block isFree
        have size := (sizes_spec _ (ok.pages q member).blocktype).1
        by_contra inside
        apply (fresh.page_apart ok member).ne _ _ rfl
        · exact addr
        · exact mem_addresses.mpr (by simp only; omega)
        · exact mem_addresses.mpr (by simp only [pageRegion]; omega)
      · rfl
  · intro a live small
    obtain ⟨q, member, typeQ, inside⟩ := ok.small a live small
    refine ⟨q, mem_cons_of_mem _ member, ?_, ?_⟩
    · rw [grown_pagerefs_of_ne (different q member)]
      exact typeQ
    · rw [pageRegion_grown_of_ne (different q member)]
      exact inside

end NewPage

/-! ## The whole of kmalloc -/

theorem Lists.length_le (lists : s.Lists all) : all.length ≤ npagerefs := by
  have bound : all ⊆ range npagerefs := fun p member =>
    mem_range.mpr ((lists.inUse p).mp member).1
  have shorter := (List.Nodup.subperm lists.nodup bound).length_le
  rwa [length_range] at shorter

theorem Ok.word (ok : s.Ok all free) (member : p ∈ all) :
    (s.pagerefs p).pageaddr + pageSize < 2 ^ 32 :=
  lt_of_le_of_lt (ok.page_placed member).2.2 ok.top

/-- With a block in use in `p` every page has one. -/
theorem busy_alloc {nfree offset : Nat} (busy : ∀ q ∈ all, q ≠ p → s.liveIn (s.pageRegion q) ≠ [])
    (inside : addr ∈ (s.pageRegion p).addresses) :
    ((s.refilled p nfree offset).allocated addr sz).Busy all := by
  intro q member
  change Kheap.liveIn _ ((s.refilled p nfree offset).pageRegion q) ≠ []
  rw [pageRegion_refilled, liveIn_allocated]
  by_cases same : q = p
  · subst same
    rw [if_pos (mem_addresses.mp inside)]
    exact cons_ne_nil _ _
  · split_ifs
    · exact cons_ne_nil _ _
    · exact busy q member same

theorem Ok.doalloc_spec (ok : s.Ok all free) (member : p ∈ all)
    (busy : ∀ q ∈ all, q ≠ p → s.liveIn (s.pageRegion q) ≠ []) (nonempty : free p ≠ [])
    (small : sz < largestSubpageSize) (type : (s.pagerefs p).blocktype = blockOf sz) :
    Ensures (doalloc p) s (fun _ => False) fails (fun ptr s' => ptr ≠ 0 ∧
      s'.live = s.live ∧ ∃ all free, (s'.allocated ptr sz).Ok all free ∧
        (s'.allocated ptr sz).Busy all) := by
  obtain ⟨addr, rest, first⟩ := exists_cons_of_ne_nil nonempty
  have page := ok.pages p member
  have isFree : addr ∈ free p := by
    rw [first]
    exact mem_cons_self
  obtain ⟨low, high⟩ := page.block isFree
  have size := (sizes_spec _ page.blocktype).1
  rw [first] at page
  apply (Kheap.doalloc_spec page (ok.word member)).imp
  rintro _ _ ⟨rfl, offset, rfl, linked⟩
  refine ⟨?_, rfl, all, _, ok.alloc member first small type linked, ?_⟩
  · have nonzero := (ok.page_placed member).1
    omega
  · apply busy_alloc busy
    exact mem_addresses.mpr ⟨low, by simp only [pageRegion]; omega⟩

/-- `kmalloc` returns `NULL`, or a new block. -/
def Kmalloced (s : Kheap) (sz ptr : Nat) (s' : Kheap) : Prop :=
  s'.live = s.live ∧
    ((ptr = 0 ∧ ∃ all free, s'.Ok all free ∧ s'.Busy all) ∨
      (ptr ≠ 0 ∧ ∃ all free, (s'.allocated ptr sz).Ok all free ∧ (s'.allocated ptr sz).Busy all))

theorem Ok.newPage_spec (ok : s.Ok all free) (busy : s.Busy all) (small : sz < largestSubpageSize)
    (low : p < npagerefs) (unused : ¬s.InUse p)
    (inUse : ∀ q, ({ s with pagerefsInuse := inuse } : Kheap).InUse q ↔ q = p ∨ s.InUse q)
    (fresh : s.Fresh ⟨s.offer, s.offer + pageSize⟩) :
    Ensures (do
      newPage p s.offer (blockOf sz)
      doalloc p) ({ s with pagerefsInuse := inuse }.taken ⟨s.offer, s.offer + pageSize⟩)
      (fun _ => False) fails (fun ptr s' => s.Kmalloced sz ptr s') := by
  have type := (blockOf_spec small).1
  have absent : p ∉ all := fun member => unused ((ok.inUse p).mp member).2
  rw [ensures_bind]
  apply (Kheap.newPage_spec type fresh.1 (lt_of_le_of_lt fresh.2.2.1 ok.top)).imp
  rintro _ _ ⟨mem, rfl, outside, linked⟩
  have grown := ok.grown type absent low fresh inUse outside linked
  have blocktype : ((s.grown p s.offer (blockOf sz) mem inuse).pagerefs p).blocktype =
      blockOf sz := by
    rw [grown_pagerefs_self]
    exact (newPageref_pageaddr fresh.2.1 type).2
  apply (grown.doalloc_spec mem_cons_self _ _ small blocktype).imp
  · rintro ptr s' ⟨nonzero, live, rest⟩
    exact ⟨live, Or.inr ⟨nonzero, rest⟩⟩
  · intro q member different
    rw [pageRegion_grown_of_ne different]
    exact busy q ((mem_cons.mp member).resolve_left different)
  · rw [update_self]
    intro empty
    have count := congrArg length empty
    have two := (blocks_per_page _ type).1
    rw [blocksDown_eq, length_reverse, length_map, length_range, length_nil] at count
    omega

/-- The invariant does not depend on how the pagerefs in use are stored. -/
theorem Ok.setInuse (ok : s.Ok all free)
    (same : ∀ q, ({ s with pagerefsInuse := inuse } : Kheap).InUse q ↔ s.InUse q) :
    ({ s with pagerefsInuse := inuse } : Kheap).Ok all free := by
  refine ⟨ok.toLists.congr (fun _ => rfl) (fun _ => rfl) (fun _ => rfl) rfl rfl same,
    ok.toRuns.congr (fun _ => rfl) rfl rfl rfl, ?_, ok.words, ok.small, ok.distinct⟩
  intro p member
  exact (ok.pages p member).congr rfl (fun _ _ => rfl) rfl

/-- The pages of the right type are full: a new one is needed. -/
theorem Ok.fromNewPage_spec (ok : s.Ok all free) (busy : s.Busy all)
    (small : sz < largestSubpageSize) (low : p < npagerefs) (unused : ¬s.InUse p)
    (inUse : ∀ q, ({ s with pagerefsInuse := inuse } : Kheap).InUse q ↔ q = p ∨ s.InUse q) :
    Ensures (do
      let prpage ← allocKpages 1
      if prpage = 0 then
        freepageref p
        pure 0
      else
        newPage p prpage (blockOf sz)
        doalloc p) { s with pagerefsInuse := inuse } (fun _ => False) fails
      (fun ptr s' => s.Kmalloced sz ptr s') := by
  rw [ensures_bind]
  apply (allocKpages_spec 1).imp
  rintro _ _ (⟨rfl, rfl⟩ | ⟨rfl, fresh, rfl⟩)
  · rw [if_pos rfl, ensures_bind]
    apply (freepageref_spec low ((inUse p).mpr (Or.inl rfl))).imp
    rintro _ _ ⟨inuse', rfl, inUse'⟩
    refine ⟨rfl, Or.inl ⟨rfl, all, free, ok.setInuse ?_, busy⟩⟩
    intro q
    rw [inUse' q, inUse q]
    constructor
    · rintro ⟨different, same | used⟩
      · exact absurd same different
      · exact used
    · intro used
      refine ⟨?_, Or.inr used⟩
      rintro rfl
      exact unused used
  · rw [Nat.one_mul] at fresh ⊢
    rw [if_neg fresh.1]
    exact ok.newPage_spec busy small low unused inUse fresh

theorem Ok.subpageKmalloc_spec (ok : s.Ok all free) (busy : s.Busy all)
    (small : sz < largestSubpageSize) :
    Ensures (subpageKmalloc sz) s (fun _ => False) fails
      (fun ptr s' => s.Kmalloced sz ptr s') := by
  have type := (blockOf_spec small).1
  have blocktype : blocktypeOf sz = pure (blockOf sz) := by
    rw [blocktypeOf, find_blockOf small]
  rw [subpageKmalloc, blocktype, ensures_bind, ensures_pure, ensures_bind,
    ensures_get, ensures_bind]
  have types : ∀ p ∈ all.filter fun p => (s.pagerefs p).blocktype = blockOf sz,
      (s.pagerefs p).blocktype = blockOf sz := by
    intro p member
    simpa using (mem_filter.mp member).2
  have enough : (all.filter fun p => (s.pagerefs p).blocktype = blockOf sz).length ≤ npagerefs :=
    le_trans (length_filter_le _ _) ok.length_le
  apply (findFree_spec (ok.linkedSame _ type) types enough).imp
  rintro result s' ⟨rfl, rfl | ⟨p, member, rfl, some⟩⟩
  · rw [ensures_bind, allocpageref]
    apply (allocpagerefFrom_spec inuseWords 0 (Nat.zero_add _)).imp
    rintro _ _ (⟨rfl, rfl⟩ | ⟨p, inuse, rfl, rfl, low, unused, inUse⟩)
    · exact ⟨rfl, Or.inl ⟨rfl, all, free, ok, busy⟩⟩
    · exact ok.fromNewPage_spec busy small low unused inUse
  · have page := ok.pages p (mem_of_mem_filter member)
    apply (ok.doalloc_spec (mem_of_mem_filter member) (fun q member _ => busy q member) _ small
      (types p member)).imp
    · rintro ptr s' ⟨nonzero, live, rest⟩
      exact ⟨live, Or.inr ⟨nonzero, rest⟩⟩
    · rw [page.count] at some
      exact ne_nil_of_length_pos some

theorem Ok.kmalloc_spec (ok : s.Ok all free) (busy : s.Busy all) (word : sz + pageSize ≤ 2 ^ 32) :
    Ensures (kmalloc sz) s (fun _ => False) fails (fun ptr s' => s.Kmalloced sz ptr s') := by
  rw [kmalloc]
  apply ensures_branch
  · intro large
    apply (allocKpages_spec (kmallocNpages sz)).imp
    rintro _ _ (⟨rfl, rfl⟩ | ⟨rfl, fresh, rfl⟩)
    · exact ⟨rfl, Or.inl ⟨rfl, all, free, ok, busy⟩⟩
    · have extent : (Allocation.mk s.offer sz).extent =
          ⟨s.offer, s.offer + kmallocNpages sz * pageSize⟩ := by
        simp only [Allocation.extent, Allocation.capacity, if_pos large]
      rw [← extent] at fresh ⊢
      refine ⟨rfl, Or.inr ⟨fresh.1, all, free, ok.large large word fresh, ?_⟩⟩
      intro p member
      change Kheap.liveIn _ (s.pageRegion p) ≠ []
      rw [liveIn_allocated]
      split_ifs
      · exact cons_ne_nil _ _
      · exact busy p member
  · intro small
    exact ok.subpageKmalloc_spec busy (Nat.lt_of_not_le small)

end Kheap

end Os161
