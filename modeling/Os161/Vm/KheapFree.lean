import Os161.Vm.KheapAlloc

/-!
# Freeing blocks

A block of a page goes to the front of the page's free list. With its last block the
page is taken off the two lists and given back. Any other block is a run of pages.
-/

namespace Os161

open Arena List
open Region (mem_addresses)

attribute [local irreducible] uint16 uint32

namespace Kheap

variable {s s' : Kheap} {all : List Nat} {free : Nat → List Nat} {p q : Nat}
  {fails : Errno → Kheap → Prop}

/-! ## Taking a page off the lists -/

theorem removeFrom_spec (list : PageList) (before : List Nat) {rest : List Nat} {fuel : Nat}
    (linked : Linked (fun q => list.link (s.pagerefs q)) (list.base s) (before ++ rest))
    (nodup : (before ++ rest).Nodup) (member : p ∈ rest) (enough : rest.length ≤ fuel) :
    Ensures (removeFrom list p fuel before.getLast?) s (fun _ => False) fails (fun _ s' =>
      Linked (fun q => list.link (s'.pagerefs q)) (list.base s') ((before ++ rest).erase p) ∧
      (s' = list.setBase (list.link (s.pagerefs p)) s ∨
        ∃ g, s' = s.setPageref g (list.setLink (list.link (s.pagerefs p)) (s.pagerefs g)) ∧
          g ∈ before ++ rest)) := by
  induction rest generalizing before fuel with
  | nil => cases member
  | cons q rest ih =>
      cases fuel with
      | zero => simp at enough
      | succ fuel =>
          rw [removeFrom, ensures_bind, ensures_get]
          have target : list.target s before.getLast? = some q := by
            rcases eq_nil_or_concat' before with rfl | ⟨before, g, rfl⟩
            · exact linked.1
            · rw [append_assoc] at linked
              rw [getLast?_concat]
              exact linked.after.1
          rw [target]
          apply ensures_branch
          · rintro rfl
            rw [ensures_modify]
            rcases eq_nil_or_concat' before with rfl | ⟨before, g, rfl⟩
            · refine ⟨?_, Or.inl rfl⟩
              simp only [nil_append, erase_cons_head, getLast?_nil,
                PageList.setTarget, list.base_setBase, list.pagerefs_setBase]
              exact linked.2
            · simp only [getLast?_concat, PageList.setTarget]
              refine ⟨?_, Or.inr ⟨g, rfl, by simp⟩⟩
              have absent : q ∉ before ++ [g] := by
                intro earlier
                exact disjoint_of_nodup_append nodup earlier mem_cons_self
              rw [erase_append_right _ absent, erase_cons_head, append_assoc, list.base_setPageref]
              rw [append_assoc] at linked nodup
              change Linked (fun r => list.link (Function.update s.pagerefs g _ r)) _ _
              rw [comp_update list.link, list.link_setLink]
              exact linked.unlink nodup
          · intro different
            have later : p ∈ rest := (mem_cons.mp member).resolve_left (Ne.symm different)
            have same : before ++ q :: rest = (before ++ [q]) ++ rest := by simp
            have guy : some q = (before ++ [q]).getLast? := getLast?_concat.symm
            rw [same, guy]
            rw [same] at linked nodup
            exact ih _ linked nodup later (by simpa using enough)

/-- `remove_lists` has taken `p` off both lists, and has changed nothing else. -/
structure Unlinked (s : Kheap) (all : List Nat) (p : Nat) (s' : Kheap) : Prop where
  rest : s' = { s with
    pagerefs := s'.pagerefs, sizebases := s'.sizebases, allbase := s'.allbase }
  packed : ∀ q, (s'.pagerefs q).pageaddrAndBlocktype = (s.pagerefs q).pageaddrAndBlocktype
  offset : ∀ q, (s'.pagerefs q).freelistOffset = (s.pagerefs q).freelistOffset
  nfree : ∀ q, (s'.pagerefs q).nfree = (s.pagerefs q).nfree
  linkedAll : Linked (fun q => (s'.pagerefs q).nextAll) s'.allbase (all.erase p)
  linkedSame : ∀ b < nsizes, Linked (fun q => (s'.pagerefs q).nextSamesize) (s'.sizebases b)
    ((all.erase p).filter fun q => (s.pagerefs q).blocktype = b)

/-- The list of one block type without the pageref; the other lists stay as they are. -/
theorem removeSamesize_spec (lists : s.Lists all) (member : p ∈ all)
    (type : (s.pagerefs p).blocktype < nsizes) :
    Ensures (removeFrom (samesizeList (s.pagerefs p).blocktype) p (npagerefs + 1) none) s
      (fun _ => False) fails (fun _ s' =>
      s' = { s with pagerefs := s'.pagerefs, sizebases := s'.sizebases } ∧
      (∀ q, ∃ link, s'.pagerefs q = { s.pagerefs q with nextSamesize := link }) ∧
      ∀ b < nsizes, Linked (fun q => (s'.pagerefs q).nextSamesize) (s'.sizebases b)
        ((all.erase p).filter fun q => (s.pagerefs q).blocktype = b)) := by
  have linked := lists.linkedSame _ type
  have isMember : p ∈ all.filter fun q => (s.pagerefs q).blocktype = (s.pagerefs p).blocktype := by
    simpa using member
  have enough : (all.filter fun q => (s.pagerefs q).blocktype =
      (s.pagerefs p).blocktype).length ≤ npagerefs + 1 :=
    le_trans (length_filter_le _ _) (Nat.le_succ_of_le lists.length_le)
  have same : ∀ b, (all.erase p).filter (fun q => (s.pagerefs q).blocktype = b) =
      (all.filter fun q => (s.pagerefs q).blocktype = b).erase p := by
    intro b
    rw [lists.nodup.erase_eq_filter, (lists.nodup.filter _).erase_eq_filter, filter_filter,
      filter_filter]
    simp only [Bool.and_comm]
  have others : ∀ b < nsizes, b ≠ (s.pagerefs p).blocktype →
      Linked (fun q => (s.pagerefs q).nextSamesize) (s.sizebases b)
        ((all.erase p).filter fun q => (s.pagerefs q).blocktype = b) := by
    intro b typeB different
    rw [same, erase_of_not_mem]
    · exact lists.linkedSame b typeB
    · intro member
      have typeP : (s.pagerefs p).blocktype = b := by simpa using (mem_filter.mp member).2
      exact different typeP.symm
  apply (removeFrom_spec (samesizeList (s.pagerefs p).blocktype) [] linked
    (lists.nodup.filter _) isMember enough).imp
  rintro _ s' ⟨unlinked, rfl | ⟨g, rfl, gMember⟩⟩
  · refine ⟨rfl, fun q => ⟨_, rfl⟩, ?_⟩
    intro b typeB
    by_cases this : b = (s.pagerefs p).blocktype
    · subst this
      rw [same]
      exact unlinked
    · simp only [samesizeList, update_of_ne this]
      exact others b typeB this
  · refine ⟨rfl, ?_, ?_⟩
    · intro q
      by_cases this : q = g
      · subst this
        exact ⟨_, setPageref_self⟩
      · exact ⟨_, setPageref_of_ne this⟩
    · intro b typeB
      by_cases this : b = (s.pagerefs p).blocktype
      · subst this
        rw [same]
        exact unlinked
      · change Linked (fun r => (Function.update s.pagerefs g _ r).nextSamesize) _ _
        rw [comp_update Pageref.nextSamesize]
        apply (others b typeB this).update_of_not_mem
        intro member
        have typeG : (s.pagerefs g).blocktype = (s.pagerefs p).blocktype := by
          simpa using (mem_filter.mp gMember).2
        have typeG' : (s.pagerefs g).blocktype = b := by simpa using (mem_filter.mp member).2
        exact this (typeG'.symm.trans typeG)

theorem removeLists_spec (lists : s.Lists all) (member : p ∈ all)
    (type : (s.pagerefs p).blocktype < nsizes) :
    Ensures (removeLists p (s.pagerefs p).blocktype) s (fun _ => False) fails
      (fun _ s' => s.Unlinked all p s') := by
  rw [removeLists]
  refine ensures_assert_then (fun wrong => wrong type) fun _ => ?_
  rw [ensures_bind]
  apply (removeSamesize_spec lists member type).imp
  rintro _ s₁ ⟨rest, fields, linkedSame⟩
  have nextAll : ∀ q, (s₁.pagerefs q).nextAll = (s.pagerefs q).nextAll := by
    intro q
    rcases fields q with ⟨link, eq⟩
    rw [eq]
  have linkedAll : Linked (fun q => (s₁.pagerefs q).nextAll) s₁.allbase all := by
    rw [rest]
    simp only [nextAll]
    exact lists.linkedAll
  have enough : all.length ≤ npagerefs + 1 := Nat.le_succ_of_le lists.length_le
  apply (removeFrom_spec allList [] linkedAll lists.nodup member enough).imp
  rintro _ s₂ ⟨unlinked, change⟩
  have fields₂ : s₂ = { s₁ with pagerefs := s₂.pagerefs, allbase := s₂.allbase } ∧
      ∀ q, ∃ link, s₂.pagerefs q = { s₁.pagerefs q with nextAll := link } := by
    rcases change with rfl | ⟨g, rfl, _⟩
    · exact ⟨rfl, fun q => ⟨_, rfl⟩⟩
    · refine ⟨rfl, ?_⟩
      intro q
      by_cases this : q = g
      · subst this
        exact ⟨_, setPageref_self⟩
      · exact ⟨_, setPageref_of_ne this⟩
  rcases fields₂ with ⟨rest₂, fields₂⟩
  have both : ∀ q, ∃ same all, s₂.pagerefs q =
      { s.pagerefs q with nextSamesize := same, nextAll := all } := by
    intro q
    rcases fields q with ⟨same, eq⟩
    rcases fields₂ q with ⟨all, eq₂⟩
    rw [eq] at eq₂
    exact ⟨same, all, eq₂⟩
  have nextSamesize : ∀ q, (s₂.pagerefs q).nextSamesize = (s₁.pagerefs q).nextSamesize := by
    intro q
    rcases fields₂ q with ⟨link, eq⟩
    rw [eq]
  constructor
  · rw [rest₂, rest]
  · intro q
    rcases both q with ⟨_, _, eq⟩
    rw [eq]
  · intro q
    rcases both q with ⟨_, _, eq⟩
    rw [eq]
  · intro q
    rcases both q with ⟨_, _, eq⟩
    rw [eq]
  · exact unlinked
  · intro b typeB
    rw [rest₂]
    simp only [nextSamesize]
    exact linkedSame b typeB

/-! ## Giving a page back -/

/-- The caller of `kfree` has `ptr` no more. -/
def freed (s : Kheap) (ptr : Nat) : Kheap :=
  { s with live := s.live.filter fun a => a.ptr ≠ ptr }

theorem map_ptr_freed (ptr : Nat) : (s.freed ptr).live.map Allocation.ptr =
    (s.live.map Allocation.ptr).filter fun other => other ≠ ptr := by
  rw [freed, filter_map]
  rfl

theorem liveIn_freed (ptr : Nat) (region : Region) :
    (s.freed ptr).liveIn region = (s.liveIn region).filter fun other => other ≠ ptr := by
  simp only [liveIn, map_ptr_freed, filter_filter, Bool.and_comm]

theorem liveIn_freed_of_not_mem {ptr : Nat} {region : Region} (outside : ptr ∉ region.addresses) :
    (s.freed ptr).liveIn region = s.liveIn region := by
  rw [liveIn_freed]
  apply filter_eq_self.mpr
  intro other member
  simp only [ne_eq, decide_not, Bool.not_eq_true', decide_eq_false_iff_not]
  rintro rfl
  exact outside (mem_liveIn.mp member).2

theorem Unlinked.freed (unlinked : s.Unlinked all p s') (ptr : Nat) :
    (s.freed ptr).Unlinked all p (s'.freed ptr) where
  rest := by
    rw [unlinked.rest]
    rfl
  packed := unlinked.packed
  offset := unlinked.offset
  nfree := unlinked.nfree
  linkedAll := unlinked.linkedAll
  linkedSame := unlinked.linkedSame

/-- A page and its `struct pageref` are given back. -/
def givenBack (s : Kheap) (page : Nat) (inuse : Nat → BitVec 32) : Kheap :=
  { s with pagerefsInuse := inuse, runs := s.runs.filter fun run => run.lo ≠ page }

theorem Ok.filter_runs (ok : s.Ok all free) {run : Region} {others : List Region}
    (runs : s.runs.Perm (run :: others)) :
    (s.runs.filter fun used => used.lo ≠ run.lo).Perm others := by
  have apart : (run :: others).Pairwise Region.Apart :=
    (runs.pairwise_iff fun apart => apart.symm).mp ok.apart
  have keep : ∀ used ∈ others, used.lo ≠ run.lo := by
    intro used member same
    have placed := ok.placed used (runs.mem_iff.mpr (mem_cons_of_mem _ member))
    have placed' := ok.placed run (runs.mem_iff.mpr mem_cons_self)
    apply ((pairwise_cons.mp apart).1 used member).ne _ _ rfl
    · exact run.lo
    · exact mem_addresses.mpr ⟨le_refl _, placed'.2.2.1⟩
    · exact mem_addresses.mpr ⟨le_of_eq same, same ▸ placed.2.2.1⟩
  apply (runs.filter _).trans
  rw [filter_cons_of_neg (by simp), filter_eq_self.mpr (by simpa using keep)]

theorem Ok.release (ok : s.Ok all free) (inuse : Nat → BitVec 32) (member : p ∈ all)
    (empty : s.liveIn (s.pageRegion p) = []) (unlinked : s.Unlinked all p s')
    (inUse : ∀ q, (s'.givenBack (s.pagerefs p).pageaddr inuse).InUse q ↔ q ≠ p ∧ s.InUse q) :
    (s'.givenBack (s.pagerefs p).pageaddr inuse).Ok (all.erase p) free := by
  have live : s'.live = s.live := by rw [unlinked.rest]
  have mem : s'.mem = s.mem := by rw [unlinked.rest]
  have runs : s'.runs = s.runs := by rw [unlinked.rest]
  have top : s'.top = s.top := by rw [unlinked.rest]
  have types : ∀ q, (s'.pagerefs q).blocktype = (s.pagerefs q).blocktype := fun q =>
    congrArg (· % pageSize) (unlinked.packed q)
  have regions : s'.pageRegion = s.pageRegion := by
    funext q
    simp only [pageRegion, Pageref.pageaddr, unlinked.packed]
  have largeRuns : s'.largeRuns = s.largeRuns := by simp only [Kheap.largeRuns, live]
  have liveIn : ∀ region, s'.liveIn region = s.liveIn region := by
    intro region
    simp only [Kheap.liveIn, live]
  have pages : s.runs.Perm (s.pageRegion p :: ((all.erase p).map s.pageRegion ++ s.largeRuns)) := by
    apply ok.runs.trans
    exact ((perm_cons_erase member).map s.pageRegion).append_right s.largeRuns
  have remaining := ok.filter_runs pages
  refine ⟨⟨unlinked.linkedAll, ok.nodup.erase p, ?_, ?_⟩, ⟨?_, ?_, ?_, ?_⟩, ?_, ?_, ?_, ?_⟩
  · intro q
    rw [ok.nodup.mem_erase_iff, ok.inUse q, inUse q]
    tauto
  · intro b type
    change Linked _ _ ((all.erase p).filter fun q => (s'.pagerefs q).blocktype = b)
    simp only [types]
    exact unlinked.linkedSame b type
  · exact top.symm ▸ ok.top
  · change (s'.runs.filter _).Perm ((all.erase p).map s'.pageRegion ++ s'.largeRuns)
    rw [runs, regions, largeRuns]
    exact remaining
  · change (s'.runs.filter _).Pairwise _
    rw [runs]
    exact ok.apart.filter _
  · intro run inRuns
    change run ∈ s'.runs.filter _ at inRuns
    rw [runs] at inRuns
    have placed := ok.placed run (mem_of_mem_filter inRuns)
    exact ⟨placed.1, placed.2.1, placed.2.2.1, top.symm ▸ placed.2.2.2⟩
  · intro q member'
    apply (ok.pages q (mem_of_mem_erase member')).of_fields
    · exact unlinked.packed q
    · exact unlinked.offset q
    · exact unlinked.nfree q
    · intro addr _
      exact congrFun mem addr
    · exact liveIn _
  · intro a isLive
    exact ok.words a (live ▸ isLive)
  · intro a isLive small
    rcases ok.small a (live ▸ isLive) small with ⟨q, member', type, inside⟩
    have different : q ≠ p := by
      rintro rfl
      have inPage : a.ptr ∈ s.liveIn (s.pageRegion q) :=
        mem_liveIn.mpr ⟨mem_map_of_mem (live ▸ isLive), inside⟩
      rw [empty] at inPage
      cases inPage
    refine ⟨q, (ok.nodup.mem_erase_iff).mpr ⟨different, member'⟩, (types q).trans type, ?_⟩
    change a.ptr ∈ (s'.pageRegion q).addresses
    rw [regions]
    exact inside
  · change (s'.live.map Allocation.ptr).Nodup
    rw [live]
    exact ok.distinct

/-! ## Freeing a block of a page -/

/-- What the first word of a free block holds. -/
def linkWord : Option Nat → Nat
  | none => 0
  | some addr => addr

/-- The memory when `subpage_kfree` has filled a block and linked it in front of `head`. -/
def returned (mem : Nat → Nat) (ptr size : Nat) (head : Option Nat) : Nat → Nat :=
  Function.update
    (fun a => if ptr ≤ a ∧ a < ptr + size / 4 * 4 ∧ (a - ptr) % 4 = 0 then 0xdeadbeef else mem a)
    ptr (linkWord head)

theorem returned_outside {mem : Nat → Nat} {ptr size addr : Nat} {head : Option Nat}
    (positive : 0 < size) (outside : addr < ptr ∨ ptr + size ≤ addr) :
    returned mem ptr size head addr = mem addr := by
  rw [returned, update_of_ne (by omega)]
  exact if_neg (by omega)

section Free

variable {a : Allocation} {head : Option Nat}

theorem Ok.ptr_mem_extent (ok : s.Ok all free) (live : a ∈ s.live) :
    a.ptr ∈ a.extent.addresses := by
  apply mem_addresses.mpr
  exact ⟨le_refl _, Nat.lt_add_of_pos_right (Allocation.capacity_pos (ok.words a live))⟩

theorem Ok.live_perm (ok : s.Ok all free) (live : a ∈ s.live) :
    s.live.Perm (a :: (s.freed a.ptr).live) := by
  have erased := perm_cons_erase live
  rw [ok.distinct.of_map.erase_eq_filter] at erased
  have same : s.live.filter (fun other => other != a) = (s.freed a.ptr).live := by
    apply filter_congr
    intro other otherLive
    rw [Bool.eq_iff_iff, bne_iff_ne, decide_eq_true_iff]
    constructor
    · intro different samePtr
      exact different (ok.eq_of_ptr_eq otherLive live samePtr)
    · rintro different rfl
      exact different rfl
  rwa [same] at erased

theorem Ok.liveIn_perm (ok : s.Ok all free) (live : a ∈ s.live)
    (inside : a.ptr ∈ (s.pageRegion p).addresses) :
    (a.ptr :: (s.freed a.ptr).liveIn (s.pageRegion p)).Perm (s.liveIn (s.pageRegion p)) := by
  have perm := ((ok.live_perm live).map Allocation.ptr).filter
    fun ptr => (s.pageRegion p).lo ≤ ptr ∧ ptr < (s.pageRegion p).hi
  rw [map_cons, filter_cons_of_pos (by simpa using mem_addresses.mp inside)] at perm
  exact perm.symm

theorem Ok.largeRuns_freed_small (ok : s.Ok all free) (live : a ∈ s.live)
    (small : a.sz < largestSubpageSize) : (s.freed a.ptr).largeRuns = s.largeRuns := by
  simp only [Kheap.largeRuns, freed, filter_filter]
  congr 1
  apply filter_congr
  intro other otherLive
  by_cases large : largestSubpageSize ≤ other.sz
  · have different : other.ptr ≠ a.ptr := by
      intro same
      rw [ok.eq_of_ptr_eq otherLive live same] at large
      omega
    simp [large, different]
  · simp [large]

theorem freeNext_returned {blocks : List Nat} (page : s.PageOk blocks p)
    (nonzero : (s.pagerefs p).pageaddr ≠ 0) (ptr size : Nat) :
    freeNext (returned s.mem ptr size (Pageref.freeHead (s.pagerefs p))) ptr =
      Pageref.freeHead (s.pagerefs p) := by
  rw [freeNext, returned, update_self]
  cases blocks with
  | nil =>
      have none : Pageref.freeHead (s.pagerefs p) = none := page.linked
      simp [none, linkWord]
  | cons addr rest =>
      have first : Pageref.freeHead (s.pagerefs p) = some addr := page.linked.1
      have low := (page.block mem_cons_self).1
      rw [first]
      exact if_neg (by simp only [linkWord]; omega)

/-- The block at `ptr` is on the free list of its page again. -/
def putBack (s : Kheap) (p nfree ptr : Nat) : Kheap :=
  let pr := s.pagerefs p
  { s with mem := returned s.mem ptr (sizes pr.blocktype) (Pageref.freeHead pr) }.refilled p nfree
    (ptr - pr.pageaddr)

theorem putBack_pagerefs_self (nfree ptr : Nat) :
    (s.putBack p nfree ptr).pagerefs p =
      refill (s.pagerefs p) nfree (ptr - (s.pagerefs p).pageaddr) :=
  update_self _ _ _

theorem putBack_pagerefs_of_ne (nfree ptr : Nat) (different : q ≠ p) :
    (s.putBack p nfree ptr).pagerefs q = s.pagerefs q :=
  update_of_ne different _ _

theorem Ok.putBack (ok : s.Ok all free) (live : a ∈ s.live) (small : a.sz < largestSubpageSize)
    (member : p ∈ all) (inside : a.ptr ∈ (s.pageRegion p).addresses) :
    ((s.putBack p ((free p).length + 1) a.ptr).freed a.ptr).Ok all
      (Function.update free p (a.ptr :: free p)) := by
  have page := ok.pages p member
  have size := (sizes_spec _ page.blocktype).1
  rcases mem_addresses.mp inside with ⟨low, high⟩
  simp only [pageRegion] at low high
  have perm := ok.liveIn_perm live inside
  have used : a.ptr ∈ s.liveIn (s.pageRegion p) := perm.subset mem_cons_self
  have block : a.ptr ∈ s.pageBlocks p := page.blocks.subset (mem_append_right _ used)
  have absent : a.ptr ∉ free p := by
    intro isFree
    exact ok.free_not_live member isFree (mem_map_of_mem live)
  refine ⟨(ok.toLists.refilled p _ _).congr (fun _ => rfl) (fun _ => rfl) (fun _ => rfl) rfl rfl
    (fun _ => Iff.rfl), (ok.toRuns.refilled p _ _).congr (fun _ => rfl) rfl rfl
    (ok.largeRuns_freed_small live small), ?_, ?_, ?_, ?_⟩
  · intro q member'
    by_cases same : q = p
    · subst same
      rw [update_self]
      have pageref := putBack_pagerefs_self (s := s) (p := q) ((free q).length + 1) a.ptr
      constructor
      · change Pageref.blocktype ((s.putBack q ((free q).length + 1) a.ptr).pagerefs q) < _
        rw [pageref]
        exact page.blocktype
      · change Pageref.nfree ((s.putBack q ((free q).length + 1) a.ptr).pagerefs q) = _
        rw [pageref]
        rfl
      · change Linked (freeNext (s.putBack q ((free q).length + 1) a.ptr).mem)
          (Pageref.freeHead ((s.putBack q ((free q).length + 1) a.ptr).pagerefs q)) _
        rw [pageref]
        refine ⟨?_, ?_⟩
        · apply freeHead_eq_some.mpr
          simp only [refill, Pageref.pageaddr, invalidOffset, pageSize] at *
          constructor <;> omega
        · rw [show freeNext (s.putBack q ((free q).length + 1) a.ptr).mem a.ptr = _ from
            freeNext_returned page (ok.page_placed member).1 a.ptr _]
          apply page.linked.congr
          intro addr isFree
          have different : addr ≠ a.ptr := by
            rintro rfl
            exact absent isFree
          have apart := blocks_apart (ok.free_block member isFree) block different
          rw [freeNext, freeNext]
          rw [show (s.putBack q ((free q).length + 1) a.ptr).mem addr = s.mem addr from ?_]
          apply returned_outside (by omega)
          by_contra within
          apply apart.ne _ _ rfl
          · exact addr
          · exact mem_addresses.mpr (by simp only; omega)
          · exact mem_addresses.mpr (by simp only; omega)
      · change (_ ++ Kheap.liveIn _ ((s.refilled q _ _).pageRegion q)).Perm
          ((s.refilled q _ _).pageBlocks q)
        rw [pageRegion_refilled, pageBlocks_refilled]
        apply perm_middle.symm.trans
        exact (perm.append_left (free q)).trans page.blocks
    · rw [update_of_ne same]
      apply (ok.pages q member').congr
      · exact putBack_pagerefs_of_ne _ _ same
      · intro addr isFree
        apply returned_outside (by omega)
        have inPage := (ok.pages q member').block isFree
        have sizeQ := (sizes_spec _ (ok.pages q member').blocktype).1
        have ends := block_inside page.blocktype block
        by_contra within
        apply (ok.pages_apart member member' (Ne.symm same)).ne _ _ rfl
        · exact addr
        · exact mem_addresses.mpr (by simp only [pageRegion]; omega)
        · exact mem_addresses.mpr (by simp only [pageRegion]; omega)
      · apply liveIn_freed_of_not_mem
        exact ok.not_mem_page member member' (Ne.symm same) inside
  · intro other otherLive
    exact ok.words other (mem_of_mem_filter otherLive)
  · intro other otherLive otherSmall
    rcases ok.small other (mem_of_mem_filter otherLive) otherSmall with
      ⟨q, member', type, inside'⟩
    refine ⟨q, member', (blocktype_refilled _ _ q).trans type, ?_⟩
    exact (pageRegion_refilled (s := s) (p := p) _ _ q).symm ▸ inside'
  · rw [map_ptr_freed]
    exact ok.distinct.filter _

/-- `kfree` gives a block back. -/
def Kfreed (s : Kheap) (ptr : Nat) (s' : Kheap) : Prop :=
  s'.live = s.live ∧ ∃ all free, (s'.freed ptr).Ok all free ∧ (s'.freed ptr).Busy all

theorem Ok.giveBack_spec {ptr : Nat} (ok : (s.freed ptr).Ok all free) (member : p ∈ all)
    (empty : (s.freed ptr).liveIn (s.pageRegion p) = [])
    (busy : ∀ q ∈ all, q ≠ p → (s.freed ptr).liveIn (s.pageRegion q) ≠ []) :
    Ensures (do
      removeLists p (s.pagerefs p).blocktype
      freeKpages (s.pagerefs p).pageaddr
      freepageref p) s (fun _ => False) fails (fun _ s' => s.Kfreed ptr s') := by
  have lists : s.Lists all := ok.toLists.congr (fun _ => rfl) (fun _ => rfl) (fun _ => rfl) rfl rfl
    (fun _ => Iff.rfl)
  rw [ensures_bind]
  apply (removeLists_spec lists member (ok.pages p member).blocktype).imp
  intro _ s₁ unlinked
  have inUse₁ : ∀ q, s₁.InUse q ↔ s.InUse q := by
    intro q
    rw [unlinked.rest]
    exact Iff.rfl
  have used := (ok.inUse p).mp member
  rw [ensures_bind, freeKpages, ensures_modify]
  apply (freepageref_spec used.1 (by exact (inUse₁ p).mpr used.2)).imp
  rintro _ _ ⟨inuse, rfl, inUse⟩
  have released := ok.release inuse member empty (unlinked.freed ptr) (by
    intro q
    exact (inUse q).trans (and_congr_right fun _ => inUse₁ q))
  have live : s₁.live = s.live := by rw [unlinked.rest]
  refine ⟨live, all.erase p, free, released, ?_⟩
  intro q member'
  have left := ok.nodup.mem_erase_iff.mp member'
  change Kheap.liveIn _ (s₁.pageRegion q) ≠ []
  have region : s₁.pageRegion q = s.pageRegion q := by
    simp only [pageRegion, Pageref.pageaddr, unlinked.packed]
  have same : (s₁.freed ptr).liveIn (s.pageRegion q) = (s.freed ptr).liveIn (s.pageRegion q) := by
    simp only [Kheap.liveIn, freed, live]
  rw [region]
  exact same.symm ▸ busy q left.2 left.1

theorem Ok.freeBlock_spec (ok : s.Ok all free) (busy : s.Busy all) (live : a ∈ s.live)
    (small : a.sz < largestSubpageSize) (member : p ∈ all)
    (inside : a.ptr ∈ (s.pageRegion p).addresses) :
    Ensures (freeBlock p a.ptr) s (fun _ => False) fails
      (fun _ s' => s.Kfreed a.ptr s') := by
  have page := ok.pages p member
  have put := ok.putBack live small member inside
  have word := ok.word member
  rcases mem_addresses.mp inside with ⟨low, high⟩
  simp only [pageRegion] at low high
  have used : a.ptr ∈ s.liveIn (s.pageRegion p) :=
    mem_liveIn.mpr ⟨mem_map_of_mem live, inside⟩
  have block : a.ptr ∈ s.pageBlocks p := page.blocks.subset (mem_append_right _ used)
  have aligned := (block_inside page.blocktype block).2.2
  have most := (blocks_per_page _ page.blocktype).2
  have filled := (put.pages p member).length_le
  simp only [update_self, length_cons] at filled
  change (free p).length + 1 ≤ pageSize / sizes ((s.refilled p _ _).pagerefs p).blocktype at filled
  rw [blocktype_refilled] at filled
  have offset : uint32 (a.ptr - (s.pagerefs p).pageaddr) = a.ptr - (s.pagerefs p).pageaddr := by
    rw [← Nat.cast_sub low, uint32_natCast]
    exact Nat.mod_eq_of_lt (by omega)
  have short : uint16 (a.ptr - (s.pagerefs p).pageaddr : Nat) =
      a.ptr - (s.pagerefs p).pageaddr := by
    apply uint16_eq
    simp only [pageSize] at high
    omega
  have fla : uint32 ((s.pagerefs p).pageaddr + (a.ptr - (s.pagerefs p).pageaddr : Nat)) =
      a.ptr := by
    rw [← Nat.cast_add, uint32_natCast, Nat.add_sub_cancel' low]
    exact Nat.mod_eq_of_lt (by omega)
  have nfree : uint16 ((s.pagerefs p).nfree + 1) = (free p).length + 1 := by
    rw [page.count, ← Nat.cast_succ]
    exact uint16_eq (by omega)
  have link : (if (s.pagerefs p).freelistOffset = invalidOffset then 0
      else uint32 ((s.pagerefs p).pageaddr + (s.pagerefs p).freelistOffset)) =
      linkWord (Pageref.freeHead (s.pagerefs p)) := by
    rw [Pageref.freeHead]
    split_ifs with invalid
    · rfl
    · have head : Pageref.freeHead (s.pagerefs p) = some _ := if_neg invalid
      have isFree := page.linked.head_mem head
      have inPage := page.block isFree
      rw [← Nat.cast_add, uint32_natCast]
      exact Nat.mod_eq_of_lt (by omega)
  rw [freeBlock, ensures_bind, ensures_get]
  refine ensures_assert_then (fun wrong => wrong ?_) fun _ => ?_
  · rw [offset]
    omega
  simp only [offset, short, fla, nfree, link]
  rw [ensures_bind, fillDeadbeef, ensures_modify, ensures_bind,
    ensures_modify, ensures_bind, ensures_modify]
  refine ensures_assert_then (fun wrong => wrong ?_) fun _ => ?_
  · rw [nfree]
    exact filled
  change Ensures _ (s.putBack p ((free p).length + 1) a.ptr) _ _ _
  have region : ∀ q, (s.putBack p ((free p).length + 1) a.ptr).pageRegion q = s.pageRegion q :=
    pageRegion_refilled _ _
  have count := (put.pages p member).blocks.length_eq
  have others : ∀ q ∈ all, q ≠ p →
      (s.putBack p ((free p).length + 1) a.ptr |>.freed a.ptr).liveIn (s.pageRegion q) ≠ [] := by
    intro q member' different
    rw [liveIn_freed_of_not_mem (ok.not_mem_page member member' (Ne.symm different) inside)]
    exact busy q member'
  have type : ((s.putBack p ((free p).length + 1) a.ptr).pagerefs p).blocktype =
      (s.pagerefs p).blocktype := blocktype_refilled _ _ p
  have addr : ((s.putBack p ((free p).length + 1) a.ptr).pagerefs p).pageaddr =
      (s.pagerefs p).pageaddr := pageaddr_refilled _ _ p
  rw [update_self, length_append, length_cons, pageBlocks, length_blocks] at count
  change (free p).length + 1 + (Kheap.liveIn _ (Kheap.pageRegion (s.putBack p _ a.ptr) p)).length =
    pageSize / sizes ((s.putBack p _ a.ptr).pagerefs p).blocktype at count
  rw [type, region] at count
  apply ensures_branch
  · intro full
    rw [← type, ← addr]
    apply (put.giveBack_spec member _ _).imp
    · rintro _ s' ⟨live, rest⟩
      exact ⟨live, rest⟩
    · rw [region]
      exact eq_nil_of_length_eq_zero (by omega)
    · intro q member' different
      rw [region]
      exact others q member' different
  · intro notFull
    refine ⟨rfl, all, _, put, ?_⟩
    intro q member'
    change Kheap.liveIn _ (Kheap.pageRegion (s.putBack p _ a.ptr) q) ≠ []
    rw [region]
    by_cases same : q = p
    · subst same
      apply ne_nil_of_length_pos
      omega
    · exact others q member' same

/-! ## Freeing -/

theorem Ok.freeLarge (ok : s.Ok all free) (busy : s.Busy all) (live : a ∈ s.live)
    (large : largestSubpageSize ≤ a.sz) :
    s.Kfreed a.ptr { s with runs := s.runs.filter fun run => run.lo ≠ a.ptr } := by
  have perm := ((ok.live_perm live).filter fun a => largestSubpageSize ≤ a.sz).map Allocation.extent
  rw [filter_cons_of_pos (by simpa using large), map_cons] at perm
  have runs : s.runs.Perm (a.extent :: (all.map s.pageRegion ++ (s.freed a.ptr).largeRuns)) := by
    apply ok.runs.trans
    exact (perm.append_left (all.map s.pageRegion)).trans perm_middle
  have outside : ∀ p ∈ all, a.ptr ∉ (s.pageRegion p).addresses := by
    intro p member inside
    exact (ok.page_large_apart member live large).ne inside (ok.ptr_mem_extent live) rfl
  refine ⟨rfl, all, free, ⟨ok.toLists.congr (fun _ => rfl) (fun _ => rfl) (fun _ => rfl) rfl rfl
    (fun _ => Iff.rfl), ⟨ok.top, ok.filter_runs runs, ok.apart.filter _, ?_⟩, ?_, ?_, ?_, ?_⟩, ?_⟩
  · intro run inRuns
    exact ok.placed run (mem_of_mem_filter inRuns)
  · intro p member
    apply (ok.pages p member).congr
    · rfl
    · intro _ _
      rfl
    · exact liveIn_freed_of_not_mem (outside p member)
  · intro other otherLive
    exact ok.words other (mem_of_mem_filter otherLive)
  · intro other otherLive small
    exact ok.small other (mem_of_mem_filter otherLive) small
  · rw [map_ptr_freed]
    exact ok.distinct.filter _
  · intro p member
    change (s.freed a.ptr).liveIn (s.pageRegion p) ≠ []
    rw [liveIn_freed_of_not_mem (outside p member)]
    exact busy p member

/-- A block of a page is told from a run of pages. -/
theorem Ok.subpageKfree_spec (ok : s.Ok all free) (busy : s.Busy all) (live : a ∈ s.live) :
    Ensures (subpageKfree a.ptr) s (fun _ => False) fails (fun found s' =>
      found = decide (a.sz < largestSubpageSize) ∧
        if found then s.Kfreed a.ptr s' else s' = s) := by
  rw [subpageKfree, ensures_bind, ensures_get, ensures_bind]
  apply (findPage_spec ok.linkedAll (fun p member => (ok.pages p member).blocktype)
    (fun p member => ok.word member) ok.length_le).imp
  rintro _ _ ⟨rfl, ⟨rfl, outside⟩ | ⟨p, member, rfl, inside⟩⟩
  · have large : ¬a.sz < largestSubpageSize := by
      intro small
      rcases ok.small a live small with ⟨p, member, _, inside⟩
      exact outside p member inside
    exact ⟨(decide_eq_false large).symm, rfl⟩
  · have small : a.sz < largestSubpageSize := by
      by_contra large
      apply (ok.page_large_apart member live (Nat.le_of_not_lt large)).ne inside _ rfl
      exact ok.ptr_mem_extent live
    rw [ensures_bind]
    apply (ok.freeBlock_spec busy live small member inside).imp
    intro _ s' freed
    exact ⟨(decide_eq_true small).symm, freed⟩

theorem Ok.ptr_placed (ok : s.Ok all free) (live : a ∈ s.live) :
    a.ptr ≠ 0 ∧ (largestSubpageSize ≤ a.sz → a.ptr % pageSize = 0) := by
  rcases Nat.lt_or_ge a.sz largestSubpageSize with small | large
  · rcases ok.small_block live small with ⟨p, member, _, _, _, _, low, _⟩
    have nonzero := (ok.page_placed member).1
    simp only [pageRegion, Allocation.extent] at low
    omega
  · have run : a.extent ∈ s.runs :=
      ok.runs.mem_iff.mpr (mem_append_right _ (mem_largeRuns.mpr ⟨a, live, large, rfl⟩))
    exact ⟨(ok.placed _ run).1, fun _ => (ok.placed _ run).2.1⟩

theorem Ok.kfree_spec (ok : s.Ok all free) (busy : s.Busy all) (live : a ∈ s.live) :
    Ensures (kfree a.ptr) s (fun _ => False) fails (fun _ s' => s.Kfreed a.ptr s') := by
  have placed := ok.ptr_placed live
  rw [kfree, if_neg placed.1, ensures_bind]
  apply (ok.subpageKfree_spec busy live).imp
  rintro found s' ⟨rfl, freed⟩
  apply ensures_branch
  · intro small
    rwa [if_pos small] at freed
  · intro large
    have large' : largestSubpageSize ≤ a.sz := by simpa using large
    rw [if_neg large] at freed
    subst freed
    refine ensures_assert_then (fun wrong => wrong (placed.2 large')) fun _ => ?_
    exact ok.freeLarge busy live large'

end Free

end Kheap

end Os161
