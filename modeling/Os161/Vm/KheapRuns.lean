import Os161.Lib.Machine
import Os161.Vm.KheapFree

/-!
# Runs of the kernel heap

The callers of `kmalloc` and `kfree` may ask for any size and give back any block in
use. Between two calls the page source may change its mind about the next run, and
any word of memory may change that is not in a free block.
-/

namespace Os161

open Arena

/-! ## The calls -/

/-- The calls of a run. -/
inductive KheapOp where
  | kmalloc (sz : Nat)
  | kfree (ptr : Nat)

/-- What the rest of the kernel decides between two calls. -/
structure KheapChoice where
  offer : Nat
  words : Nat → Nat

namespace Kheap

variable {s s' : Kheap} {all : List Nat} {free : Nat → List Nat} {p q : Nat}
  {fails : Errno → Kheap → Prop}

/-- An address in a page of blocks that is in no block in use. -/
def Guarded (s : Kheap) (addr : Nat) : Prop :=
  ∃ p < npagerefs, s.InUse p ∧ addr ∈ (s.pageRegion p).addresses ∧
    ∀ a ∈ s.live, addr ∉ a.extent.addresses

instance (region : Region) (addr : Nat) : Decidable (addr ∈ region.addresses) :=
  decidable_of_iff _ Region.mem_addresses.symm

instance (s : Kheap) (addr : Nat) : Decidable (s.Guarded addr) :=
  inferInstanceAs (Decidable (∃ p < npagerefs, _))

/-- The memory when the holders of allocations have written to it. -/
def overwritten (s : Kheap) (words : Nat → Nat) (addr : Nat) : Nat :=
  if s.Guarded addr then s.mem addr else words addr

theorem overwritten_of_guarded {s : Kheap} {addr : Nat} (guarded : s.Guarded addr)
    (words : Nat → Nat) : s.overwritten words addr = s.mem addr :=
  if_pos guarded

/-- The heap as the next call finds it. -/
def amid (s : Kheap) (choice : KheapChoice) : Kheap :=
  { s with offer := choice.offer, mem := s.overwritten choice.words }

end Kheap

attribute [local irreducible] Kheap.overwritten

/-- A call, with the account of the blocks in use. -/
def KheapOp.exec : KheapOp → KheapM Unit
  | .kmalloc sz => do
      let ptr ← Kheap.kmalloc sz
      if ptr = 0 then
        pure ()
      else
        modify fun s => s.allocated ptr sz
  | .kfree ptr => do
      Kheap.kfree ptr
      modify fun s => s.freed ptr

/-- A size whose pages can be counted, or a pointer that `kmalloc` gave out. -/
def KheapOp.Valid : KheapOp → Kheap → Prop
  | .kmalloc sz, _ => sz + pageSize ≤ 2 ^ 32
  | .kfree ptr, s => ptr ∈ s.live.map Allocation.ptr

instance (op : KheapOp) (s : Kheap) : Decidable (op.Valid s) :=
  match op with
  | .kmalloc _ => inferInstanceAs (Decidable (_ ≤ _))
  | .kfree _ => inferInstanceAs (Decidable (_ ∈ _))

/-- All runs of valid calls. -/
def kheapMachine : Machine Panic Kheap Errno KheapOp KheapChoice where
  exec := KheapOp.exec
  Enabled := KheapOp.Valid
  arm := Kheap.amid

namespace Kheap

variable {s s' : Kheap} {all : List Nat} {free : Nat → List Nat} {p q : Nat}
  {fails : Errno → Kheap → Prop}

/-- The heap before the first call. -/
structure Unused (s : Kheap) : Prop where
  pagerefs : ∀ p, ¬s.InUse p
  sizebases : ∀ b, s.sizebases b = none
  allbase : s.allbase = none
  runs : s.runs = []
  live : s.live = []

/-! ## The invariant -/

/-- What holds between two calls. -/
def Consistent (s : Kheap) : Prop :=
  ∃ all free, s.Ok all free ∧ s.Busy all

theorem Unused.consistent (unused : s.Unused) (top : s.top < 2 ^ 32) : s.Consistent := by
  have large : s.largeRuns = [] := by
    simp [largeRuns, unused.live]
  refine ⟨[], fun _ => [], ⟨⟨unused.allbase, List.nodup_nil, ?_, ?_⟩, ⟨top, ?_, ?_, ?_⟩,
    ?_, ?_, ?_, ?_⟩, ?_⟩
  · intro p
    simp [unused.pagerefs p]
  · intro b _
    exact unused.sizebases b
  · simp [unused.runs, large]
  · simp [unused.runs]
  · simp [unused.runs]
  · simp
  · simp [unused.live]
  · simp [unused.live]
  · simp [unused.live]
  · simp [Busy]

theorem Ok.guarded (ok : s.Ok all free) (member : p ∈ all) {addr : Nat} (isFree : addr ∈ free p) :
    s.Guarded addr := by
  have page := ok.pages p member
  have size := (sizes_spec _ page.blocktype).1
  have inPage := page.block isFree
  have used := (ok.inUse p).mp member
  refine ⟨p, used.1, used.2, Region.mem_addresses.mpr ?_, ?_⟩
  · simp only [pageRegion]
    omega
  · intro a live within
    apply (ok.free_apart member isFree live).ne _ within rfl
    exact Region.mem_addresses.mpr ⟨le_refl _, by simp only; omega⟩

theorem Consistent.amid (consistent : s.Consistent) (choice : KheapChoice) :
    (s.amid choice).Consistent := by
  rcases consistent with ⟨all, free, ok, busy⟩
  refine ⟨all, free, ⟨ok.toLists.congr (fun _ => rfl) (fun _ => rfl) (fun _ => rfl) rfl rfl
    (fun _ => Iff.rfl), ok.toRuns.congr (fun _ => rfl) rfl rfl rfl, ?_, ?_, ok.small,
    ok.distinct⟩, busy⟩
  · intro p member
    apply (ok.pages p member).congr
    · rfl
    · intro addr isFree
      exact overwritten_of_guarded (ok.guarded member isFree) choice.words
    · rfl
  · intro a live
    exact ok.words a live

theorem valid_amid {op : KheapOp} {choice : KheapChoice} :
    op.Valid (s.amid choice) ↔ op.Valid s := by
  cases op <;> simp [KheapOp.Valid, amid]

theorem Consistent.exec {op : KheapOp} (consistent : s.Consistent) (valid : op.Valid s) :
    Ensures op.exec s (fun _ => False) fails (fun _ s' => s'.Consistent) := by
  rcases consistent with ⟨all, free, ok, busy⟩
  cases op with
  | kmalloc sz =>
      rw [KheapOp.exec, ensures_bind]
      apply (ok.kmalloc_spec busy valid).imp
      rintro ptr s' ⟨_, ⟨rfl, consistent⟩ | ⟨nonzero, consistent⟩⟩
      · exact consistent
      · rw [if_neg nonzero]
        exact consistent
  | kfree ptr =>
      rcases List.mem_map.mp valid with ⟨a, live, rfl⟩
      rw [KheapOp.exec, ensures_bind]
      apply (ok.kfree_spec busy live).imp
      rintro _ s' ⟨_, consistent⟩
      exact consistent

theorem consistent_of_reachable
    (reachable : kheapMachine.Reachable (fun s => s.Unused ∧ s.top < 2 ^ 32) s) : s.Consistent := by
  apply reachable.invariant
  · rintro s ⟨unused, top⟩
    exact unused.consistent top
  · intro s op choice _ valid consistent
    apply ((consistent.amid choice).exec (valid_amid.mpr valid)).mono
    · exact fun _ => False.elim
    · exact fun _ _ => id
    · exact fun _ _ => id

/-! ## What it gives -/

/-- The free blocks of a page: linked, counted, different, and blocks of the page that are not in
use. -/
structure FreeList (s : Kheap) (p : Nat) (free : List Nat) : Prop where
  linked : Linked (freeNext s.mem) (Pageref.freeHead (s.pagerefs p)) free
  count : (s.pagerefs p).nfree = free.length
  nodup : free.Nodup
  blocks : ∀ addr ∈ free, (s.pagerefs p).pageaddr ≤ addr ∧
    (addr - (s.pagerefs p).pageaddr) % sizes (s.pagerefs p).blocktype = 0 ∧
    addr + sizes (s.pagerefs p).blocktype ≤ (s.pagerefs p).pageaddr + pageSize
  unused : ∀ addr ∈ free, ∀ a ∈ s.live,
    (⟨addr, addr + sizes (s.pagerefs p).blocktype⟩ : Region).Apart a.extent

/-- The heap does what it is for. -/
structure Sound (s : Kheap) : Prop where
  room : ∀ a ∈ s.live, a.sz ≤ a.capacity
  apart : s.live.Pairwise fun a a' => a.extent.Apart a'.extent
  free : ∀ p < npagerefs, s.InUse p → ∃ free, s.FreeList p free
  allbase : ∃ all, Linked (fun p => (s.pagerefs p).nextAll) s.allbase all ∧
    ∀ p, all.count p = if p < npagerefs ∧ s.InUse p then 1 else 0
  sizebases : ∀ b < nsizes, ∃ same,
    Linked (fun p => (s.pagerefs p).nextSamesize) (s.sizebases b) same ∧
    ∀ p, same.count p =
      if p < npagerefs ∧ s.InUse p ∧ (s.pagerefs p).blocktype = b then 1 else 0
  released : (∀ a ∈ s.live, largestSubpageSize ≤ a.sz) → ∀ p < npagerefs, ¬s.InUse p

theorem Ok.freeList (ok : s.Ok all free) (member : p ∈ all) : s.FreeList p (free p) where
  linked := (ok.pages p member).linked
  count := (ok.pages p member).count
  nodup := (ok.nodup_free_live member).of_append_left
  blocks addr isFree := by
    have inside := block_inside (ok.pages p member).blocktype (ok.free_block member isFree)
    exact ⟨inside.1, inside.2.2, inside.2.1⟩
  unused _ isFree _ live := ok.free_apart member isFree live

theorem Consistent.sound (consistent : s.Consistent) : s.Sound := by
  rcases consistent with ⟨all, free, ok, busy⟩
  constructor
  · intro a live
    exact a.le_capacity (ok.words a live)
  · apply List.Pairwise.imp_of_mem _ ok.distinct.of_map
    intro a a' live live' different
    exact ok.extents_apart live live' different
  · intro p low used
    exact ⟨free p, ok.freeList ((ok.inUse p).mpr ⟨low, used⟩)⟩
  · refine ⟨all, ok.linkedAll, ?_⟩
    intro p
    rw [ok.nodup.count]
    simp only [ok.inUse p]
  · intro b type
    refine ⟨_, ok.linkedSame b type, ?_⟩
    intro p
    rw [(ok.nodup.filter _).count]
    simp only [List.mem_filter, decide_eq_true_eq, ok.inUse p, and_assoc]
  · intro noSmall p low used
    have member := (ok.inUse p).mpr ⟨low, used⟩
    rcases List.exists_mem_of_ne_nil _ (busy p member) with ⟨ptr, isLive⟩
    rcases mem_liveIn.mp isLive with ⟨isLive, inside⟩
    rcases List.mem_map.mp isLive with ⟨a, live, rfl⟩
    exact (ok.page_large_apart member live (noSmall a live)).ne inside (ok.ptr_mem_extent live) rfl

/-- `kmalloc` returns `NULL` or a block that is apart from those in use. -/
theorem Consistent.kmalloc_spec {sz : Nat} (consistent : s.Consistent)
    (word : sz + pageSize ≤ 2 ^ 32) :
    Ensures (kmalloc sz) s (fun _ => False) fails (fun ptr s' =>
      s'.live = s.live ∧ (ptr ≠ 0 →
        (∀ a ∈ s.live, (⟨ptr, ptr + sz⟩ : Region).Apart a.extent) ∧
          (s'.allocated ptr sz).Sound)) := by
  rcases consistent with ⟨all, free, ok, busy⟩
  apply (ok.kmalloc_spec busy word).imp
  rintro ptr s' ⟨live, ⟨rfl, _⟩ | ⟨nonzero, all', free', ok', busy'⟩⟩
  · exact ⟨live, fun nonzero => absurd rfl nonzero⟩
  · refine ⟨live, fun _ => ⟨fun a isLive => ?_, Consistent.sound ⟨all', free', ok', busy'⟩⟩⟩
    have new : (⟨ptr, sz⟩ : Allocation) ∈ (s'.allocated ptr sz).live := mem_cons_self
    have old : a ∈ (s'.allocated ptr sz).live := mem_cons_of_mem _ (live.symm ▸ isLive)
    have different : (⟨ptr, sz⟩ : Allocation) ≠ a := by
      rintro rfl
      have fresh := (nodup_cons.mp ok'.distinct).1
      exact fresh (List.mem_map_of_mem (live.symm ▸ isLive))
    apply (ok'.extents_apart new old different).mono _ ⟨le_refl _, le_refl _⟩
    exact ⟨le_refl _, Nat.add_le_add_left (Allocation.le_capacity (ok'.words _ new)) _⟩

end Kheap

/-- In every state of a run, whatever the page source and the callers do, the heap is sound, and
every call returns. -/
theorem kernel_heap_sound {s : Kheap}
    (reachable : kheapMachine.Reachable (fun s => s.Unused ∧ s.top < 2 ^ 32) s)
    (choice : KheapChoice) :
    (s.amid choice).Sound ∧
    (∀ sz, sz + pageSize ≤ 2 ^ 32 → Prog.Ensures (Kheap.kmalloc sz) (s.amid choice)
      (fun _ => False) (fun _ _ => False) (fun ptr s' => s'.live = s.live ∧
        (ptr ≠ 0 → (∀ a ∈ s.live, (⟨ptr, ptr + sz⟩ : Region).Apart a.extent) ∧
          (s'.allocated ptr sz).Sound))) ∧
    ∀ a ∈ s.live,
      Prog.Ensures (Kheap.subpageKfree a.ptr) (s.amid choice) (fun _ => False) (fun _ _ => False)
        (fun subpage _ => subpage = decide (a.sz < largestSubpageSize)) ∧
      Prog.Ensures (Kheap.kfree a.ptr) (s.amid choice) (fun _ => False) (fun _ _ => False)
        (fun _ s' => (s'.freed a.ptr).Sound) := by
  have consistent := (Kheap.consistent_of_reachable reachable).amid choice
  refine ⟨consistent.sound, ?_, ?_⟩
  · intro sz word
    exact consistent.kmalloc_spec word
  · rcases consistent with ⟨all, free, ok, busy⟩
    intro a live
    constructor
    · apply (ok.subpageKfree_spec busy live).imp
      exact fun _ _ found => found.1
    · apply (ok.kfree_spec busy live).imp
      exact fun _ _ freed => Kheap.Consistent.sound freed.2

/-- An unused heap on a machine whose pages end at `top`. -/
def unusedKheap (top : Nat) : Kheap where
  pagerefs _ := ⟨none, none, 0, 0, 0⟩
  pagerefsInuse _ := 0
  sizebases _ := none
  allbase := none
  mem _ := 0
  top := top
  offer := 0
  runs := []
  live := []

theorem unusedKheap_unused (top : Nat) : (unusedKheap top).Unused :=
  ⟨fun p => by simp [Kheap.InUse, unusedKheap], fun _ => rfl, rfl, rfl, rfl⟩

/-- The next free page is `page`, and all that may be written has been. -/
def offering (page : Nat) : KheapChoice :=
  ⟨page, fun _ => 0xffffffff⟩

instance (op : KheapOp) (s : Kheap) : Decidable (kheapMachine.Enabled op s) :=
  inferInstanceAs (Decidable (op.Valid s))

/-- Three blocks, and one of them is freed. -/
theorem kernel_heap_sound_after_kfree :
    ∃ s : Kheap, s.live = [⟨0x80002000, 5000⟩, ⟨0x80001c00, 1000⟩] ∧
      (s.amid (offering 0x80004000)).Sound := by
  have computed : ((kheapMachine.execute (unusedKheap 0xa0000000)
      [(.kmalloc 1000, offering 0x80001000), (.kmalloc 5000, offering 0x80002000),
        (.kmalloc 600, offering 0), (.kfree 0x80001800, offering 0)]).any fun s =>
      s.live == [⟨0x80002000, 5000⟩, ⟨0x80001c00, 1000⟩]) = true := by
    decide +kernel
  rcases (any_eq_true _ _).mp computed with ⟨s, executed, live⟩
  have reachable : kheapMachine.Reachable (fun s => s.Unused ∧ s.top < 2 ^ 32) s :=
    (Machine.Reachable.start ⟨unusedKheap_unused 0xa0000000, by decide⟩).execute executed
  exact ⟨s, by simpa using live, (kernel_heap_sound reachable (offering 0x80004000)).1⟩

/-- The end of the last page of memory wraps around, so that its blocks are not found. -/
theorem kfree_in_last_page_panics :
    ∃ s : Kheap, kheapMachine.Reachable Kheap.Unused s ∧ s.live = [⟨0xfffffc00, 1000⟩] ∧
      KheapOp.exec (.kfree 0xfffffc00) (s.amid (offering 0)) = .error .kfreeAlignment := by
  have computed : ((kheapMachine.execute (unusedKheap 0x100000000)
      [(.kmalloc 1000, offering 0xfffff000)]).any fun s =>
      s.live == [⟨0xfffffc00, 1000⟩] &&
        (KheapOp.exec (.kfree 0xfffffc00)).halted (s.amid (offering 0)) ==
          some .kfreeAlignment) = true := by
    decide +kernel
  rcases (any_eq_true _ _).mp computed with ⟨s, executed, facts⟩
  rw [Bool.and_eq_true] at facts
  refine ⟨s, (Machine.Reachable.start (unusedKheap_unused _)).execute executed,
    by simpa using facts.1, ?_⟩
  exact Prog.halted_eq_some.mp (beq_iff_eq.mp facts.2)

end Os161
