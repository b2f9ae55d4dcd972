import Mathlib.Order.Fin.Basic
import Os161.Sfs.FileIo

/-!
# Truncation

`sfs_truncate` takes blocks away from a file and gives them back to the freemap. What
any such step may do to a volume is `Shrank`, the counterpart of `Grew`.

The two loops of the source do not draw the line at the same place: of the direct
blocks those from the new end on go, of the entries of the indirect block only those
behind the one at the new end. And the indirect block is looked at only when the new
end is before its last entry. `Truncated` says which places lose their block.
-/

namespace Os161

open SfsM SfsIoM SfsInode FileAt
open Function (update)

variable {δ : Type}

/-! ## Blocks that a file gives up -/

/-- Between two volumes the file of a vnode has given up blocks, and nothing else has happened
except to its size and its indirect block. -/
structure Shrank (sv : Nat) (V : Vol) (v : SfsVnode) (V' : Vol) (v' : SfsVnode) : Prop where
  frame : V' = V.withFile V'.disk V'.sfsFreemap V'.sfsFreemapdirty sv v'
  nbits : V'.sfsFreemap.nbits = V.sfsFreemap.nbits
  vnode : v' = v.withInode v'.svI v'.svDirty
  inode : v'.svI = v.svI.withMap v'.svI.sfiSize v'.svI.sfiDirect v'.svI.sfiIndirect
  dirty : v' = v ∨ v'.svDirty = true
  mapDirty : (V'.sfsFreemap = V.sfsFreemap ∧ V'.sfsFreemapdirty = V.sfsFreemapdirty) ∨
    V'.sfsFreemapdirty = true
  ptr : ∀ k, v'.svI.ptr V'.disk k = v.svI.ptr V.disk k ∨ v'.svI.ptr V'.disk k = none
  used : ∀ block, V'.Used block ↔ V.Used block ∧
    ∀ k, v.svI.ptr V.disk k = some block → v'.svI.ptr V'.disk k = some block
  other : ∀ block, v.svI.ptr V.disk sfsMaxblocks ≠ some block → V'.disk block = V.disk block

namespace Shrank

variable {dev : Device δ} {sv : Nat} {V V' V₁ V₂ : Vol} {v v' v₁ v₂ : SfsVnode}

theorem refl (present : V.vnodes sv = some v) : Shrank sv V v V v where
  frame := by rw [Vol.withFile, ← present, update_eq_self]
  nbits := rfl
  vnode := rfl
  inode := rfl
  dirty := Or.inl rfl
  mapDirty := Or.inl ⟨rfl, rfl⟩
  ptr := fun _ => Or.inl rfl
  used := fun _ => ⟨fun used => ⟨used, fun _ mapped => mapped⟩, fun both => both.1⟩
  other := fun _ _ => rfl

theorem nblocks (shrank : Shrank sv V v V' v') : V'.nblocks = V.nblocks := by
  rw [shrank.frame]
  rfl

theorem present (shrank : Shrank sv V v V' v') : V'.vnodes sv = some v' := by
  rw [shrank.frame]
  exact update_self ..

theorem mapped_before (shrank : Shrank sv V v V' v') {k block : Nat}
    (mapped : v'.svI.ptr V'.disk k = some block) : v.svI.ptr V.disk k = some block := by
  rcases shrank.ptr k with same | gone
  · rw [← same, mapped]
  · rw [mapped] at gone
    cases gone

theorem trans (first : Shrank sv V v V₁ v₁) (second : Shrank sv V₁ v₁ V₂ v₂) :
    Shrank sv V v V₂ v₂ where
  frame := by
    have between := congrArg
      (fun V => V.withFile V₂.disk V₂.sfsFreemap V₂.sfsFreemapdirty sv v₂) first.frame
    rw [Vol.withFile_withFile] at between
    exact second.frame.trans between
  nbits := second.nbits.trans first.nbits
  vnode := second.vnode.trans (congrArg (fun v => v.withInode v₂.svI v₂.svDirty) first.vnode)
  inode := second.inode.trans (congrArg
    (fun inode => inode.withMap v₂.svI.sfiSize v₂.svI.sfiDirect v₂.svI.sfiIndirect) first.inode)
  dirty := by
    rcases second.dirty with rfl | dirty
    · exact first.dirty
    · exact Or.inr dirty
  mapDirty := by
    rcases second.mapDirty with ⟨mapEq, dirtyEq⟩ | dirty
    · rw [mapEq, dirtyEq]
      exact first.mapDirty
    · exact Or.inr dirty
  ptr := by
    intro k
    rcases second.ptr k with same | gone
    · rw [same]
      exact first.ptr k
    · exact Or.inr gone
  used := by
    intro block
    rw [second.used, first.used]
    constructor
    · rintro ⟨⟨used, kept⟩, kept'⟩
      exact ⟨used, fun k mapped => kept' k (kept k mapped)⟩
    · rintro ⟨used, kept⟩
      refine ⟨⟨used, fun k mapped => ?_⟩, fun k mapped => kept k (first.mapped_before mapped)⟩
      exact second.mapped_before (kept k mapped)
  other := by
    intro block notIndirect
    rw [second.other block fun mapped => notIndirect (first.mapped_before mapped),
      first.other block notIndirect]

theorem file (shrank : Shrank sv V v V' v') (file : FileAt dev V sv v) : FileAt dev V' sv v' where
  present := shrank.present
  ready :=
    { nblocks_le := shrank.nblocks ▸ file.ready.nblocks_le
      nblocks_lt := shrank.nblocks ▸ file.ready.nblocks_lt
      nblocks_le_nbits := shrank.nblocks ▸ shrank.nbits ▸ file.ready.nblocks_le_nbits
      nbits_lt := shrank.nbits ▸ file.ready.nbits_lt
      used_of_le := by
        intro block outside inside
        rw [shrank.nblocks] at outside
        rw [shrank.nbits] at inside
        refine (shrank.used block).mpr ⟨file.ready.used_of_le block outside inside, ?_⟩
        intro k mapped
        have below := file.inside mapped
        omega
      used_zero := by
        refine (shrank.used _).mpr ⟨file.ready.used_zero, ?_⟩
        intro k mapped
        exact absurd rfl (ptr_ne_zero mapped) }
  inside := by
    intro k block mapped
    rw [shrank.nblocks]
    exact file.inside (shrank.mapped_before mapped)
  used := by
    intro k block mapped
    have before := shrank.mapped_before mapped
    refine (shrank.used block).mpr ⟨file.used before, fun j mappedThere => ?_⟩
    rwa [file.exclusive mappedThere before]
  exclusive := by
    intro left right block leftMapped rightMapped
    exact file.exclusive (shrank.mapped_before leftMapped) (shrank.mapped_before rightMapped)

end Shrank

/-! ## Direct blocks -/

section Loops

variable {dev : Device δ} {content : δ → Nat → Block} {s : Sfs δ} {sv block c : Nat} {V : Vol}
  {v : SfsVnode}

/-- What `Shrank` asks of the places of a file, when those that have lost their block are known. -/
theorem places_of_lost {ptr ptr' : Nat → Option Nat} {lost : Nat → Prop} [DecidablePred lost]
    (ptrEq : ∀ k, ptr' k = if lost k then none else ptr k) :
    (∀ k, ptr' k = ptr k ∨ ptr' k = none) ∧ ∀ block,
      (∀ k, ptr k = some block → ptr' k = some block) ↔ ∀ k, lost k → ptr k ≠ some block := by
  refine ⟨fun k => ?_, fun block => ⟨fun kept k isLost mapped => ?_, fun kept k mapped => ?_⟩⟩
  · rw [ptrEq]
    split
    · exact Or.inr rfl
    · exact Or.inl rfl
  · have still := kept k mapped
    rw [ptrEq, if_pos isLost] at still
    cases still
  · rw [ptrEq, if_neg fun isLost => kept k isLost mapped, mapped]

theorem ptr_detached (v : SfsVnode) (disk : Nat → Block) (i : Fin sfsNdirect) (k : Nat) :
    (v.setInode (v.svI.setDirect i 0)).svI.ptr disk k =
      if k = i then none else v.svI.ptr disk k := by
  rw [← update_apply]
  exact congrFun (ptr_setDirect v.svI disk i (by decide)) k

theorem Shrank.detach {i : Fin sfsNdirect} (mapped : v.svI.ptr V.disk i = some block) :
    Shrank sv V v ((V.release block).setVnode sv (v.setInode (v.svI.setDirect i 0)))
      (v.setInode (v.svI.setDirect i 0)) := by
  rcases places_of_lost (ptr_detached v V.disk i) with ⟨places, kept⟩
  refine ⟨rfl, rfl, rfl, rfl, Or.inr rfl, Or.inr rfl, places, fun other => ?_, fun _ _ => rfl⟩
  refine Iff.trans ?_ (and_congr_right fun _ => (kept other).symm)
  simp [Vol.Used, Vol.release, Sfs.setVnode, and_comm, mapped, ne_comm]

theorem sfsTruncateDirect_spec (c : Nat) (places : List (Fin sfsNdirect)) :
    ∀ {V : Vol} {v : SfsVnode} {s : Sfs δ}, FileAt dev V sv v → s.vol content = V →
      Ensures (sfsTruncateDirect sv c places) s (fun _ => False) (fun _ _ => False)
        (fun _ s' => ∃ v', Shrank sv V v (s'.vol content) v' ∧ (s'.vol content).disk = V.disk ∧
          v'.svI.sfiIndirect = v.svI.sfiIndirect ∧
          ∀ i : Fin sfsNdirect, v'.svI.ptr V.disk i =
            if i ∈ places ∧ c ≤ i then none else v.svI.ptr V.disk i) := by
  induction places with
  | nil =>
      intro V v s file volEq
      rw [sfsTruncateDirect, ensures_pure, volEq]
      exact ⟨v, Shrank.refl file.present, rfl, rfl, fun i => by simp⟩
  | cons i places ih =>
      intro V v s file volEq
      have ptrEq := ptr_direct v.svI V.disk i
      simp only [sfsTruncateDirect, ensures_bind, file.deref volEq, ensures_ite]
      split
      · rename_i past
        rw [blockNumber_of_ne past.2] at ptrEq
        have bits := file.ready.nblocks_le_nbits
        have inside := file.inside ptrEq
        apply (sfsBfree_spec volEq (by omega) (file.used ptrEq)).total
        intro _ s₁ volEq₁
        apply (updateInode_spec volEq₁ file.present _).total
        intro _ s₂ volEq₂
        have detached : Shrank sv V v _ _ := Shrank.detach ptrEq
        rw [← volEq₂] at detached
        have diskEq : (s₂.vol content).disk = V.disk := by rw [volEq₂]; rfl
        apply (ih (detached.file file) rfl).total
        rintro _ s₃ ⟨v', shrank, diskEq', indirectEq, direct⟩
        rw [diskEq] at diskEq' direct
        refine ⟨v', detached.trans shrank, diskEq', indirectEq, fun k => ?_⟩
        rw [direct k, ptr_detached]
        by_cases same : k = i
        · subst same
          simp [past.1]
        · have different : (k : Nat) ≠ i := fun equal => same (Fin.ext equal)
          simp [same, different]
      · rename_i kept
        apply (ih file volEq).total
        rintro _ s' ⟨v', shrank, diskEq, indirectEq, direct⟩
        refine ⟨v', shrank, diskEq, indirectEq, fun k => ?_⟩
        rw [direct k]
        by_cases same : k = i
        · subst same
          by_cases past : c ≤ k
          · have zero : (v.svI.sfiDirect k).toNat = 0 := by
              by_contra nonzero
              exact kept ⟨past, nonzero⟩
            simp [ptrEq, zero, blockNumber_zero]
          · simp [past]
        · simp [same]

/-! ## The indirect block -/

def Vol.withFreemap (V : Vol) (sfsFreemap : Bitmap) (sfsFreemapdirty : Bool) : Vol :=
  { V with sfsFreemap, sfsFreemapdirty }

/-- The entries among `places` that are behind the one at the new end have been given back. -/
structure EntriesFreed (c : Nat) (places : List (Fin sfsDbperidb)) (words : Words) (V V' : Vol) :
    Prop where
  frame : V' = V.withFreemap V'.sfsFreemap V'.sfsFreemapdirty
  nbits : V'.sfsFreemap.nbits = V.sfsFreemap.nbits
  mapDirty : V' = V ∨ V'.sfsFreemapdirty = true
  used : ∀ block, V'.Used block ↔ V.Used block ∧
    ∀ j ∈ places, c < sfsNdirect + j → words j ≠ 0 → (words j).toNat ≠ block
  same : (∀ j ∈ places, c < sfsNdirect + j → words j = 0) → V' = V

/-- What the loop over the indirect block hands back. -/
structure IdbufDone (c : Nat) (places : List (Fin sfsDbperidb))
    (before after : Words × Bool × Bool) : Prop where
  idbuf : ∀ j, after.1 j = if j ∈ places ∧ c < sfsNdirect + j then 0 else before.1 j
  hasnonzero : after.2.1 = true ↔ before.2.1 = true ∨ ∃ j ∈ places, after.1 j ≠ 0
  iddirty : after.2.2 = true ↔
    before.2.2 = true ∨ ∃ j ∈ places, c < sfsNdirect + j ∧ before.1 j ≠ 0

theorem EntriesFreed.refl (c : Nat) (words : Words) (V : Vol) : EntriesFreed c [] words V V :=
  ⟨rfl, rfl, Or.inl rfl, fun _ => by simp, fun _ => rfl⟩

variable {j : Fin sfsDbperidb} {places : List (Fin sfsDbperidb)} {idbuf : Words} {V' : Vol}
  {idblock : Nat}

theorem IdbufDone.cons_freed {c : Nat} {hasnonzero iddirty : Bool} {after : Words × Bool × Bool}
    (done : IdbufDone c places (update idbuf j 0, hasnonzero, true) after)
    (notMem : j ∉ places) (past : c < sfsNdirect + j) (nonzero : idbuf j ≠ 0) :
    IdbufDone c (j :: places) (idbuf, hasnonzero, iddirty) after := by
  have here : after.1 j = 0 := by simp [done.idbuf, notMem]
  refine ⟨fun k => ?_, ?_, ?_⟩
  · rw [done.idbuf]
    by_cases same : k = j
    · simp [same, notMem, past]
    · simp [same]
  · rw [done.hasnonzero]
    simp [here]
  · rw [done.iddirty]
    simp [past, nonzero]

theorem IdbufDone.cons_kept {c : Nat} {hasnonzero iddirty : Bool} {after : Words × Bool × Bool}
    (done : IdbufDone c places (idbuf, hasnonzero || idbuf j ≠ 0, iddirty) after)
    (notMem : j ∉ places) (kept : ¬(c < sfsNdirect + j ∧ idbuf j ≠ 0)) :
    IdbufDone c (j :: places) (idbuf, hasnonzero, iddirty) after := by
  have here : after.1 j = idbuf j := by simp [done.idbuf, notMem]
  refine ⟨fun k => ?_, ?_, ?_⟩
  · rw [done.idbuf]
    by_cases same : k = j
    · subst same
      by_cases past : c < sfsNdirect + k
      · simp [notMem, past, not_not.mp fun nonzero => kept ⟨past, nonzero⟩]
      · simp [past]
    · simp [same]
  · rw [done.hasnonzero]
    simp [here, or_assoc]
  · rw [done.iddirty]
    simp [kept]

theorem EntriesFreed.cons_freed {c : Nat} {words : Words} {V : Vol}
    (freed : EntriesFreed c places (update words j 0) (V.release (words j).toNat) V')
    (notMem : j ∉ places) (past : c < sfsNdirect + j) (nonzero : words j ≠ 0) :
    EntriesFreed c (j :: places) words V V' := by
  have others : ∀ k ∈ places, update words j 0 k = words k := by
    intro k member
    apply update_of_ne
    rintro rfl
    exact notMem member
  refine ⟨?_, ?_, ?_, ?_, ?_⟩
  · rw [freed.frame]
    rfl
  · exact freed.nbits.trans rfl
  · right
    rcases freed.mapDirty with rfl | dirty
    · rfl
    · exact dirty
  · intro block
    have released : (V.release (words j).toNat).Used block ↔
        V.Used block ∧ (words j).toNat ≠ block := by
      rw [ne_comm]
      simp [Vol.Used, Vol.release, and_comm]
    rw [freed.used, released]
    simp only [forall_mem_cons, past, nonzero, ne_eq, not_false_eq_true, forall_const, and_assoc]
    apply and_congr_right
    intro _
    apply and_congr_right
    intro _
    constructor
    · intro rest k member behind mapped
      have restHere := rest k member behind
      rw [others k member] at restHere
      exact restHere mapped
    · intro rest k member behind mapped
      rw [others k member] at mapped ⊢
      exact rest k member behind mapped
  · intro nothing
    exact absurd (nothing j mem_cons_self past) nonzero

theorem EntriesFreed.cons_kept {c : Nat} {words : Words} {V : Vol}
    (freed : EntriesFreed c places words V V') (kept : ¬(c < sfsNdirect + j ∧ words j ≠ 0)) :
    EntriesFreed c (j :: places) words V V' := by
  refine ⟨freed.frame, freed.nbits, freed.mapDirty, ?_, ?_⟩
  · intro block
    rw [freed.used]
    apply and_congr_right
    intro _
    simp only [forall_mem_cons, iff_and_self]
    intro _ past nonzero
    exact absurd ⟨past, nonzero⟩ kept
  · intro nothing
    exact freed.same fun k member => nothing k (mem_cons_of_mem _ member)

theorem sfsTruncateIdbuf_spec (c : Nat) (places : List (Fin sfsDbperidb)) :
    ∀ {V : Vol} {s : Sfs δ} {before : Words × Bool × Bool}, s.vol content = V →
      places.Nodup → V.nblocks ≤ V.sfsFreemap.nbits →
      (∀ j ∈ places, before.1 j ≠ 0 → (before.1 j).toNat < V.nblocks ∧ V.Used (before.1 j).toNat) →
      (∀ j ∈ places, ∀ j' ∈ places, before.1 j ≠ 0 → before.1 j = before.1 j' → j = j') →
      Ensures (sfsTruncateIdbuf c places before) s (fun _ => False) (fun _ _ => False)
        (fun after s' => IdbufDone c places before after ∧
          EntriesFreed c places before.1 V (s'.vol content)) := by
  induction places with
  | nil =>
      rintro V s ⟨idbuf, hasnonzero, iddirty⟩ volEq _ _ _ _
      rw [sfsTruncateIdbuf, ensures_pure, volEq]
      exact ⟨⟨fun _ => by simp, by simp, by simp⟩, EntriesFreed.refl c idbuf V⟩
  | cons j places ih =>
      rintro V s ⟨idbuf, hasnonzero, iddirty⟩ volEq nodup bits inside distinct
      rcases nodup_cons.mp nodup with ⟨notMem, nodup⟩
      simp only at inside distinct
      have insideRest : ∀ k ∈ places, idbuf k ≠ 0 →
          (idbuf k).toNat < V.nblocks ∧ V.Used (idbuf k).toNat :=
        fun k member => inside k (mem_cons_of_mem _ member)
      have distinctRest : ∀ k ∈ places, ∀ k' ∈ places, idbuf k ≠ 0 → idbuf k = idbuf k' → k = k' :=
        fun k member k' member' =>
          distinct k (mem_cons_of_mem _ member) k' (mem_cons_of_mem _ member')
      rw [sfsTruncateIdbuf]
      apply ensures_branch
      · rintro ⟨past, nonzero⟩
        rcases inside j mem_cons_self nonzero with ⟨small, used⟩
        have others : ∀ k ∈ places, update idbuf j 0 k = idbuf k := by
          intro k member
          apply update_of_ne
          rintro rfl
          exact notMem member
        rw [ensures_bind]
        apply (sfsBfree_spec volEq (by omega) used).total
        intro _ s₁ volEq₁
        apply (ih volEq₁ nodup (by exact bits) ?_ ?_).total
        · rintro after s' ⟨done, freed⟩
          exact ⟨done.cons_freed notMem past nonzero, freed.cons_freed notMem past nonzero⟩
        · intro k member mapped
          simp only [others k member] at mapped ⊢
          rcases insideRest k member mapped with ⟨small', used'⟩
          refine ⟨small', ?_⟩
          have different : (idbuf k).toNat ≠ (idbuf j).toNat := by
            intro same
            have sameWord := UInt32.toNat_inj.mp same
            have sameplace := distinct k (mem_cons_of_mem _ member) j mem_cons_self mapped sameWord
            exact notMem (sameplace ▸ member)
          rw [Vol.Used] at used' ⊢
          simp [Vol.release, different, used']
        · intro k member k' member'
          simp only [others k member, others k' member']
          exact distinctRest k member k' member'
      · intro kept
        apply (ih volEq nodup bits insideRest distinctRest).total
        rintro after s' ⟨done, freed⟩
        exact ⟨done.cons_kept notMem kept, freed.cons_kept kept⟩

/-- Which places behind the direct blocks have lost their block when a file has been cut at the
block `c`. -/
structure CutIndirect (c : Nat) (ptr ptr' : Nat → Option Nat) : Prop where
  entry : ∀ j : Fin sfsDbperidb,
    ptr' (sfsNdirect + j) = if sfsMaxblocks - 1 ≤ c ∨ sfsNdirect + j ≤ c then ptr (sfsNdirect + j)
      else none
  indirect : ptr' sfsMaxblocks =
    if sfsMaxblocks - 1 ≤ c ∨ ∃ j : Fin sfsDbperidb, (ptr' (sfsNdirect + j)).isSome then
      ptr sfsMaxblocks
    else none

/-- Which places have lost their block when a file has been cut at the block `c`. -/
structure Truncated (c : Nat) (ptr ptr' : Nat → Option Nat) : Prop where
  direct : ∀ i : Fin sfsNdirect, ptr' i = if i < c then ptr i else none
  rest : CutIndirect c ptr ptr'

theorem FileAt.entry_eq (indirect : v.svI.ptr V.disk sfsMaxblocks = some idblock)
    (j : Fin sfsDbperidb) :
    v.svI.ptr V.disk (sfsNdirect + j) = blockNumber ((V.disk idblock).toWords j).toNat := by
  rw [ptr_entry, ← ptr_indirect v.svI V.disk, indirect, bind_some]

theorem word_toNat_ne_zero {word : UInt32} : word.toNat ≠ 0 ↔ word ≠ 0 := by
  rw [ne_eq, ne_eq, ← UInt32.toNat_inj]
  rfl

theorem FileAt.mapped_entry (indirect : v.svI.ptr V.disk sfsMaxblocks = some idblock)
    (nonzero : (V.disk idblock).toWords j ≠ 0) :
    v.svI.ptr V.disk (sfsNdirect + j) = some ((V.disk idblock).toWords j).toNat := by
  rw [entry_eq indirect, blockNumber_of_ne (word_toNat_ne_zero.mpr nonzero)]

theorem FileAt.entry_inside (file : FileAt dev V sv v)
    (indirect : v.svI.ptr V.disk sfsMaxblocks = some idblock) :
    ∀ j ∈ List.finRange sfsDbperidb, (V.disk idblock).toWords j ≠ 0 →
      ((V.disk idblock).toWords j).toNat < V.nblocks ∧ V.Used ((V.disk idblock).toWords j).toNat :=
  fun _ _ nonzero => ⟨file.inside (mapped_entry indirect nonzero),
    file.used (mapped_entry indirect nonzero)⟩

theorem FileAt.entry_distinct (file : FileAt dev V sv v)
    (indirect : v.svI.ptr V.disk sfsMaxblocks = some idblock) :
    ∀ j ∈ List.finRange sfsDbperidb, ∀ j' ∈ List.finRange sfsDbperidb,
      (V.disk idblock).toWords j ≠ 0 →
        (V.disk idblock).toWords j = (V.disk idblock).toWords j' → j = j' := by
  intro j _ j' _ nonzero same
  have mapped := mapped_entry indirect nonzero
  rw [same] at mapped nonzero
  have samePlace := file.exclusive mapped (mapped_entry indirect nonzero)
  exact Fin.ext (by omega)

section Freed

variable
  (freed : EntriesFreed c (List.finRange sfsDbperidb) (V.disk idblock).toWords V V')
  (indirect : v.svI.ptr V.disk sfsMaxblocks = some idblock)
include freed indirect

/-- The blocks that are still marked after the entries behind the new end have gone. -/
theorem EntriesFreed.used_iff (block : Nat) :
    V'.Used block ↔ V.Used block ∧
      ∀ j : Fin sfsDbperidb, c < sfsNdirect + j →
        v.svI.ptr V.disk (sfsNdirect + j) ≠ some block := by
  rw [freed.used]
  apply and_congr_right
  intro _
  constructor
  · intro kept j past mapped
    rw [entry_eq indirect, blockNumber_eq_some_iff] at mapped
    apply kept j (List.mem_finRange j) past
    · rw [← word_toNat_ne_zero, mapped.1]
      exact mapped.2
    · exact mapped.1
  · rintro kept j _ past nonzero rfl
    apply kept j past
    rw [entry_eq indirect, blockNumber_of_ne (word_toNat_ne_zero.mpr nonzero)]

theorem EntriesFreed.drop_indirect
    (all : ∀ j : Fin sfsDbperidb, c < sfsNdirect + j ∨ (V.disk idblock).toWords j = 0) :
    Shrank sv V v ((V'.release idblock).setVnode sv (v.setInode (v.svI.setIndirect 0)))
        (v.setInode (v.svI.setIndirect 0)) ∧
      ∀ k, sfsNdirect ≤ k → (v.svI.setIndirect 0).ptr V.disk k = none := by
  have ptrEq : ∀ k, (v.setInode (v.svI.setIndirect 0)).svI.ptr V.disk k =
      if sfsNdirect ≤ k then none else v.svI.ptr V.disk k := by
    intro k
    cases k using place_cases with
    | direct i => rw [ptr_direct, ptr_direct, if_neg (Nat.not_le.mpr i.isLt)]; rfl
    | entry j => rw [ptr_entry, if_pos (Nat.le_add_right ..)]; rfl
    | indirect => rw [ptr_indirect, if_pos (by decide)]; rfl
    | outside k outside => rw [ptr_of_lt _ _ outside, ptr_of_lt _ _ outside, ite_self]
  have volEq : (V'.release idblock).setVnode sv (v.setInode (v.svI.setIndirect 0)) =
      V.withFile V.disk (V'.sfsFreemap.clear idblock) true sv
        (v.setInode (v.svI.setIndirect 0)) := by
    rw [freed.frame]
    rfl
  rw [volEq]
  rcases places_of_lost ptrEq with ⟨places, kept⟩
  refine ⟨⟨rfl, freed.nbits, rfl, rfl, Or.inr rfl, Or.inr rfl, places, fun block => ?_,
    fun _ _ => rfl⟩, fun k behind => (ptrEq k).trans (if_pos behind)⟩
  have usedEq : (V.withFile V.disk (V'.sfsFreemap.clear idblock) true sv
      (v.setInode (v.svI.setIndirect 0))).Used block ↔ V'.Used block ∧ block ≠ idblock := by
    simp [Vol.Used, Vol.withFile, and_comm]
  rw [usedEq, freed.used_iff indirect, and_assoc]
  refine and_congr_right fun _ => Iff.trans ⟨?_, fun gone => ⟨?_, ?_⟩⟩ (kept block).symm
  · -- the places behind the direct blocks are those of the entries and of the indirect block
    rintro ⟨notEntry, different⟩ k behind mapped
    cases k using place_cases with
    | direct i => exact absurd i.isLt (Nat.not_lt.mpr behind)
    | entry j =>
        rcases all j with past | zero
        · exact notEntry j past mapped
        · rw [entry_eq indirect, zero] at mapped
          cases mapped
    | indirect => exact different (Option.some.inj (mapped.symm.trans indirect))
    | outside k outside =>
        rw [ptr_of_lt _ _ outside] at mapped
        cases mapped
  · exact fun j _ => gone _ (Nat.le_add_right ..)
  · rintro rfl
    exact gone _ (by decide) indirect

theorem EntriesFreed.keep_indirect (present : V.vnodes sv = some v)
    (left : ∀ j, idbuf j = if c < sfsNdirect + j then 0 else (V.disk idblock).toWords j) :
    Shrank sv V v (V'.setBlock idblock (Block.ofWords idbuf)) v ∧
      ∀ j : Fin sfsDbperidb, v.svI.ptr (V'.setBlock idblock (Block.ofWords idbuf)).disk
        (sfsNdirect + j) =
          if c < sfsNdirect + j then none else v.svI.ptr V.disk (sfsNdirect + j) := by
  have ndirect := sfsMaxblocks_eq
  have volEq : V'.setBlock idblock (Block.ofWords idbuf) =
      V.withFile (update V.disk idblock (Block.ofWords idbuf)) V'.sfsFreemap
        V'.sfsFreemapdirty sv v := by
    rw [Vol.withFile, ← present, update_eq_self, freed.frame]
    rfl
  have entryEq : ∀ j : Fin sfsDbperidb,
      v.svI.ptr (update V.disk idblock (Block.ofWords idbuf)) (sfsNdirect + j) =
        if c < sfsNdirect + j then none else v.svI.ptr V.disk (sfsNdirect + j) := by
    intro j
    rw [ptr_entry, ← ptr_indirect v.svI V.disk, indirect, bind_some,
      update_self, Block.toWords_ofWords, left j, entry_eq indirect]
    split <;> rfl
  have ptrEq : ∀ k, v.svI.ptr (update V.disk idblock (Block.ofWords idbuf)) k =
      if sfsNdirect ≤ k ∧ k < sfsMaxblocks ∧ c < k then none else v.svI.ptr V.disk k := by
    intro k
    cases k using place_cases with
    | direct i => rw [ptr_direct, ptr_direct, if_neg (by omega)]
    | entry j =>
        rw [entryEq]
        congr 1
        simp only [eq_iff_iff]
        omega
    | indirect => rw [ptr_indirect, ptr_indirect, if_neg (by omega)]
    | outside k outside => rw [ptr_of_lt _ _ outside, ptr_of_lt _ _ outside, ite_self]
  rw [volEq]
  rcases places_of_lost ptrEq with ⟨places, kept⟩
  refine ⟨⟨rfl, freed.nbits, rfl, rfl, Or.inl rfl, ?_, places, fun block => ?_, ?_⟩, entryEq⟩
  · rcases freed.mapDirty with same | dirty
    · exact Or.inl ⟨by rw [same]; rfl, by rw [same]; rfl⟩
    · exact Or.inr dirty
  · refine (freed.used_iff indirect block).trans (and_congr_right fun _ => ?_)
    refine Iff.trans ⟨fun notEntry k lost => ?_, fun gone j past => ?_⟩ (kept block).symm
    · obtain ⟨j, rfl⟩ := Nat.exists_eq_add_of_le lost.1
      exact notEntry ⟨j, by omega⟩ lost.2.2
    · exact gone _ ⟨Nat.le_add_right .., by omega, past⟩
  · intro block notIndirect
    apply update_of_ne
    rintro rfl
    exact notIndirect indirect

end Freed

namespace CutIndirect

variable {ptr ptr' : Nat → Option Nat}

theorem of_high (high : sfsMaxblocks - 1 ≤ c) : CutIndirect c ptr ptr :=
  ⟨fun _ => by rw [if_pos (Or.inl high)], by rw [if_pos (Or.inl high)]⟩

theorem of_none (entries : ∀ j : Fin sfsDbperidb, ptr (sfsNdirect + j) = none)
    (indirect : ptr sfsMaxblocks = none) : CutIndirect c ptr ptr :=
  ⟨fun j => by rw [entries, ite_self], by rw [indirect, ite_self]⟩

theorem of_dropped (before : c < sfsMaxblocks - 1)
    (empty : ∀ j : Fin sfsDbperidb, c < sfsNdirect + j ∨ ptr (sfsNdirect + j) = none)
    (gone : ∀ k, sfsNdirect ≤ k → ptr' k = none) : CutIndirect c ptr ptr' := by
  constructor
  · intro j
    rw [gone _ (Nat.le_add_right ..)]
    split
    · rename_i kept
      rcases empty j with past | none
      · omega
      · exact none.symm
    · rfl
  · rw [gone _ (by decide), if_neg]
    rintro (high | ⟨j, some⟩)
    · omega
    · rw [gone _ (Nat.le_add_right ..)] at some
      cases some

theorem of_kept (before : c < sfsMaxblocks - 1)
    (entry : ∀ j : Fin sfsDbperidb,
      ptr' (sfsNdirect + j) = if c < sfsNdirect + j then none else ptr (sfsNdirect + j))
    (left : ∃ j : Fin sfsDbperidb, (ptr' (sfsNdirect + j)).isSome)
    (indirect : ptr' sfsMaxblocks = ptr sfsMaxblocks) : CutIndirect c ptr ptr' := by
  refine ⟨fun j => ?_, by rw [indirect, if_pos (Or.inr left)]⟩
  rw [entry]
  by_cases past : c < sfsNdirect + j
  · rw [if_pos past, if_neg (by omega)]
  · rw [if_neg past, if_pos (by omega)]

end CutIndirect

theorem sfsTruncateIndirect_spec (works : dev.Works content) (file : FileAt dev V sv v)
    (volEq : s.vol content = V) (c : Nat) :
    Ensures (sfsTruncateIndirect dev sv c) s (fun _ => False) (fun _ _ => False)
      (fun _ s' => ∃ v', Shrank sv V v (s'.vol content) v' ∧
        (∀ i : Fin sfsNdirect, v'.svI.ptr (s'.vol content).disk i = v.svI.ptr V.disk i) ∧
        CutIndirect c (v.svI.ptr V.disk) (v'.svI.ptr (s'.vol content).disk)) := by
  have numberEq := ptr_indirect v.svI V.disk
  have highEq : sfsNdirect + sfsDbperidb - 1 = sfsMaxblocks - 1 := rfl
  simp only [sfsTruncateIndirect, ensures_bind, file.deref volEq, ensures_ite, highEq]
  split
  · rename_i looked
    rcases looked with ⟨before, nonzero⟩
    rw [blockNumber_of_ne nonzero] at numberEq
    generalize v.svI.sfiIndirect.toNat = idblock at numberEq nonzero ⊢
    apply (rblock_spec works (file.ready.onDevice (file.inside numberEq)) volEq).total
    rintro _ s₁ ⟨rfl, volEq₁⟩
    have loop : Ensures (sfsTruncateIdbuf c (List.finRange sfsDbperidb)
        ((V.disk idblock).toWords, false, false)) s₁ _ _ _ :=
      sfsTruncateIdbuf_spec c (List.finRange sfsDbperidb) volEq₁ (List.nodup_finRange _)
        file.ready.nblocks_le_nbits (file.entry_inside numberEq) (file.entry_distinct numberEq)
    apply loop.total
    rintro ⟨idbuf, hasnonzero, iddirty⟩ s₂ ⟨done, freed⟩
    have idbufEq : ∀ j, idbuf j = if c < sfsNdirect + j then 0 else (V.disk idblock).toWords j := by
      intro j
      simpa using done.idbuf j
    dsimp only
    split
    · rename_i empty
      have all : ∀ j : Fin sfsDbperidb, c < sfsNdirect + j ∨ (V.disk idblock).toWords j = 0 := by
        intro j
        by_cases past : c < sfsNdirect + j
        · exact Or.inl past
        · right
          by_contra nonzero
          have some : hasnonzero = true :=
            done.hasnonzero.mpr (Or.inr ⟨j, List.mem_finRange j, by simp [idbufEq, past, nonzero]⟩)
          simp [some] at empty
      have bits := file.ready.nblocks_le_nbits
      have inside := file.inside numberEq
      have used : (s₂.vol content).Used idblock := by
        refine (freed.used_iff numberEq idblock).mpr ⟨file.used numberEq, fun j _ mapped => ?_⟩
        have samePlace := file.exclusive mapped numberEq
        omega
      have bitsEq := freed.nbits
      have presentEq : (s₂.vol content).vnodes = V.vnodes := by rw [freed.frame]; rfl
      apply (sfsBfree_spec rfl (by omega) used).total
      intro _ s₃ volEq₃
      have present₃ : ((s₂.vol content).release idblock).vnodes sv = some v := by
        rw [← file.present, ← presentEq]
        rfl
      apply (updateInode_spec volEq₃ present₃ _).total
      intro _ s₄ volEq₄
      have diskEq : (s₄.vol content).disk = V.disk := by
        rw [volEq₄, freed.frame]
        rfl
      rcases freed.drop_indirect numberEq all with ⟨shrank, gone⟩
      rw [← volEq₄] at shrank
      refine ⟨_, shrank, ?_, ?_⟩
      · intro i
        rw [ptr_direct, ptr_direct]
        rfl
      · rw [diskEq]
        apply CutIndirect.of_dropped before _ gone
        intro j
        rcases all j with past | zero
        · exact Or.inl past
        · right
          rw [entry_eq numberEq, zero]
          rfl
    · rename_i notEmpty
      have left : ∃ j, idbuf j ≠ 0 := by
        simpa using done.hasnonzero.mp (by simpa using notEmpty)
      have leftPtr : ∃ j : Fin sfsDbperidb, ¬c < sfsNdirect + j ∧
          (v.svI.ptr V.disk (sfsNdirect + j)).isSome := by
        rcases left with ⟨j, nonzero⟩
        rw [idbufEq] at nonzero
        split at nonzero
        · exact absurd rfl nonzero
        · rename_i here
          exact ⟨j, here, by rw [mapped_entry numberEq nonzero]; rfl⟩
      split
      · rename_i changed
        have onDevice := file.ready.onDevice (file.inside numberEq)
        apply (wblock_spec works onDevice rfl _).total
        intro _ s₃ volEq₃
        rcases freed.keep_indirect numberEq file.present idbufEq with ⟨shrank, entries⟩
        rw [← volEq₃] at shrank entries
        refine ⟨v, shrank, fun i => ?_, CutIndirect.of_kept before entries ?_ ?_⟩
        · rw [ptr_direct, ptr_direct]
        · rcases leftPtr with ⟨j, here, some⟩
          exact ⟨j, by rwa [entries, if_neg here]⟩
        · rw [ptr_indirect, ptr_indirect]
      · rename_i unchanged
        have nothing : ∀ j : Fin sfsDbperidb, c < sfsNdirect + j →
            (V.disk idblock).toWords j = 0 := by
          intro j past
          by_contra nonzero
          exact unchanged (done.iddirty.mpr (Or.inr ⟨j, List.mem_finRange j, past, nonzero⟩))
        rw [ensures_pure, freed.same fun j _ => nothing j]
        refine ⟨v, Shrank.refl file.present, fun _ => rfl, CutIndirect.of_kept before ?_ ?_ rfl⟩
        · intro j
          split
          · rename_i past
            rw [entry_eq numberEq, nothing j past]
            rfl
          · rfl
        · rcases leftPtr with ⟨j, _, some⟩
          exact ⟨j, some⟩
  · rename_i passed
    rw [ensures_pure, volEq]
    refine ⟨v, Shrank.refl file.present, fun _ => rfl, ?_⟩
    by_cases high : sfsMaxblocks - 1 ≤ c
    · exact CutIndirect.of_high high
    · have zero : v.svI.sfiIndirect.toNat = 0 := by
        by_contra nonzero
        exact passed ⟨by omega, nonzero⟩
      rw [zero] at numberEq
      apply CutIndirect.of_none _ numberEq
      intro j
      rw [ptr_entry, zero, blockNumber_zero, bind_none]

theorem SfsInode.ptr_setSize (inode : SfsInode) (disk : Nat → Block) (size : Nat) :
    (inode.setSize size).ptr disk = inode.ptr disk :=
  ptr_congr rfl rfl fun _ _ => rfl

theorem Shrank.resize (size : Nat) :
    Shrank sv V v (V.setVnode sv (v.setInode (v.svI.setSize size)))
      (v.setInode (v.svI.setSize size)) := by
  have ptrEq : ∀ k, (v.setInode (v.svI.setSize size)).svI.ptr V.disk k = v.svI.ptr V.disk k :=
    congrFun (ptr_setSize v.svI V.disk size)
  refine ⟨rfl, rfl, rfl, rfl, Or.inr rfl, Or.inl ⟨rfl, rfl⟩, fun k => Or.inl (ptrEq k), ?_,
    fun _ _ => rfl⟩
  intro block
  exact ⟨fun used => ⟨used, fun k mapped => (ptrEq k).trans mapped⟩, fun both => both.1⟩

theorem sfsTruncate_spec (works : dev.Works content) (file : FileAt dev V sv v)
    (volEq : s.vol content = V) (len : Int) :
    Ensures (sfsTruncate dev sv len) s (fun _ => False) (fun _ _ => False)
      (fun _ s' => ∃ v', Shrank sv V v (s'.vol content) v' ∧ v'.svDirty = true ∧
        v'.svI.sfiSize = UInt32.ofNat (uint32 len) ∧
        Truncated (uint32 ((int32 (len + blockSize - 1)).tdiv blockSize)) (v.svI.ptr V.disk)
          (v'.svI.ptr (s'.vol content).disk)) := by
  rw [sfsTruncate, ensures_bind]
  generalize uint32 ((int32 (len + blockSize - 1)).tdiv blockSize) = c
  apply (sfsTruncateDirect_spec c (List.finRange sfsNdirect) file volEq).total
  rintro _ s₁ ⟨v₁, shrank₁, diskEq, indirectEq, direct⟩
  have file₁ := shrank₁.file file
  rw [ensures_bind]
  apply (sfsTruncateIndirect_spec works file₁ rfl c).total
  rintro _ s₂ ⟨v₂, shrank₂, direct₂, rest⟩
  apply (updateInode_spec rfl shrank₂.present _).total
  intro _ s₃ volEq₃
  have resized : Shrank sv (s₂.vol content) v₂ (s₃.vol content)
      (v₂.setInode (v₂.svI.setSize (uint32 len))) := by
    rw [volEq₃]
    exact Shrank.resize (uint32 len)
  have ptrEq : (v₂.setInode (v₂.svI.setSize (uint32 len))).svI.ptr (s₃.vol content).disk =
      v₂.svI.ptr (s₂.vol content).disk := by
    rw [volEq₃]
    exact ptr_setSize ..
  refine ⟨_, (shrank₁.trans shrank₂).trans resized, rfl, rfl, ?_⟩
  have entryEq : ∀ j : Fin sfsDbperidb, v₁.svI.ptr (s₁.vol content).disk (sfsNdirect + j) =
      v.svI.ptr V.disk (sfsNdirect + j) := by
    intro j
    rw [ptr_entry, ptr_entry, indirectEq, diskEq]
  have numberEq : v₁.svI.ptr (s₁.vol content).disk sfsMaxblocks =
      v.svI.ptr V.disk sfsMaxblocks := by
    rw [ptr_indirect, ptr_indirect, indirectEq]
  rw [ptrEq]
  refine ⟨fun i => ?_, fun j => ?_, ?_⟩
  · rw [direct₂, diskEq, direct]
    by_cases before : i < c
    · rw [if_neg (by omega), if_pos before]
    · rw [if_pos ⟨List.mem_finRange i, by omega⟩, if_neg before]
  · rw [rest.entry, entryEq]
  · rw [rest.indirect, numberEq]

end Loops

end Os161
