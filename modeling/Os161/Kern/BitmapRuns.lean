import Mathlib.Data.Finset.Basic
import Mathlib.Data.Finset.Range
import Os161.Kern.Bitmap
import Os161.Lib.Machine

/-!
# The bitmap is a set

Any sequence of calls on a new bitmap does to `Bitmap.members` what the operations of
the same meaning do to a finite set. The invariant is that the bits of the last byte
behind the end of the map are set (`Bitmap.Padded`): without it `bitmap_alloc` would
find one of them and fail its assertion.
-/

namespace Os161

inductive BitmapOp where
  | alloc
  | mark (index : Nat)
  | unmark (index : Nat)
  | isset (index : Nat)

/-- What a call returns when it does not return an error. -/
inductive BitmapAnswer where
  | done
  | index (index : Nat)
  | flag (member : Bool)

/-- The bitmap as a subset of the numbers below `nbits`: what a call may answer, and the set
after it. -/
inductive SetStep (nbits : Nat) :
    Finset Nat → BitmapOp → Except Errno BitmapAnswer → Finset Nat → Prop
  | alloc (set : Finset Nat) (index : Nat) (inside : index < nbits) (free : index ∉ set)
      (least : ∀ earlier < index, earlier ∈ set) :
      SetStep nbits set .alloc (.ok (.index index)) (insert index set)
  | allocFails (set : Finset Nat) (full : set = Finset.range nbits) :
      SetStep nbits set .alloc (.error .enospc) set
  | mark (set : Finset Nat) (index : Nat) :
      SetStep nbits set (.mark index) (.ok .done) (insert index set)
  | unmark (set : Finset Nat) (index : Nat) :
      SetStep nbits set (.unmark index) (.ok .done) (set.erase index)
  | isset (set : Finset Nat) (index : Nat) (member : Bool) (iff : member = true ↔ index ∈ set) :
      SetStep nbits set (.isset index) (.ok (.flag member)) set

namespace Bitmap

variable {b : Bitmap} {nbits index : Nat}

/-- The indexes below `nbits` that are set. -/
def members (b : Bitmap) : Finset Nat :=
  (Finset.range b.nbits).filter fun index => b.isset index = true

/-- A call of a function in `bitmap.c`. -/
def call : BitmapOp → BitmapM BitmapAnswer
  | .alloc => do
      let index ← bitmapAlloc
      pure (.index index)
  | .mark index => do
      bitmapMark index
      pure .done
  | .unmark index => do
      bitmapUnmark index
      pure .done
  | .isset index => do
      let b ← get
      pure (.flag (b.isset index))

/-- The calls with indexes in the map: a bit is marked when it is clear and unmarked when it is
set. -/
def Allowed : BitmapOp → Bitmap → Prop
  | .alloc, _ => True
  | .mark index, b => index < b.nbits ∧ index ∉ b.members
  | .unmark index, b => index < b.nbits ∧ index ∈ b.members
  | .isset index, b => index < b.nbits

instance (operation : BitmapOp) (b : Bitmap) : Decidable (Allowed operation b) :=
  match operation with
  | .alloc => inferInstanceAs (Decidable True)
  | .mark _ => inferInstanceAs (Decidable (_ ∧ _))
  | .unmark _ => inferInstanceAs (Decidable (_ ∧ _))
  | .isset _ => inferInstanceAs (Decidable (_ < _))

def machine : Machine Panic Bitmap Errno BitmapOp Unit where
  exec operation := do
    let _answer ← call operation
    pure ()
  Enabled := Allowed
  arm b _ := b

instance (operation : BitmapOp) (b : Bitmap) : Decidable (machine.Enabled operation b) :=
  inferInstanceAs (Decidable (Allowed operation b))

/-- What `bitmap_create(nbits)` has returned. -/
def Created (nbits : Nat) (b : Bitmap) : Prop :=
  ∃ heap heap', bitmapCreate nbits heap = .ok (.ok (some b), heap')

/-! ## A new bitmap -/

theorem nbits_foldl_set (base : Nat) (offsets : List Nat) (b : Bitmap) :
    (offsets.foldl (fun b j => b.set (base + j)) b).nbits = b.nbits := by
  induction offsets generalizing b with
  | nil => rfl
  | cons offset offsets ih => simp [ih]

theorem isset_foldl_set (base : Nat) (offsets : List Nat) (b : Bitmap) :
    (offsets.foldl (fun b j => b.set (base + j)) b).isset index = true ↔
      b.isset index = true ∨ ∃ offset ∈ offsets, index = base + offset := by
  induction offsets generalizing b with
  | nil => simp
  | cons offset offsets ih =>
      simp only [List.foldl_cons, ih, isset_set, Bool.or_eq_true, decide_eq_true_eq,
        mem_cons, exists_eq_or_imp]
      tauto

theorem isset_zero (nbits index : Nat) : isset { nbits, v := fun _ => 0 } index = false := by
  simp [isset_eq]

/-- A new bitmap has no bit set but those behind its end. -/
structure Fresh (nbits : Nat) (b : Bitmap) : Prop where
  nbits_eq : b.nbits = nbits
  padded : b.Padded
  clear : ∀ index < nbits, b.isset index = false

theorem bitmapCreate_spec (small : nbits < 2 ^ 32 - 7) (heap : KHeap) :
    Ensures (bitmapCreate nbits) heap (fun _ => False) (fun _ _ => False)
      (fun created _ => (heap.Grants 2 → created.isSome) ∧
        ∀ b, created = some b → b.Fresh nbits) := by
  have wordsEq := words_eq small
  simp only [bitmapCreate, ensures_bind, ensures_kmalloc]
  refine ensures_branch (fun refused => ?_) fun _ => ?_
  · simp only [ensures_pure]
    exact ⟨fun grants => by simp [grants 0] at refused, by simp⟩
  simp only [ensures_bind, ensures_kmalloc]
  refine ensures_branch (fun refused => ?_) fun _ => ?_
  · simp only [ensures_pure]
    exact ⟨fun grants => by simp [KHeap.after, grants 1] at refused, by simp⟩
  apply ensures_branch
  · -- the last byte is only partly in the map
    intro partly
    have overbitsEq : uint32 ((nbits : Int) - ((words nbits - 1 : Nat) : Int) * 8) = nbits % 8 := by
      rw [uint32_eq (by omega) (by omega)]
      omega
    simp only [overbitsEq]
    refine ensures_assert_then (fun violated => violated (by omega)) fun lastByte => ?_
    refine ensures_assert_then (fun violated => violated (by omega)) fun some => ?_
    simp only [ensures_pure, Option.some.injEq, Option.isSome_some]
    refine ⟨fun _ => trivial, ?_⟩
    rintro _ rfl
    refine ⟨nbits_foldl_set _ _ _, ?_, ?_⟩
    · intro index behind inLast
      rw [nbits_foldl_set] at behind inLast
      simp only at behind inLast
      rw [isset_foldl_set]
      refine Or.inr ⟨index - (words nbits - 1) * 8, ?_, by omega⟩
      rw [List.mem_range'_1]
      omega
    · intro index inside
      rw [← Bool.not_eq_true, isset_foldl_set, isset_zero]
      simp only [Bool.false_eq_true, false_or, List.mem_range'_1]
      rintro ⟨offset, bounds, rfl⟩
      omega
  · intro whole
    simp only [ensures_pure, Option.some.injEq, Option.isSome_some]
    refine ⟨fun _ => trivial, ?_⟩
    rintro _ rfl
    refine ⟨rfl, ?_, fun index _ => isset_zero nbits index⟩
    intro index behind inLast
    simp only at behind inLast
    omega

theorem Created.fresh (small : nbits < 2 ^ 32 - 7) (created : Created nbits b) : b.Fresh nbits := by
  rcases created with ⟨heap, heap', outcome⟩
  exact ((ensures_of_ok_eq outcome).mp (bitmapCreate_spec small heap)).2 b rfl

theorem Fresh.members_eq (fresh : b.Fresh nbits) : b.members = ∅ := by
  simp only [members, Finset.filter_eq_empty_iff, Finset.mem_range, fresh.nbits_eq]
  intro index inside
  simp [fresh.clear index inside]

/-! ## The calls -/

theorem mem_members : index ∈ b.members ↔ index < b.nbits ∧ b.isset index = true := by
  simp [members]

theorem members_set (inside : index < b.nbits) :
    (b.set index).members = insert index b.members := by
  ext other
  simp only [mem_members, nbits_set, isset_set, Finset.mem_insert, Bool.or_eq_true,
    decide_eq_true_eq]
  constructor
  · tauto
  · rintro (rfl | member)
    · exact ⟨inside, Or.inl rfl⟩
    · exact ⟨member.1, Or.inr member.2⟩

theorem members_clear (b : Bitmap) (index : Nat) :
    (b.clear index).members = b.members.erase index := by
  ext other
  simp only [mem_members, nbits_clear, isset_clear, Finset.mem_erase, Bool.and_eq_true,
    decide_eq_true_eq]
  tauto

theorem Padded.set (padded : b.Padded) (index : Nat) : (b.set index).Padded := by
  intro other behind inLast
  simp [padded other behind inLast]

theorem Padded.clear (padded : b.Padded) (inside : index < b.nbits) : (b.clear index).Padded := by
  intro other behind inLast
  have different : other ≠ index := by
    have : b.nbits ≤ other := behind
    omega
  simp [padded other behind inLast, different]

theorem bitmapMark_spec (inside : index < b.nbits) (unmarked : b.isset index = false) :
    Ensures (bitmapMark index) b (fun _ => False) (fun _ _ => False)
      (fun _ b' => b' = b.set index) := by
  simp [bitmapMark, ensures_assert_of inside, ensures_assert_of unmarked]

/-- What a call does to a padded bitmap of `nbits` bits. -/
structure Performs (nbits : Nat) (b : Bitmap) (operation : BitmapOp)
    (answer : Except Errno BitmapAnswer) (after : Bitmap) : Prop where
  set : SetStep nbits b.members operation answer after.members
  nbits_eq : after.nbits = nbits
  padded : after.Padded

/-- Every call that is allowed returns, and its answer is one the set gives. -/
theorem call_spec (small : b.nbits < 2 ^ 32 - 7) (padded : b.Padded) {operation : BitmapOp}
    (allowed : Allowed operation b) :
    Ensures (call operation) b (fun _ => False)
      (fun error after => Performs b.nbits b operation (.error error) after)
      (fun answer after => Performs b.nbits b operation (.ok answer) after) := by
  cases operation with
  | alloc =>
      simp only [call, ensures_bind, ensures_pure]
      apply (bitmapAlloc_spec small padded).answers
      · rintro _ _ ⟨rfl, rfl, full⟩
        refine ⟨.allocFails _ ?_, rfl, padded⟩
        ext index
        simp only [mem_members, Finset.mem_range, and_iff_left_iff_imp]
        exact full index
      · rintro index _ ⟨inside, isClear, before, rfl⟩
        refine ⟨?_, rfl, padded.set index⟩
        rw [members_set inside]
        refine .alloc _ _ inside (by simp [mem_members, isClear]) ?_
        intro earlier isEarlier
        exact mem_members.mpr ⟨by omega, before earlier isEarlier⟩
  | mark index =>
      have unmarked : b.isset index = false := by
        simpa [mem_members, allowed.1] using allowed.2
      simp only [call, ensures_bind, ensures_pure]
      apply (bitmapMark_spec allowed.1 unmarked).total
      rintro _ _ rfl
      refine ⟨?_, rfl, padded.set index⟩
      rw [members_set allowed.1]
      exact .mark _ _
  | unmark index =>
      simp only [call, ensures_bind, ensures_pure]
      apply (bitmapUnmark_spec allowed.1 (mem_members.mp allowed.2).2).total
      rintro _ _ rfl
      refine ⟨?_, rfl, padded.clear allowed.1⟩
      rw [members_clear]
      exact .unmark _ _
  | isset index =>
      simp only [call, ensures_bind, ensures_get, ensures_pure]
      have inside : index < b.nbits := allowed
      exact ⟨.isset _ _ _ (by simp [mem_members, inside]), rfl, padded⟩

theorem padded_of_reachable (small : nbits < 2 ^ 32 - 7)
    (reachable : machine.Reachable (Created nbits) b) : b.nbits = nbits ∧ b.Padded := by
  apply Machine.Reachable.invariant (P := fun b : Bitmap => b.nbits = nbits ∧ b.Padded) _ _
    reachable
  · intro b created
    exact ⟨(created.fresh small).nbits_eq, (created.fresh small).padded⟩
  · rintro b operation _ _ allowed ⟨rfl, padded⟩
    simp only [machine, ensures_bind, ensures_pure]
    exact (call_spec small padded allowed).mono (fun _ _ => trivial)
      (fun _ _ step => ⟨step.nbits_eq, step.padded⟩)
      (fun _ _ step => ⟨step.nbits_eq, step.padded⟩)

/-- **The bitmap is a set of indexes.** `bitmap_create` returns, and what it returns is empty;
after any run of calls the next one returns and does what it does to a set. -/
theorem bitmap_refines_set (small : nbits < 2 ^ 32 - 7) :
    (∀ heap, Prog.Ensures (bitmapCreate nbits) heap (fun _ => False) (fun _ _ => False)
      (fun created _ => ∀ b, created = some b → b.members = ∅)) ∧
    ∀ b, machine.Reachable (Created nbits) b →
      b.nbits = nbits ∧ b.Padded ∧
      ∀ operation, Allowed operation b →
        Prog.Ensures (call operation) b (fun _ => False)
          (fun error after => Performs nbits b operation (.error error) after)
          (fun answer after => Performs nbits b operation (.ok answer) after) := by
  constructor
  · intro heap
    exact (bitmapCreate_spec small heap).total fun _ _ created b isSome =>
      (created.2 b isSome).members_eq
  · intro b reachable
    obtain ⟨rfl, padded⟩ := padded_of_reachable small reachable
    exact ⟨rfl, padded, fun _ allowed => call_spec small padded allowed⟩

theorem bitmap_refines_set_eleven :
    ∃ b, machine.Reachable (Created 11) b ∧ b.members = {0, 1, 10} ∧
      Prog.Ensures (call .alloc) b (fun _ => False)
        (fun error after => Performs 11 b .alloc (.error error) after)
        (fun answer after => Performs 11 b .alloc (.ok answer) after) := by
  let new : Bitmap := (List.range' 3 5).foldl (fun b j => b.set (1 * 8 + j))
    { nbits := 11, v := fun _ => 0 }
  let calls : List (BitmapOp × Unit) :=
    [(.alloc, ()), (.mark 3, ()), (.mark 10, ()), (.alloc, ()), (.unmark 3, ())]
  have created : Created 11 new := ⟨enoughMemory, (enoughMemory.after 1).after 1, rfl⟩
  have computed : ((machine.execute new calls).any fun b =>
      decide (b.members = {0, 1, 10})) = true := by
    decide +kernel
  obtain ⟨b, executed, holds⟩ := (any_eq_true _ _).mp computed
  have reachable := (Machine.Reachable.start created).execute executed
  exact ⟨b, reachable, of_decide_eq_true holds,
    ((bitmap_refines_set (by decide)).2 b reachable).2.2 .alloc trivial⟩

end Bitmap

end Os161
