import Os161.Kern.Uio

/-!
# How much `uiomove` moves

The loop of `uiomove` takes the size of a piece from `iov_len` and from the bytes that are
left of the request. It looks at `uio_resid` only to see whether it is zero. When
`uio_resid` is smaller than both, more is moved than it allows, and the subtraction goes
below zero: either `uio_resid` becomes a huge number, or the loop comes back to an empty
buffer and panics.

In all other cases, which are in `Uio.Bounded`, a request of `n` bytes moves exactly the
smaller of `n` and `uio_resid`, in one call or in any number of calls.
-/

namespace Os161

namespace Uio

variable {uio : Uio} {ptr : Bytes} {n : Nat}

/-- A `uio` for a part of its buffer, all of which can be used. -/
structure Sane (uio : Uio) : Prop where
  resid_le : uio.uioResid ≤ uio.iovLen
  len_lt : uio.iovLen < 2 ^ 32
  space : uio.uioSpace = if uio.uioSegflg = .sysspace then none else uio.mem.space
  le_offset : -2 ^ 31 ≤ uio.uioOffset
  offset_lt : uio.uioOffset < 2 ^ 31
  accessible : uio.Accessible uio.iovLen

/-- The request ends within `uio_resid`, or `uio_resid` goes to zero when the buffer ends, or there
is nothing to move. -/
def Bounded (uio : Uio) (n : Nat) : Prop :=
  n ≤ uio.uioResid ∨ uio.uioResid = uio.iovLen ∨ uio.uioResid = 0

instance (uio : Uio) (n : Nat) : Decidable (uio.Bounded n) :=
  inferInstanceAs (Decidable (_ ∨ _ ∨ _))

/-- What has happened to the buffer from `done` on and to the `uio` when `k` bytes have been
moved. -/
def MovedFrom (uio : Uio) (done k : Nat) (ptr ptr' : Bytes) (uio' : Uio) : Prop :=
  (uio.uioRw = .write ∧ ptr' = ptr.overlay done k uio.data ∧ uio' = uio) ∨
    (uio.uioRw = .read ∧ ptr' = ptr ∧ uio' = uio.fill k fun i => ptr (done + i))

/-- One call of `uiomove` after the other, each for the next part of the buffer. -/
def uiomoveAll : List Nat → (ptr : Bytes) → (done : Nat) → UioM Bytes
  | [], ptr, _ => pure ptr
  | n :: ns, ptr, done => do
      let piece ← uiomove (fun i => ptr (done + i)) n
      uiomoveAll ns (ptr.overlay done n piece) (done + n)

/-- The calls return, and together they have moved the first `min n uio_resid` bytes. -/
def MovesExactly (uio : Uio) (ns : List Nat) (ptr : Bytes) : Prop :=
  ∃ ptr' between,
    uiomoveAll ns ptr 0 uio = .ok (.ok ptr', between.advance (min ns.sum uio.uioResid)) ∧
      uio.MovedFrom 0 (min ns.sum uio.uioResid) ptr ptr' between

/-! ## One call -/

theorem Sane.fits (sane : uio.Sane) (within : n ≤ uio.uioResid) : uio.Fits n := by
  have resid_le := sane.resid_le
  have len_lt := sane.len_lt
  exact ⟨by omega, within, by omega, sane.space, sane.le_offset, sane.offset_lt⟩

theorem Sane.uiomove_eq (sane : uio.Sane) (ptr : Bytes) (n : Nat) :
    uiomove ptr n uio = uiomoveLoop n ptr 0 n uio := by
  have space := sane.space
  rw [uiomove, bind_of_ok (get_apply uio)]
  cases segflg : uio.uioSegflg <;> simp only [segflg] at space ⊢ <;>
    exact bind_of_ok (assert_of (by simpa using space) uio)

theorem Sane.uiomoveLoop_first (sane : uio.Sane) (ptr : Bytes) (positive : 0 < n)
    (left : 0 < uio.uioResid) :
    ∃ ptr' between, uio.Moved (min uio.iovLen n) ptr ptr' between ∧
      uiomoveLoop n ptr 0 n uio = uiomoveLoop (n - 1) ptr' (min uio.iovLen n)
        (n - min uio.iovLen n) (between.step (min uio.iovLen n)) := by
  have resid_le := sane.resid_le
  have len_lt := sane.len_lt
  rcases Nat.exists_eq_succ_of_ne_zero (by omega : n ≠ 0) with ⟨fuel, rfl⟩
  have accessible := sane.accessible.mono (Nat.min_le_left uio.iovLen (fuel + 1))
  rcases (moveSegment_spec ptr (show 0 < min uio.iovLen (fuel + 1) by omega)
    (show min uio.iovLen (fuel + 1) < 2 ^ 32 by omega)).outcomes with
    ⟨_, _, impossible⟩ | ⟨_, _, _, _, inaccessible, _⟩ | ⟨ptr', between, moved, _, done⟩
  · exact impossible.elim
  · exact absurd accessible inaccessible
  · refine ⟨ptr', between, done, ?_⟩
    rw [uiomoveLoop, bind_of_ok (get_apply uio), if_pos ⟨positive, left⟩,
      bind_of_ok (assert_of (by omega) uio), bind_of_ok moved, Nat.zero_add]
    rfl

theorem uiomoveLoop_stop (fuel done : Nat) (ptr : Bytes) (ended : n = 0 ∨ uio.uioResid = 0) :
    uiomoveLoop fuel ptr done n uio = .ok (.ok ptr, uio) := by
  cases fuel with
  | zero => rfl
  | succ fuel =>
      rw [uiomoveLoop, bind_of_ok (get_apply uio), if_neg (by omega)]
      rfl

/-- A call that stays within `uio_resid`, or for which the buffer ends together with it. -/
theorem Sane.uiomove_bounded (sane : uio.Sane) (bounded : uio.Bounded n) (ptr : Bytes) :
    ∃ ptr' between, uiomove ptr n uio = .ok (.ok ptr', between.advance (min n uio.uioResid)) ∧
      uio.Moved (min n uio.uioResid) ptr ptr' between := by
  have resid_le := sane.resid_le
  rw [sane.uiomove_eq]
  by_cases moves : 0 < n ∧ 0 < uio.uioResid
  · rcases sane.uiomoveLoop_first ptr moves.1 moves.2 with ⟨ptr', between, moved, turn⟩
    have sizeEq : min uio.iovLen n = min n uio.uioResid := by
      rcases bounded with within | ends | nothing <;> omega
    rw [sizeEq] at moved turn
    refine ⟨ptr', between, ?_, moved⟩
    rcases moved.exists_mem with ⟨mem, rfl⟩
    rw [turn, (sane.fits (Nat.min_le_right n uio.uioResid)).step_eq mem, uiomoveLoop_stop]
    rcases bounded with within | ends | nothing
    · left
      omega
    · by_cases short : n ≤ uio.uioResid
      · left
        omega
      · right
        simp only [advance, setMem]
        omega
    · omega
  · have sizeEq : min n uio.uioResid = 0 := by omega
    refine ⟨ptr, uio, ?_, ?_⟩
    · rw [uiomoveLoop_stop n 0 ptr (by omega), sizeEq,
        (sane.fits (Nat.zero_le uio.uioResid)).advance_zero]
    · rw [sizeEq]
      exact moved_zero uio ptr

variable {ptr' : Bytes} {between : Uio}

/-- Otherwise the call does not leave `uio_resid` at zero, if it returns at all. -/
theorem Sane.uiomove_unbounded (sane : uio.Sane) (words : n < 2 ^ 32) (unbounded : ¬uio.Bounded n)
    {uio' : Uio} (returns : uiomove ptr n uio = .ok (.ok ptr', uio')) : uio'.uioResid ≠ 0 := by
  simp only [Bounded, not_or] at unbounded
  rw [sane.uiomove_eq] at returns
  rcases sane.uiomoveLoop_first ptr (show 0 < n by omega) (by omega) with
    ⟨first, between, moved, turn⟩
  rcases moved.exists_mem with ⟨mem, rfl⟩
  have wrapped : ((uio.setMem mem).step (min uio.iovLen n)).uioResid ≠ 0 := by
    simp only [step, setMem, uint32]
    omega
  rw [turn] at returns
  by_cases short : n ≤ uio.iovLen
  · rw [uiomoveLoop_stop _ _ _ (Or.inl (by omega))] at returns
    cases returns
    exact wrapped
  · -- the buffer is empty, but more is asked for
    have empty : ((uio.setMem mem).step (min uio.iovLen n)).iovLen = 0 := by
      simp only [step, setMem]
      omega
    rcases Nat.exists_eq_succ_of_ne_zero (by omega : n - 1 ≠ 0) with ⟨fuel, fuelEq⟩
    rw [fuelEq, uiomoveLoop, bind_of_ok (get_apply _), if_pos ⟨by omega, by omega⟩,
      bind_of_halt (Prog.assert_of_not (by rw [empty]; omega) _)] at returns
    cases returns

/-! ## One call after another -/

theorem Sane.after (sane : uio.Sane) {k : Nat} (within : k ≤ uio.uioResid)
    (moved : uio.Moved k ptr ptr' between) : (between.advance k).Sane := by
  have resid_le := sane.resid_le
  have len_lt := sane.len_lt
  have accessible : between.Accessible (k + (between.iovLen - k)) := by
    rcases moved with ⟨_, _, rfl⟩ | ⟨_, _, rfl⟩
    · rw [Nat.add_sub_cancel' (by omega)]
      exact sane.accessible
    · have lenEq : (uio.fill k ptr).iovLen = uio.iovLen := rfl
      rw [lenEq, Nat.add_sub_cancel' (by omega)]
      exact sane.accessible.fill k ptr
  have space := ((sane.fits le_rfl).fill k ptr).space
  rcases moved with ⟨_, _, rfl⟩ | ⟨_, _, rfl⟩
  · exact ⟨Nat.sub_le_sub_right resid_le k, lt_of_le_of_lt (Nat.sub_le _ k) len_lt, sane.space,
      le_int32 _, int32_lt _, accessible.advance⟩
  · exact ⟨Nat.sub_le_sub_right resid_le k, lt_of_le_of_lt (Nat.sub_le _ k) len_lt, space,
      le_int32 _, int32_lt _, accessible.advance⟩

/-- The condition for all of the calls is that for the rest of them after the first. -/
theorem Bounded.after {m : Nat} (bounded : uio.Bounded (n + m))
    (moved : uio.Moved (min n uio.uioResid) ptr ptr' between) :
    (between.advance (min n uio.uioResid)).Bounded m := by
  rcases moved.exists_mem with ⟨mem, rfl⟩
  simp only [Bounded, advance, setMem] at *
  omega

/-- A call that moved `k` of `n` bytes, and later calls that moved `j`. -/
theorem Moved.append {done k j : Nat} {piece : Bytes} {between' : Uio} (k_le : k ≤ n)
    (continues : j = 0 ∨ k = n) (first : uio.Moved k (fun i => ptr (done + i)) piece between)
    (rest : (between.advance k).MovedFrom (done + n) j (ptr.overlay done n piece) ptr' between') :
    ∃ whole, whole.advance (k + j) = between'.advance j ∧
      uio.MovedFrom done (k + j) ptr ptr' whole := by
  rcases first with ⟨writes, rfl, rfl⟩ | ⟨reads, rfl, rfl⟩
  · rcases rest with ⟨_, rfl, rfl⟩ | ⟨reads, _⟩
    · refine ⟨between, (advance_advance between k j).symm, Or.inl ⟨writes, ?_, rfl⟩⟩
      rw [data_advance]
      funext a
      simp only [Bytes.overlay]
      split_ifs <;> first | rfl | omega | (congr 1; omega)
    · have contrary : between.uioRw = .read := reads
      rw [writes] at contrary
      cases contrary
  · have same : ptr.overlay done n (fun i => ptr (done + i)) = ptr := by
      funext a
      simp only [Bytes.overlay]
      split_ifs <;> first | rfl | (congr 1; omega)
    rw [same] at rest
    rcases rest with ⟨writes, _⟩ | ⟨_, rfl, rfl⟩
    · have contrary : uio.uioRw = .write := writes
      rw [reads] at contrary
      cases contrary
    · refine ⟨uio.fill (k + j) fun i => ptr' (done + i), ?_, Or.inr ⟨reads, rfl, rfl⟩⟩
      rw [fill_advance_fill, advance_advance]
      congr 1
      apply fill_congr
      intro i i_lt
      simp only [Bytes.append]
      split_ifs
      · rfl
      · congr 1
        omega

theorem Sane.uiomoveAll_bounded (ns : List Nat) :
    ∀ {uio : Uio} (ptr : Bytes) (done : Nat), uio.Sane → uio.Bounded ns.sum →
      ∃ ptr' between,
        uiomoveAll ns ptr done uio = .ok (.ok ptr', between.advance (min ns.sum uio.uioResid)) ∧
        uio.MovedFrom done (min ns.sum uio.uioResid) ptr ptr' between := by
  induction ns with
  | nil =>
      intro uio ptr done sane _
      refine ⟨ptr, uio, ?_, ?_⟩
      · rw [List.sum_nil, Nat.zero_min, (sane.fits (Nat.zero_le uio.uioResid)).advance_zero]
        rfl
      · rw [List.sum_nil, Nat.zero_min]
        cases rw : uio.uioRw with
        | read => exact Or.inr ⟨rw, rfl, (fill_zero uio _).symm⟩
        | write => exact Or.inl ⟨rw, (Bytes.overlay_zero ptr done _).symm, rfl⟩
  | cons n ns ih =>
      intro uio ptr done sane bounded
      rw [List.sum_cons] at bounded ⊢
      have bounded₁ : uio.Bounded n := by
        simp only [Bounded] at bounded ⊢
        omega
      rcases sane.uiomove_bounded bounded₁ fun i => ptr (done + i) with
        ⟨piece, between, outcome, moved⟩
      have residEq : (between.advance (min n uio.uioResid)).uioResid =
          uio.uioResid - min n uio.uioResid := by
        rcases moved.exists_mem with ⟨mem, rfl⟩
        rfl
      rcases ih (ptr.overlay done n piece) (done + n)
        (sane.after (Nat.min_le_right n uio.uioResid) moved) (bounded.after moved) with
        ⟨ptr', between', outcome', moved'⟩
      rw [residEq] at outcome' moved'
      rcases Moved.append (Nat.min_le_left n uio.uioResid) (by omega) moved moved' with
        ⟨whole, wholeEq, movedAll⟩
      have totalEq : min n uio.uioResid + min ns.sum (uio.uioResid - min n uio.uioResid) =
          min (n + ns.sum) uio.uioResid := by omega
      rw [totalEq] at wholeEq movedAll
      refine ⟨ptr', whole, ?_, movedAll⟩
      rw [uiomoveAll, bind_of_ok outcome, outcome', wholeEq]

theorem Sane.bounded_of_movesExactly (sane : uio.Sane) (words : n < 2 ^ 32)
    (exactly : uio.MovesExactly [n] ptr) : uio.Bounded n := by
  rcases exactly with ⟨ptr', between, outcome, moved⟩
  by_contra unbounded
  rcases bind_eq_ok_iff.mp outcome with ⟨piece, uio', returns, rest⟩
  have nonzero := sane.uiomove_unbounded words unbounded returns
  have finalEq : uio' = between.advance (min [n].sum uio.uioResid) := by
    cases rest
    rfl
  have residEq : between.uioResid = uio.uioResid := by
    rcases moved with ⟨_, _, rfl⟩ | ⟨_, _, rfl⟩ <;> rfl
  apply nonzero
  simp only [Bounded, not_or] at unbounded
  simp only [finalEq, advance, residEq, List.sum_cons, List.sum_nil]
  omega

/-- A single call moves exactly what the `uio` allows if and only if its request is bounded, and
then the same bytes are moved when the request is split in any way. -/
theorem uiomove_exact_iff (sane : uio.Sane) (words : n < 2 ^ 32) :
    (∀ ptr, uio.MovesExactly [n] ptr ↔ uio.Bounded n) ∧
      (uio.Bounded n → ∀ ns, ns.sum = n → ∀ ptr, uio.MovesExactly ns ptr) := by
  have all : uio.Bounded n → ∀ ns, ns.sum = n → ∀ ptr, uio.MovesExactly ns ptr := by
    rintro bounded ns rfl ptr
    exact Sane.uiomoveAll_bounded ns ptr 0 sane bounded
  exact ⟨fun ptr => ⟨sane.bounded_of_movesExactly words, fun bounded =>
    all bounded [n] (by simp) ptr⟩, all⟩

/-- A buffer of eight bytes of which four may be used. -/
def clipped : Uio :=
  { mkKuio (fun _ => 0) 8 0 .read with uioResid := 4 }

theorem clipped_sane : clipped.Sane :=
  ⟨by decide, by decide, rfl, by decide, by decide, Or.inl rfl⟩

/-- A request of four bytes in two parts. -/
theorem uiomove_exact_two_calls : clipped.MovesExactly [3, 1] fun _ => 7 :=
  (uiomove_exact_iff clipped_sane (by decide)).2 (by decide) [3, 1] rfl _

/-- A request of eight bytes moves them all, and `uio_resid` goes below zero. -/
theorem uiomove_moves_too_much : ∃ ptr' uio', uiomove (fun _ => 7) 8 clipped =
    .ok (.ok ptr', uio') ∧ uio'.iovBase = 8 ∧ uio'.uioResid = 2 ^ 32 - 4 ∧
    clipped.Sane ∧ ¬clipped.MovesExactly [8] fun _ => 7 := by
  have computed : ((uiomove (fun _ => 7) 8).returned clipped).any (fun result =>
      result.2.iovBase == 8 && result.2.uioResid == 2 ^ 32 - 4) = true := by decide
  rcases (any_eq_true _ _).mp computed with ⟨⟨ptr', uio'⟩, returns, facts⟩
  simp only [Bool.and_eq_true, beq_iff_eq] at facts
  refine ⟨ptr', uio', Prog.returned_eq_some.mp returns, facts.1, facts.2, clipped_sane, ?_⟩
  intro exactly
  exact absurd (clipped_sane.bounded_of_movesExactly (by decide) exactly) (by decide)

end Uio

end Os161
