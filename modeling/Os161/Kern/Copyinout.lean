import Os161.Kern.Uio

/-!
# Copying across the user/kernel boundary

`copyin`, `copyout`, `copyinstr` and `copyoutstr` of `kern/lib/copyinout.c`, with the
`memcpy` under them, on the virtual memory that the kernel has while a process runs.
User addresses lie below `USERTOP`; the kernel could use any address. An address that
is not mapped faults, and while `pcb_badfaultfunc` is set, the fault leads to `copyfail`
and from there back to the copying function by `longjmp`.

Each access is recorded with the side its pointer is supposed to be on, so that one can
say which addresses the code has used for the user's side, also when it failed.
-/

namespace Os161

namespace Copyinout

inductive Side where
  | user
  | kernel
  deriving DecidableEq, Repr

structure Access where
  side : Side
  addr : Nat
  deriving DecidableEq, Repr

/-- Virtual memory, `pcb_badfaultfunc != NULL`, and the accesses so far. -/
structure CopyState where
  mem : Nat → Option UInt8
  pcbBadfaultfunc : Bool
  touched : List Access

/-- The `longjmp` in `copyfail`. -/
inductive Jump where
  | copyfail
  deriving DecidableEq

abbrev CopyM := Prog Panic CopyState Jump

structure Pointer where
  side : Side
  addr : Nat

/-- The address of the byte `i` of an array, in 32 bits. -/
def Pointer.index (p : Pointer) (i : Nat) : Nat :=
  uint32 (p.addr + i)

def CopyState.touch (s : CopyState) (p : Pointer) (offset width : Nat) : CopyState :=
  { s with
    touched := ((List.range width).map fun j => ⟨p.side, p.index (offset + j)⟩) ++ s.touched }

/-- An access to `width` bytes at once. -/
def access (p : Pointer) (offset width : Nat) : CopyM Unit := do
  modify fun s => s.touch p offset width
  let s ← get
  if ∀ j < width, (s.mem (p.index (offset + j))).isSome then
    pure ()
  else if s.pcbBadfaultfunc then
    fail .copyfail
  else
    halt .kernelFault

def load (p : Pointer) (offset width : Nat) : CopyM Bytes := do
  access p offset width
  let s ← get
  pure fun j => (s.mem (p.index (offset + j))).getD 0

/-- Memory after `width` bytes have been written. -/
def CopyState.put (s : CopyState) (p : Pointer) (offset width : Nat) (bytes : Bytes) :
    CopyState :=
  { s with
    mem := fun a =>
      match (List.range width).find? fun j => p.index (offset + j) = a with
      | some j => some (bytes j)
      | none => s.mem a }

def store (p : Pointer) (offset width : Nat) (bytes : Bytes) : CopyM Unit := do
  access p offset width
  modify fun s => s.put p offset width bytes

/-- `d[i] = s[i]`, for elements of `width` bytes of which this is the one at `offset`. -/
def assign (dest src : Pointer) (offset width : Nat) : CopyM Unit := do
  let bytes ← load src offset width
  store dest offset width bytes

/-- The loops of `memcpy`, with `count` elements left. -/
def memcpyLoop (dest src : Pointer) (width : Nat) : (count i : Nat) → CopyM Unit
  | 0, _ => pure ()
  | count + 1, i => do
      assign dest src (i * width) width
      memcpyLoop dest src width count (i + 1)

/-- `sizeof(long)`. -/
def sizeofLong : Nat := 4

/-- `memcpy`. -/
def memcpy (dest src : Pointer) (len : Nat) : CopyM Unit :=
  if dest.addr % sizeofLong = 0 ∧ src.addr % sizeofLong = 0 ∧ len % sizeofLong = 0 then
    memcpyLoop dest src sizeofLong (len / sizeofLong) 0
  else
    memcpyLoop dest src 1 len 0

/-- The loop of `copystr` and what follows it, with `left` turns until `maxlen`. What it returns
is the result, with `*gotlen` when that is 0. -/
def copystrLoop (dest src : Pointer) (maxlen stoplen : Nat) :
    (left i : Nat) → CopyM (Except Errno Nat)
  | 0, _ => pure (.error (if stoplen < maxlen then .efault else .enametoolong))
  | left + 1, i => do
      if i < maxlen ∧ i < stoplen then
        assign dest src i 1
        let byte ← load src i 1
        if byte 0 = 0 then
          pure (.ok (i + 1))
        else
          copystrLoop dest src maxlen stoplen left (i + 1)
      else
        pure (.error (if stoplen < maxlen then .efault else .enametoolong))

/-- `copystr`. -/
def copystr (dest src : Pointer) (maxlen stoplen : Nat) : CopyM (Except Errno Nat) :=
  copystrLoop dest src maxlen stoplen maxlen 0

/-- Set `pcb_badfaultfunc` and call `setjmp`; the code that follows runs until it is done or
`copyfail` jumps back. -/
def guarded {α : Type} (body : CopyM α) : Prog Panic CopyState Errno α := do
  modify fun s => { s with pcbBadfaultfunc := true }
  match ← attempt body with
  | .error .copyfail =>
      modify fun s => { s with pcbBadfaultfunc := false }
      fail .efault
  | .ok value =>
      modify fun s => { s with pcbBadfaultfunc := false }
      pure value

/-- What `copyin` and `copyout` do with their pointers, of which `userptr` is the user's. -/
def copyBlock (userptr : Nat) (dest src : Pointer) (len : Nat) :
    Prog Panic CopyState Errno Unit := do
  let stoplen ← ofExcept (copycheck userptr len)
  if stoplen ≠ len then
    fail .efault
  else
    guarded (memcpy dest src len)

/-- `copyin`. -/
def copyin (usersrc dest len : Nat) : Prog Panic CopyState Errno Unit :=
  copyBlock usersrc ⟨.kernel, dest⟩ ⟨.user, usersrc⟩ len

/-- `copyout`. -/
def copyout (src userdest len : Nat) : Prog Panic CopyState Errno Unit :=
  copyBlock userdest ⟨.user, userdest⟩ ⟨.kernel, src⟩ len

/-- What `copyinstr` and `copyoutstr` do with their pointers. -/
def copyString (userptr : Nat) (dest src : Pointer) (len : Nat) :
    Prog Panic CopyState Errno Nat := do
  let stoplen ← ofExcept (copycheck userptr len)
  let result ← guarded (copystr dest src len stoplen)
  ofExcept result

/-- `copyinstr`; returns `*actual`. -/
def copyinstr (usersrc dest len : Nat) : Prog Panic CopyState Errno Nat :=
  copyString usersrc ⟨.kernel, dest⟩ ⟨.user, usersrc⟩ len

/-- `copyoutstr`; returns `*actual`. -/
def copyoutstr (src userdest len : Nat) : Prog Panic CopyState Errno Nat :=
  copyString userdest ⟨.user, userdest⟩ ⟨.kernel, src⟩ len

/-! ## One access -/

variable {s s' : CopyState} {dest src : Pointer} {lo mid hi n : Nat}

/-- Two arrays of `n` bytes that do not overlap and do not go around the end of memory. -/
structure Separate (dest src : Pointer) (n : Nat) : Prop where
  dest_le : dest.addr + n ≤ 2 ^ 32
  src_le : src.addr + n ≤ 2 ^ 32
  apart : dest.addr + n ≤ src.addr ∨ src.addr + n ≤ dest.addr

variable {i : Nat} {s₁ s₂ : CopyState} {len userptr kbuf : Nat}

theorem Pointer.index_eq {p : Pointer} (fits : p.addr + n ≤ 2 ^ 32) (inside : i < n) :
    p.index i = p.addr + i := by
  rw [index, uint32_eq (by omega) (by omega)]
  omega

/-- The bytes from `lo` to `hi` of both arrays can be used. -/
def CopyState.Usable (s : CopyState) (dest src : Pointer) (lo hi : Nat) : Prop :=
  ∀ i, lo ≤ i → i < hi →
    (s.mem (src.addr + i)).isSome = true ∧ (s.mem (dest.addr + i)).isSome = true

/-- Only bytes of the two arrays have been accessed. -/
def CopyState.Confined (s : CopyState) (dest src : Pointer) (n : Nat) (s' : CopyState) : Prop :=
  ∀ x ∈ s'.touched, x ∈ s.touched ∨
    ∃ i < n, x = ⟨src.side, src.addr + i⟩ ∨ x = ⟨dest.side, dest.addr + i⟩

/-- The bytes from `lo` to `hi` have been copied. -/
structure CopyState.Copied (s : CopyState) (dest src : Pointer) (lo hi n : Nat)
    (s' : CopyState) : Prop where
  mem : s'.mem = fun a =>
    if dest.addr + lo ≤ a ∧ a < dest.addr + hi then s.mem (src.addr + (a - dest.addr))
    else s.mem a
  armed : s'.pcbBadfaultfunc = s.pcbBadfaultfunc
  confined : s.Confined dest src n s'
  usable : s.Usable dest src lo hi

section Access

variable {p : Pointer} {offset width : Nat}

theorem CopyState.mem_touch {x : Access} (fits : p.addr + n ≤ 2 ^ 32) (inside : offset + width ≤ n)
    (member : x ∈ (s.touch p offset width).touched) :
    x ∈ s.touched ∨ ∃ i < n, x = ⟨p.side, p.addr + i⟩ := by
  rcases mem_append.mp member with new | old
  · rcases List.mem_map.mp new with ⟨j, j_mem, rfl⟩
    have j_lt := mem_range.mp j_mem
    exact Or.inr ⟨offset + j, by omega, by rw [p.index_eq fits (by omega)]⟩
  · exact Or.inl old

theorem access_spec (fits : p.addr + n ≤ 2 ^ 32) (inside : offset + width ≤ n)
    (armed : s.pcbBadfaultfunc = true) :
    Ensures (access p offset width) s (fun _ => False)
      (fun _ s' => s' = s.touch p offset width ∧
        ∃ i, offset ≤ i ∧ i < offset + width ∧ (s.mem (p.addr + i)).isSome = false)
      (fun _ s' => s' = s.touch p offset width ∧
        ∀ i, offset ≤ i → i < offset + width → (s.mem (p.addr + i)).isSome = true) := by
  have armed' : (s.touch p offset width).pcbBadfaultfunc = true := armed
  have memEq : (s.touch p offset width).mem = s.mem := rfl
  simp only [access, ensures_bind, ensures_modify, ensures_get]
  apply ensures_branch
  · intro mapped
    refine ⟨rfl, ?_⟩
    intro i low high
    have here := mapped (i - offset) (by omega)
    rwa [memEq, p.index_eq fits (by omega), Nat.add_sub_cancel' low] at here
  · intro unmapped
    rw [if_pos armed', ensures_fail]
    refine ⟨rfl, ?_⟩
    by_contra mapped
    push Not at mapped
    apply unmapped
    intro j j_lt
    rw [memEq, p.index_eq fits (by omega)]
    exact Bool.eq_true_of_not_eq_false (mapped (offset + j) (by omega) (by omega))

theorem CopyState.put_mem (fits : p.addr + n ≤ 2 ^ 32) (inside : offset + width ≤ n)
    (bytes : Bytes) (a : Nat) :
    (s.put p offset width bytes).mem a =
      if p.addr + offset ≤ a ∧ a < p.addr + offset + width then
        some (bytes (a - (p.addr + offset)))
      else s.mem a := by
  simp only [put]
  split
  · rename_i j found
    have j_lt : j < width := mem_range.mp (List.mem_of_find?_eq_some found)
    have here := List.find?_some found
    rw [decide_eq_true_eq, p.index_eq fits (by omega)] at here
    rw [if_pos (by omega), show a - (p.addr + offset) = j by omega]
  · rename_i missing
    rw [if_neg]
    rintro ⟨low, high⟩
    have j_lt : a - (p.addr + offset) < width := by omega
    have other := List.find?_eq_none.mp missing _ (mem_range.mpr j_lt)
    rw [decide_eq_true_eq, p.index_eq fits (by omega)] at other
    omega

end Access

/-! ## Copying elements -/

theorem CopyState.Copied.refl (s : CopyState) (dest src : Pointer) (i n : Nat) :
    s.Copied dest src i i n s := by
  refine ⟨?_, rfl, fun x member => Or.inl member, fun j low high => by omega⟩
  funext a
  rw [if_neg (by omega)]

theorem CopyState.Confined.trans (first : s.Confined dest src n s₁)
    (second : s₁.Confined dest src n s₂) : s.Confined dest src n s₂ := by
  intro x member
  rcases second x member with old | new
  · exact first x old
  · exact Or.inr new

/-- The source and the part of the destination that was not written yet are as before. -/
theorem CopyState.Copied.usable_rest (separate : Separate dest src n) (inside : hi ≤ n)
    (copied : s.Copied dest src lo mid n s') (low : lo ≤ mid) (usable : s.Usable dest src lo hi) :
    s'.Usable dest src mid hi := by
  intro i above below
  have apart := separate.apart
  rw [copied.mem]
  simp only
  rw [if_neg (by omega), if_neg (by omega)]
  exact usable i (by omega) below

theorem CopyState.Copied.src_eq (separate : Separate dest src n) (inside : hi ≤ n)
    (copied : s.Copied dest src lo hi n s') {j : Nat} (j_lt : j < n) :
    s'.mem (src.addr + j) = s.mem (src.addr + j) := by
  have apart := separate.apart
  rw [copied.mem]
  simp only
  rw [if_neg (by omega)]

theorem CopyState.Copied.trans (separate : Separate dest src n) (inside : hi ≤ n) (low : lo ≤ mid)
    (high : mid ≤ hi) (first : s.Copied dest src lo mid n s₁)
    (second : s₁.Copied dest src mid hi n s₂) : s.Copied dest src lo hi n s₂ := by
  have apart := separate.apart
  refine ⟨?_, second.armed.trans first.armed, first.confined.trans second.confined, ?_⟩
  · rw [second.mem, first.mem]
    funext a
    simp only
    split_ifs <;> first | rfl | omega
  · intro i above below
    by_cases early : i < mid
    · exact first.usable i above early
    · have rest := second.usable i (by omega) below
      rw [first.mem] at rest
      simp only at rest
      rwa [if_neg (by omega), if_neg (by omega)] at rest

theorem assign_spec (separate : Separate dest src n) {offset width : Nat}
    (inside : offset + width ≤ n) (armed : s.pcbBadfaultfunc = true) :
    Ensures (assign dest src offset width) s (fun _ => False)
      (fun _ s' => s.Confined dest src n s' ∧ ¬s.Usable dest src offset (offset + width))
      (fun _ s' => s.Copied dest src offset (offset + width) n s') := by
  simp only [assign, load, store, ensures_bind, ensures_get, ensures_pure, ensures_modify]
  have fromSrc : ∀ {x}, x ∈ (s.touch src offset width).touched →
      x ∈ s.touched ∨ ∃ i < n, x = ⟨src.side, src.addr + i⟩ ∨ x = ⟨dest.side, dest.addr + i⟩ := by
    intro x member
    rcases CopyState.mem_touch separate.src_le inside member with old | ⟨i, i_lt, rfl⟩
    · exact Or.inl old
    · exact Or.inr ⟨i, i_lt, Or.inl rfl⟩
  have fromDest : ∀ {x}, x ∈ ((s.touch src offset width).touch dest offset width).touched →
      x ∈ s.touched ∨ ∃ i < n, x = ⟨src.side, src.addr + i⟩ ∨ x = ⟨dest.side, dest.addr + i⟩ := by
    intro x member
    rcases CopyState.mem_touch separate.dest_le inside member with old | ⟨i, i_lt, rfl⟩
    · exact fromSrc old
    · exact Or.inr ⟨i, i_lt, Or.inr rfl⟩
  apply (access_spec separate.src_le inside armed).answers
  · rintro _ _ ⟨rfl, i, low, high, unmapped⟩
    refine ⟨fun x member => fromSrc member, ?_⟩
    intro usable
    simp [(usable i low high).1] at unmapped
  · rintro _ _ ⟨rfl, readable⟩
    apply (access_spec separate.dest_le inside (s := s.touch src offset width) armed).answers
    · rintro _ _ ⟨rfl, i, low, high, unmapped⟩
      refine ⟨fun x member => fromDest member, ?_⟩
      intro usable
      simp [CopyState.touch, (usable i low high).2] at unmapped
    · rintro _ _ ⟨rfl, writable⟩
      refine ⟨?_, rfl, fun x member => fromDest member, fun i low high =>
        ⟨readable i low high, writable i low high⟩⟩
      funext a
      rw [CopyState.put_mem separate.dest_le inside, Nat.add_assoc]
      split
      · rename_i range
        have value := readable (a - dest.addr) (by omega) (by omega)
        rcases isSome_iff_exists.mp value with ⟨byte, byteEq⟩
        have place : src.index (offset + (a - (dest.addr + offset))) =
            src.addr + (a - dest.addr) := by
          rw [src.index_eq separate.src_le (by omega)]
          omega
        rw [place, byteEq]
        simp [CopyState.touch, byteEq]
      · rfl

/-- `memcpy` copies its elements, or it jumped because one of them cannot be used. -/
theorem memcpyLoop_spec (separate : Separate dest src n) (width count : Nat) :
    ∀ {s : CopyState} {i : Nat}, (i + count) * width ≤ n → s.pcbBadfaultfunc = true →
      Ensures (memcpyLoop dest src width count i) s (fun _ => False)
        (fun _ s' => s.Confined dest src n s' ∧
          ¬s.Usable dest src (i * width) ((i + count) * width))
        (fun _ s' => s.Copied dest src (i * width) ((i + count) * width) n s') := by
  induction count with
  | zero =>
      intro s i _ _
      exact CopyState.Copied.refl s dest src (i * width) n
  | succ count ih =>
      intro s i inside armed
      have next : (i + 1 + count) * width = (i + (count + 1)) * width := by
        rw [Nat.add_right_comm, Nat.add_assoc]
      have step : i * width + width = (i + 1) * width := (Nat.succ_mul i width).symm
      have more : (i + 1) * width ≤ (i + 1 + count) * width :=
        Nat.mul_le_mul_right width (by omega)
      simp only [memcpyLoop, ensures_bind]
      apply (assign_spec separate (by omega) armed).answers
      · rintro _ s₁ ⟨confined, unusable⟩
        refine ⟨confined, ?_⟩
        intro usable
        exact unusable fun j low high => usable j low (by omega)
      · rintro _ s₁ copied
        rw [step] at copied
        apply (ih (by omega) (copied.armed.trans armed)).answers
        · rintro _ s₂ ⟨confined, unusable⟩
          refine ⟨copied.confined.trans confined, ?_⟩
          intro usable
          apply unusable
          rw [next]
          exact copied.usable_rest separate inside (by omega) usable
        · rintro _ s₂ rest
          rw [next] at rest
          exact copied.trans separate inside (by omega) (by omega) rest

theorem memcpy_spec (separate : Separate dest src len) (armed : s.pcbBadfaultfunc = true) :
    Ensures (memcpy dest src len) s (fun _ => False)
      (fun _ s' => s.Confined dest src len s' ∧ ¬s.Usable dest src 0 len)
      (fun _ s' => s.Copied dest src 0 len len s') := by
  apply ensures_branch
  · rintro ⟨_, _, whole⟩
    have lenEq : (0 + len / sizeofLong) * sizeofLong = len := by
      rw [Nat.zero_add]
      exact Nat.div_mul_cancel (Nat.dvd_of_mod_eq_zero whole)
    have loop := memcpyLoop_spec separate sizeofLong (len / sizeofLong) lenEq.le armed
    rwa [lenEq, Nat.zero_mul] at loop
  · intro _
    have lenEq : (0 + len) * 1 = len := by omega
    have loop := memcpyLoop_spec separate 1 len lenEq.le armed
    rwa [lenEq, Nat.zero_mul] at loop

/-! ## Copying strings -/

/-- The first zero byte from `addr` on is at distance `k`. -/
def CopyState.FirstNul (s : CopyState) (addr k : Nat) : Prop :=
  s.mem (addr + k) = some 0 ∧ ∀ j < k, s.mem (addr + j) ≠ some 0

/-- The zero byte is read once more after it was copied. -/
theorem copystrTest_spec (separate : Separate dest src n) (inside : i < n)
    (armed : s.pcbBadfaultfunc = true) :
    Ensures (load src i 1) s (fun _ => False)
      (fun _ s' => s.Confined dest src n s' ∧ (s.mem (src.addr + i)).isSome = false)
      (fun byte s' => s'.mem = s.mem ∧ s'.pcbBadfaultfunc = true ∧ s.Confined dest src n s' ∧
        s.mem (src.addr + i) = some (byte 0)) := by
  have confined : s.Confined dest src n (s.touch src i 1) := by
    intro x member
    rcases CopyState.mem_touch separate.src_le inside member with old | ⟨j, j_lt, rfl⟩
    · exact Or.inl old
    · exact Or.inr ⟨j, j_lt, Or.inl rfl⟩
  simp only [load, ensures_bind, ensures_get, ensures_pure]
  apply (access_spec separate.src_le inside armed).answers
  · rintro _ _ ⟨rfl, j, low, high, unmapped⟩
    rw [show j = i by omega] at unmapped
    exact ⟨confined, unmapped⟩
  · rintro _ _ ⟨rfl, readable⟩
    refine ⟨rfl, armed, confined, ?_⟩
    rcases isSome_iff_exists.mp (readable i le_rfl (by omega)) with ⟨byte, byteEq⟩
    rw [Nat.add_zero, src.index_eq separate.src_le inside]
    simp [CopyState.touch, byteEq]

/-- The code that `copystr` returns when it finds no zero byte. -/
def limitError (maxlen stoplen : Nat) : Errno :=
  if stoplen < maxlen then .efault else .enametoolong

/-- What `copystr` returns and what it has copied, from the byte `i` on. -/
def CopyState.StringCopied (s : CopyState) (dest src : Pointer) (maxlen stoplen i : Nat)
    (result : Except Errno Nat) (s' : CopyState) : Prop :=
  (∃ k, i ≤ k ∧ k < min maxlen stoplen ∧ s.mem (src.addr + k) = some 0 ∧
    (∀ j, i ≤ j → j < k → s.mem (src.addr + j) ≠ some 0) ∧ result = .ok (k + 1) ∧
    s.Copied dest src i (k + 1) (min maxlen stoplen) s') ∨
  ((∀ j, i ≤ j → j < min maxlen stoplen → s.mem (src.addr + j) ≠ some 0) ∧
    result = .error (limitError maxlen stoplen) ∧
    s.Copied dest src i (min maxlen stoplen) (min maxlen stoplen) s')

theorem copystrLoop_spec {maxlen stoplen : Nat} (separate : Separate dest src (min maxlen stoplen))
    (left : Nat) :
    ∀ {s : CopyState} {i : Nat}, i + left = maxlen → i ≤ min maxlen stoplen →
      s.pcbBadfaultfunc = true →
      Ensures (copystrLoop dest src maxlen stoplen left i) s (fun _ => False)
        (fun _ s' => s.Confined dest src (min maxlen stoplen) s' ∧
          ¬s.Usable dest src i (min maxlen stoplen))
        (fun result s' => s.StringCopied dest src maxlen stoplen i result s') := by
  -- at the limit nothing is left to copy
  have ended : ∀ {s : CopyState} {i : Nat}, i = min maxlen stoplen →
      s.StringCopied dest src maxlen stoplen i (.error (limitError maxlen stoplen)) s := by
    rintro s i rfl
    exact Or.inr ⟨fun j low high => by omega, rfl, CopyState.Copied.refl ..⟩
  induction left with
  | zero =>
      intro s i total within _
      exact ended (by omega)
  | succ left ih =>
      intro s i total within armed
      simp only [copystrLoop]
      apply ensures_branch
      · intro more
        have inside : i < min maxlen stoplen := by omega
        simp only [ensures_bind]
        apply (assign_spec separate (by omega) armed).answers
        · rintro _ s₁ ⟨confined, unusable⟩
          exact ⟨confined, fun usable => unusable fun j low high => usable j low (by omega)⟩
        · rintro _ s₁ copied
          apply (copystrTest_spec separate inside (copied.armed.trans armed)).answers
          · rintro _ s₂ ⟨confined, unmapped⟩
            refine ⟨copied.confined.trans confined, ?_⟩
            intro usable
            rw [copied.src_eq separate (by omega) inside] at unmapped
            simp [(usable i le_rfl inside).1] at unmapped
          · rintro byte s₂ ⟨memEq, armed₂, confined, byteEq⟩
            rw [copied.src_eq separate (by omega) inside] at byteEq
            have copied₂ : s.Copied dest src i (i + 1) (min maxlen stoplen) s₂ :=
              ⟨memEq.trans copied.mem, armed₂.trans armed.symm, copied.confined.trans confined,
                copied.usable⟩
            have srcEq : ∀ {j}, j < min maxlen stoplen →
                s₂.mem (src.addr + j) = s.mem (src.addr + j) :=
              fun j_lt => copied₂.src_eq separate (by omega) j_lt
            apply ensures_branch
            · intro zero
              rw [zero] at byteEq
              exact Or.inl ⟨i, le_rfl, inside, byteEq, fun j low high => by omega, rfl, copied₂⟩
            · intro nonzero
              have here : s.mem (src.addr + i) ≠ some 0 := by simpa [byteEq] using nonzero
              have before : ∀ {k}, (∀ j, i + 1 ≤ j → j < k → s₂.mem (src.addr + j) ≠ some 0) →
                  k ≤ min maxlen stoplen →
                  ∀ j, i ≤ j → j < k → s.mem (src.addr + j) ≠ some 0 := by
                intro k later k_le j low high
                rcases Nat.eq_or_lt_of_le low with rfl | low
                · exact here
                · rw [← srcEq (by omega)]
                  exact later j low high
              apply (ih (by omega) (by omega) armed₂).answers
              · rintro _ s₃ ⟨confined₃, unusable⟩
                exact ⟨copied₂.confined.trans confined₃, fun usable =>
                  unusable (copied₂.usable_rest separate le_rfl (by omega) usable)⟩
              · rintro result s₃ (⟨k, low, high, zero, none, rfl, rest⟩ | ⟨none, rfl, rest⟩)
                · refine Or.inl ⟨k, by omega, high, ?_, before none (by omega), rfl, ?_⟩
                  · rw [← srcEq high, zero]
                  · exact copied₂.trans separate (by omega) (by omega) (by omega) rest
                · refine Or.inr ⟨before none le_rfl, rfl, ?_⟩
                  exact copied₂.trans separate le_rfl (by omega) (by omega) rest
      · intro done
        exact ended (by omega)

/-! ## The boundary -/

/-- How far a range that begins below `USERTOP` and does not wrap may be copied. -/
theorem copycheck_cases {p : Nat} (word : p < 2 ^ 32) (positive : 1 ≤ len) (small : len < 2 ^ 32) :
    ((userTop ≤ p ∨ 2 ^ 32 ≤ p + len - 1) ∧ copycheck p len = .error .efault) ∨
      (p < userTop ∧ p + len - 1 < 2 ^ 32 ∧ copycheck p len = .ok (min len (userTop - p))) := by
  have topEq : uint32 (p + len - 1) = if p + len - 1 < 2 ^ 32 then p + len - 1
      else p + len - 1 - 2 ^ 32 := by
    simp only [uint32]
    split <;> omega
  rw [copycheck, topEq]
  by_cases wraps : p + len - 1 < 2 ^ 32
  · by_cases kernel : userTop ≤ p
    · exact Or.inl ⟨Or.inl kernel, by simp [kernel]⟩
    · refine Or.inr ⟨by omega, wraps, ?_⟩
      rw [if_pos wraps, if_neg (by omega), if_neg kernel]
      split_ifs with crosses
      · rw [Nat.min_eq_right (by omega)]
      · rw [Nat.min_eq_left (by omega)]
  · refine Or.inl ⟨Or.inr (by omega), ?_⟩
    rw [if_neg wraps, if_pos (by omega)]

/-- Pointers to a user address and to a kernel buffer, in one of the two directions. -/
inductive Facing (userptr kbuf : Nat) : Pointer → Pointer → Prop where
  | inward : Facing userptr kbuf ⟨.kernel, kbuf⟩ ⟨.user, userptr⟩
  | outward : Facing userptr kbuf ⟨.user, userptr⟩ ⟨.kernel, kbuf⟩

/-- `n` bytes of kernel memory that can be used. -/
structure CopyState.Buffer (s : CopyState) (kbuf n : Nat) : Prop where
  above : userTop ≤ kbuf
  fits : kbuf + n ≤ 2 ^ 32
  mapped : ∀ i < n, (s.mem (kbuf + i)).isSome = true

def CopyState.UserMapped (s : CopyState) : Prop :=
  ∀ a < userTop, (s.mem a).isSome = true

/-- Whatever was accessed as user memory is user memory. -/
def CopyState.RespectsTop (s s' : CopyState) : Prop :=
  ∀ x ∈ s'.touched, x ∈ s.touched ∨ (x.side = .user → x.addr < userTop)

/-- `n` bytes have been copied, and nothing else has changed. -/
def CopyState.Holds (s : CopyState) (dest src n : Nat) (s' : CopyState) : Prop :=
  s'.mem = fun a => if dest ≤ a ∧ a < dest + n then s.mem (src + (a - dest)) else s.mem a

section Facing

variable {userptr kbuf : Nat}

theorem Facing.separate (facing : Facing userptr kbuf dest src) (below : userptr + n ≤ userTop)
    (buffer : s.Buffer kbuf n) : Separate dest src n := by
  have above := buffer.above
  have fits := buffer.fits
  simp only [userTop] at below above
  cases facing <;> constructor <;> dsimp only <;> omega

theorem Facing.usable (facing : Facing userptr kbuf dest src) (below : userptr + n ≤ userTop)
    (buffer : s.Buffer kbuf n) (mapped : s.UserMapped) : s.Usable dest src 0 n := by
  intro i _ i_lt
  have user := mapped (userptr + i) (by omega)
  have kernel := buffer.mapped i i_lt
  cases facing with
  | inward => exact ⟨user, kernel⟩
  | outward => exact ⟨kernel, user⟩

theorem Facing.respectsTop (facing : Facing userptr kbuf dest src)
    (below : userptr + n ≤ userTop) (confined : s.Confined dest src n s') : s.RespectsTop s' := by
  intro x member
  rcases confined x member with old | ⟨i, i_lt, accessed⟩
  · exact Or.inl old
  · right
    cases facing with
    | inward =>
        rcases accessed with rfl | rfl
        · intro _
          dsimp only
          omega
        · rintro ⟨⟩
    | outward =>
        rcases accessed with rfl | rfl
        · rintro ⟨⟩
        · intro _
          dsimp only
          omega

theorem guarded_spec {α : Type} {body : CopyM α} {fails : CopyState → Prop}
    {returns : α → CopyState → Prop}
    (ensures : Ensures body { s with pcbBadfaultfunc := true } (fun _ => False)
      (fun _ s' => fails { s' with pcbBadfaultfunc := false })
      (fun value s' => returns value { s' with pcbBadfaultfunc := false })) :
    Ensures (guarded body) s (fun _ => False)
      (fun failure s' => failure = .efault ∧ fails s') returns := by
  simp only [guarded, ensures_bind, ensures_modify, ensures_attempt]
  apply ensures.answers
  · rintro ⟨⟩ s' failed
    exact ⟨rfl, failed⟩
  · exact fun value s' done => done

theorem copyBlock_refused {len : Nat} (word : userptr < 2 ^ 32) (positive : 1 ≤ len)
    (small : len < 2 ^ 32) (beyond : ¬userptr + len ≤ userTop) (s : CopyState) :
    copyBlock userptr dest src len s = .ok (.error .efault, s) := by
  rcases copycheck_cases word positive small with ⟨_, refused⟩ | ⟨below, _, stops⟩
  · rw [copyBlock, refused]
    rfl
  · have short : min len (userTop - userptr) ≠ len := by omega
    rw [copyBlock, stops, bind_of_ok (show ofExcept _ s = .ok (.ok _, s) from rfl),
      if_pos short]
    rfl

theorem copyBlock_spec {len : Nat} (facing : Facing userptr kbuf dest src) (positive : 1 ≤ len)
    (below : userptr + len ≤ userTop) (buffer : s.Buffer kbuf len) :
    Ensures (copyBlock userptr dest src len) s (fun _ => False)
      (fun failure s' => failure = .efault ∧ s.RespectsTop s' ∧ ¬s.Usable dest src 0 len)
      (fun _ s' => s.Usable dest src 0 len ∧ s.Holds dest.addr src.addr len s' ∧
        s.RespectsTop s') := by
  have small : len < 2 ^ 32 := by
    simp only [userTop] at below
    omega
  rw [copyBlock, (copycheck_iff positive small).mpr below, ensures_bind,
    ensures_ofExcept_ok, if_neg (by simp)]
  apply guarded_spec
  apply (memcpy_spec (facing.separate below buffer) rfl).answers
  · rintro _ s' ⟨confined, unusable⟩
    exact ⟨facing.respectsTop below confined, unusable⟩
  · rintro _ s' copied
    exact ⟨copied.usable, copied.mem, facing.respectsTop below copied.confined⟩

/-- The end of a string copy that passed `copycheck`, also when memory is missing. -/
theorem copyString_spec {len : Nat} (facing : Facing userptr kbuf dest src)
    (below : userptr < userTop) (stops : copycheck userptr len = .ok (min len (userTop - userptr)))
    (buffer : s.Buffer kbuf (min len (userTop - userptr))) :
    Ensures (copyString userptr dest src len) s (fun _ => False)
      (fun failure s' => s.RespectsTop s' ∧
        (s.Usable dest src 0 (min len (userTop - userptr)) →
          failure = limitError len (min len (userTop - userptr)) ∧
            ∀ k < min len (userTop - userptr), s.mem (src.addr + k) ≠ some 0))
      (fun actual s' => s.RespectsTop s' ∧ ∃ k < min len (userTop - userptr), actual = k + 1 ∧
        s.FirstNul src.addr k ∧ s.Holds dest.addr src.addr (k + 1) s') := by
  have bound : userptr + min len (userTop - userptr) ≤ userTop := by omega
  have separate := facing.separate bound buffer
  generalize stopEq : min len (userTop - userptr) = stop at *
  have minEq : min len stop = stop := by omega
  rw [← minEq] at separate
  simp only [copyString, stops, ensures_bind, ensures_ofExcept_ok]
  have loop := copystrLoop_spec (s := { s with pcbBadfaultfunc := true }) separate len
    (Nat.zero_add len) (Nat.zero_le _) rfl
  rw [minEq] at loop
  have run : Ensures (guarded (copystr dest src len stop)) s (fun _ => False)
      (fun failure s' => failure = .efault ∧ s.RespectsTop s' ∧ ¬s.Usable dest src 0 stop)
      (fun result s' => s.StringCopied dest src len stop 0 result
        { s' with pcbBadfaultfunc := s.pcbBadfaultfunc }) := by
    apply guarded_spec
    apply loop.answers
    · rintro _ s' ⟨confined, unusable⟩
      exact ⟨facing.respectsTop bound confined, unusable⟩
    · rintro result s' (⟨k, low, high, zero, before, rfl, copied⟩ | ⟨none, rfl, copied⟩)
      · exact Or.inl ⟨k, low, high, zero, before, rfl, copied.mem, rfl, copied.confined,
          copied.usable⟩
      · exact Or.inr ⟨none, rfl, copied.mem, rfl, copied.confined, copied.usable⟩
  apply run.answers
  · rintro _ s' ⟨_, respects, unusable⟩
    exact ⟨respects, fun usable => absurd usable unusable⟩
  · rintro result s' (⟨k, _, high, zero, before, rfl, copied⟩ | ⟨none, rfl, copied⟩)
    · rw [minEq] at high copied
      refine ⟨facing.respectsTop bound copied.confined, k, high, rfl, ?_, ?_⟩
      · exact ⟨zero, fun j j_lt => before j (Nat.zero_le j) j_lt⟩
      · exact copied.mem
    · rw [minEq] at none copied
      exact ⟨facing.respectsTop bound copied.confined, fun _ =>
        ⟨rfl, fun k k_lt => none k (Nat.zero_le k) k_lt⟩⟩

end Facing

/-- What a string copy with the user pointer `p` returns and does. -/
structure CopyState.StringCorrect (s : CopyState) (p len dest src : Nat)
    (result : Except Errno Nat) (s' : CopyState) : Prop where
  success : ∀ k, result = .ok (k + 1) ↔ p < userTop ∧ p + len - 1 < 2 ^ 32 ∧
    k < min len (userTop - p) ∧ s.FirstNul src k
  copied : ∀ k, result = .ok (k + 1) → s.Holds dest src (k + 1) s'
  efault : result = .error .efault ↔ userTop ≤ p ∨ 2 ^ 32 ≤ p + len - 1 ∨
    userTop < p + len ∧ ∀ k < userTop - p, s.mem (src + k) ≠ some 0
  enametoolong : result = .error .enametoolong ↔
    p + len ≤ userTop ∧ ∀ k < len, s.mem (src + k) ≠ some 0
  respects : s.RespectsTop s'

theorem CopyState.FirstNul.unique {addr k k' : Nat} (first : s.FirstNul addr k)
    (second : s.FirstNul addr k') : k = k' := by
  rcases Nat.lt_trichotomy k k' with less | same | more
  · exact absurd first.1 (second.2 k less)
  · exact same
  · exact absurd second.1 (first.2 k' more)

theorem copyString_correct (facing : Facing userptr kbuf dest src) (word : userptr < 2 ^ 32)
    (positive : 1 ≤ len) (small : len < 2 ^ 32) (mapped : s.UserMapped)
    (buffer : s.Buffer kbuf (min len (userTop - userptr))) :
    ∃ result s', copyString userptr dest src len s = .ok (result, s') ∧
      s.StringCorrect userptr len dest.addr src.addr result s' := by
  rcases copycheck_cases word positive small with ⟨outside, refused⟩ | ⟨below, noWrap, stops⟩
  · refine ⟨.error .efault, s, by rw [copyString, refused]; rfl, ?_⟩
    constructor
    · intro k
      refine iff_of_false (by simp) ?_
      rintro ⟨below, noWrap, _⟩
      omega
    · simp
    · exact iff_of_true rfl (by omega)
    · refine iff_of_false (by simp) ?_
      rintro ⟨below, _⟩
      simp only [userTop] at outside below
      omega
    · exact fun x member => Or.inl member
  · have usable := facing.usable (by omega) buffer mapped
    rcases (copyString_spec facing below stops buffer).outcomes with
      ⟨_, _, impossible⟩ | ⟨failure, s', outcome, respects, ended⟩ |
        ⟨_, s', outcome, respects, k, k_lt, rfl, first, holds⟩
    · exact impossible.elim
    · rcases ended usable with ⟨rfl, none⟩
      refine ⟨_, s', outcome, ?_, by simp, ?_, ?_, respects⟩
      · intro k
        refine iff_of_false (by simp) ?_
        rintro ⟨_, _, k_lt, zero, _⟩
        exact none k k_lt zero
      · by_cases crosses : userTop < userptr + len
        · have stopEq : min len (userTop - userptr) = userTop - userptr := by omega
          rw [stopEq] at none ⊢
          exact iff_of_true (by simp [limitError]; omega) (Or.inr (Or.inr ⟨crosses, none⟩))
        · refine iff_of_false (by simp [limitError]; omega) ?_
          rintro (kernel | wraps | ⟨beyond, _⟩) <;> omega
      · by_cases inside : userptr + len ≤ userTop
        · have stopEq : min len (userTop - userptr) = len := by omega
          rw [stopEq] at none ⊢
          exact iff_of_true (by simp [limitError]) ⟨inside, none⟩
        · exact iff_of_false (by simp [limitError]; omega) fun fits => inside fits.1
    · refine ⟨_, s', outcome, ?_, ?_, ?_, ?_, respects⟩
      · intro k'
        constructor
        · rintro ⟨⟩
          exact ⟨below, noWrap, k_lt, first⟩
        · rintro ⟨_, _, _, first'⟩
          rw [first.unique first']
      · rintro k' ⟨⟩
        exact holds
      · refine iff_of_false (by simp) ?_
        rintro (kernel | wraps | ⟨_, none⟩)
        · omega
        · omega
        · exact none k (by omega) first.1
      · refine iff_of_false (by simp) ?_
        rintro ⟨_, none⟩
        exact none k (by omega) first.1

/-- What a block copy with the user pointer `p` returns and does. -/
structure CopyState.BlockCorrect (s : CopyState) (p len dest src : Nat)
    (result : Except Errno Unit) (s' : CopyState) : Prop where
  success : result = .ok () ↔ p + len ≤ userTop
  copied : result = .ok () → s.Holds dest src len s'
  refused : result ≠ .ok () → result = .error .efault ∧ s' = s
  respects : s.RespectsTop s'

theorem copyBlock_correct (facing : Facing userptr kbuf dest src) (word : userptr < 2 ^ 32)
    (positive : 1 ≤ len) (small : len < 2 ^ 32) (mapped : s.UserMapped)
    (buffer : s.Buffer kbuf (min len (userTop - userptr))) :
    ∃ result s', copyBlock userptr dest src len s = .ok (result, s') ∧
      s.BlockCorrect userptr len dest.addr src.addr result s' := by
  by_cases below : userptr + len ≤ userTop
  · have minEq : min len (userTop - userptr) = len := by omega
    rw [minEq] at buffer
    rcases (copyBlock_spec facing positive below buffer).outcomes with
      ⟨_, _, impossible⟩ | ⟨_, _, _, _, _, unusable⟩ | ⟨_, s', outcome, _, holds, respects⟩
    · exact impossible.elim
    · exact absurd (facing.usable below buffer mapped) unusable
    · exact ⟨.ok (), s', outcome, iff_of_true rfl below, fun _ => holds, by simp, respects⟩
  · refine ⟨.error .efault, s, copyBlock_refused word positive small below s, ?_⟩
    exact ⟨iff_of_false (by simp) below, by simp, fun _ => ⟨rfl, rfl⟩,
      fun x member => Or.inl member⟩

/-- The four copying functions, for every user pointer and every length: when they succeed, what
they return otherwise, and that they stay below `USERTOP` on the user's side. -/
theorem user_copies_respect_boundary (s : CopyState) {p kbuf len : Nat} (word : p < 2 ^ 32)
    (positive : 1 ≤ len) (small : len < 2 ^ 32) (mapped : s.UserMapped)
    (buffer : s.Buffer kbuf (min len (userTop - p))) :
    (∃ result s', copyin p kbuf len s = .ok (result, s') ∧
      s.BlockCorrect p len kbuf p result s') ∧
    (∃ result s', copyout kbuf p len s = .ok (result, s') ∧
      s.BlockCorrect p len p kbuf result s') ∧
    (∃ result s', copyinstr p kbuf len s = .ok (result, s') ∧
      s.StringCorrect p len kbuf p result s') ∧
    ∃ result s', copyoutstr kbuf p len s = .ok (result, s') ∧
      s.StringCorrect p len p kbuf result s' :=
  ⟨copyBlock_correct .inward word positive small mapped buffer,
    copyBlock_correct .outward word positive small mapped buffer,
    copyString_correct .inward word positive small mapped buffer,
    copyString_correct .outward word positive small mapped buffer⟩

/-- All of memory is mapped; the byte before the last user byte is the end of a string. -/
def lastString : CopyState :=
  { mem := fun a => some (if a = userTop - 2 then 0 else 65)
    pcbBadfaultfunc := false
    touched := [] }

/-- Of eight bytes from the fourth byte below `USERTOP` on, the string ends after three. -/
theorem copyinstr_below_top : ∃ s', copyinstr (userTop - 4) (userTop + 4096) 8 lastString =
    .ok (.ok 3, s') ∧ lastString.Holds (userTop + 4096) (userTop - 4) 3 s' ∧
    lastString.RespectsTop s' := by
  have mapped : lastString.UserMapped := fun _ _ => rfl
  have buffer : lastString.Buffer (userTop + 4096) (min 8 (userTop - (userTop - 4))) :=
    ⟨by decide, by decide, fun _ _ => rfl⟩
  rcases (user_copies_respect_boundary lastString (by decide) (by decide) (by decide) mapped
    buffer).2.2.1 with ⟨result, s', outcome, correct⟩
  have found : result = .ok 3 :=
    (correct.success 2).mpr ⟨by decide, by decide, by decide, by decide, by decide⟩
  subst found
  exact ⟨s', outcome, correct.copied 2 rfl, correct.respects⟩

/-! ## The copies of `uiomove` -/

section Refines

variable {userptr kbuf len : Nat} {memory : Memory}

/-- Of usable buffers only the user's can be the cause of a fault. -/
theorem CopyState.Buffer.unmapped (buffer : s.Buffer kbuf len)
    (facing : Facing userptr kbuf dest src) (below : userptr + len ≤ userTop)
    (same : ∀ a < userTop, memory.user a = s.mem a) (unusable : ¬s.Usable dest src 0 len) :
    ¬∀ i < len, (memory.user (userptr + i)).isSome = true := by
  intro mapped
  apply unusable
  intro i _ i_lt
  have user := mapped i i_lt
  rw [same _ (by omega)] at user
  have kernel := buffer.mapped i i_lt
  cases facing with
  | inward => exact ⟨user, kernel⟩
  | outward => exact ⟨kernel, user⟩

/-- `uiomove` takes `copyin` as a function that returns the bytes. -/
theorem copyin_refines (word : userptr < 2 ^ 32) (positive : 1 ≤ len) (small : len < 2 ^ 32)
    (buffer : s.Buffer kbuf (min len (userTop - userptr)))
    (same : ∀ a < userTop, memory.user a = s.mem a) :
    Ensures (copyin userptr kbuf len) s (fun _ => False)
      (fun failure _ => Os161.copyin memory userptr len = .error failure)
      (fun _ s' => ∃ bytes, Os161.copyin memory userptr len = .ok bytes ∧
        ∀ i < len, s'.mem (kbuf + i) = some (bytes i)) := by
  by_cases below : userptr + len ≤ userTop
  · rw [Nat.min_eq_left (by omega)] at buffer
    have facing : Facing userptr kbuf ⟨.kernel, kbuf⟩ ⟨.user, userptr⟩ := .inward
    apply (copyBlock_spec facing positive below buffer).answers
    · rintro _ s' ⟨rfl, _, unusable⟩
      have unmapped := buffer.unmapped facing below same unusable
      rcases copyin_eq memory userptr positive small with ⟨_, mapped, _⟩ | ⟨_, refused⟩
      · exact absurd mapped unmapped
      · exact refused
    · rintro _ s' ⟨usable, holds, _⟩
      have mapped : ∀ i < len, (memory.user (userptr + i)).isSome = true := by
        intro i i_lt
        rw [same _ (by omega)]
        exact (usable i (Nat.zero_le i) i_lt).1
      rcases copyin_eq memory userptr positive small with ⟨_, _, copied⟩ | ⟨refused, _⟩
      · refine ⟨_, copied, ?_⟩
        intro i i_lt
        rcases isSome_iff_exists.mp (mapped i i_lt) with ⟨byte, byteEq⟩
        have here : s'.mem (kbuf + i) = s.mem (userptr + i) := by
          rw [holds]
          simp [i_lt]
        rw [here, ← same _ (by omega), byteEq, Option.getD_some]
      · exact absurd ⟨below, mapped⟩ refused
  · rw [copyin, ensures_of_fail_eq (copyBlock_refused word positive small below s)]
    rcases copyin_eq memory userptr positive small with ⟨fits, _⟩ | ⟨_, refused⟩
    · exact absurd fits below
    · exact refused

theorem copyin_refines_below_top :
    Prog.Ensures (copyin (userTop - 4) (userTop + 4096) 4) lastString (fun _ => False)
      (fun _ _ => False)
      (fun _ s' => ∀ i < 4, s'.mem (userTop + 4096 + i) = some (if i = 2 then 0 else 65)) := by
  have copied : Os161.copyin ⟨fun _ => 0, lastString.mem, none⟩ (userTop - 4) 4 =
      .ok fun i => if userTop - 4 + i = userTop - 2 then 0 else 65 := rfl
  apply (@copyin_refines _ _ _ _ ⟨fun _ => 0, lastString.mem, none⟩ (by decide) (by decide)
    (by decide) ⟨by decide, by decide, fun _ _ => rfl⟩ fun _ _ => rfl).answers
  · intro _ _ refused
    cases copied.symm.trans refused
  · rintro _ s' ⟨bytes, isBytes, stored⟩ i below
    cases copied.symm.trans isBytes
    have zero : userTop - 4 + i = userTop - 2 ↔ i = 2 := by
      simp only [userTop]
      omega
    simp only [stored i below, zero]

/-- And `copyout` as one that returns the memory. -/
theorem copyout_refines (word : userptr < 2 ^ 32) (positive : 1 ≤ len) (small : len < 2 ^ 32)
    (buffer : s.Buffer kbuf (min len (userTop - userptr)))
    (same : ∀ a < userTop, memory.user a = s.mem a) {source : Bytes}
    (bytes : ∀ i < len, s.mem (kbuf + i) = some (source i)) :
    Ensures (copyout kbuf userptr len) s (fun _ => False)
      (fun failure _ => (Os161.copyout memory source userptr len).1 = .error failure)
      (fun _ s' => (Os161.copyout memory source userptr len).1 = .ok () ∧
        ∀ a < userTop, (Os161.copyout memory source userptr len).2.user a = s'.mem a) := by
  by_cases below : userptr + len ≤ userTop
  · rw [Nat.min_eq_left (by omega)] at buffer
    have facing : Facing userptr kbuf ⟨.user, userptr⟩ ⟨.kernel, kbuf⟩ := .outward
    apply (copyBlock_spec facing positive below buffer).answers
    · rintro _ s' ⟨rfl, _, unusable⟩
      have unmapped := buffer.unmapped facing below same unusable
      rcases copyout_eq memory source userptr positive small with
        ⟨_, mapped, _⟩ | ⟨_, _, refused⟩
      · exact absurd mapped unmapped
      · rw [refused]
    · rintro _ s' ⟨usable, holds, _⟩
      have mapped : ∀ i < len, (memory.user (userptr + i)).isSome = true := by
        intro i i_lt
        rw [same _ (by omega)]
        exact (usable i (Nat.zero_le i) i_lt).2
      rcases copyout_eq memory source userptr positive small with ⟨_, _, copied⟩ | ⟨refused, _⟩
      · rw [copied, holds]
        refine ⟨rfl, ?_⟩
        intro a a_lt
        simp only [Memory.storeUser_user]
        split
        · rw [bytes _ (by omega)]
        · exact same a a_lt
      · exact absurd ⟨below, mapped⟩ refused
  · rw [copyout, ensures_of_fail_eq (copyBlock_refused word positive small below s)]
    rcases copyout_eq memory source userptr positive small with ⟨fits, _⟩ | ⟨_, _, refused⟩
    · exact absurd fits below
    · rw [refused]

theorem copyout_refines_below_top :
    Prog.Ensures (copyout (userTop + 4096) (userTop - 4) 4) lastString (fun _ => False)
      (fun _ _ => False) (fun _ s' => ∀ i < 4, s'.mem (userTop - 4 + i) = some 65) := by
  apply (@copyout_refines _ _ _ _ ⟨fun _ => 0, lastString.mem, none⟩ (by decide) (by decide)
    (by decide) ⟨by decide, by decide, fun _ _ => rfl⟩ (fun _ _ => rfl) (fun _ => 65)
    (by decide)).answers
  · intro _ _ refused
    cases refused
  · rintro _ s' ⟨_, stored⟩ i below
    rw [← stored _ (by simp only [userTop]; omega)]
    revert i
    decide

end Refines

end Copyinout

end Os161
