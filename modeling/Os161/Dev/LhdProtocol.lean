import Os161.Dev.Lhd
import Os161.Lib.Machine
import Os161.Lib.Tally

/-!
# The disk driver with several threads

`lhd_io` and `lhd_irq` of `lhd.c`, step by step. The card has one buffer, one sector
register and one status register, and the driver one field for the result, so that one
operation must be over before the next one is set up. `lh_clear` is the right to use
the card, which a thread keeps for one sector at a time, and `lh_done` hands the result
from the interrupt handler to the thread that waits for it.

A step of a thread ends where another thread or an interrupt can come: one turn of the
loop in `P`, an access to a register, a transfer between the card and the memory of the
caller. The device carries out an operation in one step of its own, with any status.
The phases of a thread are the places in `lhd_io`; the invariant says for each of them
what the card looks like while a thread is there.
-/

namespace Os161

attribute [local irreducible] int32 uint32

/-! ## The driver and the card -/

inductive LhdStat where
  | idle
  | working (isWrite : Bool)
  | over (status : LhdStatus) (isWrite : Bool)

/-- The variables of one call of `lhd_io`; those that do not change come from the `uio` at the
call. As ghosts, the status that the device gave for the operation that was started last, and the
sectors that it transferred for this call, with the bytes. -/
structure LhdRequest where
  start : Uio
  uio : Uio
  i : Nat
  reported : Option LhdStatus
  finished : List (Nat × Block)

namespace LhdRequest

def len (r : LhdRequest) : Nat :=
  r.start.uioResid / blockSize

/-- The sectors that are in the buffer before their operation. -/
def ahead (r : LhdRequest) : Nat :=
  match r.start.uioRw with
  | .write => 1
  | .read => 0

/-- `sector+i`. -/
def sector (r : LhdRequest) (i : Nat) : Nat :=
  uint32 (uint32 (r.start.uioOffset.tdiv blockSize) + i)

end LhdRequest

/-- The places in `lhd_io`. -/
inductive LhdPhase where
  /-- not in `lhd_io` -/
  | idle
  /-- at the head of the loop -/
  | ready (r : LhdRequest)
  /-- behind `P(lh->lh_clear)` -/
  | clear (r : LhdRequest)
  /-- the data to be written is in the buffer -/
  | filled (r : LhdRequest)
  /-- the sector register is set -/
  | aimed (r : LhdRequest)
  /-- the operation has been started -/
  | working (r : LhdRequest)
  /-- behind `P(lh->lh_done)` -/
  | over (r : LhdRequest)
  /-- `lh_result` has been read -/
  | fetched (r : LhdRequest) (result : Option Errno)
  /-- the data that was read is out of the buffer -/
  | emptied (r : LhdRequest) (result : Option Errno)
  /-- the data to be written could not be copied -/
  | refused (r : LhdRequest) (failure : Errno)
  /-- behind `V(lh->lh_clear)` -/
  | released (r : LhdRequest) (result : Option Errno)
  | returned (r : LhdRequest) (result : Option Errno)

namespace LhdPhase

/-- Between `P(lh->lh_clear)` and `V(lh->lh_clear)`. -/
def inside : LhdPhase → Bool
  | .clear _ | .filled _ | .aimed _ | .working _ | .over _ | .fetched _ _ | .emptied _ _
  | .refused _ _ => true
  | .idle | .ready _ | .released _ _ | .returned _ _ => false

/-- No call of `lhd_io` is going on. -/
def atRest : LhdPhase → Bool
  | .idle | .returned _ _ => true
  | _ => false

def report (change : LhdRequest → LhdRequest) : LhdPhase → LhdPhase
  | .working r => .working (change r)
  | phase => phase

end LhdPhase

/-- What the threads and the interrupt handler share: `lh_done`, `lh_result`, the buffer and the
registers; as a ghost, who started the last operation. -/
structure LhdCard (ι : Type) where
  lhDone : Nat
  lhResult : Option Errno
  lhBuf : Block
  sect : Nat
  stat : LhdStat
  owner : Option ι

/-- The driver with its threads; as a ghost, how many operations were started while the device
was not idle. -/
structure LhdSystem (ι : Type) where
  lhClear : Nat
  card : LhdCard ι
  sectors : Nat → Block
  phase : ι → LhdPhase
  overlaps : Nat

abbrev LhdSystemM (ι : Type) := Prog Panic (LhdSystem ι) Errno

namespace LhdSystem

def completes {ι : Type} [DecidableEq ι] (s : LhdSystem ι) (status : LhdStatus) : LhdSystem ι :=
  match s.card.stat, s.card.owner with
  | .working isWrite, some t =>
      let sectors := if status = .ok ∧ isWrite = true then
        Function.update s.sectors s.card.sect s.card.lhBuf else s.sectors
      let buf := if status = .ok ∧ isWrite = false then s.sectors s.card.sect else s.card.lhBuf
      { s with
        card := { s.card with stat := .over status isWrite, lhBuf := buf }
        sectors
        phase := Function.update s.phase t ((s.phase t).report fun r =>
          { r with
            reported := some status
            finished := if status = .ok then r.finished ++ [(s.card.sect, buf)] else r.finished }) }
  | _, _ => s

/-- `lhd_irq`; `lhd_iodone` is `V(lh->lh_done)`. -/
def lhdIrq {ι : Type} : LhdSystemM ι Unit := do
  let s ← get
  match s.card.stat with
  | .idle | .working _ => pure ()
  | .over status _ =>
      assert .semCount (0 < int32 (s.card.lhDone + 1))
      modify fun s => { s with card := { s.card with
        stat := .idle
        lhResult := lhdCodeToErrno status
        lhDone := s.card.lhDone + 1 } }

variable {ι : Type} [DecidableEq ι]

def moveTo (s : LhdSystem ι) (t : ι) (phase : LhdPhase) : LhdSystem ι :=
  { s with phase := Function.update s.phase t phase }

/-- `V(lh->lh_clear)`. -/
def release (t : ι) (phase : LhdPhase) : LhdSystemM ι Unit := do
  let s ← get
  assert .semCount (0 < int32 (s.lhClear + 1))
  modify fun s => { s.moveTo t phase with lhClear := s.lhClear + 1 }

/-- `lhd_io`, up to its loop. -/
def lhdIo (nsect : Nat) (t : ι) (uio : Uio) : LhdSystemM ι Unit :=
  let r : LhdRequest := { start := uio, uio, i := 0, reported := none, finished := [] }
  if uint32 (uio.uioOffset.tmod blockSize) ≠ 0 ∨ uio.uioResid % blockSize ≠ 0 then
    modify fun s => s.moveTo t (.returned r (some .einval))
  else if nsect < r.sector r.len then
    modify fun s => s.moveTo t (.returned r (some .einval))
  else
    modify fun s => s.moveTo t (.ready r)

/-- `if (uio->uio_rw == UIO_WRITE)`: the data goes to the buffer. -/
def lhdFill (t : ι) (r : LhdRequest) : LhdSystemM ι Unit := do
  let s ← get
  match r.uio.uioRw with
  | .read => modify fun s => s.moveTo t (.filled r)
  | .write =>
      match uiomove s.card.lhBuf.toBytes blockSize r.uio with
      | .error reason => halt reason
      | .ok (.error failure, uio) =>
          modify fun s => s.moveTo t (.refused { r with uio } failure)
      | .ok (.ok buf, uio) =>
          modify fun s => { s.moveTo t (.filled { r with uio }) with
            card := { s.card with lhBuf := Block.ofBytes buf } }

/-- `if (result==0 && uio->uio_rw==UIO_READ)`: the data comes from the buffer. -/
def lhdEmpty (t : ι) (r : LhdRequest) (result : Option Errno) : LhdSystemM ι Unit := do
  let s ← get
  match result, r.uio.uioRw with
  | none, .read =>
      match uiomove s.card.lhBuf.toBytes blockSize r.uio with
      | .error reason => halt reason
      | .ok (.error failure, uio) =>
          modify fun s => s.moveTo t (.emptied { r with uio } (some failure))
      | .ok (.ok _, uio) => modify fun s => s.moveTo t (.emptied { r with uio } none)
  | _, _ => modify fun s => s.moveTo t (.emptied r result)

/-- One step of `lhd_io`. -/
def lhdStep (t : ι) : LhdSystemM ι Unit := do
  let s ← get
  match s.phase t with
  | .idle | .returned _ _ => pure ()
  | .ready r =>
      if r.i < r.len then
        if s.lhClear = 0 then
          pure ()
        else
          modify fun s => { s.moveTo t (.clear r) with lhClear := s.lhClear - 1 }
      else
        modify fun s => s.moveTo t (.returned r none)
  | .clear r => lhdFill t r
  | .filled r =>
      modify fun s => { s.moveTo t (.aimed r) with
        card := { s.card with sect := r.sector r.i } }
  | .aimed r =>
      modify fun s => { s.moveTo t (.working { r with reported := none }) with
        card := { s.card with stat := .working (r.uio.uioRw == .write), owner := some t }
        overlaps := s.overlaps + match s.card.stat with
          | .idle => 0
          | _ => 1 }
  | .working r =>
      if s.card.lhDone = 0 then
        pure ()
      else
        modify fun s => { s.moveTo t (.over r) with
          card := { s.card with lhDone := s.card.lhDone - 1 } }
  | .over r => modify fun s => s.moveTo t (.fetched r s.card.lhResult)
  | .fetched r result => lhdEmpty t r result
  | .emptied r result => release t (.released r result)
  | .refused r failure => release t (.returned r (some failure))
  | .released r result =>
      match result with
      | some failure => modify fun s => s.moveTo t (.returned r (some failure))
      | none => modify fun s => s.moveTo t (.ready { r with i := r.i + 1 })

end LhdSystem

/-- What can happen: a call of `lhd_io`, a step of one, the end of an operation at the device, or
an interrupt, stray or not. -/
inductive LhdOp (ι : Type) where
  | io (t : ι) (uio : Uio)
  | run (t : ι)
  | complete (status : LhdStatus)
  | irq

namespace LhdOp

variable {ι : Type} [DecidableEq ι]

def exec (nsect : Nat) : LhdOp ι → LhdSystemM ι Unit
  | .io t uio => LhdSystem.lhdIo nsect t uio
  | .run t => LhdSystem.lhdStep t
  | .complete status => modify fun s => s.completes status
  | .irq => LhdSystem.lhdIrq

/-- A thread has one call at a time, with a `uio` of machine words; the device reports a status
while it works. -/
def Enabled (s : LhdSystem ι) : LhdOp ι → Prop
  | .io t uio => (s.phase t).atRest = true ∧ uio.Words
  | .run t => (s.phase t).atRest = false
  | .complete _ => ∃ isWrite, s.card.stat = .working isWrite
  | .irq => True

end LhdOp

namespace LhdSystem

def machine (ι : Type) [DecidableEq ι] (nsect : Nat) :
    Machine Panic (LhdSystem ι) Errno (LhdOp ι) Unit where
  exec := LhdOp.exec nsect
  Enabled := fun operation s => operation.Enabled s
  arm := fun s _ => s

/-- `config_lhd`; the disk and the buffer have any content. -/
structure Configured {ι : Type} (s : LhdSystem ι) : Prop where
  clear : s.lhClear = 1
  done : s.card.lhDone = 0
  stat : s.card.stat = .idle
  phase : ∀ t, s.phase t = .idle
  overlaps : s.overlaps = 0

/-! ## Requests -/

end LhdSystem

namespace LhdRequest

/-- The bytes of the caller that belong to a sector. -/
def chunk (r : LhdRequest) (i : Nat) : Block :=
  Block.ofBytes fun k => r.start.data (i * blockSize + k)

def joined (blocks : List (Nat × Block)) : Bytes :=
  fun k => (blocks[k / blockSize]?.map fun entry => entry.2.toBytes (k % blockSize)).getD 0

/-- The `uio` when so many sectors have been moved. -/
def uioAt (r : LhdRequest) (moved : Nat) : Uio :=
  match r.start.uioRw with
  | .write => r.start.advance (moved * blockSize)
  | .read =>
      (r.start.fill (moved * blockSize) (joined r.finished)).advance (moved * blockSize)

/-- So many sectors have been moved between the caller and the buffer, and so many transferred by
the device: one after the other from the first sector on, with the bytes of the caller. -/
structure Progress (r : LhdRequest) (moved transferred : Nat) : Prop where
  words : r.start.Words
  aligned : r.start.uioResid % blockSize = 0
  uio : r.uio = r.uioAt moved
  length : r.finished.length = transferred
  entries : ∀ (i : Nat) (entry : Nat × Block), r.finished[i]? = some entry →
    entry.1 = r.sector i ∧ (r.start.uioRw = .write → entry.2 = r.chunk i)

variable {r : LhdRequest} {moved transferred : Nat}

theorem uioRw_uioAt (r : LhdRequest) (moved : Nat) : (r.uioAt moved).uioRw = r.start.uioRw := by
  rw [uioAt]
  cases rw : r.start.uioRw <;> exact rw

theorem Progress.uioRw (progress : r.Progress moved transferred) : r.uio.uioRw = r.start.uioRw := by
  rw [progress.uio, uioRw_uioAt]

theorem uioResid_uioAt (r : LhdRequest) (moved : Nat) :
    (r.uioAt moved).uioResid = r.start.uioResid - moved * blockSize := by
  rw [uioAt]
  cases r.start.uioRw <;> rfl

theorem uioAt_words (words : r.start.Words) (moved : Nat) : (r.uioAt moved).Words := by
  refine ⟨?_, ?_, ?_⟩
  · rw [uioResid_uioAt]
    exact lt_of_le_of_lt (Nat.sub_le _ _) words.resid_lt
  · rw [uioAt]
    cases r.start.uioRw <;> exact le_int32 _
  · rw [uioAt]
    cases r.start.uioRw <;> exact int32_lt _

theorem uioAt_zero (words : r.start.Words) : r.uioAt 0 = r.start := by
  have same : r.start.advance 0 = r.start := by
    have offset : int32 (r.start.uioOffset + (0 : Nat)) = r.start.uioOffset := by
      rw [Int.natCast_zero, Int.add_zero, int32_eq words.le_offset words.offset_lt]
    rw [Uio.advance, offset]
    rfl
  rw [uioAt]
  cases r.start.uioRw with
  | write => rw [Nat.zero_mul, same]
  | read => rw [Nat.zero_mul, Uio.fill_zero, same]

theorem le_uioResid (aligned : r.start.uioResid % blockSize = 0) (more : moved < r.len) :
    blockSize ≤ (r.uioAt moved).uioResid := by
  rw [uioResid_uioAt]
  simp only [len, blockSize] at aligned more ⊢
  omega

variable {entry : Nat × Block}

theorem joined_start {blocks : List (Nat × Block)} {k : Nat}
    (inside : k < blocks.length * blockSize) : joined (blocks ++ [entry]) k = joined blocks k := by
  rw [joined, joined, List.getElem?_append_left (Nat.div_lt_of_lt_mul (by rwa [Nat.mul_comm]))]

theorem joined_at {blocks : List (Nat × Block)} {i k : Nat} (present : blocks[i]? = some entry)
    (inside : k < blockSize) : joined blocks (i * blockSize + k) = entry.2.toBytes k := by
  have quotient : (i * blockSize + k) / blockSize = i := by
    simp only [blockSize] at inside ⊢
    omega
  have remainder : (i * blockSize + k) % blockSize = k := by
    simp only [blockSize] at inside ⊢
    omega
  rw [joined, quotient, remainder, present]
  rfl

theorem Progress.uiomove (progress : r.Progress moved transferred) (more : moved < r.len)
    (buf : Bytes) :
    Ensures (uiomove buf blockSize) r.uio (fun _ => True) (fun _ _ => True)
      (fun bytes uio => ∃ between, r.uio.Moved blockSize buf bytes between ∧
        uio = between.advance blockSize) := by
  apply Uio.uiomove_returns
  · rw [progress.uio]
    exact uioAt_words progress.words moved
  · rw [progress.uio]
    exact le_uioResid progress.aligned more

theorem Progress.fill (progress : r.Progress moved transferred) (more : moved < r.len)
    (writing : r.start.uioRw = .write) (buf : Block) :
    Ensures (Os161.uiomove buf.toBytes blockSize) r.uio (fun _ => True) (fun _ _ => True)
      (fun bytes uio => Block.ofBytes bytes = r.chunk moved ∧
        { r with uio }.Progress (moved + 1) transferred) := by
  apply (progress.uiomove more buf.toBytes).imp
  rintro bytes uio ⟨between, ⟨_, rfl, rfl⟩ | ⟨reading, _⟩, rfl⟩
  · have isUio : r.uio = r.start.advance (moved * blockSize) := by
      rw [progress.uio, uioAt, writing]
    refine ⟨?_, progress.words, progress.aligned, ?_, progress.length, progress.entries⟩
    · apply Block.ofBytes_congr
      intro k inside
      rw [isUio, Uio.data_advance, Bytes.overlay, if_pos (by omega), Nat.sub_zero]
    · change r.uio.advance blockSize = r.uioAt (moved + 1)
      rw [isUio, Uio.advance_advance, uioAt, writing, Nat.succ_mul]
  · rw [progress.uioRw, writing] at reading
    cases reading

theorem Progress.empty (progress : r.Progress moved (moved + 1)) (more : moved < r.len)
    (reading : r.start.uioRw = .read) (last : r.finished[moved]? = some entry) :
    Ensures (Os161.uiomove entry.2.toBytes blockSize) r.uio (fun _ => True) (fun _ _ => True)
      (fun _ uio => { r with uio }.Progress (moved + 1) (moved + 1)) := by
  apply (progress.uiomove more entry.2.toBytes).imp
  rintro bytes uio ⟨between, ⟨writing, _⟩ | ⟨_, _, rfl⟩, rfl⟩
  · rw [progress.uioRw, reading] at writing
    cases writing
  · refine ⟨progress.words, progress.aligned, ?_, progress.length, progress.entries⟩
    change (r.uio.fill blockSize entry.2.toBytes).advance blockSize = r.uioAt (moved + 1)
    have isUio : r.uio = (r.start.fill (moved * blockSize) (joined r.finished)).advance
        (moved * blockSize) := by
      rw [progress.uio, uioAt, reading]
    have joins : ∀ k < moved * blockSize + blockSize,
        (joined r.finished).append (moved * blockSize) entry.2.toBytes k = joined r.finished k := by
      intro k inside
      rw [Bytes.append]
      split
      · rfl
      · rw [← joined_at last (by omega), Nat.add_sub_cancel' (by omega)]
    rw [isUio, Uio.fill_advance_fill, Uio.advance_advance, uioAt, reading, Nat.succ_mul,
      Uio.fill_congr _ joins]

theorem ahead_eq_zero (reading : r.start.uioRw = .read) : r.ahead = 0 := by
  rw [ahead, reading]

theorem ahead_eq_one (writing : r.start.uioRw = .write) : r.ahead = 1 := by
  rw [ahead, writing]

theorem Progress.transfer (progress : r.Progress (transferred + r.ahead) transferred)
    {block : Block} (data : r.start.uioRw = .write → block = r.chunk transferred)
    (reported : Option LhdStatus) :
    { r with
      reported
      finished := r.finished ++ [(r.sector transferred, block)] }.Progress
        (transferred + r.ahead) (transferred + 1) := by
  refine ⟨progress.words, progress.aligned, ?_, ?_, ?_⟩
  · change r.uio = uioAt _ (transferred + r.ahead)
    rw [progress.uio, uioAt, uioAt]
    dsimp only
    cases rw : r.start.uioRw with
    | write => rfl
    | read =>
        have same : ∀ k < (transferred + r.ahead) * blockSize, joined r.finished k =
            joined (r.finished ++ [(r.sector transferred, block)]) k := by
          intro k early
          rw [ahead_eq_zero rw, Nat.add_zero, ← progress.length] at early
          exact (joined_start early).symm
        dsimp only
        rw [Uio.fill_congr _ same]
  · simp [progress.length]
  · intro i entry present
    rw [List.getElem?_append] at present
    split at present
    · exact progress.entries i entry present
    · rename_i late
      have last : i = transferred := by
        have inside := List.getElem?_eq_some_iff.mp present
        rcases inside with ⟨inside, _⟩
        simp only [List.length_singleton, progress.length] at inside late
        omega
      subst last
      rw [progress.length, Nat.sub_self] at present
      cases present
      exact ⟨rfl, data⟩

/-- The request is for the sectors from the first one on, each once and in order, with the bytes
of the caller; what was read is in the memory of the caller. -/
structure Transferred (r : LhdRequest) : Prop where
  sectors : r.finished.map Prod.fst = (List.range r.len).map r.sector
  written : r.start.uioRw = .write → r.finished.map Prod.snd = (List.range r.len).map r.chunk
  delivered : r.start.uioRw = .read → ∀ i entry, r.finished[i]? = some entry →
    ∀ k < blockSize, r.uio.mem.load r.start.uioSegflg (r.start.iovBase + (i * blockSize + k)) =
      entry.2.toBytes k

theorem Progress.map_eq {α : Type} (progress : r.Progress moved transferred)
    {part : Nat × Block → α} {expected : Nat → α}
    (same : ∀ i entry, r.finished[i]? = some entry → part entry = expected i) :
    r.finished.map part = (List.range transferred).map expected := by
  apply List.ext_getElem?
  intro i
  rw [List.getElem?_map, List.getElem?_map]
  by_cases inside : i < transferred
  · rcases List.getElem?_eq_some_iff.mpr ⟨progress.length ▸ inside, rfl⟩ with present
    rw [present, List.getElem?_range inside]
    exact congrArg some (same i _ present)
  · rw [List.getElem?_eq_none (by rw [progress.length]; omega),
      List.getElem?_eq_none (by rw [List.length_range]; omega)]
    rfl

theorem Progress.complete (progress : r.Progress r.len r.len) : r.Transferred where
  sectors := progress.map_eq fun i entry present => (progress.entries i entry present).1
  written := fun writing =>
    progress.map_eq fun i entry present => (progress.entries i entry present).2 writing
  delivered := by
    intro reading i entry present k inside
    have early : i < r.len := by
      rw [← progress.length]
      exact (List.getElem?_eq_some_iff.mp present).1
    have within : i * blockSize + k < r.len * blockSize := by
      have next : (i + 1) * blockSize ≤ r.len * blockSize := Nat.mul_le_mul_right _ early
      rw [Nat.succ_mul] at next
      omega
    have isUio := progress.uio
    rw [uioAt, reading] at isUio
    have isMem : r.uio.mem = r.start.mem.store r.start.uioSegflg r.start.iovBase
        (r.len * blockSize) (joined r.finished) := by
      rw [isUio]
      rfl
    rw [isMem, Memory.load_store, if_pos (by omega), Nat.add_sub_cancel_left,
      joined_at present inside]

end LhdRequest

/-! ## The invariant -/

namespace LhdCard

variable {ι : Type}

/-- No operation is going on, and the result of the last one has been taken. -/
def Quiet (card : LhdCard ι) : Prop :=
  card.stat = .idle ∧ card.lhDone = 0

def Loaded (card : LhdCard ι) (r : LhdRequest) : Prop :=
  r.start.uioRw = .write → card.lhBuf = r.chunk r.i

/-- The device has carried out the operation of the request; what it read is in the buffer. -/
def Completed (card : LhdCard ι) (r : LhdRequest) (status : LhdStatus) : Prop :=
  status = .ok → r.Progress (r.i + r.ahead) (r.i + 1) ∧
    (r.start.uioRw = .read → ∃ entry, r.finished[r.i]? = some entry ∧ entry.2 = card.lhBuf)

inductive Working (card : LhdCard ι) (r : LhdRequest) : Prop where
  | started (isWrite : Bool) (stat : card.stat = .working isWrite) (done : card.lhDone = 0)
      (kind : isWrite = true ↔ r.start.uioRw = .write) (sect : card.sect = r.sector r.i)
      (progress : r.Progress (r.i + r.ahead) r.i) (loaded : card.Loaded r)
  | reported (status : LhdStatus) (isWrite : Bool) (stat : card.stat = .over status isWrite)
      (done : card.lhDone = 0) (own : r.reported = some status)
      (completed : card.Completed r status)
  | acknowledged (status : LhdStatus) (stat : card.stat = .idle) (done : card.lhDone = 1)
      (own : r.reported = some status) (result : card.lhResult = lhdCodeToErrno status)
      (completed : card.Completed r status)

end LhdCard

def LhdPhase.Okay {ι : Type} (card : LhdCard ι) (t : ι) : LhdPhase → Prop
  | .idle => True
  | .ready r => r.i ≤ r.len ∧ r.Progress r.i r.i
  | .clear r => card.Quiet ∧ r.i < r.len ∧ r.Progress r.i r.i
  | .filled r => card.Quiet ∧ r.i < r.len ∧ r.Progress (r.i + r.ahead) r.i ∧ card.Loaded r
  | .aimed r => card.Quiet ∧ r.i < r.len ∧ r.Progress (r.i + r.ahead) r.i ∧ card.Loaded r ∧
      card.sect = r.sector r.i
  | .working r => card.owner = some t ∧ r.i < r.len ∧ card.Working r
  | .over r => card.Quiet ∧ r.i < r.len ∧ ∃ status, r.reported = some status ∧
      card.lhResult = lhdCodeToErrno status ∧ card.Completed r status
  | .fetched r result => card.Quiet ∧ r.i < r.len ∧ ∃ status, r.reported = some status ∧
      result = lhdCodeToErrno status ∧ card.Completed r status
  | .emptied r result => card.Quiet ∧ r.i < r.len ∧ (result = none → r.Progress (r.i + 1) (r.i + 1))
  | .refused _ _ => card.Quiet
  | .released r result => r.i < r.len ∧ (result = none → r.Progress (r.i + 1) (r.i + 1))
  | .returned r result => result = none → r.Progress r.len r.len

theorem LhdPhase.Okay.outside {ι : Type} {card card' : LhdCard ι} {t : ι} {phase : LhdPhase}
    (okay : phase.Okay card t) (isOutside : phase.inside = false) : phase.Okay card' t := by
  cases phase <;> first | exact okay | cases isOutside

/-- Inside the card is quiet but while its thread waits for it. -/
theorem LhdPhase.Okay.quiet {ι : Type} {card : LhdCard ι} {t : ι} {phase : LhdPhase}
    (okay : phase.Okay card t) (isInside : phase.inside = true) :
    card.Quiet ∨ ∃ r, phase = .working r := by
  cases phase with
  | idle | ready r | released r result | returned r result => cases isInside
  | working r => exact Or.inr ⟨r, rfl⟩
  | refused r failure => exact Or.inl okay
  | _ => exact Or.inl okay.1

namespace LhdSystem

theorem okay_update {ι : Type} [DecidableEq ι] {t : ι} {phase : LhdPhase} {card : LhdCard ι}
    {phases : ι → LhdPhase} (okay : phase.Okay card t)
    (others : ∀ u, u ≠ t → (phases u).Okay card u) (u : ι) :
    (Function.update phases t phase u).Okay card u := by
  by_cases same : u = t
  · subst same
    rwa [update_self]
  · rw [update_of_ne same]
    exact others u same

section Invariant

variable {ι : Type} [Fintype ι] {s next : LhdSystem ι} {t : ι} {phase : LhdPhase}

/-- One thread at most has the card, every thread finds it as its place demands, and no operation
was started on top of another. -/
structure Inv (s : LhdSystem ι) : Prop where
  conserved : s.lhClear + tally s.phase LhdPhase.inside = 1
  quiet : s.lhClear = 1 → s.card.Quiet
  okay : ∀ t, (s.phase t).Okay s.card t
  overlaps : s.overlaps = 0

theorem Configured.inv (configured : s.Configured) : s.Inv := by
  have nobody : tally s.phase LhdPhase.inside = 0 := by
    apply tally_eq_zero
    intro t
    rw [configured.phase t]
    rfl
  refine ⟨?_, fun _ => ⟨configured.stat, configured.done⟩, ?_, configured.overlaps⟩
  · rw [configured.clear, nobody]
  · intro t
    rw [configured.phase t]
    trivial

theorem Inv.okayAt (inv : s.Inv) (place : s.phase t = phase) : phase.Okay s.card t :=
  place ▸ inv.okay t

theorem Inv.taken (inv : s.Inv) (inside : (s.phase t).inside = true) : s.lhClear = 0 := by
  have conserved := inv.conserved
  have there := tally_pos inside
  omega

theorem Inv.alone (inv : s.Inv) (inside : (s.phase t).inside = true) {u : ι} (other : u ≠ t) :
    (s.phase u).inside = false := by
  have conserved := inv.conserved
  rw [← Bool.not_eq_true]
  intro there
  exact other (eq_of_tally_le_one (by omega) there inside)

/-- While the device is not idle, or a result is waiting, a thread is in `P(lh->lh_done)`. -/
theorem Inv.busy (inv : s.Inv) (notQuiet : ¬s.card.Quiet) :
    ∃ t r, s.phase t = .working r ∧ s.card.owner = some t ∧ r.i < r.len ∧ s.card.Working r := by
  have conserved := inv.conserved
  have taken : s.lhClear ≠ 1 := fun free => notQuiet (inv.quiet free)
  rcases exists_of_tally_pos (by omega : 0 < tally s.phase LhdPhase.inside) with ⟨t, inside⟩
  rcases (inv.okay t).quiet inside with quiet | ⟨r, place⟩
  · exact absurd quiet notQuiet
  · exact ⟨t, r, place, inv.okayAt place⟩

theorem Inv.lhDone_le (inv : s.Inv) : s.card.lhDone ≤ 1 := by
  by_cases quiet : s.card.Quiet
  · rw [quiet.2]
    exact Nat.zero_le 1
  · rcases inv.busy quiet with ⟨_, _, _, _, _, working⟩
    cases working with
    | started _ _ done => rw [done]; exact Nat.zero_le 1
    | reported _ _ _ done => rw [done]; exact Nat.zero_le 1
    | acknowledged _ _ done => exact le_of_eq done

variable [DecidableEq ι] {old : LhdPhase}

theorem Inv.outside (inv : s.Inv) (isNext : next = s.moveTo t phase) (place : s.phase t = old)
    (before : old.inside = false) (after : phase.inside = false)
    (okay : phase.Okay s.card t) : next.Inv := by
  subst isNext place
  refine ⟨?_, inv.quiet, okay_update okay fun u _ => inv.okay u, inv.overlaps⟩
  have moved := tally_move s.phase LhdPhase.inside t phase
  have conserved := inv.conserved
  rw [before, after] at moved
  simp only [moveTo]
  omega

theorem Inv.inside (inv : s.Inv) (clear : next.lhClear = s.lhClear)
    (isPhase : next.phase = Function.update s.phase t phase) (overlaps : next.overlaps = 0)
    (place : s.phase t = old) (before : old.inside = true) (after : phase.inside = true)
    (okay : phase.Okay next.card t) : next.Inv := by
  subst place
  refine ⟨?_, fun free => ?_, ?_, overlaps⟩
  · have moved := tally_move s.phase LhdPhase.inside t phase
    have conserved := inv.conserved
    rw [before, after] at moved
    rw [clear, isPhase]
    omega
  · rw [clear, inv.taken before] at free
    cases free
  · rw [isPhase]
    exact okay_update okay fun u same => (inv.okay u).outside (inv.alone before same)

theorem Inv.enter (inv : s.Inv) (positive : s.lhClear ≠ 0) (place : s.phase t = old)
    (before : old.inside = false) (after : phase.inside = true)
    (okay : s.card.Quiet → phase.Okay s.card t) :
    Inv { s.moveTo t phase with lhClear := s.lhClear - 1 } := by
  subst place
  have conserved := inv.conserved
  have free : s.lhClear = 1 := by omega
  refine ⟨?_, fun _ => inv.quiet free, ?_, inv.overlaps⟩
  · have moved := tally_move s.phase LhdPhase.inside t phase
    rw [before, after, Bool.toNat_false, Bool.toNat_true] at moved
    simp only [moveTo, free] at conserved ⊢
    omega
  · exact okay_update (okay (inv.quiet free)) fun u _ => inv.okay u

theorem Inv.leave (inv : s.Inv) (place : s.phase t = old) (before : old.inside = true)
    (after : phase.inside = false) (quiet : s.card.Quiet) (okay : phase.Okay s.card t) :
    Ensures (release t phase) s (fun _ => False) (fun _ _ => False) (fun _ s' => s'.Inv) := by
  subst place
  have taken := inv.taken before
  rw [release, ensures_bind, ensures_get]
  refine ensures_assert_then (fun overflow => ?_) fun _ => ?_
  · rw [taken, int32_eq (by decide) (by decide)] at overflow
    exact overflow (by decide)
  · refine ⟨?_, fun _ => quiet, okay_update okay fun u _ => inv.okay u, inv.overlaps⟩
    have moved := tally_move s.phase LhdPhase.inside t phase
    have conserved := inv.conserved
    rw [before, after, Bool.toNat_true, Bool.toNat_false] at moved
    simp only [moveTo]
    omega

/-! ## The steps -/

/-- The invariant after a program that may also panic, which a `uio` without its buffer does. -/
abbrev Keeps (program : LhdSystemM ι Unit) (s : LhdSystem ι) : Prop :=
  Prog.Ensures program s (fun _ => True) (fun _ => Inv) (fun _ => Inv)

theorem Inv.lhdIo (inv : s.Inv) (nsect : Nat) {uio : Uio} (atRest : (s.phase t).atRest = true)
    (words : uio.Words) : Keeps (LhdSystem.lhdIo nsect t uio) s := by
  have before : (s.phase t).inside = false := by
    cases place : s.phase t <;> first | rfl | (rw [place] at atRest; cases atRest)
  rw [Keeps, LhdSystem.lhdIo]
  apply ensures_branch
  · exact fun _ => inv.outside rfl rfl before rfl nofun
  · intro aligned
    apply ensures_branch
    · exact fun _ => inv.outside rfl rfl before rfl nofun
    · intro _
      refine inv.outside rfl rfl before rfl ⟨Nat.zero_le _, words, ?_, ?_, rfl, nofun⟩
      · by_contra odd
        exact aligned (Or.inr odd)
      · exact (LhdRequest.uioAt_zero (r := ⟨uio, uio, 0, none, []⟩) words).symm

theorem Inv.lhdFill {r : LhdRequest} (inv : s.Inv) (place : s.phase t = .clear r) :
    Keeps (LhdSystem.lhdFill t r) s := by
  rcases inv.okayAt place with ⟨quiet, more, progress⟩
  rw [Keeps, LhdSystem.lhdFill, ensures_bind, ensures_get]
  cases rw : r.uio.uioRw with
  | read =>
      have reading : r.start.uioRw = .read := by rw [← progress.uioRw, rw]
      refine inv.inside rfl rfl inv.overlaps place rfl rfl ⟨quiet, more, ?_, ?_⟩
      · rw [LhdRequest.ahead_eq_zero reading]
        exact progress
      · intro writing
        rw [reading] at writing
        cases writing
  | write =>
      have writing : r.start.uioRw = .write := by rw [← progress.uioRw, rw]
      have fills := progress.fill more writing s.card.lhBuf
      rcases outcome : uiomove s.card.lhBuf.toBytes blockSize r.uio with
        reason | ⟨failure | buf, uio⟩
      · simp only
        trivial
      · simp only
        exact inv.inside rfl rfl inv.overlaps place rfl rfl quiet
      · rcases (ensures_of_ok_eq outcome).mp fills with ⟨isChunk, progress'⟩
        simp only
        refine inv.inside rfl rfl inv.overlaps place rfl rfl ⟨quiet, more, ?_, fun _ => isChunk⟩
        change LhdRequest.Progress { r with uio } (r.i + r.ahead) r.i
        rw [LhdRequest.ahead_eq_one writing]
        exact progress'

theorem Inv.lhdEmpty {r : LhdRequest} {result : Option Errno} (inv : s.Inv)
    (place : s.phase t = .fetched r result) : Keeps (LhdSystem.lhdEmpty t r result) s := by
  rcases inv.okayAt place with ⟨quiet, more, status, own, isResult, completed⟩
  rw [Keeps, LhdSystem.lhdEmpty, ensures_bind, ensures_get]
  cases result with
  | some failure =>
      exact inv.inside rfl rfl inv.overlaps place rfl rfl ⟨quiet, more, nofun⟩
  | none =>
      have ok : status = .ok := by
        cases status <;> first | rfl | cases isResult
      rcases completed ok with ⟨progress, buffer⟩
      cases rw : r.uio.uioRw with
      | write =>
          have writing : r.start.uioRw = .write := by rw [← progress.uioRw, rw]
          refine inv.inside rfl rfl inv.overlaps place rfl rfl ⟨quiet, more, fun _ => ?_⟩
          rw [LhdRequest.ahead_eq_one writing] at progress
          exact progress
      | read =>
          have reading : r.start.uioRw = .read := by rw [← progress.uioRw, rw]
          rw [LhdRequest.ahead_eq_zero reading] at progress
          rcases buffer reading with ⟨entry, last, isBuf⟩
          have empties := progress.empty more reading last
          rw [isBuf] at empties
          rcases outcome : uiomove s.card.lhBuf.toBytes blockSize r.uio with
            reason | ⟨failure | buf, uio⟩
          · simp only
            trivial
          · simp only
            exact inv.inside rfl rfl inv.overlaps place rfl rfl ⟨quiet, more, nofun⟩
          · simp only
            exact inv.inside rfl rfl inv.overlaps place rfl rfl
              ⟨quiet, more, fun _ => (ensures_of_ok_eq outcome).mp empties⟩

theorem Inv.lhdStep (inv : s.Inv) (t : ι) : Keeps (LhdSystem.lhdStep t) s := by
  rw [Keeps, LhdSystem.lhdStep, ensures_bind, ensures_get]
  cases place : s.phase t with
  | idle => exact inv
  | returned r result => exact inv
  | ready r =>
      have okay := inv.okayAt place
      apply ensures_branch
      · intro more
        apply ensures_branch
        · exact fun _ => inv
        · exact fun positive => inv.enter positive place rfl rfl fun quiet => ⟨quiet, more, okay.2⟩
      · intro last
        have isLen : r.i = r.len := le_antisymm okay.1 (Nat.le_of_not_lt last)
        refine inv.outside rfl place rfl rfl fun _ => ?_
        rw [← isLen]
        exact okay.2
  | clear r => exact inv.lhdFill place
  | filled r =>
      rcases inv.okayAt place with ⟨quiet, more, progress, loaded⟩
      exact inv.inside rfl rfl inv.overlaps place rfl rfl ⟨quiet, more, progress, loaded, rfl⟩
  | aimed r =>
      rcases inv.okayAt place with ⟨quiet, more, progress, loaded, sect⟩
      refine inv.inside rfl rfl ?_ place rfl rfl ⟨rfl, more, ?_⟩
      · simp only [inv.overlaps, quiet.1]
      · refine .started (r.uio.uioRw == .write) rfl quiet.2 ?_ sect ?_ loaded
        · rw [progress.uioRw, beq_iff_eq]
        · exact ⟨progress.words, progress.aligned, progress.uio, progress.length, progress.entries⟩
  | working r =>
      rcases inv.okayAt place with ⟨_, more, working⟩
      apply ensures_branch
      · exact fun _ => inv
      · intro positive
        cases working with
        | started isWrite _ done => exact absurd done positive
        | reported status isWrite _ done => exact absurd done positive
        | acknowledged status stat done own result completed =>
            have none : s.card.lhDone - 1 = 0 := by omega
            exact inv.inside rfl rfl inv.overlaps place rfl rfl
              ⟨⟨stat, none⟩, more, status, own, result, completed⟩
  | «over» r =>
      rcases inv.okayAt place with ⟨quiet, more, status, own, result, completed⟩
      exact inv.inside rfl rfl inv.overlaps place rfl rfl
        ⟨quiet, more, status, own, result, completed⟩
  | fetched r result => exact inv.lhdEmpty place
  | emptied r result =>
      rcases inv.okayAt place with ⟨quiet, more, progress⟩
      have okay : (LhdPhase.released r result).Okay s.card t := ⟨more, progress⟩
      exact (inv.leave place rfl rfl quiet okay).total fun _ _ kept => kept
  | refused r failure =>
      have failed : (LhdPhase.returned r (some failure)).Okay s.card t := nofun
      exact (inv.leave place rfl rfl (inv.okayAt place) failed).total fun _ _ kept => kept
  | released r result =>
      rcases inv.okayAt place with ⟨more, progress⟩
      cases result with
      | some failure => exact inv.outside rfl place rfl rfl nofun
      | none =>
          have progress := progress rfl
          exact inv.outside rfl place rfl rfl ⟨more, progress.words, progress.aligned, progress.uio,
            progress.length, progress.entries⟩

theorem Inv.completes (inv : s.Inv) (status : LhdStatus)
    (working : ∃ isWrite, s.card.stat = .working isWrite) : (s.completes status).Inv := by
  rcases working with ⟨isWrite, stat⟩
  have notQuiet : ¬s.card.Quiet := by
    rintro ⟨idle, _⟩
    rw [stat] at idle
    cases idle
  rcases inv.busy notQuiet with ⟨t, r, place, owner, more, working⟩
  cases working with
  | reported status' isWrite' stat' => rw [stat] at stat'; cases stat'
  | acknowledged status' stat' => rw [stat] at stat'; cases stat'
  | started isWrite' stat' done kind sect progress loaded =>
      rw [stat] at stat'
      cases stat'
      rw [LhdSystem.completes, stat, owner]
      simp only [place, LhdPhase.report]
      refine inv.inside rfl rfl inv.overlaps place rfl rfl ⟨owner, more, ?_⟩
      refine .reported status isWrite rfl done rfl ?_
      rintro rfl
      have data : r.start.uioRw = .write →
          (if LhdStatus.ok = .ok ∧ isWrite = false then s.sectors s.card.sect
            else s.card.lhBuf) = r.chunk r.i := by
        intro writing
        rw [if_neg (by simp [kind.mpr writing]), loaded writing]
      generalize (if LhdStatus.ok = .ok ∧ isWrite = false then s.sectors s.card.sect
        else s.card.lhBuf) = buf at data ⊢
      refine ⟨?_, fun _ => ⟨(s.card.sect, buf), ?_, rfl⟩⟩
      · simp only [if_true, sect]
        exact progress.transfer data _
      · simp only [if_true, ← progress.length, List.getElem?_concat_length]

theorem Inv.lhdIrq (inv : s.Inv) :
    Ensures LhdSystem.lhdIrq s (fun _ => False) (fun _ _ => False) (fun _ s' => s'.Inv) := by
  rw [LhdSystem.lhdIrq, ensures_bind, ensures_get]
  cases stat : s.card.stat with
  | idle => exact inv
  | working isWrite => exact inv
  | «over» status isWrite =>
      have notQuiet : ¬s.card.Quiet := by
        rintro ⟨idle, _⟩
        rw [stat] at idle
        cases idle
      rcases inv.busy notQuiet with ⟨t, r, place, owner, more, working⟩
      cases working with
      | started isWrite' stat' => rw [stat] at stat'; cases stat'
      | acknowledged status' stat' => rw [stat] at stat'; cases stat'
      | reported status' isWrite' stat' done own completed =>
          rw [stat] at stat'
          cases stat'
          refine ensures_assert_then (fun overflow => ?_) fun _ => ?_
          · rw [done, int32_eq (by decide) (by decide)] at overflow
            exact overflow (by decide)
          · have same : s.phase = Function.update s.phase t (.working r) := by
              rw [← place, update_eq_self]
            refine inv.inside rfl same inv.overlaps place rfl rfl ⟨owner, more, ?_⟩
            exact .acknowledged status rfl (congrArg (· + 1) done) own rfl completed

/-! ## Runs -/

theorem inv_of_reachable {nsect : Nat} (reachable : (machine ι nsect).Reachable Configured s) :
    s.Inv := by
  apply reachable.invariant
  · exact fun _ configured => configured.inv
  · rintro between operation ⟨⟩ _ enabled inv
    cases operation with
    | io t uio => exact inv.lhdIo nsect enabled.1 enabled.2
    | run t => exact inv.lhdStep t
    | complete status => exact inv.completes status enabled
    | irq => exact inv.lhdIrq.total fun _ _ kept => kept

/-- One operation is in progress at the device at most, one thread has the card or `lh_clear` has
its unit, `lh_done` has one unit at most, a thread that has read `lh_result` has the status of its
own operation, and a call that has succeeded has transferred its sectors. -/
theorem disk_protocol {nsect : Nat} (reachable : (machine ι nsect).Reachable Configured s) :
    s.overlaps = 0 ∧
    s.lhClear + tally s.phase LhdPhase.inside = 1 ∧
    s.card.lhDone ≤ 1 ∧
    (∀ t r result, s.phase t = .fetched r result →
      ∃ status, r.reported = some status ∧ result = lhdCodeToErrno status) ∧
    ∀ t r, s.phase t = .returned r none → r.Transferred := by
  have inv := inv_of_reachable reachable
  refine ⟨inv.overlaps, inv.conserved, inv.lhDone_le, ?_, ?_⟩
  · intro t r result place
    rcases inv.okayAt place with ⟨_, _, status, own, isResult, _⟩
    exact ⟨status, own, isResult⟩
  · intro t r place
    exact (inv.okayAt place rfl).complete

end Invariant

instance {ι : Type} [DecidableEq ι] (nsect : Nat) (operation : LhdOp ι) (s : LhdSystem ι) :
    Decidable ((machine ι nsect).Enabled operation s) :=
  match operation with
  | .io t uio =>
      decidable_of_iff ((s.phase t).atRest = true ∧ uio.uioResid < 2 ^ 32 ∧
        -2 ^ 31 ≤ uio.uioOffset ∧ uio.uioOffset < 2 ^ 31)
        ⟨fun ⟨atRest, resid, low, high⟩ => ⟨atRest, resid, low, high⟩,
          fun ⟨atRest, resid, low, high⟩ => ⟨atRest, resid, low, high⟩⟩
  | .run t => inferInstanceAs (Decidable ((s.phase t).atRest = false))
  | .complete _ =>
      match stat : s.card.stat with
      | .working isWrite => .isTrue ⟨isWrite, stat⟩
      | .idle => .isFalse fun ⟨_, working⟩ => by rw [stat] at working; cases working
      | .over _ _ => .isFalse fun ⟨_, working⟩ => by rw [stat] at working; cases working
  | .irq => inferInstanceAs (Decidable True)

def unused (ι : Type) : LhdSystem ι where
  lhClear := 1
  card :=
    { lhDone := 0, lhResult := none, lhBuf := Block.zero, sect := 0, stat := .idle, owner := none }
  sectors _ := Block.zero
  phase _ := .idle
  overlaps := 0

/-- One of two threads writes a sector. -/
theorem disk_protocol_write :
    ∃ s r, (machine (Fin 2) 8).Reachable Configured s ∧ s.phase 0 = .returned r none ∧
      r.finished.map Prod.fst = [3] ∧ r.Transferred := by
  have computed : (((machine (Fin 2) 8).execute (unused (Fin 2))
      [(.io 0 (mkKuio (fun _ => 7) 512 1536 .write), ()), (.run 0, ()), (.run 0, ()), (.run 0, ()),
        (.run 0, ()), (.complete .ok, ()), (.irq, ()), (.run 0, ()), (.run 0, ()), (.run 0, ()),
        (.run 0, ()), (.run 0, ()), (.run 0, ())]).any
        fun s => match s.phase 0 with
          | .returned r none => r.finished.map Prod.fst == [3]
          | _ => false) = true := by
    decide +kernel
  rcases (any_eq_true _ _).mp computed with ⟨s, executed, facts⟩
  have reachable : (machine (Fin 2) 8).Reachable Configured s :=
    Machine.Reachable.execute (Machine.Reachable.start ⟨rfl, rfl, rfl, fun _ => rfl, rfl⟩) executed
  split at facts
  · rename_i r place
    exact ⟨s, r, reachable, place, by simpa using facts,
      (disk_protocol reachable).2.2.2.2 0 r place⟩
  · cases facts

end LhdSystem

end Os161
