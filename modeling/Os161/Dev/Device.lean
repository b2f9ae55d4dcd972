import Os161.Kern.Uio

/-!
# Block devices

A `Device` is `struct device` as sfs uses it: the number and size of its blocks
and the function `d_io`, a program over the state of the device and the `uio` of
the request. `Device.Works` says what a working device does with a request for
one block; everything proved about sfs on a working device rests on it, and the
driver of the disk is shown to be an instance.
-/

namespace Os161

/-- The size of a disk sector, and of a block of sfs. -/
def blockSize : Nat := 512

abbrev Block := Fin blockSize → UInt8

namespace Block

def zero : Block := fun _ => 0

def toBytes (block : Block) : Bytes :=
  fun k => if inside : k < blockSize then block ⟨k, inside⟩ else 0

def ofBytes (bytes : Bytes) : Block :=
  fun k => bytes k

theorem toBytes_ofBytes (bytes : Bytes) {k : Nat} (inside : k < blockSize) :
    (ofBytes bytes).toBytes k = bytes k := by
  rw [toBytes, dif_pos inside, ofBytes]

@[simp]
theorem ofBytes_toBytes (block : Block) : ofBytes block.toBytes = block := by
  funext k
  simp [ofBytes, toBytes]

@[simp]
theorem toBytes_zero : zero.toBytes = fun _ => 0 := by
  funext k
  simp [toBytes, zero]

theorem ofBytes_congr {first second : Bytes} (same : ∀ k < blockSize, first k = second k) :
    ofBytes first = ofBytes second :=
  funext fun k => same k k.isLt

end Block

structure Device (δ : Type) where
  dBlocks : Nat
  dIo : Prog Panic (δ × Uio) Errno Unit

variable {δ : Type}

/-- What has happened after a request for one block. -/
def Transferred (content : δ → Nat → Block) (block : Nat) (before after : δ × Uio) : Prop :=
  (before.2.uioRw = .write ∧
      content after.1 = Function.update (content before.1) block (Block.ofBytes before.2.data) ∧
      after.2 = before.2.advance blockSize) ∨
    (before.2.uioRw = .read ∧ content after.1 = content before.1 ∧
      after.2 = (before.2.fill blockSize (content before.1 block).toBytes).advance blockSize)

/-- The device does what it is asked for; `content` reads off its blocks. -/
structure Device.Works (dev : Device δ) (content : δ → Nat → Block) : Prop where
  transfers : ∀ (d : δ) (uio : Uio) (block : Nat), block < dev.dBlocks →
    uio.uioOffset = block * blockSize → uio.uioResid = blockSize → uio.Fits blockSize →
    Prog.Ensures dev.dIo (d, uio) (fun _ => False)
      (fun failure after => failure = .efault ∧ ¬uio.Accessible blockSize ∧
        content after.1 = content d ∧ ∃ mem, after.2 = uio.setMem mem)
      (fun _ after => uio.Accessible blockSize ∧ Transferred content block (d, uio) after)

/-- The device does what it is asked for, or refuses it and leaves everything as it is. Only
requests for the blocks in `faults` are refused. -/
structure Device.Obeys (dev : Device δ) (content : δ → Nat → Block) (faults : Nat → Prop) :
    Prop where
  transfers : ∀ (d : δ) (uio : Uio) (block : Nat), block < dev.dBlocks →
    uio.uioOffset = block * blockSize → uio.uioResid = blockSize → uio.Fits blockSize →
    Prog.Ensures dev.dIo (d, uio) (fun _ => False)
      (fun failure after => content after.1 = content d ∧
        (failure = .efault ∧ ¬uio.Accessible blockSize ∧ (∃ mem, after.2 = uio.setMem mem) ∨
          failure ≠ .einval ∧ faults block ∧ after.2 = uio))
      (fun _ after => uio.Accessible blockSize ∧ Transferred content block (d, uio) after)

theorem Device.Works.obeys {dev : Device δ} {content : δ → Nat → Block} (works : dev.Works content)
    (faults : Nat → Prop) : dev.Obeys content faults where
  transfers := by
    intro d uio block inside offsetEq resid fits
    apply (works.transfers d uio block inside offsetEq resid fits).answers
    · rintro failure after ⟨efault, refused, contentEq, stopped⟩
      exact ⟨contentEq, Or.inl ⟨efault, refused, stopped⟩⟩
    · exact fun _ _ transferred => transferred

end Os161
