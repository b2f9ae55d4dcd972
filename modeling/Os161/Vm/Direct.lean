import Os161.Lib.Text
import Os161.Vm.Dumbvm

/-!
# Memory that the kernel uses directly

Some code of the kernel uses an address that it got from a process as it is. No `copyin`
stands between, and a fault is fatal. Below `USERTOP` such an access goes through if the
page is mapped and the TLB has it or has room for it.
-/

namespace Os161

open Text

/-- The pages of the process from `start` to `addr` for which the TLB needs another entry. -/
def tlbMisses (tlb : List Nat) (start addr : Nat) : Nat :=
  (List.range (addr / pageSize + 1 - start / pageSize)).countP fun i =>
    let page := (start / pageSize + i) % 2 ^ 20
    page < userTop / pageSize && !tlb.contains page

namespace Memory

/-- What the kernel finds at an address. Addresses are words. -/
def direct (mem : Memory) (addr : Nat) : UInt8 :=
  if addr % 2 ^ 32 < userTop then (mem.user (addr % 2 ^ 32)).getD 0 else mem.kernel (addr % 2 ^ 32)

/-- The kernel stores a 0. -/
def clear (mem : Memory) (addr : Nat) : Memory :=
  if addr % 2 ^ 32 < userTop then
    { mem with user := Function.update mem.user (addr % 2 ^ 32) (some 0) }
  else
    { mem with kernel := Function.update mem.kernel (addr % 2 ^ 32) 0 }

/-- The addresses at which the kernel does not fault when it goes through memory from `start` on.
`tlb` are the pages of the process that the TLB has when it begins. A fault on another page is
fatal when all entries are in use. -/
def directReach (mem : Memory) (reach : Nat → Bool) (tlb : List Nat) (start addr : Nat) : Bool :=
  if addr % 2 ^ 32 < userTop then
    (mem.user (addr % 2 ^ 32)).isSome && tlbMisses tlb start addr ≤ numTlb - tlb.length
  else
    reach (addr % 2 ^ 32)

def charAt (mem : Memory) (addr : Nat) : Char :=
  Char.ofNat (mem.direct addr).toNat

/-- At the address is a string that the kernel can read. -/
def IsText (mem : Memory) (reach : Nat → Bool) : (addr : Nat) → (text : List Char) → Prop
  | addr, [] => addr < 2 ^ 32 ∧ reach addr = true ∧ mem.charAt addr = nul
  | addr, c :: text => (addr < 2 ^ 32 ∧ reach addr = true ∧ mem.charAt addr = c ∧ c ≠ nul) ∧
      mem.IsText reach (addr + 1) text

variable {mem : Memory} {reach : Nat → Bool} {addr other : Nat} {text before rest : List Char}

theorem charAt_clear_self (mem : Memory) (addr : Nat) : (mem.clear addr).charAt addr = nul := by
  rw [charAt, direct, clear]
  generalize addr % 2 ^ 32 = word
  by_cases user : word < userTop <;> simp [user, nul]

theorem charAt_clear_of_ne (small : addr < 2 ^ 32) (small' : other < 2 ^ 32) (ne : other ≠ addr) :
    (mem.clear addr).charAt other = mem.charAt other := by
  rw [charAt, charAt, direct, direct, clear, Nat.mod_eq_of_lt small, Nat.mod_eq_of_lt small']
  by_cases user : addr < userTop <;> simp [user, ne]

theorem IsText.first (isText : mem.IsText reach addr text) :
    addr < 2 ^ 32 ∧ reach addr = true ∧ mem.charAt addr = text.headD nul := by
  cases text with
  | nil => exact isText
  | cons c text => exact ⟨isText.1.1, isText.1.2.1, isText.1.2.2.1⟩

theorem IsText.suffix (isText : mem.IsText reach addr (before ++ rest)) :
    mem.IsText reach (addr + before.length) rest := by
  induction before generalizing addr with
  | nil => exact isText
  | cons c before ih =>
      have later := ih isText.2
      rwa [Nat.add_assoc, Nat.add_comm 1] at later

theorem IsText.ne_nul {c : Char} (isText : mem.IsText reach addr text) (member : c ∈ text) :
    c ≠ nul := by
  induction text generalizing addr with
  | nil => cases member
  | cons d text ih =>
      rcases List.mem_cons.mp member with rfl | later
      · exact isText.1.2.2.2
      · exact ih isText.2 later

/-- A 0 before a text does not change it. -/
theorem IsText.clear (isText : mem.IsText reach addr text) (earlier : other < addr) :
    (mem.clear other).IsText reach addr text := by
  have same : (mem.clear other).charAt addr = mem.charAt addr :=
    charAt_clear_of_ne (earlier.trans isText.first.1) isText.first.1 earlier.ne'
  induction text generalizing addr with
  | nil => exact ⟨isText.1, isText.2.1, same.trans isText.2.2⟩
  | cons c text ih =>
      have later := isText.2.first.1
      refine ⟨⟨isText.1.1, isText.1.2.1, same.trans isText.1.2.2.1, isText.1.2.2.2⟩, ?_⟩
      exact ih isText.2 (by omega)
        (charAt_clear_of_ne (by omega) later (by omega))

/-- A 0 in a text ends it. -/
theorem IsText.cut (isText : mem.IsText reach addr (before ++ rest)) :
    (mem.clear (addr + before.length)).IsText reach addr before := by
  have last := isText.suffix.first
  induction before generalizing addr with
  | nil => exact ⟨last.1, last.2.1, charAt_clear_self mem addr⟩
  | cons c before ih =>
      have next : addr + (c :: before).length = addr + 1 + before.length := by
        rw [List.length_cons]
        omega
      rw [next] at last ⊢
      refine ⟨⟨isText.1.1, isText.1.2.1, ?_, isText.1.2.2.2⟩, ih isText.2 last⟩
      rw [charAt_clear_of_ne last.1 isText.1.1 (by omega)]
      exact isText.1.2.2.1

end Memory

/-! ## Loops over a string -/

/-- Code that has memory besides its state. -/
abbrev DirectM (φ : Type) := Prog Panic (φ × Memory) Errno

variable {φ : Type}

/-- A loop over the characters from an address on that ends where `stop` holds; the characters
before that. -/
def scanChars (reach : Nat → Bool) (stop : Char → Bool) : (fuel addr : Nat) → DirectM φ (List Char)
  | 0, _ => pure []
  | fuel + 1, addr => do
      assert .kernelFault (reach addr = true)
      let state ← get
      if stop (state.2.charAt addr) then
        pure []
      else
        let rest ← scanChars reach stop fuel (addr + 1)
        pure (state.2.charAt addr :: rest)

/-- There are no more turns than addresses. -/
def scanFrom (reach : Nat → Bool) (stop : Char → Bool) (addr : Nat) : DirectM φ (List Char) :=
  scanChars reach stop (2 ^ 32) addr

/-- The string at an address, as `strlen` goes through it. -/
def stringAt (reach : Nat → Bool) (addr : Nat) : DirectM φ (List Char) :=
  scanFrom reach (· = nul) addr

variable {mem : Memory} {reach : Nat → Bool} {stop : Char → Bool} {addr : Nat}
  {text before rest : List Char}

theorem scanChars_eq (isText : mem.IsText reach addr (before ++ rest))
    (runs : ∀ c ∈ before, stop c = false) (stops : stop (rest.headD nul) = true) {fuel : Nat}
    (enough : before.length < fuel) (fs : φ) :
    scanChars reach stop fuel addr (fs, mem) = .ok (.ok before, (fs, mem)) := by
  induction before generalizing addr fuel with
  | nil =>
      rcases isText.first with ⟨_, reaches, isChar⟩
      obtain ⟨fuel, rfl⟩ := Nat.exists_eq_add_one_of_ne_zero (Nat.ne_of_gt enough)
      have stopped : stop (mem.charAt addr) = true := isChar ▸ stops
      rw [scanChars, bind_of_ok (assert_of reaches _), bind_of_ok (get_apply _), if_pos stopped]
      rfl
  | cons c before ih =>
      rcases isText.1 with ⟨_, reaches, rfl, _⟩
      obtain ⟨fuel, rfl⟩ :=
        Nat.exists_eq_add_one_of_ne_zero (Nat.ne_of_gt (Nat.zero_lt_of_lt enough))
      have later := ih isText.2 (fun d member => runs d (List.mem_cons_of_mem _ member))
        (Nat.lt_of_succ_lt_succ enough)
      have goes := runs _ List.mem_cons_self
      rw [scanChars, bind_of_ok (assert_of reaches _), bind_of_ok (get_apply _),
        if_neg (by simp [goes]), bind_of_ok later]
      rfl

theorem scanFrom_eq (isText : mem.IsText reach addr (before ++ rest))
    (runs : ∀ c ∈ before, stop c = false) (stops : stop (rest.headD nul) = true) (fs : φ) :
    scanFrom reach stop addr (fs, mem) = .ok (.ok before, (fs, mem)) := by
  have bound := isText.suffix.first.1
  exact scanChars_eq isText runs stops (by omega) fs

theorem stringAt_eq (isText : mem.IsText reach addr text) (fs : φ) :
    stringAt reach addr (fs, mem) = .ok (.ok text, (fs, mem)) := by
  have whole : mem.IsText reach addr (text ++ []) := by rwa [List.append_nil]
  exact scanFrom_eq whole (fun c member => by simp [isText.ne_nul member]) rfl fs

end Os161
