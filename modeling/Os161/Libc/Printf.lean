import Os161.Kern.Base
import Os161.Lib.Numeral
import Os161.Lib.Prog

/-!
# `__vprintf`

`lib/libc/__printf.c`. A format is sent character by character to a state machine, which
hands its output in small pieces to a function of the caller. Arguments are words of 32
bits; the memory behind the pointers that `%s` gets is the parameter `strings`.

The pieces do not depend on who receives them, and a receiver that keeps all of them
(`record`) gets the text that is printed. With this receiver each function here is the
same as appending one text (`emit`).
-/

namespace Os161

open Prog List

namespace Printf

inductive Size where
  | intsz
  | longsz
  deriving DecidableEq, Repr

/-- The arguments that were not fetched yet. -/
abbrev VaList := Nat → BitVec 32

/-- `PF`, without the receiver. -/
structure Pf where
  ap : VaList
  charcount : Int
  inPct : Bool
  size : Size
  num : BitVec 32
  sign : Int
  spacing : Int
  rightspc : Bool
  fillchar : Char
  base : Nat
  baseprefixed : Bool
  altformat : Bool

/-- Code that prints; `σ` is what the receiver keeps. -/
abbrev PfM (σ : Type) := Prog Panic (σ × Pf) Errno

def update {σ : Type} (change : Pf → Pf) : PfM σ Unit :=
  modify fun s => (s.1, change s.2)

/-- `__pf_endfield`. -/
def Pf.endfield (pf : Pf) : Pf :=
  { pf with
    inPct := false
    size := .intsz
    num := 0
    sign := 0
    spacing := 0
    rightspc := false
    fillchar := ' '
    base := 0
    baseprefixed := false
    altformat := false }

section Functions

variable {σ : Type} (sendfunc : σ → List Char → σ)

/-- `__pf_print`. -/
def pfPrint (txt : List Char) : PfM σ Unit :=
  modify fun s =>
    (sendfunc s.1 txt, { s.2 with charcount := int32 (s.2.charcount + txt.length) })

def pfEndfield : PfM σ Unit :=
  update Pf.endfield

/-- `__pf_modifier`. -/
def pfModifier (ch : Char) : PfM σ Unit :=
  if ch = '#' then
    update fun pf => { pf with altformat := true }
  else if ch = '-' then
    update fun pf => { pf with rightspc := true }
  else if ch = 'l' ∨ ch = 'q' then
    update fun pf => { pf with size := .longsz }
  else if ch = '0' then
    update fun pf =>
      if 0 < pf.spacing then
        { pf with spacing := int32 (pf.spacing * 10) }
      else
        { pf with fillchar := '0' }
  else do
    assert .pfModifierDigit ('0' < ch ∧ ch ≤ '9')
    update fun pf => { pf with spacing := int32 (pf.spacing * 10 + (ch.toNat - '0'.toNat)) }

/-- `va_arg`. -/
def vaArg : PfM σ (BitVec 32) := do
  let s ← get
  update fun pf => { pf with ap := fun n => pf.ap (n + 1) }
  pure (s.2.ap 0)

/-- `va_arg` for an integer of the size of the field; `int` and `long` are both one word. -/
def vaInteger : PfM σ (BitVec 32) := do
  let s ← get
  match s.2.size with
  | .intsz => vaArg
  | .longsz => vaArg

/-- `__pf_getnum`. -/
def pfGetnum (ch : Char) : PfM σ Unit :=
  if ch = 'p' then do
    let pointer ← vaArg
    update fun pf => { pf with num := pointer }
  else if ch = 'd' then do
    let signednum ← vaInteger
    if signednum.toInt < 0 then
      update fun pf => { pf with sign := -1, num := -signednum }
    else
      update fun pf => { pf with num := signednum }
  else do
    let unsignednum ← vaInteger
    update fun pf => { pf with num := unsignednum }

/-- `__pf_setbase`. -/
def Pf.setbase (ch : Char) (pf : Pf) : Pf :=
  { pf with
    base :=
      if ch = 'd' ∨ ch = 'u' then 10
      else if ch = 'x' ∨ ch = 'p' then 16
      else if ch = 'o' then 8
      else pf.base
    baseprefixed := if pf.altformat ∨ ch = 'p' then true else pf.baseprefixed }

/-- The loop of `__pf_fill`. -/
def fillLoop (f : Char) : Nat → PfM σ Unit
  | 0 => pure ()
  | spc + 1 => do
      pfPrint sendfunc [f]
      fillLoop f spc

/-- `__pf_fill`. -/
def pfFill (spc : Int) : PfM σ Unit := do
  let s ← get
  fillLoop sendfunc s.2.fillchar spc.toNat

/-- The amount of padding for a text of the length `len`. -/
def Pf.padding (pf : Pf) (len : Nat) : Int :=
  if int32 len < pf.spacing then int32 (pf.spacing - int32 len) else 0

/-- `__pf_printstuff`, with its two prefixes. -/
def pfPrintstuff (lead lead2 stuff : List Char) : PfM σ Unit := do
  let s ← get
  let spc := s.2.padding (lead.length + lead2.length + stuff.length)
  if 0 < spc ∧ s.2.rightspc = false ∧ s.2.fillchar ≠ '0' then
    pfFill sendfunc spc
  pfPrint sendfunc lead
  pfPrint sendfunc lead2
  if 0 < spc ∧ s.2.rightspc = false ∧ s.2.fillchar = '0' then
    pfFill sendfunc spc
  pfPrint sendfunc stuff
  if 0 < spc ∧ s.2.rightspc = true then
    pfFill sendfunc spc

/-- `NUMBER_BUF_SIZE`: a `long` has 4 bytes of 8 bits. -/
def numberBufSize : Nat := 4 * 8 / 3 + 2

def digits : List Char :=
  ['0', '1', '2', '3', '4', '5', '6', '7', '8', '9', 'a', 'b', 'c', 'd', 'e', 'f']

/-- The loop of `__pf_printnum`. There are `x` bytes of `buf` to the left of what was written;
`none` is a write outside of `buf`. The result is `buf` and where the number begins. -/
def digitLoop (base : Nat) : Nat → List Char → Nat → Option (List Char × Nat)
  | 0, _, _ => none
  | x + 1, buf, xnum =>
      let buf := buf.set x (digits.getD (xnum % base) default)
      let xnum := xnum / base
      if 0 < xnum then digitLoop base x buf xnum else some (buf, x)

/-- The string that begins at a byte of a buffer. -/
def cstring (buf : List Char) (x : Nat) : List Char :=
  (buf.drop x).takeWhile (· ≠ '\x00')

/-- `bprefix`. -/
def Pf.baseText (pf : Pf) : List Char :=
  if pf.baseprefixed ∧ pf.base = 16 then ['0', 'x']
  else if pf.baseprefixed ∧ pf.base = 8 then ['0']
  else []

/-- `sprefix`. -/
def Pf.signText (pf : Pf) : List Char :=
  if pf.sign ≠ 0 then ['-'] else []

/-- `__pf_printnum`. -/
def pfPrintnum : PfM σ Unit := do
  let s ← get
  let buf := (List.replicate numberBufSize default).set (numberBufSize - 1) '\x00'
  match digitLoop s.2.base (numberBufSize - 1) buf s.2.num.toNat with
  | none => halt .pfNumberBuf
  | some (buf, x) => pfPrintstuff sendfunc s.2.signText s.2.baseText (cstring buf x)

variable (strings : BitVec 32 → List Char)

def modifiers : List Char :=
  ['#', '-', 'q', 'l', '0', '1', '2', '3', '4', '5', '6', '7', '8', '9']

def integerTypes : List Char := ['d', 'o', 'u', 'p', 'x']

/-- The character that `%c` and all other conversions print. -/
def character (ch : Char) : PfM σ Char :=
  if ch = 'c' then do
    let word ← vaArg
    pure (Char.ofNat (word.toNat % 256))
  else
    pure ch

/-- `__pf_send`. -/
def pfSend (ch : Char) : PfM σ Unit := do
  assert .pfSendNul (ch ≠ '\x00')
  let s ← get
  if s.2.inPct = false ∧ ch ≠ '%' then
    pfPrint sendfunc [ch]
  else if s.2.inPct = false then
    update fun pf => { pf with inPct := true }
  else if ch ∈ modifiers then
    pfModifier ch
  else if ch ∈ integerTypes then do
    pfGetnum ch
    update (Pf.setbase ch)
    pfPrintnum sendfunc
    pfEndfield
  else if ch = 's' then do
    let str ← vaArg
    pfPrintstuff sendfunc [] [] (if str = 0 then "(null)".toList else strings str)
    pfEndfield
  else do
    let c ← character ch
    pfPrintstuff sendfunc [] [] (cstring [c, '\x00'] 0)
    pfEndfield

/-- The loop of `__vprintf`; the end of the list stands for the NUL of the string. -/
def vprintfLoop : List Char → PfM σ Unit
  | [] => pure ()
  | ch :: format =>
      if ch = '\x00' then
        pure ()
      else do
        pfSend sendfunc strings ch
        vprintfLoop format

/-- The state at the start of `__vprintf`. -/
def Pf.start (ap : VaList) : Pf :=
  Pf.endfield
    { ap := ap
      charcount := 0
      inPct := false
      size := .intsz
      num := 0
      sign := 0
      spacing := 0
      rightspc := false
      fillchar := ' '
      base := 0
      baseprefixed := false
      altformat := false }

/-- `__vprintf`. -/
def vprintf (format : List Char) (ap : VaList) : Prog Panic σ Errno Int := do
  let result ← withLocal (Pf.start ap) do
    vprintfLoop sendfunc strings format
    let s ← get
    pure s.2.charcount
  pure result.1

end Functions

/-- The receiver that keeps everything. -/
def record (text piece : List Char) : List Char :=
  text ++ piece

/-- The text that `__vprintf` emits. -/
def emitted (strings : BitVec 32 → List Char) (format : List Char) (ap : VaList) : List Char :=
  match vprintf record strings format ap [] with
  | .ok (_, text) => text
  | .error _ => []

example : emitted (fun _ => "abc".toList) "%s|%5d|%-4x|%#o|%05d|%c%%".toList
      (fun n => [1, 42, 255, 8, -7#32, 66].getD n 0) =
    "abc|   42|ff  |010|-0007|B%".toList := by
  decide +kernel

/-! ## What a function prints -/

def emit (s : List Char × Pf) (text : List Char) : List Char × Pf :=
  (s.1 ++ text, { s.2 with charcount := int32 (s.2.charcount + text.length) })

@[simp]
theorem fillchar_emit (s : List Char × Pf) (text : List Char) :
    (emit s text).2.fillchar = s.2.fillchar := rfl

theorem emit_emit (s : List Char × Pf) (first second : List Char) :
    emit (emit s first) second = emit s (first ++ second) := by
  simp [emit, int32, Int.bmod_add_bmod, Int.add_assoc]

theorem pfPrint_bind {α : Type} (text : List Char) (next : Unit → PfM (List Char) α)
    (s : List Char × Pf) : (pfPrint record text >>= next) s = next () (emit s text) := rfl

theorem fillLoop_eq (f : Char) (spc : Nat) (s : List Char × Pf) :
    fillLoop record f (spc + 1) s = .ok (.ok (), emit s (replicate (spc + 1) f)) := by
  induction spc generalizing s with
  | zero => rfl
  | succ spc ih =>
      rw [fillLoop, pfPrint_bind, ih, emit_emit]
      rfl

theorem pfFill_eq {spc : Int} (positive : 0 < spc) (s : List Char × Pf) :
    pfFill record spc s = .ok (.ok (), emit s (replicate spc.toNat s.2.fillchar)) := by
  obtain ⟨count, rfl⟩ : ∃ count : Nat, spc = (count + 1 : Nat) := ⟨spc.toNat - 1, by omega⟩
  exact fillLoop_eq _ _ _

theorem pfFill_bind {α : Type} {spc : Int} (positive : 0 < spc)
    (next : Unit → PfM (List Char) α) (s : List Char × Pf) :
    (pfFill record spc >>= next) s =
      next () (emit s (replicate spc.toNat s.2.fillchar)) :=
  bind_of_ok (pfFill_eq positive s)

def Pf.layout (pf : Pf) (lead lead2 stuff : List Char) : List Char :=
  let pad := List.replicate
    (pf.padding (lead.length + lead2.length + stuff.length)).toNat pf.fillchar
  if pf.rightspc then lead ++ lead2 ++ stuff ++ pad
  else if pf.fillchar = '0' then lead ++ lead2 ++ pad ++ stuff
  else pad ++ lead ++ lead2 ++ stuff

theorem pfPrintstuff_eq (lead lead2 stuff : List Char) (s : List Char × Pf) :
    pfPrintstuff record lead lead2 stuff s =
      .ok (.ok (), emit s (s.2.layout lead lead2 stuff)) := by
  rw [pfPrintstuff, get_bind_apply, Pf.layout]
  dsimp only
  generalize s.2.padding (lead.length + lead2.length + stuff.length) = spc
  by_cases positive : 0 < spc
  · rcases left : s.2.rightspc with _ | _
    · by_cases zero : s.2.fillchar = '0'
      · simp [positive, zero, pfPrint_bind, pfFill_bind, emit_emit, pure_apply]
      · simp [positive, zero, pfPrint_bind, pfFill_bind, emit_emit, pure_apply]
    · simp [positive, pfPrint_bind, pfFill_eq, emit_emit]
  · have none : spc.toNat = 0 := by omega
    simp [positive, none, pfPrint_bind, emit_emit, pure_apply]

/-! ## The digits -/

theorem digits_getD {d : Nat} (small : d < 16) : digits.getD d default = d.digitChar := by
  revert d
  decide

/-- The loop writes the number to the left of what is in the buffer, and it needs no more bytes
than the number has digits. -/
theorem digitLoop_eq {base : Nat} (two : 1 < base) (small : base ≤ 16) {x : Nat}
    {buf : List Char} {xnum : Nat} (some_room : 0 < x) (fits : xnum < base ^ x)
    (room : x ≤ buf.length) :
    ∃ buf' x', digitLoop base x buf xnum = some (buf', x') ∧
      buf'.drop x' = Nat.toDigits base xnum ++ buf.drop x := by
  induction x generalizing buf xnum with
  | zero => omega
  | succ x ih =>
      have last : xnum % base < base := Nat.mod_lt _ (by omega)
      have written : ∀ c, (buf.set x c).drop x = c :: buf.drop (x + 1) := by
        intro c
        rw [drop_eq_getElem_cons (by simpa using by omega), getElem_set_self,
          drop_set_of_lt (by omega)]
      simp only [digitLoop, digits_getD (show xnum % base < 16 by omega)]
      by_cases more : 0 < xnum / base
      · have shorter : xnum / base < base ^ x := by
          rw [Nat.div_lt_iff_lt_mul (by omega)]
          rwa [Nat.pow_succ] at fits
        have some_room' : 0 < x := by
          rcases Nat.eq_zero_or_pos x with rfl | positive
          · rw [Nat.pow_zero] at shorter
            omega
          · exact positive
        have large : base ≤ xnum := by
          by_contra below
          rw [Nat.div_eq_of_lt (by omega)] at more
          omega
        have room' : x ≤ (buf.set x (xnum % base).digitChar).length := by
          rw [length_set]
          omega
        rcases ih some_room' shorter room' with ⟨buf', x', outcome, text⟩
        refine ⟨buf', x', by rw [if_pos more, outcome], ?_⟩
        rw [text, written, Nat.toDigits_of_base_le two large, append_assoc]
        rfl
      · have below : xnum < base := by
          by_contra large
          exact more (Nat.div_pos (by omega) (by omega))
        refine ⟨_, _, if_neg more, ?_⟩
        rw [written, Nat.mod_eq_of_lt below, Nat.toDigits_of_lt_base below]
        rfl

/-- The bases of the conversions. For each of them the buffer is large enough. -/
def Pf.BaseOk (pf : Pf) : Prop :=
  pf.base = 8 ∨ pf.base = 10 ∨ pf.base = 16

theorem Pf.BaseOk.bounds {pf : Pf} (known : pf.BaseOk) :
    1 < pf.base ∧ pf.base ≤ 16 ∧ pf.num.toNat < pf.base ^ (numberBufSize - 1) := by
  have word := pf.num.isLt
  have bound : ∀ base, 8 ≤ base → pf.num.toNat < base ^ (numberBufSize - 1) := by
    intro base atLeast
    calc pf.num.toNat < 2 ^ 32 := word
      _ ≤ 8 ^ (numberBufSize - 1) := by decide
      _ ≤ base ^ (numberBufSize - 1) := Nat.pow_le_pow_left atLeast _
  rcases known with base | base | base <;>
    exact ⟨by omega, by omega, bound _ (by omega)⟩

theorem pfPrintnum_eq (s : List Char × Pf) (known : s.2.BaseOk) :
    pfPrintnum record s = .ok (.ok (), emit s
      (s.2.layout s.2.signText s.2.baseText (Nat.toDigits s.2.base s.2.num.toNat))) := by
  rcases known.bounds with ⟨two, small, fits⟩
  have room : numberBufSize - 1 ≤
      ((replicate numberBufSize default).set (numberBufSize - 1) '\x00').length := by
    simp
  rcases digitLoop_eq two small (by decide) fits room with ⟨buf, x, outcome, text⟩
  have stuff : cstring buf x = Nat.toDigits s.2.base s.2.num.toNat := by
    have nonzero : ∀ c ∈ Nat.toDigits s.2.base s.2.num.toNat, decide (c ≠ '\x00') = true := by
      intro c member
      exact decide_eq_true ((Numeral.isNumeral_toDigits two _).ne small member).2.2.2.2
    rw [cstring, text, takeWhile_append_of_pos nonzero]
    simp [numberBufSize]
  rw [pfPrintnum, get_bind_apply]
  simp only [outcome]
  rw [stuff]
  exact pfPrintstuff_eq ..

/-! ## Integer conversions -/

def Pf.fetch (ch : Char) (pf : Pf) : Pf :=
  { pf with
    ap := fun n => pf.ap (n + 1)
    num := if ch = 'd' ∧ (pf.ap 0).toInt < 0 then -pf.ap 0 else pf.ap 0
    sign := if ch = 'd' ∧ (pf.ap 0).toInt < 0 then -1 else pf.sign }

section Receivers

variable {σ : Type} (s : σ × Pf)

theorem vaInteger_eq : vaInteger s =
    .ok (.ok (s.2.ap 0), (s.1, { s.2 with ap := fun n => s.2.ap (n + 1) })) := by
  rw [vaInteger, get_bind_apply]
  cases s.2.size <;> rfl

theorem pfGetnum_eq (ch : Char) : pfGetnum ch s = .ok (.ok (), (s.1, s.2.fetch ch)) := by
  rw [pfGetnum]
  split_ifs with pointer signed
  · subst pointer
    rfl
  · subst signed
    rw [bind_of_ok (vaInteger_eq s)]
    by_cases negative : (s.2.ap 0).toInt < 0
    · simp only [negative, if_true, Pf.fetch, true_and]
      rfl
    · simp only [negative, if_false, Pf.fetch, and_false]
      rfl
  · rw [bind_of_ok (vaInteger_eq s)]
    simp only [signed, Pf.fetch, false_and, if_false]
    rfl

end Receivers

variable {ch : Char} {s : List Char × Pf}

theorem Pf.baseOk_setbase (integer : ch ∈ integerTypes) (pf : Pf) : (pf.setbase ch).BaseOk := by
  have cases : ch = 'd' ∨ ch = 'o' ∨ ch = 'u' ∨ ch = 'p' ∨ ch = 'x' := by
    simpa [integerTypes] using integer
  rcases cases with rfl | rfl | rfl | rfl | rfl <;> simp [setbase, BaseOk]

def Pf.integer (ch : Char) (pf : Pf) : Pf :=
  (pf.fetch ch).setbase ch

def Pf.integerText (ch : Char) (pf : Pf) : List Char :=
  let pf := pf.integer ch
  pf.layout pf.signText pf.baseText (Nat.toDigits pf.base pf.num.toNat)

theorem pfSend_integer {strings : BitVec 32 → List Char} (integer : ch ∈ integerTypes)
    (inside : s.2.inPct = true) :
    pfSend record strings ch s = .ok (.ok (),
      ((emit (s.1, s.2.integer ch) (s.2.integerText ch)).1,
        (emit (s.1, s.2.integer ch) (s.2.integerText ch)).2.endfield)) := by
  have known := Pf.baseOk_setbase integer (s.2.fetch ch)
  have facts : ch ≠ '\x00' ∧ ch ∉ modifiers := by
    have all : integerTypes.all fun c => decide (c ≠ '\x00' ∧ c ∉ modifiers) := by decide
    exact of_decide_eq_true (all_eq_true.mp all ch integer)
  rw [pfSend, bind_of_ok (assert_of facts.1 s), get_bind_apply]
  simp only [inside, Bool.true_eq_false, false_and, if_false, facts.2, integer, if_true]
  rw [bind_of_ok (pfGetnum_eq s ch), update, modify_bind_apply, bind_of_ok (pfPrintnum_eq _ known)]
  rfl

/-! ## Every format -/

/-- The count is that of the text, and between two fields nothing is left of the last one. -/
structure Sound (s : List Char × Pf) : Prop where
  counted : s.2.charcount = int32 s.1.length
  ready : s.2.inPct = false → s.2.endfield = s.2

theorem sound_start (ap : VaList) : Sound ([], Pf.start ap) :=
  ⟨by simp [Pf.start, Pf.endfield, int32], fun _ => rfl⟩

theorem counted_emit (counted : s.2.charcount = int32 s.1.length) (text : List Char) :
    (emit s text).2.charcount = int32 (emit s text).1.length := by
  simp [emit, counted, int32, Int.bmod_add_bmod]

theorem sound_endfield (counted : s.2.charcount = int32 s.1.length) (text : List Char) :
    Sound ((emit s text).1, (emit s text).2.endfield) :=
  ⟨counted_emit counted text, fun _ => rfl⟩

/-- The modifiers that are not handled one by one are digits. -/
theorem modifier_digit (modifier : ch ∈ modifiers) (hash : ¬ch = '#') (minus : ¬ch = '-')
    (long : ¬(ch = 'l' ∨ ch = 'q')) (zero : ¬ch = '0') :
    ('0' < ch ∧ ch ≤ '9') ∧ ch.isDigit = true := by
  have all : modifiers.all fun c => decide (¬c = '#' → ¬c = '-' → ¬(c = 'l' ∨ c = 'q') →
      ¬c = '0' → ('0' < c ∧ c ≤ '9') ∧ c.isDigit = true) := by
    decide
  exact of_decide_eq_true (all_eq_true.mp all ch modifier) hash minus long zero

theorem modifier_ne_nul (modifier : ch ∈ modifiers) : ch ≠ '\x00' := by
  have all : modifiers.all fun c => decide (c ≠ '\x00') := by decide
  exact of_decide_eq_true (all_eq_true.mp all ch modifier)

/-- Modifiers print nothing, and only characters that are handled get here. -/
theorem pfModifier_ensures (modifier : ch ∈ modifiers) {σ : Type} (s : σ × Pf) :
    Prog.Ensures (pfModifier ch) s (fun _ => False) (fun _ _ => False)
      (fun _ s' => s'.1 = s.1 ∧ s'.2.charcount = s.2.charcount ∧ s'.2.inPct = s.2.inPct) := by
  rw [pfModifier]
  split_ifs with hash minus long zero
  · exact ⟨rfl, rfl, rfl⟩
  · exact ⟨rfl, rfl, rfl⟩
  · exact ⟨rfl, rfl, rfl⟩
  · rw [update, ensures_modify]
    dsimp only
    split_ifs <;> exact ⟨rfl, rfl, rfl⟩
  · rw [ensures_bind, ensures_assert_of (modifier_digit modifier hash minus long zero).1]
    exact ⟨rfl, rfl, rfl⟩

theorem pfSend_modifier {σ : Type} (sendfunc : σ → List Char → σ)
    (strings : BitVec 32 → List Char) (modifier : ch ∈ modifiers) {s : σ × Pf}
    (inside : s.2.inPct = true) : pfSend sendfunc strings ch s = pfModifier ch s := by
  rw [pfSend, bind_of_ok (assert_of (modifier_ne_nul modifier) s), get_bind_apply]
  simp only [inside, Bool.true_eq_false, false_and, if_false, modifier, if_true]

theorem character_ensures (ch : Char) {σ : Type} (s : σ × Pf) :
    Prog.Ensures (character ch) s (fun _ => False) (fun _ _ => False)
      (fun _ s' => s'.1 = s.1 ∧ s'.2.charcount = s.2.charcount) := by
  rw [character]
  split_ifs <;> exact ⟨rfl, rfl⟩

theorem pfPrintstuff_sound (counted : s.2.charcount = int32 s.1.length) (stuff : List Char) :
    Prog.Ensures (do pfPrintstuff record [] [] stuff; pfEndfield) s (fun _ => False)
      (fun _ _ => False) (fun _ => Sound) := by
  rw [ensures_bind, ensures_of_ok_eq (pfPrintstuff_eq [] [] stuff s)]
  exact sound_endfield counted _

theorem pfSend_sound (strings : BitVec 32 → List Char) (nonzero : ch ≠ '\x00') (sound : Sound s) :
    Prog.Ensures (pfSend record strings ch) s (fun _ => False) (fun _ _ => False)
      (fun _ => Sound) := by
  by_cases conversion : s.2.inPct = true ∧ ch ∈ integerTypes
  · rw [ensures_of_ok_eq (pfSend_integer conversion.2 conversion.1)]
    have counted : (s.2.integer ch).charcount = int32 s.1.length := sound.counted
    exact sound_endfield (s := (s.1, s.2.integer ch)) counted _
  rw [pfSend, ensures_bind, ensures_assert_of nonzero, ensures_bind, ensures_get]
  split_ifs with plain percent modifier integer string
  · refine ⟨counted_emit sound.counted _, fun outside => ?_⟩
    change (emit (s.1, s.2.endfield) [ch]).2 = (emit s [ch]).2
    rw [sound.ready plain.1]
  · exact ⟨sound.counted, fun outside => by cases outside⟩
  · apply (pfModifier_ensures modifier s).imp
    rintro _ s' ⟨sameText, sameCount, sameField⟩
    refine ⟨by rw [sameCount, sameText, sound.counted], fun outside => ?_⟩
    exact absurd (sameField.symm.trans outside) percent
  · exact absurd ⟨by simpa using percent, integer⟩ conversion
  · rw [ensures_bind]
    exact pfPrintstuff_sound (s := (s.1, { s.2 with ap := fun n => s.2.ap (n + 1) }))
      sound.counted _
  · rw [ensures_bind]
    apply (character_ensures ch s).imp
    rintro c s' ⟨sameText, sameCount⟩
    exact pfPrintstuff_sound (by rw [sameCount, sameText, sound.counted]) _

/-- A format can be sent in two parts. -/
theorem vprintfLoop_append {σ : Type} (sendfunc : σ → List Char → σ)
    (strings : BitVec 32 → List Char) {first : List Char} (nonzero : '\x00' ∉ first)
    (second : List Char) :
    vprintfLoop sendfunc strings (first ++ second) =
      (do vprintfLoop sendfunc strings first; vprintfLoop sendfunc strings second) := by
  induction first with
  | nil => rfl
  | cons ch first ih =>
      rw [mem_cons, not_or] at nonzero
      rw [cons_append, vprintfLoop, vprintfLoop, if_neg (Ne.symm nonzero.1),
        if_neg (Ne.symm nonzero.1), ih nonzero.2, bind_assoc]

theorem vprintfLoop_sound (strings : BitVec 32 → List Char) (format : List Char) (sound : Sound s) :
    Prog.Ensures (vprintfLoop record strings format) s (fun _ => False) (fun _ _ => False)
      (fun _ => Sound) := by
  induction format generalizing s with
  | nil => exact sound
  | cons ch format ih =>
      rw [vprintfLoop]
      split_ifs with nul
      · exact sound
      · rw [ensures_bind]
        exact (pfSend_sound strings nul sound).imp fun _ _ sound' => ih sound'

/-- `__vprintf` always returns, and what it returns is the number of characters. -/
theorem vprintf_record (strings : BitVec 32 → List Char) (format : List Char) (ap : VaList) :
    vprintf record strings format ap [] =
      .ok (.ok (int32 (emitted strings format ap).length), emitted strings format ap) := by
  have run : Prog.Ensures (vprintf record strings format ap) [] (fun _ => False)
      (fun _ _ => False) (fun count text => count = int32 text.length) := by
    rw [vprintf, ensures_bind, ensures_withLocal, ensures_bind]
    exact (vprintfLoop_sound strings format (sound_start ap)).imp fun _ _ sound => sound.counted
  rw [emitted]
  rcases run.outcomes with ⟨_, _, never⟩ | ⟨_, _, _, never⟩ | ⟨count, text, outcome, counted⟩
  · exact never.elim
  · exact never.elim
  · rw [outcome, counted]

theorem emitted_eq {strings : BitVec 32 → List Char} {format text : List Char} {ap : VaList}
    {pf : Pf} (run : vprintfLoop record strings format ([], Pf.start ap) =
      .ok (.ok (), (text, pf))) : emitted strings format ap = text := by
  have all : vprintf record strings format ap [] = .ok (.ok pf.charcount, text) := by
    have inner : withLocal (Pf.start ap) (do
        vprintfLoop record strings format
        let s ← get
        pure s.2.charcount) [] = .ok (.ok (pf.charcount, pf), text) := by
      rw [withLocal, bind_of_ok run]
      rfl
    exact bind_of_ok inner
  rw [emitted, all]

end Printf

end Os161
