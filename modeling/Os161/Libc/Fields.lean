import Mathlib.Data.List.Induction
import Os161.Libc.Printf

/-!
# Integers in formats

The integer conversions of `__vprintf` with any modifiers. The modifiers of a field stand
for a width, a side and a fill character, whatever their order (`Pf.parsed`), and the
text of the field is the number with its padding (`fieldText`).

Blanks and zeros in front of the digits do not change what the text denotes. The code also
takes both `-` and a leading `0` as they come, and fills a left aligned field with zeros
behind the digits; such a field denotes another number (`integerField_iff`).
-/

namespace Os161

open Numeral List

namespace Printf

inductive Conv where
  | d
  | u
  | x
  | o
  | p
  deriving DecidableEq, Repr

namespace Conv

def char : Conv → Char
  | d => 'd'
  | u => 'u'
  | x => 'x'
  | o => 'o'
  | p => 'p'

def base : Conv → Nat
  | d | u => 10
  | x | p => 16
  | o => 8

def value : Conv → BitVec 32 → Int
  | d, arg => arg.toInt
  | u, arg | x, arg | o, arg | p, arg => arg.toNat

/-- What is requested to stand in front of the digits. -/
def baseText (conv : Conv) (alternate : Bool) : List Char :=
  match conv with
  | d | u => []
  | x => if alternate then ['0', 'x'] else []
  | p => ['0', 'x']
  | o => if alternate then ['0'] else []

theorem base_bounds (conv : Conv) : 8 ≤ conv.base ∧ conv.base ≤ 16 := by
  cases conv <;> decide

theorem char_mem (conv : Conv) : conv.char ∈ integerTypes := by
  cases conv <;> decide

end Conv

/-! ## The modifiers of a field -/

def width (mods : List Char) : Nat :=
  Numeral.value 10 (mods.filter Char.isDigit)

/-- A zero comes before the other digits. -/
def zeroFilled (mods : List Char) : Bool :=
  (mods.filter Char.isDigit).head? == some '0'

def leftAligned (mods : List Char) : Bool :=
  decide ('-' ∈ mods)

def alternate (mods : List Char) : Bool :=
  decide ('#' ∈ mods)

/-- The state between two fields with the modifiers of a new one. -/
def Pf.parsed (mods : List Char) (pf : Pf) : Pf :=
  { pf with
    inPct := true
    size := if 'l' ∈ mods ∨ 'q' ∈ mods then .longsz else .intsz
    spacing := width mods
    rightspc := leftAligned mods
    fillchar := if zeroFilled mods then '0' else ' '
    altformat := alternate mods }

section Modifiers

variable {mods : List Char} {ch : Char}

theorem filter_digit (digit : ch.isDigit = true) :
    (mods ++ [ch]).filter Char.isDigit = mods.filter Char.isDigit ++ [ch] := by
  simp [digit]

theorem width_digit (digit : ch.isDigit = true) :
    width (mods ++ [ch]) = width mods * 10 + Numeral.digit ch := by
  rw [width, filter_digit digit, value_concat]
  rfl

theorem width_other (other : ch.isDigit = false) : width (mods ++ [ch]) = width mods := by
  simp [width, other]

theorem zeroFilled_other (other : ch.isDigit = false) :
    zeroFilled (mods ++ [ch]) = zeroFilled mods := by
  simp [zeroFilled, other]

theorem zeroFilled_zero (none : width mods = 0) : zeroFilled (mods ++ ['0']) = true := by
  rw [zeroFilled, filter_digit (by decide)]
  rcases sofar : mods.filter Char.isDigit with _ | ⟨c, rest⟩
  · rfl
  · have decimal : c.isDigit = true := (mem_filter.mp (sofar ▸ mem_cons_self)).2
    rw [width, sofar, value_cons] at none
    have zero : Numeral.digit c = 0 := by
      rcases Nat.mul_eq_zero.mp (Nat.eq_zero_of_add_eq_zero_right none) with zero | power
      · exact zero
      · exact absurd power (by simp)
    simp [eq_zero_of_digit decimal zero]

theorem zeroFilled_digit (digit : ch.isDigit = true) (counts : width mods ≠ 0 ∨ ch ≠ '0') :
    zeroFilled (mods ++ [ch]) = zeroFilled mods := by
  rw [zeroFilled, zeroFilled, filter_digit digit]
  rcases sofar : mods.filter Char.isDigit with _ | ⟨c, rest⟩
  · have different : ch ≠ '0' := by
      apply counts.resolve_left
      simp [width, sofar, value]
    simp [different]
  · rfl

theorem pfModifier_parsed {σ : Type} (out : σ) (pf : Pf) (modifier : ch ∈ modifiers)
    (fits : width (mods ++ [ch]) < 2 ^ 31) :
    pfModifier ch (out, pf.parsed mods) = .ok (.ok (), (out, pf.parsed (mods ++ [ch]))) := by
  have flags : ∀ c, leftAligned (mods ++ [c]) = (leftAligned mods || decide (c = '-')) ∧
      alternate (mods ++ [c]) = (alternate mods || decide (c = '#')) := by
    intro c
    simp [leftAligned, alternate, eq_comm]
  rw [pfModifier]
  split_ifs with hash minus long zero
  · subst hash
    simp [update, modify, Pf.parsed, width_other, zeroFilled_other, flags]
  · subst minus
    simp [update, modify, Pf.parsed, width_other, zeroFilled_other, flags]
  · rcases long with rfl | rfl <;>
      simp [update, modify, Pf.parsed, width_other, zeroFilled_other, flags]
  · subst zero
    have next : width (mods ++ ['0']) = width mods * 10 := width_digit (by decide)
    rw [next] at fits
    by_cases started : 0 < width mods
    · have kept : zeroFilled (mods ++ ['0']) = zeroFilled mods :=
        zeroFilled_digit (by decide) (Or.inl started.ne')
      have value : int32 ((width mods : Int) * 10) = (width mods * 10 : Nat) := by
        rw [int32_eq (by omega) (by omega)]
        omega
      simp [update, modify, Pf.parsed, started, next, kept, flags, value]
    · have none : width mods = 0 := by omega
      simp [update, modify, Pf.parsed, next, none, zeroFilled_zero none, flags]
  · rcases modifier_digit modifier hash minus long zero with ⟨digit, decimal⟩
    have kept : zeroFilled (mods ++ [ch]) = zeroFilled mods :=
      zeroFilled_digit decimal (Or.inr zero)
    have next : width (mods ++ [ch]) = width mods * 10 + Numeral.digit ch := width_digit decimal
    rw [next] at fits
    have value : int32 ((width mods : Int) * 10 + (ch.toNat - 48)) =
        (width mods : Int) * 10 + Numeral.digit ch := by
      have low : 48 ≤ ch.toNat := (Char.isDigit_iff_toNat.mp decimal).1
      rw [Numeral.digit, if_pos decimal] at fits ⊢
      rw [int32_eq (by omega) (by omega)]
      omega
    have short : 'l' ≠ ch ∧ 'q' ≠ ch :=
      ⟨fun same => long (Or.inl same.symm), fun same => long (Or.inr same.symm)⟩
    rw [bind_of_ok (assert_of digit _)]
    simp [update, modify, Pf.parsed, next, kept, flags, value, hash, minus, short]

end Modifiers

section Runs

variable (strings : BitVec 32 → List Char) {out : List Char} {pf : Pf} {mods : List Char}

theorem width_le_append (first second : List Char) : width first ≤ width (first ++ second) := by
  rw [width, width, filter_append, value_append]
  have power : 0 < 10 ^ (second.filter Char.isDigit).length := Nat.pow_pos (by decide)
  exact (Nat.le_mul_of_pos_right _ power).trans (Nat.le_add_right _ _)

theorem vprintfLoop_parsed (allowed : ∀ c ∈ mods, c ∈ modifiers) (fits : width mods < 2 ^ 31) :
    vprintfLoop record strings mods (out, pf.parsed []) = .ok (.ok (), (out, pf.parsed mods)) := by
  induction mods using reverseRecOn with
  | nil => rfl
  | append_singleton mods ch ih =>
      have modifier : ch ∈ modifiers := allowed ch (by simp)
      have before : ∀ c ∈ mods, c ∈ modifiers := fun c member => allowed c (by simp [member])
      have noNul : '\x00' ∉ mods := fun nul => modifier_ne_nul (before _ nul) rfl
      rw [vprintfLoop_append record strings noNul,
        bind_of_ok (ih before ((width_le_append _ _).trans_lt fits)), vprintfLoop,
        if_neg (modifier_ne_nul modifier)]
      have last : pfSend record strings ch (out, pf.parsed mods) =
          .ok (.ok (), (out, pf.parsed (mods ++ [ch]))) := by
        rw [pfSend_modifier record strings modifier rfl]
        exact pfModifier_parsed out pf modifier fits
      rw [bind_of_ok last]
      rfl

end Runs

/-! ## The text of a field -/

def signText (value : Int) : List Char :=
  if value < 0 then ['-'] else []

def leadText (conv : Conv) (mods : List Char) (arg : BitVec 32) : List Char :=
  signText (conv.value arg) ++ conv.baseText (alternate mods)

def digitText (conv : Conv) (arg : BitVec 32) : List Char :=
  Nat.toDigits conv.base (conv.value arg).natAbs

def natural (conv : Conv) (mods : List Char) (arg : BitVec 32) : List Char :=
  leadText conv mods arg ++ digitText conv arg

/-- What the code prints. -/
def fieldText (conv : Conv) (mods : List Char) (arg : BitVec 32) : List Char :=
  let pad := width mods - (natural conv mods arg).length
  if leftAligned mods then
    natural conv mods arg ++ List.replicate pad (if zeroFilled mods then '0' else ' ')
  else if zeroFilled mods then
    leadText conv mods arg ++ List.replicate pad '0' ++ digitText conv arg
  else
    List.replicate pad ' ' ++ natural conv mods arg

theorem toNat_neg_of_neg {arg : BitVec 32} (negative : arg.toInt < 0) :
    (-arg).toNat = arg.toInt.natAbs := by
  rw [BitVec.toNat_neg]
  rw [BitVec.toInt_eq_toNat_cond] at negative ⊢
  have := arg.isLt
  split_ifs at negative ⊢ <;> omega

theorem toNat_of_nonneg {arg : BitVec 32} (nonneg : ¬arg.toInt < 0) :
    arg.toNat = arg.toInt.natAbs := by
  rw [BitVec.toInt_eq_toNat_cond] at nonneg ⊢
  have := arg.isLt
  split_ifs at nonneg ⊢ <;> omega

section Text

variable {pf : Pf} (conv : Conv) (mods : List Char)

/-- The number that is printed and the parts of its text. -/
theorem integer_parsed (ready : pf.endfield = pf) :
    ((pf.parsed mods).integer conv.char).signText = signText (conv.value (pf.ap 0)) ∧
      ((pf.parsed mods).integer conv.char).baseText = conv.baseText (alternate mods) ∧
      ((pf.parsed mods).integer conv.char).base = conv.base ∧
      ((pf.parsed mods).integer conv.char).num.toNat = (conv.value (pf.ap 0)).natAbs := by
  have sign : pf.sign = 0 := (congrArg Pf.sign ready).symm
  have plain : pf.baseprefixed = false := (congrArg Pf.baseprefixed ready).symm
  cases conv with
  | d =>
      by_cases negative : (pf.ap 0).toInt < 0
      · simp [Pf.integer, Pf.fetch, Pf.setbase, Pf.parsed, Pf.signText, Pf.baseText, signText,
          Conv.char, Conv.value, Conv.base, Conv.baseText, negative, toNat_neg_of_neg negative]
      · simp [Pf.integer, Pf.fetch, Pf.setbase, Pf.parsed, Pf.signText, Pf.baseText, signText,
          Conv.char, Conv.value, Conv.base, Conv.baseText, negative, toNat_of_nonneg negative, sign]
  | u | x | o | p =>
      have unsigned : ¬((pf.ap 0).toNat : Int) < 0 := by omega
      cases alt : alternate mods <;>
        simp [Pf.integer, Pf.fetch, Pf.setbase, Pf.parsed, Pf.signText, Pf.baseText, signText,
          Conv.char, Conv.value, Conv.base, Conv.baseText, sign, plain, alt, unsigned]

theorem natAbs_value_lt (arg : BitVec 32) : (conv.value arg).natAbs < 2 ^ 32 := by
  have := arg.isLt
  cases conv with
  | d =>
      rw [Conv.value, BitVec.toInt_eq_toNat_cond]
      split_ifs <;> omega
  | u | x | o | p => simpa [Conv.value] using arg.isLt

/-- The longest number has 11 digits, in octal. -/
theorem length_natural_le (arg : BitVec 32) : (natural conv mods arg).length ≤ 14 := by
  have sign : (signText (conv.value arg)).length ≤ 1 := by
    rw [signText]
    split_ifs <;> simp
  have lead : (conv.baseText (alternate mods)).length ≤ 2 := by
    cases conv <;> cases alternate mods <;> decide
  have digits : (digitText conv arg).length ≤ 11 := by
    rcases conv.base_bounds with ⟨low, _⟩
    apply (Nat.length_toDigits_le_iff (by omega) (by decide)).mpr
    calc (conv.value arg).natAbs < 2 ^ 32 := natAbs_value_lt conv arg
      _ ≤ 8 ^ 11 := by decide
      _ ≤ conv.base ^ 11 := Nat.pow_le_pow_left low _
  simp only [natural, leadText, length_append]
  omega

theorem padding_parsed {len : Nat} (short : len ≤ 14) (fits : width mods < 2 ^ 31) (ch : Char) :
    (((pf.parsed mods).integer ch).padding len).toNat = width mods - len := by
  have spacing : ((pf.parsed mods).integer ch).spacing = width mods := rfl
  rw [Pf.padding, spacing, int32_eq (show -2 ^ 31 ≤ (len : Int) by omega) (by omega)]
  split_ifs with wide
  · rw [int32_eq (by omega) (by omega)]
    omega
  · omega

theorem integerText_parsed (ready : pf.endfield = pf) (fits : width mods < 2 ^ 31) :
    (pf.parsed mods).integerText conv.char = fieldText conv mods (pf.ap 0) := by
  rcases integer_parsed conv mods ready with ⟨sign, lead, base, num⟩
  have short := length_natural_le conv mods (pf.ap 0)
  have lengths : (signText (conv.value (pf.ap 0))).length +
      (conv.baseText (alternate mods)).length + (digitText conv (pf.ap 0)).length =
      (natural conv mods (pf.ap 0)).length := by
    simp [natural, leadText, Nat.add_assoc]
  have right : ((pf.parsed mods).integer conv.char).rightspc = leftAligned mods := rfl
  have fill : ((pf.parsed mods).integer conv.char).fillchar =
      if zeroFilled mods then '0' else ' ' := rfl
  rw [Pf.integerText, sign, lead, base, num, Pf.layout, fieldText, ← digitText, lengths,
    padding_parsed mods short fits, right, fill]
  cases zeroFilled mods <;> simp [natural, leadText]

theorem length_fieldText (arg : BitVec 32) :
    (fieldText conv mods arg).length = max (width mods) (natural conv mods arg).length := by
  have lengths : (natural conv mods arg).length =
      (leadText conv mods arg).length + (digitText conv arg).length := length_append
  rw [fieldText]
  split_ifs <;> simp only [length_append, length_replicate] <;> omega

end Text

/-! ## What the text denotes -/

/-- Apart from blanks around it, the text is the numeral of the argument. -/
def Denotes (conv : Conv) (mods : List Char) (arg : BitVec 32) (text : List Char) : Prop :=
  ∃ before after numeral,
    text = List.replicate before ' ' ++ (leadText conv mods arg ++ numeral) ++
      List.replicate after ' ' ∧
    Numeral.IsNumeral conv.base numeral ∧
    Numeral.value conv.base numeral = (conv.value arg).natAbs

/-- The text has the right length and denotes the argument. -/
structure Formatted (conv : Conv) (mods : List Char) (arg : BitVec 32) (text : List Char) :
    Prop where
  length_eq : text.length = max (width mods) (natural conv mods arg).length
  denotes : Denotes conv mods arg text

/-- Zeros are requested in a field that is aligned to the left and wider than the number. -/
def ZerosBehind (conv : Conv) (mods : List Char) (arg : BitVec 32) : Prop :=
  leftAligned mods = true ∧ zeroFilled mods = true ∧
    (natural conv mods arg).length < width mods ∧ arg ≠ 0

section Denotes

variable (conv : Conv) (mods : List Char) (arg : BitVec 32)

theorem natAbs_value_eq_zero : (conv.value arg).natAbs = 0 ↔ arg = 0 := by
  cases conv with
  | d =>
      rw [Conv.value, Int.natAbs_eq_zero, ← BitVec.toInt_inj]
      rfl
  | u | x | o | p =>
      rw [Conv.value, Int.natAbs_natCast, ← BitVec.toNat_inj]
      rfl

theorem isNumeral_digitText : Numeral.IsNumeral conv.base (digitText conv arg) :=
  isNumeral_toDigits (by have := conv.base_bounds; omega) _

theorem value_digitText : value conv.base (digitText conv arg) = (conv.value arg).natAbs :=
  value_toDigits (by have := conv.base_bounds; omega) conv.base_bounds.2 _

theorem blank_not_mem_leadText : ' ' ∉ leadText conv mods arg := by
  have sign : ' ' ∉ signText (conv.value arg) := by
    rw [signText]
    split_ifs <;> decide
  have base : ' ' ∉ conv.baseText (alternate mods) := by
    cases conv <;> cases alternate mods <;> decide
  simp [leadText, sign, base]

/-- Zeros behind the digits multiply what the text denotes. -/
theorem denotes_zeros_iff (pad : Nat) :
    Denotes conv mods arg (natural conv mods arg ++ replicate pad '0') ↔
      arg = 0 ∨ pad = 0 := by
  have bounds := conv.base_bounds
  have value : value conv.base (digitText conv arg ++ replicate pad '0') =
      (conv.value arg).natAbs * conv.base ^ pad := by
    rw [value_append_zeros, value_digitText]
  constructor
  · rintro ⟨before, after, numeral, text, _, same⟩
    -- There are no blanks in the text, so the numeral is all that follows the prefix.
    have noBlank : ' ' ∉ natural conv mods arg ++ replicate pad '0' := by
      have digits : ' ' ∉ digitText conv arg := fun blank =>
        ((isNumeral_digitText conv arg).ne bounds.2 blank).1 rfl
      simp [natural, blank_not_mem_leadText conv mods arg, digits]
    have none : before = 0 ∧ ' ' ∉ leadText conv mods arg ∧ ' ' ∉ numeral ∧ after = 0 := by
      rw [text] at noBlank
      simpa using noBlank
    rcases none with ⟨rfl, _, _, rfl⟩
    have all : digitText conv arg ++ replicate pad '0' = numeral := by
      simpa [natural] using text
    rw [← all, value] at same
    by_cases zero : arg = 0
    · exact Or.inl zero
    · have nonzero := mt (natAbs_value_eq_zero conv arg).mp zero
      have power : conv.base ^ pad = 1 := (Nat.mul_eq_left nonzero).mp same
      exact Or.inr ((Nat.pow_eq_one.mp power).resolve_left (by omega))
  · intro either
    refine ⟨0, 0, digitText conv arg ++ replicate pad '0', ?_, ?_, ?_⟩
    · simp [natural]
    · exact (isNumeral_digitText conv arg).append_zeros (by omega) pad
    · rw [value]
      rcases either with zero | none
      · rw [(natAbs_value_eq_zero conv arg).mpr zero, Nat.zero_mul]
      · rw [none, Nat.pow_zero, Nat.mul_one]

theorem denotes_fieldText_iff :
    Denotes conv mods arg (fieldText conv mods arg) ↔ ¬ZerosBehind conv mods arg := by
  have numeral := isNumeral_digitText conv arg
  have value := value_digitText conv arg
  have bounds := conv.base_bounds
  rw [ZerosBehind, fieldText]
  generalize padding : width mods - (natural conv mods arg).length = pad
  cases left : leftAligned mods with
  | false =>
      simp only [Bool.false_eq_true, if_false, false_and, not_false_iff, iff_true]
      cases zeros : zeroFilled mods with
      | false => exact ⟨pad, 0, digitText conv arg, by simp [natural], numeral, value⟩
      | true =>
          refine ⟨0, 0, replicate pad '0' ++ digitText conv arg, by simp,
            numeral.zeros_append (by omega) pad, ?_⟩
          rw [value_zeros_append, value]
  | true =>
      cases zeros : zeroFilled mods with
      | false =>
          simp only [Bool.false_eq_true, if_true, if_false, false_and, and_false, not_false_iff,
            iff_true]
          exact ⟨0, pad, digitText conv arg, by simp [natural], numeral, value⟩
      | true =>
          simp only [if_true, denotes_zeros_iff, true_and, not_and, not_not]
          by_cases zero : arg = 0
          · simp [zero]
          · simp only [zero, false_or, imp_false]
            omega

end Denotes

theorem vprintfLoop_field (strings : BitVec 32 → List Char) (out : List Char) {pf : Pf}
    (ready : pf.endfield = pf) (conv : Conv) {mods : List Char}
    (allowed : ∀ c ∈ mods, c ∈ modifiers) (fits : width mods < 2 ^ 31) :
    ∃ pf', vprintfLoop record strings ('%' :: mods ++ [conv.char]) (out, pf) =
        .ok (.ok (), (out ++ fieldText conv mods (pf.ap 0), pf')) ∧ pf'.inPct = false := by
  have outside : pf.inPct = false := (congrArg Pf.inPct ready).symm
  have percent : pfSend record strings '%' (out, pf) = .ok (.ok (), (out, pf.parsed [])) := by
    have opened : pf.parsed [] = { pf with inPct := true } := by
      rw [← ready]
      rfl
    rw [opened, pfSend, bind_of_ok (assert_of (by decide) _), get_bind_apply]
    simp only [outside, ne_eq, not_true_eq_false, and_false, if_false, if_true]
    rfl
  have noNul : '\x00' ∉ mods := fun nul => modifier_ne_nul (allowed _ nul) rfl
  have notNul : ¬conv.char = '\x00' := by
    cases conv <;> decide
  refine ⟨(emit (out, (pf.parsed mods).integer conv.char)
    (fieldText conv mods (pf.ap 0))).2.endfield, ?_, rfl⟩
  rw [cons_append, vprintfLoop, if_neg (by decide), bind_of_ok percent,
    vprintfLoop_append record strings noNul,
    bind_of_ok (vprintfLoop_parsed strings allowed fits), vprintfLoop, if_neg notNul,
    bind_of_ok (pfSend_integer conv.char_mem rfl), integerText_parsed conv mods ready fits]
  rfl

/-- An integer field in a format. For every conversion, any modifiers with a width that fits an
`int` and every argument, `__vprintf` returns from the field (so the digits stay in their buffer),
and its text has the right length and denotes the argument, except in a field that is wider than
the number, aligned to the left and filled with zeros. -/
theorem integerField_iff (strings : BitVec 32 → List Char) (ap : VaList) {before : List Char}
    (noNul : '\x00' ∉ before) {out : List Char} {pf : Pf}
    (run : vprintfLoop record strings before ([], Pf.start ap) = .ok (.ok (), (out, pf)))
    (outside : pf.inPct = false) (conv : Conv) {mods : List Char}
    (allowed : ∀ c ∈ mods, c ∈ modifiers) (fits : width mods < 2 ^ 31) :
    ∃ text pf', vprintfLoop record strings (before ++ '%' :: mods ++ [conv.char])
        ([], Pf.start ap) = .ok (.ok (), (out ++ text, pf')) ∧ pf'.inPct = false ∧
      (Formatted conv mods (pf.ap 0) text ↔ ¬ZerosBehind conv mods (pf.ap 0)) := by
  have sound : Sound (out, pf) := by
    have all := vprintfLoop_sound strings before (sound_start ap)
    rwa [ensures_of_ok_eq run] at all
  rcases vprintfLoop_field strings out (sound.ready outside) conv allowed fits with
    ⟨pf', field, outside'⟩
  refine ⟨fieldText conv mods (pf.ap 0), pf', ?_, outside', ?_⟩
  · rw [List.append_assoc, vprintfLoop_append record strings noNul, bind_of_ok run, field]
  · rw [← denotes_fieldText_iff]
    exact ⟨Formatted.denotes, fun denotes => ⟨length_fieldText conv mods _, denotes⟩⟩

/-- The third field of a format. -/
theorem integerField_octal : ∃ text pf',
    vprintfLoop record (fun _ => []) "%d, %s: %#012lo".toList
        ([], Pf.start fun n => [-1, 1, 0x80000000#32].getD n 0) =
      .ok (.ok (), ("-1, : ".toList ++ text, pf')) ∧
    Formatted .o "#012l".toList 0x80000000#32 text := by
  have computed : (((vprintfLoop record (fun _ => []) "%d, %s: ".toList).returned
      ([], Pf.start fun n => [-1, 1, 0x80000000#32].getD n 0)).any fun result =>
        result.2.1 == "-1, : ".toList && result.2.2.inPct == false &&
          result.2.2.ap 0 == 0x80000000#32) = true := by
    decide +kernel
  rcases (any_eq_true _ _).mp computed with ⟨⟨⟨⟩, out, pf⟩, run, facts⟩
  simp only [Bool.and_eq_true, beq_iff_eq] at facts
  rcases facts with ⟨⟨rfl, outside⟩, arg⟩
  have all : ("#012l".toList.all fun c => decide (c ∈ modifiers)) = true := by decide +kernel
  have allowed : ∀ c ∈ "#012l".toList, c ∈ modifiers := fun c member =>
    of_decide_eq_true (List.all_eq_true.mp all c member)
  rcases integerField_iff _ _ (by decide) (Prog.returned_eq_some.mp run) outside .o allowed
    (by decide) with ⟨text, pf', outcome, _, formatted⟩
  rw [arg] at formatted
  refine ⟨text, pf', outcome, formatted.mpr ?_⟩
  rintro ⟨left, _⟩
  exact absurd left (by decide)

/-- Five, in a field of the width five. -/
theorem integerField_zeros_behind :
    emitted (fun _ => []) "%-05d".toList (fun _ => 5) = "50000".toList ∧
      ¬Formatted .d "-05".toList 5 "50000".toList := by
  refine ⟨by decide +kernel, ?_⟩
  intro formatted
  have layout : "50000".toList = natural .d "-05".toList 5 ++ List.replicate 4 '0' := by decide
  have denotes := formatted.denotes
  rw [layout, denotes_zeros_iff] at denotes
  exact absurd denotes (by decide)

end Printf

end Os161
