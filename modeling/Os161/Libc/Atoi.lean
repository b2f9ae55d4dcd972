import Mathlib.Data.List.TakeDrop
import Os161.Libc.Fields

/-!
# `atoi`

`lib/libc/atoi.c`. A string has blanks, at most one sign, digits and a rest, in one way
(`Parts`); the value of `atoi` is that of the digits, as far as an `int` can hold it. What
`__vprintf` prints for `%d` is such a sign with such digits, so it is read back.
-/

namespace Os161

namespace Atoi

/-- `strchr`: the index of a character in a string. -/
def strchr (s : List Char) (ch : Char) : Option Nat :=
  s.findIdx? (· == ch)

def digits : List Char := ['0', '1', '2', '3', '4', '5', '6', '7', '8', '9']

def skipBlanks : List Char → List Char
  | [] => []
  | c :: s => if c = ' ' ∨ c = '\t' then skipBlanks s else c :: s

/-- The loop over the digits; the end of the list stands for the NUL of the string. -/
def digitLoop (val : BitVec 32) : List Char → BitVec 32
  | [] => val
  | c :: s =>
      if c = '\x00' then
        val
      else
        match strchr digits c with
        | none => val
        | some digit => digitLoop (val * 10 + BitVec.ofNat 32 digit) s

/-- The sign: whether it is a minus, and what follows it. -/
def checkSign : List Char → Bool × List Char
  | [] => (false, [])
  | c :: s =>
      if c = '-' then (true, s)
      else if c = '+' then (false, s)
      else (false, c :: s)

def atoi (s : List Char) : Int :=
  let signed := checkSign (skipBlanks s)
  let val := digitLoop 0 signed.2
  if signed.1 then (-val).toInt else val.toInt

/-! ## The parts of a string -/

inductive Sign where
  | none
  | minus
  | plus
  deriving DecidableEq, Repr

def Sign.text : Sign → List Char
  | none => []
  | minus => ['-']
  | plus => ['+']

def IsBlank (c : Char) : Prop :=
  c = ' ' ∨ c = '\t'

instance (c : Char) : Decidable (IsBlank c) :=
  inferInstanceAs (Decidable (_ ∨ _))

/-- Blanks, one optional sign, digits and a rest; each part is as long as possible. -/
structure Parts (s : List Char) where
  blanks : List Char
  sign : Sign
  digits : List Char
  rest : List Char
  text : s = blanks ++ (sign.text ++ (digits ++ rest))
  blank : ∀ c ∈ blanks, IsBlank c
  blanks_end : ∀ c ∈ (sign.text ++ (digits ++ rest)).head?, ¬IsBlank c
  sign_end : sign = .none → ∀ c ∈ (digits ++ rest).head?, c ≠ '-' ∧ c ≠ '+'
  decimal : ∀ c ∈ digits, c.isDigit = true
  digits_end : ∀ c ∈ rest.head?, c.isDigit = false

def Parts.value {s : List Char} (parts : Parts s) : Int :=
  match parts.sign with
  | .minus => -(Numeral.value 10 parts.digits : Int)
  | .none | .plus => Numeral.value 10 parts.digits

theorem strchr_digit {c : Char} (decimal : c.isDigit = true) :
    strchr digits c = some (Numeral.digit c) := by
  have all : ∀ d < 10,
      strchr digits (Nat.digitChar d) = some (Numeral.digit (Nat.digitChar d)) := by
    decide
  rcases Numeral.exists_digitChar decimal with ⟨d, small, rfl⟩
  exact all d small

theorem strchr_other {c : Char} (other : c.isDigit = false) : strchr digits c = none := by
  have all : digits.all Char.isDigit = true := by decide
  apply List.findIdx?_eq_none_iff.mpr
  intro x member
  apply beq_false_of_ne
  rintro rfl
  exact Bool.false_ne_true (other.symm.trans (List.all_eq_true.mp all x member))

theorem skipBlanks_append {blanks text : List Char} (blank : ∀ c ∈ blanks, IsBlank c)
    (blanks_end : ∀ c ∈ text.head?, ¬IsBlank c) : skipBlanks (blanks ++ text) = text := by
  induction blanks with
  | nil =>
      cases text with
      | nil => rfl
      | cons c text => exact if_neg (blanks_end c rfl)
  | cons c blanks ih =>
      have here : c = ' ' ∨ c = '\t' := blank c List.mem_cons_self
      rw [List.cons_append, skipBlanks, if_pos here]
      exact ih fun c member => blank c (List.mem_cons_of_mem _ member)

theorem checkSign_append (sign : Sign) {text : List Char}
    (sign_end : sign = .none → ∀ c ∈ text.head?, c ≠ '-' ∧ c ≠ '+') :
    checkSign (sign.text ++ text) = (decide (sign = .minus), text) := by
  cases sign with
  | none =>
      cases text with
      | nil => rfl
      | cons c text =>
          rcases sign_end rfl c rfl with ⟨notMinus, notPlus⟩
          simp [Sign.text, checkSign, notMinus, notPlus]
  | minus => rfl
  | plus => rfl

theorem digitLoop_append {digits rest : List Char} (decimal : ∀ c ∈ digits, c.isDigit = true)
    (digits_end : ∀ c ∈ rest.head?, c.isDigit = false) (sofar : Nat) :
    digitLoop (BitVec.ofNat 32 sofar) (digits ++ rest) =
      BitVec.ofNat 32 (digits.foldl (fun sofar c => sofar * 10 + Numeral.digit c) sofar) := by
  induction digits generalizing sofar with
  | nil =>
      cases rest with
      | nil => rfl
      | cons c rest =>
          rw [List.nil_append, digitLoop, strchr_other (digits_end c rfl)]
          split_ifs <;> rfl
  | cons c digits ih =>
      have here := decimal c List.mem_cons_self
      have nonzero : ¬c = '\x00' := by
        rintro rfl
        exact absurd here (by decide)
      rw [List.cons_append, digitLoop, if_neg nonzero, strchr_digit here, List.foldl_cons,
        ← ih fun c member => decimal c (List.mem_cons_of_mem _ member)]
      simp [BitVec.ofNat_add, BitVec.ofNat_mul]

theorem atoi_eq {s : List Char} (parts : Parts s) : atoi s = int32 parts.value := by
  have val : digitLoop 0 (parts.digits ++ parts.rest) =
      BitVec.ofNat 32 (Numeral.value 10 parts.digits) :=
    digitLoop_append parts.decimal parts.digits_end 0
  have skipped : skipBlanks s = parts.sign.text ++ (parts.digits ++ parts.rest) :=
    (congrArg skipBlanks parts.text).trans (skipBlanks_append parts.blank parts.blanks_end)
  rw [atoi, skipped, checkSign_append parts.sign parts.sign_end]
  dsimp only
  rw [val, Parts.value, ← BitVec.ofInt_natCast]
  cases parts.sign with
  | none | plus => exact BitVec.toInt_ofInt _
  | minus =>
      rw [← BitVec.ofInt_neg]
      exact BitVec.toInt_ofInt _

theorem exists_longest (p : Char → Bool) (s : List Char) :
    ∃ first rest, s = first ++ rest ∧ (∀ c ∈ first, p c = true) ∧
      ∀ c ∈ rest.head?, p c = false := by
  induction s with
  | nil => exact ⟨[], [], rfl, by simp, by simp⟩
  | cons c s ih =>
      cases here : p c with
      | true =>
          rcases ih with ⟨first, rest, rfl, all, stop⟩
          exact ⟨c :: first, rest, rfl, by simpa [here] using all, stop⟩
      | false => exact ⟨[], c :: s, rfl, by simp, by simpa using here⟩

theorem exists_sign (s : List Char) :
    ∃ (sign : Sign) (rest : List Char), s = sign.text ++ rest ∧
      (sign = .none → ∀ c ∈ rest.head?, c ≠ '-' ∧ c ≠ '+') := by
  cases s with
  | nil => exact ⟨.none, [], rfl, by simp⟩
  | cons c s =>
      by_cases minus : c = '-'
      · exact ⟨.minus, s, by rw [minus]; rfl, by simp⟩
      by_cases plus : c = '+'
      · exact ⟨.plus, s, by rw [plus]; rfl, by simp⟩
      · exact ⟨.none, c :: s, rfl, by simp [minus, plus]⟩

theorem exists_parts (s : List Char) : Nonempty (Parts s) := by
  rcases exists_longest (fun c => decide (IsBlank c)) s with ⟨blanks, signed, rfl, blank, stop⟩
  rcases exists_sign signed with ⟨sign, number, rfl, sign_end⟩
  rcases exists_longest Char.isDigit number with ⟨digits, rest, rfl, decimal, digits_end⟩
  exact ⟨⟨blanks, sign, digits, rest, rfl, by simpa using blank, by simpa using stop, sign_end,
    decimal, digits_end⟩⟩

/-! ## Reading back what was printed -/

/-- A number in its standard form. -/
theorem atoi_toDigits (sign : Sign) (n : Nat) {blanks rest : List Char}
    (blank : ∀ c ∈ blanks, IsBlank c) (stop : ∀ c ∈ rest.head?, c.isDigit = false) :
    atoi (blanks ++ (sign.text ++ (Nat.toDigits 10 n ++ rest))) =
      int32 (if sign = .minus then -n else n) := by
  have decimal : ∀ c ∈ Nat.toDigits 10 n, c.isDigit = true := fun c =>
    Nat.isDigit_of_mem_toDigits (by decide) (by decide)
  have value : Numeral.value 10 (Nat.toDigits 10 n) = n :=
    Numeral.value_toDigits (by decide) (by decide) n
  have first : ∀ c ∈ (Nat.toDigits 10 n ++ rest).head?, c.isDigit = true := by
    intro c member
    apply decimal
    rcases shape : Nat.toDigits 10 n with _ | ⟨d, tail⟩
    · exact absurd shape Nat.toDigits_ne_nil
    · simp_all
  have blanks_end : ∀ c ∈ (sign.text ++ (Nat.toDigits 10 n ++ rest)).head?, ¬IsBlank c := by
    cases sign with
    | none =>
        rintro c member (rfl | rfl)
        · exact absurd (first _ member) (by decide)
        · exact absurd (first _ member) (by decide)
    | minus => simp [Sign.text, IsBlank]
    | plus => simp [Sign.text, IsBlank]
  have sign_end : ∀ c ∈ (Nat.toDigits 10 n ++ rest).head?, c ≠ '-' ∧ c ≠ '+' := by
    intro c member
    have digit := first c member
    refine ⟨?_, ?_⟩ <;> rintro rfl <;> exact absurd digit (by decide)
  rw [atoi_eq ⟨blanks, sign, _, rest, rfl, blank, blanks_end, fun _ => sign_end, decimal, stop⟩,
    Parts.value]
  dsimp only
  rw [value]
  cases sign <;> rfl

open Printf in
theorem emitted_decimal (strings : BitVec 32 → List Char) (ap : VaList) :
    emitted strings "%d".toList ap =
      signText (ap 0).toInt ++ Nat.toDigits 10 (ap 0).toInt.natAbs := by
  have allowed : ∀ c ∈ ([] : List Char), c ∈ modifiers := by simp
  have ready : (Pf.start ap).endfield = Pf.start ap := rfl
  rcases vprintfLoop_field strings [] ready .d allowed (by decide) with ⟨pf', run, _⟩
  rw [show "%d".toList = '%' :: [] ++ [Conv.d.char] from rfl, emitted_eq run]
  simp [fieldText, natural, leadText, digitText, leftAligned, zeroFilled, width, Numeral.value,
    Conv.baseText, Conv.value, Conv.base, Pf.start, Pf.endfield]

open Printf in
/-- For every `int`, the text that is printed for `%d`, with any blanks before it and any text
that does not begin with a digit after it, is read back as the same number. For every string,
`atoi` returns what an `int` keeps of the value of its digits. -/
theorem decimal_round_trip :
    (∀ (strings : BitVec 32 → List Char) (ap : VaList) (blanks rest : List Char),
      (∀ c ∈ blanks, IsBlank c) → (∀ c ∈ rest.head?, c.isDigit = false) →
      atoi (blanks ++ emitted strings "%d".toList ap ++ rest) = (ap 0).toInt) ∧
    ∀ s : List Char, Nonempty (Parts s) ∧ ∀ parts : Parts s, atoi s = int32 parts.value := by
  refine ⟨?_, fun s => ⟨exists_parts s, atoi_eq⟩⟩
  intro strings ap blanks rest blank stop
  have fits : int32 (ap 0).toInt = (ap 0).toInt :=
    int32_eq (BitVec.le_toInt (ap 0)) BitVec.toInt_lt
  rw [emitted_decimal, signText, List.append_assoc, List.append_assoc]
  split_ifs with negative
  · refine (atoi_toDigits .minus _ blank stop).trans ?_
    rw [if_pos rfl, Int.ofNat_natAbs_of_nonpos negative.le, Int.neg_neg]
    exact fits
  · refine (atoi_toDigits .none _ blank stop).trans ?_
    rw [if_neg (by decide), Int.natAbs_of_nonneg (by omega)]
    exact fits

/-- The most negative `int`. -/
theorem decimal_round_trip_min :
    atoi (" \t".toList ++ Printf.emitted (fun _ => []) "%d".toList (fun _ => 0x80000000#32) ++
      "; 9".toList) = -2147483648 :=
  decimal_round_trip.1 _ _ _ _ (by simp [IsBlank]) (by simp)

end Atoi

end Os161
