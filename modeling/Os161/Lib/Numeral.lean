import Mathlib.Data.Nat.Digits.Defs

/-!
# Numerals

Texts of digits in a base up to sixteen, with the most significant digit first. The
standard form of a number is `Nat.toDigits`; a text may also have zeros in front
(`value_zeros_append`), while zeros behind it multiply its value
(`value_append_zeros`).
-/

namespace Numeral

def digit (c : Char) : Nat :=
  if c.isDigit then c.toNat - 48 else c.toNat - 87

def value (base : Nat) (text : List Char) : Nat :=
  text.foldl (fun sofar c => sofar * base + digit c) 0

/-- A nonempty text of digits of a base. -/
def IsNumeral (base : Nat) (text : List Char) : Prop :=
  text ≠ [] ∧ ∀ c ∈ text, ∃ d < base, c = Nat.digitChar d

theorem digit_digitChar {d : Nat} (small : d < 16) : digit d.digitChar = d := by
  revert d
  decide

variable {c : Char} {text : List Char}

theorem exists_digitChar (decimal : c.isDigit = true) : ∃ d < 10, c = Nat.digitChar d := by
  have low : 48 ≤ c.toNat := (Char.isDigit_iff_toNat.mp decimal).1
  have high : c.toNat ≤ 57 := (Char.isDigit_iff_toNat.mp decimal).2
  refine ⟨c.toNat - 48, by omega, Char.toNat_inj.mp ?_⟩
  rw [Nat.toNat_digitChar_of_lt_ten (by omega)]
  omega

theorem eq_zero_of_digit (decimal : c.isDigit = true) (zero : digit c = 0) : c = '0' := by
  rcases exists_digitChar decimal with ⟨d, small, rfl⟩
  rw [digit_digitChar (by omega)] at zero
  rw [zero]
  rfl

variable {base : Nat}

theorem foldl_value (text : List Char) (start : Nat) :
    text.foldl (fun sofar c => sofar * base + digit c) start =
      start * base ^ text.length + value base text := by
  induction text generalizing start with
  | nil => simp [value]
  | cons c text ih =>
      rw [value, List.foldl_cons, List.foldl_cons, ih, ih (0 * base + digit c), List.length_cons,
        Nat.pow_succ, Nat.add_mul, Nat.add_mul, Nat.mul_assoc, Nat.mul_comm base]
      omega

theorem value_cons (c : Char) (text : List Char) :
    value base (c :: text) = digit c * base ^ text.length + value base text := by
  rw [value, List.foldl_cons, foldl_value]
  simp

theorem value_append (first second : List Char) :
    value base (first ++ second) = value base first * base ^ second.length + value base second := by
  rw [value, List.foldl_append, foldl_value]
  rfl

theorem value_concat (text : List Char) (c : Char) :
    value base (text ++ [c]) = value base text * base + digit c := by
  rw [value_append]
  simp [value]

theorem value_zeros (count : Nat) : value base (List.replicate count '0') = 0 := by
  induction count with
  | zero => rfl
  | succ count ih =>
      rw [List.replicate_succ', value_concat, ih]
      simp [digit]

theorem value_zeros_append (count : Nat) (text : List Char) :
    value base (List.replicate count '0' ++ text) = value base text := by
  rw [value_append, value_zeros, Nat.zero_mul, Nat.zero_add]

theorem value_append_zeros (count : Nat) (text : List Char) :
    value base (text ++ List.replicate count '0') = value base text * base ^ count := by
  rw [value_append, value_zeros, List.length_replicate, Nat.add_zero]

theorem value_toDigits (two : 1 < base) (small : base ≤ 16) (n : Nat) :
    value base (Nat.toDigits base n) = n := by
  induction n using Nat.strongRecOn with
  | ind n ih =>
      rw [Nat.toDigits_eq_if two]
      split
      · rename_i low
        simp [value, digit_digitChar (show n < 16 by omega)]
      · rename_i high
        have smaller : n / base < n := Nat.div_lt_self (by omega) two
        have last : n % base < base := Nat.mod_lt _ (by omega)
        rw [value_concat, ih _ smaller, digit_digitChar (by omega)]
        exact Nat.div_add_mod' n base

theorem isNumeral_toDigits (two : 1 < base) (n : Nat) : IsNumeral base (Nat.toDigits base n) := by
  refine ⟨Nat.toDigits_ne_nil, ?_⟩
  induction n using Nat.strongRecOn with
  | ind n ih =>
      rw [Nat.toDigits_eq_if two]
      split
      · rename_i low
        simpa using ⟨n, low, rfl⟩
      · rename_i high
        intro c member
        rcases List.mem_append.mp member with before | last
        · exact ih _ (Nat.div_lt_self (by omega) two) c before
        · exact ⟨n % base, Nat.mod_lt _ (by omega), by simpa using last⟩

theorem forall_digit_append {first second : List Char} :
    (∀ c ∈ first ++ second, ∃ d < base, c = Nat.digitChar d) ↔
      (∀ c ∈ first, ∃ d < base, c = Nat.digitChar d) ∧
        ∀ c ∈ second, ∃ d < base, c = Nat.digitChar d := by
  simp only [List.mem_append, or_imp, forall_and]

theorem digits_zeros (positive : 0 < base) (count : Nat) :
    ∀ c ∈ List.replicate count '0', ∃ d < base, c = Nat.digitChar d := by
  intro c zero
  exact ⟨0, positive, List.eq_of_mem_replicate zero⟩

theorem IsNumeral.zeros_append (numeral : IsNumeral base text) (positive : 0 < base) (count : Nat) :
    IsNumeral base (List.replicate count '0' ++ text) :=
  ⟨by simp [numeral.1], forall_digit_append.mpr ⟨digits_zeros positive count, numeral.2⟩⟩

theorem IsNumeral.append_zeros (numeral : IsNumeral base text) (positive : 0 < base) (count : Nat) :
    IsNumeral base (text ++ List.replicate count '0') :=
  ⟨by simp [numeral.1], forall_digit_append.mpr ⟨numeral.2, digits_zeros positive count⟩⟩

/-- A numeral has no blanks, no sign and no end of string in it. -/
theorem IsNumeral.ne (numeral : IsNumeral base text) (small : base ≤ 16) (member : c ∈ text) :
    c ≠ ' ' ∧ c ≠ '\t' ∧ c ≠ '-' ∧ c ≠ '+' ∧ c ≠ '\x00' := by
  rcases numeral.2 c member with ⟨d, low, rfl⟩
  have all : ∀ d < 16, Nat.digitChar d ≠ ' ' ∧ Nat.digitChar d ≠ '\t' ∧ Nat.digitChar d ≠ '-' ∧
      Nat.digitChar d ≠ '+' ∧ Nat.digitChar d ≠ '\x00' := by
    decide
  exact all d (by omega)

end Numeral
