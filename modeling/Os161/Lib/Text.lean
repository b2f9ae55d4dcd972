import Mathlib.Data.List.TakeWhile

/-!
# Texts in a buffer and their words

A text that ends with a NUL lies in a buffer of characters, which may be changed in
place. `Holds` says what text is at an index, and it is kept by a change anywhere else
(`Holds.frame`). The words of a text are what is between its separators (`tokens`).
-/

namespace Text

open List

/-! ## Words -/

section Tokens

variable {α : Type} {p : α → Bool} {seps word rest text : List α}

/-- The list split at the separators, without the empty pieces. -/
def tokens (p : α → Bool) (text : List α) : List (List α) :=
  (text.splitOnP p).filter fun word => !word.isEmpty

theorem tokens_separator {c : α} (separator : p c = true) :
    tokens p (c :: text) = tokens p text := by
  have nothing : ∀ c ∈ ([] : List α), p c = false := by simp
  have split := splitOnP_append_cons_of_forall_mem nothing c separator text
  simp only [nil_append] at split
  simp [tokens, split]

theorem tokens_separators (separators : ∀ c ∈ seps, p c = true) :
    tokens p (seps ++ text) = tokens p text := by
  induction seps with
  | nil => rfl
  | cons c seps ih =>
      rw [cons_append, tokens_separator (separators c (by simp))]
      exact ih fun c member => separators c (by simp [member])

theorem tokens_word {c : α} (nonempty : word ≠ []) (inside : ∀ c ∈ word, p c = false)
    (separator : p c = true) : tokens p (word ++ c :: rest) = word :: tokens p rest := by
  simp [tokens, splitOnP_append_cons_of_forall_mem inside c separator, nonempty]

theorem tokens_last (nonempty : word ≠ []) (inside : ∀ c ∈ word, p c = false) :
    tokens p word = [word] := by
  simp [tokens, splitOnP_eq_singleton inside, nonempty]

theorem tokens_nil : tokens p [] = [] := rfl

/-- A text has no word, or a first one that ends with the text or with a separator. -/
theorem tokens_cases (p : α → Bool) (text : List α) :
    (∀ c ∈ text, p c = true) ∨
      ∃ seps word rest, text = seps ++ (word ++ rest) ∧ (∀ c ∈ seps, p c = true) ∧ word ≠ [] ∧
        (∀ c ∈ word, p c = false) ∧ (rest = [] ∨ ∃ c more, rest = c :: more ∧ p c = true) := by
  by_cases all : text.dropWhile p = []
  · exact Or.inl (dropWhile_eq_nil_iff.mp all)
  right
  let tail := text.dropWhile p
  refine ⟨text.takeWhile p, tail.takeWhile fun c => !p c, tail.dropWhile fun c => !p c,
    ?_, ?_, ?_, ?_, ?_⟩
  · rw [takeWhile_append_dropWhile, takeWhile_append_dropWhile]
  · exact fun c member => mem_takeWhile_imp member
  · obtain ⟨c, more, eq⟩ := exists_cons_of_ne_nil all
    have first : p c = false := by
      have head := head_dropWhile_not p all
      simpa [eq] using head
    simp [tail, eq, first]
  · intro c member
    simpa using mem_takeWhile_imp member
  · cases eq : tail.dropWhile fun c => !p c with
    | nil => exact Or.inl rfl
    | cons c more =>
        have nonempty : (tail.dropWhile fun c => !p c) ≠ [] := by simp [eq]
        have head := head_dropWhile_not (fun c => !p c) nonempty
        exact Or.inr ⟨c, more, rfl, by simpa [eq] using head⟩

theorem length_tokens_le (p : α → Bool) (text : List α) : (tokens p text).length ≤ text.length := by
  generalize size : text.length = n
  induction n using Nat.strongRecOn generalizing text with
  | _ n ih =>
      rcases tokens_cases p text with
        all | ⟨seps, word, rest, rfl, separators, nonempty, inside, last⟩
      · have none : tokens p (text ++ []) = tokens p [] := tokens_separators all
        rw [append_nil] at none
        simp [none, tokens_nil]
      · have wordLength := length_pos_iff.mpr nonempty
        simp only [length_append] at size
        rw [tokens_separators separators]
        rcases last with rfl | ⟨c, more, rfl, separator⟩
        · rw [append_nil, tokens_last nonempty inside, length_singleton]
          omega
        · have shorter := ih more.length (by simp at size; omega) more rfl
          rw [tokens_word nonempty inside separator, length_cons]
          simp at size
          omega

end Tokens

/-! ## Texts in a buffer -/

def nul : Char := '\x00'

/-- The text at `start` in the buffer. -/
def Holds (buf : List Char) (start : Nat) (text : List Char) : Prop :=
  nul ∉ text ∧ ∃ junk, buf.drop start = text ++ nul :: junk

/-- The characters from `start` to the first NUL. -/
def textAt (buf : List Char) (start : Nat) : List Char :=
  (buf.drop start).takeWhile (· != nul)

def charAt (buf : List Char) (index : Nat) : Char :=
  buf.getD index nul

/-- The buffers have the same characters, except from `lo` to `hi`. -/
structure AgreeOutside (lo hi : Nat) (buf buf' : List Char) : Prop where
  length_eq : buf'.length = buf.length
  same : ∀ i, i < lo ∨ hi ≤ i → buf'[i]? = buf[i]?

variable {buf buf' buf'' text rest : List Char} {start lo hi lo' hi' : Nat}

theorem AgreeOutside.refl (lo hi : Nat) (buf : List Char) : AgreeOutside lo hi buf buf :=
  ⟨rfl, fun _ _ => rfl⟩

theorem AgreeOutside.trans (first : AgreeOutside lo hi buf buf')
    (second : AgreeOutside lo hi buf' buf'') : AgreeOutside lo hi buf buf'' :=
  ⟨second.length_eq.trans first.length_eq,
    fun i outside => (second.same i outside).trans (first.same i outside)⟩

theorem AgreeOutside.mono (agree : AgreeOutside lo hi buf buf') (lower : lo' ≤ lo)
    (upper : hi ≤ hi') : AgreeOutside lo' hi' buf buf' :=
  ⟨agree.length_eq, fun i outside => agree.same i (by omega)⟩

theorem agreeOutside_set {i : Nat} (inside : lo ≤ i) (before : i < hi) (c : Char) :
    AgreeOutside lo hi buf (buf.set i c) := by
  refine ⟨by simp, ?_⟩
  intro j outside
  exact getElem?_set_ne (by omega)

theorem Holds.textAt_eq (holds : Holds buf start text) : textAt buf start = text := by
  obtain ⟨noNul, junk, eq⟩ := holds
  have inText : ∀ c ∈ text, (c != nul) = true := by
    intro c member
    simp only [bne_iff_ne]
    rintro rfl
    exact noNul member
  simp [textAt, eq, takeWhile_append_of_pos inText]

theorem Holds.getElem?_eq (holds : Holds buf start text) {i : Nat} (inside : i ≤ text.length) :
    buf[start + i]? = (text ++ [nul])[i]? := by
  obtain ⟨_, junk, eq⟩ := holds
  rw [← getElem?_drop, eq, append_cons, getElem?_append_left (by simp; omega)]

/-- A change outside a text and its NUL keeps it. -/
theorem Holds.frame (holds : Holds buf start text) (agree : AgreeOutside lo hi buf buf')
    (apart : start + text.length < lo ∨ hi ≤ start) : Holds buf' start text := by
  refine ⟨holds.1, buf'.drop (start + text.length + 1), ?_⟩
  apply ext_getElem?
  intro i
  rw [getElem?_drop, append_cons]
  by_cases inside : i ≤ text.length
  · have inText : i < (text ++ [nul]).length := by
      rw [length_append, length_singleton]
      omega
    rw [agree.same _ (by omega), holds.getElem?_eq inside, getElem?_append_left inText]
  · rw [getElem?_append_right (by simp; omega), getElem?_drop]
    congr 1
    simp
    omega

theorem Holds.suffix (holds : Holds buf start (text ++ rest)) :
    Holds buf (start + text.length) rest := by
  obtain ⟨noNul, junk, eq⟩ := holds
  refine ⟨fun member => noNul (by simp [member]), junk, ?_⟩
  rw [← drop_drop, eq, append_assoc, drop_left]

theorem Holds.charAt_nil (holds : Holds buf start []) : charAt buf start = nul := by
  have first := holds.getElem?_eq (i := 0) (by simp)
  simp only [Nat.add_zero, nil_append, getElem?_cons_zero] at first
  simp [charAt, getD, first]

theorem Holds.charAt_cons {c : Char} (holds : Holds buf start (c :: text)) :
    charAt buf start = c ∧ c ≠ nul := by
  have first := holds.getElem?_eq (i := 0) (by simp)
  simp only [Nat.add_zero, cons_append, getElem?_cons_zero] at first
  refine ⟨by simp [charAt, getD, first], ?_⟩
  rintro rfl
  exact holds.1 (by simp)

/-- Writing a NUL over a character ends the text there. -/
theorem Holds.cut {c : Char} (holds : Holds buf start (text ++ c :: rest)) :
    Holds (buf.set (start + text.length) nul) start text ∧
      Holds (buf.set (start + text.length) nul) (start + text.length + 1) rest := by
  obtain ⟨noNul, junk, eq⟩ := holds
  simp only [mem_append, mem_cons, not_or] at noNul
  refine ⟨⟨noNul.1, rest ++ nul :: junk, ?_⟩, noNul.2.2, junk, ?_⟩
  · rw [drop_set, if_neg (by omega), eq, append_assoc, set_append, if_neg (by omega)]
    simp
  · rw [drop_set, if_pos (by omega), Nat.add_assoc, ← drop_drop, eq, append_assoc]
    simp [← drop_drop]

end Text
