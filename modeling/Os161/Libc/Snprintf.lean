import Mathlib.Data.List.GetD
import Mathlib.Data.List.Induction
import Os161.Libc.Printf

/-!
# `vsnprintf`

`lib/libc/snprintf.c`: printing into a buffer. The receiver of `__vprintf` stores characters
as long as there is room, and the formatter counts all of them.

It does not matter in which pieces the text arrives. A receiver that treats two pieces like
their concatenation ends in the state that it has after the whole text in one piece
(`vprintf_eq`), so there is only one loop over characters left to look at.
-/

namespace Os161

open Prog

namespace Printf

/-! ## Other receivers -/

section Receiver

variable {σ : Type} {sendfunc : σ → List Char → σ} {received : List Char → σ}

/-- What a receiver has after a text, instead of the text itself. -/
def deliver (received : List Char → σ) (s : List Char × Pf) : σ × Pf :=
  (received s.1, s.2)

theorem tracks_update (change : Pf → Pf) (s : List Char × Pf) :
    Tracks (deliver received) (update change) (update change) s := rfl

theorem tracks_vaArg (s : List Char × Pf) :
    Tracks (deliver received) vaArg vaArg s := rfl

theorem tracks_pfModifier (ch : Char) (s : List Char × Pf) :
    Tracks (deliver received) (pfModifier ch) (pfModifier ch) s := by
  rw [pfModifier, pfModifier]
  refine tracks_ite (tracks_update _ _) (tracks_ite (tracks_update _ _)
    (tracks_ite (tracks_update _ _) (tracks_ite (tracks_update _ _) ?_)))
  exact tracks_bind (tracks_assert _ _) fun _ _ => tracks_update _ _

theorem tracks_pfGetnum (ch : Char) (s : List Char × Pf) :
    Tracks (deliver received) (pfGetnum ch) (pfGetnum ch) s := by
  rw [Tracks, pfGetnum_eq, pfGetnum_eq]
  rfl

theorem tracks_character (ch : Char) (s : List Char × Pf) :
    Tracks (deliver received) (character ch) (character ch) s :=
  tracks_ite (tracks_bind (tracks_vaArg s) fun _ _ => tracks_pure _)
    (tracks_pure _)

variable (pieces : ∀ text piece, received (text ++ piece) = sendfunc (received text) piece)
include pieces

theorem tracks_pfPrint (txt : List Char) (s : List Char × Pf) :
    Tracks (deliver received) (pfPrint record txt) (pfPrint sendfunc txt) s := by
  apply tracks_modify
  rw [deliver, deliver, record, pieces]

theorem tracks_fillLoop (f : Char) (count : Nat) (s : List Char × Pf) :
    Tracks (deliver received) (fillLoop record f count) (fillLoop sendfunc f count) s := by
  induction count generalizing s with
  | zero => exact tracks_pure _
  | succ count ih => exact tracks_bind (tracks_pfPrint pieces _ s) fun _ s' => ih s'

theorem tracks_pfFill (spc : Int) (s : List Char × Pf) :
    Tracks (deliver received) (pfFill record spc) (pfFill sendfunc spc) s :=
  tracks_get_bind (tracks_fillLoop pieces _ _ s)

theorem tracks_pfPrintstuff (lead lead2 stuff : List Char) (s : List Char × Pf) :
    Tracks (deliver received) (pfPrintstuff record lead lead2 stuff)
      (pfPrintstuff sendfunc lead lead2 stuff) s := by
  apply tracks_get_bind
  -- The paddings are there or not, independently of each other.
  repeat' first
    | exact tracks_pfFill pieces _ _
    | exact tracks_pfPrint pieces _ _
    | exact tracks_pure _
    | apply tracks_ite
    | refine tracks_bind ?_ fun _ _ => ?_

theorem tracks_pfPrintnum (s : List Char × Pf) :
    Tracks (deliver received) (pfPrintnum record) (pfPrintnum sendfunc) s := by
  apply tracks_get_bind
  dsimp only [deliver]
  rcases digitLoop s.2.base (numberBufSize - 1) _ s.2.num.toNat with _ | ⟨buf, x⟩
  · exact tracks_halt _
  · exact tracks_pfPrintstuff pieces _ _ _ s

theorem tracks_pfSend (strings : BitVec 32 → List Char) (ch : Char) (s : List Char × Pf) :
    Tracks (deliver received) (pfSend record strings ch) (pfSend sendfunc strings ch) s := by
  refine tracks_bind (tracks_assert _ _) fun _ s => tracks_get_bind ?_
  refine tracks_ite (tracks_pfPrint pieces _ s) (tracks_ite (tracks_update _ s)
    (tracks_ite (tracks_pfModifier ch s) (tracks_ite ?_ (tracks_ite ?_ ?_))))
  · refine tracks_bind (tracks_pfGetnum ch s) fun _ s => ?_
    refine tracks_bind (tracks_update _ s) fun _ s => ?_
    exact tracks_bind (tracks_pfPrintnum pieces s) fun _ s => tracks_update _ s
  · refine tracks_bind (tracks_vaArg s) fun _ s => ?_
    exact tracks_bind (tracks_pfPrintstuff pieces _ _ _ s) fun _ s => tracks_update _ s
  · refine tracks_bind (tracks_character ch s) fun _ s => ?_
    exact tracks_bind (tracks_pfPrintstuff pieces _ _ _ s) fun _ s => tracks_update _ s

theorem tracks_vprintfLoop (strings : BitVec 32 → List Char) (format : List Char)
    (s : List Char × Pf) :
    Tracks (deliver received) (vprintfLoop record strings format)
      (vprintfLoop sendfunc strings format) s := by
  induction format generalizing s with
  | nil => exact tracks_pure _
  | cons ch format ih =>
      refine tracks_ite (tracks_pure _) ?_
      exact tracks_bind (tracks_pfSend pieces strings ch s) fun _ s' => ih s'

/-- The result does not depend on the receiver, which ends as if it had got the text in one
piece. -/
theorem vprintf_eq (strings : BitVec 32 → List Char) (format : List Char) (ap : VaList) :
    vprintf sendfunc strings format ap (received []) =
      .ok (.ok (int32 (emitted strings format ap).length),
        received (emitted strings format ap)) := by
  have tracks : Tracks received (vprintf record strings format ap)
      (vprintf sendfunc strings format ap) [] := by
    refine tracks_bind (tracks_withLocal ?_) fun _ _ => tracks_pure _
    exact tracks_bind (tracks_vprintfLoop pieces strings format _) fun _ _ => rfl
  rw [tracks, vprintf_record]
  rfl

end Receiver

/-! ## The buffer -/

/-- `SNP`, without the pointer to the buffer. -/
structure Snp where
  buflen : Nat
  bufpos : Nat

/-- One turn of the loop of `__snprintf_send`. -/
def sendChar (s : (Nat → Char) × Snp) (c : Char) : (Nat → Char) × Snp :=
  if s.2.bufpos < s.2.buflen then
    (Function.update s.1 s.2.bufpos c, { s.2 with bufpos := s.2.bufpos + 1 })
  else
    s

/-- `__snprintf_send`. -/
def snprintfSend (s : (Nat → Char) × Snp) (data : List Char) : (Nat → Char) × Snp :=
  data.foldl sendChar s

def vsnprintf (strings : BitVec 32 → List Char) (len : Nat) (fmt : List Char) (ap : VaList) :
    Prog Panic (Nat → Char) Errno Int := do
  let result ← withLocal { buflen := if len = 0 then 0 else len - 1, bufpos := 0 }
    (vprintf snprintfSend strings fmt ap)
  if 0 < len then
    modify fun buf => Function.update buf result.2.bufpos '\x00'
  pure result.1

theorem snprintfSend_append (s : (Nat → Char) × Snp) (text piece : List Char) :
    snprintfSend s (text ++ piece) = snprintfSend (snprintfSend s text) piece :=
  List.foldl_append

theorem snprintfSend_eq (buf : Nat → Char) (buflen : Nat) (text : List Char) :
    snprintfSend (buf, ⟨buflen, 0⟩) text =
      (fun i => if i < min text.length buflen then text.getD i default else buf i,
        ⟨buflen, min text.length buflen⟩) := by
  induction text using List.reverseRecOn with
  | nil => simp [snprintfSend]
  | append_singleton text c ih =>
      rw [snprintfSend_append, ih, snprintfSend, List.foldl_cons, List.foldl_nil, sendChar]
      dsimp only
      by_cases room : text.length < buflen
      · have here : min text.length buflen = text.length := by omega
        have next : min (text ++ [c]).length buflen = text.length + 1 := by
          simp only [List.length_append, List.length_singleton]
          omega
        rw [here, if_pos room, next]
        congr 1
        funext i
        rcases Nat.lt_trichotomy i text.length with before | rfl | behind
        · rw [update_of_ne (by omega), if_pos before, if_pos (by omega),
            List.getD_append _ _ _ _ before]
        · rw [update_self, if_pos (by omega), List.getD_append_right _ _ _ _ (by omega)]
          simp
        · rw [update_of_ne (by omega), if_neg (by omega), if_neg (by omega)]
      · have full : min text.length buflen = buflen := by omega
        have full' : min (text ++ [c]).length buflen = buflen := by
          simp only [List.length_append]
          omega
        rw [full, full', if_neg (by omega)]
        congr 1
        funext i
        by_cases inside : i < buflen
        · rw [if_pos inside, if_pos inside, List.getD_append _ _ _ _ (by omega)]
        · rw [if_neg inside, if_neg inside]

theorem vprintf_snprintfSend (strings : BitVec 32 → List Char) (fmt : List Char) (ap : VaList)
    (buf : Nat → Char) (buflen : Nat) :
    withLocal ⟨buflen, 0⟩ (vprintf snprintfSend strings fmt ap) buf =
      .ok (.ok (int32 (emitted strings fmt ap).length,
          ⟨buflen, min (emitted strings fmt ap).length buflen⟩),
        fun i => if i < min (emitted strings fmt ap).length buflen then
          (emitted strings fmt ap).getD i default else buf i) := by
  have printed : vprintf snprintfSend strings fmt ap (buf, ⟨buflen, 0⟩) = _ :=
    vprintf_eq (snprintfSend_append (buf, ⟨buflen, 0⟩)) strings fmt ap
  rw [snprintfSend_eq] at printed
  rw [withLocal, printed]

/-- Printing into a buffer: with the whole text of the format, the result is its length. A
buffer that is not empty holds as much of the text as fits, followed by NUL, and nothing behind
its end changes; an empty one is not written to. -/
theorem vsnprintf_truncates (strings : BitVec 32 → List Char) (len : Nat) (fmt : List Char)
    (ap : VaList) (buf : Nat → Char) (short : (emitted strings fmt ap).length < 2 ^ 31) :
    ∃ buf', vsnprintf strings len fmt ap buf =
        .ok (.ok ((emitted strings fmt ap).length : Int), buf') ∧
      (0 < len →
        (∀ i < min (emitted strings fmt ap).length (len - 1),
          (emitted strings fmt ap)[i]? = some (buf' i)) ∧
        buf' (min (emitted strings fmt ap).length (len - 1)) = '\x00' ∧
        ∀ i, len ≤ i → buf' i = buf i) ∧
      (len = 0 → buf' = buf) := by
  have fits : int32 ((emitted strings fmt ap).length : Int) = (emitted strings fmt ap).length :=
    int32_eq (by omega) (by omega)
  rw [vsnprintf, bind_of_ok (vprintf_snprintfSend strings fmt ap buf _), fits]
  generalize emitted strings fmt ap = text
  dsimp only
  by_cases empty : len = 0
  · refine ⟨buf, ?_, by omega, fun _ => rfl⟩
    rw [if_neg (by omega), if_pos empty, Nat.min_zero]
    rfl
  · rw [if_pos (by omega), if_neg empty]
    refine ⟨_, rfl, fun _ => ⟨?_, ?_, ?_⟩, fun none => absurd none empty⟩
    · intro i stored
      have inside : i < text.length := by omega
      dsimp only
      rw [update_of_ne (by omega), if_pos stored, List.getD_eq_getElem _ _ inside]
      exact List.getElem?_eq_getElem inside
    · exact update_self ..
    · intro i behind
      dsimp only
      rw [update_of_ne (by omega), if_neg (by omega)]

/-- A text of nine characters and a buffer for six. -/
theorem vsnprintf_truncates_six :
    (emitted (fun _ => "tmp".toList) "%s/%05d".toList (fun _ => 42)) = "tmp/00042".toList ∧
    ∃ buf', vsnprintf (fun _ => "tmp".toList) 6 "%s/%05d".toList (fun _ => 42) (fun _ => 'x') =
        .ok (.ok 9, buf') ∧ buf' 4 = '0' ∧ buf' 5 = '\x00' ∧ ∀ i, 6 ≤ i → buf' i = 'x' := by
  have text : emitted (fun _ => "tmp".toList) "%s/%05d".toList (fun _ => 42) =
      "tmp/00042".toList := by
    decide +kernel
  refine ⟨text, ?_⟩
  rcases vsnprintf_truncates (fun _ => "tmp".toList) 6 "%s/%05d".toList (fun _ => 42)
    (fun _ => 'x') (by rw [text]; decide) with ⟨buf', outcome, written, _⟩
  rw [text] at outcome written
  rcases written (by decide) with ⟨stored, terminated, untouched⟩
  refine ⟨buf', outcome, ?_, terminated, untouched⟩
  have fifth := stored 4 (by decide)
  exact (Option.some.inj fifth).symm

end Printf

end Os161
