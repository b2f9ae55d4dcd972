import Mathlib.Data.List.Forall2
import Os161.Kern.Base
import Os161.Lib.Text
import Os161.Libc.Atoi

/-!
# The menu's command line

`strtok_r` of `lib/libc/strtok_r.c` and the two loops of `kern/main/menu.c` around it:
`menu_execute` cuts the line at semicolons, and `cmd_dispatch` cuts each piece at blanks
in the same buffer, with a context of its own, before the outer loop goes on.

A pointer is an index into the buffer, and a context is a pointer or `NULL`. What keeps
the two tokenisers apart is that a call of `strtok_r` writes at most one NUL, at the end
of the word it returns and before its new context. So `cmd_dispatch` changes no character
from the end of its piece on, and the outer context points behind that.

The commands get pointers to their words and may write into them (`cmd_mount` removes a
colon from the end of the device's name, and the path functions put NULs into paths).
-/

namespace Os161

open Text List

namespace Menu

/-- `while (*s && cond(*s)) s++`: how far `s` gets. -/
def passes (cond : Char → Bool) : List Char → Nat
  | [] => 0
  | c :: s => if c ≠ nul ∧ cond c = true then passes cond s + 1 else 0

def isSep (seps : List Char) (c : Char) : Bool :=
  (Atoi.strchr seps c).isSome

/-- `strtok_r`: what it returns, the buffer and the context. -/
def strtokR (string : Option Nat) (seps : List Char) (buf : List Char) (context : Option Nat) :
    Option Nat × List Char × Option Nat :=
  match string.or context with
  | none => (none, buf, none)
  | some start =>
      let head := start + passes (isSep seps) (buf.drop start)
      if charAt buf head = nul then
        (none, buf, none)
      else
        let tail := head + passes (fun c => !isSep seps c) (buf.drop head)
        if charAt buf tail = nul then
          (some head, buf, none)
        else
          (some head, buf.set tail nul, some (tail + 1))

/-- `MAXMENUARGS`. -/
def maxmenuargs : Nat := 16

def blanks : List Char := [' ', '\t']

/-- The loop of `cmd_dispatch` over the words, with room for `room` more in `args`. -/
def wordLoop : (room : Nat) → (string : Option Nat) → (args : List Nat) → (buf : List Char) →
    (context : Option Nat) → Except Errno (List Nat) × List Char
  | room, string, args, buf, context =>
      match strtokR string blanks buf context with
      | (none, buf, _) => (.ok args, buf)
      | (some word, buf, context) =>
          match room with
          | 0 => (.error .e2big, buf)
          | room + 1 => wordLoop room none (args ++ [word]) buf context

/-- A command gets its words and may change the buffer. -/
abbrev CmdFunc := List Nat → List Char → Except Errno Unit × List Char

/-- An entry of `cmdtable`. -/
structure Command where
  name : List Char
  func : CmdFunc

/-- What `cmd_dispatch` does with a piece. -/
inductive Dispatch where
  | skipped
  | rejected (error : Errno)
  | notFound (words : List (List Char))
  | called (words : List (List Char)) (result : Except Errno Unit)

/-- What `cmd_dispatch` returns. -/
def Dispatch.result : Dispatch → Except Errno Unit
  | .skipped => .ok ()
  | .rejected error => .error error
  | .notFound _ => .error .einval
  | .called _ result => result

/-- The entry that `cmd_dispatch` finds. -/
def lookup (cmdtable : List Command) (name : List Char) : Option Command :=
  cmdtable.find? fun command => command.name ≠ [] ∧ name = command.name

/-- `cmd_dispatch`. -/
def cmdDispatch (cmdtable : List Command) (cmd : Nat) (buf : List Char) : Dispatch × List Char :=
  match wordLoop maxmenuargs (some cmd) [] buf none with
  | (.error error, buf) => (.rejected error, buf)
  | (.ok [], buf) => (.skipped, buf)
  | (.ok (first :: more), buf) =>
      let words := (first :: more).map (textAt buf)
      match lookup cmdtable (textAt buf first) with
      | none => (.notFound words, buf)
      | some command =>
          let returned := command.func (first :: more) buf
          (.called words returned.1, returned.2)

/-- The loop of `menu_execute`: what was done with each piece, and whether it ended in the panic
about the kernel's arguments. -/
def menuLoop (cmdtable : List Command) (isargs : Bool) :
    (fuel : Nat) → (string : Option Nat) → (buf : List Char) → (context : Option Nat) →
      List Dispatch × Bool
  | 0, _, _, _ => ([], false)
  | fuel + 1, string, buf, context =>
      match strtokR string [';'] buf context with
      | (none, _, _) => ([], false)
      | (some command, buf, context) =>
          let dispatched := cmdDispatch cmdtable command buf
          if isargs = true ∧ dispatched.1.result ≠ .ok () then
            ([dispatched.1], true)
          else
            let rest := menuLoop cmdtable isargs fuel none dispatched.2 context
            (dispatched.1 :: rest.1, rest.2)

/-- `menu_execute`. -/
def menuExecute (cmdtable : List Command) (isargs : Bool) (line : Nat) (buf : List Char) :
    List Dispatch × Bool :=
  menuLoop cmdtable isargs (buf.length + 1) (some line) buf none

variable {cmdtable : List Command} {seps buf buf' text word : List Char} {cmd lo hi start : Nat}
  {string context : Option Nat} {rest done : List (List Char)}

/-! ## One call of strtok_r -/

theorem passes_append {cond : Char → Bool} {passed after : List Char} {c : Char}
    (inside : ∀ c ∈ passed, c ≠ nul ∧ cond c = true) (stop : ¬(c ≠ nul ∧ cond c = true)) :
    passes cond (passed ++ c :: after) = passed.length := by
  induction passed with
  | nil => simp [passes, stop]
  | cons first passed ih =>
      have here := inside first (by simp)
      simp only [cons_append, passes, if_pos here, length_cons]
      rw [ih fun c member => inside c (by simp [member])]

/-- A loop over a text stops at the first character that is not passed, or at the NUL. -/
theorem Holds.passes_eq {cond : Char → Bool} {passed after : List Char}
    (holds : Holds buf start (passed ++ after)) (inside : ∀ c ∈ passed, cond c = true)
    (stop : ∀ c more, after = c :: more → cond c = false) :
    passes cond (buf.drop start) = passed.length := by
  obtain ⟨noNul, junk, eq⟩ := holds
  simp only [mem_append, not_or] at noNul
  have inside' : ∀ c ∈ passed, c ≠ nul ∧ cond c = true := by
    intro c member
    exact ⟨fun isNul => noNul.1 (isNul ▸ member), inside c member⟩
  rw [eq, append_assoc]
  cases after with
  | nil => exact passes_append inside' (by simp)
  | cons c more => exact passes_append inside' (by simp [stop c more rfl])

/-- What a tokeniser has left: the words of the text at its context. -/
def Pending (seps buf : List Char) (context : Option Nat) (lo hi : Nat)
    (rest : List (List Char)) : Prop :=
  match context with
  | none => rest = []
  | some start => ∃ text, Holds buf start text ∧ tokens (isSep seps) text = rest ∧ lo ≤ start ∧
      start + text.length = hi

/-- A call that returns a word: it ends before the new context, and nothing else is written. -/
structure NextWord (seps buf : List Char) (lo hi : Nat) (word : List Char)
    (rest : List (List Char)) (head : Nat) (buf' : List Char) (context' : Option Nat) : Prop where
  holds : Holds buf' head word
  nonempty : word ≠ []
  lower : lo ≤ head
  upper : head + word.length ≤ hi
  pending : Pending seps buf' context' (head + word.length + 1) hi rest
  agree : AgreeOutside lo hi buf buf'

/-- `strtok_r` returns the next word of its text, or `NULL` when there is none. -/
theorem strtokR_spec (pending : Pending seps buf (string.or context) lo hi rest) :
    (rest = [] ∧ strtokR string seps buf context = (none, buf, none)) ∨
      ∃ word more head buf' context', rest = word :: more ∧
        strtokR string seps buf context = (some head, buf', context') ∧
        NextWord seps buf lo hi word more head buf' context' := by
  rw [strtokR]
  cases current : string.or context with
  | none =>
      rw [current] at pending
      exact Or.inl ⟨pending, rfl⟩
  | some start =>
      rw [current] at pending
      obtain ⟨text, holds, rfl, lower, rfl⟩ := pending
      dsimp only
      rcases tokens_cases (isSep seps) text with
        all | ⟨before, word, after, rfl, separators, nonempty, inside, last⟩
      · -- only separators are left
        left
        have noTokens : tokens (isSep seps) (text ++ []) = tokens (isSep seps) [] :=
          tokens_separators all
        rw [append_nil] at noTokens
        have holds' : Holds buf start (text ++ []) := by rwa [append_nil]
        have skipped := Holds.passes_eq holds' all (by simp)
        refine ⟨noTokens, ?_⟩
        rw [skipped, if_pos holds'.suffix.charAt_nil]
      · right
        obtain ⟨first, letters, wordEq⟩ := exists_cons_of_ne_nil nonempty
        have skipped := Holds.passes_eq holds separators (by
          intro c more eq
          rw [wordEq, cons_append, cons.injEq] at eq
          exact inside c (by simp [wordEq, eq.1]))
        have atHead := holds.suffix
        have headChar : charAt buf (start + before.length) ≠ nul := by
          have firstHeld := atHead
          rw [wordEq, cons_append] at firstHeld
          rw [firstHeld.charAt_cons.1]
          exact firstHeld.charAt_cons.2
        have passed : passes (fun c => !isSep seps c) (buf.drop (start + before.length)) =
            word.length := by
          refine Holds.passes_eq atHead (fun c member => by simp [inside c member]) ?_
          rintro c more rfl
          rcases last with impossible | ⟨_, _, eq, separator⟩
          · cases impossible
          · cases eq
            simp [separator]
        rw [skipped, if_neg headChar, passed, tokens_separators separators]
        simp only [length_append]
        rcases last with rfl | ⟨c, more, rfl, separator⟩
        · -- the word is the last one
          rw [if_pos atHead.suffix.charAt_nil, append_nil, tokens_last nonempty inside]
          rw [append_nil] at atHead
          exact ⟨word, [], _, _, _, rfl, rfl, atHead, nonempty, by omega, by simp; omega, rfl,
            AgreeOutside.refl _ _ _⟩
        · have tailChar : charAt buf (start + before.length + word.length) ≠ nul := by
            rw [atHead.suffix.charAt_cons.1]
            exact atHead.suffix.charAt_cons.2
          rw [if_neg tailChar, tokens_word nonempty inside separator]
          obtain ⟨wordHeld, moreHeld⟩ := atHead.cut
          refine ⟨word, _, _, _, _, rfl, rfl, wordHeld, nonempty, by omega, by simp; omega,
            ⟨more, moreHeld, rfl, by omega, by simp; omega⟩, ?_⟩
          apply agreeOutside_set
          · omega
          · simp
            omega

/-- What is left stays when nothing is written from the context on. -/
theorem Pending.frame {lo' hi' : Nat} (pending : Pending seps buf context lo hi rest)
    (agree : AgreeOutside lo' hi' buf buf') (apart : hi' ≤ lo) :
    Pending seps buf' context lo hi rest := by
  cases context with
  | none => exact pending
  | some start =>
      obtain ⟨text, holds, tokensEq, lower, upper⟩ := pending
      exact ⟨text, holds.frame agree (by omega), tokensEq, lower, upper⟩

/-! ## The words of a piece -/

/-- An argument between `base` and `limit` that points to a word. -/
structure Placed (buf : List Char) (base limit : Nat) (arg : Nat) (word : List Char) : Prop where
  holds : Holds buf arg word
  nonempty : word ≠ []
  lower : base ≤ arg
  upper : arg + word.length < limit

variable {args : List Nat}

theorem Placed.map_textAt {base limit : Nat} {words : List (List Char)}
    (placed : List.Forall₂ (Placed buf base limit) args words) : args.map (textAt buf) = words := by
  induction placed with
  | nil => rfl
  | cons first _ ih => rw [map_cons, first.holds.textAt_eq, ih]

theorem forall_placed_mono (placed : List.Forall₂ (Placed buf base lo) args done)
    (upper : lo ≤ hi) : List.Forall₂ (Placed buf base hi) args done :=
  placed.imp fun _ _ p => ⟨p.holds, p.nonempty, p.lower, p.upper.trans_le upper⟩

/-- All words are put into `args`, or there are more of them than there is room. -/
theorem wordLoop_spec (room base : Nat) (lower : base ≤ lo) (upper : lo ≤ hi + 1)
    (pending : Pending blanks buf (string.or context) lo hi rest)
    (placed : List.Forall₂ (Placed buf base lo) args done) :
    (rest.length ≤ room ∧ ∃ args' buf',
        wordLoop room string args buf context = (.ok args', buf') ∧
        List.Forall₂ (Placed buf' base (hi + 1)) args' (done ++ rest) ∧
        AgreeOutside base hi buf buf') ∨
      (room < rest.length ∧ ∃ buf', wordLoop room string args buf context = (.error .e2big, buf') ∧
        AgreeOutside base hi buf buf') := by
  induction room generalizing string args buf context lo rest done with
  | zero =>
      rw [wordLoop]
      rcases strtokR_spec pending with
        ⟨rfl, eq⟩ | ⟨word, more, head, buf', context', rfl, eq, next⟩
      · rw [eq, append_nil]
        exact Or.inl ⟨le_rfl, args, buf, rfl, forall_placed_mono placed upper,
          AgreeOutside.refl _ _ _⟩
      · rw [eq]
        exact Or.inr ⟨by simp, buf', rfl, next.agree.mono lower le_rfl⟩
  | succ room ih =>
      rw [wordLoop]
      rcases strtokR_spec pending with
        ⟨rfl, eq⟩ | ⟨word, more, head, buf', context', rfl, eq, next⟩
      · rw [eq, append_nil]
        exact Or.inl ⟨Nat.zero_le _, args, buf, rfl, forall_placed_mono placed upper,
          AgreeOutside.refl _ _ _⟩
      · rw [eq]
        -- the words before this one end before the part of the buffer that was written
        have before : List.Forall₂ (Placed buf' base (head + word.length + 1)) args done := by
          apply placed.imp
          intro arg word p
          have ends := p.upper
          have starts := next.lower
          exact ⟨p.holds.frame next.agree (Or.inl ends), p.nonempty, p.lower, by omega⟩
        have starts := next.lower
        have ends := next.upper
        have here : Placed buf' base (head + word.length + 1) head word :=
          ⟨next.holds, next.nonempty, by omega, by omega⟩
        have agree := next.agree.mono lower le_rfl
        have both : List.Forall₂ (Placed buf' base (head + word.length + 1)) (args ++ [head])
            (done ++ [word]) :=
          rel_append before (.cons here .nil)
        have pending' : Pending blanks buf' (Option.or none context') (head + word.length + 1) hi
            more := next.pending
        rcases ih (by omega) (by omega) pending' both with
          ⟨few, args', buf'', eq', placed', agree'⟩ | ⟨many, buf'', eq', agree'⟩
        · refine Or.inl ⟨by simpa using few, args', buf'', eq', ?_, agree.trans agree'⟩
          rwa [append_assoc, singleton_append] at placed'
        · exact Or.inr ⟨by simpa using many, buf'', eq', agree.trans agree'⟩

/-! ## The commands of a line -/

/-- The line split at semicolons. -/
def pieces (line : List Char) : List (List Char) :=
  tokens (fun c => c == ';') line

/-- A piece split at blanks and tabs. -/
def words (piece : List Char) : List (List Char) :=
  tokens (fun c => c == ' ' || c == '\t') piece

theorem isSep_semicolon : isSep [';'] = fun c => c == ';' := by
  funext c
  by_cases same : c = ';'
  · simp [isSep, Atoi.strchr, findIdx?_cons, same]
  · simp [isSep, Atoi.strchr, findIdx?_cons, same, Ne.symm same]

theorem isSep_blanks : isSep blanks = fun c => c == ' ' || c == '\t' := by
  funext c
  by_cases blank : c = ' '
  · simp [isSep, blanks, Atoi.strchr, findIdx?_cons, blank]
  · by_cases tab : c = '\t'
    · simp [isSep, blanks, Atoi.strchr, findIdx?_cons, tab]
    · simp [isSep, blanks, Atoi.strchr, findIdx?_cons, blank, tab, Ne.symm blank, Ne.symm tab]

/-- What is to be done with a piece. A command that is known is called with the words where they
are in the buffer, and its result is the one of the piece. -/
inductive Handled (cmdtable : List Command) (piece : List Char) : Dispatch → Prop
  | skipped (blank : words piece = []) : Handled cmdtable piece .skipped
  | rejected (many : maxmenuargs < (words piece).length) :
      Handled cmdtable piece (.rejected .e2big)
  | notFound (first : List Char) (more : List (List Char)) (eq : words piece = first :: more)
      (few : (words piece).length ≤ maxmenuargs) (unknown : lookup cmdtable first = none) :
      Handled cmdtable piece (.notFound (words piece))
  | called (first : List Char) (more : List (List Char)) (eq : words piece = first :: more)
      (few : (words piece).length ≤ maxmenuargs) (command : Command)
      (known : lookup cmdtable first = some command) (args : List Nat) (buf : List Char)
      (given : args.map (textAt buf) = words piece) :
      Handled cmdtable piece (.called (words piece) (command.func args buf).1)

/-- A command that writes into the words it is given and nowhere else. -/
def Confined (func : CmdFunc) : Prop :=
  ∀ args buf, (∀ arg ∈ args, textAt buf arg ≠ []) →
    (func args buf).2.length = buf.length ∧
    ∀ i, (∀ arg ∈ args, i < arg ∨ arg + (textAt buf arg).length ≤ i) →
      (func args buf).2[i]? = buf[i]?

theorem Confined.agree {func : CmdFunc} (confined : Confined func)
    (placed : List.Forall₂ (Placed buf lo (hi + 1)) args done) :
    AgreeOutside lo hi buf (func args buf).2 := by
  have each : ∀ arg ∈ args, textAt buf arg ≠ [] ∧ lo ≤ arg ∧
      arg + (textAt buf arg).length ≤ hi := by
    induction placed with
    | nil => simp
    | cons first _ ih =>
        simp only [mem_cons, forall_eq_or_imp]
        have upper := first.upper
        rw [first.holds.textAt_eq]
        exact ⟨⟨first.nonempty, first.lower, by omega⟩, ih⟩
  obtain ⟨lengthEq, same⟩ := confined args buf fun arg member => (each arg member).1
  refine ⟨lengthEq, fun i outside => same i fun arg member => ?_⟩
  have bounds := (each arg member).2
  omega

/-- `cmd_dispatch` does with its piece what is to be done, and changes nothing outside it. -/
theorem cmdDispatch_spec (confined : ∀ command ∈ cmdtable, Confined command.func)
    (holds : Holds buf cmd text) :
    Handled cmdtable text (cmdDispatch cmdtable cmd buf).1 ∧
      AgreeOutside cmd (cmd + text.length) buf (cmdDispatch cmdtable cmd buf).2 := by
  have pending : Pending blanks buf ((some cmd).or none) cmd (cmd + text.length) (words text) :=
    ⟨text, holds, by rw [isSep_blanks, words], le_rfl, rfl⟩
  rw [cmdDispatch]
  rcases wordLoop_spec maxmenuargs cmd le_rfl (by omega) pending .nil with
    ⟨few, args, buf', eq, placed, agree⟩ | ⟨many, buf', eq, agree⟩
  · rw [eq]
    rw [nil_append] at placed
    have textsEq := Placed.map_textAt placed
    cases args with
    | nil => exact ⟨.skipped textsEq.symm, agree⟩
    | cons first more =>
        dsimp only
        rw [textsEq]
        have wordsEq : words text = textAt buf' first :: more.map (textAt buf') := by
          rw [← textsEq, map_cons]
        cases found : lookup cmdtable (textAt buf' first) with
        | none => exact ⟨.notFound _ _ wordsEq few found, agree⟩
        | some command =>
            have member : command ∈ cmdtable := mem_of_find?_eq_some found
            exact ⟨.called _ _ wordsEq few command found _ _ textsEq,
              agree.trans ((confined command member).agree placed)⟩
  · rw [eq]
    exact ⟨.rejected many, agree⟩

/-- Each piece is handled in turn, until one that fails ends in a panic. -/
theorem menuLoop_spec (confined : ∀ command ∈ cmdtable, Confined command.func) (isargs : Bool)
    (fuel : Nat) (pending : Pending [';'] buf (string.or context) lo hi rest)
    (enough : rest.length < fuel) :
    ((menuLoop cmdtable isargs fuel string buf context).2 = false ∧
        List.Forall₂ (Handled cmdtable) rest (menuLoop cmdtable isargs fuel string buf context).1) ∨
      ((menuLoop cmdtable isargs fuel string buf context).2 = true ∧ isargs = true ∧
        (∃ dispatch ∈ (menuLoop cmdtable isargs fuel string buf context).1,
          dispatch.result ≠ .ok ()) ∧
        ∃ n < rest.length, List.Forall₂ (Handled cmdtable) (rest.take (n + 1))
          (menuLoop cmdtable isargs fuel string buf context).1) := by
  induction fuel generalizing string buf context lo rest with
  | zero => omega
  | succ fuel ih =>
      rw [menuLoop]
      rcases strtokR_spec pending with
        ⟨rfl, eq⟩ | ⟨piece, more, head, buf', context', rfl, eq, next⟩
      · rw [eq]
        exact Or.inl ⟨rfl, .nil⟩
      · rw [eq]
        dsimp only
        obtain ⟨handled, agree⟩ := cmdDispatch_spec confined next.holds
        split
        · rename_i failed
          exact Or.inr ⟨rfl, failed.1, ⟨_, by simp, failed.2⟩, 0, by simp,
            by simpa using handled⟩
        · have pending' : Pending [';'] (cmdDispatch cmdtable head buf').2 (Option.or none context')
              (head + piece.length + 1) hi more := next.pending.frame agree (by omega)
          rcases ih pending' (by simpa using enough) with
            ⟨ended, all⟩ | ⟨panicked, args, ⟨dispatch, member, failed⟩, n, inside, some⟩
          · exact Or.inl ⟨ended, .cons handled all⟩
          · exact Or.inr ⟨panicked, args, ⟨dispatch, by simp [member], failed⟩, n + 1,
              by simpa using inside, .cons handled some⟩

/-- **The menu's two tokenisers.** Each piece of the line is handled in turn, up to the first that
fails when the line is the kernel's own; and `cmd_dispatch` changes no character outside its
piece. -/
theorem menu_tokenises (confined : ∀ command ∈ cmdtable, Confined command.func) (isargs : Bool)
    {line : Nat} (holds : Holds buf line text) :
    ((menuExecute cmdtable isargs line buf).2 = false →
      List.Forall₂ (Handled cmdtable) (pieces text) (menuExecute cmdtable isargs line buf).1) ∧
    ((menuExecute cmdtable isargs line buf).2 = true → isargs = true ∧
      (∃ dispatch ∈ (menuExecute cmdtable isargs line buf).1, dispatch.result ≠ .ok ()) ∧
      ∃ n < (pieces text).length, List.Forall₂ (Handled cmdtable) ((pieces text).take (n + 1))
        (menuExecute cmdtable isargs line buf).1) ∧
    ∀ buf cmd piece, Holds buf cmd piece →
      AgreeOutside cmd (cmd + piece.length) buf (cmdDispatch cmdtable cmd buf).2 := by
  have pending : Pending [';'] buf ((some line).or none) line (line + text.length) (pieces text) :=
    ⟨text, holds, by rw [isSep_semicolon, pieces], le_rfl, rfl⟩
  have enough : (pieces text).length < buf.length + 1 := by
    have fewer := length_tokens_le (fun c => c == ';') text
    obtain ⟨_, junk, eq⟩ := holds
    have lengthEq := congrArg List.length eq
    simp only [List.length_drop, List.length_append] at lengthEq
    rw [pieces]
    omega
  refine ⟨?_, ?_, fun _ _ _ held => (cmdDispatch_spec confined held).2⟩
  · intro ended
    rcases menuLoop_spec confined isargs _ pending enough with ⟨_, all⟩ | ⟨panicked, _⟩
    · exact all
    · exact absurd (panicked.symm.trans ended) (by decide)
  · intro panicked
    rcases menuLoop_spec confined isargs _ pending enough with ⟨ended, _⟩ | ⟨_, facts⟩
    · exact absurd (panicked.symm.trans ended) (by decide)
    · exact facts

/-- What `cmd_mount`, `cmd_unmount` and `cmd_bootfs` do to the name of a device: a colon at its
end is removed. -/
def stripColon (device : Nat) (buf : List Char) : List Char :=
  let last := device + (textAt buf device).length - 1
  if charAt buf last = ':' then buf.set last nul else buf

/-- `cmd_unmount`, without the file system. -/
def cmdUnmount : CmdFunc
  | [_, device], buf => (.ok (), stripColon device buf)
  | _, buf => (.error .einval, buf)

theorem confined_cmdUnmount : Confined cmdUnmount := by
  intro args buf nonempty
  fun_cases cmdUnmount args buf with
  | case1 first device =>
      have long := length_pos_iff.mpr (nonempty device (by simp))
      simp only [stripColon]
      split
      · refine ⟨by simp, ?_⟩
        intro i outside
        have apart := outside device (by simp)
        exact getElem?_set_ne (by omega)
      · exact ⟨rfl, fun _ _ => rfl⟩
  | case2 => exact ⟨rfl, fun _ _ => rfl⟩

theorem menu_tokenises_unmount :
    (menuExecute [⟨['u'], cmdUnmount⟩] true 0
        ['u', '\t', 'd', ':', ';', ';', ' ', ';', 'u', ' ', ' ', 'e', ':', nul, '?']).2 = false ∧
      List.Forall₂ (Handled [⟨['u'], cmdUnmount⟩])
        [['u', '\t', 'd', ':'], [' '], ['u', ' ', ' ', 'e', ':']]
        (menuExecute [⟨['u'], cmdUnmount⟩] true 0
          ['u', '\t', 'd', ':', ';', ';', ' ', ';', 'u', ' ', ' ', 'e', ':', nul, '?']).1 := by
  have ended : (menuExecute [⟨['u'], cmdUnmount⟩] true 0
      ['u', '\t', 'd', ':', ';', ';', ' ', ';', 'u', ' ', ' ', 'e', ':', nul, '?']).2 = false := by
    decide +kernel
  have confined : ∀ command ∈ [(⟨['u'], cmdUnmount⟩ : Command)], Confined command.func := by
    simp [confined_cmdUnmount]
  have holds : Holds ['u', '\t', 'd', ':', ';', ';', ' ', ';', 'u', ' ', ' ', 'e', ':', nul, '?'] 0
      ['u', '\t', 'd', ':', ';', ';', ' ', ';', 'u', ' ', ' ', 'e', ':'] :=
    ⟨by decide, ['?'], rfl⟩
  exact ⟨ended, (menu_tokenises confined true holds).1 ended⟩

end Menu

end Os161
