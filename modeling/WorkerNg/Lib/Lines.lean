/-
# Lines of a text

A text is a list of characters, a line what stands before a terminator `nl`.
`getline` reads one line off the front of a text, as `std::getline` does:
the terminator is consumed and not kept, a last line without terminator is
still a line, and only the empty text has none.  `lines` are all the lines
`getline` reads, and `unlines` terminates every line it is given.

The two meet on the texts that end in a terminator (`Terminated`): there
`unlines` undoes `lines` (`unlines_lines`) and `lines` distributes over `++`
(`lines_append`).  An encoding of the characters that keeps the terminator
apart (`Encoding`) commutes with `lines` (`lines_encode`); `utf8` is one.
-/

import Mathlib.Data.List.Basic
import Mathlib.Order.Nat

namespace WorkerNg
namespace Lines

variable {α β : Type*} [DecidableEq α] [DecidableEq β] {nl : α}

/-- The characters up to the first `nl`, and what follows it. -/
@[grind =]
def breakLine (nl : α) : List α → List α × List α
  | [] => ([], [])
  | c :: s => if c = nl then ([], s) else (c :: (breakLine nl s).1, (breakLine nl s).2)

/-- `std::getline`: the next line and the rest, `none` at the end of the text. -/
def getline (nl : α) : List α → Option (List α × List α)
  | [] => none
  | c :: s => some (breakLine nl (c :: s))

/-- All lines of a text, without their terminators. -/
@[grind =]
def lines (nl : α) : List α → List (List α)
  | [] => []
  | c :: s =>
      if c = nl then [] :: lines nl s
      else match lines nl s with
        | [] => [[c]]
        | l :: ls => (c :: l) :: ls

@[simp] theorem lines_nil : lines nl ([] : List α) = [] := rfl

@[simp] theorem lines_cons_self (s : List α) : lines nl (nl :: s) = [] :: lines nl s := by
  rw [lines, if_pos rfl]

theorem lines_cons_of_ne {c : α} (hc : c ≠ nl) {s l : List α} {ls : List (List α)}
    (hs : lines nl s = l :: ls) : lines nl (c :: s) = (c :: l) :: ls := by
  rw [lines, if_neg hc, hs]

theorem lines_singleton_of_ne {c : α} (hc : c ≠ nl) : lines nl [c] = [[c]] := by
  rw [lines, if_neg hc]
  rfl

/-- The text whose lines are `ls`, every line terminated. -/
def unlines (nl : α) (ls : List (List α)) : List α := ls.flatMap (· ++ [nl])

omit [DecidableEq α] in
@[simp] theorem unlines_nil : unlines nl [] = [] := rfl

omit [DecidableEq α] in
@[simp] theorem unlines_cons (l : List α) (ls : List (List α)) :
    unlines nl (l :: ls) = l ++ nl :: unlines nl ls := by simp [unlines]

omit [DecidableEq α] in
@[simp] theorem unlines_append (ls ms : List (List α)) :
    unlines nl (ls ++ ms) = unlines nl ls ++ unlines nl ms := List.flatMap_append

@[simp] theorem getline_nil : getline nl [] = none := rfl

theorem breakLine_length_le (s : List α) : (breakLine nl s).2.length ≤ s.length := by
  induction s with
  | nil => exact le_rfl
  | cons c s ih =>
      unfold breakLine
      split_ifs
      · exact Nat.le_succ _
      · exact ih.trans (Nat.le_succ _)

/-- Reading a line makes the text shorter. -/
theorem getline_length_lt {s l r : List α} (h : getline nl s = some (l, r)) :
    r.length < s.length := by
  cases s with
  | nil => simp at h
  | cons c s =>
      have hr : r = (breakLine nl (c :: s)).2 := by
        rw [getline, Option.some.injEq] at h
        rw [h]
      subst hr
      unfold breakLine
      split_ifs
      · exact Nat.lt_succ_self _
      · exact Nat.lt_succ_of_le (breakLine_length_le s)

/-- A line and what follows it are no longer than the text, and if something
follows there was a terminator between them. -/
theorem breakLine_length (s : List α) :
    (breakLine nl s).1.length ≤ s.length ∧ ((breakLine nl s).2 ≠ [] →
      (breakLine nl s).1.length + 1 + (breakLine nl s).2.length = s.length) := by
  induction s with
  | nil => exact ⟨le_rfl, fun h => absurd rfl h⟩
  | cons c s ih =>
      unfold breakLine
      split_ifs
      · simp [Nat.add_comm]
      · obtain ⟨h₁, h₂⟩ := ih
        refine ⟨Nat.succ_le_succ h₁, fun h => ?_⟩
        have := h₂ h
        simp only [List.length_cons]
        omega

theorem getline_length {s l r : List α} (h : getline nl s = some (l, r)) :
    l.length ≤ s.length ∧ (r ≠ [] → l.length + 1 + r.length = s.length) := by
  cases s with
  | nil => simp at h
  | cons c s =>
      rw [getline, Option.some.injEq] at h
      have hlen := @breakLine_length _ _ nl (c :: s)
      rw [h] at hlen
      exact hlen

theorem getline_eq_none_iff {s : List α} : getline nl s = none ↔ s = [] := by
  cases s <;> simp [getline]

/-- **`lines` is what `getline` reads**: the first line, then the lines of the
rest. -/
theorem lines_of_getline {s l r : List α} (h : getline nl s = some (l, r)) :
    lines nl s = l :: lines nl r := by
  induction s generalizing l r with
  | nil => simp at h
  | cons c s ih =>
      simp only [getline, breakLine] at h
      split_ifs at h with hc
      · obtain ⟨rfl, rfl⟩ : [] = l ∧ s = r := by simpa using h
        rw [hc, lines_cons_self]
      · obtain ⟨rfl, rfl⟩ : c :: (breakLine nl s).1 = l ∧ (breakLine nl s).2 = r := by
          simpa using h
        cases s with
        | nil => exact lines_singleton_of_ne hc
        | cons d t => exact lines_cons_of_ne hc (ih rfl)

theorem lines_eq_nil_iff {s : List α} : lines nl s = [] ↔ s = [] := by
  cases s with
  | nil => simp [lines]
  | cons c s =>
      have h : lines nl (c :: s) = _ := lines_of_getline rfl
      rw [h]
      simp

/-- A text that is empty or ends in a terminator. -/
def Terminated (nl : α) (s : List α) : Prop := s = [] ∨ ∃ t, s = t ++ [nl]

omit [DecidableEq α] in
theorem terminated_nil : Terminated nl ([] : List α) := Or.inl rfl

omit [DecidableEq α] in
theorem terminated_concat (s : List α) : Terminated nl (s ++ [nl]) := Or.inr ⟨s, rfl⟩

omit [DecidableEq α] in
theorem terminated_append {s t : List α} (hs : Terminated nl s) (ht : Terminated nl t) :
    Terminated nl (s ++ t) := by
  rcases ht with rfl | ⟨u, rfl⟩
  · simpa using hs
  · exact Or.inr ⟨s ++ u, by simp⟩

omit [DecidableEq α] in
theorem terminated_unlines (ls : List (List α)) : Terminated nl (unlines nl ls) := by
  induction ls with
  | nil => exact terminated_nil
  | cons l ls ih =>
      have h : Terminated nl (l ++ [nl] ++ unlines nl ls) :=
        terminated_append (terminated_concat l) ih
      simpa using h

omit [DecidableEq α] in
theorem Terminated.of_cons {c d : α} {s : List α} (h : Terminated nl (c :: d :: s)) :
    Terminated nl (d :: s) := by
  rcases h with h | ⟨t, h⟩
  · simp at h
  · cases t with
    | nil => simp at h
    | cons e t => exact Or.inr ⟨t, by simpa using (List.cons.inj h).2⟩

omit [DecidableEq α] in
theorem Terminated.eq_of_singleton {c : α} (h : Terminated nl [c]) : c = nl := by
  rcases h with h | ⟨t, h⟩
  · simp at h
  · cases t with
    | nil => simpa using h
    | cons e t => simp at h

/-- The lines of a text that follows a terminated text are those of the one and
then those of the other. -/
theorem lines_append {s : List α} (hs : Terminated nl s) (t : List α) :
    lines nl (s ++ t) = lines nl s ++ lines nl t := by
  induction s with
  | nil => rfl
  | cons c s ih =>
      cases s with
      | nil => simp [hs.eq_of_singleton]
      | cons d s =>
          have ih' := ih hs.of_cons
          by_cases hc : c = nl
          · rw [hc, List.cons_append, lines_cons_self, ih', lines_cons_self, List.cons_append]
          · obtain ⟨l, ls, hls⟩ := List.exists_cons_of_ne_nil
              fun h => List.cons_ne_nil d s (lines_eq_nil_iff.1 h)
            rw [lines_cons_of_ne hc hls, List.cons_append,
              lines_cons_of_ne hc (ih'.trans (by rw [hls, List.cons_append])), List.cons_append]

theorem lines_line {l : List α} (hl : nl ∉ l) : lines nl (l ++ [nl]) = [l] := by
  induction l with
  | nil => simp
  | cons c l ih =>
      rw [List.mem_cons, not_or] at hl
      exact lines_cons_of_ne (Ne.symm hl.1) (ih hl.2)

/-- `lines` undoes `unlines` on lines that hold no terminator. -/
theorem lines_unlines {ls : List (List α)} (h : ∀ l ∈ ls, nl ∉ l) :
    lines nl (unlines nl ls) = ls := by
  induction ls with
  | nil => rfl
  | cons l ls ih =>
      rw [List.forall_mem_cons] at h
      rw [unlines_cons, List.append_cons, lines_append (terminated_concat l), lines_line h.1,
        ih h.2]
      rfl

/-- `unlines` undoes `lines` on terminated texts. -/
theorem unlines_lines {s : List α} (hs : Terminated nl s) : unlines nl (lines nl s) = s := by
  induction s with
  | nil => rfl
  | cons c s ih =>
      cases s with
      | nil => simp [hs.eq_of_singleton]
      | cons d s =>
          have ih' := ih hs.of_cons
          by_cases hc : c = nl
          · rw [hc, lines_cons_self, unlines_cons, ih', List.nil_append]
          · obtain ⟨l, ls, hls⟩ := List.exists_cons_of_ne_nil
              fun h => List.cons_ne_nil d s (lines_eq_nil_iff.1 h)
            rw [hls, unlines_cons] at ih'
            rw [lines_cons_of_ne hc hls, unlines_cons, List.cons_append, ih']

/-- The lines of a text with their terminators, as iterating over a Python file
gives them; a last line may lack its own. -/
@[grind =]
def keepLines (nl : α) : List α → List (List α)
  | [] => []
  | c :: s =>
      if c = nl then [c] :: keepLines nl s
      else match keepLines nl s with
        | [] => [[c]]
        | l :: ls => (c :: l) :: ls

/-- In a terminated text every line keeps a terminator. -/
theorem keepLines_eq {s : List α} (hs : Terminated nl s) :
    keepLines nl s = (lines nl s).map (· ++ [nl]) := by
  induction s with
  | nil => rfl
  | cons c s ih =>
      cases s with
      | nil => simp [hs.eq_of_singleton, keepLines]
      | cons d s =>
          have ih' := ih hs.of_cons
          by_cases hc : c = nl
          · rw [hc, keepLines, if_pos rfl, ih', lines_cons_self, List.map_cons, List.nil_append]
          · obtain ⟨l, ls, hls⟩ := List.exists_cons_of_ne_nil
              fun h => List.cons_ne_nil d s (lines_eq_nil_iff.1 h)
            rw [keepLines, if_neg hc, ih', lines_cons_of_ne hc hls, hls]
            rfl

theorem keepLines_cons_self (s : List α) : keepLines nl (nl :: s) = [nl] :: keepLines nl s := by
  rw [keepLines, if_pos rfl]

theorem keepLines_cons_of_ne {c : α} (hc : c ≠ nl) {s l : List α} {ls : List (List α)}
    (hs : keepLines nl s = l :: ls) : keepLines nl (c :: s) = (c :: l) :: ls := by
  rw [keepLines, if_neg hc, hs]

/-- A line in front of a text is its first line. -/
theorem keepLines_line_append {l : List α} (hl : nl ∉ l) (t : List α) :
    keepLines nl (l ++ nl :: t) = (l ++ [nl]) :: keepLines nl t := by
  induction l with
  | nil => exact keepLines_cons_self t
  | cons c l ih =>
      rw [List.mem_cons, not_or] at hl
      exact keepLines_cons_of_ne (Ne.symm hl.1) (ih hl.2)

/-- **Lines in front of a text are its first lines.** -/
theorem keepLines_flatten_append {ls : List (List α)} (h : ∀ l ∈ ls, ∃ u, nl ∉ u ∧ l = u ++ [nl])
    (t : List α) : keepLines nl (ls.flatten ++ t) = ls ++ keepLines nl t := by
  induction ls with
  | nil => rfl
  | cons l ls ih =>
      rw [List.forall_mem_cons] at h
      obtain ⟨⟨u, hu, rfl⟩, hls⟩ := h
      rw [List.flatten_cons, List.append_assoc, List.append_assoc, List.singleton_append,
        keepLines_line_append hu, ih hls, List.cons_append]

/-- A last line that is not terminated. -/
theorem keepLines_of_not_mem {l : List α} (hl : nl ∉ l) (hne : l ≠ []) : keepLines nl l = [l] := by
  induction l with
  | nil => exact absurd rfl hne
  | cons c l ih =>
      rw [List.mem_cons, not_or] at hl
      cases l with
      | nil => rw [keepLines, if_neg (Ne.symm hl.1)]; rfl
      | cons d l => exact keepLines_cons_of_ne (Ne.symm hl.1) (ih hl.2 (by simp))

/-- The kept lines are the text. -/
theorem flatten_keepLines (s : List α) : (keepLines nl s).flatten = s := by
  induction s with
  | nil => rfl
  | cons c s ih =>
      by_cases hc : c = nl
      · rw [hc, keepLines_cons_self, List.flatten_cons, ih, List.singleton_append]
      · cases hs : keepLines nl s with
        | nil =>
            rw [hs, List.flatten_nil] at ih
            rw [keepLines, if_neg hc, hs, ← ih]
            rfl
        | cons l ls =>
            rw [hs, List.flatten_cons] at ih
            rw [keepLines_cons_of_ne hc hs, List.flatten_cons, List.cons_append, ih]

/-- A kept line has a terminator at most at its end. -/
theorem exists_of_mem_keepLines {s line : List α} (h : line ∈ keepLines nl s) :
    ∃ l, nl ∉ l ∧ (line = l ++ [nl] ∨ line = l) := by
  induction s generalizing line with
  | nil => exact absurd h List.not_mem_nil
  | cons c s ih =>
      by_cases hc : c = nl
      · rw [hc, keepLines_cons_self, List.mem_cons] at h
        rcases h with rfl | h
        · exact ⟨[], List.not_mem_nil, Or.inl rfl⟩
        · exact ih h
      · cases hs : keepLines nl s with
        | nil =>
            rw [keepLines, if_neg hc, hs, List.mem_singleton] at h
            exact ⟨[c], by simpa using Ne.symm hc, Or.inr h⟩
        | cons m ms =>
            rw [keepLines_cons_of_ne hc hs, List.mem_cons] at h
            rw [hs] at ih
            rcases h with rfl | h
            · obtain ⟨l, hl, hm⟩ := ih List.mem_cons_self
              refine ⟨c :: l, by simp [hl, Ne.symm hc], ?_⟩
              rcases hm with rfl | rfl
              · exact Or.inl rfl
              · exact Or.inr rfl
            · exact ih (List.mem_cons_of_mem _ h)

/-- No kept line is empty. -/
theorem nil_not_mem_keepLines (s : List α) : [] ∉ keepLines nl s := by
  induction s with
  | nil => exact List.not_mem_nil
  | cons c s ih =>
      unfold keepLines
      split_ifs
      · simpa using ih
      · split
        · simp
        · rename_i l ls hs
          rw [hs, List.mem_cons, not_or] at ih
          simpa using ih.2

/-- A terminated line that is kept has its terminator at its end. -/
theorem exists_of_mem_keepLines_of_terminated {s line : List α} (h : line ∈ keepLines nl s)
    (ht : Terminated nl line) : ∃ l, nl ∉ l ∧ line = l ++ [nl] := by
  obtain ⟨l, hl, rfl | rfl⟩ := exists_of_mem_keepLines h
  · exact ⟨l, hl, rfl⟩
  · obtain rfl | ⟨t, rfl⟩ := ht
    · exact absurd h (nil_not_mem_keepLines s)
    · exact absurd (List.mem_append_right t List.mem_cons_self) hl

/-- Every kept line but the last is a line with its terminator. -/
theorem exists_of_mem_dropLast_keepLines {s line : List α} (h : line ∈ (keepLines nl s).dropLast) :
    ∃ l, nl ∉ l ∧ line = l ++ [nl] := by
  induction s generalizing line with
  | nil => exact absurd h List.not_mem_nil
  | cons c s ih =>
      rw [keepLines] at h
      split_ifs at h with hc
      · subst hc
        cases hs : keepLines c s with
        | nil =>
            rw [hs] at h
            exact absurd h List.not_mem_nil
        | cons m ms =>
            rw [hs, List.dropLast_cons_cons, List.mem_cons] at h
            rcases h with rfl | h
            · exact ⟨[], List.not_mem_nil, rfl⟩
            · exact ih (hs ▸ h)
      · cases hs : keepLines nl s with
        | nil =>
            rw [hs] at h
            exact absurd h List.not_mem_nil
        | cons m ms =>
            rw [hs] at h ih
            cases ms with
            | nil => exact absurd h List.not_mem_nil
            | cons k ks =>
                simp only [List.dropLast_cons_cons, List.mem_cons] at h ih
                rcases h with rfl | h
                · obtain ⟨l, hl, rfl⟩ := ih (Or.inl rfl)
                  exact ⟨c :: l, by simp [hl, Ne.symm hc], rfl⟩
                · exact ih (Or.inr h)

/-! ### Items with a separator -/

omit [DecidableEq α] in
/-- A list with a separator, as a first item and items behind separators. -/
theorem intercalate_cons (c : α) (y : List α) (ys : List (List α)) :
    [c].intercalate (y :: ys) = y ++ (ys.map (c :: ·)).flatten := by
  induction ys generalizing y with
  | nil => simp
  | cons z ys ih =>
      rw [List.intercalate_cons_cons, ih, List.map_cons, List.flatten_cons]
      simp

omit [DecidableEq α] in
/-- One item more. -/
theorem intercalate_concat (c : α) (y z : List α) (ys : List (List α)) :
    [c].intercalate (y :: ys ++ [z]) = [c].intercalate (y :: ys) ++ c :: z := by
  rw [List.cons_append, intercalate_cons, intercalate_cons]
  simp

/-! ### Blocks between separator lines -/

/-- Texts one after the other, with a line `sep` before each but the first. -/
def joinBlocks (nl : α) (sep : List α) : List (List α) → List α
  | [] => []
  | b :: bs => b ++ bs.flatMap fun c => sep ++ nl :: c

omit [DecidableEq α] in
theorem joinBlocks_cons_cons (sep b c : List α) (bs : List (List α)) :
    joinBlocks nl sep (b :: c :: bs) = b ++ ((sep ++ [nl]) ++ joinBlocks nl sep (c :: bs)) := by
  simp [joinBlocks]

omit [DecidableEq α] in
theorem terminated_joinBlocks {sep : List α} {bs : List (List α)}
    (h : ∀ b ∈ bs, Terminated nl b) : Terminated nl (joinBlocks nl sep bs) := by
  induction bs with
  | nil => exact terminated_nil
  | cons b bs ih =>
      rw [List.forall_mem_cons] at h
      cases bs with
      | nil => simpa [joinBlocks] using h.1
      | cons c bs =>
          rw [joinBlocks_cons_cons]
          exact terminated_append h.1 (terminated_append (terminated_concat sep) (ih h.2))

omit [DecidableEq α] in
theorem not_mem_joinBlocks {sep : List α} {bs : List (List α)} {c : α} (hnl : c ≠ nl)
    (hsep : c ∉ sep) (h : ∀ b ∈ bs, c ∉ b) : c ∉ joinBlocks nl sep bs := by
  cases bs with
  | nil => exact List.not_mem_nil
  | cons b bs =>
      rw [List.forall_mem_cons] at h
      rw [joinBlocks, List.mem_append, not_or, List.mem_flatMap]
      refine ⟨h.1, ?_⟩
      rintro ⟨b', hb', hm⟩
      rw [List.mem_append, List.mem_cons] at hm
      exact hm.elim hsep (Or.rec hnl (h.2 b' hb'))

/-- The lines of joined blocks: those of the blocks, and the separator between
them. -/
theorem lines_joinBlocks_cons_cons {sep : List α} (hsep : nl ∉ sep) {b : List α}
    (hb : Terminated nl b) (c : List α) (bs : List (List α)) :
    lines nl (joinBlocks nl sep (b :: c :: bs)) =
      lines nl b ++ sep :: lines nl (joinBlocks nl sep (c :: bs)) := by
  rw [joinBlocks_cons_cons, lines_append hb, lines_append (terminated_concat sep),
    lines_line hsep, List.singleton_append]

/-! ### Encoded texts -/

/-- A character encoding that keeps the terminators apart: `nl` is encoded as
`nl'` alone, no other character's code holds `nl'`, and texts are encoded
injectively. -/
structure Encoding (nl : α) (nl' : β) where
  code : α → List β
  code_nl : code nl = [nl']
  not_mem_code : ∀ c, c ≠ nl → nl' ∉ code c
  code_ne_nil : ∀ c, code c ≠ []
  injective : Function.Injective fun s : List α => s.flatMap code

variable {nl' : β}

theorem lines_prepend {l : List α} (hne : l ≠ []) (hl : nl ∉ l) (s : List α) :
    lines nl (l ++ s) = match lines nl s with
      | [] => [l]
      | m :: ms => (l ++ m) :: ms := by
  induction l with
  | nil => exact absurd rfl hne
  | cons c l ih =>
      rw [List.mem_cons, not_or] at hl
      rw [List.cons_append, lines, if_neg (Ne.symm hl.1)]
      by_cases hl0 : l = []
      · subst hl0
        rfl
      · rw [ih hl0 hl.2]
        cases lines nl s <;> rfl

/-- **An encoding that keeps the terminators apart encodes line by line.** -/
theorem lines_encode (e : Encoding nl nl') (s : List α) :
    lines nl' (s.flatMap e.code) = (lines nl s).map (·.flatMap e.code) := by
  induction s with
  | nil => rfl
  | cons c s ih =>
      rw [List.flatMap_cons]
      by_cases hc : c = nl
      · subst hc
        rw [e.code_nl, List.singleton_append, lines_cons_self, lines_cons_self, ih]
        rfl
      · rw [lines_prepend (e.code_ne_nil c) (e.not_mem_code c hc), ih, lines, if_neg hc]
        cases lines nl s <;> simp

end Lines

theorem toNat_of_isAlphanum {c : Char} (h : c.isAlphanum) : 48 ≤ c.toNat ∧ c.toNat < 128 := by
  have hc : ((decide (65 ≤ c.val ∧ c.val ≤ 90) || (97 ≤ c.val && c.val ≤ 122)) ||
      (48 ≤ c.val && c.val ≤ 57)) = true := h
  simp only [Bool.or_eq_true, Bool.and_eq_true, decide_eq_true_eq, UInt32.le_iff_toNat_le] at hc
  have hn : ((65 ≤ c.toNat ∧ c.toNat ≤ 90) ∨ (97 ≤ c.toNat ∧ c.toNat ≤ 122)) ∨
      (48 ≤ c.toNat ∧ c.toNat ≤ 57) := hc
  omega

/-- The UTF-8 encoding of a text. -/
def utf8 (s : List Char) : List UInt8 := s.flatMap String.utf8EncodeChar

@[simp] theorem utf8_nil : utf8 [] = [] := rfl

@[simp] theorem utf8_append (s t : List Char) : utf8 (s ++ t) = utf8 s ++ utf8 t :=
  List.flatMap_append

@[simp] theorem utf8_cons_newline (s : List Char) : utf8 ('\n' :: s) = 10 :: utf8 s := by
  have h : String.utf8EncodeChar '\n' = [10] := by decide
  rw [utf8, List.flatMap_cons, h]
  rfl

theorem utf8_injective : Function.Injective utf8 := by
  intro s t h
  have he : s.utf8Encode = t.utf8Encode := congrArg List.toByteArray h
  have hd := congrArg ByteArray.utf8Decode? he
  simpa using hd

/-- A byte of a character other than the line feed is not the line feed. -/
theorem not_mem_utf8EncodeChar {c : Char} (hc : c ≠ '\n') : 10 ∉ String.utf8EncodeChar c := by
  have hv : c.val.toNat ≠ 10 := fun h => hc (Char.ext (UInt32.toNat_inj.1 (by simpa using h)))
  unfold String.utf8EncodeChar
  dsimp only
  have key : ∀ n : ℕ, n < 256 → n ≠ 10 → (10 : UInt8) ≠ UInt8.ofNat n := by
    intro n hn hne he
    have := congrArg UInt8.toNat he
    simp only [UInt8.toNat_ofNat', UInt8.reduceToNat] at this
    omega
  split_ifs <;> simp only [List.mem_cons, List.not_mem_nil, or_false, not_or]
  · exact key _ (by omega) hv
  · exact ⟨key _ (by omega) (by omega), key _ (by omega) (by omega)⟩
  · exact ⟨key _ (by omega) (by omega), key _ (by omega) (by omega), key _ (by omega) (by omega)⟩
  · exact ⟨key _ (by omega) (by omega), key _ (by omega) (by omega), key _ (by omega) (by omega),
      key _ (by omega) (by omega)⟩

/-- UTF-8 keeps the line feed apart. -/
def utf8Encoding : Lines.Encoding '\n' (10 : UInt8) where
  code := String.utf8EncodeChar
  code_nl := by decide
  not_mem_code _ hc := not_mem_utf8EncodeChar hc
  code_ne_nil _ := String.utf8EncodeChar_ne_nil
  injective := utf8_injective

theorem utf8_inj {s t : List Char} : utf8 s = utf8 t ↔ s = t := utf8_injective.eq_iff

/-- The lines of an encoded text are the encoded lines of the text. -/
theorem lines_utf8 (s : List Char) : Lines.lines 10 (utf8 s) = (Lines.lines '\n' s).map utf8 :=
  Lines.lines_encode utf8Encoding s

theorem terminated_utf8 {s : List Char} (h : Lines.Terminated '\n' s) :
    Lines.Terminated 10 (utf8 s) := by
  rcases h with rfl | ⟨t, rfl⟩
  · exact Lines.terminated_nil
  · rw [utf8_append, utf8_cons_newline, utf8_nil]
    exact Lines.terminated_concat _

theorem utf8_joinBlocks (sep : List Char) (bs : List (List Char)) :
    utf8 (Lines.joinBlocks '\n' sep bs) = Lines.joinBlocks 10 (utf8 sep) (bs.map utf8) := by
  have h : ∀ cs : List (List Char), utf8 (cs.flatMap fun c => sep ++ '\n' :: c) =
      (cs.map utf8).flatMap fun c => utf8 sep ++ 10 :: c := by
    intro cs
    induction cs with
    | nil => rfl
    | cons c cs ih => simp [ih]
  cases bs with
  | nil => rfl
  | cons b bs => rw [Lines.joinBlocks, utf8_append, h, List.map_cons, Lines.joinBlocks]

end WorkerNg
