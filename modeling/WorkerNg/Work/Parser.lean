/-
# The server's work parser

`src/work_parser/work_parser.h` and `src/work_parser/work_parser.cpp`.

`Work_parser` reads a workfile one item ahead.  `parse_next` collects lines up
to the next separator line or the end of the stream, `next` hands out the item
read ahead and reads the following one, and `has_next` holds as long as the
item read ahead is not empty.

The empty item is the only sign of the end, so a separator line at the start of
the file, or two of them in a row, look like the end of the work: a drained
parser has dispensed the segments between the separators up to the first empty
one (`drain_parseNext`), and that is all the work exactly when no empty segment
stands before a non-empty one (`losesNoItem_iff`).
-/

import WorkerNg.Lib.Lines
import Mathlib.Data.List.Pairwise
import Mathlib.Data.List.TakeWhile
import Mathlib.Logic.Function.Iterate

namespace WorkerNg

/-- A C++ string: `char` is a byte. -/
abbrev Bytes := List UInt8

/-- A Python string. -/
abbrev Text := List Char

namespace Work

open Lines

/-- `Work_parser`: what is left of the input stream, the item read ahead, the
separator and the number of items returned so far. -/
structure WorkParser where
  ifs : Bytes
  nextItem : Bytes
  sep : Bytes
  nrItems : ℕ
deriving DecidableEq

/-- `Work_parser::DEFAULT_SEP`. -/
def defaultSep : Bytes := utf8 "#WORKER----".toList

/-- The loop of `parse_next`: the lines before the next separator line, each
with a newline, and what is left of the stream. -/
def parseLoop (sep ifs : Bytes) : Bytes × Bytes :=
  match _h : getline 10 ifs with
  | none => ([], [])
  | some (line, rest) =>
      if line = sep then ([], rest)
      else (line ++ 10 :: (parseLoop sep rest).1, (parseLoop sep rest).2)
termination_by ifs.length
decreasing_by all_goals exact getline_length_lt _h

namespace WorkParser

/-- `Work_parser::parse_next`. -/
def parseNext (p : WorkParser) : WorkParser :=
  { p with nextItem := (parseLoop p.sep p.ifs).1, ifs := (parseLoop p.sep p.ifs).2 }

/-- `Work_parser::Work_parser`: nothing returned yet, one item read ahead. -/
def ofStream (ifs sep : Bytes) : WorkParser := parseNext ⟨ifs, [], sep, 0⟩

/-- `Work_parser::has_next`. -/
def hasNext (p : WorkParser) : Bool := decide (p.nextItem.length > 0)

/-- The count of `next`: an item that is there is counted. -/
def countItem (p : WorkParser) : WorkParser :=
  { p with nrItems := if p.nextItem.length > 0 then p.nrItems + 1 else p.nrItems }

@[simp] theorem countItem_ifs (p : WorkParser) : p.countItem.ifs = p.ifs := rfl

@[simp] theorem countItem_sep (p : WorkParser) : p.countItem.sep = p.sep := rfl

/-- `Work_parser::next`: the item read ahead, counted when there is one. -/
def next (p : WorkParser) : Bytes × WorkParser := (p.nextItem, p.countItem.parseNext)

theorem hasNext_iff {p : WorkParser} : p.hasNext = true ↔ p.nextItem ≠ [] := by
  simp [hasNext, List.length_pos_iff]

theorem hasNext_eq_false_iff {p : WorkParser} : p.hasNext = false ↔ p.nextItem = [] := by
  rw [← Bool.not_eq_true, hasNext_iff, not_not]

end WorkParser

/-! ### One item -/

theorem parseLoop_nil (sep : Bytes) : parseLoop sep [] = ([], []) := by
  rw [parseLoop]
  rfl

theorem parseLoop_of_eq {sep ifs rest : Bytes} (h : getline 10 ifs = some (sep, rest)) :
    parseLoop sep ifs = ([], rest) := by
  rw [parseLoop]
  split
  · simp_all
  · simp_all

theorem parseLoop_of_ne {sep ifs line rest : Bytes} (h : getline 10 ifs = some (line, rest))
    (hne : line ≠ sep) :
    parseLoop sep ifs = (line ++ 10 :: (parseLoop sep rest).1, (parseLoop sep rest).2) := by
  rw [parseLoop]
  split
  · simp_all
  · simp_all

/-- An item is not longer than the stream, but for a newline that the last line
may lack, and what it leaves is not longer either. -/
theorem parseLoop_length (sep ifs : Bytes) :
    (parseLoop sep ifs).1.length + (parseLoop sep ifs).2.length ≤ ifs.length + 1 ∧
      (parseLoop sep ifs).2.length ≤ ifs.length := by
  induction hn : ifs.length using Nat.strong_induction_on generalizing ifs with
  | _ n ih =>
      subst hn
      cases hg : getline 10 ifs with
      | none =>
          obtain rfl := getline_eq_none_iff.1 hg
          simp [parseLoop_nil]
      | some lr =>
          obtain ⟨line, rest⟩ := lr
          have hlt := getline_length_lt hg
          have hlen := getline_length hg
          by_cases hs : line = sep
          · subst hs
            rw [parseLoop_of_eq hg]
            simp only [List.length_nil]
            omega
          · rw [parseLoop_of_ne hg hs]
            simp only [List.length_append, List.length_cons]
            by_cases hr : rest = []
            · subst hr
              simp only [parseLoop_nil, List.length_nil]
              omega
            · have := hlen.2 hr
              have := ih _ hlt rest rfl
              omega

/-- What a separator line cuts a text into, every line with its newline. -/
def segments (sep text : Bytes) : List Bytes := ((lines 10 text).splitOn sep).map (unlines 10)

theorem segments_nil (sep : Bytes) : segments sep [] = [[]] := rfl

theorem segments_of_eq {sep text rest : Bytes} (h : getline 10 text = some (sep, rest)) :
    segments sep text = [] :: segments sep rest := by
  simp [segments, lines_of_getline h, List.splitOn_cons_eq_if_modifyHead]

theorem segments_of_ne {sep text line rest : Bytes} (h : getline 10 text = some (line, rest))
    (hne : line ≠ sep) :
    segments sep text = (segments sep rest).modifyHead (line ++ 10 :: ·) := by
  simp only [segments, lines_of_getline h, List.splitOn_cons_eq_if_modifyHead, beq_iff_eq, hne,
    if_false]
  cases (lines 10 rest).splitOn sep <;> simp

/-- **`parse_next` reads one segment**: either the last one, which leaves
nothing in the stream, or one that a separator line ends. -/
theorem segments_eq_parseLoop (sep text : Bytes) :
    (segments sep text = [(parseLoop sep text).1] ∧ (parseLoop sep text).2 = []) ∨
      segments sep text = (parseLoop sep text).1 :: segments sep (parseLoop sep text).2 ∧
        (parseLoop sep text).2.length < text.length := by
  induction hn : text.length using Nat.strong_induction_on generalizing text with
  | _ n ih =>
      subst hn
      cases hg : getline 10 text with
      | none =>
          obtain rfl := getline_eq_none_iff.1 hg
          exact Or.inl (by simp [parseLoop_nil, segments_nil])
      | some lr =>
          obtain ⟨line, rest⟩ := lr
          have hlt := getline_length_lt hg
          by_cases hs : line = sep
          · subst hs
            rw [parseLoop_of_eq hg, segments_of_eq hg]
            exact Or.inr ⟨rfl, hlt⟩
          · rw [parseLoop_of_ne hg hs, segments_of_ne hg hs]
            rcases ih _ hlt rest rfl with ⟨h₁, h₂⟩ | ⟨h₁, h₂⟩
            · exact Or.inl ⟨by rw [h₁]; rfl, h₂⟩
            · refine Or.inr ⟨?_, h₂.trans hlt⟩
              rw [h₁]
              rfl

/-! ### Draining the parser -/

namespace WorkParser

/-- The calls to `next` that can still return an item: at most one for the item
read ahead and one for each byte of the stream. -/
def callsLeft (p : WorkParser) : ℕ := p.ifs.length + p.hasNext.toNat

theorem callsLeft_parseNext_le (p : WorkParser) : p.parseNext.callsLeft ≤ p.ifs.length := by
  have hb : p.parseNext.hasNext.toNat ≤ 1 := Bool.toNat_le _
  rcases segments_eq_parseLoop p.sep p.ifs with ⟨-, h⟩ | ⟨-, h⟩
  · have hr : p.parseNext.ifs.length = 0 := by simp [parseNext, h]
    cases hi : p.ifs with
    | nil => simp [callsLeft, parseNext, hasNext, hi, parseLoop_nil]
    | cons c s =>
        simp only [callsLeft, hr, List.length_cons]
        omega
  · have hr : p.parseNext.ifs.length < p.ifs.length := h
    unfold callsLeft
    omega

theorem callsLeft_next_lt {p : WorkParser} (h : p.hasNext = true) :
    p.next.2.callsLeft < p.callsLeft := by
  have hle : p.next.2.callsLeft ≤ p.ifs.length := callsLeft_parseNext_le p.countItem
  have hp : p.callsLeft = p.ifs.length + 1 := by simp [callsLeft, h]
  exact hp ▸ Nat.lt_succ_of_le hle

/-- Calling `next` as long as `has_next` holds: the items returned, and the
parser left. -/
def drain (p : WorkParser) : List Bytes × WorkParser :=
  if _h : p.hasNext then (p.next.1 :: p.next.2.drain.1, p.next.2.drain.2) else ([], p)
termination_by p.callsLeft
decreasing_by all_goals exact callsLeft_next_lt _h

theorem drain_of_hasNext {p : WorkParser} (h : p.hasNext = true) :
    p.drain = (p.nextItem :: p.next.2.drain.1, p.next.2.drain.2) := by
  rw [drain, dif_pos h]
  rfl

theorem drain_of_not_hasNext {p : WorkParser} (h : p.hasNext = false) : p.drain = ([], p) := by
  rw [drain, dif_neg (by simp [h])]

/-- The items a parser has still to dispense. -/
def items (p : WorkParser) : List Bytes := p.drain.1

theorem items_of_hasNext {p : WorkParser} (h : p.hasNext = true) :
    p.items = p.nextItem :: p.next.2.items := by rw [items, drain_of_hasNext h, items]

/-- Not more items than there are bytes. -/
theorem length_items_le_callsLeft (p : WorkParser) : p.items.length ≤ p.callsLeft := by
  unfold items
  fun_induction drain p with
  | case1 p h ih =>
      have := callsLeft_next_lt h
      simp only [List.length_cons]
      omega
  | case2 p h => exact Nat.zero_le _

theorem length_items_ofStream_le (text sep : Bytes) :
    (ofStream text sep).items.length ≤ text.length :=
  (length_items_le_callsLeft _).trans (callsLeft_parseNext_le ⟨text, [], sep, 0⟩)

/-- No item is longer than the item read ahead or than the stream. -/
theorem length_le_of_mem_items {p : WorkParser} {i : Bytes} (h : i ∈ p.items) :
    i.length ≤ p.nextItem.length ∨ i.length ≤ p.ifs.length + 1 := by
  unfold items at h
  fun_induction drain p with
  | case1 p hp ih =>
      rcases List.mem_cons.1 h with rfl | h
      · exact Or.inl le_rfl
      · have hlen := parseLoop_length p.sep p.ifs
        have hi := ih h
        simp only [next, parseNext, countItem_ifs, countItem_sep] at hi
        omega
  | case2 p hp => exact absurd h List.not_mem_nil

theorem length_le_of_mem_items_ofStream {text sep i : Bytes} (h : i ∈ (ofStream text sep).items) :
    i.length ≤ text.length + 1 := by
  have hi := length_le_of_mem_items h
  have hlen := parseLoop_length sep text
  simp only [ofStream, parseNext] at hi
  omega

/-- The parser after `k` calls of `next`. -/
def afterCalls (p : WorkParser) (k : ℕ) : WorkParser := (fun q => q.next.2)^[k] p

theorem items_eq_nil_iff {p : WorkParser} : p.items = [] ↔ p.hasNext = false := by
  cases h : p.hasNext
  · simp [items, drain_of_not_hasNext h]
  · simp [items_of_hasNext h]

/-- As long as there are items, a call of `next` takes the first of them. -/
theorem items_afterCalls (p : WorkParser) {k : ℕ} (hk : k ≤ p.items.length) :
    (p.afterCalls k).items = p.items.drop k := by
  induction k generalizing p with
  | zero => rfl
  | succ k ih =>
      have hp : p.hasNext = true := by
        by_contra h
        rw [items_eq_nil_iff.2 (by simpa using h)] at hk
        simp at hk
      rw [items_of_hasNext hp] at hk ⊢
      exact ih p.next.2 (Nat.le_of_succ_le_succ hk)

/-- `has_next` holds until the last item is dispensed. -/
theorem hasNext_afterCalls (p : WorkParser) {k : ℕ} (hk : k ≤ p.items.length) :
    (p.afterCalls k).hasNext = decide (k < p.items.length) := by
  have h := items_afterCalls p hk
  rcases Nat.lt_or_eq_of_le hk with hlt | rfl
  · have hne : (p.afterCalls k).items ≠ [] := by
      rw [h]
      simpa using hlt
    rw [decide_eq_true hlt]
    by_contra hf
    exact hne (items_eq_nil_iff.2 (by simpa using hf))
  · rw [List.drop_length] at h
    rw [items_eq_nil_iff.1 h]
    simp

theorem nrItems_next {p : WorkParser} (h : p.hasNext = true) : p.next.2.nrItems = p.nrItems + 1 :=
  if_pos (List.length_pos_iff.2 (hasNext_iff.1 h))

/-- `nr_items` counts what `next` returned while `has_next` held. -/
theorem nrItems_drain (p : WorkParser) : p.drain.2.nrItems = p.nrItems + p.items.length := by
  unfold items
  fun_induction drain p with
  | case1 p h ih =>
      rw [ih, nrItems_next h, List.length_cons]
      omega
  | case2 p h => rfl

/-- **What the drained parser has dispensed**: the segments of the stream up to
the first empty one. -/
theorem items_parseNext (p : WorkParser) :
    p.parseNext.items = (segments p.sep p.ifs).takeWhile (· ≠ []) := by
  induction hn : p.ifs.length using Nat.strong_induction_on generalizing p with
  | _ n ih =>
      subst hn
      cases h : p.parseNext.hasNext with
      | false =>
          have h₀ : (parseLoop p.sep p.ifs).1 = [] := hasNext_eq_false_iff.1 h
          rw [items_eq_nil_iff.2 h]
          rcases segments_eq_parseLoop p.sep p.ifs with ⟨hs, -⟩ | ⟨hs, -⟩ <;>
            simp [hs, h₀]
      | true =>
          have h₀ : (parseLoop p.sep p.ifs).1 ≠ [] := hasNext_iff.1 h
          rw [items_of_hasNext h]
          rcases segments_eq_parseLoop p.sep p.ifs with ⟨hs, hr⟩ | ⟨hs, hlt⟩
          · have hnil : p.parseNext.next.2.items = [] := by
              rw [items_eq_nil_iff, hasNext_eq_false_iff]
              simp [next, parseNext, hr, parseLoop_nil]
            rw [hnil, hs]
            simp [h₀, parseNext]
          · have hnext := ih _ hlt p.parseNext.countItem rfl
            rw [hs, List.takeWhile_cons_of_pos (by simpa using h₀)]
            exact congrArg _ hnext

theorem ifs_drain_of_ifs_nil {p : WorkParser} (h : p.ifs = []) : p.drain.2.ifs = [] := by
  fun_induction drain p with
  | case1 p hp ih => exact ih (by simp [next, parseNext, h, parseLoop_nil])
  | case2 p hp => exact h

/-- A non-empty segment that the drained parser has left in the stream stands
behind an empty one. -/
theorem segments_drain_parseNext (p : WorkParser) {t : Bytes} (hne : t ≠ [])
    (ht : t ∈ segments p.sep p.parseNext.drain.2.ifs) :
    ∃ l r, segments p.sep p.ifs = l ++ [] :: r ∧ t ∈ r := by
  induction hn : p.ifs.length using Nat.strong_induction_on generalizing p with
  | _ n ih =>
      subst hn
      rcases segments_eq_parseLoop p.sep p.ifs with ⟨-, hr⟩ | ⟨hs, hlt⟩
      · -- no separator line: the whole stream has been read
        rw [ifs_drain_of_ifs_nil (p := p.parseNext) hr, segments_nil, List.mem_singleton] at ht
        exact absurd ht hne
      · cases h : p.parseNext.hasNext with
        | false =>
            have h₀ : (parseLoop p.sep p.ifs).1 = [] := hasNext_eq_false_iff.1 h
            rw [drain_of_not_hasNext h] at ht
            exact ⟨[], segments p.sep (parseLoop p.sep p.ifs).2, by rw [hs, h₀, List.nil_append], ht⟩
        | true =>
            rw [drain_of_hasNext h] at ht
            obtain ⟨l, r, hlr, htr⟩ := ih _ hlt p.parseNext.countItem ht rfl
            refine ⟨(parseLoop p.sep p.ifs).1 :: l, r, ?_, htr⟩
            rw [hs, List.cons_append]
            exact congrArg _ hlr

end WorkParser

/-! ### A file of items -/

/-- An item that a file can hold: some lines, each with its newline and none of
them the separator. -/
structure IsItem (sep i : Bytes) : Prop where
  terminated : Terminated 10 i
  ne_nil : i ≠ []
  sep_not_mem : sep ∉ lines 10 i

/-- The segments of a file of items are its items. -/
theorem segments_joinBlocks {sep : Bytes} (hsep : 10 ∉ sep) {is : List Bytes} (hne : is ≠ [])
    (h : ∀ i ∈ is, IsItem sep i) : segments sep (joinBlocks 10 sep is) = is := by
  induction is with
  | nil => exact absurd rfl hne
  | cons i is ih =>
      rw [List.forall_mem_cons] at h
      obtain ⟨hi, his⟩ := h
      have hul : unlines 10 (lines 10 i) = i := unlines_lines hi.terminated
      cases is with
      | nil =>
          rw [joinBlocks, List.flatMap_nil, List.append_nil, segments,
            List.splitOn_eq_singleton hi.sep_not_mem, List.map_singleton, hul]
      | cons j is =>
          rw [segments, lines_joinBlocks_cons_cons hsep hi.terminated,
            List.splitOn_append_cons_self_of_not_mem hi.sep_not_mem, List.map_cons, hul]
          exact congrArg _ (ih (List.cons_ne_nil _ _) his)

/-- **A parser over a file of items dispenses these items.** -/
theorem items_joinBlocks {sep : Bytes} (hsep : 10 ∉ sep) {is : List Bytes}
    (h : ∀ i ∈ is, IsItem sep i) : (WorkParser.ofStream (joinBlocks 10 sep is) sep).items = is := by
  have hitems := WorkParser.items_parseNext ⟨joinBlocks 10 sep is, [], sep, 0⟩
  refine hitems.trans ?_
  by_cases hne : is = []
  · subst hne
    rfl
  · rw [segments_joinBlocks hsep hne h, List.takeWhile_eq_self_iff]
    exact fun i hi => by simpa using (h i hi).ne_nil

/-! ### No item is lost -/

/-- A parser over `text` loses no item: drained, it has returned all non-empty
segments of the text in order, it has left none in the stream, and `nr_items`
is their number. -/
def LosesNoItem (sep text : Bytes) : Prop :=
  (WorkParser.ofStream text sep).drain.1 = (segments sep text).filter (· ≠ []) ∧
    (∀ s ∈ segments sep (WorkParser.ofStream text sep).drain.2.ifs, s = []) ∧
    (WorkParser.ofStream text sep).drain.2.nrItems =
      (WorkParser.ofStream text sep).drain.1.length

/-- The elements before the first one without `P` are all elements with `P`
exactly when none of these comes later. -/
theorem takeWhile_eq_filter_iff {α : Type*} {P : α → Bool} {l : List α} :
    l.takeWhile P = l.filter P ↔ l.Pairwise fun a b => P a = false → P b = false := by
  induction l with
  | nil => simp
  | cons a l ih =>
      rw [List.pairwise_cons]
      cases ha : P a with
      | true => simp [ha, ih]
      | false =>
          have hf : l.filter P = [] ↔ ∀ b ∈ l, P b = false := by simp [List.filter_eq_nil_iff]
          rw [List.takeWhile_cons_of_neg (by simp [ha]), List.filter_cons_of_neg (by simp [ha]),
            eq_comm, hf]
          constructor
          · intro h
            exact ⟨fun b hb _ => h b hb,
              List.pairwise_of_forall_mem_list fun _ _ b hb _ => h b hb⟩
          · rintro ⟨h, -⟩ b hb
            exact h b hb rfl

/-- **`Work_parser` loses no work item exactly when no empty segment stands
before a non-empty one**, that is when no separator line that opens the file or
follows another separator line has work behind it. -/
theorem losesNoItem_iff (sep text : Bytes) :
    LosesNoItem sep text ↔ (segments sep text).Pairwise fun s t => s = [] → t = [] := by
  have hitems : (WorkParser.ofStream text sep).drain.1 = (segments sep text).takeWhile (· ≠ []) :=
    WorkParser.items_parseNext ⟨text, [], sep, 0⟩
  have hnr : (WorkParser.ofStream text sep).drain.2.nrItems =
      (WorkParser.ofStream text sep).drain.1.length := by
    rw [WorkParser.nrItems_drain]
    exact Nat.zero_add _
  have hiff : (WorkParser.ofStream text sep).drain.1 = (segments sep text).filter (· ≠ []) ↔
      (segments sep text).Pairwise fun s t => s = [] → t = [] := by
    rw [hitems, takeWhile_eq_filter_iff]
    simp only [ne_eq, decide_not, Bool.not_eq_false', decide_eq_true_eq]
  constructor
  · rintro ⟨h, -, -⟩
    exact hiff.1 h
  · intro h
    refine ⟨hiff.2 h, fun s hs => ?_, hnr⟩
    by_contra hne
    obtain ⟨l, r, hlr, hsr⟩ := WorkParser.segments_drain_parseNext ⟨text, [], sep, 0⟩ hne hs
    simp only at hlr
    rw [hlr, List.pairwise_append, List.pairwise_cons] at h
    exact hne (h.2.1.1 s hsr rfl)

/-- A separator line at the start of the workfile hides all of it: no item is
dispensed, one is left. -/
theorem not_losesNoItem_leading_separator :
    ¬LosesNoItem defaultSep (utf8 "#WORKER----\necho hello\n".toList) := by
  rintro ⟨h, -, -⟩
  have hitems := WorkParser.items_parseNext
    ⟨utf8 "#WORKER----\necho hello\n".toList, [], defaultSep, 0⟩
  have hne : (segments defaultSep (utf8 "#WORKER----\necho hello\n".toList)).takeWhile (· ≠ []) ≠
      (segments defaultSep (utf8 "#WORKER----\necho hello\n".toList)).filter (· ≠ []) := by
    decide
  exact hne (hitems.symm.trans h)

end Work
end WorkerNg
