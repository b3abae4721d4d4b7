/-
# Picking items out of a workfile

`filter_workfile` in `scripts/worker/workfile_parser.py`, with which `wresume`
writes the workfile of the new job.

It writes those of the items that `WorkfileParser` yields whose number is asked
for, each followed by a newline of its own, and a separator line between two of
them.  A line of an item yielded never is a separator line, and with its newline
no item is empty, so the server's parser dispenses exactly what was selected
(`items_filterWorkfile`), whatever the input and the numbers.
-/

import WorkerNg.Work.WorkfileParser

namespace WorkerNg
namespace Work

open Lines

/-- The loop of `filter_workfile` over the items yielded and their places, with
the text written and the items counted so far. -/
def filterItems (sep : Text) (itemIds : List ℤ) : List (Text × ℕ) → Text × ℕ → Text × ℕ
  | [], acc => acc
  | (workitem, i) :: items, (file, itemCount) =>
      if (i : ℤ) + 1 ∈ itemIds then
        filterItems sep itemIds items
          ((if itemCount > 0 then file ++ printLine sep else file) ++ printLine workitem,
            itemCount + 1)
      else filterItems sep itemIds items (file, itemCount)

/-- `filter_workfile`: the text of the output file and the number returned. -/
def filterWorkfile (input sep : Text) (itemIds : List ℤ) : Text × ℕ :=
  filterItems sep itemIds (parse sep input).zipIdx ([], 0)

/-! ### What is written -/

/-- The items selected, in the order of the input. -/
def selected (itemIds : List ℤ) (items : List (Text × ℕ)) : List Text :=
  (items.filter fun p => decide ((p.2 : ℤ) + 1 ∈ itemIds)).map Prod.fst

theorem filterItems_pos (sep : Text) (itemIds : List ℤ) (items : List (Text × ℕ)) (file : Text)
    {n : ℕ} (hn : 0 < n) :
    filterItems sep itemIds items (file, n) =
      (file ++ ((selected itemIds items).map printLine).flatMap (fun j => sep ++ '\n' :: j),
        n + (selected itemIds items).length) := by
  induction items generalizing file n with
  | nil => simp [filterItems, selected]
  | cons p items ih =>
      obtain ⟨w, i⟩ := p
      rw [filterItems]
      by_cases hi : (i : ℤ) + 1 ∈ itemIds
      · rw [if_pos hi, if_pos hn, ih _ n.succ_pos]
        simp [selected, hi, printLine, Nat.add_assoc, Nat.add_comm 1]
      · rw [if_neg hi, ih _ hn]
        simp [selected, hi]

/-- **`filter_workfile` writes the items selected**, a separator line before each
but the first, and returns their number. -/
theorem filterItems_nil (sep : Text) (itemIds : List ℤ) (items : List (Text × ℕ)) :
    filterItems sep itemIds items ([], 0) =
      (joinBlocks '\n' sep ((selected itemIds items).map printLine),
        (selected itemIds items).length) := by
  induction items with
  | nil => rfl
  | cons p items ih =>
      obtain ⟨w, i⟩ := p
      rw [filterItems]
      by_cases hi : (i : ℤ) + 1 ∈ itemIds
      · rw [if_pos hi, if_neg (lt_irrefl 0), filterItems_pos _ _ _ _ Nat.one_pos]
        simp [selected, hi, joinBlocks, Nat.add_comm]
      · rw [if_neg hi, ih]
        simp [selected, hi]

/-! ### The items yielded -/

/-- The lines of an item that the parser yields: each has its newline, and none
is a separator line. -/
structure IsYielded (sep w : Text) : Prop where
  terminated : Terminated '\n' w
  strip_ne : ∀ l ∈ lines '\n' w, strip l ≠ sep

theorem isYielded_nil (sep : Text) : IsYielded sep [] :=
  ⟨terminated_nil, fun _ hl => absurd hl List.not_mem_nil⟩

theorem IsYielded.append_line {sep w l : Text} (h : IsYielded sep w) (hl : '\n' ∉ l)
    (hne : strip l ≠ sep) : IsYielded sep (w ++ (l ++ ['\n'])) where
  terminated := terminated_append h.terminated (terminated_concat l)
  strip_ne m hm := by
    rw [lines_append h.terminated, lines_line hl, List.mem_append, List.mem_singleton] at hm
    rcases hm with hm | rfl
    · exact h.strip_ne m hm
    · exact hne

/-- **What the parser yields** from lines that all have their newline, but for
the last: the item collected at a separator line has none of its own. -/
theorem isYielded_of_mem_parseLines {sep : Text} {file : List Text} {workitem w : Text}
    (hfile : ∀ line ∈ file.dropLast, ∃ l, '\n' ∉ l ∧ line = l ++ ['\n'])
    (hw : IsYielded sep workitem) (h : w ∈ parseLines sep file workitem) : IsYielded sep w := by
  induction file generalizing workitem with
  | nil => exact absurd h List.not_mem_nil
  | cons line file ih =>
      have htail : ∀ line ∈ file.dropLast, ∃ l, '\n' ∉ l ∧ line = l ++ ['\n'] := by
        intro m hm
        cases file with
        | nil => exact absurd hm List.not_mem_nil
        | cons m' file => exact hfile m (List.mem_cons_of_mem _ hm)
      rw [parseLines] at h
      split_ifs at h with hs
      · rcases List.mem_cons.1 h with rfl | h
        · exact hw
        · exact ih htail (isYielded_nil sep) h
      · cases file with
        | nil => exact absurd h List.not_mem_nil
        | cons m file =>
            obtain ⟨l, hl, rfl⟩ := hfile line List.mem_cons_self
            rw [strip_newline] at hs
            exact ih htail (hw.append_line hl hs) h

theorem isYielded_of_mem_parse {sep input w : Text} (h : w ∈ parse sep input) : IsYielded sep w :=
  isYielded_of_mem_parseLines (fun _ => exists_of_mem_dropLast_keepLines) (isYielded_nil sep) h

/-- With its own newline an item yielded is one the server's parser can read
back, whatever it holds. -/
theorem IsYielded.isItem {sep w : Text} (hsep : strip sep = sep) (hne : sep ≠ [])
    (h : IsYielded sep w) : IsItem (utf8 sep) (utf8 (printLine w)) where
  terminated := terminated_utf8 (terminated_concat w)
  ne_nil := by
    rw [← utf8_nil, Ne, utf8_inj]
    simp [printLine]
  sep_not_mem := by
    have hlines : lines '\n' (printLine w) = lines '\n' w ++ [[]] := lines_append h.terminated _
    rw [lines_utf8, hlines, List.mem_map]
    rintro ⟨l, hl, he⟩
    obtain rfl := utf8_inj.1 he
    rcases List.mem_append.1 hl with hl | hl
    · exact h.strip_ne l hl hsep
    · exact hne (List.mem_singleton.1 hl)

theorem mem_parse_of_mem_selected {sep input w : Text} {itemIds : List ℤ}
    (h : w ∈ selected itemIds (parse sep input).zipIdx) : w ∈ parse sep input := by
  obtain ⟨⟨w, i⟩, hp, rfl⟩ := List.mem_map.1 h
  exact List.fst_mem_of_mem_zipIdx (List.mem_filter.1 hp).1

/-- The numbers from 1 to `m` that are asked for, in order. -/
def selectedIds (itemIds : List ℤ) (m : ℕ) : List ℕ :=
  (List.range' 1 m).filter fun i : ℕ => decide ((i : ℤ) ∈ itemIds)

theorem selected_zipIdx (itemIds : List ℤ) (items : List Text) (k : ℕ) :
    selected itemIds (items.zipIdx k) =
      ((List.range' (k + 1) items.length).filter fun i : ℕ => decide ((i : ℤ) ∈ itemIds)).filterMap
        fun i : ℕ => items[i - (k + 1)]? := by
  induction items generalizing k with
  | nil => rfl
  | cons w items ih =>
      have hrest : ((List.range' (k + 1 + 1) items.length).filter
            fun i : ℕ => decide ((i : ℤ) ∈ itemIds)).filterMap
              (fun i : ℕ => (w :: items)[i - (k + 1)]?) = selected itemIds (items.zipIdx (k + 1)) := by
        rw [ih]
        refine List.filterMap_congr fun i hi => ?_
        have hle := (List.mem_range'_1.1 (List.mem_filter.1 hi).1).1
        rw [show i - (k + 1) = i - (k + 1 + 1) + 1 by omega, List.getElem?_cons_succ]
      have hcast : ((k + 1 : ℕ) : ℤ) = (k : ℤ) + 1 := by omega
      rw [List.length_cons, List.range'_succ, List.filter_cons, hcast]
      by_cases hk : (k : ℤ) + 1 ∈ itemIds
      · rw [if_pos (by simpa using hk), List.filterMap_cons, hrest]
        simp [selected, List.zipIdx_cons, hk]
      · rw [if_neg (by simpa using hk), hrest]
        simp [selected, List.zipIdx_cons, hk]

/-- The separator that `wresume` passes to `filter_workfile`. -/
def filterSep : Text := "#WORKER----".toList

/-- **The server reads back exactly the items selected.**  Whatever the input
text and the numbers asked for: drained over the output of `filter_workfile`,
the server's parser dispenses the items `wᵢ` that `WorkfileParser` yields from
the input, each with a newline, for the `i` among the numbers, in order and once
each, and `filter_workfile` returns how many there are. -/
theorem items_filterWorkfile (input : Text) (itemIds : List ℤ) :
    (WorkParser.ofStream (utf8 (filterWorkfile input filterSep itemIds).1) defaultSep).items =
        (selectedIds itemIds (parse filterSep input).length).filterMap
          (fun i : ℕ => (parse filterSep input)[i - 1]?.map fun w => utf8 (w ++ ['\n'])) ∧
      (filterWorkfile input filterSep itemIds).2 =
        (selectedIds itemIds (parse filterSep input).length).length := by
  have hsel : selected itemIds (parse filterSep input).zipIdx =
      (selectedIds itemIds (parse filterSep input).length).filterMap
        fun i : ℕ => (parse filterSep input)[i - 1]? := selected_zipIdx itemIds _ 0
  have hlen : (selected itemIds (parse filterSep input).zipIdx).length =
      (selectedIds itemIds (parse filterSep input).length).length := by
    rw [hsel, List.length_filterMap_eq_countP, List.countP_eq_length]
    intro i hi
    have hrange := List.mem_range'_1.1 (List.mem_filter.1 hi).1
    rw [List.getElem?_eq_getElem (by omega), Option.isSome_some]
  have hitem : ∀ i ∈ ((selected itemIds (parse filterSep input).zipIdx).map printLine).map utf8,
      IsItem (utf8 filterSep) i := by
    intro i hi
    rw [List.map_map] at hi
    obtain ⟨w, hw, rfl⟩ := List.mem_map.1 hi
    exact (isYielded_of_mem_parse (mem_parse_of_mem_selected hw)).isItem (by decide) (by decide)
  have hsep : utf8 filterSep = defaultSep := rfl
  rw [filterWorkfile, filterItems_nil, utf8_joinBlocks, hsep]
  refine ⟨?_, hlen⟩
  rw [items_joinBlocks (by decide) (hsep ▸ hitem), hsel, List.map_map, List.map_filterMap]
  rfl

/-- An item that is empty, asked for twice along with a number out of range. -/
example : filterWorkfile "#WORKER----\nls\n #WORKER----\n#WORKER----\npwd\n".toList filterSep
    [7, 1, 3, 1] = ("\n#WORKER----\n\n".toList, 2) := by decide

end Work
end WorkerNg
