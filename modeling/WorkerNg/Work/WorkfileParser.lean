/-
# The Python workfile parser

`WorkfileParser` in `scripts/worker/workfile_parser.py`, which `wresume` uses to
pick items out of an old workfile.

`parse` is a generator: it collects lines and yields what it has collected at a
separator line.  After the last line it *returns* the item collected, and a
value returned by a generator is not yielded.  So of a workfile that
`create_workfile` wrote it yields all items but the last
(`parse_createWorkfile`), where the server dispenses every one of them.
-/

import WorkerNg.Work.Workfile
import Mathlib.Data.List.DropRight

namespace WorkerNg
namespace Work

open Lines

/-- `str.isspace` for one character. -/
def isSpace (c : Char) : Bool :=
  [0x9, 0xa, 0xb, 0xc, 0xd, 0x1c, 0x1d, 0x1e, 0x1f, 0x20, 0x85, 0xa0, 0x1680, 0x2000, 0x2001,
    0x2002, 0x2003, 0x2004, 0x2005, 0x2006, 0x2007, 0x2008, 0x2009, 0x200a, 0x2028, 0x2029,
    0x202f, 0x205f, 0x3000].contains c.toNat

/-- `str.strip`. -/
def strip (s : Text) : Text := (s.dropWhile isSpace).rdropWhile isSpace

/-- Reading a file in text mode: every `\r\n` and `\r` becomes `\n`. -/
@[grind =]
def universalNewlines : Text → Text
  | '\r' :: '\n' :: s => '\n' :: universalNewlines s
  | '\r' :: s => '\n' :: universalNewlines s
  | c :: s => c :: universalNewlines s
  | [] => []

/-- The loop of `WorkfileParser.parse` over the lines left, with the item
collected so far: the items yielded. -/
@[grind =]
def parseLines (sep : Text) : List Text → Text → List Text
  | [], _ => []  -- `return workitem` ends the generator
  | line :: file, workitem =>
      if strip line = sep then workitem :: parseLines sep file []
      else parseLines sep file (workitem ++ line)

/-- `WorkfileParser(sep).parse` on a file with the given text. -/
def parse (sep file : Text) : List Text :=
  parseLines sep (keepLines '\n' (universalNewlines file)) []

/-! ### What is yielded -/

/-- Text without carriage returns is read as it is, whatever follows. -/
theorem universalNewlines_append {s : Text} (h : '\r' ∉ s) (t : Text) :
    universalNewlines (s ++ t) = s ++ universalNewlines t := by
  induction s with
  | nil => rfl
  | cons c s ih =>
      rw [List.mem_cons, not_or] at h
      rw [List.cons_append, universalNewlines, ih h.2, List.cons_append]
      · exact fun _ hc _ => h.1 hc.symm
      · exact fun hc => h.1 hc.symm

theorem universalNewlines_eq {s : Text} (h : '\r' ∉ s) : universalNewlines s = s := by
  have happ := universalNewlines_append h []
  rwa [List.append_nil, universalNewlines, List.append_nil] at happ

/-- No carriage return is left. -/
theorem not_mem_universalNewlines (s : Text) : '\r' ∉ universalNewlines s := by
  fun_induction universalNewlines s with
  | case1 s ih => simpa using ih
  | case2 s hs ih => simpa using ih
  | case3 c s h₁ h₂ ih =>
      rw [List.mem_cons, not_or]
      exact ⟨fun hc => h₂ hc.symm, ih⟩
  | case4 => exact List.not_mem_nil

/-- A terminated text stays one. -/
theorem terminated_universalNewlines {s : Text} (h : Terminated '\n' s) :
    Terminated '\n' (universalNewlines s) := by
  have hconcat : ∀ t : Text, ∃ u, universalNewlines (t ++ ['\n']) = u ++ ['\n'] := by
    intro t
    fun_induction universalNewlines t with
    | case1 t ih =>
        obtain ⟨u, hu⟩ := ih
        refine ⟨'\n' :: u, ?_⟩
        rw [List.cons_append, List.cons_append, universalNewlines, hu, List.cons_append]
    | case2 t ht ih =>
        cases t with
        | nil => exact ⟨[], rfl⟩
        | cons c t =>
            obtain ⟨u, hu⟩ := ih
            refine ⟨'\n' :: u, ?_⟩
            rw [List.cons_append, universalNewlines, hu, List.cons_append]
            rintro _ h
            exact ht _ (by rw [(List.cons.inj h).1])
    | case3 c t h₁ h₂ ih =>
        obtain ⟨u, hu⟩ := ih
        refine ⟨c :: u, ?_⟩
        rw [List.cons_append, universalNewlines, hu, List.cons_append]
        · exact fun _ hc _ => h₂ hc
        · exact h₂
    | case4 => exact ⟨[], rfl⟩
  rcases h with rfl | ⟨t, rfl⟩
  · exact terminated_nil
  · exact Or.inr (hconcat t)

theorem rdropWhile_append_cons {α : Type} {p : α → Bool} {a : α} (ha : ¬p a = true) (l m : List α) :
    (l ++ a :: m).rdropWhile p = l ++ a :: m.rdropWhile p := by
  induction m using List.reverseRecOn with
  | nil => rw [List.rdropWhile_concat_neg _ _ _ ha, List.rdropWhile_nil]
  | append_singleton m x ih =>
      rw [← List.cons_append, ← List.append_assoc]
      by_cases hx : p x = true
      · rw [List.rdropWhile_concat_pos _ _ _ hx, List.rdropWhile_concat_pos _ _ _ hx, ih]
      · rw [List.rdropWhile_concat_neg _ _ _ hx, List.rdropWhile_concat_neg _ _ _ hx,
          List.append_assoc, List.cons_append]

theorem strip_newline (s : Text) : strip (s ++ ['\n']) = strip s := by
  have hn : isSpace '\n' = true := by decide
  unfold strip
  rw [List.dropWhile_append]
  split_ifs with h
  · have h₀ : s.dropWhile isSpace = [] := by simpa using h
    simp [h₀, hn]
  · rw [List.rdropWhile_concat_pos _ _ _ hn]

/-- Lines that are not the separator are collected. -/
theorem parseLines_append {sep : Text} {ls : List Text} (h : ∀ l ∈ ls, strip l ≠ sep)
    (ms : List Text) (workitem : Text) :
    parseLines sep (ls ++ ms) workitem = parseLines sep ms (workitem ++ ls.flatten) := by
  induction ls generalizing workitem with
  | nil => simp
  | cons l ls ih =>
      rw [List.forall_mem_cons] at h
      rw [List.cons_append, parseLines, if_neg h.1, ih h.2]
      simp

theorem flatten_map_newline (s : Text) :
    ((lines '\n' s).map (· ++ ['\n'])).flatten = unlines '\n' (lines '\n' s) := by
  rw [unlines, List.flatMap]

/-- **Of a file of items the Python parser yields all but the last.** -/
theorem parseLines_joinBlocks {sep : Text} (hsep : strip sep = sep) (hnl : '\n' ∉ sep)
    {is : List Text} (ht : ∀ i ∈ is, Terminated '\n' i)
    (h : ∀ i ∈ is, ∀ l ∈ lines '\n' i, strip l ≠ sep) :
    parseLines sep ((lines '\n' (joinBlocks '\n' sep is)).map (· ++ ['\n'])) [] = is.dropLast := by
  induction is with
  | nil => rfl
  | cons i is ih =>
      rw [List.forall_mem_cons] at ht h
      have hi : ∀ l ∈ (lines '\n' i).map (· ++ ['\n']), strip l ≠ sep := by
        intro l hl
        obtain ⟨m, hm, rfl⟩ := List.mem_map.1 hl
        rw [strip_newline]
        exact h.1 m hm
      cases is with
      | nil =>
          rw [joinBlocks, List.flatMap_nil, List.append_nil]
          have hp := parseLines_append hi [] []
          rw [List.append_nil] at hp
          exact hp
      | cons j is =>
          rw [lines_joinBlocks_cons_cons hnl ht.1, List.map_append, parseLines_append hi,
            List.map_cons, parseLines, if_pos ((strip_newline sep).trans hsep), ih ht.2 h.2,
            flatten_map_newline, unlines_lines ht.1]
          rfl

/-- **`WorkfileParser` drops the last item of every workfile.** -/
theorem parse_createWorkfile {sch : Scheduler} {script : Text} {sources : List (List Row)}
    {text : Text} {n : ℕ} (h : createWorkfile sch.config script sources = .ok (text, n))
    (hsep : ∀ i ∈ workitems script sources, ∀ l ∈ lines '\n' i,
      strip l ≠ sch.config.workitemSeparator)
    (hcr : '\r' ∉ text) :
    parse sch.config.workitemSeparator text = (workitems script sources).dropLast := by
  have ht : ∀ i ∈ workitems script sources, Terminated '\n' i := by
    intro i hi
    obtain ⟨d, -, rfl⟩ := List.mem_map.1 hi
    exact terminated_renderItem script _
  have hs : strip sch.config.workitemSeparator = sch.config.workitemSeparator ∧
      '\n' ∉ sch.config.workitemSeparator := by cases sch <;> decide
  rw [parse, universalNewlines_eq hcr, (createWorkfile_ok h).1,
    keepLines_eq (terminated_joinBlocks ht)]
  exact parseLines_joinBlocks hs.1 hs.2 ht hsep

/-- **The two readers never agree.**  On no workfile that `create_workfile` can
write does the Python parser yield the items the server dispenses: of `n` items
it yields the first `n - 1`. -/
theorem parse_ne_items {sch : Scheduler} {script : Text} {sources : List (List Row)}
    {text : Text} {n : ℕ} (h : createWorkfile sch.config script sources = .ok (text, n))
    (hsep : ∀ i ∈ workitems script sources, ∀ l ∈ lines '\n' i,
      strip l ≠ sch.config.workitemSeparator)
    (hcr : '\r' ∉ text) :
    (parse sch.config.workitemSeparator text).map utf8 ≠
      (WorkParser.ofStream (utf8 text) defaultSep).items := by
  have hstrip : strip sch.config.workitemSeparator = sch.config.workitemSeparator := by
    cases sch <;> decide
  have hitems := items_createWorkfile h fun i hi hmem => hsep i hi _ hmem hstrip
  rw [parse_createWorkfile h hsep hcr, hitems]
  intro he
  have hlen := congrArg List.length he
  have hpos := List.length_pos_iff.2 (createWorkfile_ok h).2.2
  simp only [List.length_map, List.length_dropLast] at hlen
  omega

/-- One source with the one row `x = 1`. -/
def oneRow : List (List Row) := [[⟨[("x".toList, "1".toList)], by decide⟩]]

theorem createWorkfile_oneRow :
    createWorkfile Scheduler.slurm.config "echo hello".toList oneRow =
      .ok ("export x='1'\n\necho hello\n".toList, 1) := rfl

theorem parse_ne_items_oneRow :
    (parse Scheduler.slurm.config.workitemSeparator
        "export x='1'\n\necho hello\n".toList).map utf8 ≠
      (WorkParser.ofStream (utf8 "export x='1'\n\necho hello\n".toList) defaultSep).items :=
  parse_ne_items createWorkfile_oneRow (by decide) (by decide)

/-- The single item of `oneRow`'s workfile is dispensed by the server and
dropped by the Python parser. -/
theorem not_forall_parse_eq_items :
    ¬∀ (sch : Scheduler) (script : Text) (sources : List (List Row)) (text : Text) (n : ℕ),
      createWorkfile sch.config script sources = .ok (text, n) →
      (∀ i ∈ workitems script sources, ∀ l ∈ lines '\n' i,
        strip l ≠ sch.config.workitemSeparator) →
      '\r' ∉ text →
      (parse sch.config.workitemSeparator text).map utf8 =
        (WorkParser.ofStream (utf8 text) defaultSep).items := by
  intro h
  have he := h _ _ _ _ _ createWorkfile_oneRow (by decide) (by decide)
  rw [parse_createWorkfile createWorkfile_oneRow (by decide) (by decide),
    items_createWorkfile createWorkfile_oneRow (by decide)] at he
  exact absurd he (by decide)

end Work
end WorkerNg
