/-
# Writing the workfile

`create_workfile` in `scripts/worker/utils.py` and `DataSource` in
`scripts/worker/data_sources.py`.

`DataSource` walks its sources in step, until the shortest is exhausted, and
merges the rows it finds into one dictionary, a later source overriding an
earlier one.  `create_workfile` writes one item for each merged row: an export
line for every variable, a blank line and the script.  The first item is written
before the loop, the others behind a separator line each; the file is UTF-8.

Whatever the script and the data, as long as no line of an item is the separator
line, the server's parser dispenses exactly these items (`items_createWorkfile`).
-/

import WorkerNg.Lib.Dict
import WorkerNg.Work.Parser

namespace WorkerNg
namespace Work

open Lines

/-- A row of a data source: the values of its variables. -/
abbrev Row := Dict Text Text

/-- What reading the data can raise. -/
inductive DataError
  | valueError (msg : String)
  | stopIteration
deriving DecidableEq

/-- `config['worker']['workitem_separator']`. -/
structure Config where
  workitemSeparator : Text
deriving DecidableEq

/-- The schedulers worker supports. -/
inductive Scheduler
  | slurm
  | pbs
deriving DecidableEq

/-- `conf/slurm_config.conf` and `conf/pbs_config.conf`. -/
def Scheduler.config : Scheduler → Config
  | .slurm => { workitemSeparator := "#WORKER----".toList }
  | .pbs => { workitemSeparator := "#WORKER----".toList }

/-! ### The data -/

/-- `zip(*data_sources)`: the tuples of the rows in the same place, as many as
the shortest source has. -/
def zipRows : List (List Row) → List (List Row)
  | [] => []
  | [s] => s.map ([·])
  | s :: t :: ss => List.zipWith (· :: ·) s (zipRows (t :: ss))

/-- `DataSource`: what its `zip` iterator has still to yield. -/
structure DataSource where
  iter : List (List Row)

/-- `DataSource.__init__`, the sources being opened already. -/
def DataSource.new (sources : List (List Row)) : Except DataError DataSource :=
  if sources = [] then .error (.valueError "no data sources specified") else .ok ⟨zipRows sources⟩

/-- `DataSource.__next__`: the next rows, merged. -/
def DataSource.next : DataSource → Except DataError (Row × DataSource)
  | ⟨[]⟩ => .error .stopIteration
  | ⟨d :: ds⟩ => .ok (Dict.updateAll d, ⟨ds⟩)

/-! ### The file -/

/-- `print(s, file=file)`. -/
def printLine (s : Text) : Text := s ++ ['\n']

/-- One work item: the exports of `data`, a blank line and the script. -/
def renderItem (script : Text) (data : Row) : Text :=
  (data.entries.flatMap fun (varName, value) =>
    printLine ("export ".toList ++ varName ++ "='".toList ++ value ++ "'".toList)) ++
  printLine [] ++ printLine script

/-- The loop of `create_workfile` over the rows that are left, with the text
written and the items counted so far. -/
def writeItems (config : Config) (script : Text) : List (List Row) → Text × ℕ → Text × ℕ
  | [], acc => acc
  | d :: ds, (file, nrWorkitems) =>
      writeItems config script ds
        (file ++ printLine config.workitemSeparator ++ renderItem script (Dict.updateAll d),
          nrWorkitems + 1)

/-- `create_workfile`: the text written and the number of work items. -/
def createWorkfile (config : Config) (script : Text) (sources : List (List Row)) :
    Except DataError (Text × ℕ) := do
  let dataSources ← DataSource.new sources
  let (data, dataSources) ← dataSources.next
  return writeItems config script dataSources.iter (renderItem script data, 1)

/-! ### What is written -/

/-- The items of the workfile, in order. -/
def workitems (script : Text) (sources : List (List Row)) : List Text :=
  (zipRows sources).map fun d => renderItem script (Dict.updateAll d)

theorem writeItems_eq (config : Config) (script : Text) (ds : List (List Row)) (file : Text)
    (n : ℕ) :
    writeItems config script ds (file, n) = (file ++
        (ds.map fun d => renderItem script (Dict.updateAll d)).flatMap
          (fun j => config.workitemSeparator ++ '\n' :: j), n + ds.length) := by
  induction ds generalizing file n with
  | nil => simp [writeItems]
  | cons d ds ih =>
      rw [writeItems, ih, List.length_cons, Nat.add_right_comm, Nat.add_assoc]
      simp [printLine]

/-- With rows to write `create_workfile` succeeds. -/
theorem exists_createWorkfile (config : Config) (script : Text) {sources : List (List Row)}
    (h : zipRows sources ≠ []) : ∃ r, createWorkfile config script sources = .ok r := by
  obtain ⟨d, ds, hz⟩ := List.exists_cons_of_ne_nil h
  have h₀ : sources ≠ [] := by
    rintro rfl
    exact h rfl
  refine ⟨writeItems config script ds (renderItem script (Dict.updateAll d), 1), ?_⟩
  rw [createWorkfile, DataSource.new, if_neg h₀, hz]
  rfl

/-- **`create_workfile` writes the items of the workfile** and returns their
number; there is at least one. -/
theorem createWorkfile_ok {config : Config} {script : Text} {sources : List (List Row)}
    {text : Text} {n : ℕ} (h : createWorkfile config script sources = .ok (text, n)) :
    text = joinBlocks '\n' config.workitemSeparator (workitems script sources) ∧
      n = (workitems script sources).length ∧ workitems script sources ≠ [] := by
  unfold createWorkfile DataSource.new at h
  split_ifs at h with h₀
  · cases h
  · cases hz : zipRows sources with
    | nil =>
        rw [hz] at h
        cases h
    | cons d ds =>
        rw [hz] at h
        have he : writeItems config script ds (renderItem script (Dict.updateAll d), 1) =
            (text, n) := Except.ok.inj h
        rw [writeItems_eq, Prod.mk.injEq] at he
        refine ⟨he.1.symm.trans ?_, he.2.symm.trans ?_, by simp [workitems, hz]⟩
        · simp [workitems, hz, joinBlocks]
        · simp [workitems, hz, Nat.add_comm]

/-- As many tuples as the shortest source has rows. -/
theorem length_zipRows {sources : List (List Row)} {m : ℕ}
    (hm : (sources.map List.length).min? = some m) : (zipRows sources).length = m := by
  induction sources generalizing m with
  | nil => simp at hm
  | cons s ss ih =>
      cases ss with
      | nil => simpa [zipRows] using hm
      | cons t ss =>
          obtain ⟨k, hk⟩ : ∃ k, ((t :: ss).map List.length).min? = some k :=
            Option.isSome_iff_exists.1 (by simp)
          rw [List.map_cons, List.min?_cons, hk] at hm
          have hmin : min s.length k = m := by simpa using hm
          rw [zipRows, List.length_zipWith, ih hk, hmin]

/-- The tuple at place `k` is made of the rows at place `k`. -/
theorem getElem_zipRows {sources : List (List Row)} {k : ℕ} (hk : k < (zipRows sources).length) :
    (zipRows sources)[k] = sources.filterMap (·[k]?) := by
  induction sources with
  | nil => simp [zipRows] at hk
  | cons s ss ih =>
      cases ss with
      | nil =>
          have hs : k < s.length := by simpa [zipRows] using hk
          simp [zipRows, hs]
      | cons t ss =>
          have hlt : k < s.length ∧ k < (zipRows (t :: ss)).length := by
            rwa [zipRows, List.length_zipWith, Nat.lt_min] at hk
          have hs : s[k]? = some s[k] := List.getElem?_eq_getElem hlt.1
          have hz : (zipRows (s :: t :: ss))[k] = s[k] :: (zipRows (t :: ss)).get ⟨k, hlt.2⟩ := by
            simp [zipRows]
          rw [hz, List.get_eq_getElem, ih hlt.2, eq_comm]
          simp only [List.filterMap_cons, hs]

theorem terminated_renderItem (script : Text) (data : Row) :
    Terminated '\n' (renderItem script data) := by
  rw [renderItem, printLine, printLine, ← List.append_assoc]
  exact terminated_concat _

theorem renderItem_ne_nil (script : Text) (data : Row) : renderItem script data ≠ [] := by
  simp [renderItem, printLine]

/-- An item without a line equal to the separator is one the server's parser
can read back. -/
theorem isItem_renderItem {sep script : Text} {data : Row}
    (h : sep ∉ lines '\n' (renderItem script data)) :
    IsItem (utf8 sep) (utf8 (renderItem script data)) where
  terminated := terminated_utf8 (terminated_renderItem script data)
  ne_nil := by
    rw [← utf8_nil, Ne, utf8_inj]
    exact renderItem_ne_nil script data
  sep_not_mem := by
    rw [lines_utf8, List.mem_map]
    rintro ⟨l, hl, he⟩
    exact h (utf8_inj.1 he ▸ hl)

theorem defaultSep_eq (sch : Scheduler) : utf8 sch.config.workitemSeparator = defaultSep := by
  cases sch <;> rfl

/-- **The server's parser dispenses the items `create_workfile` wrote.** -/
theorem items_createWorkfile {sch : Scheduler} {script : Text} {sources : List (List Row)}
    {text : Text} {n : ℕ} (h : createWorkfile sch.config script sources = .ok (text, n))
    (hsep : ∀ i ∈ workitems script sources, sch.config.workitemSeparator ∉ lines '\n' i) :
    (WorkParser.ofStream (utf8 text) defaultSep).items = (workitems script sources).map utf8 := by
  rw [(createWorkfile_ok h).1, utf8_joinBlocks, defaultSep_eq]
  refine items_joinBlocks (by decide) fun i hi => ?_
  obtain ⟨j, hj, rfl⟩ := List.mem_map.1 hi
  have hjs := hsep j hj
  obtain ⟨d, -, rfl⟩ := List.mem_map.1 hj
  exact defaultSep_eq sch ▸ isItem_renderItem hjs

/-! ### What the data says -/

/-- The text of a work item: an export line for every variable of the row, a
blank line, the script and a newline. -/
def itemText (script : Text) (row : Row) : Text :=
  (row.entries.map fun e => "export ".toList ++ e.1 ++ "='".toList ++ e.2 ++ "'\n".toList).flatten ++
    '\n' :: script ++ ['\n']

theorem renderItem_eq_itemText (script : Text) (row : Row) :
    renderItem script row = itemText script row := by
  simp [renderItem, itemText, printLine, List.flatMap]

/-- The `k`-th rows of the sources that have one, merged. -/
def mergedRow (sources : List (List Row)) (k : ℕ) : Row :=
  Dict.updateAll (sources.filterMap (·[k]?))

/-- **The workfile means what the data says.**  With a shortest source of
`m ≥ 1` rows and no item line equal to the separator, `create_workfile` returns
`m`, and the server's parser over the file it wrote dispenses `m` items, the
`k`-th of them being the text of the merged `k`-th rows, where the last source
with a variable decides its value.  None of them is empty, and `has_next` holds
until the `m`-th is dispensed. -/
theorem workfile_means_data (sch : Scheduler) (script : Text) (sources : List (List Row)) (m : ℕ)
    (hm : (sources.map List.length).min? = some m) (hpos : 1 ≤ m)
    (hsep : ∀ i ∈ workitems script sources, sch.config.workitemSeparator ∉ lines '\n' i) :
    ∃ text, createWorkfile sch.config script sources = .ok (text, m) ∧
      (WorkParser.ofStream (utf8 text) defaultSep).items =
        (List.range m).map (fun k => utf8 (itemText script (mergedRow sources k))) ∧
      (∀ k v, (mergedRow sources k).get? v =
        ((sources.filterMap (·[k]?)).filterMap (·.get? v)).getLast?) ∧
      (∀ i ∈ (WorkParser.ofStream (utf8 text) defaultSep).items, i ≠ []) ∧
      ∀ k ≤ m, ((WorkParser.ofStream (utf8 text) defaultSep).afterCalls k).hasNext =
        decide (k < m) := by
  have hlen : (zipRows sources).length = m := length_zipRows hm
  have hne : zipRows sources ≠ [] := by
    rw [← List.length_pos_iff]
    omega
  obtain ⟨⟨text, n⟩, htext⟩ := exists_createWorkfile sch.config script hne
  have hn : n = m := by
    rw [(createWorkfile_ok htext).2.1, workitems, List.length_map, hlen]
  subst hn
  have hitems := items_createWorkfile htext hsep
  have hall : (WorkParser.ofStream (utf8 text) defaultSep).items =
      (List.range n).map fun k => utf8 (itemText script (mergedRow sources k)) := by
    rw [hitems, workitems, List.map_map]
    refine List.ext_getElem (by simp [hlen]) fun k hk _ => ?_
    have hkz : k < (zipRows sources).length := by simpa using hk
    simp [mergedRow, renderItem_eq_itemText, getElem_zipRows hkz]
  have hil : (WorkParser.ofStream (utf8 text) defaultSep).items.length = n := by
    rw [hall, List.length_map, List.length_range]
  refine ⟨text, htext, hall, fun k => Dict.get?_updateAll _, fun i hi => ?_, fun k hk => ?_⟩
  · rw [hitems, List.mem_map] at hi
    obtain ⟨j, hj, rfl⟩ := hi
    obtain ⟨d, -, rfl⟩ := List.mem_map.1 hj
    rw [← utf8_nil, Ne, utf8_inj]
    exact renderItem_ne_nil script _
  · rw [WorkParser.hasNext_afterCalls _ (hil.symm ▸ hk), hil]

/-- Two sources of unequal length, of which the second overrides a variable of
the first: two items. -/
theorem workfile_means_data_two_sources :
    ∃ text, createWorkfile Scheduler.slurm.config "echo $x $y".toList
        [[⟨[("x".toList, "1".toList), ("y".toList, "a b".toList)], by decide⟩,
          ⟨[("x".toList, "2".toList)], by decide⟩, ⟨[("x".toList, "3".toList)], by decide⟩],
         [⟨[("y".toList, "".toList)], by decide⟩,
          ⟨[("y".toList, "c".toList)], by decide⟩]] = .ok (text, 2) ∧
      (WorkParser.ofStream (utf8 text) defaultSep).items =
        [utf8 "export x='1'\nexport y=''\n\necho $x $y\n".toList,
          utf8 "export x='2'\nexport y='c'\n\necho $x $y\n".toList] := by
  obtain ⟨text, h₁, h₂, -⟩ := workfile_means_data .slurm "echo $x $y".toList
    [[⟨[("x".toList, "1".toList), ("y".toList, "a b".toList)], by decide⟩,
      ⟨[("x".toList, "2".toList)], by decide⟩, ⟨[("x".toList, "3".toList)], by decide⟩],
     [⟨[("y".toList, "".toList)], by decide⟩,
      ⟨[("y".toList, "c".toList)], by decide⟩]] 2 (by decide) (by decide) (by decide)
  exact ⟨text, h₁, h₂.trans (by decide)⟩

end Work
end WorkerNg
