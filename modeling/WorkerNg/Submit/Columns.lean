/-
# Which variables a work item gets

`DataSource` zips the rows of its sources, and each CSV source zips the names of
its columns with the fields of a row.  Both stop at the shorter side.  That the
sources end together is meant; that a row of fields ends before its names do
leaves a work item without a variable.

The columns of a source are its names and how many fields each of its rows has
(`Columns`).  The variables of the `k`-th work item are the names that have a field
there, in some source (`get?_updateAll_ne_none`), so all work items have the same
variables, namely all names, exactly if every name without a field in one place
has one in another (`sameVariables_iff`).
-/

import WorkerNg.Submit.DataSources

namespace WorkerNg
namespace Submit

open Work (Row strip)
open Resume (CharTable)

/-! ### Iterating a data source -/

/-- What iterating a data source yields: the dictionaries that its `__next__`
returns, up to the first exception. -/
inductive DataSource.Yields : DataSource → Row → Prop
  | here {s s' : DataSource} {d : Row} : s.next = .ok (d, s') → Yields s d
  | later {s s' : DataSource} {d d' : Row} : s.next = .ok (d', s') → Yields s' d → Yields s d

/-- The tuples up to the `k`-th one can be read. -/
def DataSource.Reaches (s : DataSource) (k : ℕ) : Prop := ∀ j ≤ k, ∃ ds, s.tuple j = .ok ds

namespace DataSource

variable {s s' : DataSource} {d : Row} {k : ℕ}

theorem next_eq_ok (h : s.next = .ok (d, s')) :
    ∃ ds, s.tuple 0 = .ok ds ∧ d = Dict.updateAll ds ∧ s' = s.tail := by
  rw [next_eq] at h
  cases ht : s.tuple 0 with
  | error e =>
      rw [ht] at h
      cases h
  | ok ds =>
      rw [ht] at h
      obtain ⟨rfl, rfl⟩ := Prod.mk.inj (Except.ok.inj h)
      exact ⟨ds, rfl, rfl, rfl⟩

theorem reaches_succ {ds : List Row} (h : s.tuple 0 = .ok ds) :
    s.Reaches (k + 1) ↔ s.tail.Reaches k := by
  constructor
  · intro hr j hj
    rw [tuple_tail]
    exact hr (j + 1) (by omega)
  · intro hr j hj
    cases j with
    | zero => exact ⟨ds, h⟩
    | succ j =>
        rw [← tuple_tail]
        exact hr j (by omega)

/-- The dictionaries yielded are the tuples of rows that can be read, merged. -/
theorem yields_iff : s.Yields d ↔ ∃ k ds, s.Reaches k ∧ s.tuple k = .ok ds ∧
    d = Dict.updateAll ds := by
  constructor
  · intro h
    induction h with
    | here hnext =>
        obtain ⟨ds, ht, rfl, -⟩ := next_eq_ok hnext
        refine ⟨0, ds, fun j hj => ?_, ht, rfl⟩
        obtain rfl : j = 0 := by omega
        exact ⟨ds, ht⟩
    | later hnext _ ih =>
        obtain ⟨ds₀, ht₀, -, rfl⟩ := next_eq_ok hnext
        obtain ⟨k, ds, hr, ht, rfl⟩ := ih
        rw [tuple_tail] at ht
        exact ⟨k + 1, ds, (reaches_succ ht₀).2 hr, ht, rfl⟩
  · rintro ⟨k, ds, hr, ht, rfl⟩
    induction k generalizing s with
    | zero =>
        have hnext : s.next = .ok (Dict.updateAll ds, s.tail) := by rw [next_eq, ht]; rfl
        exact .here hnext
    | succ k ih =>
        obtain ⟨ds₀, ht₀⟩ := hr 0 (by omega)
        rw [← tuple_tail] at ht
        exact .later (by rw [next_eq, ht₀]; rfl) (ih ((reaches_succ ht₀).1 hr) ht)

end DataSource

/-! ### Columns -/

/-- The names of the columns of a source, and how many fields its rows have. -/
structure Columns where
  names : List Text
  fields : ℕ → ℕ

/-- The names that have a field in the `k`-th row. -/
def Columns.present (c : Columns) (k : ℕ) : List Text := c.names.take (c.fields k)

/-- The names whose column is cut off in the `k`-th row. -/
def Columns.cutOff (c : Columns) (k : ℕ) : List Text := c.names.drop (c.fields k)

/-- How many fields the `k`-th row of a CSV file has. -/
def fieldCount (reader : List (Except ReadError (List Text))) (k : ℕ) : ℕ :=
  match reader[k]? with
  | some (.ok values) => values.length
  | _ => 0

/-- A single column: every line is its field. -/
def Contents.singleColumn (file : Contents) : Columns :=
  match file.readline with
  | .ok line :: _ => ⟨[strip line], fun _ => 1⟩
  | _ => ⟨[], fun _ => 0⟩

/-- The columns of a data file: the first line has their names. -/
def DataFile.columns : DataFile → Columns
  | .error _ => ⟨[], fun _ => 0⟩
  | .ok file =>
      match file.sniff, file.reader with
      | .ok _, .ok fieldnames :: reader => ⟨fieldnames, fieldCount reader⟩
      | _, _ => file.singleColumn

/-- The columns of all sources: the files and the array variable. -/
def allColumns (filenames : Option (List DataFile)) (arraySpec : Option Text) (arrayVar : Text) :
    List Columns :=
  (filenames.getD []).map DataFile.columns ++
    arraySpec.toList.map fun _ => ⟨[arrayVar], fun _ => 1⟩

/-- The rows of a source have the names that are present as their keys. -/
def Columns.Describes (c : Columns) (source : Source) : Prop :=
  ∀ k row, rowAt k source = .ok row → ∀ n, row.get? n ≠ none ↔ n ∈ c.present k

theorem get?_foldl_set (kvs : List (Text × Text)) (d : Row) (n : Text) :
    (kvs.foldl (fun d kv => d.set kv.1 kv.2) d).get? n ≠ none ↔
      n ∈ kvs.map Prod.fst ∨ d.get? n ≠ none := by
  induction kvs generalizing d with
  | nil => simp
  | cons kv kvs ih =>
      rw [List.foldl_cons, ih, Dict.get?_set, List.map_cons, List.mem_cons]
      split_ifs with h
      · simp [h]
      · simp [h]

/-- A row of a CSV file has the names that have a field. -/
theorem get?_row (fieldnames values : List Text) (n : Text) :
    (CsvDataSource.row fieldnames values).get? n ≠ none ↔ n ∈ fieldnames.take values.length := by
  have hfst : (fieldnames.zip values).map Prod.fst = fieldnames.take values.length := by
    induction fieldnames generalizing values with
    | nil => simp
    | cons f fieldnames ih =>
        cases values with
        | nil => rfl
        | cons v values => simp [ih]
  rw [CsvDataSource.row, get?_foldl_set, hfst, Dict.get?_empty]
  simp

/-! ### The columns describe the sources -/

theorem get?_singleton (n m value : Text) :
    (Dict.empty.set n value : Row).get? m ≠ none ↔ m ∈ [n] := by
  rw [Dict.get?_set, Dict.get?_empty, List.mem_singleton]
  split_ifs with h
  · simp [h]
  · simp [h]

/-- A source all of whose rows hold one name. -/
theorem describes_single {name : Text} {source : Source}
    (h : ∀ k row, rowAt k source = .ok row → ∃ value, row = Dict.empty.set name value) :
    Columns.Describes ⟨[name], fun _ => 1⟩ source := by
  intro k row hrow n
  obtain ⟨value, rfl⟩ := h k row hrow
  exact get?_singleton name n value

theorem rowAt_rows {fieldname : Text} {lines : List (Except Text Text)} {k : ℕ} {row : Row}
    (h : rowAt k (SingleColumnDataSource.rows fieldname lines) = .ok row) :
    ∃ value, row = Dict.empty.set fieldname value := by
  induction lines generalizing k with
  | nil => cases h
  | cons line lines ih =>
      match line, k with
      | .error message, 0 => cases h
      | .error message, k + 1 => cases h
      | .ok [], k => cases h
      | .ok (c :: t), 0 => exact ⟨_, (Except.ok.inj h).symm⟩
      | .ok (c :: t), k + 1 =>
          have htail := rowAt_tail k
            (SingleColumnDataSource.rows fieldname (.ok (c :: t) :: lines))
          rw [← htail] at h
          exact ih h

/-- A CSV file, when it can be opened as one. -/
theorem describes_csv {file : DataFile} {source : Source}
    (h : CsvDataSource.new file = .ok source) : file.columns.Describes source := by
  unfold CsvDataSource.new at h
  unfold DataFile.columns
  split at h
  next => cases h
  next file =>
    split at h
    next => cases h
    next => cases h
    next => cases h
    next fieldnames reader hsniff hreader =>
      obtain rfl := Except.ok.inj h
      intro k row hrow n
      simp only [hsniff, hreader]
      rw [rowAt, List.getElem?_map] at hrow
      show _ ↔ n ∈ fieldnames.take (fieldCount reader k)
      unfold fieldCount
      rcases hk : reader[k]? with _ | (e | values)
      · rw [hk] at hrow
        cases hrow
      · rw [hk] at hrow
        cases hrow
      · rw [hk] at hrow
        obtain rfl := Except.ok.inj hrow
        exact get?_row fieldnames values n

/-- What can not be opened as a CSV file has a single column. -/
theorem columns_of_error {file : Contents} {e : PyException}
    (h : CsvDataSource.new (.ok file) = .error e) :
    DataFile.columns (.ok file) = file.singleColumn := by
  unfold CsvDataSource.new at h
  unfold DataFile.columns
  dsimp only at h ⊢
  split at h
  next hsniff => simp only [hsniff]
  next hsniff hreader => simp only [hsniff, hreader]
  next hsniff hreader => simp only [hsniff, hreader]
  next => cases h

/-- A single column, when it can be read as one. -/
theorem describes_singleColumn {file : Contents} {source : Source}
    (h : SingleColumnDataSource.new (.ok file) = .ok source) :
    file.singleColumn.Describes source := by
  unfold SingleColumnDataSource.new at h
  unfold Contents.singleColumn
  dsimp only at h
  rcases hlines : file.readline with _ | ⟨line | line, lines⟩
  · rw [hlines] at h
    cases h
  · rw [hlines] at h
    cases h
  · rw [hlines] at h
    dsimp only [List.headD_cons, List.tail_cons] at h
    split_ifs at h
    obtain rfl := Except.ok.inj h
    exact describes_single fun k row hrow => rowAt_rows hrow

/-- The columns of a data file describe the source that it is opened as. -/
theorem describes_openSource {file : DataFile} {source : Source}
    (h : openSource file = .ok source) : file.columns.Describes source := by
  unfold openSource at h
  split at h
  next source' hcsv =>
    obtain rfl := Except.ok.inj h
    exact describes_csv hcsv
  next csvError hcsv =>
    split_ifs at h
    split at h
    next source' hsingle =>
      obtain rfl := Except.ok.inj h
      match file with
      | .error e => cases hsingle
      | .ok file =>
          rw [columns_of_error hcsv]
          exact describes_singleColumn hsingle
    next => cases h

/-- The array variable describes the source of an array request. -/
theorem describes_range {tb : CharTable} {arrayVar rangeStr : Text} {source : Source}
    (h : RangeDataSource.new tb arrayVar rangeStr = .ok source) :
    Columns.Describes ⟨[arrayVar], fun _ => 1⟩ source := by
  refine describes_single fun k row hrow => ?_
  unfold RangeDataSource.new at h
  split_ifs at h
  obtain ⟨numbers, -, h⟩ := bind_eq_ok h
  obtain rfl := Except.ok.inj h
  rw [rowAt, List.getElem?_map] at hrow
  cases hk : numbers.flatten[k]? with
  | none =>
      rw [hk] at hrow
      cases hrow
  | some n =>
      rw [hk] at hrow
      exact ⟨pyStr n, (Except.ok.inj hrow).symm⟩

/-! ### All sources -/

section Sources

variable {tb : CharTable} {filenames : Option (List DataFile)} {arraySpec : Option Text}
  {arrayVar : Text} {s : DataSource} {k : ℕ}

/-- The columns describe the sources, one by one. -/
theorem describes_new (h : DataSource.new tb filenames arraySpec arrayVar = .ok s) :
    List.Forall₂ Columns.Describes (allColumns filenames arraySpec arrayVar)
      (s.first :: s.rest) := by
  unfold DataSource.new at h
  obtain ⟨files, hf, h⟩ := bind_eq_ok h
  obtain ⟨array, ha, h⟩ := bind_eq_ok h
  have hall : List.Forall₂ Columns.Describes (allColumns filenames arraySpec arrayVar)
      (files ++ array) := by
    refine List.rel_append ?_ ?_
    · refine List.forall₂_map_left_iff.2 ?_
      exact (mapM_eq_ok_iff.1 hf).imp fun _ _ => describes_openSource
    · refine List.forall₂_map_left_iff.2 ?_
      exact (mapM_eq_ok_iff.1 ha).imp fun _ _ => describes_range
  cases happ : files ++ array with
  | nil =>
      rw [happ] at h
      cases h
  | cons first rest =>
      rw [happ] at h hall
      obtain rfl := Except.ok.inj h
      exact hall

/-- The names of all columns. -/
def allNames (cs : List Columns) : List Text := cs.flatMap Columns.names

/-- The names that have a field in the `k`-th row of some source. -/
def allPresent (cs : List Columns) (k : ℕ) : List Text := cs.flatMap fun c => c.present k

/-- The names without a field in the `k`-th row of some source. -/
def allCutOff (cs : List Columns) (k : ℕ) : List Text := cs.flatMap fun c => c.cutOff k

/-- **The variables of a work item** are the names that have a field. -/
theorem mem_allPresent {cs : List Columns} {sources : List Source} {ds : List Row}
    (hcs : List.Forall₂ Columns.Describes cs sources) (hds : sources.mapM (rowAt k) = .ok ds)
    (n : Text) : (Dict.updateAll ds).get? n ≠ none ↔ n ∈ allPresent cs k := by
  have hrows := mapM_eq_ok_iff.1 hds
  clear hds
  rw [Dict.get?_updateAll_ne_none, allPresent]
  induction hcs generalizing ds with
  | nil =>
      cases hrows
      simp
  | cons hc _ ih =>
      cases hrows with
      | cons hrow hrows =>
          rw [List.exists_mem_cons_iff, List.flatMap_cons, List.mem_append, hc k _ hrow]
          exact or_congr_right (ih hrows)

/-- A name has a field or is cut off. -/
theorem mem_allNames {cs : List Columns} (k : ℕ) {n : Text} :
    n ∈ allNames cs ↔ n ∈ allPresent cs k ∨ n ∈ allCutOff cs k := by
  simp only [allNames, allPresent, allCutOff, List.mem_flatMap, Columns.present, Columns.cutOff]
  rw [← exists_or]
  refine exists_congr fun c => ?_
  rw [← and_or_left, ← List.mem_append, List.take_append_drop]

/-- Every dictionary yielded has the variables as its keys. -/
def SameVariables (s : DataSource) (names : List Text) : Prop :=
  ∀ d, s.Yields d → ∀ n, d.get? n ≠ none ↔ n ∈ names

/-- **Every work item gets every variable** exactly if, in all tuples of rows that
are read, a name whose column is cut off in its row has a field in another place:
in another column of the row, or in the row of another source. -/
theorem sameVariables_iff (h : DataSource.new tb filenames arraySpec arrayVar = .ok s) :
    SameVariables s (allNames (allColumns filenames arraySpec arrayVar)) ↔
      ∀ k, s.Reaches k → ∀ n ∈ allCutOff (allColumns filenames arraySpec arrayVar) k,
        n ∈ allPresent (allColumns filenames arraySpec arrayVar) k := by
  have hcs := describes_new h
  constructor
  · intro hsame k hr n hn
    obtain ⟨ds, hds⟩ := hr k le_rfl
    have hyields : s.Yields (Dict.updateAll ds) :=
      DataSource.yields_iff.2 ⟨k, ds, hr, hds, rfl⟩
    have hkey := (hsame _ hyields n).2 ((mem_allNames k).2 (.inr hn))
    exact (mem_allPresent hcs hds n).1 hkey
  · intro hall d hd n
    obtain ⟨k, ds, hr, hds, rfl⟩ := DataSource.yields_iff.1 hd
    rw [mem_allPresent hcs hds, mem_allNames k, or_iff_left_of_imp (hall k hr n)]

end Sources

/-- A file with the columns `a` and `b` and two lines of fields. -/
def twoColumns (values values' : List Text) : Contents where
  sniff := .ok ()
  reader := [.ok [['a'], ['b']], .ok values, .ok values']
  readline := []

/-- The source that the file is opened as. -/
def twoColumnsSource (values values' : List Text) : DataSource :=
  ⟨[values, values'].map fun values => .ok (CsvDataSource.row [['a'], ['b']] values), []⟩

/-- A line with more fields than columns does no harm. -/
theorem sameVariables_longLine :
    SameVariables (twoColumnsSource [['1'], ['2']] [['3'], ['4'], ['5']]) [['a'], ['b']] := by
  have hnew : DataSource.new Resume.asciiTable (some [.ok (twoColumns [['1'], ['2']]
      [['3'], ['4'], ['5']])]) none [] = .ok (twoColumnsSource [['1'], ['2']]
        [['3'], ['4'], ['5']]) := rfl
  refine (sameVariables_iff hnew).2 fun k hr n hn => ?_
  have hk : k < 2 := by
    by_contra hk
    obtain ⟨ds, hds⟩ := hr 2 (by omega)
    cases hds
  obtain rfl | rfl : k = 0 ∨ k = 1 := by omega
  · cases hn
  · cases hn

/-- **A blank line** is a work item without variables. -/
theorem exists_not_sameVariables :
    ∃ file s, DataSource.new Resume.asciiTable (some [.ok file]) none [] = .ok s ∧
      ¬SameVariables s (allNames (allColumns (some [.ok file]) none [])) := by
  refine ⟨twoColumns [['1'], ['2']] [], twoColumnsSource [['1'], ['2']] [], rfl, fun h => ?_⟩
  have hfirst : (twoColumnsSource [['1'], ['2']] []).next =
      .ok (CsvDataSource.row [['a'], ['b']] [['1'], ['2']], ⟨[.ok Dict.empty], []⟩) := rfl
  have hsecond : DataSource.next ⟨[.ok Dict.empty], []⟩ = .ok (Dict.empty, ⟨[], []⟩) := rfl
  have hyields : (twoColumnsSource [['1'], ['2']] []).Yields Dict.empty :=
    .later hfirst (.here hsecond)
  have hkey := (h _ hyields ['b']).2 (by decide)
  exact hkey (Dict.get?_empty _)

end Submit
end WorkerNg
