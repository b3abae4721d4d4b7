/-
# Reading the data

`scripts/worker/data_sources.py` and `create_workfile` in
`scripts/worker/utils.py`, with everything that can go wrong in them.

A data file is given by what the calls come to that read it: opening it, sniffing
its dialect, the calls to the CSV reader and the calls to `readline`.  A source
is what its `__next__` comes to, call after call; behind the last call listed it
raises `StopIteration`.

The sources are read in step.  The `k`-th tuple of rows (`DataSource.tuple`) fails
with the exception of the first source that fails there; `FailsAt` is the first
place where a tuple does.  It decides `create_workfile` (`createWorkfile_spec`):
running out of rows is the end of the work, unless it is in the first place, and
every other exception comes through.  Where only running out of rows can happen,
this is the `create_workfile` of the rows (`createWorkfile_of_rows`).
-/

import WorkerNg.Lib.Except
import WorkerNg.Submit.SubmitOutput
import WorkerNg.Work.Workfile

namespace WorkerNg
namespace Submit

open Work (Row Scheduler Config isSpace strip printLine renderItem)
open Resume (CharTable digit natOf)

/-! ### Data files -/

/-- What reading an open CSV file can raise: `csv.Error`, or `UnicodeDecodeError`. -/
inductive ReadError
  | csvError (message : Text)
  | unicodeDecodeError (message : Text)
deriving DecidableEq

def ReadError.exception : ReadError → PyException
  | .csvError message => ⟨.csvError, message⟩
  | .unicodeDecodeError message => ⟨.valueError, message⟩

/-- What reading an open data file comes to: `sniff` on its first characters, the
calls to `next` of the CSV reader, and the calls to `readline`, of which only
`UnicodeDecodeError` can come. -/
structure Contents where
  sniff : Except ReadError Unit
  reader : List (Except ReadError (List Text))
  readline : List (Except Text Text)

/-- A file named with `--data`. -/
abbrev DataFile := Except OsError Contents

/-- What the calls to `__next__` of a data source come to, one after the other. -/
abbrev Source := List (Except PyException Row)

/-- `StopIteration`. -/
def stopIteration : PyException := ⟨.stopIteration, []⟩

/-- `{k:v for k,v in zip(self._fieldnames, values)}`. -/
def CsvDataSource.row (fieldnames values : List Text) : Row :=
  (fieldnames.zip values).foldl (fun d kv => d.set kv.1 kv.2) Dict.empty

/-- `CsvDataSource.__init__`, and what `__next__` comes to then. -/
def CsvDataSource.new : DataFile → Except PyException Source
  | .error e => .error e.exception
  | .ok file =>
      match file.sniff, file.reader with
      | .error e, _ => .error e.exception
      | .ok _, [] => .error stopIteration
      | .ok _, .error e :: _ => .error e.exception
      | .ok _, .ok fieldnames :: reader =>
          .ok (reader.map fun values =>
            (values.mapError ReadError.exception).map (CsvDataSource.row fieldnames))

/-- `[A-Za-z][A-Za-z0-9_]*`, for a text without blanks at its end. -/
def SingleColumnDataSource.isFieldname : Text → Bool
  | [] => false
  | c :: s => c.isAlpha && s.all fun d => d.isAlphanum || d == '_'

/-- What `SingleColumnDataSource.__next__` makes of the lines. -/
def SingleColumnDataSource.rows (fieldname : Text) : List (Except Text Text) → Source
  | [] => []
  | .error message :: _ => [.error ⟨.valueError, message⟩]
  | .ok [] :: _ => []
  | .ok line :: lines =>
      .ok (Dict.empty.set fieldname (line.rdropWhile isSpace)) ::
        SingleColumnDataSource.rows fieldname lines

/-- `SingleColumnDataSource.__init__`, and what `__next__` comes to then. -/
def SingleColumnDataSource.new : DataFile → Except PyException Source
  | .error e => .error e.exception
  | .ok file =>
      match file.readline.headD (.ok []) with
      | .error message => .error ⟨.valueError, message⟩
      | .ok line =>
          let fieldname := strip line
          if SingleColumnDataSource.isFieldname fieldname then
            .ok (SingleColumnDataSource.rows fieldname file.readline.tail)
          else .error ⟨.valueError,
            "'".toList ++ fieldname ++ "' is not a valid column name".toList⟩

/-- A CSV file or, if the CSV module finds an error in the beginning of it, a
single column; a `ValueError` from the latter gives way to the error of the
former. -/
def openSource (file : DataFile) : Except PyException Source :=
  match CsvDataSource.new file with
  | .ok source => .ok source
  | .error csvError =>
      if csvError.cls = .csvError then
        match SingleColumnDataSource.new file with
        | .ok source => .ok source
        | .error e => .error (if e.cls = .valueError then csvError else e)
      else .error csvError

/-! ### Array requests -/

variable (tb : CharTable)

/-- `int`, which takes no more than 4300 digits. -/
def pyInt (s : Text) : Except PyException ℕ :=
  if s.length ≤ 4300 then .ok (natOf tb s)
  else .error ⟨.valueError, "Exceeds the limit (4300 digits) for integer string conversion".toList⟩

/-- `\d+(?:\-\d+)?`: the one or two numbers of a range. -/
def RangeDataSource.isRange (s : Text) : Bool :=
  decide ((s.splitOn '-').length ≤ 2) &&
    (s.splitOn '-').all fun n => !n.isEmpty && n.all (digit tb)

/-- The ranges of an array expression; `$` matches before a newline at the end. -/
def RangeDataSource.ranges (rangeStr : Text) : List Text :=
  (if rangeStr.getLast? = some '\n' then rangeStr.dropLast else rangeStr).splitOn ','

/-- `RangeDataSource._is_valid`. -/
def RangeDataSource.isValid (rangeStr : Text) : Bool :=
  (RangeDataSource.ranges rangeStr).all (RangeDataSource.isRange tb)

/-- The numbers of a range. -/
def RangeDataSource.numbers (s : Text) : Except PyException (List ℕ) :=
  match s.splitOn '-' with
  | [a, b] => do
      let a ← pyInt tb a
      let b ← pyInt tb b
      return List.range' a (b + 1 - a)
  | _ => do
      let a ← pyInt tb s
      return [a]

/-- `str`, of a number. -/
def pyStr (n : ℕ) : Text := Nat.toDigits 10 n

/-- `RangeDataSource.__init__`, and what `__next__` comes to then. -/
def RangeDataSource.new (fieldname rangeStr : Text) : Except PyException Source :=
  if RangeDataSource.isValid tb rangeStr then do
    let numbers ← (RangeDataSource.ranges rangeStr).mapM (RangeDataSource.numbers tb)
    return numbers.flatten.map fun n => .ok (Dict.empty.set fieldname (pyStr n))
  else .error ⟨.valueError, "'".toList ++ rangeStr ++ "' is not a valid array expressin".toList⟩

/-! ### The sources in step -/

/-- `DataSource`: what its `zip` has still to read, of one source or more. -/
structure DataSource where
  first : Source
  rest : List Source

/-- `DataSource.__init__`. -/
def DataSource.new (filenames : Option (List DataFile)) (arraySpec : Option Text)
    (arrayVar : Text) : Except PyException DataSource := do
  let files ← (filenames.getD []).mapM openSource
  let array ← arraySpec.toList.mapM (RangeDataSource.new tb arrayVar)
  match files ++ array with
  | [] => .error ⟨.valueError, "no data sources specified".toList⟩
  | first :: rest => return ⟨first, rest⟩

/-- The next row of every source. -/
def nextAll : List Source → Except PyException (List Row × List Source)
  | [] => .ok ([], [])
  | [] :: _ => .error stopIteration
  | (row :: source) :: sources => do
      let d ← row
      let (ds, sources) ← nextAll sources
      return (d :: ds, source :: sources)

/-- `DataSource.__next__`: the next row of every source, merged. -/
def DataSource.next : DataSource → Except PyException (Row × DataSource)
  | ⟨[], _⟩ => .error stopIteration
  | ⟨row :: first, rest⟩ => do
      let d ← row
      let (ds, rest) ← nextAll rest
      return (Dict.updateAll (d :: ds), ⟨first, rest⟩)

/-- The loop of `create_workfile`. -/
def writeItems (config : Config) (script : Text) :
    Source → List Source → Text × ℕ → Except PyException (Text × ℕ)
  | [], _, acc => .ok acc
  | row :: first, rest, (file, nrWorkitems) =>
      match DataSource.next ⟨row :: first, rest⟩ with
      | .ok (data, dataSources) =>
          writeItems config script first dataSources.rest
            (file ++ printLine config.workitemSeparator ++ renderItem script data, nrWorkitems + 1)
      | .error e => if e.cls = .stopIteration then .ok (file, nrWorkitems) else .error e

/-- `config['scheduler']['arrayid_var_name']`. -/
def arrayidVarName : Scheduler → Text
  | .slurm => "SLURM_ARRAY_TASK_ID".toList
  | .pbs => "PBS_ARRAYID".toList

/-- `create_workfile`: the text written and the number of work items. -/
def createWorkfile (sch : Scheduler) (script : Text) (data : Option (List DataFile))
    (arrayRequest : Option Text) : Except PyException (Text × ℕ) := do
  let dataSources ← DataSource.new tb data arrayRequest (arrayidVarName sch)
  let (data, dataSources) ← dataSources.next
  writeItems sch.config script dataSources.first dataSources.rest (renderItem script data, 1)

/-! ### Tuples of rows -/

/-- What the call behind `k` others comes to. -/
def rowAt (k : ℕ) (source : Source) : Except PyException Row :=
  source[k]?.getD (.error stopIteration)

/-- The `k`-th rows of all sources, or the exception of the first one that fails. -/
def DataSource.tuple (s : DataSource) (k : ℕ) : Except PyException (List Row) :=
  (s.first :: s.rest).mapM (rowAt k)

/-- What is left behind the first tuple. -/
def DataSource.tail (s : DataSource) : DataSource := ⟨s.first.tail, s.rest.map List.tail⟩

theorem rowAt_tail (k : ℕ) (source : Source) : rowAt k source.tail = rowAt (k + 1) source := by
  rw [rowAt, List.getElem?_tail, rowAt]

theorem tuple_tail (s : DataSource) (k : ℕ) : s.tail.tuple k = s.tuple (k + 1) := by
  show ((s.first :: s.rest).map List.tail).mapM (rowAt k) = (s.first :: s.rest).mapM (rowAt (k + 1))
  rw [List.mapM_map]
  exact congrArg (List.mapM · (s.first :: s.rest)) (funext (rowAt_tail k))

theorem nextAll_eq (sources : List Source) : nextAll sources =
    (sources.mapM (rowAt 0)).map fun ds => (ds, sources.map List.tail) := by
  induction sources with
  | nil => rfl
  | cons source sources ih =>
      cases source with
      | nil => rfl
      | cons row source =>
          rw [nextAll, ih, List.mapM_cons]
          cases row with
          | error e => rfl
          | ok d =>
              cases sources.mapM (rowAt 0) with
              | error e => rfl
              | ok ds => rfl

/-- `DataSource.__next__` is the first tuple, merged. -/
theorem next_eq (s : DataSource) :
    s.next = (s.tuple 0).map fun ds => (Dict.updateAll ds, s.tail) := by
  obtain ⟨first, rest⟩ := s
  cases first with
  | nil => rfl
  | cons row first =>
      unfold DataSource.tuple
      rw [DataSource.next, nextAll_eq, List.mapM_cons]
      cases row with
      | error e => rfl
      | ok d =>
          cases rest.mapM (rowAt 0) with
          | error e => rfl
          | ok ds => rfl

/-- The first tuple that fails. -/
structure DataSource.FailsAt (s : DataSource) (k : ℕ) (e : PyException) : Prop where
  before : ∀ j < k, ∃ ds, s.tuple j = .ok ds
  failing : s.tuple k = .error e

namespace DataSource

variable {s : DataSource} {k k' : ℕ} {e e' : PyException}

theorem FailsAt.unique (h : s.FailsAt k e) (h' : s.FailsAt k' e') : k = k' ∧ e = e' := by
  have hle : k' ≤ k := by
    by_contra hlt
    obtain ⟨ds, hds⟩ := h'.before k (by omega)
    rw [h.failing] at hds
    cases hds
  have hge : k ≤ k' := by
    by_contra hlt
    obtain ⟨ds, hds⟩ := h.before k' (by omega)
    rw [h'.failing] at hds
    cases hds
  obtain rfl : k = k' := by omega
  exact ⟨rfl, Except.error.inj (h.failing.symm.trans h'.failing)⟩

theorem failsAt_zero : s.FailsAt 0 e ↔ s.tuple 0 = .error e :=
  ⟨FailsAt.failing, fun h => ⟨by simp, h⟩⟩

theorem failsAt_succ {ds : List Row} (h : s.tuple 0 = .ok ds) :
    s.FailsAt (k + 1) e ↔ s.tail.FailsAt k e := by
  constructor
  · intro hf
    refine ⟨fun j hj => ?_, ?_⟩
    · rw [tuple_tail]
      exact hf.before (j + 1) (by omega)
    · rw [tuple_tail]
      exact hf.failing
  · intro hf
    refine ⟨fun j hj => ?_, ?_⟩
    · cases j with
      | zero => exact ⟨ds, h⟩
      | succ j =>
          rw [← tuple_tail]
          exact hf.before j (by omega)
    · rw [← tuple_tail]
      exact hf.failing

theorem tuple_of_nil {rest : List Source} (k : ℕ) :
    DataSource.tuple ⟨[], rest⟩ k = .error stopIteration := by
  unfold DataSource.tuple
  rw [List.mapM_cons]
  rfl

/-- The sources are read to some end. -/
theorem exists_failsAt (s : DataSource) : ∃ k e, s.FailsAt k e := by
  obtain ⟨first, rest⟩ := s
  induction first generalizing rest with
  | nil => exact ⟨0, stopIteration, failsAt_zero.2 (tuple_of_nil 0)⟩
  | cons row first ih =>
      cases h : DataSource.tuple ⟨row :: first, rest⟩ 0 with
      | error e => exact ⟨0, e, failsAt_zero.2 h⟩
      | ok ds =>
          obtain ⟨k, e, hf⟩ := ih (rest.map List.tail)
          exact ⟨k + 1, e, (failsAt_succ h).2 hf⟩

end DataSource

/-! ### What `create_workfile` comes to -/

/-- **The loop of `create_workfile`** ends well when the rows run out; every other
exception comes through. -/
theorem writeItems_spec (config : Config) (script : Text) {s : DataSource} {k : ℕ}
    {e : PyException} (h : s.FailsAt k e) (acc : Text × ℕ) :
    (e.cls = .stopIteration → ∃ r, writeItems config script s.first s.rest acc = .ok r) ∧
      (e.cls ≠ .stopIteration → writeItems config script s.first s.rest acc = .error e) := by
  obtain ⟨first, rest⟩ := s
  induction first generalizing rest k acc with
  | nil =>
      obtain ⟨-, rfl⟩ := h.unique (DataSource.failsAt_zero.2 (DataSource.tuple_of_nil 0))
      exact ⟨fun _ => ⟨acc, rfl⟩, fun hne => absurd rfl hne⟩
  | cons row first ih =>
      obtain ⟨file, n⟩ := acc
      have hnext := next_eq ⟨row :: first, rest⟩
      cases ht : DataSource.tuple ⟨row :: first, rest⟩ 0 with
      | error e' =>
          obtain ⟨rfl, rfl⟩ := h.unique (DataSource.failsAt_zero.2 ht)
          rw [ht] at hnext
          show (_ → ∃ r, writeItems config script (row :: first) rest (file, n) = _) ∧
            (_ → writeItems config script (row :: first) rest (file, n) = _)
          rw [writeItems, hnext]
          refine ⟨fun hc => ⟨(file, n), if_pos hc⟩, fun hc => if_neg hc⟩
      | ok ds =>
          cases k with
          | zero =>
              rw [h.failing] at ht
              cases ht
          | succ k =>
              have htail := (DataSource.failsAt_succ ht).1 h
              rw [ht] at hnext
              have hi := ih
                (file ++ printLine config.workitemSeparator ++
                  renderItem script (Dict.updateAll ds), n + 1) (rest.map List.tail) htail
              show (_ → ∃ r, writeItems config script (row :: first) rest (file, n) = _) ∧
                (_ → writeItems config script (row :: first) rest (file, n) = _)
              rw [writeItems, hnext]
              exact hi

section Results

variable {sch : Scheduler} {script : Text} {data : Option (List DataFile)}
  {arrayRequest : Option Text} {s : DataSource} {k : ℕ} {e : PyException}

theorem createWorkfile_of_new_error
    (h : DataSource.new tb data arrayRequest (arrayidVarName sch) = .error e) :
    createWorkfile tb sch script data arrayRequest = .error e := by
  rw [createWorkfile, h]
  rfl

/-- **The first tuple that fails decides `create_workfile`**: it writes the workfile
if the rows run out behind the first tuple, and else the exception comes through. -/
theorem createWorkfile_spec
    (h : DataSource.new tb data arrayRequest (arrayidVarName sch) = .ok s)
    (hf : s.FailsAt k e) :
    (e.cls = .stopIteration ∧ 0 < k → ∃ r, createWorkfile tb sch script data arrayRequest = .ok r) ∧
      (¬ (e.cls = .stopIteration ∧ 0 < k) →
        createWorkfile tb sch script data arrayRequest = .error e) := by
  have hnext := next_eq s
  have heq : createWorkfile tb sch script data arrayRequest =
      s.next >>= fun r => writeItems sch.config script r.2.first r.2.rest
        (renderItem script r.1, 1) := by
    rw [createWorkfile, h]
    rfl
  cases k with
  | zero =>
      rw [hf.failing] at hnext
      have herr : createWorkfile tb sch script data arrayRequest = .error e := by
        rw [heq, hnext]
        rfl
      exact ⟨fun hk => absurd hk.2 (lt_irrefl 0), fun _ => herr⟩
  | succ k =>
      obtain ⟨ds, hds⟩ := hf.before 0 (by omega)
      rw [hds] at hnext
      have hw := writeItems_spec sch.config script ((DataSource.failsAt_succ hds).1 hf)
        (renderItem script (Dict.updateAll ds), 1)
      have hloop : createWorkfile tb sch script data arrayRequest =
          writeItems sch.config script s.tail.first s.tail.rest
            (renderItem script (Dict.updateAll ds), 1) := by
        rw [heq, hnext]
        rfl
      rw [hloop]
      refine ⟨fun hc => hw.1 hc.1, fun hc => hw.2 fun hstop => hc ⟨hstop, by omega⟩⟩

end Results

/-! ### Rows without failures -/

theorem zipRows_nil_cons (rest : List (List Row)) : Work.zipRows ([] :: rest) = [] := by
  cases rest with
  | nil => rfl
  | cons t ss => rfl

theorem zipRows_map_tail {sources : List (List Row)} (h : sources ≠ []) :
    Work.zipRows (sources.map List.tail) = (Work.zipRows sources).tail := by
  induction sources with
  | nil => exact absurd rfl h
  | cons s ss ih =>
      cases ss with
      | nil =>
          show s.tail.map ([·]) = (s.map ([·])).tail
          rw [List.map_tail]
      | cons t ss =>
          have ht : Work.zipRows (t.tail :: ss.map List.tail) = (Work.zipRows (t :: ss)).tail :=
            ih (List.cons_ne_nil t ss)
          show List.zipWith (· :: ·) s.tail (Work.zipRows (t.tail :: ss.map List.tail)) =
            (List.zipWith (· :: ·) s (Work.zipRows (t :: ss))).tail
          rw [ht, List.tail_zipWith]

/-- The first tuple of sources that can only run out of rows. -/
theorem mapM_rowAt_of_rows {sources : List (List Row)} (h : sources ≠ []) :
    (sources.map fun rows => (rows.map .ok : Source)).mapM (rowAt 0) =
      (Work.zipRows sources).head?.elim (.error stopIteration) .ok := by
  induction sources with
  | nil => exact absurd rfl h
  | cons s ss ih =>
      rw [List.map_cons, List.mapM_cons]
      cases s with
      | nil =>
          rw [zipRows_nil_cons]
          rfl
      | cons d s =>
          cases ss with
          | nil => rfl
          | cons t ss =>
              rw [ih (List.cons_ne_nil t ss), Work.zipRows]
              cases Work.zipRows (t :: ss) with
              | nil => rfl
              | cons ds dss => rfl

/-- Sources that can only run out of rows. -/
def DataSource.ofRows (first : List Row) (rest : List (List Row)) : DataSource :=
  ⟨first.map .ok, rest.map fun rows => rows.map .ok⟩

theorem tail_ofRows (first : List Row) (rest : List (List Row)) :
    (DataSource.ofRows first rest).tail = DataSource.ofRows first.tail (rest.map List.tail) := by
  simp only [DataSource.ofRows, DataSource.tail, List.map_map, Function.comp_def, List.map_tail]

theorem next_ofRows (first : List Row) (rest : List (List Row)) :
    (DataSource.ofRows first rest).next =
      (Work.zipRows (first :: rest)).head?.elim (.error stopIteration) fun ds =>
        .ok (Dict.updateAll ds, DataSource.ofRows first.tail (rest.map List.tail)) := by
  have htuple : (DataSource.ofRows first rest).tuple 0 =
      (Work.zipRows (first :: rest)).head?.elim (.error stopIteration) .ok :=
    mapM_rowAt_of_rows (List.cons_ne_nil first rest)
  rw [next_eq, htuple, tail_ofRows]
  cases Work.zipRows (first :: rest) with
  | nil => rfl
  | cons ds dss => rfl

theorem writeItems_ofRows (config : Config) (script : Text) (first : List Row)
    (rest : List (List Row)) (acc : Text × ℕ) :
    writeItems config script (DataSource.ofRows first rest).first
        (DataSource.ofRows first rest).rest acc =
      .ok (Work.writeItems config script (Work.zipRows (first :: rest)) acc) := by
  induction first generalizing rest acc with
  | nil =>
      rw [zipRows_nil_cons]
      rfl
  | cons d first ih =>
      obtain ⟨file, n⟩ := acc
      have hnext := next_ofRows (d :: first) rest
      have htail : Work.zipRows (first :: rest.map List.tail) =
          (Work.zipRows ((d :: first) :: rest)).tail :=
        zipRows_map_tail (List.cons_ne_nil (d :: first) rest)
      show writeItems config script (.ok d :: first.map .ok) _ (file, n) = _
      rw [writeItems]
      show (match (DataSource.ofRows (d :: first) rest).next with
        | .ok (data, dataSources) => _
        | .error e => _) = _
      rw [hnext]
      cases hz : Work.zipRows ((d :: first) :: rest) with
      | nil => rfl
      | cons ds dss =>
          rw [hz, List.tail_cons] at htail
          have hi := ih (rest.map List.tail)
            (file ++ printLine config.workitemSeparator ++ renderItem script (Dict.updateAll ds),
              n + 1)
          rw [htail] at hi
          exact hi

/-- **Where only rows can run out** `create_workfile` is that of the rows. -/
theorem createWorkfile_of_rows {sch : Scheduler} {script : Text} {data : Option (List DataFile)}
    {arrayRequest : Option Text} {first : List Row} {rest : List (List Row)}
    (h : DataSource.new tb data arrayRequest (arrayidVarName sch) =
      .ok (DataSource.ofRows first rest)) :
    createWorkfile tb sch script data arrayRequest =
      (Work.createWorkfile sch.config script (first :: rest)).mapError fun _ => stopIteration := by
  have hnew : Work.DataSource.new (first :: rest) = .ok ⟨Work.zipRows (first :: rest)⟩ :=
    if_neg (List.cons_ne_nil first rest)
  have htail : Work.zipRows (first.tail :: rest.map List.tail) =
      (Work.zipRows (first :: rest)).tail := zipRows_map_tail (List.cons_ne_nil first rest)
  rw [createWorkfile, h, Work.createWorkfile, hnew]
  show ((DataSource.ofRows first rest).next >>= _) = _
  rw [next_ofRows]
  cases hz : Work.zipRows (first :: rest) with
  | nil => rfl
  | cons ds dss =>
      rw [hz, List.tail_cons] at htail
      have hw := writeItems_ofRows sch.config script first.tail (rest.map List.tail)
        (renderItem script (Dict.updateAll ds), 1)
      rw [htail] at hw
      exact hw

end Submit
end WorkerNg
