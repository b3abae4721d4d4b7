/-
# Numbers that are too long

What `WorkitemLogParser` makes of a log with numbers that no server writes.  `int` reads
4300 digits at most and raises a `ValueError` else, and the data frame holds its columns
as numbers of a machine, so that building it may raise as well.  What is too large for it
is for pandas to say, which is a parameter (`Pandas`): it takes numbers of 64 bits.

So the parser returns exactly if the log is acceptable, `int` reads its numbers and the
data frame can be built from the rows that the entries give (`logParser_spec`).  The log of a
server never has such numbers, and there the two parsers agree (`parse_of_reachable`).
-/

import WorkerNg.Resume.CutOff

namespace WorkerNg
namespace Resume

open Lines Work Wire Protocol Regex

variable {tb : CharTable} {es : List (LogEntry × DateTime)} {k : ℕ}

/-! ### The parser -/

/-- How many digits `int` reads. -/
def maxStrDigits : ℕ := 4300

/-- The numbers of `int` and of a column of 64 bits. -/
structure WorkItem.InInt64 (w : WorkItem) : Prop where
  itemId : ∀ k ∈ w.itemId, k < 2 ^ 63
  status : ∀ x ∈ w.status, -2 ^ 63 ≤ x ∧ x < 2 ^ 63

/-- What building the data frame from its rows raises. -/
structure Pandas where
  raises : List WorkItem → Option PyError
  of_int64 : ∀ rows, (∀ w ∈ rows, w.InInt64) → raises rows = none

variable (tb)

/-- The texts of a line that the loop gives to `int`. -/
def lineNumbers (line : Text) : List Text :=
  match (startedExpr tb).match? line with
  | some m => [(m.group "workitem_id").getD []]
  | none =>
      match (doneExpr tb).match? line with
      | some m => [(m.group "workitem_id").getD [], (m.group "exit_status").getD []]
      | none => []

/-- `int` reads a text: a sign is no digit. -/
def ReadByInt (s : Text) : Prop := (s.filter (digit tb)).length ≤ maxStrDigits

instance (s : Text) : Decidable (ReadByInt tb s) := inferInstanceAs (Decidable (_ ≤ _))

/-- The body of the loop. -/
def readLine (st : ParseState) (line : Text) : Except PyError ParseState :=
  if ∀ s ∈ lineNumbers tb line, ReadByInt tb s then parseLine tb st line
  else .error .valueError

variable (pd : Pandas)

/-- `WorkitemReport(pd.DataFrame(…))`. -/
def buildReport : Option WorkitemReport → Except PyError (Option WorkitemReport)
  | none => .ok none
  | some report =>
      match pd.raises report.df with
      | some e => .error e
      | none => .ok (some report)

/-- `WorkitemLogParser.parse` on a file with the given text. -/
def WorkitemLogParser.parse (file : Text) : Except PyError (Option WorkitemReport) := do
  let st ← (logLinesOf file).foldlM (readLine tb) ⟨Dict.empty, 0, 0⟩
  let report ← st.report
  buildReport pd report

/-- What `wresume` selects from a log file: the incomplete items, and with `--redo` those
that failed. -/
def selectIds (redo : Bool) (file : Text) : Except PyError (List ℕ) :=
  match WorkitemLogParser.parse tb pd file with
  | .error e => .error e
  | .ok none => .error .attributeError  -- `None.incompletes`
  | .ok (some report) => .ok (report.incompletes ++ if redo then report.failures else [])

variable {tb} {pd}

/-! ### The rows -/

/-- The items that entries are about, in the order in which they come up. -/
def idsOf (es : List (LogEntry × DateTime)) : List ℕ :=
  es.foldl (fun ks e => if e.1.itemId ∈ ks then ks else ks ++ [e.1.itemId]) []

/-- The rows that the entries of a log give. -/
def rowsOf (es : List (LogEntry × DateTime)) : List WorkItem := (idsOf es).filterMap (itemOf · es)

theorem idsOf_concat (es : List (LogEntry × DateTime)) (e : LogEntry × DateTime) :
    idsOf (es ++ [e]) =
      if e.1.itemId ∈ idsOf es then idsOf es else idsOf es ++ [e.1.itemId] := by
  rw [idsOf, List.foldl_append]
  rfl

/-- **The keys of the dictionary** are the items, in this order. -/
theorem map_fst_of_foldlM {lines : List Text} {st : ParseState}
    (h : lines.foldlM (parseLine tb) ⟨Dict.empty, 0, 0⟩ = .ok st) :
    st.workitems.entries.map Prod.fst = idsOf (entriesOf tb lines) := by
  induction lines using List.reverseRecOn generalizing st with
  | nil =>
      obtain rfl := Except.ok.inj h
      rfl
  | append_singleton lines line ih =>
      rw [foldlM_parseLine_concat] at h
      obtain ⟨st', hst', h⟩ := bind_eq_ok h
      have hkeys := ih hst'
      rw [parseLine_eq] at h
      rw [entriesOf_concat]
      rcases hline : stampedEntry tb line with _ | ⟨e, err | d⟩
      · rw [hline] at h
        obtain rfl := Except.ok.inj h
        rw [Option.bind_none, Option.toList_none, List.append_nil]
        exact hkeys
      · rw [hline] at h
        cases h
      · rw [hline] at h
        have hset : st.workitems = st'.workitems.set e.itemId ((st'.item e.itemId).enter d e) := by
          rw [ParseState.read, ParseState.enter] at h
          split_ifs at h
          rw [← Except.ok.inj h]
          rfl
        rw [hset, Dict.map_fst_set, hkeys]
        exact (idsOf_concat _ (e, d)).symm

/-- The data frame holds the rows of the entries. -/
theorem df_of_parseLogFile {file : Text} {report : WorkitemReport}
    (h : parseLogFile tb file = .ok (some report)) :
    report.df = rowsOf (entriesOf tb (logLinesOf file)) := by
  rw [parseLogFile, parseLog] at h
  obtain ⟨st, hst, h⟩ := bind_eq_ok h
  have hr := reads_of_foldlM hst
  have hreport := ((report_iff hr).1 h).2
  split_ifs at hreport
  obtain rfl := Option.some.inj hreport
  show st.workitems.entries.map Prod.snd = _
  rw [Dict.map_snd_entries, map_fst_of_foldlM hst]
  exact List.filterMap_congr fun k _ => hr.item k

/-- **Rows of small numbers** are taken by the data frame. -/
theorem raises_rowsOf (pd : Pandas) (hf : StartedFirst (es.map Prod.fst))
    (hs : ∀ k, HasStarted k (es.map Prod.fst) → k < 2 ^ 63)
    (hd : ∀ k x, .done k x ∈ es.map Prod.fst → -2 ^ 63 ≤ x ∧ x < 2 ^ 63) :
    pd.raises (rowsOf es) = none := by
  refine pd.of_int64 _ fun w hw => ?_
  obtain ⟨k, -, hk⟩ := List.mem_filterMap.1 hw
  have hknown := known_itemOf k hf
  rw [hk] at hknown
  cases hknown with
  | known hstarted hw =>
      refine ⟨fun j hj => ?_, fun x hx => ?_⟩
      · obtain rfl : k = j := Option.some.inj (hw.itemId.symm.trans hj)
        exact hs k hstarted
      · exact hd k x (mem_of_lastStatus (hw.status.symm.trans hx))

/-! ### What the parser returns -/

/-- The loop goes through the numbers that `int` reads. -/
theorem foldlM_readLine_iff {lines : List Text} {st st' : ParseState} :
    lines.foldlM (readLine tb) st = .ok st' ↔
      (∀ line ∈ lines, ∀ s ∈ lineNumbers tb line, ReadByInt tb s) ∧
        lines.foldlM (parseLine tb) st = .ok st' := by
  induction lines generalizing st with
  | nil => simp
  | cons line lines ih =>
      rw [List.foldlM_cons, List.foldlM_cons, List.forall_mem_cons, readLine]
      by_cases hfit : ∀ s ∈ lineNumbers tb line, ReadByInt tb s
      · rw [if_pos hfit, and_iff_right hfit]
        cases parseLine tb st line with
        | error e => exact ⟨fun h => (by cases h), fun h => (by cases h.2)⟩
        | ok st₁ => exact ih
      · rw [if_neg hfit]
        exact ⟨fun h => (by cases h), fun h => absurd h.1.1 hfit⟩

theorem buildReport_eq_ok {r r' : Option WorkitemReport} :
    buildReport pd r = .ok r' ↔ r = r' ∧ ∀ report ∈ r, pd.raises report.df = none := by
  cases r with
  | none => simp [buildReport]
  | some report =>
      rw [buildReport]
      cases h : pd.raises report.df with
      | none => simp [h]
      | some e => simp [h]

/-- **The two parsers agree** if `int` reads the numbers and the data frame is built. -/
theorem parse_eq_ok {file : Text} {r : Option WorkitemReport} :
    WorkitemLogParser.parse tb pd file = .ok r ↔
      (∀ line ∈ logLinesOf file, ∀ s ∈ lineNumbers tb line, ReadByInt tb s) ∧
        parseLogFile tb file = .ok r ∧ ∀ report ∈ r, pd.raises report.df = none := by
  constructor
  · intro h
    obtain ⟨st, hst, h⟩ := bind_eq_ok h
    obtain ⟨r', hr', h⟩ := bind_eq_ok h
    obtain ⟨rfl, hraises⟩ := buildReport_eq_ok.1 h
    obtain ⟨hfit, hst⟩ := foldlM_readLine_iff.1 hst
    exact ⟨hfit, (congrArg (Except.bind · _) hst).trans hr', hraises⟩
  · rintro ⟨hfit, hparse, hraises⟩
    obtain ⟨st, hst, hr⟩ := bind_eq_ok hparse
    have hread := foldlM_readLine_iff.2 ⟨hfit, hst⟩
    show (List.foldlM _ _ _ >>= _) = _
    rw [hread]
    show (st.report >>= buildReport pd) = _
    rw [hr]
    exact buildReport_eq_ok.2 ⟨rfl, hraises⟩

/-- **The parser on any text**: it returns exactly if the log is acceptable, `int` reads
its numbers and the data frame can be built from the rows of its entries; then nothing
for a log without entries, and else a report that says what the entries say. -/
theorem logParser_spec (tb : CharTable) (pd : Pandas) (file : Text) :
    ((∃ r, WorkitemLogParser.parse tb pd file = .ok r) ↔
      Acceptable tb (logLinesOf file) ∧
        (∀ line ∈ logLinesOf file, ∀ s ∈ lineNumbers tb line, ReadByInt tb s) ∧
          pd.raises (rowsOf (entriesOf tb (logLinesOf file))) = none) ∧
      (WorkitemLogParser.parse tb pd file = .ok none → entriesOf tb (logLinesOf file) = []) ∧
        ∀ report, WorkitemLogParser.parse tb pd file = .ok (some report) →
          report.df = rowsOf (entriesOf tb (logLinesOf file)) ∧
            Reports ((entriesOf tb (logLinesOf file)).map Prod.fst) report := by
  refine ⟨⟨?_, ?_⟩, fun h => entriesOf_eq_nil (parse_eq_ok.1 h).2.1, fun report h => ?_⟩
  · rintro ⟨r, h⟩
    obtain ⟨hfit, hparse, hraises⟩ := parse_eq_ok.1 h
    refine ⟨(parseLogFile_ok_iff tb file).1 ⟨r, hparse⟩, hfit, ?_⟩
    cases r with
    | none =>
        rw [entriesOf_eq_nil hparse]
        exact pd.of_int64 _ fun w hw => absurd hw List.not_mem_nil
    | some report =>
        rw [← df_of_parseLogFile hparse]
        exact hraises report rfl
  · rintro ⟨haccept, hfit, hraises⟩
    obtain ⟨r, hparse⟩ := (parseLogFile_ok_iff tb file).2 haccept
    refine ⟨r, parse_eq_ok.2 ⟨hfit, hparse, ?_⟩⟩
    rintro report rfl
    rw [df_of_parseLogFile hparse, hraises]
  · have hparse := (parse_eq_ok.1 h).2.1
    exact ⟨df_of_parseLogFile hparse, reports_of_parseLogFile hparse⟩

/-! ### The log of a server -/

theorem readByInt_natText {n : ℕ} (h : n < 2 ^ 63) : ReadByInt tb (natText n) := by
  have hlen : (natText n).length ≤ 19 := (Nat.length_toDigits_le_iff (by omega) (by omega)).2
    (h.trans (by decide))
  have hfilter := List.length_filter_le (digit tb) (natText n)
  unfold ReadByInt maxStrDigits
  omega

theorem readByInt_intText (x : Int32) : ReadByInt tb (intText x) := by
  have hlt := x.toInt_lt
  have hle := x.le_toInt
  rw [intText]
  split_ifs
  · have hdash : digit tb '-' = false := digit_of_not_isDigit (by decide) (by decide)
    rw [ReadByInt, List.filter_cons_of_neg (by rw [hdash]; decide)]
    exact readByInt_natText (by omega)
  · exact readByInt_natText (by omega)

variable {C Uuid : Type} {io : UuidText Uuid} {job : Job C Uuid}

/-- `int` reads the numbers of a line of a server whose items have small numbers. -/
theorem readByInt_line {r : LogRecord} (h : Kind io r.toLogMessage)
    (hs : ∀ k u, startedMessage io k u = r.toLogMessage → k < 2 ^ 63)
    (hd : ∀ k x, doneMessage k x = r.toLogMessage → k < 2 ^ 63) :
    ∀ s ∈ lineNumbers tb (r.line ++ ['\n']), ReadByInt tb s := by
  have hlog := h.loggable
  generalize hm : r.toLogMessage = m at h
  cases h with
  | plain hplain =>
      subst hm
      have hmsg : (msgExpr tb).run (r.message ++ ['\n']) = [] :=
        seq_eq_nil (run_lit_eq_nil (hplain.not_workitem _))
      have hstarted : (startedMsg tb).run (r.message ++ ['\n']) = [] := seq_eq_nil hmsg
      have hdone : (doneMsg tb).run (r.message ++ ['\n']) = [] := seq_eq_nil hmsg
      rw [lineNumbers, startedExpr, match?_eq_none (run_line_eq_nil (hlog.head _) hstarted),
        doneExpr, match?_eq_none (run_line_eq_nil (hlog.head _) hdone)]
      exact List.forall_mem_nil _
  | started k u =>
      have hmsg : Starts (startedMsg tb) r.message ['\n']
          [("workitem_id", natText k), ("client_id", io.put u)] := hm ▸ starts_startedMsg k u
      rw [lineNumbers, startedExpr, (starts_line (hlog.head _) hmsg).match?]
      exact List.forall_mem_singleton.2 (readByInt_natText (hs k u hm.symm))
  | done k x =>
      have hstarted : (startedMsg tb).run (r.message ++ ['\n']) = [] :=
        hm ▸ run_startedMsg_done k x _
      have hmsg : Starts (doneMsg tb) r.message ['\n']
          [("workitem_id", natText k), ("exit_status", intText x)] := hm ▸ starts_doneMsg k x
      rw [lineNumbers, startedExpr, match?_eq_none (run_line_eq_nil (hlog.head _) hstarted),
        doneExpr, (starts_line (hlog.head _) hmsg).match?]
      exact List.forall_mem_cons.2 ⟨readByInt_natText (hd k x hm.symm),
        List.forall_mem_singleton.2 (readByInt_intText x)⟩

variable [DecidableEq C] {s : System C Uuid}

/-- **On the log of a server** the numbers are never too long, and the parser returns what
it finds. -/
theorem parse_of_reachable (h : System.Reachable job System.anyStep s) (tb : CharTable)
    (pd : Pandas) {log : List LogRecord} (hlog : log.map LogRecord.toLogMessage = s.server.log) :
    WorkitemLogParser.parse tb pd (logText log) = parseLogFile tb (logText log) := by
  obtain ⟨t, hrun, hr⟩ := refines_reachable (Q := fun _ _ => True) h
    fun _ _ _ _ _ _ _ _ _ _ => trivial
  have hi := Pool.inv_reaches hrun
  obtain ⟨hord, hstarted, hdone⟩ := log_of_refines hr hi (Pool.inOrder_reaches hrun)
  have hsmall : ∀ k, 1 ≤ k ∧ k ≤ t.given → k < 2 ^ 63 := fun k hk =>
    (hk.2.trans hi.given_le).trans_lt (items_bound job.toSetup)
  rw [← hlog] at hord hstarted hdone
  have hne : log ≠ [] := by
    rintro rfl
    have hlen := congrArg List.length (hlog.trans hr.log)
    simp [Setup.startLog] at hlen
  obtain ⟨st, -, hparse⟩ := parseLogFile_orderly tb hord hne
  have hlines : logLinesOf (logText log) = log.map fun r => r.line ++ ['\n'] :=
    keepLines_logText fun r hm => hord.oneLine _ (List.mem_map_of_mem hm)
  refine (parse_eq_ok.2 ⟨?_, hparse, fun report hreport => ?_⟩).trans hparse.symm
  · rw [hlines, List.forall_mem_map]
    intro r hm
    have hmem : r.toLogMessage ∈ log.map LogRecord.toLogMessage := List.mem_map_of_mem hm
    refine readByInt_line (hord.kind _ hmem) (fun k u hk => ?_) fun k x hk => ?_
    · exact hsmall k ((hstarted k).1 ⟨u, hk ▸ hmem⟩)
    · exact hsmall k (hdone k ⟨x, hk ▸ hmem⟩)
  · have ha := (parseLogFile_ok_iff tb (logText log)).1 ⟨_, hparse⟩
    have hentries : (entriesOf tb (logLinesOf (logText log))).map Prod.fst =
        t.trace.flatMap (eventEntries job) := by
      rw [map_fst_entriesOf ha.times, hlines, ← logEntries_eq, logEntries_of_refines hr hlog]
    rw [df_of_parseLogFile (hparse.trans (congrArg Except.ok hreport))]
    refine raises_rowsOf pd ha.first (fun k hk => ?_) fun k x hx => ?_
    · rw [hentries] at hk
      obtain ⟨u, hu⟩ := hk
      obtain ⟨c, a, he⟩ := mem_workIds.1 (started_mem_flatMap hu)
      exact hsmall k (hi.mem_ids ⟨a, he⟩)
    · rw [hentries] at hx
      obtain ⟨y, -, rfl⟩ := done_mem_flatMap.1 hx
      have hlt := y.toInt_lt
      have hle := y.le_toInt
      omega

/-- On the log of a server `wresume` selects what it finds. -/
theorem selectIds_of_reachable (h : System.Reachable job System.anyStep s) (tb : CharTable)
    (pd : Pandas) {log : List LogRecord} (hlog : log.map LogRecord.toLogMessage = s.server.log)
    (redo : Bool) : selectIds tb pd redo (logText log) = workIds tb redo (logText log) := by
  rw [selectIds, parse_of_reachable h tb pd hlog]
  rfl

/-- A floating-point number of 64 bits is near. -/
def InDouble (n : ℕ) : Prop := Nat.log2 n < 1024

instance (n : ℕ) : Decidable (InDouble n) := inferInstanceAs (Decidable (_ < _))

theorem inDouble_of_lt {n : ℕ} (h : n < 2 ^ 64) : InDouble n := by
  unfold InDouble
  by_cases hn : n = 0
  · subst hn
    decide
  · have hlog := (Nat.log2_lt hn).2 h
    omega

/-- A data frame that converts its numbers to floating-point numbers of 64 bits. -/
def doubleFrame : Pandas where
  raises rows :=
    if ∀ w ∈ rows, (∀ k ∈ w.itemId, InDouble k) ∧ ∀ x ∈ w.status, InDouble x.natAbs then none
    else some .overflowError
  of_int64 rows h := by
    refine if_pos fun w hw => ⟨fun k hk => ?_, fun x hx => ?_⟩
    · have hlt := (h w hw).itemId k hk
      exact inDouble_of_lt (by omega)
    · have hbounds := (h w hw).status x hx
      exact inDouble_of_lt (by omega)

end Resume
end WorkerNg
