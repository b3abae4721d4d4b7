/-
# The log and the output files tell one story

What a job leaves behind: the log, the output file and the error file of the
server.  Read with the expressions of the log parser, the log of a reachable state
has an entry for each item handed out and for each result handled, in the order in
which this happened (`logEntries_eq`).  The `i`-th block of the output file and that
of the error file are the texts of the item in the `i`-th `done` entry, and its exit
status is that of the execution they come from (`artifacts_of_reachable`).
-/

import WorkerNg.Resume.Report

namespace WorkerNg
namespace Resume

open Lines Work Wire Protocol Regex

variable {tb : CharTable} {C Uuid : Type} {job : Job C Uuid} {io : UuidText Uuid} {k : ℕ}

/-! ### Entries -/

/-- What a line of the log says about an item. -/
inductive LogEntry where
  | started (itemId : ℕ) (clientId : Text)
  | done (itemId : ℕ) (status : ℤ)
deriving DecidableEq

variable (tb) in
/-- What `_started_expr` and `_done_expr` find in a line, with its time stamp, if it
is one. -/
def stampedEntry (line : Text) : Option (LogEntry × Except PyError DateTime) :=
  match (startedExpr tb).match? line with
  | some m =>
      some (.started (groupValue tb m "workitem_id") ((m.group "client_id").getD []),
        parseTime tb ((m.group "datetime").getD []))
  | none =>
      ((doneExpr tb).match? line).map fun m =>
        (.done (groupValue tb m "workitem_id") (intOf tb ((m.group "exit_status").getD [])),
          parseTime tb ((m.group "datetime").getD []))

variable (tb) in
/-- What a line says about an item. -/
def entryOf (line : Text) : Option LogEntry := (stampedEntry tb line).map Prod.fst

variable (tb) in
/-- The entries of a log file, in order. -/
def logEntries (log : List LogRecord) : List LogEntry :=
  log.filterMap fun r => entryOf tb (r.line ++ ['\n'])

/-- The item and the client of a `started` entry. -/
def LogEntry.started? : LogEntry → Option (ℕ × Text)
  | .started k u => some (k, u)
  | .done _ _ => none

/-- The item and the status of a `done` entry. -/
def LogEntry.done? : LogEntry → Option (ℕ × ℤ)
  | .started _ _ => none
  | .done k x => some (k, x)

theorem stampedEntry_started {r : LogRecord} {u : Uuid} (hr : r.toLogMessage = startedMessage io k u) :
    stampedEntry tb (r.line ++ ['\n']) = some (.started k (io.put u), .ok r.timeStamp) := by
  have hlog : Loggable r.toLogMessage := hr ▸ loggable_started
  have hmsg : Starts (startedMsg tb) r.message ['\n']
      [("workitem_id", natText k), ("client_id", io.put u)] := hr ▸ starts_startedMsg k u
  rw [stampedEntry, startedExpr, (starts_line (hlog.head _) hmsg).match?]
  simp [groupValue, Match.group, List.lookup_cons, parseTime_toText]

theorem stampedEntry_done {r : LogRecord} {x : Int32} (hr : r.toLogMessage = doneMessage k x) :
    stampedEntry tb (r.line ++ ['\n']) = some (.done k x.toInt, .ok r.timeStamp) := by
  have hlog : Loggable r.toLogMessage := hr ▸ loggable_done
  have hstarted : (startedMsg tb).run (r.message ++ ['\n']) = [] := hr ▸ run_startedMsg_done k x _
  have hmsg : Starts (doneMsg tb) r.message ['\n']
      [("workitem_id", natText k), ("exit_status", intText x)] := hr ▸ starts_doneMsg k x
  rw [stampedEntry, startedExpr, match?_eq_none (run_line_eq_nil (hlog.head _) hstarted), doneExpr,
    (starts_line (hlog.head _) hmsg).match?]
  simp [groupValue, Match.group, List.lookup_cons, parseTime_toText]

theorem stampedEntry_plain {r : LogRecord} (h : Plain r.toLogMessage) :
    stampedEntry tb (r.line ++ ['\n']) = none := by
  have hmsg : (msgExpr tb).run (r.message ++ ['\n']) = [] :=
    seq_eq_nil (run_lit_eq_nil (h.not_workitem _))
  have hstarted : (startedMsg tb).run (r.message ++ ['\n']) = [] := seq_eq_nil hmsg
  have hdone : (doneMsg tb).run (r.message ++ ['\n']) = [] := seq_eq_nil hmsg
  rw [stampedEntry, startedExpr, match?_eq_none (run_line_eq_nil (h.head _) hstarted), doneExpr,
    match?_eq_none (run_line_eq_nil (h.head _) hdone), Option.map_none]

/-! ### The entries of a run -/

/-- The entries of a list of messages. -/
inductive Entries (io : UuidText Uuid) : List LogMessage → List LogEntry → Prop where
  | nil : Entries io [] []
  | plain {m : LogMessage} {l : List LogMessage} {es : List LogEntry} (hm : Plain m)
      (h : Entries io l es) : Entries io (m :: l) es
  | started (k : ℕ) (u : Uuid) {l : List LogMessage} {es : List LogEntry} (h : Entries io l es) :
      Entries io (startedMessage io k u :: l) (.started k (io.put u) :: es)
  | done (k : ℕ) (x : Int32) {l : List LogMessage} {es : List LogEntry} (h : Entries io l es) :
      Entries io (doneMessage k x :: l) (.done k x.toInt :: es)

theorem Entries.of_plain {l : List LogMessage} (h : ∀ m ∈ l, Plain m) : Entries io l [] := by
  induction l with
  | nil => exact .nil
  | cons m l ih =>
      rw [List.forall_mem_cons] at h
      exact .plain h.1 (ih h.2)

theorem Entries.append {l l' : List LogMessage} {es es' : List LogEntry} (h : Entries io l es)
    (h' : Entries io l' es') : Entries io (l ++ l') (es ++ es') := by
  induction h with
  | nil => exact h'
  | plain hm _ ih => exact .plain hm ih
  | started k u _ ih => exact .started k u ih
  | done k x _ ih => exact .done k x ih

/-- **The log parser finds the entries** of the messages logged, whatever the time
stamps. -/
theorem Entries.logEntries_eq {l : List LogMessage} {es : List LogEntry} (h : Entries io l es)
    {log : List LogRecord} (hlog : log.map LogRecord.toLogMessage = l) :
    logEntries tb log = es := by
  induction h generalizing log with
  | nil =>
      rw [List.map_eq_nil_iff.1 hlog]
      rfl
  | plain hm _ ih =>
      obtain ⟨r, log, rfl, rfl, hrest⟩ := List.map_eq_cons_iff.1 hlog
      rw [logEntries, List.filterMap_cons, entryOf, stampedEntry_plain hm]
      exact ih hrest
  | started k u _ ih =>
      obtain ⟨r, log, rfl, hr, hrest⟩ := List.map_eq_cons_iff.1 hlog
      rw [logEntries, List.filterMap_cons, entryOf, stampedEntry_started hr]
      exact congrArg (_ :: ·) (ih hrest)
  | done k x _ ih =>
      obtain ⟨r, log, rfl, hr, hrest⟩ := List.map_eq_cons_iff.1 hlog
      rw [logEntries, List.filterMap_cons, entryOf, stampedEntry_done hr]
      exact congrArg (_ :: ·) (ih hrest)

/-- What an event of the pool adds to the log. -/
def eventEntries (job : Job C Uuid) : Pool.Event C Bytes FitResult → List LogEntry
  | .sent c (.work k _) => [.started k (job.io.put (job.uuid c))]
  | .received _ (.result k r) => [.done k r.1.exitStatus.toInt]
  | _ => []

theorem entries_eventLog (job : Job C Uuid) (e : Pool.Event C Bytes FitResult) :
    Entries job.io (eventLog job.toSetup (encodeEvent job e)) (eventEntries job e) := by
  have hplain : e.workId = none → e.resultId = none →
      ∀ m ∈ eventLog job.toSetup (encodeEvent job e), Plain m := by
    intro hw hr
    have hev := eventLog_encodeEvent job e
    rw [hw, hr] at hev
    generalize eventLog job.toSetup (encodeEvent job e) = ms at hev ⊢
    cases hev with
    | plain hms => exact hms
  rcases e with ⟨c, _ | ⟨k, r⟩⟩ | ⟨c, ⟨k, a⟩ | _ | _ | _⟩ | ⟨c, p⟩ | ⟨c, k, a, r⟩
  · exact .of_plain (hplain rfl rfl)
  · rw [eventLog_result]
    exact .plain (plain_idFrom (by decide) (by decide) k _) (.done k _ .nil)
  · exact .plain (plain_idFrom (by decide) (by decide) k _) (.started k (job.uuid c) .nil)
  · exact .of_plain (hplain rfl rfl)
  · exact .of_plain (hplain rfl rfl)
  · exact .of_plain (hplain rfl rfl)
  · exact .of_plain (hplain rfl rfl)
  · exact .of_plain (hplain rfl rfl)

theorem entries_eventLogs (job : Job C Uuid) (t : List (Pool.Event C Bytes FitResult)) :
    Entries job.io (t.flatMap fun e => eventLog job.toSetup (encodeEvent job e))
      (t.flatMap (eventEntries job)) := by
  induction t with
  | nil => exact .nil
  | cons e t ih => exact (entries_eventLog job e).append ih

/-- **The entries of the log of a state** are those of its run. -/
theorem logEntries_of_refines {s : System C Uuid} {t : Pool.State C Bytes FitResult}
    (hr : Refines job s t) {log : List LogRecord}
    (hlog : log.map LogRecord.toLogMessage = s.server.log) :
    logEntries tb log = t.trace.flatMap (eventEntries job) := by
  have hentries : Entries job.io s.server.log (t.trace.flatMap (eventEntries job)) := by
    rw [hr.log, hr.trace, List.flatMap_map]
    have hstart : Entries job.io job.startLog [] := .of_plain (plain_startLog job.toSetup)
    have hall := (hstart.append (entries_eventLogs job t.trace)).append
      (.of_plain (plain_statusLog s.server.status))
    rwa [List.nil_append, List.append_nil] at hall
  exact hentries.logEntries_eq hlog

/-! ### What the job leaves behind -/

/-- The results handled with their ids, in order. -/
def handledResults (t : List (Event C Uuid)) : List (ℕ × Result) :=
  t.filterMap fun
    | .received _ msg =>
        if msg.subject = .result then (Result.ofString msg.content).toOption.map (msg.id, ·)
        else none
    | _ => none

/-- **The files agree**: `rs` are the results handled, in this order. -/
structure Artifacts (tb : CharTable) (job : Job C Uuid) (s : System C Uuid)
    (log : List LogRecord) (rs : List (ℕ × Result)) : Prop where
  /-- The log names the items handed out, by their ids, from the first on. -/
  started : ((logEntries tb log).filterMap LogEntry.started?).map Prod.fst =
    List.range' 1 s.server.parser.nrItems
  /-- The log names the results in this order, with their statuses. -/
  done : (logEntries tb log).filterMap LogEntry.done? =
    rs.map fun x => (x.1, x.2.exitStatus.toInt)
  out : s.server.out = rs.flatMap fun x => x.2.stdout ++ [10]
  err : s.server.err = rs.flatMap fun x => x.2.stderr ++ [10]
  /-- No result is there twice. -/
  once : (rs.map Prod.fst).Nodup
  /-- Each is that of executing its item. -/
  executed : ∀ x ∈ rs, ∃ c w, job.items[x.1 - 1]? = some w ∧
    Event.executed c x.1 w x.2 ∈ s.trace

section Pool

variable {t : List (Pool.Event C Bytes FitResult)}

/-- What the pool has in hand about a result. -/
def resultEntry : Pool.Event C Bytes FitResult → Option (ℕ × Result)
  | .received _ (.result k r) => some (k, r.1)
  | _ => none

theorem handledResults_map :
    handledResults (t.map (encodeEvent job)) = t.filterMap resultEntry := by
  rw [handledResults, List.filterMap_map]
  refine List.filterMap_congr fun e _ => ?_
  rcases e with ⟨c, _ | ⟨k, r⟩⟩ | ⟨c, p⟩ | ⟨c, p⟩ | ⟨c, k, a, r⟩
  · rfl
  · have hres := Result.ofString_toString (Result.fits_of_toString r.2)
    simp only [Function.comp_apply, encodeEvent, encodeRequest, if_true, hres, Except.toOption,
      Option.map_some, resultEntry]
  · rfl
  · rfl
  · rfl

theorem results_map :
    results (t.map (encodeEvent job)) = (t.filterMap resultEntry).map Prod.snd := by
  rw [results, List.filterMap_map, List.map_filterMap]
  refine List.filterMap_congr fun e _ => ?_
  rcases e with ⟨c, _ | ⟨k, r⟩⟩ | ⟨c, p⟩ | ⟨c, p⟩ | ⟨c, k, a, r⟩
  · rfl
  · have hres := Result.ofString_toString (Result.fits_of_toString r.2)
    simp only [Function.comp_apply, encodeEvent, encodeRequest, if_true, hres, Except.toOption,
      Option.map_some, resultEntry]
  · rfl
  · rfl
  · rfl

theorem startedIds_flatMap :
    ((t.flatMap (eventEntries job)).filterMap LogEntry.started?).map Prod.fst =
      t.filterMap Pool.Event.workId := by
  induction t with
  | nil => rfl
  | cons e t ih =>
      rw [List.flatMap_cons, List.filterMap_append, List.map_append, ih, List.filterMap_cons]
      rcases e with ⟨c, _ | ⟨k, r⟩⟩ | ⟨c, ⟨k, a⟩ | _ | _ | _⟩ | ⟨c, p⟩ | ⟨c, k, a, r⟩ <;> rfl

theorem doneEntries_flatMap :
    (t.flatMap (eventEntries job)).filterMap LogEntry.done? =
      (t.filterMap resultEntry).map fun x => (x.1, x.2.exitStatus.toInt) := by
  induction t with
  | nil => rfl
  | cons e t ih =>
      rw [List.flatMap_cons, List.filterMap_append, ih, List.filterMap_cons]
      rcases e with ⟨c, _ | ⟨k, r⟩⟩ | ⟨c, ⟨k, a⟩ | _ | _ | _⟩ | ⟨c, p⟩ | ⟨c, k, a, r⟩ <;> rfl

theorem resultIds_resultEntry :
    (t.filterMap resultEntry).map Prod.fst = t.filterMap Pool.Event.resultId := by
  rw [List.map_filterMap]
  refine List.filterMap_congr fun e _ => ?_
  rcases e with ⟨c, _ | ⟨k, r⟩⟩ | ⟨c, p⟩ | ⟨c, p⟩ | ⟨c, k, a, r⟩ <;> rfl

variable {s : System C Uuid} {st : Pool.State C Bytes FitResult}

theorem handledResults_of_refines (hr : Refines job s st) :
    handledResults s.trace = st.trace.filterMap resultEntry := by
  rw [hr.trace, handledResults_map]

/-- The output file. -/
theorem out_of_refines (hr : Refines job s st) :
    s.server.out = (handledResults s.trace).flatMap fun x => x.2.stdout ++ [10] := by
  rw [hr.out, handledResults_of_refines hr, hr.trace, results_map, List.flatMap_map]

/-- The error file. -/
theorem err_of_refines (hr : Refines job s st) :
    s.server.err = (handledResults s.trace).flatMap fun x => x.2.stderr ++ [10] := by
  rw [hr.err, handledResults_of_refines hr, hr.trace, results_map, List.flatMap_map]

theorem once_of_refines (hr : Refines job s st) (hi : Pool.Inv job.items st) :
    ((handledResults s.trace).map Prod.fst).Nodup := by
  rw [handledResults_of_refines hr, resultIds_resultEntry]
  exact hi.handled_once

theorem range_of_refines (hr : Refines job s st) (hi : Pool.Inv job.items st) {x : ℕ × Result}
    (hx : x ∈ handledResults s.trace) : 1 ≤ x.1 ∧ x.1 ≤ job.items.length := by
  have hk : x.1 ∈ (handledResults s.trace).map Prod.fst := List.mem_map_of_mem hx
  rw [handledResults_of_refines hr, resultIds_resultEntry] at hk
  obtain ⟨c, hc⟩ := hi.given_of_handled (Pool.handled_of_mem hk)
  have hrange := hi.mem_ids hc
  have hle := hi.given_le
  omega

/-- A result handled is that of executing its item. -/
theorem executed_of_refines (hr : Refines job s st) (hi : Pool.Inv job.items st)
    {x : ℕ × Result} (hx : x ∈ handledResults s.trace) :
    ∃ c w, job.items[x.1 - 1]? = some w ∧ Event.executed c x.1 w x.2 ∈ s.trace := by
  rw [handledResults_of_refines hr] at hx
  obtain ⟨e, he, hx⟩ := List.mem_filterMap.1 hx
  rcases e with ⟨c, _ | ⟨k, r⟩⟩ | ⟨c, p⟩ | ⟨c, p⟩ | ⟨c, k, a, r⟩
  · cases hx
  · obtain rfl := Option.some.inj hx
    obtain ⟨w, hw⟩ := hi.executed_of_received c k r he
    refine ⟨c, w, hi.item c k w (hi.sent_of_executed c k w r hw), ?_⟩
    rw [hr.trace]
    exact List.mem_map.2 ⟨_, hw, rfl⟩
  all_goals cases hx

end Pool

/-- **What a job leaves behind tells one story.**  In every reachable state, and
whatever the time stamps in the log: the log, the output and the error file list
the same results, those handled, in the same order. -/
theorem artifacts_of_reachable [DecidableEq C] {s : System C Uuid}
    (h : System.Reachable job System.anyStep s) (tb : CharTable) {log : List LogRecord}
    (hlog : log.map LogRecord.toLogMessage = s.server.log) :
    Artifacts tb job s log (handledResults s.trace) := by
  obtain ⟨t, hr, hi⟩ := exists_refines h
  have hentries : logEntries tb log = t.trace.flatMap (eventEntries job) :=
    logEntries_of_refines hr hlog
  refine ⟨?_, ?_, out_of_refines hr, err_of_refines hr, once_of_refines hr hi,
    fun x hx => executed_of_refines hr hi hx⟩
  · rw [hentries, startedIds_flatMap, hi.ids, hr.given]
  · rw [hentries, doneEntries_flatMap, handledResults_of_refines hr]

theorem artifacts_failedRun :
    ∃ s : System Bool Uuid16, handled s.trace = [(1, -9)] ∧
      Artifacts asciiTable twoItemJob s (stampAll someTime s.server.log)
        (handledResults s.trace) := by
  obtain ⟨s, hrun, hs⟩ := exists_of_exec exec_failedRun
  exact ⟨s, congrArg (fun p => p.2.2) hs, artifacts_of_reachable (hrun.mono fun _ _ _ => trivial)
    asciiTable (map_stampAll someTime s.server.log)⟩

end Resume
end WorkerNg
