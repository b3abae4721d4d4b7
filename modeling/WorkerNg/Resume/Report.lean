/-
# The report on a running job

What `WorkitemLogParser` makes of the log of a job that is not over: read in any
reachable state between two iterations of the server's loop, once an item was
handed out, the log gives back the server's own state.  The incomplete items are
`to_do`, the successes and failures the items whose results were handled, told
apart by their exit status (`report_of_reachable`).

The parser's table has one row for each item started, with the item's id in it
(`Parsed`), so that every query on it gives ids without duplicates
(`nodup_index`).
-/

import WorkerNg.Resume.Wresume
import Mathlib.Data.Finset.Sort

namespace WorkerNg
namespace Resume

open Lines Work Wire Protocol

variable {C Uuid : Type} {job : Job C Uuid} {io : UuidText Uuid} {l : List LogMessage}
  {st : ParseState} {k : ℕ} {x : Int32}

/-! ### The queries -/

/-- **The successes** are the items done with status zero. -/
theorem mem_successes (h : Parsed io l st) :
    k ∈ WorkitemReport.successes ⟨st.workitems.entries.map Prod.snd⟩ ↔ doneMessage k 0 ∈ l := by
  rw [WorkitemReport.successes, mem_index h]
  have hk := h.entry k
  generalize st.workitems.get? k = w at hk
  cases hk with
  | unknown hs hd => simp [hd]
  | incomplete hs hd => simp [hd]
  | @complete _ _ _ x hs hd =>
      have hx : x.toInt = 0 ↔ 0 = x := (Int32.toInt_inj (y := 0)).trans eq_comm
      simp [hd, hx]

/-- **No id occurs twice** among the rows that a query selects. -/
theorem nodup_index (h : Parsed io l st) (p : WorkItem → Bool) :
    (WorkitemReport.index ((st.workitems.entries.map Prod.snd).filter p)).Nodup := by
  rw [WorkitemReport.index, (List.mergeSort_perm _ _).nodup_iff, List.filter_map,
    List.filterMap_map]
  have hid : ∀ e ∈ st.workitems.entries.filter (p ∘ Prod.snd), e.2.itemId = some e.1 := by
    rintro ⟨j, w⟩ hm
    have hj := h.entry j
    rw [Dict.mem_entries.1 (List.mem_filter.1 hm).1] at hj
    cases hj <;> rfl
  have hkeys : (st.workitems.entries.filter (p ∘ Prod.snd)).filterMap (WorkItem.itemId ∘ Prod.snd) =
      (st.workitems.entries.filter (p ∘ Prod.snd)).map Prod.fst := by
    rw [← List.filterMap_eq_map]
    exact List.filterMap_congr hid
  rw [hkeys]
  exact st.workitems.nodup.sublist (List.filter_sublist.map Prod.fst)

theorem pairwise_mergeSort (ids : List ℕ) : ids.mergeSort.Pairwise (· ≤ ·) := by
  have h : ids.mergeSort.Pairwise fun a b => decide (a ≤ b) := by
    refine List.pairwise_mergeSort (fun a b c hab hbc => ?_) (fun a b => ?_) _
    · simp only [decide_eq_true_eq] at hab hbc ⊢
      omega
    · simp only [Bool.or_eq_true, decide_eq_true_eq]
      omega
  simpa using h

/-- The index is sorted. -/
theorem pairwise_index (rows : List WorkItem) :
    (WorkitemReport.index rows).Pairwise (· ≤ ·) := pairwise_mergeSort _

/-- A sorted list without duplicates is determined by its members. -/
theorem eq_of_sorted {l m : List ℕ} (hl : l.Pairwise (· ≤ ·)) (hm : m.Pairwise (· ≤ ·))
    (hl' : l.Nodup) (hm' : m.Nodup) (h : ∀ k, k ∈ l ↔ k ∈ m) : l = m :=
  ((List.perm_ext_iff_of_nodup hl' hm').2 h).eq_of_pairwise' hl hm

/-- An item has one status. -/
theorem done_unique (h : Parsed io l st) {y : Int32} (hx : doneMessage k x ∈ l)
    (hy : doneMessage k y ∈ l) : x = y := by
  have hk := h.entry k
  generalize st.workitems.get? k = w at hk
  cases hk with
  | unknown _ hd => exact absurd hx (hd x)
  | incomplete _ hd => exact absurd hx (hd x)
  | complete _ hd => rw [(hd x).1 hx, (hd y).1 hy]

/-- An item was started if it is not done, or done with one status or another. -/
theorem startedIn_iff (h : Parsed io l st) :
    StartedIn io l k ↔ ((StartedIn io l k ∧ ¬DoneIn l k) ∨ doneMessage k 0 ∈ l) ∨
      FailedIn l k := by
  have hk := h.entry k
  generalize st.workitems.get? k = w at hk
  cases hk with
  | unknown hs hd => simp [hs, hd, FailedIn]
  | incomplete hs hd => simp [hs, hd, FailedIn, DoneIn]
  | complete hs hd =>
      simp only [hs, hd, FailedIn, DoneIn, true_iff, true_and, exists_eq, not_true, false_or]
      rw [exists_eq_right]
      exact (eq_or_ne _ 0).imp_left Eq.symm

/-- **The three lists** hold no id twice. -/
theorem nodup_report (h : Parsed io l st) {report : WorkitemReport}
    (hr : report = ⟨st.workitems.entries.map Prod.snd⟩) :
    (report.incompletes ++ report.successes ++ report.failures).Nodup := by
  subst hr
  have hfail : (WorkitemReport.failures ⟨st.workitems.entries.map Prod.snd⟩).Nodup := by
    rw [WorkitemReport.failures, List.filter_filter]
    exact nodup_index h _
  rw [List.nodup_append', List.nodup_append']
  refine ⟨⟨nodup_index h _, nodup_index h _, fun k hi hs => ?_⟩, hfail, fun k hk hf => ?_⟩
  · exact ((mem_incompletes h).1 hi).2 ⟨0, (mem_successes h).1 hs⟩
  · obtain ⟨x, hne, hx⟩ := (mem_failures h).1 hf
    rcases List.mem_append.1 hk with hi | hs
    · exact ((mem_incompletes h).1 hi).2 ⟨x, hx⟩
    · exact hne (done_unique h hx ((mem_successes h).1 hs))

/-! ### The results handled -/

/-- The ids of the items whose results were handled, with their exit status. -/
def handled (t : List (Event C Uuid)) : List (ℕ × Int32) :=
  t.filterMap fun
    | .received _ msg =>
        if msg.subject = .result then
          (Result.ofString msg.content).toOption.map fun r => (msg.id, r.exitStatus)
        else none
    | _ => none

/-- The ids of the items whose exit status is one of those that `p` holds for. -/
def handledIds (p : Int32 → Bool) (t : List (Event C Uuid)) : List ℕ :=
  ((handled t).filter fun h => p h.2).map Prod.fst

section Handled

variable {t : List (Pool.Event C Bytes FitResult)}

theorem mem_handled :
    (k, x) ∈ handled (t.map (encodeEvent job)) ↔
      ∃ c r, Pool.Event.received c (.result k r) ∈ t ∧ r.1.exitStatus = x := by
  rw [handled, List.filterMap_map, List.mem_filterMap]
  constructor
  · rintro ⟨e, he, hk⟩
    rcases e with ⟨c, q⟩ | ⟨c, p⟩ | ⟨c, p⟩ | ⟨c, j, a, r⟩
    · cases q with
      | query => cases hk
      | result j r =>
          have hres := Result.ofString_toString (Result.fits_of_toString r.2)
          simp only [Function.comp_apply, encodeEvent, encodeRequest, if_true, hres,
            Except.toOption, Option.map_some, Option.some.injEq, Prod.mk.injEq] at hk
          obtain ⟨rfl, rfl⟩ := hk
          exact ⟨c, r, he, rfl⟩
    · cases hk
    · cases hk
    · cases hk
  · rintro ⟨c, r, he, rfl⟩
    have hres := Result.ofString_toString (Result.fits_of_toString r.2)
    refine ⟨_, he, ?_⟩
    simp only [Function.comp_apply, encodeEvent, encodeRequest, if_true, hres, Except.toOption,
      Option.map_some]

/-- The ids of the results handled, whatever their status. -/
theorem map_handled :
    (handled (t.map (encodeEvent job))).map Prod.fst = resultIds (t.map (encodeEvent job)) := by
  rw [resultIds_map, handled, List.filterMap_map, List.map_filterMap]
  refine List.filterMap_congr fun e _ => ?_
  rcases e with ⟨c, q⟩ | ⟨c, p⟩ | ⟨c, p⟩ | ⟨c, j, a, r⟩
  · cases q with
    | query => rfl
    | result j r =>
        have hres := Result.ofString_toString (Result.fits_of_toString r.2)
        simp only [Function.comp_apply, encodeEvent, encodeRequest, if_true, hres, Except.toOption,
          Option.map_some, Pool.Event.resultId]
  · rfl
  · rfl
  · rfl

/-- **The `done` lines** of a run's log are those of the results handled. -/
theorem doneMessage_mem_logOf :
    doneMessage k x ∈ logOf job t ↔ (k, x) ∈ handled (t.map (encodeEvent job)) := by
  rw [mem_handled, logOf, List.mem_append,
    or_iff_right fun h => (plain_startLog _ _ h).ne_done k x rfl, List.mem_flatMap]
  constructor
  · rintro ⟨e, he, hx⟩
    have hr := (doneIn_eventLog (eventLog_encodeEvent job e)).1 ⟨x, hx⟩
    unfold Pool.Event.resultId at hr
    split at hr
    · rename_i c j r
      obtain rfl := Option.some.inj hr
      rw [eventLog_result, List.mem_cons, List.mem_singleton] at hx
      rcases hx with hx | hx
      · exact absurd hx ((plain_idFrom (by decide) (by decide) j _).ne_done j x)
      · exact ⟨c, r, he, (doneMessage_inj hx).2.symm⟩
    · cases hr
  · rintro ⟨c, r, he, rfl⟩
    refine ⟨_, he, ?_⟩
    rw [eventLog_result]
    exact List.mem_cons_of_mem _ (List.mem_singleton_self _)

theorem mem_handledIds {p : Int32 → Bool} {t : List (Event C Uuid)} :
    k ∈ handledIds p t ↔ ∃ x, p x = true ∧ (k, x) ∈ handled t := by
  simp only [handledIds, List.mem_map, List.mem_filter, Prod.exists]
  constructor
  · rintro ⟨j, x, ⟨hm, hp⟩, rfl⟩
    exact ⟨x, hp, hm⟩
  · rintro ⟨x, hp, hm⟩
    exact ⟨k, x, ⟨hm, hp⟩, rfl⟩

end Handled

/-! ### The report on a reachable state -/

/-- **The report gives back the server's state.** -/
structure ReportsState (s : System C Uuid) (report : WorkitemReport) : Prop where
  incompletes : report.incompletes = s.server.toDo.sort
  successes : report.successes = (handledIds (fun x => decide (x = 0)) s.trace).mergeSort
  failures : report.failures = (handledIds (fun x => decide (x ≠ 0)) s.trace).mergeSort
  /-- No id occurs twice, in one list or in two. -/
  nodup : (report.incompletes ++ report.successes ++ report.failures).Nodup
  /-- The ids are those handed out. -/
  cover : ∀ k, k ∈ report.incompletes ++ report.successes ++ report.failures ↔
    k ∈ Protocol.workIds s.trace

variable {s : System C Uuid}

theorem map_handled_trace {t : Pool.State C Bytes FitResult} (hr : Refines job s t) :
    (handled s.trace).map Prod.fst = resultIds s.trace := by
  rw [hr.trace, map_handled]

/-- **The queries on the items done** give the ids of the results handled. -/
theorem eq_mergeSort_handledIds {ids : List ℕ} (hs : ids.Pairwise (· ≤ ·)) (hn : ids.Nodup)
    (hh : (resultIds s.trace).Nodup) (hmap : (handled s.trace).map Prod.fst = resultIds s.trace)
    {p : Int32 → Bool}
    (hm : ∀ k, k ∈ ids ↔ ∃ x, p x = true ∧ (k, x) ∈ handled s.trace) :
    ids = (handledIds p s.trace).mergeSort := by
  rw [← hmap] at hh
  have hnodup : (handledIds p s.trace).Nodup := hh.sublist (List.filter_sublist.map Prod.fst)
  refine eq_of_sorted hs (pairwise_mergeSort _) hn ((List.mergeSort_perm _ _).nodup_iff.2 hnodup)
    fun k => ?_
  rw [hm, List.mem_mergeSort, mem_handledIds]

/-- The `done` lines in the log of a state. -/
theorem doneMessage_mem_log {t : Pool.State C Bytes FitResult} (hr : Refines job s t) :
    doneMessage k x ∈ s.server.log ↔ (k, x) ∈ handled s.trace := by
  have hplain := plain_statusLog s.server.status
  rw [hr.log, hr.trace, List.flatMap_map, List.mem_append,
    or_iff_left fun h => (hplain _ h).ne_done k x rfl]
  exact doneMessage_mem_logOf

variable [DecidableEq C]

/-- **The log reproduces the server's state.**  In every reachable state in which
an item was handed out, and whatever the time stamps in the log, the log parser
returns a report that gives it back. -/
theorem report_of_reachable (h : System.Reachable job System.anyStep s) (tb : CharTable)
    {log : List LogRecord} (hlog : log.map LogRecord.toLogMessage = s.server.log)
    (hw : Protocol.workIds s.trace ≠ []) :
    ∃ report, parseLogFile tb (logText log) = .ok (some report) ∧ ReportsState s report := by
  obtain ⟨t, hrun, hr⟩ := refines_reachable (Q := fun _ _ => True) h
    fun _ _ _ _ _ _ _ _ _ _ => trivial
  have hi := Pool.inv_reaches hrun
  have hsafe := dispatchSafe_of_refines hr hi
  have hmap := map_handled_trace hr
  -- the log names the items handed out and the results handled
  obtain ⟨hord, hstarted, -⟩ := log_of_refines hr hi (Pool.inOrder_reaches hrun)
  have hgiven : ∀ k, StartedIn job.io s.server.log k ↔ k ∈ Protocol.workIds s.trace := fun k => by
    rw [hstarted, hr.trace, mem_workIds]
    exact ⟨hi.exists_given, fun ⟨_, hg⟩ => hi.mem_ids hg⟩
  have hstatus : ∀ k x, doneMessage k x ∈ s.server.log ↔ (k, x) ∈ handled s.trace :=
    fun _ _ => doneMessage_mem_log hr
  have hdone : ∀ k, DoneIn s.server.log k ↔ k ∈ resultIds s.trace := fun k => by
    rw [← hmap, List.mem_map, Prod.exists]
    simp only [DoneIn, hstatus, exists_and_right, exists_eq_right]
  rw [← hlog] at hord hgiven hstatus hdone
  obtain ⟨j, hj⟩ := List.exists_mem_of_ne_nil _ hw
  have hne : log ≠ [] := by
    rintro rfl
    obtain ⟨u, hu⟩ := (hgiven j).2 hj
    exact absurd hu List.not_mem_nil
  obtain ⟨st, hp, hparse⟩ := parseLogFile_orderly tb hord hne
  rw [if_neg fun hnil => (entries_eq_nil_iff hp).1 hnil j ((hgiven j).2 hj)] at hparse
  have hnodup := nodup_report hp rfl
  have hnodup' := List.nodup_append'.1 hnodup
  refine ⟨_, hparse, ?_, ?_, ?_, hnodup, fun k => ?_⟩
  · refine eq_of_sorted (pairwise_index _) (Finset.pairwise_sort _ _) (nodup_index hp _)
      (Finset.sort_nodup _ _) fun k => ?_
    rw [Finset.mem_sort, hsafe.toDo, ← hgiven, ← hdone]
    exact mem_incompletes hp
  · refine eq_mergeSort_handledIds (pairwise_index _) (nodup_index hp _) hsafe.handled_once hmap
      fun k => ?_
    refine (mem_successes hp).trans ?_
    simp only [hstatus, decide_eq_true_eq, exists_eq_left]
  · refine eq_mergeSort_handledIds (pairwise_index _) hnodup'.2.1 hsafe.handled_once hmap
      fun k => ?_
    refine (mem_failures hp).trans ?_
    simp only [FailedIn, hstatus, decide_eq_true_eq]
  · rw [List.mem_append, List.mem_append, mem_incompletes hp, mem_successes hp, mem_failures hp,
      ← startedIn_iff hp, hgiven]

/-- The first item was killed by a signal and the second one is being executed. -/
theorem exec_failedRun :
    (exec (System.step twoItemJob) (fun _ _ => true) (System.start twoItemJob) failedRun).map
      (fun s => (Protocol.workIds s.trace, s.server.toDo, handled s.trace)) =
        some ([1, 2], {2}, [(1, -9)]) := by
  decide +kernel

theorem report_failedRun :
    ∃ (s : System Bool Uuid16) (report : WorkitemReport),
      parseLogFile asciiTable (logText (stampAll someTime s.server.log)) = .ok (some report) ∧
        report.incompletes = [2] ∧ report.successes = [] ∧ report.failures = [1] := by
  obtain ⟨s, hrun, hs⟩ := exists_of_exec exec_failedRun
  have hw : Protocol.workIds s.trace = [1, 2] := congrArg Prod.fst hs
  have htoDo : s.server.toDo = {2} := congrArg (fun p => p.2.1) hs
  have hh : handled s.trace = [(1, -9)] := congrArg (fun p => p.2.2) hs
  obtain ⟨report, hparse, hr⟩ := report_of_reachable (hrun.mono fun _ _ _ => trivial) asciiTable
    (map_stampAll someTime s.server.log) (by simp [hw])
  refine ⟨s, report, hparse, ?_, ?_, ?_⟩
  · rw [hr.incompletes, htoDo, Finset.sort_singleton]
  · rw [hr.successes, handledIds, hh]
    simp
  · rw [hr.failures, handledIds, hh]
    simp

end Resume
end WorkerNg
