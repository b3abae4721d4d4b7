/-
# Resuming a job

`wresume` picks the work for a new job out of the log of an old one.  The log
names the items that were started and those that are done, and nothing else: the
items that nobody had asked for when the job was cut off are not in it, and
`wresume` does not look at the old workfile before it has made its choice.

So `NoWorkLost`, that it selects all items which are not done, holds in a
reachable state exactly if all items had been handed out, and there is one at
all (`noWorkLost_iff`).  Otherwise the items left in the parser are lost
(`exists_workLost`), and if none was handed out, `wresume` crashes.
-/

import WorkerNg.Protocol.Dispatch
import WorkerNg.Resume.ParsedLog

namespace WorkerNg
namespace Resume

open Lines Work Wire Protocol

variable {C Uuid : Type} {job : Job C Uuid} {io : UuidText Uuid} {l ms : List LogMessage}
  {k : ℕ} {t : Pool.State C Bytes FitResult}

/-! ### The messages about no item -/

/-- A text with which messages about no item begin, whatever follows. -/
def Opens (w : Text) : Prop :=
  (OneLine w ∧ w.head?.any (fun c => !isSpace c) = true) ∧
    ¬w <+: "workitem".toList ∧ ¬"workitem".toList <+: w

instance (w : Text) : Decidable (Opens w) := inferInstanceAs (Decidable ((_ ∧ _) ∧ _ ∧ _))

theorem plain_of_opens {severity : Severity} {w s : Text} (hw : Opens w) (hs : OneLine s) :
    Plain ⟨severity, w ++ s⟩ where
  oneLine := oneLine_append.2 ⟨hw.1.1, hs⟩
  head v c hc := by
    have hhead := hw.1.2
    cases w with
    | nil => cases hhead
    | cons d w =>
        obtain rfl : d = c := Option.some.inj hc
        simpa using hhead
  not_workitem v h := by
    rw [List.append_assoc] at h
    rcases List.prefix_or_prefix_of_prefix h (List.prefix_append w (s ++ v)) with h | h
    · exact hw.2.2 h
    · exact hw.2.1 h

theorem plain_of_opens_nil {severity : Severity} {w : Text} (hw : Opens w) :
    Plain ⟨severity, w⟩ := by
  have h : Plain ⟨severity, w ++ []⟩ := plain_of_opens hw oneLine_nil
  rwa [List.append_nil] at h

theorem plain_from {severity : Severity} {w : Text} (hw : Opens w) (u : Uuid) :
    Plain ⟨severity, w ++ io.put u⟩ := plain_of_opens hw (oneLine_put u)

/-- A message about item `k` and a client that is not of the form `wresume` reads. -/
theorem plain_idFrom {severity : Severity} {w v : Text} (hw : Opens w) (hv : OneLine v) (k : ℕ)
    (u : Uuid) : Plain ⟨severity, w ++ natText k ++ v ++ io.put u⟩ := by
  rw [List.append_assoc, List.append_assoc]
  exact plain_of_opens hw (by simp [hv])

theorem plain_startLog (job : Setup Uuid) : ∀ m ∈ job.startLog, Plain m := by
  have hhost : OneLine job.hostname := job.hostname_line
  have hinfo : OneLine job.serverInfo := job.serverInfo_line
  simp only [Setup.startLog, List.forall_mem_cons, List.append_assoc]
  refine ⟨?_, ?_, ?_, ?_, by simp⟩
  · exact plain_of_opens (by decide) (by simp)
  · exact plain_of_opens (by decide) (by simp)
  · exact plain_of_opens (by decide) (by simp [hhost])
  · exact plain_of_opens (by decide) (by simp [hinfo])

theorem plain_statusLog (status : Status) : ∀ m ∈ statusLog status, Plain m := by
  have hdone : Plain ⟨.info, "processing done".toList⟩ :=
    plain_of_opens_nil (by decide)
  have hexit : Plain ⟨.info, "exiting normally".toList⟩ :=
    plain_of_opens_nil (by decide)
  cases status with
  | looping => exact List.forall_mem_nil _
  | left => exact List.forall_mem_singleton.2 hdone
  | exited => exact List.forall_mem_cons.2 ⟨hdone, List.forall_mem_singleton.2 hexit⟩
  | aborted => exact List.forall_mem_nil _

/-- What is logged at an event of the pool: about no item, or one item handed
out, or one result handled. -/
inductive EventLog (io : UuidText Uuid) : Option ℕ → Option ℕ → List LogMessage → Prop where
  | plain {ms : List LogMessage} (h : ∀ m ∈ ms, Plain m) : EventLog io none none ms
  | started {m : LogMessage} (hm : Plain m) (k : ℕ) (u : Uuid) :
      EventLog io (some k) none [m, startedMessage io k u]
  | done {m : LogMessage} (hm : Plain m) (k : ℕ) (x : Int32) :
      EventLog io none (some k) [m, doneMessage k x]

theorem eventLog_result (job : Job C Uuid) (c : C) (k : ℕ) (r : FitResult) :
    eventLog job.toSetup (encodeEvent job (.received c (.result k r))) =
      [⟨.info, "result message for ".toList ++ natText k ++ " from ".toList ++
        job.io.put (job.uuid c)⟩, doneMessage k r.1.exitStatus] := by
  have hres := Result.ofString_toString (Result.fits_of_toString r.2)
  simp only [eventLog, encodeEvent, encodeRequest, Server.receivedLog, hres]
  rfl

theorem eventLog_encodeEvent (job : Job C Uuid) (e : Pool.Event C Bytes FitResult) :
    EventLog job.io e.workId e.resultId (eventLog job.toSetup (encodeEvent job e)) := by
  cases e with
  | received c q =>
      cases q with
      | query => exact .plain (List.forall_mem_singleton.2 (plain_from (by decide) _))
      | result k r =>
          rw [eventLog_result]
          exact .done (plain_idFrom (by decide) (by decide) k _) k r.1.exitStatus
  | sent c p =>
      cases p with
      | work k a => exact .started (plain_idFrom (by decide) (by decide) k _) k (job.uuid c)
      | stop =>
          have hm : Plain ⟨.info, "stop message to ".toList ++ job.io.put (job.uuid c)⟩ :=
            plain_from (by decide) _
          exact .plain (List.forall_mem_cons.2 ⟨hm, List.forall_mem_singleton.2 hm⟩)
      | ack => exact .plain (List.forall_mem_singleton.2 (plain_from (by decide) _))
      | ackStop => exact .plain (List.forall_mem_singleton.2 (plain_from (by decide) _))
  | delivered c p => exact .plain (List.forall_mem_nil _)
  | executed c k a r => exact .plain (List.forall_mem_nil _)

/-! ### The log of a job -/

theorem not_startedIn_of_plain (h : ∀ m ∈ ms, Plain m) : ¬StartedIn io ms k := by
  rintro ⟨u, hu⟩
  exact (h _ hu).ne_started k u rfl

theorem not_doneIn_of_plain (h : ∀ m ∈ ms, Plain m) : ¬DoneIn ms k := by
  rintro ⟨x, hx⟩
  exact (h _ hx).ne_done k x rfl

theorem Orderly.append_plain (h : Orderly io l) (hms : ∀ m ∈ ms, Plain m) :
    Orderly io (l ++ ms) := by
  induction ms generalizing l with
  | nil => rwa [List.append_nil]
  | cons m ms ih =>
      rw [List.forall_mem_cons] at hms
      rw [List.append_cons]
      exact ih (h.plain hms.1) hms.2

theorem startedIn_eventLog {w r : Option ℕ} (h : EventLog io w r ms) :
    StartedIn io ms k ↔ w = some k := by
  cases h with
  | plain hms => simp [not_startedIn_of_plain hms]
  | started hm j u =>
      rw [← List.singleton_append, startedIn_append_started, Option.some_inj, eq_comm,
        or_iff_right (not_startedIn_of_plain (List.forall_mem_singleton.2 hm))]
  | done hm j x =>
      rw [← List.singleton_append, startedIn_append_done]
      simp [not_startedIn_of_plain (List.forall_mem_singleton.2 hm)]

theorem doneIn_eventLog {w r : Option ℕ} (h : EventLog io w r ms) :
    DoneIn ms k ↔ r = some k := by
  cases h with
  | plain hms => simp [not_doneIn_of_plain hms]
  | started hm j u =>
      have hnot := not_doneIn_of_plain (k := k) (List.forall_mem_singleton.2 hm)
      rw [← List.singleton_append]
      simp only [DoneIn, doneMessage_mem_append_started]
      simpa [DoneIn] using hnot
  | done hm j x =>
      have hnot := not_doneIn_of_plain (k := k) (List.forall_mem_singleton.2 hm)
      rw [← List.singleton_append, doneIn_append, or_iff_right hnot, Option.some_inj]
      constructor
      · rintro ⟨y, hy⟩
        exact (doneMessage_inj (List.mem_singleton.1 hy)).1.symm
      · rintro rfl
        exact ⟨x, List.mem_singleton_self _⟩

/-- The log up to the messages of the server's end. -/
def logOf (job : Job C Uuid) (t : List (Pool.Event C Bytes FitResult)) : List LogMessage :=
  job.startLog ++ t.flatMap fun e => eventLog job.toSetup (encodeEvent job e)

theorem startedIn_logOf {t : List (Pool.Event C Bytes FitResult)} :
    StartedIn job.io (logOf job t) k ↔ ∃ c, Pool.Given t c k := by
  rw [logOf, startedIn_append, or_iff_right (not_startedIn_of_plain (plain_startLog _))]
  constructor
  · rintro ⟨u, hu⟩
    obtain ⟨e, he, hu⟩ := List.mem_flatMap.1 hu
    have hw := (startedIn_eventLog (eventLog_encodeEvent job e)).1 ⟨u, hu⟩
    exact Pool.given_of_mem (List.mem_filterMap.2 ⟨e, he, hw⟩)
  · rintro ⟨c, a, he⟩
    obtain ⟨u, hu⟩ := (startedIn_eventLog (eventLog_encodeEvent job _)).2
      (rfl : (Pool.Event.sent c (.work k a) : Pool.Event C Bytes FitResult).workId = some k)
    exact ⟨u, List.mem_flatMap.2 ⟨_, he, hu⟩⟩

theorem doneIn_logOf {t : List (Pool.Event C Bytes FitResult)} :
    DoneIn (logOf job t) k ↔ Pool.Handled t k := by
  rw [logOf, doneIn_append, or_iff_right (not_doneIn_of_plain (plain_startLog _))]
  constructor
  · rintro ⟨x, hx⟩
    obtain ⟨e, he, hx⟩ := List.mem_flatMap.1 hx
    have hr := (doneIn_eventLog (eventLog_encodeEvent job e)).1 ⟨x, hx⟩
    exact Pool.handled_of_mem (List.mem_filterMap.2 ⟨e, he, hr⟩)
  · rintro ⟨c, r, he⟩
    obtain ⟨x, hx⟩ := (doneIn_eventLog (eventLog_encodeEvent job _)).2
      (rfl : (Pool.Event.received c (.result k r) : Pool.Event C Bytes FitResult).resultId =
        some k)
    exact ⟨x, List.mem_flatMap.2 ⟨_, he, hx⟩⟩

/-- **The log of a run is orderly.** -/
theorem orderly_logOf {t : List (Pool.Event C Bytes FitResult)} (h : Pool.InOrder t) :
    Orderly job.io (logOf job t) := by
  induction h with
  | nil =>
      rw [logOf, List.flatMap_nil]
      exact Orderly.nil.append_plain (plain_startLog _)
  | @snoc t e h he ih =>
      have hlog : logOf job (t ++ [e]) =
          logOf job t ++ eventLog job.toSetup (encodeEvent job e) := by
        simp [logOf]
      rw [hlog]
      have hev := eventLog_encodeEvent job e
      generalize eventLog job.toSetup (encodeEvent job e) = ms at hev ⊢
      generalize e.workId = w at hev
      generalize hr : e.resultId = r at hev
      cases hev with
      | plain hms => exact ih.append_plain hms
      | started hm k u =>
          rw [List.append_cons]
          exact (ih.plain hm).started k u
      | done hm k x =>
          obtain ⟨hg, hn⟩ := he k hr
          rw [List.append_cons]
          refine (ih.plain hm).done x ?_ ?_
          · exact (startedIn_append_plain hm).2 (startedIn_logOf.2 hg)
          · rw [doneIn_append, or_iff_left (not_doneIn_of_plain (by simpa using hm)),
              doneIn_logOf]
            exact hn

/-! ### No work is lost -/

/-- **No work is lost** by resuming a job with `n` items from its log: `wresume`
selects all items that have no `done` line, and with `--redo` those with a status
that is not zero as well. -/
structure NoWorkLost (tb : CharTable) (n : ℕ) (log : List LogRecord) : Prop where
  incompletes : ∃ ids, workIds tb false (logText log) = .ok ids ∧ ∀ k, k ∈ ids ↔
    (1 ≤ k ∧ k ≤ n) ∧ ¬DoneIn (log.map LogRecord.toLogMessage) k
  redo : ∃ ids, workIds tb true (logText log) = .ok ids ∧ ∀ k, k ∈ ids ↔
    ((1 ≤ k ∧ k ≤ n) ∧ ¬DoneIn (log.map LogRecord.toLogMessage) k) ∨
      FailedIn (log.map LogRecord.toLogMessage) k

variable [DecidableEq C] {s : System C Uuid} {log : List LogRecord}

omit [DecidableEq C] in
/-- The items that the log of a state names. -/
theorem log_of_refines (hr : Refines job s t) (hi : Pool.Inv job.items t)
    (ho : Pool.InOrder t.trace) : Orderly job.io s.server.log ∧
      (∀ k, StartedIn job.io s.server.log k ↔ 1 ≤ k ∧ k ≤ t.given) ∧
        ∀ k, DoneIn s.server.log k → 1 ≤ k ∧ k ≤ t.given := by
  have hplain := plain_statusLog s.server.status
  have hlog : s.server.log = logOf job t.trace ++ statusLog s.server.status := by
    rw [hr.log, hr.trace, List.flatMap_map, logOf]
  have hgiven : ∀ k, (∃ c, Pool.Given t.trace c k) ↔ 1 ≤ k ∧ k ≤ t.given := fun k =>
    ⟨fun ⟨_, hg⟩ => hi.mem_ids hg, hi.exists_given⟩
  refine ⟨hlog ▸ (orderly_logOf ho).append_plain hplain, fun k => ?_, fun k hd => ?_⟩
  · rw [hlog, startedIn_append, or_iff_left (not_startedIn_of_plain hplain),
      startedIn_logOf, hgiven]
  · rw [hlog, doneIn_append, or_iff_left (not_doneIn_of_plain hplain), doneIn_logOf] at hd
    exact (hgiven k).1 (hi.given_of_handled hd)

/-- **When resuming loses no work.**  In every reachable state, and whatever the
time stamps in the log: `wresume` selects what is not done exactly if the
workfile has an item and all items were handed out. -/
theorem noWorkLost_iff (h : System.Reachable job System.anyStep s) (tb : CharTable)
    (hlog : log.map LogRecord.toLogMessage = s.server.log) :
    NoWorkLost tb job.items.length log ↔
      1 ≤ job.items.length ∧ s.server.parser.hasNext = false := by
  obtain ⟨t, hrun, hr⟩ := refines_reachable (Q := fun _ _ => True) h
    fun _ _ _ _ _ _ _ _ _ _ => trivial
  have hi := Pool.inv_reaches hrun
  obtain ⟨hord, hstarted, hdone⟩ := log_of_refines hr hi (Pool.inOrder_reaches hrun)
  rw [← hlog] at hord hstarted hdone
  have hle := hi.given_le
  rw [hasNext_eq_decide hr.items, decide_eq_false_iff_not, Nat.not_lt]
  constructor
  · rintro ⟨⟨ids, hids, hmem⟩, -⟩
    -- an item was started, or `wresume` would crash
    have hpos : 1 ≤ t.given := by
      obtain ⟨k, hk⟩ := exists_started_of_workIds hord hids
      have := (hstarted k).1 hk
      omega
    refine ⟨hpos.trans hle, ?_⟩
    -- the last item is not done before it was started, so it is selected
    by_contra hlt
    obtain ⟨ids', hids', hmem'⟩ :=
      workIds_of_started tb hord ((hstarted 1).2 ⟨le_rfl, hpos⟩) false
    obtain rfl : ids' = ids := Except.ok.inj (hids'.symm.trans hids)
    have hlast : job.items.length ∈ ids' := by
      refine (hmem _).2 ⟨⟨hpos.trans hle, le_rfl⟩, fun hd => ?_⟩
      have := hdone _ hd
      omega
    rcases (hmem' _).1 hlast with ⟨hs, -⟩ | ⟨hfalse, -⟩
    · have := (hstarted _).1 hs
      omega
    · cases hfalse
  · rintro ⟨hpos, hge⟩
    have hgiven : t.given = job.items.length := le_antisymm hle hge
    rw [hgiven] at hstarted
    have hids := workIds_of_started tb hord ((hstarted 1).2 ⟨le_rfl, hpos⟩)
    constructor
    · obtain ⟨ids, hok, hmem⟩ := hids false
      refine ⟨ids, hok, fun k => ?_⟩
      rw [hmem, hstarted, or_iff_left (by simp)]
    · obtain ⟨ids, hok, hmem⟩ := hids true
      refine ⟨ids, hok, fun k => ?_⟩
      rw [hmem, hstarted, and_iff_right rfl]

/-- A log with one and the same time at every message. -/
def stampAll (d : DateTime) (l : List LogMessage) : List LogRecord := l.map fun m => ⟨m, d⟩

theorem map_stampAll (d : DateTime) (l : List LogMessage) :
    (stampAll d l).map LogRecord.toLogMessage = l := by
  rw [stampAll, List.map_map]
  exact List.map_id l

/-- A time at which a job may run. -/
def someTime : DateTime := ⟨2021, 9, 30, 14, 46, 59, 785764, by decide, by decide⟩

/-- A job with two work items and two clients. -/
def twoItemJob : Job Bool Uuid16 :=
  { oneItemJob with
    workfile := utf8 "echo hello\n#WORKER----\necho world\n".toList
    workfile_lt := by decide }

/-- The first item is killed by a signal, and the second one is handed out. -/
def failedRun : List (Action Bool) :=
  [.sendQuery false, .serve false, .recvReply false, .execute false ⟨-9, [], []⟩,
    .sendResult false, .serve false, .sendQuery true, .serve true]

theorem exec_failedRun_hasNext :
    (exec (System.step twoItemJob) (fun _ _ => true) (System.start twoItemJob) failedRun).map
      (fun s => (s.server.parser.hasNext, s.server.toDo)) = some (false, {2}) := by
  decide +kernel

/-- The second item is to be resumed, and with `--redo` the first one as well. -/
theorem noWorkLost_failedRun :
    ∃ s : System Bool Uuid16, s.server.toDo = {2} ∧
      NoWorkLost asciiTable twoItemJob.items.length (stampAll someTime s.server.log) := by
  obtain ⟨s, hrun, hs⟩ := exists_of_exec exec_failedRun_hasNext
  obtain ⟨hnext, htoDo⟩ := Prod.mk.inj hs
  exact ⟨s, htoDo, (noWorkLost_iff (hrun.mono fun _ _ _ => trivial) asciiTable
    (map_stampAll someTime s.server.log)).2 ⟨by decide +kernel, hnext⟩⟩

/-- The job is cut off while the first client executes the first item: `wresume`
selects this item only. -/
theorem exec_cutOff :
    (exec (System.step twoItemJob) (fun _ _ => true) (System.start twoItemJob)
      [.sendQuery false, .serve false, .recvReply false]).map
        (fun s => (workIds asciiTable false (logText (stampAll someTime s.server.log)),
          s.server.log.all fun m => !"workitem 2".toList.isPrefixOf m.message)) =
      some (.ok [1], true) := by
  decide +kernel

/-- **Work is lost**: an item that was not started before the job was cut off is
not resumed. -/
theorem exists_workLost :
    ∃ s : System Bool Uuid16, System.Reachable twoItemJob System.anyStep s ∧
      ∃ log, log.map LogRecord.toLogMessage = s.server.log ∧
        ¬NoWorkLost asciiTable twoItemJob.items.length log := by
  obtain ⟨s, hrun, hs⟩ := exists_of_exec exec_cutOff
  obtain ⟨hids, hlog⟩ := Prod.mk.inj hs
  refine ⟨s, hrun.mono fun _ _ _ => trivial, stampAll someTime s.server.log,
    map_stampAll _ _, ?_⟩
  rintro ⟨⟨ids, hok, hmem⟩, -⟩
  obtain rfl : [1] = ids := Except.ok.inj (hids.symm.trans hok)
  have hn : twoItemJob.items.length = 2 := by decide +kernel
  have hdone : ¬DoneIn ((stampAll someTime s.server.log).map LogRecord.toLogMessage) 2 := by
    rw [map_stampAll]
    rintro ⟨x, hx⟩
    have hprefix := List.all_eq_true.1 hlog _ hx
    have htext : natText 2 = ['2'] := by decide
    simp [doneMessage, htext] at hprefix
  have htwo : 2 ∈ [1] := (hmem 2).2 ⟨by omega, hdone⟩
  exact absurd htwo (by decide)

end Resume
end WorkerNg
