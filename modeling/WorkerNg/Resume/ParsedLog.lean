/-
# Parsing a whole log

The loop of the log parser over the log of a job.  `Orderly` describes the logs
that can be: any messages about no work item, `started` messages, and `done`
messages of items that were started before and are not done yet.  `Parsed` says
what the parser's dictionary holds after such a log, one entry for each item
started, with a status if the item is done.

The main result is `workIds_orderly`: what `wresume` selects are the items
started and not done, and with `--redo` those that failed; and it crashes if no
item was started.
-/

import WorkerNg.Resume.LogLines

namespace WorkerNg
namespace Resume

open Lines Work Wire Protocol Regex

variable {tb : CharTable} {Uuid : Type} {io : UuidText Uuid} {l : List LogMessage} {k j : ℕ}

/-- Item `k` has a `workitem k started` line. -/
def StartedIn (io : UuidText Uuid) (l : List LogMessage) (k : ℕ) : Prop :=
  ∃ u, startedMessage io k u ∈ l

/-- Item `k` has a `workitem k done` line. -/
def DoneIn (l : List LogMessage) (k : ℕ) : Prop := ∃ x, doneMessage k x ∈ l

/-- Item `k` has a `workitem k done` line with a status that is not zero. -/
def FailedIn (l : List LogMessage) (k : ℕ) : Prop := ∃ x, x ≠ 0 ∧ doneMessage k x ∈ l

/-- A log in which every `done` message is the first one for its item, which was
started before. -/
inductive Orderly (io : UuidText Uuid) : List LogMessage → Prop where
  | nil : Orderly io []
  | plain {l : List LogMessage} {m : LogMessage} (h : Orderly io l) (hm : Plain m) :
      Orderly io (l ++ [m])
  | started {l : List LogMessage} (h : Orderly io l) (k : ℕ) (u : Uuid) :
      Orderly io (l ++ [startedMessage io k u])
  | done {l : List LogMessage} {k : ℕ} (h : Orderly io l) (x : Int32) (hs : StartedIn io l k)
      (hd : ¬DoneIn l k) : Orderly io (l ++ [doneMessage k x])

/-! ### Telling messages apart -/

theorem natText_append_inj {s t : Text} (h : natText k ++ ' ' :: s = natText j ++ ' ' :: t) :
    k = j ∧ s = t := by
  have htake : ∀ (n : ℕ) (s : Text), (natText n ++ ' ' :: s).takeWhile Char.isDigit = natText n :=
    fun n s => takeWhile_append_of_head (fun _ => isDigit_of_mem_natText) (by simp)
  have hk : natText k = natText j := by
    have := congrArg (List.takeWhile Char.isDigit) h
    rwa [htake, htake] at this
  obtain rfl : k = j := by
    have := congrArg (fun s => Nat.ofDigitChars 10 s 0) hk
    simpa only [natText, Nat.ofDigitChars_ten_toDigits] using this
  exact ⟨rfl, List.cons_injective (List.append_cancel_left h)⟩

theorem startedMessage_eq (k : ℕ) (u : Uuid) : (startedMessage io k u).message =
    "workitem ".toList ++ (natText k ++ ' ' :: ("started: ".toList ++ io.put u)) := by
  simp [startedMessage]

theorem doneMessage_eq (k : ℕ) (x : Int32) : (doneMessage k x).message =
    "workitem ".toList ++ (natText k ++ ' ' :: ("done: ".toList ++ intText x)) := by
  simp [doneMessage]

theorem startedMessage_inj {u v : Uuid} (h : startedMessage io k u = startedMessage io j v) :
    k = j := by
  have hm := congrArg LogMessage.message h
  rw [startedMessage_eq, startedMessage_eq] at hm
  exact (natText_append_inj (List.append_cancel_left hm)).1

theorem doneMessage_inj {x y : Int32} (h : doneMessage k x = doneMessage j y) :
    k = j ∧ x = y := by
  have hm := congrArg LogMessage.message h
  rw [doneMessage_eq, doneMessage_eq] at hm
  obtain ⟨rfl, hx⟩ := natText_append_inj (List.append_cancel_left hm)
  have hint := congrArg (intOf asciiTable) (List.append_cancel_left hx)
  rw [intOf_intText, intOf_intText] at hint
  exact ⟨rfl, Int32.toInt_inj.1 hint⟩

theorem startedMessage_ne_doneMessage {u : Uuid} {x : Int32} :
    startedMessage io k u ≠ doneMessage j x := by
  intro h
  have hm := congrArg LogMessage.message h
  rw [startedMessage_eq, doneMessage_eq] at hm
  have hs := (natText_append_inj (List.append_cancel_left hm)).2
  simp at hs

theorem Plain.ne_started {m : LogMessage} (h : Plain m) (k : ℕ) (u : Uuid) :
    startedMessage io k u ≠ m := by
  rintro rfl
  exact h.not_workitem [] (by simp [startedMessage])

theorem Plain.ne_done {m : LogMessage} (h : Plain m) (k : ℕ) (x : Int32) :
    doneMessage k x ≠ m := by
  rintro rfl
  exact h.not_workitem [] (by simp [doneMessage])

/-! ### What a further message changes -/

theorem startedIn_append {l' : List LogMessage} :
    StartedIn io (l ++ l') k ↔ StartedIn io l k ∨ StartedIn io l' k := by
  simp only [StartedIn, List.mem_append, exists_or]

theorem doneIn_append {l' : List LogMessage} :
    DoneIn (l ++ l') k ↔ DoneIn l k ∨ DoneIn l' k := by
  simp only [DoneIn, List.mem_append, exists_or]

theorem startedIn_singleton {m : LogMessage} :
    StartedIn io [m] k ↔ ∃ u, startedMessage io k u = m := by
  simp only [StartedIn, List.mem_singleton]

theorem startedIn_append_plain {m : LogMessage} (hm : Plain m) :
    StartedIn io (l ++ [m]) k ↔ StartedIn io l k := by
  rw [startedIn_append, startedIn_singleton, or_iff_left]
  rintro ⟨u, hu⟩
  exact hm.ne_started k u hu

theorem doneMessage_mem_append_plain {m : LogMessage} (hm : Plain m) {x : Int32} :
    doneMessage k x ∈ l ++ [m] ↔ doneMessage k x ∈ l := by
  rw [List.mem_append, List.mem_singleton, or_iff_left (hm.ne_done k x)]

theorem startedIn_append_started {u : Uuid} :
    StartedIn io (l ++ [startedMessage io j u]) k ↔ StartedIn io l k ∨ k = j := by
  rw [startedIn_append, startedIn_singleton]
  refine or_congr_right ⟨?_, ?_⟩
  · rintro ⟨v, hv⟩
    exact startedMessage_inj hv
  · rintro rfl
    exact ⟨u, rfl⟩

theorem doneMessage_mem_append_started {u : Uuid} {x : Int32} :
    doneMessage k x ∈ l ++ [startedMessage io j u] ↔ doneMessage k x ∈ l := by
  rw [List.mem_append, List.mem_singleton, or_iff_left startedMessage_ne_doneMessage.symm]

theorem startedIn_append_done {x : Int32} :
    StartedIn io (l ++ [doneMessage j x]) k ↔ StartedIn io l k := by
  rw [startedIn_append, startedIn_singleton, or_iff_left]
  rintro ⟨u, hu⟩
  exact startedMessage_ne_doneMessage hu

theorem doneMessage_mem_append_done {x y : Int32} :
    doneMessage k x ∈ l ++ [doneMessage j y] ↔ doneMessage k x ∈ l ∨ k = j ∧ x = y := by
  rw [List.mem_append, List.mem_singleton]
  refine or_congr_right ⟨doneMessage_inj, ?_⟩
  rintro ⟨rfl, rfl⟩
  rfl

/-- What the dictionary holds for item `k`: nothing, if it was not started, no
status, if it is not done, and else the status of its `done` message. -/
inductive Entry (io : UuidText Uuid) (l : List LogMessage) (k : ℕ) : Option WorkItem → Prop where
  | unknown (hs : ¬StartedIn io l k) (hd : ∀ x, doneMessage k x ∉ l) : Entry io l k none
  | incomplete {c : Text} {d : DateTime} (hs : StartedIn io l k) (hd : ∀ x, doneMessage k x ∉ l) :
      Entry io l k (some ⟨some k, some c, some d, none, none⟩)
  | complete {c : Text} {d : DateTime} {t : ℤ} {x : Int32} (hs : StartedIn io l k)
      (hd : ∀ y, doneMessage k y ∈ l ↔ y = x) :
      Entry io l k (some ⟨some k, some c, some d, some t, some x.toInt⟩)

/-- The variables of the parser's loop after a log. -/
structure Parsed (io : UuidText Uuid) (l : List LogMessage) (st : ParseState) : Prop where
  nrLines : st.nrLines = l.length
  nrLogLines : st.nrLogLines = l.length
  entry : ∀ k, Entry io l k (st.workitems.get? k)

/-- Messages about other items and about none do not change an entry. -/
theorem Entry.frame {m : LogMessage} {w : Option WorkItem} (h : Entry io l k w)
    (hs : StartedIn io (l ++ [m]) k ↔ StartedIn io l k)
    (hd : ∀ x, doneMessage k x ∈ l ++ [m] ↔ doneMessage k x ∈ l) : Entry io (l ++ [m]) k w := by
  cases h with
  | unknown hs' hd' => exact .unknown (mt hs.1 hs') fun x => mt (hd x).1 (hd' x)
  | incomplete hs' hd' => exact .incomplete (hs.2 hs') fun x => mt (hd x).1 (hd' x)
  | complete hs' hd' => exact .complete (hs.2 hs') fun y => (hd y).trans (hd' y)

theorem parsed_plain {st : ParseState} (h : Parsed io l st) {r : LogRecord}
    (hr : Plain r.toLogMessage) :
    ∃ st', parseLine tb st (r.line ++ ['\n']) = .ok st' ∧
      Parsed io (l ++ [r.toLogMessage]) st' := by
  refine ⟨_, parseLine_plain hr st, ?_, ?_, fun k => ?_⟩
  · simp [h.nrLines]
  · simp [h.nrLogLines]
  · exact (h.entry k).frame (startedIn_append_plain hr) fun _ => doneMessage_mem_append_plain hr

theorem parsed_started {st : ParseState} (h : Parsed io l st) {r : LogRecord} {u : Uuid}
    (hr : r.toLogMessage = startedMessage io j u) :
    ∃ st', parseLine tb st (r.line ++ ['\n']) = .ok st' ∧
      Parsed io (l ++ [r.toLogMessage]) st' := by
  refine ⟨_, parseLine_started hr st, ?_, ?_, fun k => ?_⟩
  · simp [h.nrLines]
  · simp [h.nrLogLines]
  · rw [hr, Dict.get?_set]
    have hk := h.entry k
    split_ifs with hkj
    · subst hkj
      have hs : StartedIn io (l ++ [startedMessage io k u]) k :=
        startedIn_append_started.2 (Or.inr rfl)
      rw [ParseState.item]
      generalize st.workitems.get? k = w at hk ⊢
      cases hk with
      | unknown _ hd =>
          exact .incomplete hs fun x => mt doneMessage_mem_append_started.1 (hd x)
      | incomplete _ hd =>
          exact .incomplete hs fun x => mt doneMessage_mem_append_started.1 (hd x)
      | complete _ hd => exact .complete hs fun y => doneMessage_mem_append_started.trans (hd y)
    · refine hk.frame ?_ fun _ => doneMessage_mem_append_started
      rw [startedIn_append_started, or_iff_left hkj]

theorem parsed_done {st : ParseState} (h : Parsed io l st) {r : LogRecord} {x : Int32}
    (hr : r.toLogMessage = doneMessage j x) (hs : StartedIn io l j) (hd : ¬DoneIn l j) :
    ∃ st', parseLine tb st (r.line ++ ['\n']) = .ok st' ∧
      Parsed io (l ++ [r.toLogMessage]) st' := by
  have hitem : ∃ c d, st.workitems.get? j = some ⟨some j, some c, some d, none, none⟩ := by
    have hj := h.entry j
    generalize st.workitems.get? j = w at hj ⊢
    cases hj with
    | unknown hs' _ => exact absurd hs hs'
    | incomplete _ _ => exact ⟨_, _, rfl⟩
    | complete _ hd' => exact absurd ⟨_, (hd' _).2 rfl⟩ hd
  obtain ⟨c, d, hget⟩ := hitem
  refine ⟨_, parseLine_done hr (d := d) (by rw [ParseState.item, hget]; rfl), ?_, ?_, fun k => ?_⟩
  · simp [h.nrLines]
  · simp [h.nrLogLines]
  · rw [hr, Dict.get?_set, ParseState.item, hget]
    have hk := h.entry k
    split_ifs with hkj
    · subst hkj
      refine .complete (startedIn_append_done.2 hs) fun y => ?_
      rw [doneMessage_mem_append_done, or_iff_right fun hy => hd ⟨y, hy⟩]
      exact and_iff_right rfl
    · refine hk.frame startedIn_append_done fun y => ?_
      rw [doneMessage_mem_append_done, or_iff_left fun hy => hkj hy.1]

/-- The last record of a log. -/
theorem map_eq_concat {log : List LogRecord} {m : LogMessage}
    (h : log.map LogRecord.toLogMessage = l ++ [m]) :
    ∃ log' r, log = log' ++ [r] ∧ log'.map LogRecord.toLogMessage = l ∧ r.toLogMessage = m := by
  obtain ⟨log', rs, rfl, hl, hrs⟩ := List.map_eq_append_iff.1 h
  obtain ⟨r, rfl, hr⟩ := List.map_eq_singleton_iff.1 hrs
  exact ⟨log', r, rfl, hl, hr⟩

theorem foldlM_concat {log : List LogRecord} {r : LogRecord} {st₀ st st' : ParseState}
    (h : (log.map fun r => r.line ++ ['\n']).foldlM (parseLine tb) st₀ = .ok st)
    (hr : parseLine tb st (r.line ++ ['\n']) = .ok st') :
    ((log ++ [r]).map fun r => r.line ++ ['\n']).foldlM (parseLine tb) st₀ = .ok st' := by
  rw [List.map_append, List.foldlM_append, h, List.map_singleton]
  simp only [bind, Except.bind, List.foldlM_cons, List.foldlM_nil, hr, pure, Except.pure]

variable (tb) in
/-- **The parser's loop over an orderly log** ends, with an entry for each item
started. -/
theorem foldlM_parseLine (h : Orderly io l) {log : List LogRecord}
    (hl : log.map LogRecord.toLogMessage = l) :
    ∃ st, (log.map fun r => r.line ++ ['\n']).foldlM (parseLine tb) ⟨Dict.empty, 0, 0⟩ = .ok st ∧
      Parsed io l st := by
  induction h generalizing log with
  | nil =>
      rw [List.map_eq_nil_iff] at hl
      subst hl
      exact ⟨_, rfl, rfl, rfl, fun k => .unknown (by simp [StartedIn]) (by simp)⟩
  | plain h hm ih =>
      obtain ⟨log, r, rfl, hlog, rfl⟩ := map_eq_concat hl
      obtain ⟨st, hst, hp⟩ := ih hlog
      obtain ⟨st', hst', hp'⟩ := parsed_plain hp hm
      exact ⟨st', foldlM_concat hst hst', hp'⟩
  | started h k u ih =>
      obtain ⟨log, r, rfl, hlog, hr⟩ := map_eq_concat hl
      obtain ⟨st, hst, hp⟩ := ih hlog
      obtain ⟨st', hst', hp'⟩ := parsed_started hp hr
      exact ⟨st', foldlM_concat hst hst', hr ▸ hp'⟩
  | done h x hs hd ih =>
      obtain ⟨log, r, rfl, hlog, hr⟩ := map_eq_concat hl
      obtain ⟨st, hst, hp⟩ := ih hlog
      obtain ⟨st', hst', hp'⟩ := parsed_done hp hr hs hd
      exact ⟨st', foldlM_concat hst hst', hr ▸ hp'⟩

theorem Orderly.oneLine (h : Orderly io l) : ∀ m ∈ l, OneLine m.message := by
  have snoc : ∀ {l : List LogMessage} {m : LogMessage}, (∀ m ∈ l, OneLine m.message) →
      Loggable m → ∀ m' ∈ l ++ [m], OneLine m'.message := by
    intro l m hl hm m' hm'
    rcases List.mem_append.1 hm' with hm' | hm'
    · exact hl m' hm'
    · exact List.mem_singleton.1 hm' ▸ hm.oneLine
  induction h with
  | nil => simp
  | plain _ hm ih => exact snoc ih hm.toLoggable
  | started _ k u ih => exact snoc ih loggable_started
  | done _ x _ _ ih => exact snoc ih loggable_done

/-! ### The report -/

section Report

variable {st : ParseState}

/-- The ids of some of the rows. -/
theorem mem_index {p : WorkItem → Bool} (h : Parsed io l st) :
    k ∈ WorkitemReport.index ((st.workitems.entries.map Prod.snd).filter p) ↔
      ∃ w, st.workitems.get? k = some w ∧ p w = true := by
  have hid : ∀ {j w}, st.workitems.get? j = some w → w.itemId = some j := by
    intro j w hw
    have hj := h.entry j
    rw [hw] at hj
    cases hj <;> rfl
  rw [WorkitemReport.index, List.mem_mergeSort, List.mem_filterMap]
  constructor
  · rintro ⟨w, hw, hk⟩
    obtain ⟨hw, hp⟩ := List.mem_filter.1 hw
    obtain ⟨⟨j, w⟩, hm, rfl⟩ := List.mem_map.1 hw
    rw [Dict.mem_entries] at hm
    obtain rfl : j = k := Option.some.inj ((hid hm).symm.trans hk)
    exact ⟨w, hm, hp⟩
  · rintro ⟨w, hw, hp⟩
    exact ⟨w, List.mem_filter.2 ⟨List.mem_map.2 ⟨(k, w), Dict.mem_entries.2 hw, rfl⟩, hp⟩, hid hw⟩

/-- **The incomplete items** are those started and not done. -/
theorem mem_incompletes (h : Parsed io l st) :
    k ∈ WorkitemReport.incompletes ⟨st.workitems.entries.map Prod.snd⟩ ↔
      StartedIn io l k ∧ ¬DoneIn l k := by
  rw [WorkitemReport.incompletes, mem_index h]
  have hk := h.entry k
  generalize st.workitems.get? k = w at hk
  cases hk with
  | unknown hs hd => simp [hs]
  | incomplete hs hd => simp [hs, DoneIn, hd]
  | complete hs hd => simp [DoneIn, hd]

/-- **The failures** are the items done with a status that is not zero. -/
theorem mem_failures (h : Parsed io l st) :
    k ∈ WorkitemReport.failures ⟨st.workitems.entries.map Prod.snd⟩ ↔ FailedIn l k := by
  rw [WorkitemReport.failures, List.filter_filter, mem_index h]
  have hk := h.entry k
  generalize st.workitems.get? k = w at hk
  cases hk with
  | unknown hs hd => simp [FailedIn, hd]
  | incomplete hs hd => simp [FailedIn, hd, WorkitemReport.complete]
  | @complete _ _ _ x hs hd =>
      have hx : x.toInt = 0 ↔ x = 0 := Int32.toInt_inj (y := 0)
      simp [FailedIn, hd, WorkitemReport.complete, hx]

variable (tb) in
/-- The parser on the log file of an orderly log. -/
theorem parseLogFile_orderly {log : List LogRecord}
    (h : Orderly io (log.map LogRecord.toLogMessage)) (hne : log ≠ []) :
    ∃ st, Parsed io (log.map LogRecord.toLogMessage) st ∧ parseLogFile tb (logText log) =
      .ok (if st.workitems.entries = [] then none
        else some ⟨st.workitems.entries.map Prod.snd⟩) := by
  obtain ⟨st, hst, hp⟩ := foldlM_parseLine tb h rfl
  have hpos : st.nrLines ≠ 0 := by
    rw [hp.nrLines, List.length_map]
    exact mt List.length_eq_zero_iff.1 hne
  have hlog : ¬st.nrLogLines < st.nrLines := by
    rw [hp.nrLogLines, hp.nrLines]
    exact lt_irrefl _
  refine ⟨st, hp, ?_⟩
  rw [parseLogFile, keepLines_logText, parseLog, hst]
  · show st.report = _
    rw [ParseState.report, if_neg hpos, if_neg hlog]
    split_ifs <;> rfl
  · exact fun r hr => h.oneLine _ (List.mem_map_of_mem hr)

/-- Some item has an entry if some item was started. -/
theorem entries_eq_nil_iff (h : Parsed io l st) :
    st.workitems.entries = [] ↔ ∀ k, ¬StartedIn io l k := by
  constructor
  · intro hnil k hs
    have hk := h.entry k
    have hnone : st.workitems.get? k = none := by
      rw [Dict.get?, hnil, List.lookup_nil]
    rw [hnone] at hk
    cases hk with
    | unknown hn _ => exact hn hs
  · intro hall
    rw [List.eq_nil_iff_forall_not_mem]
    rintro ⟨k, w⟩ hm
    have hk := h.entry k
    rw [Dict.mem_entries.1 hm] at hk
    cases hk with
    | incomplete hs _ => exact hall k hs
    | complete hs _ => exact hall k hs

end Report

/-- **`wresume` crashes** on a log without a `started` line. -/
theorem workIds_of_not_started {log : List LogRecord}
    (h : Orderly io (log.map LogRecord.toLogMessage)) (hne : log ≠ [])
    (hs : ∀ k, ¬StartedIn io (log.map LogRecord.toLogMessage) k) (redo : Bool) :
    workIds tb redo (logText log) = .error .attributeError := by
  obtain ⟨st, hp, hparse⟩ := parseLogFile_orderly tb h hne
  rw [workIds, hparse, if_pos ((entries_eq_nil_iff hp).2 hs)]

variable (tb) in
/-- **What `wresume` selects**: the items started and not done, and with `--redo`
those that failed. -/
theorem workIds_of_started {log : List LogRecord}
    (h : Orderly io (log.map LogRecord.toLogMessage)) {j : ℕ}
    (hs : StartedIn io (log.map LogRecord.toLogMessage) j) (redo : Bool) :
    ∃ ids, workIds tb redo (logText log) = .ok ids ∧ ∀ k, k ∈ ids ↔
      (StartedIn io (log.map LogRecord.toLogMessage) k ∧
        ¬DoneIn (log.map LogRecord.toLogMessage) k) ∨
      redo = true ∧ FailedIn (log.map LogRecord.toLogMessage) k := by
  have hne : log ≠ [] := by
    rintro rfl
    obtain ⟨u, hu⟩ := hs
    exact absurd hu List.not_mem_nil
  obtain ⟨st, hp, hparse⟩ := parseLogFile_orderly tb h hne
  refine ⟨_, by rw [workIds, hparse, if_neg fun hnil => (entries_eq_nil_iff hp).1 hnil j hs], ?_⟩
  intro k
  cases redo
  · simp [mem_incompletes hp]
  · simp [mem_incompletes hp, mem_failures hp]

/-- `wresume` crashes on a log in which nothing was started. -/
theorem exists_started_of_workIds {log : List LogRecord}
    (h : Orderly io (log.map LogRecord.toLogMessage)) {redo : Bool} {ids : List ℕ}
    (hids : workIds tb redo (logText log) = .ok ids) :
    ∃ k, StartedIn io (log.map LogRecord.toLogMessage) k := by
  by_contra hnone
  have hne : log ≠ [] := by
    rintro rfl
    cases hids
  rw [workIds_of_not_started h hne (not_exists.1 hnone)] at hids
  cases hids

end Resume
end WorkerNg
