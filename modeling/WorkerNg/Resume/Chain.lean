/-
# Jobs resumed again and again

A job is submitted with `wsub`, resumed with `wresume`, and the new job resumed in
turn.  Each resume reads the log and the workfile of the job before it and writes
the workfile of the next one.

A workfile `Holds` a list of items when the server dispenses them all and the Python
parser yields them but for the last.  What `create_workfile` writes holds the items
of the data, and what `filter_workfile` writes holds those selected, with a newline
each (`Holds.filterWorkfile`).  So the items of a job can be numbered by the items of
the data they come from (`Chain`), and the history of all attempts can be told in
these numbers: no item is ever there twice, and one that succeeded in some attempt
is in no later workfile, so that it succeeds once (`chain_spec`).

What one resume makes of a job is said by `resumeWorkfile_of_reachable`.
-/

import WorkerNg.Resume.Report
import WorkerNg.Work.FilterWorkfile

namespace WorkerNg
namespace Resume

open Lines Work Wire Protocol

variable {tb : CharTable} {α β : Type} {ids : List ℕ} {is : List Text} {text : Text}

/-! ### Selecting by place -/

/-- The entries of a list at the places asked for, which are counted from one. -/
def select (ids : List ℕ) (l : List α) : List α :=
  (l.zipIdx.filter fun p => decide (p.2 + 1 ∈ ids)).map Prod.fst

theorem select_sublist (ids : List ℕ) (l : List α) : (select ids l).Sublist l := by
  have h := (List.filter_sublist (p := fun p : α × ℕ => decide (p.2 + 1 ∈ ids)) (l := l.zipIdx)).map
    Prod.fst
  rwa [List.zipIdx_map_fst] at h

theorem select_map (f : α → β) (ids : List ℕ) (l : List α) :
    select ids (l.map f) = (select ids l).map f := by
  rw [select, select, List.zipIdx_map, List.filter_map, List.map_map, List.map_map]
  rfl

theorem mem_select {a : α} {l : List α} :
    a ∈ select ids l ↔ ∃ k, k + 1 ∈ ids ∧ l[k]? = some a := by
  rw [select, List.mem_map]
  constructor
  · rintro ⟨⟨b, k⟩, hm, rfl⟩
    obtain ⟨hm, hk⟩ := List.mem_filter.1 hm
    exact ⟨k, of_decide_eq_true hk, List.mem_zipIdx_iff_getElem?.1 hm⟩
  · rintro ⟨k, hk, ha⟩
    exact ⟨(a, k), List.mem_filter.2 ⟨List.mem_zipIdx_iff_getElem?.2 ha, decide_eq_true hk⟩, rfl⟩

theorem natCast_mem_map {k : ℕ} : (k : ℤ) ∈ ids.map Nat.cast ↔ k ∈ ids := by
  rw [List.mem_map]
  constructor
  · rintro ⟨j, hj, he⟩
    rwa [show k = j by omega]
  · intro hk
    exact ⟨k, hk, rfl⟩

theorem selected_natCast (ids : List ℕ) (l : List Text) :
    selected (ids.map Nat.cast) l.zipIdx = select ids l := by
  rw [selected, select]
  congr 1
  refine List.filter_congr fun p _ => ?_
  rw [decide_eq_decide, show (p.2 : ℤ) + 1 = ((p.2 + 1 : ℕ) : ℤ) by omega]
  exact natCast_mem_map

/-! ### Workfiles and what they hold -/

/-- A workfile that holds some items: the server dispenses them, and the Python parser
yields all but the last. -/
structure Holds (text : Text) (is : List Text) : Prop where
  items : (WorkParser.ofStream (utf8 text) defaultSep).items = is.map utf8
  parse : parse filterSep text = is.dropLast

/-- **What `create_workfile` writes.** -/
theorem holds_createWorkfile {sch : Scheduler} {script : Text} {sources : List (List Row)} {n : ℕ}
    (h : createWorkfile sch.config script sources = .ok (text, n))
    (hsep : ∀ i ∈ workitems script sources, ∀ l ∈ lines '\n' i,
      strip l ≠ sch.config.workitemSeparator) (hcr : '\r' ∉ text) :
    Holds text (workitems script sources) := by
  have hstrip : strip sch.config.workitemSeparator = sch.config.workitemSeparator := by
    cases sch <;> decide
  have hfilter : sch.config.workitemSeparator = filterSep := by
    cases sch <;> rfl
  exact ⟨items_createWorkfile h fun i hi hmem => hsep i hi _ hmem hstrip,
    hfilter ▸ parse_createWorkfile h hsep hcr⟩

/-- Text without carriage returns is yielded from lines without any. -/
theorem not_mem_of_mem_parseLines {sep : Text} {file : List Text} {workitem w : Text} {c : Char}
    (hfile : ∀ line ∈ file, c ∉ line) (hw : c ∉ workitem)
    (h : w ∈ parseLines sep file workitem) : c ∉ w := by
  induction file generalizing workitem with
  | nil => exact absurd h List.not_mem_nil
  | cons line file ih =>
      rw [List.forall_mem_cons] at hfile
      rw [parseLines] at h
      split_ifs at h with hs
      · rcases List.mem_cons.1 h with rfl | h
        · exact hw
        · exact ih hfile.2 List.not_mem_nil h
      · refine ih hfile.2 ?_ h
        rw [List.mem_append, not_or]
        exact ⟨hw, hfile.1⟩

theorem not_mem_of_mem_parse {sep input w : Text} (h : w ∈ parse sep input) : '\r' ∉ w := by
  refine not_mem_of_mem_parseLines (fun line hline hc => ?_) List.not_mem_nil h
  have hflat : (keepLines '\n' (universalNewlines input)).flatten = universalNewlines input :=
    flatten_keepLines _
  refine not_mem_universalNewlines input ?_
  rw [← hflat]
  exact List.mem_flatten.2 ⟨line, hline, hc⟩

/-- **What `filter_workfile` writes**: the items selected, with a newline each, but
never the last item of its input. -/
theorem Holds.filterWorkfile (h : Holds text is) (ids : List ℕ) :
    Holds (filterWorkfile text filterSep (ids.map Nat.cast)).1
      ((select ids is.dropLast).map printLine) := by
  have hyield : ∀ w ∈ select ids is.dropLast, w ∈ Work.parse filterSep text := fun w hw =>
    h.parse ▸ (select_sublist ids _).subset hw
  have htext : (Work.filterWorkfile text filterSep (ids.map Nat.cast)).1 =
      joinBlocks '\n' filterSep ((select ids is.dropLast).map printLine) := by
    rw [Work.filterWorkfile, filterItems_nil, selected_natCast, h.parse]
  have hsep : utf8 filterSep = defaultSep := rfl
  rw [htext]
  constructor
  · rw [utf8_joinBlocks, hsep]
    refine items_joinBlocks (by decide) fun i hi => ?_
    rw [List.map_map] at hi
    obtain ⟨w, hw, rfl⟩ := List.mem_map.1 hi
    exact hsep ▸ (isYielded_of_mem_parse (hyield w hw)).isItem (by decide) (by decide)
  · have hterm : ∀ i ∈ (select ids is.dropLast).map printLine, Terminated '\n' i := by
      intro i hi
      obtain ⟨w, -, rfl⟩ := List.mem_map.1 hi
      exact terminated_concat w
    have hcr : '\r' ∉ joinBlocks '\n' filterSep ((select ids is.dropLast).map printLine) := by
      refine not_mem_joinBlocks (by decide) (by decide) fun i hi hc => ?_
      obtain ⟨w, hw, rfl⟩ := List.mem_map.1 hi
      rcases List.mem_append.1 hc with hc | hc
      · exact not_mem_of_mem_parse (hyield w hw) hc
      · exact absurd hc (by decide)
    rw [Work.parse, universalNewlines_eq hcr, keepLines_eq (terminated_joinBlocks hterm)]
    refine parseLines_joinBlocks (by decide) (by decide) hterm fun i hi l hl => ?_
    obtain ⟨w, hw, rfl⟩ := List.mem_map.1 hi
    have hw' := isYielded_of_mem_parse (hyield w hw)
    have hlines : lines '\n' (printLine w) = lines '\n' w ++ [[]] := lines_append hw'.terminated _
    rw [hlines, List.mem_append, List.mem_singleton] at hl
    rcases hl with hl | rfl
    · exact hw'.strip_ne l hl
    · decide

/-! ### One resume -/

/-- `wresume`, up to the job script: nothing when there is no work to be done, else the
text of the new workfile and the total number of work items, as it is printed. -/
def resumeWorkfile (tb : CharTable) (redo : Bool) (log workfile : Text) :
    Except PyError (Option (Text × ℕ)) :=
  (workIds tb redo log).map fun workIds =>
    if workIds.length = 0 then none
    else some ((filterWorkfile workfile filterSep (workIds.map Nat.cast)).1, workIds.length)

section Run

variable {C Uuid : Type} {job : Job C Uuid} {s : System C Uuid} {log : List LogRecord} {k : ℕ}

/-- The items to do: the open ones, and with `--redo` those that failed. -/
def redoIds (redo : Bool) (s : System C Uuid) : Finset ℕ :=
  s.server.toDo ∪ if redo then (handledIds (fun x => decide (x ≠ 0)) s.trace).toFinset else ∅

theorem mem_redoIds {redo : Bool} : k ∈ redoIds redo s ↔
    k ∈ s.server.toDo ∨ redo = true ∧ ∃ x, x ≠ 0 ∧ (k, x) ∈ handled s.trace := by
  rw [redoIds, Finset.mem_union]
  cases redo with
  | false => simp
  | true => simp [mem_handledIds]

/-- `wresume` counts no item twice. -/
theorem nodup_workIds {io : UuidText Uuid} (h : Orderly io (log.map LogRecord.toLogMessage))
    {redo : Bool} {ids : List ℕ} (hids : workIds tb redo (logText log) = .ok ids) : ids.Nodup := by
  have hne : log ≠ [] := by
    rintro rfl
    cases hids
  obtain ⟨st, hp, hparse⟩ := parseLogFile_orderly tb h hne
  rw [workIds, hparse] at hids
  by_cases hnil : st.workitems.entries = []
  · rw [if_pos hnil] at hids
    cases hids
  · rw [if_neg hnil] at hids
    have hnodup := nodup_report hp rfl
    rw [List.append_assoc] at hnodup
    refine Except.ok.inj hids ▸ hnodup.sublist ((List.Sublist.refl _).append ?_)
    cases redo with
    | false => exact List.nil_sublist _
    | true => exact List.sublist_append_right _ _

/-- What the run of a job says about its items and results. -/
structure Accounted (job : Job C Uuid) (s : System C Uuid) : Prop where
  range : ∀ k ∈ Protocol.workIds s.trace, 1 ≤ k ∧ k ≤ job.items.length
  given : ∀ k x, (k, x) ∈ handled s.trace → k ∈ Protocol.workIds s.trace
  toDo : ∀ k ∈ s.server.toDo, k ∈ Protocol.workIds s.trace ∧ ∀ x, (k, x) ∉ handled s.trace
  once : ((handled s.trace).map Prod.fst).Nodup

theorem Accounted.unique (h : Accounted job s) {x y : Int32} (hx : (k, x) ∈ handled s.trace)
    (hy : (k, y) ∈ handled s.trace) : x = y :=
  (Prod.mk.inj (List.inj_on_of_nodup_map h.once hx hy rfl)).2

theorem Accounted.of_mem_redoIds (h : Accounted job s) {redo : Bool} (hk : k ∈ redoIds redo s) :
    k ∈ Protocol.workIds s.trace := by
  rcases mem_redoIds.1 hk with hk | ⟨-, x, -, hx⟩
  · exact (h.toDo k hk).1
  · exact h.given k x hx

/-- An item to do has not succeeded. -/
theorem Accounted.not_succeeded (h : Accounted job s) {redo : Bool} (hk : k ∈ redoIds redo s) :
    (k, 0) ∉ handled s.trace := by
  intro h0
  rcases mem_redoIds.1 hk with hk | ⟨-, x, hne, hx⟩
  · exact (h.toDo k hk).2 0 h0
  · exact hne (h.unique hx h0)

variable [DecidableEq C]

theorem accounted_of_reachable (h : System.Reachable job System.anyStep s) : Accounted job s := by
  obtain ⟨t, hr, hi⟩ := exists_refines h
  have hsafe := dispatchSafe_of_refines hr hi
  have hmap := map_handled_trace hr
  refine ⟨fun k hk => ?_, fun k x hx => ?_, fun k hk => ?_, hmap ▸ hsafe.handled_once⟩
  · rw [hsafe.workIds, hr.given, List.mem_range'_1] at hk
    have hle := hi.given_le
    omega
  · rw [hr.trace] at hx
    obtain ⟨c, r, he, -⟩ := mem_handled.1 hx
    rw [hr.trace, mem_workIds]
    exact hi.given_of_handled ⟨c, r, he⟩
  · rw [hsafe.toDo] at hk
    exact ⟨hk.1, fun x hx => hk.2 (hmap ▸ List.mem_map.2 ⟨_, hx, rfl⟩)⟩

/-- **What `wresume` selects** are the items to do, once each; before an item was
handed out it crashes. -/
theorem workIds_of_reachable (h : System.Reachable job System.anyStep s) (tb : CharTable)
    (hlog : log.map LogRecord.toLogMessage = s.server.log) (redo : Bool) :
    (Protocol.workIds s.trace = [] → workIds tb redo (logText log) = .error .attributeError) ∧
      (Protocol.workIds s.trace ≠ [] → ∃ ids, workIds tb redo (logText log) = .ok ids ∧
        ids.Nodup ∧ ∀ k, k ∈ ids ↔ k ∈ redoIds redo s) := by
  obtain ⟨t, hrun, hr⟩ := refines_reachable (Q := fun _ _ => True) h
    fun _ _ _ _ _ _ _ _ _ _ => trivial
  have hi := Pool.inv_reaches hrun
  have hsafe := dispatchSafe_of_refines hr hi
  have hmap := map_handled_trace hr
  obtain ⟨hord, hstarted, -⟩ := log_of_refines hr hi (Pool.inOrder_reaches hrun)
  have hgiven : ∀ k, StartedIn job.io s.server.log k ↔ k ∈ Protocol.workIds s.trace := fun k => by
    rw [hstarted, hr.trace, mem_workIds]
    exact ⟨hi.exists_given, fun ⟨_, hg⟩ => hi.mem_ids hg⟩
  have hstatus : ∀ k x, doneMessage k x ∈ s.server.log ↔ (k, x) ∈ handled s.trace :=
    fun _ _ => doneMessage_mem_log hr
  have hdone : ∀ k, DoneIn s.server.log k ↔ k ∈ resultIds s.trace := fun k => by
    rw [← hmap, List.mem_map, Prod.exists]
    simp only [DoneIn, hstatus, exists_and_right, exists_eq_right]
  rw [← hlog] at hord hgiven hstatus hdone
  constructor
  · intro hnone
    have hne : log ≠ [] := by
      rintro rfl
      have hlen := congrArg List.length (hlog.trans hr.log)
      simp [Setup.startLog] at hlen
    refine workIds_of_not_started hord hne (fun k hk => ?_) redo
    have hk' := (hgiven k).1 hk
    rw [hnone] at hk'
    exact absurd hk' List.not_mem_nil
  · intro hsome
    obtain ⟨j, hj⟩ := List.exists_mem_of_ne_nil _ hsome
    obtain ⟨ids, hids, hmem⟩ := workIds_of_started tb hord ((hgiven j).2 hj) redo
    refine ⟨ids, hids, nodup_workIds hord hids, fun k => ?_⟩
    rw [hmem, hgiven, hdone, ← hsafe.toDo, mem_redoIds]
    simp only [FailedIn, hstatus]

/-- The items of a workfile that are to do, in order, without the last item. -/
def keptItems (todo : Finset ℕ) (is : List Text) : List Text :=
  (todo.erase is.length).sort.filterMap fun k => is[k - 1]?

omit [DecidableEq C] in
theorem length_keptItems {todo : Finset ℕ} (h : ∀ k ∈ todo, 1 ≤ k ∧ k ≤ is.length) :
    (keptItems todo is).length = (todo.erase is.length).card := by
  rw [keptItems, List.length_filterMap_eq_countP, ← Finset.length_sort (· ≤ ·),
    List.countP_eq_length]
  intro k hk
  rw [Finset.mem_sort, Finset.mem_erase] at hk
  have hrange := h k hk.2
  rw [List.getElem?_eq_getElem (by omega), Option.isSome_some]

omit [DecidableEq C] in
theorem select_eq_keptItems {todo : Finset ℕ} (h : ∀ k ∈ todo, 1 ≤ k ∧ k ≤ is.length)
    (hids : ∀ k, k ∈ ids ↔ k ∈ todo) : select ids is.dropLast = keptItems todo is := by
  have hplaces : (List.range' 1 (is.length - 1)).filter (fun k : ℕ => decide ((k : ℤ) ∈
      ids.map Nat.cast)) = (todo.erase is.length).sort := by
    refine eq_of_sorted ?_ (Finset.pairwise_sort _ _) ?_ (Finset.sort_nodup _ _) fun k => ?_
    · exact List.Pairwise.filter _ (List.pairwise_le_range' (s := 1))
    · exact List.Nodup.filter _ List.nodup_range'
    · rw [List.mem_filter, decide_eq_true_iff, natCast_mem_map, hids, Finset.mem_sort,
        Finset.mem_erase, List.mem_range'_1]
      constructor
      · rintro ⟨hk, hmem⟩
        exact ⟨by omega, hmem⟩
      · rintro ⟨hne, hmem⟩
        have hk := h k hmem
        exact ⟨by omega, hmem⟩
  rw [← selected_natCast, selected_zipIdx, List.length_dropLast, Nat.zero_add, hplaces, keptItems]
  refine List.filterMap_congr fun k hk => ?_
  rw [Finset.mem_sort, Finset.mem_erase] at hk
  have hrange := h k hk.2
  rw [List.getElem?_dropLast, if_pos (by omega)]

omit [DecidableEq C] in
/-- Nothing is selected exactly when nothing is to do. -/
theorem eq_nil_iff_redoIds {redo : Bool} (hids : ∀ k, k ∈ ids ↔ k ∈ redoIds redo s) :
    ids = [] ↔ redoIds redo s = ∅ := by
  rw [List.eq_nil_iff_forall_not_mem, Finset.eq_empty_iff_forall_notMem]
  simp only [hids]

omit [DecidableEq C] in
/-- As many items are to do as `wresume` selects. -/
theorem length_ids {todo : Finset ℕ} (h : ∀ k ∈ todo, 1 ≤ k ∧ k ≤ is.length) (hnodup : ids.Nodup)
    (hids : ∀ k, k ∈ ids ↔ k ∈ todo) :
    ids.length = (keptItems todo is).length + if is.length ∈ todo then 1 else 0 := by
  have hcard : ids.length = todo.card := by
    rw [← List.toFinset_card_of_nodup hnodup]
    congr 1
    ext k
    rw [List.mem_toFinset, hids]
  rw [length_keptItems h, hcard]
  split_ifs with hlast
  · exact (Finset.card_erase_add_one hlast).symm
  · rw [Finset.erase_eq_of_notMem hlast, Nat.add_zero]

/-- The items of the workfile are those of the job. -/
theorem range_redoIds (h : System.Reachable job System.anyStep s) (hw : Holds text is)
    (hjob : job.workfile = utf8 text) (redo : Bool) :
    ∀ k ∈ redoIds redo s, 1 ≤ k ∧ k ≤ is.length := by
  have hacc := accounted_of_reachable h
  have hlen : job.items.length = is.length := by
    rw [Setup.items, hjob, hw.items, List.length_map]
  exact fun k hk => hlen ▸ hacc.range k (hacc.of_mem_redoIds hk)

/-- Nothing is to do before an item was handed out. -/
theorem workIds_ne_nil (h : System.Reachable job System.anyStep s) {redo : Bool}
    (hne : redoIds redo s ≠ ∅) : Protocol.workIds s.trace ≠ [] := by
  obtain ⟨j, hj⟩ := Finset.nonempty_iff_ne_empty.2 hne
  exact List.ne_nil_of_mem ((accounted_of_reachable h).of_mem_redoIds hj)

/-- **One resume.**  In every reachable state, and whatever the time stamps in the log:
`wresume` crashes before an item was handed out, finds no work when none is to do, and
else writes the items to do, without the last item of the workfile; the total it
prints counts that one too. -/
theorem resumeWorkfile_of_reachable (h : System.Reachable job System.anyStep s) (tb : CharTable)
    (hlog : log.map LogRecord.toLogMessage = s.server.log) (hw : Holds text is)
    (hjob : job.workfile = utf8 text) (redo : Bool) :
    (Protocol.workIds s.trace = [] →
      resumeWorkfile tb redo (logText log) text = .error .attributeError) ∧
    (Protocol.workIds s.trace ≠ [] → redoIds redo s = ∅ →
      resumeWorkfile tb redo (logText log) text = .ok none) ∧
    (redoIds redo s ≠ ∅ → ∃ text', Holds text' ((keptItems (redoIds redo s) is).map printLine) ∧
      resumeWorkfile tb redo (logText log) text = .ok (some (text',
        (keptItems (redoIds redo s) is).length + if is.length ∈ redoIds redo s then 1 else 0))) := by
  obtain ⟨hcrash, hselect⟩ := workIds_of_reachable h tb hlog redo
  have hrange := range_redoIds h hw hjob redo
  refine ⟨fun hnone => ?_, fun hsome hempty => ?_, fun hne => ?_⟩
  · rw [resumeWorkfile, hcrash hnone]
    rfl
  · obtain ⟨ids, hids, -, hmem⟩ := hselect hsome
    have hnil : ids.length = 0 := List.length_eq_zero_iff.2 ((eq_nil_iff_redoIds hmem).2 hempty)
    rw [resumeWorkfile, hids, Except.map, if_pos hnil]
  · obtain ⟨ids, hids, hnodup, hmem⟩ := hselect (workIds_ne_nil h hne)
    have hpos : ids.length ≠ 0 := fun hnil =>
      hne ((eq_nil_iff_redoIds hmem).1 (List.length_eq_zero_iff.1 hnil))
    refine ⟨_, select_eq_keptItems hrange hmem ▸ hw.filterWorkfile ids, ?_⟩
    rw [resumeWorkfile, hids, Except.map, if_neg hpos, length_ids hrange hnodup hmem]

end Run

/-- The first item was killed by a signal and the second one, the last of the workfile,
is being executed: with `--redo` the job that resumes it has the first one, and the total
printed is two. -/
theorem resumeWorkfile_failedRun :
    ∃ (s : System Bool Uuid16) (text : Text), Holds text ["echo hello\n\n".toList] ∧
      resumeWorkfile asciiTable true (logText (stampAll someTime s.server.log))
        "echo hello\n#WORKER----\necho world\n".toList = .ok (some (text, 2)) := by
  obtain ⟨s, hrun, hs⟩ := exists_of_exec exec_failedRun
  simp only [Prod.mk.injEq] at hs
  have htodo : redoIds true s = {2, 1} := by
    rw [redoIds, handledIds, hs.2.1, hs.2.2]
    decide
  have hw : Holds "echo hello\n#WORKER----\necho world\n".toList
      ["echo hello\n".toList, "echo world\n".toList] := ⟨by decide +kernel, by decide⟩
  obtain ⟨text, htext, hresume⟩ := (resumeWorkfile_of_reachable (hrun.mono fun _ _ _ => trivial)
    asciiTable (map_stampAll someTime s.server.log) hw rfl true).2.2 (htodo ▸ by decide)
  have hkept : keptItems {2, 1} ["echo hello\n".toList, "echo world\n".toList] =
      ["echo hello\n".toList] := by
    decide +kernel
  rw [htodo, hkept] at htext hresume
  exact ⟨s, text, htext, hresume⟩

/-! ### A chain of resumes -/

/-- The results of a job, by the numbers of its items. -/
def numbered {C Uuid : Type} (origins : List ℕ) (s : System C Uuid) : List (ℕ × Int32) :=
  (handled s.trace).map fun r => (origins.getD (r.1 - 1) 0, r.2)

/-- A job that was resumed `n` times, from a workfile with `m` items: the numbers of its
items in this workfile, its own workfile, and the results of the attempts before it. -/
inductive Chain (tb : CharTable) (first : Text) (m : ℕ) :
    ℕ → List ℕ → Text → List (ℕ × Int32) → Prop where
  | submitted : Chain tb first m 0 (List.range' 1 m) first []
  | resumed {n : ℕ} {origins : List ℕ} {text : Text} {past : List (ℕ × Int32)}
      (h : Chain tb first m n origins text past) {C Uuid : Type} [DecidableEq C] {job : Job C Uuid}
      (hjob : job.workfile = utf8 text) {s : System C Uuid}
      (hs : System.Reachable job System.anyStep s) {log : List LogRecord}
      (hlog : log.map LogRecord.toLogMessage = s.server.log) {redo : Bool} {ids : List ℕ}
      (hids : workIds tb redo (logText log) = .ok ids) (hne : ids ≠ []) :
      Chain tb first m (n + 1) (select ids origins.dropLast)
        (filterWorkfile text filterSep (ids.map Nat.cast)).1 (past ++ numbered origins s)

/-- The text of an item after `n` resumes: each has added a newline. -/
def resumedItem (is : List Text) (n k : ℕ) : Text := is.getD (k - 1) [] ++ List.replicate n '\n'

/-- The numbers of the results that are successes. -/
def succeeded (rs : List (ℕ × Int32)) : List ℕ :=
  (rs.filter fun r => decide (r.2 = 0)).map Prod.fst

theorem mem_succeeded {rs : List (ℕ × Int32)} {k : ℕ} : k ∈ succeeded rs ↔ (k, 0) ∈ rs := by
  rw [succeeded, List.mem_map]
  constructor
  · rintro ⟨⟨j, x⟩, hm, rfl⟩
    obtain ⟨hm, hx⟩ := List.mem_filter.1 hm
    rwa [show x = 0 from of_decide_eq_true hx] at hm
  · intro hm
    exact ⟨(k, 0), List.mem_filter.2 ⟨hm, rfl⟩, rfl⟩

theorem succeeded_append (rs rs' : List (ℕ × Int32)) :
    succeeded (rs ++ rs') = succeeded rs ++ succeeded rs' := by
  rw [succeeded, List.filter_append, List.map_append]
  rfl

/-- What holds of a job that was resumed `n` times. -/
structure Resumed (is : List Text) (n : ℕ) (origins : List ℕ) (text : Text)
    (past : List (ℕ × Int32)) : Prop where
  /-- Its items are those of the data with these numbers. -/
  holds : Holds text (origins.map (resumedItem is n))
  /-- They are in the order of the data, and none is there twice. -/
  order : origins.Sublist (List.range' 1 is.length)
  /-- None of them has succeeded before. -/
  pending : ∀ k ∈ origins, k ∉ succeeded past
  /-- No item has succeeded twice. -/
  once : (succeeded past).Nodup

section Step

variable {C Uuid : Type} {job : Job C Uuid} {s : System C Uuid} {n : ℕ} {origins : List ℕ}
  {past : List (ℕ × Int32)} {k : ℕ}

theorem Resumed.nodup (h : Resumed is n origins text past) : origins.Nodup :=
  h.order.nodup List.nodup_range'

theorem Resumed.length_items (h : Resumed is n origins text past) (hjob : job.workfile = utf8 text) :
    job.items.length = origins.length := by
  rw [Setup.items, hjob, h.holds.items, List.length_map, List.length_map]

/-- A result is one of some item. -/
theorem Accounted.getElem?_origins (hacc : Accounted job s)
    (hlen : job.items.length = origins.length) {r : ℕ × Int32} (hr : r ∈ handled s.trace) :
    1 ≤ r.1 ∧ r.1 - 1 < origins.length ∧ origins[r.1 - 1]? = some (origins.getD (r.1 - 1) 0) := by
  have hrange := hacc.range r.1 (hacc.given r.1 r.2 hr)
  have hlt : r.1 - 1 < origins.length := by omega
  refine ⟨hrange.1, hlt, ?_⟩
  rw [List.getD_eq_getElem?_getD, List.getElem?_eq_getElem hlt, Option.getD_some]

/-- The success of an item of the job. -/
theorem mem_succeeded_numbered (hacc : Accounted job s)
    (hlen : job.items.length = origins.length) (hn : origins.Nodup) {j : ℕ}
    (hj : origins[j]? = some k) (hk : k ∈ succeeded (numbered origins s)) :
    (j + 1, 0) ∈ handled s.trace := by
  rw [mem_succeeded, numbered, List.mem_map] at hk
  obtain ⟨⟨i, x⟩, hi, heq⟩ := hk
  obtain ⟨rfl, rfl⟩ := Prod.mk.inj heq
  obtain ⟨hpos, hlt, hget⟩ := hacc.getElem?_origins hlen hi
  have hij : i - 1 = j := (List.getElem?_inj hlt hn).1 (hget.trans hj.symm)
  rwa [show j + 1 = i by dsimp only at hpos; omega]

/-- **In an attempt no item succeeds that has succeeded before**, or twice. -/
theorem Resumed.once_append (h : Resumed is n origins text past) (hacc : Accounted job s)
    (hlen : job.items.length = origins.length) :
    (succeeded (past ++ numbered origins s)).Nodup := by
  have hget := fun r hr => hacc.getElem?_origins (r := r) hlen hr
  rw [succeeded_append, List.nodup_append']
  refine ⟨h.once, ?_, fun k hp hk => ?_⟩
  · rw [succeeded, numbered, List.filter_map, List.map_map]
    refine List.Nodup.map_on (fun r hr r' hr' heq => ?_) (hacc.once.of_map.filter _)
    obtain ⟨hr, hx⟩ := List.mem_filter.1 hr
    obtain ⟨hr', hx'⟩ := List.mem_filter.1 hr'
    obtain ⟨hpos, hlt, hk⟩ := hget r hr
    obtain ⟨hpos', -, hk'⟩ := hget r' hr'
    have hsame : origins[r.1 - 1]? = origins[r'.1 - 1]? := by
      rw [hk, hk', show origins.getD (r.1 - 1) 0 = origins.getD (r'.1 - 1) 0 from heq]
    have hid := (List.getElem?_inj hlt h.nodup).1 hsame
    refine Prod.ext (by omega) ?_
    rw [show r.2 = 0 from of_decide_eq_true hx, show r'.2 = 0 from of_decide_eq_true hx']
  · rw [mem_succeeded, numbered, List.mem_map] at hk
    obtain ⟨r, hr, heq⟩ := hk
    obtain ⟨-, -, hk⟩ := hget r hr
    rw [show origins.getD (r.1 - 1) 0 = k from (Prod.mk.inj heq).1] at hk
    exact h.pending k (List.mem_of_getElem? hk) hp

theorem printLine_resumedItem (is : List Text) (n k : ℕ) :
    printLine (resumedItem is n k) = resumedItem is (n + 1) k := by
  rw [printLine, resumedItem, resumedItem, List.append_assoc, List.replicate_succ']

/-- **A resume** keeps the description. -/
theorem resumed_step [DecidableEq C] (h : Resumed is n origins text past)
    (hjob : job.workfile = utf8 text) (hs : System.Reachable job System.anyStep s)
    {log : List LogRecord} (hlog : log.map LogRecord.toLogMessage = s.server.log) {redo : Bool}
    (hids : workIds tb redo (logText log) = .ok ids) :
    Resumed is (n + 1) (select ids origins.dropLast)
      (filterWorkfile text filterSep (ids.map Nat.cast)).1 (past ++ numbered origins s) := by
  have hacc := accounted_of_reachable hs
  have hlen := h.length_items hjob
  -- an item that is resumed is one to do
  have hmem : ∀ k, k ∈ ids → k ∈ redoIds redo s := by
    obtain ⟨hcrash, hselect⟩ := workIds_of_reachable hs tb hlog redo
    intro k hk
    by_cases hnone : Protocol.workIds s.trace = []
    · rw [hcrash hnone] at hids
      cases hids
    · obtain ⟨ids', hids', -, hiff⟩ := hselect hnone
      obtain rfl := Except.ok.inj (hids.symm.trans hids')
      exact (hiff k).1 hk
  have hsub : (select ids origins.dropLast).Sublist origins :=
    (select_sublist ids _).trans origins.dropLast_sublist
  refine ⟨?_, hsub.trans h.order, fun k hk => ?_, h.once_append hacc hlen⟩
  · have hholds := h.holds.filterWorkfile ids
    rw [← List.map_dropLast, select_map, List.map_map] at hholds
    rwa [show printLine ∘ resumedItem is n = resumedItem is (n + 1) from
      funext (printLine_resumedItem is n)] at hholds
  · rw [succeeded_append, List.mem_append, not_or]
    refine ⟨h.pending k (hsub.subset hk), fun hs => ?_⟩
    obtain ⟨j, hj, hget⟩ := mem_select.1 hk
    have hj' : origins[j]? = some k := by
      rw [List.getElem?_dropLast] at hget
      split_ifs at hget
      exact hget
    exact hacc.not_succeeded (hmem _ hj) (mem_succeeded_numbered hacc hlen h.nodup hj' hs)

end Step

/-- **A whole chain.** -/
theorem resumed_of_chain {first : Text} {m n : ℕ} {origins : List ℕ} {past : List (ℕ × Int32)}
    (hfirst : Holds first is) (hm : m = is.length) (h : Chain tb first m n origins text past) :
    Resumed is n origins text past := by
  induction h with
  | submitted =>
      refine ⟨?_, hm ▸ List.Sublist.refl _, fun k _ => List.not_mem_nil, List.nodup_nil⟩
      have hmap : (List.range' 1 m).map (resumedItem is 0) = is := by
        refine List.ext_getElem (by simp [hm]) fun k hk hk' => ?_
        simp [resumedItem, hk']
      rwa [hmap]
  | resumed h hjob hs hlog hids hne ih => exact resumed_step ih hjob hs hlog hids

/-- **However often a job is resumed**, and with whatever logs: its items are items of
the data, each at most once and in their order; none of them has succeeded in an
attempt before; and with the results of the job itself no item succeeds twice. -/
theorem chain_spec {sch : Scheduler} {script : Text} {sources : List (List Row)} {m : ℕ}
    {first : Text} (hcreate : createWorkfile sch.config script sources = .ok (first, m))
    (hsep : ∀ i ∈ workitems script sources, ∀ l ∈ lines '\n' i,
      strip l ≠ sch.config.workitemSeparator) (hcr : '\r' ∉ first)
    {n : ℕ} {origins : List ℕ} {past : List (ℕ × Int32)}
    (h : Chain tb first m n origins text past) :
    Resumed (workitems script sources) n origins text past ∧
      ∀ {C Uuid : Type} [DecidableEq C] {job : Job C Uuid} {s : System C Uuid},
        job.workfile = utf8 text → System.Reachable job System.anyStep s →
          (succeeded (past ++ numbered origins s)).Nodup := by
  have hr := resumed_of_chain (holds_createWorkfile hcreate hsep hcr) (createWorkfile_ok hcreate).2.1 h
  exact ⟨hr, fun hjob hs => hr.once_append (accounted_of_reachable hs) (hr.length_items hjob)⟩

/-- The row `x = 1`, twice. -/
def twoRows : List (List Row) := oneRow.map fun rows => rows ++ rows

/-- The workfile made of them. -/
def twoRowsFile : Text :=
  "export x='1'\n\necho hello\n#WORKER----\nexport x='1'\n\necho hello\n".toList

/-- A job with this workfile and two clients. -/
def twoRowsJob : Job Bool Uuid16 :=
  { twoItemJob with
    workfile := utf8 twoRowsFile
    workfile_lt := by decide }

/-- The first item fails and the second one is open. -/
theorem exec_twoRows :
    (exec (System.step twoRowsJob) (fun _ _ => true) (System.start twoRowsJob)
      [.sendQuery false, .serve false, .recvReply false, .execute false ⟨1, [], []⟩,
        .sendResult false, .serve false, .sendQuery true, .serve true]).map
      (fun s => workIds asciiTable true (logText (stampAll someTime s.server.log))) =
        some (.ok [2, 1]) := by
  decide +kernel

theorem chain_spec_twoRows : ∃ (text : Text) (past : List (ℕ × Int32)),
    Resumed (workitems "echo hello".toList twoRows) 1 [1] text past := by
  obtain ⟨s, hrun, hids⟩ := exists_of_exec exec_twoRows
  have hcreate : createWorkfile Scheduler.slurm.config "echo hello".toList twoRows =
      .ok (twoRowsFile, 2) := rfl
  have hfirst : Chain asciiTable twoRowsFile 2 0 [1, 2] twoRowsFile [] := .submitted
  have hjob : twoRowsJob.workfile = utf8 twoRowsFile := rfl
  have hchain := hfirst.resumed hjob (hrun.mono fun _ _ _ => trivial)
    (map_stampAll someTime s.server.log) hids (by simp)
  exact ⟨_, _, (chain_spec hcreate (by decide) (by decide) hchain).1⟩

end Resume
end WorkerNg
