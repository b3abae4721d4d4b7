/-
# Which logs the parser accepts

`WorkitemLogParser` on any text at all, also one that no server wrote: a log that
was cut off, edited by hand, or put together from two runs.  Only its numbers must not
be too long, which is left to `LongNumbers`.

It returns something exactly if the text has a line, every line is a log line,
every time stamp is one, and no item is done before it was started (`Acceptable`,
`parseLogFile_ok_iff`).  What it returns then is determined by the entries of the
log: the last `started` entry of an item gives its client and its time, the last
`done` entry its status and its duration (`itemOf`).  The three lists of the report
hold the items started, each in one of them: those without a `done` entry, those
whose last one says zero, and the others (`reports_of_parseLogFile`).
-/

import WorkerNg.Lib.Except
import WorkerNg.Resume.LogEntries

namespace WorkerNg
namespace Resume

open Lines Work Protocol

variable {tb : CharTable} {k : ℕ} {es : List (LogEntry × DateTime)}

/-! ### The entries of an item -/

/-- The item an entry is about. -/
def LogEntry.itemId : LogEntry → ℕ
  | .started k _ => k
  | .done k _ => k

/-- What is known of an item after one more entry. -/
def WorkItem.enter (w : WorkItem) (d : DateTime) : LogEntry → WorkItem
  | .started k u => { w with itemId := k, clientId := u, startTime := d }
  | .done _ x => { w with status := x, duration := w.startTime.map d.sub }

/-- What the entries say about item `k`. -/
def itemOf (k : ℕ) (es : List (LogEntry × DateTime)) : Option WorkItem :=
  es.foldl (fun w e =>
    if e.1.itemId = k then some ((w.getD WorkItem.new).enter e.2 e.1) else w) none

/-- The status that the last `done` entry of item `k` gives. -/
def lastStatus (k : ℕ) (es : List LogEntry) : Option ℤ :=
  (es.filterMap fun e => e.done?.bind fun p => if p.1 = k then some p.2 else none).getLast?

/-- Item `k` has a `started` entry. -/
def HasStarted (k : ℕ) (es : List LogEntry) : Prop := ∃ u, .started k u ∈ es

/-- Every `done` entry comes after a `started` entry of its item. -/
def StartedFirst (es : List LogEntry) : Prop :=
  ∀ l₁ k x l₂, es = l₁ ++ .done k x :: l₂ → HasStarted k l₁

theorem itemOf_concat_self (es : List (LogEntry × DateTime)) (e : LogEntry) (d : DateTime) :
    itemOf e.itemId (es ++ [(e, d)]) =
      some (((itemOf e.itemId es).getD WorkItem.new).enter d e) := by
  rw [itemOf, List.foldl_append, List.foldl_cons, List.foldl_nil, if_pos rfl]
  rfl

theorem itemOf_concat_of_ne (es : List (LogEntry × DateTime)) {e : LogEntry} (d : DateTime)
    (h : e.itemId ≠ k) : itemOf k (es ++ [(e, d)]) = itemOf k es := by
  rw [itemOf, List.foldl_append, List.foldl_cons, List.foldl_nil, if_neg h]
  rfl

theorem lastStatus_concat (es : List LogEntry) (e : LogEntry) : lastStatus k (es ++ [e]) =
    (e.done?.bind fun p => if p.1 = k then some p.2 else none).or (lastStatus k es) := by
  rw [lastStatus, List.filterMap_append]
  cases h : e.done?.bind fun p => if p.1 = k then some p.2 else none with
  | none => simp [h, lastStatus]
  | some x => simp [h]

theorem mem_of_lastStatus {es : List LogEntry} {x : ℤ} (h : lastStatus k es = some x) :
    .done k x ∈ es := by
  obtain ⟨e, he, hx⟩ := List.mem_filterMap.1 (List.mem_of_getLast? h)
  cases e with
  | started j u => cases hx
  | done j y =>
      simp only [LogEntry.done?, Option.bind_some, Option.ite_none_right_eq_some,
        Option.some.injEq] at hx
      obtain ⟨rfl, rfl⟩ := hx
      exact he

theorem exists_lastStatus {es : List LogEntry} {x : ℤ} (h : .done k x ∈ es) :
    ∃ y, lastStatus k es = some y := by
  rw [← Option.isSome_iff_exists, lastStatus, List.getLast?_isSome]
  exact List.ne_nil_of_mem (a := x) (List.mem_filterMap.2 ⟨_, h, by simp [LogEntry.done?]⟩)

theorem hasStarted_concat {es : List LogEntry} {e : LogEntry} :
    HasStarted k (es ++ [e]) ↔ HasStarted k es ∨ ∃ u, e = .started k u := by
  simp only [HasStarted, List.mem_append, List.mem_singleton, exists_or, eq_comm]

theorem startedFirst_nil : StartedFirst [] := by
  intro l₁ k x l₂ h
  simp at h

theorem startedFirst_concat {es : List LogEntry} {e : LogEntry} : StartedFirst (es ++ [e]) ↔
    StartedFirst es ∧ ∀ k x, e = .done k x → HasStarted k es := by
  constructor
  · intro h
    refine ⟨fun l₁ k x l₂ he => ?_, fun k x he => ?_⟩
    · exact h l₁ k x (l₂ ++ [e]) (by simp [he])
    · exact h es k x [] (by rw [he])
  · rintro ⟨h, he⟩ l₁ k x l₂ heq
    rcases List.eq_nil_or_concat l₂ with rfl | ⟨l₂, e', rfl⟩
    · obtain ⟨rfl, he'⟩ := List.append_inj' heq rfl
      exact he k x (List.singleton_injective he')
    · rw [List.concat_eq_append, ← List.cons_append, ← List.append_assoc] at heq
      exact h l₁ k x l₂ (List.append_inj' heq rfl).1

/-- What an item looks like that was started. -/
structure WellFormed (k : ℕ) (es : List LogEntry) (w : WorkItem) : Prop where
  itemId : w.itemId = some k
  clientId : w.clientId.isSome = true
  startTime : w.startTime.isSome = true
  duration : w.duration.isSome = w.status.isSome
  status : w.status = lastStatus k es

/-- What is known of an item: nothing when it was not started. -/
inductive Known (k : ℕ) (es : List LogEntry) : Option WorkItem → Prop where
  | unknown (hs : ¬HasStarted k es) (hd : lastStatus k es = none) : Known k es none
  | known {w : WorkItem} (hs : HasStarted k es) (hw : WellFormed k es w) : Known k es (some w)

/-- An entry about another item changes nothing. -/
theorem Known.frame {es : List LogEntry} {e : LogEntry} {w : Option WorkItem} (h : Known k es w)
    (he : e.itemId ≠ k) : Known k (es ++ [e]) w := by
  have hs : HasStarted k (es ++ [e]) ↔ HasStarted k es := by
    rw [hasStarted_concat, or_iff_left]
    rintro ⟨u, rfl⟩
    exact he rfl
  have hd : lastStatus k (es ++ [e]) = lastStatus k es := by
    rw [lastStatus_concat]
    cases e with
    | started j u => rfl
    | done j x => simp [LogEntry.done?, show j ≠ k from he]
  cases h with
  | unknown hs' hd' => exact .unknown (mt hs.1 hs') (hd.trans hd')
  | known hs' hw =>
      exact .known (hs.2 hs') ⟨hw.itemId, hw.clientId, hw.startTime, hw.duration,
        hw.status.trans hd.symm⟩

/-- **An item is known when it was started**, and then from its entries. -/
theorem known_itemOf (k : ℕ) (h : StartedFirst (es.map Prod.fst)) :
    Known k (es.map Prod.fst) (itemOf k es) := by
  induction es using List.reverseRecOn with
  | nil => exact .unknown (by simp [HasStarted]) rfl
  | append_singleton es e ih =>
      obtain ⟨e, d⟩ := e
      rw [List.map_append, List.map_singleton] at h ⊢
      obtain ⟨hfirst, hdone⟩ := startedFirst_concat.1 h
      have hk := ih hfirst
      by_cases he : e.itemId = k
      · subst he
        rw [itemOf_concat_self]
        generalize itemOf e.itemId es = w at hk
        cases e with
        | started j u =>
            refine .known (hasStarted_concat.2 (Or.inr ⟨u, rfl⟩)) ?_
            have hlast := lastStatus_concat (k := j) (es.map Prod.fst) (.started j u)
            cases hk with
            | unknown _ hd => exact ⟨rfl, rfl, rfl, rfl, (hlast.trans hd).symm⟩
            | known _ hw => exact ⟨rfl, rfl, rfl, hw.duration, hw.status.trans hlast.symm⟩
        | done j x =>
            have hs := hdone j x rfl
            refine .known (hasStarted_concat.2 (Or.inl hs)) ?_
            have hlast : lastStatus j (es.map Prod.fst ++ [.done j x]) = some x := by
              simp [lastStatus_concat, LogEntry.done?]
            cases hk with
            | unknown hn _ => exact absurd hs hn
            | known _ hw =>
                obtain ⟨d', hd'⟩ := Option.isSome_iff_exists.1 hw.startTime
                refine ⟨hw.itemId, hw.clientId, hw.startTime, ?_, hlast.symm⟩
                simp [WorkItem.enter, hd']
      · rw [itemOf_concat_of_ne es d he]
        exact hk.frame he

/-! ### The loop -/

/-- What an entry does to the variables of the loop. -/
def ParseState.enter (st : ParseState) (d : DateTime) (e : LogEntry) : Except PyError ParseState :=
  if e.done?.isSome ∧ (st.item e.itemId).startTime = none then .error .typeError
  else .ok { st with
    workitems := st.workitems.set e.itemId ((st.item e.itemId).enter d e) }

/-- What a line does to them, once it is counted. -/
def ParseState.read (st : ParseState) :
    Option (LogEntry × Except PyError DateTime) → Except PyError ParseState
  | none => .ok st
  | some (_, .error err) => .error err
  | some (e, .ok d) => st.enter d e

/-- A `started` line has a client. -/
theorem group_client_id {line : Text} {m : Regex.Match Char}
    (h : (startedExpr tb).match? line = some m) :
    m.group "client_id" = some ((m.group "client_id").getD []) := by
  have hsome : (m.group "client_id").isSome :=
    Regex.isSome_group (r := startedExpr tb) rfl (List.mem_of_mem_head? h)
  obtain ⟨u, hu⟩ := Option.isSome_iff_exists.1 hsome
  rw [hu, Option.getD_some]

/-- **A line is counted, and its entry, if it has one, entered.** -/
theorem parseLine_eq (st : ParseState) (line : Text) :
    parseLine tb st line = (st.count tb line).read (stampedEntry tb line) := by
  rw [parseLine, stampedEntry]
  cases hm : (startedExpr tb).match? line with
  | some m =>
      simp only [ParseState.started]
      rw [group_client_id hm]
      cases parseTime tb ((m.group "datetime").getD []) with
      | error err => rfl
      | ok d => simp [ParseState.read, ParseState.enter, LogEntry.done?, LogEntry.itemId,
          WorkItem.enter, ParseState.item]
  | none =>
      cases (doneExpr tb).match? line with
      | none => rfl
      | some m =>
          simp only [ParseState.done, Option.map_some]
          cases parseTime tb ((m.group "datetime").getD []) with
          | error err => rfl
          | ok d =>
              simp only [ParseState.read, ParseState.enter, LogEntry.done?, LogEntry.itemId,
                Option.isSome_some, true_and]
              cases hs : (ParseState.item (st.count tb line)
                  (groupValue tb m "workitem_id")).startTime with
              | none => rfl
              | some d' => simp [WorkItem.enter, hs]

variable (tb) in
/-- The entries of some lines, those with a time stamp that is one. -/
def entriesOf (lines : List Text) : List (LogEntry × DateTime) :=
  lines.filterMap fun line => (stampedEntry tb line).bind fun e => e.2.toOption.map (e.1, ·)

variable (tb) in
/-- Every time stamp of an entry is one. -/
def TimesValid (lines : List Text) : Prop :=
  ∀ line ∈ lines, ∀ e err, stampedEntry tb line ≠ some (e, .error err)

/-- The variables of the loop after some lines. -/
structure Reads (tb : CharTable) (lines : List Text) (st : ParseState) : Prop where
  times : TimesValid tb lines
  first : StartedFirst ((entriesOf tb lines).map Prod.fst)
  nrLines : st.nrLines = lines.length
  nrLogLines : st.nrLogLines = lines.countP fun line => ((logLineExpr tb).match? line).isSome
  item : ∀ k, st.workitems.get? k = itemOf k (entriesOf tb lines)

theorem timesValid_concat {lines : List Text} {line : Text} : TimesValid tb (lines ++ [line]) ↔
    TimesValid tb lines ∧ ∀ e err, stampedEntry tb line ≠ some (e, .error err) := by
  simp only [TimesValid, List.mem_append, List.mem_singleton, or_imp, forall_and, forall_eq]

theorem entriesOf_concat (lines : List Text) (line : Text) : entriesOf tb (lines ++ [line]) =
    entriesOf tb lines ++
      ((stampedEntry tb line).bind fun e => e.2.toOption.map (e.1, ·)).toList := by
  rw [entriesOf, List.filterMap_append]
  cases h : (stampedEntry tb line).bind fun e => e.2.toOption.map (e.1, ·) with
  | none => simp [h, entriesOf]
  | some e => simp [h, entriesOf]

/-- The loop can go on when the entry can be entered. -/
theorem reads_concat {lines : List Text} {st : ParseState} (h : Reads tb lines st) (line : Text) :
    (∀ st', parseLine tb st line = .ok st' → Reads tb (lines ++ [line]) st') ∧
      (TimesValid tb (lines ++ [line]) →
        StartedFirst ((entriesOf tb (lines ++ [line])).map Prod.fst) →
          ∃ st', parseLine tb st line = .ok st') := by
  have hstart : ∀ k, (st.item k).startTime = none ↔
      ¬HasStarted k ((entriesOf tb lines).map Prod.fst) := by
    intro k
    have hk := known_itemOf k h.first
    rw [ParseState.item, h.item]
    generalize itemOf k (entriesOf tb lines) = w at hk
    cases hk with
    | unknown hs _ => simp [WorkItem.new, hs]
    | known hs hw => simp [hs, Option.isSome_iff_ne_none.1 hw.startTime]
  rw [parseLine_eq]
  cases hline : stampedEntry tb line with
  | none =>
      have hentries : entriesOf tb (lines ++ [line]) = entriesOf tb lines := by
        simp [entriesOf_concat, hline]
      refine ⟨fun st' hst' => ?_, fun _ _ => ⟨_, rfl⟩⟩
      obtain rfl := Except.ok.inj hst'
      refine ⟨timesValid_concat.2 ⟨h.times, by simp [hline]⟩, ?_, ?_, ?_, ?_⟩
      · rw [hentries]
        exact h.first
      · simp [ParseState.count, h.nrLines]
      · simp [ParseState.count, h.nrLogLines]
      · rw [hentries]
        exact h.item
  | some e =>
      obtain ⟨e, err | d⟩ := e
      · refine ⟨fun st' hst' => (by cases hst'), fun ht _ => ?_⟩
        exact absurd hline ((timesValid_concat.1 ht).2 e err)
      · have hentries : entriesOf tb (lines ++ [line]) = entriesOf tb lines ++ [(e, d)] := by
          simp [entriesOf_concat, hline, Except.toOption]
        rw [ParseState.read, ParseState.enter]
        have hiff : (e.done?.isSome ∧ ((st.count tb line).item e.itemId).startTime = none) ↔
            ∃ k x, e = .done k x ∧ ¬HasStarted k ((entriesOf tb lines).map Prod.fst) := by
          have hcount : (st.count tb line).item e.itemId = st.item e.itemId := rfl
          rw [hcount, hstart]
          cases e with
          | started j u => simp [LogEntry.done?]
          | done j x => simp [LogEntry.done?, LogEntry.itemId]
        by_cases hbad : ∃ k x, e = .done k x ∧ ¬HasStarted k ((entriesOf tb lines).map Prod.fst)
        · rw [if_pos (hiff.2 hbad)]
          refine ⟨fun st' hst' => (by cases hst'), fun _ hf => ?_⟩
          obtain ⟨k, x, he, hn⟩ := hbad
          rw [hentries, List.map_append, List.map_singleton] at hf
          exact absurd ((startedFirst_concat.1 hf).2 k x he) hn
        · rw [if_neg (mt hiff.1 hbad)]
          refine ⟨fun st' hst' => ?_, fun _ _ => ⟨_, rfl⟩⟩
          obtain rfl := Except.ok.inj hst'
          refine ⟨timesValid_concat.2 ⟨h.times, by simp [hline]⟩, ?_, ?_, ?_, fun k => ?_⟩
          · rw [hentries, List.map_append, List.map_singleton]
            refine startedFirst_concat.2 ⟨h.first, fun k x he => ?_⟩
            by_contra hn
            exact hbad ⟨k, x, he, hn⟩
          · simp [ParseState.count, h.nrLines]
          · simp [ParseState.count, h.nrLogLines]
          · rw [hentries]
            show (st.workitems.set _ _).get? k = _
            rw [Dict.get?_set]
            split_ifs with hk
            · subst hk
              rw [itemOf_concat_self, ← h.item]
              rfl
            · rw [itemOf_concat_of_ne _ _ (Ne.symm hk), h.item]

theorem reads_nil : Reads tb [] ⟨Dict.empty, 0, 0⟩ where
  times _ h := absurd h List.not_mem_nil
  first := startedFirst_nil
  nrLines := rfl
  nrLogLines := rfl
  item _ := rfl

theorem timesValid_of_concat {lines : List Text} {line : Text}
    (h : TimesValid tb (lines ++ [line])) : TimesValid tb lines := (timesValid_concat.1 h).1

theorem startedFirst_of_concat {lines : List Text} {line : Text}
    (h : StartedFirst ((entriesOf tb (lines ++ [line])).map Prod.fst)) :
    StartedFirst ((entriesOf tb lines).map Prod.fst) := by
  rw [entriesOf_concat, List.map_append] at h
  intro l₁ k x l₂ he
  rw [he, List.append_assoc, List.cons_append] at h
  exact h l₁ k x _ rfl

theorem foldlM_parseLine_concat (lines : List Text) (line : Text) (st₀ : ParseState) :
    (lines ++ [line]).foldlM (parseLine tb) st₀ =
      (lines.foldlM (parseLine tb) st₀ >>= fun st => parseLine tb st line) := by
  rw [List.foldlM_append]
  exact congrArg (Except.bind _) (funext fun st => bind_pure (parseLine tb st line))

/-- **The variables of the loop** at its end. -/
theorem reads_of_foldlM {lines : List Text} {st : ParseState}
    (h : lines.foldlM (parseLine tb) ⟨Dict.empty, 0, 0⟩ = .ok st) : Reads tb lines st := by
  induction lines using List.reverseRecOn generalizing st with
  | nil =>
      obtain rfl := Except.ok.inj h
      exact reads_nil
  | append_singleton lines line ih =>
      rw [foldlM_parseLine_concat] at h
      obtain ⟨st', hst', h⟩ := bind_eq_ok h
      exact (reads_concat (ih hst') line).1 st h

/-- **The loop ends** if the time stamps are valid and no item is done before it was
started. -/
theorem exists_foldlM {lines : List Text} (ht : TimesValid tb lines)
    (hf : StartedFirst ((entriesOf tb lines).map Prod.fst)) :
    ∃ st, lines.foldlM (parseLine tb) ⟨Dict.empty, 0, 0⟩ = .ok st := by
  induction lines using List.reverseRecOn with
  | nil => exact ⟨_, rfl⟩
  | append_singleton lines line ih =>
      obtain ⟨st, hst⟩ := ih (timesValid_of_concat ht) (startedFirst_of_concat hf)
      obtain ⟨st', hst'⟩ := (reads_concat (reads_of_foldlM hst) line).2 ht hf
      refine ⟨st', ?_⟩
      rw [foldlM_parseLine_concat, hst]
      exact (pure_bind st fun st => parseLine tb st line).trans hst'

/-! ### The report -/

/-- **The logs the parser accepts.** -/
structure Acceptable (tb : CharTable) (lines : List Text) : Prop where
  ne_nil : lines ≠ []
  logLines : ∀ line ∈ lines, ((logLineExpr tb).match? line).isSome = true
  times : TimesValid tb lines
  first : StartedFirst ((entriesOf tb lines).map Prod.fst)

/-- The lines of a log file as the parser reads them. -/
def logLinesOf (file : Text) : List Text := keepLines '\n' (universalNewlines file)

/-- What the parser returns, from the variables of its loop. -/
theorem report_iff {lines : List Text} {st : ParseState} (h : Reads tb lines st)
    {r : Option WorkitemReport} : st.report = .ok r ↔
      (lines ≠ [] ∧ ∀ line ∈ lines, ((logLineExpr tb).match? line).isSome = true) ∧
        r = if st.workitems.entries = [] then none
          else some ⟨st.workitems.entries.map Prod.snd⟩ := by
  have hnil : st.nrLines = 0 ↔ lines = [] := by rw [h.nrLines, List.length_eq_zero_iff]
  have hlog : ¬st.nrLogLines < st.nrLines ↔
      ∀ line ∈ lines, ((logLineExpr tb).match? line).isSome = true := by
    rw [h.nrLogLines, h.nrLines, not_lt, ← List.countP_eq_length]
    exact ⟨fun hle => le_antisymm List.countP_le_length hle, fun he => he.ge⟩
  rw [ParseState.report]
  by_cases h₁ : st.nrLines = 0
  · rw [if_pos h₁]
    simp [hnil.1 h₁]
  · rw [if_neg h₁]
    by_cases h₂ : st.nrLogLines < st.nrLines
    · rw [if_pos h₂]
      simp [← hlog, h₂]
    · rw [if_neg h₂, and_iff_right ⟨mt hnil.2 h₁, hlog.1 h₂⟩]
      split_ifs <;> rw [Except.ok.injEq, eq_comm]

/-- **Which logs the parser accepts**: exactly the acceptable ones. -/
theorem parseLogFile_ok_iff (tb : CharTable) (file : Text) :
    (∃ r, parseLogFile tb file = .ok r) ↔ Acceptable tb (logLinesOf file) := by
  rw [parseLogFile, parseLog]
  constructor
  · rintro ⟨r, h⟩
    obtain ⟨st, hst, h⟩ := bind_eq_ok h
    have hr := reads_of_foldlM hst
    obtain ⟨⟨h₁, h₂⟩, -⟩ := (report_iff hr).1 h
    exact ⟨h₁, h₂, hr.times, hr.first⟩
  · intro h
    obtain ⟨st, hst⟩ := exists_foldlM h.times h.first
    exact ⟨_, (congrArg (Except.bind · _) hst).trans
      ((report_iff (reads_of_foldlM hst)).2 ⟨⟨h.ne_nil, h.logLines⟩, rfl⟩)⟩

/-- **What the report says** of the items that the entries of a log are about. -/
structure Reports (es : List LogEntry) (report : WorkitemReport) : Prop where
  incompletes : ∀ k, k ∈ report.incompletes ↔ HasStarted k es ∧ lastStatus k es = none
  successes : ∀ k, k ∈ report.successes ↔ lastStatus k es = some 0
  failures : ∀ k, k ∈ report.failures ↔ ∃ x, x ≠ 0 ∧ lastStatus k es = some x
  /-- No item is in two of the lists, or twice in one. -/
  nodup : (report.incompletes ++ report.successes ++ report.failures).Nodup
  /-- Every item started is in one of them. -/
  cover : ∀ k, k ∈ report.incompletes ++ report.successes ++ report.failures ↔ HasStarted k es

section Index

variable {d : Dict ℕ WorkItem} {p q : WorkItem → Bool}

theorem mem_index_dict (h : ∀ j w, d.get? j = some w → w.itemId = some j) :
    k ∈ WorkitemReport.index ((d.entries.map Prod.snd).filter p) ↔
      ∃ w, d.get? k = some w ∧ p w = true := by
  rw [WorkitemReport.index, List.mem_mergeSort, List.mem_filterMap]
  constructor
  · rintro ⟨w, hw, hk⟩
    obtain ⟨hw, hp⟩ := List.mem_filter.1 hw
    obtain ⟨⟨j, w⟩, hm, rfl⟩ := List.mem_map.1 hw
    rw [Dict.mem_entries] at hm
    obtain rfl : j = k := Option.some.inj ((h j w hm).symm.trans hk)
    exact ⟨w, hm, hp⟩
  · rintro ⟨w, hw, hp⟩
    refine ⟨w, List.mem_filter.2 ⟨List.mem_map.2 ⟨(k, w), Dict.mem_entries.2 hw, rfl⟩, hp⟩, h k w hw⟩

theorem nodup_index_dict (h : ∀ j w, d.get? j = some w → w.itemId = some j) (p : WorkItem → Bool) :
    (WorkitemReport.index ((d.entries.map Prod.snd).filter p)).Nodup := by
  rw [WorkitemReport.index, (List.mergeSort_perm _ _).nodup_iff, List.filter_map,
    List.filterMap_map]
  have hkeys : (d.entries.filter (p ∘ Prod.snd)).filterMap (WorkItem.itemId ∘ Prod.snd) =
      (d.entries.filter (p ∘ Prod.snd)).map Prod.fst := by
    rw [← List.filterMap_eq_map]
    refine List.filterMap_congr ?_
    rintro ⟨j, w⟩ hm
    exact h j w (Dict.mem_entries.1 (List.mem_filter.1 hm).1)
  rw [hkeys]
  exact d.nodup.sublist (List.filter_sublist.map Prod.fst)

/-- No item is selected twice by conditions that exclude each other. -/
theorem disjoint_index_dict (h : ∀ j w, d.get? j = some w → w.itemId = some j)
    (hpq : ∀ w, p w = true → q w = true → False) :
    (WorkitemReport.index ((d.entries.map Prod.snd).filter p)).Disjoint
      (WorkitemReport.index ((d.entries.map Prod.snd).filter q)) := by
  intro k hp hq
  obtain ⟨w, hw, hp⟩ := (mem_index_dict h).1 hp
  obtain ⟨w', hw', hq⟩ := (mem_index_dict h).1 hq
  obtain rfl : w = w' := Option.some.inj (hw.symm.trans hw')
  exact hpq w hp hq

end Index

/-- The report on items that are known from their entries. -/
theorem reports_of_known {d : Dict ℕ WorkItem} {es : List LogEntry}
    (h : ∀ k, Known k es (d.get? k)) : Reports es ⟨d.entries.map Prod.snd⟩ := by
  have hid : ∀ j w, d.get? j = some w → w.itemId = some j := by
    intro j w hw
    have hj := h j
    rw [hw] at hj
    cases hj with
    | known _ hw => exact hw.itemId
  have hinc : ∀ k, k ∈ WorkitemReport.incompletes ⟨d.entries.map Prod.snd⟩ ↔
      HasStarted k es ∧ lastStatus k es = none := by
    intro k
    rw [WorkitemReport.incompletes, mem_index_dict hid]
    have hk := h k
    generalize d.get? k = w at hk
    cases hk with
    | unknown hs hd => simp [hs]
    | known hs hw => simp [hs, ← hw.status, Option.isNone_iff_eq_none]
  have hsucc : ∀ k, k ∈ WorkitemReport.successes ⟨d.entries.map Prod.snd⟩ ↔
      lastStatus k es = some 0 := by
    intro k
    rw [WorkitemReport.successes, mem_index_dict hid]
    have hk := h k
    generalize d.get? k = w at hk
    cases hk with
    | unknown hs hd => simp [hd]
    | known hs hw => simp [← hw.status]
  have hfail : ∀ k, k ∈ WorkitemReport.failures ⟨d.entries.map Prod.snd⟩ ↔
      ∃ x, x ≠ 0 ∧ lastStatus k es = some x := by
    intro k
    rw [WorkitemReport.failures, List.filter_filter, mem_index_dict hid]
    have hk := h k
    generalize d.get? k = w at hk
    cases hk with
    | unknown hs hd => simp [hd]
    | @known w hs hw =>
        simp only [Option.some.injEq, exists_eq_left', ← hw.status, WorkitemReport.complete,
          hw.clientId, hw.startTime, hw.duration, Bool.and_eq_true, decide_eq_true_eq]
        cases w.status <;> simp
  refine ⟨hinc, hsucc, hfail, ?_, fun k => ?_⟩
  · have hfilter : WorkitemReport.failures ⟨d.entries.map Prod.snd⟩ =
        WorkitemReport.index ((d.entries.map Prod.snd).filter fun w =>
          decide (w.status ≠ some 0) && WorkitemReport.complete w) := by
      rw [WorkitemReport.failures, List.filter_filter]
    rw [List.nodup_append', List.nodup_append', List.disjoint_append_left, hfilter]
    refine ⟨⟨nodup_index_dict hid _, nodup_index_dict hid _, ?_⟩, nodup_index_dict hid _, ?_, ?_⟩
    · refine disjoint_index_dict hid fun w hp hq => ?_
      rw [of_decide_eq_true hq] at hp
      cases hp
    · refine disjoint_index_dict hid fun w hp hq => ?_
      rw [Option.isNone_iff_eq_none] at hp
      simp [WorkitemReport.complete, hp] at hq
    · refine disjoint_index_dict hid fun w hp hq => ?_
      simp [of_decide_eq_true hp] at hq
  · rw [List.mem_append, List.mem_append, hinc, hsucc, hfail]
    have hk := h k
    generalize d.get? k = w at hk
    cases hk with
    | unknown hs hd => simp [hs, hd]
    | known hs hw =>
        cases hst : lastStatus k es with
        | none => simp [hs]
        | some x => simpa [hs] using em (x = 0)

theorem known_of_parseLogFile {file : Text} {r : Option WorkitemReport}
    (h : parseLogFile tb file = .ok r) : ∃ d : Dict ℕ WorkItem,
      (∀ k, Known k ((entriesOf tb (logLinesOf file)).map Prod.fst) (d.get? k)) ∧
        r = if d.entries = [] then none else some ⟨d.entries.map Prod.snd⟩ := by
  rw [parseLogFile, parseLog] at h
  obtain ⟨st, hst, h⟩ := bind_eq_ok h
  have hr := reads_of_foldlM hst
  exact ⟨st.workitems, fun k => hr.item k ▸ known_itemOf k hr.first, ((report_iff hr).1 h).2⟩

/-- A log for which nothing is returned has no entries. -/
theorem entriesOf_eq_nil {file : Text} (h : parseLogFile tb file = .ok none) :
    entriesOf tb (logLinesOf file) = [] := by
  obtain ⟨d, hknown, h⟩ := known_of_parseLogFile h
  split_ifs at h with hnil
  have hunknown : ∀ k, ¬HasStarted k ((entriesOf tb (logLinesOf file)).map Prod.fst) ∧
      lastStatus k ((entriesOf tb (logLinesOf file)).map Prod.fst) = none := by
    intro k
    have hk := hknown k
    rw [Dict.get?, hnil, List.lookup_nil] at hk
    cases hk with
    | unknown hs hd => exact ⟨hs, hd⟩
  by_contra hne
  obtain ⟨⟨e, d⟩, he⟩ := List.exists_mem_of_ne_nil _ hne
  have hm : e ∈ (entriesOf tb (logLinesOf file)).map Prod.fst := List.mem_map.2 ⟨_, he, rfl⟩
  cases e with
  | started k u => exact (hunknown k).1 ⟨u, hm⟩
  | done k x =>
      obtain ⟨y, hy⟩ := exists_lastStatus hm
      exact absurd (hy.symm.trans (hunknown k).2) (Option.some_ne_none y)

/-- **The report returned** says what the entries say. -/
theorem reports_of_parseLogFile {file : Text} {report : WorkitemReport}
    (h : parseLogFile tb file = .ok (some report)) :
    Reports ((entriesOf tb (logLinesOf file)).map Prod.fst) report := by
  obtain ⟨d, hknown, h⟩ := known_of_parseLogFile h
  split_ifs at h
  obtain rfl := Option.some.inj h
  exact reports_of_known hknown

end Resume
end WorkerNg
