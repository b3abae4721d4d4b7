/-
# What the log parser finds in a line

The expressions of the log parser on the lines that the server logs.  Every line
is a log line.  A `started` line is matched by `_started_expr`, a `done` line by
`_done_expr` alone, and both give back the numbers, the client and the time that
the server wrote; any other line is matched by neither.  What the body of the
loop makes of the three kinds of lines is said by `parseLine_started`,
`parseLine_done` and `parseLine_plain`.
-/

import WorkerNg.Resume.TimeStamps

namespace WorkerNg
namespace Resume

open Lines Work Wire Protocol Regex

variable {tb : CharTable} {Uuid : Type} {io : UuidText Uuid}

/-! ### The messages -/

/-- `workitem k started: u`. -/
def startedMessage (io : UuidText Uuid) (k : ℕ) (u : Uuid) : LogMessage :=
  ⟨.info, "workitem ".toList ++ natText k ++ " started: ".toList ++ io.put u⟩

/-- `workitem k done: x`. -/
def doneMessage (k : ℕ) (x : Int32) : LogMessage :=
  ⟨.info, "workitem ".toList ++ natText k ++ " done: ".toList ++ intText x⟩

/-- A message of one line that does not begin with a blank. -/
structure Loggable (m : LogMessage) : Prop where
  oneLine : OneLine m.message
  head : ∀ v, ∀ c ∈ (m.message ++ v).head?, isSpace c = false

/-- A message that is about no work item. -/
structure Plain (m : LogMessage) : Prop extends Loggable m where
  not_workitem : ∀ v, ¬"workitem".toList <+: m.message ++ v

theorem Loggable.ne_nil {m : LogMessage} (h : Loggable m) : m.message ≠ [] := by
  intro hm
  have hblank := h.head [' '] ' ' (by rw [hm]; rfl)
  exact absurd hblank (by decide)

/-! ### The front of a line -/

theorem word_of_isAlphanum {c : Char} (h : c.isAlphanum) : tb.word c = true := by
  rw [tb.word_ascii c (toNat_of_isAlphanum h).2, h, Bool.true_or]

theorem leads_dateExpr (d : DateTime) {v : Text} {q : Char → Prop} :
    Leads (dateExpr tb) d.dateText v [] q :=
  (leads_pad 4 d.year).cons (leads_lit.cons ((leads_pad 2 d.month).cons (leads_lit.cons
    (leads_pad 2 d.day).last)))

theorem leads_timeExpr (d : DateTime) {v : Text} (hv : ∀ c ∈ v.head?, digit tb c = false) :
    Leads (timeExpr tb) d.timeText v [] fun c => c.isDigit := by
  have hmicro : Leads (rep (digit tb) 1 none) (pad 6 d.microsecond) v [] fun c => c.isDigit :=
    leads_digits (fun _ => isDigit_of_mem_pad) (by simp [pad]) hv
  exact (leads_pad 2 d.hour).cons (leads_lit.cons ((leads_pad 2 d.minute).cons (leads_lit.cons
    ((leads_pad 2 d.second).cons (leads_lit.cons hmicro.last)))))

theorem leads_datetimeExpr (d : DateTime) {v : Text} (hv : ∀ c ∈ v.head?, digit tb c = false) :
    Leads (datetimeExpr tb) d.toText v [("datetime", d.toText)] fun c => c.isDigit := by
  have hblank : Leads (rep isSpace 1 none) " ".toList (d.timeText ++ v) [] fun _ => False :=
    leads_blank isSpace_of_head_timeText
  exact ((leads_dateExpr d).cons (hblank.cons (leads_timeExpr d hv).last)).group

theorem leads_logLevel (s : Severity) {v : Text} {q : Char → Prop} :
    Leads (logLevel tb) ("[".toList ++ (severityText s ++ "]".toList)) v
      [("log_level", severityText s)] q := by
  have hword : ∀ c ∈ severityText s, c.isAlphanum := by
    cases s <;> exact List.all_eq_true.1 (by decide)
  have hclose : tb.word ']' = false := by
    rw [tb.word_ascii _ (by decide)]
    decide
  have hlevel : Leads (rep tb.word 1 none) (severityText s) ("]".toList ++ v) []
      fun c => c.isAlphanum := by
    refine leads_rep ?_ (reps_none (fun c hc => word_of_isAlphanum (hword c hc)) ?_)
      fun c hc => hword c (List.mem_of_mem_drop hc)
    · cases s <;> decide
    · rintro c ⟨⟩
      exact hclose
  exact leads_lit.cons (hlevel.group.seq (Rejects.seq (rejects_lit (by decide))) leads_lit.last)

/-- **The prefix of a line** has one match. -/
theorem leads_prefixExpr (r : LogRecord) {v : Text} {q : Char → Prop} :
    Leads (prefixExpr tb) r.stamp v
      [("datetime", r.timeStamp.toText), ("log_level", severityText r.severity)] q := by
  have hcolon : Leads (lit ":".toList) ":".toList v [] q := leads_lit
  have hnone : Leads (rep isSpace 0 none) [] (":".toList ++ v) [] fun _ => False :=
    leads_no_blank (by simpa using by decide)
  have hlevel : Leads (logLevel tb) ("[".toList ++ (severityText r.severity ++ "]".toList))
      ([] ++ ":".toList ++ v) [("log_level", severityText r.severity)] fun _ => False :=
    leads_logLevel r.severity
  have hblank : Leads (rep isSpace 1 none) " ".toList
      ("[".toList ++ (severityText r.severity ++ "]".toList) ++ ([] ++ ":".toList) ++ v) []
      fun _ => False := leads_blank (by simpa using by decide)
  have hdigit : ∀ c ∈ (" ".toList ++ ("[".toList ++ (severityText r.severity ++ "]".toList) ++
      ([] ++ ":".toList)) ++ v).head?, digit tb c = false := by
    simpa using digit_of_not_isDigit (by decide) (by decide)
  refine (leads_datetimeExpr r.timeStamp hdigit).seq (Rejects.seq ?_) 
    (hblank.cons (hlevel.cons (hnone.cons hcolon.last)))
  exact rejects_rep le_rfl fun c hc => isSpace_of_isDigit hc

section Lines

variable {r : LogRecord} {e : Regex Char} {g : List (String × Text)}

/-- The three expressions ask for a prefix, blanks and something else. -/
theorem starts_line {v : Text} (hv : ∀ c ∈ (r.message ++ v).head?, isSpace c = false)
    (h : Starts e r.message v g) :
    Starts (cat [prefixExpr tb, rep isSpace 1 none, e]) r.line v
      (("datetime", r.timeStamp.toText) :: ("log_level", severityText r.severity) :: g) :=
  (leads_prefixExpr (q := fun _ => False) r).starts.cons
    ((leads_blank (q := fun _ => False) hv).starts.cons h.last)

theorem run_line_eq_nil {v : Text} (hv : ∀ c ∈ (r.message ++ v).head?, isSpace c = false)
    (h : e.run (r.message ++ v) = []) :
    (cat [prefixExpr tb, rep isSpace 1 none, e]).run (r.line ++ v) = [] := by
  have hrest : (cat [rep isSpace 1 none, e]).run (" ".toList ++ r.message ++ v) = [] := by
    rw [List.append_assoc]
    exact (leads_blank hv).cons_eq_nil (by rwa [run_cat_singleton])
  rw [LogRecord.line, List.append_assoc]
  exact (leads_prefixExpr r).cons_eq_nil hrest

/-- **Every line of the log is a log line.** -/
theorem count_line (h : Loggable r.toLogMessage) (st : ParseState) :
    st.count tb (r.line ++ ['\n']) =
      { st with nrLines := st.nrLines + 1, nrLogLines := st.nrLogLines + 1 } := by
  have hall : ∀ c ∈ r.message, (c != '\n') = true := by
    intro c hc
    rw [bne_iff_ne]
    rintro rfl
    exact h.oneLine.1 hc
  have hany : Leads (rep (· != '\n') 1 none) r.message ['\n'] [] fun _ => True :=
    leads_rep (List.length_pos_iff.2 h.ne_nil) (reps_none hall (by simp)) fun _ _ => trivial
  rw [ParseState.count, logLineExpr, (starts_line (h.head _) hany.starts).match?]
  rfl

end Lines

/-! ### What the lines hold -/

section Items

variable {k : ℕ} {u : Uuid} {x : Int32}

theorem toNat_of_mem_put {c : Char} (h : c ∈ io.put u) :
    c.toNat = 45 ∨ (48 ≤ c.toNat ∧ c.toNat < 128) := by
  rcases io.put_chars u c h with h | rfl
  · exact Or.inr (toNat_of_isAlphanum h)
  · exact Or.inl rfl

theorem isSpace_of_mem_put {c : Char} (h : c ∈ io.put u) : isSpace c = false := by
  have hc := toNat_of_mem_put h
  by_contra hs
  rw [Bool.not_eq_false, isSpace, List.contains_iff_mem] at hs
  simp only [List.mem_cons, List.not_mem_nil, or_false] at hs
  omega

@[simp] theorem oneLine_put (u : Uuid) : OneLine (io.put u) :=
  oneLine_of_forall fun c hc => by
    have := toNat_of_mem_put hc
    omega

theorem oneLine_intText (x : Int32) : OneLine (intText x) := by
  rw [intText]
  split_ifs <;> simp

theorem loggable_started : Loggable (startedMessage io k u) where
  oneLine := by simp [startedMessage]
  head v := by simpa [startedMessage] using by decide

theorem loggable_done : Loggable (doneMessage k x) where
  oneLine := by simp [doneMessage, oneLine_intText]
  head v := by simpa [doneMessage] using by decide

theorem startedMessage_text : (startedMessage io k u).message = "workitem".toList ++ (" ".toList ++
    natText k) ++ (" ".toList ++ ("started".toList ++ ([] ++ (":".toList ++ (" ".toList ++
      io.put u))))) := by
  simp [startedMessage]

theorem doneMessage_text : (doneMessage k x).message = "workitem".toList ++ (" ".toList ++
    natText k) ++ (" ".toList ++ ("done".toList ++ ([] ++ (":".toList ++ (" ".toList ++
      intText x))))) := by
  simp [doneMessage]

theorem isSpace_of_head_natText {n : ℕ} {v : Text} : ∀ c ∈ (natText n ++ v).head?,
    isSpace c = false := by
  intro c hc
  rw [List.head?_append_of_ne_nil _ (natText_ne_nil n)] at hc
  exact isSpace_of_isDigit (isDigit_of_mem_natText (List.mem_of_mem_head? hc))

/-- `workitem k`, before a blank. -/
theorem leads_msgExpr (k : ℕ) {v : Text} :
    Leads (msgExpr tb) ("workitem".toList ++ (" ".toList ++ natText k)) (" ".toList ++ v)
      [("workitem_id", natText k)] fun c => c.isDigit := by
  have hid : Leads (rep (digit tb) 1 none) (natText k) (" ".toList ++ v) [] fun c => c.isDigit :=
    leads_digits (fun _ => isDigit_of_mem_natText) (natText_ne_nil k)
      (by simpa using digit_of_not_isDigit (by decide) (by decide))
  exact leads_lit.cons ((leads_blank isSpace_of_head_natText).cons hid.group.last)

theorem rejects_blank {rs : List (Regex Char)} :
    Rejects (cat (rep isSpace 1 none :: rs)) fun c => c.isDigit :=
  Rejects.seq (rejects_rep le_rfl fun _ hc => isSpace_of_isDigit hc)

theorem starts_clientId (u : Uuid) :
    Starts (clientId tb) (io.put u) ['\n'] [("client_id", io.put u)] := by
  have hall : ∀ c ∈ io.put u, (tb.word c || c == '-') = true := by
    intro c hc
    rcases io.put_chars u c hc with h | rfl
    · rw [word_of_isAlphanum h, Bool.true_or]
    · rw [beq_self_eq_true, Bool.or_true]
  have hstop : (tb.word '\n' || '\n' == '-') = false := by
    rw [tb.word_ascii _ (by decide)]
    decide
  exact (leads_rep (q := fun _ => True) (List.length_pos_iff.2 (io.put_ne_nil u))
    (reps_none hall (by simpa using hstop)) fun _ _ => trivial).starts.group

theorem starts_exitStatus (x : Int32) :
    Starts (exitStatus tb) (intText x) ['\n'] [("exit_status", intText x)] := by
  have hdigits : ∀ n, Starts (rep (digit tb) 1 none) (natText n) ['\n'] [] := fun n =>
    (leads_digits (fun _ => isDigit_of_mem_natText) (natText_ne_nil n)
      (by simpa using digit_of_not_isDigit (by decide) (by decide))).starts
  refine Starts.group ?_
  rw [intText]
  split_ifs with hx
  · exact (leads_rep (u := ['-']) (q := fun _ => True) (Nat.zero_le _)
      (reps_some (u := ['-']) (by simp)) fun _ _ => trivial).starts.cons (hdigits _).last
  · have hhead : ∀ c ∈ (natText x.toInt.natAbs ++ ['\n']).head?, (c == '-') = false := by
      intro c hc
      rw [List.head?_append_of_ne_nil _ (natText_ne_nil _)] at hc
      have hd := isDigit_of_mem_natText (List.mem_of_mem_head? hc)
      rw [beq_eq_false_iff_ne]
      rintro rfl
      exact absurd hd (by decide)
    exact (leads_rep (u := []) (q := fun _ => True) le_rfl (reps_of_head hhead)
      fun _ _ => trivial).starts.cons (hdigits _).last

/-- `workitem k`, a word between blanks, a colon and something else. -/
theorem starts_item (k : ℕ) {w t v : Text} {g : List (String × Text)}
    (hw : ∀ v, ∀ c ∈ (w ++ v).head?, isSpace c = false)
    (ht : ∀ c ∈ (t ++ v).head?, isSpace c = false) {e : Regex Char} (h : Starts e t v g) :
    Starts (cat [msgExpr tb, rep isSpace 1 none, lit w, rep isSpace 0 none, lit ":".toList,
      rep isSpace 0 none, e]) ("workitem".toList ++ (" ".toList ++ natText k) ++
        (" ".toList ++ (w ++ ([] ++ (":".toList ++ (" ".toList ++ t)))))) v
      (("workitem_id", natText k) :: g) := by
  have hlit : ∀ (w v : Text), Starts (lit w) w v [] := fun w v =>
    (leads_lit (q := fun _ => False)).starts
  have hmsg : Starts (msgExpr tb) ("workitem".toList ++ (" ".toList ++ natText k))
      (" ".toList ++ (w ++ ([] ++ (":".toList ++ (" ".toList ++ t)))) ++ v)
      [("workitem_id", natText k)] := by
    rw [List.append_assoc " ".toList]
    exact (leads_msgExpr k).starts
  have hblank : Starts (rep isSpace 1 none) " ".toList
      (w ++ ([] ++ (":".toList ++ (" ".toList ++ t))) ++ v) [] := by
    rw [List.append_assoc]
    exact (leads_blank (q := fun _ => False) (hw _)).starts
  have hnone : Starts (rep isSpace 0 none) [] (":".toList ++ (" ".toList ++ t) ++ v) [] :=
    (leads_no_blank (q := fun _ => False) (by simpa using by decide)).starts
  have hlast : Starts (rep isSpace 0 none) " ".toList (t ++ v) [] :=
    (leads_rep (q := fun _ => True) (Nat.zero_le _) (reps_none (u := " ".toList) (List.all_eq_true.1 (by decide)) ht)
      fun _ _ => trivial).starts
  exact hmsg.cons (hblank.cons ((hlit w _).cons (hnone.cons ((hlit ":".toList _).cons
    (hlast.cons h.last)))))

theorem starts_startedMsg (k : ℕ) (u : Uuid) :
    Starts (startedMsg tb) (startedMessage io k u).message ['\n']
      [("workitem_id", natText k), ("client_id", io.put u)] := by
  have hw : ∀ v, ∀ c ∈ ("started".toList ++ v).head?, isSpace c = false := fun v => by
    simpa using by decide
  have hput : ∀ c ∈ (io.put u ++ ['\n']).head?, isSpace c = false := by
    intro c hc
    rw [List.head?_append_of_ne_nil _ (io.put_ne_nil u)] at hc
    exact isSpace_of_mem_put (List.mem_of_mem_head? hc)
  rw [startedMessage_text]
  exact starts_item k hw hput (starts_clientId u)

theorem starts_doneMsg (k : ℕ) (x : Int32) :
    Starts (doneMsg tb) (doneMessage k x).message ['\n']
      [("workitem_id", natText k), ("exit_status", intText x)] := by
  have hw : ∀ v, ∀ c ∈ ("done".toList ++ v).head?, isSpace c = false := fun v => by
    simpa using by decide
  have hx : ∀ c ∈ (intText x ++ ['\n']).head?, isSpace c = false := by
    rw [intText]
    split_ifs
    · simpa using by decide
    · exact isSpace_of_head_natText
  rw [doneMessage_text]
  exact starts_item k hw hx (starts_exitStatus x)

/-- A `done` message is no `started` message. -/
theorem run_startedMsg_done (k : ℕ) (x : Int32) (v : Text) :
    (startedMsg tb).run ((doneMessage k x).message ++ v) = [] := by
  have hblank : Leads (rep isSpace 1 none) " ".toList ("done".toList ++ ([] ++ (":".toList ++
      (" ".toList ++ intText x))) ++ v) [] fun _ => False := leads_blank (by simpa using by decide)
  rw [doneMessage_text, List.append_assoc, List.append_assoc]
  refine (leads_msgExpr k).seq_eq_nil rejects_blank (hblank.cons_eq_nil (seq_eq_nil ?_))
  exact run_lit_eq_nil (by simp)

/-! ### The body of the loop -/

variable {r : LogRecord}

/-- **A `started` line** sets the item's client and time. -/
theorem parseLine_started (hr : r.toLogMessage = startedMessage io k u) (st : ParseState) :
    parseLine tb st (r.line ++ ['\n']) = .ok
      { workitems := st.workitems.set k
          { st.item k with
            itemId := k, clientId := io.put u, startTime := r.timeStamp }
        nrLines := st.nrLines + 1
        nrLogLines := st.nrLogLines + 1 } := by
  have hlog : Loggable r.toLogMessage := hr ▸ loggable_started
  have hmsg : Starts (startedMsg tb) r.message ['\n']
      [("workitem_id", natText k), ("client_id", io.put u)] := hr ▸ starts_startedMsg k u
  rw [parseLine, count_line hlog, startedExpr, (starts_line (hlog.head _) hmsg).match?]
  simp [ParseState.started, groupValue, Match.group, List.lookup_cons, parseTime_toText,
    ParseState.item]

/-- **A `done` line** sets the item's status and duration; the item needs a time
at which it was started. -/
theorem parseLine_done (hr : r.toLogMessage = doneMessage k x) {st : ParseState} {d : DateTime}
    (hd : (st.item k).startTime = some d) :
    parseLine tb st (r.line ++ ['\n']) = .ok
      { workitems := st.workitems.set k
          { st.item k with status := x.toInt, duration := r.timeStamp.sub d }
        nrLines := st.nrLines + 1
        nrLogLines := st.nrLogLines + 1 } := by
  have hlog : Loggable r.toLogMessage := hr ▸ loggable_done
  have hstarted : (startedMsg tb).run (r.message ++ ['\n']) = [] := hr ▸ run_startedMsg_done k x _
  have hmsg : Starts (doneMsg tb) r.message ['\n']
      [("workitem_id", natText k), ("exit_status", intText x)] := hr ▸ starts_doneMsg k x
  rw [ParseState.item] at hd
  rw [parseLine, count_line hlog, startedExpr,
    match?_eq_none (run_line_eq_nil (hlog.head _) hstarted), doneExpr,
    (starts_line (hlog.head _) hmsg).match?]
  simp [ParseState.done, groupValue, Match.group, List.lookup_cons, parseTime_toText, ParseState.item,
    hd]

/-- **Any other line** is counted. -/
theorem parseLine_plain (h : Plain r.toLogMessage) (st : ParseState) :
    parseLine tb st (r.line ++ ['\n']) =
      .ok { st with nrLines := st.nrLines + 1, nrLogLines := st.nrLogLines + 1 } := by
  have hmsg : (msgExpr tb).run (r.message ++ ['\n']) = [] :=
    seq_eq_nil (run_lit_eq_nil (h.not_workitem _))
  have hstarted : (startedMsg tb).run (r.message ++ ['\n']) = [] := seq_eq_nil hmsg
  have hdone : (doneMsg tb).run (r.message ++ ['\n']) = [] := seq_eq_nil hmsg
  rw [parseLine, count_line h.toLoggable, startedExpr,
    match?_eq_none (run_line_eq_nil (h.head _) hstarted), doneExpr,
    match?_eq_none (run_line_eq_nil (h.head _) hdone)]

end Items

end Resume
end WorkerNg
