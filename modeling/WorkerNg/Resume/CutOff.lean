/-
# Logs that were cut off

A job that is killed can leave a log whose last line is torn.  What the log parser
makes of the first `n` characters of a log that the server wrote, for every `n`:
it refuses them if nothing is left, or if the cut is in front of a message, and
else its report understates the run and never misstates it (`report_of_cut`).  A
torn line is read as the line itself, but for the end of the client's name or of
the exit status, or as no entry (`stampedEntry_cut`); a torn exit status is zero
just if the whole one is, since numbers have no leading zeros.

The argument is that of `mem_run_append`: what an expression finds in a torn line
it finds in the whole one, and there the matches are known.
-/

import WorkerNg.Resume.Accepted

namespace WorkerNg
namespace Resume

open Lines Work Wire Protocol Regex

variable {tb : CharTable} {C Uuid : Type} {job : Job C Uuid} {io : UuidText Uuid} {k : ℕ}
  {u : Uuid} {x : Int32} {r : LogRecord} {v : Text}

/-! ### Torn numbers -/

theorem ofDigitChars_lt {s : Text} (h : ∀ c ∈ s, c.isDigit) :
    Nat.ofDigitChars 10 s 0 < 10 ^ s.length := by
  induction s using List.reverseRecOn with
  | nil => simp
  | append_singleton s c ih =>
      rw [List.forall_mem_append] at h
      have hs := ih h.1
      have hc := toNat_of_isDigit (h.2 c (List.mem_singleton_self c))
      rw [Nat.ofDigitChars_append, Nat.ofDigitChars_cons, Nat.ofDigitChars_nil, List.length_append,
        List.length_singleton, Nat.pow_succ, show '0'.toNat = 48 from rfl]
      omega

/-- **The front of a number** is zero just if the number is. -/
theorem natOf_eq_zero_iff {n : ℕ} {s t : Text} (h : natText n = s ++ t) (hs : s ≠ []) :
    natOf tb s = 0 ↔ n = 0 := by
  have hdigit : ∀ c ∈ s ++ t, c.isDigit := h ▸ fun _ => isDigit_of_mem_natText
  rw [List.forall_mem_append] at hdigit
  rw [natOf_eq hdigit.1]
  have hlen : 0 < s.length := List.length_pos_iff.2 hs
  constructor
  · intro h0
    have hn : n = Nat.ofDigitChars 10 t 0 := by
      rw [← Nat.ofDigitChars_ten_toDigits (n := n), show Nat.toDigits 10 n = s ++ t from h,
        Nat.ofDigitChars_append, h0]
    have hlt : n < 10 ^ t.length := hn ▸ ofDigitChars_lt hdigit.2
    by_contra hne
    have hpos : 0 < t.length := by
      by_contra ht
      obtain rfl : t = [] := List.length_eq_zero_iff.1 (by omega)
      simp at hlt
      exact hne hlt
    have hle := (Nat.length_toDigits_le_iff (by decide) hpos).2 hlt
    rw [show Nat.toDigits 10 n = s ++ t from h, List.length_append] at hle
    omega
  · rintro rfl
    obtain ⟨rfl, rfl⟩ : s = ['0'] ∧ t = [] := by
      cases s with
      | nil => exact absurd rfl hs
      | cons c s =>
          have h' := List.cons.inj (show '0' :: [] = c :: (s ++ t) from h)
          obtain ⟨rfl, ht⟩ := List.append_eq_nil_iff.1 h'.2.symm
          exact ⟨by rw [h'.1], ht⟩
    rfl

/-- A match of digits is the front of the number, and not empty. -/
theorem of_mem_digits {n : ℕ} {m : Match Char} (hv : ∀ c ∈ v.head?, digit tb c = false)
    (h : m ∈ (rep (digit tb) 1 none).run (natText n ++ v)) :
    m.groups = [] ∧ m.matched ≠ [] ∧ ∃ t, natText n = m.matched ++ t := by
  obtain ⟨j, hlo, hj, rfl⟩ := of_mem_run_rep h
  rw [reps_none (fun c hc => digit_of_isDigit (isDigit_of_mem_natText hc)) hv] at hj
  refine ⟨rfl, ?_, (natText n).drop j, ?_⟩
  · show (natText n ++ v).take j ≠ []
    rw [List.take_append_of_le_length hj]
    exact mt List.length_eq_zero_iff.2 (by rw [List.length_take]; omega)
  · show natText n = (natText n ++ v).take j ++ _
    rw [List.take_append_of_le_length hj, List.take_append_drop]

/-! ### Every match in a line -/

/-- A match in a line is a match in its message, behind the time stamp. -/
theorem of_mem_line {e : Regex Char} {m : Match Char}
    (hv : ∀ c ∈ (r.message ++ v).head?, isSpace c = false)
    (h : m ∈ (cat [prefixExpr tb, rep isSpace 1 none, e]).run (r.line ++ v)) :
    ∃ m' ∈ e.run (r.message ++ v), m.matched = r.stamp ++ (" ".toList ++ m'.matched) ∧
      m.groups = ("datetime", r.timeStamp.toText) :: ("log_level", severityText r.severity) ::
        m'.groups := by
  rw [LogRecord.line, List.append_assoc] at h
  obtain ⟨m₁, h₁, rfl⟩ := (leads_prefixExpr r).of_mem_cons h
  rw [List.append_assoc] at h₁
  obtain ⟨m₂, h₂, rfl⟩ := (leads_blank hv).of_mem_cons h₁
  rw [run_cat_singleton] at h₂
  exact ⟨m₂, h₂, rfl, rfl⟩

/-- A match of an item's message names the item. -/
theorem of_mem_item {w t : Text} {e : Regex Char} {m : Match Char}
    (hw : ∀ v, ∀ c ∈ (w ++ v).head?, isSpace c = false)
    (h : m ∈ (cat [msgExpr tb, rep isSpace 1 none, lit w, rep isSpace 0 none, lit ":".toList,
      rep isSpace 0 none, e]).run ("workitem".toList ++ (" ".toList ++ natText k) ++
        (" ".toList ++ (w ++ ([] ++ (":".toList ++ (" ".toList ++ t))))) ++ v)) :
    ∃ m' ∈ (cat [rep isSpace 0 none, e]).run (" ".toList ++ t ++ v),
      m.groups = ("workitem_id", natText k) :: m'.groups := by
  have hassoc : m ∈ (cat [msgExpr tb, rep isSpace 1 none, lit w, rep isSpace 0 none,
      lit ":".toList, rep isSpace 0 none, e]).run (("workitem".toList ++ (" ".toList ++ natText k)) ++
        (" ".toList ++ (w ++ ([] ++ (":".toList ++ (" ".toList ++ t ++ v)))))) := by
    simpa only [List.append_assoc] using h
  obtain ⟨m₁, h₁, rfl⟩ := (leads_msgExpr k).of_mem_seq rejects_blank hassoc
  obtain ⟨m₂, h₂, rfl⟩ := (leads_blank (hw _)).of_mem_cons h₁
  obtain ⟨m₃, h₃, rfl⟩ := leads_lit.of_mem_cons h₂
  have hnone : ∀ c ∈ (":".toList ++ (" ".toList ++ t ++ v)).head?, isSpace c = false := by
    simpa using by decide
  obtain ⟨m₄, h₄, rfl⟩ := (leads_no_blank hnone).of_mem_cons h₃
  obtain ⟨m₅, h₅, rfl⟩ := leads_lit.of_mem_cons h₄
  exact ⟨m₅, h₅, rfl⟩

theorem head_word {w : Text} (hw : ∀ c ∈ w.head?, isSpace c = false) (hne : w ≠ []) (v : Text) :
    ∀ c ∈ (w ++ v).head?, isSpace c = false := by
  rwa [List.head?_append_of_ne_nil _ hne]

/-- **A `started` message** is matched with its item, and with some text for the client. -/
theorem of_mem_startedMsg {m : Match Char}
    (h : m ∈ (startedMsg tb).run ((startedMessage io k u).message ++ v)) :
    ∃ t, m.groups = [("workitem_id", natText k), ("client_id", t)] := by
  rw [startedMessage_text] at h
  obtain ⟨m₁, h₁, hm⟩ := of_mem_item (head_word (w := "started".toList) (by simp; decide) (by decide)) h
  obtain ⟨m₂, h₂, m₃, h₃, rfl⟩ := mem_run_cat_cons.1 h₁
  rw [run_cat_singleton] at h₃
  obtain ⟨m₄, h₄, rfl⟩ := mem_run_group.1 h₃
  refine ⟨m₄.matched, ?_⟩
  rw [hm, Match.append, (rep_spec h₂).1, (rep_spec h₄).1]
  rfl

/-- A `started` message is no `done` message. -/
theorem run_doneMsg_started (k : ℕ) (u : Uuid) (v : Text) :
    (doneMsg tb).run ((startedMessage io k u).message ++ v) = [] := by
  have hblank : Leads (rep isSpace 1 none) " ".toList ("started".toList ++ ([] ++ (":".toList ++
      (" ".toList ++ io.put u))) ++ v) [] fun _ => False := leads_blank (by simpa using by decide)
  rw [startedMessage_text, List.append_assoc, List.append_assoc]
  refine (leads_msgExpr k).seq_eq_nil rejects_blank (hblank.cons_eq_nil (seq_eq_nil ?_))
  exact run_lit_eq_nil (by simp)

/-- A match of an exit status tells whether it is zero. -/
theorem of_mem_exitStatus {m : Match Char} (hv : ∀ c ∈ v.head?, digit tb c = false)
    (h : m ∈ (exitStatus tb).run (intText x ++ v)) :
    ∃ t, m.groups = [("exit_status", t)] ∧ (intOf tb t = 0 ↔ x.toInt = 0) := by
  obtain ⟨m₁, h₁, rfl⟩ := mem_run_group.1 h
  refine ⟨m₁.matched, ?_⟩
  rw [intText] at h₁
  split_ifs at h₁ with hx
  · have hdash : Leads (rep (· == '-') 0 (some 1)) ['-'] (natText x.toInt.natAbs ++ v) []
        fun c => c = '-' :=
      leads_rep (Nat.zero_le _) (reps_some (u := ['-']) (by simp)) (by simp)
    have hreject : Rejects (cat [rep (digit tb) 1 none]) fun c => c = '-' :=
      Rejects.seq (rejects_rep le_rfl fun c hc => hc ▸ digit_of_not_isDigit (by decide) (by decide))
    obtain ⟨m₂, h₂, rfl⟩ := hdash.of_mem_seq hreject h₁
    rw [run_cat_singleton] at h₂
    obtain ⟨hg, hne, t, ht⟩ := of_mem_digits hv h₂
    refine ⟨by rw [Match.append, hg]; rfl, ?_⟩
    show intOf tb ('-' :: m₂.matched) = 0 ↔ _
    rw [intOf, neg_eq_zero, Int.natCast_eq_zero, natOf_eq_zero_iff ht hne, Int.natAbs_eq_zero]
  · have hhead : ∀ c ∈ (natText x.toInt.natAbs ++ v).head?, (c == '-') = false := by
      intro c hc
      rw [List.head?_append_of_ne_nil _ (natText_ne_nil _)] at hc
      have hd := isDigit_of_mem_natText (List.mem_of_mem_head? hc)
      rw [beq_eq_false_iff_ne]
      rintro rfl
      exact absurd hd (by decide)
    have hnone : Leads (rep (· == '-') 0 (some 1)) [] (natText x.toInt.natAbs ++ v) []
        fun _ => False := leads_rep le_rfl (reps_of_head hhead) (by simp)
    obtain ⟨m₂, h₂, rfl⟩ := hnone.of_mem_cons h₁
    rw [run_cat_singleton] at h₂
    obtain ⟨hg, hne, t, ht⟩ := of_mem_digits hv h₂
    refine ⟨by rw [Match.append, hg]; rfl, ?_⟩
    show intOf tb m₂.matched = 0 ↔ _
    have hint : intOf tb m₂.matched = natOf tb m₂.matched := by
      unfold intOf
      split
      · rename_i s hs
        rw [hs] at ht
        have hdash : '-' ∈ natText x.toInt.natAbs := ht ▸ List.mem_cons_self
        exact absurd (isDigit_of_mem_natText hdash) (by decide)
      · rfl
    rw [hint, Int.natCast_eq_zero, natOf_eq_zero_iff ht hne, Int.natAbs_eq_zero]

/-- **A `done` message** is matched with its item, and with a status that is zero just
if its own is. -/
theorem of_mem_doneMsg {m : Match Char} (hv : ∀ c ∈ v.head?, digit tb c = false)
    (h : m ∈ (doneMsg tb).run ((doneMessage k x).message ++ v)) :
    ∃ t, m.groups = [("workitem_id", natText k), ("exit_status", t)] ∧
      (intOf tb t = 0 ↔ x.toInt = 0) := by
  rw [doneMessage_text] at h
  obtain ⟨m₁, h₁, hm⟩ := of_mem_item (head_word (w := "done".toList) (by simp; decide) (by decide)) h
  have hhead : ∀ c ∈ (intText x ++ v).head?, isSpace c = false := by
    rw [intText]
    split_ifs
    · simpa using by decide
    · exact isSpace_of_head_natText
  have hblank : Leads (rep isSpace 0 none) " ".toList (intText x ++ v) [] fun c => c = ' ' :=
    leads_rep (Nat.zero_le _) (reps_none (u := " ".toList) (List.all_eq_true.1 (by decide)) hhead)
      (by simp)
  have hreject : Rejects (cat [exitStatus tb]) fun c => c = ' ' := by
    rintro c s rfl
    rw [run_cat_singleton]
    refine Rejects.group (q := fun c => c = ' ') ?_ ' ' s rfl
    rintro c s rfl
    have hnone : Leads (rep (· == '-') 0 (some 1)) [] (' ' :: s) [] fun _ => False :=
      leads_rep le_rfl (reps_of_head (by simp)) (by simp)
    exact hnone.cons_eq_nil (seq_eq_nil (run_rep_eq_nil le_rfl
      (by simpa using digit_of_not_isDigit (by decide) (by decide))))
  rw [List.append_assoc] at h₁
  obtain ⟨m₂, h₂, rfl⟩ := hblank.of_mem_seq hreject h₁
  rw [run_cat_singleton] at h₂
  obtain ⟨t, ht, hx⟩ := of_mem_exitStatus hv h₂
  exact ⟨t, by rw [hm, Match.append, ht]; rfl, hx⟩

/-! ### Torn lines -/

/-- What the entry of a line can be when the line is torn. -/
inductive Shortened : LogEntry → LogEntry → Prop where
  | started (k : ℕ) (u u' : Text) : Shortened (.started k u') (.started k u)
  | done (k : ℕ) {x y : ℤ} (h : y = 0 ↔ x = 0) : Shortened (.done k y) (.done k x)

/-- What the server logs: a message about no work item, or that one was started or is
done. -/
inductive Kind (io : UuidText Uuid) : LogMessage → Prop where
  | plain {m : LogMessage} (hm : Plain m) : Kind io m
  | started (k : ℕ) (u : Uuid) : Kind io (startedMessage io k u)
  | done (k : ℕ) (x : Int32) : Kind io (doneMessage k x)

theorem Kind.loggable {m : LogMessage} (h : Kind io m) : Loggable m := by
  cases h with
  | plain hm => exact hm.toLoggable
  | started k u => exact loggable_started
  | done k x => exact loggable_done

theorem Orderly.kind {l : List LogMessage} (h : Orderly io l) : ∀ m ∈ l, Kind io m := by
  have snoc : ∀ {l : List LogMessage} {m : LogMessage}, (∀ m ∈ l, Kind io m) → Kind io m →
      ∀ m' ∈ l ++ [m], Kind io m' := by
    intro l m hl hm m' hm'
    rcases List.mem_append.1 hm' with hm' | hm'
    · exact hl m' hm'
    · exact List.mem_singleton.1 hm' ▸ hm
  induction h with
  | nil => simp
  | plain _ hm ih => exact snoc ih (.plain hm)
  | started _ k u ih => exact snoc ih (.started k u)
  | done _ x _ _ ih => exact snoc ih (.done _ x)

/-- **A torn line** says less than the line, or nothing. -/
theorem stampedEntry_cut (hr : Kind io r.toLogMessage) {p : Text} (hp : p <+: r.line ++ ['\n'])
    {e : LogEntry} {t : Except PyError DateTime} (h : stampedEntry tb p = some (e, t)) :
    t = .ok r.timeStamp ∧ ∃ e', entryOf tb (r.line ++ ['\n']) = some e' ∧ Shortened e e' := by
  obtain ⟨w, hw⟩ := hp
  have hhead := hr.loggable.head ['\n']
  generalize hm : r.toLogMessage = msg at hr
  rw [stampedEntry] at h
  cases hs : (startedExpr tb).match? p with
  | some m =>
      rw [hs] at h
      obtain ⟨rfl, rfl⟩ := Prod.mk.inj (Option.some.inj h)
      have hmem := mem_run_append (List.mem_of_mem_head? hs) w
      rw [hw, startedExpr] at hmem
      obtain ⟨m', hm', -, hgroups⟩ := of_mem_line hhead hmem
      cases hr with
      | plain hplain =>
          have hnil : (startedMsg tb).run (r.message ++ ['\n']) = [] :=
            seq_eq_nil (seq_eq_nil (run_lit_eq_nil ((hm ▸ hplain).not_workitem _)))
          rw [hnil] at hm'
          exact absurd hm' List.not_mem_nil
      | started k u =>
          rw [show r.message = _ from congrArg LogMessage.message hm] at hm'
          obtain ⟨t, ht⟩ := of_mem_startedMsg hm'
          rw [ht] at hgroups
          dsimp only at hgroups
          refine ⟨by simp [Match.group, hgroups, parseTime_toText], .started k (io.put u), ?_, ?_⟩
          · rw [entryOf, stampedEntry_started hm]
            rfl
          · rw [show groupValue tb m "workitem_id" = k by
              simp [groupValue, Match.group, hgroups, List.lookup_cons]]
            exact .started _ _ _
      | done k x =>
          rw [show r.message = _ from congrArg LogMessage.message hm, run_startedMsg_done] at hm'
          exact absurd hm' List.not_mem_nil
  | none =>
      rw [hs] at h
      obtain ⟨m, hd, h⟩ := Option.map_eq_some_iff.1 h
      obtain ⟨rfl, rfl⟩ := Prod.mk.inj h
      have hmem := mem_run_append (List.mem_of_mem_head? hd) w
      rw [hw, doneExpr] at hmem
      obtain ⟨m', hm', -, hgroups⟩ := of_mem_line hhead hmem
      cases hr with
      | plain hplain =>
          have hnil : (doneMsg tb).run (r.message ++ ['\n']) = [] :=
            seq_eq_nil (seq_eq_nil (run_lit_eq_nil ((hm ▸ hplain).not_workitem _)))
          rw [hnil] at hm'
          exact absurd hm' List.not_mem_nil
      | started k u =>
          rw [show r.message = _ from congrArg LogMessage.message hm, run_doneMsg_started] at hm'
          exact absurd hm' List.not_mem_nil
      | done k x =>
          rw [show r.message = _ from congrArg LogMessage.message hm] at hm'
          obtain ⟨t, ht, hx⟩ := of_mem_doneMsg
            (by simpa using digit_of_not_isDigit (by decide) (by decide)) hm'
          rw [ht] at hgroups
          dsimp only at hgroups
          refine ⟨by simp [Match.group, hgroups, parseTime_toText], .done k x.toInt, ?_, ?_⟩
          · rw [entryOf, stampedEntry_done hm]
            rfl
          · rw [show groupValue tb m "workitem_id" = k by
              simp [groupValue, Match.group, hgroups, List.lookup_cons]]
            exact .done k (by simpa [Match.group, hgroups, List.lookup_cons] using hx)

theorem isSome_logLineExpr (hone : '\n' ∉ r.message) (hne : r.message ≠ [])
    (hhead : ∀ c ∈ r.message.head?, isSpace c = false) (hv : ∀ c ∈ v.head?, c = '\n') :
    ((logLineExpr tb).match? (r.line ++ v)).isSome = true := by
  have hall : ∀ c ∈ r.message, (c != '\n') = true := by
    intro c hc
    rw [bne_iff_ne]
    rintro rfl
    exact hone hc
  have hany : Starts (rep (· != '\n') 1 none) r.message v [] :=
    (leads_rep (q := fun _ => True) (List.length_pos_iff.2 hne)
      (reps_none hall fun c hc => by simp [hv c hc]) fun _ _ => trivial).starts
  rw [logLineExpr, (starts_line (by rwa [List.head?_append_of_ne_nil _ hne]) hany).match?]
  rfl

/-- **A torn line is a log line** if something of its message is left. -/
theorem isSome_logLineExpr_cut (h : Loggable r.toLogMessage) {p : Text} (hp : p <+: r.line) :
    ((logLineExpr tb).match? p).isSome = true ↔ r.stamp.length + 1 < p.length := by
  obtain ⟨w, hw⟩ := hp
  constructor
  · intro hsome
    obtain ⟨m, hm⟩ := Option.isSome_iff_exists.1 hsome
    have hlen := congrArg List.length (matched_append_rest (List.mem_of_mem_head? hm))
    have hmem := mem_run_append (List.mem_of_mem_head? hm) w
    rw [hw, logLineExpr, ← List.append_nil r.line] at hmem
    obtain ⟨m', hm', hmatched, -⟩ := of_mem_line (h.head []) hmem
    have hpos := (rep_spec hm').2
    dsimp only at hmatched
    rw [hmatched, List.length_append, List.length_append, List.length_append] at hlen
    have hblank : " ".toList.length = 1 := rfl
    omega
  · intro hlt
    have hsplit : p ++ w = r.stamp ++ " ".toList ++ r.message := by
      rw [hw, LogRecord.line, List.append_assoc]
    have hlen : (r.stamp ++ " ".toList).length < p.length := by
      rw [List.length_append]
      exact hlt
    obtain ⟨m, rfl⟩ := List.prefix_of_prefix_length_le (hsplit ▸ List.prefix_append _ r.message)
      (List.prefix_append p w) hlen.le
    have hm : m ++ w = r.message := by
      rw [List.append_assoc] at hsplit
      exact List.append_cancel_left hsplit
    have hne : m ≠ [] := by
      rintro rfl
      rw [List.append_nil] at hlen
      exact lt_irrefl _ hlen
    have hone : '\n' ∉ m := fun hmem => h.oneLine.1 (hm ▸ List.mem_append_left w hmem)
    have hhead : ∀ c ∈ m.head?, isSpace c = false := by
      have hh := h.head []
      rw [List.append_nil, show r.message = m ++ w from hm.symm,
        List.head?_append_of_ne_nil _ hne] at hh
      exact hh
    have hsome : ((logLineExpr tb).match?
        ((⟨⟨r.severity, m⟩, r.timeStamp⟩ : LogRecord).line ++ [])).isSome = true :=
      isSome_logLineExpr hone hne hhead (by simp)
    rwa [List.append_nil, LogRecord.line, ← List.append_assoc] at hsome

/-! ### The text that is left -/

theorem logText_append (l l' : List LogRecord) : logText (l ++ l') = logText l ++ logText l' := by
  rw [logText, List.map_append, unlines_append]
  rfl

theorem length_logText_cons (r : LogRecord) (l : List LogRecord) :
    (logText (r :: l)).length = r.line.length + 1 + (logText l).length := by
  rw [logText, List.map_cons, unlines_cons, List.length_append, List.length_cons]
  show _ + ((logText l).length + 1) = _
  omega

/-- The first `n` characters of a log file: the lines `l₁`, and the front `p` of the
next one. -/
structure Cut (log : List LogRecord) (n : ℕ) (l₁ l₂ : List LogRecord) (p : Text) : Prop where
  split : log = l₁ ++ l₂
  take : (logText log).take n = logText l₁ ++ p
  le : (logText l₁).length ≤ n
  rest : l₂ = [] ∧ p = [] ∨
    ∃ r l₃, l₂ = r :: l₃ ∧ (logText l₁).length + p.length = n ∧ p <+: r.line

theorem exists_cut (log : List LogRecord) (n : ℕ) : ∃ l₁ l₂ p, Cut log n l₁ l₂ p := by
  induction log generalizing n with
  | nil => exact ⟨[], [], [], rfl, List.take_nil, Nat.zero_le n, Or.inl ⟨rfl, rfl⟩⟩
  | cons r log ih =>
      have htext : logText (r :: log) = r.line ++ '\n' :: logText log := by
        rw [logText, List.map_cons, unlines_cons]
        rfl
      by_cases hn : r.line.length < n
      · obtain ⟨m, rfl⟩ := Nat.exists_eq_add_of_lt hn
        obtain ⟨l₁, l₂, p, hcut⟩ := ih m
        refine ⟨r :: l₁, l₂, p, congrArg _ hcut.split, ?_, ?_, ?_⟩
        · rw [htext, Nat.add_assoc, List.take_length_add_append, List.take_succ_cons, hcut.take]
          simp [logText]
        · have hle := hcut.le
          rw [length_logText_cons]
          omega
        · refine hcut.rest.imp_right ?_
          rintro ⟨r', l₃, rfl, hlen, hp⟩
          refine ⟨r', l₃, rfl, ?_, hp⟩
          rw [length_logText_cons]
          omega
      · rw [not_lt] at hn
        refine ⟨[], r :: log, r.line.take n, rfl, ?_, Nat.zero_le n, Or.inr ⟨r, log, rfl, ?_, ?_⟩⟩
        · rw [htext, List.take_append_of_le_length hn]
          rfl
        · rw [List.length_take, min_eq_left hn]
          exact Nat.zero_add n
        · exact List.take_prefix n r.line

section Cut

variable {log l₁ l₂ : List LogRecord} {n : ℕ} {p : Text}

/-- All lines that are left are in `l₁`. -/
theorem Cut.prefix_of_le (h : Cut log n l₁ l₂ p) {l l' : List LogRecord} (hl : log = l ++ l')
    (hn : (logText l).length ≤ n) : l <+: l₁ := by
  rcases List.append_eq_append_iff.1 (h.split.symm.trans hl) with ⟨a, rfl, ha⟩ | ⟨a, rfl, -⟩
  · rcases h.rest with ⟨rfl, -⟩ | ⟨r, l₃, rfl, hlen, hp⟩
    · obtain ⟨rfl, -⟩ := List.append_eq_nil_iff.1 ha.symm
      rw [List.append_nil]
    · cases a with
      | nil => rw [List.append_nil]
      | cons r' a =>
          obtain ⟨rfl, -⟩ := List.cons.inj ha
          have hle := hp.length_le
          rw [logText_append, List.length_append, length_logText_cons] at hn
          omega
  · exact List.prefix_append l a

/-- The lines that the parser reads. -/
theorem Cut.logLinesOf (h : Cut log n l₁ l₂ p) (hlog : ∀ r ∈ log, Loggable r.toLogMessage) :
    logLinesOf ((logText log).take n) =
      (l₁.map fun r => r.line ++ ['\n']) ++ if p = [] then [] else [p] := by
  have hone : ∀ r ∈ log, OneLine r.line := fun r hr => LogRecord.oneLine_line (hlog r hr).oneLine
  have hp : OneLine p := by
    rcases h.rest with ⟨-, rfl⟩ | ⟨r, l₃, rfl, -, hp⟩
    · exact oneLine_nil
    · have hr := hone r (h.split ▸ List.mem_append_right _ List.mem_cons_self)
      exact ⟨fun hm => hr.1 (hp.subset hm), fun hm => hr.2 (hp.subset hm)⟩
  have hflat : logText l₁ = (l₁.map fun r => r.line ++ ['\n']).flatten := by
    rw [logText, unlines, List.flatMap_map]
    rfl
  have hcr : '\r' ∉ logText l₁ ++ p := by
    rw [List.mem_append, not_or]
    refine ⟨fun hm => ?_, hp.2⟩
    rw [hflat] at hm
    obtain ⟨line, hline, hm⟩ := List.mem_flatten.1 hm
    obtain ⟨r, hr, rfl⟩ := List.mem_map.1 hline
    rcases List.mem_append.1 hm with hm | hm
    · exact (hone r (h.split ▸ List.mem_append_left _ hr)).2 hm
    · exact absurd hm (by decide)
  rw [Resume.logLinesOf, h.take, universalNewlines_eq hcr, hflat, keepLines_flatten_append]
  · congr 1
    split_ifs with hnil
    · rw [hnil, keepLines]
    · exact keepLines_of_not_mem hp.1 hnil
  · intro line hline
    obtain ⟨r, hr, rfl⟩ := List.mem_map.1 hline
    exact ⟨r.line, (hone r (h.split ▸ List.mem_append_left _ hr)).1, rfl⟩

/-- **The cut is in front of a message**: in the time stamp of a line, or behind it. -/
def CutInStamp (log : List LogRecord) (n : ℕ) : Prop :=
  ∃ l₁ r l₂, log = l₁ ++ r :: l₂ ∧ (logText l₁).length < n ∧
    n ≤ (logText l₁).length + (r.stamp.length + 1)

theorem Cut.cutInStamp_iff (h : Cut log n l₁ l₂ p) : CutInStamp log n ↔
    p ≠ [] ∧ ∀ r l₃, l₂ = r :: l₃ → p.length ≤ r.stamp.length + 1 := by
  constructor
  · rintro ⟨m₁, r, m₂, hlog, hlt, hle⟩
    obtain ⟨a, rfl⟩ := h.prefix_of_le hlog hlt.le
    have hrest := h.split.symm.trans hlog
    rw [List.append_assoc] at hrest
    have ha := List.append_cancel_left hrest
    have hline : r.stamp.length + 1 ≤ r.line.length := by
      rw [LogRecord.line, List.length_append, List.length_append]
      exact Nat.add_le_add_left (Nat.le_add_right 1 _) _
    cases a with
    | nil =>
        rw [List.nil_append] at ha
        subst ha
        rcases h.rest with ⟨hnil, -⟩ | ⟨r', l₃, hcons, hlen, -⟩
        · exact absurd hnil (List.cons_ne_nil _ _)
        · rw [List.append_nil] at hlen
          refine ⟨?_, fun r' l₃ heq => ?_⟩
          · rintro rfl
            rw [List.length_nil] at hlen
            omega
          · obtain ⟨rfl, -⟩ := List.cons.inj heq
            omega
    | cons r' a =>
        obtain ⟨rfl, -⟩ := List.cons.inj ha
        have hl₁ := h.le
        rw [logText_append, List.length_append, length_logText_cons] at hl₁
        omega
  · rintro ⟨hne, hle⟩
    rcases h.rest with ⟨-, hnil⟩ | ⟨r, l₃, rfl, hlen, -⟩
    · exact absurd hnil hne
    · have hpos := List.length_pos_iff.2 hne
      have hshort := hle r l₃ rfl
      exact ⟨l₁, r, l₃, h.split, by omega, by omega⟩

end Cut

/-! ### The entries that are left -/

/-- What can be left of some entries: the first ones, and perhaps a shortened one. -/
inductive Torn (es : List LogEntry) : List LogEntry → Prop where
  | whole {l : List LogEntry} (h : l <+: es) : Torn es l
  | torn {l : List LogEntry} {e e' : LogEntry} (h : l ++ [e'] <+: es) (hs : Shortened e e') :
      Torn es (l ++ [e])

section Torn

variable {es es' : List LogEntry}

theorem StartedFirst.of_prefix (h : StartedFirst es) (hp : es' <+: es) : StartedFirst es' := by
  obtain ⟨l, rfl⟩ := hp
  intro l₁ k x l₂ he
  exact h l₁ k x (l₂ ++ l) (by rw [he, List.append_assoc, List.cons_append])

theorem Torn.first (h : Torn es es') (hf : StartedFirst es) : StartedFirst es' := by
  cases h with
  | whole hp => exact hf.of_prefix hp
  | torn hp hs =>
      obtain ⟨hfirst, hdone⟩ := startedFirst_concat.1 (hf.of_prefix hp)
      refine startedFirst_concat.2 ⟨hfirst, fun k x he => ?_⟩
      cases hs with
      | started k u u' => cases he
      | done j hxy =>
          cases he
          exact hdone k _ rfl

theorem Torn.started (h : Torn es es') (hk : HasStarted k es') : HasStarted k es := by
  obtain ⟨u, hu⟩ := hk
  cases h with
  | whole hp => exact ⟨u, hp.subset hu⟩
  | torn hp hs =>
      rcases List.mem_append.1 hu with hu | hu
      · exact ⟨u, hp.subset (List.mem_append_left _ hu)⟩
      · rw [List.mem_singleton] at hu
        subst hu
        cases hs with
        | started k u u' => exact ⟨u, hp.subset (List.mem_append_right _ (List.mem_singleton_self _))⟩

theorem Torn.status (h : Torn es es') {y : ℤ} (hk : lastStatus k es' = some y) :
    ∃ x, .done k x ∈ es ∧ (y = 0 ↔ x = 0) := by
  have hy := mem_of_lastStatus hk
  cases h with
  | whole hp => exact ⟨y, hp.subset hy, Iff.rfl⟩
  | torn hp hs =>
      rcases List.mem_append.1 hy with hy | hy
      · exact ⟨y, hp.subset (List.mem_append_left _ hy), Iff.rfl⟩
      · rw [List.mem_singleton] at hy
        subst hy
        cases hs with
        | done k hxy => exact ⟨_, hp.subset (List.mem_append_right _ (List.mem_singleton_self _)), hxy⟩

end Torn

theorem map_fst_entriesOf {lines : List Text} (h : TimesValid tb lines) :
    (entriesOf tb lines).map Prod.fst = lines.filterMap (entryOf tb) := by
  rw [entriesOf, List.map_filterMap]
  refine List.filterMap_congr fun line hline => ?_
  rw [entryOf]
  cases hl : stampedEntry tb line with
  | none => rfl
  | some e =>
      obtain ⟨e, err | d⟩ := e
      · exact absurd hl (h line hline e err)
      · rfl

variable (tb) in
theorem logEntries_eq (log : List LogRecord) :
    logEntries tb log = (log.map fun r => r.line ++ ['\n']).filterMap (entryOf tb) := by
  rw [List.filterMap_map, logEntries, Function.comp_def]

variable (tb) in
/-- **In a whole log** every item is started before it is done. -/
theorem Orderly.startedFirst {log : List LogRecord}
    (h : Orderly io (log.map LogRecord.toLogMessage)) : StartedFirst (logEntries tb log) := by
  by_cases hne : log = []
  · subst hne
    exact startedFirst_nil
  · obtain ⟨st, -, hparse⟩ := parseLogFile_orderly tb h hne
    have ha := (parseLogFile_ok_iff tb (logText log)).1 ⟨_, hparse⟩
    have hlines : logLinesOf (logText log) = log.map fun r => r.line ++ ['\n'] :=
      keepLines_logText fun r hm => h.oneLine _ (List.mem_map_of_mem hm)
    rw [logEntries_eq, ← hlines, ← map_fst_entriesOf ha.times]
    exact ha.first

section Cut

variable {log l₁ l₂ : List LogRecord} {n : ℕ} {p : Text}

/-- A line that is left is the front of a line of the log. -/
theorem Cut.mem_lines (h : Cut log n l₁ l₂ p) {line : Text}
    (hline : line ∈ (l₁.map fun r => r.line ++ ['\n']) ++ if p = [] then [] else [p]) :
    ∃ r ∈ log, line <+: r.line ++ ['\n'] := by
  rcases List.mem_append.1 hline with hm | hm
  · obtain ⟨r, hr, rfl⟩ := List.mem_map.1 hm
    exact ⟨r, h.split ▸ List.mem_append_left _ hr, List.prefix_rfl⟩
  · split_ifs at hm with hnil
    · exact absurd hm List.not_mem_nil
    · obtain rfl := List.mem_singleton.1 hm
      rcases h.rest with ⟨-, hp⟩ | ⟨r, l₃, rfl, -, hp⟩
      · exact absurd hp hnil
      · exact ⟨r, h.split ▸ List.mem_append_right _ List.mem_cons_self,
          hp.trans (List.prefix_append _ _)⟩

/-- The entries of the whole lines are left. -/
theorem Cut.mem_entries (h : Cut log n l₁ l₂ p) {l l' : List LogRecord} (hl : log = l ++ l')
    (hn : (logText l).length ≤ n) {e : LogEntry} (he : e ∈ logEntries tb l) :
    e ∈ ((l₁.map fun r => r.line ++ ['\n']) ++ if p = [] then [] else [p]).filterMap
      (entryOf tb) := by
  obtain ⟨r, hr, he⟩ := List.mem_filterMap.1 he
  refine List.mem_filterMap.2 ⟨_, List.mem_append_left _ (List.mem_map.2 ⟨r, ?_, rfl⟩), he⟩
  exact (h.prefix_of_le hl hn).subset hr

/-- The parser's condition on the lines, in terms of the cut. -/
theorem Cut.logLines_iff (h : Cut log n l₁ l₂ p) (hlog : ∀ r ∈ log, Loggable r.toLogMessage) :
    (∀ line ∈ (l₁.map fun r => r.line ++ ['\n']) ++ if p = [] then [] else [p],
      ((logLineExpr tb).match? line).isSome = true) ↔ ¬CutInStamp log n := by
  have htorn : p ≠ [] → ∃ r l₃, l₂ = r :: l₃ ∧
      (((logLineExpr tb).match? p).isSome = true ↔ r.stamp.length + 1 < p.length) := by
    intro hne
    rcases h.rest with ⟨-, hp⟩ | ⟨r, l₃, rfl, -, hp⟩
    · exact absurd hp hne
    · exact ⟨r, l₃, rfl, isSome_logLineExpr_cut
        (hlog r (h.split ▸ List.mem_append_right _ List.mem_cons_self)) hp⟩
  rw [h.cutInStamp_iff, not_and]
  constructor
  · intro hall hne hle
    obtain ⟨r, l₃, hl₂, hiff⟩ := htorn hne
    have hlt := hiff.1 (hall p (List.mem_append_right _ (by rw [if_neg hne]; simp)))
    have hshort := hle r l₃ hl₂
    omega
  · intro hlong line hline
    rcases List.mem_append.1 hline with hm | hm
    · obtain ⟨r, hr, rfl⟩ := List.mem_map.1 hm
      have hr' := hlog r (h.split ▸ List.mem_append_left _ hr)
      have hhead := hr'.head []
      rw [List.append_nil] at hhead
      exact isSome_logLineExpr hr'.oneLine.1 hr'.ne_nil hhead (by simp)
    · split_ifs at hm with hnil
      · exact absurd hm List.not_mem_nil
      · obtain rfl := List.mem_singleton.1 hm
        obtain ⟨r, l₃, hl₂, hiff⟩ := htorn hnil
        refine hiff.2 ?_
        by_contra hge
        refine hlong hnil fun r' l₃' hl₂' => ?_
        obtain ⟨rfl, -⟩ := List.cons.inj (hl₂.symm.trans hl₂')
        omega

/-- Something is left if the cut is not at the beginning. -/
theorem Cut.lines_ne_nil (h : Cut log n l₁ l₂ p) (hlog : log ≠ []) (hn : n ≠ 0) :
    ((l₁.map fun r => r.line ++ ['\n']) ++ if p = [] then [] else [p]) ≠ [] := by
  intro hnil
  obtain ⟨hmap, hp⟩ := List.append_eq_nil_iff.1 hnil
  obtain rfl := List.map_eq_nil_iff.1 hmap
  have hp' : p = [] := by
    by_contra hne
    rw [if_neg hne] at hp
    cases hp
  rcases h.rest with ⟨rfl, -⟩ | ⟨r, l₃, -, hlen, -⟩
  · exact hlog h.split
  · subst hp'
    exact hn hlen.symm

variable (tb) (hkind : ∀ r ∈ log, Kind io r.toLogMessage)
include hkind

theorem Cut.times (h : Cut log n l₁ l₂ p) :
    TimesValid tb ((l₁.map fun r => r.line ++ ['\n']) ++ if p = [] then [] else [p]) := by
  intro line hline e err he
  obtain ⟨r, hr, hp⟩ := h.mem_lines hline
  cases (stampedEntry_cut (hkind r hr) hp he).1

/-- **The entries that are left.** -/
theorem Cut.torn (h : Cut log n l₁ l₂ p) : Torn (logEntries tb log)
    (((l₁.map fun r => r.line ++ ['\n']) ++ if p = [] then [] else [p]).filterMap (entryOf tb)) := by
  have hsplit : logEntries tb log = logEntries tb l₁ ++ logEntries tb l₂ := by
    rw [logEntries, logEntries, logEntries, h.split, List.filterMap_append]
  rw [List.filterMap_append, ← logEntries_eq, hsplit]
  split_ifs with hnil
  · rw [List.filterMap_nil, List.append_nil]
    exact .whole (List.prefix_append _ _)
  · rcases h.rest with ⟨-, hp⟩ | ⟨r, l₃, rfl, -, hp⟩
    · exact absurd hp hnil
    · cases he : entryOf tb p with
      | none =>
          rw [List.filterMap_cons, he, List.filterMap_nil, List.append_nil]
          exact .whole (List.prefix_append _ _)
      | some e =>
          have he' := he
          rw [entryOf, Option.map_eq_some_iff] at he'
          obtain ⟨⟨e₀, t⟩, hstamped, rfl⟩ := he'
          have hr : Kind io r.toLogMessage :=
            hkind r (h.split ▸ List.mem_append_right _ List.mem_cons_self)
          obtain ⟨-, e', hline, hshort⟩ :=
            stampedEntry_cut hr (hp.trans (List.prefix_append _ _)) hstamped
          have hnext : logEntries tb (r :: l₃) = e' :: logEntries tb l₃ := by
            rw [logEntries, List.filterMap_cons, hline]
            rfl
          rw [List.filterMap_cons, he, List.filterMap_nil, hnext]
          exact .torn ((List.prefix_append_right_inj _).2 ⟨_, List.singleton_append⟩) hshort

end Cut

/-! ### The report -/

section Run

variable {t : List (Pool.Event C Bytes FitResult)}

theorem started_mem_flatMap {w : Text} (h : .started k w ∈ t.flatMap (eventEntries job)) :
    k ∈ Protocol.workIds (t.map (encodeEvent job)) := by
  obtain ⟨e, he, hk⟩ := List.mem_flatMap.1 h
  rcases e with ⟨c, _ | ⟨j, r⟩⟩ | ⟨c, ⟨j, a⟩ | _ | _ | _⟩ | ⟨c, q⟩ | ⟨c, j, a, r⟩ <;>
    simp only [eventEntries, List.mem_singleton, List.not_mem_nil, LogEntry.started.injEq,
      reduceCtorEq] at hk
  obtain ⟨rfl, -⟩ := hk
  exact mem_workIds.2 ⟨c, a, he⟩

theorem done_mem_flatMap {y : ℤ} : .done k y ∈ t.flatMap (eventEntries job) ↔
    ∃ x : Int32, (k, x) ∈ handled (t.map (encodeEvent job)) ∧ x.toInt = y := by
  rw [List.mem_flatMap]
  constructor
  · rintro ⟨e, he, hk⟩
    rcases e with ⟨c, _ | ⟨j, r⟩⟩ | ⟨c, ⟨j, a⟩ | _ | _ | _⟩ | ⟨c, q⟩ | ⟨c, j, a, r⟩ <;>
      simp only [eventEntries, List.mem_singleton, List.not_mem_nil, LogEntry.done.injEq,
        reduceCtorEq] at hk
    obtain ⟨rfl, rfl⟩ := hk
    exact ⟨_, mem_handled.2 ⟨c, r, he, rfl⟩, rfl⟩
  · rintro ⟨x, hx, rfl⟩
    obtain ⟨c, r, he, rfl⟩ := mem_handled.1 hx
    exact ⟨_, he, List.mem_singleton_self _⟩

end Run

/-- **The report on what is left of a log understates the run.** -/
structure Understates (tb : CharTable) (s : System C Uuid) (log : List LogRecord) (n : ℕ)
    (report : WorkitemReport) : Prop where
  successes : ∀ k ∈ report.successes, (k, 0) ∈ handled s.trace
  failures : ∀ k ∈ report.failures, ∃ x, x ≠ 0 ∧ (k, x) ∈ handled s.trace
  incompletes : ∀ k ∈ report.incompletes, k ∈ Protocol.workIds s.trace
  /-- An item that a whole line starts is in one of the lists. -/
  started : ∀ l l', log = l ++ l' → (logText l).length ≤ n → ∀ k u,
    .started k u ∈ logEntries tb l → k ∈ report.incompletes ++ report.successes ++ report.failures
  /-- An item that is done by a whole line is in the right one. -/
  done : ∀ l l', log = l ++ l' → (logText l).length ≤ n → ∀ k x,
    .done k x ∈ logEntries tb l → if x = 0 then k ∈ report.successes else k ∈ report.failures

variable [DecidableEq C] {s : System C Uuid}

/-- **A log that was cut off anywhere** is refused if nothing is left of it or if the
cut is in front of a message; else the report understates the run. -/
theorem report_of_cut (h : System.Reachable job System.anyStep s) (tb : CharTable)
    {log : List LogRecord} (hlog : log.map LogRecord.toLogMessage = s.server.log) (n : ℕ) :
    ((∃ r, parseLogFile tb ((logText log).take n) = .ok r) ↔ n ≠ 0 ∧ ¬CutInStamp log n) ∧
      ∀ report, parseLogFile tb ((logText log).take n) = .ok (some report) →
        Understates tb s log n report := by
  obtain ⟨t, hrun, hr⟩ := refines_reachable (Q := fun _ _ => True) h
    fun _ _ _ _ _ _ _ _ _ _ => trivial
  have hi := Pool.inv_reaches hrun
  have hord : Orderly job.io (log.map LogRecord.toLogMessage) :=
    hlog ▸ (log_of_refines hr hi (Pool.inOrder_reaches hrun)).1
  have hkind : ∀ r ∈ log, Kind job.io r.toLogMessage := fun r hm =>
    hord.kind _ (List.mem_map_of_mem hm)
  have hlines := fun r hm => (hkind r hm).loggable
  have hne : log ≠ [] := by
    rintro rfl
    have hlen := congrArg List.length (hlog.trans hr.log)
    simp [Setup.startLog] at hlen
  have hentries : logEntries tb log = t.trace.flatMap (eventEntries job) :=
    logEntries_of_refines hr hlog
  obtain ⟨l₁, l₂, p, hcut⟩ := exists_cut log n
  have htimes := hcut.times tb hkind
  have htorn := hcut.torn tb hkind
  rw [← hcut.logLinesOf hlines] at htimes htorn
  rw [← map_fst_entriesOf htimes] at htorn
  have hnodup : ((handled s.trace).map Prod.fst).Nodup := by
    rw [map_handled_trace hr, hr.trace, resultIds_map]
    exact hi.handled_once
  have hdone : ∀ k y, .done k y ∈ logEntries tb log ↔
      ∃ x : Int32, (k, x) ∈ handled s.trace ∧ x.toInt = y := by
    intro k y
    rw [hentries, hr.trace]
    exact done_mem_flatMap
  constructor
  · rw [parseLogFile_ok_iff]
    constructor
    · intro ha
      refine ⟨?_, (hcut.logLines_iff hlines).1 (hcut.logLinesOf hlines ▸ ha.logLines)⟩
      rintro rfl
      exact ha.ne_nil rfl
    · rintro ⟨hn, hstamp⟩
      refine ⟨?_, ?_, htimes, htorn.first (hord.startedFirst tb)⟩
      · rw [hcut.logLinesOf hlines]
        exact hcut.lines_ne_nil hne hn
      · rw [hcut.logLinesOf hlines]
        exact (hcut.logLines_iff hlines).2 hstamp
  · intro report hreport
    have hrep := reports_of_parseLogFile hreport
    refine ⟨fun k hk => ?_, fun k hk => ?_, fun k hk => ?_, ?_, ?_⟩
    · obtain ⟨x, hx, hzero⟩ := htorn.status ((hrep.successes k).1 hk)
      obtain ⟨y, hy, rfl⟩ := (hdone k x).1 hx
      rwa [Int32.toInt_inj.1 ((hzero.1 rfl).trans Int32.toInt_zero.symm)] at hy
    · obtain ⟨x', hne, hx'⟩ := (hrep.failures k).1 hk
      obtain ⟨x, hx, hzero⟩ := htorn.status hx'
      obtain ⟨y, hy, rfl⟩ := (hdone k x).1 hx
      refine ⟨y, ?_, hy⟩
      rintro rfl
      exact hne (hzero.2 rfl)
    · obtain ⟨u, hu⟩ := htorn.started ((hrep.incompletes k).1 hk).1
      rw [hentries] at hu
      rw [hr.trace]
      exact started_mem_flatMap hu
    · intro l l' hl hn k u hu
      have hmem := hcut.mem_entries hl hn hu
      rw [← hcut.logLinesOf hlines, ← map_fst_entriesOf htimes] at hmem
      exact (hrep.cover k).2 ⟨u, hmem⟩
    · intro l l' hl hn k x hx
      have hmem := hcut.mem_entries hl hn hx
      rw [← hcut.logLinesOf hlines, ← map_fst_entriesOf htimes] at hmem
      obtain ⟨y, hy⟩ := exists_lastStatus hmem
      -- the last status is that of the only result
      obtain ⟨x', hx', hzero⟩ := htorn.status hy
      have hsame : x' = x := by
        have hwhole : .done k x ∈ logEntries tb log := by
          rw [logEntries, hl, List.filterMap_append]
          exact List.mem_append_left _ hx
        obtain ⟨a, ha, rfl⟩ := (hdone k x).1 hwhole
        obtain ⟨b, hb, rfl⟩ := (hdone k x').1 hx'
        rw [(Prod.mk.inj (List.inj_on_of_nodup_map hnodup ha hb rfl)).2]
      subst hsame
      split_ifs with h0
      · exact (hrep.successes k).2 (hzero.2 h0 ▸ hy)
      · exact (hrep.failures k).2 ⟨y, mt hzero.1 h0, hy⟩

theorem report_of_cut_failedRun :
    ∃ s : System Bool Uuid16, handled s.trace = [(1, -9)] ∧ ∀ n report,
      parseLogFile asciiTable ((logText (stampAll someTime s.server.log)).take n) =
        .ok (some report) →
      Understates asciiTable s (stampAll someTime s.server.log) n report := by
  obtain ⟨s, hrun, hs⟩ := exists_of_exec exec_failedRun
  exact ⟨s, congrArg (fun p => p.2.2) hs, fun n => (report_of_cut (hrun.mono fun _ _ _ => trivial)
    asciiTable (map_stampAll someTime s.server.log) n).2⟩

end Resume
end WorkerNg
