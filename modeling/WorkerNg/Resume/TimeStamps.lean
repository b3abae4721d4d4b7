/-
# Reading numbers and time stamps back

What the pieces that the expressions of the log parser are built from do to the
texts that the server's log holds: digits, numbers and blanks.  From them,
`parseTime_toText`: `datetime.strptime` reads a time stamp as it was written.
-/

import WorkerNg.Resume.LogParsers

namespace WorkerNg
namespace Resume

open Lines Work Wire Protocol Regex

variable {tb : CharTable}

/-! ### Digits -/

theorem digit_of_isDigit {c : Char} (h : c.isDigit) : digit tb c = true := by
  have := toNat_of_isDigit h
  rw [digit, tb.decimal_ascii c (by omega), if_pos h, Option.isSome_some]

theorem digit_of_not_isDigit {c : Char} (ha : c.toNat < 128) (h : c.isDigit = false) :
    digit tb c = false := by
  rw [digit, tb.decimal_ascii c ha, h]
  rfl

theorem natOf_eq {s : Text} (h : ∀ c ∈ s, c.isDigit) :
    natOf tb s = Nat.ofDigitChars 10 s 0 := by
  have key : ∀ (s : Text) (n : ℕ), (∀ c ∈ s, c.isDigit) →
      s.foldl (fun n c => 10 * n + (tb.decimal c).getD 0) n = Nat.ofDigitChars 10 s n := by
    intro s
    induction s with
    | nil => intro n _; rfl
    | cons c s ih =>
        intro n h
        rw [List.forall_mem_cons] at h
        have hc := toNat_of_isDigit h.1
        rw [List.foldl_cons, ih _ h.2, Nat.ofDigitChars_cons, tb.decimal_ascii c (by omega),
          if_pos h.1, Option.getD_some]
        rfl
  exact key s 0 h

@[simp] theorem natOf_natText (n : ℕ) : natOf tb (natText n) = n := by
  rw [natOf_eq fun _ => isDigit_of_mem_natText, natText, Nat.ofDigitChars_ten_toDigits]

theorem natOf_pad {w n : ℕ} (h : n < 10 ^ w) : natOf tb (pad w n) = n := by
  rw [natOf_eq fun _ => isDigit_of_mem_pad, ofDigitChars_pad h]

theorem natText_ne_nil (n : ℕ) : natText n ≠ [] := by
  simp [natText]

theorem intOf_natText (n : ℕ) : intOf tb (natText n) = n := by
  unfold intOf
  split
  · rename_i s hs
    have hdash : '-' ∈ natText n := hs ▸ List.mem_cons_self
    exact absurd (isDigit_of_mem_natText hdash) (by decide)
  · rw [natOf_natText]

@[simp] theorem intOf_intText (x : Int32) : intOf tb (intText x) = x.toInt := by
  rw [intText]
  split_ifs with hx
  · rw [intOf, natOf_natText]
    omega
  · rw [intOf_natText]
    omega

/-- A number of fixed width. -/
theorem leads_pad (w n : ℕ) {v : Text} {q : Char → Prop} :
    Leads (rep (digit tb) w (some w)) (pad w n) v [] q := by
  have hall : ∀ c ∈ pad w n, digit tb c = true := fun c hc =>
    digit_of_isDigit (isDigit_of_mem_pad hc)
  have hreps := reps_some (v := v) hall
  rw [length_pad] at hreps
  refine leads_rep (length_pad w n).ge (hreps.trans (length_pad w n).symm) fun c hc => ?_
  rw [List.drop_eq_nil_of_le (length_pad w n).le] at hc
  exact absurd hc List.not_mem_nil

/-- A number of any width, up to something else. -/
theorem leads_digits {u v : Text} (hu : ∀ c ∈ u, c.isDigit) (hne : u ≠ [])
    (hv : ∀ c ∈ v.head?, digit tb c = false) :
    Leads (rep (digit tb) 1 none) u v [] fun c => c.isDigit :=
  leads_rep (List.length_pos_iff.2 hne) (reps_none (fun c hc => digit_of_isDigit (hu c hc)) hv)
    fun c hc => hu c (List.mem_of_mem_drop hc)

/-! ### Blanks -/

theorem leads_blank {v : Text} {q : Char → Prop} (hv : ∀ c ∈ v.head?, isSpace c = false) :
    Leads (rep isSpace 1 none) " ".toList v [] q :=
  leads_rep le_rfl (reps_none (u := " ".toList) (List.all_eq_true.1 (by decide)) hv) fun c hc => absurd hc (by simp)

theorem leads_no_blank {v : Text} {q : Char → Prop} (hv : ∀ c ∈ v.head?, isSpace c = false) :
    Leads (rep isSpace 0 none) [] v [] q :=
  leads_rep le_rfl (reps_of_head hv) fun c hc => absurd hc (by simp)

theorem isSpace_of_isDigit {c : Char} (h : c.isDigit) : isSpace c = false := by
  have := toNat_of_isDigit h
  by_contra hs
  rw [Bool.not_eq_false, isSpace, List.contains_iff_mem] at hs
  simp only [List.mem_cons, List.not_mem_nil, or_false] at hs
  omega

/-- What a text of digits begins with is no blank. -/
theorem isSpace_of_head_pad {w n : ℕ} {v : Text} : ∀ c ∈ (pad (w + 1) n ++ v).head?,
    isSpace c = false := by
  intro c hc
  have hne : pad (w + 1) n ≠ [] := by simp [pad]
  rw [List.head?_append_of_ne_nil _ hne] at hc
  exact isSpace_of_isDigit (isDigit_of_mem_pad (List.mem_of_mem_head? hc))

theorem isSpace_of_head_timeText {d : DateTime} {v : Text} : ∀ c ∈ (d.timeText ++ v).head?,
    isSpace c = false := by
  rw [DateTime.timeText, List.append_assoc]
  exact isSpace_of_head_pad

/-! ### Time stamps -/

theorem range_digitChar {a b d : ℕ} (hb : b < 10) (h : a ≤ d ∧ d ≤ b) :
    range (Nat.digitChar a) (Nat.digitChar b) (Nat.digitChar d) = true := by
  rw [range, Bool.and_eq_true, decide_eq_true_iff, decide_eq_true_iff]
  show (Nat.digitChar a).toNat ≤ (Nat.digitChar d).toNat ∧
    (Nat.digitChar d).toNat ≤ (Nat.digitChar b).toNat
  rw [Nat.toNat_digitChar_of_lt_ten (by omega), Nat.toNat_digitChar_of_lt_ten (by omega),
    Nat.toNat_digitChar_of_lt_ten hb]
  omega

theorem digitChar_bne {a d : ℕ} (ha : a < 10) (h : d < a) :
    (Nat.digitChar d == Nat.digitChar a) = false := by
  rw [beq_eq_false_iff_ne]
  intro heq
  have hnat := congrArg Char.toNat heq
  rw [Nat.toNat_digitChar_of_lt_ten (by omega), Nat.toNat_digitChar_of_lt_ten ha] at hnat
  omega

theorem digit_digitChar {d : ℕ} (h : d < 10) : digit tb (Nat.digitChar d) = true :=
  digit_of_isDigit (by rw [Nat.isDigit_digitChar]; exact decide_eq_true h)

section TwoDigits

variable {p p' : Char → Bool} {a b : Char} {v : Text}

theorem starts_two (h : p a = true) (h' : p' b = true) :
    Starts (cat [one p, one p']) [a, b] v [] := by
  have hb : Leads (cat [one p']) [b] v [] fun _ => False := (leads_one h').last
  exact (Leads.cons (u := [a]) (leads_one h) hb).starts

theorem two_eq_nil (h : p a = false) : (cat [one p, one p']).run ([a, b] ++ v) = [] :=
  seq_eq_nil (run_one_eq_nil h)

end TwoDigits

variable {t d : ℕ} {v : Text}

theorem starts_month (h : t = 1 ∧ d ≤ 2 ∨ t = 0 ∧ 1 ≤ d) (hd : d < 10) :
    Starts monthDirective [Nat.digitChar t, Nat.digitChar d] v
      [("m", [Nat.digitChar t, Nat.digitChar d])] := by
  refine Starts.group ?_
  rcases h with ⟨rfl, h⟩ | ⟨rfl, h⟩
  · have hd : range '0' '2' (Nat.digitChar d) = true :=
      range_digitChar (a := 0) (b := 2) (by omega) (by omega)
    exact Starts.alt_left (starts_two rfl hd)
  · have hd : range '1' '9' (Nat.digitChar d) = true :=
      range_digitChar (a := 1) (b := 9) (by omega) (by omega)
    exact Starts.alt_right (two_eq_nil rfl) (Starts.alt_left (starts_two rfl hd))

theorem starts_day (h : t = 3 ∧ d ≤ 1 ∨ (1 ≤ t ∧ t ≤ 2) ∨ t = 0 ∧ 1 ≤ d) (hd : d < 10) :
    Starts (dayDirective tb) [Nat.digitChar t, Nat.digitChar d] v
      [("d", [Nat.digitChar t, Nat.digitChar d])] := by
  refine Starts.group ?_
  rcases h with ⟨rfl, h⟩ | h | ⟨rfl, h⟩
  · have hd : range '0' '1' (Nat.digitChar d) = true :=
      range_digitChar (a := 0) (b := 1) (by omega) (by omega)
    exact Starts.alt_left (starts_two rfl hd)
  · have ht : range '1' '2' (Nat.digitChar t) = true :=
      range_digitChar (a := 1) (b := 2) (by omega) h
    have ht₃ : (Nat.digitChar t == '3') = false :=
      digitChar_bne (a := 3) (by omega) (by omega)
    exact Starts.alt_right (two_eq_nil ht₃)
      (Starts.alt_left (starts_two ht (digit_digitChar hd)))
  · have hd : range '1' '9' (Nat.digitChar d) = true :=
      range_digitChar (a := 1) (b := 9) (by omega) (by omega)
    exact Starts.alt_right (two_eq_nil rfl) (Starts.alt_right (two_eq_nil rfl)
      (Starts.alt_left (starts_two rfl hd)))

theorem starts_hour (h : t = 2 ∧ d ≤ 3 ∨ t ≤ 1) (hd : d < 10) :
    Starts (hourDirective tb) [Nat.digitChar t, Nat.digitChar d] v
      [("H", [Nat.digitChar t, Nat.digitChar d])] := by
  refine Starts.group ?_
  rcases h with ⟨rfl, h⟩ | h
  · have hd : range '0' '3' (Nat.digitChar d) = true :=
      range_digitChar (a := 0) (b := 3) (by omega) (by omega)
    exact Starts.alt_left (starts_two rfl hd)
  · have ht : range '0' '1' (Nat.digitChar t) = true :=
      range_digitChar (a := 0) (b := 1) (by omega) (by omega)
    have ht₂ : (Nat.digitChar t == '2') = false :=
      digitChar_bne (a := 2) (by omega) (by omega)
    exact Starts.alt_right (two_eq_nil ht₂)
      (Starts.alt_left (starts_two ht (digit_digitChar hd)))

theorem starts_minute (h : t ≤ 5) (hd : d < 10) :
    Starts (minuteDirective tb) [Nat.digitChar t, Nat.digitChar d] v
      [("M", [Nat.digitChar t, Nat.digitChar d])] := by
  have ht : range '0' '5' (Nat.digitChar t) = true :=
    range_digitChar (a := 0) (b := 5) (by omega) (by omega)
  exact Starts.group (Starts.alt_left (starts_two ht (digit_digitChar hd)))

theorem starts_second (h : t ≤ 5) (hd : d < 10) :
    Starts (secondDirective tb) [Nat.digitChar t, Nat.digitChar d] v
      [("S", [Nat.digitChar t, Nat.digitChar d])] := by
  have ht : range '0' '5' (Nat.digitChar t) = true :=
    range_digitChar (a := 0) (b := 5) (by omega) (by omega)
  have ht₆ : (Nat.digitChar t == '6') = false := digitChar_bne (a := 6) (by omega) (by omega)
  exact Starts.group (Starts.alt_right (two_eq_nil ht₆)
    (Starts.alt_left (starts_two ht (digit_digitChar hd))))

theorem starts_fraction (n : ℕ) : Starts fractionDirective (pad 6 n) v [("f", pad 6 n)] := by
  have hall : ∀ c ∈ pad 6 n, range '0' '9' c = true := by
    intro c hc
    have hd := isDigit_of_mem_pad hc
    rw [Char.isDigit, Bool.and_eq_true, decide_eq_true_iff, decide_eq_true_iff] at hd
    rw [range, Bool.and_eq_true, decide_eq_true_iff, decide_eq_true_iff]
    exact hd
  have hreps := reps_some (v := v) hall
  rw [length_pad] at hreps
  exact (leads_rep (q := fun _ => True) (by rw [length_pad]; decide)
    (hreps.trans (length_pad 6 n).symm) fun _ _ => trivial).starts.group

/-- A time stamp matches the format, part by part. -/
theorem starts_timeFormat (d : DateTime) : Starts (timeFormat tb) d.toText []
    [("Y", pad 4 d.year), ("m", pad 2 d.month), ("d", pad 2 d.day), ("H", pad 2 d.hour),
      ("M", pad 2 d.minute), ("S", pad 2 d.second), ("f", pad 6 d.microsecond)] := by
  obtain ⟨-, ⟨hm₁, hm⟩, hd₁, hd⟩ := d.date_valid
  obtain ⟨hh, hmin, hs, -⟩ := d.time_valid
  have hd' := hd.trans (daysInMonth_le _ _)
  have hmonth : ∀ v, Starts monthDirective (pad 2 d.month) v [("m", pad 2 d.month)] := fun v =>
    starts_month (by omega) (by omega)
  have hday : ∀ v, Starts (dayDirective tb) (pad 2 d.day) v [("d", pad 2 d.day)] := fun v =>
    starts_day (by omega) (by omega)
  have hhour : ∀ v, Starts (hourDirective tb) (pad 2 d.hour) v [("H", pad 2 d.hour)] := fun v =>
    starts_hour (by omega) (by omega)
  have hminute : ∀ v, Starts (minuteDirective tb) (pad 2 d.minute) v [("M", pad 2 d.minute)] :=
    fun v => starts_minute (by omega) (by omega)
  have hsecond : ∀ v, Starts (secondDirective tb) (pad 2 d.second) v [("S", pad 2 d.second)] :=
    fun v => starts_second (by omega) (by omega)
  have hlit : ∀ (t v : Text), Starts (lit t) t v [] := fun t v =>
    (leads_lit (q := fun _ => False)).starts
  have hyear : ∀ v, Starts (yearDirective tb) (pad 4 d.year) v [("Y", pad 4 d.year)] := fun v =>
    (leads_pad 4 d.year (q := fun _ => False)).starts.group
  have hblank : Starts (rep isSpace 1 none) " ".toList (d.timeText ++ []) [] :=
    (leads_blank (q := fun _ => False) isSpace_of_head_timeText).starts
  simpa only [timeFormat, DateTime.toText, DateTime.dateText, List.append_assoc,
    List.nil_append, List.cons_append] using (hyear _).cons ((hlit "-".toList _).cons
      ((hmonth _).cons ((hlit "-".toList _).cons ((hday _).cons (hblank.cons ((hhour _).cons
        ((hlit ":".toList _).cons ((hminute _).cons ((hlit ":".toList _).cons ((hsecond _).cons
          ((hlit ".".toList _).cons (starts_fraction d.microsecond).last)))))))))))

/-- **`strptime` reads a time stamp as it was written.** -/
theorem parseTime_toText (d : DateTime) : parseTime tb d.toText = .ok d := by
  have hstarts : Starts (timeFormat tb) d.toText [] _ := starts_timeFormat d
  have hmatch := hstarts.match?
  rw [List.append_nil] at hmatch
  have hd := d.date_valid
  have ht := d.time_valid
  have hlt : d.month < 10 ^ 2 ∧ d.day < 10 ^ 2 := by
    have := daysInMonth_le d.year d.month
    omega
  have hyear : natOf tb (pad 4 d.year) = d.year := natOf_pad (by omega)
  have hmonth : natOf tb (pad 2 d.month) = d.month := natOf_pad hlt.1
  have hday : natOf tb (pad 2 d.day) = d.day := natOf_pad hlt.2
  have hhour : natOf tb (pad 2 d.hour) = d.hour := natOf_pad (by omega)
  have hminute : natOf tb (pad 2 d.minute) = d.minute := natOf_pad (by omega)
  have hsecond : natOf tb (pad 2 d.second) = d.second := natOf_pad (by omega)
  have hmicro : natOf tb (pad 6 d.microsecond) = d.microsecond := natOf_pad (by omega)
  have hmake : DateTime.make? d.year d.month d.day d.hour d.minute d.second d.microsecond =
      some d := by
    rw [DateTime.make?, dif_pos hd, dif_pos ht]
  rw [parseTime, hmatch]
  simp [groupValue, Match.group, List.lookup_cons, hyear, hmonth, hday, hhour, hminute, hsecond,
    hmicro, hmake]

end Resume
end WorkerNg
