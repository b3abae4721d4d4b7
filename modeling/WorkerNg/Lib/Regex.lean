/-
# Regular expressions that backtrack

Regular expressions with greedy repetitions of a class of characters, sequences,
alternatives and named groups, with the meaning that a backtracking matcher
gives them: `run` lists all matches at the front of a text in the order in which
the matcher finds them, so that the first of them is its answer.

What an expression does to a text is said in two ways.  `Starts r u v g`: on
`u ++ v` the first match takes `u` and leaves `v`.  `Leads r u v g q`: moreover
every other match leaves a text that begins with a character of `q`.  If what
follows in a sequence rejects these characters, the other matches come to
nothing, and the sequence has the matches it has behind the first one
(`Leads.seq`, `Leads.of_mem_seq`), none if there is none (`Leads.seq_eq_nil`).

There are no anchors, so that a match is one whatever follows (`mem_run_append`): what
is found in a text that was cut off is found in the whole text too.
-/

import Mathlib.Data.List.TakeWhile

namespace WorkerNg

/-- A regular expression: nothing, a class repeated at least `lo` and at most
`hi` times, one expression after another, one or another, a named group. -/
inductive Regex (α : Type*) where
  | nil
  | rep (p : α → Bool) (lo : ℕ) (hi : Option ℕ)
  | seq (r s : Regex α)
  | alt (r s : Regex α)
  | group (name : String) (r : Regex α)

namespace Regex

variable {α : Type*}

/-- A match: what the groups hold, the text matched and the text left. -/
structure Match (α : Type*) where
  groups : List (String × List α)
  matched : List α
  rest : List α

/-- One match and the next one behind it. -/
def Match.append (m m' : Match α) : Match α :=
  ⟨m.groups ++ m'.groups, m.matched ++ m'.matched, m'.rest⟩

/-- What a group holds. -/
def Match.group (m : Match α) (name : String) : Option (List α) := m.groups.lookup name

/-- How often a class can be repeated at the front of a text. -/
def reps (p : α → Bool) (hi : Option ℕ) (t : List α) : ℕ :=
  match hi with
  | none => (t.takeWhile p).length
  | some n => min n (t.takeWhile p).length

/-- All matches at the front of a text, in the order in which they are tried. -/
def run : Regex α → List α → List (Match α)
  | nil, t => [⟨[], [], t⟩]
  | rep p lo hi, t =>
      -- greedy: the longest repetition first
      (List.range' lo (reps p hi t + 1 - lo)).reverse.map fun n => ⟨[], t.take n, t.drop n⟩
  | seq r s, t => (r.run t).flatMap fun m => (s.run m.rest).map m.append
  | alt r s, t => r.run t ++ s.run t
  | group name r, t => (r.run t).map fun m => { m with groups := (name, m.matched) :: m.groups }

/-- The match found at the front of a text. -/
def match? (r : Regex α) (t : List α) : Option (Match α) := (r.run t).head?

/-- The match found at the first place of a text that has one. -/
def search? (r : Regex α) : List α → Option (Match α)
  | [] => r.match? []
  | c :: t => r.match? (c :: t) <|> r.search? t

/-- One character of a class. -/
def one (p : α → Bool) : Regex α := rep p 1 (some 1)

/-- One expression after the other. -/
def cat : List (Regex α) → Regex α
  | [] => nil
  | r :: rs => seq r (cat rs)

/-- A given text. -/
def lit [BEq α] (s : List α) : Regex α := cat (s.map fun c => one (· == c))

theorem run_rep (p : α → Bool) (lo : ℕ) (hi : Option ℕ) (t : List α) :
    (rep p lo hi).run t =
      (List.range' lo (reps p hi t + 1 - lo)).reverse.map fun n => ⟨[], t.take n, t.drop n⟩ := rfl

theorem run_seq (r s : Regex α) (t : List α) :
    (seq r s).run t = (r.run t).flatMap fun m => (s.run m.rest).map m.append := rfl

theorem run_alt (r s : Regex α) (t : List α) : (alt r s).run t = r.run t ++ s.run t := rfl

theorem run_group (name : String) (r : Regex α) (t : List α) : (group name r).run t =
    (r.run t).map fun m => { m with groups := (name, m.matched) :: m.groups } := rfl

/-! ### Which matches there are -/

/-- The first match of `r` on `u ++ v` takes `u`, with the groups `g`. -/
def Starts (r : Regex α) (u v : List α) (g : List (String × List α)) : Prop :=
  ∃ ms, r.run (u ++ v) = ⟨g, u, v⟩ :: ms

/-- The first match of `r` on `u ++ v` takes `u`, and the others leave a text
that begins with a character of `q`. -/
def Leads (r : Regex α) (u v : List α) (g : List (String × List α)) (q : α → Prop) : Prop :=
  ∃ ms, r.run (u ++ v) = ⟨g, u, v⟩ :: ms ∧ ∀ m ∈ ms, ∃ c s, m.rest = c :: s ∧ q c

/-- `r` matches no text that begins with a character of `q`. -/
def Rejects (r : Regex α) (q : α → Prop) : Prop := ∀ c s, q c → r.run (c :: s) = []

variable {r s : Regex α} {rs : List (Regex α)} {u u' v : List α} {g g' : List (String × List α)}
  {p : α → Bool} {q q' : α → Prop} {lo : ℕ} {hi : Option ℕ} {name : String}

theorem Starts.match? (h : Starts r u v g) : r.match? (u ++ v) = some ⟨g, u, v⟩ := by
  obtain ⟨ms, h⟩ := h
  rw [Regex.match?, h, List.head?_cons]

theorem match?_eq_none {t : List α} (h : r.run t = []) : r.match? t = none := by
  rw [Regex.match?, h, List.head?_nil]

theorem Leads.starts (h : Leads r u v g q) : Starts r u v g := by
  obtain ⟨ms, h, -⟩ := h
  exact ⟨ms, h⟩

theorem rejects_false (r : Regex α) : Rejects r fun _ => False := fun _ _ h => h.elim

/-! ### Repetitions -/

theorem takeWhile_append_of_head (hu : ∀ c ∈ u, p c = true) (hv : ∀ c ∈ v.head?, p c = false) :
    (u ++ v).takeWhile p = u := by
  rw [List.takeWhile_append_of_pos hu]
  cases v with
  | nil => rw [List.takeWhile_nil, List.append_nil]
  | cons c v =>
      have hc : p c = false := hv c rfl
      rw [List.takeWhile_cons_of_neg (by simp [hc]), List.append_nil]

/-- A repetition without bound ends where the class does. -/
theorem reps_none (hu : ∀ c ∈ u, p c = true) (hv : ∀ c ∈ v.head?, p c = false) :
    reps p none (u ++ v) = u.length := by
  rw [reps, takeWhile_append_of_head hu hv]

/-- A bounded repetition ends at its bound. -/
theorem reps_some (hu : ∀ c ∈ u, p c = true) : reps p (some u.length) (u ++ v) = u.length := by
  rw [reps, List.takeWhile_append_of_pos hu, List.length_append]
  exact Nat.min_eq_left (Nat.le_add_right _ _)

theorem reps_of_head (hv : ∀ c ∈ v.head?, p c = false) : reps p hi v = 0 := by
  have h₀ : v.takeWhile p = [] := takeWhile_append_of_head (u := []) (by simp) hv
  cases hi with
  | none => rw [reps, h₀, List.length_nil]
  | some n => rw [reps, h₀, List.length_nil, Nat.min_zero]

/-- **A repetition** takes what it can; otherwise it leaves a text that begins
with one of the characters it could have taken. -/
theorem leads_rep (hlo : lo ≤ u.length) (hreps : reps p hi (u ++ v) = u.length)
    (hq : ∀ c ∈ u.drop lo, q c) : Leads (rep p lo hi) u v [] q := by
  have hrange : List.range' lo (u.length + 1 - lo) =
      List.range' lo (u.length - lo) ++ [u.length] := by
    rw [Nat.sub_add_comm hlo, List.range'_1_concat, Nat.add_sub_cancel' hlo]
  refine ⟨(List.range' lo (u.length - lo)).reverse.map
    fun n => ⟨[], (u ++ v).take n, (u ++ v).drop n⟩, ?_, ?_⟩
  · rw [run_rep, hreps, hrange, List.reverse_append, List.reverse_singleton, List.singleton_append,
      List.map_cons, List.take_left, List.drop_left]
  · intro m hm
    obtain ⟨n, hn, rfl⟩ := List.mem_map.1 hm
    rw [List.mem_reverse, List.mem_range'_1] at hn
    have hlt : n < u.length := by omega
    refine ⟨u[n], u.drop (n + 1) ++ v, ?_, hq _ ?_⟩
    · show (u ++ v).drop n = _
      rw [List.drop_append_of_le_length hlt.le, List.drop_eq_getElem_cons hlt, List.cons_append]
    · have hlt' : n - lo < (u.drop lo).length := by
        rw [List.length_drop]
        omega
      have hmem : (u.drop lo)[n - lo] ∈ u.drop lo := List.getElem_mem hlt'
      rw [List.getElem_drop] at hmem
      simpa only [Nat.add_sub_cancel' hn.1] using hmem

theorem rejects_rep (hlo : 1 ≤ lo) (hq : ∀ c, q c → p c = false) : Rejects (rep p lo hi) q := by
  intro c s hc
  have hreps : reps p hi (c :: s) = 0 := reps_of_head (by simpa using hq c hc)
  rw [run_rep, hreps, Nat.sub_eq_zero_of_le (by omega)]
  rfl

/-- A repetition of a class that the text does not begin with. -/
theorem run_rep_eq_nil (hlo : 1 ≤ lo) (hv : ∀ c ∈ v.head?, p c = false) :
    (rep p lo hi).run v = [] := by
  rw [run_rep, reps_of_head hv, Nat.sub_eq_zero_of_le (by omega)]
  rfl

theorem leads_one {c : α} (hc : p c = true) : Leads (one p) [c] v [] q :=
  leads_rep le_rfl (reps_some (u := [c]) (by simpa using hc)) (by simp)

theorem run_one_eq_nil {c : α} (hc : p c = false) : (one p).run (c :: v) = [] :=
  run_rep_eq_nil le_rfl (by simpa using hc)

/-! ### Sequences, alternatives and groups -/

theorem flatMap_eq_nil_of_rejects (hs : Rejects s q) {ms : List (Match α)}
    (hms : ∀ m ∈ ms, ∃ c s, m.rest = c :: s ∧ q c) :
    (ms.flatMap fun m => (s.run m.rest).map m.append) = [] := by
  rw [List.flatMap_eq_nil_iff]
  intro m hm
  obtain ⟨c, t, hrest, hc⟩ := hms m hm
  rw [hrest, hs c t hc, List.map_nil]

theorem Starts.seq (hr : Starts r u (u' ++ v) g) (hs : Starts s u' v g') :
    Starts (seq r s) (u ++ u') v (g ++ g') := by
  obtain ⟨ms, hr⟩ := hr
  obtain ⟨ms', hs⟩ := hs
  refine ⟨ms'.map (Match.append ⟨g, u, u' ++ v⟩) ++
    ms.flatMap fun m => (s.run m.rest).map m.append, ?_⟩
  rw [run_seq, List.append_assoc, hr, List.flatMap_cons]
  simp only [hs, List.map_cons, List.cons_append]
  rfl

/-- **A sequence** whose second part rejects what the other matches of its first
part leave. -/
theorem Leads.seq (hr : Leads r u (u' ++ v) g q) (hq : Rejects s q) (hs : Leads s u' v g' q') :
    Leads (seq r s) (u ++ u') v (g ++ g') q' := by
  obtain ⟨ms, hr, hms⟩ := hr
  obtain ⟨ms', hs, hms'⟩ := hs
  refine ⟨ms'.map (Match.append ⟨g, u, u' ++ v⟩), ?_, ?_⟩
  · rw [run_seq, List.append_assoc, hr, List.flatMap_cons, flatMap_eq_nil_of_rejects hq hms]
    simp only [hs, List.map_cons, List.append_nil]
    rfl
  · intro m hm
    obtain ⟨m', hm', rfl⟩ := List.mem_map.1 hm
    exact hms' m' hm'

/-- A sequence has no match if its second part has none behind the first match
of its first part and rejects what the others leave. -/
theorem Leads.seq_eq_nil (hr : Leads r u v g q) (hq : Rejects s q) (hs : s.run v = []) :
    (Regex.seq r s).run (u ++ v) = [] := by
  obtain ⟨ms, hr, hms⟩ := hr
  rw [run_seq, hr, List.flatMap_cons, flatMap_eq_nil_of_rejects hq hms]
  simp only [hs, List.map_nil, List.append_nil]

theorem Starts.group (h : Starts r u v g) : Starts (group name r) u v ((name, u) :: g) := by
  obtain ⟨ms, h⟩ := h
  rw [Starts, run_group, h]
  exact ⟨_, List.map_cons ..⟩

theorem Leads.group (h : Leads r u v g q) : Leads (group name r) u v ((name, u) :: g) q := by
  obtain ⟨ms, h, hms⟩ := h
  refine ⟨_, by rw [run_group, h, List.map_cons], ?_⟩
  intro m hm
  obtain ⟨m', hm', rfl⟩ := List.mem_map.1 hm
  exact hms m' hm'

theorem Starts.alt_left (h : Starts r u v g) : Starts (alt r s) u v g := by
  obtain ⟨ms, h⟩ := h
  exact ⟨ms ++ s.run (u ++ v), by rw [run_alt, h, List.cons_append]⟩

theorem Starts.alt_right (hr : r.run (u ++ v) = []) (h : Starts s u v g) :
    Starts (alt r s) u v g := by
  obtain ⟨ms, h⟩ := h
  exact ⟨ms, by rw [run_alt, hr, h, List.nil_append]⟩

theorem Rejects.seq (h : Rejects r q) : Rejects (seq r s) q := by
  intro c t hc
  rw [run_seq, h c t hc, List.flatMap_nil]

theorem Rejects.group (h : Rejects r q) : Rejects (group name r) q := by
  intro c t hc
  rw [run_group, h c t hc, List.map_nil]

theorem seq_eq_nil {t : List α} (h : r.run t = []) : (seq r s).run t = [] := by
  rw [run_seq, h, List.flatMap_nil]

/-! ### What a match is made of -/

theorem mem_run_seq {m : Match α} {t : List α} : m ∈ (seq r s).run t ↔
    ∃ m₁ ∈ r.run t, ∃ m₂ ∈ s.run m₁.rest, m₁.append m₂ = m := by
  simp only [run_seq, List.mem_flatMap, List.mem_map]

theorem mem_run_cat_cons {m : Match α} {t : List α} : m ∈ (cat (r :: rs)).run t ↔
    ∃ m₁ ∈ r.run t, ∃ m₂ ∈ (cat rs).run m₁.rest, m₁.append m₂ = m := mem_run_seq

theorem mem_run_group {m : Match α} {t : List α} : m ∈ (group name r).run t ↔
    ∃ m₁ ∈ r.run t, { m₁ with groups := (name, m₁.matched) :: m₁.groups } = m := by
  rw [run_group, List.mem_map]

theorem reps_le (p : α → Bool) (hi : Option ℕ) (t : List α) :
    reps p hi t ≤ (t.takeWhile p).length := by
  cases hi with
  | none => exact le_rfl
  | some n => exact Nat.min_le_right _ _

/-- A match of a repetition is a repetition of the class. -/
theorem of_mem_run_rep {m : Match α} {t : List α} (h : m ∈ (rep p lo hi).run t) :
    ∃ n, lo ≤ n ∧ n ≤ reps p hi t ∧ m = ⟨[], t.take n, t.drop n⟩ := by
  rw [run_rep, List.mem_map] at h
  obtain ⟨n, hn, rfl⟩ := h
  rw [List.mem_reverse, List.mem_range'_1] at hn
  exact ⟨n, hn.1, by omega, rfl⟩

/-- A match of a repetition has no group and at least `lo` characters. -/
theorem rep_spec {m : Match α} {t : List α} (h : m ∈ (rep p lo hi).run t) :
    m.groups = [] ∧ lo ≤ m.matched.length := by
  obtain ⟨n, hlo, hn, rfl⟩ := of_mem_run_rep h
  refine ⟨rfl, ?_⟩
  have hreps := reps_le p hi t
  have htake : (t.takeWhile p).length ≤ t.length := (List.takeWhile_prefix p).length_le
  show lo ≤ (t.take n).length
  rw [List.length_take]
  omega

/-- A match of one character of a class takes the first one of the text. -/
theorem one_spec {m : Match α} {t : List α} (h : m ∈ (one p).run t) :
    m.groups = [] ∧ ∃ c, p c = true ∧ m.matched = [c] := by
  obtain ⟨n, hlo, hn, rfl⟩ := of_mem_run_rep h
  have hreps := reps_le p (some 1) t
  have hle : reps p (some 1) t ≤ 1 := Nat.min_le_left _ _
  obtain rfl : n = 1 := by omega
  cases t with
  | nil =>
      rw [List.takeWhile_nil, List.length_nil] at hreps
      omega
  | cons c t =>
      refine ⟨rfl, c, ?_, rfl⟩
      by_contra hc
      rw [List.takeWhile_cons_of_neg hc, List.length_nil] at hreps
      omega

/-- Whether a group takes part in every match. -/
def always (name : String) : Regex α → Bool
  | seq r s => r.always name || s.always name
  | alt r s => r.always name && s.always name
  | group n r => name == n || r.always name
  | _ => false

/-- **A group that takes part in every match** holds something. -/
theorem isSome_group {m : Match α} {t : List α} (hr : r.always name = true) (h : m ∈ r.run t) :
    (m.group name).isSome = true := by
  induction r generalizing t m with
  | nil => cases hr
  | rep p lo hi => cases hr
  | seq r s ihr ihs =>
      obtain ⟨m₁, h₁, m₂, h₂, rfl⟩ := mem_run_seq.1 h
      rw [always, Bool.or_eq_true] at hr
      rw [Match.group, Match.append, List.lookup_append, Option.isSome_or, Bool.or_eq_true]
      exact hr.imp (ihr · h₁) (ihs · h₂)
  | alt r s ihr ihs =>
      rw [always, Bool.and_eq_true] at hr
      exact (List.mem_append.1 h).elim (ihr hr.1) (ihs hr.2)
  | group n r ih =>
      obtain ⟨m₁, h₁, rfl⟩ := mem_run_group.1 h
      rw [always, Bool.or_eq_true] at hr
      rw [Match.group, List.lookup_cons]
      rcases hr with hr | hr
      · rw [hr]
        rfl
      · split
        · rfl
        · exact ih hr h₁

/-- **A match splits the text** into what it takes and what it leaves. -/
theorem matched_append_rest {m : Match α} {t : List α} (h : m ∈ r.run t) :
    m.matched ++ m.rest = t := by
  induction r generalizing t m with
  | nil =>
      obtain rfl := List.mem_singleton.1 h
      rfl
  | rep p lo hi =>
      obtain ⟨n, -, -, rfl⟩ := of_mem_run_rep h
      exact List.take_append_drop n t
  | seq r s ihr ihs =>
      obtain ⟨m₁, h₁, m₂, h₂, rfl⟩ := mem_run_seq.1 h
      show (m₁.matched ++ m₂.matched) ++ m₂.rest = t
      rw [List.append_assoc, ihs h₂, ihr h₁]
  | alt r s ihr ihs =>
      rw [run_alt, List.mem_append] at h
      exact h.elim ihr ihs
  | group name r ih =>
      obtain ⟨m₁, h₁, rfl⟩ := mem_run_group.1 h
      exact ih (m := m₁) h₁

/-- What a search finds is a match behind some part of the text. -/
theorem of_search? {m : Match α} {t : List α} (h : r.search? t = some m) :
    ∃ u v, u ++ v = t ∧ m ∈ r.run v := by
  induction t with
  | nil => exact ⟨[], [], rfl, List.mem_of_mem_head? h⟩
  | cons c t ih =>
      rw [search?, Option.orElse_eq_orElse, Option.orElse_eq_or, Option.or_eq_some_iff] at h
      rcases h with h | ⟨-, h⟩
      · exact ⟨[], c :: t, rfl, List.mem_of_mem_head? h⟩
      · obtain ⟨u, v, rfl, hm⟩ := ih h
        exact ⟨c :: u, v, rfl, hm⟩

/-- What a search finds is no longer than the text. -/
theorem length_matched_le_of_search? {m : Match α} {t : List α} (h : r.search? t = some m) :
    m.matched.length ≤ t.length := by
  obtain ⟨u, v, rfl, hm⟩ := of_search? h
  have hv : m.matched.length + m.rest.length = v.length := by
    rw [← matched_append_rest hm, List.length_append]
  rw [List.length_append]
  omega

/-! ### Texts cut off -/

theorem reps_append (p : α → Bool) (hi : Option ℕ) (t v : List α) :
    reps p hi t ≤ reps p hi (t ++ v) := by
  have hle : (t.takeWhile p).length ≤ ((t ++ v).takeWhile p).length := by
    rw [List.takeWhile_append]
    split_ifs with h
    · rw [List.length_append]
      omega
    · exact le_rfl
  cases hi with
  | none => exact hle
  | some n =>
      simp only [reps]
      omega

/-- **A match stays one** if something follows the text. -/
theorem mem_run_append {m : Match α} {t : List α} (h : m ∈ r.run t) (v : List α) :
    { m with rest := m.rest ++ v } ∈ r.run (t ++ v) := by
  induction r generalizing t m with
  | nil =>
      obtain rfl := List.mem_singleton.1 h
      exact List.mem_singleton_self _
  | rep p lo hi =>
      obtain ⟨n, hlo, hn, rfl⟩ := of_mem_run_rep h
      have hlen : n ≤ t.length :=
        (hn.trans (reps_le p hi t)).trans (List.takeWhile_prefix p).length_le
      have hrep := reps_append p hi t v
      rw [run_rep, List.mem_map]
      refine ⟨n, ?_, ?_⟩
      · rw [List.mem_reverse, List.mem_range'_1]
        omega
      · rw [List.take_append_of_le_length hlen, List.drop_append_of_le_length hlen]
  | seq r s ihr ihs =>
      obtain ⟨m₁, h₁, m₂, h₂, rfl⟩ := mem_run_seq.1 h
      exact mem_run_seq.2 ⟨_, ihr h₁, _, ihs h₂, rfl⟩
  | alt r s ihr ihs =>
      rw [run_alt, List.mem_append] at h ⊢
      exact h.imp ihr ihs
  | group name r ih =>
      obtain ⟨m₁, h₁, rfl⟩ := mem_run_group.1 h
      exact mem_run_group.2 ⟨_, ih h₁, rfl⟩

/-- **The matches of a sequence** whose second part rejects what the other matches of
its first part leave. -/
theorem Leads.of_mem_seq {m : Match α} (hr : Leads r u v g q) (hq : Rejects s q)
    (h : m ∈ (Regex.seq r s).run (u ++ v)) : ∃ m' ∈ s.run v, Match.append ⟨g, u, v⟩ m' = m := by
  obtain ⟨ms, hr, hms⟩ := hr
  rw [run_seq, hr, List.flatMap_cons, flatMap_eq_nil_of_rejects hq hms, List.append_nil] at h
  exact List.mem_map.1 h

theorem Leads.of_mem_cons {m : Match α} (hr : Leads r u v g fun _ => False)
    (h : m ∈ (cat (r :: rs)).run (u ++ v)) :
    ∃ m' ∈ (cat rs).run v, Match.append ⟨g, u, v⟩ m' = m := hr.of_mem_seq (rejects_false _) h

/-! ### Lists of expressions -/

theorem leads_cat_nil : Leads (cat ([] : List (Regex α))) [] v [] q := ⟨[], rfl, by simp⟩

@[simp] theorem run_cat_singleton (r : Regex α) (t : List α) : (cat [r]).run t = r.run t := by
  show (r.run t).flatMap (fun m => [⟨m.groups ++ [], m.matched ++ [], m.rest⟩]) = r.run t
  simp

theorem Starts.last (h : Starts r u v g) : Starts (cat [r]) u v g := by
  rwa [Starts, run_cat_singleton]

theorem Leads.last (h : Leads r u v g q) : Leads (cat [r]) u v g q := by
  rwa [Leads, run_cat_singleton]

theorem Starts.cons (hr : Starts r u (u' ++ v) g) (hs : Starts (cat rs) u' v g') :
    Starts (cat (r :: rs)) (u ++ u') v (g ++ g') := hr.seq hs

/-- An expression with one match only, and those behind it. -/
theorem Leads.cons (hr : Leads r u (u' ++ v) g fun _ => False) (hs : Leads (cat rs) u' v g' q) :
    Leads (cat (r :: rs)) (u ++ u') v (g ++ g') q := hr.seq (rejects_false _) hs

theorem Leads.cons_eq_nil (hr : Leads r u v g fun _ => False) (hs : (cat rs).run v = []) :
    (cat (r :: rs)).run (u ++ v) = [] := hr.seq_eq_nil (rejects_false _) hs

section Literals

variable [DecidableEq α] {t : List α}

theorem leads_lit : Leads (lit t) t v [] q := by
  induction t with
  | nil => exact leads_cat_nil
  | cons c t ih => exact Leads.cons (u := [c]) (leads_one (by simp)) ih

/-- A text that does not begin as given. -/
theorem run_lit_eq_nil (h : ¬t <+: v) : (lit t).run v = [] := by
  induction t generalizing v with
  | nil => exact absurd List.nil_prefix h
  | cons c t ih =>
      cases v with
      | nil => rfl
      | cons d v =>
          by_cases hd : d = c
          · subst hd
            rw [List.cons_prefix_cons, not_and] at h
            exact Leads.seq_eq_nil (u := [d]) (leads_one (by simp)) (rejects_false _) (ih (h rfl))
          · exact seq_eq_nil (run_one_eq_nil (by simpa using hd))

theorem rejects_lit {c : α} (h : ¬q c) : Rejects (lit (c :: t)) q := by
  intro d s hd
  refine run_lit_eq_nil fun hp => ?_
  rw [List.cons_prefix_cons] at hp
  exact h (hp.1 ▸ hd)

/-- A given text matches nothing but itself. -/
theorem lit_spec {m : Match α} (h : m ∈ (lit t).run v) : m.groups = [] ∧ m.matched = t := by
  induction t generalizing v m with
  | nil =>
      obtain rfl := List.mem_singleton.1 h
      exact ⟨rfl, rfl⟩
  | cons c t ih =>
      obtain ⟨m₁, h₁, m₂, h₂, rfl⟩ := mem_run_cat_cons.1 h
      obtain ⟨hg₂, hm₂⟩ := ih h₂
      obtain ⟨hg₁, d, hd, hm₁⟩ := one_spec h₁
      obtain rfl : d = c := by simpa using hd
      refine ⟨?_, ?_⟩
      · show m₁.groups ++ m₂.groups = []
        rw [hg₁, hg₂, List.nil_append]
      · show m₁.matched ++ m₂.matched = d :: t
        rw [hm₁, hm₂, List.singleton_append]

end Literals

end Regex
end WorkerNg
