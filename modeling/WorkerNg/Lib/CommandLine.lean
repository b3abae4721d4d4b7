/-
# Command lines, piece by piece

How a parser reads a command line that is put together from pieces.  A piece is
read as some options, whatever follows it (`Reads`), or the parser sticks at it,
so that it exits or leaves something over, whatever follows (`Sticks`).  Pieces
that are read compose (`reads_flatMap`), and one that sticks is enough for the
whole to stick (`not_sticks_of_occurrences`).

A flag, an option with its value behind `=` and an option followed by its value
are pieces that are read; an option followed by a string that cannot be an
argument and a string that is no option stick.
-/

import WorkerNg.Lib.Argparse

namespace WorkerNg
namespace Argparse

variable {p : Parser} {s : Str} {a : Action} {args : List Str}

/-- **The strings are read** as these options, whatever follows. -/
def Reads (p : Parser) (args : List Str) (occs : List Occurrence) : Prop :=
  ∀ rest, p.occurrences (args ++ rest) =
    (p.occurrences rest).map fun r => (occs ++ r.1, r.2)

/-- **The strings stick**: whatever follows, the parser exits or something is left over. -/
def Sticks (p : Parser) (args : List Str) : Prop :=
  ∀ rest r, p.occurrences (args ++ rest) = .ok r → r.2 ≠ []

theorem reads_nil : Reads p [] [] := by
  intro rest
  cases h : p.occurrences rest <;> simp [h, Except.map]

theorem Reads.append {args₁ args₂ : List Str} {occs₁ occs₂ : List Occurrence}
    (h₁ : Reads p args₁ occs₁) (h₂ : Reads p args₂ occs₂) :
    Reads p (args₁ ++ args₂) (occs₁ ++ occs₂) := by
  intro rest
  rw [List.append_assoc, h₁, h₂]
  cases p.occurrences rest <;> simp [Except.map]

theorem Reads.sticks {args₁ args₂ : List Str} {occs : List Occurrence} (h₁ : Reads p args₁ occs)
    (h₂ : Sticks p args₂) : Sticks p (args₁ ++ args₂) := by
  intro rest r hr
  rw [List.append_assoc, h₁] at hr
  obtain ⟨r', hr', rfl⟩ := map_eq_ok hr
  exact h₂ rest r' hr'

theorem Sticks.append {args₁ : List Str} (h₁ : Sticks p args₁) (args₂ : List Str) :
    Sticks p (args₁ ++ args₂) := by
  intro rest r hr
  rw [List.append_assoc] at hr
  exact h₁ _ r hr

section Pieces

variable {ε : Type} {es : List ε} {f : ε → List Str} {g : ε → List Occurrence}

theorem reads_flatMap (h : ∀ e ∈ es, Reads p (f e) (g e)) :
    Reads p (es.flatMap f) (es.flatMap g) := by
  induction es with
  | nil => exact reads_nil
  | cons e es ih =>
      rw [List.forall_mem_cons] at h
      rw [List.flatMap_cons, List.flatMap_cons]
      exact h.1.append (ih h.2)

/-- One piece that sticks is enough. -/
theorem sticks_flatMap (h : ∀ e ∈ es, Reads p (f e) (g e) ∨ Sticks p (f e)) {e : ε} (he : e ∈ es)
    (hs : Sticks p (f e)) : Sticks p (es.flatMap f) := by
  induction es with
  | nil => cases he
  | cons e' es ih =>
      rw [List.forall_mem_cons] at h
      rw [List.flatMap_cons]
      rcases List.mem_cons.1 he with rfl | he
      · exact hs.append _
      · rcases h.1 with hr | hs'
        · exact hr.sticks (ih h.2 he)
        · exact hs'.append _

/-- The pieces are all read if nothing is left over. -/
theorem not_sticks_of_occurrences (h : ∀ e ∈ es, Reads p (f e) (g e) ∨ Sticks p (f e))
    {occs : List Occurrence} (hocc : p.occurrences (es.flatMap f) = .ok (occs, [])) :
    ∀ e ∈ es, Reads p (f e) (g e) := by
  intro e he
  refine (h e he).resolve_right fun hs => ?_
  have hsticks := sticks_flatMap h he hs
  exact hsticks [] (occs, []) (by rwa [List.append_nil]) rfl

theorem occurrences_of_reads {occs : List Occurrence} (h : Reads p args occs) :
    p.occurrences args = .ok (occs, []) := by
  have := h []
  rw [List.append_nil] at this
  rw [this]
  simp [Parser.occurrences, Parser.classify, Parser.scan, Except.map, bind, Except.bind]

end Pieces

/-- What the first string is taken for. -/
theorem classify_cons_ok {rest : List Str} {us : List (Str × Parser.Token)}
    (h : p.classify (s :: rest) = .ok us) :
    ∃ token ts, us = (s, token) :: ts ∧
      (token = .argument → s ≠ ['-', '-'] ∧ p.parseOptional s = .ok .argument) := by
  rw [Parser.classify] at h
  split_ifs at h with hs
  · cases h
    exact ⟨_, _, rfl, by simp⟩
  · obtain ⟨token, htoken, h⟩ := bind_eq_ok h
    obtain ⟨ts, -, h⟩ := bind_eq_ok h
    cases h
    exact ⟨token, ts, rfl, fun ht => ⟨hs, ht ▸ htoken⟩⟩

theorem occurrences_cons (hs : s ≠ ['-', '-']) {token : Parser.Token}
    (h : p.parseOptional s = .ok token) (rest : List Str) :
    p.occurrences (s :: rest) =
      (p.classify rest).bind fun ts => p.scan none ((s, token) :: ts) := by
  rw [Parser.occurrences, Parser.classify, if_neg hs, h]
  cases p.classify rest <;> rfl

/-- A string that is an option, and all there is to it. -/
theorem reads_option (hs : s ≠ ['-', '-']) {o : Str} {e : Parser.Explicit} {occ : Occurrence}
    (h : p.parseOptional s = .ok (.option a o e))
    (hk : p.consumeOptional a o e = .ok ⟨[occ], none, []⟩) (hhelp : occ.action.kind ≠ .help) :
    Reads p [s] [occ] := by
  intro rest
  rw [List.singleton_append, occurrences_cons hs h, Parser.occurrences]
  cases p.classify rest with
  | error e => rfl
  | ok ts =>
      have hany : ¬([occ].any fun occ => occ.action.kind == .help) = true := by simpa using hhelp
      show p.scan none ((s, .option a o e) :: ts) = (p.scan none ts).map _
      rw [Parser.scan, hk]
      show (if _ then _ else _) = _
      rw [if_neg hany]
      cases p.scan none ts <;> rfl

theorem parseOptional_of_find? (h : p.find? s = some a) (hs : s.head? = some '-') :
    p.parseOptional s = .ok (.option a s none) := by
  rw [Parser.parseOptional, if_neg (not_not_intro hs), h]

/-- A flag. -/
theorem reads_flag (h : p.find? s = some a) (hs : s.head? = some '-') (hd : s ≠ ['-', '-'])
    (hk : a.kind = .storeTrue) : Reads p [s] [.flag a] := by
  have hv : a.takesValue = false := by simp [Action.takesValue, hk]
  refine reads_option hd (parseOptional_of_find? h hs) ?_ (by simp [Occurrence.action, hk])
  simp [Parser.consumeOptional, Cluster.single, hv]

/-- An option with its value behind `=`. -/
theorem reads_explicit {o v : Str} (h : p.find? o = some a) (ho : '=' ∉ o)
    (hs : o.head? = some '-') (hfind : p.find? (o ++ '=' :: v) = none) (hv : a.takesValue = true) :
    Reads p [o ++ '=' :: v] [.valued a v] := by
  obtain ⟨o, rfl⟩ : ∃ t, o = '-' :: t := List.head?_eq_some_iff.1 hs
  have hdashes : '-' :: o ++ '=' :: v ≠ ['-', '-'] := by
    intro he
    have hmem : '=' ∈ ['-', '-'] := he ▸ (by simp)
    simp at hmem
  have hparse : p.parseOptional ('-' :: o ++ '=' :: v) =
      .ok (.option a ('-' :: o) (some (true, v))) := by
    rw [Parser.parseOptional, if_neg (by simp), hfind, partition_append_cons ho]
    simp [h]
  refine reads_option hdashes hparse ?_ ?_
  · rw [Parser.consumeOptional, Parser.cluster.eq_def]
    exact if_pos hv
  · intro hk
    have hk' : a.kind = .help := hk
    simp [Action.takesValue, hk'] at hv

/-- An option that takes the next string. -/
theorem scan_value (hv : a.takesValue = true) (ts : List (Str × Parser.Token)) :
    p.scan none ((s, .option a s none) :: ts) = p.scan (some a) ts := by
  rw [Parser.scan, Parser.consumeOptional, Cluster.single, if_pos hv]
  show ((p.scan (some a) ts).bind fun r => .ok ([] ++ r.1, [] ++ r.2)) = _
  cases p.scan (some a) ts <;> rfl

/-- An option whose value is the next string. -/
theorem reads_value {v : Str} (h : p.find? s = some a) (hs : s.head? = some '-')
    (hd : s ≠ ['-', '-']) (hv : a.takesValue = true) (hne : v ≠ ['-', '-'])
    (harg : p.parseOptional v = .ok .argument) : Reads p [s, v] [.valued a v] := by
  intro rest
  have hclassify : p.classify (v :: rest) = (p.classify rest).map ((v, .argument) :: ·) := by
    rw [Parser.classify, if_neg hne, harg]
    cases p.classify rest <;> rfl
  show p.occurrences (s :: v :: rest) = _
  rw [occurrences_cons hd (parseOptional_of_find? h hs), hclassify, Parser.occurrences]
  cases p.classify rest with
  | error e => rfl
  | ok ts =>
      show p.scan none ((s, .option a s none) :: (v, .argument) :: ts) = (p.scan none ts).map _
      rw [scan_value hv, Parser.scan]
      cases p.scan none ts <;> rfl

/-- An option whose value cannot be an argument. -/
theorem sticks_value {v : Str} (h : p.find? s = some a) (hs : s.head? = some '-')
    (hd : s ≠ ['-', '-']) (hv : a.takesValue = true)
    (hn : ¬(v ≠ ['-', '-'] ∧ p.parseOptional v = .ok .argument)) : Sticks p [s, v] := by
  intro rest r hr
  change p.occurrences (s :: v :: rest) = .ok r at hr
  rw [occurrences_cons hd (parseOptional_of_find? h hs)] at hr
  obtain ⟨us, hus, hr⟩ := bind_eq_ok hr
  obtain ⟨token, ts, rfl, htoken⟩ := classify_cons_ok hus
  rw [scan_value hv] at hr
  -- only an argument can be the value
  cases token with
  | argument => exact absurd (htoken rfl) hn
  | unknown => cases hr
  | option b o e => cases hr
  | dashes => cases hr

/-- A string that is not an option of the parser is left over. -/
theorem sticks_unknown (hd : s ≠ ['-', '-']) (h : p.parseOptional s = .ok .unknown ∨
    p.parseOptional s = .ok .argument) (more : List Str) : Sticks p (s :: more) := by
  intro rest r hr
  change p.occurrences (s :: (more ++ rest)) = .ok r at hr
  rcases h with h | h
  all_goals
    rw [occurrences_cons hd h] at hr
    obtain ⟨ts, -, hr⟩ := bind_eq_ok hr
    rw [Parser.scan] at hr
    · obtain ⟨⟨occs, extras⟩, -, hr⟩ := bind_eq_ok hr
      cases hr
      exact List.cons_ne_nil _ _
    · exact nofun

theorem Reads.not_sticks {occs : List Occurrence} (h : Reads p args occs) : ¬Sticks p args := by
  intro hs
  have hocc := occurrences_of_reads h
  rw [← List.append_nil args] at hocc
  exact hs [] _ hocc rfl

/-- A string that begins with two dashes and that no option begins with, be it with
a value behind `=`, is no option. -/
theorem parseOptional_unknown {n t : Str} (hno : ∀ oa ∈ p.optionStrings, ¬('-' :: '-' :: n) <+: oa.1)
    (hpart : (partition '=' ('-' :: '-' :: n ++ t)).1 = '-' :: '-' :: n) :
    p.parseOptional ('-' :: '-' :: n ++ t) = .ok .unknown ∨
      p.parseOptional ('-' :: '-' :: n ++ t) = .ok .argument := by
  have hnone : ∀ u, p.find? ('-' :: '-' :: n ++ u) = none := by
    intro u
    by_contra hsome
    obtain ⟨a, ha⟩ := Option.ne_none_iff_exists'.1 hsome
    exact hno _ (mem_of_find?_eq_some ha) (List.prefix_append _ _)
  have hname : p.find? ('-' :: '-' :: n) = none := by simpa using hnone []
  have htuples : p.optionTuples ('-' :: '-' :: n ++ t) = [] := by
    rw [Parser.optionTuples, if_pos (by simp), List.filterMap_eq_nil_iff]
    intro oa hoa
    rw [hpart, if_neg (hno oa hoa)]
  have habbreviation : p.parseAbbreviation ('-' :: '-' :: n ++ t) = .ok .unknown ∨
      p.parseAbbreviation ('-' :: '-' :: n ++ t) = .ok .argument := by
    rw [Parser.parseAbbreviation, htuples]
    show (if _ then _ else if _ then _ else _) = _ ∨ (if _ then _ else if _ then _ else _) = _
    split_ifs <;> simp
  rw [Parser.parseOptional, if_neg (by simp), hnone, if_neg (by simp), hpart, hname]
  exact habbreviation

end Argparse
end WorkerNg
