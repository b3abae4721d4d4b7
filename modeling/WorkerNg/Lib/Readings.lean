/-
# Command lines, read as a relation

`Reading p args occs extras` tells string by string how a parser takes the options
`occs` from the strings `args` and leaves `extras` over.  For a parser whose flags
are long options, the one that prints a help text apart (`Plain`), it is what
`occurrences` computes (`reading_iff`).

What is left over stands in the order of the command line, and is left over again
when it is read anew (`Reading.sublist`, `Reading.again`).  Where some
options can be told apart from the others (`Apart`), they can be hidden: the parser
takes the others from the same strings, and another one that knows only the hidden
options takes them from what is left over (`Reading.hide`).
-/

import Mathlib.Data.List.Infix
import WorkerNg.Lib.CommandLine

namespace WorkerNg
namespace Argparse

/-- Flags are long options, the one that prints a help text apart. -/
def Plain (p : Parser) : Prop :=
  ∀ oa ∈ p.optionStrings, (oa.1.drop 1).head? ≠ some '-' →
    oa.2.takesValue = true ∨ oa.2.kind = .help

instance (p : Parser) : Decidable (Plain p) :=
  inferInstanceAs (Decidable (∀ oa ∈ p.optionStrings, _ → _ ∨ _))

/-- A string that is no option is left over, unless an option takes it. -/
def Parser.Token.IsLeft (token : Parser.Token) : Prop := token = .argument ∨ token = .unknown

/-- **What a parser makes of a command line.** -/
inductive Reading (p : Parser) : List Str → List Occurrence → List Str → Prop
  | nil : Reading p [] [] []
  | dashes (args : List Str) : Reading p (['-', '-'] :: args) [] (['-', '-'] :: args)
  | left {s : Str} {token : Parser.Token} {args : List Str} {occs : List Occurrence}
      {extras : List Str} (hs : s ≠ ['-', '-']) (h : p.parseOptional s = .ok token)
      (ht : token.IsLeft) (hrest : Reading p args occs extras) :
      Reading p (s :: args) occs (s :: extras)
  | flag {s o : Str} {a : Action} {args : List Str} {occs : List Occurrence} {extras : List Str}
      (hs : s ≠ ['-', '-']) (h : p.parseOptional s = .ok (.option a o none))
      (ha : a.takesValue = false) (hk : a.kind ≠ .help) (hrest : Reading p args occs extras) :
      Reading p (s :: args) (.flag a :: occs) extras
  | explicit {s o v : Str} {eq : Bool} {a : Action} {args : List Str} {occs : List Occurrence}
      {extras : List Str} (hs : s ≠ ['-', '-'])
      (h : p.parseOptional s = .ok (.option a o (some (eq, v)))) (ha : a.takesValue = true)
      (hrest : Reading p args occs extras) : Reading p (s :: args) (.valued a v :: occs) extras
  | value {s o v : Str} {a : Action} {args : List Str} {occs : List Occurrence} {extras : List Str}
      (hs : s ≠ ['-', '-']) (h : p.parseOptional s = .ok (.option a o none))
      (ha : a.takesValue = true) (hv : v ≠ ['-', '-']) (harg : p.parseOptional v = .ok .argument)
      (hrest : Reading p args occs extras) :
      Reading p (s :: v :: args) (.valued a v :: occs) extras

variable {p : Parser} {s : Str} {a : Action} {args extras : List Str} {occs : List Occurrence}

/-! ### The relation and the parser -/

theorem mem_optionStrings_of_optionTuples {o : Str} {e : Parser.Explicit}
    (h : (a, o, e) ∈ p.optionTuples s) : (o, a) ∈ p.optionStrings := by
  rw [Parser.optionTuples] at h
  split at h <;> obtain ⟨⟨o', b⟩, hoa, hs⟩ := List.mem_filterMap.1 h
  · split_ifs at hs
    cases hs
    exact hoa
  · split_ifs at hs <;> cases hs <;> exact hoa

/-- An option that a string is taken for is spelled as the parser spells it. -/
theorem mem_optionStrings_of_parseOptional {o : Str} {e : Parser.Explicit}
    (h : p.parseOptional s = .ok (.option a o e)) : (o, a) ∈ p.optionStrings := by
  rw [Parser.parseOptional] at h
  split at h
  · cases h
  · split at h
    next b hb =>
      cases h
      exact mem_of_find?_eq_some hb
    next =>
      split at h
      · cases h
      · split at h
        next b v hb hv =>
          cases h
          exact mem_of_find?_eq_some hb
        next =>
          rw [Parser.parseAbbreviation] at h
          split at h
          · cases h
          next htuples =>
            cases h
            exact mem_optionStrings_of_optionTuples (htuples ▸ List.mem_singleton_self _)
          · split_ifs at h <;> cases h

theorem parseOptional_ne_dashes : p.parseOptional s ≠ .ok .dashes := by
  intro h
  rw [Parser.parseOptional] at h
  split at h
  · cases h
  · split at h
    · cases h
    · split at h
      · cases h
      · split at h
        · cases h
        · rw [Parser.parseAbbreviation] at h
          split at h
          · cases h
          · cases h
          · split_ifs at h <;> cases h

theorem cluster_of_takesValue (ha : a.takesValue = true) (o v : Str) (eq : Bool) :
    p.cluster a o eq v = .ok ⟨[.valued a v], none, []⟩ := by
  rw [Parser.cluster.eq_def]
  exact if_pos ha

/-- The head of a cluster is taken first. -/
theorem exists_taken_of_cluster {o v : Str} {eq : Bool} {k : Cluster}
    (h : p.cluster a o eq v = .ok k) (ha : a.takesValue = false) :
    (∃ occs, k.taken = .flag a :: occs) ∧ (o.drop 1).head? ≠ some '-' := by
  rw [Parser.cluster.eq_def] at h
  dsimp only at h
  rw [if_neg (by simp [ha])] at h
  split at h
  · cases h
  · split_ifs at h with hno
    rw [not_or] at hno
    refine ⟨?_, hno.1⟩
    split at h
    · cases h
      exact ⟨_, rfl⟩
    · cases h
      exact ⟨_, rfl⟩
    · obtain ⟨k, -, rfl⟩ := map_eq_ok h
      exact ⟨_, rfl⟩
    · obtain ⟨k, -, rfl⟩ := map_eq_ok h
      exact ⟨_, rfl⟩

/-- What a string gives that is an option, and not one that prints a help text: the
option, and its value if that is written behind it. -/
theorem consumeOptional_eq_ok (hp : Plain p) {o : Str} {e : Parser.Explicit} {k : Cluster}
    (h : p.parseOptional s = .ok (.option a o e)) (hk : p.consumeOptional a o e = .ok k)
    (hhelp : ¬k.taken.any (fun occ => occ.action.kind == .help) = true) :
    (e = none ∧ a.takesValue = false ∧ a.kind ≠ .help ∧ k = ⟨[.flag a], none, []⟩) ∨
    (e = none ∧ a.takesValue = true ∧ k = ⟨[], some a, []⟩) ∨
    ∃ eq v, e = some (eq, v) ∧ a.takesValue = true ∧ k = ⟨[.valued a v], none, []⟩ := by
  rcases e with _ | ⟨eq, v⟩
  · obtain rfl := Except.ok.inj hk
    by_cases ha : a.takesValue = true
    · exact .inr (.inl ⟨rfl, ha, if_pos ha⟩)
    · have hsingle : Cluster.single a = ⟨[.flag a], none, []⟩ := if_neg ha
      refine .inl ⟨rfl, Bool.not_eq_true _ ▸ ha, fun hkind => hhelp ?_, hsingle⟩
      rw [hsingle]
      simp [Occurrence.action, hkind]
  · change p.cluster a o eq v = .ok k at hk
    by_cases ha : a.takesValue = true
    · rw [cluster_of_takesValue ha] at hk
      cases hk
      exact .inr (.inr ⟨eq, v, rfl, ha, rfl⟩)
    · -- a cluster of single letters, headed by the one that prints a help text
      obtain ⟨⟨occs, hocc⟩, hshort⟩ := exists_taken_of_cluster hk (Bool.not_eq_true _ ▸ ha)
      have hkind : a.kind = .help :=
        (hp _ (mem_optionStrings_of_parseOptional h) hshort).resolve_left ha
      refine absurd ?_ hhelp
      rw [hocc]
      simp [Occurrence.action, hkind]

/-- Behind two dashes all strings are left over. -/
theorem scan_arguments (args : List Str) :
    p.scan none (args.map fun s => (s, .argument)) = .ok ([], args) := by
  induction args with
  | nil => rfl
  | cons s args ih =>
      rw [List.map_cons, Parser.scan, ih]
      · rfl
      · simp

theorem occurrences_dashes (args : List Str) :
    p.occurrences (['-', '-'] :: args) = .ok ([], ['-', '-'] :: args) := by
  rw [Parser.occurrences, Parser.classify, if_pos rfl]
  show p.scan none ((_, .dashes) :: _) = _
  rw [Parser.scan, scan_arguments]
  · rfl
  · simp

/-- A string that is no option is left over. -/
theorem occurrences_left (hs : s ≠ ['-', '-']) {token : Parser.Token}
    (h : p.parseOptional s = .ok token) (ht : token.IsLeft) (args : List Str) :
    p.occurrences (s :: args) = (p.occurrences args).map fun r => (r.1, s :: r.2) := by
  rw [occurrences_cons hs h, Parser.occurrences]
  cases p.classify args with
  | error e => rfl
  | ok ts =>
      show p.scan none ((s, token) :: ts) = (p.scan none ts).map _
      rw [Parser.scan]
      · cases p.scan none ts <;> rfl
      · rintro a o e rfl
        rcases ht with ht | ht <;> cases ht

theorem occurrences_of_reading (h : Reading p args occs extras) :
    p.occurrences args = .ok (occs, extras) := by
  induction h with
  | nil => rfl
  | dashes args => exact occurrences_dashes args
  | left hs h ht _ ih => rw [occurrences_left hs h ht, ih]; rfl
  | @flag s o a args occs extras hs h ha hk _ ih =>
      have hconsume : p.consumeOptional a o none = .ok ⟨[.flag a], none, []⟩ := by
        rw [Parser.consumeOptional, Cluster.single, if_neg (by simp [ha])]
      have hreads := reads_option hs h hconsume hk args
      rw [List.singleton_append] at hreads
      rw [hreads, ih]
      rfl
  | @explicit s o v eq a args occs extras hs h ha _ ih =>
      have hconsume : p.consumeOptional a o (some (eq, v)) = .ok ⟨[.valued a v], none, []⟩ := by
        rw [Parser.consumeOptional, cluster_of_takesValue ha]
      have hkind : a.kind ≠ .help := fun hk => by simp [Action.takesValue, hk] at ha
      have hreads := reads_option hs h hconsume hkind args
      rw [List.singleton_append] at hreads
      rw [hreads, ih]
      rfl
  | @value s o v a args occs extras hs h ha hv harg _ ih =>
      obtain ⟨ts, hts, hscan⟩ := bind_eq_ok ih
      have hclassify : p.classify (v :: args) = .ok ((v, .argument) :: ts) := by
        rw [Parser.classify, if_neg hv, harg, hts]
        rfl
      rw [occurrences_cons hs h, hclassify]
      show p.scan none ((s, .option a o none) :: (v, .argument) :: ts) = _
      rw [Parser.scan, Parser.consumeOptional, Cluster.single, if_pos ha]
      show ((p.scan (some a) _).bind _) = _
      rw [Parser.scan, hscan]
      rfl

/-- The loop, with and without an option that wants its value. -/
theorem reading_of_scan (hp : Plain p) {ts : List (Str × Parser.Token)}
    (hts : p.classify args = .ok ts) :
    (∀ occs extras, p.scan none ts = .ok (occs, extras) → Reading p args occs extras) ∧
    ∀ a occs extras, p.scan (some a) ts = .ok (occs, extras) →
      ∃ v rest occs', args = v :: rest ∧ v ≠ ['-', '-'] ∧ p.parseOptional v = .ok .argument ∧
        occs = .valued a v :: occs' ∧ Reading p rest occs' extras := by
  induction args generalizing ts with
  | nil =>
      cases hts
      constructor
      · intro occs extras h
        cases h
        exact .nil
      · intro a occs extras h
        cases h
  | cons s args ih =>
      by_cases hs : s = ['-', '-']
      · subst hs
        constructor
        · intro occs extras h
          have hocc : p.occurrences (['-', '-'] :: args) = .ok (occs, extras) := by
            rw [Parser.occurrences, hts]
            exact h
          rw [occurrences_dashes] at hocc
          cases hocc
          exact .dashes args
        · intro a occs extras h
          rw [Parser.classify, if_pos rfl] at hts
          cases hts
          cases h
      · rw [Parser.classify, if_neg hs] at hts
        obtain ⟨token, htoken, hts⟩ := bind_eq_ok hts
        obtain ⟨us, hus, hts⟩ := bind_eq_ok hts
        cases hts
        obtain ⟨ihNone, ihSome⟩ := ih hus
        constructor
        · intro occs extras h
          cases token with
          | argument =>
              rw [Parser.scan] at h
              · obtain ⟨⟨occs', extras'⟩, hscan, hr⟩ := bind_eq_ok h
                cases hr
                exact .left hs htoken (.inl rfl) (ihNone _ _ hscan)
              · simp
          | unknown =>
              rw [Parser.scan] at h
              · obtain ⟨⟨occs', extras'⟩, hscan, hr⟩ := bind_eq_ok h
                cases hr
                exact .left hs htoken (.inr rfl) (ihNone _ _ hscan)
              · simp
          | dashes => exact absurd htoken parseOptional_ne_dashes
          | option a o e =>
              rw [Parser.scan] at h
              obtain ⟨k, hk, h⟩ := bind_eq_ok h
              split_ifs at h with hhelp
              obtain ⟨⟨occs', extras'⟩, hscan, hr⟩ := bind_eq_ok h
              cases hr
              rcases consumeOptional_eq_ok hp htoken hk hhelp with
                ⟨rfl, ha, hkind, rfl⟩ | ⟨rfl, ha, rfl⟩ | ⟨eq, v, rfl, ha, rfl⟩
              · exact .flag hs htoken ha hkind (ihNone _ _ hscan)
              · obtain ⟨v, rest, occs'', rfl, hv, harg, rfl, hrest⟩ := ihSome _ _ _ hscan
                exact .value hs htoken ha hv harg hrest
              · exact .explicit hs htoken ha (ihNone _ _ hscan)
        · intro a occs extras h
          cases token with
          | argument =>
              rw [Parser.scan] at h
              obtain ⟨⟨occs', extras'⟩, hscan, hr⟩ := bind_eq_ok h
              cases hr
              exact ⟨s, args, occs', rfl, hs, htoken, rfl, ihNone _ _ hscan⟩
          | unknown => cases h
          | dashes => cases h
          | option b o e => cases h

/-- **The relation is what the parser computes.** -/
theorem reading_iff (hp : Plain p) :
    p.occurrences args = .ok (occs, extras) ↔ Reading p args occs extras := by
  constructor
  · intro h
    obtain ⟨ts, hts, hscan⟩ := bind_eq_ok h
    exact (reading_of_scan hp hts).1 _ _ hscan
  · exact occurrences_of_reading

/-! ### What is left over -/

/-- What is left over stands in the order of the command line. -/
theorem Reading.sublist (h : Reading p args occs extras) : extras.Sublist args := by
  induction h with
  | nil => exact .slnil
  | dashes args => exact .refl _
  | left hs h ht _ ih => exact ih.cons_cons _
  | flag hs h ha hk _ ih => exact ih.cons _
  | explicit hs h ha _ ih => exact ih.cons _
  | value hs h ha hv harg _ ih => exact (ih.cons _).cons _

/-- **What is left over holds no option** of the parser. -/
theorem Reading.again (h : Reading p args occs extras) : Reading p extras [] extras := by
  induction h with
  | nil => exact .nil
  | dashes args => exact .dashes args
  | left hs h ht _ ih => exact .left hs h ht ih
  | flag hs h ha hk _ ih => exact ih
  | explicit hs h ha _ ih => exact ih
  | value hs h ha hv harg _ ih => exact ih

/-! ### Fewer options -/

/-- The parser without some of its options. -/
def Parser.hide (p : Parser) (hidden : Action → Bool) : Parser :=
  ⟨p.actions.filter fun a => !hidden a, p.digit⟩

/-- **Options can be told apart from the hidden ones**: none is spelled like the
beginning of one of the others, or with an `=`. -/
def Apart (p : Parser) (hidden : Action → Bool) : Prop :=
  ∀ oa ∈ p.optionStrings, '=' ∉ oa.1 ∧
    ∀ ob ∈ p.optionStrings, hidden oa.2 ≠ hidden ob.2 → ¬oa.1 <+: ob.1

instance (p : Parser) (hidden : Action → Bool) : Decidable (Apart p hidden) :=
  inferInstanceAs (Decidable (∀ oa ∈ p.optionStrings, _ ∧ ∀ ob ∈ p.optionStrings, _ → _))

/-- What a string is for the parser without the hidden options. -/
def Parser.Token.HiddenAs (hidden : Action → Bool) (token token' : Parser.Token) : Prop :=
  match token with
  | .option a _ _ => if hidden a = true then token'.IsLeft else token' = token
  | .unknown => token'.IsLeft
  | _ => token' = token

section Hide

variable {hidden : Action → Bool} {token : Parser.Token}

theorem optionStrings_hide (p : Parser) (hidden : Action → Bool) :
    (p.hide hidden).optionStrings = p.optionStrings.filter fun oa => !hidden oa.2 := by
  show (p.actions.filter fun a => !hidden a).flatMap (fun a => a.optionStrings.map fun o => (o, a)) =
    (p.actions.flatMap fun a => a.optionStrings.map fun o => (o, a)).filter fun oa => !hidden oa.2
  induction p.actions with
  | nil => rfl
  | cons a as ih =>
      have hall : ∀ oa ∈ a.optionStrings.map (fun o => (o, a)), hidden oa.2 = hidden a := by
        intro oa hoa
        obtain ⟨o, -, rfl⟩ := List.mem_map.1 hoa
        rfl
      rw [List.flatMap_cons, List.filter_append, ← ih]
      cases ha : hidden a with
      | true =>
          have hnone : (a.optionStrings.map fun o => (o, a)).filter (fun oa => !hidden oa.2) = [] :=
            List.filter_eq_nil_iff.2 fun oa hoa => by simp [hall oa hoa, ha]
          rw [hnone, List.nil_append, List.filter_cons_of_neg (by simp [ha])]
      | false =>
          have hself : (a.optionStrings.map fun o => (o, a)).filter (fun oa => !hidden oa.2) =
              a.optionStrings.map fun o => (o, a) :=
            List.filter_eq_self.2 fun oa hoa => by rw [hall oa hoa, ha, Bool.not_false]
          rw [hself, List.filter_cons_of_pos (by simp [ha]), List.flatMap_cons]

theorem mem_optionStrings_hide {oa : Str × Action} :
    oa ∈ (p.hide hidden).optionStrings ↔ oa ∈ p.optionStrings ∧ hidden oa.2 = false := by
  rw [optionStrings_hide, List.mem_filter, Bool.not_eq_true']

theorem Plain.hide (hp : Plain p) (hidden : Action → Bool) : Plain (p.hide hidden) :=
  fun oa hoa => hp oa (mem_optionStrings_hide.1 hoa).1

theorem Apart.not (h : Apart p hidden) : Apart p fun a => !hidden a := by
  refine fun oa hoa => ⟨(h oa hoa).1, fun ob hob hne => (h oa hoa).2 ob hob fun heq => hne ?_⟩
  exact congrArg (! ·) heq

theorem find?_hide_none (hs : p.find? s = none) : (p.hide hidden).find? s = none := by
  rw [Parser.find?, List.lookup_eq_none_iff] at hs ⊢
  exact fun oa hoa => hs oa (mem_optionStrings_hide.1 hoa).1

theorem find?_hide_kept (hs : p.find? s = some a) (ha : hidden a = false) :
    (p.hide hidden).find? s = some a := by
  rw [Parser.find?, List.lookup_eq_some_iff] at hs ⊢
  obtain ⟨l₁, l₂, hl, hne⟩ := hs
  refine ⟨l₁.filter fun oa => !hidden oa.2, l₂.filter fun oa => !hidden oa.2, ?_, ?_⟩
  · rw [optionStrings_hide, hl, List.filter_append, List.filter_cons_of_pos (by simp [ha])]
  · exact fun oa hoa => hne oa (List.mem_filter.1 hoa).1

theorem find?_hide_hidden (h : Apart p hidden) (hs : p.find? s = some a) (ha : hidden a = true) :
    (p.hide hidden).find? s = none := by
  by_contra hsome
  obtain ⟨b, hb⟩ := Option.ne_none_iff_exists'.1 hsome
  obtain ⟨hmem, hkept⟩ := mem_optionStrings_hide.1 (mem_of_find?_eq_some hb)
  have hne : hidden a ≠ hidden b := by simp [ha, show hidden b = false from hkept]
  exact (h _ (mem_of_find?_eq_some hs)).2 _ hmem hne (List.prefix_refl _)

theorem filterMap_filter_of {α β : Type} {f : α → Option β} {keep : α → Bool} {keep' : β → Bool}
    (h : ∀ x y, f x = some y → keep' y = keep x) (l : List α) :
    (l.filter keep).filterMap f = (l.filterMap f).filter keep' := by
  induction l with
  | nil => rfl
  | cons x l ih =>
      rw [List.filter_cons, List.filterMap_cons]
      cases hx : f x with
      | none =>
          split_ifs
          · rw [List.filterMap_cons, hx, ih]
          · exact ih
      | some y =>
          rw [List.filter_cons, h x y hx]
          split_ifs
          · rw [List.filterMap_cons, hx, ih]
          · exact ih

/-- The options that a string can stand for are those that are left. -/
theorem optionTuples_hide (p : Parser) (hidden : Action → Bool) (s : Str) :
    (p.hide hidden).optionTuples s = (p.optionTuples s).filter fun t => !hidden t.1 := by
  rw [Parser.optionTuples, Parser.optionTuples, optionStrings_hide]
  split
  · refine filterMap_filter_of ?_ _
    rintro ⟨o, b⟩ t ht
    split_ifs at ht
    cases ht
    rfl
  · refine filterMap_filter_of ?_ _
    rintro ⟨o, b⟩ t ht
    split_ifs at ht <;> cases ht <;> rfl

theorem partition_prefix (c : Char) (s : Str) : (partition c s).1 <+: s := by
  induction s with
  | nil => exact List.prefix_refl _
  | cons d s ih =>
      rw [partition]
      split_ifs
      · exact List.nil_prefix
      · exact List.cons_prefix_cons.2 ⟨rfl, ih⟩

/-- A string spelled like a hidden option, be it with a value behind `=`, can stand for
no other one. -/
theorem optionTuples_hide_eq_nil (h : Apart p hidden)
    (hmem : ((partition '=' s).1, a) ∈ p.optionStrings) (ha : hidden a = true) :
    (p.hide hidden).optionTuples s = [] := by
  have hapart : ∀ ob ∈ (p.hide hidden).optionStrings,
      ¬(partition '=' s).1 <+: ob.1 ∧ ¬ob.1 <+: (partition '=' s).1 := by
    intro ob hob
    obtain ⟨hob, hkept⟩ := mem_optionStrings_hide.1 hob
    exact ⟨(h _ hmem).2 ob hob (by simp [ha, hkept]), (h ob hob).2 _ hmem (by simp [ha, hkept])⟩
  have hname := partition_prefix '=' s
  rw [Parser.optionTuples]
  split
  · exact List.filterMap_eq_nil_iff.2 fun ob hob => if_neg (hapart ob hob).1
  · refine List.filterMap_eq_nil_iff.2 fun ob hob => ?_
    obtain ⟨hne, hne'⟩ := hapart ob hob
    have htake : ob.1 ≠ s.take 2 := by
      intro htake
      rcases List.prefix_or_prefix_of_prefix hname (htake ▸ List.take_prefix 2 s) with hpre | hpre
      · exact hne hpre
      · exact hne' hpre
    have hpre : ¬s <+: ob.1 := fun hpre => hne (hname.trans hpre)
    rw [if_neg htake, if_neg hpre]

/-- A string that can stand for no option is left over. -/
theorem exists_parseAbbreviation (h : p.optionTuples s = []) :
    ∃ token, p.parseAbbreviation s = .ok token ∧ token.IsLeft := by
  rw [Parser.parseAbbreviation, h]
  dsimp only
  split_ifs
  · exact ⟨_, rfl, .inl rfl⟩
  · exact ⟨_, rfl, .inl rfl⟩
  · exact ⟨_, rfl, .inr rfl⟩

theorem parseAbbreviation_hide (hidden : Action → Bool)
    (hs : p.parseAbbreviation s = .ok token) :
    ∃ token', (p.hide hidden).parseAbbreviation s = .ok token' ∧
      token.HiddenAs hidden token' := by
  have htuples := optionTuples_hide p hidden s
  rw [Parser.parseAbbreviation] at hs
  split at hs
  · cases hs
  next b o e hp =>
    cases hs
    rw [hp] at htuples
    by_cases hb : hidden b = true
    · rw [List.filter_cons_of_neg (by simp [hb]), List.filter_nil] at htuples
      obtain ⟨token', htoken', hleft⟩ := exists_parseAbbreviation htuples
      exact ⟨token', htoken', by rw [Parser.Token.HiddenAs, if_pos hb]; exact hleft⟩
    · rw [List.filter_cons_of_pos (by simp [hb]), List.filter_nil] at htuples
      refine ⟨.option b o e, ?_, by rw [Parser.Token.HiddenAs, if_neg hb]⟩
      rw [Parser.parseAbbreviation, htuples]
  next hp =>
    rw [hp, List.filter_nil] at htuples
    have hnegative : (p.hide hidden).optionStrings.any (isNegativeNumber p.digit ·.1) = true →
        p.optionStrings.any (isNegativeNumber p.digit ·.1) = true := by
      rw [List.any_eq_true, List.any_eq_true]
      rintro ⟨oa, hoa, hneg⟩
      exact ⟨oa, (mem_optionStrings_hide.1 hoa).1, hneg⟩
    rw [Parser.parseAbbreviation, htuples]
    dsimp only
    split_ifs at hs with hn hb
    · -- a negative number
      cases hs
      rw [Bool.and_eq_true, Bool.not_eq_true'] at hn
      have hq : (p.hide hidden).optionStrings.any (isNegativeNumber p.digit ·.1) = false :=
        Bool.eq_false_iff.2 fun hq => Bool.eq_false_iff.1 hn.2 (hnegative hq)
      refine ⟨.argument, if_pos ?_, rfl⟩
      rw [Bool.and_eq_true, Bool.not_eq_true']
      exact ⟨hn.1, hq⟩
    · -- a blank
      cases hs
      refine ⟨.argument, ?_, rfl⟩
      split_ifs
      · rfl
      · rfl
    · cases hs
      split_ifs
      · exact ⟨_, rfl, .inl rfl⟩
      · exact ⟨_, rfl, .inr rfl⟩

/-- **What a string is** for the parser without the hidden options. -/
theorem parseOptional_hide (h : Apart p hidden) (hs : p.parseOptional s = .ok token) :
    ∃ token', (p.hide hidden).parseOptional s = .ok token' ∧ token.HiddenAs hidden token' := by
  rw [Parser.parseOptional] at hs
  by_cases hdash : s.head? = some '-'
  · rw [if_neg (not_not_intro hdash)] at hs
    have hleft : ∀ {b : Action}, ((partition '=' s).1, b) ∈ p.optionStrings → hidden b = true →
        (p.hide hidden).find? s = none →
        ((p.hide hidden).find? (partition '=' s).1 = none ∨ (partition '=' s).2 = none) →
        ∃ token', (p.hide hidden).parseOptional s = .ok token' ∧ token'.IsLeft := by
      intro b hb hhid hnone hname
      obtain ⟨token', htoken', hl⟩ := exists_parseAbbreviation (optionTuples_hide_eq_nil h hb hhid)
      rw [Parser.parseOptional, if_neg (not_not_intro hdash), hnone]
      dsimp only
      split_ifs
      · exact ⟨_, rfl, .inl rfl⟩
      · split
        next b v hb' hv =>
          rcases hname with hn | hn
          · rw [hn] at hb'
            cases hb'
          · rw [hn] at hv
            cases hv
        next => exact ⟨token', htoken', hl⟩
    cases hfind : p.find? s with
    | some b =>
        rw [hfind] at hs
        cases hs
        by_cases hb : hidden b = true
        · have hmem := mem_of_find?_eq_some hfind
          have hpart := partition_of_not_mem (h _ hmem).1
          obtain ⟨token', htoken', hl⟩ := hleft (by rw [hpart]; exact hmem) hb
            (find?_hide_hidden h hfind hb) (.inr (by rw [hpart]))
          exact ⟨token', htoken', by rw [Parser.Token.HiddenAs, if_pos hb]; exact hl⟩
        · refine ⟨.option b s none, ?_, by rw [Parser.Token.HiddenAs, if_neg hb]⟩
          exact parseOptional_of_find? (find?_hide_kept hfind (Bool.not_eq_true _ ▸ hb)) hdash
    | none =>
        rw [hfind] at hs
        have hqfind : (p.hide hidden).find? s = none := find?_hide_none hfind
        dsimp only at hs
        split_ifs at hs with hlen
        · cases hs
          refine ⟨.argument, ?_, rfl⟩
          rw [Parser.parseOptional, if_neg (not_not_intro hdash), hqfind]
          exact if_pos hlen
        · split at hs
          next b v hb hv =>
            cases hs
            by_cases hhid : hidden b = true
            · obtain ⟨token', htoken', hl⟩ := hleft (mem_of_find?_eq_some hb) hhid hqfind
                (.inl (find?_hide_hidden h hb hhid))
              exact ⟨token', htoken', by rw [Parser.Token.HiddenAs, if_pos hhid]; exact hl⟩
            · refine ⟨.option b (partition '=' s).1 (some (true, v)), ?_,
                by rw [Parser.Token.HiddenAs, if_neg hhid]⟩
              rw [Parser.parseOptional, if_neg (not_not_intro hdash), hqfind]
              dsimp only
              rw [if_neg hlen, find?_hide_kept hb (Bool.not_eq_true _ ▸ hhid), hv]
          next hno =>
            obtain ⟨token', htoken', hhid⟩ := parseAbbreviation_hide hidden hs
            refine ⟨token', ?_, hhid⟩
            rw [Parser.parseOptional, if_neg (not_not_intro hdash), hqfind]
            dsimp only
            rw [if_neg hlen]
            split
            next b v hb hv =>
              obtain ⟨hmem, -⟩ := mem_optionStrings_hide.1 (mem_of_find?_eq_some hb)
              cases hname : p.find? (partition '=' s).1 with
              | none =>
                  rw [find?_hide_none hname] at hb
                  cases hb
              | some b' => exact absurd hv (hno b' v hname)
            next => exact htoken'
  · rw [if_pos hdash] at hs
    cases hs
    exact ⟨.argument, by rw [Parser.parseOptional, if_pos hdash], rfl⟩

/-- **Parsing in two steps.**  The parser without some options that take values takes
the others, and the parser that knows only those takes them from what is left over. -/
theorem Reading.hide (h : Apart p hidden) (hvalue : ∀ a ∈ p.actions, hidden a = true →
    a.takesValue = true) (hr : Reading p args occs extras) :
    ∃ extras', Reading (p.hide hidden) args (occs.filter fun o => !hidden o.action) extras' ∧
      Reading (p.hide fun a => !hidden a) extras' (occs.filter fun o => hidden o.action) extras := by
  induction hr with
  | nil => exact ⟨[], .nil, .nil⟩
  | dashes args => exact ⟨_, .dashes args, .dashes args⟩
  | @left s token args occs extras hs htoken ht _ ih =>
      obtain ⟨extras', hread, hread'⟩ := ih
      have hleft : ∀ {token'} {hid : Action → Bool}, token.HiddenAs hid token' → token'.IsLeft := by
        intro token' hid hhid
        rcases ht with rfl | rfl
        · exact .inl hhid
        · exact hhid
      obtain ⟨token₁, htoken₁, hhid₁⟩ := parseOptional_hide h htoken
      obtain ⟨token₂, htoken₂, hhid₂⟩ := parseOptional_hide h.not htoken
      exact ⟨s :: extras', .left hs htoken₁ (hleft hhid₁) hread,
        .left hs htoken₂ (hleft hhid₂) hread'⟩
  | @flag s o a args occs extras hs htoken ha hk _ ih =>
      obtain ⟨extras', hread, hread'⟩ := ih
      obtain ⟨token', htoken', hhid⟩ := parseOptional_hide h htoken
      have hkept : hidden a = false := by
        by_contra hne
        have hv := hvalue a (mem_of_parseOptional htoken) (Bool.not_eq_false _ ▸ hne)
        rw [ha] at hv
        cases hv
      rw [Parser.Token.HiddenAs, if_neg (by simp [hkept])] at hhid
      rw [List.filter_cons_of_pos (by simp [Occurrence.action, hkept]),
        List.filter_cons_of_neg (by simp [Occurrence.action, hkept])]
      exact ⟨extras', .flag hs (hhid ▸ htoken') ha hk hread, hread'⟩
  | @explicit s o v eq a args occs extras hs htoken ha _ ih =>
      obtain ⟨extras', hread, hread'⟩ := ih
      obtain ⟨token₁, htoken₁, hhid₁⟩ := parseOptional_hide h htoken
      obtain ⟨token₂, htoken₂, hhid₂⟩ := parseOptional_hide h.not htoken
      cases hb : hidden a with
      | true =>
          rw [Parser.Token.HiddenAs, if_pos hb] at hhid₁
          rw [Parser.Token.HiddenAs, if_neg (by simp [hb])] at hhid₂
          rw [List.filter_cons_of_neg (by simp [Occurrence.action, hb]),
            List.filter_cons_of_pos (by simp [Occurrence.action, hb])]
          exact ⟨s :: extras', .left hs htoken₁ hhid₁ hread,
            .explicit hs (hhid₂ ▸ htoken₂) ha hread'⟩
      | false =>
          rw [Parser.Token.HiddenAs, if_neg (by simp [hb])] at hhid₁
          rw [List.filter_cons_of_pos (by simp [Occurrence.action, hb]),
            List.filter_cons_of_neg (by simp [Occurrence.action, hb])]
          exact ⟨extras', .explicit hs (hhid₁ ▸ htoken₁) ha hread, hread'⟩
  | @value s o v a args occs extras hs htoken ha hv harg _ ih =>
      obtain ⟨extras', hread, hread'⟩ := ih
      obtain ⟨token₁, htoken₁, hhid₁⟩ := parseOptional_hide h htoken
      obtain ⟨token₂, htoken₂, hhid₂⟩ := parseOptional_hide h.not htoken
      -- the value is no option, whatever is hidden
      obtain ⟨_, harg₁, rfl⟩ := parseOptional_hide h harg
      obtain ⟨_, harg₂, rfl⟩ := parseOptional_hide h.not harg
      cases hb : hidden a with
      | true =>
          rw [Parser.Token.HiddenAs, if_pos hb] at hhid₁
          rw [Parser.Token.HiddenAs, if_neg (by simp [hb])] at hhid₂
          rw [List.filter_cons_of_neg (by simp [Occurrence.action, hb]),
            List.filter_cons_of_pos (by simp [Occurrence.action, hb])]
          exact ⟨s :: v :: extras', .left hs htoken₁ hhid₁ (.left hv harg₁ (.inl rfl) hread),
            .value hs (hhid₂ ▸ htoken₂) ha hv harg₂ hread'⟩
      | false =>
          rw [Parser.Token.HiddenAs, if_neg (by simp [hb])] at hhid₁
          rw [List.filter_cons_of_pos (by simp [Occurrence.action, hb]),
            List.filter_cons_of_neg (by simp [Occurrence.action, hb])]
          exact ⟨extras', .value hs (hhid₁ ▸ htoken₁) ha hv harg₁ hread, hread'⟩

end Hide

/-! ### An argument at the end -/

theorem classify_concat {v : Str} (hv : v ≠ ['-', '-']) (harg : p.parseOptional v = .ok .argument)
    {ts : List (Str × Parser.Token)} (h : p.classify args = .ok ts) :
    p.classify (args ++ [v]) = .ok (ts ++ [(v, .argument)]) := by
  induction args generalizing ts with
  | nil =>
      cases h
      rw [List.nil_append, Parser.classify, if_neg hv, harg]
      rfl
  | cons s args ih =>
      rw [Parser.classify] at h
      rw [List.cons_append, Parser.classify]
      split_ifs at h ⊢
      · cases h
        simp
      · obtain ⟨token, htoken, h⟩ := bind_eq_ok h
        obtain ⟨us, hus, h⟩ := bind_eq_ok h
        cases h
        rw [htoken, ih hus]
        rfl

theorem scan_concat {w : Option Action} {ts : List (Str × Parser.Token)}
    {r : List Occurrence × List Str} (h : p.scan w ts = .ok r) (v : Str) :
    p.scan w (ts ++ [(v, .argument)]) = .ok (r.1, r.2 ++ [v]) := by
  fun_induction p.scan w ts generalizing r with
  | case1 =>
      cases h
      rfl
  | case2 a => cases h
  | case3 a u ts ih =>
      obtain ⟨r', hscan, hr⟩ := bind_eq_ok h
      cases hr
      rw [List.cons_append, Parser.scan, ih hscan]
      rfl
  | case4 a t ts hne => cases h
  | case5 s a o e ts ih =>
      obtain ⟨k, hk, h⟩ := bind_eq_ok h
      split_ifs at h with hhelp
      obtain ⟨r', hscan, hr⟩ := bind_eq_ok h
      cases hr
      rw [List.cons_append, Parser.scan, hk]
      show (if _ then _ else _) = _
      rw [if_neg hhelp, ih k hscan]
      show Except.ok (k.taken ++ r'.1, k.extras ++ (r'.2 ++ [v])) =
        .ok (k.taken ++ r'.1, (k.extras ++ r'.2) ++ [v])
      rw [List.append_assoc]
  | case6 s t ts hne ih =>
      obtain ⟨r', hscan, hr⟩ := bind_eq_ok h
      cases hr
      rw [List.cons_append, Parser.scan, ih hscan]
      · rfl
      · exact hne

/-- **An argument at the end** is left over, if no option in front of it wants a value. -/
theorem occurrences_concat {v : Str} (hv : v ≠ ['-', '-'])
    (harg : p.parseOptional v = .ok .argument) (h : p.occurrences args = .ok (occs, extras)) :
    p.occurrences (args ++ [v]) = .ok (occs, extras ++ [v]) := by
  obtain ⟨ts, hts, hscan⟩ := bind_eq_ok h
  rw [Parser.occurrences, classify_concat hv harg hts]
  exact scan_concat hscan v

/-- What is given does not depend on it. -/
theorem given_concat {v d : Str} (hv : v ≠ ['-', '-']) (harg : p.parseOptional v = .ok .argument)
    (h : p.occurrences args = .ok (occs, extras)) : given p (args ++ [v]) d = given p args d := by
  rw [given, given, h, occurrences_concat hv harg h]

end Argparse
end WorkerNg
