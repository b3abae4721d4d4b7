/-
# Which options survive

The two schedulers' options, turned back into a command line, piece by piece: one
piece for each attribute that is set.  A piece is read as the option it was made
of, or the parser sticks at it, or, with Slurm and a value that begins with a
dash, it is read as the option with another value.

If all pieces are read, the namespace holds what they say
(`get?_of_written`).  So the options survive exactly if every attribute is
regenerated (`survives_iff`).
-/

import WorkerNg.Options.Regenerate
import WorkerNg.Resume.TimeStamps

namespace WorkerNg
namespace Options

open Argparse Resume

variable {p : Parser} {tb : CharTable} {sch : Scheduler} {newArgs oldArgs args : List Str}
  {ns ns' : Namespace} {act : Action} {d : Str} {v : Value}

/-! ### What the pieces say -/

/-- What an attribute should be read as. -/
def written (actions : List Action) (kv : Str × Value) : List Occurrence :=
  match actions.find? (fun a => decide (a.dest = kv.1)), kv.2 with
  | some a, .bool true => [.flag a]
  | some a, .str s => [.valued a s]
  | some a, .list l => [.valued a ([','].intercalate l)]
  | _, _ => []

/-- What is stored of a value that was read back. -/
def back : Value → Value
  | .list l => .list [[','].intercalate l]
  | v => v

theorem find?_dest {actions : List Action} (h : Distinct actions) (ha : act ∈ actions) :
    actions.find? (fun a => decide (a.dest = act.dest)) = some act := by
  cases hfind : actions.find? (fun a => decide (a.dest = act.dest)) with
  | none => simpa using List.find?_eq_none.1 hfind act ha
  | some a =>
      have hd := List.find?_some hfind
      rw [h.eq (List.mem_of_find?_eq_some hfind) ha (of_decide_eq_true hd)]

theorem dest_of_mem_written {actions : List Action} {o : Occurrence}
    (h : o ∈ written actions (d, v)) : o.action.dest = d := by
  rw [written] at h
  split at h
  any_goals exact absurd h List.not_mem_nil
  all_goals
    have hd := List.find?_some ‹actions.find? _ = some _›
    obtain rfl := List.mem_singleton.1 h
    exact of_decide_eq_true hd

/-- Among entries with distinct keys, only one is about a name. -/
theorem ofDest_flatMap {es : List (Str × Value)} (hn : (es.map Prod.fst).Nodup)
    {f : Str × Value → List Occurrence} (hf : ∀ kv, ∀ o ∈ f kv, o.action.dest = kv.1)
    (hm : (d, v) ∈ es) : ofDest d (es.flatMap f) = f (d, v) := by
  have hself : (f (d, v)).filter (fun o => decide (o.action.dest = d)) = f (d, v) :=
    List.filter_eq_self.2 fun o ho => decide_eq_true (hf _ o ho)
  have hother : ∀ kv, kv.1 ≠ d → (f kv).filter (fun o => decide (o.action.dest = d)) = [] := by
    intro kv hne
    refine List.filter_eq_nil_iff.2 fun o ho => ?_
    rw [hf _ o ho]
    simpa using hne
  rw [ofDest, List.filter_flatMap]
  induction es with
  | nil => cases hm
  | cons kv es ih =>
      rw [List.map_cons, List.nodup_cons] at hn
      rw [List.flatMap_cons]
      rcases List.mem_cons.1 hm with rfl | hm
      · have hnil : es.flatMap (fun kv => (f kv).filter fun o => decide (o.action.dest = d)) = [] :=
          List.flatMap_eq_nil_iff.2 fun kv hkv => hother kv fun he =>
            hn.1 (List.mem_map.2 ⟨kv, hkv, he⟩)
        rw [hself, hnil, List.append_nil]
      · have hne : kv.1 ≠ d := fun he => hn.1 (List.mem_map.2 ⟨_, hm, he.symm⟩)
        rw [hother kv hne, ih hn.2 hm, List.nil_append]

/-- The default of an option that stores or appends. -/
theorem get?_addDefaults_empty (hp : Distinct p.actions) (ha : act ∈ p.actions)
    (hk : act.kind ≠ .help) :
    (p.addDefaults Dict.empty).get? act.dest = some (act.default.getD .none) := by
  rw [get?_addDefaults, Dict.get?_empty, Option.none_or]
  refine default?_eq (fun x hx hd => ?_) ⟨act, ha, rfl⟩
  rw [hp.eq hx ha hd]
  rw [Action.default]
  split <;> first | rfl | contradiction

/-- **What is read back**: the namespace holds for every option what its piece says. -/
theorem get?_of_written (hp : Distinct p.actions) {r : Value → Value}
    (h : parseKnownArgs p args Dict.empty = .ok (ns', []))
    (hocc : p.occurrences args =
      .ok (ns.entries.flatMap fun kv => written p.actions (kv.1, r kv.2), []))
    (ha : act ∈ p.actions) (hv : ns.get? act.dest = some v) (hfits : Fits act (r v)) :
    ns'.get? act.dest = some (back (r v)) := by
  obtain ⟨occs, hocc', rfl⟩ := parseKnownArgs_eq_ok h
  rw [hocc] at hocc'
  obtain ⟨rfl, -⟩ := Prod.mk.inj (Except.ok.inj hocc')
  have hof : ofDest act.dest (ns.entries.flatMap fun kv => written p.actions (kv.1, r kv.2)) =
      written p.actions (act.dest, r v) :=
    ofDest_flatMap (f := fun kv => written p.actions (kv.1, r kv.2)) ns.nodup
      (fun kv o ho => dest_of_mem_written ho) (Dict.mem_entries.2 hv)
  have hmem : ∀ o ∈ ns.entries.flatMap fun kv => written p.actions (kv.1, r kv.2),
      o.action.dest = act.dest → o.action = act := fun o ho hd =>
    hp.eq (takes_of_occurrences hocc o ho).1.mem ha hd
  have hwritten := find?_dest hp ha
  generalize r v = w at hof hfits ⊢
  rw [Fits] at hfits
  split at hfits
  · rename_i hk
    have hdef := get?_addDefaults_empty hp ha (by simp [hk])
    rw [get?_foldl_take (fun o ho hd => by simp [hmem o ho hd, hk]), lastStored, hof, hdef, written,
      hwritten]
    rcases hfits with rfl | ⟨s, rfl⟩
    · simp [Action.default, hk, back]
    · simp [Occurrence.stored, back]
  · rename_i hk
    have hdef := get?_addDefaults_empty hp ha (by simp [hk])
    rw [get?_foldl_take (fun o ho hd => by simp [hmem o ho hd, hk]), lastStored, hof, hdef, written,
      hwritten]
    obtain ⟨x, rfl⟩ := hfits
    cases x
    · simp [Action.default, hk, back]
    · simp [Occurrence.stored, back]
  · rename_i hk
    have hdef := get?_addDefaults_empty hp ha (by simp [hk])
    have htakes : ∀ o ∈ ns.entries.flatMap fun kv => written p.actions (kv.1, r kv.2),
        o.action.dest = act.dest → o.action.kind = .append ∧ o.value?.isSome := by
      intro o ho hd
      have hvalue := (takes_of_occurrences hocc o ho).1.value
      rw [hmem o ho hd] at hvalue ⊢
      exact ⟨hk, by rw [hvalue, Action.takesValue, hk]⟩
    rw [get?_foldl_take_append (l := []) htakes (by simpa [Action.default, hk] using hdef), collected,
      hof, written, hwritten]
    rcases hfits with rfl | ⟨l, hl, rfl⟩
    · simp [back]
    · simp [Occurrence.value?, back]
  · exact hfits.elim

/-! ### Slurm -/

namespace Slurm

/-- A value as it stands in the preprocessed command line. -/
def regenerated : Value → Value
  | .str s => if s.head? = some '-' then .str ('-' :: s) else .str s
  | v => v

/-- The arguments for an attribute, after preprocessing. -/
def piece (kv : Str × Value) : List Str :=
  match kv.2 with
  | .bool true => ['-' :: '-' :: kv.1]
  | .str s =>
      if s.head? = some '-' then ['-' :: '-' :: kv.1, '-' :: s]
      else ['-' :: '-' :: kv.1 ++ '=' :: s]
  | _ => []

theorem piece_str (k s : Str) : piece (k, .str s) =
    if s.head? = some '-' then ['-' :: '-' :: k, '-' :: s]
    else ['-' :: '-' :: k ++ '=' :: s] := rfl

/-- Arguments that begin with an option, if there are any. -/
def StartsOption (args : List Str) : Prop := ∀ s ∈ args.head?, s.head? = some '-'

theorem startsOption_flatMap (es : List (Str × Value)) : StartsOption (es.flatMap dictItem) := by
  induction es with
  | nil => exact nofun
  | cons kv es ih =>
      rw [List.flatMap_cons, dictItem]
      split
      · exact ih
      · exact ih
      all_goals
        rintro s hs
        obtain rfl := Option.some.inj hs
        rfl

theorem preprocess_cons {k : Str} {rest : List Str} (h : StartsOption rest) :
    preprocessCliOptions (('-' :: k) :: rest) = ('-' :: '-' :: k) :: preprocessCliOptions rest := by
  cases rest with
  | nil => rfl
  | cons next rest =>
      have hnext : next.head? = some '-' := h next rfl
      rw [preprocessCliOptions, if_pos List.head?_cons, if_neg (not_not_intro hnext)]

theorem preprocess_append {kv : Str × Value} (hkv : ∀ l, kv.2 ≠ .list l) {rest : List Str}
    (h : StartsOption rest) :
    preprocessCliOptions (dictItem kv ++ rest) = piece kv ++ preprocessCliOptions rest := by
  obtain ⟨k, v⟩ := kv
  cases v with
  | none => rfl
  | bool b =>
      cases b
      · rfl
      · exact preprocess_cons h
  | list l => exact absurd rfl (hkv l)
  | str s =>
      by_cases hs : s.head? = some '-'
      · -- a value that looks like an option becomes one
        obtain ⟨t, rfl⟩ := List.head?_eq_some_iff.1 hs
        show preprocessCliOptions (('-' :: k) :: ('-' :: t) :: rest) = _
        rw [preprocess_cons (by rintro u hu; cases hu; rfl), preprocess_cons h]
        rfl
      · show preprocessCliOptions (('-' :: k) :: s :: rest) = _
        rw [preprocessCliOptions, if_pos List.head?_cons, if_pos hs, piece_str, if_neg hs]
        rfl

theorem preprocess_flatMap {es : List (Str × Value)} (h : ∀ kv ∈ es, ∀ l, kv.2 ≠ .list l) :
    preprocessCliOptions (es.flatMap dictItem) = es.flatMap piece := by
  induction es with
  | nil => rfl
  | cons kv es ih =>
      rw [List.forall_mem_cons] at h
      rw [List.flatMap_cons, List.flatMap_cons, preprocess_append h.1 (startsOption_flatMap es),
        ih h.2]

/-- What the tables say about an option. -/
structure Regular (a : Action) : Prop where
  ne_nil : a.dest ≠ []
  no_eq : '=' ∉ a.dest
  /-- Without an underscore, the name of the attribute is the long option. -/
  long : '_' ∉ a.dest → (Scheduler.slurm.allParser asciiTable).find? ('-' :: '-' :: a.dest) = some a
  /-- With an underscore, no option begins like this. -/
  underscore : '_' ∈ a.dest → ∀ oa ∈ (Scheduler.slurm.allParser asciiTable).optionStrings,
    ¬('-' :: '-' :: a.dest) <+: oa.1

instance (a : Action) : Decidable (Regular a) :=
  decidable_of_iff (a.dest ≠ [] ∧ '=' ∉ a.dest ∧
    ('_' ∉ a.dest →
      (Scheduler.slurm.allParser asciiTable).find? ('-' :: '-' :: a.dest) = some a) ∧
    ('_' ∈ a.dest → ∀ oa ∈ (Scheduler.slurm.allParser asciiTable).optionStrings,
      ¬('-' :: '-' :: a.dest) <+: oa.1))
    ⟨fun ⟨h₁, h₂, h₃, h₄⟩ => ⟨h₁, h₂, h₃, h₄⟩, fun ⟨h₁, h₂, h₃, h₄⟩ => ⟨h₁, h₂, h₃, h₄⟩⟩

/-- The tables, evaluated once. -/
theorem regular_tables : (∀ a ∈ Scheduler.slurm.actions, Regular a) ∧
    (∀ oa ∈ (Scheduler.slurm.allParser asciiTable).optionStrings, '=' ∉ oa.1) ∧
    Distinct Scheduler.slurm.actions := by decide +kernel

theorem regular : ∀ a ∈ Scheduler.slurm.actions, Regular a := regular_tables.1

theorem no_eq_optionStrings :
    ∀ oa ∈ (Scheduler.slurm.allParser asciiTable).optionStrings, '=' ∉ oa.1 := regular_tables.2.1

theorem distinct_actions : Distinct Scheduler.slurm.actions := regular_tables.2.2

/-- No option has a value in it. -/
theorem find?_explicit (n s : Str) :
    (Scheduler.slurm.allParser tb).find? (n ++ '=' :: s) = none := by
  by_contra hsome
  obtain ⟨a, ha⟩ := Option.ne_none_iff_exists'.1 hsome
  exact no_eq_optionStrings _ (mem_of_find?_eq_some ha) (by simp)

theorem takesValue_of_store (hk : act.kind = .store) : act.takesValue = true := by
  rw [Action.takesValue, hk]

/-- The values that Slurm's options can have. -/
theorem value_cases (ha : act ∈ Scheduler.slurm.actions) (hfits : Fits act v) :
    v = .none ∨ v = .bool false ∨ (act.kind = .storeTrue ∧ v = .bool true) ∨
      act.kind = .store ∧ ∃ s, v = .str s := by
  have hkind : act.kind = .store ∨ act.kind = .storeTrue := by
    rcases List.mem_append.1 ha with ha | ha
    · exact kind_of_mem ha
    · exact kind_of_mem ha
  rw [Fits] at hfits
  rcases hkind with hk | hk
  · rw [hk] at hfits
    rcases hfits with rfl | hs
    · exact Or.inl rfl
    · exact Or.inr (Or.inr (Or.inr ⟨hk, hs⟩))
  · rw [hk] at hfits
    obtain ⟨b, rfl⟩ := hfits
    cases b
    · exact Or.inr (Or.inl rfl)
    · exact Or.inr (Or.inr (Or.inl ⟨hk, rfl⟩))

/-- A string that only looks like the long option. -/
theorem sticks_long (ha : act ∈ Scheduler.slurm.actions) (hu : '_' ∈ act.dest) {t : Str}
    (ht : t = [] ∨ ∃ s, t = '=' :: s) (more : List Str) :
    Sticks (Scheduler.slurm.allParser tb) (('-' :: '-' :: act.dest ++ t) :: more) := by
  have hr := regular act ha
  have hno : '=' ∉ '-' :: '-' :: act.dest := by simp [hr.no_eq]
  have hpart : (partition '=' ('-' :: '-' :: act.dest ++ t)).1 = '-' :: '-' :: act.dest := by
    rcases ht with rfl | ⟨s, rfl⟩
    · rw [List.append_nil, partition_of_not_mem hno]
    · rw [partition_append_cons hno]
  exact sticks_unknown (by simp [hr.ne_nil])
    (parseOptional_unknown (p := Scheduler.slurm.allParser tb) (hr.underscore hu) hpart) more

variable (tb) in
/-- **An option with an inner dash** comes back under a name that no table has. -/
theorem sticks_piece (ha : act ∈ Scheduler.slurm.actions) (hu : '_' ∈ act.dest)
    (hv : v = .bool true ∨ ∃ s, v = .str s) :
    Sticks (Scheduler.slurm.allParser tb) (piece (act.dest, v)) := by
  have hname : '-' :: '-' :: act.dest = '-' :: '-' :: act.dest ++ [] := (List.append_nil _).symm
  rcases hv with rfl | ⟨s, rfl⟩
  · show Sticks _ ['-' :: '-' :: act.dest]
    rw [hname]
    exact sticks_long ha hu (Or.inl rfl) _
  · rw [piece_str]
    split_ifs with hs
    · rw [hname]
      exact sticks_long ha hu (Or.inl rfl) _
    · exact sticks_long ha hu (Or.inr ⟨s, rfl⟩) _

variable (tb) in
/-- **An option without an inner dash** is read back if its value does not begin with
a dash. -/
theorem reads_long (ha : act ∈ Scheduler.slurm.actions) (hu : '_' ∉ act.dest) (hfits : Fits act v)
    (hs : ∀ s, v = .str s → s.head? ≠ some '-') :
    Reads (Scheduler.slurm.allParser tb) (piece (act.dest, v))
      (written Scheduler.slurm.actions (act.dest, v)) := by
  have hr := regular act ha
  have hfind := hr.long hu
  have hno : '=' ∉ '-' :: '-' :: act.dest := by simp [hr.no_eq]
  have hwritten := find?_dest distinct_actions ha
  rw [written, hwritten]
  rcases value_cases ha hfits with rfl | rfl | ⟨hk, rfl⟩ | ⟨hk, s, rfl⟩
  · exact reads_nil
  · exact reads_nil
  · exact reads_flag hfind rfl (by simp [hr.ne_nil]) hk
  · rw [piece_str, if_neg (hs s rfl)]
    exact reads_explicit hfind hno rfl (find?_explicit _ _) (takesValue_of_store hk)

/-- A value that begins with a dash gets another one. -/
theorem reads_or_sticks_dash (ha : act ∈ Scheduler.slurm.actions) (hu : '_' ∉ act.dest)
    (hk : act.kind = .store) {s : Str} (hs : s.head? = some '-') :
    Reads (Scheduler.slurm.allParser tb) (piece (act.dest, .str s))
        (written Scheduler.slurm.actions (act.dest, .str ('-' :: s))) ∨
      Sticks (Scheduler.slurm.allParser tb) (piece (act.dest, .str s)) := by
  have hr := regular act ha
  have hfind := hr.long hu
  have hne : '-' :: '-' :: act.dest ≠ ['-', '-'] := by simp [hr.ne_nil]
  rw [piece_str, if_pos hs, written, find?_dest distinct_actions ha]
  by_cases harg : '-' :: s ≠ ['-', '-'] ∧
      (Scheduler.slurm.allParser tb).parseOptional ('-' :: s) = .ok .argument
  · exact Or.inl (reads_value hfind rfl hne (takesValue_of_store hk) harg.1 harg.2)
  · exact Or.inr (sticks_value hfind rfl hne (takesValue_of_store hk) harg)

end Slurm

/-! ### PBS torque -/

namespace PbsTorque

/-- **A value that `argparse` takes for an argument**: it does not begin with a dash,
or is nothing but a dash, or its second character is no option and it is a negative
number or has a blank in it. -/
def TakenAsArgument (tb : CharTable) (s : Str) : Prop :=
  s.head? = some '-' → s = ['-'] ∨
    (∀ a ∈ Scheduler.pbsTorque.actions, a.dest ≠ (s.drop 1).take 1) ∧
      (isNegativeNumber (digit tb) s = true ∨ ' ' ∈ s)

/-- The value of an attribute, as text. -/
def text? : Value → Option Str
  | .str s => some s
  | .list l => some ([','].intercalate l)
  | _ => none

/-- An option that is one letter. -/
structure Short (a : Action) : Prop where
  optionStrings : a.optionStrings = ['-' :: a.dest]
  length : a.dest.length = 1
  letter : ∀ c ∈ a.dest, (c.toNat < 128 ∧ c.isDigit = false) ∧ c ≠ '-' ∧ c ≠ '.' ∧ c ≠ '\n'

instance (a : Action) : Decidable (Short a) :=
  decidable_of_iff (a.optionStrings = ['-' :: a.dest] ∧ a.dest.length = 1 ∧
    a.dest.all (fun c => decide ((c.toNat < 128 ∧ c.isDigit = false) ∧ c ≠ '-' ∧ c ≠ '.' ∧
      c ≠ '\n')) = true)
    ⟨fun ⟨h₁, h₂, h₃⟩ => ⟨h₁, h₂, fun c hc => of_decide_eq_true (List.all_eq_true.1 h₃ c hc)⟩,
      fun ⟨h₁, h₂, h₃⟩ => ⟨h₁, h₂, List.all_eq_true.2 fun c hc => decide_eq_true (h₃ c hc)⟩⟩

theorem short : ∀ a ∈ Scheduler.pbsTorque.actions, Short a := by decide +kernel

theorem Short.dest_eq (h : Short act) : ∃ c, act.dest = [c] := List.length_eq_one_iff.1 h.length

theorem distinct_actions : Distinct Scheduler.pbsTorque.actions := by decide +kernel

variable (tb) in
theorem find?_option (ha : act ∈ Scheduler.pbsTorque.actions) :
    (Scheduler.pbsTorque.allParser tb).find? ('-' :: act.dest) = some act := by
  have key : ∀ a ∈ Scheduler.pbsTorque.actions,
      (Scheduler.pbsTorque.allParser asciiTable).find? ('-' :: a.dest) = some a := by
    decide +kernel
  exact key act ha

/-- The option strings are the letters with a dash. -/
theorem mem_optionStrings {s : Str}
    (h : (s, act) ∈ (Scheduler.pbsTorque.allParser tb).optionStrings) :
    act ∈ Scheduler.pbsTorque.actions ∧ s = '-' :: act.dest := by
  have ha := mem_of_mem_optionStrings h
  obtain ⟨b, hb, hmem⟩ := List.mem_flatMap.1 h
  obtain ⟨o, ho, heq⟩ := List.mem_map.1 hmem
  obtain ⟨rfl, rfl⟩ := Prod.mk.inj heq
  rw [(short b hb).optionStrings, List.mem_singleton] at ho
  exact ⟨ha, ho⟩

variable (tb) in
theorem find?_eq_none {s : Str} (h : ∀ a ∈ Scheduler.pbsTorque.actions, s ≠ '-' :: a.dest) :
    (Scheduler.pbsTorque.allParser tb).find? s = none := by
  by_contra hsome
  obtain ⟨a, ha⟩ := Option.ne_none_iff_exists'.1 hsome
  obtain ⟨hmem, hs⟩ := mem_optionStrings (mem_of_find?_eq_some ha)
  exact h a hmem hs

theorem partition_prefix (c : Char) (s : Str) : (partition c s).1 <+: s := by
  induction s with
  | nil => exact List.prefix_rfl
  | cons d s ih =>
      rw [partition]
      split_ifs
      · exact List.nil_prefix
      · exact (List.prefix_cons_inj d).2 ih

variable (tb) in
/-- No option looks like a negative number. -/
theorem not_isNegativeNumber (h : Short act) :
    isNegativeNumber (digit tb) ('-' :: act.dest) = false := by
  obtain ⟨c, hc⟩ := h.dest_eq
  obtain ⟨⟨hlt, hdigit⟩, -, hdot, hnl⟩ := h.letter c (by simp [hc])
  have hd : digit tb c = false := digit_of_not_isDigit hlt hdigit
  simp [isNegativeNumber, hc, hnl, hd, hdot]

variable {c : Char} {t : Str}

theorem ne_of_length {s : Str} (hs : 3 ≤ s.length) : ∀ a ∈ Scheduler.pbsTorque.actions,
    s ≠ '-' :: a.dest := by
  rintro a ha rfl
  have := (short a ha).length
  simp only [List.length_cons] at hs
  omega

/-- A string with the letter of an option in front is not taken for an argument. -/
theorem not_argument_of_option (ha : act ∈ Scheduler.pbsTorque.actions) (hc : act.dest = [c]) :
    (Scheduler.pbsTorque.allParser tb).parseOptional ('-' :: c :: t) ≠ .ok .argument := by
  have hfind := find?_option tb ha
  rw [hc] at hfind
  obtain ⟨-, hdash, -, -⟩ := (short act ha).letter c (by simp [hc])
  cases t with
  | nil =>
      rw [parseOptional_of_find? hfind rfl]
      simp
  | cons e u =>
      have hnone := find?_eq_none tb (ne_of_length (s := '-' :: c :: e :: u) (by simp))
      have htuple : (act, ['-', c], some (false, e :: u)) ∈
          (Scheduler.pbsTorque.allParser tb).optionTuples ('-' :: c :: e :: u) := by
        rw [Parser.optionTuples, if_neg (by simpa using hdash)]
        exact List.mem_filterMap.2 ⟨_, mem_of_find?_eq_some hfind, if_pos rfl⟩
      rw [Parser.parseOptional, if_neg (by simp), hnone]
      show (if _ then _ else _) ≠ _
      rw [if_neg (by simp)]
      split
      · simp
      · rw [Parser.parseAbbreviation]
        split
        · simp
        · simp
        · rename_i hnil
          rw [hnil] at htuple
          exact absurd htuple List.not_mem_nil

section NoOption

variable (hc : ∀ a ∈ Scheduler.pbsTorque.actions, a.dest ≠ [c])

include hc

/-- No option string agrees with it up to the second character. -/
theorem ne_cons_of_no_option (ha : act ∈ Scheduler.pbsTorque.actions) (u : Str) :
    '-' :: act.dest ≠ '-' :: c :: u := by
  intro heq
  obtain ⟨d, hd⟩ := (short act ha).dest_eq
  rw [hd] at heq
  injection heq with _ heq
  injection heq with hdc _
  exact hc act ha (hdc ▸ hd)

theorem find?_partition_of_no_option :
    (Scheduler.pbsTorque.allParser tb).find? (partition '=' ('-' :: c :: t)).1 = none := by
  refine find?_eq_none tb fun a ha heq => ?_
  obtain ⟨u, hu⟩ := partition_prefix '=' ('-' :: c :: t)
  obtain ⟨d, hd⟩ := (short a ha).dest_eq
  rw [heq, hd] at hu
  injection hu with _ hu
  injection hu with hdc _
  exact hc a ha (hdc ▸ hd)

/-- It is no abbreviation either. -/
theorem optionTuples_of_no_option :
    (Scheduler.pbsTorque.allParser tb).optionTuples ('-' :: c :: t) = [] := by
  rw [Parser.optionTuples]
  split
  · rename_i hdash
    obtain rfl : c = '-' := by simpa using hdash
    rw [List.filterMap_eq_nil_iff]
    rintro ⟨o, a⟩ hoa
    obtain ⟨ha, rfl⟩ := mem_optionStrings hoa
    refine if_neg fun hprefix => ?_
    obtain ⟨u, hu⟩ := hprefix
    exact ne_cons_of_no_option hc ha ((partition '=' t).1 ++ u) hu.symm
  · rw [List.filterMap_eq_nil_iff]
    rintro ⟨o, a⟩ hoa
    obtain ⟨ha, rfl⟩ := mem_optionStrings hoa
    have htake : '-' :: a.dest ≠ List.take 2 ('-' :: c :: t) := ne_cons_of_no_option hc ha []
    rw [if_neg htake, if_neg]
    rintro ⟨u, hu⟩
    exact ne_cons_of_no_option hc ha (t ++ u) hu.symm

end NoOption

variable (tb) in
/-- No option of the parser looks like a negative number. -/
theorem any_isNegativeNumber : (Scheduler.pbsTorque.allParser tb).optionStrings.any
    (fun oa => isNegativeNumber (Scheduler.pbsTorque.allParser tb).digit oa.1) = false := by
  rw [List.any_eq_false]
  rintro ⟨o, a⟩ hoa
  obtain ⟨ha, rfl⟩ := mem_optionStrings hoa
  have := not_isNegativeNumber tb (short a ha)
  simpa [Scheduler.allParser] using this

/-- With another second character it is none of the options. -/
theorem parseOptional_of_no_option (hc : ∀ a ∈ Scheduler.pbsTorque.actions, a.dest ≠ [c]) :
    (Scheduler.pbsTorque.allParser tb).parseOptional ('-' :: c :: t) = .ok (
      if isNegativeNumber (digit tb) ('-' :: c :: t) ∨ ' ' ∈ '-' :: c :: t then .argument
      else .unknown) := by
  have hnone := find?_eq_none tb fun a ha => (ne_cons_of_no_option hc ha t).symm
  rw [Parser.parseOptional, if_neg (by simp), hnone]
  show (if _ then _ else _) = _
  rw [if_neg (by simp), find?_partition_of_no_option hc]
  show Parser.parseAbbreviation _ _ = _
  rw [Parser.parseAbbreviation, optionTuples_of_no_option hc, any_isNegativeNumber]
  change (if (isNegativeNumber (digit tb) ('-' :: c :: t) && !false) = true then _ else
    if _ then _ else _) = _
  by_cases hneg : isNegativeNumber (digit tb) ('-' :: c :: t) = true
  · rw [if_pos (by simpa using hneg), if_pos (Or.inl hneg)]
  · rw [if_neg (by simpa using hneg)]
    by_cases hblank : ' ' ∈ '-' :: c :: t
    · rw [if_pos hblank, if_pos (Or.inr hblank)]
    · rw [if_neg hblank, if_neg (not_or.2 ⟨hneg, hblank⟩)]

/-- Two dashes are neither a negative number nor a text with a blank. -/
theorem not_isNegativeNumber_dashes : isNegativeNumber (digit tb) ['-', '-'] = false := by
  have hd : digit tb '-' = false := digit_of_not_isDigit (by decide) (by decide)
  simp [isNegativeNumber, hd]

theorem parseOptional_argument_iff (s : Str) :
    (s ≠ ['-', '-'] ∧ (Scheduler.pbsTorque.allParser tb).parseOptional s = .ok .argument) ↔
      TakenAsArgument tb s := by
  by_cases hs : s.head? = some '-'
  swap
  · have hne : s ≠ ['-', '-'] := by
      rintro rfl
      exact hs rfl
    have harg : (Scheduler.pbsTorque.allParser tb).parseOptional s = .ok .argument := by
      rw [Parser.parseOptional, if_pos hs]
    exact iff_of_true ⟨hne, harg⟩ fun h => absurd h hs
  obtain ⟨s, rfl⟩ := List.head?_eq_some_iff.1 hs
  cases s with
  | nil =>
      have hnone := find?_eq_none tb (s := ['-']) fun a ha heq => by
        obtain ⟨d, hd⟩ := (short a ha).dest_eq
        rw [hd] at heq
        cases heq
      have harg : (Scheduler.pbsTorque.allParser tb).parseOptional ['-'] = .ok .argument := by
        rw [Parser.parseOptional, if_neg (by simp), hnone]
        exact if_pos rfl
      exact iff_of_true ⟨by simp, harg⟩ fun _ => Or.inl rfl
  | cons c t =>
      by_cases hc : ∀ a ∈ Scheduler.pbsTorque.actions, a.dest ≠ [c]
      · rw [parseOptional_of_no_option hc]
        constructor
        · rintro ⟨-, hok⟩ -
          refine Or.inr ⟨hc, ?_⟩
          by_contra hno
          rw [if_neg hno] at hok
          cases hok
        · intro h
          obtain ⟨-, hok⟩ := (h hs).resolve_left (by simp)
          refine ⟨?_, by rw [if_pos hok]⟩
          intro hdashes
          rw [hdashes, not_isNegativeNumber_dashes] at hok
          simp at hok
      · push Not at hc
        obtain ⟨a, ha, hac⟩ := hc
        refine iff_of_false (fun h => not_argument_of_option ha hac h.2) fun h => ?_
        exact ((h hs).resolve_left (by simp)).1 a ha hac

theorem not_dashes (ha : act ∈ Scheduler.pbsTorque.actions) : '-' :: act.dest ≠ ['-', '-'] := by
  obtain ⟨c, hc⟩ := (short act ha).dest_eq
  obtain ⟨-, hdash, -, -⟩ := (short act ha).letter c (by simp [hc])
  simpa [hc] using hdash

variable (tb) in
/-- An option followed by its value. -/
theorem reads_or_sticks_value (ha : act ∈ Scheduler.pbsTorque.actions) (hv : act.takesValue = true)
    (s : Str) :
    (TakenAsArgument tb s → Reads (Scheduler.pbsTorque.allParser tb) ['-' :: act.dest, s]
      [.valued act s]) ∧
    (¬TakenAsArgument tb s → Sticks (Scheduler.pbsTorque.allParser tb) ['-' :: act.dest, s]) := by
  rw [← parseOptional_argument_iff]
  exact ⟨fun h => reads_value (find?_option tb ha) rfl (not_dashes ha) hv h.1 h.2,
    fun h => sticks_value (find?_option tb ha) rfl (not_dashes ha) hv h⟩

variable (tb) in
/-- An option that takes a value, and one that takes none. -/
theorem reads_or_sticks_item (ha : act ∈ Scheduler.pbsTorque.actions) (hfits : Fits act v) :
    ((∀ s, text? v = some s → TakenAsArgument tb s) →
      Reads (Scheduler.pbsTorque.allParser tb) (dictItem (act.dest, v))
        (written Scheduler.pbsTorque.actions (act.dest, v))) ∧
    ((¬∀ s, text? v = some s → TakenAsArgument tb s) →
      Sticks (Scheduler.pbsTorque.allParser tb) (dictItem (act.dest, v))) := by
  have hwritten := Options.find?_dest distinct_actions ha
  rw [Fits] at hfits
  split at hfits
  · rename_i hk
    rcases hfits with rfl | ⟨s, rfl⟩
    · rw [written, hwritten]
      exact ⟨fun _ => reads_nil, fun h => absurd (by simp [text?]) h⟩
    · have hvalue := reads_or_sticks_value tb ha (by simp [Action.takesValue, hk]) s
      simp only [text?, Option.some.injEq, forall_eq', written, hwritten]
      exact hvalue
  · rename_i hk
    obtain ⟨b, rfl⟩ := hfits
    rw [written, hwritten]
    refine ⟨fun _ => ?_, fun h => absurd (by simp [text?]) h⟩
    cases b
    · exact reads_nil
    · exact reads_flag (find?_option tb ha) rfl (not_dashes ha) hk
  · rename_i hk
    rcases hfits with rfl | ⟨l, -, rfl⟩
    · rw [written, hwritten]
      exact ⟨fun _ => reads_nil, fun h => absurd (by simp [text?]) h⟩
    · have hvalue := reads_or_sticks_value tb ha (by simp [Action.takesValue, hk])
        ([','].intercalate l)
      simp only [text?, Option.some.injEq, forall_eq', written, hwritten]
      exact hvalue
  · exact hfits.elim

end PbsTorque

/-! ### Both schedulers -/

/-- **An attribute is regenerated.**  Slurm: if it is set, its name has no underscore
and its value does not begin with a dash.  PBS torque: `argparse` takes its value for
an argument. -/
def Regenerated (tb : CharTable) : Scheduler → Str × Value → Prop
  | .slurm, kv => (kv.2 = .bool true ∨ ∃ s, kv.2 = .str s) →
      '_' ∉ kv.1 ∧ ∀ s, kv.2 = .str s → s.head? ≠ some '-'
  | .pbsTorque, kv => ∀ s, PbsTorque.text? kv.2 = some s → PbsTorque.TakenAsArgument tb s

namespace Scheduler

/-- The arguments for an attribute. -/
def piece : Scheduler → Str × Value → List Str
  | slurm => Slurm.piece
  | pbsTorque => dictItem

/-- The value as it stands in the arguments. -/
def reread : Scheduler → Value → Value
  | slurm => Slurm.regenerated
  | pbsTorque => id

theorem distinct_actions : ∀ sch : Scheduler, Distinct sch.actions
  | slurm => Slurm.distinct_actions
  | pbsTorque => PbsTorque.distinct_actions

end Scheduler

theorem Complete.entry (h : Complete sch.actions ns) {kv : Str × Value} (hkv : kv ∈ ns.entries) :
    ∃ a ∈ sch.actions, a.dest = kv.1 ∧ Fits a kv.2 := by
  obtain ⟨k, v⟩ := kv
  have hget := Dict.mem_entries.1 hkv
  obtain ⟨a, ha, rfl⟩ := h.key k (by simp [hget])
  obtain ⟨w, hw, hfits⟩ := h.value a ha
  obtain rfl := Option.some.inj (hw.symm.trans hget)
  exact ⟨a, ha, rfl, hfits⟩

/-- The command line is put together from the pieces. -/
theorem preprocess_eq (h : Complete sch.actions ns) :
    sch.preprocessCliOptions (optionsDict2list ns) = ns.entries.flatMap sch.piece := by
  cases sch with
  | slurm =>
      refine Slurm.preprocess_flatMap fun kv hkv l hl => ?_
      obtain ⟨a, ha, -, hfits⟩ := h.entry hkv
      rw [hl] at hfits
      rcases List.mem_append.1 ha with ha | ha <;> rcases kind_of_mem ha with hk | hk <;>
        simp [Fits, hk] at hfits
  | pbsTorque => rfl

/-- What can become of an attribute: it is read back, with the value it had if it is
regenerated, and if it is not the parser sticks or reads another value. -/
structure PieceOutcome (tb : CharTable) (sch : Scheduler) (act : Action) (v : Value) : Prop where
  reads_or_sticks : Reads (sch.allParser tb) (sch.piece (act.dest, v))
      (written sch.actions (act.dest, sch.reread v)) ∨
    Sticks (sch.allParser tb) (sch.piece (act.dest, v))
  fits : Fits act (sch.reread v)
  reads : Regenerated tb sch (act.dest, v) →
    Reads (sch.allParser tb) (sch.piece (act.dest, v)) (written sch.actions (act.dest, v)) ∧
      sch.reread v = v
  spoiled : ¬Regenerated tb sch (act.dest, v) →
    Sticks (sch.allParser tb) (sch.piece (act.dest, v)) ∨
      splitRequests (back (sch.reread v)) ≠ splitRequests v

/-- An attribute that is not set leaves nothing to read. -/
theorem Slurm.outcome_unset (ha : act ∈ Scheduler.slurm.actions) (hfits : Fits act v)
    (hv : v = .none ∨ v = .bool false) : PieceOutcome tb .slurm act v := by
  have hreread : Slurm.regenerated v = v := by rcases hv with rfl | rfl <;> rfl
  have hreads : Reads (Scheduler.slurm.allParser tb) (Slurm.piece (act.dest, v))
      (written Scheduler.slurm.actions (act.dest, v)) := by
    rcases hv with rfl | rfl
    · rw [written, find?_dest Slurm.distinct_actions ha]
      exact reads_nil
    · rw [written, find?_dest Slurm.distinct_actions ha]
      exact reads_nil
  have hregenerated : Regenerated tb .slurm (act.dest, v) := by
    rcases hv with rfl | rfl <;> simp [Regenerated]
  refine ⟨Or.inl ?_, ?_, fun _ => ⟨hreads, hreread⟩, fun h => absurd hregenerated h⟩
  · show Reads _ _ (written _ (act.dest, Slurm.regenerated v))
    rw [hreread]
    exact hreads
  · show Fits act (Slurm.regenerated v)
    rw [hreread]
    exact hfits

/-- An option with a value is read back if its name has no underscore and its value no
dash in front. -/
theorem Slurm.outcome_str {s : Str} (ha : act ∈ Scheduler.slurm.actions) (hk : act.kind = .store)
    (hfits : Fits act (.str s)) : PieceOutcome tb .slurm act (.str s) := by
  have hfits' : Fits act (Slurm.regenerated (.str s)) := by
    rw [Slurm.regenerated, Fits, hk]
    split_ifs
    · exact Or.inr ⟨_, rfl⟩
    · exact Or.inr ⟨_, rfl⟩
  by_cases hu : '_' ∈ act.dest
  · have hsticks := Slurm.sticks_piece tb (v := .str s) ha hu (Or.inr ⟨s, rfl⟩)
    exact ⟨Or.inr hsticks, hfits', fun h => absurd hu (h (Or.inr ⟨s, rfl⟩)).1,
      fun _ => Or.inl hsticks⟩
  by_cases hs : s.head? = some '-'
  · have hre : Slurm.regenerated (.str s) = .str ('-' :: s) := if_pos hs
    refine ⟨?_, hfits', fun h => absurd hs ((h (Or.inr ⟨s, rfl⟩)).2 s rfl), fun _ => Or.inr ?_⟩
    · show Reads _ _ (written _ (act.dest, Slurm.regenerated (.str s))) ∨ _
      rw [hre]
      exact Slurm.reads_or_sticks_dash ha hu hk hs
    · show splitRequests (back (Slurm.regenerated (.str s))) ≠ _
      rw [hre]
      simp [back, splitRequests]
  · have hre : Slurm.regenerated (.str s) = .str s := if_neg hs
    have hno : ∀ t, Value.str s = .str t → t.head? ≠ some '-' := by
      rintro t ht
      cases ht
      exact hs
    have hreads := Slurm.reads_long tb ha hu hfits hno
    refine ⟨Or.inl ?_, hfits', fun _ => ⟨hreads, hre⟩, fun h => absurd (fun _ => ⟨hu, hno⟩) h⟩
    show Reads _ _ (written _ (act.dest, Slurm.regenerated (.str s)))
    rw [hre]
    exact hreads

theorem Slurm.outcome (ha : act ∈ Scheduler.slurm.actions) (hfits : Fits act v) :
    PieceOutcome tb .slurm act v := by
  rcases Slurm.value_cases ha hfits with rfl | rfl | ⟨hk, rfl⟩ | ⟨hk, s, rfl⟩
  · exact Slurm.outcome_unset ha hfits (Or.inl rfl)
  · exact Slurm.outcome_unset ha hfits (Or.inr rfl)
  · by_cases hu : '_' ∈ act.dest
    · have hsticks := Slurm.sticks_piece tb (v := .bool true) ha hu (Or.inl rfl)
      exact ⟨Or.inr hsticks, hfits, fun h => absurd hu (h (Or.inl rfl)).1, fun _ => Or.inl hsticks⟩
    · have hreads := Slurm.reads_long tb ha hu hfits nofun
      exact ⟨Or.inl hreads, hfits, fun _ => ⟨hreads, rfl⟩,
        fun h => absurd (fun _ => ⟨hu, nofun⟩) h⟩
  · exact Slurm.outcome_str ha hk hfits

theorem PbsTorque.outcome (ha : act ∈ Scheduler.pbsTorque.actions) (hfits : Fits act v) :
    PieceOutcome tb .pbsTorque act v := by
  obtain ⟨hreads, hsticks⟩ := PbsTorque.reads_or_sticks_item tb ha hfits
  refine ⟨?_, hfits, fun h => ⟨hreads h, rfl⟩, fun h => Or.inl (hsticks h)⟩
  by_cases h : ∀ s, PbsTorque.text? v = some s → PbsTorque.TakenAsArgument tb s
  · exact Or.inl (hreads h)
  · exact Or.inr (hsticks h)

variable (tb) in
theorem outcome (ha : act ∈ sch.actions) (hfits : Fits act v) : PieceOutcome tb sch act v := by
  cases sch with
  | slurm => exact Slurm.outcome ha hfits
  | pbsTorque => exact PbsTorque.outcome ha hfits

/-- Joining requests with commas and setting them apart again. -/
theorem splitOn_intercalate {l : List Str} (hl : l ≠ []) :
    ([','].intercalate l).splitOn ',' = l.flatMap (·.splitOn ',') := by
  induction l with
  | nil => exact absurd rfl hl
  | cons s l ih =>
      cases l with
      | nil => simp
      | cons s' l =>
          rw [List.intercalate_cons_cons, List.append_assoc, List.singleton_append,
            List.splitOn_append_cons_self, ih (List.cons_ne_nil _ _)]
          rfl

theorem splitRequests_back (hfits : Fits act v) : splitRequests (back v) = splitRequests v := by
  cases v with
  | none => rfl
  | bool b => rfl
  | str s => rfl
  | list l =>
      have hl : l ≠ [] := by
        rintro rfl
        rw [Fits] at hfits
        split at hfits <;> simp at hfits
      rw [back, splitRequests, splitRequests, List.flatMap_singleton, splitOn_intercalate hl]

/-- **Which options survive.**  The options that `merge_options` returns survive
being turned back into a command line exactly if every attribute is regenerated. -/
theorem survives_iff (h : sch.mergeOptions (digit tb) newArgs oldArgs = .ok ns) :
    Survives tb sch ns ↔ ∀ kv ∈ ns.entries, Regenerated tb sch kv := by
  have hc := complete_mergeOptions h
  rw [Survives, preprocess_eq hc]
  constructor
  · rintro ⟨ns', hparse, hback⟩ kv hkv
    obtain ⟨occs, hocc, -⟩ := parseKnownArgs_eq_ok hparse
    by_contra hnot
    have houtcome : ∀ kv ∈ ns.entries, Reads (sch.allParser tb) (sch.piece kv)
        (written sch.actions (kv.1, sch.reread kv.2)) ∨ Sticks (sch.allParser tb) (sch.piece kv) := by
      rintro ⟨k, v⟩ hkv
      obtain ⟨a, ha, rfl, hfits⟩ := hc.entry hkv
      exact (outcome tb ha hfits).reads_or_sticks
    have hreads := not_sticks_of_occurrences houtcome hocc
    obtain ⟨k, v⟩ := kv
    obtain ⟨a, ha, rfl, hfits⟩ := hc.entry hkv
    have hget := Dict.mem_entries.1 hkv
    rcases (outcome tb ha hfits).spoiled hnot with hsticks | hne
    · exact (hreads _ hkv).not_sticks hsticks
    · have hread := get?_of_written (p := sch.allParser tb) sch.distinct_actions hparse
        (occurrences_of_reads (reads_flatMap hreads)) ha hget (outcome tb ha hfits).fits
      have hsame := hback a.dest
      rw [hread, hget] at hsame
      exact hne (Option.some.inj hsame)
  · intro hall
    have hreads : Reads (sch.allParser tb) (ns.entries.flatMap sch.piece)
        (ns.entries.flatMap fun kv => written sch.actions (kv.1, id kv.2)) := by
      refine reads_flatMap fun kv hkv => ?_
      obtain ⟨k, v⟩ := kv
      obtain ⟨a, ha, rfl, hfits⟩ := hc.entry hkv
      exact ((outcome tb ha hfits).reads (hall _ hkv)).1
    have hocc := occurrences_of_reads hreads
    obtain ⟨ns', hparse⟩ : ∃ ns', parseKnownArgs (sch.allParser tb)
        (ns.entries.flatMap sch.piece) Dict.empty = .ok (ns', []) := by
      rw [parseKnownArgs, hocc]
      exact ⟨_, rfl⟩
    refine ⟨ns', hparse, fun d => ?_⟩
    cases hget : ns.get? d with
    | some v =>
        obtain ⟨a, ha, rfl⟩ := hc.key d (by simp [hget])
        obtain ⟨w, hw, hfits⟩ := hc.value a ha
        obtain rfl := Option.some.inj (hw.symm.trans hget)
        rw [get?_of_written (p := sch.allParser tb) sch.distinct_actions hparse hocc ha hget hfits]
        exact congrArg some (splitRequests_back hfits)
    | none =>
        have hparse' : parse (sch.allParser tb) (ns.entries.flatMap sch.piece) Dict.empty = .ok ns' := by
          rw [parse, hparse]
        rw [get?_parse_other hparse' fun a ha hda => ?_]
        · rfl
        · obtain ⟨w, hw, -⟩ := hc.value a ha
          rw [hda, hget] at hw
          cases hw

/-- Values without a dash in front survive. -/
theorem survives_nameAndNodes :
    ∃ ns, Scheduler.pbsTorque.mergeOptions (digit asciiTable) ["-N".toList, "my job".toList]
        ["-l".toList, "nodes=1:ppn=4,walltime=1:00:00".toList] = .ok ns ∧
      Survives asciiTable .pbsTorque ns := by
  have hok : (Scheduler.pbsTorque.mergeOptions (digit asciiTable) ["-N".toList, "my job".toList]
      ["-l".toList, "nodes=1:ppn=4,walltime=1:00:00".toList]).map (fun ns =>
        ns.entries.all fun kv => (PbsTorque.text? kv.2).all fun s => s.head? != some '-') =
      .ok true := by decide +kernel
  obtain ⟨ns, h, hall⟩ := map_eq_ok hok
  refine ⟨ns, h, (survives_iff h).2 fun kv hkv s hs hdash => ?_⟩
  have hno := List.all_eq_true.1 hall kv hkv
  rw [hs, Option.all_some, hdash] at hno
  simp at hno

/-- **The number of cores is lost**: the option comes back as `--cpus_per_task`. -/
theorem exists_not_survives :
    ∃ ns, Scheduler.slurm.mergeOptions (digit asciiTable) ["--cpus-per-task=4".toList] [] = .ok ns ∧
      ¬Survives asciiTable .slurm ns := by
  have hok : (Scheduler.slurm.mergeOptions (digit asciiTable) ["--cpus-per-task=4".toList] []).map
      (fun ns => (parseKnownArgs (Scheduler.slurm.allParser asciiTable)
        (Scheduler.slurm.preprocessCliOptions (optionsDict2list ns)) Dict.empty).map Prod.snd) =
      .ok (.ok ["--cpus_per_task=4".toList]) := by decide +kernel
  obtain ⟨ns, h, hextras⟩ := map_eq_ok hok
  refine ⟨ns, h, ?_⟩
  rintro ⟨ns', hparse, -⟩
  rw [hparse] at hextras
  cases hextras

end Options
end WorkerNg
