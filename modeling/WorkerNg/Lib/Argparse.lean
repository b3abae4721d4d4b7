/-
# Command lines with options

`argparse.ArgumentParser` for parsers that declare options only: what
`add_argument` makes of an option, what an argument string is taken for, which
strings an option takes, and the namespace that `parse_known_args` returns.

A string is an option if it is one that the parser declares, one with a value
behind `=` or a single letter, or a prefix of exactly one of them; strings that
look like an option which the parser does not know are left over
(`Parser.parseOptional`, `Parser.scan`).

`given` is what a list of arguments says about an option.  The namespace holds
for an option the value given last, or else what it held before, or else the
default (`get?_parseKnownArgs`); an option that appends collects all values
given (`get?_parseKnownArgs_append`).
-/

import WorkerNg.Lib.Dict
import WorkerNg.Lib.Except
import Mathlib.Data.List.Basic

namespace WorkerNg
namespace Argparse

/-- A string. -/
abbrev Str := List Char

/-- What an option does: it stores its value, stores `True`, appends its value to
a list, or prints a help text and exits. -/
inductive ActionKind where
  | store
  | storeTrue
  | append
  | help
deriving DecidableEq

/-- An option: how it is spelled, and the name under which its value is kept. -/
structure Action where
  optionStrings : List Str
  dest : Str
  kind : ActionKind
deriving DecidableEq

/-- The value of an attribute. -/
inductive Value where
  | none
  | bool (b : Bool)
  | str (s : Str)
  | list (l : List Str)
deriving DecidableEq

/-- How a script ends when its arguments are not accepted. -/
inductive Exit where
  | ambiguousOption (arg : Str)
  | expectedOneArgument (option : Str)
  | ignoredExplicitArgument (option : Str)
  | help
deriving DecidableEq

/-- A namespace: attributes in the order in which they were first set. -/
abbrev Namespace := Dict Str Value

/-- The name for the value: the first long spelling, or else the first one,
without its leading dashes and with `_` for the others. -/
def destOf (optionStrings : List Str) : Str :=
  let s := (optionStrings.find? fun o => o.take 2 == ['-', '-']).getD (optionStrings.headD [])
  (s.dropWhile (· == '-')).map fun c => if c = '-' then '_' else c

/-- `add_argument`. -/
def addArgument (kind : ActionKind) (optionStrings : List Str) : Action :=
  ⟨optionStrings, destOf optionStrings, kind⟩

/-- What an option stores when it is not given; `--help` has no attribute. -/
def Action.default (a : Action) : Option Value :=
  match a.kind with
  | .store => some .none
  | .storeTrue => some (.bool false)
  | .append => some .none
  | .help => none

/-- Whether an option takes a value. -/
def Action.takesValue (a : Action) : Bool :=
  match a.kind with
  | .store => true
  | .append => true
  | _ => false

/-- A parser: its options, and which characters are digits. -/
structure Parser where
  actions : List Action
  digit : Char → Bool

/-- `str.partition`: what stands before the first `c`, and behind it if there is one. -/
def partition (c : Char) : Str → Str × Option Str
  | [] => ([], none)
  | d :: s => if d = c then ([], some s) else (d :: (partition c s).1, (partition c s).2)

theorem partition_append_cons {c : Char} {k v : Str} (hk : c ∉ k) : partition c (k ++ c :: v) = (k, some v) := by
  induction k with
  | nil => simp [partition]
  | cons d k ih =>
      rw [List.mem_cons, not_or] at hk
      rw [List.cons_append, partition, if_neg (Ne.symm hk.1), ih hk.2]

theorem partition_eq_some {c : Char} {k v part : Str} (h : partition c part = (k, some v)) :
    part = k ++ c :: v ∧ c ∉ k := by
  induction part generalizing k with
  | nil => cases h
  | cons d part ih =>
      rw [partition] at h
      split_ifs at h with hd
      · cases h
        simp [hd]
      · obtain ⟨rfl, hv⟩ := Prod.mk.inj h
        obtain ⟨hpart, hk⟩ := ih (Prod.ext rfl hv)
        exact ⟨congrArg (d :: ·) hpart, by simp [hk, Ne.symm hd]⟩

theorem partition_of_not_mem {c : Char} {k : Str} (hk : c ∉ k) : partition c k = (k, none) := by
  induction k with
  | nil => rfl
  | cons d k ih =>
      rw [List.mem_cons, not_or] at hk
      rw [partition, if_neg (Ne.symm hk.1), ih hk.2]

/-- `^-\d+$|^-\d*\.\d+$`, where `$` matches before a newline at the end as well. -/
def isNegativeNumber (digit : Char → Bool) : Str → Bool
  | '-' :: s =>
      let s := if s.getLast? = some '\n' then s.dropLast else s
      match s.dropWhile digit with
      | [] => !s.isEmpty
      | '.' :: f => !f.isEmpty && f.all digit
      | _ => false
  | _ => false

namespace Parser

/-- The option strings with their options, `_option_string_actions`. -/
def optionStrings (p : Parser) : List (Str × Action) :=
  p.actions.flatMap fun a => a.optionStrings.map fun o => (o, a)

/-- The option spelled in this way. -/
def find? (p : Parser) (s : Str) : Option Action := p.optionStrings.lookup s

/-- A value written behind the option, and whether behind an `=`. -/
abbrev Explicit := Option (Bool × Str)

/-- `_get_option_tuples`: the options that a string with a dash in front can stand for. -/
def optionTuples (p : Parser) (s : Str) : List (Action × Str × Explicit) :=
  if (s.drop 1).head? = some '-' then
    p.optionStrings.filterMap fun oa =>
      if (partition '=' s).1 <+: oa.1 then
        some (oa.2, oa.1, (partition '=' s).2.map fun v => (true, v))
      else none
  else
    p.optionStrings.filterMap fun oa =>
      if oa.1 = s.take 2 then some (oa.2, oa.1, some (false, s.drop 2))
      else if s <+: oa.1 then some (oa.2, oa.1, none)
      else none

/-- What a string on the command line is: an argument, an option that the parser
does not know, one that it knows, or the `--` behind which all strings are arguments. -/
inductive Token where
  | argument
  | unknown
  | option (a : Action) (optionString : Str) (explicit : Explicit)
  | dashes
deriving DecidableEq

/-- What is left to try when a string is not spelled as an option is: an
abbreviation, a negative number, a text with a blank in it. -/
def parseAbbreviation (p : Parser) (s : Str) : Except Exit Token :=
  match p.optionTuples s with
  | _ :: _ :: _ => .error (.ambiguousOption s)
  | [(a, o, e)] => .ok (.option a o e)
  | [] =>
      if isNegativeNumber p.digit s && !p.optionStrings.any (isNegativeNumber p.digit ·.1) then
        .ok .argument
      else if ' ' ∈ s then .ok .argument
      else .ok .unknown

/-- `_parse_optional`. -/
def parseOptional (p : Parser) (s : Str) : Except Exit Token :=
  if s.head? ≠ some '-' then .ok .argument
  else
    match p.find? s with
    | some a => .ok (.option a s none)
    | none =>
        if s.length = 1 then .ok .argument
        else
          match p.find? (partition '=' s).1, (partition '=' s).2 with
          | some a, some v => .ok (.option a (partition '=' s).1 (some (true, v)))
          | _, _ => p.parseAbbreviation s

/-- The strings with what each of them is. -/
def classify (p : Parser) : List Str → Except Exit (List (Str × Token))
  | [] => .ok []
  | s :: ss =>
      if s = ['-', '-'] then .ok ((s, .dashes) :: ss.map fun t => (t, .argument))
      else do
        let token ← p.parseOptional s
        let ts ← p.classify ss
        return (s, token) :: ts

/-! ### Taking options -/

end Parser

/-- An option that was given: a flag, or an option with its value. -/
inductive Occurrence where
  | flag (a : Action)
  | valued (a : Action) (v : Str)
deriving DecidableEq

namespace Occurrence

/-- The option. -/
def action : Occurrence → Action
  | flag a => a
  | valued a _ => a

/-- What is stored for it. -/
def stored : Occurrence → Value
  | flag _ => .bool true
  | valued _ v => .str v

/-- The value written. -/
def value? : Occurrence → Option Str
  | flag _ => none
  | valued _ v => some v

end Occurrence

/-- What one string gives: the options taken, one that wants the next string as
its value, and what is left over. -/
structure Cluster where
  taken : List Occurrence
  wanting : Option Action
  extras : List Str

/-- An option without anything behind it. -/
def Cluster.single (a : Action) : Cluster :=
  if a.takesValue then ⟨[], some a, []⟩ else ⟨[.flag a], none, []⟩

/-- A flag in front of further options. -/
def Cluster.cons (a : Action) (k : Cluster) : Cluster := { k with taken := .flag a :: k.taken }

namespace Parser

/-- The loop of `consume_optional` over an explicit value: behind a single dash,
what follows a flag is read as further options. -/
def cluster (p : Parser) : Action → Str → Bool → Str → Except Exit Cluster
  | a, o, eq, v =>
      if a.takesValue then .ok ⟨[.valued a v], none, []⟩
      else match v with
        | [] => .error (.ignoredExplicitArgument o)
        | c :: v =>
            if (o.drop 1).head? = some '-' ∨ eq ∨ c = '-' then
              .error (.ignoredExplicitArgument o)
            else match p.find? ['-', c], v with
              | none, v => .ok ⟨[.flag a], none, ['-' :: c :: v]⟩
              | some b, [] => .ok ((Cluster.single b).cons a)
              | some b, '=' :: v => (p.cluster b ['-', c] true v).map (Cluster.cons a)
              | some b, v => (p.cluster b ['-', c] false v).map (Cluster.cons a)

/-- `consume_optional`, up to the strings that follow. -/
def consumeOptional (p : Parser) (a : Action) (o : Str) : Explicit → Except Exit Cluster
  | none => .ok (Cluster.single a)
  | some (eq, v) => p.cluster a o eq v

/-- The loop of `_parse_known_args`: the options given, and the strings left over.
An option may want the next string as its value. -/
def scan (p : Parser) : Option Action → List (Str × Token) →
    Except Exit (List Occurrence × List Str)
  | none, [] => .ok ([], [])
  | some a, [] => .error (.expectedOneArgument a.dest)
  | some a, (v, .argument) :: ts => do
      let (occs, extras) ← p.scan none ts
      return (.valued a v :: occs, extras)
  | some a, _ :: _ => .error (.expectedOneArgument a.dest)
  | none, (_, .option a o e) :: ts => do
      let k ← p.consumeOptional a o e
      if k.taken.any (fun occ => occ.action.kind == .help) then .error .help
      else
        let (occs, extras) ← p.scan k.wanting ts
        return (k.taken ++ occs, k.extras ++ extras)
  | none, (s, _) :: ts => do
      let (occs, extras) ← p.scan none ts
      return (occs, s :: extras)

/-- The options given in a list of arguments, and the arguments left over. -/
def occurrences (p : Parser) (args : List Str) : Except Exit (List Occurrence × List Str) := do
  let ts ← p.classify args
  p.scan none ts

/-- The defaults of the attributes that are not there. -/
def addDefaults (p : Parser) (ns : Namespace) : Namespace :=
  p.actions.foldl (fun ns a =>
    match ns.get? a.dest, a.default with
    | none, some v => ns.set a.dest v
    | _, _ => ns) ns

end Parser

/-- What the option does to the namespace. -/
def take (ns : Namespace) : Occurrence → Namespace
  | .flag a => ns.set a.dest (.bool true)
  | .valued a v =>
      if a.kind = .append then
        match ns.get? a.dest with
        | some (.list items) => ns.set a.dest (.list (items ++ [v]))
        | _ => ns.set a.dest (.list [v])
      else ns.set a.dest (.str v)

/-- `parse_known_args`: the namespace, and the arguments left over. -/
def parseKnownArgs (p : Parser) (args : List Str) (ns : Namespace) :
    Except Exit (Namespace × List Str) := do
  let (occs, extras) ← p.occurrences args
  return (occs.foldl take (p.addDefaults ns), extras)

/-! ### The namespace -/

/-- The options given that keep their value under a name. -/
def ofDest (d : Str) (occs : List Occurrence) : List Occurrence :=
  occs.filter fun o => decide (o.action.dest = d)

/-- What was stored last under a name. -/
def lastStored (d : Str) (occs : List Occurrence) : Option Value :=
  ((ofDest d occs).map Occurrence.stored).getLast?

/-- The values written under a name. -/
def collected (d : Str) (occs : List Occurrence) : List Str :=
  (ofDest d occs).filterMap Occurrence.value?

theorem get?_take {ns : Namespace} {o : Occurrence} {d : Str}
    (h : o.action.dest = d → o.action.kind ≠ .append) :
    (take ns o).get? d = if o.action.dest = d then some o.stored else ns.get? d := by
  cases o with
  | flag a => simp only [take, Dict.get?_set, Occurrence.action, Occurrence.stored, eq_comm]
  | valued a v =>
      by_cases hk : a.kind = .append
      · have hd : ¬d = a.dest := fun hd => h hd.symm hk
        have hd' : ¬(Occurrence.valued a v).action.dest = d := fun hd' => hd hd'.symm
        rw [take, if_pos hk, if_neg hd']
        split
        · rw [Dict.get?_set, if_neg hd]
        · rw [Dict.get?_set, if_neg hd]
      · rw [take, if_neg hk, Dict.get?_set]
        simp only [Occurrence.action, Occurrence.stored, eq_comm]

/-- **The last value given** is what is stored. -/
theorem get?_foldl_take {d : Str} {occs : List Occurrence}
    (h : ∀ o ∈ occs, o.action.dest = d → o.action.kind ≠ .append) (ns : Namespace) :
    (occs.foldl take ns).get? d = (lastStored d occs).or (ns.get? d) := by
  induction occs generalizing ns with
  | nil => rfl
  | cons o occs ih =>
      rw [List.forall_mem_cons] at h
      rw [List.foldl_cons, ih h.2, get?_take h.1, lastStored, lastStored]
      by_cases hd : o.action.dest = d
      · have hof : ofDest d (o :: occs) = o :: ofDest d occs :=
          List.filter_cons_of_pos (by simpa using hd)
        rw [if_pos hd, hof, List.map_cons, List.getLast?_cons]
        cases ((ofDest d occs).map Occurrence.stored).getLast? <;> rfl
      · have hof : ofDest d (o :: occs) = ofDest d occs :=
          List.filter_cons_of_neg (by simpa using hd)
        rw [if_neg hd, hof]

/-- **All values given** are collected by an option that appends. -/
theorem get?_foldl_take_append {d : Str} {occs : List Occurrence}
    (h : ∀ o ∈ occs, o.action.dest = d → o.action.kind = .append ∧ o.value?.isSome)
    {ns : Namespace} {l : List Str}
    (hns : ns.get? d = some (if l = [] then .none else .list l)) :
    (occs.foldl take ns).get? d =
      some (if l ++ collected d occs = [] then .none else .list (l ++ collected d occs)) := by
  induction occs generalizing ns l with
  | nil => simpa [collected, ofDest] using hns
  | cons o occs ih =>
      rw [List.forall_mem_cons] at h
      rw [List.foldl_cons]
      by_cases hd : o.action.dest = d
      · obtain ⟨hk, hv⟩ := h.1 hd
        cases o with
        | flag a => cases hv
        | valued a v =>
            have hcoll : collected d (.valued a v :: occs) = v :: collected d occs := by
              rw [collected, ofDest, List.filter_cons_of_pos (by simpa using hd)]
              rfl
            have htake : (take ns (.valued a v)).get? d =
                some (if l ++ [v] = [] then .none else .list (l ++ [v])) := by
              obtain rfl : a.dest = d := hd
              have hk' : a.kind = .append := hk
              rw [take, if_pos hk', hns]
              by_cases hi : l = []
              · simp [hi, Dict.get?_set]
              · simp [hi, Dict.get?_set]
            rw [ih h.2 htake, hcoll]
            simp
      · have hcoll : collected d (o :: occs) = collected d occs := by
          rw [collected, ofDest, List.filter_cons_of_neg (by simpa using hd)]
          rfl
        rw [hcoll]
        refine ih h.2 ?_
        rw [get?_take fun hd' => absurd hd' hd, if_neg hd, hns]

/-! ### What a parser takes -/

/-- An option that a parser can take: one of its own, with a value if it takes
one, and not the one that prints a help text. -/
structure Parser.Takes (p : Parser) (o : Occurrence) : Prop where
  mem : o.action ∈ p.actions
  value : o.value?.isSome = o.action.takesValue

/-- An option that is waiting for its value. -/
def Parser.Wants (p : Parser) (w : Option Action) : Prop :=
  ∀ a ∈ w, a ∈ p.actions ∧ a.takesValue = true

variable {p : Parser} {s d : Str} {a : Action} {args : List Str}

theorem mem_of_mem_optionStrings (h : (s, a) ∈ p.optionStrings) : a ∈ p.actions := by
  obtain ⟨b, hb, hmem⟩ := List.mem_flatMap.1 h
  obtain ⟨o, -, ho⟩ := List.mem_map.1 hmem
  exact (Prod.mk.inj ho).2 ▸ hb

theorem mem_of_find?_eq_some (h : p.find? s = some a) : (s, a) ∈ p.optionStrings := by
  rw [Parser.find?, List.lookup_eq_some_iff] at h
  obtain ⟨l₁, l₂, hl, -⟩ := h
  rw [hl]
  exact List.mem_append_right _ (List.mem_cons_self ..)

theorem mem_of_find? (h : p.find? s = some a) : a ∈ p.actions :=
  mem_of_mem_optionStrings (mem_of_find?_eq_some h)

theorem mem_of_optionTuples {o : Str} {e : Parser.Explicit} (h : (a, o, e) ∈ p.optionTuples s) :
    a ∈ p.actions := by
  have key : ∃ oa ∈ p.optionStrings, oa.2 = a := by
    rw [Parser.optionTuples] at h
    split at h <;> obtain ⟨oa, hoa, hs⟩ := List.mem_filterMap.1 h <;> refine ⟨oa, hoa, ?_⟩
    · split_ifs at hs
      exact (Prod.mk.inj (Option.some.inj hs)).1
    · split_ifs at hs
      · exact (Prod.mk.inj (Option.some.inj hs)).1
      · exact (Prod.mk.inj (Option.some.inj hs)).1
  obtain ⟨⟨o', b⟩, hm, rfl⟩ := key
  exact mem_of_mem_optionStrings hm

theorem mem_of_parseAbbreviation {o : Str} {e : Parser.Explicit}
    (h : p.parseAbbreviation s = .ok (.option a o e)) : a ∈ p.actions := by
  rw [Parser.parseAbbreviation] at h
  split at h
  · cases h
  · rename_i b o' e' htuples
    cases h
    exact mem_of_optionTuples (htuples ▸ List.mem_singleton_self _)
  · split_ifs at h <;> cases h

theorem mem_of_parseOptional {o : Str} {e : Parser.Explicit}
    (h : p.parseOptional s = .ok (.option a o e)) : a ∈ p.actions := by
  rw [Parser.parseOptional] at h
  split at h
  · cases h
  · split at h
    · rename_i b hb
      cases h
      exact mem_of_find? hb
    · split at h
      · cases h
      · split at h
        · rename_i b v hb hv
          cases h
          exact mem_of_find? hb
        · exact mem_of_parseAbbreviation h

/-- The options among the strings are the parser's. -/
theorem mem_of_classify {ts : List (Str × Parser.Token)} (h : p.classify args = .ok ts) {o : Str}
    {e : Parser.Explicit} (hm : (s, .option a o e) ∈ ts) : a ∈ p.actions := by
  induction args generalizing ts with
  | nil =>
      cases h
      cases hm
  | cons s' ss ih =>
      rw [Parser.classify] at h
      split_ifs at h
      · cases h
        simp at hm
      · cases htok : p.parseOptional s' with
        | error e => rw [htok] at h; cases h
        | ok token =>
            cases hrest : p.classify ss with
            | error e => rw [htok, hrest] at h; cases h
            | ok us =>
                rw [htok, hrest] at h
                cases h
                rcases List.mem_cons.1 hm with heq | hm
                · cases heq
                  exact mem_of_parseOptional htok
                · exact ih hrest hm

/-- What one string gives is the parser's own. -/
structure Cluster.Valid (p : Parser) (k : Cluster) : Prop where
  taken : ∀ o ∈ k.taken, p.Takes o
  wants : p.Wants k.wanting

theorem valid_single (h : a ∈ p.actions) : (Cluster.single a).Valid p := by
  rw [Cluster.single]
  split_ifs with hv
  · refine ⟨by simp, ?_⟩
    rintro b hb
    obtain rfl : a = b := Option.some.inj hb
    exact ⟨h, hv⟩
  · refine ⟨?_, by simp [Parser.Wants]⟩
    rintro o ho
    obtain rfl := List.mem_singleton.1 ho
    exact ⟨h, by simpa [Occurrence.value?, Occurrence.action] using hv⟩

theorem Cluster.Valid.cons {k : Cluster} (hk : k.Valid p) (h : a ∈ p.actions)
    (hv : ¬a.takesValue = true) : (k.cons a).Valid p := by
  refine ⟨?_, hk.wants⟩
  rintro o ho
  rcases List.mem_cons.1 ho with rfl | ho
  · exact ⟨h, by simpa [Occurrence.value?, Occurrence.action] using hv⟩
  · exact hk.taken o ho

theorem valid_cluster {k : Cluster} {o v : Str} {eq : Bool} (h : p.cluster a o eq v = .ok k)
    (ha : a ∈ p.actions) : k.Valid p := by
  fun_induction p.cluster a o eq v generalizing k with
  | case1 a o eq v hv =>
      cases h
      refine ⟨?_, by simp [Parser.Wants]⟩
      rintro o ho
      obtain rfl := List.mem_singleton.1 ho
      exact ⟨ha, by simpa [Occurrence.value?, Occurrence.action] using hv⟩
  | case2 a o eq hv => cases h
  | case3 a o eq hv c v hc => cases h
  | case4 a o eq hv c v hc hfind =>
      cases h
      exact (Cluster.Valid.mk (k := ⟨[], none, _⟩) (by simp) (by simp [Parser.Wants])).cons ha hv
  | case5 a o eq hv c hc b hfind =>
      cases h
      exact (valid_single (mem_of_find? hfind)).cons ha hv
  | case6 a o eq hv c hc b v hfind ih =>
      obtain ⟨k', hk', rfl⟩ := map_eq_ok h
      exact (ih hk' (mem_of_find? hfind)).cons ha hv
  | case7 a o eq hv c v hc b hne heq hfind ih =>
      obtain ⟨k', hk', rfl⟩ := map_eq_ok h
      exact (ih hk' (mem_of_find? hfind)).cons ha hv

/-- **What a parser takes** is its own: every option with a value if it takes one,
and none that prints a help text. -/
theorem takes_of_scan {w : Option Action} {ts : List (Str × Parser.Token)}
    {r : List Occurrence × List Str} (h : p.scan w ts = .ok r) (hw : p.Wants w)
    (hts : ∀ s a o e, (s, Parser.Token.option a o e) ∈ ts → a ∈ p.actions) :
    ∀ o ∈ r.1, p.Takes o ∧ o.action.kind ≠ .help := by
  fun_induction p.scan w ts generalizing r with
  | case1 =>
      cases h
      simp
  | case2 a => cases h
  | case3 a v ts ih =>
      obtain ⟨⟨occs, extras⟩, hscan, hr⟩ := bind_eq_ok h
      cases hr
      obtain ⟨ha, hv⟩ := hw a rfl
      rw [List.forall_mem_cons]
      refine ⟨⟨⟨ha, hv.symm⟩, ?_⟩, ih hscan (by simp [Parser.Wants]) fun s a o e hm =>
        hts s a o e (List.mem_cons_of_mem _ hm)⟩
      intro hk
      simp only [Occurrence.action] at hk
      simp [Action.takesValue, hk] at hv
  | case4 a t ts hne => cases h
  | case5 s a o e ts ih =>
      obtain ⟨k, hk, h⟩ := bind_eq_ok h
      split_ifs at h with hhelp
      obtain ⟨⟨occs, extras⟩, hscan, hr⟩ := bind_eq_ok h
      cases hr
      have hvalid : k.Valid p := by
        have ha := hts s a o e (List.mem_cons_self ..)
        cases e with
        | none =>
            cases hk
            exact valid_single ha
        | some v => exact valid_cluster hk ha
      rw [List.forall_mem_append]
      refine ⟨fun occ hocc => ⟨hvalid.taken occ hocc, ?_⟩, ih k hscan hvalid.wants
        fun s a o e hm => hts s a o e (List.mem_cons_of_mem _ hm)⟩
      intro hkind
      exact hhelp (List.any_eq_true.2 ⟨occ, hocc, by simp [hkind]⟩)
  | case6 s t ts hne ih =>
      obtain ⟨⟨occs, extras⟩, hscan, hr⟩ := bind_eq_ok h
      cases hr
      exact ih (r := (occs, extras)) hscan (by simp [Parser.Wants]) fun s a o e hm =>
        hts s a o e (List.mem_cons_of_mem _ hm)

theorem takes_of_occurrences {r : List Occurrence × List Str} (h : p.occurrences args = .ok r) :
    ∀ o ∈ r.1, p.Takes o ∧ o.action.kind ≠ .help := by
  obtain ⟨ts, hts, hscan⟩ := bind_eq_ok h
  exact takes_of_scan hscan (by simp [Parser.Wants]) fun s a o e hm => mem_of_classify hts hm

/-! ### What is given -/

/-- The default for an attribute. -/
def Parser.default? (p : Parser) (d : Str) : Option Value :=
  (p.actions.filterMap fun a => if a.dest = d then a.default else none).head?

theorem default?_eq {v : Value} (h : ∀ a ∈ p.actions, a.dest = d → a.default = some v)
    (ha : ∃ a ∈ p.actions, a.dest = d) : p.default? d = some v := by
  have hall : ∀ w ∈ p.actions.filterMap fun a => if a.dest = d then a.default else none, w = v := by
    intro w hw
    obtain ⟨a, ha, hw⟩ := List.mem_filterMap.1 hw
    split_ifs at hw with hd
    exact Option.some.inj (hw.symm.trans (h a ha hd))
  obtain ⟨a, ha, hd⟩ := ha
  have hmem : v ∈ p.actions.filterMap fun a => if a.dest = d then a.default else none :=
    List.mem_filterMap.2 ⟨a, ha, by rw [if_pos hd, h a ha hd]⟩
  obtain ⟨w, ws, hws⟩ := List.exists_cons_of_ne_nil (List.ne_nil_of_mem hmem)
  rw [Parser.default?, hws, List.head?_cons, hall w (hws ▸ List.mem_cons_self ..)]

theorem get?_addDefaults (p : Parser) (ns : Namespace) (d : Str) :
    (p.addDefaults ns).get? d = (ns.get? d).or (p.default? d) := by
  rw [Parser.addDefaults, Parser.default?]
  induction p.actions generalizing ns with
  | nil => simp
  | cons a as ih =>
      rw [List.foldl_cons, ih, List.filterMap_cons]
      by_cases hd : a.dest = d
      · subst hd
        cases hns : ns.get? a.dest with
        | none => cases a.default <;> simp [hns, Dict.get?_set]
        | some v => simp [hns]
      · rw [if_neg hd]
        cases hns : ns.get? a.dest with
        | none =>
            cases hdef : a.default with
            | none => simp
            | some v => simp [Dict.get?_set, Ne.symm hd]
        | some v => simp

/-- The value that a list of arguments gives to an option: the last one. -/
def given (p : Parser) (args : List Str) (d : Str) : Option Value :=
  match p.occurrences args with
  | .ok (occs, _) => lastStored d occs
  | .error _ => none

/-- All values that a list of arguments gives to an option. -/
def givenAll (p : Parser) (args : List Str) (d : Str) : List Str :=
  match p.occurrences args with
  | .ok (occs, _) => collected d occs
  | .error _ => []

variable {ns ns' : Namespace} {extras : List Str}

theorem parseKnownArgs_eq_ok (h : parseKnownArgs p args ns = .ok (ns', extras)) :
    ∃ occs, p.occurrences args = .ok (occs, extras) ∧ ns' = occs.foldl take (p.addDefaults ns) := by
  obtain ⟨⟨occs, ex⟩, hocc, hr⟩ := bind_eq_ok h
  cases hr
  exact ⟨occs, hocc, rfl⟩

/-- **The namespace of `parse_known_args`**: the value given last, or else what
was there, or else the default. -/
theorem get?_parseKnownArgs (h : parseKnownArgs p args ns = .ok (ns', extras))
    (hd : ∀ a ∈ p.actions, a.dest = d → a.kind ≠ .append) :
    ns'.get? d = (given p args d).or ((ns.get? d).or (p.default? d)) := by
  obtain ⟨occs, hocc, rfl⟩ := parseKnownArgs_eq_ok h
  have htakes := takes_of_occurrences hocc
  rw [given, hocc, get?_foldl_take fun o ho => hd _ (htakes o ho).1.mem, get?_addDefaults]

/-- An option that appends, alone with its name, holds all values given, and
`None` if there is none. -/
theorem get?_parseKnownArgs_append (h : parseKnownArgs p args Dict.empty = .ok (ns', extras))
    (hd : ∀ a ∈ p.actions, a.dest = d → a.kind = .append) (ha : ∃ a ∈ p.actions, a.dest = d) :
    ns'.get? d =
      some (if givenAll p args d = [] then .none else .list (givenAll p args d)) := by
  obtain ⟨occs, hocc, rfl⟩ := parseKnownArgs_eq_ok h
  have htakes := takes_of_occurrences hocc
  have hdefault : (p.addDefaults Dict.empty).get? d = some .none := by
    rw [get?_addDefaults, Dict.get?_empty, Option.none_or]
    exact default?_eq (fun a hm hda => by rw [Action.default, hd a hm hda]) ha
  rw [givenAll, hocc]
  refine get?_foldl_take_append (l := []) (fun o ho hod => ?_) hdefault
  have hk := hd _ (htakes o ho).1.mem hod
  exact ⟨hk, (htakes o ho).1.value.trans (by simp [Action.takesValue, hk])⟩

end Argparse
end WorkerNg
