/-
# Merging two lists of scheduler options

What the two `merge_options` have in common: the options that a scheduler's
submit command is passed are parsed from the old list of arguments, and the new
list is parsed into the namespace that this gives.  For every option declared
the outcome is the new value, or else the old one, or else the default
(`get?_merged`).

A parser is described by its table of options, in which no two options keep
their values under the same name (`Distinct`).
-/

import WorkerNg.Lib.Argparse

namespace WorkerNg
namespace Options

open Argparse

/-- How `merge_options` can fail: as `argparse` does, on two attributes of one
name, or on a request without a value. -/
inductive OptionError where
  | exit (e : Exit)
  | typeError
  | valueError
deriving DecidableEq

/-- `parse_known_args`, without the arguments left over. -/
def parse (p : Parser) (args : List Str) (ns : Namespace) : Except OptionError Namespace :=
  match parseKnownArgs p args ns with
  | .ok (ns, _) => .ok ns
  | .error e => .error (.exit e)

/-- `argparse.Namespace(**vars(a), **vars(b))`: no attribute may be in both. -/
def join (a b : Namespace) : Except OptionError Namespace :=
  if a.entries.any fun e => (b.get? e.1).isSome then .error .typeError else .ok (a.update b)

/-- The options as the tables of the source spell them. -/
def spelled (names : List (List String)) : List (List Str) := names.map (·.map String.toList)

/-- `--help`, which a parser has unless it is told not to. -/
def helpAction : Action := addArgument .help ["-h".toList, "--help".toList]

/-- No two options keep their values under one name. -/
def Distinct (actions : List Action) : Prop := (actions.map Action.dest).Nodup

instance (actions : List Action) : Decidable (Distinct actions) :=
  inferInstanceAs (Decidable (List.Nodup _))

/-- **What the merged options should hold**: the new value, or else the old one, or
else the default. -/
def merged (p : Parser) (newArgs oldArgs : List Str) (a : Action) : Value :=
  ((given p newArgs a.dest).or (given p oldArgs a.dest)).getD (a.default.getD .none)

variable {p : Parser} {newArgs oldArgs args : List Str} {ns ns' a b : Namespace} {act : Action}
  {d : Str}

theorem Distinct.eq {actions : List Action} (h : Distinct actions) {x y : Action}
    (hx : x ∈ actions) (hy : y ∈ actions) (hd : x.dest = y.dest) : x = y :=
  List.inj_on_of_nodup_map h hx hy hd

/-- The options of a table store their value, and the flags `True`. -/
theorem kind_of_mem {options flags : List (List Str)} {a : Action}
    (h : a ∈ options.map (addArgument .store) ++ flags.map (addArgument .storeTrue)) :
    a.kind = .store ∨ a.kind = .storeTrue := by
  rcases List.mem_append.1 h with h | h
  · obtain ⟨o, -, rfl⟩ := List.mem_map.1 h
    exact Or.inl rfl
  · obtain ⟨o, -, rfl⟩ := List.mem_map.1 h
    exact Or.inr rfl

theorem parse_eq_ok (h : parse p args ns = .ok ns') :
    ∃ extras, parseKnownArgs p args ns = .ok (ns', extras) := by
  rw [parse] at h
  split at h
  · rename_i ns₀ extras hparse
    cases h
    exact ⟨extras, hparse⟩
  · cases h

/-- An option that stores holds the value given last, or else what it held, or else
the default. -/
theorem get?_parse (hp : Distinct p.actions) (h : parse p args ns = .ok ns')
    (ha : act ∈ p.actions) (hk : act.kind = .store ∨ act.kind = .storeTrue) :
    ns'.get? act.dest = some (((given p args act.dest).or (ns.get? act.dest)).getD
      (act.default.getD .none)) := by
  obtain ⟨extras, hparse⟩ := parse_eq_ok h
  have hdefault : p.default? act.dest = some (act.default.getD .none) :=
    default?_eq (fun x hx hd => by
      rw [hp.eq hx ha hd]
      rcases hk with hk | hk <;> rw [Action.default, hk] <;> rfl) ⟨act, ha, rfl⟩
  rw [get?_parseKnownArgs hparse fun x hx hd => ?_, hdefault, ← Option.or_assoc, Option.or_some]
  rw [hp.eq hx ha hd]
  rcases hk with hk | hk <;> simp [hk]

/-- **New options override old ones**, and keep them otherwise. -/
theorem get?_merged (hp : Distinct p.actions) (hold : parse p oldArgs Dict.empty = .ok ns)
    (hnew : parse p newArgs ns = .ok ns') (ha : act ∈ p.actions)
    (hk : act.kind = .store ∨ act.kind = .storeTrue) :
    ns'.get? act.dest = some (merged p newArgs oldArgs act) := by
  rw [get?_parse hp hnew ha hk, get?_parse hp hold ha hk, Dict.get?_empty, Option.or_none, merged]
  cases given p newArgs act.dest <;> rfl

theorem join_eq_ok (h : join a b = .ok ns) :
    ns = a.update b ∧ ∀ d v, a.get? d = some v → b.get? d = none := by
  rw [join] at h
  split_ifs at h with hdup
  refine ⟨(Except.ok.inj h).symm, fun d v hv => ?_⟩
  by_contra hb
  refine hdup (List.any_eq_true.2 ⟨(d, v), Dict.mem_entries.2 hv, ?_⟩)
  exact Option.ne_none_iff_isSome.1 hb

theorem get?_join_left (h : join a b = .ok ns) {v : Value} (hv : a.get? d = some v) :
    ns.get? d = some v := by
  obtain ⟨rfl, hdis⟩ := join_eq_ok h
  rw [Dict.get?_update, hdis d v hv, hv, Option.none_or]

theorem get?_join_right (h : join a b = .ok ns) {v : Value} (hv : b.get? d = some v) :
    ns.get? d = some v := by
  obtain ⟨rfl, -⟩ := join_eq_ok h
  rw [Dict.get?_update, hv, Option.some_or]

/-- What is given is a text or `True`, and never a default. -/
theorem given_ne_default {v : Value} (h : given p args d = some v) :
    v ≠ .none ∧ v ≠ .bool false := by
  rw [given] at h
  split at h
  · rename_i occs extras hocc
    have hm := List.mem_of_getLast? h
    obtain ⟨o, -, rfl⟩ := List.mem_map.1 hm
    cases o <;> simp [Occurrence.stored]
  · cases h

end Options
end WorkerNg
