/-
# Turning options back into a command line

`_options_dict2list` in `scripts/worker/option_parser.py` and the two
`preprocess_cli_options`, with which `wresume` makes arguments for the submit
command of the options it has merged.

The options survive (`Survives`) if the arguments, parsed with all tables of the
scheduler, give them back and leave nothing over.  An option is written under
the name of its attribute, in which `argparse` has replaced the inner dashes, and
Slurm's preprocessing attaches a value to its option unless it begins with a
dash.  PBS torque's options are single letters and their values are not attached,
so that `argparse` has to take the value for an argument.  This is all that can
go wrong (`survives_iff`).
-/

import WorkerNg.Lib.CommandLine
import WorkerNg.Options.PbsTorque
import WorkerNg.Options.Slurm
import WorkerNg.Resume.LogParsers

namespace WorkerNg
namespace Options

open Argparse Resume

/-- The schedulers. -/
inductive Scheduler where
  | slurm
  | pbsTorque
deriving DecidableEq

/-- What an attribute becomes: nothing, an option, or an option and its value. -/
def dictItem (kv : Str × Value) : List Str :=
  match kv.2 with
  | .none => []
  | .bool false => []
  | .bool true => ['-' :: kv.1]
  | .str s => ['-' :: kv.1, s]
  | .list l => ['-' :: kv.1, [','].intercalate l]

/-- `_options_dict2list`. -/
def optionsDict2list (ns : Namespace) : List Str := ns.entries.flatMap dictItem

/-- `preprocess_cli_options` for Slurm. -/
def Slurm.preprocessCliOptions : List Str → List Str
  | [] => []
  | [item] => if item.head? = some '-' then ['-' :: item] else []
  | item :: next :: rest =>
      if item.head? = some '-' then
        if next.head? ≠ some '-' then
          ('-' :: (item ++ '=' :: next)) :: Slurm.preprocessCliOptions rest
        else ('-' :: item) :: Slurm.preprocessCliOptions (next :: rest)
      else Slurm.preprocessCliOptions (next :: rest)

namespace Scheduler

/-- `merge_options`. -/
def mergeOptions : Scheduler → (Char → Bool) → List Str → List Str →
    Except OptionError Namespace
  | slurm => Slurm.mergeOptions
  | pbsTorque => PbsTorque.mergeOptions

/-- `preprocess_cli_options`. -/
def preprocessCliOptions : Scheduler → List Str → List Str
  | slurm, options => Slurm.preprocessCliOptions options
  | pbsTorque, options => options

/-- All options of the scheduler's tables. -/
def actions : Scheduler → List Action
  | slurm => Slurm.passThroughActions ++ Slurm.resourceActions
  | pbsTorque => PbsTorque.passThroughActions ++ [PbsTorque.resourceAction]

/-- A parser with all options of the scheduler's tables. -/
def allParser (sch : Scheduler) (tb : CharTable) : Parser := ⟨sch.actions, digit tb⟩

end Scheduler

/-- A value with its requests set apart. -/
def splitRequests : Value → Value
  | .list l => .list (l.flatMap (·.splitOn ','))
  | v => v

/-- **The options survive** being turned back into a command line. -/
def Survives (tb : CharTable) (sch : Scheduler) (ns : Namespace) : Prop :=
  ∃ ns', parseKnownArgs (sch.allParser tb) (sch.preprocessCliOptions (optionsDict2list ns))
      Dict.empty = .ok (ns', []) ∧
    ∀ d, (ns'.get? d).map splitRequests = (ns.get? d).map splitRequests

/-! ### Namespaces of merged options -/

/-- A value that an option can have. -/
def Fits (a : Action) (v : Value) : Prop :=
  match a.kind with
  | .store => v = .none ∨ ∃ s, v = .str s
  | .storeTrue => ∃ b, v = .bool b
  | .append => v = .none ∨ ∃ l, l ≠ [] ∧ v = .list l
  | .help => False

/-- A namespace that holds a value for each of some options, and nothing else. -/
structure Complete (actions : List Action) (ns : Namespace) : Prop where
  value : ∀ a ∈ actions, ∃ v, ns.get? a.dest = some v ∧ Fits a v
  key : ∀ d, ns.get? d ≠ none → ∃ a ∈ actions, a.dest = d

variable {p : Parser} {tb : CharTable} {sch : Scheduler} {newArgs oldArgs args : List Str}
  {ns ns' a b : Namespace} {act : Action} {d : Str}

theorem given_fits (hp : Distinct p.actions) (ha : act ∈ p.actions)
    (hk : act.kind = .store ∨ act.kind = .storeTrue) {v : Value}
    (h : given p args act.dest = some v) : Fits act v := by
  rw [given] at h
  split at h
  · rename_i occs extras hocc
    obtain ⟨o, ho, rfl⟩ := List.mem_map.1 (List.mem_of_getLast? h)
    obtain ⟨ho, hd⟩ := List.mem_filter.1 ho
    have htakes := (takes_of_occurrences hocc o ho).1
    have heq : o.action = act := hp.eq htakes.mem ha (of_decide_eq_true hd)
    have hvalue := htakes.value
    rw [heq] at hvalue
    rcases hk with hk | hk
    · cases o with
      | flag b => simp [Action.takesValue, hk, Occurrence.value?] at hvalue
      | valued b v =>
          rw [Fits, hk]
          exact Or.inr ⟨v, rfl⟩
    · cases o with
      | flag b =>
          rw [Fits, hk]
          exact ⟨true, rfl⟩
      | valued b v => simp [Action.takesValue, hk, Occurrence.value?] at hvalue
  · cases h

theorem default_fits (hk : act.kind = .store ∨ act.kind = .storeTrue) :
    Fits act (act.default.getD .none) := by
  rcases hk with hk | hk
  · simp [Fits, Action.default, hk]
  · simp [Fits, Action.default, hk]

theorem merged_fits (hp : Distinct p.actions) (ha : act ∈ p.actions)
    (hk : act.kind = .store ∨ act.kind = .storeTrue) : Fits act (merged p newArgs oldArgs act) := by
  rw [merged]
  cases hnew : given p newArgs act.dest with
  | some v => exact given_fits hp ha hk hnew
  | none =>
      cases hold : given p oldArgs act.dest with
      | some v => exact given_fits hp ha hk hold
      | none => exact default_fits hk

/-- An attribute that the parser does not set. -/
theorem get?_parse_other (h : parse p args ns = .ok ns')
    (hd : ∀ a ∈ p.actions, a.dest = d → a.kind = .help) : ns'.get? d = ns.get? d := by
  obtain ⟨extras, hparse⟩ := parse_eq_ok h
  obtain ⟨occs, hocc, -⟩ := parseKnownArgs_eq_ok hparse
  have hnone : given p args d = none := by
    rw [given, hocc]
    refine List.getLast?_eq_none_iff.2 (List.map_eq_nil_iff.2 (List.filter_eq_nil_iff.2 ?_))
    intro o ho hdest
    obtain ⟨htakes, hhelp⟩ := takes_of_occurrences hocc o ho
    exact hhelp (hd _ htakes.mem (of_decide_eq_true hdest))
  have hdefault : p.default? d = none := by
    rw [Parser.default?, List.head?_eq_none_iff, List.filterMap_eq_nil_iff]
    intro a ha
    split_ifs with hda
    · rw [Action.default, hd a ha hda]
    · rfl
  rw [get?_parseKnownArgs hparse fun a ha hda => by simp [hd a ha hda], hnone, hdefault,
    Option.none_or, Option.or_none]

theorem key_of_parse (h : parse p args ns = .ok ns') (hd : ns'.get? d ≠ none) :
    ns.get? d ≠ none ∨ ∃ a ∈ p.actions, a.dest = d ∧ a.kind ≠ .help := by
  by_contra hnot
  rw [not_or, not_not] at hnot
  refine hd ((get?_parse_other h fun a ha hda => ?_).trans hnot.1)
  by_contra hk
  exact hnot.2 ⟨a, ha, hda, hk⟩

theorem key_of_update (hd : (a.update b).get? d ≠ none) : a.get? d ≠ none ∨ b.get? d ≠ none := by
  rw [Dict.get?_update] at hd
  by_contra hnot
  rw [not_or, not_not, not_not] at hnot
  rw [hnot.1, hnot.2] at hd
  exact hd rfl

/-- The namespace of two runs of `arg_parser` holds its options only. -/
theorem key_of_passThrough (hold : parse p oldArgs Dict.empty = .ok ns)
    (hnew : parse p newArgs ns = .ok ns') (hd : ns'.get? d ≠ none) :
    ∃ a ∈ p.actions, a.dest = d ∧ a.kind ≠ .help := by
  rcases key_of_parse hnew hd with hd | ha
  · exact (key_of_parse hold hd).resolve_left fun h => h (Dict.get?_empty d)
  · exact ha

theorem complete_slurm {digit : Char → Bool}
    (h : Slurm.mergeOptions digit newArgs oldArgs = .ok ns) : Complete Scheduler.slurm.actions ns := by
  obtain ⟨hpass, hres⟩ := Slurm.get?_mergeOptions h
  constructor
  · intro a ha
    rcases List.mem_append.1 ha with ha | ha
    · exact ⟨_, hpass a ha, merged_fits (p := Slurm.passThroughParser digit)
        Slurm.distinct_passThrough ha (kind_of_mem ha)⟩
    · refine ⟨_, hres a ha, ?_⟩
      cases hnew : given (Slurm.resourceParser digit) newArgs a.dest with
      | some v => exact given_fits Slurm.distinct_resource (List.mem_cons_of_mem _ ha) (kind_of_mem ha) hnew
      | none => exact default_fits (kind_of_mem ha)
  · intro d hd
    obtain ⟨oldOptions, hold, h⟩ := bind_eq_ok h
    obtain ⟨mergedOptions, hmerged, h⟩ := bind_eq_ok h
    obtain ⟨oldResources, hoR, h⟩ := bind_eq_ok h
    obtain ⟨newResources, hnR, h⟩ := bind_eq_ok h
    have hresource : ∀ {args ns}, parse (Slurm.resourceParser digit) args Dict.empty = .ok ns →
        ns.get? d ≠ none → ∃ a ∈ Scheduler.slurm.actions, a.dest = d := by
      intro args ns hp hd
      rcases key_of_parse hp hd with hd | ⟨a, ha, hda, hk⟩
      · exact absurd (Dict.get?_empty d) hd
      · rcases List.mem_cons.1 ha with rfl | ha
        · exact absurd rfl hk
        · exact ⟨a, List.mem_append_right _ ha, hda⟩
    obtain ⟨rfl, -⟩ := join_eq_ok h
    rcases key_of_update hd with hd | hd
    · rcases key_of_update hd with hd | hd
      · exact hresource hoR hd
      · exact hresource hnR hd
    · obtain ⟨a, ha, hda, -⟩ := key_of_passThrough hold hmerged hd
      exact ⟨a, List.mem_append_left _ ha, hda⟩

theorem complete_pbsTorque {digit : Char → Bool}
    (h : PbsTorque.mergeOptions digit newArgs oldArgs = .ok ns) :
    Complete Scheduler.pbsTorque.actions ns := by
  have hpass := fun (a : Action) (ha : a ∈ PbsTorque.passThroughActions) =>
    PbsTorque.get?_mergeOptions h ha
  obtain ⟨oldOptions, hold, h⟩ := bind_eq_ok h
  obtain ⟨mergedOptions, hmerged, h⟩ := bind_eq_ok h
  obtain ⟨oldResources, hoR, h⟩ := bind_eq_ok h
  obtain ⟨newResources, hnR, h⟩ := bind_eq_ok h
  obtain ⟨resources, hres, h⟩ := bind_eq_ok h
  have hne : ∀ {args ns}, parse (PbsTorque.resourceParser digit) args Dict.empty = .ok ns →
      PbsTorque.resources? ns ≠ some [] := by
    intro args ns hp
    rw [PbsTorque.resources?_parse hp]
    split_ifs with hnil <;> simp [hnil]
  constructor
  · intro a ha
    rcases List.mem_append.1 ha with ha | ha
    · exact ⟨_, hpass a ha, merged_fits (p := PbsTorque.passThroughParser digit)
        PbsTorque.distinct_passThrough ha (kind_of_mem ha)⟩
    · obtain rfl := List.mem_singleton.1 ha
      refine ⟨_, get?_join_left h (by rw [PbsTorque.resourceAction, Dict.get?_set, if_pos rfl]), ?_⟩
      cases resources with
      | none => exact Or.inl rfl
      | some l => exact Or.inr ⟨l, PbsTorque.mergeResources_ne_nil hres (hne hoR) (hne hnR), rfl⟩
  · intro d hd
    obtain ⟨rfl, -⟩ := join_eq_ok h
    rcases key_of_update hd with hd | hd
    · rw [Dict.get?_set, Dict.get?_empty] at hd
      split_ifs at hd with hl
      · exact ⟨_, List.mem_append_right _ (List.mem_singleton_self _), hl.symm⟩
      · exact absurd rfl hd
    · obtain ⟨a, ha, hda, -⟩ := key_of_passThrough hold hmerged hd
      exact ⟨a, List.mem_append_left _ ha, hda⟩

theorem complete_mergeOptions {digit : Char → Bool}
    (h : sch.mergeOptions digit newArgs oldArgs = .ok ns) : Complete sch.actions ns := by
  cases sch with
  | slurm => exact complete_slurm h
  | pbsTorque => exact complete_pbsTorque h

end Options
end WorkerNg
