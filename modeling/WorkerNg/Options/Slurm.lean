/-
# Merging Slurm options

`SlurmOptionParser.merge_options` in `scripts/worker/slurm/option_parser.py`.

The options and flags that are passed through are merged by parsing, as
`Options.Merge` says.  The resources are merged by `dict.update` of the
namespace of the old list with that of the new one.  That namespace holds a
default for every option that the new list does not give, so the old value is
always overwritten, be it with `None` or `False`: new options override old ones,
and old ones are kept (`Overrides`), exactly if every resource asked for in the
old list is asked for in the new one as well (`overrides_iff`).
-/

import WorkerNg.Options.Merge

namespace WorkerNg
namespace Options
namespace Slurm

open Argparse

/-- `pass_through_options`. -/
def passThroughOptions : List (List Str) :=
  spelled [["-A", "--account"], ["--batch"], ["-b", "--begin"], ["-D", "--chdir"],
    ["-L", "--licenses"], ["-M", "--cluster"], ["--comment"],
    ["-d", "--dependency"], ["-m", "--distribution"], ["-e", "--error"],
    ["--mail-type"], ["--mail-user"], ["--network"], ["--nice"], ["-k", "--no-kill"],
    ["--open-mode"], ["-o", "--output"], ["-p", "--partition"], ["--prefer"],
    ["--priority"], ["-q", "--qos"], ["--reservation"],
    ["-t", "--time"], ["--time-min"], ["--tmp"], ["--wait-all-nodes"]]

/-- `pass_through_flags`. -/
def passThroughFlags : List (List Str) :=
  spelled [["-h", "--help"], ["-H", "--hold"], ["--ignore-pbs"], ["--no-requeue"],
    ["-Q", "--quiet"], ["--reboot"], ["--requeue"], ["--test-only"],
    ["--usage"], ["--use-min-nodes"], ["-v", "--verbose"], ["-V", "--version"],
    ["-W", "--wait"]]

/-- `resource_options`. -/
def resourceOptions : List (List Str) :=
  spelled [["-c", "--cpus-per-task"], ["--gpu-bind"], ["-G", "--gpus"],
    ["--gpus-per-socket"], ["--gpus-per-node"], ["--gpus-per-task"], ["--hint"],
    ["--mem"], ["--mem-bind"], ["--mem-per-cpu"], ["--mem-per-gpu"],
    ["-N", "--nodes"], ["-n", "--ntasks"], ["--ntasks-per-core"],
    ["--ntasks-per-gpu"], ["--ntasks-per-node"], ["--ntasks-per-socket"],
    ["--propagate"], ["--sockets-per-node"], ["--threads-per-core"]]

/-- `resource_flags`. -/
def resourceFlags : List (List Str) :=
  spelled [["--contiguous"], ["-O", "--overcommit"], ["-s", "--oversubscribe"],
    ["--spread-job"]]

/-- The options of `arg_parser` in `merge_options`. -/
def passThroughActions : List Action :=
  passThroughOptions.map (addArgument .store) ++ passThroughFlags.map (addArgument .storeTrue)

/-- The options of `resource_parser`, without `--help`. -/
def resourceActions : List Action :=
  resourceOptions.map (addArgument .store) ++ resourceFlags.map (addArgument .storeTrue)

/-- `arg_parser` in `merge_options`. -/
def passThroughParser (digit : Char → Bool) : Parser := ⟨passThroughActions, digit⟩

/-- `resource_parser` in `merge_options`. -/
def resourceParser (digit : Char → Bool) : Parser := ⟨helpAction :: resourceActions, digit⟩

/-- `_merge_resources`. -/
def mergeResources : Option Namespace → Option Namespace → Option Namespace
  | none, newResources => newResources
  | some oldResources, none => some oldResources
  | some oldResources, some newResources => some (oldResources.update newResources)

/-- `SlurmOptionParser.merge_options`. -/
def mergeOptions (digit : Char → Bool) (newArgs oldArgs : List Str) :
    Except OptionError Namespace := do
  let oldOptions ← parse (passThroughParser digit) oldArgs Dict.empty
  let mergedOptions ← parse (passThroughParser digit) newArgs oldOptions
  let oldResources ← parse (resourceParser digit) oldArgs Dict.empty
  let newResources ← parse (resourceParser digit) newArgs Dict.empty
  match mergeResources (some oldResources) (some newResources) with
  | none => .error .typeError  -- `vars(None)`
  | some resources => join resources mergedOptions

/-! ### Overriding and keeping -/

/-- **New options override old ones, and keep them otherwise**, for all four tables. -/
structure Overrides (digit : Char → Bool) (newArgs oldArgs : List Str) (ns : Namespace) :
    Prop where
  passThrough : ∀ a ∈ passThroughActions,
    ns.get? a.dest = some (merged (passThroughParser digit) newArgs oldArgs a)
  resource : ∀ a ∈ resourceActions,
    ns.get? a.dest = some (merged (resourceParser digit) newArgs oldArgs a)

theorem distinct_passThrough : Distinct passThroughActions := by decide +kernel

theorem distinct_resource : Distinct (helpAction :: resourceActions) := by decide +kernel

variable {digit : Char → Bool} {newArgs oldArgs : List Str} {ns : Namespace}

/-- **What `merge_options` returns**: merged options, and the resources of the new
list alone. -/
theorem get?_mergeOptions (h : mergeOptions digit newArgs oldArgs = .ok ns) :
    (∀ a ∈ passThroughActions,
      ns.get? a.dest = some (merged (passThroughParser digit) newArgs oldArgs a)) ∧
    ∀ a ∈ resourceActions, ns.get? a.dest =
      some ((given (resourceParser digit) newArgs a.dest).getD (a.default.getD .none)) := by
  obtain ⟨oldOptions, hold, h⟩ := bind_eq_ok h
  obtain ⟨mergedOptions, hmerged, h⟩ := bind_eq_ok h
  obtain ⟨oldResources, hoR, h⟩ := bind_eq_ok h
  obtain ⟨newResources, hnR, h⟩ := bind_eq_ok h
  change join (oldResources.update newResources) mergedOptions = .ok ns at h
  constructor
  · intro a ha
    exact get?_join_right h (get?_merged distinct_passThrough hold hmerged ha (kind_of_mem ha))
  · intro a ha
    have hnew := get?_parse distinct_resource hnR (List.mem_cons_of_mem _ ha) (kind_of_mem ha)
    rw [Dict.get?_empty, Option.or_none] at hnew
    refine get?_join_left h ?_
    rw [Dict.get?_update, hnew, Option.some_or]

/-- **When old resources are kept.**  For any two lists of arguments that
`merge_options` accepts, the options are as they should be exactly if the new
list gives every resource option and flag that the old one gives. -/
theorem overrides_iff (h : mergeOptions digit newArgs oldArgs = .ok ns) :
    Overrides digit newArgs oldArgs ns ↔ ∀ a ∈ resourceActions,
      given (resourceParser digit) oldArgs a.dest ≠ none →
        given (resourceParser digit) newArgs a.dest ≠ none := by
  obtain ⟨hpass, hres⟩ := get?_mergeOptions h
  constructor
  · intro ho a ha hold hnew
    have hmerged := ho.resource a ha
    rw [hres a ha, merged, hnew, Option.none_or, Option.getD_none, Option.some_inj] at hmerged
    obtain ⟨v, hv⟩ := Option.ne_none_iff_exists'.1 hold
    rw [hv, Option.getD_some] at hmerged
    -- what the old list gives is not a default
    obtain ⟨hnone, hfalse⟩ := given_ne_default hv
    rcases kind_of_mem ha with hk | hk
    · rw [Action.default, hk] at hmerged
      exact hnone hmerged.symm
    · rw [Action.default, hk] at hmerged
      exact hfalse hmerged.symm
  · intro hall
    refine ⟨hpass, fun a ha => ?_⟩
    rw [hres a ha, merged]
    cases hnew : given (resourceParser digit) newArgs a.dest with
    | some v => rfl
    | none =>
        have hold : given (resourceParser digit) oldArgs a.dest = none := by
          by_contra hold
          exact hall a ha hold hnew
        rw [hold]
        rfl

/-- The number of nodes is asked for anew. -/
theorem overrides_newNodes :
    ∃ ns, mergeOptions Char.isDigit ["-N".toList, "4".toList, "--time=1".toList]
        ["--nodes=2".toList, "--hold".toList] = .ok ns ∧
      Overrides Char.isDigit ["-N".toList, "4".toList, "--time=1".toList]
        ["--nodes=2".toList, "--hold".toList] ns := by
  have hok : (mergeOptions Char.isDigit ["-N".toList, "4".toList, "--time=1".toList]
      ["--nodes=2".toList, "--hold".toList]).isOk = true := by decide +kernel
  obtain ⟨ns, h⟩ := exists_of_isOk hok
  refine ⟨ns, h, (overrides_iff h).2 ?_⟩
  decide +kernel

/-- **The number of nodes is forgotten** when a job is resumed without asking for it
again. -/
theorem exists_not_overrides :
    ∃ ns, mergeOptions Char.isDigit [] ["--nodes=2".toList] = .ok ns ∧
      ¬Overrides Char.isDigit [] ["--nodes=2".toList] ns := by
  have hok : (mergeOptions Char.isDigit [] ["--nodes=2".toList]).map
      (fun ns => ns.get? "nodes".toList) = .ok (some .none) := by decide +kernel
  obtain ⟨ns, h, hns⟩ := map_eq_ok hok
  refine ⟨ns, h, fun ho => ?_⟩
  have hmerged := ho.resource (addArgument .store ["-N".toList, "--nodes".toList]) (by decide +kernel)
  have hdest : (addArgument .store ["-N".toList, "--nodes".toList]).dest = "nodes".toList := by
    decide +kernel
  have htwo : merged (resourceParser Char.isDigit) [] ["--nodes=2".toList]
      (addArgument .store ["-N".toList, "--nodes".toList]) = .str "2".toList := by decide +kernel
  rw [hdest, hns, htwo] at hmerged
  cases hmerged

end Slurm
end Options
end WorkerNg
