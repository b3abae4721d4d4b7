/-
# Merging PBS torque options

`PbsTorqueOptionParser.merge_options` in
`scripts/worker/pbs_torque/option_parser.py`.

The options and flags that are passed through are merged by parsing, as
`Options.Merge` says.  The resources asked for with `-l` are lists of requests
`key=value`, any number of them in one argument, set apart by commas.  If both
lists of arguments have some, they are poured into one dictionary, the new ones
behind the old ones, and written out again, one request in an argument; if one
of them has none, the arguments of the other are kept as they are.

In either case the last request for a key is the last one of the new list, or
else the last one of the old list (`merge_overrides`).
-/

import WorkerNg.Options.Merge

namespace WorkerNg
namespace Options
namespace PbsTorque

open Argparse

/-- `pass_through_options`. -/
def passThroughOptions : List (List Str) :=
  spelled [["-a"], ["-A"], ["-b"], ["-c"], ["-d"], ["-D"], ["-e"], ["-j"], ["-k"], ["-K"], ["-L"],
    ["-m"], ["-M"], ["-n"], ["-N"], ["-o"], ["-p"], ["-P"], ["-q"], ["-r"], ["-S"],
    ["-T"], ["-u"], ["-v"], ["-w"], ["-W"]]

/-- `pass_through_flags`. -/
def passThroughFlags : List (List Str) := spelled [["-V"], ["-h"], ["-f"], ["-F"]]

/-- The options of `arg_parser` in `merge_options`. -/
def passThroughActions : List Action :=
  passThroughOptions.map (addArgument .store) ++ passThroughFlags.map (addArgument .storeTrue)

/-- The name of the resources in a namespace. -/
def resourceDest : Str := ['l']

/-- `-l`. -/
def resourceAction : Action := ⟨[['-', 'l']], resourceDest, .append⟩

/-- `arg_parser` in `merge_options`. -/
def passThroughParser (digit : Char → Bool) : Parser := ⟨passThroughActions, digit⟩

/-- `resource_parser` in `merge_options`. -/
def resourceParser (digit : Char → Bool) : Parser := ⟨[helpAction, resourceAction], digit⟩

/-- `resource_dict[key] = value` for a part `key=value` of a resource. -/
def setPart (resourceDict : Dict Str Str) (part : Str) : Except OptionError (Dict Str Str) :=
  match partition '=' part with
  | (key, some value) => .ok (resourceDict.set key value)
  | (_, none) => .error .valueError  -- not enough values to unpack

/-- `_normalize_resources`. -/
def normalizeResources (resources : List Str) : Except OptionError (Dict Str Str) :=
  resources.foldlM (fun resourceDict resource => (resource.splitOn ',').foldlM setPart resourceDict)
    Dict.empty

/-- A request, written out. -/
def render (kv : Str × Str) : Str := kv.1 ++ '=' :: kv.2

/-- `_merge_resources`. -/
def mergeResources : Option (List Str) → Option (List Str) →
    Except OptionError (Option (List Str))
  | none, newResources => .ok newResources
  | some oldResources, none => .ok (some oldResources)
  | some oldResources, some newResources => do
      let resources ← normalizeResources oldResources
      let newDict ← normalizeResources newResources
      return some ((resources.update newDict).entries.map render)

/-- The attribute `l`. -/
def resources? (ns : Namespace) : Option (List Str) :=
  match ns.get? resourceDest with
  | some (.list resources) => some resources
  | _ => none

/-- The value of the attribute `l`. -/
def resourceValue : Option (List Str) → Value
  | none => .none
  | some resources => .list resources

/-- `PbsTorqueOptionParser.merge_options`. -/
def mergeOptions (digit : Char → Bool) (newArgs oldArgs : List Str) :
    Except OptionError Namespace := do
  let oldOptions ← parse (passThroughParser digit) oldArgs Dict.empty
  let mergedOptions ← parse (passThroughParser digit) newArgs oldOptions
  let oldResources ← parse (resourceParser digit) oldArgs Dict.empty
  let newResources ← parse (resourceParser digit) newArgs Dict.empty
  let resources ← mergeResources (resources? oldResources) (resources? newResources)
  join (Dict.empty.set resourceDest (resourceValue resources)) mergedOptions

/-! ### Requests -/

/-- The requests in some resources: a key, and its value if it has one. -/
def requests (resources : List Str) : List (Str × Option Str) :=
  resources.flatMap fun resource => (resource.splitOn ',').map (partition '=')

/-- What stands under a key, in order. -/
def valuesOf {α : Type} (key : Str) (l : List (Str × α)) : List α :=
  l.filterMap fun kv => if kv.1 = key then some kv.2 else none

/-- The last request for a key. -/
def lastRequest (resources : List Str) (key : Str) : Option (Option Str) :=
  (valuesOf key (requests resources)).getLast?

/-- The resources that a list of arguments asks for. -/
def requested (digit : Char → Bool) (args : List Str) : List Str :=
  givenAll (resourceParser digit) args resourceDest

section

variable {α : Type} {key k v part : Str} {l : List (Str × α)} {d d' : Dict Str Str}
  {resources : List Str}

/-- No part of a resource has a comma in it. -/
theorem not_mem_of_mem_splitOn {resource : Str} (h : part ∈ resource.splitOn ',') : ',' ∉ part := by
  induction resource generalizing part with
  | nil =>
      rw [List.splitOn_nil, List.mem_singleton] at h
      rw [h]
      exact List.not_mem_nil
  | cons c resource ih =>
      rw [List.splitOn_cons_eq_if_modifyHead] at h
      split_ifs at h with hc
      · rcases List.mem_cons.1 h with rfl | h
        · exact List.not_mem_nil
        · exact ih h
      · obtain ⟨hd, tl, htl⟩ := List.exists_cons_of_ne_nil (List.splitOn_ne_nil ',' resource)
        rw [htl, List.modifyHead_cons] at h
        rcases List.mem_cons.1 h with rfl | h
        · rw [List.mem_cons, not_or]
          exact ⟨fun he => hc (beq_iff_eq.2 he.symm), ih (htl ▸ List.mem_cons_self ..)⟩
        · exact ih (htl ▸ List.mem_cons_of_mem _ h)

/-- A request that is read back as it was written. -/
def Clean (kv : Str × Str) : Prop := '=' ∉ kv.1 ∧ ',' ∉ kv.1 ∧ ',' ∉ kv.2

theorem splitOn_render (h : Clean (k, v)) : (render (k, v)).splitOn ',' = [render (k, v)] :=
  List.splitOn_eq_singleton (by simpa [render] using ⟨h.2.1, h.2.2⟩)

/-- Requests written out one by one are read back. -/
theorem requests_render {es : List (Str × Str)} (h : ∀ kv ∈ es, Clean kv) :
    requests (es.map render) = es.map fun kv => (kv.1, some kv.2) := by
  induction es with
  | nil => rfl
  | cons kv es ih =>
      rw [List.forall_mem_cons] at h
      have hkv : partition '=' (render kv) = (kv.1, some kv.2) := partition_append_cons h.1.1
      have hrest := ih h.2
      rw [requests] at hrest ⊢
      rw [List.map_cons, List.flatMap_cons, splitOn_render h.1, List.map_singleton, hkv, hrest]
      rfl

/-- The two loops of `_normalize_resources` are one loop over the parts. -/
theorem normalizeResources_eq (resources : List Str) (d : Dict Str Str) :
    resources.foldlM (fun d resource => (resource.splitOn ',').foldlM setPart d) d =
      (resources.flatMap (·.splitOn ',')).foldlM setPart d := by
  induction resources generalizing d with
  | nil => rfl
  | cons resource resources ih =>
      rw [List.foldlM_cons, List.flatMap_cons, List.foldlM_append]
      exact bind_congr ih

/-- What the loop leaves: for every key the value set last, and clean entries. -/
theorem foldlM_setPart {parts : List Str} (h : parts.foldlM setPart d = .ok d')
    (hparts : ∀ part ∈ parts, ',' ∉ part) (hd : ∀ kv ∈ d.entries, Clean kv) :
    (∀ key, (d'.get? key).map some =
      ((valuesOf key (parts.map (partition '='))).getLast?).or ((d.get? key).map some)) ∧
    ∀ kv ∈ d'.entries, Clean kv := by
  induction parts generalizing d with
  | nil =>
      cases h
      exact ⟨fun _ => rfl, hd⟩
  | cons part parts ih =>
      rw [List.forall_mem_cons] at hparts
      rw [List.foldlM_cons] at h
      obtain ⟨d₁, h₁, hrest⟩ := bind_eq_ok h
      rw [setPart] at h₁
      split at h₁
      · rename_i k v hpart
        cases h₁
        obtain ⟨rfl, hk⟩ := partition_eq_some hpart
        have hclean : Clean (k, v) := by simpa [Clean, hk] using hparts.1
        have hd₁ : ∀ kv ∈ (d.set k v).entries, Clean kv := by
          rintro ⟨k', v'⟩ hm
          rw [Dict.mem_entries, Dict.get?_set] at hm
          split_ifs at hm with hk'
          · cases hm
            exact hk' ▸ hclean
          · exact hd _ (Dict.mem_entries.2 hm)
        obtain ⟨hget, hentries⟩ := ih hrest hparts.2 hd₁
        refine ⟨fun key => ?_, hentries⟩
        rw [hget, List.map_cons, hpart, valuesOf, valuesOf, List.filterMap_cons, Dict.get?_set]
        by_cases hkey : k = key
        · subst hkey
          simp only [if_true, List.getLast?_cons, Option.map_some]
          cases (List.filterMap _ (parts.map (partition '='))).getLast? <;> rfl
        · rw [if_neg hkey, if_neg (Ne.symm hkey)]
      · cases h₁

theorem normalizeResources_ok (h : normalizeResources resources = .ok d) :
    (∀ key, (d.get? key).map some = lastRequest resources key) ∧ ∀ kv ∈ d.entries, Clean kv := by
  rw [normalizeResources, normalizeResources_eq] at h
  have hparts : ∀ part ∈ resources.flatMap (·.splitOn ','), ',' ∉ part := by
    intro part hm
    obtain ⟨resource, -, hpart⟩ := List.mem_flatMap.1 hm
    exact not_mem_of_mem_splitOn hpart
  obtain ⟨hget, hclean⟩ := foldlM_setPart h hparts (by simp [Dict.empty])
  refine ⟨fun key => ?_, hclean⟩
  rw [hget, lastRequest, requests, List.map_flatMap, Dict.get?_empty, Option.map_none,
    Option.or_none]

theorem requests_ne_nil (h : resources ≠ []) : requests resources ≠ [] := by
  obtain ⟨resource, rest, rfl⟩ := List.exists_cons_of_ne_nil h
  rw [requests, List.flatMap_cons]
  simp

/-- Resources are not forgotten. -/
theorem normalizeResources_ne_empty (h : normalizeResources resources = .ok d)
    (hne : resources ≠ []) : ∃ key, d.get? key ≠ none := by
  obtain ⟨⟨key, w⟩, hmem⟩ := List.exists_mem_of_ne_nil _ (requests_ne_nil hne)
  refine ⟨key, fun hnone => ?_⟩
  have hlast := (normalizeResources_ok h).1 key
  rw [hnone, Option.map_none, lastRequest, eq_comm, List.getLast?_eq_none_iff] at hlast
  have hvalue : w ∈ valuesOf key (requests resources) :=
    List.mem_filterMap.2 ⟨(key, w), hmem, if_pos rfl⟩
  rw [hlast] at hvalue
  exact List.not_mem_nil hvalue

/-- The one value under a key of a dictionary. -/
theorem getLast?_valuesOf_entries (d : Dict Str Str) (key : Str) :
    (valuesOf key (d.entries.map fun kv => (kv.1, some kv.2))).getLast? =
      (d.get? key).map some := by
  have hmem : ∀ w, w ∈ valuesOf key (d.entries.map fun kv => (kv.1, some kv.2)) ↔
      (d.get? key).map some = some w := by
    intro w
    rw [valuesOf, List.filterMap_map, List.mem_filterMap, Option.map_eq_some_iff]
    constructor
    · rintro ⟨⟨k, v⟩, hm, hw⟩
      rw [Function.comp_apply] at hw
      split_ifs at hw with hk
      exact ⟨v, Dict.mem_entries.1 (hk ▸ hm), Option.some.inj hw⟩
    · rintro ⟨v, hv, rfl⟩
      exact ⟨(key, v), Dict.mem_entries.2 hv, if_pos rfl⟩
  cases hlast : (valuesOf key (d.entries.map fun kv => (kv.1, some kv.2))).getLast? with
  | some w => exact ((hmem w).1 (List.mem_of_getLast? hlast)).symm
  | none =>
      rw [List.getLast?_eq_none_iff] at hlast
      rw [hlast] at hmem
      exact (Option.eq_none_iff_forall_ne_some.2 fun w hw =>
        List.not_mem_nil ((hmem w).2 hw)).symm

/-- **Requests merged**: the last one for a key is the last new one, or else the last
old one. -/
theorem lastRequest_merge {oldR newR merged : Option (List Str)}
    (h : mergeResources oldR newR = .ok merged) (key : Str) :
    lastRequest (merged.getD []) key =
      (lastRequest (newR.getD []) key).or (lastRequest (oldR.getD []) key) := by
  match oldR, newR with
  | none, newR =>
      cases h
      simp [lastRequest, requests, valuesOf]
  | some oldR, none =>
      cases h
      simp [lastRequest, requests, valuesOf]
  | some oldR, some newR =>
      obtain ⟨resources, hold, h⟩ := bind_eq_ok h
      obtain ⟨newDict, hnew, h⟩ := bind_eq_ok h
      cases h
      obtain ⟨hgetOld, hcleanOld⟩ := normalizeResources_ok hold
      obtain ⟨hgetNew, hcleanNew⟩ := normalizeResources_ok hnew
      have hclean : ∀ kv ∈ (resources.update newDict).entries, Clean kv := by
        rintro ⟨k, v⟩ hm
        rw [Dict.mem_entries, Dict.get?_update] at hm
        rcases Option.or_eq_some_iff.1 hm with hm | ⟨-, hm⟩
        · exact hcleanNew _ (Dict.mem_entries.2 hm)
        · exact hcleanOld _ (Dict.mem_entries.2 hm)
      rw [Option.getD_some, lastRequest, requests_render hclean, getLast?_valuesOf_entries,
        Dict.get?_update, Option.getD_some, Option.getD_some, ← hgetOld, ← hgetNew]
      cases newDict.get? key <;> rfl

end

/-! ### Overriding and keeping -/

/-- Merged resources are not an empty list. -/
theorem mergeResources_ne_nil {oldR newR : Option (List Str)} {l : List Str}
    (h : mergeResources oldR newR = .ok (some l)) (hold : oldR ≠ some []) (hnew : newR ≠ some []) :
    l ≠ [] := by
  rintro rfl
  match oldR, newR with
  | none, newR =>
      cases h
      exact hnew rfl
  | some oldR, none =>
      cases h
      exact hold rfl
  | some oldR, some newR =>
      obtain ⟨resources, hold', h⟩ := bind_eq_ok h
      obtain ⟨newDict, hnew', h⟩ := bind_eq_ok h
      obtain ⟨key, hkey⟩ := normalizeResources_ne_empty hnew' fun hnil => hnew (hnil ▸ rfl)
      have hentries : (resources.update newDict).entries = [] :=
        List.map_eq_nil_iff.1 (Option.some.inj (Except.ok.inj h))
      have hget : (resources.update newDict).get? key = none := by
        rw [Dict.get?, hentries]
        rfl
      rw [Dict.get?_update, Option.or_eq_none_iff] at hget
      exact hkey hget.1

theorem distinct_passThrough : Distinct passThroughActions := by decide +kernel

variable {digit : Char → Bool} {newArgs oldArgs : List Str} {ns : Namespace}

/-- The options that are passed through are merged by parsing. -/
theorem get?_mergeOptions (h : mergeOptions digit newArgs oldArgs = .ok ns) {a : Action}
    (ha : a ∈ passThroughActions) :
    ns.get? a.dest = some (merged (passThroughParser digit) newArgs oldArgs a) := by
  obtain ⟨oldOptions, hold, h⟩ := bind_eq_ok h
  obtain ⟨mergedOptions, hmerged, h⟩ := bind_eq_ok h
  obtain ⟨oldResources, hoR, h⟩ := bind_eq_ok h
  obtain ⟨newResources, hnR, h⟩ := bind_eq_ok h
  obtain ⟨resources, hres, h⟩ := bind_eq_ok h
  exact get?_join_right h (get?_merged distinct_passThrough hold hmerged ha (kind_of_mem ha))

/-- The resources that the namespace of `resource_parser` holds. -/
theorem resources?_parse {args : List Str}
    (h : parse (resourceParser digit) args Dict.empty = .ok ns) :
    resources? ns = if requested digit args = [] then none else some (requested digit args) := by
  obtain ⟨extras, hparse⟩ := parse_eq_ok h
  have hget : ns.get? resourceDest = some (if requested digit args = [] then .none else
      .list (requested digit args)) :=
    get?_parseKnownArgs_append hparse (by simp [resourceParser, resourceAction, resourceDest,
      helpAction, addArgument, destOf]) ⟨resourceAction, by simp [resourceParser], rfl⟩
  rw [resources?, hget]
  split_ifs with hnil
  · rfl
  · rfl

theorem getD_resources?_parse {args : List Str}
    (h : parse (resourceParser digit) args Dict.empty = .ok ns) :
    (resources? ns).getD [] = requested digit args := by
  rw [resources?_parse h]
  split_ifs with hnil
  · rw [hnil]
    rfl
  · rfl

/-- **New options override old ones, and keep them otherwise**, resource by
resource.  For any two lists of arguments on which `merge_options` returns: every
option and flag that is passed through is as it should be, and the last request
for a key is the last new one, or else the last old one, or else there is none. -/
theorem merge_overrides (h : mergeOptions digit newArgs oldArgs = .ok ns) :
    (∀ a ∈ passThroughActions,
      ns.get? a.dest = some (merged (passThroughParser digit) newArgs oldArgs a)) ∧
    ∀ key, lastRequest ((resources? ns).getD []) key =
      (lastRequest (requested digit newArgs) key).or
        (lastRequest (requested digit oldArgs) key) := by
  obtain ⟨oldOptions, hold, h⟩ := bind_eq_ok h
  obtain ⟨mergedOptions, hmerged, h⟩ := bind_eq_ok h
  obtain ⟨oldResources, hoR, h⟩ := bind_eq_ok h
  obtain ⟨newResources, hnR, h⟩ := bind_eq_ok h
  obtain ⟨resources, hres, h⟩ := bind_eq_ok h
  constructor
  · intro a ha
    exact get?_join_right h (get?_merged distinct_passThrough hold hmerged ha (kind_of_mem ha))
  · intro key
    have hl : ns.get? resourceDest = some (resourceValue resources) :=
      get?_join_left h (by rw [Dict.get?_set, if_pos rfl])
    have hns : resources? ns = resources := by
      rw [resources?, hl]
      cases resources <;> rfl
    rw [hns, lastRequest_merge hres, getD_resources?_parse hnR, getD_resources?_parse hoR]

/-- The walltime is asked for anew, the number of nodes is kept. -/
theorem merge_overrides_walltime :
    ∃ ns, mergeOptions Char.isDigit ["-l".toList, "walltime=2:00:00".toList]
        ["-l".toList, "walltime=1:00:00,nodes=2:ppn=4".toList] = .ok ns ∧
      lastRequest ((resources? ns).getD []) "walltime".toList = some (some "2:00:00".toList) ∧
      lastRequest ((resources? ns).getD []) "nodes".toList = some (some "2:ppn=4".toList) := by
  have hok : (mergeOptions Char.isDigit ["-l".toList, "walltime=2:00:00".toList]
      ["-l".toList, "walltime=1:00:00,nodes=2:ppn=4".toList]).isOk = true := by decide +kernel
  obtain ⟨ns, h⟩ := exists_of_isOk hok
  obtain ⟨-, hlast⟩ := merge_overrides h
  refine ⟨ns, h, ?_, ?_⟩
  · rw [hlast]
    decide +kernel
  · rw [hlast]
    decide +kernel

end PbsTorque
end Options
end WorkerNg
