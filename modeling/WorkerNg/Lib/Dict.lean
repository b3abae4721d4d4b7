/-
# Insertion-ordered dictionaries

A finite map that remembers the order in which its keys were first set, as a
Python `dict` does: setting a key that is there keeps its place and replaces its
value, setting a new one appends it.  The keys are distinct by construction, so
two entries for one key cannot be built.

`get?_set` and `get?_update` say what is found after a change, and
`get?_updateAll` what is found in a list of dictionaries poured one after the
other into an empty one: the value of the last of them that has the key.
-/

import Mathlib.Data.List.Nodup
import Mathlib.Tactic.Push

namespace WorkerNg

/-- A dictionary: entries with distinct keys, in the order of insertion. -/
structure Dict (κ ν : Type*) where
  entries : List (κ × ν)
  nodup : (entries.map Prod.fst).Nodup

namespace Dict

variable {κ ν : Type*} [DecidableEq κ]

omit [DecidableEq κ] in
theorem ext {d e : Dict κ ν} (h : d.entries = e.entries) : d = e := by
  cases d
  cases e
  simp_all

/-- The dictionary without entries. -/
def empty : Dict κ ν := ⟨[], List.nodup_nil⟩

/-- The value of a key. -/
def get? (d : Dict κ ν) (k : κ) : Option ν := d.entries.lookup k

/-- The entries after `d[k] = v`. -/
def setEntries (k : κ) (v : ν) : List (κ × ν) → List (κ × ν)
  | [] => [(k, v)]
  | (a, b) :: es => if a = k then (k, v) :: es else (a, b) :: setEntries k v es

theorem mem_keys_setEntries {k a : κ} {v : ν} {es : List (κ × ν)} :
    a ∈ (setEntries k v es).map Prod.fst ↔ a = k ∨ a ∈ es.map Prod.fst := by
  induction es with
  | nil => simp [setEntries]
  | cons e es ih =>
      obtain ⟨b, w⟩ := e
      rw [setEntries]
      split_ifs with h
      · simp [h]
      · rw [List.map_cons, List.mem_cons, ih, List.map_cons, List.mem_cons]
        tauto

theorem nodup_setEntries {k : κ} {v : ν} {es : List (κ × ν)} (h : (es.map Prod.fst).Nodup) :
    ((setEntries k v es).map Prod.fst).Nodup := by
  induction es with
  | nil => simp [setEntries]
  | cons e es ih =>
      obtain ⟨b, w⟩ := e
      rw [List.map_cons, List.nodup_cons] at h
      rw [setEntries]
      split_ifs with hb
      · rw [List.map_cons, List.nodup_cons]
        exact ⟨hb ▸ h.1, h.2⟩
      · rw [List.map_cons, List.nodup_cons, mem_keys_setEntries, not_or]
        exact ⟨⟨hb, h.1⟩, ih h.2⟩

/-- `d[k] = v`. -/
def set (d : Dict κ ν) (k : κ) (v : ν) : Dict κ ν :=
  ⟨setEntries k v d.entries, nodup_setEntries d.nodup⟩

/-- A key that is there keeps its place, a new one comes last. -/
theorem map_fst_set (d : Dict κ ν) (k : κ) (v : ν) : (d.set k v).entries.map Prod.fst =
    if k ∈ d.entries.map Prod.fst then d.entries.map Prod.fst
    else d.entries.map Prod.fst ++ [k] := by
  have key : ∀ es : List (κ × ν), (setEntries k v es).map Prod.fst =
      if k ∈ es.map Prod.fst then es.map Prod.fst else es.map Prod.fst ++ [k] := by
    intro es
    induction es with
    | nil => rfl
    | cons e es ih =>
        obtain ⟨a, w⟩ := e
        rw [setEntries]
        by_cases h : a = k
        · simp [h]
        · have hmem : k ∈ ((a, w) :: es).map Prod.fst ↔ k ∈ es.map Prod.fst := by
            rw [List.map_cons, List.mem_cons, or_iff_right (Ne.symm h)]
          rw [if_neg h, List.map_cons, ih]
          simp only [hmem]
          split_ifs <;> rfl
  exact key d.entries

/-- `for k, v in e.items(): d[k] = v`. -/
def update (d e : Dict κ ν) : Dict κ ν := e.entries.foldl (fun d kv => d.set kv.1 kv.2) d

@[simp] theorem get?_empty (k : κ) : (empty : Dict κ ν).get? k = none := rfl

theorem lookup_setEntries (k a : κ) (v : ν) (es : List (κ × ν)) :
    (setEntries k v es).lookup a = if a = k then some v else es.lookup a := by
  induction es with
  | nil =>
      by_cases h : a = k
      · simp [setEntries, h]
      · simp [setEntries, h]
  | cons e es ih =>
      obtain ⟨b, w⟩ := e
      rw [setEntries]
      by_cases hb : b = k
      · subst hb
        by_cases ha : a = b
        · simp [ha]
        · simp [ha, List.lookup_cons, beq_eq_false_iff_ne.2 ha]
      · rw [if_neg hb]
        by_cases ha : a = b
        · subst ha
          simp [hb]
        · simp only [List.lookup_cons, beq_eq_false_iff_ne.2 ha]
          exact ih

theorem get?_set (d : Dict κ ν) (k a : κ) (v : ν) :
    (d.set k v).get? a = if a = k then some v else d.get? a :=
  lookup_setEntries k a v d.entries

/-- The entries are what is found. -/
theorem mem_entries {d : Dict κ ν} {k : κ} {v : ν} : (k, v) ∈ d.entries ↔ d.get? k = some v := by
  have key : ∀ es : List (κ × ν), (es.map Prod.fst).Nodup →
      ((k, v) ∈ es ↔ es.lookup k = some v) := by
    intro es
    induction es with
    | nil => simp
    | cons e es ih =>
        obtain ⟨a, w⟩ := e
        intro hnd
        rw [List.map_cons, List.nodup_cons] at hnd
        rw [List.mem_cons, Prod.mk.injEq, List.lookup_cons]
        by_cases h : k = a
        · subst h
          have hnot : (k, v) ∉ es := fun hm => hnd.1 (List.mem_map.2 ⟨_, hm, rfl⟩)
          simp [hnot, eq_comm]
        · simp [h, beq_eq_false_iff_ne.2 h, ih hnd.2]
  exact key d.entries d.nodup

/-- The values, in the order of the keys. -/
theorem map_snd_entries (d : Dict κ ν) :
    d.entries.map Prod.snd = (d.entries.map Prod.fst).filterMap d.get? := by
  rw [List.filterMap_map, ← List.filterMap_eq_map]
  exact List.filterMap_congr fun e he => (mem_entries.1 he).symm

/-- After an update a key has its new value if it got one, and else the old. -/
theorem get?_update (d e : Dict κ ν) (k : κ) : (d.update e).get? k = (e.get? k).or (d.get? k) := by
  have key : ∀ (es : List (κ × ν)), (es.map Prod.fst).Nodup → ∀ d : Dict κ ν,
      (es.foldl (fun d kv => d.set kv.1 kv.2) d).get? k = (es.lookup k).or (d.get? k) := by
    intro es
    induction es with
    | nil => intro _ d; rfl
    | cons e es ih =>
        obtain ⟨a, v⟩ := e
        intro hnd d
        rw [List.map_cons, List.nodup_cons] at hnd
        rw [List.foldl_cons, ih hnd.2, get?_set, List.lookup_cons]
        by_cases h : k = a
        · subst h
          have hnone : es.lookup k = none := by
            rw [List.lookup_eq_none_iff]
            intro p hp
            have hne : k ≠ p.1 := fun he => hnd.1 (List.mem_map.2 ⟨p, hp, he.symm⟩)
            simpa using hne
          simp [hnone]
        · simp [h, beq_eq_false_iff_ne.2 h]
  exact key e.entries e.nodup d

/-- The dictionaries `ds` poured one after the other into an empty one. -/
def updateAll (ds : List (Dict κ ν)) : Dict κ ν := ds.foldl update empty

/-- **A later dictionary overrides an earlier one**: what is found is the value
of the last dictionary that has the key. -/
theorem get?_updateAll (ds : List (Dict κ ν)) (k : κ) :
    (updateAll ds).get? k = (ds.filterMap (·.get? k)).getLast? := by
  have key : ∀ d : Dict κ ν, (ds.foldl update d).get? k =
      ((ds.filterMap (·.get? k)).getLast?).or (d.get? k) := by
    induction ds with
    | nil => intro d; rfl
    | cons e ds ih =>
        intro d
        rw [List.foldl_cons, ih, get?_update]
        cases he : e.get? k with
        | none => simp [he]
        | some v =>
            simp only [List.filterMap_cons, he, List.getLast?_cons]
            cases (ds.filterMap (·.get? k)).getLast? <;> rfl
  rw [updateAll, key, get?_empty, Option.or_none]

/-- A key is found when one of the dictionaries has it. -/
theorem get?_updateAll_ne_none {ds : List (Dict κ ν)} {k : κ} :
    (updateAll ds).get? k ≠ none ↔ ∃ d ∈ ds, d.get? k ≠ none := by
  rw [get?_updateAll, ne_eq, List.getLast?_eq_none_iff, List.filterMap_eq_nil_iff]
  push Not
  rfl

end Dict
end WorkerNg
