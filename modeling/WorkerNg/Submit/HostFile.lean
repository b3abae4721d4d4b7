/-
# The host file of a client

`compute_host_file` in `scripts/worker_functions.sh`: it counts the entries of each node in
an associative array and writes one word `node:count` a node, in an order of the shell's own.
None of its expansions is quoted, so that a node that is a pattern stands for the paths that
match it.

The first loop keeps the numbers of the entries read (`Counted`); the second puts a word in
front of those written, for which it has to tell whether there are any.  Where there are two
words or more `[ -z $nodes ]` is no test at all, but it fails, and so the branch that is taken
is the right one (`emptyTest_intercalate`).  Without as many entries as a client has cores
there is no host file; else, with nodes that are no patterns, the words name each node once
and account for every entry (`computeHostFile_spec`).
-/

import WorkerNg.Lib.Words
import WorkerNg.Submit.Numactl
import Mathlib.Algebra.BigOperators.Group.List.Lemmas
import Mathlib.Algebra.GroupWithZero.Nat

namespace WorkerNg
namespace Submit

open Shell

/-! ### The function -/

/-- `[ -z $s ]`: behind `-z` there may be one word; none is a text that is not empty, and with
more than one, none of which is an operator of `[`, it complains and fails. -/
def emptyTest (g : Globbing) (s : Text) : Bool :=
  match fields g s with
  | [] => true
  | [w] => w.isEmpty
  | _ :: _ :: _ => false

/-- The body of the first loop. -/
def countNode (nodeMap : Dict Text ℕ) (node : Text) : Dict Text ℕ :=
  match nodeMap.get? node with
  | some n => nodeMap.set node (n + 1)
  | none => nodeMap.set node 1

/-- `$node:${node_map[$node]}`. -/
def hostEntry (nodeMap : Dict Text ℕ) (node : Text) : Text :=
  node ++ ':' :: ((nodeMap.get? node).map pyStr).getD []

/-- The body of the second loop. -/
def addHost (g : Globbing) (nodeMap : Dict Text ℕ) (nodes node : Text) : Text :=
  if emptyTest g nodes then hostEntry nodeMap node else hostEntry nodeMap node ++ ' ' :: nodes

/-- `### error: not enough cores to run the client, $num_cores versus $#`. -/
def notEnoughCores (numCores nrArgs : ℕ) : Text :=
  "### error: not enough cores to run the client, ".toList ++ pyStr numCores ++
    " versus ".toList ++ pyStr nrArgs ++ "\n".toList

/-- `compute_host_file`, where `keys` is `${!node_map[@]}`, in the order of the shell; an
error is what is written to the standard error before `return 1`. -/
def computeHostFile (g : Globbing) (keys : Dict Text ℕ → List Text) (numCores : ℕ)
    (args : List Text) : Except Text Text :=
  if args.length < numCores then .error (notEnoughCores numCores args.length)
  else
    let nodeMap := (args.flatMap (fields g)).foldl countNode .empty
    .ok (echo (fields g (((keys nodeMap).flatMap (fields g)).foldl (addHost g nodeMap) [])))

/-! ### The first loop -/

/-- The numbers of the entries read. -/
def Counted (p : List Text) (nodeMap : Dict Text ℕ) : Prop :=
  ∀ node, nodeMap.get? node = if node ∈ p then some (p.count node) else none

theorem counted_empty : Counted [] .empty := fun _ => rfl

/-- **An entry more.** -/
theorem Counted.countNode {p : List Text} {nodeMap : Dict Text ℕ} (h : Counted p nodeMap)
    (name : Text) : Counted (p ++ [name]) (countNode nodeMap name) := by
  intro node
  have hset : Submit.countNode nodeMap name = nodeMap.set name (p.count name + 1) := by
    rw [Submit.countNode, h name]
    by_cases hname : name ∈ p
    · rw [if_pos hname]
    · rw [if_neg hname, List.count_eq_zero.2 hname]
  rw [hset, Dict.get?_set, h node, List.count_append]
  by_cases hnode : node = name
  · subst hnode
    simp
  · simp [hnode, Ne.symm hnode]

/-- **All entries.** -/
theorem counted_foldl {p : List Text} {nodeMap : Dict Text ℕ} (h : Counted p nodeMap)
    (nodes : List Text) : Counted (p ++ nodes) (nodes.foldl countNode nodeMap) := by
  induction nodes generalizing p nodeMap with
  | nil => rwa [List.append_nil]
  | cons name nodes ih =>
      have hrest := ih (h.countNode name)
      rwa [List.append_assoc, List.singleton_append] at hrest

theorem counted_nodeMap (nodes : List Text) : Counted nodes (nodes.foldl countNode .empty) :=
  counted_foldl counted_empty nodes

/-- The keys are the nodes. -/
theorem Counted.mem_keys {p : List Text} {nodeMap : Dict Text ℕ} (h : Counted p nodeMap)
    {node : Text} : node ∈ nodeMap.entries.map Prod.fst ↔ node ∈ p := by
  have hfound : node ∈ nodeMap.entries.map Prod.fst ↔ ∃ n, nodeMap.get? node = some n := by
    simp only [List.mem_map, Prod.exists, exists_and_right, exists_eq_right, Dict.mem_entries]
  rw [hfound, h node]
  by_cases hnode : node ∈ p
  · simp [hnode]
  · simp [hnode]

theorem Counted.keys_perm {p : List Text} {nodeMap : Dict Text ℕ} (h : Counted p nodeMap) :
    (nodeMap.entries.map Prod.fst).Perm p.dedup :=
  (List.perm_ext_iff_of_nodup nodeMap.nodup p.nodup_dedup).2 fun node => by
    rw [h.mem_keys, List.mem_dedup]

/-! ### The second loop -/

/-- `node:count`. -/
def hostWord (nodes : List Text) (node : Text) : Text := node ++ ':' :: pyStr (nodes.count node)

theorem Counted.hostEntry {p : List Text} {nodeMap : Dict Text ℕ} (h : Counted p nodeMap)
    {node : Text} (hnode : node ∈ p) : hostEntry nodeMap node = hostWord p node := by
  rw [Submit.hostEntry, h node, if_pos hnode]
  rfl

theorem isOne_pyStr (n : ℕ) : IsOne (pyStr n) where
  ne_nil := Nat.toDigits_ne_nil
  not_ifs c hc := by
    have hdigit : c.isDigit = true := Nat.isDigit_of_mem_toDigits (by decide) (by decide) hc
    by_contra hifs
    simp only [isIfs, Bool.not_eq_false, Bool.or_eq_true, beq_iff_eq] at hifs
    rcases hifs with (rfl | rfl) | rfl <;> exact absurd hdigit (by decide)

theorem noGlob_pyStr (n : ℕ) : NoGlob (pyStr n) := by
  intro c hc
  have hdigit : c.isDigit = true := Nat.isDigit_of_mem_toDigits (by decide) (by decide) hc
  by_contra hglob
  simp only [isGlob, Bool.not_eq_false, Bool.or_eq_true, beq_iff_eq] at hglob
  rcases hglob with ((rfl | rfl) | rfl) | rfl <;> exact absurd hdigit (by decide)

theorem isOne_hostWord {node : Text} (h : IsOne node) (nodes : List Text) :
    IsOne (hostWord nodes node) :=
  h.append (List.forall_mem_cons.2 ⟨rfl, (isOne_pyStr _).not_ifs⟩)

theorem noGlob_hostWord {node : Text} (h : NoGlob node) (nodes : List Text) :
    NoGlob (hostWord nodes node) :=
  h.append (List.forall_mem_cons.2 ⟨rfl, noGlob_pyStr _⟩)

variable {g : Globbing}

/-- **The test holds of no words only**, also where it is none. -/
theorem emptyTest_intercalate {ws : List Text} (h : ∀ w ∈ ws, IsOne w)
    (hw : ∀ w ∈ ws, NoGlob w) : emptyTest g ([' '].intercalate ws) = ws.isEmpty := by
  rw [emptyTest, fields_intercalate g h hw]
  cases ws with
  | nil => rfl
  | cons w ws =>
      cases ws with
      | nil => simpa using (h w List.mem_cons_self).ne_nil
      | cons v ws => rfl

/-- **The words come in front of each other.** -/
theorem foldl_addHost {p : List Text} {nodeMap : Dict Text ℕ} (h : Counted p nodeMap)
    (hone : ∀ node ∈ p, IsOne node) (hglob : ∀ node ∈ p, NoGlob node) {ks : List Text}
    (hks : ∀ node ∈ ks, node ∈ p) :
    ks.foldl (addHost g nodeMap) [] = [' '].intercalate (ks.reverse.map (hostWord p)) := by
  -- the keys are read from the left, and the last one read stands in front
  induction ks using List.reverseRecOn with
  | nil => rfl
  | append_singleton ks node ih =>
      obtain ⟨hks, hnode⟩ := List.forall_mem_append.1 hks
      have hwords : ∀ w ∈ ks.reverse.map (hostWord p), IsOne w ∧ NoGlob w := by
        intro w hw
        obtain ⟨k, hk, rfl⟩ := List.mem_map.1 hw
        have hmem := hks k (List.mem_reverse.1 hk)
        exact ⟨isOne_hostWord (hone k hmem) p, noGlob_hostWord (hglob k hmem) p⟩
      rw [List.foldl_append, ih hks, List.foldl_cons, List.foldl_nil, addHost,
        emptyTest_intercalate (fun w hw => (hwords w hw).1) fun w hw => (hwords w hw).2,
        h.hostEntry (hnode node List.mem_cons_self), List.reverse_append,
        List.reverse_singleton, List.singleton_append, List.map_cons]
      cases hrest : ks.reverse.map (hostWord p) with
      | nil => simp
      | cons w ws =>
          rw [List.intercalate_cons_cons, List.append_assoc]
          rfl

/-! ### The host file -/

section Spec

variable {keys : Dict Text ℕ → List Text} {numCores : ℕ} {args : List Text}

theorem isOne_of_mem_flatMap {ss : List Text} : ∀ w ∈ ss.flatMap words, IsOne w := by
  intro w hw
  obtain ⟨s, -, hw⟩ := List.mem_flatMap.1 hw
  exact isOne_of_mem_words hw

variable (g) in
/-- What is written. -/
theorem computeHostFile_eq (hkeys : ∀ d, (keys d).Perm (d.entries.map Prod.fst))
    (hargs : ∀ node ∈ args.flatMap words, NoGlob node) (h : numCores ≤ args.length) :
    ∃ hosts : List Text, hosts.Perm (args.flatMap words).dedup ∧
      computeHostFile g keys numCores args =
        .ok (echo (hosts.map (hostWord (args.flatMap words)))) := by
  have hcounted := counted_nodeMap (args.flatMap words)
  have hperm := (hkeys _).trans hcounted.keys_perm
  have hks : ∀ node ∈ keys ((args.flatMap words).foldl countNode .empty),
      node ∈ args.flatMap words := fun node hnode => List.mem_dedup.1 (hperm.mem_iff.1 hnode)
  have hone : ∀ node ∈ args.flatMap words, IsOne node := isOne_of_mem_flatMap
  have hkeysWords : (keys ((args.flatMap words).foldl countNode .empty)).flatMap words =
      keys ((args.flatMap words).foldl countNode .empty) :=
    flatMap_words fun node hnode => hone node (hks node hnode)
  refine ⟨(keys ((args.flatMap words).foldl countNode .empty)).reverse,
    (List.reverse_perm _).trans hperm, ?_⟩
  rw [computeHostFile, if_neg (not_lt.2 h)]
  dsimp only
  rw [flatMap_fields g hargs, flatMap_fields g (by
      rw [hkeysWords]
      exact fun node hnode => hargs node (hks node hnode)),
    hkeysWords, foldl_addHost hcounted hone hargs hks, fields_intercalate]
  · intro w hw
    obtain ⟨node, hnode, rfl⟩ := List.mem_map.1 hw
    exact isOne_hostWord (hone node (hks node (List.mem_reverse.1 hnode))) _
  · intro w hw
    obtain ⟨node, hnode, rfl⟩ := List.mem_map.1 hw
    exact noGlob_hostWord (hargs node (hks node (List.mem_reverse.1 hnode))) _

theorem words_echo {ws : List Text} (h : ∀ w ∈ ws, IsOne w) : words (echo ws) = ws := by
  rw [echo, words_concat_ifs rfl, words_intercalate h]

variable (g keys numCores args) in
/-- **The host file of a client.**  With fewer entries than cores there is none; else, if no
entry is a pattern, its words name each node once, and the numbers behind the names account
for all entries. -/
theorem computeHostFile_spec (hkeys : ∀ d, (keys d).Perm (d.entries.map Prod.fst)) :
    (args.length < numCores → computeHostFile g keys numCores args =
      .error (notEnoughCores numCores args.length)) ∧
    (numCores ≤ args.length → (∀ node ∈ args.flatMap words, NoGlob node) →
      ∃ (text : Text) (hosts : List Text),
        computeHostFile g keys numCores args = .ok text ∧
        hosts.Perm (args.flatMap words).dedup ∧
        words text = hosts.map (hostWord (args.flatMap words)) ∧
        (hosts.map (args.flatMap words).count).sum = (args.flatMap words).length) := by
  refine ⟨fun hlt => if_pos hlt, fun hle hargs => ?_⟩
  obtain ⟨hosts, hperm, htext⟩ := computeHostFile_eq g hkeys hargs hle
  refine ⟨_, hosts, htext, hperm, words_echo fun w hw => ?_, ?_⟩
  · obtain ⟨node, hnode, rfl⟩ := List.mem_map.1 hw
    have hmem := List.mem_dedup.1 (hperm.mem_iff.1 hnode)
    exact isOne_hostWord (isOne_of_mem_flatMap node hmem) _
  · rw [(hperm.map _).sum_eq]
    convert List.sum_map_count_dedup_eq_length (args.flatMap words)
    rfl

end Spec

/-- Three cores on two nodes, for a client of three. -/
theorem computeHostFile_twoNodes : ∃ text,
    computeHostFile noFiles (fun d => d.entries.map Prod.fst) 3 [['a'], ['b'], ['a']] = .ok text ∧
      ∃ hosts : List Text, hosts.Perm [['b'], ['a']] ∧
        words text = hosts.map (hostWord [['a'], ['b'], ['a']]) := by
  have hnodes : [['a'], ['b'], ['a']].flatMap words = [['a'], ['b'], ['a']] := by decide
  obtain ⟨text, hosts, htext, hperm, hwords, -⟩ := (computeHostFile_spec noFiles
    (fun d => d.entries.map Prod.fst) 3 [['a'], ['b'], ['a']] fun _ => .refl _).2 (by decide)
      (by rw [hnodes]; decide)
  rw [hnodes] at hperm hwords
  exact ⟨text, htext, hosts, hperm.trans (by decide), hwords⟩

end Submit
end WorkerNg
