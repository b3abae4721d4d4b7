/-
# The cores that clients are pinned to

`compute_numactl_args` in `scripts/worker_functions.sh`, which the job script for
PBS calls.  It cuts the list of nodes, one entry a core, into blocks of `num_cores`
entries, one a client, and gives the cores of a client as offsets on its node.

The loop carries the client that it is at, as the argument written so far, an offset
and a node.  Behind the entries read (`Inv`) the list is made of the blocks of the
clients written and of a part of a block; the offset counts the entries of the
current node, because these stand together, and it is a multiple of `num_cores`
where a block begins.  So an entry either goes on with this or is on another node
than its block, and then the loop ends (`step_inv`).  A client's cores are those
from the number of entries of its node before its block on
(`computeNumactlArgs_spec`).
-/

import WorkerNg.Submit.DataSources

namespace WorkerNg
namespace Submit

/-! ### Words of the shell -/

/-- An expansion without quotes of a text without blanks: without characters it is
no word. -/
def unquoted (s : Text) : List Text := if s = [] then [] else [s]

/-- `[ -n $s ]`: without a word behind it `-n` is a text like any other, and not empty. -/
def testN (s : Text) : Bool :=
  match unquoted s with
  | [] => true
  | w :: _ => !w.isEmpty

/-- `[ -z $s ]`, likewise. -/
def testZ (s : Text) : Bool :=
  match unquoted s with
  | [] => true
  | w :: _ => w.isEmpty

/-- `echo`. -/
def echo (words : List Text) : Text := [' '].intercalate words ++ ['\n']

/-- What a shell function comes to. -/
structure ShellResult where
  stdout : Text
  stderr : Text
  status : ℕ
deriving DecidableEq

/-! ### The function -/

/-- The local variables of `compute_numactl_args`. -/
structure Numactl where
  numactlArgs : List Text
  numaArg : Text
  offset : ℕ
  node : Text
deriving DecidableEq

namespace Numactl

/-- `numactl_args` is no array but an empty text, which becomes the first element of
the array it is made into. -/
def init : Numactl where
  numactlArgs := [[]]
  numaArg := []
  offset := 0
  node := []

/-- Starting a new client. -/
def newClient (name : Text) (s : Numactl) : Numactl where
  numactlArgs :=
    if testN s.numaArg then s.numactlArgs ++ unquoted s.numaArg else s.numactlArgs
  numaArg := []
  offset := if s.node ≠ name then 0 else s.offset
  node := name

/-- A core more for the client. -/
def addCore (s : Numactl) : Numactl :=
  { s with
    numaArg :=
      if testZ s.numaArg then '+' :: pyStr s.offset else s.numaArg ++ ',' :: pyStr s.offset
    offset := s.offset + 1 }

/-- The body of the loop; `none` is `return 1`. -/
def step (numCores nodeNum : ℕ) (name : Text) (s : Numactl) : Option Numactl :=
  let s := if nodeNum % numCores = 0 then s.newClient name else s
  if name ≠ s.node then none else some s.addCore

/-- The loop over the nodes, from `node_num` on. -/
def loop (numCores : ℕ) : ℕ → List Text → Numactl → Option Numactl
  | _, [], s => some s
  | nodeNum, name :: nodes, s =>
      (s.step numCores nodeNum name).bind (loop numCores (nodeNum + 1) nodes)

end Numactl

/-- `compute_numactl_args`, for names of nodes that are words. -/
def computeNumactlArgs (numCores : ℕ) (nodes : List Text) : ShellResult :=
  match Numactl.loop numCores 0 nodes .init with
  | none => ⟨[], "### error: work items span nodes\n".toList, 1⟩
  | some s =>
      if testN s.numaArg then
        if s.offset % numCores = 0 then
          ⟨echo ((s.numactlArgs ++ unquoted s.numaArg).flatMap unquoted), [], 0⟩
        else ⟨echo (s.numactlArgs.flatMap unquoted),
          "### warning: some cores are unused\n".toList, 2⟩
      else ⟨[], [], 0⟩

/-! ### Clients and their cores -/

/-- A client: its node, and the offset of its first core there. -/
structure PinnedClient where
  node : Text
  first : ℕ

/-- The offsets of a client's cores. -/
def PinnedClient.offsets (numCores : ℕ) (client : PinnedClient) : List ℕ :=
  List.range' client.first numCores

/-- The argument for `numactl` that names these cores. -/
def numactlArg (offsets : List ℕ) : Text := '+' :: [','].intercalate (offsets.map pyStr)

/-- The entries of a client, in their order; they are fewer only at the end of the list. -/
def block (numCores : ℕ) (nodes : List Text) (j : ℕ) : List Text :=
  (nodes.drop (j * numCores)).take numCores

/-- A client would run on two nodes. -/
def SpansNodes (numCores : ℕ) (nodes : List Text) : Prop :=
  ∃ j, ∃ a ∈ block numCores nodes j, ∃ b ∈ block numCores nodes j, a ≠ b

/-- The entries of a node stand together. -/
def Contiguous (nodes : List Text) : Prop :=
  ∀ i j k, i ≤ j → j ≤ k → k < nodes.length → nodes[i]? = nodes[k]? → nodes[j]? = nodes[k]?

/-- **The clients are pinned to disjoint cores**, one client a full block. -/
structure DisjointCores (numCores : ℕ) (nodes : List Text) (clients : List PinnedClient) :
    Prop where
  length_eq : clients.length = nodes.length / numCores
  block_eq : ∀ j client, clients[j]? = some client →
    block numCores nodes j = List.replicate numCores client.node
  disjoint : clients.Pairwise fun a b =>
    a.node = b.node → (a.offsets numCores).Disjoint (b.offsets numCores)
  lt_count : ∀ client ∈ clients, ∀ o ∈ client.offsets numCores, o < nodes.count client.node

set_option synthInstance.maxSize 1000 in
instance (nodes : List Text) : Decidable (Contiguous nodes) :=
  decidable_of_iff (∀ k < nodes.length, ∀ j ≤ k, ∀ i ≤ j, nodes[i]? = nodes[k]? →
    nodes[j]? = nodes[k]?)
    ⟨fun h i j k hij hjk hk => h k hk j hjk i hij, fun h k hk j hjk i hij => h i j k hij hjk hk⟩

section Entries

variable {numCores : ℕ} {p : List Text} {name a : Text} {clients : List PinnedClient}

theorem Contiguous.of_append {t : List Text} (h : Contiguous (p ++ t)) : Contiguous p := by
  intro i j k hij hjk hk heq
  have happ := h i j k hij hjk (by rw [List.length_append]; omega)
  rw [List.getElem?_append_left (by omega), List.getElem?_append_left (by omega),
    List.getElem?_append_left (by omega)] at happ
  exact happ heq

/-- A node that is not the last one is a new one. -/
theorem Contiguous.not_mem {t : List Text} (h : Contiguous (p ++ name :: t))
    (hlast : p.getLast? = some a) (hne : name ≠ a) : name ∉ p := by
  intro hmem
  obtain ⟨i, hi, hname⟩ := List.getElem_of_mem hmem
  have hend : (p ++ name :: t)[p.length]? = some name := by simp
  have hstart : (p ++ name :: t)[i]? = some name := by
    rw [List.getElem?_append_left hi, List.getElem?_eq_getElem hi, hname]
  have hbetween := h i (p.length - 1) p.length (by omega) (by omega) (by simp)
    (hstart.trans hend.symm)
  rw [hend, List.getElem?_append_left (by omega), ← List.getLast?_eq_getElem?, hlast] at hbetween
  exact hne (Option.some.inj hbetween).symm

theorem SpansNodes.append {t : List Text} (h : SpansNodes numCores p) :
    SpansNodes numCores (p ++ t) := by
  obtain ⟨j, a, ha, b, hb, hne⟩ := h
  have hsub : block numCores p j ⊆ block numCores (p ++ t) j :=
    (((List.prefix_append p t).drop _).take _).subset
  exact ⟨j, a, hsub ha, b, hsub hb, hne⟩

/-- The entries of the clients. -/
def entries (numCores : ℕ) (clients : List PinnedClient) : List Text :=
  clients.flatMap fun client => List.replicate numCores client.node

theorem length_entries (numCores : ℕ) (clients : List PinnedClient) :
    (entries numCores clients).length = clients.length * numCores := by
  induction clients with
  | nil => simp [entries]
  | cons client clients ih =>
      rw [entries, List.flatMap_cons, List.length_append, List.length_replicate, ← entries, ih,
        List.length_cons, Nat.succ_mul, Nat.add_comm]

/-- The block of a client. -/
theorem block_entries_append {j : ℕ} {client : PinnedClient} (h : clients[j]? = some client)
    (numCores : ℕ) (t : List Text) :
    block numCores (entries numCores clients ++ t) j = List.replicate numCores client.node := by
  induction clients generalizing j with
  | nil => simp at h
  | cons client' clients ih =>
      rw [entries, List.flatMap_cons, List.append_assoc, ← entries]
      cases j with
      | zero =>
          obtain rfl := Option.some.inj h
          rw [block, Nat.zero_mul, List.drop_zero, List.take_append_of_le_length (by simp),
            List.take_of_length_le (by simp)]
      | succ j =>
          have hdrop : (List.replicate numCores client'.node ++
              (entries numCores clients ++ t)).drop ((j + 1) * numCores) =
                (entries numCores clients ++ t).drop (j * numCores) := by
            rw [Nat.succ_mul, Nat.add_comm, ← List.drop_drop, List.drop_left' (by simp)]
          rw [block, hdrop]
          exact ih h

/-- Behind the blocks of the clients. -/
theorem block_of_le {j : ℕ} (h : clients.length ≤ j) (numCores : ℕ) (t : List Text) :
    block numCores (entries numCores clients ++ t) j ⊆ t := by
  have hlen : (entries numCores clients).length ≤ j * numCores := by
    rw [length_entries]
    exact Nat.mul_le_mul_right numCores h
  intro b hb
  have hb := List.mem_of_mem_take hb
  rw [List.drop_append, List.drop_of_length_le hlen, List.nil_append] at hb
  exact List.mem_of_mem_drop hb

end Entries

/-! ### Arguments -/

section Arguments

variable {numCores : ℕ} {clients : List PinnedClient}

theorem numactlArg_one (first : ℕ) : numactlArg (List.range' first 1) = '+' :: pyStr first := by
  rw [numactlArg, List.range'_one, List.map_singleton, List.intercalate_singleton]

/-- An argument with a core more. -/
theorem numactlArg_succ (first r : ℕ) : numactlArg (List.range' first (r + 2)) =
    numactlArg (List.range' first (r + 1)) ++ ',' :: pyStr (first + (r + 1)) := by
  have hlast : List.range' first (r + 2) = List.range' first (r + 1) ++ [first + (r + 1)] := by
    rw [List.range'_concat, Nat.one_mul]
  rw [hlast, List.range'_succ, numactlArg, numactlArg, List.map_append, List.map_cons,
    List.map_singleton, Lines.intercalate_concat]
  rfl

/-- The argument written so far. -/
def argSoFar (first r : ℕ) : Text := if r = 0 then [] else numactlArg (List.range' first r)

theorem argSoFar_succ (first r : ℕ) :
    argSoFar first (r + 1) = numactlArg (List.range' first (r + 1)) := if_neg (Nat.succ_ne_zero r)

theorem testN_eq_true (s : Text) : testN s = true := by
  unfold testN unquoted
  split_ifs with h
  · rfl
  · simpa using h

theorem testZ_eq (s : Text) : testZ s = s.isEmpty := by
  unfold testZ unquoted
  split_ifs with h
  · rw [h]
    rfl
  · rfl

/-- An argument is a word. -/
theorem unquoted_numactlArg (offsets : List ℕ) :
    unquoted (numactlArg offsets) = [numactlArg offsets] := if_neg (List.cons_ne_nil _ _)

theorem unquoted_argSoFar {first r : ℕ} (h : 0 < r) :
    unquoted (argSoFar first r) = [numactlArg (List.range' first r)] := by
  rw [argSoFar, if_neg (by omega), unquoted_numactlArg]

/-- The empty text is no word. -/
theorem flatMap_unquoted (numCores : ℕ) (clients : List PinnedClient) :
    ([] :: clients.map fun client => numactlArg (client.offsets numCores)).flatMap unquoted =
      clients.map fun client => numactlArg (client.offsets numCores) := by
  rw [List.flatMap_cons, List.flatMap_map]
  simp only [unquoted_numactlArg]
  rw [← List.map_eq_flatMap]
  rfl

end Arguments

/-! ### What the loop keeps -/

/-- The clients written, as arguments, behind the entries read. -/
structure Written (numCores : ℕ) (p : List Text) (args : List Text)
    (clients : List PinnedClient) : Prop where
  args_eq : args = [] :: clients.map fun client => numactlArg (client.offsets numCores)
  ordered : clients.Pairwise fun a b => a.node = b.node → a.first + numCores ≤ b.first
  le_count : ∀ client ∈ clients, client.first + numCores ≤ p.count client.node

/-- Behind the entries read: the clients written, and `r` entries of another one
whose cores begin with `first`. -/
structure Numactl.Inv (numCores : ℕ) (p : List Text) (s : Numactl) (clients : List PinnedClient)
    (first r : ℕ) : Prop where
  entries_eq : p = entries numCores clients ++ List.replicate r s.node
  written : Written numCores p s.numactlArgs clients
  arg_eq : s.numaArg = argSoFar first r
  offset_eq : s.offset = first + r
  offset_eq_count : s.offset = p.count s.node
  dvd : numCores ∣ first
  le : r ≤ numCores
  nil_of_zero : r = 0 → clients = []
  before : ∀ client ∈ clients, client.node = s.node → client.first + numCores ≤ first

section Invariant

variable {numCores : ℕ} {p args : List Text} {name : Text} {s : Numactl}
  {clients : List PinnedClient} {first r : ℕ}

theorem Written.concat (h : Written numCores p args clients) (name : Text) :
    Written numCores (p ++ [name]) args clients where
  args_eq := h.args_eq
  ordered := h.ordered
  le_count := by
    intro client hclient
    rw [List.count_append]
    exact (h.le_count client hclient).trans (Nat.le_add_right _ _)

open Numactl

theorem inv_init (numCores : ℕ) : Inv numCores [] init [] 0 0 where
  entries_eq := rfl
  written := ⟨rfl, .nil, by simp⟩
  arg_eq := rfl
  offset_eq := rfl
  offset_eq_count := rfl
  dvd := Nat.dvd_zero numCores
  le := Nat.zero_le numCores
  nil_of_zero _ := rfl
  before := by simp

/-- **At the end of a block** its client can be written. -/
theorem Numactl.Inv.written_concat (h : Inv numCores p s clients first r)
    (hr : r = 0 ∨ r = numCores) : ∃ clients', p = entries numCores clients' ∧
      Written numCores p (s.numactlArgs ++ unquoted s.numaArg) clients' := by
  by_cases hzero : r = 0
  · subst hzero
    obtain rfl := h.nil_of_zero rfl
    refine ⟨[], h.entries_eq, ?_⟩
    have hnone : unquoted s.numaArg = [] := by rw [h.arg_eq]; rfl
    rw [hnone, List.append_nil]
    exact h.written
  · obtain rfl := hr.resolve_left hzero
    refine ⟨clients ++ [⟨s.node, first⟩], ?_, ?_, ?_, ?_⟩
    · conv_lhs => rw [h.entries_eq]
      simp [entries]
    · rw [h.written.args_eq, h.arg_eq, unquoted_argSoFar (by omega), List.map_append]
      rfl
    · refine List.pairwise_append.2 ⟨h.written.ordered, List.pairwise_singleton _ _, ?_⟩
      intro client hclient last hlast hnode
      obtain rfl := List.mem_singleton.1 hlast
      exact h.before client hclient hnode
    · intro client hclient
      rcases List.mem_append.1 hclient with hclient | hclient
      · exact h.written.le_count client hclient
      · obtain rfl := List.mem_singleton.1 hclient
        exact (h.offset_eq.symm.trans h.offset_eq_count).le

/-- The first entry of a client. -/
theorem inv_newClient (hcores : 0 < numCores) (h : Inv numCores p s clients first r)
    (hr : r = 0 ∨ r = numCores) (hnew : name ≠ s.node → p.count name = 0) :
    ∃ clients' first', Inv numCores (p ++ [name]) (s.newClient name).addCore clients' first' 1 := by
  obtain ⟨clients', hentries, hwritten⟩ := h.written_concat hr
  have hoffset : (s.newClient name).offset = p.count name := by
    show (if s.node ≠ name then 0 else s.offset) = p.count name
    split_ifs with hne
    · exact (hnew hne.symm).symm
    · rw [← not_ne_iff.1 hne, h.offset_eq_count]
  have hdvd : numCores ∣ (s.newClient name).offset := by
    show numCores ∣ if s.node ≠ name then 0 else s.offset
    split_ifs with hne
    · exact Nat.dvd_zero numCores
    · rw [h.offset_eq]
      rcases hr with rfl | rfl
      · exact h.dvd
      · exact (Nat.dvd_add_right h.dvd).2 (Nat.dvd_refl r)
  refine ⟨clients', (s.newClient name).offset, ?_, ?_, ?_, rfl, ?_, hdvd, hcores, by omega, ?_⟩
  · exact congrArg (· ++ [name]) hentries
  · have hargs : (s.newClient name).addCore.numactlArgs = s.numactlArgs ++ unquoted s.numaArg :=
      if_pos (testN_eq_true _)
    rw [hargs]
    exact hwritten.concat name
  · rw [argSoFar_succ, numactlArg_one]
    rfl
  · rw [List.count_append]
    show (s.newClient name).offset + 1 = p.count name + [name].count name
    rw [hoffset, List.count_singleton_self]
  · intro client hclient hnode
    have hnode : client.node = name := hnode
    rw [hoffset, ← hnode]
    exact hwritten.le_count client hclient

/-- An entry more of a client. -/
theorem inv_addCore (h : Inv numCores p s clients first r) (hpos : 0 < r) (hr : r < numCores) :
    Inv numCores (p ++ [s.node]) s.addCore clients first (r + 1) where
  entries_eq := by
    show p ++ [s.node] = entries numCores clients ++ List.replicate (r + 1) s.node
    rw [List.replicate_succ', ← List.append_assoc, ← h.entries_eq]
  written := h.written.concat s.node
  arg_eq := by
    obtain ⟨r, rfl⟩ := Nat.exists_eq_add_of_le' hpos
    have harg : s.numaArg = numactlArg (List.range' first (r + 1)) := by
      rw [h.arg_eq, argSoFar_succ]
    show (if testZ s.numaArg = true then _ else s.numaArg ++ ',' :: pyStr s.offset) = _
    rw [testZ_eq, harg, if_neg (by simp [numactlArg]), argSoFar_succ, numactlArg_succ, h.offset_eq]
  offset_eq := by
    show s.offset + 1 = first + (r + 1)
    rw [h.offset_eq, Nat.add_assoc]
  offset_eq_count := by
    show s.offset + 1 = (p ++ [s.node]).count s.node
    rw [List.count_append, List.count_singleton_self, h.offset_eq_count]
  dvd := h.dvd
  le := hr
  nil_of_zero := by omega
  before := h.before

/-- An entry of another node than that of its block. -/
theorem spansNodes_of_inv (h : Inv numCores p s clients first r) (hpos : 0 < r) (hr : r < numCores)
    (hne : name ≠ s.node) : SpansNodes numCores (p ++ [name]) := by
  have hblock : block numCores (p ++ [name]) clients.length =
      List.replicate r s.node ++ [name] := by
    have hlen : clients.length * numCores = (entries numCores clients).length :=
      (length_entries numCores clients).symm
    rw [block, hlen, h.entries_eq, List.append_assoc, List.drop_append_length,
      List.take_of_length_le (by simp; omega)]
  refine ⟨clients.length, name, ?_, s.node, ?_, hne⟩
  · rw [hblock]
    exact List.mem_append_right _ (List.mem_singleton_self name)
  · rw [hblock]
    exact List.mem_append_left _ (List.mem_replicate.2 ⟨by omega, rfl⟩)

/-- Where in a block the entries read end. -/
theorem Numactl.Inv.length_mod (h : Inv numCores p s clients first r) :
    p.length % numCores = r % numCores := by
  conv_lhs => rw [h.entries_eq]
  rw [List.length_append, length_entries, List.length_replicate, Nat.add_comm,
    Nat.add_mul_mod_self_right]

/-- The offset tells it as well. -/
theorem Numactl.Inv.offset_mod (h : Inv numCores p s clients first r) :
    s.offset % numCores = r % numCores := by
  obtain ⟨k, hk⟩ := h.dvd
  rw [h.offset_eq, hk, Nat.mul_add_mod]

/-- Between blocks, or within one. -/
theorem Numactl.Inv.mod_eq_zero_iff (h : Inv numCores p s clients first r) :
    r % numCores = 0 ↔ r = 0 ∨ r = numCores := by
  constructor
  · intro hr
    by_contra hne
    rw [not_or] at hne
    rw [Nat.mod_eq_of_lt (lt_of_le_of_ne h.le hne.2)] at hr
    exact hne.1 hr
  · rintro (rfl | rfl)
    · exact Nat.zero_mod numCores
    · exact Nat.mod_self r

/-- **A step** keeps the invariant, or an entry is not on the node of its block. -/
theorem step_inv (hcores : 0 < numCores) (h : Inv numCores p s clients first r)
    (hnew : name ≠ s.node → p.count name = 0) :
    (s.step numCores p.length name = none ∧ SpansNodes numCores (p ++ [name])) ∨
      ∃ s' clients' first' r', s.step numCores p.length name = some s' ∧
        Inv numCores (p ++ [name]) s' clients' first' r' := by
  unfold step
  by_cases hr : r = 0 ∨ r = numCores
  · have hzero : p.length % numCores = 0 := by rw [h.length_mod, h.mod_eq_zero_iff.2 hr]
    obtain ⟨clients', first', hinv⟩ := inv_newClient hcores h hr hnew
    refine .inr ⟨_, clients', first', 1, ?_, hinv⟩
    rw [if_pos hzero]
    exact if_neg (not_not_intro rfl)
  · have hzero : p.length % numCores ≠ 0 := by
      rw [h.length_mod]
      exact fun hmod => hr (h.mod_eq_zero_iff.1 hmod)
    rw [not_or] at hr
    have hlt : r < numCores := lt_of_le_of_ne h.le hr.2
    rw [if_neg hzero]
    by_cases hname : name = s.node
    · subst hname
      exact .inr ⟨_, clients, first, r + 1, if_neg (not_not_intro rfl),
        inv_addCore h (by omega) hlt⟩
    · exact .inl ⟨if_pos hname, spansNodes_of_inv h (by omega) hlt hname⟩

theorem loop_concat (numCores nodeNum : ℕ) (p : List Text) (name : Text) (s : Numactl) :
    loop numCores nodeNum (p ++ [name]) s =
      (loop numCores nodeNum p s).bind (step numCores (nodeNum + p.length) name) := by
  induction p generalizing nodeNum s with
  | nil =>
      show (s.step numCores nodeNum name).bind some = s.step numCores nodeNum name
      exact Option.bind_fun_some _
  | cons a p ih =>
      have hnum : nodeNum + (a :: p).length = nodeNum + 1 + p.length := by
        rw [List.length_cons]
        omega
      rw [List.cons_append, loop, loop, Option.bind_assoc, hnum]
      exact congrArg _ (funext fun s' => ih (nodeNum + 1) s')

/-- **The loop** comes to its end with the invariant, or some block spans two nodes. -/
theorem loop_inv (hcores : 0 < numCores) (h : Contiguous p) :
    (loop numCores 0 p init = none ∧ SpansNodes numCores p) ∨
      ∃ s clients first r, loop numCores 0 p init = some s ∧
        Inv numCores p s clients first r := by
  induction p using List.reverseRecOn with
  | nil => exact .inr ⟨init, [], 0, 0, rfl, inv_init numCores⟩
  | append_singleton p name ih =>
      rw [loop_concat, Nat.zero_add]
      rcases ih h.of_append with ⟨hnone, hspans⟩ | ⟨s, clients, first, r, hsome, hinv⟩
      · exact .inl ⟨by rw [hnone]; rfl, hspans.append⟩
      · rw [hsome]
        refine step_inv hcores hinv fun hne => List.count_eq_zero.2 ?_
        by_cases hr : r = 0
        · have hp := hinv.entries_eq
          rw [hr, hinv.nil_of_zero hr] at hp
          rw [hp]
          exact List.not_mem_nil
        · have hlast : p.getLast? = some s.node := by
            obtain ⟨r, rfl⟩ := Nat.exists_eq_succ_of_ne_zero hr
            rw [hinv.entries_eq, List.replicate_succ', ← List.append_assoc, List.getLast?_concat]
          exact h.not_mem hlast hne

/-! ### What comes out -/

/-- Behind the loop no block spans two nodes. -/
theorem not_spansNodes_of_inv (h : Inv numCores p s clients first r) :
    ¬SpansNodes numCores p := by
  rintro ⟨j, a, ha, b, hb, hne⟩
  rw [h.entries_eq] at ha hb
  by_cases hj : j < clients.length
  · have hblock := block_entries_append (List.getElem?_eq_getElem hj) numCores
      (List.replicate r s.node)
    rw [hblock] at ha hb
    exact hne ((List.eq_of_mem_replicate ha).trans (List.eq_of_mem_replicate hb).symm)
  · have hsub := block_of_le (not_lt.1 hj) numCores (List.replicate r s.node)
    exact hne ((List.eq_of_mem_replicate (hsub ha)).trans (List.eq_of_mem_replicate (hsub hb)).symm)

/-- The clients written, when less than a block is left. -/
theorem Written.disjointCores {t : List Text} (h : Written numCores p args clients)
    (hp : p = entries numCores clients ++ t) (ht : t.length < numCores) :
    DisjointCores numCores p clients where
  length_eq := by
    rw [hp, List.length_append, length_entries, Nat.add_comm,
      Nat.add_mul_div_right _ _ (by omega), Nat.div_eq_of_lt ht, Nat.zero_add]
  block_eq := by
    intro j client hclient
    rw [hp]
    exact block_entries_append hclient numCores t
  disjoint := by
    refine h.ordered.imp fun hab hnode o ha hb => ?_
    have hlt := (List.mem_range'_1.1 ha).2
    have hle := (List.mem_range'_1.1 hb).1
    have hab := hab hnode
    omega
  lt_count := by
    intro client hclient o ho
    exact (List.mem_range'_1.1 ho).2.trans_le (h.le_count client hclient)

end Invariant

/-- **Clients are pinned to disjoint cores.** -/
theorem computeNumactlArgs_spec (numCores : ℕ) (nodes : List Text) (hcores : 0 < numCores)
    (h : Contiguous nodes) :
    (SpansNodes numCores nodes ↔ (computeNumactlArgs numCores nodes).status = 1 ∧
      (computeNumactlArgs numCores nodes).stdout = []) ∧
    (¬SpansNodes numCores nodes → ∃ clients, DisjointCores numCores nodes clients ∧
      (computeNumactlArgs numCores nodes).stdout =
        echo (clients.map fun client => numactlArg (client.offsets numCores)) ∧
      (computeNumactlArgs numCores nodes).status = if numCores ∣ nodes.length then 0 else 2) := by
  rcases loop_inv hcores h with ⟨hnone, hspans⟩ | ⟨s, clients, first, r, hsome, hinv⟩
  · have hresult : computeNumactlArgs numCores nodes =
        ⟨[], "### error: work items span nodes\n".toList, 1⟩ := by
      rw [computeNumactlArgs, hnone]
    rw [hresult]
    exact ⟨iff_of_true hspans ⟨rfl, rfl⟩, fun hnot => absurd hspans hnot⟩
  · have hspans := not_spansNodes_of_inv hinv
    have hdvd : numCores ∣ nodes.length ↔ r = 0 ∨ r = numCores := by
      rw [Nat.dvd_iff_mod_eq_zero, hinv.length_mod, hinv.mod_eq_zero_iff]
    by_cases hr : r = 0 ∨ r = numCores
    · obtain ⟨clients', hentries, hwritten⟩ := hinv.written_concat hr
      have hresult : computeNumactlArgs numCores nodes =
          ⟨echo (clients'.map fun client => numactlArg (client.offsets numCores)), [], 0⟩ := by
        have hmod : s.offset % numCores = 0 := by rw [hinv.offset_mod, hinv.mod_eq_zero_iff.2 hr]
        rw [computeNumactlArgs, hsome]
        dsimp only
        rw [if_pos (testN_eq_true _), if_pos hmod, hwritten.args_eq, flatMap_unquoted]
      rw [hresult, if_pos (hdvd.2 hr)]
      refine ⟨iff_of_false hspans fun hone => Nat.zero_ne_one hone.1, fun _ => ?_⟩
      have hnil : nodes = entries numCores clients' ++ [] := by rw [List.append_nil, hentries]
      exact ⟨clients', hwritten.disjointCores hnil hcores, rfl, rfl⟩
    · have hresult : computeNumactlArgs numCores nodes =
          ⟨echo (clients.map fun client => numactlArg (client.offsets numCores)),
            "### warning: some cores are unused\n".toList, 2⟩ := by
        have hmod : ¬s.offset % numCores = 0 := by
          rw [hinv.offset_mod, hinv.mod_eq_zero_iff]
          exact hr
        rw [computeNumactlArgs, hsome]
        dsimp only
        rw [if_pos (testN_eq_true _), if_neg hmod, hinv.written.args_eq, flatMap_unquoted]
      rw [hresult, if_neg fun hd => hr (hdvd.1 hd)]
      refine ⟨iff_of_false hspans fun hone => Nat.succ_succ_ne_one 0 hone.1, fun _ => ?_⟩
      rw [not_or] at hr
      have hlt : (List.replicate r s.node).length < numCores := by
        rw [List.length_replicate]
        exact lt_of_le_of_ne hinv.le hr.2
      exact ⟨clients, hinv.written.disjointCores hinv.entries_eq hlt, rfl, rfl⟩

/-- Three clients of two cores on two nodes, and a core to spare. -/
theorem computeNumactlArgs_unused :
    ∃ clients, DisjointCores 2 [['a'], ['a'], ['b'], ['b'], ['b'], ['b'], ['b']] clients ∧
      (computeNumactlArgs 2 [['a'], ['a'], ['b'], ['b'], ['b'], ['b'], ['b']]).stdout =
        echo (clients.map fun client => numactlArg (client.offsets 2)) := by
  have hspec := computeNumactlArgs_spec 2 [['a'], ['a'], ['b'], ['b'], ['b'], ['b'], ['b']]
    (by decide) (by decide)
  have hspans : ¬SpansNodes 2 [['a'], ['a'], ['b'], ['b'], ['b'], ['b'], ['b']] := by
    intro h
    exact absurd (hspec.1.1 h).1 (by decide)
  obtain ⟨clients, hclients, hstdout, -⟩ := hspec.2 hspans
  exact ⟨clients, hclients, hstdout⟩

end Submit
end WorkerNg
