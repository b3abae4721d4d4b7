/-
# How far a pool is from its end

Every step of a pool that is not idle brings it closer to its end, whatever dies,
gives up or is lost on the way.  An item costs seven steps: the query, the item
handed out and received, its execution, the report, its acknowledgement and the
receipt of that.  A client that gets no item any more makes at most four, so a
pool with `n` items and `m` clients makes at most `7 n + 4 m` steps in all
(`measure_init`, `measure_lt`).

The rank of a client goes down with each of its own steps and with each answer
but one: the work message, which takes an item from those left (`rank_serve`).

In a careful run an open item has one place: a client that works on it or reports
it, or a channel (`Kept.existsUnique`), so that no more items are open than there
are clients (`Kept.card_le`).
-/

import WorkerNg.Lib.PoolRuns
import Mathlib.Algebra.BigOperators.Group.Finset.Basic
import Mathlib.Combinatorics.Enumerative.DoubleCounting

namespace WorkerNg
namespace Pool

variable {C α ρ : Type*} {items : List α} {c d : C} {j k : ℕ}

/-! ### The measure -/

/-- How many steps a client can still make, its channel apart. -/
def Phase.rank : Phase α ρ → ℕ
  | .ready => 4
  | .querying => 1
  | .working _ _ => 8
  | .finished _ _ => 7
  | .reporting _ => 4
  | .stuck => 2
  | .stopped => 1
  | .dead => 0

/-- How many steps the message in a channel stands for. -/
def Channel.rank : Channel α ρ → ℕ
  | .empty => 0
  | .request _ => 2
  | .reply (.work _ _) => 8
  | .reply _ => 1

/-- The rank of a client with its channel. -/
def Party.rank (p : Party α ρ) : ℕ := p.phase.rank + p.chan.rank

/-- What is left to do: seven steps for each item not handed out, and the ranks
of the clients. -/
def State.measure [Fintype C] (items : List α) (s : State C α ρ) : ℕ :=
  7 * (items.length - s.given) + ∑ c, (s.party c).rank

theorem measure_init [Fintype C] (items : List α) :
    (init : State C α ρ).measure items = 7 * items.length + 4 * Fintype.card C := by
  simp [State.measure, init, Party.rank, Phase.rank, Channel.rank, Nat.mul_comm]

/-- A step that does nothing: a message is lost where there is none, or a client
dies that has ended. -/
def Idle (s : State C α ρ) : Label C → Prop
  | .lose c => (s.party c).chan = .empty
  | .die c => (s.party c).phase = .dead
  | _ => False

theorem Phase.rank_pos {ph : Phase α ρ} (h : ph ≠ .dead) : 0 < ph.rank := by
  cases ph with
  | dead => exact absurd rfl h
  | _ => simp [Phase.rank]

theorem Channel.rank_pos {ch : Channel α ρ} (h : ch ≠ .empty) : 0 < ch.rank := by
  rcases ch with _ | q | (⟨k, a⟩ | _ | _ | _)
  · exact absurd rfl h
  all_goals simp [Channel.rank]

variable [DecidableEq C]

/-- When one client changes, so does the sum of the ranks. -/
theorem sum_rank_update [Fintype C] (party : C → Party α ρ) (c : C) (p : Party α ρ) :
    ∑ d, (Function.update party c p d).rank + (party c).rank = ∑ d, (party d).rank + p.rank := by
  rw [← Finset.add_sum_erase _ (fun d => (Function.update party c p d).rank) (Finset.mem_univ c),
    ← Finset.add_sum_erase _ (fun d => (party d).rank) (Finset.mem_univ c), Function.update_self]
  have hrest : ∑ d ∈ Finset.univ.erase c, (Function.update party c p d).rank =
      ∑ d ∈ Finset.univ.erase c, (party d).rank := by
    refine Finset.sum_congr rfl fun d hd => ?_
    rw [Function.update_of_ne (Finset.ne_of_mem_erase hd)]
  omega

/-- A client's own step that lowers its rank lowers the measure. -/
theorem measure_put [Fintype C] {s : State C α ρ} {p p' : Party α ρ} {es : List (Event C α ρ)}
    (hc : s.party c = p) (hlt : p'.rank < p.rank) :
    (s.put c p' es).measure items < s.measure items := by
  have hsum := sum_rank_update s.party c p'
  rw [hc] at hsum
  simp only [State.measure, State.put]
  omega

omit [DecidableEq C] in
/-- **An answer lowers the rank of the client**, or raises it by six and takes an
item. -/
theorem rank_serve {s : State C α ρ} (ph : Phase α ρ) {q : Request ρ} {p : Reply α} {given : ℕ}
    {toDo : Finset ℕ} (ha : Answer items s q p given toDo) :
    (Party.mk ph (.reply p : Channel α ρ)).rank + 7 * (items.length - given) <
      (Party.mk ph (.request q)).rank + 7 * (items.length - s.given) := by
  cases ha with
  | work ha =>
      have hlt := (List.getElem?_eq_some_iff.1 ha).1
      simp only [Party.rank, Channel.rank]
      omega
  | stop _ => simp [Party.rank, Channel.rank]
  | ack _ => simp [Party.rank, Channel.rank]
  | ackStop _ => simp [Party.rank, Channel.rank]

/-- **Every step that is not idle lowers the measure.** -/
theorem measure_lt [Fintype C] {s s' : State C α ρ} {l : Label C} (hs : Step items s l s')
    (hl : ¬Idle s l) : s'.measure items < s.measure items := by
  cases hs with
  | sendQuery hc => exact measure_put hc (by simp [Party.rank, Phase.rank, Channel.rank])
  | recvWork hc => exact measure_put hc (by simp [Party.rank, Phase.rank, Channel.rank])
  | recvStop hc => exact measure_put hc (by simp [Party.rank, Phase.rank, Channel.rank])
  | execute r hc => exact measure_put hc (by simp [Party.rank, Phase.rank, Channel.rank])
  | sendResult hc => exact measure_put hc (by simp [Party.rank, Phase.rank, Channel.rank])
  | recvAck hc => exact measure_put hc (by simp [Party.rank, Phase.rank, Channel.rank])
  | recvAckStop hc => exact measure_put hc (by simp [Party.rank, Phase.rank, Channel.rank])
  | giveUp hc => exact measure_put hc (by simp [Party.rank, Phase.rank])
  | die hc =>
      rw [Idle, hc] at hl
      exact measure_put hc (by simpa [Party.rank, Phase.rank] using Phase.rank_pos hl)
  | lose hc =>
      rw [Idle, hc] at hl
      exact measure_put hc (by simpa [Party.rank, Channel.rank] using Channel.rank_pos hl)
  | @serve c ph q p given toDo _ hc ha =>
      have hsum := sum_rank_update s.party c ⟨ph, .reply p⟩
      have hlt := rank_serve ph ha
      rw [hc] at hsum
      simp only [State.measure, State.leaveOrServe, State.put]
      omega

/-! ### Open items -/

omit [DecidableEq C] in
/-- A client takes care of one item at a time. -/
theorem TakenCare.unique {p : Party α ρ} (hk : TakenCare k p) (hj : TakenCare j p) : k = j := by
  cases hk <;> cases hj <;> rfl

omit [DecidableEq C] in
/-- Whoever takes care of an item was given it, and its result is not handled. -/
theorem Inv.open_of_takenCare {s : State C α ρ} (hi : Inv items s)
    (hk : TakenCare k (s.party c)) : Given s.trace c k ∧ ¬Handled s.trace k := by
  have hc := hi.party c
  generalize s.party c = p at hk hc
  cases hk with
  | sent =>
      cases hc with
      | workSent hu _ => exact ⟨⟨_, hu.sent⟩, hu.not_handled⟩
  | working =>
      cases hc with
      | working hu _ => exact ⟨⟨_, hu.sent⟩, hu.not_handled⟩
  | finished =>
      cases hc with
      | finished hu => exact ⟨hu.given, hu.not_handled⟩
  | reported =>
      cases hc with
      | report _ hu => exact ⟨hu.given, hu.not_handled⟩
      | stuck h => simp at h
      | dead hr _ => exact absurd rfl (hr _ _)

omit [DecidableEq C] in
/-- **Where every open item is taken care of, it is by one client.** -/
theorem Kept.existsUnique {s : State C α ρ} (hi : Inv items s) (h : Kept s) :
    k ∈ s.toDo ↔ ∃! c, TakenCare k (s.party c) := by
  constructor
  · intro hk
    obtain ⟨c, hc⟩ := h k hk
    refine ⟨c, hc, fun d hd => ?_⟩
    exact hi.given_unique (hi.open_of_takenCare hd).1 (hi.open_of_takenCare hc).1
  · rintro ⟨c, hc, -⟩
    obtain ⟨hg, hh⟩ := hi.open_of_takenCare hc
    exact (hi.toDo k).2 ⟨⟨c, hg⟩, hh⟩

omit [DecidableEq C] in
/-- **No more items are open than there are clients.** -/
theorem Kept.card_le [Fintype C] {s : State C α ρ} (h : Kept s) :
    s.toDo.card ≤ Fintype.card C := by
  refine Finset.card_le_card_of_forall_subsingleton (fun k c => TakenCare k (s.party c))
    (fun k hk => ?_) fun c _ j hj k hk => hj.2.unique hk.2
  obtain ⟨c, hc⟩ := h k hk
  exact ⟨c, Finset.mem_univ c, hc⟩

/-! ### Runs without crashes -/

omit [DecidableEq C] in
/-- **A step without a crash, from a state in which all are prompt, is careful.** -/
theorem careful_of_crashFree {s : State C α ρ} {l : Label C} (hp : ∀ c, Prompt (s.party c))
    (hl : CrashFree s l) : Careful items s l := by
  cases l with
  | serve c =>
      intro hc
      exact absurd (by rw [hc]) (hp c).not_dead
  | go c => trivial
  | giveUp c => exact hl.elim
  | die c => exact hl.elim
  | lose c => exact hl.elim

theorem kept_of_crashFree {s : State C α ρ} (h : Reaches (Step items) CrashFree init s) :
    Kept s := by
  have hall := h.invariant (I := fun s => Inv items s ∧ (∀ c, Prompt (s.party c)) ∧ Kept s)
    ⟨inv_init, prompt_reaches (Reaches.refl : Reaches (Step items) CrashFree init init),
      fun k hk => absurd hk (Finset.notMem_empty k)⟩
    fun _ _ _ ⟨hi, hp, hk⟩ hl hs => ⟨inv_step hi hs, fun d => prompt_step hp hl hs d,
      kept_step hi hk (careful_of_crashFree hp hl) hs⟩
  exact hall.2.2

end Pool
end WorkerNg
