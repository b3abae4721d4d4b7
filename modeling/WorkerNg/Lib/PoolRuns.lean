/-
# Runs of a pool in which nothing is dropped

Two kinds of runs of `Pool.Step`.  In a *careful* run (`Careful`) no client dies
while it holds an item or one is on its way to it, no message with an item or a
result is lost, and no item is handed out to a client that is already dead.
Then every open item is taken care of by some client (`kept_reaches`), and so
the pool never hangs (`not_hang`): as long as a client lives that was told to
stop, and the server has not left, there is still a message on its way or a
client at work.

In a run *without crashes* (`CrashFree`) nobody dies, nobody gives up and nothing
is lost.  When the server leaves then, every client is done with its items and
at one of the places listed in `AtRest`; it may be waiting for the answer to a
query that nobody will receive any more.
-/

import WorkerNg.Lib.PoolInvariant

namespace WorkerNg
namespace Pool

variable {C α ρ : Type*} {items : List α} {c : C} {k : ℕ}

/-! ### The order of events -/

/-- A history in which every result handled is the first one for its item, which
was given to a client before. -/
inductive InOrder : List (Event C α ρ) → Prop where
  | nil : InOrder []
  | snoc {t : List (Event C α ρ)} {e : Event C α ρ} (h : InOrder t)
      (he : ∀ k, e.resultId = some k → (∃ c, Given t c k) ∧ ¬Handled t k) : InOrder (t ++ [e])

theorem InOrder.append {t es : List (Event C α ρ)} (h : InOrder t)
    (hes : ∀ e ∈ es, e.resultId = none) : InOrder (t ++ es) := by
  induction es generalizing t with
  | nil => rwa [List.append_nil]
  | cons e es ih =>
      rw [List.forall_mem_cons] at hes
      rw [List.append_cons]
      refine ih (h.snoc fun k hk => ?_) hes.2
      rw [hes.1] at hk
      cases hk

theorem inOrder_step [DecidableEq C] {s s' : State C α ρ} {l : Label C} (hi : Inv items s)
    (h : InOrder s.trace) (hs : Step items s l s') : InOrder s'.trace := by
  cases hs with
  | @serve c ph q p given toDo hserving hc ha =>
      show InOrder (s.trace ++ [.received c q, .sent c p])
      rw [List.append_cons]
      refine (h.snoc fun k hk => ?_).append (by simp [Event.resultId])
      cases q with
      | query => cases hk
      | result j r =>
          obtain rfl := Option.some.inj hk
          have hu := hi.unreported hc
          exact ⟨⟨c, hu.given⟩, hu.not_handled⟩
  | _ => exact h.append (by simp [Event.resultId])

theorem inOrder_reaches [DecidableEq C] {P : State C α ρ → Label C → Prop} {s : State C α ρ}
    (h : Reaches (Step items) P init s) : InOrder s.trace :=
  (h.invariant (I := fun s => Inv items s ∧ InOrder s.trace) ⟨inv_init, .nil⟩
    fun _ _ _ hi _ hs => ⟨inv_step hi.1 hs, inOrder_step hi.1 hi.2 hs⟩).2

/-! ### Careful runs -/

/-- A client that has an item in hand. -/
def Phase.Busy : Phase α ρ → Prop
  | .working _ _ => True
  | .finished _ _ => True
  | _ => False

/-- A channel with an item on its way to the client. -/
def Channel.HoldsWork : Channel α ρ → Prop
  | .reply (.work _ _) => True
  | _ => False

/-- A channel with a result on its way to the server. -/
def Channel.HoldsResult : Channel α ρ → Prop
  | .request (.result _ _) => True
  | _ => False

/-- The condition on a step that it drops no item. -/
def Careful (items : List α) (s : State C α ρ) : Label C → Prop
  | .serve c => s.party c = ⟨.dead, .request .query⟩ → items.length ≤ s.given
  | .go _ => True
  | .giveUp _ => True
  | .die c => ¬(s.party c).phase.Busy ∧ ¬(s.party c).chan.HoldsWork
  | .lose c => ¬(s.party c).chan.HoldsWork ∧ ¬(s.party c).chan.HoldsResult

/-- Item `k` is on its way to a living client, in its hands, or on its way back
with its result. -/
inductive TakenCare (k : ℕ) : Party α ρ → Prop where
  | sent {a : α} : TakenCare k ⟨.querying, .reply (.work k a)⟩
  | working {a : α} : TakenCare k ⟨.working k a, .empty⟩
  | finished {r : ρ} : TakenCare k ⟨.finished k r, .empty⟩
  | reported {ph : Phase α ρ} {r : ρ} : TakenCare k ⟨ph, .request (.result k r)⟩

/-- Every open item is taken care of. -/
def Kept (s : State C α ρ) : Prop := ∀ k ∈ s.toDo, ∃ c, TakenCare k (s.party c)

variable [DecidableEq C]

/-- When one client changes, the others still take care of their items. -/
theorem Kept.update {s : State C α ρ} (h : Kept s) {p p' : Party α ρ} {toDo : Finset ℕ}
    (hc : s.party c = p) (hsub : ∀ k ∈ toDo, k ∈ s.toDo ∨ TakenCare k p')
    (hp : ∀ k ∈ toDo, TakenCare k p → TakenCare k p') :
    ∀ k ∈ toDo, ∃ d, TakenCare k (Function.update s.party c p' d) := by
  intro k hk
  rcases hsub k hk with hs | hs
  · obtain ⟨d, hd⟩ := h k hs
    by_cases hdc : d = c
    · subst hdc
      rw [hc] at hd
      exact ⟨d, by simpa using hp k hk hd⟩
    · exact ⟨d, by simpa [hdc] using hd⟩
  · exact ⟨c, by simpa using hs⟩

/-- A client's own step that lets go of no item. -/
theorem Kept.put {s : State C α ρ} (h : Kept s) {p p' : Party α ρ} {es : List (Event C α ρ)}
    (hc : s.party c = p) (hp : ∀ k, TakenCare k p → TakenCare k p') : Kept (s.put c p' es) :=
  h.update hc (fun _ hk => Or.inl hk) fun k _ => hp k

omit [DecidableEq C] in
/-- A client that an item is handed out to is alive, or the step is not careful. -/
theorem querying_of_careful {s : State C α ρ} {ph : Phase α ρ} (hi : Inv items s)
    (hc : s.party c = ⟨ph, .request .query⟩) (hl : Careful items s (.serve c))
    (hlt : s.given < items.length) : ph = .querying := by
  have hp := hi.consistent hc
  cases hp with
  | querying => rfl
  | stuck h => simp at h
  | dead => exact absurd (hl hc) hlt.not_ge

/-- **A careful step leaves every open item taken care of.** -/
theorem kept_step {s s' : State C α ρ} {l : Label C} (hi : Inv items s) (h : Kept s)
    (hl : Careful items s l) (hs : Step items s l s') : Kept s' := by
  cases hs with
  | sendQuery hc => exact h.put hc fun _ ht => nomatch ht
  | recvWork hc =>
      refine h.put hc fun k ht => ?_
      cases ht
      exact .working
  | recvStop hc => exact h.put hc fun _ ht => nomatch ht
  | execute r hc =>
      refine h.put hc fun k ht => ?_
      cases ht
      exact .finished
  | sendResult hc =>
      refine h.put hc fun k ht => ?_
      cases ht
      exact .reported
  | recvAck hc => exact h.put hc fun _ ht => nomatch ht
  | recvAckStop hc => exact h.put hc fun _ ht => nomatch ht
  | giveUp hc =>
      refine h.put hc fun k ht => ?_
      cases ht
      exact .reported
  | die hc =>
      refine h.put hc fun k ht => ?_
      rw [Careful, hc] at hl
      cases ht with
      | sent => exact absurd trivial hl.2
      | working => exact absurd trivial hl.1
      | finished => exact absurd trivial hl.1
      | reported => exact .reported
  | lose hc =>
      refine h.put hc fun k ht => ?_
      rw [Careful, hc] at hl
      cases ht with
      | sent => exact absurd trivial hl.1
      | working => exact .working
      | finished => exact .finished
      | reported => exact absurd trivial hl.2
  | serve _ hc ha =>
      cases ha with
      | work ha =>
          have hlt := (List.getElem?_eq_some_iff.1 ha).1
          obtain rfl := querying_of_careful hi hc hl hlt
          refine h.update hc (fun k hk => ?_) fun _ _ ht => nomatch ht
          rcases Finset.mem_insert.1 hk with rfl | hk
          · exact Or.inr .sent
          · exact Or.inl hk
      | stop _ => exact h.update hc (fun k hk => Or.inl hk) fun _ _ ht => nomatch ht
      | ack _ =>
          refine h.update hc (fun k hk => Or.inl (Finset.mem_of_mem_erase hk)) fun k hk ht => ?_
          cases ht
          exact absurd rfl (Finset.ne_of_mem_erase hk)
      | ackStop _ =>
          refine h.update hc (fun k hk => Or.inl (Finset.mem_of_mem_erase hk)) fun k hk ht => ?_
          cases ht
          exact absurd rfl (Finset.ne_of_mem_erase hk)

/-- **In a careful run every open item is taken care of.** -/
theorem kept_reaches {s : State C α ρ} (h : Reaches (Step items) (Careful items) init s) :
    Kept s := by
  have hboth := h.invariant (I := fun s => Inv items s ∧ Kept s)
    ⟨inv_init, fun k hk => absurd hk (Finset.notMem_empty k)⟩
    fun _ _ _ hi hl hs => ⟨inv_step hi.1 hs, kept_step hi.1 hi.2 hl hs⟩
  exact hboth.2

/-- A message that somebody will receive: a request, or a reply to a living
client. -/
def Party.InFlight (p : Party α ρ) : Prop :=
  (∃ q, p.chan = .request q) ∨ (∃ q, p.chan = .reply q) ∧ p.phase ≠ .dead

/-- The server is serving, but every client is dead or was told to stop, at least
one of them lives, and no message is in flight. -/
structure Hang (s : State C α ρ) : Prop where
  serving : s.serving = true
  ended : ∀ c, (s.party c).phase = .dead ∨ Told s.trace c
  alive : ∃ c, (s.party c).phase ≠ .dead
  quiet : ∀ c, ¬(s.party c).InFlight

omit [DecidableEq C] in
/-- **A pool whose open items are taken care of does not hang.** -/
theorem not_hang {s : State C α ρ} (hi : Inv items s) (hk : Kept s) : ¬Hang s := by
  rintro ⟨hs, hended, ⟨c, hc⟩, hquiet⟩
  obtain ⟨p, hp, hm⟩ := (hended c).resolve_left hc
  -- the client told to stop shows that an item is open
  have hopen : s.toDo.Nonempty := by
    have hg := hi.told c ⟨p, hp, hm⟩
    exact (hi.busy hs ⟨c, p, hm⟩).resolve_left fun hlt => absurd hg hlt.ne
  obtain ⟨k, hopen⟩ := hopen
  obtain ⟨d, hd⟩ := hk k hopen
  have hcons := hi.party d
  have hq := hquiet d
  have ho := hended d
  generalize s.party d = party at hd hcons hq ho
  cases hd with
  | sent => exact hq (Or.inr ⟨⟨_, rfl⟩, by simp⟩)
  | working =>
      cases hcons with
      | working hu _ => exact hu.not_told (ho.resolve_left (by simp))
  | finished =>
      cases hcons with
      | finished hu => exact hu.not_told (ho.resolve_left (by simp))
  | reported => exact hq (Or.inl ⟨_, rfl⟩)

/-! ### Runs without crashes -/

/-- The condition on a step that nobody dies or gives up and nothing is lost. -/
def CrashFree (_ : State C α ρ) : Label C → Prop
  | .serve _ => True
  | .go _ => True
  | .giveUp _ => False
  | .die _ => False
  | .lose _ => False

/-- A client that lives, and waits only for messages that are on their way. -/
structure Prompt (p : Party α ρ) : Prop where
  not_dead : p.phase ≠ .dead
  not_stuck : p.phase ≠ .stuck
  querying : p ≠ ⟨.querying, .empty⟩
  reporting : ∀ k, p ≠ ⟨.reporting k, .empty⟩

/-- **In a run without crashes all clients are prompt.** -/
theorem prompt_step {s s' : State C α ρ} {l : Label C} (h : ∀ c, Prompt (s.party c))
    (hl : CrashFree s l) (hs : Step items s l s') (c : C) : Prompt (s'.party c) := by
  have key : ∀ {d : C} {p : Party α ρ}, Prompt p → Prompt (Function.update s.party d p c) := by
    intro d p hp
    by_cases hc : c = d
    · subst hc
      rwa [Function.update_self]
    · rw [Function.update_of_ne hc]
      exact h c
  cases hs with
  | sendQuery _ => exact key ⟨by simp, by simp, by simp, by simp⟩
  | recvWork _ => exact key ⟨by simp, by simp, by simp, by simp⟩
  | recvStop _ => exact key ⟨by simp, by simp, by simp, by simp⟩
  | execute _ _ => exact key ⟨by simp, by simp, by simp, by simp⟩
  | sendResult _ => exact key ⟨by simp, by simp, by simp, by simp⟩
  | recvAck _ => exact key ⟨by simp, by simp, by simp, by simp⟩
  | recvAckStop _ => exact key ⟨by simp, by simp, by simp, by simp⟩
  | giveUp _ => exact hl.elim
  | die _ => exact hl.elim
  | lose _ => exact hl.elim
  | @serve d ph _ _ _ _ _ hc _ =>
      have hp := h d
      rw [hc] at hp
      exact key ⟨hp.not_dead, hp.not_stuck, by simp, by simp⟩

theorem prompt_reaches {s : State C α ρ} (h : Reaches (Step items) CrashFree init s) (c : C) :
    Prompt (s.party c) := by
  have hall := h.invariant (I := fun s => ∀ c, Prompt (s.party c))
    (fun d => ⟨by simp [init], by simp [init], by simp [init], by simp [init]⟩)
    fun _ _ _ hp hl hs d => prompt_step hp hl hs d
  exact hall c

/-- Where a client can be when the server has left: it has stopped, or a reply
that sends it there or back to the start is on its way, or it is about to ask
for work, or it has asked and the query has not been received. -/
inductive AtRest : Party α ρ → Prop where
  | ready : AtRest ⟨.ready, .empty⟩
  | unanswered : AtRest ⟨.querying, .request .query⟩
  | stopSent : AtRest ⟨.querying, .reply .stop⟩
  | ackSent {k : ℕ} : AtRest ⟨.reporting k, .reply .ack⟩
  | ackStopSent {k : ℕ} : AtRest ⟨.reporting k, .reply .ackStop⟩
  | stopped : AtRest ⟨.stopped, .empty⟩

omit [DecidableEq C] in
/-- When the server has left, no item is given and not handled. -/
theorem Inv.handled_of_given {s : State C α ρ} (hi : Inv items s) (hs : s.serving = false)
    (hg : Given s.trace c k) : Handled s.trace k := by
  by_contra hh
  have hk := (hi.toDo k).2 ⟨⟨c, hg⟩, hh⟩
  rw [(hi.left hs).2] at hk
  exact absurd hk (Finset.notMem_empty k)

omit [DecidableEq C] in
/-- **When the server has left a run without crashes, every client is done with
its items and at rest.** -/
theorem atRest_of_not_serving {s : State C α ρ} (hi : Inv items s) (hp : Prompt (s.party c))
    (hs : s.serving = false) : Done s.trace c ∧ AtRest (s.party c) := by
  constructor
  · intro k a hm _
    exact hi.handled_of_given hs ⟨a, hi.sent_of_delivered c k a hm⟩
  · have hc := hi.party c
    generalize s.party c = party at hc hp
    cases hc with
    | ready _ _ => exact .ready
    | querying _ _ => exact .unanswered
    | workSent hu _ => exact absurd (hi.handled_of_given hs ⟨_, hu.sent⟩) hu.not_handled
    | stopSent _ _ => exact .stopSent
    | queryLost _ => exact absurd rfl hp.querying
    | working hu _ => exact absurd (hi.handled_of_given hs ⟨_, hu.sent⟩) hu.not_handled
    | finished hu => exact absurd (hi.handled_of_given hs hu.given) hu.not_handled
    | report _ hu => exact absurd (hi.handled_of_given hs hu.given) hu.not_handled
    | ackSent _ _ => exact .ackSent
    | ackStopSent _ _ => exact .ackStopSent
    | reportLost => exact absurd rfl (hp.reporting _)
    | stuck _ => exact absurd rfl hp.not_stuck
    | stopped _ _ => exact .stopped
    | dead _ _ => exact absurd rfl hp.not_dead

end Pool
end WorkerNg
