/-
# What holds in every run of a pool of work

`Inv` collects what the steps of `Pool.Step` keep: the ids handed out are `1`,
`2`, ... in this order, the open ones are those without a result handled, every
item is executed at most once and every result handled at most once, nothing is
handed out after a stop, and each client fits its channel and the history
(`Consistent`).  A step of one client leaves the others consistent
(`Consistent.frame`), since what it executes or reports was given to it and to
nobody else (`Inv.given_unique`).

`inv_step` is the step lemma, and `inv_reaches` the result for whole runs.
-/

import WorkerNg.Lib.Pool
import Mathlib.Data.List.Nodup
import Mathlib.Data.List.Pairwise

namespace WorkerNg
namespace Pool

variable {C α ρ : Type*} {t es : List (Event C α ρ)} {c d : C} {k : ℕ} {a : α} {r : ρ}
  {items : List α}

/-- In a list on which a partial function takes no value twice, it takes each
value at one element. -/
theorem eq_of_nodup_filterMap {β γ : Type*} {f : β → Option γ} {l : List β}
    (h : (l.filterMap f).Nodup) {x y : β} (hx : x ∈ l) (hy : y ∈ l) {b : γ} (hfx : f x = some b)
    (hfy : f y = some b) : x = y := by
  rw [List.Nodup, List.pairwise_filterMap] at h
  by_contra hne
  have hsymm : Std.Symm fun a a' : β => ∀ b, f a = some b → ∀ b', f a' = some b' → b ≠ b' :=
    ⟨fun a a' hR b hb b' hb' => (hR b' hb' b hb).symm⟩
  exact h.forall hx hy hne b hfx b hfy rfl

/-! ### Events of one client and the history of another -/

theorem told_append (hc : ∀ e ∈ es, e.client ≠ d) : Told (t ++ es) d ↔ Told t d := by
  unfold Told
  constructor
  · rintro ⟨p, hp, hm⟩
    rcases List.mem_append.1 hm with hm | hm
    · exact ⟨p, hp, hm⟩
    · exact absurd rfl (hc _ hm)
  · rintro ⟨p, hp, hm⟩
    exact ⟨p, hp, List.mem_append_left _ hm⟩

theorem Handled.append (h : Handled t k) : Handled (t ++ es) k := by
  obtain ⟨c, r, h⟩ := h
  exact ⟨c, r, List.mem_append_left _ h⟩

theorem Given.append (h : Given t c k) : Given (t ++ es) c k := by
  obtain ⟨a, h⟩ := h
  exact ⟨a, List.mem_append_left _ h⟩

theorem not_handled_append (h : ¬Handled t k) (he : ∀ e ∈ es, e.resultId ≠ some k) :
    ¬Handled (t ++ es) k := by
  rintro ⟨c, r, hm⟩
  rcases List.mem_append.1 hm with hm | hm
  · exact h ⟨c, r, hm⟩
  · exact he _ hm rfl

theorem not_executed_append (h : ¬Executed t k) (he : ∀ e ∈ es, e.executedId ≠ some k) :
    ¬Executed (t ++ es) k := by
  rintro ⟨c, a, r, hm⟩
  rcases List.mem_append.1 hm with hm | hm
  · exact h ⟨c, a, r, hm⟩
  · exact he _ hm rfl

theorem given_of_mem (h : k ∈ t.filterMap Event.workId) : ∃ c, Given t c k := by
  obtain ⟨e, he, hek⟩ := List.mem_filterMap.1 h
  unfold Event.workId at hek
  split at hek
  · obtain rfl := Option.some.inj hek
    exact ⟨_, _, he⟩
  · exact absurd hek (by simp)

theorem given_answer {q : Request ρ} {p : Reply α} :
    (∃ d, Given (t ++ [.received c q, .sent c p]) d k) ↔
      (∃ d, Given t d k) ∨ (Event.sent c p : Event C α ρ).workId = some k := by
  have hnew : (Event.sent c p : Event C α ρ).workId = some k ↔ ∃ a, p = .work k a := by
    cases p <;> simp [Event.workId]
  rw [hnew]
  constructor
  · rintro ⟨d, a, hm⟩
    rw [List.mem_append, List.mem_pair] at hm
    rcases hm with hm | hm | hm
    · exact Or.inl ⟨d, a, hm⟩
    · cases hm
    · cases hm
      exact Or.inr ⟨a, rfl⟩
  · rintro (⟨d, hg⟩ | ⟨a, rfl⟩)
    · exact ⟨d, hg.append⟩
    · exact ⟨c, a, List.mem_append_right _ (by simp)⟩

theorem handled_answer {q : Request ρ} {p : Reply α} :
    Handled (t ++ [.received c q, .sent c p]) k ↔
      Handled t k ∨ (Event.received c q : Event C α ρ).resultId = some k := by
  have hnew : (Event.received c q : Event C α ρ).resultId = some k ↔ ∃ r, q = .result k r := by
    cases q <;> simp [Event.resultId]
  rw [hnew]
  constructor
  · rintro ⟨d, r, hm⟩
    rw [List.mem_append, List.mem_pair] at hm
    rcases hm with hm | hm | hm
    · exact Or.inl ⟨d, r, hm⟩
    · cases hm
      exact Or.inr ⟨r, rfl⟩
    · cases hm
  · rintro (hh | ⟨r, rfl⟩)
    · exact hh.append
    · exact ⟨c, r, List.mem_append_right _ (by simp)⟩

theorem told_answer {q : Request ρ} {p : Reply α} :
    Told (t ++ [.received c q, .sent c p]) c ↔ Told t c ∨ p.Stops := by
  constructor
  · rintro ⟨p', hp', hm⟩
    rw [List.mem_append, List.mem_pair] at hm
    rcases hm with hm | hm | hm
    · exact Or.inl ⟨p', hp', hm⟩
    · cases hm
    · cases hm
      exact Or.inr hp'
  · rintro (⟨p', hp', hm⟩ | hp)
    · exact ⟨p', hp', List.mem_append_left _ hm⟩
    · exact ⟨p, hp, List.mem_append_right _ (by simp)⟩

theorem executed_of_mem (h : k ∈ t.filterMap Event.executedId) : Executed t k := by
  obtain ⟨e, he, hek⟩ := List.mem_filterMap.1 h
  unfold Event.executedId at hek
  split at hek
  · obtain rfl := Option.some.inj hek
    exact ⟨_, _, _, he⟩
  · exact absurd hek (by simp)

theorem handled_of_mem (h : k ∈ t.filterMap Event.resultId) : Handled t k := by
  obtain ⟨e, he, hek⟩ := List.mem_filterMap.1 h
  unfold Event.resultId at hek
  split at hek
  · obtain rfl := Option.some.inj hek
    exact ⟨_, _, he⟩
  · exact absurd hek (by simp)

theorem DoneBut.append {ks : ℕ → Prop} (h : DoneBut t d ks)
    (he : ∀ k a, Event.delivered d (.work k a) ∈ es → ks k) : DoneBut (t ++ es) d ks := by
  intro k a hm hk
  rcases List.mem_append.1 hm with hm | hm
  · exact (h k a hm hk).append
  · exact absurd (he k a hm) hk

theorem DoneBut.frame {ks : ℕ → Prop} (h : DoneBut t d ks) (hc : ∀ e ∈ es, e.client ≠ d) :
    DoneBut (t ++ es) d ks := h.append fun _ _ hm => absurd rfl (hc _ hm)

theorem Unexecuted.append (h : Unexecuted t d k a) (hn : ¬Told (t ++ es) d)
    (hr : ∀ e ∈ es, e.resultId ≠ some k) (hx : ∀ e ∈ es, e.executedId ≠ some k) :
    Unexecuted (t ++ es) d k a where
  not_told := hn
  sent := List.mem_append_left _ h.sent
  not_handled := not_handled_append h.not_handled hr
  not_executed := not_executed_append h.not_executed hx

theorem Unreported.frame (h : Unreported t d k r) (hc : ∀ e ∈ es, e.client ≠ d)
    (hr : ∀ e ∈ es, e.resultId ≠ some k) : Unreported (t ++ es) d k r where
  not_told := mt (told_append hc).1 h.not_told
  doneBut := h.doneBut.frame hc
  executed := h.executed.imp fun _ hm => List.mem_append_left _ hm
  given := h.given.append
  not_handled := not_handled_append h.not_handled hr

/-- **A client stays consistent while others act**, as long as they touch no item
that was given to it. -/
theorem Consistent.frame {p : Party α ρ} (h : Consistent t d p) (hc : ∀ e ∈ es, e.client ≠ d)
    (hk : ∀ k, Given t d k → ∀ e ∈ es, e.resultId ≠ some k ∧ e.executedId ≠ some k) :
    Consistent (t ++ es) d p := by
  have hnot : ¬Told t d → ¬Told (t ++ es) d := mt (told_append hc).1
  have hunexec : ∀ {k a}, Unexecuted t d k a → Unexecuted (t ++ es) d k a := fun h =>
    h.append (hnot h.not_told) (fun e he => (hk _ ⟨_, h.sent⟩ e he).1)
      fun e he => (hk _ ⟨_, h.sent⟩ e he).2
  have hunrep : ∀ {k r}, Unreported t d k r → Unreported (t ++ es) d k r := fun h =>
    h.frame hc fun e he => (hk _ h.given e he).1
  cases h with
  | ready hn hd => exact .ready (hnot hn) (hd.frame hc)
  | querying hn hd => exact .querying (hnot hn) (hd.frame hc)
  | workSent h hd => exact .workSent (hunexec h) (hd.frame hc)
  | stopSent ht hd => exact .stopSent ((told_append hc).2 ht) (hd.frame hc)
  | queryLost hd => exact .queryLost (hd.frame hc)
  | working h hd => exact .working (hunexec h) (hd.frame hc)
  | finished h => exact .finished (hunrep h)
  | report hp h => exact .report hp (hunrep h)
  | ackSent hn hd => exact .ackSent (hnot hn) (hd.frame hc)
  | ackStopSent ht hd => exact .ackStopSent ((told_append hc).2 ht) (hd.frame hc)
  | reportLost => exact .reportLost
  | stuck h => exact .stuck h
  | stopped ht hd => exact .stopped ((told_append hc).2 ht) (hd.frame hc)
  | dead hr hw => exact .dead hr fun k a hk => List.mem_append_left _ (hw k a hk)

/-- A request with a result stands for an item its client has to report. -/
theorem Consistent.unreported {ph : Phase α ρ}
    (h : Consistent t c ⟨ph, .request (.result k r)⟩) : Unreported t c k r := by
  cases h with
  | report _ h => exact h
  | stuck h => simp at h
  | dead hr _ => exact absurd rfl (hr k r)

/-- An item on its way to a client was sent to it. -/
theorem Consistent.sent {ph : Phase α ρ} (h : Consistent t c ⟨ph, .reply (.work k a)⟩) :
    Event.sent c (.work k a) ∈ t := by
  cases h with
  | workSent hu _ => exact hu.sent
  | stuck h => simp at h
  | dead _ hw => exact hw k a rfl

/-- A client whose message is lost. -/
theorem Consistent.lose {ph : Phase α ρ} {ch : Channel α ρ} (h : Consistent t c ⟨ph, ch⟩) :
    Consistent t c ⟨ph, .empty⟩ := by
  cases h with
  | ready hn hd => exact .ready hn hd
  | querying hn hd => exact .queryLost hd
  | workSent hu hd => exact .queryLost hd
  | stopSent ht hd => exact .queryLost hd
  | queryLost hd => exact .queryLost hd
  | working hu hd => exact .working hu hd
  | finished hu => exact .finished hu
  | report hph hu =>
      rcases hph with rfl | rfl | rfl
      · exact .reportLost
      · exact .stuck (Or.inl rfl)
      · exact .dead (by simp) (by simp)
  | ackSent hn hd => exact .reportLost
  | ackStopSent ht hd => exact .reportLost
  | reportLost => exact .reportLost
  | stuck _ => exact .stuck (Or.inl rfl)
  | stopped ht hd => exact .stopped ht hd
  | dead _ _ => exact .dead (by simp) (by simp)

/-- A client that gives up: what its channel holds stays as it is. -/
theorem Consistent.giveUp {ch : Channel α ρ} (h : Consistent t c ⟨.reporting k, ch⟩) :
    Consistent t c ⟨.stuck, ch⟩ := by
  cases h with
  | report _ hu => exact .report (Or.inr (Or.inl rfl)) hu
  | ackSent hn hd => exact .stuck (Or.inr (Or.inl rfl))
  | ackStopSent ht hd => exact .stuck (Or.inr (Or.inr rfl))
  | reportLost => exact .stuck (Or.inl rfl)

/-- A client that dies: a result it has sent can still be handled. -/
theorem Consistent.die {ph : Phase α ρ} {ch : Channel α ρ} (h : Consistent t c ⟨ph, ch⟩) :
    Consistent t c ⟨.dead, ch⟩ := by
  cases ch with
  | empty => exact .dead (by simp) (by simp)
  | request q =>
      cases q with
      | query => exact .dead (by simp) (by simp)
      | result k r => exact .report (Or.inr (Or.inr rfl)) h.unreported
  | reply p =>
      refine .dead (by simp) fun k a hk => ?_
      obtain rfl := Channel.reply.inj hk
      exact h.sent

/-- What a client does by itself: it takes a reply from its channel, or executes
an item that was given to it, for the first time. -/
inductive Own (t : List (Event C α ρ)) (c : C) : Event C α ρ → Prop where
  | delivered {p : Reply α} (hp : ∀ k a, p = .work k a → Event.sent c (.work k a) ∈ t) :
      Own t c (.delivered c p)
  | executed {k : ℕ} {a : α} {r : ρ} (hs : Event.sent c (.work k a) ∈ t) (hx : ¬Executed t k) :
      Own t c (.executed c k a r)

theorem Own.client_eq {e : Event C α ρ} (h : Own t c e) : e.client = c := by
  cases h <;> rfl

theorem Own.workId_eq {e : Event C α ρ} (h : Own t c e) : e.workId = none := by
  cases h <;> rfl

theorem Own.resultId_eq {e : Event C α ρ} (h : Own t c e) : e.resultId = none := by
  cases h <;> rfl

theorem Own.given {e : Event C α ρ} (h : Own t c e) (hk : e.executedId = some k) :
    Given t c k := by
  cases h with
  | delivered => cases hk
  | executed hs _ =>
      obtain rfl := Option.some.inj hk
      exact ⟨_, hs⟩

theorem sent_of_own (hes : ∀ e ∈ es, Own t c e) {p : Reply α}
    (hm : Event.sent d p ∈ t ++ es) : Event.sent d p ∈ t := by
  refine (List.mem_append.1 hm).resolve_right fun hm => ?_
  cases hes _ hm

theorem received_of_own (hes : ∀ e ∈ es, Own t c e) {q : Request ρ}
    (hm : Event.received d q ∈ t ++ es) : Event.received d q ∈ t := by
  refine (List.mem_append.1 hm).resolve_right fun hm => ?_
  cases hes _ hm

theorem executed_once_of_own (ht : (t.filterMap Event.executedId).Nodup) (hlen : es.length ≤ 1)
    (hes : ∀ e ∈ es, Own t c e) : ((t ++ es).filterMap Event.executedId).Nodup := by
  rcases es with _ | ⟨e, _ | ⟨f, es⟩⟩
  · rwa [List.append_nil]
  · rw [List.filterMap_append]
    cases hes e List.mem_cons_self with
    | delivered => simpa [List.filterMap_cons, Event.executedId] using ht
    | @executed k _ _ _ hx =>
        refine List.nodup_append.2 ⟨ht, List.nodup_singleton k, ?_⟩
        rintro j hj _ (_ | ⟨_, ⟨⟩⟩) rfl
        exact hx (executed_of_mem hj)
  · simp at hlen

/-! ### The invariant -/

/-- What every step keeps. -/
structure Inv (items : List α) (s : State C α ρ) : Prop where
  given_le : s.given ≤ items.length
  ids : s.trace.filterMap Event.workId = List.range' 1 s.given
  item : ∀ c k a, Event.sent c (.work k a) ∈ s.trace → items[k - 1]? = some a
  toDo : ∀ k, k ∈ s.toDo ↔ (∃ c, Given s.trace c k) ∧ ¬Handled s.trace k
  handled_once : (s.trace.filterMap Event.resultId).Nodup
  executed_once : (s.trace.filterMap Event.executedId).Nodup
  executed_of_received : ∀ c k r, Event.received c (.result k r) ∈ s.trace →
    ∃ a, Event.executed c k a r ∈ s.trace
  sent_of_executed : ∀ c k a r, Event.executed c k a r ∈ s.trace →
    Event.sent c (.work k a) ∈ s.trace
  sent_of_delivered : ∀ c k a, Event.delivered c (.work k a) ∈ s.trace →
    Event.sent c (.work k a) ∈ s.trace
  no_work_after_stop : s.trace.Pairwise fun e f =>
    (∃ c p, Reply.Stops p ∧ e = .sent c p) → f.workId = none
  told : ∀ c, Told s.trace c → s.given = items.length
  left : s.serving = false → s.given = items.length ∧ s.toDo = ∅
  busy : s.serving = true → (∃ c p, Event.sent c p ∈ s.trace) →
    s.given < items.length ∨ s.toDo.Nonempty
  party : ∀ c, Consistent s.trace c (s.party c)

theorem inv_init : Inv items (init : State C α ρ) where
  given_le := Nat.zero_le _
  ids := rfl
  item _ _ _ h := absurd h List.not_mem_nil
  toDo k := by
    constructor
    · intro h
      simp [init] at h
    · rintro ⟨⟨c, a, h⟩, -⟩
      exact absurd h List.not_mem_nil
  handled_once := List.nodup_nil
  executed_once := List.nodup_nil
  executed_of_received _ _ _ h := absurd h List.not_mem_nil
  sent_of_executed _ _ _ _ h := absurd h List.not_mem_nil
  sent_of_delivered _ _ _ h := absurd h List.not_mem_nil
  no_work_after_stop := List.Pairwise.nil
  told := by
    rintro c ⟨p, -, h⟩
    exact absurd h List.not_mem_nil
  left h := by simp [init] at h
  busy := by
    rintro - ⟨c, p, h⟩
    exact absurd h List.not_mem_nil
  party c := by
    refine .ready ?_ fun _ _ h => absurd h List.not_mem_nil
    rintro ⟨p, -, h⟩
    exact absurd h List.not_mem_nil

namespace Inv

variable {s : State C α ρ}

theorem mem_ids (h : Inv items s) (hg : Given s.trace c k) : 1 ≤ k ∧ k ≤ s.given := by
  obtain ⟨a, hg⟩ := hg
  have hm : k ∈ s.trace.filterMap Event.workId := List.mem_filterMap.2 ⟨_, hg, rfl⟩
  rw [h.ids, List.mem_range'_1] at hm
  omega

/-- An id that was handed out was given to somebody. -/
theorem exists_given (h : Inv items s) (hk : 1 ≤ k ∧ k ≤ s.given) : ∃ c, Given s.trace c k := by
  have hm : k ∈ s.trace.filterMap Event.workId := by
    rw [h.ids, List.mem_range'_1]
    omega
  exact given_of_mem hm

/-- **An item is given to one client only.** -/
theorem given_unique (h : Inv items s) (hc : Given s.trace c k) (hd : Given s.trace d k) :
    c = d := by
  obtain ⟨a, hc⟩ := hc
  obtain ⟨b, hd⟩ := hd
  have hnodup : (s.trace.filterMap Event.workId).Nodup := h.ids ▸ List.nodup_range'
  have he := eq_of_nodup_filterMap hnodup hc hd rfl rfl
  simp only [Event.sent.injEq] at he
  exact he.1

theorem given_of_handled (h : Inv items s) (hk : Handled s.trace k) : ∃ c, Given s.trace c k := by
  obtain ⟨c, r, hk⟩ := hk
  obtain ⟨a, hk⟩ := h.executed_of_received c k r hk
  exact ⟨c, a, h.sent_of_executed c k a r hk⟩

theorem not_handled_succ (h : Inv items s) : ¬Handled s.trace (s.given + 1) := by
  intro hk
  obtain ⟨c, hg⟩ := h.given_of_handled hk
  have := (h.mem_ids hg).2
  omega

theorem not_executed_succ (h : Inv items s) : ¬Executed s.trace (s.given + 1) := by
  rintro ⟨c, a, r, hx⟩
  have := (h.mem_ids ⟨a, h.sent_of_executed c _ a r hx⟩).2
  omega

theorem consistent (h : Inv items s) {p : Party α ρ} (hc : s.party c = p) :
    Consistent s.trace c p := hc ▸ h.party c

theorem unreported (h : Inv items s) {ph : Phase α ρ}
    (hc : s.party c = ⟨ph, .request (.result k r)⟩) : Unreported s.trace c k r :=
  (h.consistent hc).unreported

/-! ### Steps -/

variable [DecidableEq C]

/-- When `c` alone acts, and on items given to it, everybody stays consistent. -/
theorem party_put (h : Inv items s) {p : Party α ρ} (hc : ∀ e ∈ es, e.client = c)
    (hk : ∀ e ∈ es, ∀ k, e.resultId = some k ∨ e.executedId = some k → Given s.trace c k)
    (hp : Consistent (s.trace ++ es) c p) (d : C) :
    Consistent (s.trace ++ es) d (Function.update s.party c p d) := by
  by_cases hd : d = c
  · subst hd
    rwa [Function.update_self]
  · rw [Function.update_of_ne hd]
    refine (h.party d).frame (fun e he hcl => hd (hcl.symm.trans (hc e he))) fun k hg e he => ?_
    constructor
    · intro hr
      exact hd (h.given_unique hg (hk e he k (Or.inl hr)))
    · intro hx
      exact hd (h.given_unique hg (hk e he k (Or.inr hx)))

/-- **A client's own step** keeps the invariant. -/
theorem put (h : Inv items s) {p : Party α ρ} (hlen : es.length ≤ 1)
    (hes : ∀ e ∈ es, Own s.trace c e) (hp : Consistent (s.trace ++ es) c p) :
    Inv items (s.put c p es) := by
  have hw : ∀ e ∈ es, e.workId = none := fun e he => (hes e he).workId_eq
  have hr : ∀ e ∈ es, e.resultId = none := fun e he => (hes e he).resultId_eq
  refine
    { given_le := h.given_le
      ids := ?_
      item := fun d k a hm => h.item d k a (sent_of_own hes hm)
      toDo := fun k => ?_
      handled_once := ?_
      executed_once := executed_once_of_own h.executed_once hlen hes
      executed_of_received := ?_
      sent_of_executed := ?_
      sent_of_delivered := ?_
      no_work_after_stop := ?_
      told := ?_
      left := h.left
      busy := ?_
      party := ?_ }
  · rw [put_trace, List.filterMap_append, List.filterMap_eq_nil_iff.2 hw, List.append_nil]
    exact h.ids
  · have hg : (∃ d, Given (s.trace ++ es) d k) ↔ ∃ d, Given s.trace d k :=
      ⟨fun ⟨d, a, hm⟩ => ⟨d, a, sent_of_own hes hm⟩, fun ⟨d, hd⟩ => ⟨d, hd.append⟩⟩
    have hh : Handled (s.trace ++ es) k ↔ Handled s.trace k :=
      ⟨fun ⟨d, r, hm⟩ => ⟨d, r, received_of_own hes hm⟩, Handled.append⟩
    exact (h.toDo k).trans (by rw [← hg, ← hh]; rfl)
  · rw [put_trace, List.filterMap_append, List.filterMap_eq_nil_iff.2 hr, List.append_nil]
    exact h.handled_once
  · intro d k r hm
    obtain ⟨a, ha⟩ := h.executed_of_received d k r (received_of_own hes hm)
    exact ⟨a, List.mem_append_left _ ha⟩
  · intro d k a r hm
    refine List.mem_append_left _ ?_
    rcases List.mem_append.1 hm with hm | hm
    · exact h.sent_of_executed d k a r hm
    · cases hes _ hm with
      | executed hs _ => exact hs
  · intro d k a hm
    refine List.mem_append_left _ ?_
    rcases List.mem_append.1 hm with hm | hm
    · exact h.sent_of_delivered d k a hm
    · cases hes _ hm with
      | delivered hp => exact hp k a rfl
  · refine List.pairwise_append.2 ⟨h.no_work_after_stop, ?_, fun _ _ f hf _ => hw f hf⟩
    exact List.pairwise_of_forall_mem_list fun _ _ f hf _ => hw f hf
  · rintro d ⟨q, hq, hm⟩
    exact h.told d ⟨q, hq, sent_of_own hes hm⟩
  · rintro hs ⟨d, q, hm⟩
    exact h.busy hs ⟨d, q, sent_of_own hes hm⟩
  · refine h.party_put (fun e he => (hes e he).client_eq) (fun e he k hk => ?_) hp
    rw [hr e he] at hk
    exact (hes e he).given (hk.resolve_left (by simp))

/-- A client's step at which nothing happens. -/
theorem put_nil (h : Inv items s) {p : Party α ρ} (hp : Consistent s.trace c p) :
    Inv items (s.put c p []) :=
  h.put (Nat.zero_le _) (by simp) (by rwa [List.append_nil])

/-- A client's step that takes a reply from its channel. -/
theorem put_delivered (h : Inv items s) {p : Party α ρ} {q : Reply α}
    (hq : ∀ k a, q = .work k a → Event.sent c (.work k a) ∈ s.trace)
    (hp : Consistent (s.trace ++ [.delivered c q]) c p) : Inv items (s.put c p [.delivered c q]) :=
  h.put le_rfl (List.forall_mem_singleton.2 (.delivered hq)) hp

variable {ph : Phase α ρ} {q : Request ρ} {p : Reply α} {given : ℕ} {toDo : Finset ℕ}

omit [DecidableEq C] in
/-- The ids handed out after an answer. -/
theorem answer_ids (h : Inv items s) (ha : Answer items s q p given toDo) :
    (s.trace ++ [Event.received c q, .sent c p]).filterMap Event.workId =
      List.range' 1 given := by
  rw [List.filterMap_append, h.ids]
  cases ha with
  | work _ =>
      rw [List.range'_1_concat, Nat.add_comm 1]
      rfl
  | stop _ => exact List.append_nil _
  | ack _ => exact List.append_nil _
  | ackStop _ => exact List.append_nil _

omit [DecidableEq C] in
/-- The items open after an answer. -/
theorem answer_toDo (h : Inv items s) (ha : Answer items s q p given toDo) (c : C) :
    k ∈ toDo ↔ (∃ d, Given (s.trace ++ [.received c q, .sent c p]) d k) ∧
      ¬Handled (s.trace ++ [.received c q, .sent c p]) k := by
  rw [given_answer, handled_answer]
  have hold := h.toDo k
  cases ha with
  | work ha =>
      rw [Finset.mem_insert, hold]
      constructor
      · rintro (rfl | ⟨h₁, h₂⟩)
        · exact ⟨Or.inr rfl, by simpa [Event.resultId] using h.not_handled_succ⟩
        · exact ⟨Or.inl h₁, by simpa [Event.resultId] using h₂⟩
      · rintro ⟨h₁ | h₁, h₂⟩
        · exact Or.inr ⟨h₁, fun hh => h₂ (Or.inl hh)⟩
        · exact Or.inl (Option.some.inj h₁).symm
  | stop _ => simpa [Event.workId, Event.resultId] using hold
  | ack _ =>
      rw [Finset.mem_erase, hold]
      simp only [Event.workId, Event.resultId, Option.some.injEq, reduceCtorEq, or_false, not_or]
      tauto
  | ackStop _ =>
      rw [Finset.mem_erase, hold]
      simp only [Event.workId, Event.resultId, Option.some.injEq, reduceCtorEq, or_false, not_or]
      tauto

omit [DecidableEq C] in
/-- The client that got an answer fits it. -/
theorem answer_party (h : Inv items s) (hc : s.party c = ⟨ph, .request q⟩)
    (ha : Answer items s q p given toDo) :
    Consistent (s.trace ++ [.received c q, .sent c p]) c ⟨ph, .reply p⟩ := by
  have hp := h.consistent hc
  have hdead : Consistent (s.trace ++ [.received c q, .sent c p]) c ⟨.dead, .reply p⟩ := by
    refine .dead (by simp) fun k a hk => List.mem_append_right _ ?_
    rw [Channel.reply.inj hk]
    simp
  cases hp with
  | querying hn hd =>
      have hd' : Done (s.trace ++ [.received c .query, .sent c p]) c := hd.append (by simp)
      cases ha with
      | work ha =>
          refine .workSent ⟨?_, List.mem_append_right _ (by simp), ?_, ?_⟩ hd'
          · exact fun ht => (told_answer.1 ht).elim hn id
          · exact not_handled_append h.not_handled_succ (by simp [Event.resultId])
          · exact not_executed_append h.not_executed_succ (by simp [Event.executedId])
      | stop _ => exact .stopSent (told_answer.2 (Or.inr trivial)) hd'
  | @report k r _ hph hu =>
      have hd' : Done (s.trace ++ [.received c (.result k r), .sent c p]) c := by
        intro j a hm _
        have hm : Event.delivered c (.work j a) ∈ s.trace := by simpa using hm
        by_cases hj : j = k
        · exact handled_answer.2 (Or.inr (congrArg some hj.symm))
        · exact (hu.doneBut j a hm hj).append
      rcases hph with rfl | rfl | rfl
      · cases ha with
        | ack _ => exact .ackSent (fun ht => (told_answer.1 ht).elim hu.not_told id) hd'
        | ackStop _ => exact .ackStopSent (told_answer.2 (Or.inr trivial)) hd'
      · cases ha with
        | ack _ => exact .stuck (Or.inr (Or.inl rfl))
        | ackStop _ => exact .stuck (Or.inr (Or.inr rfl))
      · exact hdead
  | stuck h => simp at h
  | dead _ _ => exact hdead

omit [DecidableEq C] in
theorem answer_given_le (h : Inv items s) (ha : Answer items s q p given toDo) :
    given ≤ items.length := by
  cases ha with
  | work ha => exact (List.getElem?_eq_some_iff.1 ha).1
  | stop _ => exact h.given_le
  | ack _ => exact h.given_le
  | ackStop _ => exact h.given_le

omit [DecidableEq C] in
/-- Once all items are handed out they stay so, and no further item is sent. -/
theorem answer_of_given_eq (hg : s.given = items.length) (ha : Answer items s q p given toDo) :
    given = items.length ∧ (Event.sent c p : Event C α ρ).workId = none := by
  cases ha with
  | work ha =>
      have hlt := (List.getElem?_eq_some_iff.1 ha).1
      exact absurd hg hlt.ne
  | stop _ => exact ⟨hg, rfl⟩
  | ack _ => exact ⟨hg, rfl⟩
  | ackStop _ => exact ⟨hg, rfl⟩

omit [DecidableEq C] in
/-- A client is told to stop when all items are handed out. -/
theorem answer_of_stops (h : Inv items s) (hp : p.Stops) (ha : Answer items s q p given toDo) :
    given = items.length := by
  cases ha with
  | work _ => exact hp.elim
  | stop ha => exact Nat.le_antisymm h.given_le ha
  | ack _ => exact hp.elim
  | ackStop ha => exact Nat.le_antisymm h.given_le ha

omit [DecidableEq C] in
/-- A result that is handled was not handled before. -/
theorem answer_handled_once (h : Inv items s) (hc : s.party c = ⟨ph, .request q⟩) :
    ((s.trace ++ [Event.received c q, .sent c p]).filterMap Event.resultId).Nodup := by
  rw [List.filterMap_append]
  cases q with
  | query => simpa [List.filterMap_cons, Event.resultId] using h.handled_once
  | result k r =>
      refine List.nodup_append.2 ⟨h.handled_once, List.nodup_singleton k, ?_⟩
      rintro j hj _ (_ | ⟨_, ⟨⟩⟩) rfl
      exact (h.unreported hc).not_handled (handled_of_mem hj)

omit [DecidableEq C] in
/-- An answer after a stop hands out no item. -/
theorem answer_no_work_after_stop (h : Inv items s) (ha : Answer items s q p given toDo) :
    (s.trace ++ [Event.received c q, .sent c p]).Pairwise fun e f =>
      (∃ c p, Reply.Stops p ∧ e = .sent c p) → f.workId = none := by
  refine List.pairwise_append.2 ⟨h.no_work_after_stop, List.pairwise_pair.2 ?_, ?_⟩
  · rintro ⟨d, p', -, he⟩
    cases he
  · rintro e he f hf ⟨d, p', hp', rfl⟩
    rcases List.mem_pair.1 hf with rfl | rfl
    · rfl
    · exact (answer_of_given_eq (h.told d ⟨p', hp', he⟩) ha).2

/-- **An answer of the server** keeps the invariant. -/
theorem answer (h : Inv items s) (hc : s.party c = ⟨ph, .request q⟩)
    (ha : Answer items s q p given toDo) :
    Inv items
      ((s.put c ⟨ph, .reply p⟩ [.received c q, .sent c p]).leaveOrServe items given toDo) := by
  have hle := h.answer_given_le ha
  have hsent : ∀ d p', Event.sent d p' ∈ s.trace ++ [Event.received c q, .sent c p] →
      Event.sent d p' ∈ s.trace ∨ d = c ∧ p' = p := by
    intro d p' hm
    simpa [List.mem_append] using hm
  refine
    { given_le := hle
      ids := h.answer_ids ha
      item := ?_
      toDo := fun k => h.answer_toDo ha c
      handled_once := h.answer_handled_once hc
      executed_once := ?_
      executed_of_received := ?_
      sent_of_executed := ?_
      sent_of_delivered := ?_
      no_work_after_stop := h.answer_no_work_after_stop ha
      told := ?_
      left := ?_
      busy := ?_
      party := ?_ }
  · intro d k a hm
    rcases hsent _ _ hm with hm | ⟨rfl, rfl⟩
    · exact h.item d k a hm
    · cases ha with
      | work ha => exact ha
  · rw [leaveOrServe_trace, put_trace, List.filterMap_append]
    simpa [List.filterMap_cons, Event.executedId] using h.executed_once
  · intro d k r hm
    rw [leaveOrServe_trace, put_trace, List.mem_append, List.mem_pair] at hm
    rcases hm with hm | hm | hm
    · obtain ⟨a, ha⟩ := h.executed_of_received d k r hm
      exact ⟨a, List.mem_append_left _ ha⟩
    · cases hm
      obtain ⟨a, ha⟩ := (h.unreported hc).executed
      exact ⟨a, List.mem_append_left _ ha⟩
    · cases hm
  · intro d k a r hm
    have hm : Event.executed d k a r ∈ s.trace := by simpa using hm
    exact List.mem_append_left _ (h.sent_of_executed d k a r hm)
  · intro d k a hm
    have hm : Event.delivered d (.work k a) ∈ s.trace := by simpa using hm
    exact List.mem_append_left _ (h.sent_of_delivered d k a hm)
  · rintro d ⟨p', hp', hm⟩
    rcases hsent _ _ hm with hm | ⟨rfl, rfl⟩
    · exact (answer_of_given_eq (c := d) (h.told d ⟨p', hp', hm⟩) ha).1
    · exact h.answer_of_stops hp' ha
  · intro hs
    have hn : ¬(given < items.length ∨ toDo.Nonempty) := of_decide_eq_false hs
    rw [not_or, Finset.not_nonempty_iff_eq_empty] at hn
    exact ⟨Nat.le_antisymm hle (Nat.le_of_not_lt hn.1), hn.2⟩
  · intro hs _
    exact of_decide_eq_true hs
  · refine h.party_put (by simp [Event.client]) ?_ (h.answer_party hc ha)
    intro e he k hk
    rcases List.mem_pair.1 he with rfl | rfl
    · cases q with
      | query => simp [Event.resultId, Event.executedId] at hk
      | result j r =>
          obtain rfl : j = k := by simpa [Event.resultId, Event.executedId] using hk
          exact (h.unreported hc).given
    · simp [Event.resultId, Event.executedId] at hk

end Inv

/-- **Every step keeps the invariant.** -/
theorem inv_step [DecidableEq C] {s s' : State C α ρ} (h : Inv items s) {l : Label C}
    (hs : Step items s l s') : Inv items s' := by
  cases hs with
  | sendQuery hc =>
      have hp := h.consistent hc
      cases hp with
      | ready hn hd => exact h.put_nil (.querying hn hd)
  | @recvWork c _ _ hc =>
      have hp := h.consistent hc
      cases hp with
      | workSent hu hd =>
          refine h.put_delivered ?_ (.working (hu.append ?_ ?_ ?_) ?_)
          · intro j b hj
            obtain ⟨rfl, rfl⟩ := Reply.work.inj hj
            exact hu.sent
          · exact fun ht => hu.not_told (by simpa [Told] using ht)
          · simp [Event.resultId]
          · simp [Event.executedId]
          · intro j b hm hj
            have hm : Event.delivered c (.work j b) ∈ s.trace := by simpa [hj] using hm
            exact (hd j b hm id).append
  | recvStop hc =>
      have hp := h.consistent hc
      cases hp with
      | stopSent ht hd =>
          refine h.put_delivered (by simp) (.stopped ?_ (hd.append (by simp)))
          exact ht.imp fun p hp => ⟨hp.1, List.mem_append_left _ hp.2⟩
  | @execute c k a r hc =>
      have hp := h.consistent hc
      cases hp with
      | working hu hd =>
          refine h.put le_rfl ?_ (.finished ⟨?_, hd.append (by simp), ?_, ?_, ?_⟩)
          · exact List.forall_mem_singleton.2 (.executed hu.sent hu.not_executed)
          · exact fun ht => hu.not_told (by simpa [Told] using ht)
          · exact ⟨a, List.mem_append_right _ (List.mem_singleton_self _)⟩
          · exact ⟨a, List.mem_append_left _ hu.sent⟩
          · exact not_handled_append hu.not_handled (by simp [Event.resultId])
  | sendResult hc =>
      have hp := h.consistent hc
      cases hp with
      | finished hu => exact h.put_nil (.report (Or.inl rfl) hu)
  | recvAck hc =>
      have hp := h.consistent hc
      cases hp with
      | ackSent hn hd =>
          refine h.put_delivered (by simp) (.ready ?_ (hd.append (by simp)))
          exact fun ht => hn (by simpa [Told] using ht)
  | recvAckStop hc =>
      have hp := h.consistent hc
      cases hp with
      | ackStopSent ht hd =>
          refine h.put_delivered (by simp) (.stopped ?_ (hd.append (by simp)))
          exact ht.imp fun p hp => ⟨hp.1, List.mem_append_left _ hp.2⟩
  | giveUp hc => exact h.put_nil (h.consistent hc).giveUp
  | die hc => exact h.put_nil (h.consistent hc).die
  | lose hc => exact h.put_nil (h.consistent hc).lose
  | serve hs hc ha => exact h.answer hc ha

/-- **The invariant holds in every state of every run.** -/
theorem inv_reaches [DecidableEq C] {P : State C α ρ → Label C → Prop} {s : State C α ρ}
    (h : Reaches (Step items) P init s) : Inv items s :=
  h.invariant inv_init fun _ _ _ hi _ hs => inv_step hi hs

end Pool
end WorkerNg
