/-
# The sessions of a pool's clients

What one client and the server say to each other, in every run.  The server
answers each request before it takes the next one, so its events come in pairs,
and the pairs of one client follow the protocol: a query is answered by an item
or a stop, and after an item comes its result, which is acknowledged
(`Session.next`).  Nothing else happens, be the client dead or its messages lost:
then its session stays where it is.

`Party.owes` says where the session of a client must stand, from the client's
phase and its channel; a step of the client keeps it, and an answer moves both
(`owes_serve`).  The replies delivered to a client, and the one in its channel,
are a sublist of those sent to it: none is invented, doubled or overtaken.
-/

import WorkerNg.Lib.PoolInvariant

namespace WorkerNg
namespace Pool

variable {C α ρ : Type*} {items : List α} {c d : C} {k : ℕ}

/-! ### Sessions -/

/-- Where the exchanges of a client with the server stand. -/
inductive Session where
  | idle
  | holding (k : ℕ)
  | ended
deriving DecidableEq

/-- One exchange: a request and its answer. -/
def Session.next : Session → Request ρ × Reply α → Option Session
  | .idle, (.query, .work k _) => some (.holding k)
  | .idle, (.query, .stop) => some .ended
  | .holding k, (.result j _, .ack) => if j = k then some .idle else none
  | .holding k, (.result j _, .ackStop) => if j = k then some .ended else none
  | _, _ => none

/-- Where a session stands, `none` if an exchange is against the protocol. -/
def Session.after (xs : List (Request ρ × Reply α)) : Option Session := xs.foldlM next idle

theorem Session.after_concat (xs : List (Request ρ × Reply α)) (x : Request ρ × Reply α) :
    after (xs ++ [x]) = (after xs).bind fun st => st.next x := by
  simp [after, List.foldlM_append]

/-- Where the session of a client must stand, as far as it matters for what the
client does next. -/
def Party.owes : Party α ρ → Option Session
  | ⟨_, .request .query⟩ => some .idle
  | ⟨_, .request (.result k _)⟩ => some (.holding k)
  | ⟨.ready, _⟩ => some .idle
  | ⟨.querying, .reply (.work k _)⟩ => some (.holding k)
  | ⟨.working k _, _⟩ => some (.holding k)
  | ⟨.finished k _, _⟩ => some (.holding k)
  | ⟨.reporting _, .reply .ack⟩ => some .idle
  | _ => none

/-- An event of the server. -/
def Event.isServers : Event C α ρ → Bool
  | .received _ _ => true
  | .sent _ _ => true
  | _ => false

/-- The events of an exchange. -/
def exchangeEvents (x : C × Request ρ × Reply α) : List (Event C α ρ) :=
  [.received x.1 x.2.1, .sent x.1 x.2.2]

/-- The reply in a channel. -/
def Channel.pending : Channel α ρ → List (Reply α)
  | .reply p => [p]
  | _ => []

variable [DecidableEq C]

/-- The exchanges of one client. -/
def exchangesOf (c : C) (xs : List (C × Request ρ × Reply α)) : List (Request ρ × Reply α) :=
  (xs.filter fun x => decide (x.1 = c)).map Prod.snd

/-- The replies sent to a client. -/
def sentTo (c : C) (t : List (Event C α ρ)) : List (Reply α) :=
  t.filterMap fun
    | .sent d p => if d = c then some p else none
    | _ => none

/-- The replies a client has received. -/
def deliveredTo (c : C) (t : List (Event C α ρ)) : List (Reply α) :=
  t.filterMap fun
    | .delivered d p => if d = c then some p else none
    | _ => none

theorem sentTo_append (t u : List (Event C α ρ)) : sentTo c (t ++ u) = sentTo c t ++ sentTo c u :=
  List.filterMap_append

theorem deliveredTo_append (t u : List (Event C α ρ)) :
    deliveredTo c (t ++ u) = deliveredTo c t ++ deliveredTo c u := List.filterMap_append

theorem exchangesOf_concat_self (xs : List (C × Request ρ × Reply α)) (x : Request ρ × Reply α) :
    exchangesOf c (xs ++ [(c, x)]) = exchangesOf c xs ++ [x] := by
  simp [exchangesOf]

theorem exchangesOf_concat_of_ne (h : c ≠ d) (xs : List (C × Request ρ × Reply α))
    (x : Request ρ × Reply α) : exchangesOf d (xs ++ [(c, x)]) = exchangesOf d xs := by
  simp [exchangesOf, h]

/-! ### The invariant -/

/-- The exchanges so far, and where each client's session stands. -/
structure InSession (s : State C α ρ) (xs : List (C × Request ρ × Reply α)) : Prop where
  events : s.trace.filter Event.isServers = xs.flatMap exchangeEvents
  session : ∀ c, ∃ st, Session.after (exchangesOf c xs) = some st ∧
    ∀ st', (s.party c).owes = some st' → st = st'
  delivered : ∀ c, (deliveredTo c s.trace ++ (s.party c).chan.pending).Sublist (sentTo c s.trace)

theorem inSession_init : InSession (init : State C α ρ) [] where
  events := rfl
  session _ := ⟨.idle, rfl, fun _ h => Option.some.inj h⟩
  delivered _ := List.Sublist.refl _

theorem put_party (s : State C α ρ) (c : C) (p : Party α ρ) (es : List (Event C α ρ)) :
    (s.put c p es).party = Function.update s.party c p := rfl

/-- A client's own step that leaves its session where it is. -/
theorem InSession.put {s : State C α ρ} {xs : List (C × Request ρ × Reply α)}
    (h : InSession s xs) {p p' : Party α ρ} {es : List (Event C α ρ)} (hc : s.party c = p)
    (hes : ∀ e ∈ es, e.isServers = false ∧ e.client = c)
    (howes : ∀ st, p'.owes = some st → p.owes = some st)
    (hdel : (deliveredTo c es ++ p'.chan.pending).Sublist p.chan.pending) :
    InSession (s.put c p' es) xs where
  events := by
    have hnone : es.filter Event.isServers = [] :=
      List.filter_eq_nil_iff.2 fun e he => by simp [(hes e he).1]
    rw [put_trace, List.filter_append, hnone, List.append_nil, h.events]
  session d := by
    obtain ⟨st, hst, ho⟩ := h.session d
    refine ⟨st, hst, fun st' h' => ?_⟩
    by_cases hd : d = c
    · subst hd
      rw [put_party, Function.update_self] at h'
      exact ho st' (hc ▸ howes st' h')
    · rw [put_party, Function.update_of_ne hd] at h'
      exact ho st' h'
  delivered d := by
    have hsent : sentTo d es = [] := List.filterMap_eq_nil_iff.2 fun e he => by
      have hserver := (hes e he).1
      cases e with
      | sent _ _ => cases hserver
      | _ => rfl
    have hold := h.delivered d
    rw [put_trace, sentTo_append, hsent, List.append_nil, deliveredTo_append]
    by_cases hd : d = c
    · subst hd
      rw [hc] at hold
      rw [put_party, Function.update_self, List.append_assoc]
      exact (hdel.append_left _).trans hold
    · have hothers : deliveredTo d es = [] := List.filterMap_eq_nil_iff.2 fun e he => by
        have hclient := (hes e he).2
        cases e with
        | delivered _ _ =>
            obtain rfl : _ = c := hclient
            exact if_neg (Ne.symm hd)
        | _ => rfl
      rwa [hothers, List.append_nil, put_party, Function.update_of_ne hd]

omit [DecidableEq C] in
/-- **An answer is what the protocol says**, and the session goes where the client
is then. -/
theorem owes_serve {s : State C α ρ} {ph : Phase α ρ} {q : Request ρ} {p : Reply α} {given : ℕ}
    {toDo : Finset ℕ} (hi : Inv items s) (hc : s.party c = ⟨ph, .request q⟩)
    (ha : Answer items s q p given toDo) {st : Session}
    (hst : ∀ st', (s.party c).owes = some st' → st = st') :
    ∃ st', st.next (q, p) = some st' ∧
      ∀ st'', (⟨ph, .reply p⟩ : Party α ρ).owes = some st'' → st' = st'' := by
  have hcons := hi.consistent hc
  rw [hc] at hst
  cases ha with
  | work _ =>
      obtain rfl := hst .idle rfl
      refine ⟨_, rfl, fun st'' h => ?_⟩
      cases hcons with
      | querying _ _ => exact Option.some.inj h
      | stuck h' => simp at h'
      | dead _ _ => cases h
  | stop _ =>
      obtain rfl := hst .idle rfl
      refine ⟨_, rfl, fun st'' h => ?_⟩
      cases hcons with
      | querying _ _ => cases h
      | stuck h' => simp at h'
      | dead _ _ => cases h
  | @ack k r _ =>
      obtain rfl := hst (.holding k) rfl
      refine ⟨.idle, if_pos rfl, fun st'' h => ?_⟩
      cases hcons with
      | report hph _ =>
          rcases hph with rfl | rfl | rfl
          · exact Option.some.inj h
          · cases h
          · cases h
      | stuck h' => simp at h'
      | dead hr _ => exact absurd rfl (hr k r)
  | @ackStop k r _ =>
      obtain rfl := hst (.holding k) rfl
      refine ⟨.ended, if_pos rfl, fun st'' h => ?_⟩
      cases hcons with
      | report hph _ => rcases hph with rfl | rfl | rfl <;> cases h
      | stuck h' => simp at h'
      | dead hr _ => exact absurd rfl (hr k r)

/-- **The server's iteration adds one exchange.** -/
theorem InSession.serve {s : State C α ρ} {xs : List (C × Request ρ × Reply α)}
    (h : InSession s xs) (hi : Inv items s) {ph : Phase α ρ} {q : Request ρ} {p : Reply α}
    {given : ℕ} {toDo : Finset ℕ} (hc : s.party c = ⟨ph, .request q⟩)
    (ha : Answer items s q p given toDo) :
    InSession ((s.put c ⟨ph, .reply p⟩ [.received c q, .sent c p]).leaveOrServe items given toDo)
      (xs ++ [(c, q, p)]) where
  events := by
    rw [leaveOrServe_trace, put_trace, List.filter_append, h.events, List.flatMap_append]
    rfl
  session d := by
    obtain ⟨st, hst, ho⟩ := h.session d
    simp only [State.leaveOrServe, State.put]
    by_cases hd : d = c
    · subst hd
      obtain ⟨st', hnext, ho'⟩ := owes_serve hi hc ha ho
      refine ⟨st', ?_, ?_⟩
      · rw [exchangesOf_concat_self, Session.after_concat, hst]
        exact hnext
      · rwa [Function.update_self]
    · refine ⟨st, ?_, ?_⟩
      · rw [exchangesOf_concat_of_ne (Ne.symm hd)]
        exact hst
      · rwa [Function.update_of_ne hd]
  delivered d := by
    have hold := h.delivered d
    rw [leaveOrServe_trace, put_trace, sentTo_append, deliveredTo_append]
    simp only [State.leaveOrServe, State.put]
    by_cases hd : d = c
    · subst hd
      have hchan : (s.party d).chan.pending = [] := by rw [hc]; rfl
      rw [hchan, List.append_nil] at hold
      rw [Function.update_self]
      simpa [deliveredTo, sentTo, Channel.pending] using hold
    · rw [Function.update_of_ne hd]
      simpa [deliveredTo, sentTo, Ne.symm hd] using hold

theorem inSession_step {s s' : State C α ρ} {l : Label C} {xs : List (C × Request ρ × Reply α)}
    (hi : Inv items s) (h : InSession s xs) (hs : Step items s l s') : ∃ ys, InSession s' ys := by
  cases hs with
  | sendQuery hc =>
      exact ⟨xs, h.put hc (by simp) (fun _ h' => h') (by simp [deliveredTo, Channel.pending])⟩
  | recvWork hc =>
      exact ⟨xs, h.put hc (by simp [Event.isServers, Event.client]) (fun _ h' => h')
        (by simp [deliveredTo, Channel.pending])⟩
  | recvStop hc =>
      exact ⟨xs, h.put hc (by simp [Event.isServers, Event.client]) (fun _ h' => by cases h')
        (by simp [deliveredTo, Channel.pending])⟩
  | execute r hc =>
      exact ⟨xs, h.put hc (by simp [Event.isServers, Event.client]) (fun _ h' => h')
        (by simp [deliveredTo, Channel.pending])⟩
  | sendResult hc =>
      exact ⟨xs, h.put hc (by simp) (fun _ h' => h') (by simp [deliveredTo, Channel.pending])⟩
  | recvAck hc =>
      exact ⟨xs, h.put hc (by simp [Event.isServers, Event.client]) (fun _ h' => h')
        (by simp [deliveredTo, Channel.pending])⟩
  | recvAckStop hc =>
      exact ⟨xs, h.put hc (by simp [Event.isServers, Event.client]) (fun _ h' => by cases h')
        (by simp [deliveredTo, Channel.pending])⟩
  | @giveUp c k ch hc =>
      refine ⟨xs, h.put hc (by simp) (fun st h' => ?_) (by simp [deliveredTo])⟩
      rcases ch with _ | (_ | ⟨j, r⟩) | p
      · cases h'
      · exact h'
      · exact h'
      · cases h'
  | @die c ph ch hc =>
      refine ⟨xs, h.put hc (by simp) (fun st h' => ?_) (by simp [deliveredTo])⟩
      rcases ch with _ | (_ | ⟨j, r⟩) | p
      · cases h'
      · exact h'
      · exact h'
      · cases h'
  | @lose c ph ch hc =>
      refine ⟨xs, h.put hc (by simp) (fun st h' => ?_) (by simp [deliveredTo, Channel.pending])⟩
      have hcons := hi.consistent hc
      cases ph with
      | ready => cases hcons with
        | ready _ _ => exact h'
        | report hph _ => simp at hph
      | working j a => cases hcons with
        | working _ _ => exact h'
        | report hph _ => simp at hph
      | finished j r => cases hcons with
        | finished _ => exact h'
        | report hph _ => simp at hph
      | _ => cases h'
  | serve _ hc ha => exact ⟨_, h.serve hi hc ha⟩

/-- **In every run, every client's exchanges follow the protocol.** -/
theorem inSession_reaches {P : State C α ρ → Label C → Prop} {s : State C α ρ}
    (h : Reaches (Step items) P init s) : ∃ xs, InSession s xs := by
  have hboth := h.invariant (I := fun s => Inv items s ∧ ∃ xs, InSession s xs)
    ⟨inv_init, [], inSession_init⟩
    fun _ _ _ ⟨hi, _, hx⟩ _ hs => ⟨inv_step hi hs, inSession_step hi hx hs⟩
  exact hboth.2

/-- The replies sent to a client are those of its exchanges. -/
theorem InSession.sentTo_eq {s : State C α ρ} {xs : List (C × Request ρ × Reply α)}
    (h : InSession s xs) (c : C) : sentTo c s.trace = (exchangesOf c xs).map Prod.snd := by
  have hfilter : sentTo c s.trace = sentTo c (s.trace.filter Event.isServers) := by
    rw [sentTo, sentTo, List.filterMap_filter]
    refine List.filterMap_congr fun e _ => ?_
    cases e <;> rfl
  rw [hfilter, h.events]
  clear h hfilter
  induction xs with
  | nil => rfl
  | cons x xs ih =>
      obtain ⟨d, q, p⟩ := x
      rw [List.flatMap_cons, sentTo_append, ih]
      by_cases hd : d = c <;> simp [exchangesOf, exchangeEvents, sentTo, hd]

/-- **The replies a client has received** are among those of its exchanges, in order. -/
theorem InSession.delivered_sublist {s : State C α ρ} {xs : List (C × Request ρ × Reply α)}
    (h : InSession s xs) (c : C) :
    (deliveredTo c s.trace).Sublist ((exchangesOf c xs).map Prod.snd) :=
  (List.sublist_append_left _ _).trans (h.sentTo_eq c ▸ h.delivered c)

end Pool
end WorkerNg
