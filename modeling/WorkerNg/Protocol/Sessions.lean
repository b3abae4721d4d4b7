/-
# What a client and the server say to each other

The messages of a job, client by client, in every run.  The server replies to each
request, before it looks at the next one, to the client that sent it, and the
exchanges of one client follow the protocol that the two message loops are
written for (`readExchange`): a query is answered with work or with a stop, and
after work comes the result of this item, acknowledged by an ack or an ack_stop.
What a client receives is a part of what was sent to it, in the same order
(`sessions_of_reachable`).

The server meets no message that it cannot decode or handle, so it never aborts.
-/

import WorkerNg.Lib.PoolSessions
import WorkerNg.Protocol.Dispatch

namespace WorkerNg
namespace Protocol

open Work Wire

variable {C Uuid : Type} {job : Job C Uuid} {s : System C Uuid} {c : C}

/-- An event of the server. -/
def Event.isServers : Event C Uuid → Bool
  | .received _ _ => true
  | .sent _ _ => true
  | _ => false

/-- A request received and the reply sent to it. -/
def exchangeEvents (x : C × Message Uuid × Message Uuid) : List (Event C Uuid) :=
  [.received x.1 x.2.1, .sent x.1 x.2.2]

/-- **The protocol**: the session of a client after one more exchange, `none` if it
is not one that the message loops provide for. -/
def readExchange (st : Pool.Session) (x : Message Uuid × Message Uuid) : Option Pool.Session :=
  match st, x.1.subject, x.2.subject with
  | .idle, .query, .work => some (.holding x.2.id)
  | .idle, .query, .stop => some .ended
  | .holding k, .result, .ack => if x.1.id = k then some .idle else none
  | .holding k, .result, .ackStop => if x.1.id = k then some .ended else none
  | _, _, _ => none

/-- An exchange of the pool with its messages written out. -/
def encodeExchange (job : Job C Uuid) (c : C) (x : Pool.Request FitResult × Pool.Reply Bytes) :
    Message Uuid × Message Uuid :=
  (encodeRequest job c x.1, encodeReply job c x.2)

theorem readExchange_encode {st st' : Pool.Session}
    {x : Pool.Request FitResult × Pool.Reply Bytes} (h : st.next x = some st') :
    readExchange st (encodeExchange job c x) = some st' := by
  obtain ⟨q, p⟩ := x
  cases st <;> cases q <;> cases p <;> exact h

/-- A session of the pool is one of the protocol. -/
theorem readExchanges_encode (xs : List (Pool.Request FitResult × Pool.Reply Bytes))
    {st st' : Pool.Session} (h : xs.foldlM Pool.Session.next st = some st') :
    (xs.map (encodeExchange job c)).foldlM readExchange st = some st' := by
  induction xs generalizing st with
  | nil => exact h
  | cons x xs ih =>
      rw [List.foldlM_cons] at h
      obtain ⟨st₁, hnext, hrest⟩ := Option.bind_eq_some_iff.1 h
      rw [List.map_cons, List.foldlM_cons, readExchange_encode hnext]
      exact ih hrest

variable [DecidableEq C]

/-- The exchanges of one client. -/
def exchangesOf (c : C) (xs : List (C × Message Uuid × Message Uuid)) :
    List (Message Uuid × Message Uuid) :=
  (xs.filter fun x => decide (x.1 = c)).map Prod.snd

/-- The messages a client has received. -/
def deliveredTo (c : C) (t : List (Event C Uuid)) : List (Message Uuid) :=
  t.filterMap fun
    | .delivered d msg => if d = c then some msg else none
    | _ => none

/-- What client `c` and the server have said to each other. -/
structure Conforms (job : Job C Uuid) (t : List (Event C Uuid)) (c : C)
    (xs : List (Message Uuid × Message Uuid)) : Prop where
  /-- Both are addressed, and name themselves. -/
  addressed : ∀ x ∈ xs, x.1.from_ = job.uuid c ∧ x.1.to_ = job.serverId ∧
    x.2.from_ = job.serverId ∧ x.2.to_ = job.uuid c
  /-- The exchanges follow the protocol. -/
  session : ∃ st, xs.foldlM readExchange .idle = some st
  /-- What the client has received is part of the replies, in order. -/
  delivered : (deliveredTo c t).Sublist (xs.map Prod.snd)

theorem exchangesOf_encode (c : C) (xs : List (C × Pool.Request FitResult × Pool.Reply Bytes)) :
    exchangesOf c (xs.map fun x => (x.1, encodeExchange job x.1 x.2)) =
      (Pool.exchangesOf c xs).map (encodeExchange job c) := by
  induction xs with
  | nil => rfl
  | cons x xs ih =>
      obtain ⟨d, x⟩ := x
      simp only [exchangesOf, Pool.exchangesOf] at ih ⊢
      by_cases hd : d = c
      · subst hd
        simp [ih]
      · simp [hd, ih]

theorem deliveredTo_encode (c : C) (t : List (Pool.Event C Bytes FitResult)) :
    deliveredTo c (t.map (encodeEvent job)) = (Pool.deliveredTo c t).map (encodeReply job c) := by
  rw [deliveredTo, Pool.deliveredTo, List.filterMap_map, List.map_filterMap]
  refine List.filterMap_congr fun e _ => ?_
  cases e with
  | delivered d p =>
      by_cases hd : d = c
      · subst hd
        simp [encodeEvent]
      · simp [encodeEvent, hd]
  | _ => rfl

omit [DecidableEq C] in
theorem filter_isServers (t : List (Pool.Event C Bytes FitResult)) :
    (t.map (encodeEvent job)).filter Event.isServers =
      (t.filter Pool.Event.isServers).map (encodeEvent job) := by
  rw [List.filter_map]
  congr 1
  refine List.filter_congr fun e _ => ?_
  cases e <;> rfl

/-- **The sessions of a job.**  In every reachable state the server has not aborted,
its events are requests, each with the reply to it, and every client's exchanges
follow the protocol. -/
theorem sessions_of_reachable (h : System.Reachable job System.anyStep s) :
    s.server.status ≠ .aborted ∧ ∃ xs : List (C × Message Uuid × Message Uuid),
      s.trace.filter Event.isServers = xs.flatMap exchangeEvents ∧
        ∀ c, Conforms job s.trace c (exchangesOf c xs) := by
  obtain ⟨t, hrun, hr⟩ := refines_reachable (Q := fun _ _ => True) h
    fun _ _ _ _ _ _ _ _ _ _ => trivial
  obtain ⟨xs, hx⟩ := Pool.inSession_reaches hrun
  refine ⟨?_, xs.map fun x => (x.1, encodeExchange job x.1 x.2), ?_, fun c => ⟨?_, ?_, ?_⟩⟩
  · cases hs : t.serving with
    | true => simp [hr.looping hs]
    | false => rcases hr.left hs with h | h <;> simp [h]
  · rw [hr.trace, filter_isServers, hx.events, List.map_flatMap, List.flatMap_map]
    rfl
  · rw [exchangesOf_encode]
    intro x hm
    obtain ⟨⟨q, p⟩, -, rfl⟩ := List.mem_map.1 hm
    cases q <;> cases p <;> exact ⟨rfl, rfl, rfl, rfl⟩
  · obtain ⟨st, hst, -⟩ := hx.session c
    refine ⟨st, ?_⟩
    rw [exchangesOf_encode]
    exact readExchanges_encode _ hst
  · rw [hr.trace, deliveredTo_encode, exchangesOf_encode, List.map_map]
    have hsub := (hx.delivered_sublist c).map (encodeReply job c)
    rwa [List.map_map] at hsub

/-- The one item is handed out, reported and acknowledged with a stop. -/
theorem sessions_completeRun :
    ∃ s : System Bool Uuid16, s.server.status = .left ∧
      ∃ xs : List (Bool × Message Uuid16 × Message Uuid16),
        s.trace.filter Event.isServers = xs.flatMap exchangeEvents ∧
          Conforms oneItemJob s.trace false (exchangesOf false xs) := by
  obtain ⟨s, hrun, hs⟩ := exists_of_exec exec_completeRun
  obtain ⟨-, xs, hevents, hconforms⟩ := sessions_of_reachable (hrun.mono fun _ _ _ => trivial)
  exact ⟨s, congrArg Prod.fst hs, xs, hevents, hconforms false⟩

end Protocol
end WorkerNg
