/-
# A pool of work over request/reply channels

One server hands out a list of items, numbered from 1, to clients that ask for
them, and collects one result for each.  Every client has a channel of its own,
which holds at most one message: a request on its way to the server or a reply
on its way back.  A client asks (`query`), gets an item (`work`) or is turned
away (`stop`), executes the item, reports (`result`) and is acknowledged (`ack`,
or `ackStop` when there is no further item).  Clients may die at any point, a
message may be lost, and a client that gives up waiting for an acknowledgement
is stuck: it may not send while its channel waits for a reply.

The server leaves when no item is left to hand out and none is open.

`Step` is one step of this system and `State.trace` its history: what the server
received and sent, what was delivered to the clients and what they executed.
-/

import WorkerNg.Lib.Run
import Mathlib.Data.Finset.Basic
import Mathlib.Logic.Function.Basic

namespace WorkerNg
namespace Pool

/-- What a client sends. -/
inductive Request (ρ : Type*) where
  | query
  | result (id : ℕ) (r : ρ)

/-- What the server answers. -/
inductive Reply (α : Type*) where
  | work (id : ℕ) (a : α)
  | stop
  | ack
  | ackStop

/-- A client's channel. -/
inductive Channel (α ρ : Type*) where
  | empty
  | request (q : Request ρ)
  | reply (p : Reply α)

/-- What a client is doing. -/
inductive Phase (α ρ : Type*) where
  | ready
  | querying
  | working (id : ℕ) (a : α)
  | finished (id : ℕ) (r : ρ)
  | reporting (id : ℕ)
  | stuck
  | stopped
  | dead

/-- A client with its channel. -/
structure Party (α ρ : Type*) where
  phase : Phase α ρ
  chan : Channel α ρ

/-- What has happened, to which client. -/
inductive Event (C α ρ : Type*) where
  | received (c : C) (q : Request ρ)
  | sent (c : C) (p : Reply α)
  | delivered (c : C) (p : Reply α)
  | executed (c : C) (id : ℕ) (a : α) (r : ρ)

/-- The system: how many items have been handed out, those still open, whether
the server is serving, the clients, and what has happened. -/
structure State (C α ρ : Type*) where
  given : ℕ
  toDo : Finset ℕ
  serving : Bool
  party : C → Party α ρ
  trace : List (Event C α ρ)

/-- What a step is: the server serves a client, a client goes on, gives up
waiting for an acknowledgement or dies, or the message in its channel is lost. -/
inductive Label (C : Type*) where
  | serve (c : C)
  | go (c : C)
  | giveUp (c : C)
  | die (c : C)
  | lose (c : C)

variable {C α ρ : Type*} [DecidableEq C]

/-- At first nothing has been handed out and every client is ready. -/
def init : State C α ρ := ⟨0, ∅, true, fun _ => ⟨.ready, .empty⟩, []⟩

/-- One client changes, and some events happen. -/
def State.put (s : State C α ρ) (c : C) (p : Party α ρ) (es : List (Event C α ρ)) : State C α ρ :=
  { s with party := Function.update s.party c p, trace := s.trace ++ es }

/-- The server's answer to a request, with how many items it has handed out then
and which are open. -/
inductive Answer (items : List α) (s : State C α ρ) :
    Request ρ → Reply α → ℕ → Finset ℕ → Prop where
  | work {a : α} (ha : items[s.given]? = some a) :
      Answer items s .query (.work (s.given + 1) a) (s.given + 1) (insert (s.given + 1) s.toDo)
  | stop (ha : items.length ≤ s.given) : Answer items s .query .stop s.given s.toDo
  | ack {k : ℕ} {r : ρ} (ha : s.given < items.length) :
      Answer items s (.result k r) .ack s.given (s.toDo.erase k)
  | ackStop {k : ℕ} {r : ρ} (ha : items.length ≤ s.given) :
      Answer items s (.result k r) .ackStop s.given (s.toDo.erase k)

/-- After an answer the server leaves if all items are handed out and none is
open. -/
def State.leaveOrServe (s : State C α ρ) (items : List α) (given : ℕ) (toDo : Finset ℕ) :
    State C α ρ :=
  { s with
    given := given
    toDo := toDo
    serving := decide (given < items.length ∨ toDo.Nonempty) }

@[simp] theorem put_trace (s : State C α ρ) (c : C) (p : Party α ρ) (es : List (Event C α ρ)) :
    (s.put c p es).trace = s.trace ++ es := rfl

omit [DecidableEq C] in
@[simp] theorem leaveOrServe_trace (s : State C α ρ) (items : List α) (given : ℕ)
    (toDo : Finset ℕ) : (s.leaveOrServe items given toDo).trace = s.trace := rfl

/-- One step. -/
inductive Step (items : List α) : State C α ρ → Label C → State C α ρ → Prop where
  | sendQuery {s : State C α ρ} {c : C} (h : s.party c = ⟨.ready, .empty⟩) :
      Step items s (.go c) (s.put c ⟨.querying, .request .query⟩ [])
  | recvWork {s : State C α ρ} {c : C} {k : ℕ} {a : α}
      (h : s.party c = ⟨.querying, .reply (.work k a)⟩) :
      Step items s (.go c) (s.put c ⟨.working k a, .empty⟩ [.delivered c (.work k a)])
  | recvStop {s : State C α ρ} {c : C} (h : s.party c = ⟨.querying, .reply .stop⟩) :
      Step items s (.go c) (s.put c ⟨.stopped, .empty⟩ [.delivered c .stop])
  | execute {s : State C α ρ} {c : C} {k : ℕ} {a : α} (r : ρ)
      (h : s.party c = ⟨.working k a, .empty⟩) :
      Step items s (.go c) (s.put c ⟨.finished k r, .empty⟩ [.executed c k a r])
  | sendResult {s : State C α ρ} {c : C} {k : ℕ} {r : ρ}
      (h : s.party c = ⟨.finished k r, .empty⟩) :
      Step items s (.go c) (s.put c ⟨.reporting k, .request (.result k r)⟩ [])
  | recvAck {s : State C α ρ} {c : C} {k : ℕ} (h : s.party c = ⟨.reporting k, .reply .ack⟩) :
      Step items s (.go c) (s.put c ⟨.ready, .empty⟩ [.delivered c .ack])
  | recvAckStop {s : State C α ρ} {c : C} {k : ℕ}
      (h : s.party c = ⟨.reporting k, .reply .ackStop⟩) :
      Step items s (.go c) (s.put c ⟨.stopped, .empty⟩ [.delivered c .ackStop])
  | giveUp {s : State C α ρ} {c : C} {k : ℕ} {ch : Channel α ρ}
      (h : s.party c = ⟨.reporting k, ch⟩) : Step items s (.giveUp c) (s.put c ⟨.stuck, ch⟩ [])
  | die {s : State C α ρ} {c : C} {ph : Phase α ρ} {ch : Channel α ρ} (h : s.party c = ⟨ph, ch⟩) :
      Step items s (.die c) (s.put c ⟨.dead, ch⟩ [])
  | lose {s : State C α ρ} {c : C} {ph : Phase α ρ} {ch : Channel α ρ} (h : s.party c = ⟨ph, ch⟩) :
      Step items s (.lose c) (s.put c ⟨ph, .empty⟩ [])
  | serve {s : State C α ρ} {c : C} {ph : Phase α ρ} {q : Request ρ} {p : Reply α} {given : ℕ}
      {toDo : Finset ℕ} (hs : s.serving = true) (h : s.party c = ⟨ph, .request q⟩)
      (ha : Answer items s q p given toDo) :
      Step items s (.serve c)
        ((s.put c ⟨ph, .reply p⟩ [.received c q, .sent c p]).leaveOrServe items given toDo)

/-! ### What the history says -/

variable {t : List (Event C α ρ)} {c d : C} {k : ℕ}

omit [DecidableEq C]

/-- The client an event is about. -/
def Event.client : Event C α ρ → C
  | .received c _ => c
  | .sent c _ => c
  | .delivered c _ => c
  | .executed c _ _ _ => c

/-- The id that a work message carried. -/
def Event.workId : Event C α ρ → Option ℕ
  | .sent _ (.work k _) => some k
  | _ => none

/-- The id of a result handled. -/
def Event.resultId : Event C α ρ → Option ℕ
  | .received _ (.result k _) => some k
  | _ => none

/-- The id of an item executed. -/
def Event.executedId : Event C α ρ → Option ℕ
  | .executed _ k _ _ => some k
  | _ => none

/-- A `stop` or an `ackStop`. -/
def Reply.Stops : Reply α → Prop
  | .stop => True
  | .ackStop => True
  | _ => False

/-- Item `k` was sent to client `c`. -/
def Given (t : List (Event C α ρ)) (c : C) (k : ℕ) : Prop := ∃ a, Event.sent c (.work k a) ∈ t

/-- The result of item `k` was handled. -/
def Handled (t : List (Event C α ρ)) (k : ℕ) : Prop := ∃ c r, Event.received c (.result k r) ∈ t

/-- Item `k` was executed. -/
def Executed (t : List (Event C α ρ)) (k : ℕ) : Prop := ∃ c a r, Event.executed c k a r ∈ t

/-- Client `c` was told to stop. -/
def Told (t : List (Event C α ρ)) (c : C) : Prop := ∃ p, Reply.Stops p ∧ Event.sent c p ∈ t

/-- All items delivered to `c`, except those of `ks`, have had their results
handled. -/
def DoneBut (t : List (Event C α ρ)) (c : C) (ks : ℕ → Prop) : Prop :=
  ∀ k a, Event.delivered c (.work k a) ∈ t → ¬ks k → Handled t k

/-- All items delivered to `c` have had their results handled. -/
def Done (t : List (Event C α ρ)) (c : C) : Prop := DoneBut t c fun _ => False

/-- An item that `c` was given, with a result it got from executing it, which
the server has not handled. -/
structure Unreported (t : List (Event C α ρ)) (c : C) (k : ℕ) (r : ρ) : Prop where
  not_told : ¬Told t c
  doneBut : DoneBut t c (· = k)
  executed : ∃ a, Event.executed c k a r ∈ t
  given : Given t c k
  not_handled : ¬Handled t k

/-- An item that `c` was given and nobody has executed. -/
structure Unexecuted (t : List (Event C α ρ)) (c : C) (k : ℕ) (a : α) : Prop where
  not_told : ¬Told t c
  sent : Event.sent c (.work k a) ∈ t
  not_handled : ¬Handled t k
  not_executed : ¬Executed t k

/-- How a client, its channel and the history fit together.  While a client
queries, works, reports or is acknowledged, its channel holds the one message
that belongs to that phase, if it was not lost. -/
inductive Consistent (t : List (Event C α ρ)) (c : C) : Party α ρ → Prop where
  | ready (hn : ¬Told t c) (hd : Done t c) : Consistent t c ⟨.ready, .empty⟩
  | querying (hn : ¬Told t c) (hd : Done t c) : Consistent t c ⟨.querying, .request .query⟩
  | workSent {k : ℕ} {a : α} (h : Unexecuted t c k a) (hd : Done t c) :
      Consistent t c ⟨.querying, .reply (.work k a)⟩
  | stopSent (ht : Told t c) (hd : Done t c) : Consistent t c ⟨.querying, .reply .stop⟩
  | queryLost (hd : Done t c) : Consistent t c ⟨.querying, .empty⟩
  | working {k : ℕ} {a : α} (h : Unexecuted t c k a) (hd : DoneBut t c (· = k)) :
      Consistent t c ⟨.working k a, .empty⟩
  | finished {k : ℕ} {r : ρ} (h : Unreported t c k r) : Consistent t c ⟨.finished k r, .empty⟩
  | report {k : ℕ} {r : ρ} {ph : Phase α ρ} (hp : ph = .reporting k ∨ ph = .stuck ∨ ph = .dead)
      (h : Unreported t c k r) : Consistent t c ⟨ph, .request (.result k r)⟩
  | ackSent {k : ℕ} (hn : ¬Told t c) (hd : Done t c) : Consistent t c ⟨.reporting k, .reply .ack⟩
  | ackStopSent {k : ℕ} (ht : Told t c) (hd : Done t c) :
      Consistent t c ⟨.reporting k, .reply .ackStop⟩
  | reportLost {k : ℕ} : Consistent t c ⟨.reporting k, .empty⟩
  | stuck {ch : Channel α ρ} (h : ch = .empty ∨ ch = .reply .ack ∨ ch = .reply .ackStop) :
      Consistent t c ⟨.stuck, ch⟩
  | stopped (ht : Told t c) (hd : Done t c) : Consistent t c ⟨.stopped, .empty⟩
  | dead {ch : Channel α ρ} (hr : ∀ k r, ch ≠ .request (.result k r))
      (hw : ∀ k a, ch = .reply (.work k a) → Event.sent c (.work k a) ∈ t) :
      Consistent t c ⟨.dead, ch⟩

end Pool
end WorkerNg
