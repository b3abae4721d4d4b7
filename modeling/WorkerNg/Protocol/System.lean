/-
# The server and its clients

The whole job: one server, any number of clients, and ZeroMQ between them, of
which this is assumed: a request reaches the server at most once, a reply goes
to the client that sent the request, and a REQ socket has one request at a time,
so the channel of a client holds at most one message.  A message in a channel
can get lost at any time (`Action.lose`), and so can a client (`Action.die`).

A client executes a work item in one step (`Action.execute`), with whatever
result the item has.

`System.trace` is not part of the program.  It records, in order, the messages
the server received and sent, those the clients received and the items they
executed.
-/

import WorkerNg.Lib.Run
import WorkerNg.Protocol.Client
import WorkerNg.Protocol.Server
import Mathlib.Logic.Function.Basic

namespace WorkerNg
namespace Protocol

open Work Wire

/-- A client's channel: the request or the reply that is on its way. -/
inductive Channel where
  | empty
  | request (b : Bytes)
  | reply (b : Bytes)
deriving DecidableEq

/-- What has happened, to which client. -/
inductive Event (C Uuid : Type) where
  | received (c : C) (msg : Message Uuid)
  | sent (c : C) (msg : Message Uuid)
  | delivered (c : C) (msg : Message Uuid)
  | executed (c : C) (workId : ℕ) (workStr : Bytes) (result : Result)
deriving DecidableEq

/-- A job: the server's set-up and the clients' UUIDs. -/
structure Job (C Uuid : Type) extends Setup Uuid where
  uuid : C → Uuid

/-- The state of a job. -/
structure System (C Uuid : Type) where
  server : Server Uuid
  client : C → Client Uuid
  chan : C → Channel
  trace : List (Event C Uuid)

/-- One step of one of the parties, or of the network. -/
inductive Action (C : Type) where
  | sendQuery (c : C)
  | serve (c : C)
  | recvReply (c : C)
  | queryTimeout (c : C)
  | execute (c : C) (result : Result)
  | sendResult (c : C)
  | recvAck (c : C)
  | ackTimeout (c : C)
  | die (c : C)
  | lose (c : C)
  | finish
deriving DecidableEq

variable {C Uuid : Type} [DecidableEq C]

namespace System

/-- The job when everybody has entered the message loop. -/
def start (job : Job C Uuid) : System C Uuid where
  server := Server.start job.toSetup
  client c := Client.start (job.uuid c) job.garbage
  chan _ := .empty
  trace := []

/-- One client and its channel change. -/
def update (s : System C Uuid) (c : C) (cl : Client Uuid) (ch : Channel)
    (es : List (Event C Uuid)) : System C Uuid :=
  { s with
    client := Function.update s.client c cl
    chan := Function.update s.chan c ch
    trace := s.trace ++ es }

/-- A client has tried to send a request. -/
def send (s : System C Uuid) (c : C) (r : Option Bytes × Client Uuid) : System C Uuid :=
  s.update c r.2 (match r.1 with | none => s.chan c | some b => .request b) []

/-- A client has received the reply in its channel. -/
def recv (s : System C Uuid) (c : C) (r : Option (Message Uuid) × Client Uuid) : System C Uuid :=
  s.update c r.2 .empty (r.1.toList.map (.delivered c))

/-- The server has served client `c`: the message received, the reply and the
server behind the iteration. -/
def served (job : Job C Uuid) (s : System C Uuid) (c : C)
    (r : Option (Message Uuid) × Option (Message Uuid) × Server Uuid) : System C Uuid where
  server := r.2.2
  client := s.client
  chan := Function.update s.chan c
    (match r.2.1 with | none => .empty | some msg => .reply (packMessage job.io msg))
  trace := s.trace ++ (r.1.toList.map (.received c) ++ r.2.1.toList.map (.sent c))

/-- A step, `none` when it is not enabled. -/
def step (job : Job C Uuid) (s : System C Uuid) : Action C → Option (System C Uuid)
  | .sendQuery c =>
      if (s.client c).phase = .ready then
        some (s.send c ((s.client c).sendQuery job.io job.serverId))
      else none
  | .serve c =>
      match s.server.status, s.chan c with
      | .looping, .request b => some (s.served job c (s.server.iterate job.toSetup b))
      | _, _ => none
  | .recvReply c =>
      match (s.client c).phase, s.chan c with
      | .querying, .reply b => some (s.recv c ((s.client c).onQueryReply job.io (some b)))
      | _, _ => none
  | .queryTimeout c =>
      if (s.client c).phase = .querying then
        some (s.update c ((s.client c).onQueryReply job.io none).2 (s.chan c) [])
      else none
  | .execute c result =>
      match (s.client c).phase with
      | .working workId workStr =>
          -- the result's text is a C++ string
          if result.toString.length ≤ maxSize then
            some (s.update c ((s.client c).execute workId result) (s.chan c)
              [.executed c workId workStr result])
          else none
      | _ => none
  | .sendResult c =>
      match (s.client c).phase with
      | .finished workId result =>
          some (s.send c ((s.client c).sendResult job.io job.serverId workId result))
      | _ => none
  | .recvAck c =>
      match (s.client c).phase, s.chan c with
      | .reporting _, .reply b => some (s.recv c ((s.client c).onAck job.io (some b)))
      | _, _ => none
  | .ackTimeout c =>
      match (s.client c).phase with
      | .reporting _ => some (s.update c ((s.client c).onAck job.io none).2 (s.chan c) [])
      | _ => none
  | .die c =>
      if (s.client c).phase = .stopped then none
      else some (s.update c { s.client c with phase := .dead } (s.chan c) [])
  | .lose c => some (s.update c (s.client c) .empty [])
  | .finish =>
      if s.server.status = .left then some { s with server := s.server.finish } else none

/-- A state that some run of the job reaches whose steps all meet `P`. -/
def Reachable (job : Job C Uuid) (P : System C Uuid → Action C → Prop) (s : System C Uuid) : Prop :=
  Reaches (fun s a s' => step job s a = some s') P (start job) s

/-- The steps of a run are not restricted. -/
def anyStep (_ : System C Uuid) (_ : Action C) : Prop := True

end System

/-! ### What the trace says -/

omit [DecidableEq C]

/-- The ids of the work messages sent. -/
def workIds (t : List (Event C Uuid)) : List ℕ :=
  t.filterMap fun
    | .sent _ msg => if msg.subject = .work then some msg.id else none
    | _ => none

/-- The ids of the result messages handled. -/
def resultIds (t : List (Event C Uuid)) : List ℕ :=
  t.filterMap fun
    | .received _ msg => if msg.subject = .result then some msg.id else none
    | _ => none

/-- The results handled. -/
def results (t : List (Event C Uuid)) : List Result :=
  t.filterMap fun
    | .received _ msg =>
        if msg.subject = .result then (Result.ofString msg.content).toOption else none
    | _ => none

/-- The ids of the items executed. -/
def executedIds (t : List (Event C Uuid)) : List ℕ :=
  t.filterMap fun
    | .executed _ workId _ _ => some workId
    | _ => none

/-- A message that ends a client's loop. -/
def Stops (msg : Message Uuid) : Prop := msg.subject = .stop ∨ msg.subject = .ackStop

/-- Client `c` has been told to stop. -/
def ToldToStop (t : List (Event C Uuid)) (c : C) : Prop :=
  ∃ msg, Stops msg ∧ Event.sent c msg ∈ t

/-- A job with one work item and two clients, for runs to be computed. -/
def oneItemJob : Job Bool Uuid16 where
  io := hexText
  serverId := ⟨List.replicate 16 1, rfl⟩
  garbage := ⟨List.replicate 16 0, rfl⟩
  hostname := "node1".toList
  portNr := 5555
  serverInfo := "server.info".toList
  workfile := utf8 "echo hello\n".toList
  port_valid := by decide
  hostname_line := by decide
  serverInfo_line := by decide
  workfile_lt := by decide
  uuid c := if c then ⟨List.replicate 16 3, rfl⟩ else ⟨List.replicate 16 2, rfl⟩

end Protocol
end WorkerNg
