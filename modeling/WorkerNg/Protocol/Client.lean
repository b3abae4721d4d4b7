/-
# A client

The message loop of `client.cpp`, cut at the points where the client talks to
its socket or runs a work item.  `Client.outstanding` is the state of the REQ
socket: whether a request has been sent and no reply received, in which case the
socket refuses a second request.

Its send and receive time-outs leave the loop in different ways.  After a
query without a reply the empty message is decoded, which throws; after a
result without an acknowledgement the client asks for work again, on a socket
that refuses to send, which throws as well.
-/

import WorkerNg.Wire.Result

namespace WorkerNg
namespace Protocol

open Work Wire

/-- Where a client is in its loop: at the top, waiting for the reply to a query,
with a work item, with its result, waiting for the acknowledgement of the
result, behind the loop, or ended by a crash, an exception or `worker::exit`. -/
inductive ClientPhase where
  | ready
  | querying
  | working (workId : ℕ) (workStr : Bytes)
  | finished (workId : ℕ) (result : Result)
  | reporting (workId : ℕ)
  | stopped
  | dead
deriving DecidableEq

/-- A client between two of its steps. -/
structure Client (Uuid : Type) where
  phase : ClientPhase
  msgBuilder : MessageBuilder Uuid
  outstanding : Bool
deriving DecidableEq

variable {Uuid : Type}

namespace Client

/-- The client when it enters the message loop. -/
def start (clientId garbage : Uuid) : Client Uuid :=
  ⟨.ready, MessageBuilder.new clientId garbage, false⟩

/-- The query at the top of the loop, and the client that has sent it. -/
def sendQuery (io : UuidText Uuid) (serverId : Uuid) (c : Client Uuid) :
    Option Bytes × Client Uuid :=
  if c.outstanding then (none, { c with phase := .dead })
  else
    (some (packMessage io ((c.msgBuilder.setTo serverId).setSubject .query).build.1),
      ⟨.querying, ((c.msgBuilder.setTo serverId).setSubject .query).build.2, true⟩)

/-- The client behind the reply to its query, or a time-out: the message
received, if it could be decoded, and the client. -/
def onQueryReply (io : UuidText Uuid) (c : Client Uuid) (reply : Option Bytes) :
    Option (Message Uuid) × Client Uuid :=
  let c := { c with outstanding := c.outstanding && reply.isNone }
  match unpackMessage io (reply.getD []) c.msgBuilder with
  | .error _ => (none, { c with phase := .dead })
  | .ok msg =>
      if msg.subject = .stop then (some msg, { c with phase := .stopped })
      else if msg.subject = .work then
        (some msg, { c with phase := .working msg.id msg.content })
      else (some msg, { c with phase := .dead })

/-- The client behind the execution of its work item with a result. -/
def execute (c : Client Uuid) (workId : ℕ) (result : Result) : Client Uuid :=
  { c with phase := .finished workId result }

/-- The message with the result, and the client that has sent it. -/
def sendResult (io : UuidText Uuid) (serverId : Uuid) (c : Client Uuid) (workId : ℕ)
    (result : Result) : Option Bytes × Client Uuid :=
  if c.outstanding then (none, { c with phase := .dead })
  else
    (some (packMessage io (c.msgBuilder.resultMessage serverId workId result).1),
      ⟨.reporting workId, (c.msgBuilder.resultMessage serverId workId result).2, true⟩)

/-- The client behind the acknowledgement of its result, or a time-out. -/
def onAck (io : UuidText Uuid) (c : Client Uuid) (reply : Option Bytes) :
    Option (Message Uuid) × Client Uuid :=
  let c := { c with outstanding := c.outstanding && reply.isNone }
  match reply with
  | none => (none, { c with phase := .ready })
  | some ackResponse =>
      match unpackMessage io ackResponse c.msgBuilder with
      | .error _ => (none, { c with phase := .dead })
      | .ok ackMsg =>
          if ackMsg.subject = .ackStop then (some ackMsg, { c with phase := .stopped })
          else (some ackMsg, { c with phase := .ready })

/-! ### What a step does -/

variable {io : UuidText Uuid} {serverId : Uuid} {c : Client Uuid}

/-- A client without an outstanding request sends a query. -/
theorem sendQuery_ok (hb : c.msgBuilder.Fresh) (ho : c.outstanding = false) :
    c.sendQuery io serverId =
      (some (packMessage io ⟨c.msgBuilder.from_, serverId, .query, 0, []⟩),
        ⟨.querying, ⟨c.msgBuilder.from_, serverId, .query, 0, []⟩, true⟩) := by
  rw [sendQuery, if_neg (by simp [ho])]
  simp only [MessageBuilder.build, MessageBuilder.setTo, MessageBuilder.setSubject, hb.id,
    hb.content]

/-- A client without an outstanding request sends a result. -/
theorem sendResult_ok (ho : c.outstanding = false) (workId : ℕ) (result : Result) :
    c.sendResult io serverId workId result =
      (some (packMessage io ⟨c.msgBuilder.from_, serverId, .result, workId, result.toString⟩),
        ⟨.reporting workId, ⟨c.msgBuilder.from_, serverId, .result, 0, []⟩, true⟩) := by
  rw [sendResult, if_neg (by simp [ho])]
  rfl

/-- Without a reply to its query a client throws. -/
theorem onQueryReply_none :
    c.onQueryReply io none = (none, { c with phase := .dead }) := by
  simp [onQueryReply, unpack_nil]

/-- The reply to a query, when it can be decoded. -/
theorem onQueryReply_some {msg : Message Uuid} (hm : msg.Fits) :
    c.onQueryReply io (some (packMessage io msg)) =
      (some msg, ⟨if msg.subject = .stop then .stopped else
        if msg.subject = .work then .working msg.id msg.content else .dead,
          c.msgBuilder, false⟩) := by
  simp only [onQueryReply, Option.getD_some, unpack_pack io c.msgBuilder hm, Option.isNone_some,
    Bool.and_false]
  split_ifs <;> rfl

/-- The acknowledgement of a result, when it can be decoded. -/
theorem onAck_some {msg : Message Uuid} (hm : msg.Fits) :
    c.onAck io (some (packMessage io msg)) =
      (some msg, ⟨if msg.subject = .ackStop then .stopped else .ready, c.msgBuilder, false⟩) := by
  simp only [onAck, unpack_pack io c.msgBuilder hm, Option.isNone_some, Bool.and_false]
  split_ifs <;> rfl

end Client

end Protocol
end WorkerNg
