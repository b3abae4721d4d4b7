/-
# The server

The message loop of `server.cpp`: what one iteration does with the request it
received, up to the reply, the log and the test that ends the loop.

The server's state is what `main` keeps between two iterations: the work parser,
the message builder, the ids of the open items, what it has written to the two
output streams and the messages it has logged.  An exception that nothing
catches and `worker::exit` end the process (`Status.aborted`).

Each branch of the loop has one lemma, `handle_query_work`, `handle_query_stop`
and `handle_result`; nothing else unfolds `Server.handle`.
-/

import WorkerNg.Wire.Result
import Mathlib.Data.Finset.Basic

namespace WorkerNg
namespace Protocol

open Work Wire

/-- The severities with which the server logs. -/
inductive Severity where
  | info
  | error
  | fatal
deriving DecidableEq

/-- A message in a log. -/
structure LogMessage where
  severity : Severity
  message : Text
deriving DecidableEq

/-- `<<` for a number, as text. -/
def natText (n : ℕ) : Text := Nat.toDigits 10 n

/-- `<<` for an `int`, as text. -/
def intText (x : Int32) : Text :=
  if x.toInt < 0 then '-' :: natText x.toInt.natAbs else natText x.toInt.natAbs

/-- What the server is started with: its command line options, its host, its
UUID and the contents of the workfile. -/
structure Setup (Uuid : Type) where
  io : UuidText Uuid
  serverId : Uuid
  garbage : Uuid
  hostname : Text
  portNr : ℕ
  serverInfo : Text
  workfile : Bytes
  port_valid : 1 ≤ portNr ∧ portNr ≤ 65535
  hostname_line : '\n' ∉ hostname ∧ '\r' ∉ hostname
  serverInfo_line : '\n' ∉ serverInfo ∧ '\r' ∉ serverInfo
  workfile_lt : workfile.length < maxSize

/-- Where the server's process is: in the message loop, behind it, at its end, or
ended by an exception or `worker::exit`. -/
inductive Status where
  | looping
  | left
  | exited
  | aborted
deriving DecidableEq

/-- The server's state between two iterations of its loop. -/
structure Server (Uuid : Type) where
  parser : WorkParser
  msgBuilder : MessageBuilder Uuid
  toDo : Finset ℕ
  out : Bytes
  err : Bytes
  log : List LogMessage
  status : Status
deriving DecidableEq

variable {Uuid : Type}

/-- The items of the workfile, as the server dispenses them. -/
def Setup.items (job : Setup Uuid) : List Bytes :=
  (WorkParser.ofStream job.workfile defaultSep).items

/-- What is logged before the message loop. -/
def Setup.startLog (job : Setup Uuid) : List LogMessage :=
  [⟨.info, "server ID ".toList ++ job.io.put job.serverId⟩,
    ⟨.info, "socket boundi on ".toList ++ "tcp://*:".toList ++ natText job.portNr⟩,
    ⟨.info, "server address ".toList ++ "tcp://".toList ++ job.hostname ++ ":".toList ++
      natText job.portNr⟩,
    ⟨.info, "created server_info file '".toList ++ job.serverInfo ++ "'".toList⟩]

namespace Server

/-- The server when it enters the message loop. -/
def start (job : Setup Uuid) : Server Uuid where
  parser := WorkParser.ofStream job.workfile defaultSep
  msgBuilder := MessageBuilder.new job.serverId job.garbage
  toDo := ∅
  out := []
  err := []
  log := job.startLog
  status := .looping

/-- `BOOST_LOG_TRIVIAL`. -/
def logs (s : Server Uuid) (severity : Severity) (message : Text) : Server Uuid :=
  { s with log := s.log ++ [⟨severity, message⟩] }

/-- A message with a destination and a subject only. -/
def message (s : Server Uuid) (dest : Uuid) (subject : Subject) : Message Uuid × Server Uuid :=
  (((s.msgBuilder.setTo dest).setSubject subject).build.1,
    { s with msgBuilder := ((s.msgBuilder.setTo dest).setSubject subject).build.2 })

/-- `send_work`: the message sent and the id of its work item. -/
def sendWork (job : Setup Uuid) (s : Server Uuid) (dest : Uuid) :
    Message Uuid × ℕ × Server Uuid :=
  let (workItem, parser) := s.parser.next
  let workId := parser.nrItems
  let (workMsg, msgBuilder) :=
    ((((s.msgBuilder.setTo dest).setSubject .work).setId workId).setContent workItem).build
  (workMsg, workId, { s with parser, msgBuilder }.logs .info
    ("work message ".toList ++ natText workId ++ " to ".toList ++ job.io.put workMsg.to_))

/-- `send_stop`. -/
def sendStop (job : Setup Uuid) (s : Server Uuid) (dest : Uuid) : Message Uuid × Server Uuid :=
  let (stopMsg, s) := s.message dest .stop
  (stopMsg, s.logs .info ("stop message to ".toList ++ job.io.put stopMsg.to_))

/-- `send_ack`. -/
def sendAck (s : Server Uuid) (dest : Uuid) : Message Uuid × Server Uuid := s.message dest .ack

/-- `send_ack_stop`. -/
def sendAckStop (s : Server Uuid) (dest : Uuid) : Message Uuid × Server Uuid :=
  s.message dest .ackStop

/-- The branches of the message loop: the reply sent, if the process has not
ended, and the server behind them. -/
def handle (job : Setup Uuid) (s : Server Uuid) (msg : Message Uuid) :
    Option (Message Uuid) × Server Uuid :=
  if msg.subject = .query then
    let s := s.logs .info ("query message from ".toList ++ job.io.put msg.from_)
    if s.parser.hasNext then
      let (workMsg, workId, s) := s.sendWork job msg.from_
      let s := { s with toDo := insert workId s.toDo }
      (some workMsg, s.logs .info ("workitem ".toList ++ natText workId ++ " started: ".toList ++
        job.io.put msg.from_))
    else
      let (stopMsg, s) := s.sendStop job msg.from_
      (some stopMsg, s.logs .info ("stop message to ".toList ++ job.io.put msg.from_))
  else if msg.subject = .result then
    let s := s.logs .info ("result message for ".toList ++ natText msg.id ++ " from ".toList ++
      job.io.put msg.from_)
    match Result.ofString msg.content with
    | .error _ => (none, { s with status := .aborted })
    | .ok result =>
        let s := { s with out := s.out ++ result.stdout ++ [10], err := s.err ++ result.stderr ++ [10] }
        let s := s.logs .info ("workitem ".toList ++ natText msg.id ++ " done: ".toList ++
          intText result.exitStatus)
        let s := { s with toDo := s.toDo.erase msg.id }
        if s.parser.hasNext then
          let (ackMsg, s) := s.sendAck msg.from_
          (some ackMsg, s.logs .info ("ack message to ".toList ++ job.io.put msg.from_))
        else
          let (ackMsg, s) := s.sendAckStop msg.from_
          (some ackMsg, s.logs .info ("ack_stop message to ".toList ++ job.io.put msg.from_))
  else (none, { s.logs .fatal "invalid message".toList with status := .aborted })

/-- The test at the end of an iteration. -/
def checkDone (s : Server Uuid) : Server Uuid :=
  if s.parser.hasNext = false ∧ s.toDo = ∅ then
    { s.logs .info "processing done".toList with status := .left }
  else s

/-- One iteration of the message loop: the message received, if it could be
decoded, the reply sent, if any, and the server behind the iteration. -/
def iterate (job : Setup Uuid) (s : Server Uuid) (request : Bytes) :
    Option (Message Uuid) × Option (Message Uuid) × Server Uuid :=
  match unpackMessage job.io request s.msgBuilder with
  | .error _ => (none, none, { s with status := .aborted })
  | .ok msg =>
      match s.handle job msg with
      | (none, s) => (some msg, none, s)
      | (some reply, s) => (some msg, some reply, s.checkDone)

/-- The end of `main`, behind the loop. -/
def finish (s : Server Uuid) : Server Uuid :=
  { s.logs .info "exiting normally".toList with status := .exited }

/-! ### What an iteration does -/

/-- What the server logs about a message it received. -/
def receivedLog (job : Setup Uuid) (msg : Message Uuid) : List LogMessage :=
  match msg.subject with
  | .query => [⟨.info, "query message from ".toList ++ job.io.put msg.from_⟩]
  | .result =>
      match Result.ofString msg.content with
      | .error _ => []
      | .ok result =>
          [⟨.info, "result message for ".toList ++ natText msg.id ++ " from ".toList ++
              job.io.put msg.from_⟩,
            ⟨.info, "workitem ".toList ++ natText msg.id ++ " done: ".toList ++
              intText result.exitStatus⟩]
  | _ => []

/-- What it logs about the reply. -/
def sentLog (job : Setup Uuid) (msg : Message Uuid) : List LogMessage :=
  match msg.subject with
  | .work =>
      [⟨.info, "work message ".toList ++ natText msg.id ++ " to ".toList ++ job.io.put msg.to_⟩,
        ⟨.info, "workitem ".toList ++ natText msg.id ++ " started: ".toList ++
          job.io.put msg.to_⟩]
  | .stop =>
      [⟨.info, "stop message to ".toList ++ job.io.put msg.to_⟩,
        ⟨.info, "stop message to ".toList ++ job.io.put msg.to_⟩]
  | .ack => [⟨.info, "ack message to ".toList ++ job.io.put msg.to_⟩]
  | .ackStop => [⟨.info, "ack_stop message to ".toList ++ job.io.put msg.to_⟩]
  | _ => []

variable {job : Setup Uuid} {s : Server Uuid} {msg : Message Uuid}

/-- **A query, with an item left**: the item read ahead is sent under the next
id, which is open from then on. -/
theorem handle_query_work (hq : msg.subject = .query) (hn : s.parser.hasNext = true) :
    s.handle job msg =
      (some ⟨s.msgBuilder.from_, msg.from_, .work, s.parser.nrItems + 1, s.parser.nextItem⟩,
        { s with
          parser := s.parser.next.2
          msgBuilder := ⟨s.msgBuilder.from_, msg.from_, .work, 0, []⟩
          toDo := insert (s.parser.nrItems + 1) s.toDo
          log := s.log ++ (receivedLog job msg ++ sentLog job
            ⟨s.msgBuilder.from_, msg.from_, .work, s.parser.nrItems + 1, s.parser.nextItem⟩) }) := by
  rw [handle, if_pos hq]
  simp only [logs, hn, if_true, sendWork, WorkParser.nrItems_next hn, receivedLog, hq, sentLog,
    List.append_assoc]
  rfl

/-- **A query, with no item left**: the client is told to stop. -/
theorem handle_query_stop (hb : s.msgBuilder.Fresh) (hq : msg.subject = .query)
    (hn : s.parser.hasNext = false) :
    s.handle job msg =
      (some ⟨s.msgBuilder.from_, msg.from_, .stop, 0, []⟩,
        { s with
          msgBuilder := ⟨s.msgBuilder.from_, msg.from_, .stop, 0, []⟩
          log := s.log ++ (receivedLog job msg ++
            sentLog job ⟨s.msgBuilder.from_, msg.from_, .stop, 0, []⟩) }) := by
  rw [handle, if_pos hq]
  simp only [logs, hn, Bool.false_eq_true, if_false, sendStop, receivedLog, hq, sentLog,
    List.append_assoc, message, MessageBuilder.build, MessageBuilder.setTo,
    MessageBuilder.setSubject, hb.id, hb.content]
  rfl

/-- **A result**: its texts are written, its item is not open any more, and the
client is acknowledged, and told to stop if there is no item left. -/
theorem handle_result (hb : s.msgBuilder.Fresh) (hr : msg.subject = .result) {result : Result}
    (hres : Result.ofString msg.content = .ok result) {subject : Subject}
    (hsub : subject = if s.parser.hasNext then .ack else .ackStop) :
    s.handle job msg =
      (some ⟨s.msgBuilder.from_, msg.from_, subject, 0, []⟩,
        { s with
          msgBuilder := ⟨s.msgBuilder.from_, msg.from_, subject, 0, []⟩
          toDo := s.toDo.erase msg.id
          out := s.out ++ result.stdout ++ [10]
          err := s.err ++ result.stderr ++ [10]
          log := s.log ++ (receivedLog job msg ++
            sentLog job ⟨s.msgBuilder.from_, msg.from_, subject, 0, []⟩) }) := by
  have hne : ¬msg.subject = .query := by simp [hr]
  subst hsub
  rw [handle, if_neg hne, if_pos hr]
  cases hn : s.parser.hasNext
  · simp only [hres, receivedLog, hr, sentLog, logs, hn, Bool.false_eq_true, if_false,
      sendAckStop, message, MessageBuilder.build, MessageBuilder.setTo,
      MessageBuilder.setSubject, hb.id, hb.content, List.append_assoc]
    rfl
  · simp only [hres, receivedLog, hr, sentLog, logs, hn, if_true, sendAck, message,
      MessageBuilder.build, MessageBuilder.setTo, MessageBuilder.setSubject, hb.id, hb.content,
      List.append_assoc]
    rfl

/-- An iteration on a message that can be decoded and handled. -/
theorem iterate_of_handle (hm : msg.Fits) {reply : Message Uuid} {s' : Server Uuid}
    (hh : s.handle job msg = (some reply, s')) :
    s.iterate job (packMessage job.io msg) = (some msg, some reply, s'.checkDone) := by
  rw [iterate, unpack_pack job.io s.msgBuilder hm]
  simp only [hh]

@[simp] theorem parser_checkDone (s : Server Uuid) : s.checkDone.parser = s.parser := by
  unfold checkDone
  split_ifs <;> rfl

@[simp] theorem msgBuilder_checkDone (s : Server Uuid) : s.checkDone.msgBuilder = s.msgBuilder := by
  unfold checkDone
  split_ifs <;> rfl

@[simp] theorem toDo_checkDone (s : Server Uuid) : s.checkDone.toDo = s.toDo := by
  unfold checkDone
  split_ifs <;> rfl

@[simp] theorem out_checkDone (s : Server Uuid) : s.checkDone.out = s.out := by
  unfold checkDone
  split_ifs <;> rfl

@[simp] theorem err_checkDone (s : Server Uuid) : s.checkDone.err = s.err := by
  unfold checkDone
  split_ifs <;> rfl

end Server

end Protocol
end WorkerNg
