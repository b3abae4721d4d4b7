/-
# Whose turn it is on a client's socket

A REQ socket takes requests and replies in turn: it refuses to send while the
reply to the last request is outstanding, and to receive while no request is.
Here the message loop of `client.cpp` runs against such a socket, with any
outcome of each of its four calls and with any bytes as replies.

The loop does not look at the state of its socket, and it only leaves the turn
to the socket as long as its calls succeed (`Client.InTurn.step`).  A query or a
result that could not be sent is logged, and the client goes on to receive; an
acknowledgement that did not come is logged, and the client goes on to send.
Either call is out of turn (`Client.not_inTurn_of_heedless`).  A time-out of the
query's reply does no harm: the empty message is decoded, which throws.
-/

import WorkerNg.Protocol.Client
import Mathlib.Data.List.Chain
import Mathlib.Data.List.Induction
import Mathlib.Tactic.Cases
import Mathlib.Tactic.Common

namespace WorkerNg
namespace Protocol

open Work Wire

/-- What a call of `send` comes to.  A refused call throws. -/
inductive SendStatus where
  | sent
  | timedOut
  | refused
deriving DecidableEq

/-- What a call of `recv` comes to. -/
inductive RecvStatus where
  | received (b : Bytes)
  | timedOut
  | refused
deriving DecidableEq

/-- The message received, if any. -/
def RecvStatus.reply : RecvStatus → Option Bytes
  | .received b => some b
  | _ => none

/-- A step of the loop: one of its calls, or the work item. -/
inductive ClientStep where
  | sendQuery (status : SendStatus)
  | recvReply (status : RecvStatus)
  | execute (result : Result)
  | sendResult (status : SendStatus)
  | recvAck (status : RecvStatus)
deriving DecidableEq

/-- The two directions of an exchange. -/
inductive Turn where
  | send
  | recv
deriving DecidableEq

namespace ClientStep

/-- What a successful call has done. -/
def turn : ClientStep → Option Turn
  | .sendQuery .sent | .sendResult .sent => some .send
  | .recvReply (.received _) | .recvAck (.received _) => some .recv
  | _ => none

/-- A call that the socket refuses. -/
def Refused : ClientStep → Prop
  | .sendQuery .refused | .recvReply .refused | .sendResult .refused | .recvAck .refused => True
  | _ => False

/-- A time-out after which the loop goes on as if the call had succeeded. -/
def Heedless : ClientStep → Prop
  | .sendQuery .timedOut | .sendResult .timedOut | .recvAck .timedOut => True
  | _ => False

end ClientStep

variable {Uuid : Type}

namespace Client

/-- A call of `send` by a client, which `r` says how it goes on from once the
message is sent. -/
def sends (c : Client Uuid) (status : SendStatus) (r : Option Bytes × Client Uuid) :
    Option (Client Uuid) :=
  if status = .refused ↔ c.outstanding then
    some { r.2 with outstanding := c.outstanding || status = .sent }
  else none

/-- A call of `recv` by a client, which `r` says how it goes on from. -/
def receives (c : Client Uuid) (status : RecvStatus) (r : Option (Message Uuid) × Client Uuid) :
    Option (Client Uuid) :=
  if status = .refused ↔ c.outstanding = false then
    some (if status = .refused then { c with phase := .dead } else r.2)
  else none

/-- One step of the message loop, `none` when it is not the step the loop is at
or not what the socket does. -/
def step (io : UuidText Uuid) (serverId : Uuid) (c : Client Uuid) :
    ClientStep → Option (Client Uuid)
  | .sendQuery status =>
      if c.phase = .ready then c.sends status (c.sendQuery io serverId) else none
  | .recvReply status =>
      if c.phase = .querying then c.receives status (c.onQueryReply io status.reply) else none
  | .execute result =>
      match c.phase with
      | .working workId _ => some (c.execute workId result)
      | _ => none
  | .sendResult status =>
      match c.phase with
      | .finished workId result => c.sends status (c.sendResult io serverId workId result)
      | _ => none
  | .recvAck status =>
      match c.phase with
      | .reporting _ => c.receives status (c.onAck io status.reply)
      | _ => none

/-- The client behind a list of steps. -/
def run (io : UuidText Uuid) (serverId : Uuid) (c : Client Uuid) (steps : List ClientStep) :
    Option (Client Uuid) :=
  steps.foldlM (fun c e => c.step io serverId e) c

/-- The call that a client makes next, if it makes one. -/
def next (c : Client Uuid) : Option Turn :=
  match c.phase with
  | .ready | .finished _ _ => some .send
  | .querying | .reporting _ => some .recv
  | _ => none

end Client

/-! ### The discipline of the socket -/

/-- The successful sends and receives of a run, in order. -/
def exchanged (steps : List ClientStep) : List Turn := steps.filterMap ClientStep.turn

/-- The reply to the last request is outstanding. -/
def Pending (steps : List ClientStep) : Prop := (exchanged steps).getLast? = some .send

/-- Sends and receives in turn, a send first: as they follow a receive. -/
def Alternate (turns : List Turn) : Prop := (Turn.recv :: turns).IsChain (· ≠ ·)

/-- **A run keeps to the discipline of the socket**: its successful sends and
receives alternate and start with a send, no call was refused, and neither will
be the call that comes next. -/
structure Disciplined (steps : List ClientStep) (c : Client Uuid) : Prop where
  alternate : Alternate (exchanged steps)
  not_refused : ∀ e ∈ steps, ¬ e.Refused
  send_inTurn : c.next = some .send → ¬ Pending steps
  recv_inTurn : c.next = some .recv → Pending steps

section Discipline

variable {steps : List ClientStep} {e : ClientStep}

theorem exchanged_snoc : exchanged (steps ++ [e]) = exchanged steps ++ e.turn.toList := by
  rw [exchanged, List.filterMap_append, exchanged]
  rcases h : e.turn with _ | t <;> simp [h]

/-- A step without a successful call leaves the turn where it is. -/
theorem pending_snoc_none (h : e.turn = none) : Pending (steps ++ [e]) ↔ Pending steps := by
  rw [Pending, exchanged_snoc, h, Option.toList_none, List.append_nil, Pending]

/-- A successful call decides whose turn it is. -/
theorem pending_snoc_some {t : Turn} (h : e.turn = some t) :
    Pending (steps ++ [e]) ↔ t = .send := by
  rw [Pending, exchanged_snoc, h, Option.toList_some, List.getLast?_concat, Option.some_inj]

/-- A turn is taken when it is not the one taken last. -/
theorem alternate_snoc {turns : List Turn} {t : Turn} :
    Alternate (turns ++ [t]) ↔
      Alternate turns ∧ (t = .send ↔ turns.getLast? ≠ some .send) := by
  rw [Alternate, ← List.cons_append, List.isChain_append, ← Alternate]
  refine and_congr_right fun _ => ?_
  rcases List.eq_nil_or_concat turns with rfl | ⟨turns, u, rfl⟩
  · cases t <;> simp
  · rw [List.concat_eq_append, ← List.cons_append, List.getLast?_concat, List.getLast?_concat]
    cases t <;> cases u <;> simp

end Discipline

namespace Client

variable {io : UuidText Uuid} {serverId : Uuid} {c c' : Client Uuid} {e : ClientStep}
  {steps : List ClientStep}

theorem sends_eq_some {status : SendStatus} {r : Option Bytes × Client Uuid}
    (h : c.sends status r = some c') :
    (status = .refused ↔ c.outstanding) ∧
      c' = { r.2 with outstanding := c.outstanding || status = .sent } := by
  unfold sends at h
  split_ifs at h with hs
  exact ⟨hs, (Option.some.inj h).symm⟩

theorem receives_eq_some {status : RecvStatus} {r : Option (Message Uuid) × Client Uuid}
    (h : c.receives status r = some c') :
    (status = .refused ↔ c.outstanding = false) ∧
      c' = if status = .refused then { c with phase := .dead } else r.2 := by
  unfold receives at h
  split_ifs at h with hs
  all_goals exact ⟨hs, by simp_all⟩

/-! ### What a step does -/

@[simp] theorem onQueryReply_outstanding (reply : Option Bytes) :
    (c.onQueryReply io reply).2.outstanding = (c.outstanding && reply.isNone) := by
  unfold onQueryReply
  dsimp only
  split
  · rfl
  · split_ifs <;> rfl

@[simp] theorem onAck_outstanding (reply : Option Bytes) :
    (c.onAck io reply).2.outstanding = (c.outstanding && reply.isNone) := by
  unfold onAck
  dsimp only
  split
  · rfl
  · split
    · rfl
    · split_ifs <;> rfl

/-- A client that has no request outstanding can send a query. -/
theorem sendQuery_phase (h : c.outstanding = false) :
    (c.sendQuery io serverId).2.phase = .querying := by
  rw [sendQuery, if_neg (by simp [h])]

/-- A client that has no request outstanding can send a result. -/
theorem sendResult_phase (h : c.outstanding = false) (workId : ℕ) (result : Result) :
    (c.sendResult io serverId workId result).2.phase = .reporting workId := by
  rw [sendResult, if_neg (by simp [h])]

/-- The two kinds of calls: the step of a run is one of `send`, one of `recv`, or
the execution of the work item. -/
theorem step_cases (h : c.step io serverId e = some c') :
    (∃ status r, c.next = some .send ∧ c.sends status r = some c' ∧
      (e = .sendQuery status ∧ r = c.sendQuery io serverId ∨
        ∃ workId result, e = .sendResult status ∧
          r = c.sendResult io serverId workId result)) ∨
    (∃ status r, c.next = some .recv ∧ c.receives status r = some c' ∧
      (e = .recvReply status ∧ r = c.onQueryReply io status.reply ∨
        e = .recvAck status ∧ r = c.onAck io status.reply)) ∨
    (∃ workId workStr result, c.phase = .working workId workStr ∧ e = .execute result ∧
      c' = c.execute workId result) := by
  cases e with
  | sendQuery status =>
      simp only [step] at h
      split_ifs at h with hp
      exact .inl ⟨status, _, by simp [next, hp], h, .inl ⟨rfl, rfl⟩⟩
  | recvReply status =>
      simp only [step] at h
      split_ifs at h with hp
      exact .inr (.inl ⟨status, _, by simp [next, hp], h, .inl ⟨rfl, rfl⟩⟩)
  | execute result =>
      simp only [step] at h
      split at h
      next workId workStr hp =>
        exact .inr (.inr ⟨workId, workStr, result, hp, rfl, (Option.some.inj h).symm⟩)
      next => cases h
  | sendResult status =>
      simp only [step] at h
      split at h
      next workId result hp =>
        exact .inl ⟨status, _, by simp [next, hp], h, .inr ⟨workId, result, rfl, rfl⟩⟩
      next => cases h
  | recvAck status =>
      simp only [step] at h
      split at h
      next workId hp => exact .inr (.inl ⟨status, _, by simp [next, hp], h, .inr ⟨rfl, rfl⟩⟩)
      next => cases h

/-- The socket's state behind a step. -/
theorem outstanding_step (h : c.step io serverId e = some c') :
    (e.turn = some .send → c.outstanding = false ∧ c'.outstanding = true) ∧
    (e.turn = some .recv → c.outstanding = true ∧ c'.outstanding = false) ∧
    (e.turn = none → c'.outstanding = c.outstanding) := by
  obtain ⟨status, r, -, hs, he⟩ | ⟨status, r, -, hr, he⟩ | ⟨id, str, result, -, rfl, rfl⟩ :=
    step_cases h
  · obtain ⟨hiff, rfl⟩ := sends_eq_some hs
    have ht : e.turn = if status = .sent then some .send else none := by
      obtain ⟨rfl, -⟩ | ⟨_, _, rfl, -⟩ := he <;> cases status <;> rfl
    cases status <;> simp_all
  · obtain ⟨hiff, rfl⟩ := receives_eq_some hr
    have ht : e.turn = status.reply.map fun _ => .recv := by
      obtain ⟨rfl, -⟩ | ⟨rfl, -⟩ := he <;> cases status <;> rfl
    have ho : r.2.outstanding = (c.outstanding && status.reply.isNone) := by
      obtain ⟨-, rfl⟩ | ⟨-, rfl⟩ := he <;> simp
    cases status <;> simp_all [RecvStatus.reply]
  · exact ⟨nofun, nofun, fun _ => rfl⟩

/-- The calls that the socket refuses. -/
theorem refused_step (h : c.step io serverId e = some c') :
    e.Refused ↔
      c.next = some .send ∧ c.outstanding = true ∨ c.next = some .recv ∧ c.outstanding = false := by
  obtain ⟨status, r, hn, hs, he⟩ | ⟨status, r, hn, hr, he⟩ | ⟨id, str, result, hp, rfl, rfl⟩ :=
    step_cases h
  · obtain ⟨hiff, -⟩ := sends_eq_some hs
    have hrf : e.Refused ↔ status = .refused := by
      obtain ⟨rfl, -⟩ | ⟨_, _, rfl, -⟩ := he <;> cases status <;> simp [ClientStep.Refused]
    simp [hrf, hn, hiff]
  · obtain ⟨hiff, -⟩ := receives_eq_some hr
    have hrf : e.Refused ↔ status = .refused := by
      obtain ⟨rfl, -⟩ | ⟨rfl, -⟩ := he <;> cases status <;> simp [ClientStep.Refused]
    simp [hrf, hn, hiff]
  · simp [ClientStep.Refused, next, hp]

/-! ### Who keeps to the discipline -/

/-- The socket is at the client's turn: it has a request outstanding where the
client is about to receive, and none anywhere else in the loop. -/
def InTurn (c : Client Uuid) : Prop :=
  match c.phase with
  | .querying | .reporting _ => c.outstanding = true
  | .stopped | .dead => True
  | _ => c.outstanding = false

theorem InTurn.not_send (h : c.InTurn) (hn : c.next = some .send) : c.outstanding = false := by
  unfold InTurn at h
  unfold next at hn
  split at hn <;> simp_all

theorem InTurn.recv (h : c.InTurn) (hn : c.next = some .recv) : c.outstanding = true := by
  unfold InTurn at h
  unfold next at hn
  split at hn <;> simp_all

/-- Behind the reply to a query, or its time-out, the client is in turn. -/
theorem inTurn_onQueryReply (reply : Option Bytes) : (c.onQueryReply io reply).2.InTurn := by
  rcases reply with _ | b
  · rw [onQueryReply_none]
    exact trivial
  · simp only [onQueryReply, Option.isNone_some, Bool.and_false]
    split
    · exact trivial
    · split_ifs
      · exact trivial
      · rfl
      · exact trivial

/-- Behind an acknowledgement that has come the client is in turn. -/
theorem inTurn_onAck (b : Bytes) : (c.onAck io (some b)).2.InTurn := by
  simp only [onAck, Option.isNone_some, Bool.and_false]
  split
  · exact trivial
  · split_ifs
    · exact trivial
    · rfl

/-- **A step that heeds its time-out keeps the client in turn**, and is not
refused. -/
theorem InTurn.step (hc : c.InTurn) (he : ¬ e.Heedless) (h : c.step io serverId e = some c') :
    c'.InTurn ∧ ¬ e.Refused := by
  have hrf : ¬ e.Refused := by
    rw [refused_step h]
    rintro (⟨hn, ho⟩ | ⟨hn, ho⟩)
    · exact absurd ho (by simp [hc.not_send hn])
    · exact absurd ho (by simp [hc.recv hn])
  refine ⟨?_, hrf⟩
  obtain ⟨status, r, hn, hs, hk⟩ | ⟨status, r, hn, hr, hk⟩ | ⟨id, str, result, hp, rfl, rfl⟩ :=
    step_cases h
  · have ho := hc.not_send hn
    obtain ⟨-, rfl⟩ := sends_eq_some hs
    obtain ⟨rfl, rfl⟩ | ⟨workId, result, rfl, rfl⟩ := hk
    · cases status with
      | sent => simp [InTurn, sendQuery_phase ho]
      | timedOut => exact absurd trivial he
      | refused => exact absurd trivial hrf
    · cases status with
      | sent => simp [InTurn, sendResult_phase ho]
      | timedOut => exact absurd trivial he
      | refused => exact absurd trivial hrf
  · obtain ⟨-, rfl⟩ := receives_eq_some hr
    obtain ⟨rfl, rfl⟩ | ⟨rfl, rfl⟩ := hk
    · split_ifs
      · exact trivial
      · exact inTurn_onQueryReply _
    · cases status with
      | received b => exact inTurn_onAck b
      | timedOut => exact absurd trivial he
      | refused => exact absurd trivial hrf
  · simpa [InTurn, hp, execute] using hc

/-- **Behind a time-out that it does not heed the client is out of turn.** -/
theorem next_of_heedless (he : e.Heedless) (h : c.step io serverId e = some c') :
    c'.next = some .send ∧ c'.outstanding = true ∨
      c'.next = some .recv ∧ c'.outstanding = false := by
  obtain ⟨status, r, hn, hs, hk⟩ | ⟨status, r, hn, hr, hk⟩ | ⟨id, str, result, hp, rfl, rfl⟩ :=
    step_cases h
  · obtain ⟨hiff, rfl⟩ := sends_eq_some hs
    right
    obtain ⟨rfl, rfl⟩ | ⟨workId, result, rfl, rfl⟩ := hk
    · obtain rfl : status = .timedOut := by cases status <;> first | rfl | exact he.elim
      have ho : c.outstanding = false := by simpa using hiff
      exact ⟨by simp [next, sendQuery_phase ho], by simp [ho]⟩
    · obtain rfl : status = .timedOut := by cases status <;> first | rfl | exact he.elim
      have ho : c.outstanding = false := by simpa using hiff
      exact ⟨by simp [next, sendResult_phase ho], by simp [ho]⟩
  · obtain ⟨hiff, rfl⟩ := receives_eq_some hr
    left
    obtain ⟨rfl, rfl⟩ | ⟨rfl, rfl⟩ := hk
    · cases status <;> exact he.elim
    · obtain rfl : status = .timedOut := by cases status <;> first | rfl | exact he.elim
      have ho : c.outstanding = true := by simpa using hiff
      exact ⟨rfl, by simpa [RecvStatus.reply] using ho⟩
  · exact he.elim

/-! ### Runs -/

theorem run_append (steps' : List ClientStep) :
    c.run io serverId (steps ++ steps') =
      (c.run io serverId steps).bind fun c' => c'.run io serverId steps' := by
  simp only [run, List.foldlM_append]
  rfl

theorem run_snoc (h : c.run io serverId (steps ++ [e]) = some c') :
    ∃ c₁, c.run io serverId steps = some c₁ ∧ c₁.step io serverId e = some c' := by
  rw [run_append] at h
  obtain ⟨c₁, h₁, h₂⟩ := Option.bind_eq_some_iff.1 h
  exact ⟨c₁, h₁, by simpa [run] using h₂⟩

theorem run_cons (h : c.run io serverId (e :: steps) = some c') :
    ∃ c₁, c.step io serverId e = some c₁ ∧ c₁.run io serverId steps = some c' := by
  simpa [run, Option.bind_eq_some_iff] using h

section Start

variable {clientId garbage : Uuid}

/-- **In every run the socket has a request outstanding when the last successful
call was a send**, and the successful calls alternate: the socket sees to it. -/
theorem pending_run (h : (start clientId garbage).run io serverId steps = some c) :
    (c.outstanding = true ↔ Pending steps) ∧ Alternate (exchanged steps) := by
  induction steps using List.reverseRecOn generalizing c with
  | nil =>
      obtain rfl : start clientId garbage = c := by simpa [run] using h
      exact ⟨by simp [start, Pending, exchanged], by simp [Alternate, exchanged]⟩
  | append_singleton steps e ih =>
      obtain ⟨c₁, hrun, hstep⟩ := run_snoc h
      obtain ⟨hp, ha⟩ := ih hrun
      obtain ⟨hsend, hrecv, hnone⟩ := outstanding_step hstep
      rcases ht : e.turn with _ | t
      · rw [pending_snoc_none ht, exchanged_snoc, ht, hnone ht]
        exact ⟨hp, by simpa using ha⟩
      · rw [pending_snoc_some ht, exchanged_snoc, ht, Option.toList_some, alternate_snoc]
        cases t with
        | send =>
            obtain ⟨h₁, h₂⟩ := hsend ht
            refine ⟨by simp [h₂], ha, iff_of_true rfl fun hl => ?_⟩
            simpa [h₁] using hp.2 hl
        | recv =>
            obtain ⟨h₁, h₂⟩ := hrecv ht
            exact ⟨by simp [h₂], ha, iff_of_false nofun fun hl => hl (hp.1 h₁)⟩

/-- A run without heedless time-outs keeps the client in turn. -/
theorem inTurn_run (h : (start clientId garbage).run io serverId steps = some c)
    (he : ∀ e ∈ steps, ¬ e.Heedless) : c.InTurn ∧ ∀ e ∈ steps, ¬ e.Refused := by
  induction steps using List.reverseRecOn generalizing c with
  | nil =>
      obtain rfl : start clientId garbage = c := by simpa [run] using h
      exact ⟨rfl, by simp⟩
  | append_singleton steps e ih =>
      obtain ⟨c₁, hrun, hstep⟩ := run_snoc h
      obtain ⟨hc, hrf⟩ := ih hrun fun e' he' => he e' (by simp [he'])
      obtain ⟨hc', hr⟩ := hc.step (he e (by simp)) hstep
      refine ⟨hc', fun e' he' => ?_⟩
      rcases List.mem_append.1 he' with he' | he'
      · exact hrf e' he'
      · exact List.mem_singleton.1 he' ▸ hr

/-- A client that is out of turn has its next call refused. -/
theorem refused_head (hc : c.next = some .send ∧ c.outstanding = true ∨
      c.next = some .recv ∧ c.outstanding = false)
    (h : c.run io serverId (e :: steps) = some c') : e.Refused := by
  obtain ⟨c₁, hstep, -⟩ := run_cons h
  exact (refused_step hstep).2 hc

/-- **A run keeps to the discipline of the socket exactly if it heeds its
time-outs**: no query and no result times out on the way to the server, and no
acknowledgement on the way back. -/
theorem disciplined_iff (clientId garbage : Uuid) (io : UuidText Uuid) (serverId : Uuid)
    (steps : List ClientStep) (c : Client Uuid)
    (h : (start clientId garbage).run io serverId steps = some c) :
    Disciplined steps c ↔ ∀ e ∈ steps, ¬ e.Heedless := by
  obtain ⟨hp, ha⟩ := pending_run h
  constructor
  · intro hd e hmem he
    obtain ⟨before, behind, rfl⟩ := List.append_of_mem hmem
    rw [run_append] at h
    obtain ⟨c₀, -, h⟩ := Option.bind_eq_some_iff.1 h
    obtain ⟨c₁, hstep, hbehind⟩ := run_cons h
    have hout := next_of_heedless he hstep
    rcases behind with _ | ⟨e', behind⟩
    · -- the run ends behind the time-out: its next call is the wrong one
      obtain rfl : c₁ = c := by simpa [run] using hbehind
      rcases hout with ⟨hn, ho⟩ | ⟨hn, ho⟩
      · exact hd.send_inTurn hn (hp.1 ho)
      · exact absurd (hp.2 (hd.recv_inTurn hn)) (by simp [ho])
    · exact hd.not_refused e' (by simp) (refused_head hout hbehind)
  · intro he
    obtain ⟨hc, hrf⟩ := inTurn_run h he
    refine ⟨ha, hrf, fun hn hpend => ?_, fun hn => hp.1 (hc.recv hn)⟩
    exact absurd (hp.2 hpend) (by simp [hc.not_send hn])

end Start

/-- A client that gets one work item, up to the acknowledgement of its result. -/
def oneItem (io : UuidText Uuid) (serverId clientId : Uuid) (ack : RecvStatus) :
    List ClientStep :=
  [.sendQuery .sent,
    .recvReply (.received (packMessage io ⟨serverId, clientId, .work, 1, utf8 "date".toList⟩)),
    .execute ⟨0, [], []⟩, .sendResult .sent, .recvAck ack]

/-- The server acknowledges the result and tells the client to stop. -/
def ackStop (io : UuidText Uuid) (serverId clientId : Uuid) : RecvStatus :=
  .received (packMessage io ⟨serverId, clientId, .ackStop, 1, []⟩)

/-- The server of the runs below. -/
def server1 : Uuid16 := Uuid16.filled 1

/-- Their client. -/
def client2 : Uuid16 := Uuid16.filled 2

theorem phase_oneItem_ackStop :
    ((start client2 client2).run hexText server1
      (oneItem hexText server1 client2 (ackStop hexText server1 client2))).map Client.phase =
      some .stopped := by
  decide +kernel

theorem next_oneItem_timedOut :
    ((start client2 client2).run hexText server1
      (oneItem hexText server1 client2 .timedOut)).map Client.next = some (some .send) := by
  decide +kernel

theorem disciplined_oneItem :
    ∃ c, c.phase = .stopped ∧
      Disciplined (oneItem hexText server1 client2 (ackStop hexText server1 client2)) c ∧
      (start client2 client2).run hexText server1
        (oneItem hexText server1 client2 (ackStop hexText server1 client2)) = some c := by
  obtain ⟨c, hc, hp⟩ := Option.map_eq_some_iff.1 phase_oneItem_ackStop
  refine ⟨c, hp, (disciplined_iff _ _ hexText _ _ c hc).2 ?_, hc⟩
  simp [oneItem, ackStop, ClientStep.Heedless]

/-- **A client may call out of turn**: it receives without a request when its
query could not be sent, and sends its next query while the acknowledgement of
its result is outstanding. -/
theorem exists_not_disciplined :
    (∃ c, (start client2 client2).run hexText server1 [.sendQuery .timedOut] = some c ∧
      c.next = some .recv ∧ ¬ Pending [.sendQuery .timedOut] ∧
      ¬ Disciplined [.sendQuery .timedOut] c) ∧
    ∃ c, (start client2 client2).run hexText server1
        (oneItem hexText server1 client2 .timedOut) = some c ∧
      c.next = some .send ∧ Pending (oneItem hexText server1 client2 .timedOut) ∧
      ¬ Disciplined (oneItem hexText server1 client2 .timedOut) c := by
  have hpending : ¬ Pending [.sendQuery .timedOut] := nofun
  have hpending' : Pending (oneItem hexText server1 client2 .timedOut) := rfl
  obtain ⟨c, hc, hn⟩ := Option.map_eq_some_iff.1 next_oneItem_timedOut
  exact ⟨⟨_, rfl, rfl, hpending, fun h => hpending (h.recv_inTurn rfl)⟩,
    c, hc, hn, hpending', fun h => h.send_inTurn hn hpending'⟩

end Client

end Protocol
end WorkerNg
