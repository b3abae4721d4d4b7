/-
# The job refines a pool of work

Every run of the server and its clients is a run of `Pool.Step` over the items
of the workfile: the bytes in a channel are the encoding of the pool's message,
the server's parser stands before the items not handed out, and the trace is the
pool's trace with the messages written out (`Refines`).  Here is where the codecs
and the builders are dealt with; what the pool does is proved of the pool.

`refines_step` follows one step and `refines_reachable` a run.  A client that
meets an exception, be it after a time-out, is a client that dies.
-/

import WorkerNg.Lib.PoolRuns
import WorkerNg.Protocol.System

namespace WorkerNg
namespace Protocol

open Work Wire

/-- A result whose text is a C++ string. -/
abbrev FitResult := { r : Result // r.toString.length ≤ maxSize }

variable {C Uuid : Type} {job : Job C Uuid} {c : C}

/-- The message for a request of client `c`. -/
def encodeRequest (job : Job C Uuid) (c : C) : Pool.Request FitResult → Message Uuid
  | .query => ⟨job.uuid c, job.serverId, .query, 0, []⟩
  | .result k r => ⟨job.uuid c, job.serverId, .result, k, r.1.toString⟩

/-- The message for a reply to client `c`. -/
def encodeReply (job : Job C Uuid) (c : C) : Pool.Reply Bytes → Message Uuid
  | .work k a => ⟨job.serverId, job.uuid c, .work, k, a⟩
  | .stop => ⟨job.serverId, job.uuid c, .stop, 0, []⟩
  | .ack => ⟨job.serverId, job.uuid c, .ack, 0, []⟩
  | .ackStop => ⟨job.serverId, job.uuid c, .ackStop, 0, []⟩

/-- The bytes in the channel of client `c`. -/
def encodeChan (job : Job C Uuid) (c : C) : Pool.Channel Bytes FitResult → Channel
  | .empty => .empty
  | .request q => .request (packMessage job.io (encodeRequest job c q))
  | .reply p => .reply (packMessage job.io (encodeReply job c p))

/-- The event with its message written out. -/
def encodeEvent (job : Job C Uuid) : Pool.Event C Bytes FitResult → Event C Uuid
  | .received c q => .received c (encodeRequest job c q)
  | .sent c p => .sent c (encodeReply job c p)
  | .delivered c p => .delivered c (encodeReply job c p)
  | .executed c k a r => .executed c k a r.1

/-- The phases of the program's clients and of the pool's.  A client at the top
of its loop whose request is outstanding is stuck. -/
inductive PhaseR : Pool.Phase Bytes FitResult → ClientPhase → Bool → Prop where
  | ready : PhaseR .ready .ready false
  | querying : PhaseR .querying .querying true
  | working {k : ℕ} {a : Bytes} : PhaseR (.working k a) (.working k a) false
  | finished {k : ℕ} {r : FitResult} : PhaseR (.finished k r) (.finished k r.1) false
  | reporting {k : ℕ} : PhaseR (.reporting k) (.reporting k) true
  | stuck : PhaseR .stuck .ready true
  | stopped {o : Bool} : PhaseR .stopped .stopped o
  | dead {o : Bool} : PhaseR .dead .dead o

/-- A client in a phase of the pool. -/
structure ClientR (u : Uuid) (ph : Pool.Phase Bytes FitResult) (cl : Client Uuid) : Prop where
  phase : PhaseR ph cl.phase cl.outstanding
  fresh : cl.msgBuilder.Fresh
  from_ : cl.msgBuilder.from_ = u

/-- What the server logs at an event. -/
def eventLog (job : Setup Uuid) : Event C Uuid → List LogMessage
  | .received _ msg => Server.receivedLog job msg
  | .sent _ msg => Server.sentLog job msg
  | _ => []

/-- What the server logs when its loop ends and when it exits. -/
def statusLog : Status → List LogMessage
  | .left => [⟨.info, "processing done".toList⟩]
  | .exited => [⟨.info, "processing done".toList⟩, ⟨.info, "exiting normally".toList⟩]
  | _ => []

/-- **The state of the job stands for a state of the pool.** -/
structure Refines (job : Job C Uuid) (s : System C Uuid) (t : Pool.State C Bytes FitResult) :
    Prop where
  given : s.server.parser.nrItems = t.given
  items : s.server.parser.items = job.items.drop t.given
  toDo : s.server.toDo = t.toDo
  looping : t.serving = true → s.server.status = .looping
  left : t.serving = false → s.server.status = .left ∨ s.server.status = .exited
  fresh : s.server.msgBuilder.Fresh
  from_ : s.server.msgBuilder.from_ = job.serverId
  client : ∀ c, ClientR (job.uuid c) (t.party c).phase (s.client c)
  chan : ∀ c, s.chan c = encodeChan job c (t.party c).chan
  trace : s.trace = t.trace.map (encodeEvent job)
  out : s.server.out = (results s.trace).flatMap fun r => r.stdout ++ [10]
  err : s.server.err = (results s.trace).flatMap fun r => r.stderr ++ [10]
  log : s.server.log = job.startLog ++ s.trace.flatMap (eventLog job.toSetup) ++
    statusLog s.server.status

theorem Refines.serving {s : System C Uuid} {t : Pool.State C Bytes FitResult}
    (hr : Refines job s t) (hs : s.server.status = .looping) : t.serving = true := by
  by_contra hf
  rcases hr.left (by simpa using hf) with h | h <;> rw [h] at hs <;> cases hs

theorem Refines.not_serving {s : System C Uuid} {t : Pool.State C Bytes FitResult}
    (hr : Refines job s t) (hs : s.server.status = .left ∨ s.server.status = .exited) :
    t.serving = false := by
  by_contra hf
  rcases hs with hs | hs <;> rw [hr.looping (by simpa using hf)] at hs <;> cases hs

theorem refines_start [DecidableEq C] (job : Job C Uuid) :
    Refines job (System.start job) Pool.init where
  given := rfl
  items := rfl
  toDo := rfl
  looping _ := rfl
  left h := by simp [Pool.init] at h
  fresh := MessageBuilder.fresh_new _ _
  from_ := rfl
  client _ := ⟨.ready, MessageBuilder.fresh_new _ _, rfl⟩
  chan _ := rfl
  trace := rfl
  out := rfl
  err := rfl
  log := (List.append_nil _).symm

/-! ### The messages fit -/

theorem items_bound (job : Setup Uuid) : job.items.length < 2 ^ 63 := by
  have hlt := job.workfile_lt
  have hle := WorkParser.length_items_ofStream_le job.workfile defaultSep
  unfold maxSize at hlt
  unfold Setup.items
  omega

variable {t : Pool.State C Bytes FitResult}

theorem fits_request {k : ℕ} {r : FitResult} (hi : Pool.Inv job.items t)
    (hg : Pool.Given t.trace c k) : (encodeRequest job c (.result k r)).Fits := by
  have hk := (hi.mem_ids hg).2
  have hn := hi.given_le
  have hb := items_bound job.toSetup
  refine ⟨(by decide : Subject.result.Declared), ?_, r.2⟩
  simp only [encodeRequest]
  omega

theorem fits_query : (encodeRequest job c .query).Fits :=
  ⟨(by decide : Subject.query.Declared), Nat.two_pow_pos 64, Nat.zero_le _⟩

theorem fits_work {k : ℕ} {a : Bytes} (hi : Pool.Inv job.items t)
    (hs : Pool.Event.sent c (.work k a) ∈ t.trace) : (encodeReply job c (.work k a)).Fits := by
  have hk := (hi.mem_ids ⟨a, hs⟩).2
  have hn := hi.given_le
  have hb := items_bound job.toSetup
  have ha := List.mem_of_getElem? (hi.item c k a hs)
  have hlen := WorkParser.length_le_of_mem_items_ofStream ha
  have hlt := job.workfile_lt
  refine ⟨(by decide : Subject.work.Declared), ?_, ?_⟩
  · simp only [encodeReply]
    omega
  · simp only [encodeReply]
    omega

theorem fits_stop : (encodeReply job c .stop).Fits :=
  ⟨(by decide : Subject.stop.Declared), Nat.two_pow_pos 64, Nat.zero_le _⟩

theorem fits_ack : (encodeReply job c .ack).Fits :=
  ⟨(by decide : Subject.ack.Declared), Nat.two_pow_pos 64, Nat.zero_le _⟩

theorem fits_ackStop : (encodeReply job c .ackStop).Fits :=
  ⟨(by decide : Subject.ackStop.Declared), Nat.two_pow_pos 64, Nat.zero_le _⟩

/-! ### Steps of the clients -/

theorem results_append (t u : List (Event C Uuid)) : results (t ++ u) = results t ++ results u :=
  List.filterMap_append ..

variable [DecidableEq C] {s : System C Uuid}

/-- One client changes, and nothing happens that the server sees. -/
theorem Refines.update (hr : Refines job s t) {cl : Client Uuid} {ch : Channel}
    {es : List (Event C Uuid)} {p : Pool.Party Bytes FitResult}
    {es' : List (Pool.Event C Bytes FitResult)} (hcl : ClientR (job.uuid c) p.phase cl)
    (hch : ch = encodeChan job c p.chan) (hes : es = es'.map (encodeEvent job))
    (hres : results es = []) (hlog : es.flatMap (eventLog job.toSetup) = []) :
    Refines job (s.update c cl ch es) (t.put c p es') where
  given := hr.given
  items := hr.items
  toDo := hr.toDo
  looping := hr.looping
  left := hr.left
  fresh := hr.fresh
  from_ := hr.from_
  client d := by
    by_cases hd : d = c
    · subst hd
      simpa [System.update, Pool.State.put] using hcl
    · simpa [System.update, Pool.State.put, hd] using hr.client d
  chan d := by
    by_cases hd : d = c
    · subst hd
      simpa [System.update, Pool.State.put] using hch
    · simpa [System.update, Pool.State.put, hd] using hr.chan d
  trace := by simp [System.update, hr.trace, hes]
  out := by simpa [System.update, results_append, hres] using hr.out
  err := by simpa [System.update, results_append, hres] using hr.err
  log := by simpa [System.update, hlog] using hr.log

/-- What a step of the job is to the pool; the end of `main` is nothing to it. -/
def labelOf (s : System C Uuid) : Action C → Option (Pool.Label C)
  | .sendQuery c => some (if (s.client c).outstanding then .die c else .go c)
  | .serve c => some (.serve c)
  | .recvReply c => some (.go c)
  | .queryTimeout c => some (.die c)
  | .execute c _ => some (.go c)
  | .sendResult c => some (.go c)
  | .recvAck c => some (.go c)
  | .ackTimeout c => some (.giveUp c)
  | .die c => some (.die c)
  | .lose c => some (.lose c)
  | .finish => none

variable {s' : System C Uuid}

omit [DecidableEq C] in
/-- What a client of the job and its channel say about the client of the pool. -/
theorem Refines.party (hr : Refines job s t) (hi : Pool.Inv job.items t) (c : C) :
    ∃ ph ch, t.party c = ⟨ph, ch⟩ ∧ Pool.Consistent t.trace c ⟨ph, ch⟩ ∧
      PhaseR ph (s.client c).phase (s.client c).outstanding ∧ s.chan c = encodeChan job c ch :=
  ⟨_, _, rfl, hi.party c, (hr.client c).phase, hr.chan c⟩

theorem refines_sendQuery (hr : Refines job s t) (hi : Pool.Inv job.items t)
    (hs : s.step job (.sendQuery c) = some s') :
    ∃ t', Pool.Step job.items t (if (s.client c).outstanding then .die c else .go c) t' ∧
      Refines job s' t' := by
  rw [System.step] at hs
  split_ifs at hs with hph
  obtain rfl := Option.some.inj hs
  have hcl := hr.client c
  obtain ⟨ph, ch, hp, hcons, hphase, hch⟩ := hr.party hi c
  rw [hph] at hphase
  generalize ho : (s.client c).outstanding = o at hphase ⊢
  cases hphase with
  | ready =>
      cases hcons with
      | report hph' _ => simp at hph'
      | ready hn hd =>
          refine ⟨_, .sendQuery hp, ?_⟩
          rw [Client.sendQuery_ok hcl.fresh ho]
          refine hr.update ⟨.querying, ⟨rfl, rfl⟩, hcl.from_⟩ ?_ rfl rfl rfl
          simp [encodeChan, encodeRequest, hcl.from_]
  | stuck =>
      refine ⟨_, .die hp, ?_⟩
      rw [Client.sendQuery, if_pos ho]
      exact hr.update ⟨.dead, hcl.fresh, hcl.from_⟩ hch rfl rfl rfl

theorem refines_recvReply (hr : Refines job s t) (hi : Pool.Inv job.items t)
    (hs : s.step job (.recvReply c) = some s') :
    ∃ t', Pool.Step job.items t (.go c) t' ∧ Refines job s' t' := by
  rw [System.step] at hs
  split at hs
  · rename_i b hph hb
    obtain rfl := Option.some.inj hs
    have hcl := hr.client c
    obtain ⟨ph, ch, hp, hcons, hphase, hch⟩ := hr.party hi c
    rw [hph] at hphase
    rw [hb] at hch
    generalize (s.client c).outstanding = o at hphase
    cases hphase with
    | querying =>
        cases hcons with
        | report hph' _ => simp at hph'
        | querying _ _ => cases hch
        | queryLost _ => cases hch
        | workSent hu hd =>
            obtain rfl := Channel.reply.inj hch
            refine ⟨_, .recvWork hp, ?_⟩
            rw [Client.onQueryReply_some (fits_work hi hu.sent)]
            exact hr.update ⟨.working, hcl.fresh, hcl.from_⟩ rfl rfl rfl rfl
        | stopSent ht hd =>
            obtain rfl := Channel.reply.inj hch
            refine ⟨_, .recvStop hp, ?_⟩
            rw [Client.onQueryReply_some fits_stop]
            exact hr.update ⟨.stopped, hcl.fresh, hcl.from_⟩ rfl rfl rfl rfl
  · cases hs

theorem refines_queryTimeout (hr : Refines job s t) (hs : s.step job (.queryTimeout c) = some s') :
    ∃ t', Pool.Step job.items t (.die c) t' ∧ Refines job s' t' := by
  rw [System.step] at hs
  split_ifs at hs with hph
  obtain rfl := Option.some.inj hs
  rw [Client.onQueryReply_none]
  have hcl := hr.client c
  exact ⟨_, .die rfl, hr.update ⟨.dead, hcl.fresh, hcl.from_⟩ (hr.chan c) rfl rfl rfl⟩

theorem refines_execute (hr : Refines job s t) (hi : Pool.Inv job.items t) {result : Result}
    (hs : s.step job (.execute c result) = some s') :
    ∃ t', Pool.Step job.items t (.go c) t' ∧ Refines job s' t' := by
  rw [System.step] at hs
  split at hs
  · rename_i k a hph
    split_ifs at hs with hfit
    obtain rfl := Option.some.inj hs
    have hcl := hr.client c
    obtain ⟨ph, ch, hp, hcons, hphase, hch⟩ := hr.party hi c
    rw [hph] at hphase
    generalize ho : (s.client c).outstanding = o at hphase
    cases hphase with
    | working =>
        cases hcons with
        | report hph' _ => simp at hph'
        | working hu hd =>
            refine ⟨_, .execute ⟨result, hfit⟩ hp, ?_⟩
            refine hr.update ⟨?_, hcl.fresh, hcl.from_⟩ hch rfl rfl rfl
            rw [Client.execute, ho]
            exact .finished
  · cases hs

theorem refines_sendResult (hr : Refines job s t) (hi : Pool.Inv job.items t)
    (hs : s.step job (.sendResult c) = some s') :
    ∃ t', Pool.Step job.items t (.go c) t' ∧ Refines job s' t' := by
  rw [System.step] at hs
  split at hs
  · rename_i k r hph
    obtain rfl := Option.some.inj hs
    have hcl := hr.client c
    obtain ⟨ph, ch, hp, hcons, hphase, hch⟩ := hr.party hi c
    rw [hph] at hphase
    generalize ho : (s.client c).outstanding = o at hphase
    cases hphase with
    | finished =>
        cases hcons with
        | report hph' _ => simp at hph'
        | finished hu =>
            refine ⟨_, .sendResult hp, ?_⟩
            rw [Client.sendResult_ok ho]
            refine hr.update ⟨.reporting, ⟨rfl, rfl⟩, hcl.from_⟩ ?_ rfl rfl rfl
            simp [encodeChan, encodeRequest, hcl.from_]
  · cases hs

theorem refines_recvAck (hr : Refines job s t) (hi : Pool.Inv job.items t)
    (hs : s.step job (.recvAck c) = some s') :
    ∃ t', Pool.Step job.items t (.go c) t' ∧ Refines job s' t' := by
  rw [System.step] at hs
  split at hs
  · rename_i k b hph hb
    obtain rfl := Option.some.inj hs
    have hcl := hr.client c
    obtain ⟨ph, ch, hp, hcons, hphase, hch⟩ := hr.party hi c
    rw [hph] at hphase
    rw [hb] at hch
    generalize (s.client c).outstanding = o at hphase
    cases hphase with
    | reporting =>
        cases hcons with
        | report _ _ => cases hch
        | reportLost => cases hch
        | ackSent hn hd =>
            obtain rfl := Channel.reply.inj hch
            refine ⟨_, .recvAck hp, ?_⟩
            rw [Client.onAck_some fits_ack]
            exact hr.update ⟨.ready, hcl.fresh, hcl.from_⟩ rfl rfl rfl rfl
        | ackStopSent ht hd =>
            obtain rfl := Channel.reply.inj hch
            refine ⟨_, .recvAckStop hp, ?_⟩
            rw [Client.onAck_some fits_ackStop]
            exact hr.update ⟨.stopped, hcl.fresh, hcl.from_⟩ rfl rfl rfl rfl
  · cases hs

theorem refines_ackTimeout (hr : Refines job s t) (hi : Pool.Inv job.items t)
    (hs : s.step job (.ackTimeout c) = some s') :
    ∃ t', Pool.Step job.items t (.giveUp c) t' ∧ Refines job s' t' := by
  rw [System.step] at hs
  split at hs
  · rename_i k hph
    obtain rfl := Option.some.inj hs
    have hcl := hr.client c
    obtain ⟨ph, ch, hp, -, hphase, hch⟩ := hr.party hi c
    rw [hph] at hphase
    generalize ho : (s.client c).outstanding = o at hphase
    cases hphase with
    | reporting =>
        refine ⟨_, .giveUp hp, hr.update ⟨?_, hcl.fresh, hcl.from_⟩ hch rfl rfl rfl⟩
        simp only [Client.onAck, ho]
        exact .stuck
  · cases hs

theorem refines_die (hr : Refines job s t) (hs : s.step job (.die c) = some s') :
    ∃ t', Pool.Step job.items t (.die c) t' ∧ Refines job s' t' := by
  rw [System.step] at hs
  split_ifs at hs with hph
  obtain rfl := Option.some.inj hs
  have hcl := hr.client c
  exact ⟨_, .die rfl, hr.update ⟨.dead, hcl.fresh, hcl.from_⟩ (hr.chan c) rfl rfl rfl⟩

theorem refines_lose (hr : Refines job s t) (hs : s.step job (.lose c) = some s') :
    ∃ t', Pool.Step job.items t (.lose c) t' ∧ Refines job s' t' := by
  rw [System.step] at hs
  obtain rfl := Option.some.inj hs
  exact ⟨_, .lose rfl, hr.update (hr.client c) rfl rfl rfl rfl⟩

theorem refines_finish (hr : Refines job s t) (hs : s.step job .finish = some s') :
    Refines job s' t := by
  rw [System.step] at hs
  split_ifs at hs with hst
  obtain rfl := Option.some.inj hs
  have hlog := hr.log
  rw [hst] at hlog
  refine
    { hr with
      looping := fun h => ?_
      left := fun _ => Or.inr rfl
      log := ?_ }
  · rw [hr.looping h] at hst
    cases hst
  · simp [Server.finish, Server.logs, hlog, statusLog]

/-! ### Steps of the server -/

omit [DecidableEq C] in
theorem hasNext_eq_decide {p : WorkParser} {n : ℕ} (hp : p.items = job.items.drop n) :
    p.hasNext = decide (n < job.items.length) := by
  have hiff : p.hasNext = false ↔ job.items.length ≤ n := by
    rw [← WorkParser.items_eq_nil_iff, hp, List.drop_eq_nil_iff]
  cases h : p.hasNext with
  | false => exact (decide_eq_false (Nat.not_lt.2 (hiff.1 h))).symm
  | true =>
      refine (decide_eq_true (Nat.lt_of_not_le fun hle => ?_)).symm
      rw [hiff.2 hle] at h
      cases h

omit [DecidableEq C] in
theorem Refines.lt_of_hasNext (hr : Refines job s t) (hn : s.server.parser.hasNext = true) :
    t.given < job.items.length :=
  of_decide_eq_true ((hasNext_eq_decide hr.items).symm.trans hn)

omit [DecidableEq C] in
theorem Refines.le_of_hasNext (hr : Refines job s t) (hn : s.server.parser.hasNext = false) :
    job.items.length ≤ t.given :=
  Nat.le_of_not_lt (of_decide_eq_false ((hasNext_eq_decide hr.items).symm.trans hn))

omit [DecidableEq C] in
/-- The item read ahead is the next one of the workfile. -/
theorem Refines.next (hr : Refines job s t) (hn : s.server.parser.hasNext = true) :
    job.items[t.given]? = some s.server.parser.nextItem ∧
      s.server.parser.next.2.items = job.items.drop (t.given + 1) := by
  have hlt := hr.lt_of_hasNext hn
  have hitems := (WorkParser.items_of_hasNext hn).symm.trans hr.items
  rw [List.drop_eq_getElem_cons hlt] at hitems
  obtain ⟨h₁, h₂⟩ := List.cons.inj hitems
  exact ⟨h₁ ▸ List.getElem?_eq_getElem hlt, h₂⟩

/-- **The end of an iteration**: the server that has answered a request stands
for the pool that has. -/
theorem Refines.served (hr : Refines job s t) {server : Server Uuid}
    {ph : Pool.Phase Bytes FitResult} {q : Pool.Request FitResult} {p : Pool.Reply Bytes} {given : ℕ} {toDo : Finset ℕ}
    (hc : t.party c = ⟨ph, .request q⟩) (hgiven : server.parser.nrItems = given)
    (hitems : server.parser.items = job.items.drop given) (htoDo : server.toDo = toDo)
    (hstatus : server.status = .looping) (hfresh : server.msgBuilder.Fresh)
    (hfrom : server.msgBuilder.from_ = job.serverId)
    (hout : server.out = s.server.out ++
      (results [Event.received c (encodeRequest job c q)]).flatMap fun r => r.stdout ++ [10])
    (herr : server.err = s.server.err ++
      (results [Event.received c (encodeRequest job c q)]).flatMap fun r => r.stderr ++ [10])
    (hlog : server.log = s.server.log ++ (Server.receivedLog job.toSetup (encodeRequest job c q) ++
      Server.sentLog job.toSetup (encodeReply job c p))) (hst : s.server.status = .looping) :
    Refines job
      (s.served job c (some (encodeRequest job c q), some (encodeReply job c p), server.checkDone))
      ((t.put c ⟨ph, .reply p⟩ [.received c q, .sent c p]).leaveOrServe job.items given toDo) := by
  have hdone : (server.parser.hasNext = false ∧ server.toDo = ∅) ↔
      decide (given < job.items.length ∨ toDo.Nonempty) = false := by
    rw [hasNext_eq_decide hitems, htoDo, decide_eq_false_iff_not, decide_eq_false_iff_not, not_or,
      Finset.not_nonempty_iff_eq_empty]
  have hresults : results (s.served job c (some (encodeRequest job c q),
      some (encodeReply job c p), server.checkDone)).trace =
        results s.trace ++ results [Event.received c (encodeRequest job c q)] := by
    exact results_append _ _
  refine
    { given := by simpa [System.served, Pool.State.leaveOrServe] using hgiven
      items := by simpa [System.served, Pool.State.leaveOrServe] using hitems
      toDo := by simpa [System.served, Pool.State.leaveOrServe] using htoDo
      looping := fun h => ?_
      left := fun h => ?_
      fresh := by simpa [System.served] using hfresh
      from_ := by simpa [System.served] using hfrom
      client := fun d => ?_
      chan := fun d => ?_
      trace := by simp [System.served, hr.trace, encodeEvent]
      out := ?_
      err := ?_
      log := ?_ }
  · have hserving : decide (given < job.items.length ∨ toDo.Nonempty) = true := h
    have hnot : ¬(server.parser.hasNext = false ∧ server.toDo = ∅) := fun hd => by
      rw [hdone.1 hd] at hserving
      cases hserving
    simpa [System.served, Server.checkDone, hnot] using hstatus
  · refine Or.inl ?_
    simp [System.served, Server.checkDone, hdone.2 h]
  · by_cases hd : d = c
    · subst hd
      have hcl := hr.client d
      rw [hc] at hcl
      simpa [System.served, Pool.State.leaveOrServe, Pool.State.put] using hcl
    · simpa [System.served, Pool.State.leaveOrServe, Pool.State.put, hd] using hr.client d
  · by_cases hd : d = c
    · subst hd
      simp [System.served, Pool.State.leaveOrServe, Pool.State.put, encodeChan]
    · simpa [System.served, Pool.State.leaveOrServe, Pool.State.put, hd] using hr.chan d
  · rw [hresults, List.flatMap_append, ← hr.out]
    simpa [System.served] using hout
  · rw [hresults, List.flatMap_append, ← hr.err]
    simpa [System.served] using herr
  · have hold := hr.log
    rw [hst] at hold
    by_cases hd : server.parser.hasNext = false ∧ server.toDo = ∅
    · simp [System.served, Server.checkDone, hd, Server.logs, hlog, hold, statusLog, eventLog]
    · simp [System.served, Server.checkDone, hd, hlog, hold, hstatus, statusLog, eventLog]

/-- An answer to a query. -/
theorem refines_serve_query (hr : Refines job s t) (hserving : t.serving = true)
    (hst : s.server.status = .looping) {ph : Pool.Phase Bytes FitResult}
    (hp : t.party c = ⟨ph, .request .query⟩) :
    ∃ t', Pool.Step job.items t (.serve c) t' ∧ Refines job (s.served job c
      (s.server.iterate job.toSetup (packMessage job.io (encodeRequest job c .query)))) t' := by
  have hres : results [Event.received c (encodeRequest job c .query)] = [] := by
    simp [results, encodeRequest]
  cases hn : s.server.parser.hasNext with
  | true =>
      obtain ⟨ha, hnext⟩ := hr.next hn
      refine ⟨_, .serve hserving hp (.work ha), ?_⟩
      rw [Server.iterate_of_handle fits_query (Server.handle_query_work rfl hn), hr.from_, hr.given]
      refine hr.served (p := .work (t.given + 1) s.server.parser.nextItem) hp ?_ hnext ?_ hst
        ⟨rfl, rfl⟩ rfl ?_ ?_ rfl hst
      · exact (WorkParser.nrItems_next hn).trans (congrArg (· + 1) hr.given)
      · rw [hr.toDo]
      · simp [hres]
      · simp [hres]
  | false =>
      have hle := hr.le_of_hasNext hn
      refine ⟨_, .serve hserving hp (.stop hle), ?_⟩
      rw [Server.iterate_of_handle fits_query (Server.handle_query_stop hr.fresh rfl hn), hr.from_]
      refine hr.served (p := .stop) hp hr.given hr.items hr.toDo hst ⟨rfl, rfl⟩ rfl ?_ ?_ rfl hst
      · simp [hres]
      · simp [hres]

/-- An answer to a result. -/
theorem refines_serve_result (hr : Refines job s t) (hi : Pool.Inv job.items t)
    (hserving : t.serving = true) (hst : s.server.status = .looping)
    {ph : Pool.Phase Bytes FitResult} {k : ℕ} {r : FitResult}
    (hp : t.party c = ⟨ph, .request (.result k r)⟩) :
    ∃ t', Pool.Step job.items t (.serve c) t' ∧ Refines job (s.served job c
      (s.server.iterate job.toSetup (packMessage job.io (encodeRequest job c (.result k r))))) t' := by
  have hfits : (encodeRequest job c (.result k r)).Fits := fits_request hi (hi.unreported hp).given
  have hsubject : (encodeRequest job c (.result k r)).subject = .result := rfl
  have hcontent : Result.ofString (encodeRequest job c (.result k r)).content = .ok r.1 :=
    Result.ofString_toString (Result.fits_of_toString r.2)
  have hres : results [Event.received c (encodeRequest job c (.result k r))] = [r.1] := by
    simp [results, hsubject, hcontent, Except.toOption]
  have htoDo : s.server.toDo.erase k = t.toDo.erase k := by rw [hr.toDo]
  cases hn : s.server.parser.hasNext with
  | true =>
      have hlt := hr.lt_of_hasNext hn
      have hsub : Subject.ack = if s.server.parser.hasNext then .ack else .ackStop :=
        (if_pos hn).symm
      refine ⟨_, .serve hserving hp (.ack hlt), ?_⟩
      rw [Server.iterate_of_handle hfits (Server.handle_result hr.fresh hsubject hcontent hsub),
        hr.from_]
      refine hr.served (p := .ack) hp hr.given hr.items htoDo hst ⟨rfl, rfl⟩ rfl ?_ ?_ rfl hst
      · simp [hres]
      · simp [hres]
  | false =>
      have hle := hr.le_of_hasNext hn
      have hsub : Subject.ackStop = if s.server.parser.hasNext then .ack else .ackStop :=
        (if_neg (by simp [hn])).symm
      refine ⟨_, .serve hserving hp (.ackStop hle), ?_⟩
      rw [Server.iterate_of_handle hfits (Server.handle_result hr.fresh hsubject hcontent hsub),
        hr.from_]
      refine hr.served (p := .ackStop) hp hr.given hr.items htoDo hst ⟨rfl, rfl⟩ rfl ?_ ?_ rfl hst
      · simp [hres]
      · simp [hres]

theorem refines_serve (hr : Refines job s t) (hi : Pool.Inv job.items t)
    (hs : s.step job (.serve c) = some s') :
    ∃ t', Pool.Step job.items t (.serve c) t' ∧ Refines job s' t' := by
  rw [System.step] at hs
  split at hs
  · rename_i b hst hb
    obtain rfl := Option.some.inj hs
    have hserving := hr.serving hst
    have hch := hr.chan c
    rw [hb] at hch
    generalize hp : t.party c = p at hch
    obtain ⟨ph, ch⟩ := p
    cases ch with
    | empty => cases hch
    | reply p => cases hch
    | request q =>
        obtain rfl := Channel.request.inj hch
        cases q with
        | query => exact refines_serve_query hr hserving hst hp
        | result k r => exact refines_serve_result hr hi hserving hst hp
  · cases hs

/-- **Every step of the job is a step of the pool, or none.** -/
theorem refines_step (hr : Refines job s t) (hi : Pool.Inv job.items t) {a : Action C}
    (hs : s.step job a = some s') :
    (labelOf s a = none ∧ Refines job s' t) ∨
      ∃ l t', labelOf s a = some l ∧ Pool.Step job.items t l t' ∧ Refines job s' t' := by
  have hlabel : ∀ {l}, labelOf s a = some l →
      (∃ t', Pool.Step job.items t l t' ∧ Refines job s' t') →
        ∃ l t', labelOf s a = some l ∧ Pool.Step job.items t l t' ∧ Refines job s' t' :=
    fun {l} hl ⟨t', hst, hr'⟩ => ⟨l, t', hl, hst, hr'⟩
  cases a with
  | sendQuery c => exact Or.inr (hlabel rfl (refines_sendQuery hr hi hs))
  | serve c => exact Or.inr (hlabel rfl (refines_serve hr hi hs))
  | recvReply c => exact Or.inr (hlabel rfl (refines_recvReply hr hi hs))
  | queryTimeout c => exact Or.inr (hlabel rfl (refines_queryTimeout hr hs))
  | execute c r => exact Or.inr (hlabel rfl (refines_execute hr hi hs))
  | sendResult c => exact Or.inr (hlabel rfl (refines_sendResult hr hi hs))
  | recvAck c => exact Or.inr (hlabel rfl (refines_recvAck hr hi hs))
  | ackTimeout c => exact Or.inr (hlabel rfl (refines_ackTimeout hr hi hs))
  | die c => exact Or.inr (hlabel rfl (refines_die hr hs))
  | lose c => exact Or.inr (hlabel rfl (refines_lose hr hs))
  | finish => exact Or.inl ⟨rfl, refines_finish hr hs⟩

/-- **Every run of the job is a run of the pool.**  A condition `P` on the steps
of the one gives a condition `Q` on those of the other. -/
theorem refines_reachable {P : System C Uuid → Action C → Prop}
    {Q : Pool.State C Bytes FitResult → Pool.Label C → Prop} (h : System.Reachable job P s)
    (hPQ : ∀ s s' t a l, Refines job s t → Reaches (Pool.Step job.items) Q Pool.init t → P s a →
      s.step job a = some s' → labelOf s a = some l → Q t l) :
    ∃ t, Reaches (Pool.Step job.items) Q Pool.init t ∧ Refines job s t := by
  refine h.simulates (refines_start job) fun s a s' t hr hrun hP hs => ?_
  rcases refines_step hr (Pool.inv_reaches hrun) hs with ⟨-, hr'⟩ | ⟨l, t', hl, hst, hr'⟩
  · exact ⟨t, Reaches.refl, hr'⟩
  · exact ⟨t', Reaches.refl.tail (hPQ s s' t a l hr hrun hP hs hl) hst, hr'⟩

end Protocol
end WorkerNg
