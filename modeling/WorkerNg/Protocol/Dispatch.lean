/-
# What the server hands out

Safety of the dispatching, in every run of a job: whatever the number of clients
and the order of their steps, and whoever dies and whatever message is lost.

`DispatchSafe` says that the items are handed out under the ids 1, 2, ... , each
once and with its own content, that an item is open as long as its result has
not been handled, that a result handled is that of executing the item, that its
texts are written once, and that nothing is left when the server leaves its loop
(`dispatchSafe_of_reachable`).  `stop_is_final` says that once a client was told
to stop, nobody gets work any more, and that a client that stops has no item
left whose result the server has not handled.
-/

import WorkerNg.Protocol.Refinement

namespace WorkerNg
namespace Protocol

open Work Wire

variable {C Uuid : Type} {job : Job C Uuid} {t : List (Pool.Event C Bytes FitResult)} {c : C}

/-! ### The trace of the pool, written out -/

theorem workIds_map : workIds (t.map (encodeEvent job)) = t.filterMap Pool.Event.workId := by
  rw [workIds, List.filterMap_map]
  refine List.filterMap_congr fun e _ => ?_
  rcases e with ⟨c, q⟩ | ⟨c, p⟩ | ⟨c, p⟩ | ⟨c, k, a, r⟩
  · rfl
  · cases p <;> rfl
  · rfl
  · rfl

theorem resultIds_map : resultIds (t.map (encodeEvent job)) = t.filterMap Pool.Event.resultId := by
  rw [resultIds, List.filterMap_map]
  refine List.filterMap_congr fun e _ => ?_
  rcases e with ⟨c, q⟩ | ⟨c, p⟩ | ⟨c, p⟩ | ⟨c, k, a, r⟩
  · cases q <;> rfl
  · rfl
  · rfl
  · rfl

theorem executedIds_map :
    executedIds (t.map (encodeEvent job)) = t.filterMap Pool.Event.executedId := by
  rw [executedIds, List.filterMap_map]
  refine List.filterMap_congr fun e _ => ?_
  rcases e with ⟨c, q⟩ | ⟨c, p⟩ | ⟨c, p⟩ | ⟨c, k, a, r⟩ <;> rfl

theorem encodeEvent_eq_sent {e : Pool.Event C Bytes FitResult} {msg : Message Uuid}
    (h : encodeEvent job e = .sent c msg) : ∃ p, e = .sent c p ∧ encodeReply job c p = msg := by
  cases e <;> cases h
  exact ⟨_, rfl, rfl⟩

theorem mem_sent {msg : Message Uuid} :
    Event.sent c msg ∈ t.map (encodeEvent job) ↔
      ∃ p, Pool.Event.sent c p ∈ t ∧ encodeReply job c p = msg := by
  rw [List.mem_map]
  constructor
  · rintro ⟨e, he, hem⟩
    obtain ⟨p, rfl, hp⟩ := encodeEvent_eq_sent hem
    exact ⟨p, he, hp⟩
  · rintro ⟨p, hp, rfl⟩
    exact ⟨_, hp, rfl⟩

theorem mem_delivered {msg : Message Uuid} :
    Event.delivered c msg ∈ t.map (encodeEvent job) ↔
      ∃ p, Pool.Event.delivered c p ∈ t ∧ encodeReply job c p = msg := by
  rw [List.mem_map]
  constructor
  · rintro ⟨e, he, hem⟩
    cases e <;> cases hem
    exact ⟨_, he, rfl⟩
  · rintro ⟨p, hp, rfl⟩
    exact ⟨_, hp, rfl⟩

theorem mem_received {msg : Message Uuid} :
    Event.received c msg ∈ t.map (encodeEvent job) ↔
      ∃ q, Pool.Event.received c q ∈ t ∧ encodeRequest job c q = msg := by
  rw [List.mem_map]
  constructor
  · rintro ⟨e, he, hem⟩
    cases e <;> cases hem
    exact ⟨_, he, rfl⟩
  · rintro ⟨p, hp, rfl⟩
    exact ⟨_, hp, rfl⟩

theorem encodeReply_work {p : Pool.Reply Bytes} (h : (encodeReply job c p).subject = .work) :
    p = .work (encodeReply job c p).id (encodeReply job c p).content := by
  cases p with
  | work k a => rfl
  | stop => cases h
  | ack => cases h
  | ackStop => cases h

theorem stops_encodeReply {p : Pool.Reply Bytes} : Stops (encodeReply job c p) ↔ p.Stops := by
  cases p <;> simp [Stops, encodeReply, Pool.Reply.Stops]

theorem toldToStop_map : ToldToStop (t.map (encodeEvent job)) c ↔ Pool.Told t c := by
  constructor
  · rintro ⟨msg, hs, hm⟩
    obtain ⟨p, hp, rfl⟩ := mem_sent.1 hm
    exact ⟨p, stops_encodeReply.1 hs, hp⟩
  · rintro ⟨p, hs, hp⟩
    exact ⟨_, stops_encodeReply.2 hs, mem_sent.2 ⟨p, hp, rfl⟩⟩

theorem mem_resultIds {k : ℕ} : k ∈ resultIds (t.map (encodeEvent job)) ↔ Pool.Handled t k := by
  rw [resultIds_map]
  constructor
  · exact Pool.handled_of_mem
  · rintro ⟨c, r, hm⟩
    exact List.mem_filterMap.2 ⟨_, hm, rfl⟩

theorem mem_workIds {k : ℕ} : k ∈ workIds (t.map (encodeEvent job)) ↔ ∃ c, Pool.Given t c k := by
  rw [workIds_map]
  constructor
  · exact Pool.given_of_mem
  · rintro ⟨c, a, hm⟩
    exact List.mem_filterMap.2 ⟨_, hm, rfl⟩

/-- A client that is done with its items is done with what it received. -/
theorem mem_resultIds_of_done (h : Pool.Done t c) {msg : Message Uuid}
    (hm : Event.delivered c msg ∈ t.map (encodeEvent job)) (hw : msg.subject = .work) :
    msg.id ∈ resultIds (t.map (encodeEvent job)) := by
  obtain ⟨p, hp, rfl⟩ := mem_delivered.1 hm
  rw [encodeReply_work hw] at hp
  exact mem_resultIds.2 (h _ _ hp id)

/-! ### Dispatching -/

variable [DecidableEq C] {s : System C Uuid}

/-- **Safety of the dispatching** in a state: `w₁ ... wₙ` are the items of the
workfile. -/
structure DispatchSafe (job : Job C Uuid) (s : System C Uuid) : Prop where
  /-- The work messages sent carry the ids `1` to `nr_items()`, each once. -/
  workIds : workIds s.trace = List.range' 1 s.server.parser.nrItems
  /-- The work message with id `k` carries `wₖ`. -/
  content : ∀ c msg, Event.sent c msg ∈ s.trace → msg.subject = .work →
    job.items[msg.id - 1]? = some msg.content
  /-- An id is open when it was handed out and its result was not handled. -/
  toDo : ∀ k, k ∈ s.server.toDo ↔ k ∈ Protocol.workIds s.trace ∧ k ∉ resultIds s.trace
  /-- The work message with an id reaches one client only. -/
  one_client : ∀ c d msg msg', Event.delivered c msg ∈ s.trace → Event.delivered d msg' ∈ s.trace →
    msg.subject = .work → msg'.subject = .work → msg.id = msg'.id → c = d
  /-- An id is executed at most once. -/
  executed_once : (executedIds s.trace).Nodup
  /-- A result handled under id `k` is the one its client got from executing `wₖ`. -/
  result_of_execution : ∀ c msg, Event.received c msg ∈ s.trace → msg.subject = .result →
    ∃ w r, job.items[msg.id - 1]? = some w ∧ Event.executed c msg.id w r ∈ s.trace ∧
      Result.ofString msg.content = .ok r
  /-- An id has its result handled at most once. -/
  handled_once : (resultIds s.trace).Nodup
  /-- The output is what the results handled hold, in this order. -/
  out : s.server.out = (results s.trace).flatMap fun r => r.stdout ++ [10]
  /-- When the server has left its loop, every id was handed out and its result
  handled. -/
  left : s.server.status = .left ∨ s.server.status = .exited →
    ∀ k, 1 ≤ k → k ≤ job.items.length →
      k ∈ Protocol.workIds s.trace ∧ k ∈ resultIds s.trace

omit [DecidableEq C] in
theorem dispatchSafe_of_refines {t : Pool.State C Bytes FitResult} (hr : Refines job s t)
    (hi : Pool.Inv job.items t) : DispatchSafe job s where
  workIds := by rw [hr.trace, workIds_map, hi.ids, hr.given]
  content c msg hm hw := by
    rw [hr.trace] at hm
    obtain ⟨p, hp, rfl⟩ := mem_sent.1 hm
    rw [encodeReply_work hw] at hp
    exact hi.item c _ _ hp
  toDo k := by rw [hr.trace, mem_workIds, mem_resultIds, hr.toDo, hi.toDo]
  one_client c d msg msg' hc hd hw hw' hid := by
    rw [hr.trace] at hc hd
    obtain ⟨p, hp, rfl⟩ := mem_delivered.1 hc
    obtain ⟨p', hp', rfl⟩ := mem_delivered.1 hd
    rw [encodeReply_work hw] at hp
    rw [encodeReply_work hw', ← hid] at hp'
    exact hi.given_unique ⟨_, hi.sent_of_delivered c _ _ hp⟩ ⟨_, hi.sent_of_delivered d _ _ hp'⟩
  executed_once := by
    rw [hr.trace, executedIds_map]
    exact hi.executed_once
  result_of_execution c msg hm hres := by
    rw [hr.trace] at hm
    obtain ⟨q, hq, rfl⟩ := mem_received.1 hm
    cases q with
    | query => cases hres
    | result k r =>
        obtain ⟨a, ha⟩ := hi.executed_of_received c k r hq
        refine ⟨a, r.1, hi.item c k a (hi.sent_of_executed c k a r ha), ?_, ?_⟩
        · rw [hr.trace]
          exact List.mem_map.2 ⟨_, ha, rfl⟩
        · exact Result.ofString_toString (Result.fits_of_toString r.2)
  handled_once := by
    rw [hr.trace, resultIds_map]
    exact hi.handled_once
  out := hr.out
  left hs k h₁ hn := by
    have hleft := hr.not_serving hs
    obtain ⟨hg, -⟩ := hi.left hleft
    obtain ⟨c, hc⟩ := hi.exists_given ⟨h₁, hg ▸ hn⟩
    rw [hr.trace, mem_workIds, mem_resultIds]
    exact ⟨⟨c, hc⟩, hi.handled_of_given hleft hc⟩

/-- The pool a reachable state stands for. -/
theorem exists_refines {P : System C Uuid → Action C → Prop} (h : System.Reachable job P s) :
    ∃ t, Refines job s t ∧ Pool.Inv job.items t := by
  obtain ⟨t, hrun, hr⟩ := refines_reachable (Q := fun _ _ => True) h
    fun _ _ _ _ _ _ _ _ _ _ => trivial
  exact ⟨t, hr, Pool.inv_reaches hrun⟩

/-- **The dispatching is safe in every reachable state**, for every workfile, any
clients and every interleaving of their steps with those of the server. -/
theorem dispatchSafe_of_reachable (h : System.Reachable job System.anyStep s) :
    DispatchSafe job s := by
  obtain ⟨t, hr, hi⟩ := exists_refines h
  exact dispatchSafe_of_refines hr hi

/-- A client that gets the one item and is told to stop with its acknowledgement. -/
def completeRun : List (Action Bool) :=
  [.sendQuery false, .serve false, .recvReply false,
    .execute false ⟨0, utf8 "hello\n".toList, []⟩, .sendResult false, .serve false, .recvAck false]

theorem exec_completeRun :
    (exec (System.step oneItemJob) (fun _ _ => true) (System.start oneItemJob) completeRun).map
      (fun s => (s.server.status, (s.client false).phase, s.server.parser.hasNext)) =
        some (.left, .stopped, false) := by
  decide +kernel

theorem dispatchSafe_completeRun :
    ∃ s : System Bool Uuid16, s.server.status = .left ∧ DispatchSafe oneItemJob s := by
  obtain ⟨s, hrun, hs⟩ := exists_of_exec exec_completeRun
  exact ⟨s, congrArg Prod.fst hs, dispatchSafe_of_reachable (hrun.mono fun _ _ _ => trivial)⟩

/-! ### Stopping -/

/-- **A stop is final.**  In every reachable state: no work message was sent
after a stop or an ack_stop, to whatever clients, and every item that a client
that has left its loop ever received has had its result handled. -/
theorem stop_is_final (h : System.Reachable job System.anyStep s) :
    (s.trace.Pairwise fun e f => ∀ c msg d msg', e = .sent c msg → Stops msg →
      f = .sent d msg' → msg'.subject ≠ .work) ∧
      ∀ c, (s.client c).phase = .stopped → ∀ msg, Event.delivered c msg ∈ s.trace →
        msg.subject = .work → msg.id ∈ resultIds s.trace := by
  obtain ⟨t, hr, hi⟩ := exists_refines h
  constructor
  · rw [hr.trace, List.pairwise_map]
    refine hi.no_work_after_stop.imp ?_
    rintro e f hef c msg d msg' he hs hf hw
    obtain ⟨p, hp, rfl⟩ := encodeEvent_eq_sent he
    obtain ⟨p', rfl, rfl⟩ := encodeEvent_eq_sent hf
    have hnone := hef ⟨c, p, stops_encodeReply.1 hs, hp⟩
    rw [encodeReply_work hw] at hnone
    cases hnone
  · intro c hc msg hm hw
    rw [hr.trace] at hm ⊢
    obtain ⟨ph, ch, -, hcons, hphase, -⟩ := hr.party hi c
    rw [hc] at hphase
    generalize (s.client c).outstanding = o at hphase
    cases hphase with
    | stopped =>
        cases hcons with
        | report hph _ => simp at hph
        | stopped _ hd => exact mem_resultIds_of_done hd hm hw

theorem stop_is_final_completeRun :
    ∃ s : System Bool Uuid16, (s.client false).phase = .stopped ∧
      ∀ msg, Event.delivered false msg ∈ s.trace → msg.subject = .work →
        msg.id ∈ resultIds s.trace := by
  obtain ⟨s, hrun, hs⟩ := exists_of_exec exec_completeRun
  have hstopped : (s.client false).phase = .stopped := congrArg (fun p => p.2.1) hs
  exact ⟨s, hstopped, (stop_is_final (hrun.mono fun _ _ _ => trivial)).2 false hstopped⟩

end Protocol
end WorkerNg
