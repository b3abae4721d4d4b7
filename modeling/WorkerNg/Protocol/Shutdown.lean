/-
# How a job ends

Two questions about the end of a job: whether it can hang, and what the clients
are doing when the server leaves.

A job hangs when the server waits in its loop, everybody else is dead or was told
to stop, and no message is on its way (`Hang`).  It can: a client that dies with
an item takes it along, the item stays open for ever, and the other clients are
told to stop nevertheless, since the server looks at the parser only
(`exists_hang`).  That is the only way: a run in which no item is dropped
(`Careful`) never hangs (`not_hang_of_careful`).

When the server leaves a run without crashes, all items are done, but a client
may have a query in its channel which nobody receives any more
(`exists_unanswered_query`).  `atRest_of_left` lists where the clients can be.
-/

import WorkerNg.Protocol.Dispatch

namespace WorkerNg
namespace Protocol

open Work Wire

variable {C Uuid : Type} {job : Job C Uuid} {s : System C Uuid} {c : C}
  {t : Pool.State C Bytes FitResult}

/-! ### Hanging -/

/-- A client that has an item in hand. -/
def ClientPhase.busy : ClientPhase → Bool
  | .working _ _ => true
  | .finished _ _ => true
  | _ => false

/-- The subject of the message in the channel of a client. -/
def System.subjectInFlight (job : Job C Uuid) (s : System C Uuid) (c : C) : Option Subject :=
  match s.chan c with
  | .empty => none
  | .request b => (unpackMessage job.io b s.server.msgBuilder).toOption.map (·.subject)
  | .reply b => (unpackMessage job.io b (s.client c).msgBuilder).toOption.map (·.subject)

/-- **The condition that a step drops no item**: no client dies, be it from a
time-out, while it has an item in hand or one is on its way to it, no message
with an item or a result is lost, and no query of a client that is already dead
is answered with an item. -/
def Careful (job : Job C Uuid) (s : System C Uuid) : Action C → Prop
  | .die c => (s.client c).phase.busy = false ∧ s.subjectInFlight job c ≠ some .work
  | .queryTimeout c => s.subjectInFlight job c ≠ some .work
  | .lose c => s.subjectInFlight job c ≠ some .work ∧ s.subjectInFlight job c ≠ some .result
  | .serve c => (s.client c).phase = .dead → s.subjectInFlight job c = some .query →
      s.server.parser.hasNext = false
  | _ => True

instance (job : Job C Uuid) (s : System C Uuid) (a : Action C) : Decidable (Careful job s a) :=
  match a with
  | .die _ => inferInstanceAs (Decidable (_ ∧ _))
  | .queryTimeout _ => inferInstanceAs (Decidable (_ ≠ _))
  | .lose _ => inferInstanceAs (Decidable (_ ∧ _))
  | .serve _ => inferInstanceAs (Decidable (_ → _ → _))
  | .sendQuery _ => inferInstanceAs (Decidable True)
  | .recvReply _ => inferInstanceAs (Decidable True)
  | .execute _ _ => inferInstanceAs (Decidable True)
  | .sendResult _ => inferInstanceAs (Decidable True)
  | .recvAck _ => inferInstanceAs (Decidable True)
  | .ackTimeout _ => inferInstanceAs (Decidable True)
  | .finish => inferInstanceAs (Decidable True)

/-- The server is in its loop, every client is dead or was told to stop, at least
one of them lives, and no message is on its way to anybody who lives. -/
structure Hang (s : System C Uuid) : Prop where
  looping : s.server.status = .looping
  ended : ∀ c, (s.client c).phase = .dead ∨ ToldToStop s.trace c
  alive : ∃ c, (s.client c).phase ≠ .dead
  quiet : ∀ c, s.chan c = .empty ∨ (∃ b, s.chan c = .reply b) ∧ (s.client c).phase = .dead

theorem subjectInFlight_query (hr : Refines job s t)
    (hc : (t.party c).chan = .request .query) : s.subjectInFlight job c = some .query := by
  have hch := hr.chan c
  rw [hc] at hch
  simp only [System.subjectInFlight, hch, encodeChan, unpack_pack job.io _ fits_query]
  rfl

theorem subjectInFlight_result (hr : Refines job s t) (hi : Pool.Inv job.items t) {k : ℕ}
    {r : FitResult} (hc : (t.party c).chan = .request (.result k r)) :
    s.subjectInFlight job c = some .result := by
  have hch := hr.chan c
  rw [hc] at hch
  have hp : t.party c = ⟨(t.party c).phase, .request (.result k r)⟩ := by rw [← hc]
  have hfits : (encodeRequest job c (.result k r)).Fits := fits_request hi (hi.unreported hp).given
  simp only [System.subjectInFlight, hch, encodeChan, unpack_pack job.io _ hfits]
  rfl

theorem subjectInFlight_work (hr : Refines job s t) (hi : Pool.Inv job.items t) {k : ℕ} {a : Bytes}
    (hc : (t.party c).chan = .reply (.work k a)) : s.subjectInFlight job c = some .work := by
  have hch := hr.chan c
  rw [hc] at hch
  have hp : t.party c = ⟨(t.party c).phase, .reply (.work k a)⟩ := by rw [← hc]
  have hfits := fits_work (c := c) hi (hi.consistent hp).sent
  simp only [System.subjectInFlight, hch, encodeChan, unpack_pack job.io _ hfits]
  rfl

theorem not_holdsWork (hr : Refines job s t) (hi : Pool.Inv job.items t)
    (h : s.subjectInFlight job c ≠ some .work) : ¬(t.party c).chan.HoldsWork := by
  intro hw
  cases hc : (t.party c).chan with
  | empty => rw [hc] at hw; exact hw
  | request q => rw [hc] at hw; exact hw
  | reply p =>
      cases p with
      | work k a => exact h (subjectInFlight_work hr hi hc)
      | stop => rw [hc] at hw; exact hw
      | ack => rw [hc] at hw; exact hw
      | ackStop => rw [hc] at hw; exact hw

theorem not_holdsResult (hr : Refines job s t) (hi : Pool.Inv job.items t)
    (h : s.subjectInFlight job c ≠ some .result) : ¬(t.party c).chan.HoldsResult := by
  intro hw
  cases hc : (t.party c).chan with
  | empty => rw [hc] at hw; exact hw
  | reply p => rw [hc] at hw; exact hw
  | request q =>
      cases q with
      | query => rw [hc] at hw; exact hw
      | result k r => exact h (subjectInFlight_result hr hi hc)

theorem not_busy (hr : Refines job s t) (h : (s.client c).phase.busy = false) :
    ¬(t.party c).phase.Busy := by
  have hphase := (hr.client c).phase
  generalize (s.client c).outstanding = o at hphase
  generalize (s.client c).phase = cp at hphase h
  generalize (t.party c).phase = ph at hphase
  cases hphase with
  | working => cases h
  | finished => cases h
  | _ => exact id

theorem dead_iff (hr : Refines job s t) :
    (s.client c).phase = .dead ↔ (t.party c).phase = .dead := by
  have hphase := (hr.client c).phase
  generalize (s.client c).outstanding = o at hphase
  generalize (s.client c).phase = cp at hphase
  generalize (t.party c).phase = ph at hphase
  cases hphase <;> simp

variable [DecidableEq C]

/-- A client that begins a query while a request is outstanding is stuck. -/
theorem stuck_of_sendQuery {s' : System C Uuid} (hr : Refines job s t)
    (hs : s.step job (.sendQuery c) = some s') (ho : (s.client c).outstanding = true) :
    (t.party c).phase = .stuck := by
  rw [System.step] at hs
  split_ifs at hs with hready
  have hphase := (hr.client c).phase
  rw [hready, ho] at hphase
  generalize (t.party c).phase = ph at hphase ⊢
  cases hphase with
  | stuck => rfl

/-- A step that drops no item drops none in the pool. -/
theorem careful_label {s' : System C Uuid} {a : Action C} {l : Pool.Label C} (hr : Refines job s t)
    (hi : Pool.Inv job.items t) (ha : Careful job s a) (hs : s.step job a = some s')
    (hl : labelOf s a = some l) : Pool.Careful job.items t l := by
  cases a with
  | sendQuery c =>
      obtain rfl := Option.some.inj hl
      split_ifs with ho
      · -- the query of a stuck client throws: it has no item
        have hstuck := stuck_of_sendQuery hr hs ho
        obtain ⟨ph, ch, hp, hcons, -, -⟩ := hr.party hi c
        show ¬(t.party c).phase.Busy ∧ ¬(t.party c).chan.HoldsWork
        rw [hp] at hstuck ⊢
        subst hstuck
        refine ⟨id, ?_⟩
        cases hcons with
        | report _ _ => exact id
        | stuck hch => rcases hch with rfl | rfl | rfl <;> exact id
      · trivial
  | serve c =>
      obtain rfl := Option.some.inj hl
      intro hp
      have hdead : (s.client c).phase = .dead := (dead_iff hr).2 (by rw [hp])
      have hquery : s.subjectInFlight job c = some .query := subjectInFlight_query hr (by rw [hp])
      exact hr.le_of_hasNext (ha hdead hquery)
  | queryTimeout c =>
      obtain rfl := Option.some.inj hl
      rw [System.step] at hs
      split_ifs at hs with hq
      exact ⟨not_busy hr (by rw [hq]; rfl), not_holdsWork hr hi ha⟩
  | die c =>
      obtain rfl := Option.some.inj hl
      exact ⟨not_busy hr ha.1, not_holdsWork hr hi ha.2⟩
  | lose c =>
      obtain rfl := Option.some.inj hl
      exact ⟨not_holdsWork hr hi ha.1, not_holdsResult hr hi ha.2⟩
  | recvReply c => obtain rfl := Option.some.inj hl; trivial
  | execute c r => obtain rfl := Option.some.inj hl; trivial
  | sendResult c => obtain rfl := Option.some.inj hl; trivial
  | recvAck c => obtain rfl := Option.some.inj hl; trivial
  | ackTimeout c => obtain rfl := Option.some.inj hl; trivial
  | finish => cases hl

omit [DecidableEq C] in
theorem hang_of_refines (hr : Refines job s t) (h : Hang s) : Pool.Hang t where
  serving := hr.serving h.looping
  ended c := by
    have hended := h.ended c
    rwa [hr.trace, toldToStop_map, dead_iff hr] at hended
  alive := by
    obtain ⟨c, hc⟩ := h.alive
    exact ⟨c, fun hd => hc ((dead_iff hr).2 hd)⟩
  quiet c := by
    have hch := hr.chan c
    rintro (⟨q, hq⟩ | ⟨⟨p, hp⟩, hlive⟩)
    · rw [hq] at hch
      rcases h.quiet c with he | ⟨⟨b, hb⟩, -⟩
      · rw [he] at hch; cases hch
      · rw [hb] at hch; cases hch
    · rw [hp] at hch
      rcases h.quiet c with he | ⟨-, hd⟩
      · rw [he] at hch; cases hch
      · exact hlive ((dead_iff hr).1 hd)

/-- **A job in which no item is dropped does not hang**: in every run whose steps
all meet the condition, no state is a hanging one. -/
theorem not_hang_of_careful (h : System.Reachable job (Careful job) s) : ¬Hang s := by
  obtain ⟨t, hrun, hr⟩ := refines_reachable (Q := Pool.Careful job.items) h
    fun _ _ _ _ _ hr hrun ha hs hl => careful_label hr (Pool.inv_reaches hrun) ha hs hl
  exact fun hh => Pool.not_hang (Pool.inv_reaches hrun) (Pool.kept_reaches hrun)
    (hang_of_refines hr hh)

/-- One client gets the item, the other is told to stop while it works. -/
theorem exec_careful :
    (exec (System.step oneItemJob) (fun s a => decide (Careful oneItemJob s a))
      (System.start oneItemJob)
      [.sendQuery false, .serve false, .recvReply false, .sendQuery true, .serve true,
        .recvReply true]).map
      (fun s => (s.server.status, (s.client true).phase)) = some (.looping, .stopped) := by
  decide +kernel

theorem not_hang_of_careful_stopped :
    ∃ s : System Bool Uuid16, s.server.status = .looping ∧ (s.client true).phase = .stopped ∧
      ¬Hang s := by
  obtain ⟨s, hrun, hs⟩ := exists_of_exec exec_careful
  exact ⟨s, congrArg Prod.fst hs, congrArg Prod.snd hs,
    not_hang_of_careful (hrun.mono fun _ _ h => of_decide_eq_true h)⟩

/-- One client gets the only item and dies with it, the other asks and is told to
stop. -/
theorem exec_hang :
    (exec (System.step oneItemJob) (fun _ _ => true) (System.start oneItemJob)
      [.sendQuery false, .serve false, .recvReply false, .die false, .sendQuery true, .serve true,
        .recvReply true]).map
      (fun s => (s.server.status, (s.client false).phase, (s.client true).phase, s.chan false,
        s.chan true, decide (Event.sent true ⟨oneItemJob.serverId, oneItemJob.uuid true, .stop, 0, []⟩
          ∈ s.trace))) =
      some (.looping, .dead, .stopped, .empty, .empty, true) := by
  decide +kernel

/-- **A client that dies with an item hangs the job.** -/
theorem exists_hang :
    ∃ s : System Bool Uuid16, System.Reachable oneItemJob System.anyStep s ∧ Hang s := by
  obtain ⟨s, hrun, hs⟩ := exists_of_exec exec_hang
  simp only [Prod.mk.injEq, decide_eq_true_eq] at hs
  obtain ⟨hlooping, hdead, hstopped, hchan, hchan', hsent⟩ := hs
  refine ⟨s, hrun.mono fun _ _ _ => trivial, hlooping, fun c => ?_, ⟨true, ?_⟩, fun c => ?_⟩
  · cases c with
    | false => exact Or.inl hdead
    | true => exact Or.inr ⟨_, Or.inl rfl, hsent⟩
  · rw [hstopped]
    simp
  · cases c with
    | false => exact Or.inl hchan
    | true => exact Or.inl hchan'

/-! ### Leaving -/

/-- The condition that nobody crashes: no client dies or runs into a time-out,
and no message is lost. -/
def CrashFree (_ : System C Uuid) : Action C → Prop
  | .die _ => False
  | .queryTimeout _ => False
  | .ackTimeout _ => False
  | .lose _ => False
  | _ => True

instance (s : System C Uuid) (a : Action C) : Decidable (CrashFree s a) :=
  match a with
  | .die _ => inferInstanceAs (Decidable False)
  | .queryTimeout _ => inferInstanceAs (Decidable False)
  | .ackTimeout _ => inferInstanceAs (Decidable False)
  | .lose _ => inferInstanceAs (Decidable False)
  | .sendQuery _ => inferInstanceAs (Decidable True)
  | .serve _ => inferInstanceAs (Decidable True)
  | .recvReply _ => inferInstanceAs (Decidable True)
  | .execute _ _ => inferInstanceAs (Decidable True)
  | .sendResult _ => inferInstanceAs (Decidable True)
  | .recvAck _ => inferInstanceAs (Decidable True)
  | .finish => inferInstanceAs (Decidable True)

/-- Where client `c` can be, and what its channel holds, when the server has left:
it has stopped, it is about to ask for work, it has asked and nobody has received
the query, or an answer without work is on its way to it. -/
inductive AtRest (job : Job C Uuid) (c : C) : ClientPhase → Channel → Prop where
  | stopped : AtRest job c .stopped .empty
  | ready : AtRest job c .ready .empty
  | unanswered : AtRest job c .querying
      (.request (packMessage job.io ⟨job.uuid c, job.serverId, .query, 0, []⟩))
  | stopSent : AtRest job c .querying
      (.reply (packMessage job.io ⟨job.serverId, job.uuid c, .stop, 0, []⟩))
  | ackSent {k : ℕ} : AtRest job c (.reporting k)
      (.reply (packMessage job.io ⟨job.serverId, job.uuid c, .ack, 0, []⟩))
  | ackStopSent {k : ℕ} : AtRest job c (.reporting k)
      (.reply (packMessage job.io ⟨job.serverId, job.uuid c, .ackStop, 0, []⟩))

/-- A step without a crash is one in the pool. -/
theorem crashFree_label {s' : System C Uuid} {a : Action C} {l : Pool.Label C}
    (hr : Refines job s t) (hp : ∀ c, Pool.Prompt (t.party c)) (ha : CrashFree s a)
    (hs : s.step job a = some s') (hl : labelOf s a = some l) : Pool.CrashFree t l := by
  cases a with
  | sendQuery c =>
      obtain rfl := Option.some.inj hl
      split_ifs with ho
      · -- a prompt client is not stuck
        exact absurd (stuck_of_sendQuery hr hs ho) (hp c).not_stuck
      · trivial
  | die c => exact ha.elim
  | queryTimeout c => exact ha.elim
  | ackTimeout c => exact ha.elim
  | lose c => exact ha.elim
  | serve c => obtain rfl := Option.some.inj hl; trivial
  | recvReply c => obtain rfl := Option.some.inj hl; trivial
  | execute c r => obtain rfl := Option.some.inj hl; trivial
  | sendResult c => obtain rfl := Option.some.inj hl; trivial
  | recvAck c => obtain rfl := Option.some.inj hl; trivial
  | finish => cases hl

/-- **When the server has left a run without crashes**, every client is at rest,
and the result of every item it ever received has been handled. -/
theorem atRest_of_left (h : System.Reachable job CrashFree s)
    (hs : s.server.status = .left ∨ s.server.status = .exited) (c : C) :
    AtRest job c (s.client c).phase (s.chan c) ∧
      ∀ msg, Event.delivered c msg ∈ s.trace → msg.subject = .work →
        msg.id ∈ resultIds s.trace := by
  obtain ⟨t, hrun, hr⟩ := refines_reachable (Q := Pool.CrashFree) h
    fun _ _ _ _ _ hr hrun ha hs hl => crashFree_label hr (Pool.prompt_reaches hrun) ha hs hl
  have hleft := hr.not_serving hs
  obtain ⟨hdone, hrest⟩ :=
    Pool.atRest_of_not_serving (Pool.inv_reaches hrun) (Pool.prompt_reaches hrun c) hleft
  constructor
  · have hphase := (hr.client c).phase
    have hch := hr.chan c
    rw [hch]
    generalize (s.client c).outstanding = o at hphase
    generalize (s.client c).phase = cp at hphase ⊢
    generalize t.party c = party at hphase hrest ⊢
    cases hrest <;> cases hphase
    · exact .ready
    · exact .unanswered
    · exact .stopSent
    · exact .ackSent
    · exact .ackStopSent
    · exact .stopped
  · intro msg hm hw
    rw [hr.trace] at hm ⊢
    exact mem_resultIds_of_done hdone hm hw

/-- The second client asks while the first one executes the only item; the result
is received first. -/
theorem exec_unanswered :
    (exec (System.step oneItemJob) (fun s a => decide (CrashFree s a)) (System.start oneItemJob)
      [.sendQuery false, .serve false, .recvReply false, .sendQuery true,
        .execute false ⟨0, utf8 "hello\n".toList, []⟩, .sendResult false, .serve false]).map
      (fun s => (s.server.status, s.chan true)) =
      some (.left, .request (packMessage oneItemJob.io
        ⟨oneItemJob.uuid true, oneItemJob.serverId, .query, 0, []⟩)) := by
  decide +kernel

theorem atRest_of_left_unanswered :
    ∃ s : System Bool Uuid16, s.server.status = .left ∧
      AtRest oneItemJob true (s.client true).phase (s.chan true) := by
  obtain ⟨s, hrun, hs⟩ := exists_of_exec exec_unanswered
  have hleft : s.server.status = .left := congrArg Prod.fst hs
  exact ⟨s, hleft,
    (atRest_of_left (hrun.mono fun _ _ h => of_decide_eq_true h) (Or.inl hleft) true).1⟩

/-- **The server can leave while a query is waiting for it**, also when nobody
crashes. -/
theorem exists_unanswered_query :
    ∃ s : System Bool Uuid16, System.Reachable oneItemJob CrashFree s ∧
      s.server.status = .left ∧ ∃ b, s.chan true = .request b := by
  obtain ⟨s, hrun, hs⟩ := exists_of_exec exec_unanswered
  exact ⟨s, hrun.mono fun _ _ h => of_decide_eq_true h, congrArg Prod.fst hs, _,
    congrArg Prod.snd hs⟩

end Protocol
end WorkerNg
