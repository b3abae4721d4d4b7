/-
# A job comes to its end

Every run of a job is finite, whatever its clients do and whatever gets lost: with
`n` items and `m` clients, at most `7 n + 4 m + 1` of its steps change anything
(`length_le_of_changes`).  The count is the pool's (`Pool.State.measure`), and one more for
the server's exit; a step of the job that the pool takes for an idle one changes
nothing (`eq_of_idle`).

A run without crashes stops at the right place only.  When no step is possible any
more, the server has exited, every item's result was handled once, and every
client has left its loop or waits for the answer to a query that came too late
(`complete_of_stuck`).

On the way no item is without an owner: in a run that drops no item, each open one
is held by exactly one client, so never more are open than there are clients
(`toDo_of_careful`).
-/

import WorkerNg.Lib.PoolProgress
import WorkerNg.Protocol.Dispatch
import WorkerNg.Protocol.Shutdown

namespace WorkerNg
namespace Protocol

open Work Wire

variable {C Uuid : Type} {job : Job C Uuid} {s s' : System C Uuid} {c : C}
  {t : Pool.State C Bytes FitResult} {k : ℕ}

/-! ### Every run is finite -/

/-- The step changes something. -/
def Changes [DecidableEq C] (job : Job C Uuid) (s : System C Uuid) (a : Action C) : Prop :=
  s.step job a ≠ some s

/-- One step is left to a server that has not exited. -/
def Status.rank : Status → ℕ
  | .exited => 0
  | _ => 1

variable [DecidableEq C]

/-- **A step that is idle in the pool changes nothing.** -/
theorem eq_of_idle (hr : Refines job s t) {a : Action C} {l : Pool.Label C}
    (hs : s.step job a = some s') (hl : labelOf s a = some l) (hidle : Pool.Idle t l) :
    s' = s := by
  cases a with
  | die c =>
      obtain rfl := Option.some.inj hl
      have hdead := (dead_iff hr).2 hidle
      rw [System.step, if_neg (by simp [hdead])] at hs
      obtain rfl := Option.some.inj hs
      simp [System.update, ← hdead]
  | lose c =>
      obtain rfl := Option.some.inj hl
      have hch := hr.chan c
      rw [show (t.party c).chan = .empty from hidle] at hch
      rw [System.step] at hs
      obtain rfl := Option.some.inj hs
      simp [System.update, ← show s.chan c = .empty from hch]
  | sendQuery c =>
      obtain rfl := Option.some.inj hl
      rw [System.step] at hs
      split_ifs at hs with hready
      split_ifs at hidle
      · rw [(dead_iff hr).2 hidle] at hready
        cases hready
      · exact hidle.elim
  | queryTimeout c =>
      obtain rfl := Option.some.inj hl
      rw [System.step] at hs
      split_ifs at hs with hquery
      rw [(dead_iff hr).2 hidle] at hquery
      cases hquery
  | finish => cases hl
  | serve c => obtain rfl := Option.some.inj hl; exact hidle.elim
  | recvReply c => obtain rfl := Option.some.inj hl; exact hidle.elim
  | execute c r => obtain rfl := Option.some.inj hl; exact hidle.elim
  | sendResult c => obtain rfl := Option.some.inj hl; exact hidle.elim
  | recvAck c => obtain rfl := Option.some.inj hl; exact hidle.elim
  | ackTimeout c => obtain rfl := Option.some.inj hl; exact hidle.elim

/-- Only an iteration of its loop and its end change the server. -/
theorem server_of_step {a : Action C} (hs : s.step job a = some s') (ha : a ≠ .finish)
    (hserve : ∀ c, a ≠ .serve c) : s'.server = s.server := by
  cases a with
  | finish => exact absurd rfl ha
  | serve c => exact absurd rfl (hserve c)
  | die c =>
      rw [System.step] at hs
      split_ifs at hs
      obtain rfl := Option.some.inj hs
      rfl
  | lose c =>
      obtain rfl := Option.some.inj hs
      rfl
  | _ =>
      rw [System.step] at hs
      split at hs
      · first
        | obtain rfl := Option.some.inj hs
          rfl
        | split_ifs at hs
          obtain rfl := Option.some.inj hs
          rfl
      · cases hs

theorem rank_status_le {a : Action C} {l : Pool.Label C} (hs : s.step job a = some s')
    (hl : labelOf s a = some l) : s'.server.status.rank ≤ s.server.status.rank := by
  by_cases hserve : ∃ c, a = .serve c
  · obtain ⟨c, rfl⟩ := hserve
    rw [System.step] at hs
    split at hs
    · rename_i hst _
      rw [hst]
      show s'.server.status.rank ≤ 1
      cases s'.server.status <;> simp [Status.rank]
    · cases hs
  · have hfinish : a ≠ .finish := by
      rintro rfl
      cases hl
    rw [server_of_step hs hfinish fun c hc => hserve ⟨c, hc⟩]

/-- The pool's measure, and one for the server's exit. -/
def measure [Fintype C] (job : Job C Uuid) (s : System C Uuid)
    (t : Pool.State C Bytes FitResult) : ℕ :=
  t.measure job.items + s.server.status.rank

/-- **A step that changes something lowers the measure.** -/
theorem measure_step [Fintype C] (hr : Refines job s t) (hi : Pool.Inv job.items t) {a : Action C}
    (ha : Changes job s a) (hs : s.step job a = some s') :
    ∃ t', (Refines job s' t' ∧ Pool.Inv job.items t') ∧ measure job s' t' < measure job s t := by
  rcases refines_step hr hi hs with ⟨hl, hr'⟩ | ⟨l, t', hl, hst, hr'⟩
  · -- the end of `main`
    refine ⟨t, ⟨hr', hi⟩, ?_⟩
    cases a with
    | finish =>
        rw [System.step] at hs
        split_ifs at hs with hleft
        obtain rfl := Option.some.inj hs
        simp [measure, hleft, Server.finish, Server.logs, Status.rank]
    | _ => cases hl
  · refine ⟨t', ⟨hr', Pool.inv_step hi hst⟩, ?_⟩
    have hidle : ¬Pool.Idle t l := fun h => ha (hs.trans (congrArg some (eq_of_idle hr hs hl h)))
    have hlt := Pool.measure_lt hst hidle
    have hle := rank_status_le hs hl
    unfold measure
    omega

/-- **Every run is finite.**  With `n` items and `m` clients, a run in which every
step changes something has at most `7 n + 4 m + 1` steps, whoever dies, times out
or gives up, and whatever gets lost. -/
theorem length_le_of_changes [Fintype C] {as : List (Action C)}
    (h : Path (fun s a s' => System.step job s a = some s') (Changes job) (System.start job) as s) :
    as.length ≤ 7 * job.items.length + 4 * Fintype.card C + 1 := by
  obtain ⟨t, -, hle⟩ := h.length_le (measure job)
    (R := fun s t => Refines job s t ∧ Pool.Inv job.items t)
    (show Refines job (System.start job) Pool.init ∧ Pool.Inv job.items Pool.init from
      ⟨refines_start job, Pool.inv_init⟩)
    fun s a s' t ht ha hs => measure_step ht.1 ht.2 ha hs
  have hinit : measure job (System.start job) Pool.init =
      7 * job.items.length + 4 * Fintype.card C + 1 :=
    congrArg (· + 1) (Pool.measure_init job.items)
  omega

/-- What a step can change in the sample job. -/
def view (s : System Bool Uuid16) : Status × Finset ℕ × List (ClientPhase × Channel) :=
  (s.server.status, s.server.toDo,
    [false, true].map fun c => ((s.client c).phase, s.chan c))

/-- One client executes the item and is told to stop, the server exits. -/
theorem exec_exitedRun :
    (exec (System.step oneItemJob)
      (fun s a => decide ((s.step oneItemJob a).map view ≠ some (view s))) (System.start oneItemJob)
      (completeRun ++ [.finish])).isSome = true := by
  decide +kernel

theorem length_le_of_changes_exitedRun :
    (completeRun ++ [Action.finish]).length ≤ 7 * oneItemJob.items.length + 4 * Fintype.card Bool + 1 := by
  obtain ⟨s, hs⟩ := Option.isSome_iff_exists.1 exec_exitedRun
  refine length_le_of_changes ((path_of_exec hs).mono fun s a hp heq => ?_)
  exact of_decide_eq_true hp (congrArg (Option.map view) heq)

/-! ### Complete runs -/

omit [DecidableEq C] in
/-- An item can be executed: there is a result that fits. -/
theorem exists_fit : (Result.mk 0 [] []).toString.length ≤ maxSize := by
  decide +kernel

/-- The server looks at a request as long as it is in its loop. -/
theorem serve_enabled {b : Bytes} (hs : s.server.status = .looping) (hc : s.chan c = .request b) :
    s.step job (.serve c) ≠ none := by
  rw [System.step, hs, hc]
  simp

/-- Nothing is left to do: no client has an item, and no other step without a crash is
possible. -/
structure Quiescent (job : Job C Uuid) (s : System C Uuid) : Prop where
  idle : ∀ c k w, (s.client c).phase ≠ .working k w
  step : ∀ a, CrashFree s a → (∀ c r, a ≠ .execute c r) → s.step job a = none

/-- **A client that has something to do can do it**: where nothing is left to do, every
client has stopped or waits for the server. -/
theorem client_of_quiescent (hr : Refines job s t) (hi : Pool.Inv job.items t)
    (hp : Pool.Prompt (t.party c)) (hq : Quiescent job s) :
    t.party c = ⟨.stopped, .empty⟩ ∨
      t.party c = ⟨.querying, .request .query⟩ ∧ s.server.status ≠ .looping ∨
        ∃ k r, t.party c = ⟨.reporting k, .request (.result k r)⟩ ∧
          s.server.status ≠ .looping := by
  have hcons := hi.party c
  have hphase := (hr.client c).phase
  have hch := hr.chan c
  generalize ho : (s.client c).outstanding = o at hphase
  generalize hcp : (s.client c).phase = cp at hphase
  generalize t.party c = party at hcons hp hphase hch ⊢
  cases hcons with
  | ready _ _ =>
      cases hphase
      have hnone := hq.step (.sendQuery c) trivial (by simp)
      rw [System.step, if_pos hcp] at hnone
      cases hnone
  | querying _ _ =>
      refine Or.inr (Or.inl ⟨rfl, fun hl => ?_⟩)
      exact serve_enabled hl hch (hq.step (.serve c) trivial (by simp))
  | workSent _ _ =>
      cases hphase
      have hnone := hq.step (.recvReply c) trivial (by simp)
      simp [System.step, hcp, hch, encodeChan] at hnone
  | stopSent _ _ =>
      cases hphase
      have hnone := hq.step (.recvReply c) trivial (by simp)
      simp [System.step, hcp, hch, encodeChan] at hnone
  | queryLost _ => exact absurd rfl hp.querying
  | working _ _ =>
      cases hphase
      exact absurd hcp (hq.idle c _ _)
  | finished _ =>
      cases hphase
      have hnone := hq.step (.sendResult c) trivial (by simp)
      simp [System.step, hcp] at hnone
  | report hph hu =>
      rcases hph with rfl | rfl | rfl
      · refine Or.inr (Or.inr ⟨_, _, rfl, fun hl => ?_⟩)
        exact serve_enabled hl hch (hq.step (.serve c) trivial (by simp))
      · exact absurd rfl hp.not_stuck
      · exact absurd rfl hp.not_dead
  | ackSent _ _ =>
      cases hphase
      have hnone := hq.step (.recvAck c) trivial (by simp)
      simp [System.step, hcp, hch, encodeChan] at hnone
  | ackStopSent _ _ =>
      cases hphase
      have hnone := hq.step (.recvAck c) trivial (by simp)
      simp [System.step, hcp, hch, encodeChan] at hnone
  | reportLost => exact absurd rfl (hp.reporting _)
  | stuck _ => exact absurd rfl hp.not_stuck
  | stopped _ _ => exact Or.inl rfl
  | dead _ _ => exact absurd rfl hp.not_dead

/-- A client that has stopped, or whose query came too late. -/
inductive Ended (job : Job C Uuid) (c : C) : ClientPhase → Channel → Prop where
  | stopped : Ended job c .stopped .empty
  | unanswered : Ended job c .querying
      (.request (packMessage job.io ⟨job.uuid c, job.serverId, .query, 0, []⟩))

/-- A run without crashes that has nothing left to do is complete. -/
theorem complete_of_quiescent [Nonempty C] (h : System.Reachable job CrashFree s)
    (hq : Quiescent job s) :
    s.server.status = .exited ∧
      (resultIds s.trace).Perm (List.range' 1 job.items.length) ∧
      ∀ c, Ended job c (s.client c).phase (s.chan c) := by
  obtain ⟨t, hrun, hr⟩ := refines_reachable (Q := Pool.CrashFree) h
    fun _ _ _ _ _ hr hrun ha hs hl => crashFree_label hr (Pool.prompt_reaches hrun) ha hs hl
  have hi := Pool.inv_reaches hrun
  have hclient := fun c => client_of_quiescent hr hi (Pool.prompt_reaches hrun c) hq
  -- in its loop the server would have answered everybody, and the job would hang
  have hleft : t.serving = false := by
    by_contra hs
    have hloop := hr.looping (by simpa using hs)
    have hstopped : ∀ c, t.party c = ⟨.stopped, .empty⟩ := fun c => by
      rcases hclient c with hc | ⟨-, hn⟩ | ⟨_, _, -, hn⟩
      · exact hc
      · exact absurd hloop hn
      · exact absurd hloop hn
    refine Pool.not_hang hi (Pool.kept_of_crashFree hrun) ⟨by simpa using hs, fun c => ?_, ?_, ?_⟩
    · have hcons := hi.consistent (hstopped c)
      cases hcons with
      | stopped ht _ => exact Or.inr ht
    · exact ⟨Classical.arbitrary C, by simp [hstopped]⟩
    · rintro c (⟨q, hq⟩ | ⟨⟨p, hp⟩, -⟩)
      · simp [hstopped] at hq
      · simp [hstopped] at hp
  have hexited : s.server.status = .exited := by
    refine (hr.left hleft).resolve_left fun hl => ?_
    have hnone := hq.step .finish trivial (by simp)
    rw [System.step, if_pos hl] at hnone
    cases hnone
  have hsafe := dispatchSafe_of_refines hr hi
  refine ⟨hexited, ?_, fun c => ?_⟩
  · refine (List.perm_ext_iff_of_nodup hsafe.handled_once List.nodup_range').2 fun k => ?_
    rw [List.mem_range'_1]
    constructor
    · intro hk
      rw [hr.trace, mem_resultIds] at hk
      obtain ⟨c, hg⟩ := hi.given_of_handled hk
      have hrange := hi.mem_ids hg
      have hle := hi.given_le
      omega
    · rintro ⟨h₁, hn⟩
      exact (hsafe.left (Or.inr hexited) k h₁ (by omega)).2
  · have hrest := (Pool.atRest_of_not_serving hi (Pool.prompt_reaches hrun c) hleft).2
    have hphase := (hr.client c).phase
    rw [hr.chan c]
    generalize (s.client c).outstanding = o at hphase
    generalize (s.client c).phase = cp at hphase ⊢
    rcases hclient c with hc | ⟨hc, -⟩ | ⟨k, r, hc, -⟩
    · rw [hc] at hphase ⊢
      cases hphase
      exact .stopped
    · rw [hc] at hphase ⊢
      cases hphase
      exact .unanswered
    · rw [hc] at hrest
      cases hrest

/-- **A run without crashes that cannot go on is complete.**  The server has
exited, the result of every item of the workfile was handled, each once, and every
client has left its loop or waits for the answer to its last query. -/
theorem complete_of_stuck [Nonempty C] (h : System.Reachable job CrashFree s)
    (hstuck : ∀ a, CrashFree s a → s.step job a = none) :
    s.server.status = .exited ∧
      (resultIds s.trace).Perm (List.range' 1 job.items.length) ∧
      ∀ c, Ended job c (s.client c).phase (s.chan c) := by
  refine complete_of_quiescent h ⟨fun c k w hc => ?_, fun a ha _ => hstuck a ha⟩
  have hnone := hstuck (.execute c ⟨0, [], []⟩) trivial
  simp [System.step, hc, exists_fit] at hnone

/-- Where everybody has ended, no step without a crash is possible. -/
theorem step_eq_none (hs : s.server.status = .exited) (hc : ∀ c, (s.client c).phase = .stopped)
    {a : Action C} (ha : CrashFree s a) : s.step job a = none := by
  cases a with
  | die c => exact ha.elim
  | queryTimeout c => exact ha.elim
  | ackTimeout c => exact ha.elim
  | lose c => exact ha.elim
  | _ => simp [System.step, hs, hc]

/-- One client executes the item, the other is told to stop, the server exits. -/
theorem exec_bothStopped :
    (exec (System.step oneItemJob) (fun s a => decide (CrashFree s a)) (System.start oneItemJob)
      [.sendQuery false, .serve false, .recvReply false, .sendQuery true, .serve true,
        .recvReply true, .execute false ⟨0, utf8 "hello\n".toList, []⟩, .sendResult false,
        .serve false, .recvAck false, .finish]).map
      (fun s => (s.server.status, (s.client false).phase, (s.client true).phase)) =
      some (.exited, .stopped, .stopped) := by
  decide +kernel

theorem complete_of_stuck_bothStopped :
    ∃ s : System Bool Uuid16, s.server.status = .exited ∧
      (resultIds s.trace).Perm (List.range' 1 oneItemJob.items.length) := by
  obtain ⟨s, hrun, hs⟩ := exists_of_exec exec_bothStopped
  simp only [Prod.mk.injEq] at hs
  have hstuck := complete_of_stuck (hrun.mono fun _ _ h => of_decide_eq_true h) fun a ha =>
    step_eq_none hs.1 (Bool.forall_bool.2 hs.2) ha
  exact ⟨s, hstuck.1, hstuck.2.1⟩

/-! ### Who holds an open item -/

/-- The message in the channel of a client. -/
def System.messageInFlight (job : Job C Uuid) (s : System C Uuid) (c : C) :
    Option (Message Uuid) :=
  match s.chan c with
  | .empty => none
  | .request b => (unpackMessage job.io b s.server.msgBuilder).toOption
  | .reply b => (unpackMessage job.io b (s.client c).msgBuilder).toOption

/-- Client `c` holds item `k`: it is on its way to the client, in its hands, or on
its way back with its result. -/
inductive Holds (job : Job C Uuid) (s : System C Uuid) (c : C) (k : ℕ) : Prop where
  | sent {msg : Message Uuid} (hp : (s.client c).phase = .querying)
      (hm : s.messageInFlight job c = some msg) (hs : msg.subject = .work) (hk : msg.id = k)
  | working {w : Bytes} (hp : (s.client c).phase = .working k w)
  | finished {r : Result} (hp : (s.client c).phase = .finished k r)
  | reported {msg : Message Uuid} (hm : s.messageInFlight job c = some msg)
      (hs : msg.subject = .result) (hk : msg.id = k)

/-- The message that the pool's message in a channel stands for. -/
def encodeFlight (job : Job C Uuid) (c : C) : Pool.Channel Bytes FitResult → Option (Message Uuid)
  | .empty => none
  | .request q => some (encodeRequest job c q)
  | .reply p => some (encodeReply job c p)

omit [DecidableEq C] in
theorem messageInFlight_eq (hr : Refines job s t) (hi : Pool.Inv job.items t) (c : C) :
    s.messageInFlight job c = encodeFlight job c (t.party c).chan := by
  have hch := hr.chan c
  generalize hc : t.party c = party at hch ⊢
  have hcons := hi.consistent hc
  obtain ⟨ph, ch⟩ := party
  rcases ch with _ | (_ | ⟨k, r⟩) | (⟨k, a⟩ | _ | _ | _)
  · simp only [System.messageInFlight, hch, encodeChan]
    rfl
  · simp only [System.messageInFlight, hch, encodeChan, unpack_pack job.io _ fits_query]
    rfl
  · have hfits : (encodeRequest job c (.result k r)).Fits := fits_request hi (hi.unreported hc).given
    simp only [System.messageInFlight, hch, encodeChan, unpack_pack job.io _ hfits]
    rfl
  · have hfits := fits_work (c := c) hi hcons.sent
    simp only [System.messageInFlight, hch, encodeChan, unpack_pack job.io _ hfits]
    rfl
  · simp only [System.messageInFlight, hch, encodeChan, unpack_pack job.io _ fits_stop]
    rfl
  · simp only [System.messageInFlight, hch, encodeChan, unpack_pack job.io _ fits_ack]
    rfl
  · simp only [System.messageInFlight, hch, encodeChan, unpack_pack job.io _ fits_ackStop]
    rfl

omit [DecidableEq C] in
/-- **Holding an item is taking care of it in the pool.** -/
theorem holds_iff (hr : Refines job s t) (hi : Pool.Inv job.items t) :
    Holds job s c k ↔ Pool.TakenCare k (t.party c) := by
  have hphase := (hr.client c).phase
  have hcons := hi.party c
  have hflight := messageInFlight_eq hr hi c
  generalize hout : (s.client c).outstanding = o at hphase
  generalize hcp : (s.client c).phase = cp at hphase
  generalize t.party c = party at hphase hcons hflight ⊢
  obtain ⟨ph, ch⟩ := party
  replace hphase : PhaseR ph cp o := hphase
  constructor
  · intro h
    cases h with
    | sent hp hm hs hk =>
        rw [hcp] at hp
        rw [hflight] at hm
        subst hp
        cases hcons with
        | querying _ _ => cases hm; cases hs
        | workSent _ _ => cases hm; obtain rfl := hk; exact .sent
        | stopSent _ _ => cases hm; cases hs
        | queryLost _ => cases hm
        | report hph _ => cases hm; cases hs
        | _ => cases hphase
    | working hp =>
        rw [hcp] at hp
        subst hp
        cases hphase
        cases hcons with
        | working _ _ => exact .working
        | report hph _ => simp at hph
    | finished hp =>
        rw [hcp] at hp
        subst hp
        cases hphase
        cases hcons with
        | finished _ => exact .finished
        | report hph _ => simp at hph
    | reported hm hs hk =>
        rw [hflight] at hm
        rcases ch with _ | (_ | ⟨j, r⟩) | (⟨j, a⟩ | _ | _ | _)
        · cases hm
        · cases hm; cases hs
        · cases hm; obtain rfl := hk; exact .reported
        all_goals cases hm; cases hs
  · intro h
    cases h with
    | sent => cases hphase; exact .sent hcp hflight rfl rfl
    | working => cases hphase; exact .working hcp
    | finished => cases hphase; exact .finished hcp
    | reported => exact .reported hflight rfl rfl

/-- **In a run that drops no item, every open one has one owner**: exactly the open
items are held by somebody, each by one client, and so there are never more of
them than clients. -/
theorem toDo_of_careful (h : System.Reachable job (Careful job) s) :
    (∀ k, k ∈ s.server.toDo ↔ ∃! c, Holds job s c k) ∧
      ∀ [Fintype C], s.server.toDo.card ≤ Fintype.card C := by
  obtain ⟨t, hrun, hr⟩ := refines_reachable (Q := Pool.Careful job.items) h
    fun _ _ _ _ _ hr hrun ha hs hl => careful_label hr (Pool.inv_reaches hrun) ha hs hl
  have hi := Pool.inv_reaches hrun
  have hkept := Pool.kept_reaches hrun
  rw [hr.toDo]
  refine ⟨fun k => ?_, hkept.card_le⟩
  simp only [holds_iff hr hi]
  exact hkept.existsUnique hi

theorem toDo_of_careful_stopped :
    ∃ s : System Bool Uuid16, (s.client true).phase = .stopped ∧
      (∀ k, k ∈ s.server.toDo ↔ ∃! c, Holds oneItemJob s c k) ∧
        s.server.toDo.card ≤ Fintype.card Bool := by
  obtain ⟨s, hrun, hs⟩ := exists_of_exec exec_careful
  obtain ⟨hiff, hcard⟩ := toDo_of_careful (hrun.mono fun _ _ h => of_decide_eq_true h)
  exact ⟨s, congrArg Prod.snd hs, hiff, hcard⟩

end Protocol
end WorkerNg
