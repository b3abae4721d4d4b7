/-
# From the data to the output

The way of a row of data through the whole of worker: `create_workfile` makes a work
item of it, the server hands the item to a client, `process_work` feeds it to a shell
and collects what the shell writes, the client sends that back, and the server
appends it to its output.

Whatever the clients do, the output of a job is made of blocks, each of them what a
shell wrote that was fed the item of one row, line by line, with an empty line behind
it; no row has two of them, and when the server has left its loop every row has one
(`delivered_of_reachable`).  The shell reads the beginning of its item as the
assignments of the row, and then the script, provided that no value has a single
quote in it.  Where nothing crashes and `process_work` returns from every item (`Runnable`),
a run that cannot go on has delivered the output of every row (`delivered_of_stuck`).

What a client executes is tied to what `process_work` returns by a condition on the
steps of a run (`ByShell`); that it holds of everything executed is an invariant
(`fromShell_of_reachable`).  The shell itself is any relation between the text it is fed
and the runs it can have.
-/

import WorkerNg.Protocol.Progress
import WorkerNg.Resume.Chain
import WorkerNg.Resume.LogEntries
import WorkerNg.Work.Exports
import WorkerNg.Work.Processor

namespace WorkerNg
namespace EndToEnd

open Lines Work Wire Protocol Resume
open Shell (lex lexFrom)

/-! ### What is executed -/

/-- What `process_work` returns for a shell: every line that it writes, with a newline. -/
def shellResult (shell : ShellRun) : Result :=
  ⟨shell.exitStatus, unlines 10 (lines 10 (outs shell.actions)),
    unlines 10 (lines 10 (errs shell.actions))⟩

section Executed

-- which runs a shell can have that is fed a text
variable (bash : Bytes → ShellRun → Prop)

/-- A result that `process_work` returns for an item, with this stream to the shell. -/
def FromShell {capacity : ℕ} (ops : OutStream UInt8 capacity) (workItem : Bytes)
    (result : Result) : Prop :=
  ∃ shell p out err, bash (sent workItem) shell ∧
    Processes.Reachable ops workItem shell p ∧ p.parent = .returned out err ∧
      result = Processes.result shell out err

variable {bash} {capacity : ℕ} {ops : OutStream UInt8 capacity}

theorem FromShell.eq_shellResult {workItem : Bytes} {result : Result}
    (h : FromShell bash ops workItem result) : ∃ shell p,
      bash (sent workItem) shell ∧ Processes.Reachable ops workItem shell p ∧ p.Returned ∧
        result = shellResult shell := by
  obtain ⟨shell, p, out, err, hb, hp, hret, rfl⟩ := h
  exact ⟨shell, p, hb, hp, ⟨out, err, hret⟩, Processes.result_of_returned hp hret⟩

variable {C Uuid : Type} [DecidableEq C] {job : Job C Uuid} {s s' : System C Uuid}
  {c : C} {k : ℕ} {w : Bytes} {r : Result}

variable (bash ops) in
/-- Items are executed by `process_work`. -/
def ByShell (s : System C Uuid) : Action C → Prop
  | .execute c result => ∀ workId workStr, (s.client c).phase = .working workId workStr →
      FromShell bash ops workStr result
  | _ => True

/-- Only a client that has an item executes it. -/
theorem executed_of_step {a : Action C} (h : s.step job a = some s')
    (he : Event.executed c k w r ∈ s'.trace) :
    Event.executed c k w r ∈ s.trace ∨
      a = .execute c r ∧ (s.client c).phase = .working k w := by
  cases a with
  | execute d result =>
      simp only [System.step] at h
      split at h
      next workId workStr hphase =>
        split_ifs at h
        cases h
        rcases List.mem_append.1 he with he | he
        · exact .inl he
        · cases List.mem_singleton.1 he
          exact .inr ⟨rfl, hphase⟩
      next => cases h
  | sendQuery d =>
      simp only [System.step] at h
      split_ifs at h
      cases h
      exact .inl (by simpa [System.send, System.update] using he)
  | serve d =>
      simp only [System.step] at h
      split at h
      next => cases h; exact .inl (by simpa [System.served] using he)
      next => cases h
  | recvReply d =>
      simp only [System.step] at h
      split at h
      next => cases h; exact .inl (by simpa [System.recv, System.update] using he)
      next => cases h
  | queryTimeout d =>
      simp only [System.step] at h
      split_ifs at h
      cases h
      exact .inl (by simpa [System.update] using he)
  | sendResult d =>
      simp only [System.step] at h
      split at h
      next => cases h; exact .inl (by simpa [System.send, System.update] using he)
      next => cases h
  | recvAck d =>
      simp only [System.step] at h
      split at h
      next => cases h; exact .inl (by simpa [System.recv, System.update] using he)
      next => cases h
  | ackTimeout d =>
      simp only [System.step] at h
      split at h
      next => cases h; exact .inl (by simpa [System.update] using he)
      next => cases h
  | die d =>
      simp only [System.step] at h
      split_ifs at h
      cases h
      exact .inl (by simpa [System.update] using he)
  | lose d =>
      cases h
      exact .inl (by simpa [System.update] using he)
  | finish =>
      simp only [System.step] at h
      split_ifs at h
      cases h
      exact .inl he

/-- **Everything executed comes from `process_work`.** -/
theorem fromShell_of_reachable (h : System.Reachable job (ByShell bash ops) s) :
    ∀ c k w r, Event.executed c k w r ∈ s.trace → FromShell bash ops w r := by
  refine h.invariant (I := fun s => ∀ c k w r, Event.executed c k w r ∈ s.trace →
    FromShell bash ops w r) (fun c k w r he => ?_) fun s a s' ih hP hs c k w r he => ?_
  · exact absurd he List.not_mem_nil
  · rcases executed_of_step hs he with he | ⟨rfl, hphase⟩
    · exact ih c k w r he
    · exact hP k w hphase

end Executed

/-! ### What is delivered -/

/-- The item of the `k`-th row. -/
def rowItem (script : Text) (sources : List (List Row)) (k : ℕ) : Text :=
  renderItem script (mergedRow sources k)

theorem workitems_getElem? {script : Text} {sources : List (List Row)} {k : ℕ} {i : Text}
    (h : (workitems script sources)[k]? = some i) : i = rowItem script sources k := by
  rw [workitems, List.getElem?_map, Option.map_eq_some_iff] at h
  obtain ⟨d, hd, rfl⟩ := h
  obtain ⟨hk, rfl⟩ := List.getElem?_eq_some_iff.1 hd
  rw [rowItem, mergedRow, getElem_zipRows hk]

theorem lex_rowItem {script : Text} {sources : List (List Row)} {k : ℕ}
    (h : ∀ e ∈ (mergedRow sources k).entries, isIdentifier e.1 = true ∧ '\'' ∉ e.2) :
    lex (rowItem script sources k) = (lex (printLine [] ++ printLine script)).map fun ts =>
      (mergedRow sources k).entries.flatMap exportCommand ++ ts := by
  rw [rowItem, renderItem_eq_exportLines, lex,
    lexFrom_exportLines (fun e he => (h e he).1) fun e he => (h e he).2]
  rfl

variable {C Uuid : Type} {job : Job C Uuid} {s : System C Uuid}

/-- **The output of a job is that of its rows**: `rs` are the results handled. -/
structure Delivered (bash : Bytes → ShellRun → Prop) {capacity : ℕ}
    (ops : OutStream UInt8 capacity) (script : Text) (sources : List (List Row)) (n : ℕ)
    (s : System C Uuid) (rs : List (ℕ × Result)) : Prop where
  out : s.server.out = rs.flatMap fun x => x.2.stdout ++ [10]
  err : s.server.err = rs.flatMap fun x => x.2.stderr ++ [10]
  /-- No row is there twice. -/
  once : (rs.map Prod.fst).Nodup
  /-- Each result is what a shell wrote that was fed the item of its row. -/
  fromRow : ∀ x ∈ rs, (1 ≤ x.1 ∧ x.1 ≤ n) ∧ ∃ shell p,
    bash (sent (utf8 (rowItem script sources (x.1 - 1)))) shell ∧
      Processes.Reachable ops (utf8 (rowItem script sources (x.1 - 1))) shell p ∧
      p.Returned ∧ x.2 = shellResult shell
  /-- The shell reads it as the assignments of the row, and then the script, provided that
  the names are identifiers and no value has a quote in it. -/
  reads : ∀ k, (∀ e ∈ (mergedRow sources k).entries, isIdentifier e.1 = true ∧ '\'' ∉ e.2) →
    lex (rowItem script sources k) = (lex (printLine [] ++ printLine script)).map fun ts =>
      (mergedRow sources k).entries.flatMap exportCommand ++ ts
  /-- When the server has left its loop, every row is there. -/
  complete : s.server.status = .left ∨ s.server.status = .exited →
    (rs.map Prod.fst).Perm (List.range' 1 n)

/-- The server has left: every item was handled. -/
theorem perm_of_left {t : Pool.State C Bytes FitResult} (hr : Refines job s t)
    (hi : Pool.Inv job.items t) (hs : s.server.status = .left ∨ s.server.status = .exited) :
    ((handledResults s.trace).map Prod.fst).Perm (List.range' 1 job.items.length) := by
  have hleft := hr.not_serving hs
  obtain ⟨hg, -⟩ := hi.left hleft
  rw [List.perm_ext_iff_of_nodup (once_of_refines hr hi) List.nodup_range']
  intro k
  rw [handledResults_of_refines hr, resultIds_resultEntry, ← hg, ← hi.ids]
  constructor
  · intro hk
    obtain ⟨c, a, hc⟩ := hi.given_of_handled (Pool.handled_of_mem hk)
    exact List.mem_filterMap.2 ⟨_, hc, rfl⟩
  · intro hk
    obtain ⟨c, hc⟩ := Pool.given_of_mem hk
    obtain ⟨d, r, hd⟩ := hi.handled_of_given hleft hc
    exact List.mem_filterMap.2 ⟨_, hd, rfl⟩

section Workfile

variable {bash : Bytes → ShellRun → Prop} {capacity : ℕ} {ops : OutStream UInt8 capacity}
  {sch : Scheduler} {script text : Text} {sources : List (List Row)} {n : ℕ}

/-- The job dispenses the items of its rows. -/
theorem items_of_workfile (hfile : createWorkfile sch.config script sources = .ok (text, n))
    (hjob : job.workfile = utf8 text)
    (hsep : ∀ i ∈ workitems script sources, sch.config.workitemSeparator ∉ lines '\n' i) :
    job.items = (workitems script sources).map utf8 ∧ job.items.length = n := by
  have hitems : job.items = (workitems script sources).map utf8 := by
    rw [Setup.items, hjob, items_createWorkfile hfile hsep]
  exact ⟨hitems, by rw [hitems, List.length_map, (createWorkfile_ok hfile).2.1]⟩

theorem delivered_of_refines {t : Pool.State C Bytes FitResult} (hr : Refines job s t)
    (hi : Pool.Inv job.items t)
    (hshell : ∀ c k w r, Event.executed c k w r ∈ s.trace → FromShell bash ops w r)
    (hitems : job.items = (workitems script sources).map utf8) (hn : job.items.length = n) :
    Delivered bash ops script sources n s (handledResults s.trace) := by
  refine ⟨out_of_refines hr, err_of_refines hr, once_of_refines hr hi, fun x hx => ?_,
    fun k => lex_rowItem, fun hs => ?_⟩
  · obtain ⟨c, w, hw, he⟩ := executed_of_refines hr hi hx
    obtain ⟨shell, p, hb, hp, hret, hres⟩ := (hshell c x.1 w x.2 he).eq_shellResult
    rw [hitems, List.getElem?_map, Option.map_eq_some_iff] at hw
    obtain ⟨i, hget, rfl⟩ := hw
    obtain rfl := workitems_getElem? hget
    exact ⟨hn ▸ range_of_refines hr hi hx, shell, p, hb, hp, hret, hres⟩
  · rw [← hn]
    exact perm_of_left hr hi hs

/-- **From the data to the output.**  The server is given the workfile that
`create_workfile` made, no line of an item is the separator, and the clients execute
their items with `process_work`.  Then in every reachable state, whatever is lost and
in whatever order things happen, the output of the server is that of the rows. -/
theorem delivered_of_reachable [DecidableEq C]
    (h : System.Reachable job (ByShell bash ops) s)
    (hfile : createWorkfile sch.config script sources = .ok (text, n))
    (hjob : job.workfile = utf8 text)
    (hsep : ∀ i ∈ workitems script sources, sch.config.workitemSeparator ∉ lines '\n' i) :
    Delivered bash ops script sources n s (handledResults s.trace) := by
  obtain ⟨t, hr, hi⟩ := exists_refines h
  obtain ⟨hitems, hn⟩ := items_of_workfile hfile hjob hsep
  exact delivered_of_refines hr hi (fromShell_of_reachable h) hitems hn

end Workfile

/-! ### That everything is delivered -/

/-- A shell can execute an item: its output fits into the pipes, and it does not exit before
the last piece of the item is written. -/
def Runnable (bash : Bytes → ShellRun → Prop) {capacity : ℕ} (ops : OutStream UInt8 capacity)
    (workItem : Bytes) : Prop :=
  ∃ shell, bash (sent workItem) shell ∧ reads shell.actions ≤ (sent workItem).length ∧
    (outs shell.actions).length ≤ capacity ∧ (errs shell.actions).length ≤ capacity ∧
      ops.before (sent workItem) < reads shell.actions ∧
        (shellResult shell).toString.length ≤ maxSize

/-- **`process_work` returns from such an item.** -/
theorem Runnable.exists_fromShell {bash : Bytes → ShellRun → Prop} {capacity : ℕ}
    {ops : OutStream UInt8 capacity} {workItem : Bytes} (h : Runnable bash ops workItem) :
    ∃ result, FromShell bash ops workItem result ∧ result.toString.length ≤ maxSize := by
  obtain ⟨shell, hb, hreads, hout, herr, hlast, hfit⟩ := h
  obtain ⟨p, hp, hstuck⟩ := exists_reaches_stuck Processes.work
    (fun _ _ _ h => Processes.work_lt (C := capacity) h) (Processes.start ops workItem shell)
  have hi := Processes.inv_of_reachable hp
  have hf := Processes.fed_of_reachable hp
  have hend := not_or.2
    ⟨Processes.not_killed hi hf hlast, Processes.not_deadlocked hi hf hreads hout herr⟩
  obtain ⟨out, err, hret⟩ := (Processes.stuck_cases hstuck).resolve_right hend
  have hres := Processes.result_of_returned hp hret
  exact ⟨_, ⟨shell, p, out, err, hb, hp, hret, rfl⟩, hres ▸ hfit⟩

/-- What a client executes is an item of the workfile. -/
theorem item_of_working {t : Pool.State C Bytes FitResult} (hr : Refines job s t)
    (hi : Pool.Inv job.items t) {c : C} {k : ℕ} {w : Bytes}
    (hc : (s.client c).phase = .working k w) : w ∈ job.items := by
  obtain ⟨ph, ch, -, hcons, hphase, -⟩ := hr.party hi c
  rw [hc] at hphase
  generalize (s.client c).outstanding = o at hphase
  cases hphase with
  | working =>
      cases hcons with
      | report hph _ => simp at hph
      | working hu _ => exact List.mem_of_getElem? (hi.item c k w hu.sent)

/-- **A job that is not disturbed delivers everything.**  No party crashes, and every
item can be executed.  Then a run that cannot go on has put the output of each row into
the output of the server, once. -/
theorem delivered_of_stuck [DecidableEq C] [Nonempty C] {bash : Bytes → ShellRun → Prop}
    {capacity : ℕ} {ops : OutStream UInt8 capacity}
    (h : System.Reachable job (fun s a => CrashFree s a ∧ ByShell bash ops s a) s)
    {sch : Scheduler} {script text : Text} {sources : List (List Row)} {n : ℕ}
    (hfile : createWorkfile sch.config script sources = .ok (text, n))
    (hjob : job.workfile = utf8 text)
    (hsep : ∀ i ∈ workitems script sources, sch.config.workitemSeparator ∉ lines '\n' i)
    (hitems : ∀ i ∈ workitems script sources, Runnable bash ops (utf8 i))
    (hstuck : ∀ a, CrashFree s a → ByShell bash ops s a → s.step job a = none) :
    ((handledResults s.trace).map Prod.fst).Perm (List.range' 1 n) ∧
      Delivered bash ops script sources n s (handledResults s.trace) := by
  obtain ⟨t, hr, hi⟩ := exists_refines h
  obtain ⟨hjobItems, hn⟩ := items_of_workfile hfile hjob hsep
  have hquiet : Quiescent job s := by
    refine ⟨fun c k w hc => ?_, fun a ha hne => ?_⟩
    · obtain ⟨i, hmem, rfl⟩ := List.mem_map.1 (hjobItems ▸ item_of_working hr hi hc)
      obtain ⟨r, hres, hfit⟩ := (hitems i hmem).exists_fromShell
      have hby : ByShell bash ops s (.execute c r) := by
        intro workId workStr hphase
        obtain ⟨-, rfl⟩ := ClientPhase.working.inj (hc.symm.trans hphase)
        exact hres
      have hnone := hstuck (.execute c r) trivial hby
      simp [System.step, hc, hfit] at hnone
    · refine hstuck a ha ?_
      cases a with
      | execute c r => exact absurd rfl (hne c r)
      | _ => trivial
  have hshell := fromShell_of_reachable (h.mono fun _ _ ha => ha.2)
  have hdel := delivered_of_refines hr hi hshell hjobItems hn
  have hexited := (complete_of_quiescent (h.mono fun _ _ ha => ha.1) hquiet).1
  exact ⟨hdel.complete (.inr hexited), hdel⟩

/-! ### A job of two rows -/

/-- The item of both rows. -/
def helloItem : Bytes := utf8 "export x='1'\n\necho hello\n".toList

/-- The shell reads the item, executes `echo hello` and reads `exit $?`. -/
def helloRun : ShellRun :=
  ⟨List.replicate 25 .read ++ (utf8 "hello\n".toList).map .writeOut ++ List.replicate 9 .read, 0⟩

/-- What the shell does with the item. -/
def helloBash (input : Bytes) (shell : ShellRun) : Prop :=
  input = sent helloItem ∧ shell = helloRun

theorem runnable_helloItem : Runnable helloBash opstream helloItem :=
  ⟨helloRun, ⟨rfl, rfl⟩, by decide, by decide, by decide, by decide +kernel, by decide +kernel⟩

theorem fromShell_hello : FromShell helloBash opstream helloItem (shellResult helloRun) := by
  obtain ⟨r, hr, -⟩ := runnable_helloItem.exists_fromShell
  obtain ⟨shell, p, ⟨-, rfl⟩, -, -, rfl⟩ := hr.eq_shellResult
  exact hr

/-- A step without a crash, in which a client executes only the item, as the shell does. -/
def byHello (s : System Bool Uuid16) : Action Bool → Bool
  | .execute c result =>
      match (s.client c).phase with
      | .working _ w => decide (w = helloItem ∧ result = shellResult helloRun)
      | _ => false
  | a => decide (CrashFree s a)

theorem byShell_of_byHello {s : System Bool Uuid16} {a : Action Bool} (h : byHello s a = true) :
    CrashFree s a ∧ ByShell helloBash opstream s a := by
  cases a with
  | execute c result =>
      refine ⟨trivial, fun workId workStr hphase => ?_⟩
      rw [byHello, hphase] at h
      obtain ⟨rfl, rfl⟩ := of_decide_eq_true h
      exact fromShell_hello
  | _ => exact ⟨of_decide_eq_true h, trivial⟩

/-- Each client executes an item, and the server exits. -/
theorem exec_twoHellos :
    (exec (System.step twoRowsJob) byHello (System.start twoRowsJob)
      [.sendQuery false, .serve false, .recvReply false, .sendQuery true, .serve true,
        .recvReply true, .execute false (shellResult helloRun), .sendResult false, .serve false,
        .recvAck false, .execute true (shellResult helloRun), .sendResult true, .serve true,
        .recvAck true, .finish]).map
      (fun s => (s.server.status, (s.client false).phase, (s.client true).phase, s.server.out)) =
      some (.exited, .stopped, .stopped, utf8 "hello\n\nhello\n\n".toList) := by
  decide +kernel

theorem workitems_twoRows : ∀ i ∈ workitems "echo hello".toList twoRows, utf8 i = helloItem := by
  decide

theorem delivered_of_reachable_twoRows : ∃ s : System Bool Uuid16,
    s.server.out = utf8 "hello\n\nhello\n\n".toList ∧
      Delivered helloBash opstream "echo hello".toList twoRows 2 s (handledResults s.trace) := by
  obtain ⟨s, hrun, hs⟩ := exists_of_exec exec_twoHellos
  simp only [Prod.mk.injEq] at hs
  have hfile : createWorkfile Scheduler.slurm.config "echo hello".toList twoRows =
      .ok (twoRowsFile, 2) := rfl
  exact ⟨s, hs.2.2.2, delivered_of_reachable (hrun.mono fun _ _ h => (byShell_of_byHello h).2) hfile
    rfl (by decide)⟩

theorem delivered_of_stuck_twoRows : ∃ s : System Bool Uuid16,
    ((handledResults s.trace).map Prod.fst).Perm [1, 2] := by
  obtain ⟨s, hrun, hs⟩ := exists_of_exec exec_twoHellos
  simp only [Prod.mk.injEq] at hs
  have hfile : createWorkfile Scheduler.slurm.config "echo hello".toList twoRows =
      .ok (twoRowsFile, 2) := rfl
  have hdel := delivered_of_stuck (hrun.mono fun _ _ => byShell_of_byHello) hfile rfl
    (by decide) (fun i hi => workitems_twoRows i hi ▸ runnable_helloItem) fun a ha _ =>
      step_eq_none hs.1 (Bool.forall_bool.2 ⟨hs.2.1, hs.2.2.1⟩) ha
  exact ⟨s, hdel.1⟩

end EndToEnd
end WorkerNg
