/-
# Executing a work item

`process_work` in `src/work_processor/processor.cpp`.

`process_work` writes the script and `exit $?` to the standard input of a shell,
waits until the shell has exited, and only then reads its standard output, to the
end, and its standard error.  The shell is a list of reads and writes behind which
it exits.  The three pipes hold at most `C` bytes: on a full one a write blocks, and
on an empty one a read does.  A write to a pipe that nobody can read from any more
raises `SIGPIPE`, and as nothing in the client handles it the client is at its end.

As long as the shell runs nobody reads what it writes, so it gets through its
list only if both outputs fit into their pipes; if they do not, the shell and
`process_work` end up waiting for each other.  And the shell must not exit while
`process_work` still has something to write, for which it has to read more than was
written in front of the last piece.  If it does, and its outputs fit, every run of the
two processes comes to an end, with the whole output read (`completes_iff`,
`Processes.result_of_returned`).

The stream `ops` is a class of Boost, which is not part of the repository; how it cuts
the text into the pieces that it writes is a parameter (`OutStream`).
-/

import WorkerNg.Lib.OutStream
import WorkerNg.Lib.Run
import WorkerNg.Wire.Result

namespace WorkerNg
namespace Work

open Lines Wire

/-! ### The two processes -/

/-- What the shell does. -/
inductive ChildAction
  | read
  | writeOut (b : UInt8)
  | writeErr (b : UInt8)
deriving DecidableEq

/-- A byte that an action writes to the standard output. -/
def ChildAction.outByte : ChildAction → Option UInt8
  | .writeOut b => some b
  | _ => none

/-- A byte that an action writes to the standard error. -/
def ChildAction.errByte : ChildAction → Option UInt8
  | .writeErr b => some b
  | _ => none

/-- What a shell does until it exits, and its exit status. -/
structure ShellRun where
  actions : List ChildAction
  exitStatus : Int32

/-- What is written to the standard output. -/
def outs (as : List ChildAction) : Bytes := as.filterMap ChildAction.outByte

/-- What is written to the standard error. -/
def errs (as : List ChildAction) : Bytes := as.filterMap ChildAction.errByte

/-- How many bytes are read. -/
def reads (as : List ChildAction) : ℕ := as.count .read

theorem outs_writeOut (b : UInt8) (as : List ChildAction) :
    outs (.writeOut b :: as) = b :: outs as := rfl

theorem errs_writeErr (b : UInt8) (as : List ChildAction) :
    errs (.writeErr b :: as) = b :: errs as := rfl

@[simp] theorem reads_nil : reads [] = 0 := rfl

@[simp] theorem reads_read (as : List ChildAction) : reads (.read :: as) = reads as + 1 :=
  List.count_cons_self

@[simp] theorem reads_writeOut (b : UInt8) (as : List ChildAction) :
    reads (.writeOut b :: as) = reads as := List.count_cons_of_ne (by simp)

@[simp] theorem reads_writeErr (b : UInt8) (as : List ChildAction) :
    reads (.writeErr b :: as) = reads as := List.count_cons_of_ne (by simp)

/-- The shell: what it has still to do, or it has exited. -/
inductive Child
  | running (actions : List ChildAction)
  | exited
deriving DecidableEq

/-- `process_work`: writing the pieces that are left, in `process.wait()`, in one of the
two loops with what it has read so far, at its end, or ended by `SIGPIPE` with these pieces
not written. -/
inductive Parent
  | writing (rest : List Bytes)
  | waiting
  | readingOut (out : Bytes)
  | readingErr (out err : Bytes)
  | returned (out err : Bytes)
  | killed (rest : List Bytes)
deriving DecidableEq

/-- The two processes and what is in their pipes. -/
structure Processes where
  parent : Parent
  child : Child
  stdin : Bytes
  stdout : Bytes
  stderr : Bytes
deriving DecidableEq

/-- `work_item << "\nexit $?" << std::endl`. -/
def sent (workItem : Bytes) : Bytes := workItem ++ utf8 "\nexit $?\n".toList

namespace Processes

/-- The shell has been started. -/
def start {C : ℕ} (ops : OutStream UInt8 C) (workItem : Bytes) (shell : ShellRun) : Processes :=
  ⟨.writing (ops.pieces (sent workItem)), .running shell.actions, [], [], []⟩

/-- A step of `process_work`. -/
def parentStep (C : ℕ) (s : Processes) : Option Processes :=
  match s.parent with
  | .writing [] => some { s with parent := .waiting }
  | .writing (piece :: rest) =>
      -- nobody can read from the pipe any more
      if s.child = .exited then some { s with parent := .killed (piece :: rest) }
      else if s.stdin.length + piece.length ≤ C then
        some { s with parent := .writing rest, stdin := s.stdin ++ piece }
      else none
  | .waiting => if s.child = .exited then some { s with parent := .readingOut [] } else none
  | .readingOut out =>
      match s.stdout with
      | b :: stdout => some { s with parent := .readingOut (out ++ [b]), stdout := stdout }
      | [] => if s.child = .exited then some { s with parent := .readingErr out [] } else none
  | .readingErr out err =>
      match s.stderr with
      | b :: stderr => some { s with parent := .readingErr out (err ++ [b]), stderr := stderr }
      | [] => if s.child = .exited then some { s with parent := .returned out err } else none
  | .returned _ _ => none
  | .killed _ => none

/-- A step of the shell. -/
def childStep (C : ℕ) (s : Processes) : Option Processes :=
  match s.child with
  | .running [] => some { s with child := .exited }
  | .running (.read :: as) =>
      match s.stdin with
      | _ :: stdin => some { s with child := .running as, stdin := stdin }
      | [] => none
  | .running (.writeOut b :: as) =>
      if s.stdout.length < C then
        some { s with child := .running as, stdout := s.stdout ++ [b] }
      else none
  | .running (.writeErr b :: as) =>
      if s.stderr.length < C then
        some { s with child := .running as, stderr := s.stderr ++ [b] }
      else none
  | .exited => none

end Processes

/-- Whose step it is. -/
inductive Party
  | parent
  | child
deriving DecidableEq

namespace Processes

/-- A step of one of the two. -/
def step (C : ℕ) (s : Processes) : Party → Option Processes
  | .parent => s.parentStep C
  | .child => s.childStep C

/-- A step of one of the two, as a relation. -/
def Step (C : ℕ) (s : Processes) (p : Party) (s' : Processes) : Prop := s.step C p = some s'

/-- A state that the two can reach. -/
def Reachable {C : ℕ} (ops : OutStream UInt8 C) (workItem : Bytes) (shell : ShellRun)
    (s : Processes) : Prop :=
  Reaches (Step C) (fun _ _ => True) (start ops workItem shell) s

/-- `process_work` has returned. -/
def Returned (s : Processes) : Prop := ∃ out err, s.parent = .returned out err

/-- `process_work` was ended by `SIGPIPE`. -/
def Killed (s : Processes) : Prop := ∃ rest, s.parent = .killed rest

/-- Both are blocked: neither is at its end, and neither can take a step. -/
structure Deadlocked (C : ℕ) (s : Processes) : Prop where
  parent : ¬ s.Returned
  child : s.child ≠ .exited
  parentStep : s.parentStep C = none
  childStep : s.childStep C = none

/-- What `process_work` returns: every line it has read, with a newline. -/
def result (shell : ShellRun) (out err : Bytes) : Result :=
  ⟨shell.exitStatus, unlines 10 (lines 10 out), unlines 10 (lines 10 err)⟩

end Processes

/-- **Running a work item can not deadlock**: no state is reached in which both
processes are blocked, no run goes on forever, and in a run that can not go on
`process_work` has returned. -/
structure Completes {C : ℕ} (ops : OutStream UInt8 C) (workItem : Bytes) (shell : ShellRun) :
    Prop where
  noDeadlock : ∀ s, Processes.Reachable ops workItem shell s → ¬ s.Deadlocked C
  terminates : WellFounded fun s' s => ∃ p, Processes.Step C s p s'
  returns : ∀ s, Processes.Reachable ops workItem shell s → Stuck (Processes.Step C) s →
    s.Returned

namespace Processes

/-! ### The steps -/

/-- The steps of `process_work`. -/
inductive ParentStep (C : ℕ) : Processes → Processes → Prop
  | written {c i o e} : ParentStep C ⟨.writing [], c, i, o, e⟩ ⟨.waiting, c, i, o, e⟩
  | broken {piece rest i o e} : ParentStep C ⟨.writing (piece :: rest), .exited, i, o, e⟩
      ⟨.killed (piece :: rest), .exited, i, o, e⟩
  | write {piece rest c i o e} (hc : c ≠ .exited) (hi : i.length + piece.length ≤ C) :
      ParentStep C ⟨.writing (piece :: rest), c, i, o, e⟩ ⟨.writing rest, c, i ++ piece, o, e⟩
  | waited {i o e} :
      ParentStep C ⟨.waiting, .exited, i, o, e⟩ ⟨.readingOut [], .exited, i, o, e⟩
  | readOut {x b c i o e} :
      ParentStep C ⟨.readingOut x, c, i, b :: o, e⟩ ⟨.readingOut (x ++ [b]), c, i, o, e⟩
  | endOut {x i e} :
      ParentStep C ⟨.readingOut x, .exited, i, [], e⟩ ⟨.readingErr x [], .exited, i, [], e⟩
  | readErr {x y b c i o e} :
      ParentStep C ⟨.readingErr x y, c, i, o, b :: e⟩ ⟨.readingErr x (y ++ [b]), c, i, o, e⟩
  | endErr {x y i o} :
      ParentStep C ⟨.readingErr x y, .exited, i, o, []⟩ ⟨.returned x y, .exited, i, o, []⟩

/-- The steps of the shell. -/
inductive ChildStep (C : ℕ) : Processes → Processes → Prop
  | exit {p i o e} : ChildStep C ⟨p, .running [], i, o, e⟩ ⟨p, .exited, i, o, e⟩
  | read {p as b i o e} :
      ChildStep C ⟨p, .running (.read :: as), b :: i, o, e⟩ ⟨p, .running as, i, o, e⟩
  | writeOut {p as b i o e} (ho : o.length < C) :
      ChildStep C ⟨p, .running (.writeOut b :: as), i, o, e⟩ ⟨p, .running as, i, o ++ [b], e⟩
  | writeErr {p as b i o e} (he : e.length < C) :
      ChildStep C ⟨p, .running (.writeErr b :: as), i, o, e⟩ ⟨p, .running as, i, o, e ++ [b]⟩

theorem parentStep_cases {C : ℕ} {s s' : Processes} (h : s.parentStep C = some s') :
    ParentStep C s s' := by
  obtain ⟨parent, c, i, o, e⟩ := s
  unfold parentStep at h
  cases parent with
  | writing rest =>
      cases rest with
      | nil =>
          obtain rfl := Option.some.inj h
          exact .written
      | cons piece rest =>
          simp only at h
          split_ifs at h with hc hi
          · obtain rfl := Option.some.inj h
            obtain rfl := hc
            exact .broken
          · obtain rfl := Option.some.inj h
            exact .write hc hi
  | waiting =>
      simp only at h
      split_ifs at h with hc
      obtain rfl := Option.some.inj h
      obtain rfl := hc
      exact .waited
  | readingOut x =>
      cases o with
      | cons b o =>
          obtain rfl := Option.some.inj h
          exact .readOut
      | nil =>
          simp only at h
          split_ifs at h with hc
          obtain rfl := Option.some.inj h
          obtain rfl := hc
          exact .endOut
  | readingErr x y =>
      cases e with
      | cons b e =>
          obtain rfl := Option.some.inj h
          exact .readErr
      | nil =>
          simp only at h
          split_ifs at h with hc
          obtain rfl := Option.some.inj h
          obtain rfl := hc
          exact .endErr
  | returned x y => cases h
  | killed rest => cases h

theorem childStep_cases {C : ℕ} {s s' : Processes} (h : s.childStep C = some s') :
    ChildStep C s s' := by
  obtain ⟨p, child, i, o, e⟩ := s
  unfold childStep at h
  cases child with
  | exited => cases h
  | running as =>
      cases as with
      | nil =>
          obtain rfl := Option.some.inj h
          exact .exit
      | cons a as =>
          cases a with
          | read =>
              cases i with
              | nil => cases h
              | cons b i =>
                  obtain rfl := Option.some.inj h
                  exact .read
          | writeOut b =>
              simp only at h
              split_ifs at h with ho
              obtain rfl := Option.some.inj h
              exact .writeOut ho
          | writeErr b =>
              simp only at h
              split_ifs at h with he
              obtain rfl := Option.some.inj h
              exact .writeErr he

/-! ### Every run comes to an end -/

/-- What is left for `process_work` to do, apart from what it reads. -/
def parentWork : Parent → ℕ
  | .writing rest => rest.length + 4
  | .waiting => 3
  | .readingOut _ => 2
  | .readingErr _ _ => 1
  | .returned _ _ => 0
  | .killed _ => 0

/-- What is left for the shell to do; each action may leave a byte in a pipe. -/
def childWork : Child → ℕ
  | .running as => 2 * as.length + 1
  | .exited => 0

/-- What is left to do. -/
def work (s : Processes) : ℕ :=
  parentWork s.parent + childWork s.child + s.stdout.length + s.stderr.length

theorem work_lt {C : ℕ} {s s' : Processes} {p : Party} (h : Step C s p s') : s'.work < s.work := by
  cases p with
  | parent =>
      cases parentStep_cases h <;> simp only [work, parentWork, List.length_cons] <;> omega
  | child =>
      cases childStep_cases h <;>
        simp only [work, childWork, List.length_cons, List.length_append, List.length_nil] <;> omega

theorem wellFounded_step (C : ℕ) : WellFounded fun s' s => ∃ p, Step C s p s' :=
  Subrelation.wf (fun {_ _} h => work_lt h.choose_spec) (measure work).wf

/-! ### What is in the pipes -/

end Processes

/-- What `process_work` has read from the standard output. -/
def Parent.out : Parent → Bytes
  | .readingOut out => out
  | .readingErr out _ => out
  | .returned out _ => out
  | _ => []

/-- What `process_work` has read from the standard error. -/
def Parent.err : Parent → Bytes
  | .readingErr _ err => err
  | .returned _ err => err
  | _ => []

/-- The pieces that `process_work` has not written. -/
def Parent.pending : Parent → List Bytes
  | .writing rest => rest
  | .killed rest => rest
  | _ => []

/-- `process_work` is still writing or waiting. -/
def Parent.Early (p : Parent) : Prop := (∃ rest, p = .writing rest) ∨ p = .waiting

theorem Parent.Early.out_eq {p : Parent} (h : p.Early) : p.out = [] := by
  obtain ⟨rest, rfl⟩ | rfl := h
  · rfl
  · rfl

theorem Parent.Early.err_eq {p : Parent} (h : p.Early) : p.err = [] := by
  obtain ⟨rest, rfl⟩ | rfl := h
  · rfl
  · rfl

theorem Parent.Early.ne_readingErr {p : Parent} (h : p.Early) : ¬ ∃ x y, p = .readingErr x y := by
  obtain ⟨rest, rfl⟩ | rfl := h
  · simp
  · simp

theorem Parent.Early.ne_returned {p : Parent} (h : p.Early) : ¬ ∃ x y, p = .returned x y := by
  obtain ⟨rest, rfl⟩ | rfl := h
  · simp
  · simp

/-- What the shell has still to do. -/
def Child.actions : Child → List ChildAction
  | .running as => as
  | .exited => []

namespace Processes

variable {C : ℕ} {ops : OutStream UInt8 C} {workItem : Bytes} {shell : ShellRun}
  {s s' : Processes} {p : Party}

/-- **The invariant of the pipes.** -/
structure Inv (C : ℕ) (shell : ShellRun) (s : Processes) : Prop where
  out : s.parent.out ++ s.stdout ++ outs s.child.actions = outs shell.actions
  err : s.parent.err ++ s.stderr ++ errs s.child.actions = errs shell.actions
  stdout_le : s.stdout.length ≤ C
  stderr_le : s.stderr.length ≤ C
  early : s.child ≠ .exited → s.parent.Early
  fits : s.child = .exited → (outs shell.actions).length ≤ C ∧ (errs shell.actions).length ≤ C
  endOut : (∃ x y, s.parent = .readingErr x y) ∨ s.Returned → s.stdout = []
  endErr : s.Returned → s.stderr = []

theorem Inv.start (ops : OutStream UInt8 C) (workItem : Bytes) (shell : ShellRun) :
    Inv C shell (start ops workItem shell) where
  out := rfl
  err := rfl
  stdout_le := Nat.zero_le C
  stderr_le := Nat.zero_le C
  early _ := .inl ⟨_, rfl⟩
  fits h := by cases h
  endOut _ := rfl
  endErr _ := rfl

theorem not_early_readingOut (x : Bytes) : ¬ (Parent.readingOut x).Early := by simp [Parent.Early]

theorem not_early_readingErr (x y : Bytes) : ¬ (Parent.readingErr x y).Early := by
  simp [Parent.Early]

theorem Inv.parentStep (hi : Inv C shell s) (h : ParentStep C s s') : Inv C shell s' := by
  obtain ⟨hout, herr, ho, he, hearly, hfits, hendOut, hendErr⟩ := hi
  cases h with
  | written =>
      exact ⟨hout, herr, ho, he, fun _ => .inr rfl, hfits, by simp [Returned], by simp [Returned]⟩
  | broken =>
      exact ⟨hout, herr, ho, he, fun hc => absurd rfl hc, hfits, by simp [Returned],
        by simp [Returned]⟩
  | write hc hi =>
      exact ⟨hout, herr, ho, he, fun _ => .inl ⟨_, rfl⟩, hfits, by simp [Returned],
        by simp [Returned]⟩
  | waited =>
      exact ⟨hout, herr, ho, he, fun hc => absurd rfl hc, hfits, by simp [Returned],
        by simp [Returned]⟩
  | @readOut x b c i o e =>
      have hlen : o.length ≤ C := (Nat.le_succ _).trans ho
      have happ : (x ++ [b]) ++ o ++ outs c.actions = outs shell.actions := by
        rw [List.append_assoc x, List.singleton_append]
        exact hout
      exact ⟨happ, herr, hlen, he, fun hc => absurd (hearly hc) (not_early_readingOut x), hfits,
        by simp [Returned], by simp [Returned]⟩
  | endOut =>
      exact ⟨hout, herr, ho, he, fun hc => absurd rfl hc, hfits, fun _ => rfl, by simp [Returned]⟩
  | @readErr x y b c i o e =>
      have hlen : e.length ≤ C := (Nat.le_succ _).trans he
      have happ : (y ++ [b]) ++ e ++ errs c.actions = errs shell.actions := by
        rw [List.append_assoc y, List.singleton_append]
        exact herr
      exact ⟨hout, happ, ho, hlen, fun hc => absurd (hearly hc) (not_early_readingErr x y), hfits,
        fun _ => hendOut (.inl ⟨x, y, rfl⟩), by simp [Returned]⟩
  | @endErr x y i o =>
      exact ⟨hout, herr, ho, he, fun hc => absurd rfl hc, hfits,
        fun _ => hendOut (.inl ⟨x, y, rfl⟩), fun _ => rfl⟩

/-- While the shell runs, `process_work` has read nothing. -/
theorem Inv.childStep (hi : Inv C shell s) (h : ChildStep C s s') : Inv C shell s' := by
  obtain ⟨hout, herr, ho, he, hearly, hfits, hendOut, hendErr⟩ := hi
  have hrun : s.child ≠ .exited := by cases h <;> simp
  have hp : s.parent.Early := hearly hrun
  have hnr : ¬ ((∃ x y, s.parent = .readingErr x y) ∨ s.Returned) :=
    not_or.2 ⟨hp.ne_readingErr, hp.ne_returned⟩
  rw [hp.out_eq, List.nil_append] at hout
  rw [hp.err_eq, List.nil_append] at herr
  cases h with
  | @exit p i o e =>
      have hout' : o = outs shell.actions := (List.append_nil o).symm.trans hout
      have herr' : e = errs shell.actions := (List.append_nil e).symm.trans herr
      refine ⟨?_, ?_, ho, he, fun hc => absurd rfl hc, fun _ => ⟨hout' ▸ ho, herr' ▸ he⟩,
        fun h => absurd h hnr, fun h => absurd (.inr h) hnr⟩
      · rw [← hout, hp.out_eq, List.nil_append]
        rfl
      · rw [← herr, hp.err_eq, List.nil_append]
        rfl
  | @read p as b i o e =>
      refine ⟨?_, ?_, ho, he, fun _ => hp, by simp, fun h => absurd h hnr,
        fun h => absurd (.inr h) hnr⟩
      · rw [← hout, hp.out_eq, List.nil_append]
        rfl
      · rw [← herr, hp.err_eq, List.nil_append]
        rfl
  | @writeOut p as b i o e hlt =>
      refine ⟨?_, ?_, ?_, he, fun _ => hp, by simp, fun h => absurd h hnr,
        fun h => absurd (.inr h) hnr⟩
      · rw [← hout, hp.out_eq, List.nil_append, List.append_assoc]
        rfl
      · rw [← herr, hp.err_eq, List.nil_append]
        rfl
      · show (o ++ [b]).length ≤ C
        rw [List.length_append, List.length_singleton]
        omega
  | @writeErr p as b i o e hlt =>
      refine ⟨?_, ?_, ho, ?_, fun _ => hp, by simp, fun h => absurd h hnr,
        fun h => absurd (.inr h) hnr⟩
      · rw [← hout, hp.out_eq, List.nil_append]
        rfl
      · rw [← herr, hp.err_eq, List.nil_append, List.append_assoc]
        rfl
      · show (e ++ [b]).length ≤ C
        rw [List.length_append, List.length_singleton]
        omega

theorem Inv.step (hi : Inv C shell s) (h : Step C s p s') : Inv C shell s' := by
  cases p with
  | parent => exact hi.parentStep (parentStep_cases h)
  | child => exact hi.childStep (childStep_cases h)

theorem inv_of_reachable (h : Reachable ops workItem shell s) : Inv C shell s :=
  h.invariant (Inv.start ops workItem shell) fun _ _ _ hi _ hs => hi.step hs

/-! ### What the shell reads -/

/-- **The account of the text**: what was read of it, is in the pipe and was not written. -/
structure Fed (ops : OutStream UInt8 C) (workItem : Bytes) (shell : ShellRun) (s : Processes) :
    Prop where
  balance : reads shell.actions + s.stdin.length + s.parent.pending.flatten.length =
    (sent workItem).length + reads s.child.actions
  pending : s.parent.pending <:+ ops.pieces (sent workItem)
  killed : s.Killed → s.parent.pending ≠ []

theorem Fed.start (ops : OutStream UInt8 C) (workItem : Bytes) (shell : ShellRun) :
    Fed ops workItem shell (start ops workItem shell) where
  balance := by
    simp only [Processes.start, Parent.pending, Child.actions, ops.flatten_pieces, List.length_nil]
    omega
  pending := List.suffix_rfl
  killed := by simp [Killed, Processes.start]

theorem Fed.parentStep (hf : Fed ops workItem shell s) (h : ParentStep C s s') :
    Fed ops workItem shell s' := by
  obtain ⟨hbalance, hpending, hkilled⟩ := hf
  cases h with
  | broken => exact ⟨hbalance, hpending, fun _ => List.cons_ne_nil _ _⟩
  | @write piece rest c i o e hc hi =>
      refine ⟨?_, (List.suffix_cons piece rest).trans hpending, by simp [Killed]⟩
      simp only [Parent.pending, List.flatten_cons, List.length_append] at hbalance ⊢
      omega
  | written => exact ⟨hbalance, List.nil_suffix, by simp [Killed]⟩
  | waited => exact ⟨hbalance, List.nil_suffix, by simp [Killed]⟩
  | readOut => exact ⟨hbalance, List.nil_suffix, by simp [Killed]⟩
  | endOut => exact ⟨hbalance, List.nil_suffix, by simp [Killed]⟩
  | readErr => exact ⟨hbalance, List.nil_suffix, by simp [Killed]⟩
  | endErr => exact ⟨hbalance, List.nil_suffix, by simp [Killed]⟩

theorem Fed.childStep (hf : Fed ops workItem shell s) (h : ChildStep C s s') :
    Fed ops workItem shell s' := by
  obtain ⟨hbalance, hpending, hkilled⟩ := hf
  cases h with
  | exit => exact ⟨hbalance, hpending, hkilled⟩
  | read =>
      refine ⟨?_, hpending, hkilled⟩
      simp only [Child.actions, reads_read, List.length_cons] at hbalance ⊢
      omega
  | writeOut => exact ⟨by simpa [Child.actions] using hbalance, hpending, hkilled⟩
  | writeErr => exact ⟨by simpa [Child.actions] using hbalance, hpending, hkilled⟩

theorem Fed.step (hf : Fed ops workItem shell s) (h : Step C s p s') :
    Fed ops workItem shell s' := by
  cases p with
  | parent => exact hf.parentStep (parentStep_cases h)
  | child => exact hf.childStep (childStep_cases h)

theorem fed_of_reachable (h : Reachable ops workItem shell s) : Fed ops workItem shell s :=
  h.invariant (Fed.start ops workItem shell) fun _ _ _ hf _ hs => hf.step hs

/-! ### Both blocked -/

theorem Inv.exited_of_killed (hi : Inv C shell s) (hk : s.Killed) : s.child = .exited := by
  obtain ⟨rest, hrest⟩ := hk
  by_contra hc
  have hearly := hi.early hc
  rw [hrest] at hearly
  simp [Parent.Early] at hearly

/-- When the shell has exited, `process_work` goes on, unless it is at its end. -/
theorem parentStep_of_exited (hc : s.child = .exited) (hr : ¬ s.Returned) (hk : ¬ s.Killed) :
    s.parentStep C ≠ none := by
  obtain ⟨parent, c, i, o, e⟩ := s
  obtain rfl := hc
  unfold parentStep
  cases parent with
  | writing rest =>
      cases rest with
      | nil => simp
      | cons piece rest => simp
  | waiting => simp
  | readingOut x =>
      cases o with
      | nil => simp
      | cons b o => simp
  | readingErr x y =>
      cases e with
      | nil => simp
      | cons b e => simp
  | returned x y => exact absurd ⟨x, y, rfl⟩ hr
  | killed rest => exact absurd ⟨rest, rfl⟩ hk

/-- **Where a run ends**: `process_work` has returned or was ended by the signal, or both
are blocked. -/
theorem stuck_cases (h : Stuck (Step C) s) : s.Returned ∨ s.Killed ∨ s.Deadlocked C := by
  have hparent : s.parentStep C = none := Option.eq_none_iff_forall_ne_some.2 fun s' => h .parent s'
  have hchild : s.childStep C = none := Option.eq_none_iff_forall_ne_some.2 fun s' => h .child s'
  by_cases hr : s.Returned
  · exact .inl hr
  by_cases hk : s.Killed
  · exact .inr (.inl hk)
  · exact .inr (.inr ⟨hr, fun hc => parentStep_of_exited hc hr hk hparent, hparent, hchild⟩)

/-- `process_work`, writing or waiting, is blocked by a pipe that is too full or by the
shell. -/
theorem of_parentStep_eq_none (h : s.parentStep C = none) (hp : s.parent.Early) :
    s.parent.pending = [] ∨
      ∃ piece rest, s.parent.pending = piece :: rest ∧ C < s.stdin.length + piece.length := by
  obtain ⟨parent, c, i, o, e⟩ := s
  obtain ⟨rest, rfl⟩ | rfl := hp
  · cases rest with
    | nil => exact .inl rfl
    | cons piece rest =>
        unfold parentStep at h
        simp only at h
        split_ifs at h with hc hi
        exact .inr ⟨piece, rest, rfl, not_le.1 hi⟩
  · exact .inl rfl

/-- The shell is blocked by an empty pipe or by a full one. -/
theorem of_childStep_eq_none (h : s.childStep C = none) (hc : s.child ≠ .exited) :
    (1 ≤ reads s.child.actions ∧ s.stdin = []) ∨
      (1 ≤ (outs s.child.actions).length ∧ C ≤ s.stdout.length) ∨
      (1 ≤ (errs s.child.actions).length ∧ C ≤ s.stderr.length) := by
  obtain ⟨p, child, i, o, e⟩ := s
  unfold childStep at h
  cases child with
  | exited => exact absurd rfl hc
  | running as =>
      cases as with
      | nil => cases h
      | cons a as =>
          cases a with
          | read =>
              cases i with
              | nil => exact .inl ⟨by simp [Child.actions], rfl⟩
              | cons b i => cases h
          | writeOut b =>
              simp only at h
              split_ifs at h with ho
              exact .inr (.inl ⟨by simp [Child.actions, outs_writeOut], not_lt.1 ho⟩)
          | writeErr b =>
              simp only at h
              split_ifs at h with he
              exact .inr (.inr ⟨by simp [Child.actions, errs_writeErr], not_lt.1 he⟩)

/-- A shell whose outputs fit into their pipes is blocked by an empty pipe only. -/
theorem Inv.stdin_eq_nil (hi : Inv C shell s) (hout : (outs shell.actions).length ≤ C)
    (herr : (errs shell.actions).length ≤ C) (hchild : s.childStep C = none)
    (hc : s.child ≠ .exited) : 1 ≤ reads s.child.actions ∧ s.stdin = [] := by
  have hp := hi.early hc
  have ho := congrArg List.length hi.out
  have he := congrArg List.length hi.err
  rw [hp.out_eq, List.nil_append, List.length_append] at ho
  rw [hp.err_eq, List.nil_append, List.length_append] at he
  rcases of_childStep_eq_none hchild hc with h | ⟨h, hfull⟩ | ⟨h, hfull⟩
  · exact h
  · omega
  · omega

/-- A piece that `process_work` has to write fits into an empty pipe. -/
theorem Fed.length_le (hf : Fed ops workItem shell s) {piece : Bytes}
    (h : piece ∈ s.parent.pending) : piece.length ≤ C :=
  ops.length_le _ piece (hf.pending.subset h)

/-- **Outputs that fit into their pipes keep the two from blocking each other.** -/
theorem not_deadlocked (hi : Inv C shell s) (hf : Fed ops workItem shell s)
    (hreads : reads shell.actions ≤ (sent workItem).length)
    (hout : (outs shell.actions).length ≤ C) (herr : (errs shell.actions).length ≤ C) :
    ¬ s.Deadlocked C := by
  rintro ⟨hr, hc, hparent, hchild⟩
  obtain ⟨h, hnil⟩ := hi.stdin_eq_nil hout herr hchild hc
  have hbalance := hf.balance
  rw [hnil, List.length_nil] at hbalance
  rcases of_parentStep_eq_none hparent (hi.early hc) with hpending | ⟨piece, rest, hpending, hlt⟩
  · rw [hpending, List.flatten_nil, List.length_nil] at hbalance
    omega
  · have hle := hf.length_le (hpending ▸ List.mem_cons_self)
    rw [hnil, List.length_nil] at hlt
    omega

/-- **A shell that reads more than was written in front of the last piece** does not end
`process_work`. -/
theorem not_killed (hi : Inv C shell s) (hf : Fed ops workItem shell s)
    (hreads : ops.before (sent workItem) < reads shell.actions) : ¬ s.Killed := by
  intro hk
  have hle := ops.length_le_before hf.pending (hf.killed hk)
  have hbalance := hf.balance
  rw [hi.exited_of_killed hk] at hbalance
  simp only [Child.actions, reads_nil] at hbalance
  omega

variable (ops workItem) in
/-- **An output that does not fit**: some run leads to a state in which both are
blocked. -/
theorem exists_deadlocked
    (h : ¬ ((outs shell.actions).length ≤ C ∧ (errs shell.actions).length ≤ C)) :
    ∃ s, Reachable ops workItem shell s ∧ s.Deadlocked C := by
  obtain ⟨s, hs, hstuck⟩ :=
    exists_reaches_stuck work (fun _ _ _ h => work_lt (C := C) h) (start ops workItem shell)
  have hi := inv_of_reachable hs
  have hrun : s.child ≠ .exited := fun hc => h (hi.fits hc)
  rcases stuck_cases hstuck with hr | hk | hd
  · exact absurd hr (hi.early hrun).ne_returned
  · exact absurd (hi.exited_of_killed hk) hrun
  · exact ⟨s, hs, hd⟩

/-! ### A shell that exits early -/

/-- `process_work` has pieces to write. -/
def Writing (s : Processes) : Prop := ∃ piece rest, s.parent = .writing (piece :: rest)

/-- A step that leaves it pieces to write. -/
def HoldBack (C : ℕ) (s : Processes) (p : Party) (s' : Processes) : Prop :=
  Step C s p s' ∧ s'.Writing

/-- **With the last piece held back, the shell gets to its end** if it reads no more than
was written in front of it. -/
theorem exited_of_stuck (hreads : reads shell.actions ≤ ops.before (sent workItem))
    (hout : (outs shell.actions).length ≤ C) (herr : (errs shell.actions).length ≤ C)
    (hi : Inv C shell s) (hf : Fed ops workItem shell s) (hw : s.Writing)
    (hstuck : Stuck (HoldBack C) s) : s.child = .exited := by
  by_contra hc
  obtain ⟨piece, rest, hparent⟩ := hw
  have hpending : s.parent.pending = piece :: rest := by rw [hparent, Parent.pending]
  have hchild : s.childStep C = none := by
    refine Option.eq_none_iff_forall_ne_some.2 fun s' hs' => hstuck .child s' ⟨hs', ?_⟩
    cases childStep_cases hs' <;> exact ⟨piece, rest, hparent⟩
  obtain ⟨hread, hnil⟩ := hi.stdin_eq_nil hout herr hchild hc
  have hbalance := hf.balance
  have hle := hf.length_le (hpending ▸ List.mem_cons_self)
  -- the piece is not the last one, so it can be written
  cases rest with
  | nil =>
      have hlast := ops.length_eq_before (hpending ▸ hf.pending)
      rw [hnil, hpending, List.flatten_singleton, List.length_nil] at hbalance
      omega
  | cons next rest =>
      refine hstuck .parent { s with parent := .writing (next :: rest), stdin := s.stdin ++ piece }
        ⟨?_, next, rest, rfl⟩
      show s.parentStep C = _
      unfold parentStep
      simp only [hparent]
      rw [if_neg hc, if_pos (by rw [hnil, List.length_nil]; omega)]

/-- **A shell that exits early**: in some run the signal ends `process_work`. -/
theorem exists_killed (hreads : reads shell.actions ≤ ops.before (sent workItem))
    (hout : (outs shell.actions).length ≤ C) (herr : (errs shell.actions).length ≤ C) :
    ∃ s, Reachable ops workItem shell s ∧ s.Killed := by
  have hlt : ∀ s p s', HoldBack C s p s' → s'.work < s.work := fun _ _ _ h => work_lt h.1
  obtain ⟨s, hs, hstuck⟩ := exists_reaches_stuck work hlt (start ops workItem shell)
  have hreach : Reachable ops workItem shell s :=
    Relation.ReflTransGen.mono (fun _ _ ⟨p, hP, h⟩ => ⟨p, hP, h.1⟩) _ _ hs
  have hne : sent workItem ≠ [] := List.append_ne_nil_of_right_ne_nil _ (by decide)
  have hw : s.Writing := by
    refine hs.invariant (I := Writing) ?_ fun _ _ _ _ _ h => h.2
    obtain ⟨piece, rest, hpieces⟩ := List.exists_cons_of_ne_nil (ops.pieces_ne_nil hne)
    exact ⟨piece, rest, by rw [start, hpieces]⟩
  have hc := exited_of_stuck hreads hout herr (inv_of_reachable hreach) (fed_of_reachable hreach) hw
    hstuck
  obtain ⟨piece, rest, hparent⟩ := hw
  refine ⟨{ s with parent := .killed (piece :: rest) }, hreach.tail trivial (a := .parent) ?_,
    _, rfl⟩
  show s.parentStep C = _
  unfold parentStep
  simp only [hparent]
  rw [if_pos hc]

/-- A process that the signal has ended does nothing any more. -/
theorem stuck_of_killed (hi : Inv C shell s) (hk : s.Killed) : Stuck (Step C) s := by
  obtain ⟨rest, hrest⟩ := id hk
  rintro p s' h
  cases p with
  | parent =>
      have hstep := parentStep_cases h
      rw [show s = ⟨.killed rest, s.child, s.stdin, s.stdout, s.stderr⟩ by rw [← hrest]] at hstep
      cases hstep
  | child =>
      have hstep := childStep_cases h
      have hc := hi.exited_of_killed hk
      cases hstep <;> cases hc

/-- At the end `process_work` has read all that the shell wrote. -/
theorem eq_of_returned {out err : Bytes} (hi : Inv C shell s) (hr : s.parent = .returned out err) :
    out = outs shell.actions ∧ err = errs shell.actions := by
  have hret : s.Returned := ⟨out, err, hr⟩
  have hc : s.child = .exited := by
    by_contra hc
    exact (hi.early hc).ne_returned hret
  have hout := hi.out
  have herr := hi.err
  rw [hr, hi.endOut (.inr hret), hc] at hout
  rw [hr, hi.endErr hret, hc] at herr
  exact ⟨by simpa [Parent.out, Child.actions, outs] using hout,
    by simpa [Parent.err, Child.actions, errs] using herr⟩

/-- **What `process_work` returns**: the exit status of the shell and the lines that it
wrote, whatever the order of the steps. -/
theorem result_of_returned {out err : Bytes} (h : Reachable ops workItem shell s)
    (hr : s.parent = .returned out err) :
    result shell out err =
      ⟨shell.exitStatus, unlines 10 (lines 10 (outs shell.actions)),
        unlines 10 (lines 10 (errs shell.actions))⟩ := by
  obtain ⟨rfl, rfl⟩ := eq_of_returned (inv_of_reachable h) hr
  rfl

end Processes

/-- **Running a work item can not deadlock exactly when** each of its outputs fits into a
pipe and the shell does not exit before the last piece of the text is written: it reads
more than was written in front of it. -/
theorem completes_iff {C : ℕ} (ops : OutStream UInt8 C) (workItem : Bytes) (shell : ShellRun)
    (hreads : reads shell.actions ≤ (sent workItem).length) :
    Completes ops workItem shell ↔
      ((outs shell.actions).length ≤ C ∧ (errs shell.actions).length ≤ C) ∧
        ops.before (sent workItem) < reads shell.actions := by
  constructor
  · intro hcompl
    have hfits : (outs shell.actions).length ≤ C ∧ (errs shell.actions).length ≤ C := by
      by_contra h
      obtain ⟨s, hs, hd⟩ := Processes.exists_deadlocked ops workItem h
      exact hcompl.noDeadlock s hs hd
    refine ⟨hfits, not_le.1 fun hle => ?_⟩
    obtain ⟨s, hs, hk⟩ := Processes.exists_killed hle hfits.1 hfits.2
    obtain ⟨out, err, hret⟩ :=
      hcompl.returns s hs (Processes.stuck_of_killed (Processes.inv_of_reachable hs) hk)
    obtain ⟨rest, hrest⟩ := hk
    cases hrest.symm.trans hret
  · rintro ⟨⟨hout, herr⟩, hlast⟩
    have hnot : ∀ s, Processes.Reachable ops workItem shell s → ¬ s.Deadlocked C := fun s hs =>
      Processes.not_deadlocked (Processes.inv_of_reachable hs) (Processes.fed_of_reachable hs)
        hreads hout herr
    refine ⟨hnot, Processes.wellFounded_step C, fun s hs hstuck => ?_⟩
    rcases Processes.stuck_cases hstuck with hr | hk | hd
    · exact hr
    · exact absurd hk (Processes.not_killed (Processes.inv_of_reachable hs)
        (Processes.fed_of_reachable hs) hlast)
    · exact absurd hd (hnot s hs)

/-- The stream of Boost, with its buffer of 1024 bytes, to a pipe of Linux. -/
def opstream : OutStream UInt8 65536 := .buffered UInt8 (n := 1024) (by decide) (by decide)

/-- `echo ok`: the shell reads a line, writes three bytes and reads `exit $?`. -/
theorem completes_echo :
    Completes opstream (utf8 "echo ok".toList)
      ⟨List.replicate 8 .read ++ [.writeOut 111, .writeOut 107, .writeOut 10] ++
        List.replicate 8 .read, 0⟩ :=
  (completes_iff opstream _ _ (by decide)).2 ⟨⟨by decide, by decide⟩, by decide⟩

/-- The shell for `head -c n /dev/zero`: it reads a line, writes `n` bytes and reads
`exit $?`. -/
def headShell (n : ℕ) : ShellRun :=
  ⟨List.replicate 24 .read ++ List.replicate n (.writeOut 0) ++ List.replicate 8 .read, 0⟩

theorem length_outs_headShell (n : ℕ) : (outs (headShell n).actions).length = n := by
  have hread : ∀ k, outs (List.replicate k .read) = [] := fun k =>
    List.filterMap_replicate_of_none rfl
  have hwrite : outs (List.replicate n (.writeOut 0)) = List.replicate n 0 :=
    List.filterMap_replicate_of_some rfl
  have happ : outs (headShell n).actions =
      outs (List.replicate 24 .read) ++ outs (List.replicate n (.writeOut 0)) ++
        outs (List.replicate 8 .read) := by
    rw [headShell, outs, List.filterMap_append, List.filterMap_append]
    rfl
  rw [happ, hread, hread, hwrite, List.nil_append, List.append_nil, List.length_replicate]

theorem reads_headShell (n : ℕ) : reads (headShell n).actions = 32 := by
  simp only [headShell, reads, List.count_append, List.count_replicate]
  simp

/-- A work item that writes one byte more than a pipe holds on Linux. -/
theorem not_completes_head :
    reads (headShell 65537).actions ≤ (sent (utf8 "head -c 65537 /dev/zero".toList)).length ∧
      (∃ s, Processes.Reachable opstream (utf8 "head -c 65537 /dev/zero".toList)
        (headShell 65537) s ∧ s.Deadlocked 65536) ∧
      ¬ Completes opstream (utf8 "head -c 65537 /dev/zero".toList) (headShell 65537) := by
  have hout := length_outs_headShell 65537
  have hsent : (sent (utf8 "head -c 65537 /dev/zero".toList)).length = 32 := by decide
  have hdead : ∃ s, Processes.Reachable opstream (utf8 "head -c 65537 /dev/zero".toList)
      (headShell 65537) s ∧ s.Deadlocked 65536 := Processes.exists_deadlocked _ _ (by omega)
  refine ⟨by rw [reads_headShell, hsent], hdead, fun hcompl => ?_⟩
  obtain ⟨s, hs, hd⟩ := hdead
  exact hcompl.noDeadlock s hs hd

end Work
end WorkerNg
