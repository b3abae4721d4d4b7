/-
# `wsub`, all or nothing

`main` in `scripts/wsub.py.in` from the point where the artifacts directory is
there, for a run that is not a dry run.

The outcomes of its steps are what `main` is a function of: what reading the data
comes to, what running the submit command comes to, and whether the directory can
be renamed.  The handlers around the data catch `ValueError` and
`FileNotFoundError`, the one around the submission catches
`JobSubmissionException`; what they catch removes the directory, every other
exception leaves it.  So `main` is all or nothing exactly when nothing else is
raised before the job is accepted, and nothing at all from then on
(`allOrNothing_iff`).
-/

import WorkerNg.Submit.DataSources

namespace WorkerNg
namespace Submit

open Work (Scheduler printLine strip)
open Resume (CharTable asciiTable)

/-! ### How a command ends -/

/-- An error of `scripts/worker/errors.py`: the text in front of the message and
the exit status. -/
structure WorkerError where
  msg : Text
  status : ℕ
deriving DecidableEq

def dataError : WorkerError := ⟨"data source issue, ".toList, 10⟩

def submissionError : WorkerError := ⟨"job submission issue, ".toList, 12⟩

/-- Where the artifacts directory is. -/
inductive Artifacts
  | temporary
  | renamed (name : Text)
  | removed
deriving DecidableEq

/-- How a command ends: `main` returns, `exit_on_error` is called, or an exception
is not caught. -/
inductive Ending
  | returned
  | exited (error : WorkerError) (msg : Text)
  | uncaught (error : PyException)
deriving DecidableEq

/-- The exit status. -/
def Ending.status : Ending → ℕ
  | .returned => 0
  | .exited error _ => error.status
  | .uncaught _ => 1

/-- What `exit_on_error` prints. -/
def Ending.stderr : Ending → Text
  | .exited error msg => printLine ("error: ".toList ++ error.msg ++ msg)
  | _ => []

/-- What a command leaves behind: its artifacts, whether the scheduler accepted a
job, what it printed and how it ended. -/
structure Outcome where
  artifacts : Artifacts
  accepted : Bool
  stdout : Text
  ending : Ending
deriving DecidableEq

/-! ### The command -/

/-- What `wsub` takes from the command line and the batch script. -/
structure SubmitOptions where
  data : Option (List DataFile)
  arrayRequest : Option Text
  script : Text
  debug : Bool

/-- `exit_on_error`, with the function that `create_cleanup_function` returns. -/
def exitOnError (error : WorkerError) (isDebug accepted : Bool) (msg : Text) : Outcome :=
  ⟨if isDebug then .temporary else .removed, accepted, [], .exited error msg⟩

/-- The scheduler accepts the job when the submit command succeeds. -/
def SubmitRun.accepted : SubmitRun → Bool
  | .notStarted _ => false
  | .undecodable returncode _ => decide (returncode = 0)
  | .completed returncode _ _ => decide (returncode = 0)

variable (tb : CharTable)

/-- The job id that `wsub` finds. -/
def submit (sch : Scheduler) (run : SubmitRun) : Except PyException Text := do
  let submitOutput ← submitJob run
  getSubmitOutputParser tb sch submitOutput

/-- The end of `main`: with a job id that is not empty the directory is renamed and
the id is printed. -/
def finish (accepted : Bool) (renameError : Text → Option PyException) (nrWorkitems : ℕ)
    (jobId : Text) : Outcome :=
  match rename renameError jobId with
  | .error e => ⟨.temporary, accepted, [], .uncaught e⟩
  | .ok none => ⟨.temporary, accepted, [], .returned⟩
  | .ok (some name) => ⟨.renamed name, accepted,
      printLine ("total number of work items: ".toList ++ pyStr nrWorkitems) ++ printLine jobId,
      .returned⟩

/-- `main`; `renameError` is what renaming the directory raises. -/
def Wsub.main (sch : Scheduler) (options : SubmitOptions) (run : SubmitRun)
    (renameError : Text → Option PyException) : Outcome :=
  match createWorkfile tb sch options.script options.data options.arrayRequest with
  | .error e =>
      if e.cls = .valueError ∨ e.cls = .fileNotFoundError then
        exitOnError dataError options.debug false e.message
      else ⟨.temporary, false, [], .uncaught e⟩
  | .ok (_, nrWorkitems) =>
      match submit tb sch run with
      | .error e =>
          if e.cls = .jobSubmissionException then
            exitOnError submissionError options.debug run.accepted e.message
          else ⟨.temporary, run.accepted, [], .uncaught e⟩
      | .ok jobId => finish run.accepted renameError nrWorkitems jobId

/-! ### All or nothing -/

/-- A job was accepted, and its artifacts and its id are there. -/
structure Submitted (outcome : Outcome) (jobId : Text) : Prop where
  accepted : outcome.accepted = true
  artifacts : outcome.artifacts = .renamed (workerDir jobId)
  printed : printLine jobId <:+ outcome.stdout

/-- No job was accepted, and nothing is left. -/
structure Withdrawn (outcome : Outcome) : Prop where
  accepted : outcome.accepted = false
  artifacts : outcome.artifacts = .removed
  status : outcome.ending.status ≠ 0

theorem Submitted.not_withdrawn {outcome : Outcome} {jobId : Text} (h : Submitted outcome jobId) :
    ¬ Withdrawn outcome :=
  fun hw => Bool.false_ne_true (hw.accepted.symm.trans h.accepted)

/-- **All or nothing**: one of the two, and not both (`Submitted.not_withdrawn`). -/
def AllOrNothing (sch : Scheduler) (run : SubmitRun) (outcome : Outcome) : Prop :=
  (∃ jobId, submit tb sch run = .ok jobId ∧ Submitted outcome jobId) ∨ Withdrawn outcome

/-- The exceptions that the handlers around the data catch. -/
def Caught (e : PyException) : Prop := e.cls = .valueError ∨ e.cls = .fileNotFoundError

/-- The data can be read to the end of the shortest source, and there is a row. -/
def DataRead (sch : Scheduler) (options : SubmitOptions) : Prop :=
  ∃ s, DataSource.new tb options.data options.arrayRequest (arrayidVarName sch) = .ok s ∧
    ∃ k e, s.FailsAt k e ∧ e.cls = .stopIteration ∧ 0 < k

/-- The first thing that goes wrong with the data is caught: a source can not be
opened, or a tuple can not be read. -/
def DataCaught (sch : Scheduler) (options : SubmitOptions) : Prop :=
  (∃ e, DataSource.new tb options.data options.arrayRequest (arrayidVarName sch) = .error e ∧
    Caught e) ∨
  ∃ s, DataSource.new tb options.data options.arrayRequest (arrayidVarName sch) = .ok s ∧
    ∃ k e, s.FailsAt k e ∧ Caught e

/-- The submit command can be run and what it writes can be read; if it succeeds,
it writes a job id that is not empty, and the directory can be renamed. -/
def Identified (sch : Scheduler) (run : SubmitRun) (renameError : Text → Option PyException) : Prop :=
  ∃ returncode stdout stderr, run = .completed returncode stdout stderr ∧
    (returncode = 0 → ∃ jobId, getSubmitOutputParser tb sch (strip stdout) = .ok jobId ∧
      jobId ≠ [] ∧ renameError (workerDir jobId) = none)

variable {tb} {sch : Scheduler} {options : SubmitOptions} {run : SubmitRun}
  {renameError : Text → Option PyException} {e : PyException}

theorem not_accepted_of_ne_zero {returncode : ℤ} (h : returncode ≠ 0) (stdout stderr : Text) :
    (SubmitRun.completed returncode stdout stderr).accepted = false := decide_eq_false h

/-- Only `submit_job` raises a `JobSubmissionException`, and only when the submit
command fails. -/
theorem cls_of_submit (h : submit tb sch run = .error e) :
    e.cls = .jobSubmissionException ↔
      ∃ returncode stdout stderr, run = .completed returncode stdout stderr ∧ returncode ≠ 0 := by
  cases run with
  | notStarted error =>
      obtain rfl := Except.error.inj h
      have hne : error.exception.cls ≠ .jobSubmissionException := by
        unfold OsError.exception
        split_ifs <;> simp
      simp [hne]
  | undecodable returncode message =>
      obtain rfl := Except.error.inj h
      simp
  | completed returncode stdout stderr =>
      by_cases hrc : returncode = 0
      · subst hrc
        have hparse : getSubmitOutputParser tb sch (strip stdout) = .error e := h
        have hcls := cls_of_getSubmitOutputParser tb hparse
        simp [hcls]
      · have herr : submit tb sch (.completed returncode stdout stderr) =
            .error ⟨.jobSubmissionException, stderr⟩ := by
          rw [submit, submitJob_of_ne_zero hrc]
          rfl
        obtain rfl := Except.error.inj (herr.symm.trans h)
        exact ⟨fun _ => ⟨_, _, _, rfl, hrc⟩, fun _ => rfl⟩

theorem withdrawn_exitOnError {error : WorkerError} (h : error.status ≠ 0) (msg : Text) :
    Withdrawn (exitOnError error false false msg) := ⟨rfl, rfl, h⟩

/-- What is raised around the data is caught, or leaves the directory. -/
theorem allOrNothing_of_error (hdebug : options.debug = false)
    (h : createWorkfile tb sch options.script options.data options.arrayRequest = .error e) :
    AllOrNothing tb sch run (Wsub.main tb sch options run renameError) ↔ Caught e := by
  by_cases hc : Caught e
  · have hmain : Wsub.main tb sch options run renameError =
        exitOnError dataError options.debug false e.message := by
      rw [Wsub.main, h]
      exact if_pos hc
    rw [hmain, hdebug]
    exact ⟨fun _ => hc, fun _ => .inr (withdrawn_exitOnError (by decide) _)⟩
  · have hmain : Wsub.main tb sch options run renameError =
        ⟨.temporary, false, [], .uncaught e⟩ := by
      rw [Wsub.main, h]
      exact if_neg hc
    rw [hmain]
    constructor
    · rintro (⟨jobId, -, hs⟩ | hw)
      · exact absurd hs.accepted Bool.false_ne_true
      · exact absurd hw.artifacts (by simp)
    · exact fun hcaught => absurd hcaught hc

/-- A job id comes only from a submit command that succeeds. -/
theorem completed_of_submit {jobId : Text} (h : submit tb sch run = .ok jobId) :
    ∃ stdout stderr, run = .completed 0 stdout stderr := by
  cases run with
  | notStarted error => cases h
  | undecodable returncode message => cases h
  | completed returncode stdout stderr =>
      by_cases hrc : returncode = 0
      · exact ⟨stdout, stderr, by rw [hrc]⟩
      · rw [submit, submitJob_of_ne_zero hrc] at h
        cases h

theorem accepted_finish (accepted : Bool) (n : ℕ) (jobId : Text) :
    (finish accepted renameError n jobId).accepted = accepted := by
  unfold finish
  split <;> rfl

/-- The directory gets its name only if it can be renamed. -/
theorem renamed_of_finish {accepted : Bool} {n : ℕ} {jobId name : Text}
    (h : (finish accepted renameError n jobId).artifacts = .renamed name) :
    jobId ≠ [] ∧ renameError (workerDir jobId) = none := by
  unfold finish at h
  split at h
  next => cases h
  next => cases h
  next hrename => exact (rename_eq_ok_some hrename).1

/-- **The end of `main`** with a directory that can be renamed. -/
theorem finish_of_ne_nil {jobId : Text} (hne : jobId ≠ [])
    (h : renameError (workerDir jobId) = none) (accepted : Bool) (n : ℕ) :
    finish accepted renameError n jobId = ⟨.renamed (workerDir jobId), accepted,
      printLine ("total number of work items: ".toList ++ pyStr n) ++ printLine jobId,
      .returned⟩ := by
  rw [finish, rename_of_ne_nil hne h]

/-- **The end of `main`** puts everything in place exactly with a job id that is not
empty, if the directory can be renamed. -/
theorem submitted_finish {n : ℕ} {jobId : Text} :
    Submitted (finish true renameError n jobId) jobId ↔
      jobId ≠ [] ∧ renameError (workerDir jobId) = none := by
  constructor
  · exact fun hs => renamed_of_finish hs.artifacts
  · rintro ⟨hne, hrename⟩
    rw [finish_of_ne_nil hne hrename]
    exact ⟨rfl, rfl, List.suffix_append _ _⟩

/-- Without a job id, there must have been a submit command that failed. -/
theorem allOrNothing_of_submit_error (hdebug : options.debug = false) {r : Text × ℕ}
    (h : createWorkfile tb sch options.script options.data options.arrayRequest = .ok r)
    {e : PyException} (hsub : submit tb sch run = .error e) :
    AllOrNothing tb sch run (Wsub.main tb sch options run renameError) ↔
      Identified tb sch run renameError := by
  by_cases hc : e.cls = .jobSubmissionException
  · obtain ⟨returncode, stdout, stderr, rfl, hrc⟩ := (cls_of_submit hsub).1 hc
    have hmain : Wsub.main tb sch options (.completed returncode stdout stderr) renameError =
        exitOnError submissionError options.debug false e.message := by
      rw [Wsub.main, h]
      simp only [hsub, if_pos hc, not_accepted_of_ne_zero hrc]
    rw [hmain, hdebug]
    exact ⟨fun _ => ⟨_, _, _, rfl, fun hz => absurd hz hrc⟩,
      fun _ => .inr (withdrawn_exitOnError (by decide) _)⟩
  · have hmain : Wsub.main tb sch options run renameError =
        ⟨.temporary, run.accepted, [], .uncaught e⟩ := by
      rw [Wsub.main, h]
      simp only [hsub, if_neg hc]
    rw [hmain]
    constructor
    · rintro (⟨jobId, -, hs⟩ | hw)
      · exact absurd hs.artifacts (by simp)
      · exact absurd hw.artifacts (by simp)
    · rintro ⟨returncode, stdout, stderr, rfl, hid⟩
      by_cases hrc : returncode = 0
      · obtain ⟨jobId, hj, -, -⟩ := hid hrc
        subst hrc
        have hok : submit tb sch (.completed 0 stdout stderr) = .ok jobId := hj
        rw [hok] at hsub
        cases hsub
      · exact absurd ((cls_of_submit hsub).2 ⟨_, _, _, rfl, hrc⟩) hc

/-- With a job id, it has to be one that the directory can be renamed to. -/
theorem allOrNothing_of_submit_ok {r : Text × ℕ}
    (h : createWorkfile tb sch options.script options.data options.arrayRequest = .ok r)
    {jobId : Text} (hsub : submit tb sch run = .ok jobId) :
    AllOrNothing tb sch run (Wsub.main tb sch options run renameError) ↔
      Identified tb sch run renameError := by
  have hmain : Wsub.main tb sch options run renameError =
      finish run.accepted renameError r.2 jobId := by
    rw [Wsub.main, h]
    simp only [hsub]
  obtain ⟨stdout, stderr, rfl⟩ := completed_of_submit hsub
  have hparse : getSubmitOutputParser tb sch (strip stdout) = .ok jobId := hsub
  rw [hmain]
  constructor
  · rintro (⟨j, hj, hs⟩ | hw)
    · rw [hsub] at hj
      obtain rfl := Except.ok.inj hj
      exact ⟨0, stdout, stderr, rfl, fun _ => ⟨jobId, hparse, submitted_finish.1 hs⟩⟩
    · exact absurd ((accepted_finish _ _ _).symm.trans hw.accepted) (by simp [SubmitRun.accepted])
  · rintro ⟨returncode, stdout', stderr', hrun, hid⟩
    cases hrun
    obtain ⟨j, hj, hend⟩ := hid rfl
    obtain rfl := Except.ok.inj (hj.symm.trans hparse)
    exact .inl ⟨j, hsub, submitted_finish.2 hend⟩

/-- With the workfile written, the job has to be identified if it is accepted. -/
theorem allOrNothing_of_ok (hdebug : options.debug = false) {r : Text × ℕ}
    (h : createWorkfile tb sch options.script options.data options.arrayRequest = .ok r) :
    AllOrNothing tb sch run (Wsub.main tb sch options run renameError) ↔
      Identified tb sch run renameError := by
  cases hsub : submit tb sch run with
  | error e => exact allOrNothing_of_submit_error hdebug h hsub
  | ok jobId => exact allOrNothing_of_submit_ok h hsub

theorem dataCaught_iff {s : DataSource} {k : ℕ}
    (hnew : DataSource.new tb options.data options.arrayRequest (arrayidVarName sch) = .ok s)
    (hf : s.FailsAt k e) : DataCaught tb sch options ↔ Caught e := by
  constructor
  · rintro (⟨e', he', -⟩ | ⟨s', hs', k', e', hf', hc⟩)
    · cases hnew.symm.trans he'
    · obtain rfl := Except.ok.inj (hnew.symm.trans hs')
      rwa [(hf.unique hf').2]
  · exact fun hc => .inr ⟨s, hnew, k, e, hf, hc⟩

theorem dataRead_iff {s : DataSource} {k : ℕ}
    (hnew : DataSource.new tb options.data options.arrayRequest (arrayidVarName sch) = .ok s)
    (hf : s.FailsAt k e) : DataRead tb sch options ↔ e.cls = .stopIteration ∧ 0 < k := by
  constructor
  · rintro ⟨s', hs', k', e', hf', hc⟩
    obtain rfl := Except.ok.inj (hnew.symm.trans hs')
    obtain ⟨rfl, rfl⟩ := hf.unique hf'
    exact hc
  · exact fun hc => ⟨s, hnew, k, e, hf, hc⟩

/-- **`wsub` is all or nothing** exactly when the first thing that goes wrong with
the data is caught, or the data can be read and an accepted job is identified. -/
theorem allOrNothing_iff (sch : Scheduler) (options : SubmitOptions) (run : SubmitRun)
    (renameError : Text → Option PyException) (hdebug : options.debug = false) :
    AllOrNothing tb sch run (Wsub.main tb sch options run renameError) ↔
      DataCaught tb sch options ∨ DataRead tb sch options ∧ Identified tb sch run renameError := by
  cases hnew : DataSource.new tb options.data options.arrayRequest (arrayidVarName sch) with
  | error e =>
      rw [allOrNothing_of_error hdebug (createWorkfile_of_new_error tb hnew)]
      constructor
      · exact fun hc => .inl (.inl ⟨e, hnew, hc⟩)
      · rintro ((⟨e', he', hc⟩ | ⟨s, hs, -⟩) | ⟨⟨s, hs, -⟩, -⟩)
        · obtain rfl := Except.error.inj (hnew.symm.trans he')
          exact hc
        · cases hnew.symm.trans hs
        · cases hnew.symm.trans hs
  | ok s =>
      obtain ⟨k, e, hf⟩ := s.exists_failsAt
      obtain ⟨hok, herr⟩ :
          (e.cls = .stopIteration ∧ 0 < k → ∃ r, createWorkfile tb sch options.script options.data
            options.arrayRequest = .ok r) ∧
          (¬ (e.cls = .stopIteration ∧ 0 < k) → createWorkfile tb sch options.script options.data
            options.arrayRequest = .error e) := createWorkfile_spec tb hnew hf
      by_cases hend : e.cls = .stopIteration ∧ 0 < k
      · obtain ⟨r, hr⟩ := hok hend
        have hnot : ¬ Caught e := by simp [Caught, hend.1]
        rw [allOrNothing_of_ok hdebug hr, dataCaught_iff hnew hf, dataRead_iff hnew hf]
        simp only [hnot, hend, true_and, and_self, false_or]
      · rw [allOrNothing_of_error hdebug (herr hend), dataCaught_iff hnew hf, dataRead_iff hnew hf]
        simp only [hend, false_and, or_false]

/-- A CSV file with a header and one row. -/
def oneRow : SubmitOptions where
  data := some [.ok ⟨.ok (), [.ok ["x".toList], .ok ["1".toList]], []⟩]
  arrayRequest := none
  script := "echo $x".toList
  debug := false

/-- `--array 5-3`. -/
def emptyRange : SubmitOptions where
  data := none
  arrayRequest := some "5-3".toList
  script := "echo $SLURM_ARRAY_TASK_ID".toList
  debug := false

theorem dataRead_oneRow : DataRead asciiTable .slurm oneRow := by
  refine ⟨⟨[.ok (CsvDataSource.row ["x".toList] ["1".toList])], []⟩, by rfl, 1, stopIteration,
    ⟨fun j hj => ?_, by rfl⟩, rfl, by decide⟩
  obtain rfl : j = 0 := by omega
  exact ⟨_, rfl⟩

/-- A data file with one row: the job is accepted and identified. -/
theorem allOrNothing_oneRow :
    AllOrNothing asciiTable .slurm
      (.completed 0 "Submitted batch job 1234 on cluster genius\n".toList [])
      (Wsub.main asciiTable .slurm oneRow
        (.completed 0 "Submitted batch job 1234 on cluster genius\n".toList []) fun _ => none) :=
  (allOrNothing_iff _ _ _ _ rfl).2 (.inr ⟨dataRead_oneRow, 0, _, _, rfl, fun _ =>
    ⟨"1234".toList, by decide, by decide, rfl⟩⟩)

/-- An array request that denotes no id: `StopIteration` is not caught, and the
artifacts directory stays. -/
theorem not_allOrNothing_emptyRange :
    Wsub.main asciiTable .slurm emptyRange
        (.completed 0 "Submitted batch job 1234 on cluster genius\n".toList []) (fun _ => none) =
        ⟨.temporary, false, [], .uncaught stopIteration⟩ ∧
      ¬ AllOrNothing asciiTable .slurm
        (.completed 0 "Submitted batch job 1234 on cluster genius\n".toList [])
        (Wsub.main asciiTable .slurm emptyRange
          (.completed 0 "Submitted batch job 1234 on cluster genius\n".toList []) fun _ => none) := by
  have hmain : Wsub.main asciiTable .slurm emptyRange
      (.completed 0 "Submitted batch job 1234 on cluster genius\n".toList []) (fun _ => none) =
      ⟨.temporary, false, [], .uncaught stopIteration⟩ := by decide
  refine ⟨hmain, ?_⟩
  rw [hmain]
  rintro (⟨jobId, -, hs⟩ | hw)
  · exact absurd hs.accepted Bool.false_ne_true
  · exact absurd hw.artifacts (by simp)

end Submit
end WorkerNg
