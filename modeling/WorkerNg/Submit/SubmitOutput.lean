/-
# Where the artifacts of a job are

`submit_job` and `get_worker_dir_path` in `scripts/worker/utils.py`, the submit
output parsers of the two schedulers, and the end of `main` in
`scripts/wsub.py.in` and `scripts/wresume.py.in`.

Both commands rename the artifacts directory as soon as the job is submitted:
`wsub` to the job id that the scheduler's parser finds in the output of the submit
command, `wresume` to the whole output.  The job script refers to the directory
through the variable in which the scheduler passes the job its id.  With PBS
torque the output is the id, and the names agree unless it is empty or no name that
a directory can be given; with Slurm the id is a proper part of the output, and they
never do (`foundByJob_iff`).

Whether the directory can be renamed is for the file system to say: what it raises for a
name is a parameter, `renameError`.
-/

import WorkerNg.Resume.LogParsers
import WorkerNg.Work.WorkfileParser

namespace WorkerNg
namespace Submit

open Work Resume Regex

/-- The classes of the exceptions that the steps of the two commands raise.
`UnicodeDecodeError` is a `ValueError`. -/
inductive ExceptionClass
  | valueError
  | fileNotFoundError
  | osError
  | csvError
  | stopIteration
  | jobSubmissionException
deriving DecidableEq

/-- An exception. -/
structure PyException where
  cls : ExceptionClass
  message : Text
deriving DecidableEq

/-- What opening a file or starting a program can raise: `FileNotFoundError` or
another `OSError`. -/
structure OsError where
  missing : Bool
  message : Text
deriving DecidableEq

def OsError.exception (e : OsError) : PyException :=
  ⟨if e.missing then .fileNotFoundError else .osError, e.message⟩

/-! ### Submitting a job -/

/-- What running the submit command comes to: it is not started, it ends and what
it wrote is not UTF-8, or it ends. -/
inductive SubmitRun
  | notStarted (error : OsError)
  | undecodable (returncode : ℤ) (message : Text)
  | completed (returncode : ℤ) (stdout stderr : Text)
deriving DecidableEq

/-- `submit_job`, not a dry run. -/
def submitJob : SubmitRun → Except PyException Text
  | .notStarted error => .error error.exception
  | .undecodable _ message => .error ⟨.valueError, message⟩
  | .completed returncode stdout stderr =>
      if returncode ≠ 0 then .error ⟨.jobSubmissionException, stderr⟩ else .ok (strip stdout)

variable (tb : CharTable)

/-- `Submitted batch job (?P<job_id>\d+) on cluster (?P<cluster>\w+)`. -/
def submitted : Regex Char :=
  cat [lit "Submitted batch job ".toList, group "job_id" (rep (digit tb) 1 none),
    lit " on cluster ".toList, group "cluster" (rep tb.word 1 none)]

/-- `slurm/submit_output_parser.py`. -/
def Slurm.parse (outputStr : Text) : Except PyException Text :=
  match (submitted tb).search? outputStr with
  | some m => .ok ((m.group "job_id").getD [])
  | none => .error
      ⟨.valueError, "can not parse submission output \"".toList ++ outputStr ++ "\"".toList⟩

/-- `pbs_torque/submit_output_parser.py`. -/
def PbsTorque.parse (outputStr : Text) : Except PyException Text := .ok outputStr

/-- `get_submit_output_parser`. -/
def getSubmitOutputParser : Scheduler → Text → Except PyException Text
  | .slurm => Slurm.parse tb
  | .pbs => PbsTorque.parse

/-! ### The name of the directory -/

/-- `f'worker_{job_id}'`. -/
def workerDir (jobId : Text) : Text := "worker_".toList ++ jobId

section Rename

-- what renaming the directory to a name raises
variable (renameError : Text → Option PyException)

/-- `if job_id: tempdir_path.rename(f'worker_{job_id}')`: the new name, if there
is one. -/
def rename (jobId : Text) : Except PyException (Option Text) :=
  if jobId = [] then .ok none
  else
    match renameError (workerDir jobId) with
    | some e => .error e
    | none => .ok (some (workerDir jobId))

/-- `wsub`: what the artifacts directory is renamed to. -/
def Wsub.renamed (sch : Scheduler) (run : SubmitRun) : Except PyException (Option Text) := do
  let submitOutput ← submitJob run
  let jobId ← getSubmitOutputParser tb sch submitOutput
  rename renameError jobId

/-- `wresume`: what the artifacts directory is renamed to. -/
def Wresume.renamed (run : SubmitRun) : Except PyException (Option Text) := do
  let jobId ← submitJob run
  rename renameError jobId

end Rename

/-- `config['scheduler']['jobid_var_name']`. -/
def jobidVarName : Scheduler → Text
  | .slurm => "SLURM_JOB_ID".toList
  | .pbs => "PBS_JOBID".toList

/-- `get_worker_dir_path`, from the directory the command is called in. -/
def getWorkerDirPath (sch : Scheduler) : Text := "worker_$\x7b".toList ++ jobidVarName sch ++ "\x7d".toList

/-- What the shell makes of a word with parameters `${name}`; inside the braces,
the name read so far is kept. -/
@[grind =]
def expandFrom (env : Text → Text) : Option Text → Text → Text
  | none, '$' :: '{' :: t => expandFrom env (some []) t
  | none, c :: t => c :: expandFrom env none t
  | some name, '}' :: t => env name ++ expandFrom env none t
  | some name, c :: t => expandFrom env (some (name ++ [c])) t
  | _, [] => []

/-- What the shell makes of a word with parameters `${name}`. -/
def expand (env : Text → Text) : Text → Text := expandFrom env none

/-- **The artifacts are where the job looks for them**: both commands rename their
directory to `worker_<job id>`, and so does the shell expand the path in the job
script where the variable of the scheduler holds the job id. -/
structure FoundByJob (renameError : Text → Option PyException) (sch : Scheduler)
    (run : SubmitRun) (jobId : Text) : Prop where
  wsub : Wsub.renamed tb renameError sch run = .ok (some (workerDir jobId))
  wresume : Wresume.renamed renameError run = .ok (some (workerDir jobId))
  job : ∀ env : Text → Text, env (jobidVarName sch) = jobId →
    expand env (getWorkerDirPath sch) = workerDir jobId

/-! ### The path in the job script -/

theorem expandFrom_some (env : Text → Text) {u : Text} (hu : '}' ∉ u) (name t : Text) :
    expandFrom env (some name) (u ++ '}' :: t) = env (name ++ u) ++ expandFrom env none t := by
  induction u generalizing name with
  | nil => rw [List.nil_append, List.append_nil, expandFrom]
  | cons c u ih =>
      rw [List.mem_cons, not_or] at hu
      have hc : c ≠ '}' := fun h => hu.1 h.symm
      rw [List.cons_append, expandFrom, ih hu.2, List.append_assoc, List.singleton_append]
      exact hc

theorem expandFrom_none (env : Text → Text) {u : Text} (hu : '$' ∉ u) (t : Text) :
    expandFrom env none (u ++ t) = u ++ expandFrom env none t := by
  induction u with
  | nil => rfl
  | cons c u ih =>
      rw [List.mem_cons, not_or] at hu
      have hc : c ≠ '$' := fun h => hu.1 h.symm
      rw [List.cons_append, expandFrom, ih hu.2, List.cons_append]
      exact fun _ h => absurd h hc

theorem close_not_mem_jobidVarName (sch : Scheduler) : '}' ∉ jobidVarName sch := by
  cases sch with
  | slurm => decide
  | pbs => decide

theorem getWorkerDirPath_eq (sch : Scheduler) : getWorkerDirPath sch =
    "worker_".toList ++ '$' :: '{' :: (jobidVarName sch ++ ['}']) := by
  have hw : "worker_$\x7b".toList = "worker_".toList ++ ['$', '{'] := by decide
  have hb : "\x7d".toList = ['}'] := by decide
  unfold getWorkerDirPath
  rw [hw, hb]
  simp only [List.append_assoc, List.cons_append, List.nil_append]

/-- The job looks for the directory with its id. -/
theorem expand_getWorkerDirPath (sch : Scheduler) (env : Text → Text) :
    expand env (getWorkerDirPath sch) = workerDir (env (jobidVarName sch)) := by
  have hprefix : '$' ∉ "worker_".toList := by decide
  unfold expand workerDir
  rw [getWorkerDirPath_eq, expandFrom_none env hprefix]
  congr 1
  rw [expandFrom, expandFrom_some env (close_not_mem_jobidVarName sch), List.nil_append, expandFrom,
    List.append_nil]

/-! ### What the parsers find -/

theorem submitJob_completed (stdout stderr : Text) :
    submitJob (.completed 0 stdout stderr) = .ok (strip stdout) := rfl

theorem submitJob_of_ne_zero {returncode : ℤ} (h : returncode ≠ 0) (stdout stderr : Text) :
    submitJob (.completed returncode stdout stderr) = .error ⟨.jobSubmissionException, stderr⟩ :=
  if_pos h

/-- The parsers raise nothing but a `ValueError`. -/
theorem cls_of_getSubmitOutputParser {sch : Scheduler} {outputStr : Text} {e : PyException}
    (h : getSubmitOutputParser tb sch outputStr = .error e) : e.cls = .valueError := by
  cases sch with
  | slurm =>
      have hs : Slurm.parse tb outputStr = .error e := h
      unfold Slurm.parse at hs
      split at hs
      next => cases hs
      next =>
        obtain rfl := Except.error.inj hs
        rfl
  | pbs => cases h

/-- A match of the expression of Slurm has a job id, which is shorter than the
match and not empty. -/
theorem jobId_spec {m : Match Char} {t : Text} (h : m ∈ (submitted tb).run t) :
    ∃ jobId, m.group "job_id" = some jobId ∧ jobId ≠ [] ∧ jobId.length < m.matched.length := by
  obtain ⟨m₁, h₁, m', h', rfl⟩ := mem_run_cat_cons.1 h
  obtain ⟨m₂, h₂, m'', -, rfl⟩ := mem_run_cat_cons.1 h'
  obtain ⟨m₃, h₃, rfl⟩ := mem_run_group.1 h₂
  obtain ⟨hg₁, hm₁⟩ := lit_spec h₁
  obtain ⟨-, hlen⟩ := rep_spec h₃
  refine ⟨m₃.matched, ?_, ?_, ?_⟩
  · show (m₁.groups ++ (("job_id", m₃.matched) :: m₃.groups ++ m''.groups)).lookup "job_id" = _
    rw [hg₁, List.nil_append, List.cons_append, List.lookup_cons_self]
  · rintro hnil
    rw [hnil, List.length_nil] at hlen
    omega
  · show _ < (m₁.matched ++ (m₃.matched ++ m''.matched)).length
    have hpos : 0 < "Submitted batch job ".toList.length := by decide
    rw [hm₁, List.length_append, List.length_append]
    omega

/-- The job id of Slurm is a proper part of the output. -/
theorem Slurm.parse_spec {outputStr jobId : Text} (h : Slurm.parse tb outputStr = .ok jobId) :
    jobId ≠ [] ∧ jobId.length < outputStr.length := by
  unfold Slurm.parse at h
  split at h
  next m hm =>
    obtain ⟨u, v, rfl, hmem⟩ := of_search? hm
    obtain ⟨j, hj, hne, hlt⟩ := jobId_spec tb hmem
    have hle := length_matched_le_of_search? hm
    rw [hj, Option.getD_some] at h
    obtain rfl := Except.ok.inj h
    exact ⟨hne, by omega⟩
  next => cases h

section FoundByJob

variable {renameError : Text → Option PyException}

theorem rename_of_ne_nil {jobId : Text} (hne : jobId ≠ [])
    (h : renameError (workerDir jobId) = none) :
    rename renameError jobId = .ok (some (workerDir jobId)) := by
  rw [rename, if_neg hne, h]

/-- **The directory gets its name** with a job id that is not empty, if it can be renamed. -/
theorem rename_eq_ok_some {jobId name : Text} (h : rename renameError jobId = .ok (some name)) :
    (jobId ≠ [] ∧ renameError (workerDir jobId) = none) ∧ name = workerDir jobId := by
  unfold rename at h
  split_ifs at h with hnil
  · cases h
  · cases herror : renameError (workerDir jobId) with
    | some e =>
        rw [herror] at h
        cases h
    | none =>
        rw [herror] at h
        obtain rfl := Option.some.inj (Except.ok.inj h)
        exact ⟨⟨hnil, rfl⟩, rfl⟩

theorem Wsub.renamed_completed {sch : Scheduler} {stdout stderr jobId : Text}
    (h : getSubmitOutputParser tb sch (strip stdout) = .ok jobId) :
    Wsub.renamed tb renameError sch (.completed 0 stdout stderr) = rename renameError jobId := by
  rw [Wsub.renamed, submitJob_completed]
  show (getSubmitOutputParser tb sch (strip stdout) >>= rename renameError) = _
  rw [h]
  rfl

theorem Wresume.renamed_completed (stdout stderr : Text) :
    Wresume.renamed renameError (.completed 0 stdout stderr) =
      rename renameError (strip stdout) := rfl

variable (renameError) in
/-- **The artifacts are where the job looks for them exactly with PBS torque, when
the submit command wrote something that the directory can be named after.** -/
theorem foundByJob_iff (sch : Scheduler) (stdout stderr jobId : Text)
    (h : getSubmitOutputParser tb sch (strip stdout) = .ok jobId) :
    FoundByJob tb renameError sch (.completed 0 stdout stderr) jobId ↔
      sch = .pbs ∧ strip stdout ≠ [] ∧ renameError (workerDir (strip stdout)) = none := by
  constructor
  · intro hf
    have hw := hf.wresume
    rw [Wresume.renamed_completed] at hw
    obtain ⟨⟨hne, hrename⟩, hname⟩ := rename_eq_ok_some hw
    obtain rfl : jobId = strip stdout := List.append_cancel_left hname
    refine ⟨?_, hne, hrename⟩
    cases sch with
    | slurm => exact absurd (Slurm.parse_spec tb h).2 (lt_irrefl _)
    | pbs => rfl
  · rintro ⟨rfl, hne, hrename⟩
    obtain rfl : strip stdout = jobId := Except.ok.inj h
    have hr := rename_of_ne_nil hne hrename
    exact {
      wsub := by rw [Wsub.renamed_completed tb h, hr]
      wresume := by rw [Wresume.renamed_completed, hr]
      job := fun env henv => by rw [expand_getWorkerDirPath, henv] }

end FoundByJob

/-- What renaming the directory raises on Linux where nothing is called `worker_…` yet. -/
def linuxRename (name : Text) : Option PyException :=
  if '\x00' ∈ name then some ⟨.valueError, "embedded null byte".toList⟩
  else if 255 < (utf8 name).length then some ⟨.osError, "File name too long".toList⟩
  else if '/' ∈ name then some ⟨.fileNotFoundError, "No such file or directory".toList⟩
  else none

/-- `qsub` writes the job id. -/
theorem foundByJob_qsub :
    FoundByJob asciiTable linuxRename .pbs (.completed 0 "1234.master\n".toList [])
      "1234.master".toList :=
  (foundByJob_iff asciiTable linuxRename .pbs "1234.master\n".toList [] "1234.master".toList
    (by decide)).2 ⟨rfl, by decide, by decide⟩

/-- `sbatch` writes a sentence: `wsub` renames the directory to the job id, `wresume`
to the sentence. -/
theorem not_foundByJob_sbatch :
    getSubmitOutputParser asciiTable .slurm
        (strip "Submitted batch job 1234 on cluster genius\n".toList) = .ok "1234".toList ∧
      Wsub.renamed asciiTable linuxRename .slurm
        (.completed 0 "Submitted batch job 1234 on cluster genius\n".toList []) =
          .ok (some "worker_1234".toList) ∧
      Wresume.renamed linuxRename
        (.completed 0 "Submitted batch job 1234 on cluster genius\n".toList []) =
        .ok (some "worker_Submitted batch job 1234 on cluster genius".toList) ∧
      ¬ FoundByJob asciiTable linuxRename .slurm
        (.completed 0 "Submitted batch job 1234 on cluster genius\n".toList []) "1234".toList := by
  refine ⟨by decide, by decide, by decide, fun h => ?_⟩
  exact absurd h.wresume (by decide)

end Submit
end WorkerNg
