/-
# `wresume`, from the old job to the new one

`main` in `scripts/wresume.py.in`, for an installation whose configuration can be read.

`wresume` makes its new directory as soon as it has read the command line, and nothing
removes it: it stays under its temporary name when the log can not be read, when there
is no work to be done, when a file can not be written, on a dry run, and when no job is
accepted (`tidy_iff`).  Up to the submission everything depends on the directory of the
old job.  If that is what a job left behind in a reachable state, one of three things
happens (`resubmitted_of_reachable`): before an item was handed out `wresume` crashes,
with nothing to do it ends, and else it puts the items to do into a new workfile and asks
the scheduler for what the two command lines and the directives say.
-/

import WorkerNg.Options.Resubmit
import WorkerNg.Resume.Chain
import WorkerNg.Resume.LongNumbers
import WorkerNg.Submit.Directives
import WorkerNg.Submit.Wsub

namespace WorkerNg
namespace EndToEnd

open Argparse Options Lines Work Protocol Resume Submit

/-! ### The command -/

/-- What is at a path. -/
inductive PathKind where
  | missing
  | notDirectory
  | directory
deriving DecidableEq

/-- What is at a path, and what the steps of `wresume` on files come to: reading a file of
a directory, making the new directory, reading the template, and opening a file of the
new directory and writing to it, with what is in the file when writing fails. -/
structure FileSystem where
  kind : Text → PathKind
  file : Text → String → Except OsError Text
  mkdirError : Option OsError
  templateError : Option OsError
  openError : String → Option OsError
  writeError : String → Option (Text × OsError)

/-- `with open(…, 'w') as file: print(text, file=file)` in the new directory: what is in
the file then, if it is there, and what is raised. -/
def FileSystem.write (fs : FileSystem) (name : String) (text : Text) :
    Option Text × Option OsError :=
  match fs.openError name, fs.writeError name with
  | some e, _ => (none, some e)
  | none, some (part, e) => (some part, some e)
  | none, none => (some text, none)

/-- `filter_workfile`, into the new directory, which opens the new workfile first. -/
def FileSystem.filterWorkfile (fs : FileSystem) (dir : Text) (ids : List ℕ) :
    Option Text × Option OsError :=
  match fs.openError "workerfile.txt", fs.file dir "workerfile.txt" with
  | some e, _ => (none, some e)
  | none, .error e => (some [], some e)
  | none, .ok workfile =>
      fs.write "workerfile.txt" (Work.filterWorkfile workfile filterSep (ids.map Nat.cast)).1

/-- A directory, as the option parser looks at it. -/
def FileSystem.jobDir (fs : FileSystem) (dir : Text) : JobDir :=
  match fs.kind dir with
  | .missing => .missing
  | .notDirectory => .notDirectory
  | .directory => .directory (fs.file dir "submit.sh") (fs.file dir "jobscript.sh")

/-- What worker is installed with, and where it is called: the path of the new directory
is that of `create_tempdir`. -/
structure Installation where
  sch : Options.Scheduler
  submitCommand : Text
  config : JobConfig
  cwd : Text
  tempdirPath : Text

/-- The templates and the submit output parsers are kept under these names. -/
def template? : Options.Scheduler → Work.Scheduler
  | .slurm => .slurm
  | .pbsTorque => .pbs

/-- `tempdir_path / 'jobscript.sh'`. -/
def Installation.jobscriptPath (inst : Installation) : Text :=
  joinPath inst.tempdirPath "jobscript.sh".toList

/-- The new directory: where it is, and what is in it. -/
structure NewDir where
  artifacts : Artifacts
  workfile : Option Text
  jobscript : Option Text
  submitSh : Option Text
deriving DecidableEq

/-- The new directory as it is made. -/
def NewDir.empty : NewDir := ⟨.temporary, none, none, none⟩

/-- An exception that is not caught. -/
inductive ResumeError where
  | parser (e : ParserError)
  | log (e : PyError)
  | py (e : PyException)
deriving DecidableEq

/-- How `main` ends. -/
inductive ResumeEnding where
  | returned
  | noWork
  | exited (error : WorkerError) (msg : Text)
  | uncaught (e : ResumeError)
deriving DecidableEq

/-- What `wresume` leaves behind: its directory, the command that it put together, whether
the scheduler accepted a job, what it printed at the end and how it ended. -/
structure ResumeOutcome where
  newDir : Option NewDir
  command : Option (List Text)
  accepted : Bool
  stdout : Text
  ending : ResumeEnding
deriving DecidableEq

def workerDirError : WorkerError := ⟨"worker directory issue, ".toList, 14⟩

/-- The command line can not be used, and there is no new directory. -/
def notParsed : ParserError → ResumeOutcome
  | .workerDir msg => ⟨none, none, false, [], .exited workerDirError msg⟩
  | .os e =>
      if e.missing then ⟨none, none, false, [], .exited workerDirError e.message⟩
      else ⟨none, none, false, [], .uncaught (.parser (.os e))⟩
  | e => ⟨none, none, false, [], .uncaught (.parser e)⟩

/-- Before the submission, with what is in the new directory. -/
def notSubmitted (newDir : NewDir) (stdout : Text) (ending : ResumeEnding) : ResumeOutcome :=
  ⟨some newDir, none, false, stdout, ending⟩

/-- How the end of `main`, which is that of `wsub`, ends. -/
def ResumeEnding.ofEnding : Ending → ResumeEnding
  | .returned => .returned
  | .exited error msg => .exited error msg
  | .uncaught e => .uncaught (.py e)

section Main

variable (inst : Installation) (pd : Pandas) (run : List Text → SubmitRun)
  (renameError : Text → Option PyException)

/-- From `submit_job` on, with the files that are in the new directory then. -/
def resubmit (dryrun : Bool) (command : List Text) (newDir : NewDir) (nrWorkIds : ℕ) :
    ResumeOutcome :=
  if dryrun then
    ⟨some newDir, some command, false, printLine (Shlex.join command), .returned⟩
  else
    match submitJob (run command) with
    | .error e => ⟨some newDir, some command, (run command).accepted, [], .uncaught (.py e)⟩
    | .ok jobId =>
        let outcome := finish (run command).accepted renameError nrWorkIds jobId
        ⟨some { newDir with artifacts := outcome.artifacts }, some command, outcome.accepted,
          outcome.stdout, .ofEnding outcome.ending⟩

/-- `create_jobscript`. -/
def newJobscript (parserResult : ResubmitData) : Text :=
  createJobscript (template? inst.sch) inst.cwd inst.config
    ⟨parserResult.options.port, parserResult.options.numCores⟩ parserResult.shebang
    parserResult.directives

/-- From `filter_workfile` to the file that `submit_job` writes: the new directory, and
what is raised. -/
def writeFiles (fs : FileSystem) (parserResult : ResubmitData) (ids : List ℕ) :
    NewDir × Option OsError :=
  match fs.filterWorkfile parserResult.options.dir ids, fs.templateError with
  | (workfile, some e), _ | (workfile, none), some e => (⟨.temporary, workfile, none, none⟩, some e)
  | (workfile, none), none =>
      match fs.write "jobscript.sh" (newJobscript inst parserResult) with
      | (jobscript, some e) => (⟨.temporary, workfile, jobscript, none⟩, some e)
      | (jobscript, none) =>
          let (submitSh, e) := fs.write "submit.sh" (SubmitJob.file inst.submitCommand
            (inst.sch.preprocessCliOptions parserResult.schedulerOptions) inst.jobscriptPath)
          (⟨.temporary, workfile, jobscript, submitSh⟩, e)

/-- `main`. -/
def Wresume.main (tb : CharTable) (fs : FileSystem) (args : List Str) : ResumeOutcome :=
  match ResubmitOptionParser.parse tb inst.sch fs.jobDir args with
  | .error e => notParsed e
  | .ok parserResult =>
      match fs.mkdirError with
      | some e => ⟨none, none, false, [], .uncaught (.py e.exception)⟩
      | none =>
          match fs.file parserResult.options.dir "server.log" with
          | .error e => notSubmitted .empty [] (.uncaught (.py e.exception))
          | .ok log =>
              match selectIds tb pd parserResult.options.redo log with
              | .error e => notSubmitted .empty [] (.uncaught (.log e))
              | .ok ids =>
                  if ids.length = 0 then
                    notSubmitted .empty (printLine "no work to be done".toList) .noWork
                  else
                    match writeFiles inst fs parserResult ids with
                    | (newDir, some e) => notSubmitted newDir [] (.uncaught (.py e.exception))
                    | (newDir, none) =>
                        resubmit run renameError parserResult.options.dryrun
                          (SubmitJob.command inst.submitCommand
                            (inst.sch.preprocessCliOptions parserResult.schedulerOptions)
                            inst.jobscriptPath) newDir ids.length

end Main

/-! ### Writing the files -/

/-- The files of the new directory. -/
def newFiles : List String := ["workerfile.txt", "jobscript.sh", "submit.sh"]

/-- The files of the new directory can be written. -/
structure FileSystem.Writable (fs : FileSystem) : Prop where
  template : fs.templateError = none
  opened : ∀ name ∈ newFiles, fs.openError name = none
  written : ∀ name ∈ newFiles, fs.writeError name = none

theorem FileSystem.write_eq {fs : FileSystem} {name : String} (ho : fs.openError name = none)
    (hw : fs.writeError name = none) (text : Text) : fs.write name text = (some text, none) := by
  rw [FileSystem.write, ho, hw]

theorem FileSystem.of_write {fs : FileSystem} {name : String} {text : Text} {file : Option Text}
    (h : fs.write name text = (file, none)) :
    fs.openError name = none ∧ fs.writeError name = none := by
  unfold FileSystem.write at h
  split at h
  next => cases h
  next => cases h
  next ho hw => exact ⟨ho, hw⟩

theorem FileSystem.of_filterWorkfile {fs : FileSystem} {dir : Text} {ids : List ℕ}
    {file : Option Text} (h : fs.filterWorkfile dir ids = (file, none)) :
    (∃ workfile, fs.file dir "workerfile.txt" = .ok workfile) ∧
      fs.openError "workerfile.txt" = none ∧ fs.writeError "workerfile.txt" = none := by
  unfold FileSystem.filterWorkfile at h
  split at h
  next => cases h
  next => cases h
  next workfile ho hw => exact ⟨⟨workfile, hw⟩, FileSystem.of_write h⟩

section WriteFiles

variable (inst : Installation) {fs : FileSystem} {r : ResubmitData} {ids : List ℕ}

theorem artifacts_writeFiles : (writeFiles inst fs r ids).1.artifacts = .temporary := by
  unfold writeFiles
  split
  · rfl
  · rfl
  · split
    · rfl
    · rfl

/-- **Everything is written** from a workfile that can be read. -/
theorem writeFiles_eq (h : fs.Writable) {workfile : Text}
    (hw : fs.file r.options.dir "workerfile.txt" = .ok workfile) :
    writeFiles inst fs r ids =
      (⟨.temporary, some (filterWorkfile workfile filterSep (ids.map Nat.cast)).1,
        some (newJobscript inst r), some (SubmitJob.file inst.submitCommand
          (inst.sch.preprocessCliOptions r.schedulerOptions) inst.jobscriptPath)⟩, none) := by
  have hwrite : ∀ name ∈ newFiles, ∀ text, fs.write name text = (some text, none) :=
    fun name hname => FileSystem.write_eq (h.opened name hname) (h.written name hname)
  have hfilter : fs.filterWorkfile r.options.dir ids =
      (some (filterWorkfile workfile filterSep (ids.map Nat.cast)).1, none) := by
    rw [FileSystem.filterWorkfile, h.opened _ (by decide), hw]
    exact hwrite _ (by decide) _
  rw [writeFiles, hfilter, h.template, hwrite _ (by decide)]
  dsimp only
  rw [hwrite _ (by decide)]

/-- Else something is raised. -/
theorem of_writeFiles {newDir : NewDir} (h : writeFiles inst fs r ids = (newDir, none)) :
    fs.Writable ∧ ∃ workfile, fs.file r.options.dir "workerfile.txt" = .ok workfile := by
  unfold writeFiles at h
  split at h
  next => cases h
  next => cases h
  next workfile hfilter htemplate =>
    split at h
    next => cases h
    next jobscript hjobscript =>
      obtain ⟨hw, ho₁, hw₁⟩ := FileSystem.of_filterWorkfile hfilter
      obtain ⟨ho₂, hw₂⟩ := FileSystem.of_write hjobscript
      obtain ⟨ho₃, hw₃⟩ := FileSystem.of_write (Prod.ext rfl (Prod.ext_iff.1 h).2)
      refine ⟨⟨htemplate, ?_, ?_⟩, hw⟩
      · simp only [newFiles, List.forall_mem_cons]
        exact ⟨ho₁, ho₂, ho₃, List.forall_mem_nil _⟩
      · simp only [newFiles, List.forall_mem_cons]
        exact ⟨hw₁, hw₂, hw₃, List.forall_mem_nil _⟩

end WriteFiles

/-! ### What becomes of an old job -/

/-- The directory of a job, with these files in it. -/
structure JobAt (fs : FileSystem) (dir submitSh jobscript serverLog workfile : Text) : Prop where
  kind : fs.kind dir = .directory
  submitSh : fs.file dir "submit.sh" = .ok submitSh
  jobscript : fs.file dir "jobscript.sh" = .ok jobscript
  serverLog : fs.file dir "server.log" = .ok serverLog
  workfile : fs.file dir "workerfile.txt" = .ok workfile

theorem JobAt.jobDir {fs : FileSystem} {dir submitSh jobscript serverLog workfile : Text}
    (h : JobAt fs dir submitSh jobscript serverLog workfile) :
    fs.jobDir dir = .directory (.ok submitSh) (.ok jobscript) := by
  rw [FileSystem.jobDir, h.kind, h.submitSh, h.jobscript]

section Resubmit

variable {tb : CharTable} {inst : Installation} {pd : Pandas} {run : List Text → SubmitRun}
  {renameError : Text → Option PyException} {fs : FileSystem} {args newArgs oldArgs : List Str}
  {submitSh jobscript serverLog workfile path : Text} {r : ResubmitData} {is : List Text}

/-- What `wresume` does with the items it selects. -/
theorem main_eq (h : ResubmitOptionParser.parse tb inst.sch fs.jobDir args = .ok r)
    (hmkdir : fs.mkdirError = none)
    (hat : JobAt fs r.options.dir submitSh jobscript serverLog workfile) :
    Wresume.main inst pd run renameError tb fs args =
      match selectIds tb pd r.options.redo serverLog with
      | .error e => notSubmitted .empty [] (.uncaught (.log e))
      | .ok ids =>
          if ids.length = 0 then
            notSubmitted .empty (printLine "no work to be done".toList) .noWork
          else
            match writeFiles inst fs r ids with
            | (newDir, some e) => notSubmitted newDir [] (.uncaught (.py e.exception))
            | (newDir, none) =>
                resubmit run renameError r.options.dryrun
                  (SubmitJob.command inst.submitCommand
                    (inst.sch.preprocessCliOptions r.schedulerOptions) inst.jobscriptPath)
                  newDir ids.length := by
  simp only [Wresume.main, h, hmkdir, hat.serverLog]

/-- **A job is resubmitted**: `todo` are the items to do. -/
structure Resubmitted (inst : Installation) (run : List Text → SubmitRun)
    (renameError : Text → Option PyException) (r : ResubmitData) (todo : Finset ℕ) (is : List Text)
    (outcome : ResumeOutcome) : Prop where
  /-- The command has the options that the parser returned. -/
  command : outcome.command = some (SubmitJob.command inst.submitCommand
    (inst.sch.preprocessCliOptions r.schedulerOptions) inst.jobscriptPath)
  /-- The new workfile holds the items to do, but for the last item of the old one. -/
  workfile : ∃ text, outcome.newDir.bind NewDir.workfile = some text ∧
    Holds text ((keptItems todo is).map printLine)
  /-- The command can be read back when the new job is resumed in turn. -/
  submitSh : IsWord inst.submitCommand →
    (∀ arg ∈ inst.sch.preprocessCliOptions r.schedulerOptions ++ [inst.jobscriptPath],
      Unbroken arg) →
    ∃ text, outcome.newDir.bind NewDir.submitSh = some text ∧ parseSubmitCmd text =
      .ok (inst.sch.preprocessCliOptions r.schedulerOptions ++ [inst.jobscriptPath])
  /-- A job that is accepted and whose id is known has its directory, and `wresume` prints
  its id behind the number of items to do. -/
  submitted : r.options.dryrun = false → ∀ command jobId, outcome.command = some command →
    submitJob (run command) = .ok jobId → jobId ≠ [] → renameError (workerDir jobId) = none →
      outcome.newDir.map NewDir.artifacts = some (.renamed (workerDir jobId)) ∧
        outcome.stdout = printLine ("total number of work items: ".toList ++
          pyStr ((keptItems todo is).length + if is.length ∈ todo then 1 else 0)) ++
            printLine jobId

variable (run renameError) in
/-- The command and the files stay as they are from `submit_job` on. -/
theorem resubmit_files (dryrun : Bool) (command : List Text) (newDir : NewDir) (n : ℕ) :
    (resubmit run renameError dryrun command newDir n).command = some command ∧
      (resubmit run renameError dryrun command newDir n).newDir.bind NewDir.workfile =
        newDir.workfile ∧
      (resubmit run renameError dryrun command newDir n).newDir.bind NewDir.submitSh =
        newDir.submitSh := by
  unfold resubmit
  split_ifs
  · exact ⟨rfl, rfl, rfl⟩
  · split
    · exact ⟨rfl, rfl, rfl⟩
    · exact ⟨rfl, rfl, rfl⟩

/-- A job that is accepted. -/
theorem resubmit_submitted {command : List Text} (newDir : NewDir) (n : ℕ) {jobId : Text}
    (h : submitJob (run command) = .ok jobId) (hne : jobId ≠ [])
    (hrename : renameError (workerDir jobId) = none) :
    (resubmit run renameError false command newDir n).newDir.map NewDir.artifacts =
        some (.renamed (workerDir jobId)) ∧
      (resubmit run renameError false command newDir n).stdout =
        printLine ("total number of work items: ".toList ++ pyStr n) ++ printLine jobId := by
  simp only [resubmit, h, finish_of_ne_nil hne hrename]
  exact ⟨rfl, rfl⟩

/-- **From `submit_job` on**, with a workfile of the items to do. -/
theorem resubmitted_resubmit {todo : Finset ℕ} {text : Text} {n : ℕ}
    (hholds : Holds text ((keptItems todo is).map printLine))
    (hn : n = (keptItems todo is).length + if is.length ∈ todo then 1 else 0) :
    Resubmitted inst run renameError r todo is
      (resubmit run renameError r.options.dryrun
        (SubmitJob.command inst.submitCommand (inst.sch.preprocessCliOptions r.schedulerOptions)
          inst.jobscriptPath)
        ⟨.temporary, some text, some (newJobscript inst r), some (SubmitJob.file inst.submitCommand
          (inst.sch.preprocessCliOptions r.schedulerOptions) inst.jobscriptPath)⟩ n) := by
  obtain ⟨hcommand, hworkfile, hsubmitSh⟩ := resubmit_files run renameError
    r.options.dryrun (SubmitJob.command inst.submitCommand
      (inst.sch.preprocessCliOptions r.schedulerOptions) inst.jobscriptPath)
    ⟨.temporary, some text, some (newJobscript inst r), some (SubmitJob.file inst.submitCommand
      (inst.sch.preprocessCliOptions r.schedulerOptions) inst.jobscriptPath)⟩ n
  refine ⟨hcommand, ⟨text, hworkfile, hholds⟩, fun hword hlines => ?_, fun hdry command jobId
    hc hsubmit hne hrename => ?_⟩
  · exact ⟨_, hsubmitSh, parseSubmitCmd_of_unbroken hword hlines⟩
  · obtain rfl := Option.some.inj (hcommand.symm.trans hc)
    rw [hdry, ← hn]
    exact resubmit_submitted _ n hsubmit hne hrename

variable (inst run renameError) in
/-- **`wresume` on the directory of a job** that `wsub` submitted and that has got into a
reachable state.  Before an item was handed out it crashes, with nothing to do it ends,
and in both cases an empty directory stays behind; else the job is resubmitted if the
files can be written, with the options that the two command lines and the directives
give. -/
theorem resubmitted_of_reachable {C Uuid : Type} [DecidableEq C] {job : Job C Uuid}
    {s : System C Uuid} (hs : System.Reachable job System.anyStep s) {log : List LogRecord}
    (hlog : log.map LogRecord.toLogMessage = s.server.log) (hw : Holds workfile is)
    (hjob : job.workfile = utf8 workfile)
    {files : Text → Except OsError Text} {data : SubmitData} {submitArgs : List Str}
    (hsubmit : SubmitOptionParser.parse tb inst.sch files submitArgs = .ok data)
    {submitCommand : Text} (hword : IsWord submitCommand) (hpath : path.head? = some '/')
    (hlines : ∀ arg ∈ data.schedulerOptions ++ [path], Unbroken arg)
    (hparse : ResubmitOptionParser.parse tb inst.sch fs.jobDir args = .ok r)
    (hmkdir : fs.mkdirError = none)
    (hat : JobAt fs r.options.dir (SubmitJob.file submitCommand data.schedulerOptions path)
      jobscript (logText log) workfile) :
    (Protocol.workIds s.trace = [] → Wresume.main inst pd run renameError tb fs args =
      notSubmitted .empty [] (.uncaught (.log .attributeError))) ∧
    (Protocol.workIds s.trace ≠ [] → redoIds r.options.redo s = ∅ →
      Wresume.main inst pd run renameError tb fs args =
        notSubmitted .empty (printLine "no work to be done".toList) .noWork) ∧
    (redoIds r.options.redo s ≠ ∅ →
      (fs.Writable → Resubmitted inst run renameError r (redoIds r.options.redo s) is
          (Wresume.main inst pd run renameError tb fs args)) ∧
        ∃ newArgs argss ns, filterCommandCl tb inst.sch .resubmit args = .ok newArgs ∧
          (directiveLines r.options.directivePrefix true (fileLines jobscript)).mapM
            (lexLine r.options.directivePrefix) = .ok argss ∧
          r.schedulerOptions = optionsDict2list ns ∧
          Options.Resumed tb inst.sch newArgs data.schedulerOptions path argss.flatten ns) := by
  obtain ⟨hcrash, hselect⟩ := workIds_of_reachable hs tb hlog r.options.redo
  obtain ⟨_, hverified⟩ := verified_of_parse hsubmit
  have hrange := range_redoIds hs hw hjob r.options.redo
  rw [main_eq hparse hmkdir hat, selectIds_of_reachable hs tb pd hlog]
  refine ⟨fun hnone => ?_, fun hsome hempty => ?_, fun hne => ⟨fun hwrite => ?_, ?_⟩⟩
  · rw [hcrash hnone]
  · obtain ⟨ids, hids, -, hmem⟩ := hselect hsome
    rw [hids]
    exact if_pos (List.length_eq_zero_iff.2 ((eq_nil_iff_redoIds hmem).2 hempty))
  · obtain ⟨ids, hids, hnodup, hmem⟩ := hselect (workIds_ne_nil hs hne)
    have hpos : ids.length ≠ 0 := fun hnil =>
      hne ((eq_nil_iff_redoIds hmem).1 (List.length_eq_zero_iff.1 hnil))
    rw [hids]
    dsimp only
    rw [if_neg hpos, writeFiles_eq inst hwrite hat.workfile]
    exact resubmitted_resubmit (select_eq_keptItems hrange hmem ▸ hw.filterWorkfile ids)
      (length_ids hrange hnodup hmem)
  · exact resumed_of_parse hverified hword hpath hlines hparse hat.jobDir

/-! ### What stays behind -/

/-- **All or nothing**: a job was accepted, its directory has its name and its id was
printed; or no job was accepted, and there is no directory. -/
def Tidy (outcome : ResumeOutcome) : Prop :=
  (∃ jobId, outcome.accepted = true ∧
      outcome.newDir.map NewDir.artifacts = some (.renamed (workerDir jobId)) ∧
      printLine jobId <:+ outcome.stdout) ∨
    outcome.accepted = false ∧ outcome.newDir = none

/-- There is work to be done, and the old workfile can be read. -/
structure HasWork (tb : CharTable) (pd : Pandas) (fs : FileSystem) (r : ResubmitData) : Prop where
  log : ∃ log ids, fs.file r.options.dir "server.log" = .ok log ∧
    selectIds tb pd r.options.redo log = .ok ids ∧ ids ≠ []
  workfile : ∃ workfile, fs.file r.options.dir "workerfile.txt" = .ok workfile

/-- The command is run and succeeds, and with what it writes the directory can be named. -/
structure Named (inst : Installation) (run : List Text → SubmitRun)
    (renameError : Text → Option PyException) (r : ResubmitData) : Prop where
  dryrun : r.options.dryrun = false
  run : ∃ stdout stderr, run (SubmitJob.command inst.submitCommand
      (inst.sch.preprocessCliOptions r.schedulerOptions) inst.jobscriptPath) =
        .completed 0 stdout stderr ∧
    strip stdout ≠ [] ∧ renameError (workerDir (strip stdout)) = none

theorem not_tidy_notSubmitted (newDir : NewDir) (stdout : Text) (ending : ResumeEnding) :
    ¬Tidy (notSubmitted newDir stdout ending) := by
  rintro (⟨jobId, haccepted, -⟩ | ⟨-, hdir⟩)
  · cases haccepted
  · cases hdir

theorem tidy_notParsed (e : ParserError) : Tidy (notParsed e) := by
  refine .inr ?_
  unfold notParsed
  split
  · exact ⟨rfl, rfl⟩
  · split_ifs
    · exact ⟨rfl, rfl⟩
    · exact ⟨rfl, rfl⟩
  · exact ⟨rfl, rfl⟩

/-- A job id comes from a command that succeeds. -/
theorem completed_of_submitJob {run : SubmitRun} {jobId : Text} (h : submitJob run = .ok jobId) :
    ∃ stdout stderr, run = .completed 0 stdout stderr ∧ jobId = strip stdout := by
  cases run with
  | notStarted error => cases h
  | undecodable returncode message => cases h
  | completed returncode stdout stderr =>
      by_cases hrc : returncode = 0
      · subst hrc
        exact ⟨stdout, stderr, rfl, (Except.ok.inj h).symm⟩
      · rw [submitJob_of_ne_zero hrc] at h
        cases h

/-- **From `submit_job` on** the directory has to get its name. -/
theorem tidy_resubmit {command : List Text} {newDir : NewDir}
    (hdir : newDir.artifacts = .temporary) (dryrun : Bool) (n : ℕ) :
    Tidy (resubmit run renameError dryrun command newDir n) ↔
      dryrun = false ∧ ∃ stdout stderr, run command = .completed 0 stdout stderr ∧
        strip stdout ≠ [] ∧ renameError (workerDir (strip stdout)) = none := by
  constructor
  · rintro (⟨jobId, -, hname, -⟩ | ⟨-, hnone⟩)
    · unfold resubmit at hname
      split_ifs at hname with hdry
      · rw [Option.map_some, hdir] at hname
        cases hname
      · refine ⟨by simpa using hdry, ?_⟩
        split at hname
        next e he =>
          rw [Option.map_some, hdir] at hname
          cases hname
        next j hj =>
          obtain ⟨stdout, stderr, hrun, rfl⟩ := completed_of_submitJob hj
          exact ⟨stdout, stderr, hrun, renamed_of_finish (Option.some.inj hname)⟩
    · unfold resubmit at hnone
      split_ifs at hnone
      split at hnone
      · cases hnone
      · cases hnone
  · rintro ⟨rfl, stdout, stderr, hrun, hne, hrename⟩
    have hsubmit : submitJob (run command) = .ok (strip stdout) := by
      rw [hrun]
      rfl
    obtain ⟨hname, hstdout⟩ := resubmit_submitted newDir n hsubmit hne hrename
    have haccepted : (resubmit run renameError false command newDir n).accepted = true := by
      simp only [resubmit, hsubmit]
      rw [if_neg Bool.false_ne_true]
      exact (accepted_finish _ _ _).trans (by rw [hrun]; rfl)
    exact .inl ⟨strip stdout, haccepted, hname, hstdout ▸ List.suffix_append _ _⟩

variable (run renameError) in
/-- **`wresume` gets to the submission** exactly when there is work to be done and the files
can be written. -/
theorem main_cases (h : ResubmitOptionParser.parse tb inst.sch fs.jobDir args = .ok r)
    (hmkdir : fs.mkdirError = none) :
    (¬(HasWork tb pd fs r ∧ fs.Writable) ∧ ∃ newDir stdout ending,
        Wresume.main inst pd run renameError tb fs args = notSubmitted newDir stdout ending) ∨
      (HasWork tb pd fs r ∧ fs.Writable) ∧ ∃ newDir n, newDir.artifacts = .temporary ∧
        Wresume.main inst pd run renameError tb fs args =
          resubmit run renameError r.options.dryrun (SubmitJob.command inst.submitCommand
            (inst.sch.preprocessCliOptions r.schedulerOptions) inst.jobscriptPath) newDir n := by
  simp only [Wresume.main, h, hmkdir]
  cases hlog : fs.file r.options.dir "server.log" with
  | error e =>
      refine .inl ⟨fun ⟨hwork, _⟩ => ?_, _, _, _, rfl⟩
      obtain ⟨log, ids, hok, -⟩ := hwork.log
      cases hlog.symm.trans hok
  | ok log =>
      dsimp only
      cases hids : selectIds tb pd r.options.redo log with
      | error e =>
          refine .inl ⟨fun ⟨hwork, _⟩ => ?_, _, _, _, rfl⟩
          obtain ⟨log', ids, hok, hids', -⟩ := hwork.log
          obtain rfl := Except.ok.inj (hlog.symm.trans hok)
          cases hids.symm.trans hids'
      | ok ids =>
          dsimp only
          by_cases hnil : ids.length = 0
          · refine .inl ⟨fun ⟨hwork, _⟩ => ?_, _, _, _, if_pos hnil⟩
            obtain ⟨log', ids', hok, hids', hne⟩ := hwork.log
            obtain rfl := Except.ok.inj (hlog.symm.trans hok)
            obtain rfl := Except.ok.inj (hids.symm.trans hids')
            exact hne (List.length_eq_zero_iff.1 hnil)
          · rw [if_neg hnil]
            rcases hfiles : writeFiles inst fs r ids with ⟨newDir, _ | e⟩
            · obtain ⟨hwrite, hworkfile⟩ := of_writeFiles inst hfiles
              have hdir : newDir.artifacts = .temporary := by
                have hart : (writeFiles inst fs r ids).1.artifacts = .temporary :=
                  artifacts_writeFiles inst
                rwa [hfiles] at hart
              refine .inr ⟨⟨⟨⟨log, ids, hlog, hids, ?_⟩, hworkfile⟩, hwrite⟩, _, _, hdir, rfl⟩
              rintro rfl
              exact hnil rfl
            · refine .inl ⟨fun ⟨hwork, hwrite⟩ => ?_, _, _, _, rfl⟩
              obtain ⟨workfile, hworkfile⟩ := hwork.workfile
              cases hfiles.symm.trans (writeFiles_eq inst hwrite hworkfile)

/-- **`wresume` is all or nothing** exactly if it can not read its command line or the
directory of the job, or make a new one, or if there is work to be done, its files can be
written and an accepted job gets its name. -/
theorem tidy_iff (inst : Installation) (pd : Pandas) (run : List Text → SubmitRun)
    (renameError : Text → Option PyException) (tb : CharTable) (fs : FileSystem)
    (args : List Str) :
    Tidy (Wresume.main inst pd run renameError tb fs args) ↔
      ∀ r, ResubmitOptionParser.parse tb inst.sch fs.jobDir args = .ok r → fs.mkdirError = none →
        (HasWork tb pd fs r ∧ fs.Writable) ∧ Named inst run renameError r := by
  cases hparse : ResubmitOptionParser.parse tb inst.sch fs.jobDir args with
  | error e =>
      simp only [Wresume.main, hparse]
      exact iff_of_true (tidy_notParsed e) fun r hr => absurd hr (by simp)
  | ok r =>
      simp only [Except.ok.injEq, forall_eq']
      cases hmkdir : fs.mkdirError with
      | some e =>
          simp only [Wresume.main, hparse, hmkdir]
          exact iff_of_true (.inr ⟨rfl, rfl⟩) fun h => by cases h
      | none =>
          rw [forall_prop_of_true rfl]
          rcases main_cases run renameError hparse hmkdir with
            ⟨hwork, newDir, stdout, ending, hmain⟩ | ⟨hwork, newDir, n, hdir, hmain⟩
          · rw [hmain]
            exact iff_of_false (not_tidy_notSubmitted newDir stdout ending) fun h => hwork h.1
          · rw [hmain, tidy_resubmit hdir]
            constructor
            · rintro ⟨hdry, hrun⟩
              exact ⟨hwork, hdry, hrun⟩
            · rintro ⟨-, hdry, hrun⟩
              exact ⟨hdry, hrun⟩

end Resubmit

/-- A directory with these files, whatever its path. -/
def jobFiles (submitSh jobscript serverLog workfile : Text) : FileSystem where
  kind _ := .directory
  file _ name :=
    if name = "submit.sh" then .ok submitSh
    else if name = "jobscript.sh" then .ok jobscript
    else if name = "server.log" then .ok serverLog
    else .ok workfile
  mkdirError := none
  templateError := none
  openError _ := none
  writeError _ := none

theorem jobAt_jobFiles (submitSh jobscript serverLog workfile dir : Text) :
    JobAt (jobFiles submitSh jobscript serverLog workfile) dir submitSh jobscript serverLog
      workfile := by
  constructor <;> simp [jobFiles]

/-- An installation for PBS torque. -/
def somewhere : Installation where
  sch := .pbsTorque
  submitCommand := "qsub".toList
  config := ⟨"/opt/worker".toList, "5555".toList, "5".toList, "'^VSC'".toList, "'^PBS_'".toList⟩
  cwd := "/home".toList
  tempdirPath := "/home/tmp".toList

/-- The command succeeds and writes a job id. -/
def accepting (_ : List Text) : SubmitRun := .completed 0 "1235.master\n".toList []

/-- The first item was killed by a signal and the second one, the last of the workfile,
is being executed: with `--redo` the first one is resubmitted. -/
theorem resubmitted_of_reachable_redo : ∃ (fs : FileSystem) (text : Text),
    Holds text ["echo hello\n\n".toList] ∧
      (Wresume.main somewhere doubleFrame accepting (fun _ => none) asciiTable fs
        resubmitArgs).newDir.bind NewDir.workfile = some text ∧
      (Wresume.main somewhere doubleFrame accepting (fun _ => none) asciiTable fs
        resubmitArgs).newDir.map NewDir.artifacts =
          some (.renamed "worker_1235.master".toList) := by
  obtain ⟨s, hrun, hs⟩ := exists_of_exec exec_failedRun
  simp only [Prod.mk.injEq] at hs
  have htodo : redoIds true s = {2, 1} := by
    rw [redoIds, handledIds, hs.2.1, hs.2.2]
    decide
  have hw : Holds "echo hello\n#WORKER----\necho world\n".toList
      ["echo hello\n".toList, "echo world\n".toList] := ⟨by decide +kernel, by decide⟩
  have hdata : (SubmitOptionParser.parse asciiTable .pbsTorque (fun _ => .ok batchScript)
      submitArgs).map (·.schedulerOptions) = .ok (submitArgs.take 6) := by decide +kernel
  obtain ⟨data, hsubmit, hold⟩ := map_eq_ok hdata
  have hr : (ResubmitOptionParser.parse asciiTable .pbsTorque (fun _ => .directory
      (.ok (SubmitJob.file "qsub".toList (submitArgs.take 6) "/tmp/job.sh".toList))
      (.ok batchScript)) resubmitArgs).map (fun r => (r.options.redo, r.options.dryrun)) =
        .ok (true, false) := by
    decide +kernel
  rw [← hold] at hr
  obtain ⟨r, hresubmit, hflags⟩ := map_eq_ok hr
  obtain ⟨hredo, hdry⟩ := Prod.mk.inj hflags
  have hlines : ∀ arg ∈ data.schedulerOptions ++ ["/tmp/job.sh".toList], Unbroken arg := by
    rw [hold]
    decide +kernel
  have hat := jobAt_jobFiles (SubmitJob.file "qsub".toList data.schedulerOptions
    "/tmp/job.sh".toList) batchScript (logText (stampAll someTime s.server.log))
    "echo hello\n#WORKER----\necho world\n".toList r.options.dir
  have hjobDir : (jobFiles (SubmitJob.file "qsub".toList data.schedulerOptions
      "/tmp/job.sh".toList) batchScript (logText (stampAll someTime s.server.log))
      "echo hello\n#WORKER----\necho world\n".toList).jobDir = fun _ => .directory
        (.ok (SubmitJob.file "qsub".toList data.schedulerOptions "/tmp/job.sh".toList))
        (.ok batchScript) := funext fun dir => (jobAt_jobFiles _ _ _ _ dir).jobDir
  rw [← hjobDir] at hresubmit
  obtain ⟨-, -, hthird⟩ := resubmitted_of_reachable somewhere accepting (fun _ => none)
    (hrun.mono fun _ _ _ => trivial) (map_stampAll someTime s.server.log) hw rfl hsubmit
    (by decide) (by decide) hlines hresubmit rfl hat
  rw [hredo, htodo] at hthird
  obtain ⟨hwritten, -⟩ := hthird (by decide)
  have hre := hwritten ⟨rfl, fun _ _ => rfl, fun _ _ => rfl⟩
  obtain ⟨text, hworkfile, hholds⟩ := hre.workfile
  have hkept : keptItems {2, 1} ["echo hello\n".toList, "echo world\n".toList] =
      ["echo hello\n".toList] := by
    decide +kernel
  rw [hkept] at hholds
  exact ⟨_, text, hholds, hworkfile, (hre.submitted hdry _ "1235.master".toList hre.command rfl
    (by decide) rfl).1⟩

end EndToEnd
end WorkerNg
