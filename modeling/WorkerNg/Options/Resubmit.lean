/-
# What a resumed job asks the scheduler for

`SubmitOptionParser.parse` and `ResubmitOptionParser.parse` in
`scripts/worker/option_parser.py`.

`wsub` takes from its command line what is for the submit command, checks it
against the scheduler's tables, and records it in `submit.sh` with the path of the
job script behind it.  `wresume` reads it back, merges it with what is on its own
command line, and adds the options that the directives of the recorded job script
give to the scheduler's base parser.

So an option of a resumed job comes from one of three places (`resumed_of_submit`).
An option that is passed through has its value from the command line of `wresume`,
or else from that of `wsub`, on which the path of the job script has no influence,
as `wsub` has checked.  A name or an array request that is not passed through comes
from the directives alone: with Slurm a job name on either command line is lost.
Resources are merged as the scheduler's `merge_options` does.
-/

import WorkerNg.Options.OptionParser

namespace WorkerNg
namespace Options

open Argparse Resume Work
open Submit (OsError PyException parseSubmitCmd IsWord Unbroken)

/-- How `parse` ends when it does not return. -/
inductive ParserError where
  | cl (e : CliError)
  | os (e : OsError)
  | workerDir (msg : Text)
  | submitCmd (e : PyException)
  | options (e : OptionError)
  | scheduler (e : Exit)
deriving DecidableEq

namespace Scheduler

/-- The options of `_base_parser`. -/
def baseActions (sch : Scheduler) : List Action :=
  [addArgument .store sch.nameOption, addArgument .store sch.arrayOption]

/-- `_base_parser`. -/
def baseParser (sch : Scheduler) (digit : Char → Bool) : Parser := ⟨sch.baseActions, digit⟩

end Scheduler

/-- What `SubmitOptionParser.parse` returns.  The attributes of `options` are those of
the two namespaces, none of which is in both. -/
structure SubmitData where
  options : WorkerOptions
  scriptOptions : Namespace
  shebang : Option Text
  directives : Text
  script : Text
  schedulerOptions : List Str

/-- What `ResubmitOptionParser.parse` returns. -/
structure ResubmitData where
  options : WorkerOptions
  shebang : Option Text
  directives : Text
  schedulerOptions : List Str

/-- What is at the path of a job directory: nothing, something else, or a directory
with what opening `submit.sh` and `jobscript.sh` in it comes to. -/
inductive JobDir where
  | missing
  | notDirectory
  | directory (submitSh jobscriptSh : Except OsError Text)

section Parse

variable (tb : CharTable) (sch : Scheduler)

/-- `_verify_scheduler_args`. -/
def verifySchedulerArgs (args : List Str) : Except ParserError Unit :=
  match (sch.passThroughParser (digit tb)).occurrences args with
  | .ok _ => .ok ()
  | .error e => .error (.scheduler e)

/-- `SubmitOptionParser.parse`; `files` is what opening a batch script comes to. -/
def SubmitOptionParser.parse (files : Text → Except OsError Text) (args : List Str) :
    Except ParserError SubmitData := do
  let clOptions ← (filterWorkerCl tb sch .submit args).mapError .cl
  let file ← (files clOptions.script).mapError .os
  let parserResult ←
    (sch.parseScript (digit tb) clOptions.directivePrefix file).mapError .options
  let schedulerOptions ← (filterCommandCl tb sch .submit args).mapError .cl
  verifySchedulerArgs tb sch schedulerOptions
  return { options := clOptions, scriptOptions := parserResult.options,
           shebang := parserResult.shebang, directives := parserResult.directives,
           script := parserResult.script, schedulerOptions := schedulerOptions }

/-- `str(pathlib.Path(path))`: neither empty parts nor `.`, except for the root. -/
def pathStr (path : Text) : Text :=
  let parts := (path.splitOn '/').filter fun part => !part.isEmpty && part != ['.']
  let root := path.takeWhile (· == '/')
  -- two slashes are a root of their own, three are one
  let s := (if root.length ≤ 2 then root else ['/']) ++ ['/'].intercalate parts
  if s.isEmpty then ['.'] else s

/-- `ResubmitOptionParser.parse`, with the files of the job directory. -/
def ResubmitOptionParser.parse (dirs : Text → JobDir) (args : List Str) :
    Except ParserError ResubmitData := do
  let clOptions ← (filterWorkerCl tb sch .resubmit args).mapError .cl
  match dirs clOptions.dir with
  | .missing =>
      .error (.workerDir ("directory ".toList ++ pathStr clOptions.dir ++
        " does not exist".toList))
  | .notDirectory =>
      .error (.workerDir (pathStr clOptions.dir ++ " is not a directory".toList))
  | .directory submitSh jobscriptSh => do
      let submitSh ← submitSh.mapError .os
      let originalSubmitOptions ← (parseSubmitCmd submitSh).mapError .submitCmd
      let resubmitOptions ← (filterCommandCl tb sch .resubmit args).mapError .cl
      let submitOptions ←
        (sch.mergeOptions (digit tb) resubmitOptions originalSubmitOptions).mapError .options
      let jobscriptSh ← jobscriptSh.mapError .os
      let parserResult ←
        (sch.parseScript (digit tb) clOptions.directivePrefix jobscriptSh).mapError .options
      return { options := clOptions, shebang := parserResult.shebang,
               directives := parserResult.directives,
               schedulerOptions := optionsDict2list (parserResult.options.update submitOptions) }

end Parse

/-! ### The options of a resumed job -/

/-- The resources of a resumed job: with Slurm those that `wresume` is given, with PBS
torque the last request for a key, be it a new one or an old one. -/
def ResourcesResumed (tb : CharTable) (newArgs recorded : List Str) (ns : Namespace) :
    Scheduler → Prop
  | .slurm => ∀ a ∈ Slurm.resourceActions, ns.get? a.dest =
      some ((given (Slurm.resourceParser (digit tb)) newArgs a.dest).getD (a.default.getD .none))
  | .pbsTorque => ∀ key, PbsTorque.lastRequest ((PbsTorque.resources? ns).getD []) key =
      (PbsTorque.lastRequest (PbsTorque.requested (digit tb) newArgs) key).or
        (PbsTorque.lastRequest (PbsTorque.requested (digit tb) recorded) key)

/-- **What a resumed job asks for**: `newArgs` are what `wresume` passes on, `oldArgs`
what `wsub` has passed on, `path` is that of the job script, and `scriptArgs` are the
words of its directives. -/
structure Resumed (tb : CharTable) (sch : Scheduler) (newArgs oldArgs : List Str) (path : Text)
    (scriptArgs : List Str) (ns : Namespace) : Prop where
  passThrough : ∀ a ∈ sch.passThroughActions, ns.get? a.dest =
    some (merged (sch.passThroughParser (digit tb)) newArgs oldArgs a)
  fromScript : ∀ a ∈ sch.baseActions, (∀ b ∈ sch.actions, b.dest ≠ a.dest) →
    ns.get? a.dest = some ((given (sch.baseParser (digit tb)) scriptArgs a.dest).getD .none)
  resources : ResourcesResumed tb newArgs (oldArgs ++ [path]) ns sch

section Resume

variable {tb : CharTable} {sch : Scheduler} {args newArgs oldArgs : List Str}
  {ns ns' : Namespace} {path file : Text} {directivePrefix : Text}

/-- What `wsub` passes on has been parsed by the scheduler's tables. -/
theorem verified_of_parse {files : Text → Except OsError Text} {data : SubmitData}
    (h : SubmitOptionParser.parse tb sch files args = .ok data) :
    ∃ r, (sch.passThroughParser (digit tb)).occurrences data.schedulerOptions = .ok r := by
  obtain ⟨clOptions, -, h⟩ := bind_eq_ok h
  obtain ⟨file, -, h⟩ := bind_eq_ok h
  obtain ⟨parserResult, -, h⟩ := bind_eq_ok h
  obtain ⟨schedulerOptions, -, h⟩ := bind_eq_ok h
  obtain ⟨⟨⟩, hverify, h⟩ := bind_eq_ok h
  cases h
  rw [verifySchedulerArgs] at hverify
  split at hverify
  next r hr => exact ⟨r, hr⟩
  next => cases hverify

/-- A path is an argument. -/
theorem parseOptional_path {p : Parser} (hpath : path.head? = some '/') :
    p.parseOptional path = .ok .argument := by
  rw [Parser.parseOptional, if_pos (by simp [hpath])]

theorem path_ne_dashes (hpath : path.head? = some '/') : path ≠ ['-', '-'] := by
  rintro rfl
  cases hpath

theorem mapError_eq_ok {α ε δ : Type} {f : ε → δ} {x : Except ε α} {a : α}
    (h : x.mapError f = .ok a) : x = .ok a := by
  cases x with
  | error e => cases h
  | ok b => exact congrArg Except.ok (Except.ok.inj h)

/-- What a script gives to the base parser: the words of its directives. -/
theorem options_of_parseScript {d : ParseData}
    (h : sch.parseScript (digit tb) directivePrefix file = .ok d) :
    ∃ argss, (directiveLines directivePrefix true (fileLines file)).mapM
        (lexLine directivePrefix) = .ok argss ∧
      parse (sch.baseParser (digit tb)) argss.flatten Dict.empty = .ok d.options := by
  have hparse : parseDirectives (sch.baseParser (digit tb)) directivePrefix
      (directiveLines directivePrefix true (fileLines file)) = .ok d.options := by
    cases sch with
    | slurm =>
        obtain ⟨options, hoptions, rfl⟩ :=
          map_eq_ok ((Slurm.parseScript_eq _ _ _).symm.trans h)
        exact hoptions
    | pbsTorque =>
        obtain ⟨options, hoptions, rfl⟩ :=
          map_eq_ok ((PbsTorque.parseScript_eq _ _ _).symm.trans h)
        exact hoptions
  exact bind_eq_ok hparse

theorem distinct_baseActions : Distinct sch.baseActions := by
  cases sch <;> decide +kernel

theorem kind_of_mem_baseActions {a : Action} (ha : a ∈ sch.baseActions) : a.kind = .store := by
  rcases List.mem_pair.1 ha with rfl | rfl <;> rfl

theorem get?_mergeOptions (h : sch.mergeOptions (digit tb) newArgs oldArgs = .ok ns) {a : Action}
    (ha : a ∈ sch.passThroughActions) : ns.get? a.dest =
      some (merged (sch.passThroughParser (digit tb)) newArgs oldArgs a) := by
  cases sch with
  | slurm => exact (Slurm.get?_mergeOptions h).1 a ha
  | pbsTorque => exact PbsTorque.get?_mergeOptions h ha

/-- The resources that `merge_options` returns are left in the namespace. -/
theorem resourcesResumed_of_mergeOptions {recorded : List Str}
    (h : sch.mergeOptions (digit tb) newArgs recorded = .ok ns) (base : Namespace) :
    ResourcesResumed tb newArgs recorded (base.update ns) sch := by
  cases sch with
  | slurm =>
      intro a ha
      rw [Dict.get?_update, (Slurm.get?_mergeOptions h).2 a ha, Option.some_or]
  | pbsTorque =>
      obtain ⟨oldOptions, hold, h⟩ := bind_eq_ok h
      obtain ⟨mergedOptions, hmerged, h⟩ := bind_eq_ok h
      obtain ⟨oldResources, hoR, h⟩ := bind_eq_ok h
      obtain ⟨newResources, hnR, h⟩ := bind_eq_ok h
      obtain ⟨resources, hres, h⟩ := bind_eq_ok h
      intro key
      have hl : ns.get? PbsTorque.resourceDest = some (PbsTorque.resourceValue resources) :=
        get?_join_left h (by rw [Dict.get?_set, if_pos rfl])
      have hns : PbsTorque.resources? (base.update ns) = resources := by
        rw [PbsTorque.resources?, Dict.get?_update, hl]
        cases resources <;> rfl
      rw [hns, PbsTorque.lastRequest_merge hres, PbsTorque.getD_resources?_parse hnR,
        PbsTorque.getD_resources?_parse hoR]

/-- **The options merged.** -/
theorem resumed_of_mergeOptions
    (h : sch.mergeOptions (digit tb) newArgs (oldArgs ++ [path]) = .ok ns)
    (hpath : path.head? = some '/') {r : List Occurrence × List Str}
    (hverified : (sch.passThroughParser (digit tb)).occurrences oldArgs = .ok r)
    {scriptArgs : List Str} {base : Namespace}
    (hbase : parse (sch.baseParser (digit tb)) scriptArgs Dict.empty = .ok base) :
    Resumed tb sch newArgs oldArgs path scriptArgs (base.update ns) := by
  constructor
  · intro a ha
    have hgiven := given_concat (d := a.dest) (path_ne_dashes hpath) (parseOptional_path hpath)
      hverified
    rw [Dict.get?_update, get?_mergeOptions h ha, Option.some_or, merged, merged, hgiven]
  · intro a ha hother
    have hnone : ns.get? a.dest = none := by
      by_contra hsome
      obtain ⟨b, hb, hdest⟩ := (complete_mergeOptions h).key a.dest hsome
      exact hother b hb hdest
    have hkind := kind_of_mem_baseActions ha
    rw [Dict.get?_update, hnone, Option.none_or,
      get?_parse distinct_baseActions hbase ha (.inl hkind), Dict.get?_empty, Option.or_none,
      Action.default, hkind]
    rfl
  · exact resourcesResumed_of_mergeOptions h base

/-- What `wresume` reads of a job directory, the command line that it resumes being one
that the scheduler's tables parse. -/
theorem resumed_of_parse {r₀ : List Occurrence × List Str}
    (hverified : (sch.passThroughParser (digit tb)).occurrences oldArgs = .ok r₀)
    {submitCommand : Text} (hword : IsWord submitCommand) (hpath : path.head? = some '/')
    (hlines : ∀ arg ∈ oldArgs ++ [path], Unbroken arg)
    {dirs : Text → JobDir} {jobscript : Text} {resubmitArgs : List Str} {r : ResubmitData}
    (h : ResubmitOptionParser.parse tb sch dirs resubmitArgs = .ok r)
    (hdir : dirs r.options.dir = .directory
      (.ok (Submit.SubmitJob.file submitCommand oldArgs path)) (.ok jobscript)) :
    ∃ newArgs argss ns, filterCommandCl tb sch .resubmit resubmitArgs = .ok newArgs ∧
      (directiveLines r.options.directivePrefix true (fileLines jobscript)).mapM
        (lexLine r.options.directivePrefix) = .ok argss ∧
      r.schedulerOptions = optionsDict2list ns ∧
      Resumed tb sch newArgs oldArgs path argss.flatten ns := by
  obtain ⟨clOptions, hcl, h⟩ := bind_eq_ok h
  cases hd : dirs clOptions.dir with
  | missing =>
      rw [hd] at h
      cases h
  | notDirectory =>
      rw [hd] at h
      cases h
  | directory submitSh jobscriptSh =>
      rw [hd] at h
      obtain ⟨submitText, hsh, h⟩ := bind_eq_ok h
      obtain ⟨originalSubmitOptions, hrecorded, h⟩ := bind_eq_ok h
      obtain ⟨resubmitOptions, hnew, h⟩ := bind_eq_ok h
      obtain ⟨submitOptions, hmerge, h⟩ := bind_eq_ok h
      obtain ⟨jobscriptText, hjob, h⟩ := bind_eq_ok h
      obtain ⟨parserResult, hscript, h⟩ := bind_eq_ok h
      cases h
      rw [hd] at hdir
      obtain ⟨rfl, rfl⟩ := JobDir.directory.inj hdir
      obtain rfl := Except.ok.inj hsh
      obtain rfl := Except.ok.inj hjob
      -- the command is read back, with the path at its end
      rw [Submit.parseSubmitCmd_of_unbroken hword hlines] at hrecorded
      obtain rfl := Except.ok.inj hrecorded
      obtain ⟨argss, hargss, hbase⟩ := options_of_parseScript (mapError_eq_ok hscript)
      exact ⟨resubmitOptions, argss, _, mapError_eq_ok hnew, hargss, rfl,
        resumed_of_mergeOptions (mapError_eq_ok hmerge) hpath hverified hbase⟩

/-- **What a resumed job asks the scheduler for**, from the command lines of `wsub` and
`wresume` and the job script. -/
theorem resumed_of_submit {files : Text → Except OsError Text} {data : SubmitData}
    (hsubmit : SubmitOptionParser.parse tb sch files args = .ok data) {submitCommand : Text}
    (hword : IsWord submitCommand) (hpath : path.head? = some '/')
    (hlines : ∀ arg ∈ data.schedulerOptions ++ [path], Unbroken arg)
    {dirs : Text → JobDir} {jobscript : Text} {resubmitArgs : List Str} {r : ResubmitData}
    (h : ResubmitOptionParser.parse tb sch dirs resubmitArgs = .ok r)
    (hdir : dirs r.options.dir = .directory
      (.ok (Submit.SubmitJob.file submitCommand data.schedulerOptions path)) (.ok jobscript)) :
    ∃ newArgs argss ns, filterCommandCl tb sch .resubmit resubmitArgs = .ok newArgs ∧
      (directiveLines r.options.directivePrefix true (fileLines jobscript)).mapM
        (lexLine r.options.directivePrefix) = .ok argss ∧
      r.schedulerOptions = optionsDict2list ns ∧
      Resumed tb sch newArgs data.schedulerOptions path argss.flatten ns := by
  obtain ⟨_, hverified⟩ := verified_of_parse hsubmit
  exact resumed_of_parse hverified hword hpath hlines h hdir

/-- A job of two nodes. -/
def submitArgs : List Str :=
  ["-N".toList, "job".toList, "-A".toList, "lp".toList, "-l".toList, "nodes=2".toList,
    "--batch".toList, "job.pbs".toList, "--data".toList, "data.csv".toList]

/-- The job is resumed on another account. -/
def resubmitArgs : List Str :=
  ["--dir".toList, "worker_1".toList, "-A".toList, "other".toList, "--redo".toList]

def batchScript : Text := "#!/bin/bash\n#PBS -t 1-3\necho $a\n".toList

/-- The name is kept, the account is the new one, and the array request is that of the
script. -/
theorem resumed_of_submit_account : ∃ data r ns,
    SubmitOptionParser.parse asciiTable .pbsTorque (fun _ => .ok batchScript) submitArgs =
      .ok data ∧
    ResubmitOptionParser.parse asciiTable .pbsTorque (fun _ => .directory
      (.ok (Submit.SubmitJob.file "qsub".toList data.schedulerOptions "/tmp/job.sh".toList))
      (.ok batchScript)) resubmitArgs = .ok r ∧
    r.schedulerOptions = optionsDict2list ns ∧
    ns.get? "N".toList = some (.str "job".toList) ∧
    ns.get? "A".toList = some (.str "other".toList) ∧
    ns.get? "t".toList = some (.str "1-3".toList) := by
  have hdata : (SubmitOptionParser.parse asciiTable .pbsTorque (fun _ => .ok batchScript)
      submitArgs).map (·.schedulerOptions) = .ok (submitArgs.take 6) := by decide +kernel
  obtain ⟨data, hsubmit, hold⟩ := map_eq_ok hdata
  have hr : (ResubmitOptionParser.parse asciiTable .pbsTorque (fun _ => .directory
      (.ok (Submit.SubmitJob.file "qsub".toList (submitArgs.take 6) "/tmp/job.sh".toList))
      (.ok batchScript)) resubmitArgs).map (·.options.directivePrefix) = .ok "#PBS".toList := by
    decide +kernel
  rw [← hold] at hr
  obtain ⟨r, hresubmit, hpre⟩ := map_eq_ok hr
  have hlines : ∀ arg ∈ data.schedulerOptions ++ ["/tmp/job.sh".toList], Unbroken arg := by
    rw [hold]
    decide +kernel
  obtain ⟨newArgs, argss, ns, hnew, hargss, hns, hresumed⟩ :=
    resumed_of_submit hsubmit (by decide) (by decide) hlines hresubmit rfl
  have hnewArgs : filterCommandCl asciiTable .pbsTorque .resubmit resubmitArgs =
      .ok ["-A".toList, "other".toList] := by decide +kernel
  obtain rfl := Except.ok.inj (hnewArgs.symm.trans hnew)
  have hwords : (directiveLines "#PBS".toList true (fileLines batchScript)).mapM
      (lexLine "#PBS".toList) = .ok [["-t".toList, "1-3".toList]] := by decide +kernel
  rw [hpre] at hargss
  obtain rfl := Except.ok.inj (hwords.symm.trans hargss)
  have hname := hresumed.passThrough (addArgument .store ["-N".toList]) (by decide +kernel)
  have haccount := hresumed.passThrough (addArgument .store ["-A".toList]) (by decide +kernel)
  have harray := hresumed.fromScript (addArgument .store ["-t".toList]) (by decide +kernel)
    (by decide +kernel)
  rw [hold] at hname haccount
  refine ⟨data, r, ns, hsubmit, hresubmit, hns, hname.trans ?_, haccount.trans ?_,
    harray.trans ?_⟩
  all_goals decide +kernel

end Resume

end Options
end WorkerNg
