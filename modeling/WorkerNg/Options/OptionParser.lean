/-
# The command lines of `wsub` and `wresume`

`OptionParser`, `SubmitOptionParser` and `ResubmitOptionParser` in
`scripts/worker/option_parser.py`.

A command line holds options of worker, options that worker takes from the
scheduler (the array request), options that both have to know (the job name and
the directive prefix) and options that worker does not know.  It is parsed twice:
`filter_worker_cl` takes all options that worker knows, and `filter_command_cl`
finds what is left for the submit command by parsing without those that both have
to know.

The two agree on every command line (`filterCommandCl_of_filterWorkerCl`): where
the first parse succeeds the second one does, what it leaves over is a part of the
command line without any option of worker, and what worker takes for the job name
and the directive prefix is what the scheduler is told as well.
-/

import WorkerNg.Lib.Readings
import WorkerNg.Options.Regenerate
import WorkerNg.Options.Script
import WorkerNg.Submit.SubmitCmd

namespace WorkerNg
namespace Options

open Argparse Resume Work
open Submit (OsError PyException)

/-- The command whose options are parsed. -/
inductive Command where
  | submit
  | resubmit
deriving DecidableEq

namespace Scheduler

/-- `name_option`. -/
def nameOption : Scheduler → List Str
  | slurm => ["-J".toList, "--jobname".toList]
  | pbsTorque => ["-N".toList]

/-- `array_option`. -/
def arrayOption : Scheduler → List Str
  | slurm => ["-a".toList, "--array".toList]
  | pbsTorque => ["-t".toList]

/-- `directive_prefix_option`. -/
def directivePrefixOption : Scheduler → List Str
  | slurm => []
  | pbsTorque => ["-C".toList]

/-- `default_directive_prefix`. -/
def defaultDirectivePrefix : Scheduler → Text
  | slurm => Slurm.defaultDirectivePrefix
  | pbsTorque => PbsTorque.defaultDirectivePrefix

/-- `_parse_script`. -/
def parseScript : Scheduler → (Char → Bool) → Text → Text → Except OptionError ParseData
  | slurm => Slurm.parseScript
  | pbsTorque => PbsTorque.parseScript

/-- The options of `arg_parser` in `merge_options` and `_verify_scheduler_args`. -/
def passThroughActions : Scheduler → List Action
  | slurm => Slurm.passThroughActions
  | pbsTorque => PbsTorque.passThroughActions

/-- `arg_parser` in `merge_options` and `_verify_scheduler_args`. -/
def passThroughParser (sch : Scheduler) (digit : Char → Bool) : Parser :=
  ⟨sch.passThroughActions, digit⟩

end Scheduler

/-- `add_argument` with a `dest`. -/
def addArgumentAs (dest : String) (kind : ActionKind) (optionStrings : List Str) : Action :=
  ⟨optionStrings, dest.toList, kind⟩

/-- `_relevant_parser`. -/
def relevantActions (sch : Scheduler) : List Action :=
  addArgumentAs "name" .store sch.nameOption ::
    if sch.directivePrefixOption = [] then []
    else [addArgumentAs "directive_prefix" .store sch.directivePrefixOption]

/-- `_filter_parser`. -/
def filterActions (sch : Scheduler) : List Action :=
  [addArgumentAs "array_request" .store sch.arrayOption]

/-- `_worker_parser`. -/
def workerActions (cmd : Command) : List Action :=
  [addArgument .store ["--num_cores".toList], addArgument .store ["--port".toList],
    addArgument .storeTrue ["--verbose".toList], addArgument .storeTrue ["--dryrun".toList],
    addArgument .storeTrue ["--debug".toList]] ++
  match cmd with
  | .submit => [addArgument .append ["--data".toList],
      addArgumentAs "script" .store ["--batch".toList]]
  | .resubmit => [addArgument .store ["--dir".toList], addArgument .storeTrue ["--redo".toList]]

/-- The dest of the option without which the parser exits. -/
def requiredDest : Command → Str
  | .submit => "script".toList
  | .resubmit => "dir".toList

section Parsers

variable (tb : CharTable) (sch : Scheduler) (cmd : Command)

/-- `_cl_parser`. -/
def clParser : Parser :=
  ⟨helpAction :: (relevantActions sch ++ filterActions sch ++ workerActions cmd), digit tb⟩

/-- `_passthrough_parser`. -/
def passthroughParser : Parser :=
  ⟨helpAction :: (filterActions sch ++ workerActions cmd), digit tb⟩

/-- `_relevant_parser`. -/
def relevantParser : Parser := ⟨relevantActions sch, digit tb⟩

/-- What `int` takes for white space: in ASCII less than `str.isspace` does. -/
def isIntSpace (c : Char) : Bool :=
  if c.toNat < 127 then c == ' ' || ('\t' ≤ c && c ≤ '\r') else isSpace c

/-- `int`, of any text: digits, with single underscores among them, behind a sign. -/
def pyIntOf (s : Text) : Option ℤ :=
  let unsigned (s : Text) : Option ℕ :=
    if (s.splitOn '_').all (fun t => !t.isEmpty && t.all (digit tb)) &&
        decide ((s.filter (· ≠ '_')).length ≤ 4300) then
      some (natOf tb (s.filter (· ≠ '_')))
    else none
  match (s.dropWhile isIntSpace).rdropWhile isIntSpace with
  | '-' :: s => (unsigned s).map fun n => -n
  | '+' :: s => (unsigned s).map fun n => n
  | s => (unsigned s).map fun n => n

/-- How `argparse` ends a command: as it does on any parser, on a value that is no
number where one is asked for, and without a required option. -/
inductive CliError where
  | exit (e : Exit)
  | invalidInt
  | required
deriving DecidableEq

/-- The options with `type=int`. -/
def intDests : List Str := ["num_cores".toList, "port".toList]

/-- The value is a number where one is asked for. -/
def validInt (o : Occurrence) : Bool :=
  !intDests.contains o.action.dest || (pyIntOf tb (o.value?.getD [])).isSome

/-- `parse_known_args` of a parser with options of worker. -/
def parseCl (p : Parser) (args : List Str) : Except CliError (List Occurrence × List Str) :=
  match p.occurrences args with
  | .error e => .error (.exit e)
  | .ok (occs, extras) =>
      if !occs.all (validInt tb) then .error .invalidInt
      else if !occs.any (fun o => decide (o.action.dest = requiredDest cmd)) then .error .required
      else .ok (occs, extras)

end Parsers

/-! ### What worker takes -/

/-- An attribute that is a text. -/
def textOf : Option Value → Option Str
  | some (.str s) => some s
  | _ => none

/-- An attribute that is a list. -/
def listOf : Option Value → Option (List Str)
  | some (.list l) => some l
  | _ => none

/-- An attribute that is true. -/
def isTrue (v : Option Value) : Bool := decide (v = some (.bool true))

/-- What `filter_worker_cl` returns.  For `wsub`, `script` is the batch script and
`dir` and `redo` are not there; for `wresume` it is the other way round. -/
structure WorkerOptions where
  name : Option Str
  directivePrefix : Str
  arrayRequest : Option Str
  numCores : ℤ
  port : Option ℤ
  verbose : Bool
  dryrun : Bool
  debug : Bool
  data : Option (List Str)
  script : Str
  dir : Str
  redo : Bool
deriving DecidableEq

section Filter

variable (tb : CharTable) (sch : Scheduler) (cmd : Command)

/-- The attributes of a namespace, with the numbers read. -/
def WorkerOptions.ofNamespace (ns : Namespace) : WorkerOptions where
  name := textOf (ns.get? "name".toList)
  directivePrefix := (textOf (ns.get? "directive_prefix".toList)).getD sch.defaultDirectivePrefix
  arrayRequest := textOf (ns.get? "array_request".toList)
  numCores := ((textOf (ns.get? "num_cores".toList)).bind (pyIntOf tb)).getD 1
  port := (textOf (ns.get? "port".toList)).bind (pyIntOf tb)
  verbose := isTrue (ns.get? "verbose".toList)
  dryrun := isTrue (ns.get? "dryrun".toList)
  debug := isTrue (ns.get? "debug".toList)
  data := listOf (ns.get? "data".toList)
  script := (textOf (ns.get? "script".toList)).getD []
  dir := (textOf (ns.get? "dir".toList)).getD []
  redo := isTrue (ns.get? "redo".toList)

/-- `filter_worker_cl`. -/
def filterWorkerCl (args : List Str) : Except CliError WorkerOptions := do
  let (occs, _) ← parseCl tb cmd (clParser tb sch cmd) args
  return WorkerOptions.ofNamespace tb sch
    (occs.foldl take ((clParser tb sch cmd).addDefaults Dict.empty))

/-- `filter_command_cl`. -/
def filterCommandCl (args : List Str) : Except CliError (List Str) := do
  let (_, commandArgs) ← parseCl tb cmd (passthroughParser tb sch cmd) args
  return commandArgs

end Filter

/-! ### Two parses of one command line -/

/-- Options that worker and the scheduler both have to know. -/
def isRelevant (a : Action) : Bool :=
  decide (a.dest = "name".toList) || decide (a.dest = "directive_prefix".toList)

section Agreement

variable {tb : CharTable} {sch : Scheduler} {cmd : Command} {args commandArgs : List Str}
  {cl : WorkerOptions} {d : Str}

theorem passthroughParser_eq :
    passthroughParser tb sch cmd = (clParser tb sch cmd).hide isRelevant := by
  refine congrArg (Parser.mk · (digit tb)) ?_
  show _ = (helpAction :: (relevantActions sch ++ filterActions sch ++ workerActions cmd)).filter _
  cases sch <;> cases cmd <;> decide +kernel

theorem relevantParser_eq :
    relevantParser tb sch = (clParser tb sch cmd).hide fun a => !isRelevant a := by
  refine congrArg (Parser.mk · (digit tb)) ?_
  show _ = (helpAction :: (relevantActions sch ++ filterActions sch ++ workerActions cmd)).filter _
  cases sch <;> cases cmd <;> decide +kernel

theorem plain_clParser : Plain (clParser tb sch cmd) := by
  have h : Plain (clParser asciiTable sch cmd) := by cases sch <;> cases cmd <;> decide +kernel
  exact h

theorem apart_clParser : Apart (clParser tb sch cmd) isRelevant := by
  have h : Apart (clParser asciiTable sch cmd) isRelevant := by
    cases sch <;> cases cmd <;> decide +kernel
  exact h

/-- What both have to know takes a value, and nothing of it is required or a number. -/
theorem takesValue_of_isRelevant : ∀ a ∈ (clParser tb sch cmd).actions, isRelevant a = true →
    a.takesValue = true := by
  have h : ∀ a ∈ (clParser asciiTable sch cmd).actions, isRelevant a = true →
      a.takesValue = true := by
    cases sch <;> cases cmd <;> decide +kernel
  exact h

theorem parseCl_eq_ok {p : Parser} {r : List Occurrence × List Str}
    (h : parseCl tb cmd p args = .ok r) : p.occurrences args = .ok r ∧
      (∀ o ∈ r.1, validInt tb o = true) ∧ ∃ o ∈ r.1, o.action.dest = requiredDest cmd := by
  rw [parseCl] at h
  split at h
  · cases h
  next occs extras hocc =>
    split_ifs at h with hint hreq
    cases h
    refine ⟨hocc, by simpa using hint, by simpa using hreq⟩

theorem parseCl_of_occurrences {p : Parser} {r : List Occurrence × List Str}
    (h : p.occurrences args = .ok r) (hint : ∀ o ∈ r.1, validInt tb o = true)
    (hreq : ∃ o ∈ r.1, o.action.dest = requiredDest cmd) : parseCl tb cmd p args = .ok r := by
  rw [parseCl, h]
  dsimp only
  rw [if_neg (by simpa using hint), if_neg (by simpa using hreq)]

/-- Options under one name are taken together. -/
theorem lastStored_filter {keep : Action → Bool} {occs : List Occurrence}
    (h : ∀ o ∈ occs, o.action.dest = d → keep o.action = true) :
    lastStored d (occs.filter fun o => keep o.action) = lastStored d occs := by
  have hof : ofDest d (occs.filter fun o => keep o.action) = ofDest d occs := by
    rw [ofDest, List.filter_filter]
    refine List.filter_congr fun o ho => ?_
    by_cases hd : o.action.dest = d
    · simp [hd, h o ho hd]
    · simp [hd]
  rw [lastStored, hof, lastStored]

/-- **What is passed on** of a command line from which worker takes its options: a
part of it without any option that is worker's alone, which tells the scheduler the
name and the directive prefix that worker goes by.  Nothing else is taken: the options
that are worker's alone are those that `filter_worker_cl` takes. -/
structure Passes (tb : CharTable) (sch : Scheduler) (cmd : Command) (args : List Str)
    (cl : WorkerOptions) (commandArgs : List Str) : Prop where
  sublist : commandArgs.Sublist args
  passed : (passthroughParser tb sch cmd).occurrences commandArgs = .ok ([], commandArgs)
  taken : ∃ occs extras, (clParser tb sch cmd).occurrences args = .ok (occs, extras) ∧
    (passthroughParser tb sch cmd).occurrences args =
      .ok (occs.filter fun o => !isRelevant o.action, commandArgs)
  name : cl.name = textOf (given (relevantParser tb sch) commandArgs "name".toList)
  directivePrefix : cl.directivePrefix =
    (textOf (given (relevantParser tb sch) commandArgs "directive_prefix".toList)).getD
      sch.defaultDirectivePrefix

/-- What worker takes for a name that the scheduler has to know as well. -/
theorem textOf_relevant {occs : List Occurrence} {extras : List Str}
    (hocc : (clParser tb sch cmd).occurrences args = .ok (occs, extras))
    (hrelevant : (relevantParser tb sch).occurrences commandArgs =
      .ok (occs.filter fun o => isRelevant o.action, extras))
    (hd : d = "name".toList ∨ d = "directive_prefix".toList) :
    textOf ((occs.foldl take ((clParser tb sch cmd).addDefaults Dict.empty)).get? d) =
      textOf (given (relevantParser tb sch) commandArgs d) := by
  have htakes := takes_of_occurrences hocc
  have hkind : ∀ a ∈ (clParser tb sch cmd).actions, a.dest = d → a.kind = .store := by
    have h : ∀ a ∈ (clParser asciiTable sch cmd).actions, isRelevant a = true →
        a.kind = .store := by
      cases sch <;> cases cmd <;> decide +kernel
    intro a ha had
    refine h a ha ?_
    rcases hd with rfl | rfl
    · simp [isRelevant, had]
    · simp [isRelevant, had]
  have hdefault : ∀ v, (clParser tb sch cmd).default? d = some v → textOf (some v) = none := by
    intro v hv
    obtain ⟨a, ha, hv⟩ := List.mem_filterMap.1 (List.mem_of_head? hv)
    split_ifs at hv with hda
    rw [Action.default, hkind a ha hda] at hv
    cases hv
    rfl
  have hisRelevant : ∀ o ∈ occs, o.action.dest = d → isRelevant o.action = true := by
    intro o _ hod
    rcases hd with rfl | rfl
    · simp [isRelevant, hod]
    · simp [isRelevant, hod]
  rw [get?_foldl_take fun o ho hod => by simp [hkind _ (htakes o ho).1.mem hod], get?_addDefaults,
    Dict.get?_empty, Option.none_or, given, hrelevant]
  dsimp only
  rw [lastStored_filter hisRelevant]
  cases lastStored d occs with
  | some v => rfl
  | none =>
      rw [Option.none_or]
      cases hdef : (clParser tb sch cmd).default? d with
      | none => rfl
      | some v => exact hdefault v hdef

/-- **The two parses agree**: where `filter_worker_cl` returns, so does
`filter_command_cl`, and what it returns is what is to be passed on. -/
theorem filterCommandCl_of_filterWorkerCl (h : filterWorkerCl tb sch cmd args = .ok cl) :
    ∃ commandArgs, filterCommandCl tb sch cmd args = .ok commandArgs ∧
      Passes tb sch cmd args cl commandArgs := by
  obtain ⟨⟨occs, extras⟩, hparse, hcl⟩ := bind_eq_ok h
  cases hcl
  obtain ⟨hocc, hint, o, ho, hreq⟩ := parseCl_eq_ok hparse
  have hread := (reading_iff plain_clParser).1 hocc
  obtain ⟨commandArgs, hpass, hrelevant⟩ := hread.hide apart_clParser takesValue_of_isRelevant
  rw [← passthroughParser_eq] at hpass
  rw [← relevantParser_eq] at hrelevant
  have hrel := occurrences_of_reading hrelevant
  have hkeep : (!isRelevant o.action) = true := by
    rw [Bool.not_eq_true', isRelevant, hreq]
    cases cmd <;> rfl
  have hfilter : parseCl tb cmd (passthroughParser tb sch cmd) args =
      .ok (occs.filter fun o => !isRelevant o.action, commandArgs) :=
    parseCl_of_occurrences (occurrences_of_reading hpass)
      (fun o ho => hint o (List.mem_filter.1 ho).1) ⟨o, List.mem_filter.2 ⟨ho, hkeep⟩, hreq⟩
  refine ⟨commandArgs, by rw [filterCommandCl, hfilter]; rfl, ?_⟩
  refine ⟨hpass.sublist, occurrences_of_reading hpass.again,
    ⟨occs, extras, hocc, occurrences_of_reading hpass⟩, ?_, ?_⟩
  · exact textOf_relevant hocc hrel (.inl rfl)
  · exact congrArg (fun v : Option Str => v.getD sch.defaultDirectivePrefix)
      (textOf_relevant hocc hrel (.inr rfl))

/-- A command line of `wsub`. -/
def wsubArgs : List Str :=
  ["-N".toList, "job".toList, "--num_cores".toList, "4".toList, "-l".toList,
    "nodes=2".toList, "-t1-10".toList, "--batch=job.sh".toList, "--verbose".toList]

/-- The name stays on it, and the resources; the options of worker do not. -/
theorem filterCommandCl_wsubArgs : ∃ cl, cl.numCores = 4 ∧ cl.arrayRequest = some "1-10".toList ∧
    ∃ commandArgs,
      filterCommandCl asciiTable .pbsTorque .submit wsubArgs = .ok commandArgs ∧
        Passes asciiTable .pbsTorque .submit wsubArgs cl commandArgs ∧
        commandArgs = ["-N".toList, "job".toList, "-l".toList, "nodes=2".toList] := by
  have hcl : (filterWorkerCl asciiTable .pbsTorque .submit wsubArgs).map
      (fun cl => (cl.numCores, cl.arrayRequest)) = .ok (4, some "1-10".toList) := by decide +kernel
  obtain ⟨cl, h, hcl⟩ := map_eq_ok hcl
  obtain ⟨hcores, harray⟩ := Prod.mk.inj hcl
  obtain ⟨commandArgs, hcommand, hpasses⟩ := filterCommandCl_of_filterWorkerCl h
  have hargs : filterCommandCl asciiTable .pbsTorque .submit wsubArgs =
      .ok ["-N".toList, "job".toList, "-l".toList, "nodes=2".toList] := by decide +kernel
  exact ⟨cl, hcores, harray, commandArgs, hcommand, hpasses,
    Except.ok.inj (hcommand.symm.trans hargs)⟩

end Agreement

end Options
end WorkerNg
