/-
# Batch scripts

`_parse_script` of `SlurmOptionParser` and `PbsTorqueOptionParser` in
`scripts/worker/slurm/option_parser.py` and
`scripts/worker/pbs_torque/option_parser.py`.

Both walk over the lines of a batch script.  A first line with `#!` is the
shebang; up to the first command, lines that begin with the directive prefix are
kept as directives and read by `shlex`, and comments and blank lines are dropped;
the first command and whatever follows it are the script.  Slurm sorts the lines
with resources behind the others and adds two lines of its own to them.

The loop comes to this: the directives are the lines that `directiveLines` takes,
in their order, all of which have to lex (`readLines_eq`).
-/

import Mathlib.Data.List.Infix
import WorkerNg.Lib.Shlex
import WorkerNg.Options.PbsTorque
import WorkerNg.Options.Slurm
import WorkerNg.Work.WorkfileParser

namespace WorkerNg
namespace Options

open Argparse Lines Shlex Work

/-- The namedtuple `ParseData`, as `_parse_script` fills it. -/
structure ParseData where
  options : Namespace
  shebang : Option Text
  directives : Text
  script : Text

/-- The variables of the loop in `_parse_script`; without groups, as for PBS torque,
`group0Directives` stays empty. -/
structure ScriptLines where
  args : List Str
  shebang : Option Text
  directives : Text
  group0Directives : Text
  script : Text
  parsing : Bool
deriving DecidableEq

def ScriptLines.empty : ScriptLines :=
  { args := [], shebang := none, directives := [], group0Directives := [], script := [],
    parsing := true }

/-- `line.isspace()`. -/
def isBlankLine (line : Text) : Bool := !line.isEmpty && line.all isSpace

/-- The line is the shebang: `line_nr` is 0 and it begins with `#!`. -/
def isShebang (first : Bool) (line : Text) : Bool := first && ['#', '!'].isPrefixOf line

/-- `shlex.split(line[len(directive_prefix):], comments=True)`. -/
def lexLine (directivePrefix line : Text) : Except OptionError (List Str) :=
  match split true (line.drop directivePrefix.length) with
  | .ok newArgs => .ok newArgs
  | .error _ => .error .valueError

/-- The body of the loop in `_parse_script`. -/
def readLine (isResource : List Str → Bool) (directivePrefix : Text) (first : Bool) (line : Text)
    (st : ScriptLines) : Except OptionError ScriptLines :=
  if isShebang first line then .ok { st with shebang := some (strip line) }
  else if directivePrefix.isPrefixOf line && st.parsing then do
    let newArgs ← lexLine directivePrefix line
    if isResource newArgs then
      return { st with args := st.args ++ newArgs, group0Directives := st.group0Directives ++ line }
    else return { st with args := st.args ++ newArgs, directives := st.directives ++ line }
  else if (['#'].isPrefixOf line || isBlankLine line) && st.parsing then .ok st
  else .ok { st with parsing := false, script := st.script ++ line }

/-- The loop in `_parse_script`, over the lines that are left. -/
def readLines (isResource : List Str → Bool) (directivePrefix : Text) :
    Bool → List Text → ScriptLines → Except OptionError ScriptLines
  | _, [], st => .ok st
  | first, line :: file, st => do
      let st ← readLine isResource directivePrefix first line st
      readLines isResource directivePrefix false file st

/-- `with open(file_name, 'r') as file: for line_nr, line in enumerate(file): ...`. -/
def readScript (isResource : List Str → Bool) (directivePrefix file : Text) :
    Except OptionError ScriptLines :=
  readLines isResource directivePrefix true (keepLines '\n' (universalNewlines file))
    ScriptLines.empty

/-! ### What the loop comes to -/

/-- The directives among the lines. -/
def directiveLines (directivePrefix : Text) : Bool → List Text → List Text
  | _, [] => []
  | first, line :: file =>
      if isShebang first line then directiveLines directivePrefix false file
      else if directivePrefix.isPrefixOf line then line :: directiveLines directivePrefix false file
      else if ['#'].isPrefixOf line || isBlankLine line then
        directiveLines directivePrefix false file
      else []

/-- The lines from the first command on. -/
def payload (directivePrefix : Text) : Bool → List Text → List Text
  | _, [] => []
  | first, line :: file =>
      if isShebang first line || directivePrefix.isPrefixOf line || ['#'].isPrefixOf line ||
          isBlankLine line then
        payload directivePrefix false file
      else line :: file

/-- The shebang, if the first line is one. -/
def shebangOf (first : Bool) : List Text → Option Text
  | [] => none
  | line :: _ => if isShebang first line then some (strip line) else none

/-- The line is a directive with resources. -/
def isResourceLine (isResource : List Str → Bool) (directivePrefix line : Text) : Bool :=
  match lexLine directivePrefix line with
  | .ok newArgs => isResource newArgs
  | .error _ => false

/-- What the loop makes of its variables, when the directives are read as `argss`. -/
def ScriptLines.after (isResource : List Str → Bool) (directivePrefix : Text) (first : Bool)
    (file : List Text) (st : ScriptLines) (argss : List (List Str)) : ScriptLines :=
  let dirs := directiveLines directivePrefix first file
  { args := st.args ++ argss.flatten
    shebang := (shebangOf first file).or st.shebang
    directives :=
      st.directives ++ (dirs.filter fun l => !isResourceLine isResource directivePrefix l).flatten
    group0Directives :=
      st.group0Directives ++ (dirs.filter (isResourceLine isResource directivePrefix)).flatten
    script := st.script ++ (payload directivePrefix first file).flatten
    parsing := (payload directivePrefix first file).isEmpty }

section Loop

variable {isResource : List Str → Bool} {directivePrefix : Text} {st : ScriptLines}

theorem isShebang_false (line : Text) : isShebang false line = false := rfl

theorem shebangOf_false (file : List Text) : shebangOf false file = none := by
  cases file <;> rfl

theorem shebangOf_cons (first : Bool) (line : Text) (file : List Text) :
    shebangOf first (line :: file) = if isShebang first line then some (strip line) else none := rfl

/-- Behind the first command every line belongs to the script. -/
theorem readLines_script (hst : st.parsing = false) (file : List Text) :
    readLines isResource directivePrefix false file st =
      .ok { st with script := st.script ++ file.flatten } := by
  induction file generalizing st with
  | nil => rw [readLines, List.flatten_nil, List.append_nil]
  | cons line file ih =>
      have hline : readLine isResource directivePrefix false line st =
          .ok { st with parsing := false, script := st.script ++ line } := by
        simp only [readLine, isShebang_false, hst, Bool.and_false, Bool.false_eq_true, if_false]
      rw [readLines, hline]
      show readLines _ _ _ file _ = _
      rw [ih rfl, List.flatten_cons, List.append_assoc, ← hst]

/-- A directive that lexes is added to its group. -/
theorem readLine_directive {first : Bool} {line : Text} {newArgs : List Str} (file : List Text)
    (hs : ¬isShebang first line = true) (hp : directivePrefix.isPrefixOf line = true)
    (hlex : lexLine directivePrefix line = .ok newArgs) (hst : st.parsing = true) :
    ∃ st', readLine isResource directivePrefix first line st = .ok st' ∧ st'.parsing = true ∧
      ∀ argss, st'.after isResource directivePrefix false file argss =
        st.after isResource directivePrefix first (line :: file) (newArgs :: argss) := by
  rw [readLine, if_neg hs, if_pos (by rw [hp, hst]; rfl), hlex]
  by_cases hres : isResource newArgs = true
  · refine ⟨_, if_pos hres, hst, fun argss => ?_⟩
    simp [ScriptLines.after, directiveLines, payload, shebangOf_cons, shebangOf_false,
      isResourceLine, hs, hp, hlex, hres]
  · refine ⟨_, if_neg hres, hst, fun argss => ?_⟩
    simp [ScriptLines.after, directiveLines, payload, shebangOf_cons, shebangOf_false,
      isResourceLine, hs, hp, hlex, hres]

/-- **The loop of `_parse_script`**: every line that `directiveLines` takes has to
lex, and then nothing can fail. -/
theorem readLines_eq (hst : st.parsing = true) (first : Bool) (file : List Text) :
    readLines isResource directivePrefix first file st =
      ((directiveLines directivePrefix first file).mapM (lexLine directivePrefix)).map
        (st.after isResource directivePrefix first file) := by
  induction file generalizing first st with
  | nil =>
      have hafter : st.after isResource directivePrefix first [] [] = st := by
        simp [ScriptLines.after, directiveLines, payload, shebangOf, ← hst]
      rw [readLines, directiveLines, List.mapM_nil]
      show _ = Except.ok (st.after isResource directivePrefix first [] [])
      rw [hafter]
  | cons line file ih =>
      rw [readLines, directiveLines]
      by_cases hs : isShebang first line = true
      · -- the shebang
        rw [readLine, if_pos hs, if_pos hs]
        refine (ih (by exact hst) false).trans ?_
        congr 1
        funext argss
        simp [ScriptLines.after, directiveLines, payload, shebangOf_cons, shebangOf_false, hs]
      rw [if_neg hs]
      by_cases hp : directivePrefix.isPrefixOf line = true
      · -- a directive
        rw [if_pos hp, List.mapM_cons]
        cases hlex : lexLine directivePrefix line with
        | error e =>
            rw [readLine, if_neg hs, if_pos (by rw [hp, hst]; rfl), hlex]
            rfl
        | ok newArgs =>
            obtain ⟨st', hline, hst', hafter⟩ :=
              @readLine_directive isResource _ st _ _ _ file hs hp hlex hst
            rw [hline]
            refine (ih hst' false).trans ?_
            cases (directiveLines directivePrefix false file).mapM (lexLine directivePrefix) with
            | error e => rfl
            | ok argss => exact congrArg Except.ok (hafter argss)
      rw [readLine, if_neg hs, if_neg hp, if_neg (by simp [hp])]
      by_cases hc : (['#'].isPrefixOf line || isBlankLine line) = true
      · -- a comment or a blank line
        rw [if_pos hc, if_pos (by rw [hc, hst]; rfl)]
        refine (ih hst false).trans ?_
        congr 1
        funext argss
        simp [ScriptLines.after, directiveLines, payload, shebangOf_cons, shebangOf_false, hs, hp,
          hc]
      · -- the first command
        rw [if_neg hc, if_neg (by simp [hc])]
        refine (readLines_script rfl file).trans ?_
        show _ = Except.ok (st.after isResource directivePrefix first (line :: file) [])
        simp [ScriptLines.after, directiveLines, payload, shebangOf_cons, hs, hp, hc]

/-- The directives are lines of the file that begin with the prefix. -/
theorem mem_directiveLines {first : Bool} {file : List Text} {line : Text}
    (h : line ∈ directiveLines directivePrefix first file) :
    line ∈ file ∧ directivePrefix.isPrefixOf line = true := by
  induction file generalizing first with
  | nil => exact absurd h List.not_mem_nil
  | cons l file ih =>
      have htail : ∀ {b}, line ∈ directiveLines directivePrefix b file →
          line ∈ l :: file ∧ directivePrefix.isPrefixOf line = true := fun hl =>
        ⟨List.mem_cons_of_mem _ (ih hl).1, (ih hl).2⟩
      rw [directiveLines] at h
      split_ifs at h with hs hp hc
      · exact htail h
      · rcases List.mem_cons.1 h with rfl | h
        · exact ⟨List.mem_cons_self, hp⟩
        · exact htail h
      · exact htail h
      · exact absurd h List.not_mem_nil

/-- Lines with the prefix at the beginning are directives. -/
theorem directiveLines_append {dirs : List Text}
    (h : ∀ line ∈ dirs, directivePrefix.isPrefixOf line = true) (file : List Text) :
    directiveLines directivePrefix false (dirs ++ file) =
      dirs ++ directiveLines directivePrefix false file := by
  induction dirs with
  | nil => rfl
  | cons l dirs ih =>
      rw [List.forall_mem_cons] at h
      rw [List.cons_append, directiveLines, isShebang_false, if_neg Bool.false_ne_true, if_pos h.1,
        ih h.2, List.cons_append]

/-- The lines of a file in text mode, with their terminators. -/
def fileLines (file : Text) : List Text := keepLines '\n' (universalNewlines file)

theorem readScript_eq (file : Text) : readScript isResource directivePrefix file =
    ((directiveLines directivePrefix true (fileLines file)).mapM (lexLine directivePrefix)).map
      (ScriptLines.empty.after isResource directivePrefix true (fileLines file)) :=
  readLines_eq rfl true (fileLines file)

/-- What the base parser finds in the directives. -/
def parseDirectives (p : Parser) (directivePrefix : Text) (dirs : List Text) :
    Except OptionError Namespace := do
  let argss ← dirs.mapM (lexLine directivePrefix)
  parse p argss.flatten Dict.empty

/-- What `_parse_script` makes of the variables of the loop, the arguments apart. -/
theorem bind_readScript (p : Parser) (file : Text) {f : Namespace → ScriptLines → ParseData}
    {g : Namespace → ParseData}
    (h : ∀ options argss, f options
      (ScriptLines.empty.after isResource directivePrefix true (fileLines file) argss) = g options) :
    (do
      let st ← readScript isResource directivePrefix file
      let options ← parse p st.args Dict.empty
      return f options st) =
    (parseDirectives p directivePrefix (directiveLines directivePrefix true (fileLines file))).map
      g := by
  unfold parseDirectives
  rw [readScript_eq]
  cases (directiveLines directivePrefix true (fileLines file)).mapM (lexLine directivePrefix) with
  | error e => rfl
  | ok argss =>
      show (parse p argss.flatten Dict.empty >>= _) = (parse p argss.flatten Dict.empty).map g
      cases parse p argss.flatten Dict.empty with
      | error e => rfl
      | ok options => exact congrArg Except.ok (h options argss)

end Loop

namespace Slurm

/-- `_base_parser`: `name_option` and `array_option`. -/
def baseParser (digit : Char → Bool) : Parser :=
  ⟨[addArgument .store ["-J".toList, "--jobname".toList],
    addArgument .store ["-a".toList, "--array".toList]], digit⟩

def defaultDirectivePrefix : Text := "#SBATCH".toList

/-- `itertools.chain(*self.resource_flags)`: the spellings of the tuples, and of a
plain string its characters. -/
def chainedResourceFlags : List Str :=
  resourceFlags.flatMap fun flag => match flag with
    | [s] => s.map ([·])
    | names => names

/-- `_is_resource_directive_line`. -/
def isResourceDirectiveLine (args : List Str) : Bool :=
  args.any fun arg =>
    (resourceOptions.flatten.any fun option => decide (option ++ ['='] <:+: arg)) ||
      chainedResourceFlags.contains arg

/-- The two lines that `_parse_script` adds. -/
def hetjobDirectives : Text :=
  defaultDirectivePrefix ++ " hetjob\n".toList ++ defaultDirectivePrefix ++
    " --nodes=1 --ntasks=1 --cpus-per-task=1\n".toList

/-- `SlurmOptionParser._parse_script`. -/
def parseScript (digit : Char → Bool) (directivePrefix file : Text) :
    Except OptionError ParseData := do
  let st ← readScript isResourceDirectiveLine directivePrefix file
  let options ← parse (baseParser digit) st.args Dict.empty
  return { options := options, shebang := st.shebang,
           directives := st.directives ++ st.group0Directives ++ hetjobDirectives,
           script := st.script }

/-- The directives, those with resources behind the others, and the lines added. -/
def sortDirectives (directivePrefix : Text) (dirs : List Text) : Text :=
  (dirs.filter fun l => !isResourceLine isResourceDirectiveLine directivePrefix l).flatten ++
    (dirs.filter (isResourceLine isResourceDirectiveLine directivePrefix)).flatten ++
    hetjobDirectives

/-- The lines of `hetjobDirectives`. -/
def hetjobLines : List Text :=
  [defaultDirectivePrefix ++ " hetjob\n".toList,
   defaultDirectivePrefix ++ " --nodes=1 --ntasks=1 --cpus-per-task=1\n".toList]

/-- The lines of the sorted directives. -/
def sortedLines (directivePrefix : Text) (dirs : List Text) : List Text :=
  (dirs.filter fun l => !isResourceLine isResourceDirectiveLine directivePrefix l) ++
    dirs.filter (isResourceLine isResourceDirectiveLine directivePrefix) ++ hetjobLines

theorem sortDirectives_eq (directivePrefix : Text) (dirs : List Text) :
    sortDirectives directivePrefix dirs = (sortedLines directivePrefix dirs).flatten := by
  unfold sortDirectives sortedLines hetjobDirectives hetjobLines
  simp only [List.flatten_append, List.flatten_cons, List.flatten_nil, List.append_nil,
    List.append_assoc]

/-- The lines added make the directives longer. -/
theorem length_sortDirectives (directivePrefix : Text) (dirs : List Text) :
    dirs.flatten.length < (sortDirectives directivePrefix dirs).length := by
  have hperm := List.filter_append_perm
    (isResourceLine isResourceDirectiveLine directivePrefix) dirs
  have hlen := hperm.flatten.length_eq
  have hhet : 0 < hetjobDirectives.length := by decide
  rw [List.flatten_append, List.length_append] at hlen
  rw [sortDirectives, List.length_append, List.length_append]
  omega

/-- **What `_parse_script` returns**, with the directives sorted. -/
theorem parseScript_eq (digit : Char → Bool) (directivePrefix file : Text) :
    parseScript digit directivePrefix file =
      (parseDirectives (baseParser digit) directivePrefix
        (directiveLines directivePrefix true (fileLines file))).map fun options =>
      { options := options
        shebang := shebangOf true (fileLines file)
        directives :=
          sortDirectives directivePrefix (directiveLines directivePrefix true (fileLines file))
        script := (payload directivePrefix true (fileLines file)).flatten } := by
  refine bind_readScript _ file fun options argss => ?_
  simp [ScriptLines.after, ScriptLines.empty, sortDirectives]

end Slurm

namespace PbsTorque

/-- `_base_parser`: `name_option` and `array_option`. -/
def baseParser (digit : Char → Bool) : Parser :=
  ⟨[addArgument .store ["-N".toList], addArgument .store ["-t".toList]], digit⟩

def defaultDirectivePrefix : Text := "#PBS".toList

/-- `PbsTorqueOptionParser._parse_script`. -/
def parseScript (digit : Char → Bool) (directivePrefix file : Text) :
    Except OptionError ParseData := do
  let st ← readScript (fun _ => false) directivePrefix file
  let options ← parse (baseParser digit) st.args Dict.empty
  return { options := options, shebang := st.shebang, directives := st.directives,
           script := st.script }

/-- **What `_parse_script` returns**, with the directives as they stand. -/
theorem parseScript_eq (digit : Char → Bool) (directivePrefix file : Text) :
    parseScript digit directivePrefix file =
      (parseDirectives (baseParser digit) directivePrefix
        (directiveLines directivePrefix true (fileLines file))).map fun options =>
      { options := options
        shebang := shebangOf true (fileLines file)
        directives := (directiveLines directivePrefix true (fileLines file)).flatten
        script := (payload directivePrefix true (fileLines file)).flatten } := by
  have hall : ∀ l, (!isResourceLine (fun _ => false) directivePrefix l) = true := by
    intro l
    rw [isResourceLine]
    cases lexLine directivePrefix l <;> rfl
  refine bind_readScript _ file fun options argss => ?_
  simp [ScriptLines.after, ScriptLines.empty, hall]

end PbsTorque

end Options
end WorkerNg
