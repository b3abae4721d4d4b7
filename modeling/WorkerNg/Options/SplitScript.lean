/-
# Where a batch script is split

What the two copies of `_parse_script` take for directives and for the script,
said without their loop.  The lines are numbered.  The script begins at the first
line that is neither the shebang nor a directive, a comment or blank
(`precedesScript`); the directives are the lines before it that begin with the
prefix, except the shebang.

Both parsers split alike and return all lines from there on unchanged
(`parseScript_splits`).  They differ in what becomes of the directives: PBS torque
leaves them in their order, Slurm moves those with resources behind the others
and adds two lines.

They also differ in the directives that they accept.  The words of the directives go to a
parser for the name and the array request, which are other options for each scheduler, and
an option without its value ends the command (`not_splits_nameless`).
-/

import WorkerNg.Options.Script

namespace WorkerNg
namespace Options

open Argparse Lines Shlex Work

/-- The lines of a file with their numbers, the first one 0. -/
def numberedLines (file : Text) : List (Text × ℕ) := (fileLines file).zipIdx

/-- The line is the shebang: the first line, with `#!` at its beginning. -/
def isShebangAt (line : Text × ℕ) : Bool := isShebang (line.2 == 0) line.1

/-- A line that does not begin the script. -/
def precedesScript (directivePrefix : Text) (line : Text × ℕ) : Bool :=
  isShebangAt line || directivePrefix.isPrefixOf line.1 || ['#'].isPrefixOf line.1 ||
    isBlankLine line.1

/-- The lines before the script. -/
def headLines (directivePrefix file : Text) : List (Text × ℕ) :=
  (numberedLines file).takeWhile (precedesScript directivePrefix)

/-- The script: the first line that begins it and all lines behind it. -/
def bodyLines (directivePrefix file : Text) : List (Text × ℕ) :=
  (numberedLines file).dropWhile (precedesScript directivePrefix)

/-- The directives: the lines before the script that begin with the prefix,
without the shebang. -/
def scriptDirectives (directivePrefix file : Text) : List Text :=
  ((headLines directivePrefix file).filter fun line =>
    directivePrefix.isPrefixOf line.1 && !isShebangAt line).map Prod.fst

/-- The text from the first line of the script to the end of the file. -/
def scriptText (directivePrefix file : Text) : Text :=
  ((bodyLines directivePrefix file).map Prod.fst).flatten

/-- The shebang, without white space around it. -/
def scriptShebang (file : Text) : Option Text :=
  ((numberedLines file).head?.filter isShebangAt).map fun line => strip line.1

/-! ### The loop splits there -/

section Split

variable {directivePrefix : Text}

/-- One line of the loop, wherever it stands. -/
theorem precedesScript_eq (line : Text) (k : ℕ) :
    precedesScript directivePrefix (line, k) =
      (isShebang (k == 0) line || directivePrefix.isPrefixOf line || ['#'].isPrefixOf line ||
        isBlankLine line) := rfl

theorem directiveLines_zipIdx (lines : List Text) (k : ℕ) :
    directiveLines directivePrefix (k == 0) lines =
      (((lines.zipIdx k).takeWhile (precedesScript directivePrefix)).filter fun line =>
        directivePrefix.isPrefixOf line.1 && !isShebangAt line).map Prod.fst := by
  induction lines generalizing k with
  | nil => rfl
  | cons line lines ih =>
      have htail := ih (k + 1)
      rw [show (k + 1 == 0) = false from rfl] at htail
      rw [directiveLines, List.zipIdx_cons, List.takeWhile_cons, precedesScript_eq, htail]
      by_cases hs : isShebang (k == 0) line = true
      · have hat : isShebangAt (line, k) = true := hs
        simp [hs, hat]
      have hat : isShebangAt (line, k) = false := Bool.eq_false_iff.2 hs
      rw [if_neg hs, Bool.eq_false_iff.2 hs]
      by_cases hp : directivePrefix.isPrefixOf line = true
      · simp [hp, hat]
      by_cases hc : (['#'].isPrefixOf line || isBlankLine line) = true
      · simp [hp, hc]
      · simp [hp, hc]

theorem payload_zipIdx (lines : List Text) (k : ℕ) :
    payload directivePrefix (k == 0) lines =
      ((lines.zipIdx k).dropWhile (precedesScript directivePrefix)).map Prod.fst := by
  induction lines generalizing k with
  | nil => rfl
  | cons line lines ih =>
      have htail := ih (k + 1)
      rw [show (k + 1 == 0) = false from rfl] at htail
      rw [payload, List.zipIdx_cons, List.dropWhile_cons, precedesScript_eq, htail]
      split_ifs
      · rfl
      · rw [List.map_cons, List.zipIdx_map_fst]

theorem shebangOf_eq (file : Text) : shebangOf true (fileLines file) = scriptShebang file := by
  unfold scriptShebang numberedLines
  cases fileLines file with
  | nil => rfl
  | cons line lines =>
      rw [shebangOf_cons, List.zipIdx_cons, List.head?_cons]
      unfold Option.filter isShebangAt
      split_ifs <;> simp_all

theorem directiveLines_eq (file : Text) :
    directiveLines directivePrefix true (fileLines file) = scriptDirectives directivePrefix file :=
  directiveLines_zipIdx (fileLines file) 0

theorem payload_eq (file : Text) :
    (payload directivePrefix true (fileLines file)).flatten = scriptText directivePrefix file :=
  congrArg List.flatten (payload_zipIdx (fileLines file) 0)

/-- The script is the end of the file, behind the lines before it. -/
theorem headLines_append_scriptText (directivePrefix file : Text) :
    ((headLines directivePrefix file).map Prod.fst).flatten ++ scriptText directivePrefix file =
      universalNewlines file := by
  rw [scriptText, ← List.flatten_append, ← List.map_append, headLines, bodyLines,
    List.takeWhile_append_dropWhile, numberedLines, List.zipIdx_map_fst, fileLines,
    flatten_keepLines]

end Split

/-- The words of a directive. -/
def words (directivePrefix line : Text) : List Str :=
  match lexLine directivePrefix line with
  | .ok newArgs => newArgs
  | .error _ => []

theorem mapM_lexLine {directivePrefix : Text} {dirs : List Text}
    (h : ∀ line ∈ dirs, ∃ newArgs, lexLine directivePrefix line = .ok newArgs) :
    dirs.mapM (lexLine directivePrefix) = .ok (dirs.map (words directivePrefix)) := by
  refine mapM_eq_ok_map fun line hline => ?_
  obtain ⟨newArgs, hwords⟩ := h line hline
  rw [words, hwords]

/-- A directive has resources when its words have. -/
theorem Slurm.isResourceLine_eq (directivePrefix : Text) :
    isResourceLine Slurm.isResourceDirectiveLine directivePrefix =
      fun line => Slurm.isResourceDirectiveLine (words directivePrefix line) := by
  funext line
  rw [isResourceLine, words]
  cases lexLine directivePrefix line <;> rfl

/-- The words of the directives. -/
def directiveWords (directivePrefix file : Text) : List Str :=
  (scriptDirectives directivePrefix file).flatMap (words directivePrefix)

/-- What PBS torque makes of the directives: they stay as they stand. -/
def PbsTorque.splitDirectives (directivePrefix file : Text) : Text :=
  (scriptDirectives directivePrefix file).flatten

/-- What Slurm makes of the directives: those with resources stand behind the others, and
behind them the lines that are added. -/
def Slurm.splitDirectives (directivePrefix file : Text) : Text :=
  ((scriptDirectives directivePrefix file).filter fun line =>
      !isResourceDirectiveLine (words directivePrefix line)).flatten ++
    ((scriptDirectives directivePrefix file).filter fun line =>
      isResourceDirectiveLine (words directivePrefix line)).flatten ++
    hetjobLines.flatten

section Splits

variable {digit : Char → Bool} {directivePrefix file : Text}

theorem PbsTorque.parseScript_eq_map (h : ∀ line ∈ scriptDirectives directivePrefix file,
    ∃ newArgs, lexLine directivePrefix line = .ok newArgs) :
    parseScript digit directivePrefix file =
      (parse (baseParser digit) (directiveWords directivePrefix file) Dict.empty).map fun options =>
        { options := options
          shebang := scriptShebang file
          directives := splitDirectives directivePrefix file
          script := scriptText directivePrefix file } := by
  rw [parseScript_eq, directiveLines_eq, payload_eq, shebangOf_eq, parseDirectives,
    mapM_lexLine h, directiveWords, List.flatMap_def]
  rfl

theorem Slurm.parseScript_eq_map (h : ∀ line ∈ scriptDirectives directivePrefix file,
    ∃ newArgs, lexLine directivePrefix line = .ok newArgs) :
    parseScript digit directivePrefix file =
      (parse (baseParser digit) (directiveWords directivePrefix file) Dict.empty).map fun options =>
        { options := options
          shebang := scriptShebang file
          directives := splitDirectives directivePrefix file
          script := scriptText directivePrefix file } := by
  rw [parseScript_eq, directiveLines_eq, payload_eq, shebangOf_eq, parseDirectives,
    mapM_lexLine h, sortDirectives_eq, sortedLines, List.flatten_append, List.flatten_append,
    isResourceLine_eq, directiveWords, List.flatMap_def]
  rfl

end Splits

/-- **Splitting a script keeps its payload.**  When the directives lex, a parser that
accepts the options for name and array in them returns the shebang and, as the script, the
end of the file from its first command on; PBS torque returns the directives as they stand,
Slurm those with resources behind the others, and behind them the lines it adds.  A parser
that does not accept the options fails.  Where both return, the shebang and the script are
the same. -/
theorem parseScript_splits (digit : Char → Bool) (directivePrefix file : Text)
    (h : ∀ line ∈ scriptDirectives directivePrefix file,
      ∃ newArgs, lexLine directivePrefix line = .ok newArgs) :
    ((headLines directivePrefix file).map Prod.fst).flatten ++ scriptText directivePrefix file =
        universalNewlines file ∧
      (∀ options, parse (PbsTorque.baseParser digit) (directiveWords directivePrefix file)
          Dict.empty = .ok options →
        PbsTorque.parseScript digit directivePrefix file = .ok
          { options := options
            shebang := scriptShebang file
            directives := PbsTorque.splitDirectives directivePrefix file
            script := scriptText directivePrefix file }) ∧
      (∀ options, parse (Slurm.baseParser digit) (directiveWords directivePrefix file)
          Dict.empty = .ok options →
        Slurm.parseScript digit directivePrefix file = .ok
          { options := options
            shebang := scriptShebang file
            directives := Slurm.splitDirectives directivePrefix file
            script := scriptText directivePrefix file }) ∧
      (∀ e, parse (PbsTorque.baseParser digit) (directiveWords directivePrefix file)
          Dict.empty = .error e → PbsTorque.parseScript digit directivePrefix file = .error e) ∧
      (∀ e, parse (Slurm.baseParser digit) (directiveWords directivePrefix file)
          Dict.empty = .error e → Slurm.parseScript digit directivePrefix file = .error e) ∧
      ∀ pbs slurm, PbsTorque.parseScript digit directivePrefix file = .ok pbs →
        Slurm.parseScript digit directivePrefix file = .ok slurm →
          pbs.shebang = slurm.shebang ∧ pbs.script = slurm.script := by
  rw [PbsTorque.parseScript_eq_map h, Slurm.parseScript_eq_map h]
  refine ⟨headLines_append_scriptText directivePrefix file, fun options hok => ?_,
    fun options hok => ?_, fun e herror => ?_, fun e herror => ?_, fun pbs slurm hpbs hslurm => ?_⟩
  · rw [hok]
    rfl
  · rw [hok]
    rfl
  · rw [herror]
    rfl
  · rw [herror]
    rfl
  · obtain ⟨_, -, rfl⟩ := map_eq_ok hpbs
    obtain ⟨_, -, rfl⟩ := map_eq_ok hslurm
    exact ⟨rfl, rfl⟩

/-- A script with a directive between comments, and one behind its first command. -/
def laterDirective : Text := "#!/bin/sh\n# c\n#PBS -lx\n\ndate\n#PBS -ly\n".toList

theorem scriptDirectives_laterDirective :
    scriptDirectives "#PBS".toList laterDirective = ["#PBS -lx\n".toList] := by
  decide +kernel

theorem parseScript_splits_laterDirective : ∃ pbs slurm,
    PbsTorque.parseScript Char.isDigit "#PBS".toList laterDirective = .ok pbs ∧
      Slurm.parseScript Char.isDigit "#PBS".toList laterDirective = .ok slurm ∧
      pbs.script = "date\n#PBS -ly\n".toList ∧ slurm.script = "date\n#PBS -ly\n".toList := by
  have hlex : ∀ line ∈ scriptDirectives "#PBS".toList laterDirective,
      ∃ newArgs, lexLine "#PBS".toList line = .ok newArgs := by
    rw [scriptDirectives_laterDirective, List.forall_mem_singleton]
    exact ⟨["-lx".toList], by rfl⟩
  have hscript : scriptText "#PBS".toList laterDirective = "date\n#PBS -ly\n".toList := by
    decide +kernel
  obtain ⟨pbs, hpbs⟩ : ∃ options, parse (PbsTorque.baseParser Char.isDigit)
      (directiveWords "#PBS".toList laterDirective) Dict.empty = .ok options := ⟨_, by rfl⟩
  obtain ⟨slurm, hslurm⟩ : ∃ options, parse (Slurm.baseParser Char.isDigit)
      (directiveWords "#PBS".toList laterDirective) Dict.empty = .ok options := ⟨_, by rfl⟩
  obtain ⟨-, hpbsOk, hslurmOk, -⟩ :=
    parseScript_splits Char.isDigit "#PBS".toList laterDirective hlex
  exact ⟨_, _, hpbsOk pbs hpbs, hslurmOk slurm hslurm, hscript, hscript⟩

/-- A directive for the name without a name. -/
def nameless : Text := "#PBS -N\n".toList

theorem scriptDirectives_nameless : scriptDirectives "#PBS".toList nameless = [nameless] := by
  decide +kernel

/-- **The two parsers do not always agree**: the directive lexes, PBS torque misses the
value of its option `-N` and ends, and for Slurm `-N` is not an option of the parser. -/
theorem not_splits_nameless :
    (∀ line ∈ scriptDirectives "#PBS".toList nameless,
      ∃ newArgs, lexLine "#PBS".toList line = .ok newArgs) ∧
    (∃ e, PbsTorque.parseScript Char.isDigit "#PBS".toList nameless = .error (.exit e)) ∧
    (∃ slurm, Slurm.parseScript Char.isDigit "#PBS".toList nameless = .ok slurm) ∧
    ¬ ∃ pbs slurm, PbsTorque.parseScript Char.isDigit "#PBS".toList nameless = .ok pbs ∧
      Slurm.parseScript Char.isDigit "#PBS".toList nameless = .ok slurm ∧
      pbs.shebang = slurm.shebang ∧ pbs.script = slurm.script := by
  have hexit : ∃ e, PbsTorque.parseScript Char.isDigit "#PBS".toList nameless =
      .error (.exit e) := ⟨_, by rfl⟩
  refine ⟨?_, hexit, ⟨_, by rfl⟩, ?_⟩
  · rw [scriptDirectives_nameless, List.forall_mem_singleton]
    exact ⟨["-N".toList], by rfl⟩
  · rintro ⟨pbs, -, hpbs, -⟩
    obtain ⟨e, he⟩ := hexit
    cases he.symm.trans hpbs

end Options
end WorkerNg
