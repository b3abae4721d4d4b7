/-
# What sorting the directives does to a job request

`SlurmOptionParser._parse_script` moves the directives with resources behind the
others.  `sbatch` takes of every option the value given last, so what a script
asks for can change when a line is moved behind another one that gives the same
option.

A list of lines is cut into two parts here and put together again with one part
behind the other; the last value stays the same exactly if, behind the last line
moved that gives one, the lines that stay give none or end with the same
(`last_moved_iff`).  A line is moved for an option that is written with `=`, so
one spelled in another way stays, and the other options on a line that is moved
go with it.
-/

import WorkerNg.Options.SplitScript
import Mathlib.Data.List.Induction

namespace WorkerNg
namespace Options

open Argparse Lines Shlex Work

/-! ### The last value behind a sort -/

section Last

variable {α β : Type} (values : α → List β)

/-- The value given last. -/
def lastValue (l : List α) : Option β := (l.flatMap values).getLast?

variable {values} {moved : α → Bool} {l before behind : List α} {x : α}

theorem lastValue_append (l l' : List α) :
    lastValue values (l ++ l') = (lastValue values l').or (lastValue values l) := by
  rw [lastValue, List.flatMap_append, List.getLast?_append, lastValue, lastValue]

theorem lastValue_eq_none (h : ∀ x ∈ l, values x = []) : lastValue values l = none := by
  rw [lastValue, List.flatMap_eq_nil_iff.2 h, List.getLast?_nil]

theorem lastValue_split (before : List α) (x : α) (behind : List α) :
    lastValue values (before ++ x :: behind) =
      (lastValue values behind).or ((lastValue values [x]).or (lastValue values before)) := by
  rw [lastValue_append, ← List.singleton_append, lastValue_append, Option.or_assoc]

theorem exists_lastValue (h : values x ≠ []) : ∃ v, lastValue values [x] = some v := by
  refine ⟨(values x).getLast h, ?_⟩
  rw [lastValue, List.flatMap_singleton, List.getLast?_eq_some_getLast h]

/-- Lines that give nothing can be left out. -/
theorem lastValue_filter (h : ∀ x ∈ l, moved x = true → values x = []) :
    lastValue values (l.filter fun x => !moved x) = lastValue values l := by
  induction l with
  | nil => rfl
  | cons x l ih =>
      rw [List.forall_mem_cons] at h
      have htail := ih h.2
      unfold lastValue at htail ⊢
      rw [List.filter_cons, List.flatMap_cons]
      by_cases hx : moved x = true
      · rw [if_neg (by simp [hx]), h.1 hx, List.nil_append, htail]
      · rw [if_pos (by simp [hx]), List.flatMap_cons, List.getLast?_append, List.getLast?_append,
          htail]

/-- The last line of a kind, if there is one. -/
theorem exists_last (q : α → Prop) (l : List α) :
    (∀ x ∈ l, ¬ q x) ∨
      ∃ before x behind, l = before ++ x :: behind ∧ q x ∧ ∀ y ∈ behind, ¬ q y := by
  induction l using List.reverseRecOn with
  | nil => exact .inl (by simp)
  | append_singleton l x ih =>
      by_cases hx : q x
      · exact .inr ⟨l, x, [], rfl, hx, by simp⟩
      rcases ih with hall | ⟨before, y, behind, rfl, hy, hbehind⟩
      · refine .inl fun y hy => ?_
        rcases List.mem_append.1 hy with hy | hy
        · exact hall y hy
        · exact List.mem_singleton.1 hy ▸ hx
      · refine .inr ⟨before, y, behind ++ [x], by simp, hy, fun z hz => ?_⟩
        rcases List.mem_append.1 hz with hz | hz
        · exact hbehind z hz
        · exact List.mem_singleton.1 hz ▸ hx

/-- Behind the sort the value is that of the last line moved that gives one. -/
theorem lastValue_sorted (hx : moved x = true) (hv : values x ≠ [])
    (hbehind : ∀ y ∈ behind, moved y = true → values y = []) :
    lastValue values (((before ++ x :: behind).filter fun y => !moved y) ++
        (before ++ x :: behind).filter moved) = lastValue values [x] := by
  have hnone : lastValue values (behind.filter moved) = none := by
    refine lastValue_eq_none fun y hy => ?_
    obtain ⟨hy, hm⟩ := List.mem_filter.1 hy
    exact hbehind y hy hm
  obtain ⟨v, hv⟩ := exists_lastValue hv
  rw [lastValue_append, @List.filter_append _ moved before, List.filter_cons_of_pos hx,
    lastValue_split, hnone, hv]
  rfl

/-- **When a sort keeps the last value**: behind the last line moved that gives
one, what the others give last is nothing or the same. -/
theorem last_moved_iff :
    lastValue values ((l.filter fun x => !moved x) ++ l.filter moved) = lastValue values l ↔
      ∀ before x behind, l = before ++ x :: behind → moved x = true → values x ≠ [] →
        (∀ y ∈ behind, moved y = true → values y = []) →
          lastValue values behind = none ∨ lastValue values behind = lastValue values [x] := by
  constructor
  · rintro h before x behind rfl hx hv hbehind
    rw [lastValue_sorted hx hv hbehind, lastValue_split] at h
    rcases hb : lastValue values behind with _ | v
    · exact .inl rfl
    · rw [hb] at h
      exact .inr h.symm
  · intro h
    rcases exists_last (fun x => moved x = true ∧ values x ≠ []) l with
      hall | ⟨before, x, behind, rfl, ⟨hx, hv⟩, hbehind⟩
    · -- no line moved gives a value
      have hnil : ∀ x ∈ l, moved x = true → values x = [] := by
        intro x hx hm
        by_contra hv
        exact hall x hx ⟨hm, hv⟩
      have hnone : lastValue values (l.filter moved) = none := by
        refine lastValue_eq_none fun x hx => ?_
        obtain ⟨hx, hm⟩ := List.mem_filter.1 hx
        exact hnil x hx hm
      rw [lastValue_append, hnone, Option.none_or, lastValue_filter hnil]
    · have hnil : ∀ y ∈ behind, moved y = true → values y = [] := by
        intro y hy hm
        by_contra hv
        exact hbehind y hy ⟨hm, hv⟩
      obtain ⟨v, hlast⟩ := exists_lastValue hv
      rw [lastValue_sorted hx hv hnil, lastValue_split]
      rcases h before x behind rfl hx hv hnil with hb | hb
      · rw [hb, hlast]
        rfl
      · rw [hb, hlast]
        rfl

end Last

/-! ### What `sbatch` reads off a directive -/

namespace Slurm

/-- An option given, by all its spellings; a flag has no value. -/
structure Setting where
  option : List Str
  value : Option Str
deriving DecidableEq

/-- The options with a value that the parser knows. -/
def valueOptions : List (List Str) := passThroughOptions ++ resourceOptions

/-- The flags that the parser knows. -/
def flags : List (List Str) := passThroughFlags ++ resourceFlags

/-- What a word is: an option with its value, a flag, an option whose value is the
next word, or something else. -/
inductive Word where
  | setting (s : Setting)
  | wants (option : List Str)
  | other

/-- The option with a value that is spelled in this way. -/
def valueOption? (name : Str) : Option (List Str) :=
  valueOptions.find? fun option => option.contains name

/-- An option can be spelled `--opt=value`, `--opt`, `-o` or `-ovalue`. -/
def readWord (word : Str) : Word :=
  match valueOption? word with
  | some option => .wants option
  | none =>
      match flags.find? fun flag => flag.contains word with
      | some flag => .setting ⟨flag, none⟩
      | none =>
          if word.take 2 = ['-', '-'] then
            match valueOption? (partition '=' word).1, (partition '=' word).2 with
            | some option, some value => .setting ⟨option, some value⟩
            | _, _ => .other
          else
            match valueOption? (word.take 2) with
            | some option => .setting ⟨option, some (word.drop 2)⟩
            | none => .other

/-- The options given by words, behind an option that waits for its value or not. -/
def readWords : Option (List Str) → List Str → List Setting
  | _, [] => []
  | some option, value :: words => ⟨option, some value⟩ :: readWords none words
  | none, word :: words =>
      match readWord word with
      | .setting s => s :: readWords none words
      | .wants option => readWords (some option) words
      | .other => readWords none words

/-- The values that a line gives an option. -/
def valuesOf (directivePrefix : Text) (option : List Str) (line : Text) : List (Option Str) :=
  ((readWords none (words directivePrefix line)).filter fun s => s.option = option).map
    Setting.value

/-- Several options on one line, in different spellings. -/
example : readWords none ["--nodes=2".toList, "-t".toList, "1".toList, "-pdebug".toList,
    "-O".toList] = [⟨["-N".toList, "--nodes".toList], some "2".toList⟩,
      ⟨["-t".toList, "--time".toList], some "1".toList⟩,
      ⟨["-p".toList, "--partition".toList], some "debug".toList⟩,
      ⟨["-O".toList, "--overcommit".toList], none⟩] := by
  decide +kernel

/-- The directive is one of those that are moved. -/
def isMoved (directivePrefix line : Text) : Bool :=
  isResourceDirectiveLine (words directivePrefix line)

/-- **The job request is kept** for an option: in the part of the directives
before the lines added its last value is the one it has in the script. -/
def KeepsRequest (directivePrefix file directives : Text) (option : List Str) : Prop :=
  ∃ part, directives = part ++ hetjobDirectives ∧
    lastValue (valuesOf directivePrefix option) (keepLines '\n' part) =
      lastValue (valuesOf directivePrefix option) (scriptDirectives directivePrefix file)

/-- Behind the last line moved that gives the option no line gives it another
value. -/
def Unshadowed (directivePrefix file : Text) (option : List Str) : Prop :=
  ∀ before line behind, scriptDirectives directivePrefix file = before ++ line :: behind →
    isMoved directivePrefix line = true → valuesOf directivePrefix option line ≠ [] →
    (∀ l ∈ behind, isMoved directivePrefix l = true → valuesOf directivePrefix option l = []) →
      lastValue (valuesOf directivePrefix option) behind = none ∨
        lastValue (valuesOf directivePrefix option) behind =
          lastValue (valuesOf directivePrefix option) [line]

section Request

variable {digit : Char → Bool} {directivePrefix file : Text} {data : ParseData}

/-- The directives are lines of the file. -/
theorem mem_scriptDirectives {line : Text} (h : line ∈ scriptDirectives directivePrefix file) :
    line ∈ fileLines file := by
  rw [← directiveLines_eq] at h
  exact (mem_directiveLines h).1

/-- What is returned, as lines. -/
theorem directives_eq (h : parseScript digit directivePrefix file = .ok data) :
    data.directives =
      (((scriptDirectives directivePrefix file).filter fun l => !isMoved directivePrefix l) ++
        (scriptDirectives directivePrefix file).filter (isMoved directivePrefix)).flatten ++
        hetjobDirectives := by
  rw [parseScript_eq] at h
  obtain ⟨options, -, rfl⟩ := map_eq_ok h
  show sortDirectives _ _ = _
  rw [sortDirectives, isResourceLine_eq, directiveLines_eq, List.flatten_append]
  rfl

/-- The lines returned are those of the script, so their values are compared. -/
theorem keepsRequest_iff_sorted (h : parseScript digit directivePrefix file = .ok data)
    (hterminated : ∀ line ∈ scriptDirectives directivePrefix file, ∃ l, line = l ++ ['\n'])
    (option : List Str) :
    KeepsRequest directivePrefix file data.directives option ↔
      lastValue (valuesOf directivePrefix option)
          (((scriptDirectives directivePrefix file).filter fun l => !isMoved directivePrefix l) ++
            (scriptDirectives directivePrefix file).filter (isMoved directivePrefix)) =
        lastValue (valuesOf directivePrefix option) (scriptDirectives directivePrefix file) := by
  have hlines : ∀ line ∈ ((scriptDirectives directivePrefix file).filter fun l =>
      !isMoved directivePrefix l) ++
        (scriptDirectives directivePrefix file).filter (isMoved directivePrefix),
      ∃ l, '\n' ∉ l ∧ line = l ++ ['\n'] := by
    intro line hline
    have hmem : line ∈ scriptDirectives directivePrefix file := by
      rcases List.mem_append.1 hline with hline | hline
      · exact List.mem_of_mem_filter hline
      · exact List.mem_of_mem_filter hline
    exact exists_of_mem_keepLines_of_terminated (mem_scriptDirectives hmem)
      (.inr (hterminated line hmem))
  have hkeep := keepLines_flatten_append hlines []
  rw [List.append_nil, keepLines, List.append_nil] at hkeep
  rw [KeepsRequest, directives_eq h]
  constructor
  · rintro ⟨part, hpart, hlast⟩
    obtain rfl := List.append_cancel_right hpart
    rwa [hkeep] at hlast
  · intro hlast
    exact ⟨_, rfl, by rwa [hkeep]⟩

/-- **When sorting the directives keeps the request.**  For a script whose
directives end with a newline and an option, its last value is the same in the
directives returned exactly if no line behind the last one moved that gives the
option gives it another value. -/
theorem keepsRequest_iff (h : parseScript digit directivePrefix file = .ok data)
    (hterminated : ∀ line ∈ scriptDirectives directivePrefix file, ∃ l, line = l ++ ['\n'])
    (option : List Str) :
    KeepsRequest directivePrefix file data.directives option ↔
      Unshadowed directivePrefix file option := by
  rw [keepsRequest_iff_sorted h hterminated, last_moved_iff]
  rfl

end Request

theorem exists_terminated {lines : List Text}
    (h : (lines.all fun line => line.getLast? == some '\n') = true) :
    ∀ line ∈ lines, ∃ l, line = l ++ ['\n'] := by
  intro line hline
  have hlast := List.all_eq_true.1 h line hline
  exact List.getLast?_eq_some_iff.1 (by simpa using hlast)

/-- A time limit, and another one on the line with the number of nodes. -/
def limitBefore : Text := "#SBATCH -t 3\n#SBATCH --nodes=2 -t 1\n".toList

theorem scriptDirectives_limitBefore : scriptDirectives "#SBATCH".toList limitBefore =
    ["#SBATCH -t 3\n".toList, "#SBATCH --nodes=2 -t 1\n".toList] := by
  decide +kernel

theorem keepsRequest_limitBefore :
    ∃ data, parseScript Char.isDigit "#SBATCH".toList limitBefore = .ok data ∧
      KeepsRequest "#SBATCH".toList limitBefore data.directives ["-t".toList, "--time".toList] := by
  have hok : (parseScript Char.isDigit "#SBATCH".toList limitBefore).isOk = true := by
    decide +kernel
  obtain ⟨data, h⟩ := exists_of_isOk hok
  refine ⟨data, h, (keepsRequest_iff h (exists_terminated (by decide +kernel)) _).2 ?_⟩
  intro before line behind heq hmoved _ _
  rw [scriptDirectives_limitBefore] at heq
  left
  match before, heq with
  | [], heq =>
      obtain ⟨rfl, -⟩ := List.cons.inj heq
      exact absurd hmoved (by decide +kernel)
  | [_], heq =>
      obtain ⟨-, heq⟩ := List.cons.inj heq
      obtain ⟨-, rfl⟩ := List.cons.inj heq
      rfl
  | _ :: _ :: before, heq =>
      obtain ⟨-, heq⟩ := List.cons.inj heq
      obtain ⟨-, heq⟩ := List.cons.inj heq
      simp at heq

/-- The number of nodes and a time limit, and another limit behind them. -/
def limitBehind : Text := "#SBATCH --nodes=2 -t 1\n#SBATCH -t 3\n".toList

/-- The number of nodes twice, in two spellings. -/
def nodesTwice : Text := "#SBATCH --nodes=3\n#SBATCH -N 2\n".toList

/-- **Sorting the directives changes the request**: a limit on a line with resources
wins over one behind it, and so does the first number of nodes. -/
theorem exists_not_keepsRequest :
    (∃ data, parseScript Char.isDigit "#SBATCH".toList limitBehind = .ok data ∧
      ¬ KeepsRequest "#SBATCH".toList limitBehind data.directives ["-t".toList, "--time".toList]) ∧
    ∃ data, parseScript Char.isDigit "#SBATCH".toList nodesTwice = .ok data ∧
      ¬ KeepsRequest "#SBATCH".toList nodesTwice data.directives
        ["-N".toList, "--nodes".toList] := by
  have hok : (parseScript Char.isDigit "#SBATCH".toList limitBehind).isOk = true := by
    decide +kernel
  have hok' : (parseScript Char.isDigit "#SBATCH".toList nodesTwice).isOk = true := by
    decide +kernel
  obtain ⟨data, h⟩ := exists_of_isOk hok
  obtain ⟨data', h'⟩ := exists_of_isOk hok'
  refine ⟨⟨data, h, ?_⟩, data', h', ?_⟩
  · rw [keepsRequest_iff_sorted h (exists_terminated (by decide +kernel))]
    decide +kernel
  · rw [keepsRequest_iff_sorted h' (exists_terminated (by decide +kernel))]
    decide +kernel

end Slurm

end Options
end WorkerNg
