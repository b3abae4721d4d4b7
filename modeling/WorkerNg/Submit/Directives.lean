/-
# The directives of a resumed job

`ResubmitOptionParser.parse` in `scripts/worker/option_parser.py`: `wresume` takes
the shebang and the directives of a job from the job script that `wsub`, or an
earlier `wresume`, wrote with `create_jobscript`, and writes its own job script
with them.

With PBS torque the directives stay as they are as long as nothing behind them in
the job script is taken for a directive as well.  With Slurm every reading adds
the two lines of the heterogeneous job, so that every resumed job has two lines
more than the one before (`keepsDirectives_iff`).
-/

import WorkerNg.Options.Script
import WorkerNg.Submit.Jobscript

namespace WorkerNg
namespace Submit

open Lines Options Work
open Work (Scheduler)

/-- `_parse_script` of the scheduler's parser. -/
def parseScript : Work.Scheduler → (Char → Bool) → Text → Text → Except OptionError ParseData
  | .slurm => Options.Slurm.parseScript
  | .pbs => Options.PbsTorque.parseScript

/-- `cl_options.directive_prefix`: what the option `-C` says, for PBS torque, or else
the default. -/
def directivePrefix : Work.Scheduler → Option Text → Text
  | .slurm, _ => Options.Slurm.defaultDirectivePrefix
  | .pbs, prefixOption => prefixOption.getD Options.PbsTorque.defaultDirectivePrefix

/-- A job that is resumed: what its job script was made with, and the option `-C` of the
`wresume` that reads it. -/
structure Resumption where
  cwd : Text
  config : JobConfig
  options : JobOptions
  prefixOption : Option Text

section Resume

variable (sch : Work.Scheduler) (digit : Char → Bool)

/-- The shebang and the directives of a job, as they are read back from its job
script. -/
def resume (x : Option Text × Text) (r : Resumption) : Option (Option Text × Text) :=
  match parseScript sch digit (directivePrefix sch r.prefixOption)
      (createJobscript sch r.cwd r.config r.options x.1 x.2) with
  | .ok d => some (d.shebang, d.directives)
  | .error _ => none

/-- The shebang and the directives after any number of resumes. -/
def resumes (rs : List Resumption) (x : Option Text × Text) : Option (Option Text × Text) :=
  rs.foldlM (resume sch digit) x

/-- **A resumed job keeps the directives of the original job**, and so does any job
resumed from it. -/
def KeepsDirectives (d : ParseData) (rs : List Resumption) : Prop :=
  ∀ k ≤ rs.length,
    resumes sch digit (rs.take k) (d.shebang, d.directives) = some (d.shebang, d.directives)

/-- The lines behind the directives in the job script. -/
def linesBehind (shebang : Text) (dirs : List Text) (r : Resumption) : List Text :=
  fileLines (behindDirectives sch r.cwd r.config r.options (some shebang) dirs.flatten)

/-- Reading a job script of PBS torque finds the directives, and nothing else. -/
structure ReadsBack (shebang : Text) (dirs : List Text) (r : Resumption) : Prop where
  scheduler : sch = .pbs
  begins : ∀ line ∈ dirs, (directivePrefix sch r.prefixOption).isPrefixOf line = true
  parses : (parseDirectives (Options.PbsTorque.baseParser digit)
    (directivePrefix sch r.prefixOption) dirs).isOk = true
  behind : directiveLines (directivePrefix sch r.prefixOption) false
    (linesBehind sch shebang dirs r) = []

end Resume

/-- A line with its terminator. -/
def IsLine (line : Text) : Prop := ∃ u, '\n' ∉ u ∧ line = u ++ ['\n']

/-- A text that `_parse_script` can find as the shebang. -/
structure IsShebang (shebang : Text) : Prop where
  begins : ∀ t, isShebang true (shebang ++ t) = true
  no_newline : '\n' ∉ shebang
  no_return : '\r' ∉ shebang
  strip_eq : strip shebang = shebang

/-! ### Lines and shebangs -/

theorem IsLine.of_terminated {file line : Text} (h : line ∈ fileLines file)
    (ht : Terminated '\n' line) : IsLine line :=
  exists_of_mem_keepLines_of_terminated h ht

/-- No line of a file has a carriage return. -/
theorem return_not_mem {file line : Text} (h : line ∈ fileLines file) : '\r' ∉ line := by
  intro hr
  have hmem := List.mem_flatten_of_mem h hr
  rw [fileLines, flatten_keepLines] at hmem
  exact not_mem_universalNewlines file hmem

/-- The lines behind the directives have their terminators. -/
theorem isLine_behind {sch : Work.Scheduler} {shebang line : Text} {dirs : List Text}
    {r : Resumption} (h : line ∈ linesBehind sch shebang dirs r) : IsLine line := by
  have hterm : Terminated '\n' (behindDirectives sch r.cwd r.config r.options (some shebang)
      dirs.flatten) := by
    unfold behindDirectives printLine
    rw [← List.cons_append]
    exact terminated_concat _
  have hmem := h
  unfold linesBehind fileLines at hmem
  rw [keepLines_eq (terminated_universalNewlines hterm)] at hmem
  obtain ⟨l, -, rfl⟩ := List.mem_map.1 hmem
  exact IsLine.of_terminated h (terminated_concat l)

theorem strip_shebang (w : Text) : strip ('#' :: '!' :: w) = '#' :: '!' :: w.rdropWhile isSpace := by
  have hs : ¬isSpace '#' = true := by decide
  have he : ¬isSpace '!' = true := by decide
  rw [strip, List.dropWhile_cons_of_neg hs]
  exact rdropWhile_append_cons he ['#'] w

theorem strip_subset (s : Text) : strip s ⊆ s := fun _ h =>
  (List.dropWhile_suffix isSpace).subset ((List.rdropWhile_prefix isSpace _).subset h)

/-- A line that is stripped has lost its terminator. -/
theorem newline_not_mem_strip {file line : Text} (h : line ∈ fileLines file) :
    '\n' ∉ strip line := by
  obtain ⟨u, hu, rfl | rfl⟩ := exists_of_mem_keepLines h
  · rw [strip_newline]
    exact fun hn => hu (strip_subset u hn)
  · exact fun hn => hu (strip_subset _ hn)

/-- What is found as the shebang is found again. -/
theorem isShebang_strip {file line : Text} (hmem : line ∈ fileLines file)
    (h : isShebang true line = true) : IsShebang (strip line) := by
  have hnewline := newline_not_mem_strip hmem
  have hreturn : '\r' ∉ strip line := fun hr => return_not_mem hmem (strip_subset line hr)
  obtain ⟨w, rfl⟩ := List.isPrefixOf_iff_prefix.1 h
  have hstrip : strip (['#', '!'] ++ w) = '#' :: '!' :: w.rdropWhile isSpace := strip_shebang w
  rw [hstrip] at hnewline hreturn ⊢
  refine ⟨fun _ => rfl, hnewline, hreturn, ?_⟩
  rw [strip_shebang, List.rdropWhile_idempotent]

/-! ### Reading a job script -/

variable {sch : Work.Scheduler} {digit : Char → Bool} {shebang : Text} {dirs : List Text}
  {r : Resumption}

/-- The lines of a job script: the shebang, the directives, and what is behind them. -/
theorem fileLines_jobscript (hs : IsShebang shebang) (hdirs : ∀ line ∈ dirs, IsLine line)
    (hreturn : ∀ line ∈ dirs, '\r' ∉ line) :
    fileLines (createJobscript sch r.cwd r.config r.options (some shebang) dirs.flatten) =
      (shebang ++ ['\n']) :: (dirs ++ linesBehind sch shebang dirs r) := by
  have hr : '\r' ∉ shebang ++ '\n' :: dirs.flatten := by
    rw [List.mem_append, List.mem_cons, List.mem_flatten]
    rintro (h | h | ⟨line, hline, h⟩)
    · exact hs.no_return h
    · exact absurd h (by decide)
    · exact hreturn line hline h
  rw [createJobscript_eq, Option.getD_some, ← List.cons_append, ← List.append_assoc, fileLines,
    universalNewlines_append hr, List.append_assoc, List.cons_append,
    keepLines_line_append hs.no_newline, keepLines_flatten_append hdirs]
  rfl

/-- The directives that are read back: those that were written and have the prefix, as
long as no command is among them, and what is taken for one behind them. -/
theorem directiveLines_jobscript (hs : IsShebang shebang) (hdirs : ∀ line ∈ dirs, IsLine line)
    (hreturn : ∀ line ∈ dirs, '\r' ∉ line) (dp : Text) :
    directiveLines dp true (fileLines (createJobscript sch r.cwd r.config r.options (some shebang)
      dirs.flatten)) = directiveLines dp false (dirs ++ linesBehind sch shebang dirs r) := by
  rw [fileLines_jobscript hs hdirs hreturn, directiveLines, if_pos (hs.begins _)]

/-- The shebang is read back. -/
theorem shebangOf_jobscript (hs : IsShebang shebang) (hdirs : ∀ line ∈ dirs, IsLine line)
    (hreturn : ∀ line ∈ dirs, '\r' ∉ line) :
    shebangOf true (fileLines (createJobscript sch r.cwd r.config r.options (some shebang)
      dirs.flatten)) = some shebang := by
  rw [fileLines_jobscript hs hdirs hreturn, shebangOf_cons, if_pos (hs.begins _), strip_newline,
    hs.strip_eq]

/-- Lines of a text are determined by it. -/
theorem eq_of_flatten_eq {ls ms : List Text} (hls : ∀ line ∈ ls, IsLine line)
    (hms : ∀ line ∈ ms, IsLine line) (h : ls.flatten = ms.flatten) : ls = ms := by
  have hl := keepLines_flatten_append hls []
  have hm := keepLines_flatten_append hms []
  rw [h, hm] at hl
  simpa [keepLines] using hl.symm

/-! ### One resume -/

/-- With PBS torque the directives are kept exactly if they are read back. -/
theorem resume_pbs_iff (hs : IsShebang shebang) (hdirs : ∀ line ∈ dirs, IsLine line)
    (hreturn : ∀ line ∈ dirs, '\r' ∉ line) :
    resume .pbs digit (some shebang, dirs.flatten) r = some (some shebang, dirs.flatten) ↔
      ReadsBack .pbs digit shebang dirs r := by
  have hresume : resume .pbs digit (some shebang, dirs.flatten) r =
      match parseDirectives (Options.PbsTorque.baseParser digit) (directivePrefix .pbs r.prefixOption)
        (directiveLines (directivePrefix .pbs r.prefixOption) false
          (dirs ++ linesBehind .pbs shebang dirs r)) with
      | .ok _ => some (some shebang, (directiveLines (directivePrefix .pbs r.prefixOption) false
          (dirs ++ linesBehind .pbs shebang dirs r)).flatten)
      | .error _ => none := by
    rw [resume, parseScript, Options.PbsTorque.parseScript_eq,
      directiveLines_jobscript hs hdirs hreturn, shebangOf_jobscript hs hdirs hreturn]
    cases parseDirectives (Options.PbsTorque.baseParser digit) (directivePrefix .pbs r.prefixOption)
      (directiveLines (directivePrefix .pbs r.prefixOption) false
        (dirs ++ linesBehind .pbs shebang dirs r)) <;> rfl
  rw [hresume]
  constructor
  · intro h
    split at h
    · rename_i options hparse
      have hflat := congrArg Prod.snd (Option.some.inj h)
      -- the lines are the same, so each has the prefix and there are no others
      have hlines : directiveLines (directivePrefix .pbs r.prefixOption) false
          (dirs ++ linesBehind .pbs shebang dirs r) = dirs := by
        refine eq_of_flatten_eq (fun line hline => ?_) hdirs hflat
        rcases List.mem_append.1 (mem_directiveLines hline).1 with hd | hb
        · exact hdirs line hd
        · exact isLine_behind hb
      have hbegins : ∀ line ∈ dirs,
          (directivePrefix .pbs r.prefixOption).isPrefixOf line = true := fun line hline =>
        (mem_directiveLines (hlines.symm ▸ hline)).2
      rw [hlines] at hparse
      rw [directiveLines_append hbegins] at hlines
      exact ⟨rfl, hbegins, by rw [hparse]; rfl, List.append_right_eq_self.1 hlines⟩
    · cases h
  · rintro ⟨-, hbegins, hparses, hbehind⟩
    obtain ⟨options, hparse⟩ := exists_of_isOk hparses
    rw [directiveLines_append hbegins, hbehind, List.append_nil, hparse]

/-- **With Slurm the directives are never kept**: two lines are added to them. -/
theorem resume_slurm_ne (hs : IsShebang shebang) (hdirs : ∀ line ∈ dirs, IsLine line)
    (hreturn : ∀ line ∈ dirs, '\r' ∉ line)
    (hbegins : ∀ line ∈ dirs, Options.Slurm.defaultDirectivePrefix.isPrefixOf line = true) :
    resume .slurm digit (some shebang, dirs.flatten) r ≠ some (some shebang, dirs.flatten) := by
  intro h
  rw [resume, parseScript, Options.Slurm.parseScript_eq, directivePrefix,
    directiveLines_jobscript hs hdirs hreturn, directiveLines_append hbegins] at h
  split at h
  · rename_i d hd
    obtain ⟨options, -, rfl⟩ := map_eq_ok hd
    have hlen := Options.Slurm.length_sortDirectives Options.Slurm.defaultDirectivePrefix
      (dirs ++ directiveLines Options.Slurm.defaultDirectivePrefix false
        (linesBehind .slurm shebang dirs r))
    have hsame := congrArg (fun x => x.2.length) (Option.some.inj h)
    simp only [List.flatten_append, List.length_append] at hlen hsame
    omega
  · cases h

/-! ### Any number of resumes -/

/-- A run of steps stays where it is exactly if every step does. -/
theorem forall_foldlM_take {α β : Type} (f : β → α → Option β) (x : β) (l : List α) :
    (∀ k ≤ l.length, (l.take k).foldlM f x = some x) ↔ ∀ a ∈ l, f x a = some x := by
  induction l with
  | nil =>
      constructor
      · intro _ a ha
        exact absurd ha List.not_mem_nil
      · intro _ k _
        rw [List.take_nil]
        rfl
  | cons a l ih =>
      rw [List.forall_mem_cons, ← ih]
      constructor
      · intro h
        have ha : f x a = some x := by
          have h₁ := h 1 (by simp)
          simpa using h₁
        refine ⟨ha, fun k hk => ?_⟩
        have hk' := h (k + 1) (by simpa using hk)
        rw [List.take_succ_cons, List.foldlM_cons, ha] at hk'
        exact hk'
      · rintro ⟨ha, h⟩ k hk
        cases k with
        | zero => rfl
        | succ k =>
            rw [List.take_succ_cons, List.foldlM_cons, ha]
            exact h k (by simpa using hk)

/-! ### The original job -/

/-- The lines of the directives that `_parse_script` returns. -/
def returnedLines (dp : Text) (dirs : List Text) : Work.Scheduler → List Text
  | .slurm => Options.Slurm.sortedLines dp dirs
  | .pbs => dirs

theorem parseScript_eq_ok {dp file : Text} {d : ParseData}
    (h : parseScript sch digit dp file = .ok d) :
    d.shebang = shebangOf true (fileLines file) ∧
      d.directives = (returnedLines dp (directiveLines dp true (fileLines file)) sch).flatten := by
  cases sch with
  | slurm =>
      rw [parseScript, Options.Slurm.parseScript_eq] at h
      obtain ⟨options, -, rfl⟩ := map_eq_ok h
      exact ⟨rfl, Options.Slurm.sortDirectives_eq dp _⟩
  | pbs =>
      rw [parseScript, Options.PbsTorque.parseScript_eq] at h
      obtain ⟨options, -, rfl⟩ := map_eq_ok h
      exact ⟨rfl, rfl⟩

/-- The lines that Slurm's parser adds are lines with the prefix. -/
theorem hetjobLines_spec {line : Text} (h : line ∈ Options.Slurm.hetjobLines) :
    IsLine line ∧ '\r' ∉ line ∧ Options.Slurm.defaultDirectivePrefix.isPrefixOf line = true := by
  rcases List.mem_cons.1 h with rfl | h
  · exact ⟨⟨"#SBATCH hetjob".toList, by decide, by decide⟩, by decide, by decide⟩
  · obtain rfl := List.mem_singleton.1 h
    exact ⟨⟨"#SBATCH --nodes=1 --ntasks=1 --cpus-per-task=1".toList, by decide, by decide⟩,
      by decide, by decide⟩

/-- A line that `_parse_script` returns is a directive or one of the lines added. -/
theorem mem_returnedLines {dp line : Text} (h : line ∈ returnedLines dp dirs sch) :
    line ∈ dirs ∨ sch = .slurm ∧ line ∈ Options.Slurm.hetjobLines := by
  cases sch with
  | slurm =>
      rw [returnedLines, Options.Slurm.sortedLines, List.mem_append, List.mem_append] at h
      rcases h with (h | h) | h
      · exact Or.inl (List.mem_of_mem_filter h)
      · exact Or.inl (List.mem_of_mem_filter h)
      · exact Or.inr ⟨rfl, h⟩
  | pbs => exact Or.inl h

theorem isShebang_of_shebangOf {file : Text} (h : shebangOf true (fileLines file) = some shebang) :
    IsShebang shebang := by
  cases hfile : fileLines file with
  | nil =>
      rw [hfile] at h
      cases h
  | cons line rest =>
      rw [hfile, shebangOf_cons] at h
      split_ifs at h with hline
      obtain rfl := Option.some.inj h
      exact isShebang_strip (hfile ▸ List.mem_cons_self) hline

/-- **A resumed job keeps the directives of the original job exactly with PBS torque,
when each time the directives, and nothing behind them, are read back.** -/
theorem keepsDirectives_iff (sch : Work.Scheduler) (digit : Char → Bool)
    (prefixOption : Option Text) (file : Text) (d : ParseData) (shebang : Text)
    (hparse : parseScript sch digit (directivePrefix sch prefixOption) file = .ok d)
    (hshebang : d.shebang = some shebang)
    (hterm : ∀ line ∈ directiveLines (directivePrefix sch prefixOption) true (fileLines file),
      Terminated '\n' line) (rs : List Resumption) :
    KeepsDirectives sch digit d rs ↔ ∀ r ∈ rs, ReadsBack sch digit shebang
      (directiveLines (directivePrefix sch prefixOption) true (fileLines file)) r := by
  obtain ⟨hsb, hdirs⟩ := parseScript_eq_ok hparse
  have hs : IsShebang shebang := isShebang_of_shebangOf (hsb.symm.trans hshebang)
  have hline : ∀ line ∈ returnedLines (directivePrefix sch prefixOption)
      (directiveLines (directivePrefix sch prefixOption) true (fileLines file)) sch,
      IsLine line ∧ '\r' ∉ line ∧ (directivePrefix sch prefixOption).isPrefixOf line = true := by
    intro line hmem
    rcases mem_returnedLines hmem with h | ⟨rfl, h⟩
    · obtain ⟨hfile, hp⟩ := mem_directiveLines h
      exact ⟨IsLine.of_terminated hfile (hterm line h), return_not_mem hfile, hp⟩
    · exact hetjobLines_spec h
  unfold KeepsDirectives resumes
  rw [forall_foldlM_take, hshebang, hdirs]
  refine forall₂_congr fun r _ => ?_
  cases sch with
  | slurm =>
      refine iff_of_false ?_ fun h => ?_
      · exact resume_slurm_ne hs (fun l hl => (hline l hl).1) (fun l hl => (hline l hl).2.1)
          fun l hl => (hline l hl).2.2
      · cases h.scheduler
  | pbs =>
      exact resume_pbs_iff hs (fun l hl => (hline l hl).1) fun l hl => (hline l hl).2.1

/-! ### Within and without the prefix of the submission -/

/-- Within the prefix of the submission, all that matters is what stands behind the
directives. -/
theorem readsBack_iff {prefixOption : Option Text} {file : Text} {d : ParseData}
    (hparse : parseScript .pbs digit (directivePrefix .pbs prefixOption) file = .ok d)
    (hsame : directivePrefix .pbs r.prefixOption = directivePrefix .pbs prefixOption) :
    ReadsBack .pbs digit shebang
        (directiveLines (directivePrefix .pbs prefixOption) true (fileLines file)) r ↔
      directiveLines (directivePrefix .pbs prefixOption) false (linesBehind .pbs shebang
        (directiveLines (directivePrefix .pbs prefixOption) true (fileLines file)) r) = [] := by
  constructor
  · intro h
    exact hsame ▸ h.behind
  · intro h
    refine ⟨rfl, ?_, ?_, ?_⟩
    · intro line hline
      rw [hsame]
      exact (mem_directiveLines hline).2
    · rw [parseScript, Options.PbsTorque.parseScript_eq] at hparse
      obtain ⟨options, ho, -⟩ := map_eq_ok hparse
      rw [hsame, ho]
      rfl
    · rw [hsame]
      exact h

/-- With the prefix `#` the comments of the template are directives. -/
theorem not_readsBack_comment (h : r.prefixOption = some ['#']) :
    ¬ReadsBack sch digit shebang dirs r := by
  intro hread
  obtain rfl := hread.scheduler
  obtain ⟨t, ht⟩ := behindDirectives_eq .pbs r.cwd r.config r.options (some shebang) dirs.flatten
  have hlines : linesBehind .pbs shebang dirs r =
      ['\n'] :: ['#', '\n'] :: keepLines '\n' (universalNewlines t) := by
    unfold linesBehind fileLines
    rw [ht]
    show keepLines '\n' ('\n' :: (['#'] ++ '\n' :: universalNewlines t)) = _
    rw [keepLines_cons_self, keepLines_line_append (by decide)]
    rfl
  have hbehind := hread.behind
  rw [hlines, directivePrefix, h] at hbehind
  cases hbehind

/-- A job in `/data`, resumed without options. -/
def dataJob (schedulerEnvVarExprs : Text) : Resumption :=
  { cwd := "/data".toList
    config :=
      { path := "/opt".toList, workerPort := "5555".toList, serverStartDelay := "5".toList,
        workerEnvVarExprs := "'^VSC_'".toList, schedulerEnvVarExprs := schedulerEnvVarExprs }
    options := { port := none, numCores := 1 }
    prefixOption := none }

/-- The directives of a job of PBS torque are kept twice. -/
theorem keepsDirectives_pbs :
    ∃ d, parseScript .pbs Char.isDigit (directivePrefix .pbs none)
        "#!/bin/bash\n#PBS -N a\n\necho\n".toList = .ok d ∧
      KeepsDirectives .pbs Char.isDigit d
        [dataJob "'^PBS_'".toList, dataJob "'^PBS_'".toList] := by
  have hok : (parseScript .pbs Char.isDigit (directivePrefix .pbs none)
      "#!/bin/bash\n#PBS -N a\n\necho\n".toList).isOk = true := by decide +kernel
  obtain ⟨d, hd⟩ := exists_of_isOk hok
  have hshebang : d.shebang = some "#!/bin/bash".toList :=
    (parseScript_eq_ok hd).1.trans (by decide)
  have hdirs : directiveLines (directivePrefix .pbs none) true
      (fileLines "#!/bin/bash\n#PBS -N a\n\necho\n".toList) = ["#PBS -N a\n".toList] := by decide
  have hbehind : directiveLines (directivePrefix .pbs none) false
      (linesBehind .pbs "#!/bin/bash".toList ["#PBS -N a\n".toList] (dataJob "'^PBS_'".toList)) =
        [] := by decide +kernel
  have hread : ReadsBack .pbs Char.isDigit "#!/bin/bash".toList
      (directiveLines (directivePrefix .pbs none) true
        (fileLines "#!/bin/bash\n#PBS -N a\n\necho\n".toList)) (dataJob "'^PBS_'".toList) := by
    rw [readsBack_iff hd rfl, hdirs]
    exact hbehind
  refine ⟨d, hd, (keepsDirectives_iff .pbs Char.isDigit none _ d _ hd hshebang ?_ _).2 ?_⟩
  · rw [hdirs]
    intro line hline
    obtain rfl := List.mem_singleton.1 hline
    exact Or.inr ⟨"#PBS -N a".toList, by decide⟩
  · intro r hr
    simp only [List.mem_cons, List.not_mem_nil, or_false, or_self] at hr
    rw [hr]
    exact hread

/-- **Slurm's directives change with every resume**: the nodes asked for are those of
the second group then, and the first one has none. -/
theorem not_keepsDirectives_slurm :
    ∃ d, parseScript .slurm Char.isDigit (directivePrefix .slurm none)
        "#!/bin/bash\n#SBATCH --nodes=2\n\necho\n".toList = .ok d ∧
      d.shebang = some "#!/bin/bash".toList ∧
      d.directives = ("#SBATCH --nodes=2\n#SBATCH hetjob\n".toList ++
        "#SBATCH --nodes=1 --ntasks=1 --cpus-per-task=1\n".toList) ∧
      resume .slurm Char.isDigit (d.shebang, d.directives) (dataJob "'^SLURM_'".toList) =
        some (some "#!/bin/bash".toList, "#SBATCH hetjob\n#SBATCH --nodes=2\n".toList ++
          "#SBATCH --nodes=1 --ntasks=1 --cpus-per-task=1\n#SBATCH hetjob\n".toList ++
          "#SBATCH --nodes=1 --ntasks=1 --cpus-per-task=1\n".toList) ∧
      ¬KeepsDirectives .slurm Char.isDigit d [dataJob "'^SLURM_'".toList] := by
  have hok : (parseScript .slurm Char.isDigit (directivePrefix .slurm none)
      "#!/bin/bash\n#SBATCH --nodes=2\n\necho\n".toList).isOk = true := by decide +kernel
  obtain ⟨d, hd⟩ := exists_of_isOk hok
  have hshebang : d.shebang = some "#!/bin/bash".toList :=
    (parseScript_eq_ok hd).1.trans (by decide)
  have hdirs : d.directives = ("#SBATCH --nodes=2\n#SBATCH hetjob\n".toList ++
      "#SBATCH --nodes=1 --ntasks=1 --cpus-per-task=1\n".toList) :=
    (parseScript_eq_ok hd).2.trans (by decide +kernel)
  have hresume : resume .slurm Char.isDigit (d.shebang, d.directives) (dataJob "'^SLURM_'".toList) =
      some (some "#!/bin/bash".toList, "#SBATCH hetjob\n#SBATCH --nodes=2\n".toList ++
        "#SBATCH --nodes=1 --ntasks=1 --cpus-per-task=1\n#SBATCH hetjob\n".toList ++
        "#SBATCH --nodes=1 --ntasks=1 --cpus-per-task=1\n".toList) := by
    rw [hshebang, hdirs, resume, parseScript, Options.Slurm.parseScript_eq]
    decide +kernel
  refine ⟨d, hd, hshebang, hdirs, hresume, fun hkeeps => ?_⟩
  have hone := (forall_foldlM_take _ _ _).1 hkeeps _ List.mem_cons_self
  rw [hresume, hshebang, hdirs] at hone
  exact absurd hone (by decide)

end Submit
end WorkerNg
