/-
# The submit command, written and read back

`submit_job` in `scripts/worker/utils.py` and `parse_submit_cmd` in
`scripts/worker/option_parser.py`.

`submit_job` keeps the command that it runs in a file, put together by
`shlex.join`; `wresume` gets the options and the job script back with
`parse_submit_cmd`.  That reads one line of the file, drops its first word and
splits the rest with `shlex.split`.  The file has one line exactly if no word of
the command has a line break; then the words are read back (`parseSubmitCmd_line`
and `Shlex.split_join`).  Otherwise the line ends within the quotes of the first
such word, which have no closing quote on that line (`Shlex.split_open`), and
nothing is read back (`parseSubmitCmd_iff`).
-/

import WorkerNg.Lib.Shlex
import WorkerNg.Submit.SubmitOutput

namespace WorkerNg
namespace Submit

open Lines Work

/-- The command that `submit_job` runs. -/
def SubmitJob.command (submitCommand : Text) (originalClOptions : List Text)
    (jobscriptPath : Text) : List Text :=
  [submitCommand] ++ originalClOptions ++ [jobscriptPath]

/-- The file that `submit_job` writes. -/
def SubmitJob.file (submitCommand : Text) (originalClOptions : List Text)
    (jobscriptPath : Text) : Text :=
  printLine (Shlex.join (SubmitJob.command submitCommand originalClOptions jobscriptPath))

/-- `str.split(maxsplit=1)`: the first word, and what is behind the white space
that follows it. -/
def splitOnce (s : Text) : List Text :=
  if s.dropWhile isSpace = [] then []
  else
    let word := (s.dropWhile isSpace).takeWhile fun c => !isSpace c
    let rest := ((s.dropWhile isSpace).dropWhile fun c => !isSpace c).dropWhile isSpace
    if rest = [] then [word] else [word, rest]

/-- The exceptions of `shlex.split`. -/
def shlexException : Shlex.ShlexError → PyException
  | .noClosingQuotation => ⟨.valueError, "No closing quotation".toList⟩
  | .noEscapedCharacter => ⟨.valueError, "No escaped character".toList⟩

/-- `parse_submit_cmd`, for a file with the given text. -/
def parseSubmitCmd (file : Text) : Except PyException (List Text) :=
  let cmdStr := (keepLines '\n' (universalNewlines file)).headD []
  match splitOnce (strip cmdStr) with
  | [_, argStr] => (Shlex.split false argStr).mapError shlexException
  | words => .error ⟨.valueError, "not enough values to unpack (expected 2, got ".toList ++
      Nat.toDigits 10 words.length ++ ")".toList⟩

/-- A text without line breaks, however they are written. -/
def Unbroken (s : Text) : Prop := ∀ c ∈ s, c ≠ '\n' ∧ c ≠ '\r'

/-- A text without white space. -/
def IsWord (s : Text) : Prop := ∀ c ∈ s, isSpace c = false

instance (s : Text) : Decidable (Unbroken s) := List.decidableBAll _ s

instance (s : Text) : Decidable (IsWord s) := List.decidableBAll _ s

section Line

variable {s t word : Text}

theorem Unbroken.append (hs : Unbroken s) (ht : Unbroken t) : Unbroken (s ++ t) := by
  intro c hc
  rcases List.mem_append.1 hc with h | h
  · exact hs c h
  · exact ht c h

theorem Unbroken.newline_not_mem (hs : Unbroken s) : '\n' ∉ s := fun h => (hs _ h).1 rfl

theorem Unbroken.return_not_mem (hs : Unbroken s) : '\r' ∉ s := fun h => (hs _ h).2 rfl

/-- The first line of a file. -/
theorem keepLines_unbroken (hs : Unbroken s) {c : Char} (hc : c = '\n' ∨ c = '\r') (t : Text) :
    (keepLines '\n' (universalNewlines (s ++ c :: t))).headD [] = s ++ ['\n'] := by
  have hbreak : ∃ u, universalNewlines (c :: t) = '\n' :: u := by
    rcases hc with rfl | rfl
    · exact ⟨universalNewlines t, universalNewlines_append (s := ['\n']) (by decide) t⟩
    · unfold universalNewlines
      split
      next => exact ⟨_, rfl⟩
      next => exact ⟨_, rfl⟩
      next hreturn heq => exact absurd (List.cons.inj heq).1.symm hreturn
      next heq => cases heq
  obtain ⟨u, hu⟩ := hbreak
  rw [universalNewlines_append hs.return_not_mem, hu, keepLines_line_append hs.newline_not_mem]
  rfl

/-- A word and more behind it. -/
theorem splitOnce_word (hne : word ≠ []) (hword : IsWord word) {c : Char}
    (hc : isSpace c = false) (t : Text) : splitOnce (word ++ ' ' :: c :: t) = [word, c :: t] := by
  have hblank : isSpace ' ' = true := by decide
  have hfront : (word ++ ' ' :: c :: t).dropWhile isSpace = word ++ ' ' :: c :: t := by
    obtain ⟨d, w, rfl⟩ := List.exists_cons_of_ne_nil hne
    rw [List.cons_append, List.dropWhile_cons_of_neg (by simp [hword d List.mem_cons_self])]
  have hall : ∀ d ∈ word, (!isSpace d) = true := by
    intro d hd
    rw [hword d hd, Bool.not_false]
  have hrest : ((word ++ ' ' :: c :: t).dropWhile fun d => !isSpace d).dropWhile isSpace =
      c :: t := by
    rw [List.dropWhile_append_of_pos hall, List.dropWhile_cons_of_neg (by simp [hblank]),
      List.dropWhile_cons_of_pos hblank, List.dropWhile_cons_of_neg (by simp [hc])]
  have htake : (word ++ ' ' :: c :: t).takeWhile (fun d => !isSpace d) = word := by
    rw [List.takeWhile_append_of_pos hall, List.takeWhile_cons_of_neg (by simp [hblank]),
      List.append_nil]
  unfold splitOnce
  rw [hfront, hrest, htake, if_neg (by simp), if_neg (List.cons_ne_nil c t)]

/-- **A line** is split behind its first word, without the white space at its end. -/
theorem parseSubmitCmd_line (hne : word ≠ []) (hword : IsWord word) {c : Char}
    (hc : isSpace c = false) (hline : Unbroken (word ++ ' ' :: c :: t)) {d : Char}
    (hd : d = '\n' ∨ d = '\r') (rest : Text) :
    parseSubmitCmd (word ++ ' ' :: c :: t ++ d :: rest) =
      (Shlex.split false ((c :: t).rdropWhile isSpace)).mapError shlexException := by
  have hstrip : strip (word ++ ' ' :: c :: t) = word ++ ' ' :: (c :: t).rdropWhile isSpace := by
    obtain ⟨e, w, rfl⟩ := List.exists_cons_of_ne_nil hne
    have he : ¬isSpace e = true := by simp [hword e List.mem_cons_self]
    have hc' : ¬isSpace c = true := by simp [hc]
    have hend := rdropWhile_append_cons hc' (e :: w ++ [' ']) t
    have hend' := rdropWhile_append_cons hc' [] t
    rw [strip, List.cons_append, List.dropWhile_cons_of_neg he, ← List.nil_append (c :: t), hend']
    simpa using hend
  have hcons : (c :: t).rdropWhile isSpace = c :: t.rdropWhile isSpace :=
    rdropWhile_append_cons (by simp [hc]) [] t
  unfold parseSubmitCmd
  dsimp only
  rw [keepLines_unbroken hline hd, strip_newline, hstrip, hcons, splitOnce_word hne hword hc]

end Line

/-! ### Quoted words -/

section Quoted

variable {s : Text} {words : List Text}

theorem isSpace_of_isSafe {c : Char} (h : Shlex.isSafe c = true) : isSpace c = false := by
  have hbounds := Shlex.toNat_of_isSafe h
  by_contra hs
  rw [Bool.not_eq_false, isSpace, List.contains_iff_mem] at hs
  simp only [List.mem_cons, List.not_mem_nil, or_false] at hs
  omega

theorem Unbroken.quote (h : Unbroken s) : Unbroken (Shlex.quote s) :=
  Shlex.forall_mem_quote h (by decide) (by decide)

theorem Unbroken.replaceQuotes (h : Unbroken s) : Unbroken (Shlex.replaceQuotes s) :=
  Shlex.forall_mem_replaceQuotes h (by decide) (by decide)

/-- Quoting puts no white space into a word. -/
theorem IsWord.quote (h : IsWord s) : IsWord (Shlex.quote s) :=
  Shlex.forall_mem_quote h (by decide) (by decide)

/-- A quoted word ends as it begins, with no white space. -/
theorem exists_quote_eq (s : Text) : (∃ c t, Shlex.quote s = c :: t ∧ isSpace c = false) ∧
    ∃ t c, Shlex.quote s = t ++ [c] ∧ isSpace c = false := by
  have hquote : isSpace '\'' = false := by decide
  unfold Shlex.quote
  split_ifs with hnil hsafe
  · exact ⟨⟨'\'', ['\''], rfl, hquote⟩, ⟨['\''], '\'', rfl, hquote⟩⟩
  · rw [List.all_eq_true] at hsafe
    constructor
    · obtain ⟨c, t, rfl⟩ := List.exists_cons_of_ne_nil hnil
      exact ⟨c, t, rfl, isSpace_of_isSafe (hsafe c List.mem_cons_self)⟩
    · have hlast := hsafe _ (List.getLast_mem hnil)
      exact ⟨s.dropLast, s.getLast hnil, (List.dropLast_concat_getLast hnil).symm,
        isSpace_of_isSafe hlast⟩
  · exact ⟨⟨'\'', _, rfl, hquote⟩, ⟨_, '\'', rfl, hquote⟩⟩

/-- White space at the end of a word is not touched by the quoting. -/
theorem rdropWhile_replaceQuotes (s : Text) :
    (Shlex.replaceQuotes s).rdropWhile isSpace = Shlex.replaceQuotes (s.rdropWhile isSpace) := by
  induction s using List.reverseRecOn with
  | nil => rfl
  | append_singleton s c ih =>
      rw [Shlex.replaceQuotes_append]
      by_cases hc : isSpace c = true
      · have hne : c ≠ '\'' := by
          rintro rfl
          exact absurd hc (by decide)
        rw [Shlex.replaceQuotes_cons_of_ne hne, List.rdropWhile_concat_pos _ _ _ hc]
        exact (List.rdropWhile_concat_pos _ _ _ hc).trans ih
      · have hconcat : ∃ t d, Shlex.replaceQuotes (s ++ [c]) = t ++ [d] ∧ ¬isSpace d = true := by
          rw [Shlex.replaceQuotes_append]
          by_cases hq : c = '\''
          · subst hq
            refine ⟨Shlex.replaceQuotes s ++ ['\'', '"', '\'', '"'], '\'', ?_, hc⟩
            rw [List.append_assoc]
            rfl
          · exact ⟨Shlex.replaceQuotes s, c, by rw [Shlex.replaceQuotes_cons_of_ne hq]; rfl, hc⟩
        obtain ⟨t, d, ht, hd⟩ := hconcat
        rw [← Shlex.replaceQuotes_append, List.rdropWhile_concat_neg _ _ _ hc, ht,
          List.rdropWhile_concat_neg _ _ _ hd]

theorem Unbroken.joinFront (h : ∀ w ∈ words, Unbroken w) : Unbroken (Shlex.joinFront words) := by
  intro c hc
  obtain ⟨w, hw, hc⟩ := List.mem_flatMap.1 hc
  rcases List.mem_append.1 hc with hc | hc
  · exact (h w hw).quote c hc
  · obtain rfl := List.mem_singleton.1 hc
    decide

/-- Words in front do not begin with white space. -/
theorem exists_joinFront_eq (words : List Text) {c : Char} (hc : isSpace c = false) (t : Text) :
    ∃ d u, Shlex.joinFront words ++ c :: t = d :: u ∧ isSpace d = false := by
  cases words with
  | nil => exact ⟨c, t, rfl, hc⟩
  | cons s words =>
      obtain ⟨d, u, hu, hd⟩ := (exists_quote_eq s).1
      exact ⟨d, _, by rw [Shlex.joinFront_cons_append, hu]; rfl, hd⟩

/-- **The first line**, when it ends behind some words and the beginning of another one. -/
theorem parseSubmitCmd_words {submitCommand : Text}
    (hword : IsWord submitCommand) (hwords : ∀ w ∈ words, Unbroken w) {c : Char}
    (hc : isSpace c = false) (ht : Unbroken (c :: s)) {d : Char} (hd : d = '\n' ∨ d = '\r')
    (rest : Text) :
    parseSubmitCmd (Shlex.quote submitCommand ++ ' ' :: (Shlex.joinFront words ++ c :: s) ++
        d :: rest) =
      (Shlex.split false (Shlex.joinFront words ++ c :: s.rdropWhile isSpace)).mapError
        shlexException := by
  have hc' : ¬isSpace c = true := by simp [hc]
  obtain ⟨e, u, hu, he⟩ := exists_joinFront_eq words hc s
  have hne : Shlex.quote submitCommand ≠ [] := by
    obtain ⟨f, v, hv, -⟩ := (exists_quote_eq submitCommand).1
    rw [hv]
    exact List.cons_ne_nil f v
  have hcommand : Unbroken submitCommand := by
    intro f hf
    have hspace := hword f hf
    constructor
    · rintro rfl
      exact absurd hspace (by decide)
    · rintro rfl
      exact absurd hspace (by decide)
  have hblank : Unbroken [' '] := by
    intro f hf
    obtain rfl := List.mem_singleton.1 hf
    decide
  have hline := hcommand.quote.append (hblank.append ((Unbroken.joinFront hwords).append ht))
  rw [← rdropWhile_append_cons hc', hu]
  rw [hu] at hline
  exact parseSubmitCmd_line hne hword.quote he hline hd rest

end Quoted

/-! ### What is read back -/

theorem exists_first {α : Type} {p : α → Prop} {l : List α} (h : ¬∀ a ∈ l, p a) :
    ∃ l₁ a l₂, l = l₁ ++ a :: l₂ ∧ (∀ b ∈ l₁, p b) ∧ ¬p a := by
  induction l with
  | nil => simp at h
  | cons a l ih =>
      by_cases ha : p a
      · rw [List.forall_mem_cons, not_and] at h
        obtain ⟨l₁, b, l₂, rfl, hl₁, hb⟩ := ih (h ha)
        exact ⟨a :: l₁, b, l₂, rfl, List.forall_mem_cons.2 ⟨ha, hl₁⟩, hb⟩
      · exact ⟨[], a, l, rfl, List.forall_mem_nil p, ha⟩

section Command

variable {submitCommand jobscriptPath : Text} {options : List Text}

theorem SubmitJob.file_eq (submitCommand jobscriptPath : Text) (options : List Text) :
    SubmitJob.file submitCommand options jobscriptPath =
      Shlex.quote submitCommand ++ ' ' :: Shlex.join (options ++ [jobscriptPath]) ++ ['\n'] := by
  have hne : options ++ [jobscriptPath] ≠ [] := List.append_ne_nil_of_right_ne_nil _ (by simp)
  rw [SubmitJob.file, SubmitJob.command, List.append_assoc, Shlex.join_append hne,
    Shlex.joinFront_cons_append, printLine]
  rfl

/-- Words without line breaks are read back. -/
theorem parseSubmitCmd_of_unbroken (hword : IsWord submitCommand)
    (h : ∀ arg ∈ options ++ [jobscriptPath], Unbroken arg) :
    parseSubmitCmd (SubmitJob.file submitCommand options jobscriptPath) =
      .ok (options ++ [jobscriptPath]) := by
  rw [List.forall_mem_append, List.forall_mem_singleton] at h
  obtain ⟨⟨c, t, ht, hc⟩, u, d, hu, hd⟩ := exists_quote_eq jobscriptPath
  have hjoin : Shlex.join (options ++ [jobscriptPath]) = Shlex.joinFront options ++ c :: t := by
    rw [Shlex.join_append (List.cons_ne_nil _ _), Shlex.join_singleton, ht]
  have hend : c :: t.rdropWhile isSpace = c :: t := by
    have hlast : (c :: t).rdropWhile isSpace = c :: t := by
      rw [← ht, hu, List.rdropWhile_concat_neg _ _ _ (by simp [hd])]
    have hfirst := rdropWhile_append_cons (p := isSpace) (a := c) (by simp [hc]) [] t
    exact hfirst.symm.trans hlast
  rw [SubmitJob.file_eq, hjoin, parseSubmitCmd_words hword h.1 hc (ht ▸ h.2.quote) (.inl rfl), hend,
    ← hjoin, Shlex.split_join]
  rfl

/-- A word with a line break has no closing quote. -/
theorem parseSubmitCmd_of_not_unbroken (hword : IsWord submitCommand)
    (h : ¬∀ arg ∈ options ++ [jobscriptPath], Unbroken arg) :
    parseSubmitCmd (SubmitJob.file submitCommand options jobscriptPath) =
      .error (shlexException .noClosingQuotation) := by
  obtain ⟨words, arg, more, happ, hwords, harg⟩ := exists_first h
  obtain ⟨s, c, t, rfl, hs, hc⟩ := exists_first harg
  rw [not_and_or, not_not, not_not] at hc
  have hnotSafe : Shlex.isSafe c = false ∧ c ≠ '\'' := by
    rcases hc with rfl | rfl
    · decide
    · decide
  have hquote : Shlex.quote (s ++ c :: t) =
      '\'' :: Shlex.replaceQuotes s ++ c :: (Shlex.replaceQuotes t ++ ['\'']) := by
    rw [Shlex.quote, if_neg (by simp), if_neg (by simp [hnotSafe.1]), Shlex.replaceQuotes_append,
      Shlex.replaceQuotes_cons_of_ne hnotSafe.2]
    simp
  obtain ⟨u, hu⟩ := Shlex.exists_join_cons (s ++ c :: t) more
  have hfile : SubmitJob.file submitCommand options jobscriptPath =
      Shlex.quote submitCommand ++
          ' ' :: (Shlex.joinFront words ++ '\'' :: Shlex.replaceQuotes s) ++
        c :: (Shlex.replaceQuotes t ++ ['\''] ++ u ++ ['\n']) := by
    rw [SubmitJob.file_eq, happ, Shlex.join_append (List.cons_ne_nil _ _), hu, hquote]
    simp
  have hopen : Unbroken ('\'' :: Shlex.replaceQuotes s) :=
    List.forall_mem_cons.2 ⟨by decide, Unbroken.replaceQuotes hs⟩
  rw [hfile, parseSubmitCmd_words hword hwords (by decide) hopen hc, rdropWhile_replaceQuotes,
    Shlex.split_open]
  rfl

/-- **The command is read back** exactly if none of its words has a line break. -/
theorem parseSubmitCmd_iff (hword : IsWord submitCommand) :
    parseSubmitCmd (SubmitJob.file submitCommand options jobscriptPath) =
      .ok (options ++ [jobscriptPath]) ↔ ∀ arg ∈ options ++ [jobscriptPath], Unbroken arg := by
  constructor
  · intro h
    by_contra hbreak
    rw [parseSubmitCmd_of_not_unbroken hword hbreak] at h
    cases h
  · exact parseSubmitCmd_of_unbroken hword

/-- Blanks and quotes in the options. -/
theorem parseSubmitCmd_blanks :
    parseSubmitCmd (SubmitJob.file ['q', 's', 'u', 'b'] [['-', 'N'], ['a', ' ', '\''], []] ['j']) =
      .ok [['-', 'N'], ['a', ' ', '\''], [], ['j']] :=
  (parseSubmitCmd_iff (by decide)).2 (by decide)

/-- **A job name of two lines** is not read back. -/
theorem exists_parseSubmitCmd_ne : ∃ submitCommand options jobscriptPath,
    IsWord submitCommand ∧
      parseSubmitCmd (SubmitJob.file submitCommand options jobscriptPath) ≠
        .ok (options ++ [jobscriptPath]) := by
  refine ⟨['q', 's', 'u', 'b'], [['-', 'N'], ['a', '\n', 'b']], ['j'], by decide, ?_⟩
  decide +kernel

end Command

end Submit
end WorkerNg
