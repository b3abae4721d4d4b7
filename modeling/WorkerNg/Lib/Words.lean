/-
# Words, and texts that are put together from them

An expansion without quotes, `$s` or `$(…)`, is cut into words at its blanks (`words`).
All facts about it follow from what a blank does (`words_append_ifs`); words that are
written with blanks between them come back (`words_intercalate`).  A word that is a pattern
stands for the paths that match it, which is for the file system to say (`Globbing`,
`fields`); all others stay (`fields_eq_words`).  Between double quotes a text stands for
itself, unless it has characters that mean something there (`lexFrom_double`).

A command line that is put together from such parts is read part by part: `Reads t ts` says
that `t` is read as `ts` whatever comes behind it, so it goes over to texts one behind the
other (`Reads.append`).  An expansion between double quotes is made of words again, and is
read as one (`reads_doubleQuoted`).
-/

import WorkerNg.Lib.Shell
import Mathlib.Data.List.Basic
import Mathlib.Data.List.DropRight

namespace WorkerNg
namespace Shell

/-! ### Expansions without quotes -/

/-- A character of `IFS`. -/
def isIfs (c : Char) : Bool := c == ' ' || c == '\t' || c == '\n'

/-- The words of a text. -/
def words (s : List Char) : List (List Char) := (s.splitOnP isIfs).filter fun w => !w.isEmpty

/-- `$(…)`, for a command that writes this text. -/
def substitute (s : List Char) : List Char := s.rdropWhile (· == '\n')

/-- A text that is one word. -/
structure IsOne (w : List Char) : Prop where
  ne_nil : w ≠ []
  not_ifs : ∀ c ∈ w, isIfs c = false

instance (w : List Char) : Decidable (IsOne w) :=
  decidable_of_iff (w ≠ [] ∧ w.all (fun c => !isIfs c) = true)
    ⟨fun h => ⟨h.1, by simpa using h.2⟩, fun h => ⟨h.ne_nil, by simpa using h.not_ifs⟩⟩

@[simp] theorem words_nil : words [] = [] := rfl

/-- **A blank ends a word.** -/
theorem words_append_ifs {c : Char} (hc : isIfs c = true) (s t : List Char) :
    words (s ++ c :: t) = words s ++ words t := by
  rw [words, List.splitOnP_append_cons s t hc, List.filter_append]
  rfl

/-- A blank at the end belongs to no word. -/
theorem words_concat_ifs {c : Char} (hc : isIfs c = true) (s : List Char) :
    words (s ++ [c]) = words s := by
  rw [words_append_ifs hc, words_nil, List.append_nil]

theorem IsOne.words {w : List Char} (h : IsOne w) : words w = [w] := by
  rw [Shell.words, List.splitOnP_eq_singleton h.not_ifs, List.filter_cons_of_pos]
  · rfl
  · simpa using h.ne_nil

theorem IsOne.append {v w : List Char} (hv : IsOne v) (hw : ∀ c ∈ w, isIfs c = false) :
    IsOne (v ++ w) where
  ne_nil h := hv.ne_nil (List.append_eq_nil_iff.1 h).1
  not_ifs := List.forall_mem_append.2 ⟨hv.not_ifs, hw⟩

/-- A word has no blanks. -/
theorem not_ifs_of_mem_words {s w : List Char} (h : w ∈ words s) : ∀ c ∈ w, isIfs c = false := by
  -- a blank cuts the text into two that are shorter
  induction hn : s.length using Nat.strong_induction_on generalizing s with
  | _ n ih =>
      by_cases hblank : ∃ c ∈ s, isIfs c = true
      · obtain ⟨c, hc, hifs⟩ := hblank
        obtain ⟨u, v, rfl⟩ := List.append_of_mem hc
        rw [List.length_append, List.length_cons] at hn
        rw [words_append_ifs hifs, List.mem_append] at h
        rcases h with h | h
        · exact ih u.length (by omega) h rfl
        · exact ih v.length (by omega) h rfl
      · have hall : ∀ c ∈ s, isIfs c = false := by simpa using hblank
        rw [words, List.splitOnP_eq_singleton hall] at h
        obtain rfl := List.mem_singleton.1 (List.mem_of_mem_filter h)
        exact hall

theorem isOne_of_mem_words {s w : List Char} (h : w ∈ words s) : IsOne w where
  ne_nil := by simpa using (List.mem_filter.1 h).2
  not_ifs := not_ifs_of_mem_words h

/-- **Words with blanks between them come back.** -/
theorem words_intercalate {ws : List (List Char)} (h : ∀ w ∈ ws, IsOne w) :
    words ([' '].intercalate ws) = ws := by
  induction ws with
  | nil => rfl
  | cons w ws ih =>
      rw [List.forall_mem_cons] at h
      cases ws with
      | nil => rw [List.intercalate_singleton, h.1.words]
      | cons v ws =>
          rw [List.intercalate_cons_cons, List.append_assoc, List.singleton_append,
            words_append_ifs rfl, h.1.words, ih h.2, List.singleton_append]

/-- A list of words falls into the same words. -/
theorem flatMap_words {ws : List (List Char)} (h : ∀ w ∈ ws, IsOne w) : ws.flatMap words = ws := by
  induction ws with
  | nil => rfl
  | cons w ws ih =>
      rw [List.forall_mem_cons] at h
      rw [List.flatMap_cons, h.1.words, ih h.2, List.singleton_append]

/-- Line breaks at the end are no words. -/
theorem words_substitute (s : List Char) : words (substitute s) = words s := by
  induction s using List.reverseRecOn with
  | nil => rfl
  | append_singleton s c ih =>
      by_cases hc : c = '\n'
      · subst hc
        rw [substitute, List.rdropWhile_concat_pos _ _ _ (by decide), words_concat_ifs rfl]
        exact ih
      · rw [substitute, List.rdropWhile_concat_neg _ _ _ (by simpa using hc)]

/-- One line break is taken away. -/
theorem substitute_line {s : List Char} (h : '\n' ∉ s) : substitute (s ++ ['\n']) = s := by
  rw [substitute, List.rdropWhile_concat_pos _ _ _ (by decide), List.rdropWhile_eq_self_iff]
  intro hne heq
  rw [beq_iff_eq] at heq
  exact h (heq ▸ List.getLast_mem hne)

/-! ### Paths -/

/-- A character that can make a word a pattern. -/
def isGlob (c : Char) : Bool := c == '*' || c == '?' || c == '[' || c == '\\'

/-- The word is no pattern. -/
def NoGlob (w : List Char) : Prop := ∀ c ∈ w, isGlob c = false

instance (w : List Char) : Decidable (NoGlob w) :=
  decidable_of_iff (w.all (fun c => !isGlob c) = true) (by simp [NoGlob])

theorem NoGlob.append {u v : List Char} (hu : NoGlob u) (hv : NoGlob v) : NoGlob (u ++ v) :=
  List.forall_mem_append.2 ⟨hu, hv⟩

/-- What a shell makes of the words of an expansion: the paths that match a pattern, or the
pattern if there are none; a word that is no pattern stays. -/
structure Globbing where
  paths : List Char → List (List Char)
  paths_eq : ∀ w, NoGlob w → paths w = [w]

/-- Without files there are no paths. -/
def noFiles : Globbing := ⟨fun w => [w], fun _ _ => rfl⟩

/-- What an expansion without quotes comes to. -/
def fields (g : Globbing) (s : List Char) : List (List Char) := (words s).flatMap g.paths

theorem Globbing.flatMap_paths (g : Globbing) {ws : List (List Char)} (h : ∀ w ∈ ws, NoGlob w) :
    ws.flatMap g.paths = ws := by
  induction ws with
  | nil => rfl
  | cons w ws ih =>
      rw [List.forall_mem_cons] at h
      rw [List.flatMap_cons, g.paths_eq w h.1, ih h.2, List.singleton_append]

/-- **Words that are no patterns stay.** -/
theorem fields_eq_words (g : Globbing) {s : List Char} (h : ∀ w ∈ words s, NoGlob w) :
    fields g s = words s := g.flatMap_paths h

/-- So a word is one field, -/
theorem IsOne.fields {w : List Char} (h : IsOne w) (hw : NoGlob w) (g : Globbing) :
    fields g w = [w] := by
  rw [fields_eq_words g (by simpa [h.words] using hw), h.words]

/-- and words with blanks between them are that many. -/
theorem fields_intercalate (g : Globbing) {ws : List (List Char)} (h : ∀ w ∈ ws, IsOne w)
    (hw : ∀ w ∈ ws, NoGlob w) : fields g ([' '].intercalate ws) = ws := by
  rw [fields, words_intercalate h, g.flatMap_paths hw]

/-- A list of texts falls into the same words. -/
theorem flatMap_fields (g : Globbing) {ss : List (List Char)}
    (h : ∀ w ∈ ss.flatMap words, NoGlob w) : ss.flatMap (fields g) = ss.flatMap words := by
  rw [show fields g = fun s => (words s).flatMap g.paths from rfl, ← List.flatMap_assoc]
  exact g.flatMap_paths h

/-! ### Words of a text -/

/-- A character that can make a shell read something else than is written. -/
def isExpanded (c : Char) : Bool := c == '~' || c == '\x7b' || isGlob c

def Token.word? : Token → Option (List Char)
  | .word w => some w
  | _ => none

/-- The words that a text without expansions is read as. -/
def readWords (t : List Char) : Option (List (List Char)) :=
  if t.any isExpanded then none else (lex t).bind fun ts => ts.mapM Token.word?

/-- A character that stands for itself wherever it is. -/
def isLiteral (c : Char) : Bool := isOrdinary c && !isExpanded c

/-- The text stands for itself. -/
def Literal (t : List Char) : Prop := ∀ c ∈ t, isLiteral c = true

instance (t : List Char) : Decidable (Literal t) :=
  decidable_of_iff (t.all isLiteral = true) List.all_eq_true

theorem Literal.append {u v : List Char} (hu : Literal u) (hv : Literal v) : Literal (u ++ v) :=
  List.forall_mem_append.2 ⟨hu, hv⟩

theorem Literal.noGlob {t : List Char} (h : Literal t) : NoGlob t := by
  intro c hc
  have hl := h c hc
  simp only [isLiteral, isExpanded, Bool.and_eq_true, Bool.not_eq_true', Bool.or_eq_false_iff] at hl
  exact hl.2.2

/-- **A text that stands for itself** is one word. -/
theorem Literal.readWords {t : List Char} (h : Literal t) (hne : t ≠ []) :
    readWords t = some [t] := by
  have hordinary : t.all isOrdinary = true := List.all_eq_true.2 fun c hc =>
    (Bool.and_eq_true_iff.1 (h c hc)).1
  have hany : ¬t.any isExpanded = true := by
    rw [Bool.not_eq_true, List.any_eq_false]
    intro c hc
    simpa using (Bool.and_eq_true_iff.1 (h c hc)).2
  have hlex := lexFrom_plain hordinary hne none []
  rw [List.append_nil] at hlex
  rw [Shell.readWords, if_neg hany, lex, hlex]
  rfl

/-! ### Between double quotes -/

/-- A character that stands for itself between double quotes. -/
def isQuotable (c : Char) : Bool := !(c == '"' || c == '\\' || isExpansion c)

/-- The text means nothing but itself between double quotes. -/
def Quotable (v : List Char) : Prop := ∀ c ∈ v, isQuotable c = true

instance (v : List Char) : Decidable (Quotable v) :=
  decidable_of_iff (v.all isQuotable = true) List.all_eq_true

/-- A text that stands for itself does so there as well. -/
theorem Literal.quotable {t : List Char} (h : Literal t) : Quotable t := by
  intro c hc
  have hl := h c hc
  simp only [isLiteral, isOrdinary, Bool.and_eq_true, Bool.not_eq_true', Bool.or_eq_false_iff] at hl
  simp [isQuotable, hl]

/-- And it has no blanks. -/
theorem Literal.not_ifs {t : List Char} (h : Literal t) : ∀ c ∈ t, isIfs c = false := by
  intro c hc
  have hl := h c hc
  simp only [isLiteral, isOrdinary, isBlank, Bool.and_eq_true, Bool.not_eq_true',
    Bool.or_eq_false_iff] at hl
  simp [isIfs, hl]

theorem Quotable.append {u v : List Char} (hu : Quotable u) (hv : Quotable v) :
    Quotable (u ++ v) := List.forall_mem_append.2 ⟨hu, hv⟩

/-- The text has no blanks either. -/
def Plain (v : List Char) : Prop := ∀ c ∈ v, isIfs c = false ∧ isQuotable c = true

instance (v : List Char) : Decidable (Plain v) :=
  decidable_of_iff (v.all (fun c => !isIfs c && isQuotable c) = true) (by simp [Plain])

theorem Plain.not_ifs {v : List Char} (h : Plain v) : ∀ c ∈ v, isIfs c = false :=
  fun c hc => (h c hc).1

theorem Plain.quotable {v : List Char} (h : Plain v) : Quotable v := fun c hc => (h c hc).2

/-- **Between double quotes such a text is read as it is.** -/
theorem lexFrom_double {v : List Char} (hv : Quotable v) (p : Option (List Char))
    (t : List Char) :
    lexFrom .double (add p []) (v ++ '"' :: t) = lexFrom .plain (add p v) t := by
  induction v generalizing p with
  | nil => rw [List.nil_append, lexFrom, if_pos rfl]
  | cons c v ih =>
      rw [Quotable, List.forall_mem_cons] at hv
      obtain ⟨hc, hv⟩ := hv
      simp only [isQuotable, Bool.not_eq_true', Bool.or_eq_false_iff, beq_eq_false_iff_ne] at hc
      obtain ⟨⟨hquote, hescape⟩, hexpansion⟩ := hc
      have hi := ih hv (add p [c])
      rw [add_add, add_add, List.append_nil, List.singleton_append] at hi
      rw [List.cons_append, lexFrom, if_neg hquote, if_neg hescape,
        if_neg (by simp [hexpansion]), add_add, List.nil_append, hi]

theorem lexFrom_doubleQuoted {v : List Char} (hv : Quotable v) (t : List Char) :
    lexFrom .plain none ('"' :: (v ++ '"' :: t)) = lexFrom .plain (some v) t := by
  rw [lexFrom, if_neg (by decide), if_pos rfl, lexFrom_double hv]
  rfl

theorem lexFrom_operator {c : Char} (hc : isOperator c = true) (p : Option (List Char))
    (t : List Char) : lexFrom .plain p (c :: t) =
      (lexFrom .plain none t).map fun ts => finish p ++ .operator c :: ts := by
  have hne : ∀ d, isOperator d = false → c ≠ d := by
    rintro d hd rfl
    rw [hc] at hd
    cases hd
  have hexpansion : isExpansion c = false := by
    simp [isExpansion, hne '$' rfl, hne '`' rfl]
  have hblank : isBlank c = false := by
    simp [isBlank, hne ' ' rfl, hne '\t' rfl]
  rw [lexFrom, if_neg (hne _ rfl), if_neg (hne _ rfl), if_neg (hne _ rfl),
    if_neg (by simp [hexpansion]), if_neg fun h => hne '#' rfl h.1, if_neg (hne _ rfl),
    if_neg (by simp [hblank]), if_pos hc]

/-! ### Reading part by part -/

/-- The text is read as these tokens, whatever comes behind it. -/
def Reads (t : List Char) (ts : List Token) : Prop :=
  ∀ u, lexFrom .plain none (t ++ u) = (lexFrom .plain none u).map (ts ++ ·)

section Reads

variable {t u : List Char} {ts us : List Token}

theorem reads_nil : Reads [] [] := fun _ => Option.map_id'.symm

theorem Reads.append (ht : Reads t ts) (hu : Reads u us) : Reads (t ++ u) (ts ++ us) := by
  intro v
  rw [List.append_assoc, ht, hu, Option.map_map]
  simp only [Function.comp_def, List.append_assoc]

/-- To the end of the text. -/
theorem Reads.lex (h : Reads t ts) : lex t = some ts := by
  have hend := h []
  rw [List.append_nil] at hend
  rw [Shell.lex, hend, lexFrom]
  simp [finish]

theorem reads_blank : Reads [' '] [] := lexFrom_blank none

theorem reads_newline : Reads ['\n'] [.newline] := lexFrom_newline none

/-- A word of ordinary characters, with a blank behind it. -/
theorem reads_plain {w : List Char} (hw : w.all isOrdinary = true) (hne : w ≠ []) :
    Reads (w ++ [' ']) [.word w] := by
  intro u
  rw [List.append_assoc, lexFrom_plain hw hne, List.singleton_append, lexFrom_blank]
  rfl

/-- The same at the end of a line. -/
theorem reads_plain_newline {w : List Char} (hw : w.all isOrdinary = true) (hne : w ≠ []) :
    Reads (w ++ ['\n']) [.word w, .newline] := by
  intro u
  rw [List.append_assoc, lexFrom_plain hw hne, List.singleton_append, lexFrom_newline]
  rfl

/-- A text between double quotes, with a blank behind it. -/
theorem reads_doubleQuoted {v : List Char} (hv : Quotable v) :
    Reads ('"' :: (v ++ ['"', ' '])) [.word v] := by
  intro u
  rw [List.cons_append, List.append_assoc, List.cons_append, lexFrom_doubleQuoted hv,
    List.singleton_append, lexFrom_blank]
  rfl

theorem reads_operator {c : Char} (hc : isOperator c = true) : Reads [c] [.operator c] :=
  lexFrom_operator hc none

/-- The same with an operator behind it. -/
theorem reads_doubleQuoted_operator {v : List Char} (hv : Quotable v) {c : Char}
    (hc : isOperator c = true) : Reads ('"' :: (v ++ ['"', c])) [.word v, .operator c] := by
  intro u
  rw [List.cons_append, List.append_assoc, List.cons_append, lexFrom_doubleQuoted hv,
    List.singleton_append, lexFrom_operator hc]
  rfl

/-- Parts one behind the other. -/
theorem reads_flatten {parts : List (List Char)} {tss : List (List Token)}
    (h : List.Forall₂ Reads parts tss) : Reads parts.flatten tss.flatten := by
  induction h with
  | nil => exact reads_nil
  | cons hpart hparts ih => exact hpart.append ih

/-- Parts with blanks between them. -/
theorem reads_intercalate {parts : List (List Char)} {tss : List (List Token)}
    (h : List.Forall₂ (fun part ts => Reads (part ++ [' ']) ts) parts tss) :
    Reads ([' '].intercalate parts ++ [' ']) tss.flatten := by
  induction h with
  | nil => exact reads_blank
  | @cons part ts parts tss hpart hparts ih =>
      cases hparts with
      | nil => simpa using hpart
      | cons hnext hrest =>
          rw [List.intercalate_cons_cons, List.append_assoc, List.append_assoc, List.flatten_cons,
            ← List.append_assoc]
          exact hpart.append ih

end Reads

end Shell
end WorkerNg
