/-
# `shlex.split` and `shlex.join`

How Python's `shlex` cuts a text into words in its POSIX mode, with white space
alone between words (`whitespace_split`).  Between single quotes every character
stands for itself; between double quotes a backslash stands for itself unless it
is followed by a backslash or a double quote; outside of quotes it takes the
character behind it as it is.  A `#` begins a comment, if there are comments, even
within a word, which then ends.

`quote` writes a word between single quotes, unless it has safe characters only; a
single quote in it is written between double quotes, outside of the others.  What
`join` puts together `split` takes apart again (`split_join`).  Cut off within the
quotes of a word, it cannot be split (`split_open`).
-/

import WorkerNg.Lib.Lines

namespace WorkerNg
namespace Shlex

/-- `ValueError("No closing quotation")` and `ValueError("No escaped character")`. -/
inductive ShlexError
  | noClosingQuotation
  | noEscapedCharacter
deriving DecidableEq

/-- The attribute `state`; an escape has the state to return to in `escapedstate`. -/
inductive State
  | blank
  | word
  | quote (q : Char)
  | escape (escapedstate : Option Char)
  | comment
deriving DecidableEq

/-- The attribute `whitespace`. -/
def isWhitespace (c : Char) : Bool := c == ' ' || c == '\t' || c == '\r' || c == '\n'

/-- The attribute `quotes`. -/
def isQuote (c : Char) : Bool := c == '\'' || c == '"'

/-- All the tokens that `read_token` finds, with the token read so far. -/
@[grind =]
def readTokens (comments : Bool) :
    State → List Char → List Char → Except ShlexError (List (List Char))
  | .blank, _, [] => .ok []
  | .comment, _, [] => .ok []
  | .word, token, [] => .ok [token]
  | .quote _, _, [] => .error .noClosingQuotation
  | .escape _, _, [] => .error .noEscapedCharacter
  | .blank, _, c :: s =>
      if isWhitespace c then readTokens comments .blank [] s
      else if comments && c == '#' then readTokens comments .comment [] s
      else if c == '\\' then readTokens comments (.escape none) [] s
      else if isQuote c then readTokens comments (.quote c) [] s
      else readTokens comments .word [c] s
  | .word, token, c :: s =>
      if isWhitespace c then (readTokens comments .blank [] s).map (token :: ·)
      else if comments && c == '#' then (readTokens comments .comment [] s).map (token :: ·)
      else if isQuote c then readTokens comments (.quote c) token s
      else if c == '\\' then readTokens comments (.escape none) token s
      else readTokens comments .word (token ++ [c]) s
  | .quote q, token, c :: s =>
      if c = q then readTokens comments .word token s
      else if c == '\\' && q == '"' then readTokens comments (.escape (some q)) token s
      else readTokens comments (.quote q) (token ++ [c]) s
  | .escape none, token, c :: s => readTokens comments .word (token ++ [c]) s
  | .escape (some q), token, c :: s =>
      -- within quotes only the quote and the backslash can be escaped
      if c == '\\' || c == q then readTokens comments (.quote q) (token ++ [c]) s
      else readTokens comments (.quote q) (token ++ ['\\', c]) s
  | .comment, _, c :: s =>  -- `instream.readline()`
      if c = '\n' then readTokens comments .blank [] s else readTokens comments .comment [] s

/-- `shlex.split`. -/
def split (comments : Bool) (s : List Char) : Except ShlexError (List (List Char)) :=
  readTokens comments .blank [] s

/-- Quotes and escapes. -/
example : split true "-N 'a b' \"c\\\"\\d\"e\\ f g# h".toList =
    .ok ["-N".toList, "a b".toList, "c\"\\de f".toList, "g".toList] := by rfl

/-! ### Quoting -/

/-- The ASCII characters of `\w`, a dash, and `@%+=:,./`. -/
def isSafe (c : Char) : Bool :=
  c.isAlphanum || ['_', '@', '%', '+', '=', ':', ',', '.', '/', '-'].contains c

/-- `s.replace("'", "'\"'\"'")`. -/
def replaceQuotes (s : List Char) : List Char :=
  s.flatMap fun c => if c = '\'' then ['\'', '"', '\'', '"', '\''] else [c]

/-- `shlex.quote`. -/
def quote (s : List Char) : List Char :=
  if s = [] then ['\'', '\'']
  else if s.all isSafe then s
  else '\'' :: replaceQuotes s ++ ['\'']

/-- `shlex.join`. -/
def join (words : List (List Char)) : List Char := [' '].intercalate (words.map quote)

section Quoting

variable {comments : Bool} {s t : List Char}

theorem readTokens_blank_quote (t : List Char) :
    readTokens comments .blank [] ('\'' :: t) = readTokens comments (.quote '\'') [] t := by
  grind [isWhitespace, isQuote]

theorem readTokens_word_quote (q : Char) (hq : isQuote q = true) (token t : List Char) :
    readTokens comments .word token (q :: t) = readTokens comments (.quote q) token t := by
  grind [isWhitespace, isQuote]

theorem replaceQuotes_append (s t : List Char) :
    replaceQuotes (s ++ t) = replaceQuotes s ++ replaceQuotes t := List.flatMap_append

theorem replaceQuotes_cons_of_ne {c : Char} (hc : c ≠ '\'') (s : List Char) :
    replaceQuotes (c :: s) = c :: replaceQuotes s := by
  rw [replaceQuotes, List.flatMap_cons, if_neg hc, List.singleton_append, replaceQuotes]

/-- Within quotes the characters written are those of the word. -/
theorem readTokens_replaceQuotes (token s t : List Char) :
    readTokens comments (.quote '\'') token (replaceQuotes s ++ t) =
      readTokens comments (.quote '\'') (token ++ s) t := by
  induction s generalizing token with
  | nil => rw [replaceQuotes, List.flatMap_nil, List.nil_append, List.append_nil]
  | cons c s ih =>
      have happ : token ++ [c] ++ s = token ++ c :: s := by simp
      by_cases hc : c = '\''
      · subst hc
        rw [replaceQuotes, List.flatMap_cons, if_pos rfl]
        show readTokens comments .word token
          ('"' :: '\'' :: '"' :: '\'' :: (replaceQuotes s ++ t)) = _
        rw [readTokens_word_quote '"' (by decide)]
        show readTokens comments .word (token ++ ['\'']) ('\'' :: (replaceQuotes s ++ t)) = _
        rw [readTokens_word_quote '\'' (by decide), ih, happ]
      · rw [replaceQuotes_cons_of_ne hc, List.cons_append, readTokens, if_neg hc, if_neg (by simp),
          ih, happ]

theorem toNat_of_isSafe {c : Char} (h : isSafe c = true) : 33 ≤ c.toNat ∧ c.toNat < 128 := by
  rw [isSafe, Bool.or_eq_true] at h
  rcases h with h | h
  · have hbounds := toNat_of_isAlphanum h
    omega
  · have hall : ['_', '@', '%', '+', '=', ':', ',', '.', '/', '-'].all (fun d =>
        decide (33 ≤ d.toNat) && decide (d.toNat < 128)) = true := by decide
    simpa using List.all_eq_true.1 hall c (List.contains_iff_mem.1 h)

/-- A safe character is none of those that `split` knows. -/
theorem isSafe_spec {c : Char} (h : isSafe c = true) : isWhitespace c = false ∧ c ≠ '#' ∧
    c ≠ '\\' ∧ isQuote c = false := by
  have hne : ∀ d, isSafe d = false → c ≠ d := by
    rintro d hd rfl
    rw [h] at hd
    cases hd
  have hspace := hne ' ' (by decide)
  have htab := hne '\t' (by decide)
  have hreturn := hne '\r' (by decide)
  have hnewline := hne '\n' (by decide)
  have hsingle := hne '\'' (by decide)
  have hdouble := hne '"' (by decide)
  refine ⟨?_, hne '#' (by decide), hne '\\' (by decide), ?_⟩
  · simp [isWhitespace, hspace, htab, hreturn, hnewline]
  · simp [isQuote, hsingle, hdouble]

/-- Safe characters go on with a word. -/
theorem readTokens_safe (h : ∀ c ∈ s, isSafe c = true) (token t : List Char) :
    readTokens comments .word token (s ++ t) = readTokens comments .word (token ++ s) t := by
  induction s generalizing token with
  | nil => rw [List.nil_append, List.append_nil]
  | cons c s ih =>
      rw [List.forall_mem_cons] at h
      obtain ⟨hspace, hcomment, hescape, hquote⟩ := isSafe_spec h.1
      have happ : token ++ [c] ++ s = token ++ c :: s := by simp
      rw [List.cons_append, readTokens, if_neg (by simp [hspace]), if_neg (by simp [hcomment]),
        if_neg (by simp [hquote]), if_neg (by simp [hescape]), ih h.2, happ]

/-- **A quoted word** is read as that word. -/
theorem readTokens_quote (s t : List Char) :
    readTokens comments .blank [] (quote s ++ t) = readTokens comments .word s t := by
  unfold quote
  split_ifs with hnil hsafe
  · rw [hnil]
    exact readTokens_blank_quote ('\'' :: t)
  · rw [List.all_eq_true] at hsafe
    cases s with
    | nil => exact absurd rfl hnil
    | cons c s =>
        rw [List.forall_mem_cons] at hsafe
        obtain ⟨hspace, hcomment, hescape, hquote⟩ := isSafe_spec hsafe.1
        rw [List.cons_append, readTokens, if_neg (by simp [hspace]), if_neg (by simp [hcomment]),
          if_neg (by simp [hescape]), if_neg (by simp [hquote]), readTokens_safe hsafe.2]
        rfl
  · rw [List.cons_append, List.cons_append, readTokens_blank_quote, List.append_assoc,
      readTokens_replaceQuotes]
    rfl

/-- Quoting adds only quotes. -/
theorem forall_mem_replaceQuotes {p : Char → Prop} (h : ∀ c ∈ s, p c) (hsingle : p '\'')
    (hdouble : p '"') : ∀ c ∈ replaceQuotes s, p c := by
  intro c hc
  obtain ⟨d, hd, hc⟩ := List.mem_flatMap.1 hc
  split_ifs at hc
  · simp only [List.mem_cons, List.not_mem_nil, or_false] at hc
    rcases hc with rfl | rfl | rfl | rfl | rfl
    all_goals assumption
  · obtain rfl := List.mem_singleton.1 hc
    exact h c hd

theorem forall_mem_quote {p : Char → Prop} (h : ∀ c ∈ s, p c) (hsingle : p '\'')
    (hdouble : p '"') : ∀ c ∈ quote s, p c := by
  unfold quote
  split_ifs
  · simp [hsingle]
  · exact h
  · rw [List.forall_mem_append, List.forall_mem_cons, List.forall_mem_singleton]
    exact ⟨⟨hsingle, forall_mem_replaceQuotes h hsingle hdouble⟩, hsingle⟩

/-- A quoted word with more behind it. -/
theorem split_quote_cons (s t : List Char) :
    split comments (quote s ++ ' ' :: t) = (split comments t).map (s :: ·) := by
  rw [split, readTokens_quote, readTokens, if_pos (by decide), split]

/-- The words in front of others. -/
def joinFront (words : List (List Char)) : List Char := words.flatMap fun s => quote s ++ [' ']

theorem joinFront_cons_append (s : List Char) (words : List (List Char)) (t : List Char) :
    joinFront (s :: words) ++ t = quote s ++ ' ' :: (joinFront words ++ t) := by
  rw [joinFront, List.flatMap_cons, List.append_assoc, List.append_assoc, List.singleton_append,
    joinFront]

theorem join_append {words more : List (List Char)} (h : more ≠ []) :
    join (words ++ more) = joinFront words ++ join more := by
  induction words with
  | nil => rfl
  | cons s words ih =>
      have hne : (words ++ more).map quote ≠ [] := by simp [h]
      rw [joinFront_cons_append, ← ih, join, List.cons_append, List.map_cons,
        List.intercalate_cons_of_ne_nil hne, List.append_assoc, List.singleton_append, join]

theorem join_singleton (s : List Char) : join [s] = quote s := List.intercalate_singleton

theorem exists_join_cons (s : List Char) (words : List (List Char)) :
    ∃ t, join (s :: words) = quote s ++ t := by
  cases words with
  | nil => exact ⟨[], by rw [join_singleton, List.append_nil]⟩
  | cons s' words =>
      refine ⟨' ' :: join (s' :: words), ?_⟩
      exact (join_append (List.cons_ne_nil s' words)).trans
        (joinFront_cons_append s [] _)

/-- **Splitting what was joined** gives the words back. -/
theorem split_join (words : List (List Char)) : split comments (join words) = .ok words := by
  induction words with
  | nil => rfl
  | cons s words ih =>
      by_cases hne : words = []
      · rw [hne, join_singleton, split, ← List.append_nil (quote s), readTokens_quote]
        rfl
      · rw [← List.singleton_append, join_append hne, joinFront_cons_append, split_quote_cons]
        show (split comments (join words)).map _ = _
        rw [ih]
        rfl

/-- **A word cut off** within its quotes has no closing quote. -/
theorem split_open (words : List (List Char)) (s : List Char) :
    split comments (joinFront words ++ '\'' :: replaceQuotes s) = .error .noClosingQuotation := by
  induction words with
  | nil =>
      show readTokens comments .blank [] ('\'' :: replaceQuotes s) = _
      rw [readTokens_blank_quote, ← List.append_nil (replaceQuotes s), readTokens_replaceQuotes]
      rfl
  | cons s' words ih =>
      rw [joinFront_cons_append, split_quote_cons, ih]
      rfl

end Quoting

end Shlex
end WorkerNg
