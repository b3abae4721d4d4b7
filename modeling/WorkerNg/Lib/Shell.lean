/-
# How a shell reads words

The part of the POSIX shell grammar that cuts a text into words, operators and
ends of lines, with quotation by `'`, by `"` and by `\`.  Between single quotes
every character stands for itself, and only a single quote ends them; blanks, ends
of lines and operators end a word where they are not quoted, and a `#` that begins
a word begins a comment.

`lexFrom` answers `none` where a quotation is not closed and where a word is not a
text but depends on an expansion (`$` and the backquote).  The expansions that leave
quotes as they are (of `~`, braces and patterns) come later and are not modelled.

A text between single quotes is read as it is (`lexFrom_single`).  The converse is
a count: a quote that comes out in a word costs the `\` or one of the `"` before it,
so that a text that is read with quotes in its words has more characters to spare
than one without (`quotesIn_eq_zero`).
-/

import Mathlib.Data.Nat.Notation
import Mathlib.Data.List.Count

namespace WorkerNg
namespace Shell

/-- What a text is cut into. -/
inductive Token
  | word (w : List Char)
  | operator (c : Char)
  | newline
deriving DecidableEq

/-- Where in the text one is. -/
inductive Mode
  | plain
  | single
  | double
  | escape
  | doubleEscape
  | comment
deriving DecidableEq

def isBlank (c : Char) : Bool := c == ' ' || c == '\t'

def isOperator (c : Char) : Bool :=
  c == ';' || c == '&' || c == '|' || c == '(' || c == ')' || c == '<' || c == '>'

def isExpansion (c : Char) : Bool := c == '$' || c == '`'

/-- The word read so far, if there is one, is at its end. -/
def finish : Option (List Char) → List Token
  | none => []
  | some w => [.word w]

/-- More of a word; without characters it still begins one. -/
def add (p : Option (List Char)) (u : List Char) : Option (List Char) := some (p.getD [] ++ u)

/-- The tokens of a text, with the word read so far. -/
@[grind =]
def lexFrom : Mode → Option (List Char) → List Char → Option (List Token)
  | .plain, p, [] => some (finish p)
  | .comment, p, [] => some (finish p)
  | .escape, p, [] => some (finish (add p ['\\']))
  | .single, _, [] => none
  | .double, _, [] => none
  | .doubleEscape, _, [] => none
  | .plain, p, c :: t =>
      if c = '\'' then lexFrom .single (add p []) t
      else if c = '"' then lexFrom .double (add p []) t
      else if c = '\\' then lexFrom .escape p t
      else if isExpansion c then none
      else if c = '#' ∧ p = none then lexFrom .comment none t
      else if c = '\n' then (lexFrom .plain none t).map fun ts => finish p ++ .newline :: ts
      else if isBlank c then (lexFrom .plain none t).map fun ts => finish p ++ ts
      else if isOperator c then
        (lexFrom .plain none t).map fun ts => finish p ++ .operator c :: ts
      else lexFrom .plain (add p [c]) t
  | .single, p, c :: t => if c = '\'' then lexFrom .plain p t else lexFrom .single (add p [c]) t
  | .double, p, c :: t =>
      if c = '"' then lexFrom .plain p t
      else if c = '\\' then lexFrom .doubleEscape p t
      else if isExpansion c then none
      else lexFrom .double (add p [c]) t
  | .escape, p, c :: t => if c = '\n' then lexFrom .plain p t else lexFrom .plain (add p [c]) t
  | .doubleEscape, p, c :: t =>
      if c = '\n' then lexFrom .double p t
      else if isExpansion c ∨ c = '"' ∨ c = '\\' then lexFrom .double (add p [c]) t
      else lexFrom .double (add p ['\\', c]) t
  | .comment, p, c :: t =>
      if c = '\n' then (lexFrom .plain none t).map fun ts => finish p ++ .newline :: ts
      else lexFrom .comment p t

/-- The tokens of a text. -/
def lex (t : List Char) : Option (List Token) := lexFrom .plain none t

/-! ### What is read as it is -/

/-- A character that stands for itself outside quotes. -/
def isOrdinary (c : Char) : Bool :=
  !(c == '\'' || c == '"' || c == '\\' || c == '#' || c == '\n' || isExpansion c || isBlank c ||
    isOperator c)

theorem lexFrom_ordinary {c : Char} (hc : isOrdinary c = true) (p : Option (List Char))
    (t : List Char) : lexFrom .plain p (c :: t) = lexFrom .plain (add p [c]) t := by
  simp only [isOrdinary, Bool.not_eq_true', Bool.or_eq_false_iff, beq_eq_false_iff_ne] at hc
  obtain ⟨⟨⟨⟨⟨⟨⟨h₁, h₂⟩, h₃⟩, h₄⟩, h₅⟩, h₆⟩, h₇⟩, h₈⟩ := hc
  rw [lexFrom, if_neg h₁, if_neg h₂, if_neg h₃, if_neg (by simp [h₆]),
    if_neg fun h => h₄ h.1, if_neg h₅, if_neg (by simp [h₇]), if_neg (by simp [h₈])]

theorem add_add (p : Option (List Char)) (u v : List Char) : add (add p u) v = add p (u ++ v) := by
  simp [add]

/-- **Ordinary characters are read as they are.** -/
theorem lexFrom_plain {u : List Char} (hu : u.all isOrdinary = true) (hne : u ≠ [])
    (p : Option (List Char)) (t : List Char) :
    lexFrom .plain p (u ++ t) = lexFrom .plain (add p u) t := by
  induction u generalizing p with
  | nil => exact absurd rfl hne
  | cons c u ih =>
      rw [List.all_cons, Bool.and_eq_true] at hu
      rw [List.cons_append, lexFrom_ordinary hu.1]
      cases u with
      | nil => rfl
      | cons d u => rw [ih hu.2 (List.cons_ne_nil d u), add_add, List.singleton_append]

/-- **Between single quotes everything is read as it is.** -/
theorem lexFrom_single {v : List Char} (hv : '\'' ∉ v) (p : Option (List Char)) (t : List Char) :
    lexFrom .single (add p []) (v ++ '\'' :: t) = lexFrom .plain (add p v) t := by
  induction v generalizing p with
  | nil => rw [List.nil_append, lexFrom, if_pos rfl]
  | cons c v ih =>
      rw [List.mem_cons, not_or] at hv
      have hi := ih hv.2 (add p [c])
      rw [add_add, add_add, List.append_nil, List.singleton_append] at hi
      rw [List.cons_append, lexFrom, if_neg (Ne.symm hv.1), add_add, List.nil_append, hi]

theorem lexFrom_quote (p : Option (List Char)) (t : List Char) :
    lexFrom .plain p ('\'' :: t) = lexFrom .single (add p []) t := by
  rw [lexFrom, if_pos rfl]

theorem lexFrom_blank (p : Option (List Char)) (t : List Char) :
    lexFrom .plain p (' ' :: t) = (lexFrom .plain none t).map fun ts => finish p ++ ts := by
  rw [lexFrom, if_neg (by decide), if_neg (by decide), if_neg (by decide), if_neg (by decide),
    if_neg fun h => absurd h.1 (by decide), if_neg (by decide), if_pos (by decide)]

theorem lexFrom_newline (p : Option (List Char)) (t : List Char) :
    lexFrom .plain p ('\n' :: t) =
      (lexFrom .plain none t).map fun ts => finish p ++ .newline :: ts := by
  rw [lexFrom, if_neg (by decide), if_neg (by decide), if_neg (by decide), if_neg (by decide),
    if_neg fun h => absurd h.1 (by decide), if_pos rfl]

/-! ### What a quote costs -/

/-- The characters of a text that are no single quotes. -/
def others (t : List Char) : ℕ := t.countP (· != '\'')

/-- The single quotes of a text. -/
def quotes (t : List Char) : ℕ := t.countP (· == '\'')

/-- The characters it takes to write a word and to end it, apart from quotes. -/
def Token.cost : Token → ℕ
  | .word w => others w + 1
  | _ => 0

/-- The single quotes in a word. -/
def Token.quotes : Token → ℕ
  | .word w => Shell.quotes w
  | _ => 0

def cost : List Token → ℕ
  | [] => 0
  | t :: ts => t.cost + cost ts

def quotesIn : List Token → ℕ
  | [] => 0
  | t :: ts => t.quotes + quotesIn ts

/-- No word at the end. -/
def Ended (ts : List Token) : Prop := ∀ w, ts.getLast? ≠ some (.word w)

theorem Ended.of_append {ts us : List Token} (h : Ended (ts ++ us)) : Ended us := by
  intro w hw
  refine h w ?_
  rw [List.getLast?_append, hw]
  rfl

theorem Ended.of_finish_cons {p : Option (List Char)} {a : Token} {ts : List Token}
    (h : Ended (finish p ++ a :: ts)) : Ended ts := by
  have happ : finish p ++ a :: ts = (finish p ++ [a]) ++ ts := by simp
  rw [happ] at h
  exact h.of_append

/-- The bound for each mode: within quotes of the other kinds, the characters that end
them or have begun them are to spare. -/
def Bound (m : Mode) (p : Option (List Char)) (t : List Char) (ts : List Token) : Prop :=
  match m with
  | .double => cost ts + 1 ≤ others t + others (p.getD [])
  | .doubleEscape => cost ts ≤ others t + others (p.getD [])
  | .escape => cost ts + min 1 (quotesIn ts - quotes (p.getD [])) ≤
      others t + others (p.getD []) + 1
  | _ => cost ts + min 1 (quotesIn ts - quotes (p.getD [])) ≤ others t + others (p.getD [])

theorem getD_add (p : Option (List Char)) (u : List Char) :
    (add p u).getD [] = p.getD [] ++ u := rfl

theorem others_quote (t : List Char) : others ('\'' :: t) = others t :=
  List.countP_cons_of_neg (by simp)

theorem others_cons {c : Char} (hc : c ≠ '\'') (t : List Char) : others (c :: t) = others t + 1 :=
  List.countP_cons_of_pos (by simpa using hc)

theorem others_append (t u : List Char) : others (t ++ u) = others t + others u :=
  List.countP_append

theorem quotes_append (t u : List Char) : quotes (t ++ u) = quotes t + quotes u :=
  List.countP_append

theorem quotes_singleton {c : Char} (hc : c ≠ '\'') : quotes [c] = 0 := by simp [quotes, hc]

theorem others_singleton {c : Char} (hc : c ≠ '\'') : others [c] = 1 := others_cons hc []

/-- Taking a character off a text and putting it behind a word. -/
theorem others_move (p : List Char) (c : Char) (t : List Char) :
    others t + others (p ++ [c]) = others (c :: t) + others p := by
  rw [others_append]
  by_cases hc : c = '\''
  · subst hc
    have h₀ : others ['\''] = 0 := by decide
    rw [others_quote t, h₀]
    omega
  · rw [others_cons hc t, others_singleton hc]
    omega

theorem others_le_cons (c : Char) (t : List Char) : others t ≤ others (c :: t) :=
  (List.sublist_cons_self c t).countP_le

theorem cost_append (ts us : List Token) : cost (ts ++ us) = cost ts + cost us := by
  induction ts with
  | nil => exact (Nat.zero_add _).symm
  | cons t ts ih => rw [List.cons_append, cost, ih, cost, Nat.add_assoc]

theorem cost_finish_append (p : Option (List Char)) (ts : List Token) :
    cost (finish p ++ ts) ≤ others (p.getD []) + 1 + cost ts := by
  cases p with
  | none =>
      show cost ts ≤ _
      omega
  | some w =>
      show (others w + 1) + cost ts ≤ others w + 1 + cost ts
      omega

theorem quotesIn_finish_append (p : Option (List Char)) (ts : List Token) :
    quotesIn (finish p ++ ts) = quotes (p.getD []) + quotesIn ts := by
  cases p with
  | none => exact (Nat.zero_add _).symm
  | some w => rfl

/-- Where a character that is no quote ends a word. -/
theorem bound_finish {p : Option (List Char)} {c : Char} {t : List Char} {ts us : List Token}
    (hc : c ≠ '\'') (hb : Bound .plain none t ts) (hcost : cost us = cost ts)
    (hquotes : quotesIn us = quotesIn ts) : Bound .plain p (c :: t) (finish p ++ us) := by
  have hf := cost_finish_append p us
  have hq := quotesIn_finish_append p us
  have h₀ : quotes ((none : Option (List Char)).getD []) = 0 := rfl
  have h₁ : others ((none : Option (List Char)).getD []) = 0 := rfl
  simp only [Bound, others_cons hc] at hb ⊢
  omega

theorem not_ended_finish (w : List Char) : ¬ Ended (finish (some w)) := fun h => h w rfl

/-- The bound, from any mode and with any word read so far. -/
def Bounded (t : List Char) : Prop :=
  ∀ ⦃m p ts⦄, lexFrom m p t = some ts → Ended ts → Bound m p t ts

theorem bounded_nil : Bounded [] := by
  intro m p ts h hend
  cases m with
  | plain =>
      obtain rfl := Option.some.inj h
      cases p with
      | none => exact Nat.zero_le _
      | some w => exact absurd hend (not_ended_finish w)
  | comment =>
      obtain rfl := Option.some.inj h
      cases p with
      | none => exact Nat.zero_le _
      | some w => exact absurd hend (not_ended_finish w)
  | escape =>
      obtain rfl := Option.some.inj h
      exact absurd hend (not_ended_finish _)
  | single => cases h
  | double => cases h
  | doubleEscape => cases h

section Cons

variable {p : Option (List Char)} {c : Char} {t : List Char} {ts : List Token}

/-- A character that is no quote is added to the word. -/
theorem bound_add {m : Mode} (hm : m = .plain ∨ m = .single) (hc : c ≠ '\'')
    (hb : Bound m (add p [c]) t ts) : Bound m p (c :: t) ts := by
  have hmove := others_move (p.getD []) c t
  have hq := quotes_append (p.getD []) [c]
  rcases hm with rfl | rfl
  · simp only [Bound, getD_add, quotes_singleton hc] at hb hq ⊢
    omega
  · simp only [Bound, getD_add, quotes_singleton hc] at hb hq ⊢
    omega

theorem bound_plain (ih : Bounded t) (h : lexFrom .plain p (c :: t) = some ts) (hend : Ended ts) :
    Bound .plain p (c :: t) ts := by
  rw [lexFrom] at h
  split_ifs at h with h₁ h₂ h₃ h₄ h₅ h₆ h₇ h₈
  · have hb := ih h hend
    subst h₁
    simpa only [Bound, getD_add, List.append_nil, others_quote] using hb
  · have hb := ih h hend
    simp only [Bound, getD_add, List.append_nil, others_cons h₁] at hb ⊢
    omega
  · have hb := ih h hend
    simp only [Bound, others_cons h₁] at hb ⊢
    omega
  · have hb := ih h hend
    rw [h₅.2]
    simp only [Bound, others_cons h₁] at hb ⊢
    omega
  · obtain ⟨ts', ht, rfl⟩ := Option.map_eq_some_iff.1 h
    exact bound_finish h₁ (ih ht hend.of_finish_cons) (Nat.zero_add _) (Nat.zero_add _)
  · obtain ⟨ts', ht, rfl⟩ := Option.map_eq_some_iff.1 h
    exact bound_finish h₁ (ih ht hend.of_append) rfl rfl
  · obtain ⟨ts', ht, rfl⟩ := Option.map_eq_some_iff.1 h
    exact bound_finish h₁ (ih ht hend.of_finish_cons) (Nat.zero_add _) (Nat.zero_add _)
  · exact bound_add (Or.inl rfl) h₁ (ih h hend)

theorem bound_single (ih : Bounded t) (h : lexFrom .single p (c :: t) = some ts)
    (hend : Ended ts) : Bound .single p (c :: t) ts := by
  rw [lexFrom] at h
  split_ifs at h with h₁
  · have hb := ih h hend
    subst h₁
    simpa only [Bound, others_quote] using hb
  · exact bound_add (Or.inr rfl) h₁ (ih h hend)

theorem bound_double (ih : Bounded t) (h : lexFrom .double p (c :: t) = some ts)
    (hend : Ended ts) : Bound .double p (c :: t) ts := by
  rw [lexFrom] at h
  split_ifs at h with h₁ h₂ h₃
  · have hb := ih h hend
    have hc : c ≠ '\'' := by simp [h₁]
    simp only [Bound, others_cons hc] at hb ⊢
    omega
  · have hb := ih h hend
    have hc : c ≠ '\'' := by simp [h₂]
    simp only [Bound, others_cons hc] at hb ⊢
    omega
  · have hb := ih h hend
    have hmove := others_move (p.getD []) c t
    simp only [Bound, getD_add] at hb ⊢
    omega

theorem bound_escape (ih : Bounded t) (h : lexFrom .escape p (c :: t) = some ts)
    (hend : Ended ts) : Bound .escape p (c :: t) ts := by
  have hle := others_le_cons c t
  rw [lexFrom] at h
  split_ifs at h with h₁
  · have hb := ih h hend
    simp only [Bound] at hb ⊢
    omega
  · have hb := ih h hend
    have hmove := others_move (p.getD []) c t
    have hq := quotes_append (p.getD []) [c]
    simp only [Bound, getD_add] at hb ⊢
    omega

theorem bound_doubleEscape (ih : Bounded t) (h : lexFrom .doubleEscape p (c :: t) = some ts)
    (hend : Ended ts) : Bound .doubleEscape p (c :: t) ts := by
  have hle := others_le_cons c t
  have hmove := others_move (p.getD []) c t
  rw [lexFrom] at h
  split_ifs at h with h₁ h₂
  · have hb := ih h hend
    simp only [Bound] at hb ⊢
    omega
  · have hb := ih h hend
    simp only [Bound, getD_add] at hb ⊢
    omega
  · have hb := ih h hend
    have happ : others (p.getD [] ++ ['\\', c]) = others (p.getD [] ++ [c]) + 1 := by
      rw [others_append, others_append, others_cons (by decide)]
      omega
    simp only [Bound, getD_add] at hb ⊢
    omega

theorem bound_comment (ih : Bounded t) (h : lexFrom .comment p (c :: t) = some ts)
    (hend : Ended ts) : Bound .comment p (c :: t) ts := by
  have hle := others_le_cons c t
  rw [lexFrom] at h
  split_ifs at h with h₁
  · obtain ⟨ts', ht, rfl⟩ := Option.map_eq_some_iff.1 h
    have hc : c ≠ '\'' := by simp [h₁]
    exact bound_finish hc (ih ht hend.of_finish_cons) (Nat.zero_add _) (Nat.zero_add _)
  · have hb := ih h hend
    simp only [Bound] at hb ⊢
    omega

end Cons

/-- **A text that is read with quotes in its words has characters to spare.** -/
theorem bounded (t : List Char) : Bounded t := by
  induction t with
  | nil => exact bounded_nil
  | cons c t ih =>
      intro m p ts h hend
      cases m with
      | plain => exact bound_plain ih h hend
      | single => exact bound_single ih h hend
      | double => exact bound_double ih h hend
      | escape => exact bound_escape ih h hend
      | doubleEscape => exact bound_doubleEscape ih h hend
      | comment => exact bound_comment ih h hend

/-- **A text that is read without characters to spare** has no quote in its words. -/
theorem quotesIn_eq_zero {t : List Char} {ts : List Token} (h : lex t = some ts) (hend : Ended ts)
    (hcost : others t ≤ cost ts) : quotesIn ts = 0 := by
  have hb : cost ts + min 1 (quotesIn ts - 0) ≤ others t + 0 := bounded t h hend
  omega

end Shell
end WorkerNg
