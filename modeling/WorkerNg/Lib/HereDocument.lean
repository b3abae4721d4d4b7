/-
# Here documents

What a shell makes of the text of a here document whose delimiter is not quoted:
parameters, `$name` and `${name}`, are replaced by their values, which are not looked at
again, and a backslash takes away a line break behind it.  Other expansions are not modelled;
a text that has one is not read.

`expandHere` is a machine that writes while it goes over the text.  `Expands env t e` says
that it writes `e` for `t`, whatever comes behind, and so a text that is made of parts becomes
what its parts become (`expandHere_parts`).
-/

import WorkerNg.Lib.Words

namespace WorkerNg
namespace Shell

/-- Where in the text one is; of a parameter, with the name read so far. -/
inductive HereMode
  | text
  | escape
  | dollar
  | name (n : List Char)
  | brace (n : List Char)
deriving DecidableEq

def isNameStart (c : Char) : Bool := c.isAlpha || c == '_'

def isNameChar (c : Char) : Bool := c.isAlphanum || c == '_'

/-- The name of a parameter. -/
def isName : List Char → Bool
  | [] => false
  | c :: n => isNameStart c && n.all isNameChar

theorem isNameChar_of_isName {n : List Char} (h : isName n = true) :
    ∀ c ∈ n, isNameChar c = true := by
  cases n with
  | nil => cases h
  | cons d n =>
      rw [isName, Bool.and_eq_true, List.all_eq_true, isNameStart, Bool.or_eq_true] at h
      refine List.forall_mem_cons.2 ⟨?_, h.2⟩
      rw [isNameChar, Char.isAlphanum, Bool.or_eq_true, Bool.or_eq_true]
      exact h.1.imp_left .inl

/-- A character in the text: what is written, and where one is then. -/
def hereText (c : Char) : Option (List Char × HereMode) :=
  if c = '$' then some ([], .dollar)
  else if c = '\\' then some ([], .escape)
  else if c = '`' then none
  else some ([c], .text)

section Expand

variable (env : List Char → List Char)

/-- A character. -/
def hereStep : HereMode → Char → Option (List Char × HereMode)
  | .text, c => hereText c
  | .escape, c =>
      if c = '\n' then some ([], .text)
      else if c = '\\' ∨ isExpansion c then some ([c], .text)
      else some (['\\', c], .text)
  | .dollar, c =>
      if c = '\x7b' then some ([], .brace [])
      else if isNameStart c then some ([], .name [c])
      else none
  | .name n, c =>
      if isNameChar c then some ([], .name (n ++ [c]))
      else (hereText c).map fun r => (env n ++ r.1, r.2)
  | .brace n, c =>
      if c = '\x7d' then if isName n then some (env n, .text) else none
      else some ([], .brace (n ++ [c]))

/-- What is written at the end of the text. -/
def hereEnd : HereMode → Option (List Char)
  | .text => some []
  | .escape => some ['\\']
  | .dollar => some ['$']
  | .name n => some (env n)
  | .brace _ => none

/-- The text with its parameters replaced. -/
def expandHere : HereMode → List Char → Option (List Char)
  | m, [] => hereEnd env m
  | m, c :: t => (hereStep env m c).bind fun r => (expandHere r.2 t).map (r.1 ++ ·)

/-- The text becomes this one, whatever comes behind it. -/
def Expands (t e : List Char) : Prop :=
  ∀ u, expandHere env .text (t ++ u) = (expandHere env .text u).map (e ++ ·)

end Expand

/-! ### Part by part -/

section Expands

variable {env : List Char → List Char} {t u e f : List Char}

theorem expands_nil : Expands env [] [] := fun _ => Option.map_id'.symm

theorem Expands.append (ht : Expands env t e) (hu : Expands env u f) :
    Expands env (t ++ u) (e ++ f) := by
  intro v
  rw [List.append_assoc, ht, hu, Option.map_map]
  simp only [Function.comp_def, List.append_assoc]

/-- To the end of the text. -/
theorem Expands.expandHere (h : Expands env t e) : expandHere env .text t = some e := by
  have hend := h []
  rw [List.append_nil] at hend
  rw [hend, Shell.expandHere, hereEnd, Option.map_some, List.append_nil]

/-- A character that stands for itself. -/
def isHerePlain (c : Char) : Bool := !(c == '\\' || isExpansion c)

theorem hereText_plain {c : Char} (hc : isHerePlain c = true) : hereText c = some ([c], .text) := by
  simp only [isHerePlain, isExpansion, Bool.not_eq_true', Bool.or_eq_false_iff,
    beq_eq_false_iff_ne] at hc
  obtain ⟨hescape, hdollar, hbackquote⟩ := hc
  rw [hereText, if_neg hdollar, if_neg hescape, if_neg hbackquote]

/-- **Text without parameters stays as it is.** -/
theorem expands_plain (ht : t.all isHerePlain = true) : Expands env t t := by
  intro u
  induction t with
  | nil => simp
  | cons c t ih =>
      rw [List.all_cons, Bool.and_eq_true] at ht
      rw [List.cons_append, Shell.expandHere, hereStep, hereText_plain ht.1, Option.bind_some,
        ih ht.2, Option.map_map]
      rfl

/-- What stands for itself between double quotes does here. -/
theorem Quotable.isHerePlain {v : List Char} (hv : Quotable v) :
    v.all Shell.isHerePlain = true := by
  refine List.all_eq_true.2 fun c hc => ?_
  have hquotable := hv c hc
  simp only [isQuotable, Bool.not_eq_true', Bool.or_eq_false_iff] at hquotable
  simp only [Shell.isHerePlain, hquotable.1.2, hquotable.2]
  rfl

/-- A backslash takes away the line break. -/
theorem expands_continuation : Expands env ['\\', '\n'] [] := by
  intro u
  rw [List.cons_append, List.singleton_append, Shell.expandHere, hereStep, hereText,
    if_neg (by decide), if_pos rfl, Option.bind_some, Shell.expandHere, hereStep, if_pos rfl,
    Option.bind_some, Option.map_map]
  rfl

/-- The rest of a name. -/
theorem expandHere_name {n : List Char} (hn : n.all isNameChar = true) (m u : List Char) :
    expandHere env (.name m) (n ++ u) = expandHere env (.name (m ++ n)) u := by
  induction n generalizing m with
  | nil => simp
  | cons c n ih =>
      rw [List.all_cons, Bool.and_eq_true] at hn
      rw [List.cons_append, Shell.expandHere, hereStep, if_pos hn.1, Option.bind_some, ih hn.2,
        List.append_assoc]
      simp

/-- **A parameter without braces** ends at a character that belongs to no name. -/
theorem expands_name {n : List Char} (hn : isName n = true) {c : Char}
    (hc : isNameChar c = false) (hplain : isHerePlain c = true) :
    Expands env ('$' :: n ++ [c]) (env n ++ [c]) := by
  intro u
  cases n with
  | nil => cases hn
  | cons d n =>
      rw [isName, Bool.and_eq_true] at hn
      have hbrace : d ≠ '\x7b' := by
        rintro rfl
        exact absurd hn.1 (by decide)
      have hdollar : Shell.expandHere env .text ('$' :: d :: (n ++ c :: u)) =
          Shell.expandHere env (.name [d]) (n ++ c :: u) := by
        rw [Shell.expandHere, hereStep, hereText, if_pos rfl, Option.bind_some,
          Shell.expandHere, hereStep, if_neg hbrace, if_pos hn.1]
        simp
      rw [List.cons_append, List.cons_append, List.append_assoc, List.cons_append,
        List.singleton_append, hdollar, expandHere_name hn.2, Shell.expandHere, hereStep,
        if_neg (by simp [hc]), hereText_plain hplain]
      rfl

/-- Inside braces. -/
theorem expandHere_brace {n : List Char} (hn : '\x7d' ∉ n) (m u : List Char) :
    expandHere env (.brace m) (n ++ u) = expandHere env (.brace (m ++ n)) u := by
  induction n generalizing m with
  | nil => simp
  | cons c n ih =>
      rw [List.mem_cons, not_or] at hn
      rw [List.cons_append, Shell.expandHere, hereStep, if_neg (Ne.symm hn.1), Option.bind_some,
        ih hn.2, List.append_assoc]
      simp

/-- **A parameter with braces.** -/
theorem expands_brace {n : List Char} (hn : isName n = true) :
    Expands env ('$' :: '\x7b' :: (n ++ ['\x7d'])) (env n) := by
  intro u
  have hbrace : '\x7d' ∉ n := fun hmem => absurd (isNameChar_of_isName hn _ hmem) (by decide)
  have hdollar : Shell.expandHere env .text ('$' :: '\x7b' :: (n ++ '\x7d' :: u)) =
      Shell.expandHere env (.brace []) (n ++ '\x7d' :: u) := by
    rw [Shell.expandHere, hereStep, hereText, if_pos rfl, Option.bind_some,
      Shell.expandHere, hereStep, if_pos rfl]
    simp
  rw [List.cons_append, List.cons_append, List.append_assoc, List.singleton_append, hdollar,
    expandHere_brace hbrace, Shell.expandHere, hereStep, if_pos rfl, List.nil_append, if_pos hn,
    Option.bind_some]

/-! ### Texts made of parts -/

/-- A part of a here document. -/
inductive HerePart
  | plain (t : List Char)
  | name (n : List Char) (c : Char)
  | brace (n : List Char)
  | continuation

/-- The text of a part; a name without braces comes with the character behind it. -/
def HerePart.source : HerePart → List Char
  | .plain t => t
  | .name n c => '$' :: n ++ [c]
  | .brace n => '$' :: '\x7b' :: (n ++ ['\x7d'])
  | .continuation => ['\\', '\n']

/-- What the part becomes. -/
def HerePart.value (env : List Char → List Char) : HerePart → List Char
  | .plain t => t
  | .name n c => env n ++ [c]
  | .brace n => env n
  | .continuation => []

/-- The part is what it says. -/
def HerePart.Valid : HerePart → Prop
  | .plain t => t.all isHerePlain = true
  | .name n c => isName n = true ∧ isNameChar c = false ∧ isHerePlain c = true
  | .brace n => isName n = true
  | .continuation => True

theorem HerePart.Valid.expands {p : HerePart} (h : p.Valid) :
    Expands env p.source (p.value env) := by
  cases p with
  | plain t => exact expands_plain h
  | name n c => exact expands_name h.1 h.2.1 h.2.2
  | brace n => exact expands_brace h
  | continuation => exact expands_continuation

/-- **A text becomes what its parts become.** -/
theorem expandHere_parts {parts : List HerePart} (h : ∀ p ∈ parts, p.Valid) :
    Shell.expandHere env .text (parts.flatMap HerePart.source) =
      some (parts.flatMap (HerePart.value env)) := by
  refine Expands.expandHere ?_
  induction parts with
  | nil => exact expands_nil
  | cons p parts ih =>
      rw [List.forall_mem_cons] at h
      exact h.1.expands.append (ih h.2)

end Expands

end Shell
end WorkerNg
