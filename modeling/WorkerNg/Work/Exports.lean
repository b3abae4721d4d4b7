/-
# What the shell makes of the data

The export lines of a work item, as `create_workfile` in `scripts/worker/utils.py`
writes them, and what a shell reads in them.

A value stands between single quotes, and nothing in it is escaped.  So a value
without single quotes is read as it is, whatever else it holds, and the lines behind
it are read as if they stood alone (`lexFrom_exportLines`).  With a single quote in it
the lines are not read as these assignments: for that, every quote that `create_workfile`
wrote has to be taken away and every quote of a value has to stay, but there are no
other characters in the lines that could protect it (`readsVerbatim_iff`).
-/

import WorkerNg.Lib.Argparse
import WorkerNg.Lib.Shell
import WorkerNg.Work.Workfile

namespace WorkerNg
namespace Work

open WorkerNg.Shell
open Argparse (partition partition_append_cons partition_eq_some)

/-- The line that exports a variable. -/
def exportLine (e : Text × Text) : Text :=
  printLine ("export ".toList ++ e.1 ++ "='".toList ++ e.2 ++ "'".toList)

/-- The export lines of a row. -/
def exportLines (es : List (Text × Text)) : Text := es.flatMap exportLine

/-- An item begins with the export lines of its row. -/
theorem renderItem_eq_exportLines (script : Text) (data : Row) :
    renderItem script data = exportLines data.entries ++ (printLine [] ++ printLine script) := by
  rw [renderItem, exportLines, List.append_assoc]
  rfl

/-- A name that a shell takes for a variable. -/
def isIdentifier : Text → Bool
  | [] => false
  | c :: s => (c.isAlpha || c == '_') && s.all fun d => d.isAlphanum || d == '_'

/-! ### Assignments -/

/-- The command that exports a variable. -/
def exportCommand (e : Text × Text) : List Token :=
  [.word "export".toList, .word (e.1 ++ '=' :: e.2), .newline]

/-- A word `name=value`. -/
def assignment (w : Text) : Option (Text × Text) :=
  match partition '=' w with
  | (name, some value) => some (name, value)
  | (_, none) => none

/-- The assignments of a text that consists of export commands, one on each line. -/
def assignments : List Token → Option (List (Text × Text))
  | [] => some []
  | .word w :: .word a :: .newline :: ts =>
      if w = "export".toList then do
        let e ← assignment a
        let es ← assignments ts
        return e :: es
      else none
  | _ => none

/-- **The data reach the work item as they are**: the shell reads the export lines as one
assignment for each variable, with its value, and nothing else. -/
def ReadsVerbatim (data : Row) : Prop :=
  (lex (exportLines data.entries)).bind assignments = some data.entries

theorem assignment_append {name : Text} (h : '=' ∉ name) (value : Text) :
    assignment (name ++ '=' :: value) = some (name, value) := by
  rw [assignment, partition_append_cons h]

theorem eq_of_assignment {w : Text} {e : Text × Text} (h : assignment w = some e) :
    w = e.1 ++ '=' :: e.2 := by
  unfold assignment at h
  split at h
  next name value hp =>
    obtain rfl := Option.some.inj h
    exact (partition_eq_some hp).1
  next => cases h

theorem eq_of_assignments {ts : List Token} {es : List (Text × Text)}
    (h : assignments ts = some es) : ts = es.flatMap exportCommand := by
  induction ts using assignments.induct generalizing es with
  | case1 =>
      obtain rfl := Option.some.inj h
      rfl
  | case2 a ts ih =>
      rw [assignments, if_pos rfl] at h
      simp only [Option.bind_eq_bind, Option.bind_eq_some_iff] at h
      obtain ⟨e, he, es', hes, h⟩ := h
      obtain rfl := Option.some.inj h
      rw [eq_of_assignment he, ih hes, List.flatMap_cons, exportCommand]
      rfl
  | case3 w a ts hw =>
      rw [assignments, if_neg hw] at h
      cases h
  | case4 ts h₁ h₂ =>
      rw [assignments] at h
      · cases h
      · exact h₁
      · exact h₂

/-- Export commands are read as the assignments they make. -/
theorem assignments_exportCommand {es : List (Text × Text)} (hnames : ∀ e ∈ es, '=' ∉ e.1) :
    assignments (es.flatMap exportCommand) = some es := by
  induction es with
  | nil => rfl
  | cons e es ih =>
      rw [List.forall_mem_cons] at hnames
      have hcons : (e :: es).flatMap exportCommand =
          .word "export".toList :: .word (e.1 ++ '=' :: e.2) :: .newline ::
            es.flatMap exportCommand := rfl
      rw [hcons, assignments, if_pos rfl, assignment_append hnames.1, ih hnames.2]
      rfl

theorem ended_exportCommand (es : List (Text × Text)) : Ended (es.flatMap exportCommand) := by
  intro w hw
  rcases List.eq_nil_or_concat es with rfl | ⟨es, e, rfl⟩
  · cases hw
  · rw [List.concat_eq_append, List.flatMap_append, List.flatMap_singleton, exportCommand,
      List.getLast?_append] at hw
    cases hw

/-! ### Without quotes -/

theorem isOrdinary_of_isAlphanum {c : Char} (h : (c.isAlphanum || c == '_') = true) :
    isOrdinary c = true := by
  by_contra hn
  simp only [isOrdinary, isExpansion, isBlank, isOperator, Bool.not_eq_true, Bool.not_eq_false',
    Bool.or_eq_true, beq_iff_eq, or_assoc] at hn
  rcases hn with rfl | rfl | rfl | rfl | rfl | rfl | rfl | rfl | rfl | rfl | rfl | rfl | rfl | rfl |
    rfl | rfl
  all_goals exact absurd h (by decide)

theorem isIdentifier_spec {name : Text} (h : isIdentifier name = true) :
    name ≠ [] ∧ ∀ c ∈ name, (c.isAlphanum || c == '_') = true := by
  cases name with
  | nil => cases h
  | cons c s =>
      rw [isIdentifier, Bool.and_eq_true, List.all_eq_true] at h
      refine ⟨List.cons_ne_nil c s, List.forall_mem_cons.2 ⟨?_, h.2⟩⟩
      have hc := h.1
      rw [Bool.or_eq_true] at hc ⊢
      rcases hc with hc | hc
      · exact .inl (by simp [Char.isAlphanum, hc])
      · exact .inr hc

theorem eq_not_mem_of_isIdentifier {name : Text} (h : isIdentifier name = true) : '=' ∉ name :=
  fun hc => absurd ((isIdentifier_spec h).2 _ hc) (by decide)

theorem exportLine_append (e : Text × Text) (t : Text) :
    exportLine e ++ t =
      "export".toList ++ ' ' :: ((e.1 ++ ['=']) ++ '\'' :: (e.2 ++ '\'' :: '\n' :: t)) := by
  have h₁ : "export ".toList = "export".toList ++ [' '] := by decide
  have h₂ : "='".toList = ['=', '\''] := by decide
  have h₃ : "'".toList = ['\''] := by decide
  rw [exportLine, printLine, h₁, h₂, h₃]
  simp only [List.append_assoc, List.cons_append, List.nil_append]

/-- **A line without a quote in its value** is read as an export command, whatever
follows it. -/
theorem lexFrom_exportLine {e : Text × Text} (hname : isIdentifier e.1 = true)
    (hvalue : '\'' ∉ e.2) (t : Text) :
    lexFrom .plain none (exportLine e ++ t) =
      (lexFrom .plain none t).map fun ts => exportCommand e ++ ts := by
  have hexport : "export".toList.all isOrdinary = true := by decide
  have hordinary : (e.1 ++ ['=']).all isOrdinary = true := by
    rw [List.all_append, Bool.and_eq_true, List.all_eq_true]
    exact ⟨fun c hc => isOrdinary_of_isAlphanum ((isIdentifier_spec hname).2 c hc), by decide⟩
  rw [exportLine_append, lexFrom_plain hexport (by decide), lexFrom_blank,
    lexFrom_plain hordinary (by simp), lexFrom_quote, lexFrom_single hvalue, lexFrom_newline,
    Option.map_map, add_add]
  have hword : add none (e.1 ++ ['='] ++ e.2) = some (e.1 ++ '=' :: e.2) := by simp [add]
  rw [hword]
  rfl

theorem lexFrom_exportLines {es : List (Text × Text)}
    (hnames : ∀ e ∈ es, isIdentifier e.1 = true) (hvalues : ∀ e ∈ es, '\'' ∉ e.2) (t : Text) :
    lexFrom .plain none (exportLines es ++ t) =
      (lexFrom .plain none t).map fun ts => es.flatMap exportCommand ++ ts := by
  induction es with
  | nil => simp [exportLines]
  | cons e es ih =>
      rw [List.forall_mem_cons] at hnames hvalues
      rw [exportLines, List.flatMap_cons, List.append_assoc, lexFrom_exportLine hnames.1 hvalues.1]
      rw [exportLines] at ih
      rw [ih hnames.2 hvalues.2, Option.map_map, List.flatMap_cons]
      simp only [Function.comp_def, List.append_assoc]

/-! ### With quotes -/

/-- The lines have no character to spare. -/
theorem others_exportLine (e : Text × Text) : others (exportLine e) = cost (exportCommand e) := by
  have happ := exportLine_append e []
  have hcost : cost (exportCommand e) =
      (others "export".toList + 1) + ((others (e.1 ++ '=' :: e.2) + 1) + 0) := rfl
  have hnil : others [] = 0 := rfl
  rw [List.append_nil] at happ
  rw [happ, hcost]
  simp only [others_append, others_quote, others_cons (show ' ' ≠ '\'' by decide),
    others_cons (show '=' ≠ '\'' by decide), others_cons (show '\n' ≠ '\'' by decide)]
  omega

/-- The lines have no character to spare. -/
theorem others_exportLines (es : List (Text × Text)) :
    others (exportLines es) = cost (es.flatMap exportCommand) := by
  induction es with
  | nil => rfl
  | cons e es ih =>
      rw [exportLines] at ih
      rw [exportLines, List.flatMap_cons, others_append, List.flatMap_cons, cost_append, ih,
        others_exportLine]

/-- A quote in a value is a quote in a word. -/
theorem quote_not_mem_of_quotesIn {es : List (Text × Text)}
    (h : quotesIn (es.flatMap exportCommand) = 0) : ∀ e ∈ es, '\'' ∉ e.2 := by
  induction es with
  | nil => simp
  | cons e es ih =>
      have hcons : quotesIn ((e :: es).flatMap exportCommand) =
          quotes "export".toList + (quotes (e.1 ++ '=' :: e.2) +
            (0 + quotesIn (es.flatMap exportCommand))) := rfl
      have hword : quotes (e.1 ++ '=' :: e.2) = quotes e.1 + quotes ('=' :: e.2) :=
        quotes_append _ _
      have hvalue : quotes ('=' :: e.2) = quotes e.2 := List.countP_cons_of_neg (by decide)
      rw [List.forall_mem_cons]
      refine ⟨fun hmem => ?_, ih (by omega)⟩
      have hzero : quotes e.2 = 0 := by omega
      exact absurd (List.countP_eq_zero.1 hzero _ hmem) (by decide)

/-- **The data reach the work item as they are exactly when no value has a single
quote.** -/
theorem readsVerbatim_iff (data : Row)
    (hnames : ∀ e ∈ data.entries, isIdentifier e.1 = true) :
    ReadsVerbatim data ↔ ∀ e ∈ data.entries, '\'' ∉ e.2 := by
  constructor
  · intro h
    obtain ⟨ts, hts, hes⟩ := Option.bind_eq_some_iff.1 h
    obtain rfl := eq_of_assignments hes
    exact quote_not_mem_of_quotesIn
      (quotesIn_eq_zero hts (ended_exportCommand _) (others_exportLines _).le)
  · intro hvalues
    have hlex := lexFrom_exportLines hnames hvalues []
    rw [List.append_nil] at hlex
    unfold ReadsVerbatim lex
    rw [hlex]
    show assignments (data.entries.flatMap exportCommand ++ []) = _
    rw [List.append_nil]
    exact assignments_exportCommand fun e he => eq_not_mem_of_isIdentifier (hnames e he)

/-- Blanks, an end of line, other quotes and an operator are no harm. -/
theorem readsVerbatim_metacharacters :
    ReadsVerbatim ⟨[("x".toList, "a b\n$(rm) \"c\"; #".toList), ("y".toList, [])], by decide⟩ :=
  (readsVerbatim_iff _ (by decide)).2 (by decide)

/-- With the value `it's` the quotation is not closed, and the lines behind it are part
of it. -/
theorem not_readsVerbatim_quote :
    lex (exportLines [("x".toList, "it's".toList)]) = none ∧
      ¬ ReadsVerbatim ⟨[("x".toList, "it's".toList)], by decide⟩ := by
  refine ⟨by decide, fun h => ?_⟩
  have hlex : lex (exportLines [("x".toList, "it's".toList)]) = none := by decide
  unfold ReadsVerbatim at h
  rw [hlex] at h
  cases h

/-- A value that closes the quotation and opens it again brings its own command. -/
example : lex (exportLines [("x".toList, "'; f; '".toList)]) =
    some [.word "export".toList, .word "x=".toList, .operator ';', .word "f".toList,
      .operator ';', .word [], .newline] := by decide

end Work
end WorkerNg
