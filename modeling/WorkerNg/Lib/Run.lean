/-
# Runs of a labelled transition system

`Reaches step P s s'` says that a run of `step` leads from `s` to `s'` and that
each of its steps meets a condition `P` on the state it starts from and on its
label.  Two rules prove things about all runs: what holds at the start and is
kept by every step holds at the end (`Reaches.invariant`), and a system that
can follow every step of another one can follow its runs (`Reaches.simulates`).
Where every step lowers a measure, a run from any state comes to an end
(`exists_reaches_stuck`).  `Path` lists the labels of a run as well; the measure
of another system that follows the run bounds how long the list gets
(`Path.length_le`).

For a transition function, `exec` follows a list of labels and checks the
condition on the way, so that a run can be computed (`reaches_of_exec`).
-/

import Mathlib.Data.List.Induction
import Mathlib.Data.Nat.Init
import Mathlib.Logic.Relation
import Mathlib.Tactic.Push
import Mathlib.Tactic.SplitIfs

namespace WorkerNg

variable {σ τ α β : Type*}

/-- A run from one state to another in which every step meets `P`. -/
def Reaches (step : σ → α → σ → Prop) (P : σ → α → Prop) : σ → σ → Prop :=
  Relation.ReflTransGen fun s s' => ∃ a, P s a ∧ step s a s'

namespace Reaches

variable {step : σ → α → σ → Prop} {P : σ → α → Prop} {s s' : σ}

theorem refl : Reaches step P s s := Relation.ReflTransGen.refl

theorem tail {s'' : σ} {a : α} (h : Reaches step P s s') (hP : P s' a) (hs : step s' a s'') :
    Reaches step P s s'' := Relation.ReflTransGen.tail h ⟨a, hP, hs⟩

/-- **What holds at the start and is kept by every step holds at the end.** -/
theorem invariant {I : σ → Prop} (h : Reaches step P s s') (h₀ : I s)
    (hstep : ∀ s a s', I s → P s a → step s a s' → I s') : I s' := by
  induction h with
  | refl => exact h₀
  | tail _ hs ih =>
      obtain ⟨a, hP, hs⟩ := hs
      exact hstep _ a _ ih hP hs

/-- A run that meets a condition meets every weaker one. -/
theorem mono {Q : σ → α → Prop} (h : Reaches step P s s') (hPQ : ∀ s a, P s a → Q s a) :
    Reaches step Q s s' := by
  refine Relation.ReflTransGen.mono ?_ _ _ h
  rintro t t' ⟨a, hP, hs⟩
  exact ⟨a, hPQ t a hP, hs⟩

/-- **Simulation**: if every step from related states can be followed by a run
that leads to related states, then so can every run.  What is known of the
states the other system has reached may be used to follow a step. -/
theorem simulates {step' : τ → β → τ → Prop} {Q : τ → β → Prop} {R : σ → τ → Prop}
    (h : Reaches step P s s') {t : τ} (ht : R s t)
    (hstep : ∀ s a s' t', R s t' → Reaches step' Q t t' → P s a → step s a s' →
      ∃ t'', Reaches step' Q t' t'' ∧ R s' t'') :
    ∃ t', Reaches step' Q t t' ∧ R s' t' := by
  induction h with
  | refl => exact ⟨t, refl, ht⟩
  | tail _ hs ih =>
      obtain ⟨a, hP, hs⟩ := hs
      obtain ⟨t', hrun, ht'⟩ := ih
      obtain ⟨t'', hrun', ht''⟩ := hstep _ a _ t' ht' hrun hP hs
      exact ⟨t'', Relation.ReflTransGen.trans hrun hrun', ht''⟩

end Reaches

/-- No step is possible. -/
def Stuck (step : σ → α → σ → Prop) (s : σ) : Prop := ∀ a s', ¬ step s a s'

/-- **Where every step lowers a measure, some run comes to an end.** -/
theorem exists_reaches_stuck {step : σ → α → σ → Prop} (μ : σ → ℕ)
    (h : ∀ s a s', step s a s' → μ s' < μ s) (s : σ) :
    ∃ s', Reaches step (fun _ _ => True) s s' ∧ Stuck step s' := by
  induction hn : μ s using Nat.strong_induction_on generalizing s with
  | _ n ih =>
      subst hn
      by_cases hs : Stuck step s
      · exact ⟨s, Reaches.refl, hs⟩
      · unfold Stuck at hs
        push Not at hs
        obtain ⟨a, s', hstep⟩ := hs
        obtain ⟨s'', hrun, hstuck⟩ := ih (μ s') (h s a s' hstep) s' rfl
        exact ⟨s'', Relation.ReflTransGen.head ⟨a, trivial, hstep⟩ hrun, hstuck⟩

/-! ### Runs with their labels -/

/-- A run with the labels of its steps, the last step at the end. -/
inductive Path (step : σ → α → σ → Prop) (P : σ → α → Prop) (s : σ) : List α → σ → Prop where
  | nil : Path step P s [] s
  | snoc {as : List α} {a : α} {s' s'' : σ} (h : Path step P s as s') (hP : P s' a)
      (hs : step s' a s'') : Path step P s (as ++ [a]) s''

theorem Path.mono {step : σ → α → σ → Prop} {P Q : σ → α → Prop} {s s' : σ} {as : List α}
    (h : Path step P s as s') (hPQ : ∀ s a, P s a → Q s a) : Path step Q s as s' := by
  induction h with
  | nil => exact .nil
  | snoc _ hP hs ih => exact ih.snoc (hPQ _ _ hP) hs

/-- **A run that another system can follow, with a measure on both that every step
lowers, is no longer than the measure was at its start.** -/
theorem Path.length_le {step : σ → α → σ → Prop} {P : σ → α → Prop} {s s' : σ} {as : List α}
    (h : Path step P s as s') {R : σ → τ → Prop} (μ : σ → τ → ℕ) {t : τ} (ht : R s t)
    (hstep : ∀ s a s' t, R s t → P s a → step s a s' → ∃ t', R s' t' ∧ μ s' t' < μ s t) :
    ∃ t', R s' t' ∧ as.length + μ s' t' ≤ μ s t := by
  induction h with
  | nil => exact ⟨t, ht, by simp⟩
  | @snoc as a s' s'' _ hP hs ih =>
      obtain ⟨t', ht', hle⟩ := ih
      obtain ⟨t'', ht'', hlt⟩ := hstep s' a s'' t' ht' hP hs
      refine ⟨t'', ht'', ?_⟩
      rw [List.length_append, List.length_singleton]
      omega

/-- The state after a list of labels, `none` if one of them is not enabled or its
step does not meet the condition. -/
def exec (step : σ → α → Option σ) (p : σ → α → Bool) (s : σ) (as : List α) : Option σ :=
  as.foldlM (fun s a => if p s a then step s a else none) s

theorem reaches_of_exec {step : σ → α → Option σ} {p : σ → α → Bool} {s s' : σ} {as : List α}
    (h : exec step p s as = some s') :
    Reaches (fun s a s' => step s a = some s') (fun s a => p s a = true) s s' := by
  induction as generalizing s with
  | nil =>
      obtain rfl : s = s' := by simpa [exec] using h
      exact Reaches.refl
  | cons a as ih =>
      simp only [exec, List.foldlM_cons, Option.bind_eq_bind, Option.bind_eq_some_iff] at h
      obtain ⟨t, ht, h⟩ := h
      split_ifs at ht with hp
      exact Relation.ReflTransGen.head ⟨a, hp, ht⟩ (ih h)

theorem path_of_exec {step : σ → α → Option σ} {p : σ → α → Bool} {s s' : σ} {as : List α}
    (h : exec step p s as = some s') :
    Path (fun s a s' => step s a = some s') (fun s a => p s a = true) s as s' := by
  induction as using List.reverseRecOn generalizing s' with
  | nil =>
      obtain rfl : s = s' := by simpa [exec] using h
      exact .nil
  | append_singleton as a ih =>
      simp only [exec, List.foldlM_append, List.foldlM_cons, List.foldlM_nil, Option.bind_eq_bind,
        Option.bind_eq_some_iff, Option.pure_def, Option.some.injEq, exists_eq_right] at h
      obtain ⟨t, ht, h⟩ := h
      split_ifs at h with hp
      exact (ih ht).snoc hp h

/-- A run that was computed reaches a state with what was computed of it. -/
theorem exists_of_exec {step : σ → α → Option σ} {p : σ → α → Bool} {s : σ} {as : List α}
    {f : σ → β} {b : β} (h : (exec step p s as).map f = some b) :
    ∃ s', Reaches (fun s a s' => step s a = some s') (fun s a => p s a = true) s s' ∧ f s' = b := by
  obtain ⟨s', hs', hb⟩ := Option.map_eq_some_iff.1 h
  exact ⟨s', reaches_of_exec hs', hb⟩

end WorkerNg
