/-
# Computations that raise exceptions

What is known of the parts of a computation when the whole returns.  A list of
computations returns the list of what each one returns (`mapM_eq_ok_iff`).
-/

import Mathlib.Data.List.Forall2

namespace WorkerNg

variable {α β ε : Type}

theorem map_eq_ok {f : α → β} {x : Except ε α} {b : β} (h : x.map f = .ok b) :
    ∃ a, x = .ok a ∧ f a = b := by
  cases x with
  | error e => cases h
  | ok a => exact ⟨a, rfl, Except.ok.inj h⟩

theorem bind_eq_ok {f : α → Except ε β} {x : Except ε α} {b : β} (h : (x >>= f) = .ok b) :
    ∃ a, x = .ok a ∧ f a = .ok b := by
  cases x with
  | error e => cases h
  | ok a => exact ⟨a, rfl, h⟩

theorem exists_of_isOk {x : Except ε α} (h : x.isOk = true) : ∃ r, x = .ok r := by
  cases x with
  | error e => cases h
  | ok r => exact ⟨r, rfl⟩

/-- One computation after the other. -/
theorem mapM_eq_ok_iff {f : α → Except ε β} {l : List α} {bs : List β} :
    l.mapM f = .ok bs ↔ List.Forall₂ (fun a b => f a = .ok b) l bs := by
  constructor
  · intro h
    induction l generalizing bs with
    | nil =>
        obtain rfl := Except.ok.inj h
        exact .nil
    | cons a l ih =>
        rw [List.mapM_cons] at h
        obtain ⟨b, hb, h⟩ := bind_eq_ok h
        obtain ⟨bs', hbs, h⟩ := bind_eq_ok h
        obtain rfl := Except.ok.inj h
        exact .cons hb (ih hbs)
  · intro h
    induction h with
    | nil => rfl
    | cons hb _ ih =>
        rw [List.mapM_cons, hb, ih]
        rfl

/-- Computations that all return. -/
theorem mapM_eq_ok_map {f : α → Except ε β} {g : α → β} {l : List α}
    (h : ∀ a ∈ l, f a = .ok (g a)) : l.mapM f = .ok (l.map g) :=
  mapM_eq_ok_iff.2 (List.forall₂_map_right_iff.2 (List.forall₂_same.2 h))

end WorkerNg
