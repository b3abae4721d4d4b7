/-
# Languages of common regular expressions

Which texts match a class of characters, one or more characters of a class, and
a list of items with a separator: the texts that match `P(?:cP)*` are the lists of
one or more texts that match `P`, with `c` between them (`mem_sepBy`).
-/

import WorkerNg.Lib.Lines
import Mathlib.Computability.RegularExpressions

namespace WorkerNg
namespace RegularExpr

open RegularExpression Language

variable {α : Type*} {P : RegularExpression α} {x : List α}

/-- One of the characters. -/
def oneOf : List α → RegularExpression α
  | [] => 0
  | c :: cs => char c + oneOf cs

/-- `P+`. -/
def many1 (P : RegularExpression α) : RegularExpression α := P * P.star

/-- `P(?:cP)*`. -/
def sepBy (c : α) (P : RegularExpression α) : RegularExpression α := P * (char c * P).star

theorem mem_oneOf {cs : List α} : x ∈ (oneOf cs).matches' ↔ ∃ c ∈ cs, x = [c] := by
  induction cs with
  | nil => exact iff_of_false id (by simp)
  | cons c cs ih =>
      rw [oneOf, matches'_add, mem_add, ih, matches'_char, List.exists_mem_cons_iff]
      rfl

/-- `P+`, where `P` is a class. -/
theorem mem_many1 {p : α → Prop} (hP : ∀ x, x ∈ P.matches' ↔ ∃ c, p c ∧ x = [c]) :
    x ∈ (many1 P).matches' ↔ x ≠ [] ∧ ∀ c ∈ x, p c := by
  rw [many1, matches'_mul, matches'_star, mem_mul]
  constructor
  · rintro ⟨y, hy, z, hz, rfl⟩
    obtain ⟨c, hc, rfl⟩ := (hP y).1 hy
    obtain ⟨ys, rfl, hys⟩ := mem_kstar.1 hz
    refine ⟨List.cons_ne_nil _ _, fun d hd => ?_⟩
    rcases List.mem_cons.1 hd with rfl | hd
    · exact hc
    · obtain ⟨y, hy, hd⟩ := List.mem_flatten.1 hd
      obtain ⟨e, he, rfl⟩ := (hP y).1 (hys y hy)
      exact List.mem_singleton.1 hd ▸ he
  · rintro ⟨hne, hx⟩
    obtain ⟨c, x, rfl⟩ := List.exists_cons_of_ne_nil hne
    rw [List.forall_mem_cons] at hx
    refine ⟨[c], (hP _).2 ⟨c, hx.1, rfl⟩, x, ?_, rfl⟩
    have hself : x = (x.map ([·])).flatten := by rw [← List.flatMap_def, List.flatMap_singleton']
    refine mem_kstar.2 ⟨x.map ([·]), hself, fun y hy => ?_⟩
    obtain ⟨d, hd, rfl⟩ := List.mem_map.1 hy
    exact (hP _).2 ⟨d, hx.2 d hd, rfl⟩

/-- `P(?:cP)*`: the lists of one or more items with the separator between them. -/
theorem mem_sepBy {c : α} : x ∈ (sepBy c P).matches' ↔
    ∃ ys, ys ≠ [] ∧ (∀ y ∈ ys, y ∈ P.matches') ∧ x = [c].intercalate ys := by
  have hitem : ∀ z, z ∈ (char c * P).matches' ↔ ∃ y ∈ P.matches', z = c :: y := by
    intro z
    rw [matches'_mul, matches'_char, mem_mul]
    constructor
    · rintro ⟨_, rfl, y, hy, rfl⟩
      exact ⟨y, hy, rfl⟩
    · rintro ⟨y, hy, rfl⟩
      exact ⟨[c], rfl, y, hy, rfl⟩
  rw [sepBy, matches'_mul, matches'_star, mem_mul]
  constructor
  · rintro ⟨y, hy, z, hz, rfl⟩
    obtain ⟨zs, rfl, hzs⟩ := mem_kstar.1 hz
    have hys : ∃ ys : List (List α), zs = ys.map (c :: ·) ∧ ∀ y ∈ ys, y ∈ P.matches' := by
      clear hz
      induction zs with
      | nil => exact ⟨[], rfl, by simp⟩
      | cons z zs ih =>
          rw [List.forall_mem_cons] at hzs
          obtain ⟨y', hy', rfl⟩ := (hitem z).1 hzs.1
          obtain ⟨ys, rfl, hys⟩ := ih hzs.2
          exact ⟨y' :: ys, rfl, List.forall_mem_cons.2 ⟨hy', hys⟩⟩
    obtain ⟨ys, rfl, hys⟩ := hys
    exact ⟨y :: ys, List.cons_ne_nil _ _, List.forall_mem_cons.2 ⟨hy, hys⟩,
      (Lines.intercalate_cons c y ys).symm⟩
  · rintro ⟨ys, hne, hys, rfl⟩
    obtain ⟨y, ys, rfl⟩ := List.exists_cons_of_ne_nil hne
    rw [List.forall_mem_cons] at hys
    refine ⟨y, hys.1, (ys.map (c :: ·)).flatten, mem_kstar.2 ⟨_, rfl, fun z hz => ?_⟩,
      (Lines.intercalate_cons c y ys).symm⟩
    obtain ⟨y', hy', rfl⟩ := List.mem_map.1 hz
    exact (hitem _).2 ⟨y', hys.2 y' hy', rfl⟩

end RegularExpr

end WorkerNg
