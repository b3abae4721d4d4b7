/-
# A stream that writes to a pipe

A text that is put into a stream reaches the pipe behind it in pieces, each of which is
written at once.  An `OutStream` is any way to cut texts into such pieces, none of them
empty and none larger than the pipe.  What counts for a reader that may go away is how much
has been written when the last piece is still missing (`OutStream.before`): as long as
pieces are left, the bytes written are at most that many (`OutStream.length_le_before`).

`OutStream.buffered` is a stream with a buffer, which writes the buffer when it is full and
what is left of it at the end.
-/

import Mathlib.Data.List.Induction
import Mathlib.Data.Nat.Notation

namespace WorkerNg

variable {α : Type*} {C : ℕ}

/-- A stream to a pipe that holds `C` bytes: the pieces in which it writes a text. -/
structure OutStream (α : Type*) (C : ℕ) where
  pieces : List α → List (List α)
  flatten_pieces : ∀ text, (pieces text).flatten = text
  ne_nil : ∀ text, ∀ piece ∈ pieces text, piece ≠ []
  length_le : ∀ text, ∀ piece ∈ pieces text, piece.length ≤ C

namespace OutStream

/-- How much has been written when the last piece is still missing. -/
def before (ops : OutStream α C) (text : List α) : ℕ := (ops.pieces text).dropLast.flatten.length

section Pieces

variable (ops : OutStream α C) {text : List α}

theorem pieces_ne_nil (h : text ≠ []) : ops.pieces text ≠ [] := by
  intro hnil
  have hflatten := ops.flatten_pieces text
  rw [hnil, List.flatten_nil] at hflatten
  exact h hflatten.symm

/-- **Where pieces are left**, no more than this has been written. -/
theorem length_le_before {rest : List (List α)} (h : rest <:+ ops.pieces text) (hne : rest ≠ []) :
    text.length ≤ ops.before text + rest.flatten.length := by
  obtain ⟨written, hwritten⟩ := h
  have hlen := congrArg List.length (ops.flatten_pieces text)
  rw [← hwritten, List.flatten_append, List.length_append] at hlen
  rw [before, ← hwritten, List.dropLast_append_of_ne_nil hne, List.flatten_append,
    List.length_append]
  omega

/-- Where one piece is left, everything before it has been written. -/
theorem length_eq_before {piece : List α} (h : [piece] <:+ ops.pieces text) :
    text.length = ops.before text + piece.length := by
  obtain ⟨written, hwritten⟩ := h
  have hlen := congrArg List.length (ops.flatten_pieces text)
  rw [← hwritten, List.flatten_append, List.length_append, List.flatten_singleton] at hlen
  rw [before, ← hwritten, List.dropLast_concat]
  omega

end Pieces

/-! ### A buffer -/

/-- One more in a buffer for `n`; a full buffer is written first. -/
def put (n : ℕ) (st : List (List α) × List α) (b : α) : List (List α) × List α :=
  if st.2.length = n then (st.1 ++ [st.2], [b]) else (st.1, st.2 ++ [b])

/-- What has been written, with the buffer written at the end. -/
def flush (st : List (List α) × List α) : List (List α) :=
  if st.2.isEmpty then st.1 else st.1 ++ [st.2]

/-- The buffer and what was written before: nothing is lost, and no piece is empty or larger
than the buffer. -/
structure Buffered (n : ℕ) (text : List α) (st : List (List α) × List α) : Prop where
  text : st.1.flatten ++ st.2 = text
  pieces : ∀ piece ∈ st.1, piece ≠ [] ∧ piece.length ≤ n
  buffer : st.2.length ≤ n

/-- **One more.** -/
theorem Buffered.put {n : ℕ} (hn : 0 < n) {text : List α} {st : List (List α) × List α}
    (h : Buffered n text st) (b : α) : Buffered n (text ++ [b]) (put n st b) := by
  obtain ⟨htext, hpieces, hbuffer⟩ := h
  unfold OutStream.put
  split_ifs with hfull
  · refine ⟨?_, List.forall_mem_append.2 ⟨hpieces, ?_⟩, hn⟩
    · rw [List.flatten_append, List.flatten_singleton, htext]
    · rw [List.forall_mem_singleton]
      exact ⟨List.ne_nil_of_length_pos (by omega), hbuffer⟩
  · refine ⟨?_, hpieces, ?_⟩
    · rw [← List.append_assoc, htext]
    · rw [List.length_append, List.length_singleton]
      omega

theorem buffered_foldl {n : ℕ} (hn : 0 < n) (text : List α) :
    Buffered n text (text.foldl (OutStream.put n) ([], [])) := by
  induction text using List.reverseRecOn with
  | nil => exact ⟨rfl, by simp, Nat.zero_le n⟩
  | append_singleton text b ih =>
      rw [List.foldl_append, List.foldl_cons, List.foldl_nil]
      exact ih.put hn b

theorem Buffered.flush {n : ℕ} {text : List α} {st : List (List α) × List α}
    (h : Buffered n text st) : (flush st).flatten = text ∧
      ∀ piece ∈ flush st, piece ≠ [] ∧ piece.length ≤ n := by
  obtain ⟨htext, hpieces, hbuffer⟩ := h
  unfold OutStream.flush
  split_ifs with hempty
  · rw [List.isEmpty_iff] at hempty
    rw [hempty, List.append_nil] at htext
    exact ⟨htext, hpieces⟩
  · rw [List.isEmpty_iff] at hempty
    refine ⟨?_, List.forall_mem_append.2 ⟨hpieces, ?_⟩⟩
    · rw [List.flatten_append, List.flatten_singleton, htext]
    · rw [List.forall_mem_singleton]
      exact ⟨hempty, hbuffer⟩

/-- A stream with a buffer for `n`. -/
def buffered (α : Type*) {C n : ℕ} (hn : 0 < n) (hC : n ≤ C) : OutStream α C where
  pieces text := flush (text.foldl (OutStream.put n) ([], []))
  flatten_pieces text := (buffered_foldl hn text).flush.1
  ne_nil text piece hpiece := ((buffered_foldl hn text).flush.2 piece hpiece).1
  length_le text piece hpiece :=
    Nat.le_trans ((buffered_foldl hn text).flush.2 piece hpiece).2 hC

end OutStream
end WorkerNg
