/-
# Formatted input from a byte stream

The part of `std::istream` that a textual format needs, in the classic locale: a
stream holds the bytes left and the state bits `eof` and `fail`.  A formatted
read (`>>`) first skips white space and fails on a stream that is not good; a
read that fails is `none` here, since what it leaves is an exception or an
error path.  `read` takes raw bytes, and on too few of them takes what there is
and sets both bits.

Numbers are read as libstdc++ does: an optional sign and the longest run of
digits.  No digits, or a value outside the type, is a failure; a minus sign
before an unsigned value negates it modulo `2^64`.

`decimal` and `decimalInt` are what `<<` writes for a number, and reading them
back gives the number (`readSize_decimal`, `readInt_decimalInt`).
-/

import WorkerNg.Lib.Lines
import Mathlib.Algebra.Group.Int.Defs
import Mathlib.Algebra.Group.Nat.Defs

namespace WorkerNg

/-- An input stream: the bytes left and the state bits. -/
structure IStream where
  rest : List UInt8
  eof : Bool
  fail : Bool
deriving DecidableEq

namespace IStream

/-- A stream over a string. -/
def ofBytes (s : List UInt8) : IStream := ⟨s, false, false⟩

/-- `good()`: no state bit is set. -/
def good (s : IStream) : Bool := !s.eof && !s.fail

/-- `std::isspace`. -/
def isSpace (b : UInt8) : Bool := decide (b = 32 ∨ (9 ≤ b ∧ b ≤ 13))

/-- `std::isdigit`. -/
def isDigit (b : UInt8) : Bool := decide (48 ≤ b ∧ b ≤ 57)

/-- The sentry of a formatted read: white space is skipped, and the stream fails
unless it was good and has a byte left. -/
def skipWs (s : IStream) : IStream :=
  if s.good then
    if s.rest.dropWhile isSpace = [] then ⟨[], true, true⟩
    else { s with rest := s.rest.dropWhile isSpace }
  else { s with fail := true }

/-- `>> char`. -/
def readChar (s : IStream) : Option (UInt8 × IStream) :=
  if s.skipWs.good then
    match s.skipWs.rest with
    | [] => none
    | c :: r => some (c, { s.skipWs with rest := r })
  else none

/-- The value of a run of digits. -/
def digitsValue (ds : List UInt8) : ℕ := ds.foldl (fun n d => 10 * n + (d.toNat - 48)) 0

/-- An optional sign, whether it is a minus, and what follows it. -/
def readSign : List UInt8 → Bool × List UInt8
  | [] => (false, [])
  | c :: r => if c = 45 then (true, r) else if c = 43 then (false, r) else (false, c :: r)

/-- `num_get` for decimal integers: the sign, the magnitude and the stream
behind the digits; `none` when there are no digits. -/
def readNumber (s : IStream) : Option (Bool × ℕ × IStream) :=
  if s.skipWs.good then
    if (readSign s.skipWs.rest).2.takeWhile isDigit = [] then none
    else some ((readSign s.skipWs.rest).1,
      digitsValue ((readSign s.skipWs.rest).2.takeWhile isDigit),
      { s.skipWs with
        rest := (readSign s.skipWs.rest).2.dropWhile isDigit
        eof := decide ((readSign s.skipWs.rest).2.dropWhile isDigit = []) })
  else none

/-- The number that stands at the front of a stream, with its sign. -/
def declared (s : IStream) : ℤ :=
  match s.readNumber with
  | none => 0
  | some (neg, n, _) => if neg then -n else n

/-- `>> size_t`. -/
def readSize (s : IStream) : Option (ℕ × IStream) :=
  match s.readNumber with
  | none => none
  | some (neg, n, t) =>
      if n < 2 ^ 64 then some (if neg then (2 ^ 64 - n) % 2 ^ 64 else n, t) else none

/-- `>> int`. -/
def readInt (s : IStream) : Option (Int32 × IStream) :=
  match s.readNumber with
  | none => none
  | some (neg, n, t) =>
      if -2 ^ 31 ≤ (if neg then -(n : ℤ) else n) ∧ (if neg then -(n : ℤ) else n) < 2 ^ 31 then
        some (Int32.ofInt (if neg then -(n : ℤ) else n), t)
      else none

/-- `read(buffer, n)`: the bytes taken, at most `n`, and the stream left. -/
def read (s : IStream) (n : ℕ) : List UInt8 × IStream :=
  if s.good then
    if s.rest.length < n then (s.rest, ⟨[], true, true⟩)
    else (s.rest.take n, { s with rest := s.rest.drop n })
  else ([], { s with fail := true })

end IStream

/-- `<<` for an unsigned number. -/
def decimal (n : ℕ) : List UInt8 := utf8 (Nat.toDigits 10 n)

/-- `<<` for an `int`. -/
def decimalInt (x : Int32) : List UInt8 :=
  if x.toInt < 0 then 45 :: decimal x.toInt.natAbs else decimal x.toInt.natAbs

/-! ### Digits -/

theorem utf8_of_ascii {s : List Char} (h : ∀ c ∈ s, c.toNat < 128) :
    utf8 s = s.map fun c => UInt8.ofNat c.toNat := by
  induction s with
  | nil => rfl
  | cons c s ih =>
      rw [List.forall_mem_cons] at h
      have hc : String.utf8EncodeChar c = [UInt8.ofNat c.toNat] := by
        have hle : c.val.toNat ≤ 127 := Nat.le_of_lt_succ h.1
        unfold String.utf8EncodeChar
        exact if_pos hle
      rw [utf8, List.flatMap_cons, hc, List.map_cons]
      exact congrArg _ (ih h.2)

theorem toNat_of_isDigit {c : Char} (h : c.isDigit) : 48 ≤ c.toNat ∧ c.toNat ≤ 57 :=
  Char.isDigit_iff_toNat.1 h

theorem decimal_eq_map (n : ℕ) :
    decimal n = (Nat.toDigits 10 n).map fun c => UInt8.ofNat c.toNat :=
  utf8_of_ascii fun c hc => by
    have := toNat_of_isDigit (Nat.isDigit_of_mem_toDigits (by decide) (by decide) hc)
    omega

theorem decimal_ne_nil (n : ℕ) : decimal n ≠ [] := by
  rw [decimal_eq_map]
  simp

theorem toNat_ofNat_of_isDigit {c : Char} (h : c.isDigit) :
    (UInt8.ofNat c.toNat).toNat = c.toNat := by
  have := toNat_of_isDigit h
  rw [UInt8.toNat_ofNat']
  omega

theorem isDigit_of_mem_decimal {n : ℕ} {b : UInt8} (h : b ∈ decimal n) :
    IStream.isDigit b = true := by
  rw [decimal_eq_map, List.mem_map] at h
  obtain ⟨c, hc, rfl⟩ := h
  have hd := Nat.isDigit_of_mem_toDigits (by decide) (by decide) hc
  have := toNat_of_isDigit hd
  rw [IStream.isDigit, decide_eq_true_iff, UInt8.le_iff_toNat_le, UInt8.le_iff_toNat_le,
    toNat_ofNat_of_isDigit hd]
  exact this

theorem digitsValue_decimal (n : ℕ) : IStream.digitsValue (decimal n) = n := by
  have key : ∀ (s : List Char) (k : ℕ), (∀ c ∈ s, c.isDigit) →
      (s.map fun c => UInt8.ofNat c.toNat).foldl (fun n d => 10 * n + (d.toNat - 48)) k =
        Nat.ofDigitChars 10 s k := by
    intro s
    induction s with
    | nil => intro k _; rfl
    | cons c s ih =>
        intro k h
        rw [List.forall_mem_cons] at h
        rw [List.map_cons, List.foldl_cons, ih _ h.2, toNat_ofNat_of_isDigit h.1,
          Nat.ofDigitChars_cons]
        rfl
  rw [IStream.digitsValue, decimal_eq_map,
    key _ 0 fun c hc => Nat.isDigit_of_mem_toDigits (by decide) (by decide) hc,
    Nat.ofDigitChars_ten_toDigits]

namespace IStream

/-! ### Reading back what was written -/

theorem takeWhile_decimal_append (n : ℕ) {r : List UInt8} (hr : ∀ c ∈ r.head?, isDigit c = false) :
    (decimal n ++ r).takeWhile isDigit = decimal n ∧ (decimal n ++ r).dropWhile isDigit = r := by
  have hall : ∀ b ∈ decimal n, isDigit b = true := fun b hb => isDigit_of_mem_decimal hb
  rw [List.takeWhile_append_of_pos hall, List.dropWhile_append_of_pos hall]
  cases r with
  | nil => simp
  | cons c r =>
      have hc : isDigit c = false := hr c rfl
      simp [hc]

/-- A good stream that begins with something else than white space. -/
theorem skipWs_ofBytes {c : UInt8} (hc : isSpace c = false) (r : List UInt8) :
    (ofBytes (c :: r)).skipWs = ofBytes (c :: r) := by
  simp [skipWs, ofBytes, good, hc]

/-- White space before it is skipped. -/
theorem skipWs_ofBytes_append {ws : List UInt8} (hws : ∀ b ∈ ws, isSpace b = true) {c : UInt8}
    (hc : isSpace c = false) (r : List UInt8) :
    (ofBytes (ws ++ c :: r)).skipWs = ofBytes (c :: r) := by
  have hd : (ws ++ c :: r).dropWhile isSpace = c :: r := by
    rw [List.dropWhile_append_of_pos hws, List.dropWhile_cons_of_neg (by simp [hc])]
  simp [skipWs, ofBytes, good, hd]

theorem skipWs_ofBytes_blank {c : UInt8} (hc : isSpace c = false) (r : List UInt8) :
    (ofBytes (32 :: c :: r)).skipWs = ofBytes (c :: r) := by
  have hb : ∀ b ∈ [(32 : UInt8)], isSpace b = true := List.all_eq_true.1 (by decide)
  exact skipWs_ofBytes_append hb hc r

theorem readChar_append {ws : List UInt8} (hws : ∀ b ∈ ws, isSpace b = true) {c : UInt8}
    (hc : isSpace c = false) (r : List UInt8) :
    (ofBytes (ws ++ c :: r)).readChar = some (c, ofBytes r) := by
  rw [readChar, skipWs_ofBytes_append hws hc]
  rfl

theorem readChar_blank {c : UInt8} (hc : isSpace c = false) (r : List UInt8) :
    (ofBytes (32 :: c :: r)).readChar = some (c, ofBytes r) := by
  have hb : ∀ b ∈ [(32 : UInt8)], isSpace b = true := List.all_eq_true.1 (by decide)
  exact readChar_append hb hc r

theorem readChar_cons {c : UInt8} (hc : isSpace c = false) (r : List UInt8) :
    (ofBytes (c :: r)).readChar = some (c, ofBytes r) := by
  have hb : ∀ b ∈ ([] : List UInt8), isSpace b = true := by simp
  exact readChar_append hb hc r

theorem isSpace_of_isDigit {b : UInt8} (h : isDigit b = true) : isSpace b = false := by
  rw [isDigit, decide_eq_true_iff, UInt8.le_iff_toNat_le, UInt8.le_iff_toNat_le] at h
  rw [isSpace, decide_eq_false_iff_not, not_or, not_and, UInt8.le_iff_toNat_le,
    UInt8.le_iff_toNat_le, ← UInt8.toNat_inj]
  simp only [UInt8.reduceToNat] at h ⊢
  omega

theorem readSign_of_isDigit {b : UInt8} (h : isDigit b = true) (r : List UInt8) :
    readSign (b :: r) = (false, b :: r) := by
  have h₁ : b ≠ 45 := by
    rintro rfl
    exact absurd h (by decide)
  have h₂ : b ≠ 43 := by
    rintro rfl
    exact absurd h (by decide)
  rw [readSign, if_neg h₁, if_neg h₂]

/-- A number is read back from a stream that stands before it. -/
theorem readNumber_decimal {s : IStream} {n : ℕ} {r : List UInt8}
    (hr : ∀ c ∈ r.head?, isDigit c = false) (hs : s.skipWs = ofBytes (decimal n ++ r)) :
    s.readNumber = some (false, n, { ofBytes r with eof := decide (r = []) }) := by
  obtain ⟨h₁, h₂⟩ := takeWhile_decimal_append n hr
  have hsign : readSign (decimal n ++ r) = (false, decimal n ++ r) := by
    obtain ⟨b, ds, hd⟩ := List.exists_cons_of_ne_nil (decimal_ne_nil n)
    have hb : isDigit b = true := isDigit_of_mem_decimal (hd ▸ List.mem_cons_self)
    rw [hd, List.cons_append, readSign_of_isDigit hb]
  have hrest : s.skipWs.rest = decimal n ++ r := by rw [hs]; rfl
  rw [readNumber, hrest, hsign, if_pos (by rw [hs]; rfl)]
  simp only [h₁, h₂, digitsValue_decimal, if_neg (decimal_ne_nil n), hs]
  rfl

/-- A negative number is read back. -/
theorem readNumber_neg_decimal {s : IStream} {n : ℕ} {r : List UInt8}
    (hr : ∀ c ∈ r.head?, isDigit c = false) (hs : s.skipWs = ofBytes (45 :: decimal n ++ r)) :
    s.readNumber = some (true, n, { ofBytes r with eof := decide (r = []) }) := by
  obtain ⟨h₁, h₂⟩ := takeWhile_decimal_append n hr
  have hrest : s.skipWs.rest = 45 :: (decimal n ++ r) := by rw [hs]; rfl
  have hsign : readSign (45 :: (decimal n ++ r)) = (true, decimal n ++ r) := by
    rw [readSign, if_pos rfl]
  rw [readNumber, hrest, hsign, if_pos (by rw [hs]; rfl)]
  simp only [h₁, h₂, digitsValue_decimal, if_neg (decimal_ne_nil n), hs]
  rfl

/-- **`>>` reads back what `<<` wrote**, for a `size_t` behind a blank. -/
theorem readSize_decimal {n : ℕ} (hn : n < 2 ^ 64) {c : UInt8} (hc : isDigit c = false)
    (r : List UInt8) :
    (ofBytes (32 :: (decimal n ++ c :: r))).readSize = some (n, ofBytes (c :: r)) := by
  have hs : (ofBytes (32 :: (decimal n ++ c :: r))).skipWs = ofBytes (decimal n ++ c :: r) := by
    obtain ⟨b, ds, hd⟩ := List.exists_cons_of_ne_nil (decimal_ne_nil n)
    have hb : isDigit b = true := isDigit_of_mem_decimal (hd ▸ List.mem_cons_self)
    rw [hd, List.cons_append, skipWs_ofBytes_blank (isSpace_of_isDigit hb)]
  rw [readSize, readNumber_decimal (by simpa using hc) hs]
  simpa [ofBytes] using hn

/-- The same for an `int` at the front. -/
theorem readInt_decimalInt (x : Int32) {c : UInt8} (hc : isDigit c = false) (r : List UInt8) :
    (ofBytes (decimalInt x ++ c :: r)).readInt = some (x, ofBytes (c :: r)) := by
  have hr : ∀ d ∈ (c :: r).head?, isDigit d = false := by simpa using hc
  have hlo := x.le_toInt
  have hhi := x.toInt_lt
  obtain ⟨b, ds, hd⟩ := List.exists_cons_of_ne_nil (decimal_ne_nil x.toInt.natAbs)
  have hb : isDigit b = true := isDigit_of_mem_decimal (hd ▸ List.mem_cons_self)
  unfold decimalInt
  split_ifs with hx
  · have hs : (ofBytes (45 :: decimal x.toInt.natAbs ++ c :: r)).skipWs =
        ofBytes (45 :: decimal x.toInt.natAbs ++ c :: r) := skipWs_ofBytes (by decide) _
    have habs : -(x.toInt.natAbs : ℤ) = x.toInt := by omega
    rw [readInt, readNumber_neg_decimal hr hs]
    simp only [if_true, habs]
    rw [if_pos ⟨hlo, hhi⟩, Int32.ofInt_toInt]
    simp [ofBytes]
  · have hs : (ofBytes (decimal x.toInt.natAbs ++ c :: r)).skipWs =
        ofBytes (decimal x.toInt.natAbs ++ c :: r) := by
      rw [hd, List.cons_append, skipWs_ofBytes (isSpace_of_isDigit hb)]
    have habs : (x.toInt.natAbs : ℤ) = x.toInt := by omega
    rw [readInt, readNumber_decimal hr hs]
    simp only [Bool.false_eq_true, if_false, habs]
    rw [if_pos ⟨hlo, hhi⟩, Int32.ofInt_toInt]
    simp [ofBytes]

/-- Raw bytes are taken as they stand. -/
theorem read_append (s r : List UInt8) : (ofBytes (s ++ r)).read s.length = (s, ofBytes r) := by
  simp [read, ofBytes, good]

/-! ### What a read leaves -/

/-- A read that takes its bytes from the front of the stream. -/
def Consumes {α : Type} (r : IStream → Option (α × IStream)) : Prop :=
  ∀ s a t, r s = some (a, t) → t.rest <:+ s.rest

theorem Consumes.bind {α β : Type} {r : IStream → Option (α × IStream)}
    {f : α → IStream → Option (β × IStream)} (hr : Consumes r) (hf : ∀ a, Consumes (f a)) :
    Consumes fun s => (r s).bind fun p => f p.1 p.2 := by
  intro s b t h
  obtain ⟨⟨a, u⟩, hu, ht⟩ := Option.bind_eq_some_iff.1 h
  exact (hf a u b t ht).trans (hr s a u hu)

theorem skipWs_suffix (s : IStream) : s.skipWs.rest <:+ s.rest := by
  unfold skipWs
  split_ifs
  · exact List.nil_suffix
  · exact List.dropWhile_suffix _
  · exact List.suffix_rfl

theorem readSign_suffix (s : List UInt8) : (readSign s).2 <:+ s := by
  rcases s with _ | ⟨c, s⟩
  · exact List.suffix_rfl
  · rw [readSign]
    split_ifs
    · exact List.suffix_cons c s
    · exact List.suffix_cons c s
    · exact List.suffix_rfl

theorem consumes_readChar : Consumes readChar := by
  intro s c t h
  unfold readChar at h
  split_ifs at h
  split at h
  next => cases h
  next r hr =>
    obtain ⟨rfl, rfl⟩ := Prod.mk.inj (Option.some.inj h)
    exact (List.suffix_cons _ r).trans (hr ▸ skipWs_suffix s)

/-- A number leaves a part of the stream, which has not failed and is at its end
when nothing is left. -/
theorem readNumber_spec {s t : IStream} {neg : Bool} {n : ℕ}
    (h : s.readNumber = some (neg, n, t)) :
    t.rest <:+ s.rest ∧ t.fail = false ∧ t.eof = decide (t.rest = []) := by
  unfold readNumber at h
  split_ifs at h with hgood
  obtain ⟨-, h⟩ := Prod.mk.inj (Option.some.inj h)
  obtain ⟨-, rfl⟩ := Prod.mk.inj h
  have hfail : s.skipWs.fail = false := by
    have := Bool.and_eq_true_iff.1 hgood
    simpa using this.2
  exact ⟨((List.dropWhile_suffix _).trans (readSign_suffix _)).trans (skipWs_suffix s), hfail, rfl⟩

theorem readSize_spec {s t : IStream} {n : ℕ} (h : s.readSize = some (n, t)) :
    t.rest <:+ s.rest ∧ t.fail = false ∧ t.eof = decide (t.rest = []) := by
  unfold readSize at h
  split at h
  next => cases h
  next hn =>
    split_ifs at h
    all_goals
      obtain ⟨-, rfl⟩ := Prod.mk.inj (Option.some.inj h)
      exact readNumber_spec hn

/-- **What `>>` makes of the number at the front**: a negative one wraps around. -/
theorem readSize_declared {s t : IStream} {n : ℕ} (h : s.readSize = some (n, t)) :
    (0 ≤ s.declared ∧ s.declared = n) ∨ s.declared < 0 := by
  unfold readSize at h
  unfold declared
  split at h
  next => cases h
  next neg m u _ =>
    split_ifs at h ⊢
    · by_cases hzero : m = 0
      · subst hzero
        obtain ⟨rfl, -⟩ := Prod.mk.inj (Option.some.inj h)
        exact .inl ⟨by simp, by simp⟩
      · exact .inr (by omega)
    · obtain ⟨rfl, -⟩ := Prod.mk.inj (Option.some.inj h)
      exact .inl ⟨Int.natCast_nonneg _, rfl⟩

theorem consumes_readSize : Consumes readSize := fun _ _ _ h => (readSize_spec h).1

theorem consumes_readInt : Consumes readInt := by
  intro s x t h
  unfold readInt at h
  split at h
  next => cases h
  next hn =>
    split_ifs at h
    all_goals
      obtain ⟨-, rfl⟩ := Prod.mk.inj (Option.some.inj h)
      exact (readNumber_spec hn).1

/-- A stream from which raw bytes can be taken as long as there are any. -/
def Raw (s : IStream) : Prop := s.good = true ∨ s.rest = []

/-- A stream is raw behind a number. -/
theorem raw_readSize {s t : IStream} {n : ℕ} (h : s.readSize = some (n, t)) : t.Raw := by
  obtain ⟨-, hfail, heof⟩ := readSize_spec h
  by_cases hr : t.rest = []
  · exact .inr hr
  · exact .inl (by simp [good, hfail, heof, hr])

/-- **A raw read takes what there is**, at most as much as it was asked for. -/
theorem Raw.read {s : IStream} (h : s.Raw) (n : ℕ) :
    (s.read n).1 = s.rest.take n ∧ (s.read n).2.rest = s.rest.drop n ∧ (s.read n).2.Raw := by
  unfold IStream.read
  split_ifs with hgood hlt
  · have hle : s.rest.length ≤ n := Nat.le_of_lt hlt
    rw [List.take_of_length_le hle, List.drop_of_length_le hle]
    exact ⟨rfl, rfl, .inr rfl⟩
  · exact ⟨rfl, rfl, .inl hgood⟩
  · have hr : s.rest = [] := h.resolve_left hgood
    exact ⟨by simp [hr], by simp [hr], .inr hr⟩

end IStream
end WorkerNg
