/-
# UUIDs as text

Server and clients are named by Boost UUIDs, which the messages carry as text.
Boost is not part of the repository, so its two operators are a parameter,
`UuidText`, with what the code relies on: the text is made of letters, digits
and dashes, `>>` reads back what `<<` wrote, white space before it skipped, and
it fails at the end of the stream.

`hexText` is such a pair of operators: 32 lower case hexadecimal digits in
groups of 8, 4, 4, 4 and 12, read back digit by digit.
-/

import WorkerNg.Lib.Stream
import WorkerNg.Work.Parser

namespace WorkerNg
namespace Wire

/-- The operators `<<` and `>>` of a type of UUIDs. -/
structure UuidText (Uuid : Type) where
  put : Uuid → Text
  get : IStream → Option (Uuid × IStream)
  put_ne_nil : ∀ u, put u ≠ []
  put_chars : ∀ u, ∀ c ∈ put u, c.isAlphanum ∨ c = '-'
  get_nil : get (IStream.ofBytes []) = none
  get_put : ∀ u (ws r : Bytes), (∀ b ∈ ws, IStream.isSpace b = true) →
    get (IStream.ofBytes (ws ++ (utf8 (put u) ++ r))) = some (u, IStream.ofBytes r)

/-! ### Hexadecimal text -/

/-- A UUID of 16 bytes. -/
structure Uuid16 where
  bytes : List UInt8
  length_eq : bytes.length = 16
deriving DecidableEq

/-- A hexadecimal digit. -/
def hexChar (n : ℕ) : Char := "0123456789abcdef".toList.getD n '0'

/-- The value of a hexadecimal digit, in lower or upper case. -/
def hexValue (b : UInt8) : Option ℕ :=
  if 48 ≤ b ∧ b ≤ 57 then some (b.toNat - 48)
  else if 97 ≤ b ∧ b ≤ 102 then some (b.toNat - 87)
  else if 65 ≤ b ∧ b ≤ 70 then some (b.toNat - 55)
  else none

/-- Whether a dash follows the byte at place `i`. -/
def dashAfter (i : ℕ) : Bool := [3, 5, 7, 9].contains i

/-- The text of the bytes from place `i` on. -/
def putBytes : ℕ → List UInt8 → Text
  | _, [] => []
  | i, b :: bs =>
      hexChar (b.toNat / 16) :: hexChar (b.toNat % 16) ::
        ((if dashAfter i then ['-'] else []) ++ putBytes (i + 1) bs)

/-- One byte and the dash behind it, if there is to be one. -/
def getByte (i : ℕ) (s : IStream) : Option (UInt8 × IStream) := do
  let (c, s) ← s.readChar
  let hi ← hexValue c
  let (c, s) ← s.readChar
  let lo ← hexValue c
  if dashAfter i then
    let (c, s) ← s.readChar
    if c = 45 then some (UInt8.ofNat (16 * hi + lo), s) else none
  else some (UInt8.ofNat (16 * hi + lo), s)

/-- The next `n` bytes, the first of them at place `i`. -/
def getBytes : ℕ → ℕ → IStream → Option (List UInt8 × IStream)
  | 0, _, s => some ([], s)
  | n + 1, i, s => do
      let (b, s) ← getByte i s
      let (bs, s) ← getBytes n (i + 1) s
      some (b :: bs, s)

theorem hexChar_spec : ∀ n < 16, (hexChar n).toNat < 128 ∧
    hexValue (UInt8.ofNat (hexChar n).toNat) = some n ∧
    IStream.isSpace (UInt8.ofNat (hexChar n).toNat) = false ∧ (hexChar n).isAlphanum := by
  decide

theorem utf8_hexChar {n : ℕ} (hn : n < 16) (s : Text) :
    utf8 (hexChar n :: s) = UInt8.ofNat (hexChar n).toNat :: utf8 s := by
  have h : utf8 [hexChar n] = [UInt8.ofNat (hexChar n).toNat] :=
    utf8_of_ascii (by simpa using (hexChar_spec n hn).1)
  have happ := utf8_append [hexChar n] s
  rw [h] at happ
  exact happ

theorem getByte_putBytes (i : ℕ) (b : UInt8) (bs : List UInt8) {ws : Bytes}
    (hws : ∀ b ∈ ws, IStream.isSpace b = true) (r : Bytes) :
    getByte i (IStream.ofBytes (ws ++ (utf8 (putBytes i (b :: bs)) ++ r))) =
      some (b, IStream.ofBytes (utf8 (putBytes (i + 1) bs) ++ r)) := by
  have hhi : b.toNat / 16 < 16 := by have := b.toNat_lt; omega
  have hlo : b.toNat % 16 < 16 := by omega
  obtain ⟨-, hv₁, hs₁, -⟩ := hexChar_spec _ hhi
  obtain ⟨-, hv₂, hs₂, -⟩ := hexChar_spec _ hlo
  have hb : UInt8.ofNat (16 * (b.toNat / 16) + b.toNat % 16) = b := by
    rw [Nat.div_add_mod, UInt8.ofNat_toNat]
  rw [putBytes, utf8_hexChar hhi, utf8_hexChar hlo, getByte, List.cons_append, List.cons_append,
    IStream.readChar_append hws hs₁]
  simp only [Option.bind_eq_bind, Option.bind_some, hv₁, IStream.readChar_cons hs₂, hv₂, hb]
  split_ifs with hd
  · have hdash : utf8 ('-' :: putBytes (i + 1) bs) = 45 :: utf8 (putBytes (i + 1) bs) := rfl
    rw [List.singleton_append, hdash, List.cons_append,
      IStream.readChar_cons (by decide)]
    rfl
  · rfl

/-- The bytes are read back from their text. -/
theorem getBytes_putBytes (i : ℕ) (bs : List UInt8) {ws : Bytes}
    (hws : ∀ b ∈ ws, IStream.isSpace b = true) (hbs : bs ≠ []) (r : Bytes) :
    getBytes bs.length i (IStream.ofBytes (ws ++ (utf8 (putBytes i bs) ++ r))) =
      some (bs, IStream.ofBytes r) := by
  induction bs generalizing i ws with
  | nil => exact absurd rfl hbs
  | cons b bs ih =>
      rw [List.length_cons, getBytes, getByte_putBytes i b bs hws]
      cases bs with
      | nil => rfl
      | cons c bs =>
          have hnil : ∀ b ∈ ([] : Bytes), IStream.isSpace b = true := by simp
          have h := ih (i + 1) hnil (List.cons_ne_nil c bs)
          rw [List.nil_append] at h
          simp only [Option.bind_eq_bind, Option.bind_some, h]

theorem putBytes_chars (i : ℕ) (bs : List UInt8) :
    ∀ c ∈ putBytes i bs, c.isAlphanum ∨ c = '-' := by
  induction bs generalizing i with
  | nil => simp [putBytes]
  | cons b bs ih =>
      have hhi : b.toNat / 16 < 16 := by have := b.toNat_lt; omega
      have hlo : b.toNat % 16 < 16 := by omega
      intro c hc
      rw [putBytes, List.mem_cons, List.mem_cons, List.mem_append] at hc
      rcases hc with rfl | rfl | hc | hc
      · exact Or.inl (hexChar_spec _ hhi).2.2.2
      · exact Or.inl (hexChar_spec _ hlo).2.2.2
      · split_ifs at hc
        · exact Or.inr (List.mem_singleton.1 hc)
        · exact absurd hc List.not_mem_nil
      · exact ih (i + 1) c hc

/-- **Boost's hexadecimal text.** -/
def hexText : UuidText Uuid16 where
  put u := putBytes 0 u.bytes
  get s :=
    match getBytes 16 0 s with
    | some (bs, s) => if h : bs.length = 16 then some (⟨bs, h⟩, s) else none
    | none => none
  put_ne_nil u h := by
    have hne : u.bytes ≠ [] := fun h₀ => by have := u.length_eq; simp [h₀] at this
    obtain ⟨b, bs, hb⟩ := List.exists_cons_of_ne_nil hne
    rw [hb, putBytes] at h
    exact List.cons_ne_nil _ _ h
  put_chars u := putBytes_chars 0 u.bytes
  get_nil := rfl
  get_put u ws r hws := by
    have hne : u.bytes ≠ [] := fun h₀ => by have := u.length_eq; simp [h₀] at this
    have h := getBytes_putBytes 0 u.bytes hws hne r
    rw [u.length_eq] at h
    rw [h]
    simp [u.length_eq]

/-- The UUID whose bytes are all `b`. -/
def Uuid16.filled (b : UInt8) : Uuid16 := ⟨List.replicate 16 b, List.length_replicate⟩

/-! ### What `>>` takes -/

theorem consumes_getByte (i : ℕ) : IStream.Consumes (getByte i) := by
  intro s b t h
  simp only [getByte, Option.bind_eq_bind, Option.bind_eq_some_iff, Prod.exists] at h
  obtain ⟨c, s₁, h₁, hi, -, d, s₂, h₂, lo, -, h⟩ := h
  have h₁₂ : s₂.rest <:+ s.rest :=
    (IStream.consumes_readChar s₁ d s₂ h₂).trans (IStream.consumes_readChar s c s₁ h₁)
  split_ifs at h
  · simp only [Option.bind_eq_some_iff, Prod.exists] at h
    obtain ⟨e, s₃, h₃, h⟩ := h
    split_ifs at h
    obtain ⟨-, rfl⟩ := Prod.mk.inj (Option.some.inj h)
    exact (IStream.consumes_readChar s₂ e s₃ h₃).trans h₁₂
  · obtain ⟨-, rfl⟩ := Prod.mk.inj (Option.some.inj h)
    exact h₁₂

theorem consumes_getBytes (n i : ℕ) : IStream.Consumes (getBytes n i) := by
  induction n generalizing i with
  | zero =>
      intro s bs t h
      obtain ⟨-, rfl⟩ := Prod.mk.inj (Option.some.inj h)
      exact List.suffix_rfl
  | succ n ih =>
      intro s bs t h
      simp only [getBytes, Option.bind_eq_bind, Option.bind_eq_some_iff, Prod.exists] at h
      obtain ⟨b, s₁, h₁, bs', s₂, h₂, h⟩ := h
      obtain ⟨-, rfl⟩ := Prod.mk.inj (Option.some.inj h)
      exact (ih (i + 1) s₁ bs' s₂ h₂).trans (consumes_getByte i s b s₁ h₁)

/-- Boost's hexadecimal text is taken from the front. -/
theorem consumes_hexText : IStream.Consumes hexText.get := by
  intro s u t h
  simp only [hexText] at h
  split at h
  next bs s₁ hbs =>
    split_ifs at h
    obtain ⟨-, rfl⟩ := Prod.mk.inj (Option.some.inj h)
    exact consumes_getBytes 16 0 s bs s₁ hbs
  next => cases h

end Wire
end WorkerNg
