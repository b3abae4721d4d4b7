/-
# What the decoders make of malformed input

`Message_builder::build` and the constructor of `Result` check their formatted
reads, but not the raw reads behind them, and they take any character for a
subject.  Both decoders are cut here where their numbers end (`readHeader`,
`readSizes`), and the raw reads are reduced to the bytes that stand there
(`overwrite_taken`): a text cut short is filled up with NULs.

What the input declares is the number that stands in it, with its sign
(`IStream.declared`); the decoders read a negative one as what is left of it modulo
`2 ^ 64` (`IStream.readSize_declared`).  So the bytes are those of the input, as many
as it declares, exactly if there are enough of them and the number is not negative
(`taken_overwrite_iff`), and no other exception is thrown exactly if the sizes are
sizes of a string.
-/

import WorkerNg.Wire.Result

namespace WorkerNg
namespace Wire

/-! ### Raw bytes -/

/-- The `n` bytes that stand `k` bytes behind the front. -/
structure Taken (behind : Bytes) (k : ℕ) (n : ℤ) (bytes : Bytes) : Prop where
  eq : bytes = (behind.drop k).take n.toNat
  length : bytes.length = n

/-- There are `n` bytes behind the first `k`, as far as `n` asks for any. -/
def Holds (behind : Bytes) (k : ℕ) (n : ℤ) : Prop := 0 ≤ n ∧ (n = 0 ∨ k + n ≤ behind.length)

instance (behind : Bytes) (k : ℕ) (n : ℤ) : Decidable (Holds behind k n) :=
  inferInstanceAs (Decidable (_ ∧ _))

/-- Bytes that are too few are filled up with NULs. -/
theorem overwrite_taken (behind : Bytes) (k n : ℕ) :
    overwrite (List.replicate n 0) ((behind.drop k).take n) =
      (behind.drop k).take n ++ List.replicate (n - (behind.length - k)) 0 := by
  rw [overwrite, List.drop_replicate, List.length_take, List.length_drop]
  congr 2
  omega

/-- **Bytes that were read are those that the input declares exactly if the input has
enough of them.**  `declared` is the number in the input and `n` what was read of it. -/
theorem taken_overwrite_iff (behind : Bytes) (k : ℕ) {n : ℕ} {declared : ℤ}
    (hn : (0 ≤ declared ∧ declared = n) ∨ declared < 0) :
    Taken behind k declared (overwrite (List.replicate n 0) ((behind.drop k).take n)) ↔
      Holds behind k declared := by
  rcases hn with ⟨-, rfl⟩ | hneg
  · have hlen : ((behind.drop k).take n).length = min n (behind.length - k) := by
      rw [List.length_take, List.length_drop]
    rw [overwrite_taken]
    unfold Holds
    constructor
    · rintro ⟨heq, -⟩
      have hpad := List.append_right_eq_self.1 heq
      have hle : n - (behind.length - k) = 0 := by simpa using hpad
      omega
    · intro h
      have hle : n - (behind.length - k) = 0 := by omega
      rw [hle, List.replicate_zero, List.append_nil]
      exact ⟨rfl, by rw [hlen]; omega⟩
  · refine iff_of_false (fun h => ?_) fun h => absurd hneg (Int.not_lt.2 h.1)
    have hlen := h.length
    omega

theorem resize_of_lt {n : ℕ} (h : ¬ n ≤ maxSize) : resize n = .error .lengthError := if_neg h

/-! ### Checked reads -/

section Checked

variable {α β : Type} {e e' : Exn} {o : Option α} {f : α → Except Exn β} {b : β}

/-- A checked read and what follows it return when both do. -/
theorem orThrow_bind_eq_ok :
    (orThrow e o >>= f) = .ok b ↔ ∃ a, o = some a ∧ f a = .ok b := by
  cases o with
  | none => exact iff_of_false nofun nofun
  | some a => simp [orThrow_some, bind, Except.bind]

/-- Nothing but exceptions of a kind is thrown. -/
def ThrowsOnly (P : Exn → Prop) (x : Except Exn α) : Prop := ∀ e, x = .error e → P e

theorem throwsOnly_pure {P : Exn → Prop} (a : α) : ThrowsOnly P (pure a) := nofun

theorem throwsOnly_bind {P : Exn → Prop} (he : P e) (hf : ∀ a, ThrowsOnly P (f a)) :
    ThrowsOnly P (orThrow e o >>= f) := by
  intro e' h
  cases o with
  | none => exact Except.error.inj h ▸ he
  | some a => exact hf a e' h

end Checked

/-! ### Messages -/

variable {Uuid : Type}

/-- What stands before the content of a message: `length` as it was read, and the number
in the input. -/
structure Header (Uuid : Type) where
  from_ : Uuid
  to_ : Uuid
  subject : Subject
  id : ℕ
  length : ℕ
  declared : ℤ

/-- The formatted reads of `Message_builder::build`. -/
def readHeader (io : UuidText Uuid) (str : Bytes) : Except Exn (Header Uuid × IStream) := do
  let input := IStream.ofBytes str
  let (from_, input) ← orThrow (.messageParse "can't read origin UUID") (io.get input)
  let (to_, input) ← orThrow (.messageParse "can't read destination UUID") (io.get input)
  let (buffer, input) ← orThrow (.messageParse "can't read subject") input.readChar
  let (id, input) ← orThrow (.messageParse "can't read id") input.readSize
  let declared := input.declared
  let (length, input) ← orThrow (.messageParse "can't read length") input.readSize
  return (⟨from_, to_, Subject.ofChar buffer, id, length, declared⟩, input)

/-- `message_parse_exception`. -/
def Exn.IsMessageParse (e : Exn) : Prop := ∃ what, e = .messageParse what

section Message

variable {io : UuidText Uuid} {str : Bytes} {header : Header Uuid} {input : IStream}

/-- A header that can not be read is a parse error. -/
theorem throwsOnly_readHeader (io : UuidText Uuid) (str : Bytes) :
    ThrowsOnly Exn.IsMessageParse (readHeader io str) :=
  throwsOnly_bind ⟨_, rfl⟩ fun _ => throwsOnly_bind ⟨_, rfl⟩ fun _ =>
    throwsOnly_bind ⟨_, rfl⟩ fun _ => throwsOnly_bind ⟨_, rfl⟩ fun _ =>
      throwsOnly_bind ⟨_, rfl⟩ fun _ => throwsOnly_pure _

/-- A header is taken from the front, with its length as it was read. -/
theorem readHeader_ok (hio : IStream.Consumes io.get)
    (h : readHeader io str = .ok (header, input)) : input.rest <:+ str ∧
      ((0 ≤ header.declared ∧ header.declared = header.length) ∨ header.declared < 0) := by
  simp only [readHeader, orThrow_bind_eq_ok, Prod.exists] at h
  obtain ⟨from_, s₁, h₁, to_, s₂, h₂, buffer, s₃, h₃, id, s₄, h₄, length, s₅, h₅, h⟩ := h
  obtain ⟨rfl, rfl⟩ := Prod.mk.inj (Except.ok.inj h)
  refine ⟨?_, IStream.readSize_declared h₅⟩
  have h₅₄ : s₅.rest <:+ s₄.rest := IStream.consumes_readSize _ _ _ h₅
  have h₄₃ : s₄.rest <:+ s₃.rest := IStream.consumes_readSize _ _ _ h₄
  have h₃₂ : s₃.rest <:+ s₂.rest := IStream.consumes_readChar _ _ _ h₃
  have h₂₁ : s₂.rest <:+ s₁.rest := hio _ _ _ h₂
  have h₁₀ : s₁.rest <:+ str := hio _ _ _ h₁
  exact h₅₄.trans (h₄₃.trans (h₃₂.trans (h₂₁.trans h₁₀)))

/-- **Behind the header the decoder takes whatever there is**: the content is
what stands behind the separator, filled up to the length of the header, and no
read is checked any more. -/
theorem buildStr_eq (io : UuidText Uuid) (b : MessageBuilder Uuid) (str : Bytes) :
    b.buildStr io str = (readHeader io str).bind fun (header, input) =>
      (resize header.length).map fun content =>
        ⟨header.from_, header.to_, header.subject, header.id,
          overwrite content ((input.rest.drop 1).take header.length)⟩ := by
  unfold MessageBuilder.buildStr readHeader
  dsimp only
  rcases io.get (IStream.ofBytes str) with _ | ⟨from_, s₁⟩
  · rfl
  simp only [orThrow_some, bind, Except.bind]
  rcases io.get s₁ with _ | ⟨to_, s₂⟩
  · rfl
  simp only [orThrow_some]
  rcases s₂.readChar with _ | ⟨buffer, s₃⟩
  · rfl
  simp only [orThrow_some]
  rcases s₃.readSize with _ | ⟨id, s₄⟩
  · rfl
  simp only [orThrow_some]
  rcases h₅ : s₄.readSize with _ | ⟨length, s₅⟩
  · rfl
  simp only [orThrow_some, pure, Except.pure]
  obtain ⟨-, hrest, hraw⟩ := (IStream.raw_readSize h₅).read 1
  obtain ⟨hread, -, -⟩ := hraw.read length
  rw [hrest] at hread
  split_ifs with hpos
  · rw [hread]
    cases resize length <;> rfl
  · obtain rfl : length = 0 := by omega
    rfl

/-- **A decoder's answer that fabricates nothing**: a message with a declared
subject whose content is bytes of the input, as many as the number in its header says,
behind it and the separator, or else a parse error. -/
def GenuineMessage (io : UuidText Uuid) (str : Bytes) : Except Exn (Message Uuid) → Prop
  | .ok msg => msg.subject.Declared ∧ ∃ header input, readHeader io str = .ok (header, input) ∧
      input.rest <:+ str ∧ Taken input.rest 1 header.declared msg.content
  | .error e => e.IsMessageParse

/-- Input that has no header, or one with a declared subject and a length that is not
negative, with as many bytes behind it, no more than a string can hold. -/
def IntactMessage (io : UuidText Uuid) (str : Bytes) : Prop :=
  ∀ header input, readHeader io str = .ok (header, input) →
    header.subject.Declared ∧ Holds input.rest 1 header.declared ∧ header.declared ≤ maxSize

theorem genuineMessage_iff (hio : IStream.Consumes io.get) (b : MessageBuilder Uuid)
    (str : Bytes) : GenuineMessage io str (b.buildStr io str) ↔ IntactMessage io str := by
  rw [buildStr_eq]
  unfold IntactMessage
  rcases h : readHeader io str with e | ⟨header, input⟩
  · have he : e.IsMessageParse := throwsOnly_readHeader io str e h
    exact iff_of_true he nofun
  obtain ⟨hsuffix, hdeclared⟩ := readHeader_ok hio h
  by_cases hle : header.length ≤ maxSize
  · simp only [Except.bind, resize_of_le hle, Except.map, GenuineMessage, h]
    constructor
    · rintro ⟨hsubject, header', input', heq, -, htaken⟩ header'' input'' heq'
      cases heq
      cases heq'
      have hholds := (taken_overwrite_iff _ _ hdeclared).1 htaken
      have hnonneg := hholds.1
      exact ⟨hsubject, hholds, by omega⟩
    · intro hintact
      obtain ⟨hsubject, hholds, -⟩ := hintact header input rfl
      exact ⟨hsubject, header, input, rfl, hsuffix, (taken_overwrite_iff _ _ hdeclared).2 hholds⟩
  · refine iff_of_false ?_ fun hintact => ?_
    · simp only [Except.bind, resize_of_lt hle, Except.map, GenuineMessage]
      exact nofun
    · obtain ⟨-, hholds, hmax⟩ := hintact header input rfl
      have hnonneg := hholds.1
      omega

end Message

/-! ### Results -/

/-- The exit status and the sizes of the two texts, as they were read and as they stand in
the input. -/
structure Sizes where
  exitStatus : Int32
  stdoutSize : ℕ
  stderrSize : ℕ
  stdoutDeclared : ℤ
  stderrDeclared : ℤ

/-- The formatted reads of the constructor of `Result`. -/
def readSizes (str : Bytes) : Except Exn (Sizes × IStream) := do
  let sstr := IStream.ofBytes str
  let (exitStatus, sstr) ← orThrow (.resultParse "can't read exit status") sstr.readInt
  let stdoutDeclared := sstr.declared
  let (stdoutSize, sstr) ← orThrow (.resultParse "can't read stdout size") sstr.readSize
  let stderrDeclared := sstr.declared
  let (stderrSize, sstr) ← orThrow (.resultParse "can't read stderr size") sstr.readSize
  return (⟨exitStatus, stdoutSize, stderrSize, stdoutDeclared, stderrDeclared⟩, sstr)

/-- `result_parse_exception`. -/
def Exn.IsResultParse (e : Exn) : Prop := ∃ what, e = .resultParse what

section Result

variable {str : Bytes} {sizes : Sizes} {sstr : IStream}

/-- Sizes that can not be read are a parse error. -/
theorem throwsOnly_readSizes (str : Bytes) : ThrowsOnly Exn.IsResultParse (readSizes str) :=
  throwsOnly_bind ⟨_, rfl⟩ fun _ => throwsOnly_bind ⟨_, rfl⟩ fun _ =>
    throwsOnly_bind ⟨_, rfl⟩ fun _ => throwsOnly_pure _

/-- The sizes are taken from the front. -/
theorem readSizes_ok (h : readSizes str = .ok (sizes, sstr)) : sstr.rest <:+ str ∧
    ((0 ≤ sizes.stdoutDeclared ∧ sizes.stdoutDeclared = sizes.stdoutSize) ∨
      sizes.stdoutDeclared < 0) ∧
    ((0 ≤ sizes.stderrDeclared ∧ sizes.stderrDeclared = sizes.stderrSize) ∨
      sizes.stderrDeclared < 0) := by
  simp only [readSizes, orThrow_bind_eq_ok, Prod.exists] at h
  obtain ⟨status, s₁, h₁, n, s₂, h₂, m, s₃, h₃, h⟩ := h
  obtain ⟨rfl, rfl⟩ := Prod.mk.inj (Except.ok.inj h)
  refine ⟨?_, IStream.readSize_declared h₂, IStream.readSize_declared h₃⟩
  have h₃₂ : s₃.rest <:+ s₂.rest := IStream.consumes_readSize _ _ _ h₃
  have h₂₁ : s₂.rest <:+ s₁.rest := IStream.consumes_readSize _ _ _ h₂
  have h₁₀ : s₁.rest <:+ str := IStream.consumes_readInt _ _ _ h₁
  exact h₃₂.trans (h₂₁.trans h₁₀)

/-- **Behind the sizes the constructor takes whatever there is**: each text is
what stands behind its separator, filled up to its size. -/
theorem ofString_eq (str : Bytes) :
    Result.ofString str = (readSizes str).bind fun (sizes, sstr) =>
      (resize sizes.stdoutSize).bind fun stdout => (resize sizes.stderrSize).map fun stderr =>
        ⟨sizes.exitStatus, overwrite stdout ((sstr.rest.drop 1).take sizes.stdoutSize),
          overwrite stderr ((sstr.rest.drop (sizes.stdoutSize + 2)).take sizes.stderrSize)⟩ := by
  unfold Result.ofString readSizes
  dsimp only
  rcases (IStream.ofBytes str).readInt with _ | ⟨exitStatus, s₁⟩
  · rfl
  simp only [orThrow_some, bind, Except.bind]
  rcases s₁.readSize with _ | ⟨stdoutSize, s₂⟩
  · rfl
  simp only [orThrow_some]
  rcases h₃ : s₂.readSize with _ | ⟨stderrSize, s₃⟩
  · rfl
  simp only [orThrow_some, pure, Except.pure]
  obtain ⟨-, hrest₁, hraw₁⟩ := (IStream.raw_readSize h₃).read 1
  obtain ⟨hout, hrest₂, hraw₂⟩ := hraw₁.read stdoutSize
  obtain ⟨-, hrest₃, hraw₃⟩ := hraw₂.read 1
  obtain ⟨herr, -, -⟩ := hraw₃.read stderrSize
  have hdrop : 1 + (stdoutSize + 1) = stdoutSize + 2 := by omega
  rw [hrest₃, hrest₂, hrest₁, List.drop_drop, List.drop_drop, hdrop] at herr
  rw [hrest₁] at hout
  rw [hout, herr]
  cases resize stdoutSize <;> cases resize stderrSize <;> rfl

/-- A result that fabricates nothing: both texts are bytes of the input, as many
as the numbers in it say, each behind its separator, or else a parse error. -/
def GenuineResult (str : Bytes) : Except Exn Result → Prop
  | .ok result => ∃ sizes sstr, readSizes str = .ok (sizes, sstr) ∧ sstr.rest <:+ str ∧
      Taken sstr.rest 1 sizes.stdoutDeclared result.stdout ∧
      Taken sstr.rest (sizes.stdoutDeclared.toNat + 2) sizes.stderrDeclared result.stderr
  | .error e => e.IsResultParse

/-- Input that has no three numbers, or sizes that are not negative and as many bytes
behind them, in neither text more than a string can hold. -/
def IntactResult (str : Bytes) : Prop :=
  ∀ sizes sstr, readSizes str = .ok (sizes, sstr) →
    (Holds sstr.rest 1 sizes.stdoutDeclared ∧
      Holds sstr.rest (sizes.stdoutDeclared.toNat + 2) sizes.stderrDeclared) ∧
        sizes.stdoutDeclared ≤ maxSize ∧ sizes.stderrDeclared ≤ maxSize

/-- The texts are those that the numbers say exactly if there are enough bytes. -/
theorem taken_texts_iff (behind : Bytes) {n m : ℕ} {outDeclared errDeclared : ℤ}
    (hn : (0 ≤ outDeclared ∧ outDeclared = n) ∨ outDeclared < 0)
    (hm : (0 ≤ errDeclared ∧ errDeclared = m) ∨ errDeclared < 0) :
    (Taken behind 1 outDeclared (overwrite (List.replicate n 0) ((behind.drop 1).take n)) ∧
      Taken behind (outDeclared.toNat + 2) errDeclared
        (overwrite (List.replicate m 0) ((behind.drop (n + 2)).take m))) ↔
    Holds behind 1 outDeclared ∧ Holds behind (outDeclared.toNat + 2) errDeclared := by
  rw [taken_overwrite_iff behind 1 hn]
  refine and_congr_right fun hholds => ?_
  have hnonneg := hholds.1
  obtain rfl : outDeclared.toNat = n := by omega
  exact taken_overwrite_iff behind _ hm

theorem genuineResult_iff (str : Bytes) :
    GenuineResult str (Result.ofString str) ↔ IntactResult str := by
  rw [ofString_eq]
  unfold IntactResult
  rcases h : readSizes str with e | ⟨sizes, sstr⟩
  · have he : e.IsResultParse := throwsOnly_readSizes str e h
    exact iff_of_true he nofun
  obtain ⟨hsuffix, hout, herr⟩ := readSizes_ok h
  have htexts := taken_texts_iff sstr.rest hout herr
  by_cases hn : sizes.stdoutSize ≤ maxSize
  · by_cases hm : sizes.stderrSize ≤ maxSize
    · simp only [Except.bind, resize_of_le hn, resize_of_le hm, Except.map, GenuineResult, h]
      constructor
      · rintro ⟨sizes', sstr', heq, -, htaken⟩ sizes'' sstr'' heq'
        cases heq
        cases heq'
        obtain ⟨hholds, hholds'⟩ := htexts.1 htaken
        have hnonneg := hholds.1
        have hnonneg' := hholds'.1
        exact ⟨⟨hholds, hholds'⟩, by omega, by omega⟩
      · intro hintact
        exact ⟨sizes, sstr, rfl, hsuffix, htexts.2 (hintact sizes sstr rfl).1⟩
    · refine iff_of_false ?_ fun hintact => ?_
      · simp only [Except.bind, resize_of_le hn, resize_of_lt hm, Except.map, GenuineResult]
        exact nofun
      · obtain ⟨⟨-, hholds⟩, -, hmax⟩ := hintact sizes sstr rfl
        have hnonneg := hholds.1
        omega
  · refine iff_of_false ?_ fun hintact => ?_
    · simp only [Except.bind, resize_of_lt hn, GenuineResult]
      exact nofun
    · obtain ⟨⟨hholds, -⟩, hmax, -⟩ := hintact sizes sstr rfl
      have hnonneg := hholds.1
      omega

end Result

/-! ### Both decoders -/

/-- **The decoders fabricate nothing exactly on intact input**: on a string cut
short behind its numbers, one with an undeclared subject, or one with a size that is
negative or that no string can have, and on no others, they return bytes that are not
there or not as many as were declared, or throw something else than a parse error. -/
theorem decoders_genuine_iff (io : UuidText Uuid) (hio : IStream.Consumes io.get)
    (b : MessageBuilder Uuid) (s : Bytes) :
    (GenuineMessage io s (b.buildStr io s) ↔ IntactMessage io s) ∧
      (GenuineResult s (Result.ofString s) ↔ IntactResult s) :=
  ⟨genuineMessage_iff hio b s, genuineResult_iff s⟩

/-- The builder of a server. -/
def serverBuilder : MessageBuilder Uuid16 := MessageBuilder.new (Uuid16.filled 1) (Uuid16.filled 0)

/-- A message that ends within its origin, read as a result one that ends behind
its first number. -/
theorem decoders_genuine_cut :
    GenuineMessage hexText [48, 32] (serverBuilder.buildStr hexText [48, 32]) ∧
      GenuineResult [48, 32] (Result.ofString [48, 32]) :=
  ⟨(decoders_genuine_iff hexText consumes_hexText serverBuilder [48, 32]).1.2 nofun,
    (decoders_genuine_iff hexText consumes_hexText serverBuilder [48, 32]).2.2 nofun⟩

theorem Taken.mem {behind bytes : Bytes} {k : ℕ} {n : ℤ} (h : Taken behind k n bytes) {c : UInt8}
    (hc : c ∈ bytes) : c ∈ behind :=
  List.mem_of_mem_drop (List.mem_of_mem_take (h.eq ▸ hc))

/-- What is returned as a content was a part of the input. -/
theorem GenuineMessage.mem {io : UuidText Uuid} {str : Bytes} {msg : Message Uuid}
    (h : GenuineMessage io str (.ok msg)) {c : UInt8} (hc : c ∈ msg.content) : c ∈ str := by
  obtain ⟨-, header, input, -, hsuffix, hcontent⟩ := h
  exact hsuffix.subset (hcontent.mem hc)

theorem GenuineResult.mem {str : Bytes} {result : Result} (h : GenuineResult str (.ok result))
    {c : UInt8} (hc : c ∈ result.stdout) : c ∈ str := by
  obtain ⟨sizes, sstr, -, hsuffix, hout, -⟩ := h
  exact hsuffix.subset (hout.mem hc)

/-- A work message whose last byte is missing. -/
def cutMessage : Bytes :=
  (packMessage hexText ⟨serverBuilder.from_, serverBuilder.to_, .work, 1, [97, 98, 99]⟩).dropLast

theorem buildStr_cutMessage :
    (serverBuilder.buildStr hexText cutMessage).toOption =
      some ⟨serverBuilder.from_, serverBuilder.to_, .work, 1, [97, 98, 0]⟩ := by
  decide +kernel

/-- Two texts, the first of which is to have -18446744073709551613 bytes. -/
def wrappedResult : Bytes := utf8 "0 -18446744073709551613 0 abc ".toList

theorem readSizes_wrappedResult : (readSizes wrappedResult).map (·.1.stdoutDeclared) =
    .ok (-18446744073709551613) := by
  rfl

theorem ofString_wrappedResult : Result.ofString wrappedResult = .ok ⟨0, [97, 98, 99], []⟩ := by
  rfl

/-- **The decoders do fabricate data**: a content or a text cut short is filled
up with NULs, and a negative size is not a parse error but wraps around. -/
theorem decoders_fabricate :
    ¬ GenuineMessage hexText cutMessage (serverBuilder.buildStr hexText cutMessage) ∧
    ¬ GenuineResult [48, 32, 51, 32, 48, 32, 97]
        (Result.ofString [48, 32, 51, 32, 48, 32, 97]) ∧
    ¬ GenuineResult [48, 32, 45, 49, 32, 48] (Result.ofString [48, 32, 45, 49, 32, 48]) ∧
    ¬ GenuineResult wrappedResult (Result.ofString wrappedResult) := by
  refine ⟨fun h => ?_, fun h => ?_, ?_, fun h => ?_⟩
  · have hmsg := buildStr_cutMessage
    cases hb : serverBuilder.buildStr hexText cutMessage with
    | error e => simp [hb, Except.toOption] at hmsg
    | ok msg =>
        rw [hb] at h hmsg
        obtain rfl : msg = _ := Option.some.inj hmsg
        have hnul : (0 : UInt8) ∈ cutMessage := h.mem (by simp)
        exact absurd hnul (by decide +kernel)
  · have hres : Result.ofString [48, 32, 51, 32, 48, 32, 97] = .ok ⟨0, [97, 0, 0], []⟩ := rfl
    rw [hres] at h
    have hnul : (0 : UInt8) ∈ [48, 32, 51, 32, 48, 32, 97] := h.mem (by simp)
    simp at hnul
  · have hres : Result.ofString [48, 32, 45, 49, 32, 48] = .error .lengthError := rfl
    rw [hres]
    exact nofun
  · rw [ofString_wrappedResult] at h
    obtain ⟨sizes, sstr, hread, -, hout, -⟩ := h
    have hdeclared := readSizes_wrappedResult
    rw [hread] at hdeclared
    have hneg : sizes.stdoutDeclared = -18446744073709551613 := Except.ok.inj hdeclared
    have hlen := hout.length
    rw [hneg] at hlen
    omega

end Wire
end WorkerNg
