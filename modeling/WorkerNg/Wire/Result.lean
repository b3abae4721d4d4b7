/-
# Results

`Result` of `work_processor/result.h` and `result.cpp`: the exit status, the
standard output and the standard error of a work item.

A result is written as the exit status, the lengths of the two texts and the
texts, with one blank between each two of them.  The reader takes the three
numbers with formatted reads and each text raw behind one byte that it drops
(`ofString_toString`).  A result travels as the content of a message, so it
passes through two length-prefixed formats (`result_round_trip`).
-/

import WorkerNg.Wire.Message

namespace WorkerNg
namespace Wire

/-- `Result`. -/
structure Result where
  exitStatus : Int32
  stdout : Bytes
  stderr : Bytes
deriving DecidableEq

namespace Result

/-- `Result::to_string`. -/
def toString (result : Result) : Bytes :=
  decimalInt result.exitStatus ++ 32 :: (decimal result.stdout.length ++
    32 :: (decimal result.stderr.length ++ 32 :: (result.stdout ++ 32 :: result.stderr)))

/-- The constructor of `Result` from a string. -/
def ofString (str : Bytes) : Except Exn Result := do
  let sstr := IStream.ofBytes str
  let (exitStatus, sstr) ← orThrow (.resultParse "can't read exit status") sstr.readInt
  let (stdoutSize, sstr) ← orThrow (.resultParse "can't read stdout size") sstr.readSize
  let (stderrSize, sstr) ← orThrow (.resultParse "can't read stderr size") sstr.readSize
  let stdout ← resize stdoutSize
  let stderr ← resize stderrSize
  let (_, sstr) := sstr.read 1
  let (out, sstr) := sstr.read stdoutSize
  let (_, sstr) := sstr.read 1
  let (err, _) := sstr.read stderrSize
  return ⟨exitStatus, overwrite stdout out, overwrite stderr err⟩

/-- A result whose texts are C++ strings. -/
structure Fits (result : Result) : Prop where
  stdout : result.stdout.length ≤ maxSize
  stderr : result.stderr.length ≤ maxSize

/-- A result whose text is a C++ string fits. -/
theorem fits_of_toString {result : Result} (h : result.toString.length ≤ maxSize) :
    result.Fits := by
  simp only [toString, List.length_append, List.length_cons] at h
  exact ⟨by omega, by omega⟩

/-- **A result is read back as it was written.** -/
theorem ofString_toString {result : Result} (h : result.Fits) :
    ofString result.toString = .ok result := by
  obtain ⟨status, out, err⟩ := result
  obtain ⟨ho, he⟩ := h
  simp only at ho he
  have hb : IStream.isDigit 32 = false := by decide
  have hout : out.length < 2 ^ 64 := by
    unfold maxSize at ho
    omega
  have herr : err.length < 2 ^ 64 := by
    unfold maxSize at he
    omega
  -- the two bytes read and dropped are the blanks before the texts
  have hread : ∀ s, (IStream.ofBytes (32 :: s)).read 1 = ([32], IStream.ofBytes s) :=
    fun s => IStream.read_append [32] s
  have hlast := IStream.read_append err []
  rw [List.append_nil] at hlast
  rw [toString, ofString]
  simp only [IStream.readInt_decimalInt status hb, orThrow_some, IStream.readSize_decimal hout hb,
    IStream.readSize_decimal herr hb, resize_of_le ho, resize_of_le he, hread,
    IStream.read_append, hlast, overwrite_replicate, bind, Except.bind, pure, Except.pure]

end Result

variable {Uuid : Type}

/-- The calls by which `client.cpp` makes the message that returns a result. -/
def MessageBuilder.resultMessage (b : MessageBuilder Uuid) (serverId : Uuid) (workId : ℕ)
    (result : Result) : Message Uuid × MessageBuilder Uuid :=
  ((((b.setTo serverId).setSubject .result).setId workId).setContent result.toString).build

/-- **A result reaches the server unchanged.**  The server decodes the message a
client sends to a message with the work id whose content is, read as a result,
the result the client had. -/
theorem result_round_trip (io : UuidText Uuid) (client server : MessageBuilder Uuid)
    (serverId : Uuid) {workId : ℕ} (hid : workId < 2 ^ 64) {result : Result}
    (hr : result.toString.length ≤ maxSize) :
    ∃ msg, unpackMessage io (packMessage io (client.resultMessage serverId workId result).1) server
        = .ok msg ∧
      msg.id = workId ∧ Result.ofString msg.content = .ok result := by
  have hdeclared : Subject.result.Declared := by decide
  have hfits : (client.resultMessage serverId workId result).1.Fits := ⟨hdeclared, hid, hr⟩
  exact ⟨_, unpack_pack io server hfits, rfl, Result.ofString_toString (Result.fits_of_toString hr)⟩

/-- A negative exit status, an output that begins with a blank and a digit and
holds a newline and a NUL, and no error text. -/
theorem result_round_trip_negative :
    ∃ msg, unpackMessage hexText (packMessage hexText
        ((MessageBuilder.new ⟨List.replicate 16 2, rfl⟩ ⟨List.replicate 16 0, rfl⟩).resultMessage
          ⟨List.replicate 16 1, rfl⟩ 3 ⟨-7, [32, 49, 10, 0], []⟩).1)
        (MessageBuilder.new ⟨List.replicate 16 1, rfl⟩ ⟨List.replicate 16 0, rfl⟩) = .ok msg ∧
      msg.id = 3 ∧ Result.ofString msg.content = .ok ⟨-7, [32, 49, 10, 0], []⟩ :=
  result_round_trip hexText _ _ _ (by decide) (by decide)

end Wire
end WorkerNg
