/-
# Messages

`Message` and `Message_builder` of `message.h` and `message.cpp`, and
`pack_message` and `unpack_message` of `utils.cpp`.

A message is written as its origin, its destination, one character for its
subject, its id and the length of its content, each behind a blank, a last blank
and the content.  The reader takes the first five with formatted reads, then one
byte and the content raw, so the content may hold any bytes (`unpack_pack`).

Every process has one builder for all its messages.  `build` takes the fields
over and forgets the id and the content, so a message has those set for it and
no others (`build_after`, `message_round_trip`).
-/

import WorkerNg.Wire.Uuid

namespace WorkerNg
namespace Wire

/-- What the codecs throw. -/
inductive Exn where
  | messageParse (what : String)
  | resultParse (what : String)
  | lengthError
deriving DecidableEq

/-- The value of a read that succeeded. -/
def orThrow {α : Type} (e : Exn) : Option α → Except Exn α
  | none => .error e
  | some a => .ok a

@[simp] theorem orThrow_some {α : Type} (e : Exn) (a : α) : orThrow e (some a) = .ok a := rfl

/-- `std::string::max_size`. -/
def maxSize : ℕ := 2 ^ 63 - 1

/-- `resize` of an empty string. -/
def resize (n : ℕ) : Except Exn Bytes :=
  if n ≤ maxSize then .ok (List.replicate n 0) else .error .lengthError

/-- A string whose first bytes are overwritten. -/
def overwrite (s bytes : Bytes) : Bytes := bytes ++ s.drop bytes.length

theorem resize_of_le {n : ℕ} (h : n ≤ maxSize) : resize n = .ok (List.replicate n 0) := if_pos h

theorem overwrite_replicate (bytes : Bytes) :
    overwrite (List.replicate bytes.length 0) bytes = bytes := by simp [overwrite]

/-! ### Subjects -/

/-- The characters that stand for a message type. -/
def Subject.declared : List UInt8 := [97, 113, 114, 119, 120, 115, 105]

/-- `Subject`: an enumeration over `char`, which a cast can give a value that is
none of its enumerators. -/
inductive Subject where
  | ack
  | query
  | result
  | work
  | ackStop
  | stop
  | invalid
  | undeclared (c : UInt8) (h : c ∉ Subject.declared)
deriving DecidableEq

namespace Subject

/-- `static_cast<char>`. -/
def toChar : Subject → UInt8
  | ack => 97
  | query => 113
  | result => 114
  | work => 119
  | ackStop => 120
  | stop => 115
  | invalid => 105
  | undeclared c _ => c

/-- `static_cast<Subject>`. -/
def ofChar (c : UInt8) : Subject :=
  if h : c ∈ declared then
    if c = 97 then ack
    else if c = 113 then query
    else if c = 114 then result
    else if c = 119 then work
    else if c = 120 then ackStop
    else if c = 115 then stop
    else invalid
  else undeclared c h

/-- One of the enumerators. -/
def Declared (s : Subject) : Prop := s.toChar ∈ declared

instance (s : Subject) : Decidable s.Declared :=
  inferInstanceAs (Decidable (s.toChar ∈ declared))

@[simp] theorem ofChar_toChar (s : Subject) : ofChar s.toChar = s := by
  cases s with
  | undeclared c h => rw [toChar, ofChar, dif_neg h]
  | _ => rfl

theorem Declared.isSpace {s : Subject} (h : s.Declared) : IStream.isSpace s.toChar = false := by
  have hall : declared.all (fun c => !IStream.isSpace c) = true := by decide
  simpa using List.all_eq_true.1 hall _ h

end Subject

/-! ### Messages and their text -/

variable {Uuid : Type}

/-- `Message`. -/
structure Message (Uuid : Type) where
  from_ : Uuid
  to_ : Uuid
  subject : Subject
  id : ℕ
  content : Bytes
deriving DecidableEq

/-- `Message::length`. -/
def Message.length (m : Message Uuid) : ℕ := m.content.length

/-- `Message::to_string`. -/
def Message.toString (io : UuidText Uuid) (m : Message Uuid) : Bytes :=
  utf8 (io.put m.from_) ++ 32 :: (utf8 (io.put m.to_) ++ 32 :: m.subject.toChar ::
    32 :: (decimal m.id ++ 32 :: (decimal m.length ++ 32 :: m.content)))

/-- `Message_builder`. -/
structure MessageBuilder (Uuid : Type) where
  from_ : Uuid
  to_ : Uuid
  subject : Subject
  id : ℕ
  content : Bytes
deriving DecidableEq

namespace MessageBuilder

/-- The constructor; it leaves the destination as it happens to be. -/
def new (processId garbage : Uuid) : MessageBuilder Uuid := ⟨processId, garbage, .invalid, 0, []⟩

/-- `Message_builder::to`. -/
def setTo (b : MessageBuilder Uuid) (u : Uuid) : MessageBuilder Uuid := { b with to_ := u }

/-- `Message_builder::subject`. -/
def setSubject (b : MessageBuilder Uuid) (s : Subject) : MessageBuilder Uuid :=
  { b with subject := s }

/-- `Message_builder::id`. -/
def setId (b : MessageBuilder Uuid) (n : ℕ) : MessageBuilder Uuid := { b with id := n }

/-- `Message_builder::content`. -/
def setContent (b : MessageBuilder Uuid) (s : Bytes) : MessageBuilder Uuid :=
  { b with content := s }

/-- `Message_builder::build()`. -/
def build (b : MessageBuilder Uuid) : Message Uuid × MessageBuilder Uuid :=
  (⟨b.from_, b.to_, b.subject, b.id, b.content⟩, { b with id := 0, content := [] })

/-- `Message_builder::build(str)`; it uses no field of the builder. -/
def buildStr (io : UuidText Uuid) (_ : MessageBuilder Uuid) (str : Bytes) :
    Except Exn (Message Uuid) := do
  let input := IStream.ofBytes str
  let (from_, input) ← orThrow (.messageParse "can't read origin UUID") (io.get input)
  let (to_, input) ← orThrow (.messageParse "can't read destination UUID") (io.get input)
  let (buffer, input) ← orThrow (.messageParse "can't read subject") input.readChar
  let subject := Subject.ofChar buffer
  let (id, input) ← orThrow (.messageParse "can't read id") input.readSize
  let (length, input) ← orThrow (.messageParse "can't read length") input.readSize
  if length > 0 then
    let (_, input) := input.read 1
    let content ← resize length
    return ⟨from_, to_, subject, id, overwrite content (input.read length).1⟩
  else
    return ⟨from_, to_, subject, id, []⟩

end MessageBuilder

/-- `pack_message`. -/
def packMessage (io : UuidText Uuid) (msg : Message Uuid) : Bytes := msg.toString io

/-- `unpack_message`. -/
def unpackMessage (io : UuidText Uuid) (zmqMsg : Bytes) (msgBuilder : MessageBuilder Uuid) :
    Except Exn (Message Uuid) := msgBuilder.buildStr io zmqMsg

/-- Nothing cannot be decoded. -/
theorem unpack_nil (io : UuidText Uuid) (b : MessageBuilder Uuid) :
    unpackMessage io [] b = .error (.messageParse "can't read origin UUID") := by
  rw [unpackMessage, MessageBuilder.buildStr]
  simp only [io.get_nil]
  rfl

/-- A message whose fields are values of their C++ types, with a subject that is
an enumerator. -/
structure Message.Fits (m : Message Uuid) : Prop where
  subject : m.subject.Declared
  id : m.id < 2 ^ 64
  content : m.content.length ≤ maxSize

/-- **A message is read back as it was written**, by any builder. -/
theorem unpack_pack (io : UuidText Uuid) (b : MessageBuilder Uuid) {m : Message Uuid}
    (hm : m.Fits) : unpackMessage io (packMessage io m) b = .ok m := by
  obtain ⟨from_, to_, subject, id, content⟩ := m
  obtain ⟨hs, hid, hc⟩ := hm
  simp only at hs hid hc
  have hb : IStream.isDigit 32 = false := by decide
  have hblank : ∀ c ∈ [(32 : UInt8)], IStream.isSpace c = true := List.all_eq_true.1 (by decide)
  have hlen : content.length < 2 ^ 64 := by
    unfold maxSize at hc
    omega
  have h₁ := fun r => io.get_put from_ [] r (by simp)
  have h₂ := fun r => io.get_put to_ [32] r hblank
  simp only [List.nil_append, List.singleton_append] at h₁ h₂
  rw [unpackMessage, packMessage, Message.toString, MessageBuilder.buildStr]
  simp only [h₁, h₂, orThrow_some, IStream.readChar_blank hs.isSpace, Subject.ofChar_toChar,
    IStream.readSize_decimal hid hb, Message.length, IStream.readSize_decimal hlen hb,
    bind, Except.bind, pure, Except.pure]
  split_ifs with hpos
  · -- the blank before the content is the one byte read and dropped
    have hread : (IStream.ofBytes (32 :: content)).read 1 = ([32], IStream.ofBytes content) :=
      IStream.read_append [32] content
    have hcontent := IStream.read_append content []
    rw [List.append_nil] at hcontent
    simp only [hread, hcontent, resize_of_le hc, overwrite_replicate]
  · have h₀ : content = [] := List.length_eq_zero_iff.1 (by omega)
    rw [h₀]

/-! ### A builder in use -/

/-- The calls that set a field of the message to be built. -/
inductive Setter (Uuid : Type) where
  | to (u : Uuid)
  | subject (s : Subject)
  | id (n : ℕ)
  | content (s : Bytes)
deriving DecidableEq

/-- A call on a builder. -/
inductive BuilderCall (Uuid : Type) where
  | set (c : Setter Uuid)
  | build
deriving DecidableEq

namespace MessageBuilder

/-- The builder after a call that sets a field. -/
def set (b : MessageBuilder Uuid) : Setter Uuid → MessageBuilder Uuid
  | .to u => b.setTo u
  | .subject s => b.setSubject s
  | .id n => b.setId n
  | .content s => b.setContent s

/-- The builder after any call. -/
def call (b : MessageBuilder Uuid) : BuilderCall Uuid → MessageBuilder Uuid
  | .set c => b.set c
  | .build => b.build.2

/-- A builder without an id and a content left over from an earlier message. -/
structure Fresh (b : MessageBuilder Uuid) : Prop where
  id : b.id = 0
  content : b.content = []

theorem fresh_new (processId garbage : Uuid) : (new processId garbage).Fresh := ⟨rfl, rfl⟩

/-- `build` leaves nothing of the message in the builder. -/
theorem fresh_build (b : MessageBuilder Uuid) : b.build.2.Fresh := ⟨rfl, rfl⟩

theorem from_set (b : MessageBuilder Uuid) (c : Setter Uuid) : (b.set c).from_ = b.from_ := by
  cases c <;> rfl

theorem from_call (b : MessageBuilder Uuid) (c : BuilderCall Uuid) :
    (b.call c).from_ = b.from_ := by
  cases c with
  | set c => exact from_set b c
  | build => rfl

theorem from_foldl_set (b : MessageBuilder Uuid) (cs : List (Setter Uuid)) :
    (cs.foldl set b).from_ = b.from_ := by
  induction cs generalizing b with
  | nil => rfl
  | cons c cs ih => rw [List.foldl_cons, ih, from_set]

theorem from_foldl_call (b : MessageBuilder Uuid) (cs : List (BuilderCall Uuid)) :
    (cs.foldl call b).from_ = b.from_ := by
  induction cs generalizing b with
  | nil => rfl
  | cons c cs ih => rw [List.foldl_cons, ih, from_call]

/-- A builder is fresh at first and after every sequence of calls that ends with
`build`. -/
theorem fresh_foldl_call {b : MessageBuilder Uuid} (hb : b.Fresh) {cs : List (BuilderCall Uuid)}
    (hcs : ∀ c ∈ cs.getLast?, c = .build) : (cs.foldl call b).Fresh := by
  rcases List.eq_nil_or_concat cs with rfl | ⟨ds, d, rfl⟩
  · exact hb
  · have hd : d = .build := by simpa using hcs
    subst hd
    rw [List.concat_eq_append, List.foldl_append]
    exact fresh_build _

end MessageBuilder

/-- The last destination, subject, id and content that a list of calls set. -/
def lastTo (cs : List (Setter Uuid)) : Option Uuid :=
  (cs.filterMap fun | .to u => some u | _ => none).getLast?

@[inherit_doc lastTo] def lastSubject (cs : List (Setter Uuid)) : Option Subject :=
  (cs.filterMap fun | .subject s => some s | _ => none).getLast?

@[inherit_doc lastTo] def lastId (cs : List (Setter Uuid)) : Option ℕ :=
  (cs.filterMap fun | .id n => some n | _ => none).getLast?

@[inherit_doc lastTo] def lastContent (cs : List (Setter Uuid)) : Option Bytes :=
  (cs.filterMap fun | .content s => some s | _ => none).getLast?

/-- A field after some calls: what the last of those that set it gave it, else
what it was.  `view` is the field and `sets` the calls that set it. -/
theorem view_foldl_set {α : Type} {view : MessageBuilder Uuid → α} {sets : Setter Uuid → Option α}
    (h : ∀ b c, view (b.set c) = (sets c).getD (view b)) (b : MessageBuilder Uuid)
    (cs : List (Setter Uuid)) :
    view (cs.foldl MessageBuilder.set b) = (cs.filterMap sets).getLast?.getD (view b) := by
  induction cs generalizing b with
  | nil => rfl
  | cons c cs ih =>
      rw [List.foldl_cons, ih, h]
      cases hc : sets c with
      | none => simp [hc]
      | some a =>
          rw [List.filterMap_cons_some hc, List.getLast?_cons]
          cases (cs.filterMap sets).getLast? <;> rfl

/-- **A message holds what was set for it**: built after the calls `cs` on a
fresh builder, it has the destination, subject, id and content they set last,
and without such calls the id 0 and no content. -/
theorem build_after {b : MessageBuilder Uuid} (hb : b.Fresh) (cs : List (Setter Uuid)) :
    (cs.foldl MessageBuilder.set b).build.1 =
      ⟨b.from_, (lastTo cs).getD b.to_, (lastSubject cs).getD b.subject, (lastId cs).getD 0,
        (lastContent cs).getD []⟩ := by
  rw [MessageBuilder.build, Message.mk.injEq]
  refine ⟨MessageBuilder.from_foldl_set b cs, ?_, ?_, ?_, ?_⟩
  · exact view_foldl_set (by rintro b (_ | _ | _ | _) <;> rfl) b cs
  · exact view_foldl_set (by rintro b (_ | _ | _ | _) <;> rfl) b cs
  · rw [← hb.id]
    exact view_foldl_set (by rintro b (_ | _ | _ | _) <;> rfl) b cs
  · rw [← hb.content]
    exact view_foldl_set (by rintro b (_ | _ | _ | _) <;> rfl) b cs

/-- **Messages make the round trip, and nothing leaks from one to the next.**
On a builder of process `u` that has made any calls ending with `build`, set a
destination and a subject and optionally an id and a content; the message built
is decoded by every builder to the origin `u`, that destination and subject, the
id that was set or 0, and the content that was set or none. -/
theorem message_round_trip (io : UuidText Uuid) (u garbage : Uuid)
    {earlier : List (BuilderCall Uuid)} (hearlier : ∀ c ∈ earlier.getLast?, c = .build)
    {cs : List (Setter Uuid)} {to_ : Uuid} (hto : lastTo cs = some to_) {subject : Subject}
    (hsubject : lastSubject cs = some subject) (hdeclared : subject.Declared)
    (hid : ∀ n ∈ lastId cs, n < 2 ^ 64) (hcontent : ∀ s ∈ lastContent cs, s.length ≤ maxSize)
    (receiver : MessageBuilder Uuid) :
    unpackMessage io (packMessage io (cs.foldl MessageBuilder.set
        (earlier.foldl MessageBuilder.call (MessageBuilder.new u garbage))).build.1) receiver =
      .ok ⟨u, to_, subject, (lastId cs).getD 0, (lastContent cs).getD []⟩ := by
  have hfresh := MessageBuilder.fresh_foldl_call (MessageBuilder.fresh_new u garbage) hearlier
  have hbuilt := build_after hfresh cs
  rw [hto, hsubject, MessageBuilder.from_foldl_call] at hbuilt
  rw [hbuilt]
  refine unpack_pack io receiver ⟨hdeclared, ?_, ?_⟩
  · cases h : lastId cs with
    | none => exact Nat.two_pow_pos 64
    | some n => exact hid n h
  · cases h : lastContent cs with
    | none => exact Nat.zero_le _
    | some s => exact hcontent s h

/-- A work message after a stop message, with a blank, a newline and a zero byte in its
content; and a stop message after it, in which there is no trace of the item. -/
theorem message_round_trip_stop :
    unpackMessage hexText (packMessage hexText
        ([Setter.to (Uuid16.filled 2), .subject .work, .id 7,
          .content [101, 32, 120, 10, 0]].foldl MessageBuilder.set
            ([BuilderCall.set (.subject .stop), .build].foldl MessageBuilder.call
              (MessageBuilder.new (Uuid16.filled 1) (Uuid16.filled 0)))).build.1)
        (MessageBuilder.new (Uuid16.filled 2) (Uuid16.filled 0)) =
      .ok ⟨Uuid16.filled 1, Uuid16.filled 2, .work, 7, [101, 32, 120, 10, 0]⟩ ∧
    unpackMessage hexText (packMessage hexText
        ([Setter.to (Uuid16.filled 2), .subject .stop].foldl MessageBuilder.set
          ([BuilderCall.set (.subject .work), .set (.id 7), .set (.content [101, 10]),
            .build].foldl MessageBuilder.call
              (MessageBuilder.new (Uuid16.filled 1) (Uuid16.filled 0)))).build.1)
        (MessageBuilder.new (Uuid16.filled 2) (Uuid16.filled 0)) =
      .ok ⟨Uuid16.filled 1, Uuid16.filled 2, .stop, 0, []⟩ :=
  ⟨message_round_trip hexText _ _ (by decide) (by decide) (by decide) (by decide)
      (by decide) (by decide) _,
    message_round_trip hexText _ _ (by decide) (by decide) (by decide) (by decide)
      (by decide) (by decide) _⟩

end Wire
end WorkerNg
