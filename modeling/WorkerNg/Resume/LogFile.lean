/-
# The log file

What the logging library makes of the messages that the server logs: one line
for each, as `init_logging` asks for it, `%TimeStamp% [%Severity%]: %Message%`.
The file is flushed after every message (`auto_flush`), so that of a job which
was cut off holds all of them.

A time stamp is a date and a time of day, written `2021-09-30 14:46:59.785764`.
-/

import WorkerNg.Protocol.Server
import WorkerNg.Work.WorkfileParser

namespace WorkerNg
namespace Resume

open Lines Work Protocol

/-! ### Time stamps -/

/-- Whether a year is a leap year. -/
def isLeap (year : ℕ) : Bool := year % 4 == 0 && (year % 100 != 0 || year % 400 == 0)

/-- The length of a month. -/
def daysInMonth (year month : ℕ) : ℕ :=
  if month = 2 then if isLeap year then 29 else 28
  else if month ∈ [4, 6, 9, 11] then 30
  else 31

theorem daysInMonth_le (year month : ℕ) : daysInMonth year month ≤ 31 := by
  unfold daysInMonth
  split_ifs <;> omega

/-- A date and a time of day, as `datetime.datetime` has them. -/
structure DateTime where
  year : ℕ
  month : ℕ
  day : ℕ
  hour : ℕ
  minute : ℕ
  second : ℕ
  microsecond : ℕ
  date_valid : (1 ≤ year ∧ year ≤ 9999) ∧ (1 ≤ month ∧ month ≤ 12) ∧
    1 ≤ day ∧ day ≤ daysInMonth year month
  time_valid : hour < 24 ∧ minute < 60 ∧ second < 60 ∧ microsecond < 1000000
deriving DecidableEq

namespace DateTime

/-- `datetime.toordinal`: the number of the day, that of 1 January of year 1 being 1. -/
def toOrdinal (d : DateTime) : ℕ :=
  365 * (d.year - 1) + (d.year - 1) / 4 - (d.year - 1) / 100 + (d.year - 1) / 400 +
    (List.range' 1 (d.month - 1)).foldl (fun n month => n + daysInMonth d.year month) 0 + d.day

/-- The microseconds since the beginning of year 1. -/
def microseconds (d : DateTime) : ℕ :=
  1000000 * (60 * (60 * (24 * (d.toOrdinal - 1) + d.hour) + d.minute) + d.second) + d.microsecond

/-- `datetime.__sub__`: a `timedelta`, in microseconds. -/
def sub (d e : DateTime) : ℤ := (d.microseconds : ℤ) - e.microseconds

end DateTime

/-- The last `w` decimal digits of a number. -/
def pad : ℕ → ℕ → Text
  | 0, _ => []
  | w + 1, n => pad w (n / 10) ++ [Nat.digitChar (n % 10)]

/-- A time stamp's date. -/
def DateTime.dateText (d : DateTime) : Text :=
  pad 4 d.year ++ ("-".toList ++ (pad 2 d.month ++ ("-".toList ++ pad 2 d.day)))

/-- A time stamp's time of day. -/
def DateTime.timeText (d : DateTime) : Text :=
  pad 2 d.hour ++ (":".toList ++ (pad 2 d.minute ++ (":".toList ++
    (pad 2 d.second ++ (".".toList ++ pad 6 d.microsecond)))))

/-- `%TimeStamp%`. -/
def DateTime.toText (d : DateTime) : Text := d.dateText ++ (" ".toList ++ d.timeText)

/-! ### Lines -/

/-- `%Severity%`. -/
def severityText : Severity → Text
  | .info => "info".toList
  | .error => "error".toList
  | .fatal => "fatal".toList

/-- A message with the time at which it was logged. -/
structure LogRecord extends LogMessage where
  timeStamp : DateTime
deriving DecidableEq

/-- What stands before the message. -/
def LogRecord.stamp (r : LogRecord) : Text :=
  r.timeStamp.toText ++ (" ".toList ++ ("[".toList ++ (severityText r.severity ++ "]".toList) ++
    ":".toList))

/-- A line of the log file. -/
def LogRecord.line (r : LogRecord) : Text := r.stamp ++ (" ".toList ++ r.message)

/-- The log file. -/
def logText (log : List LogRecord) : Text := unlines '\n' (log.map LogRecord.line)

/-! ### What a line is made of -/

/-- A text that is part of one line, however the file is read. -/
def OneLine (s : Text) : Prop := '\n' ∉ s ∧ '\r' ∉ s

instance (s : Text) : Decidable (OneLine s) := inferInstanceAs (Decidable (_ ∧ _))

@[simp] theorem oneLine_append {s t : Text} : OneLine (s ++ t) ↔ OneLine s ∧ OneLine t := by
  simp only [OneLine, List.mem_append, not_or]
  tauto

@[simp] theorem oneLine_nil : OneLine [] := ⟨List.not_mem_nil, List.not_mem_nil⟩

@[simp] theorem oneLine_cons {c : Char} {s : Text} :
    OneLine (c :: s) ↔ ('\n' ≠ c ∧ '\r' ≠ c) ∧ OneLine s := by
  simp only [OneLine, List.mem_cons, not_or]
  tauto

theorem oneLine_of_forall {s : Text} (h : ∀ c ∈ s, c.toNat ≠ 10 ∧ c.toNat ≠ 13) : OneLine s :=
  ⟨fun hm => (h _ hm).1 rfl, fun hm => (h _ hm).2 rfl⟩

theorem isDigit_of_mem_pad {w n : ℕ} {c : Char} (h : c ∈ pad w n) : c.isDigit := by
  induction w generalizing n with
  | zero => exact absurd h List.not_mem_nil
  | succ w ih =>
      rw [pad, List.mem_append, List.mem_singleton] at h
      rcases h with h | rfl
      · exact ih h
      · rw [Nat.isDigit_digitChar]
        exact decide_eq_true (Nat.mod_lt _ (by decide))

@[simp] theorem length_pad (w n : ℕ) : (pad w n).length = w := by
  induction w generalizing n with
  | zero => rfl
  | succ w ih => rw [pad, List.length_append, ih, List.length_singleton]

theorem ofDigitChars_pad {w n : ℕ} (h : n < 10 ^ w) : Nat.ofDigitChars 10 (pad w n) 0 = n := by
  induction w generalizing n with
  | zero =>
      rw [Nat.pow_zero, Nat.lt_one_iff] at h
      subst h
      rfl
  | succ w ih =>
      rw [Nat.pow_succ] at h
      rw [pad, Nat.ofDigitChars_append, ih (by omega),
        Nat.ofDigitChars_cons_digitChar_of_lt_ten (Nat.mod_lt _ (by decide)), Nat.ofDigitChars_nil]
      omega

theorem isDigit_of_mem_natText {n : ℕ} {c : Char} (h : c ∈ natText n) : c.isDigit :=
  Nat.isDigit_of_mem_toDigits (by decide) (by decide) h

theorem oneLine_of_isDigit {s : Text} (h : ∀ c ∈ s, c.isDigit) : OneLine s :=
  oneLine_of_forall fun c hc => by
    have := toNat_of_isDigit (h c hc)
    omega

@[simp] theorem oneLine_pad (w n : ℕ) : OneLine (pad w n) :=
  oneLine_of_isDigit fun _ => isDigit_of_mem_pad

@[simp] theorem oneLine_natText (n : ℕ) : OneLine (natText n) :=
  oneLine_of_isDigit fun _ => isDigit_of_mem_natText

theorem LogRecord.oneLine_stamp (r : LogRecord) : OneLine r.stamp := by
  have hs : OneLine (severityText r.severity) := by
    cases r.severity <;> simp [severityText]
  simp [stamp, DateTime.toText, DateTime.dateText, DateTime.timeText, hs]

theorem LogRecord.oneLine_line {r : LogRecord} (h : OneLine r.message) : OneLine r.line :=
  oneLine_append.2 ⟨r.oneLine_stamp, oneLine_append.2 ⟨by simp, h⟩⟩

/-- **Reading the log file line by line** gives back the lines written, if every
message is one line. -/
theorem keepLines_logText {log : List LogRecord} (h : ∀ r ∈ log, OneLine r.message) :
    keepLines '\n' (universalNewlines (logText log)) = log.map fun r => r.line ++ ['\n'] := by
  have hline : ∀ l ∈ log.map LogRecord.line, OneLine l := by
    intro l hl
    obtain ⟨r, hr, rfl⟩ := List.mem_map.1 hl
    exact LogRecord.oneLine_line (h r hr)
  have hcr : '\r' ∉ logText log := by
    intro hm
    obtain ⟨l, hl, hm⟩ := List.mem_flatMap.1 hm
    rw [List.mem_append] at hm
    rcases hm with hm | hm
    · exact (hline l hl).2 hm
    · exact absurd hm (by decide)
  rw [universalNewlines_eq hcr, logText, keepLines_eq (terminated_unlines _),
    lines_unlines fun l hl => (hline l hl).1, List.map_map]
  rfl

end Resume
end WorkerNg
