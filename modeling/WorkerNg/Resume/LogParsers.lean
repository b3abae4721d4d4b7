/-
# The log parser

`WorkitemLogParser` and `WorkitemReport` of `scripts/worker/log_parsers.py`: the
regular expressions they are built on, the loop over the lines of a log file, and
the queries on the report.

The expressions are those of the source, named group by named group.  What `\d`
and `\w` match outside ASCII is a table of the Unicode standard, which is a
parameter (`CharTable`); `\s` is `str.isspace`.  `datetime.strptime` matches a
regular expression as well, with one piece for each directive of its format.

The report is the list of the rows of the data frame.  That a number can be too long
for `int`, or too large for the data frame, is left to `Resume.LongNumbers`.
-/

import WorkerNg.Lib.Regex
import WorkerNg.Resume.LogFile
import WorkerNg.Lib.Dict

namespace WorkerNg
namespace Resume

open Lines Work Regex

/-- An exception that ends a script. -/
inductive PyError where
  | logParseException (message : Text)
  | valueError
  | typeError
  | attributeError
  | overflowError
deriving DecidableEq

/-- Python's tables of characters: the value of a decimal digit, which `\d`
matches, and what `\w` matches. -/
structure CharTable where
  decimal : Char → Option ℕ
  word : Char → Bool
  decimal_ascii : ∀ c, c.toNat < 128 →
    decimal c = if c.isDigit then some (c.toNat - 48) else none
  word_ascii : ∀ c, c.toNat < 128 → word c = (c.isAlphanum || c == '_')

/-- The tables cut down to ASCII. -/
def asciiTable : CharTable where
  decimal c := if c.isDigit then some (c.toNat - 48) else none
  word c := c.isAlphanum || c == '_'
  decimal_ascii _ _ := rfl
  word_ascii _ _ := rfl

variable (tb : CharTable)

/-- `\d`. -/
def digit (c : Char) : Bool := (tb.decimal c).isSome

/-- The number that a text of digits stands for, however long it is; what `int` reads of it is
in `LongNumbers`. -/
def natOf (s : Text) : ℕ := s.foldl (fun n c => 10 * n + (tb.decimal c).getD 0) 0

/-- The number that a text of digits stands for, which may follow a minus sign. -/
def intOf : Text → ℤ
  | '-' :: s => -natOf tb s
  | s => natOf tb s

/-! ### Reading a time stamp -/

/-- The date and time with the given parts, if there is one. -/
def DateTime.make? (year month day hour minute second microsecond : ℕ) : Option DateTime :=
  if hd : (1 ≤ year ∧ year ≤ 9999) ∧ (1 ≤ month ∧ month ≤ 12) ∧
      1 ≤ day ∧ day ≤ daysInMonth year month then
    if ht : hour < 24 ∧ minute < 60 ∧ second < 60 ∧ microsecond < 1000000 then
      some ⟨year, month, day, hour, minute, second, microsecond, hd, ht⟩
    else none
  else none

/-- A class `[a-b]`. -/
def range (a b : Char) (c : Char) : Bool := decide (a ≤ c) && decide (c ≤ b)

/-- `%Y`: `\d\d\d\d`. -/
def yearDirective : Regex Char := group "Y" (rep (digit tb) 4 (some 4))

/-- `%m`: `1[0-2]|0[1-9]|[1-9]`. -/
def monthDirective : Regex Char :=
  group "m" (alt (cat [one (· == '1'), one (range '0' '2')])
    (alt (cat [one (· == '0'), one (range '1' '9')]) (one (range '1' '9'))))

/-- `%d`: `3[0-1]|[1-2]\d|0[1-9]|[1-9]| [1-9]`. -/
def dayDirective : Regex Char :=
  group "d" (alt (cat [one (· == '3'), one (range '0' '1')])
    (alt (cat [one (range '1' '2'), one (digit tb)])
      (alt (cat [one (· == '0'), one (range '1' '9')])
        (alt (one (range '1' '9')) (cat [one (· == ' '), one (range '1' '9')])))))

/-- `%H`: `2[0-3]|[0-1]\d|\d`. -/
def hourDirective : Regex Char :=
  group "H" (alt (cat [one (· == '2'), one (range '0' '3')])
    (alt (cat [one (range '0' '1'), one (digit tb)]) (one (digit tb))))

/-- `%M`: `[0-5]\d|\d`. -/
def minuteDirective : Regex Char :=
  group "M" (alt (cat [one (range '0' '5'), one (digit tb)]) (one (digit tb)))

/-- `%S`: `6[0-1]|[0-5]\d|\d`. -/
def secondDirective : Regex Char :=
  group "S" (alt (cat [one (· == '6'), one (range '0' '1')])
    (alt (cat [one (range '0' '5'), one (digit tb)]) (one (digit tb))))

/-- `%f`: `[0-9]{1,6}`. -/
def fractionDirective : Regex Char := group "f" (rep (range '0' '9') 1 (some 6))

/-- The format `%Y-%m-%d %H:%M:%S.%f`. -/
def timeFormat : Regex Char :=
  cat [yearDirective tb, lit "-".toList, monthDirective, lit "-".toList, dayDirective tb,
    rep isSpace 1 none, hourDirective tb, lit ":".toList, minuteDirective tb, lit ":".toList,
    secondDirective tb, lit ".".toList, fractionDirective]

/-- The value of a group of digits.  Every group of the expressions below takes
part in their matches. -/
def groupValue (m : Match Char) (name : String) : ℕ := natOf tb ((m.group name).getD [])

/-- `LogParser.parse_time`: the whole text has to match. -/
def parseTime (s : Text) : Except PyError DateTime :=
  match (timeFormat tb).match? s with
  | none => .error .valueError
  | some m =>
      if m.rest ≠ [] then .error .valueError
      else
        let f := (m.group "f").getD []
        -- the fraction is filled up with zeros to six digits
        let microsecond := natOf tb (f ++ List.replicate (6 - f.length) '0')
        match DateTime.make? (groupValue tb m "Y") (groupValue tb m "m") (groupValue tb m "d")
            (groupValue tb m "H") (groupValue tb m "M") (groupValue tb m "S") microsecond with
        | none => .error .valueError
        | some d => .ok d

/-! ### The expressions -/

/-- `date`. -/
def dateExpr : Regex Char :=
  cat [rep (digit tb) 4 (some 4), lit "-".toList, rep (digit tb) 2 (some 2), lit "-".toList,
    rep (digit tb) 2 (some 2)]

/-- `time`. -/
def timeExpr : Regex Char :=
  cat [rep (digit tb) 2 (some 2), lit ":".toList, rep (digit tb) 2 (some 2), lit ":".toList,
    rep (digit tb) 2 (some 2), lit ".".toList, rep (digit tb) 1 none]

/-- `log_level`. -/
def logLevel : Regex Char :=
  cat [lit "[".toList, group "log_level" (rep tb.word 1 none), lit "]".toList]

/-- `workitem_id`. -/
def workitemId : Regex Char := group "workitem_id" (rep (digit tb) 1 none)

/-- `client_id`. -/
def clientId : Regex Char := group "client_id" (rep (fun c => tb.word c || c == '-') 1 none)

/-- `exit_status`. -/
def exitStatus : Regex Char :=
  group "exit_status" (cat [rep (· == '-') 0 (some 1), rep (digit tb) 1 none])

/-- `datetime`. -/
def datetimeExpr : Regex Char :=
  group "datetime" (cat [dateExpr tb, rep isSpace 1 none, timeExpr tb])

/-- `prefix`. -/
def prefixExpr : Regex Char :=
  cat [datetimeExpr tb, rep isSpace 1 none, logLevel tb, rep isSpace 0 none, lit ":".toList]

/-- `msg`. -/
def msgExpr : Regex Char :=
  cat [lit "workitem".toList, rep isSpace 1 none, workitemId tb]

/-- `started_msg`. -/
def startedMsg : Regex Char :=
  cat [msgExpr tb, rep isSpace 1 none, lit "started".toList, rep isSpace 0 none, lit ":".toList,
    rep isSpace 0 none, clientId tb]

/-- `done_msg`. -/
def doneMsg : Regex Char :=
  cat [msgExpr tb, rep isSpace 1 none, lit "done".toList, rep isSpace 0 none, lit ":".toList,
    rep isSpace 0 none, exitStatus tb]

/-- `_log_line_expr`. -/
def logLineExpr : Regex Char :=
  cat [prefixExpr tb, rep isSpace 1 none, rep (· != '\n') 1 none]

/-- `_started_expr`. -/
def startedExpr : Regex Char := cat [prefixExpr tb, rep isSpace 1 none, startedMsg tb]

/-- `_done_expr`. -/
def doneExpr : Regex Char := cat [prefixExpr tb, rep isSpace 1 none, doneMsg tb]

/-! ### Parsing -/

/-- What is known about a work item; `duration` in microseconds. -/
structure WorkItem where
  itemId : Option ℕ
  clientId : Option Text
  startTime : Option DateTime
  duration : Option ℤ
  status : Option ℤ
deriving DecidableEq

/-- `WorkItem()`. -/
def WorkItem.new : WorkItem := ⟨none, none, none, none, none⟩

/-- The variables of the loop. -/
structure ParseState where
  workitems : Dict ℕ WorkItem
  nrLines : ℕ
  nrLogLines : ℕ

/-- `workitems[item_id]`, of a dictionary with a default. -/
def ParseState.item (st : ParseState) (itemId : ℕ) : WorkItem :=
  (st.workitems.get? itemId).getD WorkItem.new

/-- The lines counted. -/
def ParseState.count (st : ParseState) (line : Text) : ParseState :=
  { st with
    nrLines := st.nrLines + 1
    nrLogLines := st.nrLogLines + if ((logLineExpr tb).match? line).isSome then 1 else 0 }

/-- A line that matches `_started_expr`. -/
def ParseState.started (st : ParseState) (m : Match Char) : Except PyError ParseState :=
  let itemId := groupValue tb m "workitem_id"
  match parseTime tb ((m.group "datetime").getD []) with
  | .error e => .error e
  | .ok startTime =>
      .ok { st with
        workitems := st.workitems.set itemId
          { st.item itemId with
            itemId := itemId, clientId := m.group "client_id", startTime := startTime } }

/-- A line that matches `_done_expr`. -/
def ParseState.done (st : ParseState) (m : Match Char) : Except PyError ParseState :=
  let itemId := groupValue tb m "workitem_id"
  match parseTime tb ((m.group "datetime").getD []), (st.item itemId).startTime with
  | .error e, _ => .error e
  | .ok _, none => .error .typeError  -- `end_time - None`
  | .ok endTime, some startTime =>
      .ok { st with
        workitems := st.workitems.set itemId
          { st.item itemId with
            status := intOf tb ((m.group "exit_status").getD [])
            duration := endTime.sub startTime } }

/-- The body of the loop. -/
def parseLine (st : ParseState) (line : Text) : Except PyError ParseState :=
  let st := st.count tb line
  match (startedExpr tb).match? line with
  | some m => st.started tb m
  | none =>
      match (doneExpr tb).match? line with
      | some m => st.done tb m
      | none => .ok st

/-- The rows of the data frame. -/
structure WorkitemReport where
  df : List WorkItem

/-- What the parser returns, once the loop has ended. -/
def ParseState.report (st : ParseState) : Except PyError (Option WorkitemReport) :=
  if st.nrLines = 0 then .error (.logParseException "empty log file".toList)
  else if st.nrLogLines < st.nrLines then
    .error (.logParseException "ill-formed log file, verify log file".toList)
  else if st.workitems.entries = [] then .ok none
  else .ok (some ⟨st.workitems.entries.map Prod.snd⟩)

/-- `WorkitemLogParser._parse`. -/
def parseLog (file : List Text) : Except PyError (Option WorkitemReport) :=
  (file.foldlM (parseLine tb) ⟨Dict.empty, 0, 0⟩).bind ParseState.report

/-! ### Queries -/

namespace WorkitemReport

/-- The sorted index of some rows. -/
def index (rows : List WorkItem) : List ℕ := (rows.filterMap WorkItem.itemId).mergeSort

/-- Whether `dropna` keeps a row. -/
def complete (w : WorkItem) : Bool :=
  w.clientId.isSome && w.startTime.isSome && w.duration.isSome && w.status.isSome

/-- `successes`: `query` does not select rows whose status is missing. -/
def successes (r : WorkitemReport) : List ℕ := index (r.df.filter fun w => decide (w.status = some 0))

/-- `failures`. -/
def failures (r : WorkitemReport) : List ℕ :=
  index ((r.df.filter complete).filter fun w => decide (w.status ≠ some 0))

/-- `incompletes`. -/
def incompletes (r : WorkitemReport) : List ℕ := index (r.df.filter fun w => w.status.isNone)

end WorkitemReport

/-- `WorkitemLogParser.parse` on a file with the given text, whose numbers are not too
long. -/
def parseLogFile (file : Text) : Except PyError (Option WorkitemReport) :=
  parseLog tb (keepLines '\n' (universalNewlines file))

/-- What `wresume` selects from a log file: the incomplete items, and with
`--redo` those that failed. -/
def workIds (redo : Bool) (file : Text) : Except PyError (List ℕ) :=
  match parseLogFile tb file with
  | .error e => .error e
  | .ok none => .error .attributeError  -- `None.incompletes`
  | .ok (some report) => .ok (report.incompletes ++ if redo then report.failures else [])

end Resume
end WorkerNg
