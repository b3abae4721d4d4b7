/-
# Array requests

`RangeDataSource` in `scripts/worker/data_sources.py`, with the two regular
expressions of the source.  One says what a request is, as a whole; the other one
takes a piece of it between commas apart, and a piece it does not match goes to
`int`.

The language of the first expression is that of the lists of items
(`isValid_iff`), so every piece of an accepted request is an item, which the
second one takes apart rightly (`numbers_text`): what is accepted can be read, and
it is read as what it says (`new_requestText`).

The expressions are meant for ASCII text, where `\d` is a digit from 0 to 9, and
integers have any size.  On such texts this is the `RangeDataSource` that the other
data sources are read with (`new_eq`).
-/

import WorkerNg.Lib.RegularExpr
import WorkerNg.Resume.TimeStamps
import WorkerNg.Submit.DataSources

namespace WorkerNg
namespace Submit

open RegularExpression RegularExpr Regex
open Work (Row isSpace strip)

/-! ### The expressions of the source -/

namespace ArrayRequest

/-- `\d`, of ASCII. -/
def digitExpr : RegularExpression Char := oneOf "0123456789".toList

/-- `\d+(?:\-\d+)?`. -/
def itemExpr : RegularExpression Char := many1 digitExpr * (1 + char '-' * many1 digitExpr)

/-- `\d+(?:\-\d+)?(?:,\d+(?:\-\d+)?)*`. -/
def requestExpr : RegularExpression Char := sepBy ',' itemExpr

/-- `RangeDataSource._is_valid`: the whole text matches between `^` and `$`, which
matches before a newline at the end, too. -/
def isValid (rangeStr : Text) : Bool :=
  requestExpr.rmatch rangeStr ||
    rangeStr.getLast? == some '\n' && requestExpr.rmatch rangeStr.dropLast

/-- `(\d+)-(\d+)`. -/
def rangeExpr : Regex Char :=
  cat [group "1" (rep Char.isDigit 1 none), lit "-".toList, group "2" (rep Char.isDigit 1 none)]

/-- `re.match(r'^(\d+)-(\d+)$', range_str)`: the first match that ends where `$`
matches. -/
def matchRange (rangeStr : Text) : Option (Match Char) :=
  (rangeExpr.run rangeStr).find? fun m => m.rest = [] ∨ m.rest = ['\n']

/-- `int`: digits, with white space around them.  A sign or an underscore, which it
takes as well, the expressions do not let through. -/
def int (s : Text) : Except PyException ℕ :=
  if strip s ≠ [] ∧ (strip s).all Char.isDigit then .ok (Nat.ofDigitChars 10 (strip s) 0)
  else .error ⟨.valueError, "invalid literal for int() with base 10".toList⟩

/-- The numbers that `RangeDataSource.__init__` finds in a piece of the request:
`range(a, b + 1)`. -/
def numbers (rangeStr : Text) : Except PyException (List ℕ) :=
  match matchRange rangeStr with
  | some m => do
      let a ← int ((m.group "1").getD [])
      let b ← int ((m.group "2").getD [])
      return List.range' a (b + 1 - a)
  | none => do
      let a ← int rangeStr
      return List.range' a 1

/-- `RangeDataSource.__init__`, and what `__next__` comes to then. -/
def new (fieldname rangeStr : Text) : Except PyException Source :=
  if isValid rangeStr then do
    let allRanges ← (rangeStr.splitOn ',').mapM numbers
    return allRanges.flatten.map fun n => .ok (Dict.empty.set fieldname (pyStr n))
  else .error ⟨.valueError, "'".toList ++ rangeStr ++ "' is not a valid array expressin".toList⟩

/-! ### What a request says -/

/-- A number as it is written. -/
structure Number where
  text : Text
  ne_nil : text ≠ []
  isDigit : ∀ c ∈ text, c.isDigit

/-- Its value. -/
def Number.value (n : Number) : ℕ := Nat.ofDigitChars 10 n.text 0

/-- An item of a request: a number, or two with a dash between them. -/
inductive Item where
  | single (n : Number)
  | range (a b : Number)

namespace Item

def text : Item → Text
  | single n => n.text
  | range a b => a.text ++ '-' :: b.text

/-- The number it begins with. -/
def first : Item → ℕ
  | single n => n.value
  | range a _ => a.value

/-- The number it ends with. -/
def last : Item → ℕ
  | single n => n.value
  | range _ b => b.value

/-- The numbers from the first to the last one. -/
def values (i : Item) : List ℕ := List.range' i.first (i.last + 1 - i.first)

end Item

/-- The sum over the items of the numbers from first to last, none for a reversed
range. -/
def total : List Item → ℤ
  | [] => 0
  | i :: items => max 0 ((i.last : ℤ) - i.first + 1) + total items

/-- The text of a list of items. -/
def requestText (items : List Item) : Text := [','].intercalate (items.map Item.text)

/-! ### The first expression -/

theorem mem_digits {c : Char} : c ∈ "0123456789".toList ↔ c.isDigit = true := by
  constructor
  · intro h
    have hall : "0123456789".toList.all Char.isDigit = true := by decide
    exact List.all_eq_true.1 hall c h
  · intro h
    have hbounds := toNat_of_isDigit h
    have hall : ∀ n < 58, 48 ≤ n → Char.ofNat n ∈ "0123456789".toList := by decide
    rw [← Char.ofNat_toNat c]
    exact hall c.toNat (by omega) hbounds.1

theorem mem_numberExpr {s : Text} : s ∈ (many1 digitExpr).matches' ↔ ∃ n : Number, s = n.text := by
  have hdigit : ∀ s, s ∈ digitExpr.matches' ↔ ∃ c : Char, c.isDigit = true ∧ s = [c] := by
    intro s
    rw [digitExpr, mem_oneOf]
    exact exists_congr fun c => and_congr_left fun _ => mem_digits
  rw [mem_many1 hdigit]
  constructor
  · rintro ⟨hne, hs⟩
    exact ⟨⟨s, hne, hs⟩, rfl⟩
  · rintro ⟨n, rfl⟩
    exact ⟨n.ne_nil, n.isDigit⟩

/-- The texts that match the expression for an item. -/
theorem mem_itemExpr {s : Text} : s ∈ itemExpr.matches' ↔ ∃ i : Item, s = i.text := by
  rw [itemExpr, matches'_mul, matches'_add, matches'_epsilon, matches'_mul, matches'_char,
    Language.mem_mul]
  constructor
  · rintro ⟨u, hu, v, hv, rfl⟩
    obtain ⟨a, rfl⟩ := mem_numberExpr.1 hu
    rcases hv with hv | hv
    · obtain rfl : v = [] := hv
      exact ⟨.single a, List.append_nil _⟩
    · obtain ⟨_, rfl, w, hw, rfl⟩ := Language.mem_mul.1 hv
      obtain ⟨b, rfl⟩ := mem_numberExpr.1 hw
      exact ⟨.range a b, rfl⟩
  · rintro ⟨i, rfl⟩
    cases i with
    | single n =>
        exact ⟨n.text, mem_numberExpr.2 ⟨n, rfl⟩, [], .inl rfl, List.append_nil _⟩
    | range a b =>
        exact ⟨a.text, mem_numberExpr.2 ⟨a, rfl⟩, '-' :: b.text,
          .inr (Language.mem_mul.2 ⟨['-'], rfl, b.text, mem_numberExpr.2 ⟨b, rfl⟩, rfl⟩), rfl⟩

/-- Texts of items come from items. -/
theorem exists_items {ys : List Text} (h : ∀ y ∈ ys, ∃ i : Item, y = i.text) :
    ∃ items : List Item, ys = items.map Item.text := by
  induction ys with
  | nil => exact ⟨[], rfl⟩
  | cons y ys ih =>
      rw [List.forall_mem_cons] at h
      obtain ⟨i, rfl⟩ := h.1
      obtain ⟨items, rfl⟩ := ih h.2
      exact ⟨i :: items, rfl⟩

/-- **What is accepted**: the lists of one or more items. -/
theorem isValid_iff {s : Text} (hs : '\n' ∉ s) :
    isValid s = true ↔ ∃ items, items ≠ [] ∧ s = requestText items := by
  have hlast : s.getLast? ≠ some '\n' := fun h => hs (List.mem_of_getLast? h)
  rw [isValid, Bool.or_eq_true, Bool.and_eq_true, beq_iff_eq, or_iff_left fun h => hlast h.1,
    rmatch_iff_matches', requestExpr, mem_sepBy]
  constructor
  · rintro ⟨ys, hne, hys, rfl⟩
    obtain ⟨items, rfl⟩ := exists_items fun y hy => mem_itemExpr.1 (hys y hy)
    exact ⟨items, fun h => hne (h ▸ rfl), rfl⟩
  · rintro ⟨items, hne, rfl⟩
    refine ⟨items.map Item.text, by simpa using hne, fun y hy => ?_, rfl⟩
    obtain ⟨i, -, rfl⟩ := List.mem_map.1 hy
    exact mem_itemExpr.2 ⟨i, rfl⟩

/-! ### The second expression and `int` -/

section Numbers

variable {n a b : Number} {i : Item}

/-- A text without white space is not changed. -/
theorem strip_of_forall {s : Text} (h : ∀ c ∈ s, isSpace c = false) : strip s = s := by
  have hfront : s.dropWhile isSpace = s := by
    cases s with
    | nil => rfl
    | cons c s =>
        rw [List.forall_mem_cons] at h
        rw [List.dropWhile_cons_of_neg (by simp [h.1])]
  rw [strip, hfront, List.rdropWhile_eq_self_iff]
  intro hne
  simp [h _ (List.getLast_mem hne)]

/-- `int` reads a number. -/
theorem int_text (n : Number) : int n.text = .ok n.value := by
  have hstrip : strip n.text = n.text :=
    strip_of_forall fun c hc => Resume.isSpace_of_isDigit (n.isDigit c hc)
  rw [int, hstrip, if_pos ⟨n.ne_nil, List.all_eq_true.2 n.isDigit⟩, Number.value]

theorem leads_number (n : Number) (v : Text) (hv : ∀ c ∈ v.head?, c.isDigit = false) :
    Leads (rep Char.isDigit 1 none) n.text v [] fun c => c.isDigit = true :=
  leads_rep (List.length_pos_iff.2 n.ne_nil) (reps_none n.isDigit hv) fun c hc =>
    n.isDigit c (List.mem_of_mem_drop hc)

/-- What stands behind the first number begins with no digit. -/
theorem rejects_dash (r : Regex Char) :
    Rejects (seq (lit "-".toList) r) fun c => c.isDigit = true :=
  Rejects.seq (rejects_lit (by decide))

/-- A number alone is no range. -/
theorem matchRange_single (n : Number) : matchRange n.text = none := by
  have hrun : rangeExpr.run (n.text ++ []) = [] :=
    Leads.seq_eq_nil (leads_number n [] (by simp)).group (rejects_dash _)
      (seq_eq_nil (run_lit_eq_nil (by decide)))
  rw [List.append_nil] at hrun
  rw [matchRange, hrun, List.find?_nil]

/-- Of a range the groups hold the two numbers. -/
theorem matchRange_range (a b : Number) : matchRange (a.text ++ '-' :: b.text) =
    some ⟨[("1", a.text), ("2", b.text)], a.text ++ '-' :: b.text, []⟩ := by
  have hsecond : Starts (cat [lit "-".toList, group "2" (rep Char.isDigit 1 none)])
      ('-' :: b.text) [] [("2", b.text)] :=
    Starts.cons (u := "-".toList) (leads_lit (q := fun _ => False)).starts
      (Starts.last (leads_number b [] (by simp)).starts.group)
  have hfirst : Leads (group "1" (rep Char.isDigit 1 none)) a.text ('-' :: b.text ++ [])
      [("1", a.text)] fun c => c.isDigit = true :=
    (leads_number a _ (by simp)).group
  obtain ⟨ms, hrun⟩ :
      Starts rangeExpr (a.text ++ '-' :: b.text) [] [("1", a.text), ("2", b.text)] :=
    hfirst.starts.seq hsecond
  rw [List.append_nil] at hrun
  rw [matchRange, hrun, List.find?_cons_of_pos (by simp)]

/-- **Every item is read as what it says.** -/
theorem numbers_text (i : Item) : numbers i.text = .ok i.values := by
  cases i with
  | single n =>
      have hone : n.value + 1 - n.value = 1 := by omega
      rw [numbers, Item.text, matchRange_single, int_text, Item.values, Item.first, Item.last, hone]
      rfl
  | range a b =>
      rw [numbers, Item.text, matchRange_range]
      show (int a.text >>= fun a => int b.text >>= fun b => .ok (List.range' a (b + 1 - a))) = _
      rw [int_text, int_text]
      rfl

end Numbers

/-! ### Requests -/

theorem comma_not_mem (i : Item) : ',' ∉ i.text := by
  have hnumber : ∀ n : Number, ',' ∉ n.text := fun n h => absurd (n.isDigit ',' h) (by decide)
  cases i with
  | single n => exact hnumber n
  | range a b =>
      rw [Item.text, List.mem_append, List.mem_cons]
      rintro (h | h | h)
      · exact hnumber a h
      · exact absurd h (by decide)
      · exact hnumber b h

/-- The commas stand between the items. -/
theorem splitOn_requestText {items : List Item} (h : items ≠ []) :
    (requestText items).splitOn ',' = items.map Item.text := by
  refine List.splitOn_intercalate ',' (fun t ht => ?_) (by simpa using h)
  obtain ⟨i, -, rfl⟩ := List.mem_map.1 ht
  exact comma_not_mem i

/-- Whatever reads the items as what they say. -/
theorem mapM_text {read : Text → Except PyException (List ℕ)} {items : List Item}
    (h : ∀ i ∈ items, read i.text = .ok i.values) :
    (items.map Item.text).mapM read = .ok (items.map Item.values) := by
  rw [List.mapM_map]
  exact mapM_eq_ok_map h

/-- **A request is read as what it says**: the rows hold the numbers of its items, in
order. -/
theorem new_requestText (fieldname : Text) {items : List Item} (h : items ≠ [])
    (hs : '\n' ∉ requestText items) :
    new fieldname (requestText items) =
      .ok ((items.flatMap Item.values).map fun k =>
        .ok (Dict.empty.set fieldname (pyStr k))) := by
  have hvalid : isValid (requestText items) = true :=
    (isValid_iff hs).2 ⟨items, h, rfl⟩
  rw [new, if_pos hvalid, splitOn_requestText h, mapM_text fun i _ => numbers_text i,
    List.flatMap_def]
  rfl

/-- There are as many rows as there are numbers between those of the items. -/
theorem length_values (items : List Item) :
    ((items.flatMap Item.values).length : ℤ) = total items := by
  induction items with
  | nil => rfl
  | cons i items ih =>
      rw [List.flatMap_cons, List.length_append, Int.natCast_add, ih, total, Item.values,
        List.length_range']
      congr 1
      omega

/-- **Array requests are accepted exactly when they are in the grammar, and mean
what they say.** -/
theorem rangeDataSource_spec (v s : Text) (hs : '\n' ∉ s) :
    ((∃ message, new v s = .error ⟨.valueError, message⟩) ↔
      ¬ ∃ items, items ≠ [] ∧ s = requestText items) ∧
    ∀ items, items ≠ [] → s = requestText items →
      ∃ rows : List Row, new v s = .ok (rows.map .ok) ∧
        rows = (items.flatMap Item.values).map (fun k => Dict.empty.set v (pyStr k)) ∧
        (rows.length : ℤ) = total items := by
  refine ⟨⟨?_, fun h => ?_⟩, ?_⟩
  · rintro ⟨message, herror⟩ ⟨items, hne, rfl⟩
    rw [new_requestText v hne hs] at herror
    cases herror
  · rw [← isValid_iff hs] at h
    exact ⟨_, by rw [new, if_neg h]⟩
  · rintro items hne rfl
    refine ⟨_, ?_, rfl, ?_⟩
    · rw [new_requestText v hne hs, List.map_map]
      rfl
    · rw [List.length_map, length_values]

/-- The number 7 with zeros in front. -/
def seven : Number := ⟨"007".toList, by decide, List.all_eq_true.1 (by decide)⟩

/-- The number 9. -/
def nine : Number := ⟨"9".toList, by decide, List.all_eq_true.1 (by decide)⟩

/-- A number, a range and one that is reversed. -/
theorem rangeDataSource_spec_mixed :
    ∃ rows : List Row, new "i".toList "007,007-9,9-007".toList = .ok (rows.map .ok) ∧
      rows.map (fun row => row.get? "i".toList) =
        [some "7".toList, some "7".toList, some "8".toList, some "9".toList] ∧
      (rows.length : ℤ) = 4 := by
  obtain ⟨rows, hnew, hrows, hlen⟩ := (rangeDataSource_spec "i".toList "007,007-9,9-007".toList
    (by decide)).2
      [.single seven, .range seven nine, .range nine seven] (by simp) (by decide)
  refine ⟨rows, hnew, ?_, ?_⟩
  · rw [hrows]
    decide
  · rw [hlen]
    decide

/-! ### The same source as before -/

section Before

variable {tb : Resume.CharTable} {s : Text}

/-- In an ASCII text only the digits from 0 to 9 are digits. -/
theorem isDigit_of_digit {c : Char} (hc : c.toNat < 128) (h : Resume.digit tb c = true) :
    c.isDigit = true := by
  by_contra hd
  rw [Resume.digit_of_not_isDigit hc (by simpa using hd)] at h
  exact absurd h (by decide)

/-- The text of an item, between its dashes. -/
theorem splitOn_text (i : Item) : i.text.splitOn '-' =
    match i with
    | .single n => [n.text]
    | .range a b => [a.text, b.text] := by
  have hnumber : ∀ n : Number, '-' ∉ n.text := fun n h => absurd (n.isDigit '-' h) (by decide)
  cases i with
  | single n => exact List.splitOn_eq_singleton (hnumber n)
  | range a b =>
      rw [Item.text, List.splitOn_append_cons_self_of_not_mem (hnumber a),
        List.splitOn_eq_singleton (hnumber b)]

/-- A piece of the request is a range for that source exactly if it is an item. -/
theorem isRange_iff (hascii : ∀ c ∈ s, c.toNat < 128) :
    RangeDataSource.isRange tb s = true ↔ ∃ i : Item, s = i.text := by
  have hback : ['-'].intercalate (s.splitOn '-') = s := List.intercalate_splitOn '-'
  rw [RangeDataSource.isRange, Bool.and_eq_true, decide_eq_true_iff, List.all_eq_true]
  constructor
  · rintro ⟨hlen, hall⟩
    have hnumber : ∀ t ∈ s.splitOn '-', (∀ c ∈ t, c ∈ s) → ∃ n : Number, t = n.text := by
      intro t ht hsub
      obtain ⟨hne, hdigit⟩ := Bool.and_eq_true_iff.1 (hall t ht)
      refine ⟨⟨t, by simpa using hne, fun c hc => ?_⟩, rfl⟩
      exact isDigit_of_digit (hascii c (hsub c hc)) (List.all_eq_true.1 hdigit c hc)
    match hsplit : s.splitOn '-' with
    | [] => exact absurd hsplit (List.splitOn_ne_nil '-' s)
    | [t] =>
        rw [hsplit, List.intercalate_singleton] at hback
        obtain ⟨n, rfl⟩ := hnumber t (by rw [hsplit]; simp) (by simp [hback])
        exact ⟨.single n, hback.symm⟩
    | [t, u] =>
        rw [hsplit, List.intercalate_cons_cons, List.intercalate_singleton] at hback
        obtain ⟨a, rfl⟩ := hnumber t (by rw [hsplit]; simp) (by simp +contextual [← hback])
        obtain ⟨b, rfl⟩ := hnumber u (by rw [hsplit]; simp) (by simp +contextual [← hback])
        exact ⟨.range a b, by rw [← hback]; simp [Item.text]⟩
    | _ :: _ :: _ :: _ =>
        rw [hsplit] at hlen
        simp at hlen
  · rintro ⟨i, rfl⟩
    have hnumber : ∀ n : Number, n.text ≠ [] ∧ ∀ c ∈ n.text, Resume.digit tb c = true :=
      fun n => ⟨n.ne_nil, fun c hc => Resume.digit_of_isDigit (n.isDigit c hc)⟩
    rw [splitOn_text]
    cases i with
    | single n => simpa using hnumber n
    | range a b => simpa using ⟨hnumber a, hnumber b⟩

theorem subset_of_mem_splitOn {t : Text} (h : t ∈ s.splitOn ',') : t ⊆ s := by
  have hback : [','].intercalate (s.splitOn ',') = s := List.intercalate_splitOn ','
  rcases hsplit : s.splitOn ',' with _ | ⟨u, us⟩
  · exact absurd hsplit (List.splitOn_ne_nil ',' s)
  rw [hsplit] at h hback
  rw [← hback, Lines.intercalate_cons]
  intro c hc
  rcases List.mem_cons.1 h with rfl | h
  · exact List.mem_append_left _ hc
  · exact List.mem_append_right _ (List.mem_flatten.2
      ⟨',' :: t, List.mem_map_of_mem h, List.mem_cons_of_mem _ hc⟩)

/-- That source accepts the same requests. -/
theorem isValid_eq (hs : '\n' ∉ s) (hascii : ∀ c ∈ s, c.toNat < 128) :
    RangeDataSource.isValid tb s = isValid s := by
  have hlast : s.getLast? ≠ some '\n' := fun h => hs (List.mem_of_getLast? h)
  have hpiece : ∀ t ∈ s.splitOn ',', RangeDataSource.isRange tb t = true ↔
      ∃ i : Item, t = i.text := fun t ht =>
    isRange_iff fun c hc => hascii c (subset_of_mem_splitOn ht hc)
  rw [Bool.eq_iff_iff, isValid_iff hs, RangeDataSource.isValid, RangeDataSource.ranges,
    if_neg hlast, List.all_eq_true]
  constructor
  · intro h
    obtain ⟨items, hitems⟩ := exists_items fun t ht => (hpiece t ht).1 (h t ht)
    refine ⟨items, ?_, ?_⟩
    · rintro rfl
      exact List.splitOn_ne_nil ',' s hitems
    · rw [requestText, ← hitems, List.intercalate_splitOn]
  · rintro ⟨items, hne, rfl⟩ t ht
    refine (hpiece t ht).2 ?_
    rw [splitOn_requestText hne] at ht
    obtain ⟨i, -, rfl⟩ := List.mem_map.1 ht
    exact ⟨i, rfl⟩

/-- That source reads an item alike, if `int` takes its numbers. -/
theorem numbers_eq {i : Item} (h : i.text.length ≤ 4300) :
    RangeDataSource.numbers tb i.text = .ok i.values := by
  have hint : ∀ n : Number, n.text.length ≤ 4300 → pyInt tb n.text = .ok n.value := by
    intro n hn
    rw [pyInt, if_pos hn, Resume.natOf_eq n.isDigit, Number.value]
  rw [RangeDataSource.numbers, splitOn_text]
  cases i with
  | single n =>
      have hone : n.value + 1 - n.value = 1 := by omega
      show (pyInt tb n.text >>= fun a => Except.ok [a]) = _
      rw [hint n h, Item.values, Item.first, Item.last, hone]
      rfl
  | range a b =>
      have hlen : a.text.length + (b.text.length + 1) = (Item.range a b).text.length := by
        rw [Item.text, List.length_append, List.length_cons]
      show (pyInt tb a.text >>= fun a => pyInt tb b.text >>= fun b =>
        Except.ok (List.range' a (b + 1 - a))) = _
      rw [hint a (by omega), hint b (by omega)]
      rfl

/-- **Requests of ASCII characters are read as by the source that the data sources
hold**, as long as `int` takes their numbers. -/
theorem new_eq (v : Text) (hs : '\n' ∉ s) (hascii : ∀ c ∈ s, c.toNat < 128)
    (hlen : ∀ t ∈ s.splitOn ',', t.length ≤ 4300) : RangeDataSource.new tb v s = new v s := by
  have hlast : s.getLast? ≠ some '\n' := fun h => hs (List.mem_of_getLast? h)
  rw [RangeDataSource.new, isValid_eq hs hascii]
  by_cases hv : isValid s = true
  · obtain ⟨items, hne, rfl⟩ := (isValid_iff hs).1 hv
    rw [splitOn_requestText hne] at hlen
    have hmap : (items.map Item.text).mapM (RangeDataSource.numbers tb) =
        .ok (items.map Item.values) :=
      mapM_text fun i hi => numbers_eq (hlen i.text (List.mem_map_of_mem hi))
    rw [if_pos hv, new_requestText v hne hs, RangeDataSource.ranges, if_neg hlast,
      splitOn_requestText hne, hmap, List.flatMap_def]
    rfl
  · rw [if_neg hv, new, if_neg hv]

end Before

end ArrayRequest
end Submit
end WorkerNg
