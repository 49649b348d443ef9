import Mathlib.Order.Lattice
import Mathlib.Order.Basic
import Mathlib.Tactic.Linarith

/-!
# Dates, timestamps and their text

The calendar types behind `fti` and `lti`, and the text they travel through:

* `Date`: a Cassandra `date` as the driver hands it over, a `datetime.date`;
* `Timestamp`: a `pd.Timestamp`, to the nanosecond;
* `strftime`: the canonical output format `DT_FMT`, `dd-mm-yyyy hh:mm:ss`;
* `strptime`: an exact match against one of the accepted input formats;
* `pdTimestamp`: how `pd.Timestamp` itself reads a string in `DT_FMT`, month first
  whenever that is a date.
-/

namespace NetBuild

/-- Text, as the characters it is made of. -/
abbrev Text := List Char

/-! ## The calendar -/

def isLeap (y : ℕ) : Bool := y % 4 = 0 && (y % 100 ≠ 0 || y % 400 = 0)

def daysInMonth (y m : ℕ) : ℕ :=
  if m = 2 then (if isLeap y then 29 else 28)
  else if m = 4 ∨ m = 6 ∨ m = 9 ∨ m = 11 then 30
  else 31

theorem daysInMonth_le (y m : ℕ) : daysInMonth y m ≤ 31 := by
  unfold daysInMonth; split_ifs <;> omega

theorem le_daysInMonth (y m : ℕ) : 28 ≤ daysInMonth y m := by
  unfold daysInMonth; split_ifs <;> omega

/-- A calendar date of the years 1 to 9999. -/
structure Date where
  year : ℕ
  month : ℕ
  day : ℕ
  year_mem : 1 ≤ year ∧ year ≤ 9999
  month_mem : 1 ≤ month ∧ month ≤ 12
  day_mem : 1 ≤ day ∧ day ≤ daysInMonth year month
  deriving DecidableEq

namespace Date

/-- The date with these components, when there is one. -/
def ofYmd (y m d : ℕ) : Option Date :=
  if h : (1 ≤ y ∧ y ≤ 9999) ∧ (1 ≤ m ∧ m ≤ 12) ∧ 1 ≤ d ∧ d ≤ daysInMonth y m then
    some ⟨y, m, d, h.1, h.2.1, h.2.2⟩
  else none

theorem day_le (d : Date) : d.day ≤ 31 := d.day_mem.2.trans (daysInMonth_le _ _)

theorem ofYmd_self (d : Date) : ofYmd d.year d.month d.day = some d :=
  dif_pos ⟨d.year_mem, d.month_mem, d.day_mem⟩

theorem year_2024 : 1 ≤ 2024 ∧ 2024 ≤ 9999 := by decide

/-- A date of 2024. -/
def of2024 (m d : ℕ) (h : (1 ≤ m ∧ m ≤ 12) ∧ 1 ≤ d ∧ d ≤ daysInMonth 2024 m) : Date :=
  ⟨2024, m, d, year_2024, h.1, h.2⟩

/-- A number that orders dates as the calendar does. -/
def key (d : Date) : ℕ := (d.year * 16 + d.month) * 32 + d.day

theorem key_injective : Function.Injective key := by
  rintro ⟨y, m, d, hy, hm, hd⟩ ⟨y', m', d', hy', hm', hd'⟩ h
  have h1 := hd.2.trans (daysInMonth_le y m)
  have h2 := hd'.2.trans (daysInMonth_le y' m')
  simp only [key] at h
  obtain ⟨rfl, rfl, rfl⟩ : y = y' ∧ m = m' ∧ d = d' := by omega
  rfl

instance : LinearOrder Date := LinearOrder.lift' key key_injective

/-- Days up to the date, with 1 January of the year 1 as day 1 (`date.toordinal`). -/
def toOrdinal (d : Date) : ℕ :=
  (d.year - 1) * 365 + (d.year - 1) / 4 - (d.year - 1) / 100 + (d.year - 1) / 400
    + ((List.range' 1 (d.month - 1)).map (daysInMonth d.year)).sum + d.day

/-- The month and day reached after `n` whole days from the first day of the months listed. -/
def splitMonth (y : ℕ) : List ℕ → ℕ → ℕ × ℕ
  | [], n => (12, n + 1)
  | m :: ms, n => if n < daysInMonth y m then (m, n + 1) else splitMonth y ms (n - daysInMonth y m)

/-- The date with a given ordinal (`date.fromordinal`), by whole 400, 100, 4 and 1 year cycles. -/
def ofOrdinal (n : ℕ) : Option Date :=
  if n = 0 then none else
  let r400 := (n - 1) % 146097
  let r100 := r400 % 36524
  let r4 := r100 % 1461
  let n1 := r4 / 365
  let year := (n - 1) / 146097 * 400 + r400 / 36524 * 100 + r100 / 1461 * 4 + n1 + 1
  if n1 = 4 ∨ r400 / 36524 = 4 then ofYmd (year - 1) 12 31
  else
    let md := splitMonth year (List.range' 1 12) (r4 % 365)
    ofYmd year md.1 md.2

end Date

/-- Nanoseconds in a day. -/
def dayNanos : ℕ := 86400000000000

/-- A `pd.Timestamp`: a date and the nanoseconds since its midnight. -/
structure Timestamp where
  date : Date
  nanos : ℕ
  nanos_lt : nanos < dayNanos
  deriving DecidableEq

namespace Timestamp

/-- Midnight of a date: what a date column becomes on the way into a DataFrame. -/
def ofDate (d : Date) : Timestamp := ⟨d, 0, by decide⟩

def key (t : Timestamp) : ℕ := t.date.key * dayNanos + t.nanos

theorem key_injective : Function.Injective key := by
  rintro ⟨d, n, hn⟩ ⟨d', n', hn'⟩ h
  simp only [key, dayNanos] at h hn hn'
  have hd : d.key = d'.key := by omega
  obtain rfl : n = n' := by omega
  obtain rfl := Date.key_injective hd
  rfl

instance : LinearOrder Timestamp := LinearOrder.lift' key key_injective

theorem le_iff_key (t u : Timestamp) : t ≤ u ↔ t.key ≤ u.key := Iff.rfl

theorem ofDate_le_ofDate {d e : Date} : ofDate d ≤ ofDate e ↔ d ≤ e := by
  change d.key * dayNanos + 0 ≤ e.key * dayNanos + 0 ↔ d.key ≤ e.key
  simp only [dayNanos]
  omega

theorem ofDate_injective : Function.Injective ofDate := fun _ _ h => congrArg date h

theorem ofDate_monotone : Monotone ofDate := fun _ _ h => ofDate_le_ofDate.mpr h

/-- Seconds since midnight, dropping the fraction. -/
def seconds (t : Timestamp) : ℕ := t.nanos / 1000000000

theorem seconds_lt (t : Timestamp) : t.seconds < 86400 := by
  have := t.nanos_lt
  simp only [seconds, dayNanos] at *
  omega

/-- A timestamp with no fraction of a second. -/
def WholeSecond (t : Timestamp) : Prop := t.nanos % 1000000000 = 0

theorem wholeSecond_ofDate (d : Date) : (ofDate d).WholeSecond := rfl

/-- The timestamp at a time of day, when both are valid. -/
def ofClock (d : Date) (h m s : ℕ) : Option Timestamp :=
  if hc : h < 24 ∧ m < 60 ∧ s < 60 then
    some ⟨d, ((h * 60 + m) * 60 + s) * 1000000000, by simp only [dayNanos]; omega⟩
  else none

/-- The time of day of a whole-second timestamp, put on any date. -/
theorem ofClock_seconds (t : Timestamp) (ht : t.WholeSecond) (d : Date) :
    ofClock d (t.seconds / 3600) (t.seconds / 60 % 60) (t.seconds % 60)
      = some { t with date := d } := by
  have hlt := t.seconds_lt
  obtain ⟨_, n, hn⟩ := t
  simp only [seconds, WholeSecond] at *
  rw [ofClock, dif_pos (by omega)]
  simp only [Option.some.injEq, mk.injEq, true_and]
  omega

/-- `pd.Timestamp.min`, 1677-09-21 00:12:43.145224193. -/
def pdMin : Timestamp := ⟨⟨1677, 9, 21, by decide, by decide, by decide⟩, 763145224193, by decide⟩

/-- A number read by `pd.to_datetime`: nanoseconds since 1970, within a 64-bit integer. -/
def ofEpochNanos (n : ℤ) : Option Timestamp :=
  if h : -9223372036854775808 < n ∧ n < 9223372036854775808 then
    (Date.ofOrdinal (719163 + n / 86400000000000).toNat).map fun d =>
      ⟨d, (n % 86400000000000).toNat, by simp only [dayNanos]; omega⟩
  else none

/-! ## Text -/

/-- `n` in two decimal digits. -/
def pad2 (n : ℕ) : Text := [Nat.digitChar (n / 10 % 10), Nat.digitChar (n % 10)]

/-- `n` in four decimal digits. -/
def pad4 (n : ℕ) : Text := pad2 (n / 100) ++ pad2 n

/-- `%Y`, which glibc does not pad. -/
def yearText (y : ℕ) : Text := if y < 1000 then Nat.toDigits 10 y else pad4 y

/-- `t.strftime(DT_FMT)`, that is `%d-%m-%Y %H:%M:%S`. -/
def strftime (t : Timestamp) : Text :=
  pad2 t.date.day ++ '-' :: pad2 t.date.month ++ '-' :: yearText t.date.year ++ ' ' ::
    pad2 (t.seconds / 3600) ++ ':' :: pad2 (t.seconds / 60 % 60) ++ ':' :: pad2 (t.seconds % 60)

end Timestamp

/-! ## Reading text -/

/-- The directives the formats use, and the literal characters between them. -/
inductive Directive
  | d | m | Y | H | M | S
  | lit (c : Char)

/-- The components a match collects. -/
structure Clock where
  year : ℕ := 1900
  month : ℕ := 1
  day : ℕ := 1
  hour : ℕ := 0
  minute : ℕ := 0
  second : ℕ := 0

def digit? (c : Char) : Option ℕ := if c.isDigit then some (c.toNat - 48) else none

/-- One or two digits, as many as there are. -/
def twoDigits : Text → Option (ℕ × Text)
  | [] => none
  | c :: rest =>
    match digit? c, rest with
    | none, _ => none
    | some a, [] => some (a, [])
    | some a, c' :: rest' =>
      match digit? c' with
      | none => some (a, c' :: rest')
      | some b => some (10 * a + b, rest')

/-- Exactly four digits. -/
def fourDigits : Text → Option (ℕ × Text)
  | c₁ :: c₂ :: c₃ :: c₄ :: rest =>
    match digit? c₁, digit? c₂, digit? c₃, digit? c₄ with
    | some a, some b, some c, some d => some (((a * 10 + b) * 10 + c) * 10 + d, rest)
    | _, _, _, _ => none
  | _ => none

/-- Match the whole text against a format. -/
def matchFormat : List Directive → Text → Clock → Option Clock
  | [], [], k => some k
  | [], _ :: _, _ => none
  | .lit c :: fmt, x :: s, k => if x = c then matchFormat fmt s k else none
  | .lit _ :: _, [], _ => none
  | .Y :: fmt, s, k => (fourDigits s).bind fun (n, s') => matchFormat fmt s' { k with year := n }
  | .d :: fmt, s, k => (twoDigits s).bind fun (n, s') => matchFormat fmt s' { k with day := n }
  | .m :: fmt, s, k => (twoDigits s).bind fun (n, s') => matchFormat fmt s' { k with month := n }
  | .H :: fmt, s, k => (twoDigits s).bind fun (n, s') => matchFormat fmt s' { k with hour := n }
  | .M :: fmt, s, k => (twoDigits s).bind fun (n, s') => matchFormat fmt s' { k with minute := n }
  | .S :: fmt, s, k => (twoDigits s).bind fun (n, s') => matchFormat fmt s' { k with second := n }

/-- The timestamp the components name, when they are a date and a time of day. -/
def Clock.timestamp (k : Clock) : Option Timestamp :=
  (Date.ofYmd k.year k.month k.day).bind fun d => Timestamp.ofClock d k.hour k.minute k.second

/-- `pd.to_datetime(s, format=fmt, errors="coerce")`, taken as an exact match of the format, with
`NaT` as `none`. -/
def strptime (fmt : List Directive) (s : Text) : Option Timestamp :=
  (matchFormat fmt s {}).bind Clock.timestamp

/-- A date-and-time format with the given separator: day, month, year, hour and minute,
and the second if asked for. -/
def dmyFormat (sep : Char) (withSeconds : Bool) : List Directive :=
  [.d, .lit sep, .m, .lit sep, .Y, .lit ' ', .H, .lit ':', .M]
    ++ if withSeconds then [.lit ':', .S] else []

/-- `DT_FMT`, the canonical output format. -/
def dtFmt : List Directive := dmyFormat '-' true

/-- `IN_FMTS` of `net_building`, tried in order. -/
def inFmts : List (List Directive) :=
  [dmyFormat ':' true, dmyFormat ':' false, dmyFormat '-' true, dmyFormat '-' false,
    dmyFormat '/' true, dmyFormat '/' false]

/-- The characters `str.strip` removes. -/
def isSpace (c : Char) : Bool :=
  c.toNat ∈ [9, 10, 11, 12, 13, 28, 29, 30, 31, 32, 133, 160, 5760, 8192, 8193, 8194, 8195, 8196,
    8197, 8198, 8199, 8200, 8201, 8202, 8232, 8233, 8239, 8287, 12288]

/-- `s.strip()`. -/
def strip (s : Text) : Text := ((s.dropWhile isSpace).reverse.dropWhile isSpace).reverse

/-- The first of the formats that reads the stripped text. -/
def parseText (fmts : List (List Directive)) (s : Text) : Option Timestamp :=
  if strip s = [] then none else fmts.findSome? fun fmt => strptime fmt (strip s)

/-- How `pd.Timestamp` reads text in `DT_FMT`: month first whenever that is a valid date,
day first otherwise. This is what storing such text in a `datetime64` cell leaves there. -/
def pdTimestamp (s : Text) : Option Timestamp :=
  (strptime [.m, .lit '-', .d, .lit '-', .Y, .lit ' ', .H, .lit ':', .M, .lit ':', .S] s).or
    (strptime dtFmt s)

/-- The date with its day and month exchanged, if that is a date. -/
def Date.monthFirst (d : Date) : Date := (Date.ofYmd d.year d.day d.month).getD d

/-- The timestamp `pd.Timestamp` makes of a timestamp's `DT_FMT` text. -/
def Timestamp.monthFirst (t : Timestamp) : Timestamp := { t with date := t.date.monthFirst }

end NetBuild
