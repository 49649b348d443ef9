import NetBuild.Timestamp
import Mathlib.Tactic.IntervalCases

/-!
# Reading back what was formatted

`strftime` writes a whole-second timestamp in a form only one of the accepted input formats
reads, and that format reads the timestamp back; `pd.Timestamp` reads the same text with the
day and the month exchanged whenever the day could be a month.
-/

namespace NetBuild

/-! ## Digits -/

theorem digit?_digitChar {k : ℕ} (h : k < 10) : digit? (Nat.digitChar k) = some k := by
  interval_cases k <;> rfl

theorem isSpace_digitChar {k : ℕ} (h : k < 10) : isSpace (Nat.digitChar k) = false := by
  interval_cases k <;> decide

theorem twoDigits_pad2 {n : ℕ} (h : n < 100) (rest : Text) :
    twoDigits (Timestamp.pad2 n ++ rest) = some (n, rest) := by
  have h1 : digit? (Nat.digitChar (n / 10 % 10)) = some (n / 10 % 10) :=
    digit?_digitChar (Nat.mod_lt _ (by norm_num))
  have h2 : digit? (Nat.digitChar (n % 10)) = some (n % 10) :=
    digit?_digitChar (Nat.mod_lt _ (by norm_num))
  simp only [Timestamp.pad2, List.cons_append, List.nil_append, twoDigits, h1, h2,
    Option.some.injEq, Prod.mk.injEq, and_true]
  omega

theorem fourDigits_pad4 {n : ℕ} (h : n < 10000) (rest : Text) :
    fourDigits (Timestamp.pad4 n ++ rest) = some (n, rest) := by
  have hd : ∀ k : ℕ, digit? (Nat.digitChar (k % 10)) = some (k % 10) := fun k =>
    digit?_digitChar (Nat.mod_lt _ (by norm_num))
  simp only [Timestamp.pad4, Timestamp.pad2, List.cons_append, List.nil_append, fourDigits, hd,
    Option.some.injEq, Prod.mk.injEq, and_true]
  omega

/-- What `%Y` reads starts with four digits. -/
theorem digit?_of_fourDigits {s r : Text} {n : ℕ} (h : fourDigits s = some (n, r)) :
    ∃ w, s = w ++ r ∧ w.length = 4 ∧ ∀ c ∈ w, (digit? c).isSome = true := by
  rcases s with _ | ⟨c₁, _ | ⟨c₂, _ | ⟨c₃, _ | ⟨c₄, s⟩⟩⟩⟩
  · exact nomatch h
  · exact nomatch h
  · exact nomatch h
  · exact nomatch h
  unfold fourDigits at h
  rcases h₁ : digit? c₁ with _ | a
  · simp [h₁] at h
  rcases h₂ : digit? c₂ with _ | b
  · simp [h₁, h₂] at h
  rcases h₃ : digit? c₃ with _ | c
  · simp [h₁, h₂, h₃] at h
  rcases h₄ : digit? c₄ with _ | d
  · simp [h₁, h₂, h₃, h₄] at h
  simp only [h₁, h₂, h₃, h₄, Option.some.injEq, Prod.mk.injEq] at h
  exact ⟨[c₁, c₂, c₃, c₄], by rw [← h.2]; rfl, rfl, by simp [h₁, h₂, h₃, h₄]⟩

namespace Timestamp

/-- The year is one of four digits. -/
def FourDigit (t : Timestamp) : Prop := 1000 ≤ t.date.year

instance (t : Timestamp) : Decidable t.FourDigit := inferInstanceAs (Decidable (_ ≤ _))

theorem fourDigits_yearText {y : ℕ} (h : 1000 ≤ y) (h' : y < 10000) (rest : Text) :
    fourDigits (yearText y ++ rest) = some (y, rest) := by
  rw [yearText, if_neg (by omega)]
  exact fourDigits_pad4 h' rest

/-- The text of an earlier year is too short for `%Y`. -/
theorem fourDigits_yearText_of_lt {y : ℕ} (h : y < 1000) (rest : Text) :
    fourDigits (yearText y ++ ' ' :: rest) = none := by
  rcases hread : fourDigits (yearText y ++ ' ' :: rest) with _ | ⟨n, r⟩
  · rfl
  obtain ⟨w, hw, hlen, hdigits⟩ := digit?_of_fourDigits hread
  rw [yearText, if_pos h] at hw
  have hshort : (Nat.toDigits 10 y).length ≤ 3 :=
    (Nat.length_toDigits_le_iff (by norm_num) (by norm_num)).mpr h
  -- the blank after the year is among the first four characters
  have hmem : ' ' ∈ w := by
    have htake := congrArg (List.take 4) hw
    rw [List.take_left' hlen, List.take_append] at htake
    rw [← htake]
    refine List.mem_append_right _ ?_
    obtain ⟨k, hk⟩ : ∃ k, 4 - (Nat.toDigits 10 y).length = k + 1 :=
      ⟨3 - (Nat.toDigits 10 y).length, by omega⟩
    rw [hk]
    exact List.mem_cons_self
  exact absurd (hdigits ' ' hmem) (by decide)

end Timestamp

/-! ## The text of a timestamp -/

/-- The components a day-first match of the text of `t` collects. -/
def Timestamp.clock (t : Timestamp) : Clock :=
  ⟨t.date.year, t.date.month, t.date.day, t.seconds / 3600, t.seconds / 60 % 60,
    t.seconds % 60⟩

section
variable (t : Timestamp)

private theorem clock_bounds :
    t.date.day < 100 ∧ t.date.month < 100 ∧ t.date.year < 10000 ∧ t.seconds / 3600 < 100 ∧
      t.seconds / 60 % 60 < 100 ∧ t.seconds % 60 < 100 := by
  have h1 := t.date.day_le
  have h2 := t.date.month_mem
  have h3 := t.date.year_mem
  have h4 := t.seconds_lt
  omega

theorem strip_strftime : strip t.strftime = t.strftime := by
  have hd : ∀ k : ℕ, isSpace (Nat.digitChar (k % 10)) = false := fun k =>
    isSpace_digitChar (Nat.mod_lt _ (by norm_num))
  simp [strip, Timestamp.strftime, Timestamp.pad2, hd]

theorem strftime_ne_nil : t.strftime ≠ [] := by
  simp [Timestamp.strftime, Timestamp.pad2]

/-- A format with another separator does not match the text of a timestamp. -/
theorem matchFormat_of_sep {sep : Char} (hs : sep ≠ '-') (b : Bool) (k : Clock) :
    matchFormat (dmyFormat sep b) t.strftime k = none := by
  obtain ⟨h1, -⟩ := clock_bounds t
  simp only [dmyFormat, List.cons_append, Timestamp.strftime, List.append_assoc, matchFormat,
    twoDigits_pad2 h1, Option.bind_some]
  rw [if_neg (Ne.symm hs)]

/-- Two directives before the year, and any after it: the year is read only if it has four
digits. -/
theorem matchFormat_of_short (hy : ¬ t.FourDigit) {a b : Directive}
    (hab : a = .d ∧ b = .m ∨ a = .m ∧ b = .d) (fmt : List Directive) (k : Clock) :
    matchFormat (a :: .lit '-' :: b :: .lit '-' :: .Y :: fmt) t.strftime k = none := by
  obtain ⟨h1, h2, -⟩ := clock_bounds t
  rcases hab with ⟨rfl, rfl⟩ | ⟨rfl, rfl⟩ <;>
  simp only [List.cons_append, Timestamp.strftime, List.append_assoc, matchFormat, if_true,
    twoDigits_pad2 h1, twoDigits_pad2 h2, Option.bind_some,
    Timestamp.fourDigits_yearText_of_lt (Nat.lt_of_not_le hy), Option.bind_none]

variable {t}

/-- `DT_FMT` matches the text of a timestamp. -/
theorem matchFormat_strftime (hy : t.FourDigit) :
    matchFormat dtFmt t.strftime {} = some t.clock := by
  obtain ⟨h1, h2, h3, h4, h5, h6⟩ := clock_bounds t
  have h6' := twoDigits_pad2 h6 []
  rw [List.append_nil] at h6'
  simp only [dtFmt, dmyFormat, if_true, List.cons_append, List.nil_append, Timestamp.strftime,
    List.append_assoc, matchFormat, twoDigits_pad2 h1, twoDigits_pad2 h2,
    Timestamp.fourDigits_yearText hy h3, twoDigits_pad2 h4, twoDigits_pad2 h5, h6',
    Option.bind_some]
  rfl

/-- The same text read month first. -/
theorem matchFormat_monthFirst (hy : t.FourDigit) :
    matchFormat [.m, .lit '-', .d, .lit '-', .Y, .lit ' ', .H, .lit ':', .M, .lit ':', .S]
      t.strftime {} = some { t.clock with month := t.date.day, day := t.date.month } := by
  obtain ⟨h1, h2, h3, h4, h5, h6⟩ := clock_bounds t
  have h6' := twoDigits_pad2 h6 []
  rw [List.append_nil] at h6'
  simp only [List.cons_append, Timestamp.strftime,
    List.append_assoc, matchFormat, if_true, twoDigits_pad2 h1, twoDigits_pad2 h2,
    Timestamp.fourDigits_yearText hy h3, twoDigits_pad2 h4, twoDigits_pad2 h5, h6',
    Option.bind_some]
  rfl

theorem timestamp_clock (ht : t.WholeSecond) : t.clock.timestamp = some t := by
  rw [Clock.timestamp, Timestamp.clock, Date.ofYmd_self]
  exact Timestamp.ofClock_seconds t ht t.date

theorem strptime_strftime (ht : t.WholeSecond) (hy : t.FourDigit) :
    strptime dtFmt t.strftime = some t := by
  rw [strptime, matchFormat_strftime hy, Option.bind_some, timestamp_clock ht]

theorem parseText_strftime_eq : parseText inFmts t.strftime =
    (strptime (dmyFormat '-' true) t.strftime).or (strptime (dmyFormat '-' false) t.strftime) := by
  have hsep : ∀ sep : Char, sep ≠ '-' → ∀ b, strptime (dmyFormat sep b) t.strftime = none :=
    fun sep hs b => by rw [strptime, matchFormat_of_sep t hs]; rfl
  rw [parseText, strip_strftime, if_neg (strftime_ne_nil t), inFmts]
  simp only [List.findSome?_cons, List.findSome?_nil, hsep ':' (by decide), hsep '/' (by decide)]
  cases strptime (dmyFormat '-' true) t.strftime <;>
    cases strptime (dmyFormat '-' false) t.strftime <;> rfl

/-- Parsing the canonical text of a whole-second timestamp gives the timestamp back. -/
theorem parseText_strftime (ht : t.WholeSecond) (hy : t.FourDigit) :
    parseText inFmts t.strftime = some t := by
  rw [parseText_strftime_eq, ← dtFmt, strptime_strftime ht hy]
  rfl

/-- The text of a year before 1000 does not parse. -/
theorem parseText_strftime_of_short (hy : ¬ t.FourDigit) : parseText inFmts t.strftime = none := by
  have hnone : ∀ b, strptime (dmyFormat '-' b) t.strftime = none := fun b => by
    rw [strptime, show dmyFormat '-' b = .d :: .lit '-' :: .m :: .lit '-' :: .Y ::
      (.lit ' ' :: .H :: .lit ':' :: .M :: if b then [.lit ':', .S] else []) from rfl,
      matchFormat_of_short t hy (.inl ⟨rfl, rfl⟩)]
    rfl
  rw [parseText_strftime_eq, hnone, hnone]
  rfl

/-- `pd.Timestamp` reads the canonical text month first when it can. -/
theorem pdTimestamp_strftime (ht : t.WholeSecond) (hy : t.FourDigit) :
    pdTimestamp t.strftime = some t.monthFirst := by
  have hc : Clock.timestamp { t.clock with month := t.date.day, day := t.date.month }
      = (Date.ofYmd t.date.year t.date.day t.date.month).map fun d => { t with date := d } := by
    rw [Clock.timestamp, Option.map_eq_bind]
    exact congrArg _ (funext (Timestamp.ofClock_seconds t ht))
  rw [pdTimestamp, strptime_strftime ht hy, strptime, matchFormat_monthFirst hy, Option.bind_some,
    hc, Timestamp.monthFirst, Date.monthFirst]
  cases Date.ofYmd t.date.year t.date.day t.date.month <;> rfl

/-- A year before 1000 is not written as `DT_FMT` has it. -/
theorem pdTimestamp_strftime_of_short (hy : ¬ t.FourDigit) : pdTimestamp t.strftime = none := by
  rw [pdTimestamp, strptime, strptime, matchFormat_of_short t hy (.inr ⟨rfl, rfl⟩),
    show dtFmt = .d :: .lit '-' :: .m :: .lit '-' :: .Y ::
      [.lit ' ', .H, .lit ':', .M, .lit ':', .S] from rfl,
    matchFormat_of_short t hy (.inl ⟨rfl, rfl⟩)]
  rfl

end

/-- Text is read to the second. -/
theorem wholeSecond_of_parseText {fmts : List (List Directive)} {s : Text} {t : Timestamp}
    (h : parseText fmts s = some t) : t.WholeSecond := by
  unfold parseText at h
  split at h
  · exact nomatch h
  · obtain ⟨fmt, -, hfmt⟩ := List.exists_of_findSome?_eq_some h
    obtain ⟨k, -, hk⟩ := Option.bind_eq_some_iff.mp hfmt
    obtain ⟨d, -, hd⟩ := Option.bind_eq_some_iff.mp hk
    unfold Timestamp.ofClock at hd
    split at hd
    · obtain rfl := Option.some.inj hd
      exact Nat.mul_mod_left _ _
    · exact nomatch hd

/-! ## Day and month exchanged -/

namespace Date

theorem monthFirst_of_le {d : Date} (h : d.day ≤ 12) :
    d.monthFirst.year = d.year ∧ d.monthFirst.month = d.day ∧ d.monthFirst.day = d.month := by
  have hd := d.day_mem
  have hm := d.month_mem
  have := le_daysInMonth d.year d.day
  rw [monthFirst, ofYmd, dif_pos ⟨d.year_mem, ⟨hd.1, h⟩, by omega, by omega⟩]
  exact ⟨rfl, rfl, rfl⟩

theorem monthFirst_of_lt {d : Date} (h : 12 < d.day) : d.monthFirst = d := by
  rw [monthFirst, ofYmd, dif_neg (by omega)]; rfl

/-- A date that reads the same day first and month first. -/
def Unambiguous (d : Date) : Prop := d.day ≤ 12 → d.day = d.month

instance (d : Date) : Decidable d.Unambiguous := inferInstanceAs (Decidable (_ → _))

theorem monthFirst_eq_self_iff (d : Date) : d.monthFirst = d ↔ d.Unambiguous := by
  constructor
  · intro h hle
    have := monthFirst_of_le hle
    rw [h] at this
    exact this.2.1.symm
  · intro h
    by_cases hle : d.day ≤ 12
    · obtain ⟨h1, h2, h3⟩ := monthFirst_of_le hle
      have he := h hle
      apply key_injective
      rw [key, key, h1, h2, h3, ← he]
    · exact monthFirst_of_lt (by omega)

end Date

/-! ## Ordinals -/

namespace Date

/-- The days of the years before `y`. -/
def daysBefore (y : ℕ) : ℕ := (y - 1) * 365 + (y - 1) / 4 - (y - 1) / 100 + (y - 1) / 400

/-- The days of the first `k` months. -/
def monthDays (y k : ℕ) : ℕ := ((List.range' 1 k).map (daysInMonth y)).sum

theorem toOrdinal_eq (d : Date) :
    d.toOrdinal = daysBefore d.year + monthDays d.year (d.month - 1) + d.day := rfl

theorem monthDays_succ (y k : ℕ) : monthDays y (k + 1) = monthDays y k + daysInMonth y (k + 1) := by
  unfold monthDays
  rw [List.range'_1_concat, List.map_append, List.sum_append, Nat.add_comm 1 k]
  simp

theorem monthDays_mono (y : ℕ) : Monotone (monthDays y) :=
  monotone_nat_of_le_succ fun k => by rw [monthDays_succ]; omega

theorem monthDays_twelve (y : ℕ) : monthDays y 12 = if isLeap y then 366 else 365 := by
  rcases h : isLeap y <;> simp [monthDays, List.range', daysInMonth, h]

theorem daysBefore_succ {y : ℕ} (hy : 1 ≤ y) :
    daysBefore (y + 1) = daysBefore y + monthDays y 12 := by
  obtain ⟨k, rfl⟩ : ∃ k, y = k + 1 := ⟨y - 1, by omega⟩
  have hleap : isLeap (k + 1) = true ↔ 4 ∣ k + 1 ∧ (¬ 100 ∣ k + 1 ∨ 400 ∣ k + 1) := by
    simp [isLeap, Nat.dvd_iff_mod_eq_zero]
  have hle : k / 100 ≤ k / 4 := by omega
  rw [monthDays_twelve]
  simp only [hleap, daysBefore, Nat.add_sub_cancel, Nat.succ_div]
  generalize k / 4 = a at *
  generalize k / 100 = b at *
  generalize k / 400 = c at *
  split_ifs <;> omega

theorem daysBefore_mono {y y' : ℕ} (hy : 1 ≤ y) (h : y ≤ y') : daysBefore y ≤ daysBefore y' := by
  induction y', h using Nat.le_induction with
  | base => exact le_rfl
  | succ n hn ih =>
    rw [daysBefore_succ (hy.trans hn)]
    omega

/-- The day of the year is one of the year's. -/
theorem monthDays_add_day_le (d : Date) {k : ℕ} (h : d.month ≤ k) :
    monthDays d.year (d.month - 1) + d.day ≤ monthDays d.year k := by
  obtain ⟨m, hm⟩ : ∃ m, d.month = m + 1 := ⟨d.month - 1, by have := d.month_mem.1; omega⟩
  have hday := d.day_mem.2
  have hstep := monthDays_succ d.year m
  have hmono := monthDays_mono d.year (hm ▸ h : m + 1 ≤ k)
  rw [hm] at hday ⊢
  rw [Nat.add_sub_cancel]
  omega

/-- Ordinals are in the order of the calendar. -/
theorem toOrdinal_strictMono : StrictMono toOrdinal := by
  intro d d' h
  have hkey : d.key < d'.key := h
  rw [toOrdinal_eq, toOrdinal_eq]
  have hday' := d'.day_mem.1
  rcases lt_trichotomy d.year d'.year with hy | hy | hy
  · have hlast := d.monthDays_add_day_le d.month_mem.2
    have hnext := daysBefore_succ d.year_mem.1
    have hmono := daysBefore_mono (by omega) (Nat.succ_le_of_lt hy)
    simp only [Nat.succ_eq_add_one] at hmono
    omega
  · rcases lt_trichotomy d.month d'.month with hm | hm | hm
    · have hlast := d.monthDays_add_day_le (k := d'.month - 1) (by omega)
      rw [← hy]
      omega
    · have : d.day < d'.day := by simp only [key, hy, hm] at hkey; omega
      rw [hy, hm]
      omega
    · have := d'.day_le
      simp only [key, hy] at hkey
      have := d.day_mem.1
      omega
  · have := d.day_le; have := d'.day_le
    have := d.month_mem; have := d'.month_mem
    simp only [key] at hkey
    omega

end Date

end NetBuild
