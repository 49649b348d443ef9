import NetBuild.Timestamp
import Mathlib.Algebra.Order.Field.Rat

/-!
# Cells, rows and frames

What the pipeline needs of Python values and of pandas:

* `Cell`: a value in a row, with the three ways of being missing kept apart;
* `pyInt`, `pyFloat`, `pyStr`, `toDt`: `int`, `float`, `str` and `net_building._to_dt`;
* `inferDtype`, `dataFrame`: the dtype `pd.DataFrame` gives a column and what storing a cell
  in it changes, which is how a missing number becomes `NaN` next to present ones.

Numbers are exact rationals; `Fl` adds the `NaN` a float may be.
-/

namespace NetBuild

/-! ## Columns -/

/-- The numeric data columns other than `FF_ID` and `NTI`. -/
inductive NumCol
  | frequencyMHz | bandwidthKHz | latitude | longitude | geoDistance | azimuth | elevation | snrDb
  deriving DecidableEq

/-- The text columns. -/
inductive TxtCol
  | rdfs | modulation | signalType | netLevel | netType | branch | nationality | force
  | language | cipher
  deriving DecidableEq

/-- A column of a frame, under its `net_building` name. -/
inductive Col
  | ffId | fti | lti | nti
  | num (c : NumCol)
  | txt (c : TxtCol)
  | other (name : Text)
  deriving DecidableEq

/-- The columns of `ff_net_report`, which are the data columns of `ff_net_building` too. -/
def Col.data : List Col :=
  [.ffId, .num .frequencyMHz, .num .bandwidthKHz, .txt .modulation, .txt .signalType,
    .txt .netLevel, .txt .netType, .txt .branch, .txt .nationality, .txt .force, .txt .language,
    .txt .cipher, .num .latitude, .num .longitude, .num .geoDistance, .nti, .fti, .lti,
    .num .azimuth, .num .elevation, .num .snrDb, .txt .rdfs]

/-! ## Cells -/

/-- A Python value in a row: `None`, a float `nan`, `NaT`, an int, a float, a `str` or a
`pd.Timestamp`. -/
inductive Cell
  | null | nan | nat
  | int (n : ℤ)
  | flt (q : ℚ)
  | str (s : Text)
  | ts (t : Timestamp)
  deriving DecidableEq

/-- A row: the value under each column, `None` where it has none. -/
abbrev Row := Col → Cell

/-- What a present cell says, whichever of the numeric types holds it. -/
inductive Scalar
  | num (q : ℚ)
  | str (s : Text)
  | ts (t : Timestamp)
  deriving DecidableEq

/-- A float: a number, or `none` for `nan`. -/
abbrev Fl := Option ℚ

/-- `a <= b` on floats, which a `nan` on either side makes false. -/
def Fl.le (a b : Fl) : Bool :=
  match a, b with
  | some x, some y => x ≤ y
  | _, _ => false

def Fl.add (a b : Fl) : Fl := a.bind fun x => b.map (x + ·)

def Fl.sub (a b : Fl) : Fl := a.bind fun x => b.map (x - ·)

def Fl.abs (a : Fl) : Fl := a.map fun x => |x|

/-! ## Numbers as text -/

/-- `str(n)` of an int. -/
def fmtInt (n : ℤ) : Text :=
  if n < 0 then '-' :: Nat.toDigits 10 n.natAbs else Nat.toDigits 10 n.toNat

/-- `s.zfill(w)`: zeros go after a leading sign. -/
def zfill (w : ℕ) (s : Text) : Text :=
  match s with
  | '-' :: s' => '-' :: (List.replicate (w - s.length) '0' ++ s')
  | '+' :: s' => '+' :: (List.replicate (w - s.length) '0' ++ s')
  | _ => List.replicate (w - s.length) '0' ++ s

/-- The digits 0 of all scripts. -/
def decimalZeros : List ℕ :=
  [0x30, 0x660, 0x6f0, 0x7c0, 0x966, 0x9e6, 0xa66, 0xae6, 0xb66, 0xbe6, 0xc66, 0xce6, 0xd66,
    0xde6, 0xe50, 0xed0, 0xf20, 0x1040, 0x1090, 0x17e0, 0x1810, 0x1946, 0x19d0, 0x1a80, 0x1a90,
    0x1b50, 0x1bb0, 0x1c40, 0x1c50, 0xa620, 0xa8d0, 0xa900, 0xa9d0, 0xa9f0, 0xaa50, 0xabf0,
    0xff10, 0x104a0, 0x10d30, 0x11066, 0x110f0, 0x11136, 0x111d0, 0x112f0, 0x11450, 0x114d0,
    0x11650, 0x116c0, 0x11730, 0x118e0, 0x11950, 0x11c50, 0x11d50, 0x11da0, 0x16a60, 0x16ac0,
    0x16b50, 0x1d7ce, 0x1d7d8, 0x1d7e2, 0x1d7ec, 0x1d7f6, 0x1e140, 0x1e2f0, 0x1e950, 0x1fbf0]

/-- The value of a decimal digit of any script, as `int` and `float` read it. -/
def decimal? (c : Char) : Option ℕ :=
  (decimalZeros.find? fun z => z ≤ c.toNat ∧ c.toNat < z + 10).map (c.toNat - ·)

/-- The value of digits that single underscores may separate; `b` says that the last
character was a digit. -/
def digitsVal : ℕ → Bool → Text → Option ℕ
  | n, b, [] => if b then some n else none
  | n, b, c :: s =>
    match decimal? c with
    | some d => digitsVal (n * 10 + d) true s
    | none => if c = '_' ∧ b = true then digitsVal n false s else none

/-- An optional sign and the text after it. -/
def splitSign : Text → Bool × Text
  | '-' :: s => (true, s)
  | '+' :: s => (false, s)
  | s => (false, s)

/-- The integer a text says, of any length. -/
def intValue (s : Text) : Option ℤ :=
  let (neg, s) := splitSign (strip s)
  (digitsVal 0 false s).map fun n : ℕ => if neg then -(n : ℤ) else (n : ℤ)

/-- `int(s)` of a string; `none` where it raises, as it does for more than 4300 digits. -/
def intText (s : Text) : Option ℤ :=
  if 4300 < (s.filter fun c => (decimal? c).isSome).length then none else intValue s

/-- The value of an optional run of digits and how many there are. -/
def fracVal (s : Text) : Option (ℕ × ℕ) :=
  if s = [] then some (0, 0) else
  (digitsVal 0 false s).map fun n => (n, (s.filter (· ≠ '_')).length)

/-- `float(s)` of a string, infinities apart; `none` where it raises. -/
def floatText (s : Text) : Option Fl :=
  let (neg, s) := splitSign (strip s)
  if s.map Char.toLower = ['n', 'a', 'n'] then some none else
  let mant := s.takeWhile fun c => c ≠ 'e' ∧ c ≠ 'E'
  let expo := s.drop (mant.length + 1)
  let whole := mant.takeWhile (· ≠ '.')
  let frac := mant.drop (whole.length + 1)
  if whole = [] ∧ frac = [] ∨ mant.length < s.length ∧ expo = [] then none else
  match fracVal whole, fracVal frac, if expo = [] then some 0 else intValue expo with
  | some (w, _), some (f, k), some e =>
    some (some ((if neg then -1 else 1) * (w + f / 10 ^ k) * (10 : ℚ) ^ e))
  | _, _, _ => none

/-- The digits of a fraction in `[0, 1)`, at most `fuel` of them. -/
def fracDigits : ℕ → ℚ → Text
  | 0, _ => []
  | fuel + 1, q =>
    let d := (q * 10).floor
    Nat.digitChar d.toNat :: if q * 10 = d then [] else fracDigits fuel (q * 10 - d)

/-- `str(q)` of a float, in decimal notation. -/
def fmtFloat (q : ℚ) : Text :=
  let a := |q|
  (if q < 0 then ['-'] else []) ++ fmtInt a.floor ++ '.' :: fracDigits 17 (a - a.floor)

/-- Rounding to the nearest integer, a half going to the even one. -/
def roundHalfEven (q : ℚ) : ℤ :=
  let d := q - q.floor
  if d < 1 / 2 then q.floor
  else if 1 / 2 < d then q.floor + 1
  else if q.floor % 2 = 0 then q.floor else q.floor + 1

/-- `round(q, k)`. -/
def pyRound (q : ℚ) (k : ℕ) : ℚ := roundHalfEven (q * 10 ^ k) / 10 ^ k

/-- `int(q)` of a float, towards zero. -/
def truncate (q : ℚ) : ℤ := if 0 ≤ q then q.floor else q.ceil

namespace Cell

/-- `pd.isna(c)`. -/
def isna : Cell → Bool
  | null | nan | nat => true
  | _ => false

/-- What the cell says; `none` when it is missing. -/
def val : Cell → Option Scalar
  | null | nan | nat => none
  | int n => some (.num n)
  | flt q => some (.num q)
  | str s => some (.str s)
  | ts t => some (.ts t)

/-- `int(c)`; `none` where it raises. -/
def pyInt : Cell → Option ℤ
  | int n => some n
  | flt q => some (truncate q)
  | str s => intText s
  | _ => none

/-- `float(c)`; `none` where it raises. -/
def pyFloat : Cell → Option Fl
  | nan => some none
  | int n => some (some n)
  | flt q => some (some q)
  | str s => floatText s
  | _ => none

/-- `str(c)`. -/
def pyStr : Cell → Text
  | null => "None".toList
  | nan => "nan".toList
  | nat => "NaT".toList
  | int n => fmtInt n
  | flt q => fmtFloat q
  | str s => s
  | ts t => Timestamp.pad4 t.date.year ++ '-' :: Timestamp.pad2 t.date.month ++ '-' ::
      Timestamp.pad2 t.date.day ++ ' ' :: Timestamp.pad2 (t.seconds / 3600) ++ ':' ::
      Timestamp.pad2 (t.seconds / 60 % 60) ++ ':' :: Timestamp.pad2 (t.seconds % 60)

/-- `net_building._to_dt(c)`, with `NaT` as `none`. -/
def toDt : Cell → Option Timestamp
  | ts t => some t
  | str s => parseText inFmts s
  | int n => Timestamp.ofEpochNanos n
  | flt q => Timestamp.ofEpochNanos (truncate q)
  | _ => none

theorem isna_iff_val (c : Cell) : c.isna = true ↔ c.val = none := by cases c <;> simp [isna, val]

theorem isna_congr {c c' : Cell} (h : c.val = c'.val) : c.isna = c'.isna := by
  rw [Bool.eq_iff_iff, isna_iff_val, isna_iff_val, h]

@[simp] theorem truncate_intCast (n : ℤ) : truncate (n : ℚ) = n := by simp [truncate]

/-- `int` depends on what a cell says only. -/
theorem pyInt_congr {c c' : Cell} (h : c.val = c'.val) : c.pyInt = c'.pyInt := by
  cases c <;> cases c' <;> simp_all [val, pyInt]
  all_goals subst h; simp

/-- So does `_to_dt`. -/
theorem toDt_congr {c c' : Cell} (h : c.val = c'.val) : c.toDt = c'.toDt := by
  cases c <;> cases c' <;> simp_all [val, toDt]
  all_goals subst h; simp

end Cell

/-! ## Frames -/

/-- The dtypes a column can get. -/
inductive Dtype
  | object | int64 | float64 | datetime64 | str
  deriving DecidableEq

namespace Cell

def isStr : Cell → Bool
  | str _ => true
  | _ => false

def isInt : Cell → Bool
  | int _ => true
  | _ => false

def isNum : Cell → Bool
  | int _ | flt _ | nan => true
  | _ => false

def isTime : Cell → Bool
  | ts _ | nat => true
  | _ => false

/-- Missing, in a column of any dtype. -/
def isGap : Cell → Bool
  | null | nan => true
  | _ => false

end Cell

/-- The dtype `pd.DataFrame` infers for a column of these cells. -/
def inferDtype (cells : List Cell) : Dtype :=
  if cells.any Cell.isStr && cells.all (fun c => c.isStr || c.isGap) then .str
  else if cells.any Cell.isTime && cells.all (fun c => c.isTime || c.isGap) then .datetime64
  else if cells.any Cell.isInt && cells.all Cell.isInt then .int64
  else if cells.any Cell.isNum && cells.all (fun c => c.isNum || c.isGap) then .float64
  else .object

/-- What a column of a dtype keeps of a cell. -/
def Dtype.store : Dtype → Cell → Cell
  | .float64, .null => .nan
  | .float64, .int n => .flt n
  | .datetime64, .null => .nat
  | .datetime64, .nan => .nat
  | .str, .null => .nan
  | _, c => c

/-- Storing a cell changes how it is missing or which numeric type holds it, never what it
says. -/
@[simp] theorem Dtype.val_store (d : Dtype) (c : Cell) : (d.store c).val = c.val := by
  cases d <;> cases c <;> rfl

/-- The dtype `pd.concat` gives two columns put one after the other. -/
def Dtype.concat (d e : Dtype) : Dtype :=
  if d = e then d
  else if d ∈ [.int64, .float64] ∧ e ∈ [.int64, .float64] then .float64
  else .object

/-- A cell of the column can be assigned text; in a column of numbers that is a `TypeError`. -/
def Dtype.takesText : Dtype → Bool
  | .int64 | .float64 => false
  | .object | .datetime64 | .str => true

/-- A cell of the column can be assigned an int. -/
def Dtype.takesInt : Dtype → Bool
  | .str | .datetime64 => false
  | .object | .int64 | .float64 => true

/-- `pd.DataFrame(rows)`, as the rows it then holds. -/
def dataFrame (rows : List Row) : List Row :=
  rows.map fun r c => (inferDtype (rows.map (· c))).store (r c)

/-- A frame: its columns and its rows. -/
structure Frame where
  cols : List Col
  rows : List Row

end NetBuild
