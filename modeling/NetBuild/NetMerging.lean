import NetBuild.Frame
import NetBuild.NetBuilding

/-!
# `net_merging`: detection of merge candidates

The pure algorithm that answers whether two nets look like the same tactical net: the three
condition checks, the numbers recorded with a match, and the scan over all pairs of nets in
different `my_net_id` groups.

Python's `math` enters through `MathFns`: two of its functions raise outside their domain, and
of the others only oddness is used.
-/

namespace NetBuild

namespace NetMerging

/-- `MergeConfig`. -/
structure MergeConfig where
  useBandTol : Bool := true
  freqTolMhz : ℚ := 2 / 5
  bandPadMhz : ℚ := 0
  freqTolOverrideMhz : Option ℚ := none
  bwTolOverrideMhz : Option ℚ := none
  useTimeTol : Bool := true
  ltiTolSec : ℚ := 5
  useLocTol : Bool := true
  locTolM : ℚ := 100

/-- The functions of Python's `math` that the geodesic distance is made of. `sqrt` and `asin`
are `none` where they raise. -/
structure MathFns where
  radians : ℚ → ℚ
  sin : ℚ → ℚ
  cos : ℚ → ℚ
  sqrt : ℚ → Option ℚ
  asin : ℚ → Option ℚ
  radians_neg : ∀ x, radians (-x) = -radians x
  sin_neg : ∀ x, sin (-x) = -sin x

/-- A record of the nets frame. -/
structure NetRec where
  netId : ℤ
  myNetId : Cell
  cells : Row

/-! ## Times -/

/-- `IN_FMTS` of `net_merging`, tried in order. -/
def inFmts : List (List Directive) :=
  [dmyFormat '-' true, dmyFormat '-' false, dmyFormat ':' true, dmyFormat ':' false,
    dmyFormat '/' true, dmyFormat '/' false]

/-- `net_merging._to_dt(c)`, with `NaT` as `none`. -/
def toDt : Cell → Option Timestamp
  | .str s => parseText inFmts s
  | c => c.toDt

/-- `(t1 - t2).total_seconds()`. -/
def secondsBetween (t1 t2 : Timestamp) : ℚ :=
  ((t1.date.toOrdinal : ℤ) - t2.date.toOrdinal : ℤ) * 86400
    + ((t1.nanos : ℤ) - t2.nanos : ℤ) / 1000000000

/-! ## The three condition checks -/

/-- `float(c)`. -/
def float (c : Cell) : Except PyError Fl :=
  match c.pyFloat with
  | some f => .ok f
  | none => .error .typeError

/-- `tune_tol(r1, r2, cfg)`. -/
def tuneTol (cfg : MergeConfig) (r1 r2 : Row) : Except PyError Fl :=
  if cfg.useBandTol then do
    let bwHalf (rec : Row) : Except PyError Fl :=
      match cfg.bwTolOverrideMhz with
      | some tol => .ok (some tol)
      | none => do
        let bw ← float (rec (.num .bandwidthKHz))
        pure (bw.map fun b => b / 2 / 1000)
    let freqPad : ℚ := cfg.freqTolOverrideMhz.getD 0
    let h1 ← bwHalf r1
    let h2 ← bwHalf r2
    pure ((h1.add h2).map fun h => h + freqPad + freqPad + cfg.bandPadMhz)
  else .ok (some cfg.freqTolMhz)

/-- `freq_match(r1, r2, cfg)`. -/
def freqMatch (cfg : MergeConfig) (r1 r2 : Row) : Except PyError Bool := do
  let f1 ← float (r1 (.num .frequencyMHz))
  let f2 ← float (r2 (.num .frequencyMHz))
  let tol ← tuneTol cfg r1 r2
  pure ((f1.sub f2).abs.le tol)

/-- `_lti_gap_sec(r1, r2)`. -/
def ltiGapSec (r1 r2 : Row) : Option ℚ :=
  match toDt (r1 .lti), toDt (r2 .lti) with
  | some t1, some t2 => some |secondsBetween t1 t2|
  | _, _ => none

/-- `time_match(r1, r2, cfg)`. -/
def timeMatch (cfg : MergeConfig) (r1 r2 : Row) : Bool :=
  !cfg.useTimeTol ||
    match ltiGapSec r1 r2 with
    | some g => g ≤ cfg.ltiTolSec
    | none => false

/-- A record's position, where it has both coordinates. -/
def position (rec : Row) : Option (ℚ × ℚ) :=
  match (rec (.num .latitude)).pyFloat, (rec (.num .longitude)).pyFloat with
  | some (some lat), some (some lon) => some (lat, lon)
  | _, _ => none

/-- The haversine distance in metres between two positions. -/
def haversine (M : MathFns) (p1 p2 : ℚ × ℚ) : Except PyError ℚ :=
  let dphi := M.radians (p2.1 - p1.1)
  let dlmb := M.radians (p2.2 - p1.2)
  let a := M.sin (dphi / 2) ^ 2
    + M.cos (M.radians p1.1) * M.cos (M.radians p2.1) * M.sin (dlmb / 2) ^ 2
  match (M.sqrt a).bind M.asin with
  | some d => .ok (2 * 6371000 * d)
  | none => .error (.valueError "math domain error")

/-- `_loc_dist_m(r1, r2)`. -/
def locDistM (M : MathFns) (r1 r2 : Row) : Except PyError (Option ℚ) :=
  match position r1, position r2 with
  | some p1, some p2 => (haversine M p1 p2).map some
  | _, _ => .ok none

/-- `loc_match(r1, r2, cfg)`. -/
def locMatch (M : MathFns) (cfg : MergeConfig) (r1 r2 : Row) : Except PyError Bool :=
  if cfg.useLocTol then do
    let d ← locDistM M r1 r2
    pure (d.any (· ≤ cfg.locTolM))
  else .ok true

/-- `same_net(r1, r2, cfg)`. -/
def sameNet (M : MathFns) (cfg : MergeConfig) (r1 r2 : Row) : Except PyError Bool := do
  if ← freqMatch cfg r1 r2 then
    if timeMatch cfg r1 r2 then locMatch M cfg r1 r2 else pure false
  else pure false

/-- The dict `match_reasons` returns. -/
structure Reasons where
  freqGapMhz : Fl
  freqTolMhz : Fl
  ltiGapSec : Option ℚ
  ltiTolSec : Option ℚ
  distanceM : Option ℚ
  locTolM : Option ℚ

/-- `match_reasons(r1, r2, cfg)`. -/
def matchReasons (M : MathFns) (cfg : MergeConfig) (r1 r2 : Row) : Except PyError Reasons := do
  let fa ← float (r1 (.num .frequencyMHz))
  let fb ← float (r2 (.num .frequencyMHz))
  let tol ← tuneTol cfg r1 r2
  let d ← if cfg.useLocTol then locDistM M r1 r2 else .ok none
  pure
    { freqGapMhz := (fa.sub fb).abs.map (pyRound · 4)
      freqTolMhz := tol.map (pyRound · 4)
      ltiGapSec := if cfg.useTimeTol then (ltiGapSec r1 r2).map (pyRound · 1) else none
      ltiTolSec := if cfg.useTimeTol then some cfg.ltiTolSec else none
      distanceM := d.map (pyRound · 1)
      locTolM := if cfg.useLocTol then some cfg.locTolM else none }

/-! ## Candidate search -/

/-- `a == b` on two cells: a `nan` equals nothing. -/
def cellEq (a b : Cell) : Bool :=
  match a, b with
  | .null, .null => true
  | _, _ => a.val.isSome && a.val == b.val

/-- One comparison of the scan. -/
def comparePair (M : MathFns) (cfg : MergeConfig) (a b : NetRec) :
    Except PyError (Option (ℤ × ℤ × Reasons)) :=
  if cellEq a.myNetId b.myNetId then .ok none
  else do
    if ← sameNet M cfg a.cells b.cells then
      let reasons ← matchReasons M cfg a.cells b.cells
      pure (some (min a.netId b.netId, max a.netId b.netId, reasons))
    else pure none

/-- `propose_pairs(nets, cfg)`: every record is compared with those after it. -/
def proposePairs (M : MathFns) (cfg : MergeConfig) :
    List NetRec → Except PyError (List (ℤ × ℤ × Reasons))
  | [] => .ok []
  | a :: rest => do
    let found ← rest.mapM (comparePair M cfg a)
    let more ← proposePairs M cfg rest
    pure (found.filterMap id ++ more)

end NetMerging

end NetBuild
