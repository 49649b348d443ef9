import NetBuild.Bands
import NetBuild.NetMerging
import NetBuild.Lib.Fold
import Mathlib.Tactic.NormNum

/-!
# The configured matching rule and the one that is applied

`net_building` states the test of two records twice. `same_emitter` holds the distance of their
frequencies against `tune_tol`, which every knob of `MatchConfig` enters, and adds two guards;
`assign_net` has the report's band, widened by the pad, meet the net's observed band, and reads no
other knob.

For a net with a single sighting the second test is `|f₁ - f₂| ≤ bw₁/2 + bw₂/2 + band_pad`: between
records with bandwidths it is the first one for the default configuration, and for hardly any
other. A record without a bandwidth has a band of width 0 for `assign_net`, and `same_emitter`
raises on it.
-/

namespace NetBuild

open NetMerging (float cellEq)

/-! ## The rule that is configured -/

/-- The knobs of `tune_tol`, which `net_merging` has too. -/
def MatchConfig.merging (cfg : MatchConfig) : NetMerging.MergeConfig where
  useBandTol := cfg.useBandTol
  freqTolMhz := cfg.freqTolMhz
  bandPadMhz := cfg.bandPadMhz
  freqTolOverrideMhz := cfg.freqTolOverrideMhz
  bwTolOverrideMhz := cfg.bwTolOverrideMhz

/-- `tune_tol(r1, r2, cfg)`. -/
def tuneTol (cfg : MatchConfig) (r1 r2 : Row) : Except PyError Fl :=
  NetMerging.tuneTol cfg.merging r1 r2

/-- `freq_match(r1, r2, cfg)`. -/
def freqMatch (cfg : MatchConfig) (r1 r2 : Row) : Except PyError Bool :=
  NetMerging.freqMatch cfg.merging r1 r2

/-- `a > b` on floats, which a `nan` on either side makes false. -/
def Fl.gt (a b : Fl) : Bool :=
  match a, b with
  | some x, some y => y < x
  | _, _ => false

/-- The condition of the guard on the bandwidths, under which `same_emitter` is false. -/
def bwGuard (cfg : MatchConfig) (r1 r2 : Row) : Except PyError Bool :=
  if cfg.useBwGuard then do
    let b1 ← float (r1 (.num .bandwidthKHz))
    let b2 ← float (r2 (.num .bandwidthKHz))
    pure ((b1.sub b2).abs.gt (b1.map (cfg.bwTolFrac * ·)))
  else .ok false

/-- The condition of the guard on the signal types. -/
def signalGuard (cfg : MatchConfig) (r1 r2 : Row) : Bool :=
  cfg.matchSignalType && !cellEq (r1 (.txt .signalType)) (r2 (.txt .signalType))

/-- `same_emitter(r1, r2, cfg)`. -/
def sameEmitter (cfg : MatchConfig) (r1 r2 : Row) : Except PyError Bool := do
  if ← freqMatch cfg r1 r2 then
    if ← bwGuard cfg r1 r2 then pure false else pure (!signalGuard cfg r1 r2)
  else pure false

/-- The configuration `main` makes of `--flat-freq-tol` and `--band-pad`. -/
def cliConfig (flatFreqTol : Option ℚ) (bandPad : ℚ) : MatchConfig where
  useBandTol := flatFreqTol.isNone
  freqTolMhz := flatFreqTol.getD (2 / 5)
  bandPadMhz := bandPad

/-! ## The two tests of the frequencies -/

/-- The bands of two records meet, the second one widened by the pad: their frequencies are no
further apart than the half-widths and the pad. -/
def WithinBands (cfg : MatchConfig) (r1 r2 : Row) : Prop :=
  ∃ f1 f2 h1 h2, (r1 (.num .frequencyMHz)).number = some f1 ∧
    (r2 (.num .frequencyMHz)).number = some f2 ∧ r1.halfWidth = some h1 ∧ r2.halfWidth = some h2 ∧
      |f1 - f2| ≤ h1 + h2 + cfg.bandPadMhz

/-- The frequencies of two records are no further apart than `tune_tol`, where it has a value. -/
def WithinTolerance (cfg : MatchConfig) (r1 r2 : Row) : Prop :=
  ∃ f1 f2 tol, (r1 (.num .frequencyMHz)).number = some f1 ∧
    (r2 (.num .frequencyMHz)).number = some f2 ∧ tuneTol cfg r1 r2 = .ok (some tol) ∧
      |f1 - f2| ≤ tol

theorem Row.band_eq_some_iff {rec : Row} {b : Band} :
    rec.band = some b ↔ ∃ f h, (rec (.num .frequencyMHz)).number = some f ∧
      rec.halfWidth = some h ∧ b = ⟨f - h, f + h⟩ := by
  rw [Row.band_eq, Option.bind_eq_some_iff]
  simp only [Option.map_eq_some_iff]
  refine exists_congr fun f => ⟨fun h => ?_, fun h => ?_⟩
  · obtain ⟨hf, h, hh, hb⟩ := h
    exact ⟨h, hf, hh, hb.symm⟩
  · obtain ⟨h, hf, hh, hb⟩ := h
    exact ⟨hf, h, hh, hb.symm⟩

/-- The overlap of the bands is a bound on the distance of the frequencies. -/
theorem bandsOverlap_iff_withinBands {cfg : MatchConfig} {m : Member} {new : Row}
    (hband : memberBand m = bandEdges m.cells) :
    bandsOverlap cfg m new = true ↔ WithinBands cfg m.cells new := by
  have hm : m.band = m.cells.band := congrArg edges hband
  have hmeets : ∀ f1 f2 h1 h2 : ℚ,
      (Band.mk (f2 - h2) (f2 + h2)).Meets cfg.bandPadMhz ⟨f1 - h1, f1 + h1⟩ ↔
        |f1 - f2| ≤ h1 + h2 + cfg.bandPadMhz := by
    intro f1 f2 h1 h2
    unfold Band.Meets
    rw [abs_le]
    refine ⟨fun h => ⟨?_, ?_⟩, fun h => ⟨?_, ?_⟩⟩ <;> dsimp only at * <;> linarith [h.1, h.2]
  rw [bandsOverlap_iff, hm]
  simp only [Row.band_eq_some_iff]
  refine ⟨fun h => ?_, fun h => ?_⟩
  · obtain ⟨_, _, ⟨f2, h2, hf2, hh2, rfl⟩, ⟨f1, h1, hf1, hh1, rfl⟩, h⟩ := h
    exact ⟨f1, f2, h1, h2, hf1, hf2, hh1, hh2, (hmeets f1 f2 h1 h2).mp h⟩
  · obtain ⟨f1, f2, h1, h2, hf1, hf2, hh1, hh2, h⟩ := h
    exact ⟨_, _, ⟨f2, h2, hf2, hh2, rfl⟩, ⟨f1, h1, hf1, hh1, rfl⟩, (hmeets f1 f2 h1 h2).mpr h⟩

theorem number_eq_some_iff {c : Cell} {q : ℚ} : c.number = some q ↔ c.pyFloat = some (some q) := by
  unfold Cell.number
  rcases c.pyFloat with _ | _ | x
  · simp
  · simp
  · simp

theorem float_eq_ok_iff {c : Cell} {f : Fl} : float c = .ok f ↔ c.pyFloat = some f := by
  unfold NetMerging.float
  rcases c.pyFloat with _ | x
  · simp
  · simp

theorem freqMatch_eq_true_iff {cfg : MatchConfig} {r1 r2 : Row} :
    freqMatch cfg r1 r2 = .ok true ↔ WithinTolerance cfg r1 r2 := by
  have hle : ∀ x y tol : Fl, ((x.sub y).abs.le tol = true) ↔
      ∃ a b t, x = some a ∧ y = some b ∧ tol = some t ∧ |a - b| ≤ t := by
    intro x y tol
    rcases x with _ | a
    · simp [Fl.sub, Fl.abs, Fl.le]
    · rcases y with _ | b
      · simp [Fl.sub, Fl.abs, Fl.le]
      · rcases tol with _ | t <;> simp [Fl.sub, Fl.abs, Fl.le]
  unfold freqMatch NetMerging.freqMatch WithinTolerance
  simp only [Except.bind_eq_ok_iff, float_eq_ok_iff, number_eq_some_iff]
  refine ⟨fun h => ?_, fun h => ?_⟩
  · obtain ⟨x, hx, y, hy, tol, htol, h⟩ := h
    obtain ⟨a, b, t, rfl, rfl, rfl, hab⟩ := (hle x y tol).mp (Except.ok.inj h)
    exact ⟨a, b, t, hx, hy, htol, hab⟩
  · obtain ⟨a, b, t, hx, hy, htol, hab⟩ := h
    refine ⟨some a, hx, some b, hy, some t, htol, ?_⟩
    exact congrArg Except.ok ((hle _ _ _).mpr ⟨a, b, t, rfl, rfl, rfl, hab⟩)

/-- `same_emitter` accepts within the tolerance, if neither guard objects. -/
theorem sameEmitter_eq_true_iff {cfg : MatchConfig} {r1 r2 : Row} :
    sameEmitter cfg r1 r2 = .ok true ↔
      WithinTolerance cfg r1 r2 ∧ bwGuard cfg r1 r2 = .ok false
        ∧ signalGuard cfg r1 r2 = false := by
  unfold sameEmitter
  rw [Except.bind_eq_ok_iff, ← freqMatch_eq_true_iff]
  refine ⟨fun h => ?_, fun h => ?_⟩
  · obtain ⟨b, hb, h⟩ := h
    rcases b with _ | _
    · exact nomatch h
    · obtain ⟨g, hg, h⟩ := Except.bind_eq_ok_iff.mp h
      rcases g with _ | _
      · exact ⟨hb, hg, by simpa using Except.ok.inj h⟩
      · exact nomatch h
  · obtain ⟨hf, hg, hs⟩ := h
    refine ⟨true, hf, Except.bind_eq_ok_iff.mpr ⟨false, hg, ?_⟩⟩
    rw [hs]
    rfl

/-! ## The limits of the distance -/

/-- How far apart the frequencies of two records are, if both are numbers. -/
def distance (r1 r2 : Row) : Option ℚ :=
  (r1 (.num .frequencyMHz)).number.bind fun f1 =>
    (r2 (.num .frequencyMHz)).number.map fun f2 => |f1 - f2|

/-- The largest distance at which the bands meet. A `nan` for a bandwidth leaves none. -/
def bandLimit (cfg : MatchConfig) (r1 r2 : Row) : WithBot ℚ :=
  match r1.halfWidth, r2.halfWidth with
  | some h1, some h2 => ((h1 + h2 + cfg.bandPadMhz : ℚ) : WithBot ℚ)
  | _, _ => ⊥

/-- The largest distance the knobs allow. Where the bandwidths count and one is missing there is
none. -/
def tolLimit (cfg : MatchConfig) (r1 r2 : Row) : WithBot ℚ :=
  if cfg.useBandTol then
    match cfg.bwTolOverrideMhz, (r1 (.num .bandwidthKHz)).number,
      (r2 (.num .bandwidthKHz)).number with
    | some w, _, _ =>
      ((w + w + cfg.freqTolOverrideMhz.getD 0 + cfg.freqTolOverrideMhz.getD 0
        + cfg.bandPadMhz : ℚ) : WithBot ℚ)
    | none, some b1, some b2 =>
      ((b1 / 2 / 1000 + b2 / 2 / 1000 + cfg.freqTolOverrideMhz.getD 0
        + cfg.freqTolOverrideMhz.getD 0 + cfg.bandPadMhz : ℚ) : WithBot ℚ)
    | none, _, _ => ⊥
  else (cfg.freqTolMhz : WithBot ℚ)

/-- A guard of `same_emitter` rejects two records, or raises on them. -/
def GuardObjects (cfg : MatchConfig) (r1 r2 : Row) : Prop :=
  bwGuard cfg r1 r2 ≠ .ok false ∨ signalGuard cfg r1 r2 = true

/-- A distance that is not between the two limits, and beyond the bands where a guard objects. -/
def ClearOfLimits (cfg : MatchConfig) (r1 r2 : Row) (d : ℚ) : Prop :=
  (¬ GuardObjects cfg r1 r2 →
      ¬ (min (bandLimit cfg r1 r2) (tolLimit cfg r1 r2) < d ∧
        d ≤ max (bandLimit cfg r1 r2) (tolLimit cfg r1 r2))) ∧
    (GuardObjects cfg r1 r2 → bandLimit cfg r1 r2 < d)

/-- Both records have a bandwidth that is a number. -/
def BandwidthsKnown (r1 r2 : Row) : Prop :=
  (r1 (.num .bandwidthKHz)).number.isSome ∧ (r2 (.num .bandwidthKHz)).number.isSome

theorem distance_eq_some_iff {r1 r2 : Row} {d : ℚ} :
    distance r1 r2 = some d ↔ ∃ f1 f2, (r1 (.num .frequencyMHz)).number = some f1 ∧
      (r2 (.num .frequencyMHz)).number = some f2 ∧ |f1 - f2| = d := by
  unfold distance
  simp only [Option.bind_eq_some_iff, Option.map_eq_some_iff, exists_and_left]

theorem withinBands_iff_le_bandLimit {cfg : MatchConfig} {r1 r2 : Row} :
    WithinBands cfg r1 r2 ↔ ∃ d, distance r1 r2 = some d ∧ d ≤ bandLimit cfg r1 r2 := by
  have hle : ∀ d : ℚ, d ≤ bandLimit cfg r1 r2 ↔ ∃ h1 h2, r1.halfWidth = some h1 ∧
      r2.halfWidth = some h2 ∧ d ≤ h1 + h2 + cfg.bandPadMhz := by
    intro d
    unfold bandLimit
    rcases r1.halfWidth with _ | h1
    · simp
    · rcases r2.halfWidth with _ | h2
      · simp
      · simp [-WithBot.coe_add, WithBot.coe_le_coe]
  unfold WithinBands
  simp only [distance_eq_some_iff, hle]
  refine ⟨fun h => ?_, fun h => ?_⟩
  · obtain ⟨f1, f2, h1, h2, hf1, hf2, hh1, hh2, h⟩ := h
    exact ⟨_, ⟨f1, f2, hf1, hf2, rfl⟩, h1, h2, hh1, hh2, h⟩
  · obtain ⟨_, ⟨f1, f2, hf1, hf2, rfl⟩, h1, h2, hh1, hh2, h⟩ := h
    exact ⟨f1, f2, h1, h2, hf1, hf2, hh1, hh2, h⟩

/-- `tolLimit` is the value of `tune_tol`, where that is a number. -/
theorem tuneTol_eq_iff {cfg : MatchConfig} {r1 r2 : Row} {tol : ℚ} :
    tuneTol cfg r1 r2 = .ok (some tol) ↔ tolLimit cfg r1 r2 = tol := by
  unfold tuneTol NetMerging.tuneTol tolLimit MatchConfig.merging NetMerging.float Cell.number
  dsimp only
  rcases cfg.useBandTol
  · simp
  · rcases cfg.bwTolOverrideMhz with _ | w
    · rcases (r1 (.num .bandwidthKHz)).pyFloat with _ | _ | b1
      · simp [bind, Except.bind]
      · rcases (r2 (.num .bandwidthKHz)).pyFloat with _ | _ | b2 <;>
          simp [bind, Except.bind, pure, Except.pure, Fl.add]
      · rcases (r2 (.num .bandwidthKHz)).pyFloat with _ | _ | b2 <;>
          simp [-WithBot.coe_add, bind, Except.bind, pure, Except.pure, Fl.add]
    · simp [-WithBot.coe_add, bind, Except.bind, pure, Except.pure, Fl.add]

theorem withinTolerance_iff_le_tolLimit {cfg : MatchConfig} {r1 r2 : Row} :
    WithinTolerance cfg r1 r2 ↔ ∃ d, distance r1 r2 = some d ∧ d ≤ tolLimit cfg r1 r2 := by
  unfold WithinTolerance
  simp only [distance_eq_some_iff, tuneTol_eq_iff]
  refine ⟨fun h => ?_, fun h => ?_⟩
  · obtain ⟨f1, f2, tol, hf1, hf2, htol, h⟩ := h
    exact ⟨_, ⟨f1, f2, hf1, hf2, rfl⟩, htol ▸ WithBot.coe_le_coe.mpr h⟩
  · obtain ⟨_, ⟨f1, f2, hf1, hf2, rfl⟩, h⟩ := h
    obtain ⟨tol, htol, h⟩ := WithBot.coe_le_iff.mp h
    exact ⟨f1, f2, tol, hf1, hf2, htol, h⟩

/-! ## The two rules -/

/-- At index `i` of the members stands a net of the report's station, sighted once, with another
emitter id than the report's or with one of the two missing. -/
structure SightedOnce (ms : Members) (i : ℕ) (m : Member) (new : Row) : Prop where
  hasRdfs : Col.txt .rdfs ∈ ms.cols
  getElem : ms.rows[i]? = some m
  rdfs : (new (.txt .rdfs)).isna = false
  station : (m.cells (.txt .rdfs)).val = (new (.txt .rdfs)).val
  ffId : sameFfId m.cells new = false
  band : memberBand m = bandEdges m.cells

/-- `assign_net` considers the net exactly where `same_emitter` holds. -/
def Applied (cfg : MatchConfig) (ms : Members) (i : ℕ) (m : Member) (new : Row) : Prop :=
  (m, i) ∈ candidates cfg ms new ↔ sameEmitter cfg m.cells new = .ok true

/-- The distance of the frequencies is on the same side of both limits, and no guard objects to
what is within them. -/
def LimitsAgree (cfg : MatchConfig) (r1 r2 : Row) : Prop :=
  WithinBands cfg r1 r2 ↔
    WithinTolerance cfg r1 r2 ∧ bwGuard cfg r1 r2 = .ok false ∧ signalGuard cfg r1 r2 = false

theorem SightedOnce.mem_candidates_iff {cfg : MatchConfig} {ms : Members} {i : ℕ} {m : Member}
    {new : Row} (h : SightedOnce ms i m new) :
    (m, i) ∈ candidates cfg ms new ↔ WithinBands cfg m.cells new := by
  have hcand : isCandidate cfg new m = bandsOverlap cfg m new := by
    unfold isCandidate
    rw [h.station, h.ffId]
    simp
  unfold candidates
  rw [if_pos ⟨h.hasRdfs, h.rdfs⟩, List.mem_filter, hcand, bandsOverlap_iff_withinBands h.band]
  exact and_iff_right (List.mem_zipIdx_iff_getElem?.mpr h.getElem)

theorem SightedOnce.applied_iff {cfg : MatchConfig} {ms : Members} {i : ℕ} {m : Member}
    {new : Row} (h : SightedOnce ms i m new) :
    Applied cfg ms i m new ↔ LimitsAgree cfg m.cells new := by
  unfold Applied LimitsAgree
  rw [h.mem_candidates_iff, sameEmitter_eq_true_iff]

/-- The two rules agree on a net and a report whose frequencies are clear of the limits. -/
theorem SightedOnce.applied_iff_clear {cfg : MatchConfig} {ms : Members} {i : ℕ} {m : Member}
    {new : Row} (h : SightedOnce ms i m new) :
    Applied cfg ms i m new ↔
      ∀ d, distance m.cells new = some d → ClearOfLimits cfg m.cells new d := by
  have hguard : GuardObjects cfg m.cells new ↔
      ¬ (bwGuard cfg m.cells new = .ok false ∧ signalGuard cfg m.cells new = false) := by
    unfold GuardObjects
    rw [not_and_or, Bool.not_eq_false]
  rw [h.applied_iff]
  unfold LimitsAgree ClearOfLimits
  rw [withinBands_iff_le_bandLimit, withinTolerance_iff_le_tolLimit, hguard]
  rcases distance m.cells new with _ | d
  · simp
  · simp only [Option.some.injEq, exists_eq_left', forall_eq', ← not_le, le_min_iff, le_max_iff]
    tauto

/-! ## Records with numbers -/

/-- A record with a frequency and a bandwidth. -/
def Row.Measured (rec : Row) (f b : ℚ) : Prop :=
  (rec (.num .frequencyMHz)).number = some f ∧ (rec (.num .bandwidthKHz)).number = some b

/-- `tune_tol` of records with the bandwidths `b1` and `b2`. -/
def MatchConfig.tol (cfg : MatchConfig) (b1 b2 : ℚ) : ℚ :=
  if cfg.useBandTol then
    cfg.bwTolOverrideMhz.getD (b1 / 2 / 1000) + cfg.bwTolOverrideMhz.getD (b2 / 2 / 1000)
      + cfg.freqTolOverrideMhz.getD 0 + cfg.freqTolOverrideMhz.getD 0 + cfg.bandPadMhz
  else cfg.freqTolMhz

/-- What `LimitsAgree` says of records with numbers and signal types. -/
def MatchConfig.AgreesOn (cfg : MatchConfig) (f1 b1 f2 b2 : ℚ) (sameSignal : Prop) : Prop :=
  |f1 - f2| ≤ b1 / 2 / 1000 + b2 / 2 / 1000 + cfg.bandPadMhz ↔
    |f1 - f2| ≤ cfg.tol b1 b2 ∧ (cfg.useBwGuard = true → |b1 - b2| ≤ cfg.bwTolFrac * b1) ∧
      (cfg.matchSignalType = true → sameSignal)

section
variable {cfg : MatchConfig} {r1 r2 : Row} {f1 b1 f2 b2 : ℚ}

theorem tuneTol_of_measured (h1 : r1.Measured f1 b1) (h2 : r2.Measured f2 b2) :
    tuneTol cfg r1 r2 = .ok (some (cfg.tol b1 b2)) := by
  have hb1 := float_eq_ok_iff.mpr (number_eq_some_iff.mp h1.2)
  have hb2 := float_eq_ok_iff.mpr (number_eq_some_iff.mp h2.2)
  unfold tuneTol NetMerging.tuneTol MatchConfig.tol MatchConfig.merging
  dsimp only
  rcases cfg.useBandTol
  · rfl
  · rcases cfg.bwTolOverrideMhz with _ | w
    · dsimp only
      rw [hb1, hb2]
      rfl
    · rfl

theorem withinBands_iff (h1 : r1.Measured f1 b1) (h2 : r2.Measured f2 b2) :
    WithinBands cfg r1 r2 ↔ |f1 - f2| ≤ b1 / 2 / 1000 + b2 / 2 / 1000 + cfg.bandPadMhz := by
  have hhalf : ∀ {r : Row} {f b : ℚ}, r.Measured f b → r.halfWidth = some (b / 2 / 1000) := by
    intro r f b h
    unfold Row.halfWidth
    rw [number_eq_some_iff.mp h.2]
    rfl
  unfold WithinBands
  rw [h1.1, h2.1, hhalf h1, hhalf h2]
  simp

theorem withinTolerance_iff (h1 : r1.Measured f1 b1) (h2 : r2.Measured f2 b2) :
    WithinTolerance cfg r1 r2 ↔ |f1 - f2| ≤ cfg.tol b1 b2 := by
  unfold WithinTolerance
  rw [h1.1, h2.1, tuneTol_of_measured h1 h2]
  simp

theorem bwGuard_iff (h1 : r1.Measured f1 b1) (h2 : r2.Measured f2 b2) :
    bwGuard cfg r1 r2 = .ok false ↔ (cfg.useBwGuard = true → |b1 - b2| ≤ cfg.bwTolFrac * b1) := by
  unfold bwGuard
  rcases cfg.useBwGuard
  · simp
  · rw [float_eq_ok_iff.mpr (number_eq_some_iff.mp h1.2),
      float_eq_ok_iff.mpr (number_eq_some_iff.mp h2.2)]
    show Except.ok (decide (cfg.bwTolFrac * b1 < |b1 - b2|)) = Except.ok false ↔ _
    simp

theorem signalGuard_iff :
    signalGuard cfg r1 r2 = false ↔ (cfg.matchSignalType = true →
      cellEq (r1 (.txt .signalType)) (r2 (.txt .signalType)) = true) := by
  unfold signalGuard
  rcases cfg.matchSignalType
  · simp
  · simp

theorem limitsAgree_iff (h1 : r1.Measured f1 b1) (h2 : r2.Measured f2 b2) :
    LimitsAgree cfg r1 r2 ↔
      cfg.AgreesOn f1 b1 f2 b2
        (cellEq (r1 (.txt .signalType)) (r2 (.txt .signalType)) = true) := by
  unfold LimitsAgree MatchConfig.AgreesOn
  rw [withinBands_iff h1 h2, withinTolerance_iff h1 h2, bwGuard_iff h1 h2, signalGuard_iff]

end

/-! ## The configurations that are applied -/

/-- No knob but the pad says anything: the tolerance is the one of the bands, and there is no
guard. -/
structure MatchConfig.Neutral (cfg : MatchConfig) : Prop where
  useBandTol : cfg.useBandTol = true
  freqTolOverrideMhz : cfg.freqTolOverrideMhz.getD 0 = 0
  bwTolOverrideMhz : cfg.bwTolOverrideMhz = none
  useBwGuard : cfg.useBwGuard = false
  matchSignalType : cfg.matchSignalType = false

theorem MatchConfig.Neutral.agreesOn {cfg : MatchConfig} (h : cfg.Neutral) (f1 b1 f2 b2 : ℚ)
    (sameSignal : Prop) : cfg.AgreesOn f1 b1 f2 b2 sameSignal := by
  have htol : cfg.tol b1 b2 = b1 / 2 / 1000 + b2 / 2 / 1000 + cfg.bandPadMhz := by
    unfold MatchConfig.tol
    rw [if_pos h.useBandTol, h.bwTolOverrideMhz, h.freqTolOverrideMhz]
    simp
  unfold MatchConfig.AgreesOn
  rw [htol, h.useBwGuard, h.matchSignalType]
  simp

/-- What is within the tolerance of a neutral configuration has bandwidths. -/
theorem MatchConfig.Neutral.known {cfg : MatchConfig} (hn : cfg.Neutral) {r1 r2 : Row}
    (h : WithinTolerance cfg r1 r2) : BandwidthsKnown r1 r2 := by
  obtain ⟨d, -, hd⟩ := withinTolerance_iff_le_tolLimit.mp h
  unfold tolLimit at hd
  rw [if_pos hn.useBandTol, hn.bwTolOverrideMhz] at hd
  unfold BandwidthsKnown
  revert hd
  rcases (r1 (.num .bandwidthKHz)).number with _ | b1 <;>
    rcases (r2 (.num .bandwidthKHz)).number with _ | b2 <;> intro hd
  · exact absurd hd (WithBot.not_coe_le_bot d)
  · exact absurd hd (WithBot.not_coe_le_bot d)
  · exact absurd hd (WithBot.not_coe_le_bot d)
  · exact ⟨rfl, rfl⟩

/-- Under a neutral configuration the two rules differ where bands meet although a bandwidth is
missing, and nowhere else. -/
theorem MatchConfig.Neutral.applied_iff {cfg : MatchConfig} (hn : cfg.Neutral) {ms : Members}
    {i : ℕ} {m : Member} {new : Row} (h : SightedOnce ms i m new) :
    Applied cfg ms i m new ↔
      (WithinBands cfg m.cells new → BandwidthsKnown m.cells new) := by
  rw [h.applied_iff]
  refine ⟨fun hagree hbands => hn.known (hagree.mp hbands).1, fun hknown => ?_⟩
  have hmeasured : BandwidthsKnown m.cells new → WithinBands cfg m.cells new →
      LimitsAgree cfg m.cells new := by
    intro hk hbands
    obtain ⟨b1, hb1⟩ := Option.isSome_iff_exists.mp hk.1
    obtain ⟨b2, hb2⟩ := Option.isSome_iff_exists.mp hk.2
    obtain ⟨f1, f2, _, _, hf1, hf2, _⟩ := hbands
    exact (limitsAgree_iff ⟨hf1, hb1⟩ ⟨hf2, hb2⟩).mpr (hn.agreesOn ..)
  refine ⟨fun hbands => (hmeasured (hknown hbands) hbands).mp hbands, fun hmatch => ?_⟩
  obtain ⟨b1, hb1⟩ := Option.isSome_iff_exists.mp (hn.known hmatch.1).1
  obtain ⟨b2, hb2⟩ := Option.isSome_iff_exists.mp (hn.known hmatch.1).2
  obtain ⟨f1, f2, _, hf1, hf2, _⟩ := hmatch.1
  exact ((limitsAgree_iff ⟨hf1, hb1⟩ ⟨hf2, hb2⟩).mpr (hn.agreesOn ..)).mpr hmatch

/-- A tolerance that does not grow with the bandwidths is passed by wide enough bands. -/
theorem not_const_tol {cfg : MatchConfig} {c : ℚ}
    (h : ∀ f1 b1 f2 b2, cfg.AgreesOn f1 b1 f2 b2 True) : ¬ ∀ b1 b2, cfg.tol b1 b2 = c := by
  intro hc
  have hpos : 0 ≤ |c| := abs_nonneg c
  have hpad : 0 ≤ |cfg.bandPadMhz| := abs_nonneg _
  have hwide := (h (|c| + 1) (1000 * (|c| + 1 + |cfg.bandPadMhz|)) 0
    (1000 * (|c| + 1 + |cfg.bandPadMhz|))).mp (by
      rw [sub_zero, abs_of_nonneg (by linarith)]
      linarith [neg_abs_le cfg.bandPadMhz])
  rw [hc, sub_zero, abs_of_nonneg (by linarith)] at hwide
  linarith [hwide.1, le_abs_self c]

/-- A configuration that agrees on all records with numbers is neutral. -/
theorem neutral_of_agreesOn {cfg : MatchConfig}
    (h : ∀ f1 b1 f2 b2 sameSignal, cfg.AgreesOn f1 b1 f2 b2 sameSignal) : cfg.Neutral := by
  have hpad := neg_abs_le cfg.bandPadMhz
  have hpos : 0 ≤ |cfg.bandPadMhz| := abs_nonneg _
  have hband : cfg.useBandTol = true := by
    by_contra hno
    apply not_const_tol (c := cfg.freqTolMhz) fun f1 b1 f2 b2 => h f1 b1 f2 b2 True
    intro b1 b2
    unfold MatchConfig.tol
    rw [if_neg hno]
  have hover : cfg.bwTolOverrideMhz = none := by
    rcases hw : cfg.bwTolOverrideMhz with _ | w
    · rfl
    · refine absurd (fun b1 b2 => ?_) (not_const_tol
        (c := w + w + cfg.freqTolOverrideMhz.getD 0 + cfg.freqTolOverrideMhz.getD 0
          + cfg.bandPadMhz) fun f1 b1 f2 b2 => h f1 b1 f2 b2 True)
      unfold MatchConfig.tol
      rw [if_pos hband, hw]
      rfl
  have htol : ∀ b1 b2, cfg.tol b1 b2 = b1 / 2 / 1000 + b2 / 2 / 1000
      + cfg.freqTolOverrideMhz.getD 0 + cfg.freqTolOverrideMhz.getD 0 + cfg.bandPadMhz := by
    intro b1 b2
    unfold MatchConfig.tol
    rw [if_pos hband, hover]
    rfl
  have hwide : (0 : ℚ) ≤ 1000 * |cfg.bandPadMhz| / 2 / 1000
      + 1000 * |cfg.bandPadMhz| / 2 / 1000 + cfg.bandPadMhz := by linarith
  have hguard : cfg.useBwGuard = false := by
    by_contra hno
    have hsame := (h 0 0 0 (2000 * (|cfg.bandPadMhz| + 1)) True).mp (by
      rw [sub_self, abs_zero]
      linarith)
    have hle := hsame.2.1 (Bool.eq_true_of_not_eq_false hno)
    rw [mul_zero, zero_sub, abs_neg, abs_of_nonneg (by linarith)] at hle
    linarith
  have hsignal : cfg.matchSignalType = false := by
    by_contra hno
    have hsame := (h 0 (1000 * |cfg.bandPadMhz|) 0 (1000 * |cfg.bandPadMhz|) False).mp (by
      rw [sub_self, abs_zero]
      exact hwide)
    exact hsame.2.2 (Bool.eq_true_of_not_eq_false hno)
  refine ⟨hband, ?_, hover, hguard, hsignal⟩
  -- what is at the limit of the bands is within the tolerance, and what is at the limit of the
  -- tolerance is within the bands
  have hlimit : ∀ d : ℚ, 0 ≤ d →
      (d ≤ 1000 * |cfg.bandPadMhz| / 2 / 1000 + 1000 * |cfg.bandPadMhz| / 2 / 1000
        + cfg.bandPadMhz ↔
      d ≤ 1000 * |cfg.bandPadMhz| / 2 / 1000 + 1000 * |cfg.bandPadMhz| / 2 / 1000
        + cfg.freqTolOverrideMhz.getD 0 + cfg.freqTolOverrideMhz.getD 0 + cfg.bandPadMhz) := by
    intro d hd
    have hsame := h d (1000 * |cfg.bandPadMhz|) 0 (1000 * |cfg.bandPadMhz|) True
    unfold MatchConfig.AgreesOn at hsame
    rw [hguard, hsignal, sub_zero, abs_of_nonneg hd, htol] at hsame
    simpa using hsame
  have hle := (hlimit _ hwide).mp le_rfl
  have hge := (hlimit _ (hwide.trans hle)).mpr le_rfl
  linarith

/-- The record of an emitter at a frequency, with a bandwidth and a signal type. -/
def emitterAt (mhz khz : ℚ) (signalType : Text) : Row := fun c =>
  match c with
  | .num .frequencyMHz => .flt mhz
  | .num .bandwidthKHz => .flt khz
  | .txt .rdfs => .str "RDFS5".toList
  | .txt .signalType => .str signalType
  | _ => .null

/-- A table with the record as its only net. -/
def netTable (row : Row) : Members where
  cols := Col.data
  dtype _ := .object
  rows := [{ netId := 100001, myNetId := some 1, cells := row }]

theorem measured_emitterAt (mhz khz : ℚ) (signalType : Text) :
    (emitterAt mhz khz signalType).Measured mhz khz := ⟨rfl, rfl⟩

theorem sightedOnce_netTable (f1 b1 f2 b2 : ℚ) (s1 s2 : Text) :
    SightedOnce (netTable (emitterAt f1 b1 s1)) 0
      { netId := 100001, myNetId := some 1, cells := emitterAt f1 b1 s1 }
      (emitterAt f2 b2 s2) :=
  ⟨show Col.txt .rdfs ∈ Col.data by decide, rfl, rfl, rfl, rfl, rfl⟩

/-- The configuration is neutral exactly where, for every net sighted once and every report of its
station, the configured rule is the one applied unless the bands meet and a bandwidth is missing.
For any configuration, it is applied to those whose frequencies are clear of the two limits. -/
theorem rule_applied_iff (cfg : MatchConfig) :
    (cfg.Neutral ↔ ∀ ms i m new, SightedOnce ms i m new →
        (Applied cfg ms i m new ↔
          (WithinBands cfg m.cells new → BandwidthsKnown m.cells new))) ∧
      ∀ ms i m new, SightedOnce ms i m new →
        (Applied cfg ms i m new ↔
          ∀ d, distance m.cells new = some d → ClearOfLimits cfg m.cells new d) := by
  refine ⟨⟨fun hn ms i m new hs => hn.applied_iff hs, fun h => ?_⟩,
    fun ms i m new hs => hs.applied_iff_clear⟩
  apply neutral_of_agreesOn
  intro f1 b1 f2 b2 sameSignal
  -- two signal types that are the same or not, as asked for
  have hpair : ∀ s1 s2 : Text, (cellEq (.str s1) (.str s2) = true ↔ sameSignal) →
      cfg.AgreesOn f1 b1 f2 b2 sameSignal := by
    intro s1 s2 hsignal
    have hs := sightedOnce_netTable f1 b1 f2 b2 s1 s2
    have h1 := measured_emitterAt f1 b1 s1
    have h2 := measured_emitterAt f2 b2 s2
    have happlied := (h _ _ _ _ hs).mpr fun _ => ⟨rfl, rfl⟩
    rw [hs.applied_iff, limitsAgree_iff h1 h2] at happlied
    unfold MatchConfig.AgreesOn at happlied ⊢
    rwa [← hsignal]
  by_cases hsignal : sameSignal
  · exact hpair "data".toList "data".toList (iff_of_true (by decide) hsignal)
  · exact hpair "data".toList "voice".toList (iff_of_false (by decide) hsignal)

/-- Under the default configuration the rule is applied to a net and a report half a bandwidth
apart, and not to the net and a report of its frequency without a bandwidth. -/
theorem rule_applied_default :
    Applied {} (netTable (emitterAt 100 50 "data".toList)) 0
        { netId := 100001, myNetId := some 1, cells := emitterAt 100 50 "data".toList }
        (emitterAt (100 + 1 / 40) 50 "data".toList) ∧
      ¬ Applied {} (netTable (emitterAt 100 50 "data".toList)) 0
        { netId := 100001, myNetId := some 1, cells := emitterAt 100 50 "data".toList }
        (Function.update (emitterAt 100 50 "data".toList) (.num .bandwidthKHz) .null) := by
  have happlied := (rule_applied_iff {}).1.mp ⟨rfl, rfl, rfl, rfl, rfl⟩
  refine ⟨(happlied _ _ _ _ (sightedOnce_netTable ..)).mpr fun _ => ⟨rfl, rfl⟩, fun h => ?_⟩
  have hs : SightedOnce (netTable (emitterAt 100 50 "data".toList)) 0
      { netId := 100001, myNetId := some 1, cells := emitterAt 100 50 "data".toList }
      (Function.update (emitterAt 100 50 "data".toList) (.num .bandwidthKHz) .null) :=
    ⟨show Col.txt .rdfs ∈ Col.data by decide, rfl, rfl, rfl, rfl, rfl⟩
  have hknown := (happlied _ _ _ _ hs).mp h
    ⟨100, 100, 50 / 2 / 1000, 0, rfl, rfl, rfl, rfl, by norm_num⟩
  exact Bool.false_ne_true hknown.2

/-- With `--flat-freq-tol 1`, a report half a MHz from a net is the same emitter, and gets a net of
its own. -/
theorem flat_tolerance_ignored :
    ¬ ∀ (cfg : MatchConfig) (ms : Members) (i : ℕ) (m : Member) (new : Row) (f1 b1 f2 b2 : ℚ),
      SightedOnce ms i m new → m.cells.Measured f1 b1 → new.Measured f2 b2 →
        Applied cfg ms i m new := by
  intro hclaim
  have hs := sightedOnce_netTable 100 10 (100 + 1 / 2) 10 "data".toList "data".toList
  have h1 := measured_emitterAt 100 10 "data".toList
  have h2 := measured_emitterAt (100 + 1 / 2) 10 "data".toList
  have happlied := hclaim (cliConfig (some 1) 0) _ _ _ _ _ _ _ _ hs h1 h2
  rw [hs.applied_iff, limitsAgree_iff h1 h2] at happlied
  have hnot : ¬ |(100 : ℚ) - (100 + 1 / 2)| ≤ 10 / 2 / 1000 + 10 / 2 / 1000 + 0 := by norm_num
  have hflat : |(100 : ℚ) - (100 + 1 / 2)| ≤ 1 := by norm_num
  apply hnot
  exact happlied.mpr
    ⟨hflat, ⟨fun h => absurd h Bool.false_ne_true, fun h => absurd h Bool.false_ne_true⟩⟩

end NetBuild
