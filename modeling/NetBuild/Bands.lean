import NetBuild.NetBuildingTheorems
import Mathlib.Tactic.Linarith

/-!
# Bands

The interval of frequencies a record stands for. A record whose frequency is not a number, or whose
bandwidth is `nan`, has none, and so is found by no comparison; `bandsOverlap` is whether the
intervals of a report and of a net meet.
-/

namespace NetBuild

/-- A band in MHz. The edges are in no order where a bandwidth is negative. -/
@[ext]
structure Band where
  lo : ℚ
  hi : ℚ
  deriving DecidableEq

namespace Band

/-- `b` reaches at least as far as `b'` on both sides. -/
def Covers (b b' : Band) : Prop := b.lo ≤ b'.lo ∧ b'.hi ≤ b.hi

/-- The band of a report, widened by a pad, meets the band of a net. -/
def Meets (pad : ℚ) (r b : Band) : Prop := r.lo - pad ≤ b.hi ∧ b.lo ≤ r.hi + pad

instance (b b' : Band) : Decidable (b.Covers b') := inferInstanceAs (Decidable (_ ∧ _))

theorem Covers.refl (b : Band) : b.Covers b := ⟨le_refl _, le_refl _⟩

theorem Covers.trans {a b c : Band} (h : a.Covers b) (h' : b.Covers c) : a.Covers c :=
  ⟨h.1.trans h'.1, h'.2.trans h.2⟩

/-- What meets a band meets every band that covers it. -/
theorem Meets.mono {pad : ℚ} {r b b' : Band} (h : r.Meets pad b) (hb : b'.Covers b) :
    r.Meets pad b' := ⟨h.1.trans hb.2, hb.1.trans h.2⟩

/-- A band of no width meets what contains it. -/
theorem meets_point {f : ℚ} {b : Band} : Meets 0 ⟨f, f⟩ b ↔ b.lo ≤ f ∧ f ≤ b.hi := by
  show f - 0 ≤ b.hi ∧ b.lo ≤ f + 0 ↔ _
  rw [sub_zero, add_zero, and_comm]

end Band

/-! ## The band of a record -/

/-- The number a cell reads as. -/
def Cell.number (c : Cell) : Option ℚ := c.pyFloat.bind id

/-- Half the bandwidth of a record in MHz, 0 where it is not a number and nothing where it is
`nan`. -/
def Row.halfWidth (rec : Row) : Fl :=
  match (rec (.num .bandwidthKHz)).pyFloat with
  | some b => b.map fun b => b / 2 / 1000
  | none => some 0

/-- The band between two edges, if both are numbers. -/
def edges (e : Option (Fl × Fl)) : Option Band :=
  e.bind fun p => p.1.bind fun lo => p.2.map fun hi => ⟨lo, hi⟩

/-- The band a record occupies by its own fields. -/
def Row.band (rec : Row) : Option Band := edges (bandEdges rec)

/-- The observed band of a net. -/
def Member.band (m : Member) : Option Band := edges (memberBand m)

theorem Row.band_eq (rec : Row) :
    rec.band = (rec (.num .frequencyMHz)).number.bind fun f =>
      rec.halfWidth.map fun h => ⟨f - h, f + h⟩ := by
  have hedges : bandEdges rec = (rec (.num .frequencyMHz)).pyFloat.map fun f =>
      (f.sub rec.halfWidth, f.add rec.halfWidth) := rfl
  unfold band Cell.number
  rw [hedges]
  rcases (rec (.num .frequencyMHz)).pyFloat with _ | _ | f
  · rfl
  · rfl
  · rcases rec.halfWidth with _ | h <;> rfl

/-- The edges of a record are both numbers, or neither is. -/
theorem bandEdges_cases (rec : Row) :
    (rec.band = none ∧ ((bandEdges rec).bind (·.1) = none ∧ (bandEdges rec).bind (·.2) = none)) ∨
      ∃ b : Band, rec.band = some b ∧ bandEdges rec = some (some b.lo, some b.hi) := by
  have hedges : bandEdges rec = (rec (.num .frequencyMHz)).pyFloat.map fun f =>
      (f.sub rec.halfWidth, f.add rec.halfWidth) := rfl
  unfold Row.band
  rw [hedges]
  rcases (rec (.num .frequencyMHz)).pyFloat with _ | _ | f
  · exact .inl ⟨rfl, rfl, rfl⟩
  · exact .inl ⟨rfl, rfl, rfl⟩
  · rcases rec.halfWidth with _ | h
    · exact .inl ⟨rfl, rfl, rfl⟩
    · exact .inr ⟨⟨f - h, f + h⟩, rfl, rfl⟩

theorem Member.band_of_tracked {m : Member} {lo hi : ℚ} (hlo : m.fLo = some lo)
    (hhi : m.fHi = some hi) : m.band = some ⟨lo, hi⟩ := by
  unfold band memberBand
  rw [hlo, hhi]
  rfl

/-- A net whose band is not tracked has the band of its record. -/
theorem Member.band_of_untracked {m : Member} (h : m.fLo = none ∨ m.fHi = none) :
    m.band = m.cells.band := by
  unfold band memberBand
  rcases hlo : m.fLo with _ | lo
  · rfl
  · rcases hhi : m.fHi with _ | hi
    · rfl
    · rw [hlo, hhi] at h
      exact absurd h (by simp)

/-! ## Overlap -/

/-- The test of `assign_net` is whether the two bands meet. -/
theorem bandsOverlap_iff {cfg : MatchConfig} {m : Member} {new : Row} :
    bandsOverlap cfg m new = true ↔
      ∃ r b : Band, new.band = some r ∧ m.band = some b ∧ r.Meets cfg.bandPadMhz b := by
  have hle : ∀ x y : Fl, x.le y = true ↔ ∃ a b, x = some a ∧ y = some b ∧ a ≤ b := by
    intro x y
    rcases x with _ | a
    · simp [Fl.le]
    · rcases y with _ | b <;> simp [Fl.le]
  unfold bandsOverlap reportBand Row.band Member.band
  rcases bandEdges new with _ | ⟨rlo, rhi⟩
  · simp [edges]
  · rcases memberBand m with _ | ⟨lo, hi⟩
    · simp [edges]
    · rcases rlo with _ | rlo
      · simp [edges, Fl.sub, Fl.le]
      · rcases rhi with _ | rhi
        · rcases lo with _ | lo <;> simp [edges, Fl.add, Fl.le]
        · rcases lo with _ | lo
          · simp [edges, Fl.le]
          · rcases hi with _ | hi
            · simp [edges, Fl.sub, Fl.le]
            · simp [edges, Fl.sub, Fl.add, Fl.le, Band.Meets]

end NetBuild
