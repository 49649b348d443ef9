import NetBuild.Bands
import NetBuild.EmitterMatch
import NetBuild.ReportLoop

/-!
# The observed band of a net over a run

A net is meant to keep the full band it was ever seen on, so that a report that would once have
been folded into it always is. `collapse_into` widens the two hidden edges; where they are not set,
as for every net just loaded, it sets them to the band of the report alone, and the band of the
record that stood for the net until then is lost.
-/

namespace NetBuild

/-- What the second band reaches the first one does too. No band is nothing to reach. -/
def Spans (big small : Option Band) : Prop :=
  ∀ b, small = some b → ∃ b', big = some b' ∧ b'.Covers b

theorem Spans.refl (b : Option Band) : Spans b b := fun b h => ⟨b, h, .refl b⟩

theorem Spans.trans {a b c : Option Band} (h : Spans a b) (h' : Spans b c) : Spans a c := by
  intro x hx
  obtain ⟨y, hy, hxy⟩ := h' x hx
  obtain ⟨z, hz, hyz⟩ := h y hy
  exact ⟨z, hz, hyz.trans hxy⟩

theorem spans_none (b : Option Band) : Spans b none := fun _ h => nomatch h

theorem spans_some_iff {b c : Band} : Spans (some b) (some c) ↔ b.Covers c := by
  unfold Spans
  simp

/-- A report whose band meets a net's meets every band that spans it. -/
theorem Spans.overlap {m m' : Member} (h : Spans m'.band m.band) {cfg : MatchConfig} {rep : Row}
    (hov : bandsOverlap cfg m rep = true) : bandsOverlap cfg m' rep = true := by
  obtain ⟨r, b, hr, hb, hmeets⟩ := bandsOverlap_iff.mp hov
  obtain ⟨b', hb', hcovers⟩ := h b hb
  exact bandsOverlap_iff.mpr ⟨r, b', hr, hb', hmeets.mono hcovers⟩

/-! ## One fold -/

/-- Both hidden edges of the net are set. -/
def Member.Tracked (m : Member) : Prop := m.fLo ≠ none ∧ m.fHi ≠ none

/-- The band of a report, joined with the hidden edges that are set. -/
def Band.joined (r : Band) (m : Member) : Band :=
  ⟨m.fLo.elim r.lo fun lo => min lo r.lo, m.fHi.elim r.hi fun hi => max hi r.hi⟩

/-- A record with the fields of a report over its own. -/
def Row.overlaid (cols : List Col) (old new : Row) : Row := fun c =>
  if c ∈ cols ∧ (new c).isna = false then new c else old c

/-- The net's band is not lost when the report is folded into it: it is tracked, or the report's
band contains the one of the record, or the report has none and leaves the record's. -/
def KeepsBand (ms : Members) (old : Member) (new : Row) : Prop :=
  old.Tracked ∨ (∃ r : Band, new.band = some r ∧ ∀ b, old.cells.band = some b →
    (r.joined old).Covers b) ∨
  (new.band = none ∧ (isNewer (old.cells .lti).toDt (new .lti).toDt = true →
    Spans (Row.overlaid ms.cols old.cells new).band old.cells.band))

section
variable {ms ms' : Members} {i : ℕ} {old m : Member} {new : Row}

/-- The band of a record depends on two of its fields. -/
theorem Row.band_congr {r r' : Row} (hf : r (.num .frequencyMHz) = r' (.num .frequencyMHz))
    (hb : r (.num .bandwidthKHz) = r' (.num .bandwidthKHz)) : r.band = r'.band := by
  unfold Row.band bandEdges
  rw [hf, hb]

theorem fLo_collapsedMember (nti : Cell) : (collapsedMember ms old new nti).fLo =
    Option.merge min old.fLo ((bandEdges new).bind (·.1)) := rfl

theorem fHi_collapsedMember (nti : Cell) : (collapsedMember ms old new nti).fHi =
    Option.merge max old.fHi ((bandEdges new).bind (·.2)) := rfl

/-- The band after a report that has one was folded in. -/
theorem band_collapsedMember_of_some {r : Band} (hr : new.band = some r) (nti : Cell) :
    (collapsedMember ms old new nti).band = some (r.joined old) := by
  rcases bandEdges_cases new with ⟨hnone, -⟩ | ⟨b, hb, hedges⟩
  · rw [hnone] at hr
    exact nomatch hr
  · obtain rfl := Option.some.inj (hb.symm.trans hr)
    apply Member.band_of_tracked
    · rw [fLo_collapsedMember, hedges]
      rcases old.fLo with _ | lo <;> rfl
    · rw [fHi_collapsedMember, hedges]
      rcases old.fHi with _ | hi <;> rfl

/-- A report without a band leaves the hidden edges as they are. -/
theorem edges_collapsedMember_of_none (hr : new.band = none) (nti : Cell) :
    (collapsedMember ms old new nti).fLo = old.fLo ∧
      (collapsedMember ms old new nti).fHi = old.fHi := by
  rcases bandEdges_cases new with ⟨-, hlo, hhi⟩ | ⟨b, hb, -⟩
  · rw [fLo_collapsedMember, fHi_collapsedMember, hlo, hhi]
    exact ⟨Option.merge_none_right, Option.merge_none_right⟩
  · rw [hb] at hr
    exact nomatch hr

/-- The record after a fold has the band of its fields and the report's over them, if the report is
the newer one. -/
theorem band_cells_collapsedMember (nti : Cell) :
    (collapsedMember ms old new nti).cells.band =
      if isNewer (old.cells .lti).toDt (new .lti).toDt = true
      then (Row.overlaid ms.cols old.cells new).band else old.cells.band := by
  have hcell : ∀ c : NumCol, (collapsedMember ms old new nti).cells (.num c) =
      if isNewer (old.cells .lti).toDt (new .lti).toDt = true
      then Row.overlaid ms.cols old.cells new (.num c) else old.cells (.num c) := by
    intro c
    rw [cells_collapsedMember _ _ _ _ (c := .num c) ⟨nofun, nofun, nofun⟩]
    unfold Row.overlaid
    rcases isNewer (old.cells .lti).toDt (new .lti).toDt
    · simp
    · simp
  split
  · next hnew =>
    apply Row.band_congr
    · rw [hcell, if_pos hnew]
    · rw [hcell, if_pos hnew]
  · next hnew =>
    apply Row.band_congr
    · rw [hcell, if_neg hnew]
    · rw [hcell, if_neg hnew]

/-- A band joined with a report's contains the report's. -/
theorem joined_covers (r : Band) (m : Member) : (r.joined m).Covers r := by
  unfold Band.joined
  refine ⟨?_, ?_⟩
  · rcases m.fLo with _ | lo
    · exact le_rfl
    · exact min_le_right _ _
  · rcases m.fHi with _ | hi
    · exact le_rfl
    · exact le_max_right _ _

/-- A net that is tracked keeps its band. -/
theorem spans_of_tracked (h : old.Tracked) (nti : Cell) :
    Spans (collapsedMember ms old new nti).band old.band := by
  obtain ⟨lo, hlo⟩ := Option.ne_none_iff_exists'.mp h.1
  obtain ⟨hi, hhi⟩ := Option.ne_none_iff_exists'.mp h.2
  rw [Member.band_of_tracked hlo hhi]
  rcases hr : new.band with _ | r
  · obtain ⟨hlo', hhi'⟩ := @edges_collapsedMember_of_none ms old new hr nti
    rw [Member.band_of_tracked (hlo'.trans hlo) (hhi'.trans hhi)]
    exact .refl _
  · rw [band_collapsedMember_of_some hr, spans_some_iff]
    unfold Band.joined
    rw [hlo, hhi]
    exact ⟨min_le_left _ _, le_max_left _ _⟩

/-- The band after a fold spans the one before and the report's exactly where `KeepsBand` holds. -/
theorem spans_collapsedMember_iff (nti : Cell) :
    (Spans (collapsedMember ms old new nti).band old.band ∧
      Spans (collapsedMember ms old new nti).band new.band) ↔ KeepsBand ms old new := by
  have hrep : Spans (collapsedMember ms old new nti).band new.band := by
    rcases hr : new.band with _ | r
    · exact spans_none _
    · rw [band_collapsedMember_of_some hr, spans_some_iff]
      exact joined_covers r old
  rw [and_iff_left hrep]
  unfold KeepsBand
  by_cases htracked : old.Tracked
  · exact iff_of_true (spans_of_tracked htracked nti) (.inl htracked)
  · have hold : old.fLo = none ∨ old.fHi = none := by
      unfold Member.Tracked at htracked
      tauto
    rw [Member.band_of_untracked hold, or_iff_right htracked]
    rcases hr : new.band with _ | r
    · obtain ⟨hlo, hhi⟩ := @edges_collapsedMember_of_none ms old new hr nti
      rw [Member.band_of_untracked (by rw [hlo, hhi]; exact hold), band_cells_collapsedMember]
      split
      · next hnew => simp [hnew]
      · next hnew => simp [hnew, Spans.refl]
    · rw [band_collapsedMember_of_some hr]
      unfold Spans
      simp

end

/-! ## A run -/

/-- One step on the members in a run: a record is appended, or a report that satisfies `safe` is
folded into a record. -/
inductive BandStep (safe : Members → Member → Row → Prop) : Members → Members → Prop
  | append (ms : Members) (keys : List Col) (m : Member) : BandStep safe ms (ms.append keys m)
  | fold {ms ms' : Members} {i : ℕ} {old m : Member} {new : Row} (getElem : ms.rows[i]? = some old)
      (hsafe : safe ms old new) (into : collapseInto ms i old new = .ok (ms', m)) :
      BandStep safe ms ms'

/-- The steps of a run. -/
abbrev BandSteps (safe : Members → Member → Row → Prop) : Members → Members → Prop :=
  Relation.ReflTransGen (BandStep safe)

/-- A step keeps every record at its place, with a band that spans the one before. -/
theorem BandStep.spans {ms ms' : Members} (h : BandStep KeepsBand ms ms') {i : ℕ} {m : Member}
    (hm : ms.rows[i]? = some m) : ∃ m', ms'.rows[i]? = some m' ∧ Spans m'.band m.band := by
  rcases h with _ | @⟨_, j, old, _, new, hget, hsafe, hinto⟩
  · refine ⟨m, ?_, .refl _⟩
    show (ms.rows ++ [_])[i]? = some m
    rw [List.getElem?_append_left (List.getElem?_eq_some_iff.mp hm).1, hm]
  · obtain ⟨nti, -, rfl, -⟩ := collapseInto_eq_ok_iff.mp hinto
    show ∃ m', (ms.rows.set j (collapsedMember ms old new nti))[i]? = some m' ∧ _
    by_cases hij : j = i
    · subst hij
      obtain rfl := Option.some.inj (hget.symm.trans hm)
      refine ⟨_, ?_, ((spans_collapsedMember_iff nti).mpr hsafe).1⟩
      exact List.getElem?_set_self (List.getElem?_eq_some_iff.mp hm).1
    · exact ⟨m, by rw [List.getElem?_set_ne hij, hm], .refl _⟩

/-- The loop over the reports makes such steps. -/
theorem routeReports_steps {caller : Caller} {cfg : MatchConfig} {ms ms' : Members}
    {reports : List Dict} {as : List Assignment}
    (h : routeReports caller cfg ms reports = .ok (ms', as)) :
    BandSteps (fun _ _ _ => True) ms ms' := by
  induction reports generalizing ms as with
  | nil =>
    obtain ⟨rfl, -⟩ := Prod.mk.inj (Except.ok.inj h)
    exact .refl
  | cons d ds ih =>
    obtain ⟨ms₁, a, as', hd, hds, -⟩ := routeReports_cons.mp h
    refine .head ?_ (ih hds)
    rcases routeReport_eq_ok_iff.mp hd with
      ⟨-, -, rfl⟩ | ⟨old, i, nti, my, hnew, hnti, -, rfl, -⟩
    · exact .append ms d.keys _
    · exact .fold (newest_eq_some hnew).2.2.1 trivial
        (collapseInto_eq_ok_iff.mpr ⟨nti, hnti, rfl, rfl⟩)

/-- Over a run whose folds keep the band of the net, the band of every net only grows, so that what
overlapped it once still does; and a fold keeps the band, and takes in the report's, exactly where
`KeepsBand` says so. -/
theorem bands_never_shrink {ms₀ ms : Members} (h : BandSteps KeepsBand ms₀ ms) :
    (∀ (i : ℕ) (m₀ : Member), ms₀.rows[i]? = some m₀ →
      ∃ m, ms.rows[i]? = some m ∧ Spans m.band m₀.band ∧
        ∀ cfg rep, bandsOverlap cfg m₀ rep = true → bandsOverlap cfg m rep = true) ∧
    ∀ (i : ℕ) (old : Member) new ms' m, ms.rows[i]? = some old →
      collapseInto ms i old new = .ok (ms', m) →
        (Spans m.band old.band ∧ Spans m.band new.band ↔ KeepsBand ms old new) := by
  have hgrow : ∀ (i : ℕ) (m₀ : Member), ms₀.rows[i]? = some m₀ →
      ∃ m, ms.rows[i]? = some m ∧ Spans m.band m₀.band := by
    intro i m₀ hm₀
    induction h with
    | refl => exact ⟨m₀, hm₀, .refl _⟩
    | tail _ hstep ih =>
      obtain ⟨m₁, hm₁, hspan₁⟩ := ih
      obtain ⟨m, hm, hspan⟩ := hstep.spans hm₁
      exact ⟨m, hm, hspan.trans hspan₁⟩
  refine ⟨fun i m₀ hm₀ => ?_, fun i old new ms' m hget hinto => ?_⟩
  · obtain ⟨m, hm, hspan⟩ := hgrow i m₀ hm₀
    exact ⟨m, hm, hspan, fun cfg rep => hspan.overlap⟩
  · obtain ⟨nti, -, -, rfl⟩ := collapseInto_eq_ok_iff.mp hinto
    exact spans_collapsedMember_iff nti

/-- The net of a loaded table whose only record has these fields. -/
def loadedNet (row : Row) : Member := { netId := 100001, myNetId := some 1, cells := row }

theorem collapseInto_emitterAt (f1 b1 f2 b2 : ℚ) (s1 s2 : Text) :
    collapseInto (netTable (emitterAt f1 b1 s1)) 0 (loadedNet (emitterAt f1 b1 s1))
        (emitterAt f2 b2 s2)
      = .ok ((netTable (emitterAt f1 b1 s1)).fold 0 (loadedNet (emitterAt f1 b1 s1))
          (emitterAt f2 b2 s2) .null,
        collapsedMember (netTable (emitterAt f1 b1 s1)) (loadedNet (emitterAt f1 b1 s1))
          (emitterAt f2 b2 s2) .null) :=
  collapseInto_eq_ok_iff.mpr ⟨.null, ⟨rfl, rfl⟩, rfl, rfl⟩

theorem band_emitterAt (mhz khz : ℚ) (signalType : Text) :
    (emitterAt mhz khz signalType).band
      = some ⟨mhz - khz / 2 / 1000, mhz + khz / 2 / 1000⟩ := rfl

/-- A narrow net that a wide report is folded into has the wide band. -/
theorem bands_never_shrink_widened :
    ∃ ms m, BandSteps KeepsBand (netTable (emitterAt 100 10 "data".toList)) ms ∧
      ms.rows[0]? = some m ∧
        Spans m.band (loadedNet (emitterAt 100 10 "data".toList)).band := by
  have hkeeps : KeepsBand (netTable (emitterAt 100 10 "data".toList))
      (loadedNet (emitterAt 100 10 "data".toList)) (emitterAt 100 1000 "data".toList) := by
    refine .inr (.inl ⟨_, band_emitterAt .., fun b hb => ?_⟩)
    obtain rfl := Option.some.inj ((band_emitterAt ..).symm.trans hb)
    decide +kernel
  have hsteps : BandSteps KeepsBand (netTable (emitterAt 100 10 "data".toList)) _ :=
    .single (.fold rfl hkeeps (collapseInto_emitterAt ..))
  obtain ⟨m, hm, hspan, -⟩ := (bands_never_shrink hsteps).1 0 _ rfl
  exact ⟨_, m, hsteps, hm, hspan⟩

/-- A narrow report folded into a wide net that was just loaded leaves the narrow band. -/
theorem band_lost :
    ¬ ∀ (ms₀ ms : Members), BandSteps (fun _ _ _ => True) ms₀ ms →
      ∀ (i : ℕ) (old : Member) (new : Row) (ms' : Members) (m : Member),
        ms.rows[i]? = some old → collapseInto ms i old new = .ok (ms', m) →
          Spans m.band old.band ∧ Spans m.band new.band := by
  intro hclaim
  have hspans := (hclaim _ _ .refl 0 _ _ _ _ rfl
    (collapseInto_emitterAt 100 1000 100 10 "data".toList "data".toList)).1
  have hold : (loadedNet (emitterAt 100 1000 "data".toList)).band
      = some ⟨100 - 1000 / 2 / 1000, 100 + 1000 / 2 / 1000⟩ := rfl
  rw [hold, band_collapsedMember_of_some (band_emitterAt 100 10 "data".toList),
    spans_some_iff] at hspans
  exact absurd hspans (by decide +kernel)

end NetBuild
