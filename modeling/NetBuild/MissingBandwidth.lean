import NetBuild.Signatures
import NetBuild.Bands

/-!
# Reports without a bandwidth

A report without a bandwidth stands for its frequency alone: a bandwidth that cannot be read counts
as none. But the bandwidths of all the reports of a run are one column, and a number anywhere in it
turns what is missing into `NaN`, which can be read. `routedOnOwnBand_iff` says that this is
when such a report loses its band.
-/

namespace NetBuild

/-- The two records come from one station. -/
def SameStation (m : Member) (new : Row) : Prop :=
  (new (.txt .rdfs)).isna = false ∧ (m.cells (.txt .rdfs)).val = (new (.txt .rdfs)).val

/-- A row of frequency `f` stands for `[f, f]`, and `assign_net` considers for its band the nets of
its station whose observed band contains `f`. -/
structure RoutedOnOwnBand (ms : Members) (row : Row) (f : ℚ) : Prop where
  band : reportBand row = some (some f, some f)
  candidates : ∀ p ∈ ms.rows.zipIdx,
    (p ∈ candidates {} ms row ∧ bandsOverlap {} p.1 row = true) ↔
      SameStation p.1 row ∧ ∃ b, p.1.band = some b ∧ b.lo ≤ f ∧ f ≤ b.hi

/-- No report of the run has a bandwidth. -/
def NoBandwidths (reports : List Report) : Prop :=
  ∀ y ∈ reports, ∀ q, y.2.num .bandwidthKHz ≠ .val q

/-! ## Cells of a run -/

section
variable {reports : List Report} {x : Report} {f : ℚ}

theorem reportRow_num (reports : List Report) (x : Report) (n : NumCol) :
    reportRow reports x (.num n)
      = (inferDtype ((reports.map fun y => y.2.num n).map Dbl.cell)).store (x.2.num n).cell := by
  unfold reportRow storeRow
  rw [List.map_map, List.map_map]
  rfl

/-- The frequency of a report is read as it was stored. -/
theorem pyFloat_reportRow (hx : x ∈ reports) (hf : x.2.num .frequencyMHz = .val f) :
    (reportRow reports x (.num .frequencyMHz)).pyFloat = some (some f) := by
  have hmem : Dbl.val f ∈ reports.map fun y => y.2.num .frequencyMHz :=
    hf ▸ List.mem_map_of_mem (f := fun y : Report => y.2.num .frequencyMHz) hx
  rw [reportRow_num, inferDtype_of_number hmem, hf]
  rfl

/-- A missing bandwidth stays `None` where no report has one. -/
theorem bandwidth_none (hb : x.2.num .bandwidthKHz = .null) (hno : NoBandwidths reports) :
    reportRow reports x (.num .bandwidthKHz) = .null := by
  have hnone : ∀ q, Dbl.val q ∉ reports.map fun y => y.2.num .bandwidthKHz := by
    intro q hq
    obtain ⟨y, hy, hq⟩ := List.mem_map.mp hq
    exact hno y hy q hq
  rw [reportRow_num, inferDtype_of_noNumber hnone, hb]
  rfl

/-- One number in the column makes a missing bandwidth `NaN`. -/
theorem bandwidth_nan (hb : x.2.num .bandwidthKHz = .null) (hno : ¬NoBandwidths reports) :
    reportRow reports x (.num .bandwidthKHz) = .nan := by
  unfold NoBandwidths at hno
  push Not at hno
  obtain ⟨y, hy, q, hq⟩ := hno
  have hmem : Dbl.val q ∈ reports.map fun y => y.2.num .bandwidthKHz :=
    hq ▸ List.mem_map_of_mem (f := fun y : Report => y.2.num .bandwidthKHz) hy
  rw [reportRow_num, inferDtype_of_number hmem, hb]
  rfl

theorem reportBand_noBandwidths (hx : x ∈ reports) (hf : x.2.num .frequencyMHz = .val f)
    (hb : x.2.num .bandwidthKHz = .null) (hno : NoBandwidths reports) :
    reportBand (reportRow reports x) = some (some f, some f) := by
  unfold reportBand bandEdges
  rw [pyFloat_reportRow hx hf, bandwidth_none hb hno]
  show some (some (f - 0), some (f + 0)) = _
  rw [sub_zero, add_zero]

/-- Beside a report with a bandwidth, one without has no edges. -/
theorem reportBand_bandwidths (hx : x ∈ reports) (hf : x.2.num .frequencyMHz = .val f)
    (hb : x.2.num .bandwidthKHz = .null) (hno : ¬NoBandwidths reports) :
    reportBand (reportRow reports x) = some (none, none) := by
  unfold reportBand bandEdges
  rw [pyFloat_reportRow hx hf, bandwidth_nan hb hno]
  rfl

end

/-! ## Candidates -/

/-- The loop gives every net all the data columns. -/
theorem AtReport.cols {cfg : MatchConfig} {building : List (ℤ × Net)}
    {history : List (HistKey × Hist)} {reports pre post : List Report} {x : Report}
    {st : FoldState} (h : AtReport cfg building history reports pre x post st)
    (hn : (reports.map Prod.fst).Nodup) : st.members.cols = Col.data := by
  obtain ⟨folded, hinv⟩ := h.loopInv hn
  exact hinv.routes.cols rfl

/-- A row that stands for its frequency has the candidates it should have. -/
theorem routedOnOwnBand_of_band {ms : Members} {row : Row} {f : ℚ}
    (hcols : Col.txt .rdfs ∈ ms.cols) (hband : reportBand row = some (some f, some f)) :
    RoutedOnOwnBand ms row f := by
  have hrow : row.band = some ⟨f, f⟩ := by
    show edges (reportBand row) = _
    rw [hband]
    rfl
  have hoverlap : ∀ m, bandsOverlap {} m row = true ↔
      ∃ b, m.band = some b ∧ b.lo ≤ f ∧ f ≤ b.hi := by
    intro m
    rw [bandsOverlap_iff, hrow]
    simp [Band.meets_point]
  refine ⟨hband, fun p hp => ?_⟩
  rw [hoverlap]
  apply and_congr_left
  intro hcont
  have hcand : isCandidate {} row p.1 = true ↔
      (p.1.cells (.txt .rdfs)).val = (row (.txt .rdfs)).val := by
    unfold isCandidate
    rw [(hoverlap p.1).mpr hcont]
    simp
  unfold candidates SameStation
  by_cases hna : (row (.txt .rdfs)).isna = false
  · rw [if_pos ⟨hcols, hna⟩, List.mem_filter, hcand]
    exact ⟨fun h => ⟨hna, h.2⟩, fun h => ⟨hp, h.2⟩⟩
  · rw [if_neg fun h => hna h.2]
    exact ⟨fun h => absurd h List.not_mem_nil, fun h => absurd h.1 hna⟩

/-- A report without a bandwidth is routed on its own frequency exactly where no report of the run
has a bandwidth. -/
theorem routedOnOwnBand_iff {building : List (ℤ × Net)} {history : List (HistKey × Hist)}
    {reports pre post : List Report} {x : Report} {st : FoldState} {f : ℚ}
    (hn : (reports.map Prod.fst).Nodup) (hat : AtReport {} building history reports pre x post st)
    (hf : x.2.num .frequencyMHz = .val f) (hb : x.2.num .bandwidthKHz = .null) :
    RoutedOnOwnBand st.members ((startEnv {} building history reports).row (reportRow reports x)) f
      ↔ NoBandwidths reports := by
  have hrdfs : Col.txt .rdfs ∈ st.members.cols := by
    rw [hat.cols hn]
    decide
  rw [startEnv_eq (List.ne_nil_of_mem hat.mem), row_buildEnv _ _ (reportRow_other hat.mem)]
  refine ⟨fun h => ?_, fun hno =>
    routedOnOwnBand_of_band hrdfs (reportBand_noBandwidths hat.mem hf hb hno)⟩
  by_contra hno
  have hband := h.band
  rw [reportBand_bandwidths hat.mem hf hb hno] at hband
  exact absurd hband (by simp)

/-- A report at 200 MHz without a bandwidth. -/
def noBandwidth : Report :=
  ((2, .of2024 5 7 (by decide)),
    { Fields.plain (.of2024 5 7 (by decide)) 1 200 ['A'] with
        num := fun n => if n = .frequencyMHz then .val 200 else .null })

/-- Another one, at 300 MHz. -/
def noBandwidthAt300 : Report :=
  ((3, .of2024 5 8 (by decide)),
    { Fields.plain (.of2024 5 8 (by decide)) 2 300 ['A'] with
        num := fun n => if n = .frequencyMHz then .val 300 else .null })

/-- A net of the same station at 200 MHz. -/
def at200 : ℤ × Net :=
  (100001, ⟨some 1, some 1, none, .plain (.of2024 3 6 (by decide)) 1 200 ['A'], none⟩)

/-- Beside each other, the first is routed on its frequency: it is a candidate for the net. -/
theorem routedOnOwnBand_twoReports :
    RoutedOnOwnBand (startMembers [at200]) ((startEnv {} [at200] [] [noBandwidth,
        noBandwidthAt300]).row (reportRow [noBandwidth, noBandwidthAt300] noBandwidth)) 200 ∧
      ((startMembers [at200]).rows.get ⟨0, by decide⟩, 0) ∈ candidates {} (startMembers [at200])
        ((startEnv {} [at200] [] [noBandwidth, noBandwidthAt300]).row
          (reportRow [noBandwidth, noBandwidthAt300] noBandwidth)) := by
  have hat : AtReport {} [at200] [] [noBandwidth, noBandwidthAt300] [] noBandwidth
      [noBandwidthAt300] ⟨startMembers [at200], [], {}, []⟩ := ⟨rfl, rfl⟩
  have hno : NoBandwidths [noBandwidth, noBandwidthAt300] := by
    intro y hy q
    rcases List.mem_pair.mp hy with rfl | rfl <;> exact nofun
  have hrouted := (routedOnOwnBand_iff (by decide) hat rfl rfl).mpr hno
  refine ⟨hrouted, ((hrouted.candidates _ List.mem_cons_self).mpr ?_).1⟩
  exact ⟨⟨rfl, rfl⟩, ⟨200 - 1 / 200, 200 + 1 / 200⟩, by decide +kernel, by norm_num, by norm_num⟩

/-- Beside a report of another frequency that has a bandwidth, it is not a candidate for a net of
its station at its frequency. -/
theorem not_routedOnOwnBand_at200 :
    ∃ (st : FoldState) (y : Report),
      AtReport {} [at200] [] [noBandwidth, y] [] noBandwidth [y] st ∧
        skips {} [at200] [] [noBandwidth, y] noBandwidth st = false ∧
        ¬RoutedOnOwnBand st.members ((startEnv {} [at200] [] [noBandwidth, y]).row
          (reportRow [noBandwidth, y] noBandwidth)) 200 := by
  refine ⟨⟨startMembers [at200], [], {}, []⟩, twinReports.get ⟨0, by decide⟩, ⟨rfl, rfl⟩, rfl, ?_⟩
  intro h
  have hnet := (h.candidates ((startMembers [at200]).rows.get ⟨0, by decide⟩, 0)
    List.mem_cons_self).mpr ⟨⟨rfl, rfl⟩, ⟨200 - 1 / 200, 200 + 1 / 200⟩, by decide +kernel,
      by norm_num, by norm_num⟩
  -- the net's band contains 200, and the test is still false
  exact absurd hnet.2 (by decide +kernel)

end NetBuild
