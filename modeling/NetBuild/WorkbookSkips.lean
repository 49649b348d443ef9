import NetBuild.WorkbookRuns

/-!
# Skipped reports

A report is to be skipped because it was ingested already, by the same station. But the signatures
reports are compared by leave the station out, and whatever column the log does not have.
-/

namespace NetBuild

/-- The two reports are of one station, and have the same id, times, count and frequency. -/
def SameSighting (r r' : Row) : Prop :=
  (r (.txt .rdfs)).val = (r' (.txt .rdfs)).val ∧ ∀ c ∈ sigCols, sigVal r c = sigVal r' c

/-- Every report that was skipped had been ingested before. -/
def SkipsSame (record : List (Row × Option ℤ)) : Prop :=
  ∀ pre rep post, record = pre ++ (rep, none) :: post → ∃ r ∈ ingested pre, SameSighting r rep

/-- The report is no sighting that was submitted before, in a batch that was processed or earlier in
its own. -/
def IsFirst (record : List (Row × Option ℤ)) (pre : List Row) (rep : Row) : Prop :=
  ∀ r, r ∈ record.map (·.1) ∨ r ∈ pre → ¬ SameSighting r rep

/-- A first sighting has the signature of no logged report, and of none before it in its batch. -/
def TellsSightings (wb : Option Workbook) (record : List (Row × Option ℤ)) (df : Frame) : Prop :=
  ∀ pre rep post, df.reports = pre ++ rep :: post → IsFirst record pre rep →
    ¬ SigSeen wb df pre rep

theorem SameSighting.trans {r r' r'' : Row} (h : SameSighting r r') (h' : SameSighting r' r'') :
    SameSighting r r'' :=
  ⟨h.1.trans h'.1, fun c hc => (h.2 c hc).trans (h'.2 c hc)⟩

theorem not_isFirst_iff {record : List (Row × Option ℤ)} {pre : List Row} {rep : Row} :
    ¬ IsFirst record pre rep ↔
      ∃ r, (r ∈ record.map (·.1) ∨ r ∈ pre) ∧ SameSighting r rep := by
  unfold IsFirst
  push Not
  rfl

/-- What was submitted before a skipped report may itself have been skipped, but then the sighting
was ingested before that. -/
theorem skipsSame_iff_submitted {record : List (Row × Option ℤ)} :
    SkipsSame record ↔ ∀ pre rep post, record = pre ++ (rep, none) :: post →
      ∃ r ∈ pre.map (·.1), SameSighting r rep := by
  refine ⟨fun h pre rep post hr => ?_, fun h pre rep post hr => ?_⟩
  · obtain ⟨r, hin, hs⟩ := h pre rep post hr
    obtain ⟨n, hn⟩ := mem_ingested.mp hin
    exact ⟨r, List.mem_map_of_mem hn, hs⟩
  · have hsub : ∀ pre rep post, record = pre ++ (rep, none) :: post →
        ∃ r, (False ∨ r ∈ pre.map (·.1)) ∧ SameSighting r rep := by
      intro pre rep post hr
      obtain ⟨r, hin, hs⟩ := h pre rep post hr
      exact ⟨r, .inr hin, hs⟩
    obtain ⟨r, hin, hs⟩ := @exists_ingested SameSighting (fun hs => hs.trans) (fun _ => False)
      record
      hsub pre post rep hr
    exact ⟨r, hin.resolve_left id, hs⟩

/-- A record that skips only what was submitted does so at each of its batches. -/
theorem SkipsSame.append_iff {record new : List (Row × Option ℤ)} :
    SkipsSame (record ++ new) ↔
      SkipsSame record ∧ ∀ pre rep post, new = pre ++ (rep, none) :: post →
        ∃ r, (r ∈ record.map (·.1) ∨ r ∈ pre.map (·.1)) ∧ SameSighting r rep := by
  rw [skipsSame_iff_submitted, skipsSame_iff_submitted]
  refine ⟨fun h => ⟨fun pre rep post hr => ?_, fun pre rep post hr => ?_⟩,
    fun h pre rep post hr => ?_⟩
  · refine h pre rep (post ++ new) ?_
    rw [hr, List.append_assoc, List.cons_append]
  · obtain ⟨r, hin, hs⟩ := h (record ++ pre) rep post (by rw [hr, List.append_assoc])
    rw [List.map_append, List.mem_append] at hin
    exact ⟨r, hin, hs⟩
  · rcases List.append_eq_append_iff.mp hr with ⟨as, hpre, hnew⟩ | ⟨bs, hrec, hpost⟩
    · obtain ⟨r, hin, hs⟩ := h.2 as rep post hnew
      refine ⟨r, ?_, hs⟩
      rw [hpre, List.map_append, List.mem_append]
      exact hin
    · rcases bs with _ | ⟨b, bs⟩
      · rw [List.nil_append] at hpost
        rw [List.append_nil] at hrec
        obtain ⟨r, hin, hs⟩ := h.2 [] rep post hpost.symm
        rw [← hrec]
        exact ⟨r, hin.resolve_right List.not_mem_nil, hs⟩
      · obtain ⟨rfl, -⟩ := List.cons.inj hpost
        exact h.1 pre rep bs hrec

section
variable {sv : SortValues} {cfg : MatchConfig} {wb : Option Workbook} {df : Frame} {wb' : Workbook}
  {results : List Result} {done : List (Row × Option Assignment)} {ms : Members}
  {record : List (Row × Option ℤ)}

/-- A batch skips only what was submitted exactly where its first sightings have signatures of their
own. -/
theorem BatchRun.skips_iff (h : BatchRun sv cfg wb df wb' results done ms) :
    (∀ pre rep post, df.record results = pre ++ (rep, none) :: post →
      ∃ r, (r ∈ record.map (·.1) ∨ r ∈ pre.map (·.1)) ∧ SameSighting r rep) ↔
        TellsSightings wb record df := by
  refine ⟨fun hskip pre rep post hr hfirst hseen => ?_, fun htells pre rep post hr => ?_⟩
  · -- the report with that signature is skipped
    rw [← h.fst_record] at hr
    obtain ⟨rpre, rrest, hrec, rfl, hrest⟩ := List.map_eq_append_iff.mp hr
    obtain ⟨⟨rep', net⟩, rpost, rfl, rfl, -⟩ := List.map_eq_cons_iff.mp hrest
    obtain rfl : net = none := (h.skipped_iff hrec).mpr hseen
    exact not_isFirst_iff.mpr (hskip rpre rep' rpost hrec) hfirst
  · by_contra hfirst
    exact htells _ rep _ (h.reports_split hr) (not_not.mp fun hn => hfirst (not_isFirst_iff.mp hn))
      ((h.skipped_iff hr).mp rfl)

end

/-- A run skips only what was ingested before exactly where, in each of its batches, the first
sightings have signatures of their own. -/
theorem skips_same_iff {wb : Option Workbook} {record : List (Row × Option ℤ)}
    (h : Processed (fun _ _ _ => True) wb record) :
    SkipsSame record ↔ Processed TellsSightings wb record := by
  refine ⟨fun hskip => ?_, fun hrun => ?_⟩
  · induction h with
    | start => exact .start
    | refused _ error ih => exact .refused (ih hskip) error
    | batch _ _ ok ih =>
      obtain ⟨done, ms, hb⟩ := processReports_cases ok
      obtain ⟨hbefore, hnew⟩ := SkipsSame.append_iff.mp hskip
      exact .batch (ih hbefore) (hb.skips_iff.mp hnew) ok
  · clear h
    induction hrun with
    | start =>
      intro pre rep post hr
      exact absurd hr.symm (List.append_ne_nil_of_right_ne_nil _ (List.cons_ne_nil _ _))
    | refused _ _ ih => exact ih
    | batch _ meets ok ih =>
      obtain ⟨done, ms, hb⟩ := processReports_cases ok
      exact SkipsSame.append_iff.mpr ⟨ih, hb.skips_iff.mpr meets⟩

/-! ## Two stations -/

/-- A report of a station, and then the same report of a second one, which is skipped. -/
theorem processed_heardBatch (second : String)
    (hrun : (processReports .stable {} none (heardBatch [("A", 1)])).bind (fun p =>
        (processReports .stable {} (some p.1) (heardBatch [(second, 1)])).map fun q =>
          (p.2.1.map Result.net, q.2.1.map Result.net)) = .ok ([some 100001], [none])) :
    ∃ wb, Processed (fun _ _ _ => True) wb
      [(heardBy "A" 1, some 100001), (heardBy second 1, none)] := by
  obtain ⟨⟨wb, results, n⟩, hp, hrun⟩ := Except.bind_eq_ok_iff.mp hrun
  obtain ⟨⟨wb', results', n'⟩, hq, hrun⟩ := Except.map_eq_ok_iff.mp hrun
  obtain ⟨h1, h2⟩ := Prod.mk.inj hrun
  have hboth : Processed (fun _ _ _ => True) (some wb') ([] ++
      (heardBatch [("A", 1)]).record results ++ (heardBatch [(second, 1)]).record results') :=
    .batch (.batch .start trivial hp) trivial hq
  refine ⟨some wb', ?_⟩
  unfold Frame.record at hboth
  dsimp only at h1 h2
  rw [h1, h2, reports_heardBatch, reports_heardBatch] at hboth
  exact hboth

/-- The report of another station is skipped. -/
theorem not_skips_same_stations :
    ¬ ∀ (wb : Option Workbook) (record : List (Row × Option ℤ)),
      Processed (fun _ _ _ => True) wb record → SkipsSame record := by
  intro hclaim
  obtain ⟨wb, h⟩ := processed_heardBatch "B" (by decide +kernel)
  obtain ⟨r, hr, hs⟩ := hclaim _ _ h [_] _ [] rfl
  obtain rfl := List.mem_singleton.mp hr
  exact absurd hs.1 (by decide +kernel)

/-- The report of the same station is skipped because it was ingested. -/
theorem skips_same_iff_again :
    ∃ wb, SkipsSame [(heardBy "A" 1, some 100001), (heardBy "A" 1, none)] ∧
      Processed TellsSightings wb [(heardBy "A" 1, some 100001), (heardBy "A" 1, none)] := by
  obtain ⟨wb, h⟩ := processed_heardBatch "A" (by decide +kernel)
  have hskip : SkipsSame [(heardBy "A" 1, some 100001), (heardBy "A" 1, none)] := by
    intro pre rep post hr
    rcases pre with _ | ⟨p, pre⟩
    · obtain ⟨h1, -⟩ := List.cons.inj hr
      exact absurd (congrArg Prod.snd h1) (by simp)
    · obtain ⟨rfl, h2⟩ := List.cons.inj hr
      refine ⟨_, List.mem_cons_self, ?_⟩
      rcases pre with _ | ⟨p, pre⟩
      · obtain ⟨h3, -⟩ := List.cons.inj h2
        obtain rfl := congrArg Prod.fst h3
        exact ⟨rfl, fun _ _ => rfl⟩
      · exact absurd (List.cons.inj h2).2.symm
          (List.append_ne_nil_of_right_ne_nil _ (List.cons_ne_nil _ _))
  exact ⟨wb, hskip, (skips_same_iff h).mp hskip⟩

end NetBuild
