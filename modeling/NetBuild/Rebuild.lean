import NetBuild.BuildLedger

/-!
# Rebuilding the nets

`ff_net_building` is meant to be derived from the reports and the history: emptied, the next build
is to bring it back. But a build skips every report the history records, so it brings back the
nets of the other reports only. It rebuilds the table exactly when the history records none.
-/

namespace NetBuild

open Prog (Run lift run_ret_iff run_raise_iff)

/-! ## What is promised -/

/-- The store when `ff_net_building` alone is emptied. -/
def Store.netsLost (s : Store) : Store := { s with building := .empty }

/-- The store with the reports and nothing derived from them. -/
def Store.reportsAlone (s : Store) : Store := { Store.empty with report := s.report }

/-- A row without its label. -/
def Net.unlabelled (x : Net) : Net := { x with myNetId := none }

/-- The two tables hold the same nets, under other ids. -/
def SameUpToIds (t t' : Table ℤ Net) : Prop :=
  ∃ ρ : Equiv.Perm ℤ, ∀ n, (t' (ρ n)).map Net.unlabelled = (t n).map Net.unlabelled

/-- A build from `s`, its nets lost, to `s'` brought them back: every report is in some net, and
the nets are those of a build from the reports alone. -/
structure Rebuilt (ord : ReadOrder) (cfg : MatchConfig) (clock : BuildClock) (s s' : Store)
    (res : BuildResult) : Prop where
  represented : ∃ building history reports folded ms,
    BuildRun ord cfg clock s.netsLost s' res building history reports folded ms ∧
      ∀ x : Report, s.report x.1 = some x.2 →
        ∃ a, (x, a) ∈ folded ∧ s'.building a.netId ≠ none
  scratch : ∃ s'' res', Run (exec ord) s.reportsAlone (runPipeline cfg clock) s'' (.ok res') ∧
    SameUpToIds s'.building s''.building

/-- The history records none of the reports. -/
def NothingRecorded (s : Store) : Prop :=
  ∀ x : Report, s.report x.1 = some x.2 →
    ∀ k row, s.history k = some row → histSig (k, row) ≠ reportSig x

/-! ## A build whose history records no report -/

/-- What the loop leaves, but for the signatures it has seen. -/
def FoldState.shown (st : FoldState) : Members × Tally × List Entry :=
  (st.members, st.tally, st.entries)

section
variable {cfg : MatchConfig} {clock : BuildClock} {building : List (ℤ × Net)}
  {history : List (HistKey × Hist)} {reports : List Report}

/-- A report that is not skipped is routed as it would be without a history. -/
theorem foldReport_shown {st st' : FoldState} {rep : Row} (hst : st.shown = st'.shown)
    (hu : (buildEnv cfg history).isSeen st rep = false) :
    (foldReport (buildEnv cfg history) st rep).map FoldState.shown
      = (foldReport (buildEnv cfg []) st' rep).map FoldState.shown := by
  have hu' : (buildEnv cfg []).isSeen st' rep = false := by
    unfold FoldEnv.isSeen
    exact decide_eq_false fun h => h.1 rfl
  obtain ⟨hms, hst⟩ := Prod.mk.inj hst
  obtain ⟨ht, he⟩ := Prod.mk.inj hst
  unfold foldReport
  rw [hu, hu', if_neg Bool.false_ne_true, if_neg Bool.false_ne_true, hms, ht, he]
  dsimp only
  show ((assignNet cfg st'.members ((buildEnv cfg []).row rep)) >>= _).map _
    = ((assignNet cfg st'.members ((buildEnv cfg []).row rep)) >>= _).map _
  rcases assignNet cfg st'.members ((buildEnv cfg []).row rep) with e | ⟨ms, a⟩
  · rfl
  · rfl

theorem foldLoop_shown (hn : (reports.map Prod.fst).Nodup)
    (hnone : ∀ x ∈ reports, recorded history x = false) :
    (foldLoop cfg building (loadHistory history) (fetchNewReports reports)).map FoldState.shown
      = (foldLoop cfg building (loadHistory []) (fetchNewReports reports)).map FoldState.shown := by
  unfold foldLoop
  by_cases hr : reports = []
  · rw [hr]
    rfl
  · rw [foldStart_eq hr, foldStart_eq hr, rows_fetchNewReports]
    dsimp only
    rw [List.foldlM_map, List.foldlM_map]
    refine Except.foldlM_map_congr
      (P := fun pre st => ∃ folded, LoopInv cfg building history reports pre folded st)
      ?_ ?_ ⟨[], loopInv_start ..⟩ rfl
    · intro pre x post s s' hl hP hstep
      obtain ⟨folded, hP⟩ := hP
      exact hP.step hl hn hstep
    · intro pre x post s t hl hP hst
      obtain ⟨folded, hP⟩ := hP
      refine foldReport_shown hst ((hP.isSeen_iff hl hn).trans (hnone x ?_))
      rw [hl]
      exact List.mem_append_right _ List.mem_cons_self

/-- So is the rest of the build. -/
theorem finishPipeline_of_unrecorded (hn : (reports.map Prod.fst).Nodup)
    (hnone : ∀ x ∈ reports, recorded history x = false) :
    finishPipeline cfg clock building (loadHistory history) (fetchNewReports reports)
      = finishPipeline cfg clock building (loadHistory []) (fetchNewReports reports) := by
  unfold finishPipeline
  split
  · rfl
  · next he =>
    rw [rows_fetchNewReports, List.map_eq_nil_iff, not_and_or] at he
    rw [dataCols_foldStart he.symm, dataCols_foldStart he.symm]
    have hloop : (foldLoop cfg building (loadHistory history) (fetchNewReports reports)).map _
        = (foldLoop cfg building (loadHistory []) (fetchNewReports reports)).map _ :=
      foldLoop_shown hn hnone
    rcases hl : foldLoop cfg building (loadHistory history) (fetchNewReports reports) with e | st
    · rcases hl' : foldLoop cfg building (loadHistory []) (fetchNewReports reports) with e' | st'
      · rw [hl, hl'] at hloop
        rw [Except.error.inj hloop]
      · rw [hl, hl'] at hloop
        exact nomatch hloop
    · rcases hl' : foldLoop cfg building (loadHistory []) (fetchNewReports reports) with e' | st'
      · rw [hl, hl'] at hloop
        exact nomatch hloop
      · rw [hl, hl'] at hloop
        obtain ⟨hms, hrest⟩ := Prod.mk.inj (Except.ok.inj hloop)
        obtain ⟨ht, he⟩ := Prod.mk.inj hrest
        rw [Prog.lift_ok, Prog.lift_ok, Prog.ret_bind, Prog.ret_bind]
        unfold hierOf
        rw [hms, ht, he]

/-- What a build writes into the nets depends on what it has read, and on the nets that are there
by then. -/
theorem run_finishPipeline_of_building {ord : ReadOrder} {s s' t : Store} {res : BuildResult}
    (hn : (reports.map Prod.fst).Nodup) (hb : t.building = s.building)
    (h : Run (exec ord) s
      (finishPipeline cfg clock building (loadHistory history) (fetchNewReports reports))
      s' (.ok res)) :
    ∃ t', Run (exec ord) t
        (finishPipeline cfg clock building (loadHistory history) (fetchNewReports reports))
        t' (.ok res) ∧ t'.building = s'.building := by
  have hfin : Finishes cfg clock building history reports _ := finishes hn
  generalize finishPipeline cfg clock building (loadHistory history) (fetchNewReports reports) = p
    at h hfin
  rcases hfin with ⟨rfl, rfl⟩ | e | @⟨folded, st, hst, hinv⟩
  · obtain ⟨rfl, hres⟩ := run_ret_iff.mp h
    exact ⟨t, run_ret_iff.mpr ⟨rfl, hres⟩, hb⟩
  · exact nomatch (run_raise_iff.mp h).2
  · obtain ⟨added, nets, hadded, hnets, hres, rfl⟩ := run_writeBack.mp h
    refine ⟨_, run_writeBack.mpr ⟨added, nets, hadded, hnets, hres, rfl⟩, ?_⟩
    unfold Store.afterBuild
    rw [hb]

end

/-! ## When a build rebuilds -/

section
variable {ord : ReadOrder} {cfg : MatchConfig} {clock : BuildClock} {s s' : Store}
  {res : BuildResult}

theorem NothingRecorded.scratch (h : NothingRecorded s)
    (hrun : Run (exec ord) s.netsLost (runPipeline cfg clock) s' (.ok res)) :
    ∃ s'', Run (exec ord) s.reportsAlone (runPipeline cfg clock) s'' (.ok res) ∧
      s''.building = s'.building := by
  unfold runPipeline at hrun ⊢
  rw [Prog.request_bind] at hrun ⊢
  obtain ⟨building, hb, hrun⟩ := run_request_iff.mp hrun
  rw [Prog.request_bind] at hrun
  obtain ⟨history, hh, hrun⟩ := run_request_iff.mp hrun
  rw [Prog.request_bind] at hrun
  obtain ⟨reports, hr, hrun⟩ := run_request_iff.mp hrun
  change Lists ord.building building s.netsLost.building at hb
  change Lists ord.history history s.history at hh
  change Lists ord.report reports s.report at hr
  obtain rfl : building = [] := hb.eq_nil_iff.mpr rfl
  have hnone : ∀ x ∈ reports, recorded history x = false := by
    intro x hx
    rw [recorded_eq_false_iff hh]
    exact h x ((hr.mem_iff x.1 x.2).mp hx)
  change Run (exec ord) s.netsLost
    (finishPipeline cfg clock [] (loadHistory history) (fetchNewReports reports)) s' _ at hrun
  rw [finishPipeline_of_unrecorded hr.nodup hnone] at hrun
  -- nothing is recorded, so the history is read for nothing
  have hempty : s.reportsAlone.building = s.netsLost.building := rfl
  obtain ⟨t', ht, hbt⟩ := run_finishPipeline_of_building hr.nodup hempty hrun
  refine ⟨t', run_request_iff.mpr ⟨[], lists_empty, ?_⟩, hbt⟩
  rw [Prog.request_bind]
  refine run_request_iff.mpr ⟨[], lists_empty, ?_⟩
  rw [Prog.request_bind]
  exact run_request_iff.mpr ⟨reports, hr, ht⟩

/-- A build brings back the nets exactly when the history records no report. -/
theorem rebuilt_iff (hrun : Run (exec ord) s.netsLost (runPipeline cfg clock) s' (.ok res)) :
    Rebuilt ord cfg clock s s' res ↔ NothingRecorded s := by
  refine ⟨fun h => ?_, fun h => ?_⟩
  · obtain ⟨building, history, reports, folded, ms, hbuild, hall⟩ := h.represented
    intro x hx
    obtain ⟨a, ha, -⟩ := hall x hx
    exact (recorded_eq_false_iff hbuild.readHistory x).mp ((hbuild.mem_folded_iff x).mp ⟨a, ha⟩).2
  · obtain ⟨building, history, reports, folded, ms, hbuild⟩ := run_runPipeline hrun
    obtain ⟨s'', hrun', hb⟩ := h.scratch hrun
    refine ⟨⟨building, history, reports, folded, ms, hbuild, fun x hx => ?_⟩,
      s'', res, hrun', Equiv.refl ℤ, fun n => by rw [hb]; rfl⟩
    obtain ⟨a, ha⟩ := (hbuild.mem_folded_iff x).mpr
      ⟨hx, (recorded_eq_false_iff hbuild.readHistory x).mpr (h x hx)⟩
    obtain ⟨m, -, -, -, hrow⟩ := hbuild.row_of_folded ha
    refine ⟨a, ha, ?_⟩
    rw [hrow]
    exact Option.some_ne_none _

end

/-- Where the reports the history records are gone from `ff_net_report`, a build brings back the
nets of those that came after them. -/
theorem rebuilt_iff_lateReports :
    ∃ s s' res, (s.building 100001).isSome ∧ (s.history (100001, 1, 1)).isSome ∧
      Run (exec .any) s.netsLost (runPipeline {} (.still 2)) s' (.ok res) ∧
        res.processed = ⟨2, 0, 0⟩ ∧ Rebuilt .any {} (.still 2) s s' res := by
  obtain ⟨p, p', h⟩ := exists_twoBuilds
  have hplan : ((buildPlan {} (.still 1) [] [] earlyReports).bind fun p =>
      (buildPlan {} (.still 2) [] p.added lateReports).map fun q => q.tally)
        = .ok ⟨2, 0, 0⟩ := by
    decide +kernel
  rw [h.first] at hplan
  obtain ⟨q, hq, htally⟩ := Except.map_eq_ok_iff.mp hplan
  have hlate : Lists ReadOrder.any.report lateReports (Store.ofReports lateReports).report :=
    lists_ofReports (by decide)
  have hhist : Table.Enumerates p.added (Store.builtOnce p lateReports).history :=
    h.enumerates_history
  have hrun := run_of_buildPlan (s := (Store.builtOnce p lateReports).netsLost) lists_empty
    (lists_any hhist) hlate (by decide) hq
  have hnone : NothingRecorded (.builtOnce p lateReports) := by
    intro x hx k row hrow he
    have hsig : reportSig x ∈ p.added.map histSig := by
      rw [← he]
      exact List.mem_map_of_mem ((hhist.mem_iff k row).mpr hrow)
    rw [h.recorded] at hsig
    obtain ⟨y, hy, he⟩ := List.mem_map.mp hsig
    -- a recorded report would have the key of an early one
    have hkeys : ∀ k ∈ earlyReports.map Prod.fst, k ∉ lateReports.map Prod.fst := by decide
    refine hkeys y.1 (List.mem_map_of_mem hy) ?_
    rw [key_eq_of_reportSig_eq he]
    exact List.mem_map_of_mem ((hlate.mem_iff x.1 x.2).mpr hx)
  have hnet : ((Store.builtOnce p lateReports).building 100001).isSome := by
    refine h.enumerates.mem_keys.mp ?_
    rw [map_fst_netLine, h.nets]
    decide
  have hrow : ((Store.builtOnce p lateReports).history (100001, 1, 1)).isSome := by
    refine hhist.mem_keys.mp ?_
    rw [h.history]
    decide
  exact ⟨_, _, _, hnet, hrow, hrun, htally, (rebuilt_iff hrun).mpr hnone⟩

/-- After a first build, the next one brings nothing back. -/
theorem not_rebuilt_loneReport :
    ¬ ∀ (ord : ReadOrder) (cfg : MatchConfig) (clock : BuildClock) (s s' : Store)
      (res : BuildResult), Reached ord buildsOnly .empty s →
        Run (exec ord) s.netsLost (runPipeline cfg clock) s' (.ok res) →
          Rebuilt ord cfg clock s s' res := by
  intro hclaim
  have hplan : ((buildPlan {} (.still 1) [] [] loneReport).bind fun p =>
      (buildPlan {} (.still 2) [] p.added loneReport).map fun q =>
        (p.added.map Prod.fst, q.rows.map Prod.fst)) = .ok ([(100001, 1, 1)], []) := by
    decide +kernel
  obtain ⟨p, hp, hq⟩ := Except.bind_eq_ok_iff.mp hplan
  obtain ⟨q, hq, hkeys⟩ := Except.map_eq_ok_iff.mp hq
  obtain ⟨hadded, hrows⟩ := Prod.mk.inj hkeys
  -- the first build, and the build after the nets are lost
  obtain ⟨past, hreports⟩ : Reached .any buildsOnly .empty (.ofReports loneReport) :=
    reached_ofReports buildsOnly_insertReport loneReport
  have hlone : Lists ReadOrder.any.report loneReport (Store.ofReports loneReport).report :=
    lists_ofReports (by decide)
  have hfirst := run_of_buildPlan (s := .ofReports loneReport) lists_empty lists_empty hlone
    (by decide) hp
  have hbuilt := hreports.call (c := .build {} (.still 1))
    ⟨⟨_, rfl⟩, freshClock_ofReports loneReport (.still 1)⟩ (run_build_ok_iff.mpr ⟨_, hfirst, rfl⟩)
  have hhist : Table.Enumerates p.added (Table.empty.upsertAll p.added) :=
    Table.enumerates_upsertAll (by rw [hadded]; exact List.nodup_singleton _)
  have hsecond := run_of_buildPlan (s := ((Store.ofReports loneReport).afterBuild [] p).netsLost)
    lists_empty (lists_any hhist) hlone (by decide) hq
  obtain ⟨_, _, _, _, _, -, hall⟩ := (hclaim _ _ _ _ _ _ ⟨_, hbuilt⟩ hsecond).represented
  obtain ⟨x, hx⟩ := List.exists_mem_of_ne_nil loneReport (by decide)
  obtain ⟨a, -, hnet⟩ := hall x ((hlone.mem_iff x.1 x.2).mp hx)
  have hnet' : Table.upsertAll _ q.rows a.netId ≠ none := hnet
  rw [Table.upsertAll_ne_none_iff, hrows] at hnet'
  rcases hnet' with hmem | hold
  · exact absurd hmem List.not_mem_nil
  · exact hold rfl

end NetBuild
