import NetBuild.Routes
import NetBuild.StoreTheorems

/-!
# A completed build

`run_runPipeline` says everything a build that completes has done, in one structure: what it
read, how it routed the reports the history did not record, and the store it left. From it:
the net table holds one row for each member the routings left (`BuildRun.building_iff`), and
the history the old rows and one more for each routed report.
-/

namespace NetBuild

open Prog (Run lift run_bind_ok_iff run_call_iff run_ret_iff run_raise_iff run_lift_ok_iff)

/-! ## The rows written -/

/-- The row a member is written as. -/
def Member.toNet (now : Time) (m : Member) : Net where
  myNetId := m.myNetId
  ffId := m.cells.data.ffId
  lti := m.cells.data.lti
  fields := m.cells.data.fields
  updatedAt := some now

/-- A row as it is written again by a build that did not fold anything into it. -/
def Net.rewritten (now : Time) (x : Net) : Net :=
  { x with fields := x.fields.clean, updatedAt := some now }

/-- The rows of `ff_net_building` made of the members. -/
def netRows (clock : BuildClock) (rows : List Member) : List (ℤ × Net) :=
  (hierMembers clock.sortValues (dedupRdfsPerNet clock.sortValues rows)).map fun (my, n, m) =>
    (n, { m.toNet clock.updatedAt with myNetId := some my })

/-- The history row of a routed report. -/
def histRow (now : Time) (p : Report × Assignment) : HistKey × Hist :=
  ((p.2.netId, now, p.1.1.1),
    { myNetId := some p.2.myNetId
      lti := some p.1.1.2
      fields := p.1.2.clean
      action := some p.2.action
      collapsedFfId := if p.2.action = .collapsed then p.2.survivorFfId.toInt else none
      wasCollapsed := p.2.action = .collapsed })

@[simp] theorem netRows_nil (clock : BuildClock) : netRows clock [] = [] := by
  simp [netRows, dedupRdfsPerNet, dropDuplicates, hierMembers, groupKeys]

theorem buildHierarchical_eq (sv : SortValues) (ms : List Member) (cols : List Col) :
    ∃ frame, buildHierarchical sv ms cols = (hierMembers sv ms).map fun (my, n, m) =>
      ⟨fmtMyNet my, fmtSystemNet n,
        storeRow frame fun c => if c ∈ cols then m.cells c else .null⟩ := by
  refine ⟨(hierMembers sv ms).map fun (_, _, r) c => if c ∈ cols then r.cells c else .null, ?_⟩
  unfold buildHierarchical
  simp only [dataFrame_eq]
  rw [List.map_map, ← List.map_prod_left_eq_zip, List.map_map]
  rfl

theorem hierToCassandraRows_eq_ok {clock : BuildClock} {st : FoldState} {out : List (ℤ × Net)}
    (h : hierToCassandraRows clock.updatedAt (hierOf clock.sortValues st Col.data) = .ok out) :
    out = netRows clock st.members.rows := by
  obtain ⟨frame, hf⟩ := buildHierarchical_eq clock.sortValues
    (dedupRdfsPerNet clock.sortValues st.members.rows) Col.data
  rw [hierOf, hf] at h
  unfold hierToCassandraRows at h
  rw [Except.mapM_eq_ok_iff, List.forall₂_map_left_iff] at h
  refine h.eq_map fun x _ r hr => ?_
  obtain ⟨my, n, m⟩ := x
  obtain ⟨d, hd, hr⟩ := Except.bind_eq_ok_iff.mp hr
  -- the frame the row went through does not change its data
  have hdata : d = m.cells.data := by
    rw [dfRowToCassandra_eq_ok hd]
    apply Row.data_congr
    intro c hc
    rw [storeRow_agrees _ _ c, if_pos hc]
  obtain ⟨netId, hid, hmy⟩ := Except.bind_eq_ok_iff.mp hr
  obtain ⟨myNetId, hmyId, hrow⟩ := Except.bind_eq_ok_iff.mp hmy
  have hint : ∀ {s : Text} {i : ℤ}, intOfText s = .ok i → intValue s = some i := by
    intro s i h
    unfold intOfText at h
    split at h
    · next hi => exact Except.ok.inj h ▸ intValue_of_intText hi
    · exact nomatch h
  have hnet : netId = n := Option.some.inj ((hint hid).symm.trans (intValue_fmtSystemNet n))
  have hmyNet : myNetId = my := Option.some.inj ((hint hmyId).symm.trans (intValue_fmtMyNet my))
  rw [← Except.ok.inj hrow, hdata, hnet, hmyNet]
  rfl

theorem historyRow_entryOf {now : Time} {reports : List Report} {p : Report × Assignment}
    {r : HistKey × Hist} (h : historyRow now (entryOf (reportRow reports p.1) p.2) = .ok r) :
    r = histRow now p := by
  obtain ⟨d, hd, h⟩ := Except.bind_eq_ok_iff.mp h
  obtain ⟨collapsed, hc, h⟩ := Except.bind_eq_ok_iff.mp h
  have hdata : d = ⟨some p.1.1.1, some p.1.1.2, p.1.2.clean⟩ := by
    rw [dfRowToCassandra_eq_ok hd, ← data_cassandraRowToDfRow]
    exact Row.data_congr fun c _ => reportRow_agrees reports p.1 c
  subst hdata
  rw [← Except.ok.inj h, Cell.toIntCol_eq_ok hc]
  unfold histRow entryOf
  dsimp only
  split <;> rfl

/-! ## The writes -/

section
variable {ord : ReadOrder} {s s' : Store}

theorem run_deleteRows {keys : List ℤ} {o : Except PyError Unit} :
    Run (exec ord) s (deleteRows keys) s' o ↔
      s' = { s with building := s.building.deleteAll keys } ∧ o = .ok ⟨⟩ := by
  induction keys generalizing s with
  | nil => exact run_ret_iff
  | cons n keys ih =>
    show Run (exec ord) s (.call (.buildingDelete n) fun _ => deleteRows keys) s' _ ↔ _
    rw [run_request_iff]
    exact ⟨fun ⟨_, _, h⟩ => ih.mp h, fun h => ⟨⟨⟩, trivial, ih.mpr h⟩⟩

theorem run_insertRows {rows : List (ℤ × Net)} {o : Except PyError Unit} :
    Run (exec ord) s (insertRows rows) s' o ↔
      s' = { s with building := s.building.upsertAll rows } ∧ o = .ok ⟨⟩ := by
  induction rows generalizing s with
  | nil => exact run_ret_iff
  | cons r rows ih =>
    show Run (exec ord) s (.call (.buildingInsert r.1 r.2) fun _ => insertRows rows) s' _ ↔ _
    rw [run_request_iff]
    exact ⟨fun ⟨_, _, h⟩ => ih.mp h, fun h => ⟨⟨⟩, trivial, ih.mpr h⟩⟩

theorem run_appendHistory {now : Time} {entries : List Entry} :
    Run (exec ord) s (appendHistory now entries) s' (.ok ⟨⟩) ↔
      ∃ rows, List.Forall₂ (fun e r => historyRow now e = .ok r) entries rows ∧
        s' = { s with history := s.history.upsertAll rows } := by
  unfold appendHistory
  rw [Prog.run_forM_ok_iff (f := historyRow now) (g := fun s r => s.apply (.historyInsert r.1 r.2))]
  · have hfold : ∀ (rows : List (HistKey × Hist)) (s : Store),
        rows.foldl (fun s r => s.apply (.historyInsert r.1 r.2)) s
          = { s with history := s.history.upsertAll rows } := by
      intro rows
      induction rows with
      | nil => intro s; rfl
      | cons r rows ih => intro s; exact ih _
    simp only [hfold]
  · intro e s s'
    rw [run_bind_ok_iff]
    refine ⟨fun h => ?_, fun h => ?_⟩
    · obtain ⟨r, t, hlift, h⟩ := h
      obtain ⟨rfl, hr⟩ := run_lift_ok_iff.mp hlift
      obtain ⟨_, _, h⟩ := run_request_iff.mp h
      exact ⟨r, hr, (run_ret_iff.mp h).1⟩
    · obtain ⟨r, hr, rfl⟩ := h
      exact ⟨r, s, run_lift_ok_iff.mpr ⟨rfl, hr⟩,
        run_request_iff.mpr ⟨⟨⟩, trivial, run_ret_iff.mpr ⟨rfl, rfl⟩⟩⟩

end

/-! ## The run -/

/-- What a completed build read, how it routed the reports, and the store it left. -/
structure BuildRun (ord : ReadOrder) (cfg : MatchConfig) (clock : BuildClock) (s s' : Store)
    (res : BuildResult) (building : List (ℤ × Net)) (history : List (HistKey × Hist))
    (reports : List Report) (folded : List (Report × Assignment)) (ms : Members) : Prop where
  readBuilding : Lists ord.building building s.building
  readHistory : Lists ord.history history s.history
  readReports : Lists ord.report reports s.report
  routes : Routes cfg (reportRow reports) (startMembers building) folded ms
  routed : folded.map Prod.fst = reports.filter fun x => !recorded history x
  loop : ∃ st, foldLoop cfg building (loadHistory history) (fetchNewReports reports) = .ok st ∧
    st.entries = folded.map (fun p => entryOf (reportRow reports p.1) p.2) ∧
      st.members.rows = ms.rows
  tally : res.processed = tallyOf folded (reports.length - folded.length)
  store : s' =
    { s with
      building := (s.building.deleteAll
        (staleKeys building (netRows clock ms.rows))).upsertAll
          (netRows clock ms.rows)
      history := s.history.upsertAll (folded.map (histRow clock.processedAt)) }

/-- The columns a build writes back are all the data columns. -/
theorem dataCols_foldStart {cfg : MatchConfig} {building : List (ℤ × Net)}
    {history : List (HistKey × Hist)} {reports : List Report} (h : building ≠ [] ∨ reports ≠ []) :
    (foldStart cfg building (loadHistory history) (fetchNewReports reports)).1.dataCols
      = Col.data := by
  by_cases hr : reports = []
  · unfold foldStart
    rw [loadMembers_eq (h.resolve_right fun h => h hr)]
    rfl
  · rw [foldStart_eq hr]
    rfl

/-- What a build writes and returns, computed from what it read. -/
structure BuildPlan where
  rows : List (ℤ × Net)
  added : List (HistKey × Hist)
  tally : Tally
  nets : List NetJson

/-- The store a build leaves, given what it writes. -/
def Store.afterBuild (s : Store) (building : List (ℤ × Net)) (p : BuildPlan) : Store :=
  { s with
    building := (s.building.deleteAll (staleKeys building p.rows)).upsertAll p.rows
    history := s.history.upsertAll p.added }

/-- What a build whose loop is over has still to do: to write the nets, and then the history. -/
def writeBack (clock : BuildClock) (building : List (ℤ × Net)) (st : FoldState) :
    Client BuildResult := do
  let rows := netRows clock st.members.rows
  deleteRows (staleKeys building rows) >>= fun _ => insertRows rows
  appendHistory clock.processedAt st.entries
  let nets ← lift (hierarchyToJson (hierOf clock.sortValues st Col.data))
  return ⟨clock.generatedAt, st.tally, nets⟩

/-- What a build is about to do when it has read everything. -/
inductive Finishes (cfg : MatchConfig) (clock : BuildClock) (building : List (ℤ × Net))
    (history : List (HistKey × Hist)) (reports : List Report) : Client BuildResult → Prop
  | idle (noNet : building = []) (noReport : reports = []) :
      Finishes cfg clock building history reports (.ret ⟨clock.generatedAt, {}, []⟩)
  | refused (e : PyError) : Finishes cfg clock building history reports (.raise e)
  | writes {folded : List (Report × Assignment)} {st : FoldState}
      (loop : foldLoop cfg building (loadHistory history) (fetchNewReports reports) = .ok st)
      (inv : LoopInv cfg building history reports reports folded st) :
      Finishes cfg clock building history reports (writeBack clock building st)

theorem finishes {cfg : MatchConfig} {clock : BuildClock} {building : List (ℤ × Net)}
    {history : List (HistKey × Hist)} {reports : List Report}
    (hn : (reports.map Prod.fst).Nodup) :
    Finishes cfg clock building history reports
      (finishPipeline cfg clock building (loadHistory history) (fetchNewReports reports)) := by
  unfold finishPipeline
  split
  · next he =>
    rw [rows_fetchNewReports, List.map_eq_nil_iff] at he
    exact .idle he.2 he.1
  · next he =>
    rw [rows_fetchNewReports, List.map_eq_nil_iff, not_and_or] at he
    have hne : building ≠ [] ∨ reports ≠ [] := he.symm
    rcases hst : foldLoop cfg building (loadHistory history) (fetchNewReports reports) with e | st
    · exact .refused e
    · obtain ⟨folded, hinv⟩ := foldLoop_routes hne hn hst
      rw [Prog.lift_ok, Prog.ret_bind, dataCols_foldStart hne]
      dsimp only
      unfold syncBuildingTable
      rcases hrows : hierToCassandraRows clock.updatedAt (hierOf clock.sortValues st Col.data)
        with e | rows
      · exact .refused e
      · obtain rfl := hierToCassandraRows_eq_ok hrows
        exact .writes hst hinv

/-- The store a build leaves when it writes everything back. -/
def Store.writtenBack (s : Store) (clock : BuildClock) (building : List (ℤ × Net))
    (rows : List Member) (folded : List (Report × Assignment)) : Store :=
  { s with
    building := (s.building.deleteAll (staleKeys building (netRows clock rows))).upsertAll
      (netRows clock rows)
    history := s.history.upsertAll (folded.map (histRow clock.processedAt)) }

theorem LoopInv.buildRun {ord : ReadOrder} {cfg : MatchConfig} {clock : BuildClock} {s : Store}
    {building : List (ℤ × Net)} {history : List (HistKey × Hist)} {reports : List Report}
    {folded : List (Report × Assignment)} {st : FoldState}
    (h : LoopInv cfg building history reports reports folded st)
    (hb : Lists ord.building building s.building) (hh : Lists ord.history history s.history)
    (hr : Lists ord.report reports s.report)
    (hst : foldLoop cfg building (loadHistory history) (fetchNewReports reports) = .ok st)
    (now : Time) (nets : List NetJson) :
    BuildRun ord cfg clock s (s.writtenBack clock building st.members.rows folded)
      ⟨now, st.tally, nets⟩ building history reports folded st.members where
  readBuilding := hb
  readHistory := hh
  readReports := hr
  routes := h.routes
  routed := h.routed
  loop := ⟨st, hst, h.entries, rfl⟩
  tally := h.tally
  store := rfl

theorem run_writeBack {ord : ReadOrder} {clock : BuildClock} {s s' : Store}
    {building : List (ℤ × Net)} {st : FoldState} {res : BuildResult} :
    Run (exec ord) s (writeBack clock building st) s' (.ok res) ↔
      ∃ added nets,
        List.Forall₂ (fun e r => historyRow clock.processedAt e = .ok r) st.entries added ∧
          hierarchyToJson (hierOf clock.sortValues st Col.data) = .ok nets ∧
            res = ⟨clock.generatedAt, st.tally, nets⟩ ∧
              s' = s.afterBuild building
                ⟨netRows clock st.members.rows, added, st.tally, nets⟩ := by
  unfold writeBack
  refine ⟨fun h => ?_, fun h => ?_⟩
  · obtain ⟨_, s₁, hsync, h₂⟩ := run_bind_ok_iff.mp h
    obtain ⟨_, s₂, happ, h₃⟩ := run_bind_ok_iff.mp h₂
    obtain ⟨nets, _, hlift, h₄⟩ := run_bind_ok_iff.mp h₃
    obtain ⟨rfl, hnets⟩ := run_lift_ok_iff.mp hlift
    obtain ⟨rfl, hres⟩ := run_ret_iff.mp h₄
    obtain ⟨_, s₃, hdel, hins⟩ := run_bind_ok_iff.mp hsync
    obtain rfl := (run_deleteRows.mp hdel).1
    obtain rfl := (run_insertRows.mp hins).1
    obtain ⟨added, hadded, rfl⟩ := run_appendHistory.mp happ
    exact ⟨added, nets, hadded, hnets, Except.ok.inj hres, rfl⟩
  · obtain ⟨added, nets, hadded, hnets, rfl, rfl⟩ := h
    refine run_bind_ok_iff.mpr ⟨⟨⟩, _, run_bind_ok_iff.mpr
      ⟨⟨⟩, _, run_deleteRows.mpr ⟨rfl, rfl⟩, run_insertRows.mpr ⟨rfl, rfl⟩⟩, ?_⟩
    refine run_bind_ok_iff.mpr ⟨⟨⟩, _, run_appendHistory.mpr ⟨added, hadded, rfl⟩, ?_⟩
    exact run_bind_ok_iff.mpr ⟨nets, _, run_lift_ok_iff.mpr ⟨rfl, hnets⟩, .ret _ _⟩

theorem run_finishPipeline {ord : ReadOrder} {cfg : MatchConfig} {clock : BuildClock}
    {s s' : Store} {res : BuildResult} {building : List (ℤ × Net)}
    {history : List (HistKey × Hist)} {reports : List Report}
    (hb : Lists ord.building building s.building) (hh : Lists ord.history history s.history)
    (hr : Lists ord.report reports s.report)
    (h : Run (exec ord) s
      (finishPipeline cfg clock building (loadHistory history) (fetchNewReports reports))
      s' (.ok res)) :
    ∃ folded ms, BuildRun ord cfg clock s s' res building history reports folded ms := by
  have hfin : Finishes cfg clock building history reports _ := finishes hr.nodup
  generalize finishPipeline cfg clock building (loadHistory history) (fetchNewReports reports) = p
    at h hfin
  rcases hfin with ⟨rfl, rfl⟩ | e | @⟨folded, st, hst, hinv⟩
  · obtain ⟨rfl, hres⟩ := run_ret_iff.mp h
    refine ⟨[], startMembers [], hb, hh, hr, .start, rfl, ⟨_, rfl, rfl, rfl⟩, ?_, ?_⟩
    · rw [Except.ok.inj hres]
      rfl
    · rw [show (startMembers []).rows = [] from rfl, netRows_nil]
      rfl
  · exact nomatch (run_raise_iff.mp h).2
  · obtain ⟨added, nets, hhist, -, rfl, rfl⟩ := run_writeBack.mp h
    have hadded : added = folded.map (histRow clock.processedAt) := by
      rw [hinv.entries, List.forall₂_map_left_iff] at hhist
      exact hhist.eq_map fun p _ r hr => historyRow_entryOf hr
    refine ⟨folded, st.members, ?_⟩
    rw [hadded]
    exact hinv.buildRun hb hh hr hst _ _

theorem run_runPipeline {ord : ReadOrder} {cfg : MatchConfig} {clock : BuildClock}
    {s s' : Store} {res : BuildResult}
    (h : Run (exec ord) s (runPipeline cfg clock) s' (.ok res)) :
    ∃ building history reports folded ms,
      BuildRun ord cfg clock s s' res building history reports folded ms := by
  unfold runPipeline at h
  rw [Prog.request_bind] at h
  obtain ⟨building, hb, h⟩ := run_request_iff.mp h
  rw [Prog.request_bind] at h
  obtain ⟨history, hh, h⟩ := run_request_iff.mp h
  rw [Prog.request_bind] at h
  obtain ⟨reports, hr, h⟩ := run_request_iff.mp h
  obtain ⟨folded, ms, hrun⟩ := run_finishPipeline hb hh hr h
  exact ⟨building, history, reports, folded, ms, hrun⟩

/-! ## Runs on given reads -/

/-- The part of a build after its reads, as a computation. -/
def buildPlan (cfg : MatchConfig) (clock : BuildClock) (building : List (ℤ × Net))
    (history : List (HistKey × Hist)) (reports : List Report) : Except PyError BuildPlan := do
  let prevLog := loadHistory history
  let newDf := fetchNewReports reports
  let st ← foldLoop cfg building prevLog newDf
  let hier := hierOf clock.sortValues st (foldStart cfg building prevLog newDf).1.dataCols
  let rows ← hierToCassandraRows clock.updatedAt hier
  let added ← st.entries.mapM (historyRow clock.processedAt)
  let nets ← hierarchyToJson hier
  pure ⟨rows, added, st.tally, nets⟩

/-- A report of a station with a frequency and a bandwidth of 10 kHz, the rest being missing. -/
def Fields.plain (fti : Date) (nti : ℤ) (frequency : ℚ) (rdfs : Text) : Fields where
  fti := some fti
  nti := some nti
  num
    | .frequencyMHz => .val frequency
    | .bandwidthKHz => .val 10
    | _ => .null
  txt
    | .rdfs => some rdfs
    | _ => none

section
variable {ord : ReadOrder} {cfg : MatchConfig} {clock : BuildClock} {s : Store}
  {building : List (ℤ × Net)} {history : List (HistKey × Hist)} {reports : List Report}
  {p : BuildPlan}

/-- A build whose computation succeeds completes, whatever the store is by then. -/
theorem run_finishPipeline_of_buildPlan (hne : reports ≠ [])
    (h : buildPlan cfg clock building history reports = .ok p) :
    Run (exec ord) s
      (finishPipeline cfg clock building (loadHistory history) (fetchNewReports reports))
      (s.afterBuild building p) (.ok ⟨clock.generatedAt, p.tally, p.nets⟩) := by
  unfold buildPlan at h
  obtain ⟨st, hst, h⟩ := Except.bind_eq_ok_iff.mp h
  obtain ⟨rows, hrows, h⟩ := Except.bind_eq_ok_iff.mp h
  obtain ⟨added, hadded, h⟩ := Except.bind_eq_ok_iff.mp h
  obtain ⟨nets, hnets, h⟩ := Except.bind_eq_ok_iff.mp h
  obtain rfl := Except.ok.inj h
  unfold finishPipeline
  rw [if_neg fun h => hne (by rw [rows_fetchNewReports, List.map_eq_nil_iff] at h; exact h.1)]
  refine run_bind_ok_iff.mpr ⟨st, s, run_lift_ok_iff.mpr ⟨rfl, hst⟩, ?_⟩
  refine run_bind_ok_iff.mpr ⟨⟨⟩, _, run_bind_ok_iff.mpr ⟨rows, s,
    run_lift_ok_iff.mpr ⟨rfl, hrows⟩, run_bind_ok_iff.mpr
      ⟨⟨⟩, _, run_deleteRows.mpr ⟨rfl, rfl⟩, run_insertRows.mpr ⟨rfl, rfl⟩⟩⟩, ?_⟩
  refine run_bind_ok_iff.mpr ⟨⟨⟩, _, run_appendHistory.mpr
    ⟨added, Except.mapM_eq_ok_iff.mp hadded, rfl⟩, ?_⟩
  exact run_bind_ok_iff.mpr ⟨nets, _, run_lift_ok_iff.mpr ⟨rfl, hnets⟩, .ret _ _⟩

theorem run_of_buildPlan (hb : Lists ord.building building s.building)
    (hh : Lists ord.history history s.history) (hr : Lists ord.report reports s.report)
    (hne : reports ≠ []) (h : buildPlan cfg clock building history reports = .ok p) :
    Run (exec ord) s (runPipeline cfg clock) (s.afterBuild building p)
      (.ok ⟨clock.generatedAt, p.tally, p.nets⟩) := by
  unfold runPipeline
  rw [Prog.request_bind]
  refine run_request_iff.mpr ⟨building, hb, ?_⟩
  rw [Prog.request_bind]
  refine run_request_iff.mpr ⟨history, hh, ?_⟩
  rw [Prog.request_bind]
  exact run_request_iff.mpr ⟨reports, hr, run_finishPipeline_of_buildPlan hne h⟩

end

/-! ## The tables it leaves -/

/-- The member loaded from a row of `ff_net_building`. -/
def startMember (building : List (ℤ × Net)) (x : ℤ × Net) : Member where
  netId := x.1
  myNetId := x.2.myNetId
  cells := storeRow (building.map fun x => rawNet x.2) (rawNet x.2)

theorem rows_startMembers (building : List (ℤ × Net)) :
    (startMembers building).rows = building.map (startMember building) := rfl

/-- A member nothing was folded into is written as the row it was read from. -/
theorem toNet_startMember (building : List (ℤ × Net)) (x : ℤ × Net) (now : Time) :
    (startMember building x).toNet now = x.2.rewritten now := by
  have hdata : (startMember building x).cells.data = (rawNet x.2).data :=
    Row.data_congr fun c _ => storeRow_agrees _ _ c
  unfold Member.toNet Net.rewritten
  rw [hdata]
  unfold rawNet
  rw [data_cassandraRowToDfRow]
  rfl

/-- With one record per net, the rows written are those of the records with a `my_net_id`. -/
theorem mem_netRows {clock : BuildClock} {rows : List Member} (h : (rows.map (·.netId)).Nodup)
    {n : ℤ}
    {row : Net} :
    (n, row) ∈ netRows clock rows ↔
      ∃ m ∈ rows, m.netId = n ∧ m.myNetId ≠ none ∧ row = m.toNet clock.updatedAt := by
  have hp := dedupRdfsPerNet_perm clock.sortValues h
  have hn : ((dedupRdfsPerNet clock.sortValues rows).map (·.netId)).Nodup :=
    (hp.map _).nodup_iff.mpr h
  unfold netRows
  rw [List.mem_map]
  refine ⟨fun hx => ?_, fun hx => ?_⟩
  · obtain ⟨⟨my, n', m⟩, hm, he⟩ := hx
    obtain ⟨hmem, rfl, hmy⟩ := (mem_hierMembers hn).mp hm
    obtain ⟨rfl, rfl⟩ := Prod.mk.inj he
    refine ⟨m, hp.mem_iff.mp hmem, rfl, by rw [hmy]; exact Option.some_ne_none my, ?_⟩
    rw [← hmy]
    rfl
  · obtain ⟨m, hm, rfl, hmy, rfl⟩ := hx
    obtain ⟨my, hmy⟩ := Option.ne_none_iff_exists'.mp hmy
    refine ⟨(my, m.netId, m), (mem_hierMembers hn).mpr ⟨hp.mem_iff.mpr hm, rfl, hmy⟩, ?_⟩
    show (m.netId, ({ m.toNet clock.updatedAt with myNetId := some my } : Net)) = _
    rw [← hmy]
    rfl

theorem nodup_netRows {clock : BuildClock} {rows : List Member} (h : (rows.map (·.netId)).Nodup) :
    ((netRows clock rows).map Prod.fst).Nodup := by
  have hp := dedupRdfsPerNet_perm clock.sortValues h
  have hn : ((dedupRdfsPerNet clock.sortValues rows).map (·.netId)).Nodup :=
    (hp.map _).nodup_iff.mpr h
  unfold netRows
  rw [List.map_map]
  exact nodup_hierMembers hn

section
variable {ord : ReadOrder} {cfg : MatchConfig} {clock : BuildClock} {s s' : Store}
  {res : BuildResult} {building : List (ℤ × Net)} {history : List (HistKey × Hist)}
  {reports : List Report} {folded : List (Report × Assignment)} {ms : Members}

theorem BuildRun.nodup_start
    (h : BuildRun ord cfg clock s s' res building history reports folded ms) :
    ((startMembers building).rows.map (·.netId)).Nodup := by
  rw [rows_startMembers, List.map_map]
  exact h.readBuilding.nodup

theorem BuildRun.nodup (h : BuildRun ord cfg clock s s' res building history reports folded ms) :
    (ms.rows.map (·.netId)).Nodup := h.routes.nodup h.nodup_start

/-- The net table holds the rows written and no other row. -/
theorem enumerates_afterBuild {p : BuildPlan} (hb : Table.Enumerates building s.building)
    (hn : (p.rows.map Prod.fst).Nodup) :
    Table.Enumerates p.rows (s.afterBuild building p).building := by
  refine ⟨hn, fun n row => ?_⟩
  show _ ↔ Table.upsertAll _ _ n = _
  rw [Table.upsertAll_eq_some_iff _ hn, Table.deleteAll_apply]
  refine (or_iff_left fun hold => ?_).symm
  obtain ⟨hnew, hold⟩ := hold
  -- an old row that is not written again was deleted
  by_cases hmem : n ∈ building.map Prod.fst
  · have hstale : n ∈ staleKeys building p.rows := by
      unfold staleKeys
      rw [List.mem_filter]
      exact ⟨hmem, by simpa using hnew⟩
    rw [if_pos hstale] at hold
    exact nomatch hold
  · have hnone : s.building n = none := by
      rw [hb.mem_keys, Bool.not_eq_true, Option.isSome_eq_false_iff,
        Option.isNone_iff_eq_none] at hmem
      exact hmem
    rw [hnone] at hold
    simp at hold

/-- Those are the rows of the members. -/
theorem BuildRun.building_iff
    (h : BuildRun ord cfg clock s s' res building history reports folded ms) (n : ℤ) (row : Net) :
    s'.building n = some row ↔
      ∃ m ∈ ms.rows, m.netId = n ∧ m.myNetId ≠ none ∧ row = m.toNet clock.updatedAt := by
  rw [← mem_netRows h.nodup, h.store]
  exact ((@enumerates_afterBuild s building ⟨netRows clock ms.rows, [], res.processed, []⟩
    h.readBuilding.enumerates (nodup_netRows h.nodup)).mem_iff n row).symm

theorem BuildRun.history_eq
    (h : BuildRun ord cfg clock s s' res building history reports folded ms) :
    s'.history = s.history.upsertAll (folded.map (histRow clock.processedAt)) := by
  rw [h.store]

theorem BuildRun.report_eq
    (h : BuildRun ord cfg clock s s' res building history reports folded ms) :
    s'.report = s.report := by
  rw [h.store]

theorem BuildRun.candidates_eq
    (h : BuildRun ord cfg clock s s' res building history reports folded ms) :
    s'.candidates = s.candidates := by
  rw [h.store]

/-- The reports a build routes are those of the table that the history does not record. -/
theorem BuildRun.mem_folded_iff
    (h : BuildRun ord cfg clock s s' res building history reports folded ms) (x : Report) :
    (∃ a, (x, a) ∈ folded) ↔ s.report x.1 = some x.2 ∧ recorded history x = false := by
  have hmem : x ∈ folded.map Prod.fst ↔ ∃ a, (x, a) ∈ folded := by simp
  rw [← hmem, h.routed, List.mem_filter, h.readReports.mem_iff]
  simp

/-- The net a report was routed to is there afterwards, with the label the report was entered
under. -/
theorem BuildRun.row_of_folded
    (h : BuildRun ord cfg clock s s' res building history reports folded ms)
    {p : Report × Assignment} (hp : p ∈ folded) :
    ∃ m ∈ ms.rows, m.netId = p.2.netId ∧ m.myNetId = some p.2.myNetId ∧
      s'.building p.2.netId = some (m.toNet clock.updatedAt) := by
  obtain ⟨m, hm, hids⟩ := List.mem_map.mp (h.routes.mem_ids p hp)
  have hnet : m.netId = p.2.netId := congrArg Prod.fst hids
  have hmy : m.myNetId = some p.2.myNetId := congrArg Prod.snd hids
  refine ⟨m, hm, hnet, hmy, (h.building_iff _ _).mpr ⟨m, hm, hnet, ?_, rfl⟩⟩
  rw [hmy]
  exact Option.some_ne_none _

/-- The record loaded for a net is among those the loop starts with. -/
theorem BuildRun.mem_start
    (h : BuildRun ord cfg clock s s' res building history reports folded ms) {n : ℤ} {x : Net}
    (hx : s.building n = some x) : startMember building (n, x) ∈ (startMembers building).rows := by
  rw [rows_startMembers]
  exact List.mem_map_of_mem ((h.readBuilding.mem_iff n x).mpr hx)

end

end NetBuild
