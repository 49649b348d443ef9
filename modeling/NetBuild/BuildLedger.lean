import NetBuild.BuildRun
import NetBuild.EmitterIds
import NetBuild.Runs

/-!
# The history as the builds' ledger

`ff_net_report_history` is meant to be append-only and to make a build idempotent. Its primary
key is `(net_id, processed_at, ff_id)`, and one build writes all its rows with one
`processed_at`: two reports of one emitter folded into one net by one build share their row.
A build is append-only and idempotent exactly when no report it reads meets a net that has taken
one of its `ff_id` before it.
-/

namespace NetBuild

open Prog (Run)

/-! ## What is promised -/

/-- The build's `processed_at` is in no history row yet. -/
def FreshClock (s : Store) (clock : BuildClock) : Prop :=
  ∀ k, s.history k ≠ none → k.2.1 ≠ clock.processedAt

/-- Report inserts and completed builds, each build with a `processed_at` of its own. -/
def buildsOnly : Guard := fun s c o =>
  (∃ out, o = .ok out) ∧
    match c with
    | .insertReport _ _ => True
    | .build _ clock => FreshClock s clock
    | _ => False

/-- The history of `s'` is the one of `s` and the rows `added`, none of which replaces another
row. -/
structure Appends (s s' : Store) (added : List (HistKey × Hist)) : Prop where
  nodup : (added.map Prod.fst).Nodup
  fresh : ∀ k ∈ added.map Prod.fst, s.history k = none
  history : s'.history = s.history.upsertAll added

/-- A row without its `updated_at`. -/
def Net.untimed (x : Net) : Net := { x with updatedAt := none }

/-- The reports routed to one net have different `ff_id`s. -/
def RoutedApart (folded : List (Report × Assignment)) : Prop :=
  (folded.map fun p => (p.2.netId, p.1.1.1)).Nodup

/-! ## The rows a build adds -/

section
variable {ord : ReadOrder} {cfg : MatchConfig} {clock : BuildClock} {s s' : Store}
  {res : BuildResult} {building : List (ℤ × Net)} {history : List (HistKey × Hist)}
  {reports : List Report} {folded : List (Report × Assignment)} {ms : Members}

theorem recorded_eq_false_iff {ord : HistKey → HistKey → Prop} (h : Lists ord history s.history)
    (x : Report) :
    recorded history x = false ↔
      ∀ k row, s.history k = some row → histSig (k, row) ≠ reportSig x := by
  unfold recorded
  rw [decide_eq_false_iff_not, List.mem_map, not_exists]
  refine ⟨fun hx k row hk he => hx (k, row) ⟨(h.mem_iff k row).mpr hk, he⟩, fun hx r hr => ?_⟩
  exact hx r.1 r.2 ((h.mem_iff r.1 r.2).mp hr.1) hr.2

/-- A history row has the signature of the report it was written for. -/
theorem histSig_histRow (now : Time) (p : Report × Assignment) :
    histSig (histRow now p) = reportSig p.1 := by
  have hraw : rawHist (histRow now p) = rawReport p.1 := cassandraRowToDfRow_clean ..
  unfold histSig reportSig
  rw [hraw]

theorem nodup_histRow_iff (now : Time) (folded : List (Report × Assignment)) :
    ((folded.map (histRow now)).map Prod.fst).Nodup ↔ RoutedApart folded := by
  have hkeys : (folded.map (histRow now)).map Prod.fst
      = (folded.map fun p => (p.2.netId, p.1.1.1)).map fun q : ℤ × ℤ => (q.1, now, q.2) := by
    rw [List.map_map, List.map_map]
    rfl
  have hinj : Function.Injective fun q : ℤ × ℤ => (q.1, now, q.2) := by
    intro q q' h
    simp only [Prod.mk.injEq, true_and] at h
    exact Prod.ext h.1 h.2
  rw [hkeys, List.nodup_map_iff hinj]
  rfl

theorem tallyOf_total (folded : List (Report × Assignment)) (n : ℕ) :
    (tallyOf folded n).new + (tallyOf folded n).collapsed = folded.length := by
  show folded.countP _ + folded.countP _ = _
  rw [List.length_eq_countP_add_countP (fun p : Report × Assignment => p.2.action = .new)]
  congr 1
  apply List.countP_congr
  intro p _
  rcases p.2.action <;> simp

theorem fields_data_clean (row : Row) : row.data.fields.clean = row.data.fields := by
  have h : ∀ c : Cell, (c.toDbl.getD .null).clean = c.toDbl.getD .null := by
    intro c
    rcases c <;> rfl
  show ({ row.data.fields with num := fun c => (row.data.fields.num c).clean } : Fields) = _
  unfold Row.data
  simp only [h]

/-- A build that finds every report recorded writes back what it read. -/
theorem BuildRun.idle
    (h : BuildRun ord cfg clock s s' res building history reports folded ms)
    (hrec : ∀ x : Report, s.report x.1 = some x.2 →
      ∃ k row, s.history k = some row ∧ histSig (k, row) = reportSig x)
    (hclean : ∀ n x, s.building n = some x → x.myNetId ≠ none ∧ x.fields.clean = x.fields) :
    (∀ rows, Table.Enumerates rows s.report → res.processed = ⟨0, 0, rows.length⟩) ∧
      s'.history = s.history ∧
      ∀ n, (s'.building n).map Net.untimed = (s.building n).map Net.untimed := by
  have hfolded : folded = [] := by
    rw [← List.map_eq_nil_iff (f := Prod.fst), h.routed, List.filter_eq_nil_iff]
    intro x hx hno
    rw [Bool.not_eq_true', recorded_eq_false_iff h.readHistory] at hno
    obtain ⟨k, row, hk, hsig⟩ := hrec x ((h.readReports.mem_iff x.1 x.2).mp hx)
    exact hno k row hk hsig
  subst hfolded
  have hms : ms = startMembers building := h.routes.eq_of_nil rfl
  refine ⟨fun rows hrows => ?_, h.history_eq, fun n => ?_⟩
  · rw [h.tally, (hrows.perm h.readReports.enumerates).length_eq]
    rfl
  · -- each row read is written again, and no other
    have hiff : ∀ row, s'.building n = some row ↔
        ∃ x, s.building n = some x ∧ row = x.rewritten clock.updatedAt := by
      intro row
      rw [h.building_iff, hms, rows_startMembers]
      refine ⟨fun hm => ?_, fun hx => ?_⟩
      · obtain ⟨m, hm, rfl, -, rfl⟩ := hm
        obtain ⟨x, hx, rfl⟩ := List.mem_map.mp hm
        exact ⟨x.2, (h.readBuilding.mem_iff x.1 x.2).mp hx, toNet_startMember ..⟩
      · obtain ⟨x, hx, rfl⟩ := hx
        refine ⟨startMember building (n, x),
          List.mem_map_of_mem ((h.readBuilding.mem_iff n x).mpr hx), rfl,
          (hclean n x hx).1, (toNet_startMember building (n, x) _).symm⟩
    rcases hn : s.building n with _ | x
    · rcases hn' : s'.building n with _ | row
      · rfl
      · obtain ⟨x, hx, -⟩ := (hiff row).mp hn'
        rw [hn] at hx
        exact nomatch hx
    · rw [(hiff _).mpr ⟨x, hn, rfl⟩]
      show some (Net.untimed _) = some (Net.untimed _)
      unfold Net.untimed Net.rewritten
      rw [(hclean n x hn).2]

/-- The rows a build leaves are labelled and without `nan`s. -/
theorem BuildRun.building_clean
    (h : BuildRun ord cfg clock s s' res building history reports folded ms) :
    ∀ n x, s'.building n = some x → x.myNetId ≠ none ∧ x.fields.clean = x.fields := by
  intro n x hx
  obtain ⟨m, -, -, hmy, rfl⟩ := (h.building_iff n x).mp hx
  exact ⟨hmy, fields_data_clean m.cells⟩

end

/-! ## Two reports of one emitter -/

/-- Two reports of one emitter from one station. -/
def twinReports : List Report :=
  [((1, .of2024 3 5 (by decide)), .plain (.of2024 3 5 (by decide)) 3 100 ['A']),
    ((1, .of2024 4 6 (by decide)), .plain (.of2024 4 6 (by decide)) 4 100 ['A'])]

/-- One report. -/
def loneReport : List Report := twinReports.take 1

theorem buildsOnly_insertReport (s : Store) (key : ReportKey) (row : Fields) :
    buildsOnly s (.insertReport key row) (.ok .inserted) := ⟨⟨_, rfl⟩, trivial⟩

theorem freshClock_ofReports (rows : List Report) (clock : BuildClock) :
    FreshClock (.ofReports rows) clock := fun _ hk => absurd rfl hk

/-- Two reports of two stations, for a first build. -/
def earlyReports : List Report :=
  [((1, .of2024 6 25 (by decide)), .plain (.of2024 6 25 (by decide)) 3 100 ['A']),
    ((2, .of2024 6 25 (by decide)), .plain (.of2024 6 25 (by decide)) 4 200 ['B'])]

/-- Two more, both of the emitter of the first: one of its station, one of a third. -/
def lateReports : List Report :=
  [((1, .of2024 6 26 (by decide)), .plain (.of2024 6 26 (by decide)) 5 100 ['A']),
    ((1, .of2024 6 27 (by decide)), .plain (.of2024 6 27 (by decide)) 6 300 ['C'])]

/-- The first build, and the one after the late reports arrived. -/
def twoPlans : Except PyError (BuildPlan × BuildPlan) := do
  let p ← buildPlan {} (.still 1) [] [] earlyReports
  let p' ← buildPlan {} (.still 2) p.rows p.added (earlyReports ++ lateReports)
  pure (p, p')

/-- The id, the label and the count of a net. -/
def netLine (r : ℤ × Net) : ℤ × Option ℤ × Option ℤ := (r.1, r.2.myNetId, r.2.fields.nti)

set_option synthInstance.maxSize 1000 in
theorem twoPlans_eq : twoPlans.map (fun x =>
    (x.1.rows.map netLine, x.1.added.map Prod.fst, x.1.added.map histSig, x.2.rows.map netLine,
      x.2.tally))
    = .ok ([(100001, some 1, some 3), (100002, some 2, some 4)], [(100001, 1, 1), (100002, 1, 2)],
      earlyReports.map reportSig,
      [(100001, some 1, some 8), (100002, some 2, some 4), (100003, some 3, some 6)],
      ⟨1, 1, 2⟩) := by
  decide +kernel

/-- One report was folded into the first net, none into the second, and one made a third. -/
structure TwoBuilds (p p' : BuildPlan) : Prop where
  first : buildPlan {} (.still 1) [] [] earlyReports = .ok p
  second : buildPlan {} (.still 2) p.rows p.added (earlyReports ++ lateReports) = .ok p'
  nets : p.rows.map netLine = [(100001, some 1, some 3), (100002, some 2, some 4)]
  history : p.added.map Prod.fst = [(100001, 1, 1), (100002, 1, 2)]
  recorded : p.added.map histSig = earlyReports.map reportSig
  nets' : p'.rows.map netLine
    = [(100001, some 1, some 8), (100002, some 2, some 4), (100003, some 3, some 6)]
  tally : p'.tally = ⟨1, 1, 2⟩

theorem exists_twoBuilds : ∃ p p', TwoBuilds p p' := by
  obtain ⟨⟨p, p'⟩, hx, hv⟩ := Except.map_eq_ok_iff.mp twoPlans_eq
  obtain ⟨hnets, hv₁⟩ := Prod.mk.inj hv
  obtain ⟨hhist, hv₂⟩ := Prod.mk.inj hv₁
  obtain ⟨hrec, hv₃⟩ := Prod.mk.inj hv₂
  obtain ⟨hnets', htally⟩ := Prod.mk.inj hv₃
  unfold twoPlans at hx
  obtain ⟨p₁, hp, hx₁⟩ := Except.bind_eq_ok_iff.mp hx
  obtain ⟨p₂, hp₂, hx₂⟩ := Except.bind_eq_ok_iff.mp hx₁
  obtain ⟨rfl, rfl⟩ := Prod.mk.inj (Except.ok.inj hx₂)
  exact ⟨p₁, p₂, hp, hp₂, hnets, hhist, hrec, hnets', htally⟩

/-- The store after the first build, with the reports given. -/
def Store.builtOnce (p : BuildPlan) (reports : List Report) : Store :=
  { (Store.ofReports earlyReports).afterBuild [] p with
    report := (Store.ofReports reports).report }

section
variable {p p' : BuildPlan} {reports : List Report}

theorem map_fst_netLine (rows : List (ℤ × Net)) :
    rows.map Prod.fst = (rows.map netLine).map Prod.fst := by
  rw [List.map_map]
  rfl

theorem TwoBuilds.enumerates (h : TwoBuilds p p') :
    Table.Enumerates p.rows (Store.builtOnce p reports).building := by
  refine Table.enumerates_upsertAll ?_
  rw [map_fst_netLine, h.nets]
  decide

theorem TwoBuilds.enumerates_history (h : TwoBuilds p p') :
    Table.Enumerates p.added (Store.builtOnce p reports).history := by
  refine Table.enumerates_upsertAll ?_
  rw [h.history]
  decide

/-- The stores on the way to the second build. -/
theorem TwoBuilds.seqRun {G : Guard} (h : TwoBuilds p p')
    (hinsert : ∀ s key row, G s (.insertReport key row) (.ok .inserted))
    (hbuild : ∀ res, G (.ofReports earlyReports) (.build {} (.still 1)) (.ok (.built res))) :
    SeqRun .any G .empty
      [.builtOnce p (earlyReports ++ lateReports.take 1), .builtOnce p earlyReports,
        .ofReports earlyReports, .ofReports (earlyReports.take 1), .empty]
      (.builtOnce p (earlyReports ++ lateReports)) := by
  have hfirst : Run (exec .any) (.ofReports earlyReports) (runPipeline {} (.still 1))
      (.builtOnce p earlyReports) (.ok ⟨1, p.tally, p.nets⟩) :=
    run_of_buildPlan lists_empty lists_empty (lists_ofReports (by decide)) (by decide) h.first
  have hone : SeqRun .any G .empty [.empty] (.ofReports (earlyReports.take 1)) :=
    .call .start (c := .insertReport _ _) (hinsert ..) (run_insertReport_iff.mpr ⟨rfl, rfl⟩)
  have htwo : SeqRun .any G .empty [.ofReports (earlyReports.take 1), .empty]
      (.ofReports earlyReports) :=
    .call hone (c := .insertReport _ _) (hinsert ..) (run_insertReport_iff.mpr ⟨rfl, rfl⟩)
  have hbuilt := SeqRun.call htwo (c := .build {} (.still 1)) (hbuild _)
    (run_build_ok_iff.mpr ⟨_, hfirst, rfl⟩)
  have hthree : SeqRun .any G .empty _ (.builtOnce p (earlyReports ++ lateReports.take 1)) :=
    .call hbuilt (c := .insertReport _ _) (hinsert ..) (run_insertReport_iff.mpr ⟨rfl, rfl⟩)
  exact .call hthree (c := .insertReport _ _) (hinsert ..) (run_insertReport_iff.mpr ⟨rfl, rfl⟩)

/-- The second build. -/
theorem TwoBuilds.run (h : TwoBuilds p p') :
    Run (exec .any) (.builtOnce p (earlyReports ++ lateReports)) (runPipeline {} (.still 2))
      ((Store.builtOnce p (earlyReports ++ lateReports)).afterBuild p.rows p')
      (.ok ⟨2, p'.tally, p'.nets⟩) :=
  run_of_buildPlan (lists_any h.enumerates) (lists_any h.enumerates_history)
    (lists_ofReports (by decide)) (by decide) h.second

end

end NetBuild
