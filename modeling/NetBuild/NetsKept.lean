import NetBuild.ApprovalRetry
import NetBuild.BuildLedger

/-!
# A build keeps the nets

Between the read of `ff_net_building` and its rewrite a net goes through frames, folds, a sort, a
`drop_duplicates`, two `groupby`s and the formatting of its ids. `builds_keep_nets` says that none
of them loses, doubles or disturbs a net: what is there afterwards is the nets there were and one
for each report tallied `new`.
-/

namespace NetBuild

open NetMergingService
open Prog (Run)

/-- Reached by builds, listings and decisions, whatever is in `ff_net_report` meanwhile. -/
inductive ReachedAnyReports (ord : ReadOrder) : Store → Prop
  | empty : ReachedAnyReports ord .empty
  | reports {s : Store} (before : ReachedAnyReports ord s) (report : Table ReportKey Fields) :
      ReachedAnyReports ord { s with report := report }
  | call {s s' : Store} {c : Call} {o : Except PyError Outcome}
      (before : ReachedAnyReports ord s) (run : Run (exec ord) s c.prog s' o) :
      ReachedAnyReports ord s'

theorem ReachedAnyReports.labelled {ord : ReadOrder} {s : Store} (h : ReachedAnyReports ord s) :
    Labelled s := by
  induction h with
  | empty => exact fun _ _ hx => nomatch hx
  | reports _ _ ih => exact ih
  | @call s s' c o _ run ih =>
    refine run.preserves (fun v r x v' hr hv hex => ?_) (always_labels c) ih
    rw [hex.2]
    exact hv.apply hr

/-- No `double` stored in `ff_net_building` is a NaN. -/
def NoNaN (s : Store) : Prop := ∀ n x, s.building n = some x → ∀ c, x.fields.num c ≠ .nan

/-- The id after all those in use, or the first one. -/
structure IsNextNet (s : Store) (n : ℤ) : Prop where
  above : ∀ m, s.building m ≠ none → m < n
  least : (∀ m, s.building m = none) ∧ n = systemNetStart ∨ s.building (n - 1) ≠ none

/-- What a build leaves of the nets, given what it read and how it routed the reports. -/
structure NetsKept (cfg : MatchConfig) (clock : BuildClock) (s s' : Store) (res : BuildResult)
    (building : List (ℤ × Net)) (history : List (HistKey × Hist)) (reports : List Report)
    (folded : List (Report × Assignment)) : Prop where
  /-- The reports tallied `new` get the next ids, and the nets are the old ones and these. -/
  ids : ∃ first, IsNextNet s first ∧
    ((folded.filter (·.2.action = .new)).map (·.2.netId)
      = (List.range res.processed.new).map fun i : ℕ => first + i) ∧
    ∀ n, s'.building n ≠ none ↔
      s.building n ≠ none ∨ n ∈ (folded.filter (·.2.action = .new)).map (·.2.netId)
  labelled : Labelled s'
  /-- No row is deleted. -/
  noDelete : ∀ st rows,
    foldLoop cfg building (loadHistory history) (fetchNewReports reports) = .ok st →
      hierToCassandraRows clock.updatedAt (hierOf clock.sortValues st Col.data) = .ok rows →
        staleKeys building rows = []
  /-- No record is dropped on the way to the table. -/
  noDiscard : ∀ st,
    foldLoop cfg building (loadHistory history) (fetchNewReports reports) = .ok st →
      (dedupRdfsPerNet clock.sortValues st.members.rows).Perm st.members.rows ∧
        ((hierMembers clock.sortValues (dedupRdfsPerNet clock.sortValues st.members.rows)).map
            (·.2.2)).Perm st.members.rows ∧
          (hierOf clock.sortValues st Col.data).length = st.members.rows.length
  tally : ∀ rows, Table.Enumerates rows s.report →
    res.processed.new + res.processed.collapsed + res.processed.skipped = rows.length
  /-- A net no report was folded into is as it was. -/
  kept : ∀ n x, s.building n = some x → received folded n = [] →
    ∃ x', s'.building n = some x' ∧ x'.untimed = x.untimed

/-! ## Ids -/

theorem Routes.newNetIds {cfg : MatchConfig} {row : Report → Row} {ms ms' : Members}
    {folded : List (Report × Assignment)} (h : Routes cfg row ms folded ms') :
    (folded.filter (·.2.action = .new)).map (·.2.netId)
      = (List.range (folded.countP (·.2.action = .new))).map
          fun i : ℕ => nextNetId ms.rows + i := by
  rw [← map_fst_spawned _ (nextMyNetId ms.rows), ← h.newIds, List.map_map]
  rfl

/-! ## The records on their way to the table -/

theorem length_buildHierarchical (sv : SortValues) (ms : List Member) (cols : List Col) :
    (buildHierarchical sv ms cols).length = (hierMembers sv ms).length := by
  obtain ⟨frame, h⟩ := buildHierarchical_eq sv ms cols
  rw [h, List.length_map]

section
variable {ord : ReadOrder} {cfg : MatchConfig} {clock : BuildClock} {s s' : Store}
  {res : BuildResult} {building : List (ℤ × Net)} {history : List (HistKey × Hist)}
  {reports : List Report} {folded : List (Report × Assignment)} {ms : Members}

/-- From labelled rows every record has a label. -/
theorem BuildRun.myNetId_ne_none
    (h : BuildRun ord cfg clock s s' res building history reports folded ms) (hs : Labelled s) :
    ∀ m ∈ ms.rows, m.myNetId ≠ none := by
  intro m hm
  have hids := List.mem_map_of_mem (f := Member.ids) hm
  rw [h.routes.ids, List.mem_append] at hids
  rcases hids with hids | hids
  · rw [rows_startMembers, List.map_map] at hids
    obtain ⟨x, hx, he⟩ := List.mem_map.mp hids
    have hmy : x.2.myNetId = m.myNetId := congrArg Prod.snd he
    rw [← hmy]
    exact hs x.1 x.2 ((h.readBuilding.mem_iff x.1 x.2).mp hx)
  · obtain ⟨i, -, he⟩ := List.mem_map.mp hids
    have hmy : some _ = m.myNetId := congrArg Prod.snd he
    rw [← hmy]
    exact Option.some_ne_none _

theorem BuildRun.staleKeys_eq_nil
    (h : BuildRun ord cfg clock s s' res building history reports folded ms) (hs : Labelled s) :
    staleKeys building (netRows clock ms.rows) = [] := by
  unfold staleKeys
  rw [List.filter_eq_nil_iff]
  intro n hn
  obtain ⟨x, hx, rfl⟩ := List.mem_map.mp hn
  obtain ⟨l, hl⟩ := Option.ne_none_iff_exists'.mp
    (hs x.1 x.2 ((h.readBuilding.mem_iff x.1 x.2).mp hx))
  -- its record is still there, and is written
  have hlabel : s.label x.1 = some l :=
    (Store.label_of_eq_some ((h.readBuilding.mem_iff x.1 x.2).mp hx)).trans hl
  obtain ⟨m, hm, he⟩ := List.mem_map.mp (h.mem_ids.mpr (h.grows.kept _ _ hlabel))
  obtain ⟨hnet, hmy⟩ := Prod.mk.inj he
  have hrow : (x.1, m.toNet clock.updatedAt) ∈ netRows clock ms.rows :=
    (mem_netRows h.nodup).mpr ⟨m, hm, hnet, by rw [hmy]; exact Option.some_ne_none l, rfl⟩
  simpa using ⟨_, hrow⟩

/-- A record nothing was routed to is written as the row it was read from. -/
theorem BuildRun.building_of_received_eq_nil
    (h : BuildRun ord cfg clock s s' res building history reports folded ms) (hs : Labelled s)
    {n : ℤ} {x : Net} (hx : s.building n = some x) (hr : received folded n = []) :
    s'.building n = some (x.rewritten clock.updatedAt) := by
  have huntouched : ∀ p ∈ folded, p.2.netId ≠ (startMember building (n, x)).netId :=
    received_eq_nil_iff.mp hr
  have hm := (h.routes.mem_of_untouched huntouched).mpr (h.mem_start hx)
  rw [h.building_iff]
  exact ⟨_, hm, rfl, hs n x hx, (toNet_startMember building (n, x) _).symm⟩

theorem rewritten_untimed {x : Net} (hx : ∀ c, x.fields.num c ≠ .nan) (now : Time) :
    (x.rewritten now).untimed = x.untimed := by
  have hclean : x.fields.clean = x.fields := by
    have hnum : ∀ c, (x.fields.num c).clean = x.fields.num c := by
      intro c
      have := hx c
      rcases hc : x.fields.num c with _ | _ | q
      · rfl
      · exact absurd hc this
      · rfl
    unfold Fields.clean
    simp only [hnum]
  unfold Net.untimed Net.rewritten
  rw [hclean]

/-- From any reachable store, whatever reports there are: a build keeps the nets there were, adds
one for each report tallied `new`, and disturbs none that it folds nothing into. -/
theorem builds_keep_nets (hs : ReachedAnyReports ord s) (hnan : NoNaN s)
    (hrun : Run (exec ord) s (runPipeline cfg clock) s' (.ok res)) :
    ∃ building history reports folded ms,
      BuildRun ord cfg clock s s' res building history reports folded ms ∧
        NetsKept cfg clock s s' res building history reports folded := by
  have hl := hs.labelled
  obtain ⟨building, history, reports, folded, ms, h⟩ := run_runPipeline hrun
  refine ⟨building, history, reports, folded, ms, h, ?_⟩
  obtain ⟨st₀, hst₀, -, hrows₀⟩ := h.loop
  have hst : ∀ st, foldLoop cfg building (loadHistory history) (fetchNewReports reports) = .ok st →
      st.members.rows = ms.rows := by
    intro st hst
    obtain rfl := Except.ok.inj (hst₀.symm.trans hst)
    exact hrows₀
  have hdedup := dedupRdfsPerNet_perm clock.sortValues h.nodup
  have hkeys : (startMembers building).rows.map (·.netId) = building.map Prod.fst := by
    rw [rows_startMembers, List.map_map]
    rfl
  have hnew : res.processed.new = folded.countP (·.2.action = .new) := by
    rw [h.tally]
    rfl
  refine ⟨⟨nextNetId (startMembers building).rows, ⟨fun m hm => ?_, ?_⟩, ?_, fun n => ?_⟩,
    h.labelled, fun st rows hst' hrows => ?_, fun st hst' => ?_, fun rows hrows => ?_,
    fun n x hx hr => ?_⟩
  · -- the next id is above those in use
    obtain ⟨x, hx⟩ := Option.ne_none_iff_exists'.mp hm
    exact netId_lt_nextNetId (h.mem_start hx)
  · unfold nextNetId
    rw [hkeys]
    rcases hb : building with _ | ⟨x, rest⟩
    · left
      have hempty := h.readBuilding.eq_nil_iff.mp hb
      exact ⟨fun m => by rw [hempty]; rfl, rfl⟩
    · right
      have hmem : nextId systemNetStart ((x :: rest).map Prod.fst) - 1 ∈ building.map Prod.fst := by
        rw [hb]
        exact nextId_sub_one_mem (List.cons_ne_nil _ _)
      exact Option.isSome_iff_ne_none.mp (h.readBuilding.mem_keys.mp hmem)
  · rw [hnew]
    exact h.routes.newNetIds
  · -- the records are those loaded and those spawned
    have hids : s'.building n ≠ none ↔ n ∈ ms.rows.map (·.netId) := by
      rw [Option.ne_none_iff_exists', List.mem_map]
      refine ⟨fun hx => ?_, fun hm => ?_⟩
      · obtain ⟨x, hx⟩ := hx
        obtain ⟨m, hm, hn, -⟩ := (h.building_iff n x).mp hx
        exact ⟨m, hm, hn⟩
      · obtain ⟨m, hm, hn⟩ := hm
        exact ⟨_, (h.building_iff n _).mpr ⟨m, hm, hn, h.myNetId_ne_none hl m hm, rfl⟩⟩
    have hall : ms.rows.map (·.netId)
        = building.map Prod.fst ++ (folded.filter (·.2.action = .new)).map (·.2.netId) := by
      have := congrArg (List.map Prod.fst) h.routes.ids
      rw [List.map_append, map_fst_spawned, List.map_map, List.map_map] at this
      rw [h.routes.newNetIds, ← hkeys]
      exact this
    rw [hids, hall, List.mem_append, h.readBuilding.mem_keys, Option.isSome_iff_ne_none]
  · obtain rfl := hierToCassandraRows_eq_ok hrows
    rw [hst st hst']
    exact h.staleKeys_eq_nil hl
  · unfold hierOf
    rw [length_buildHierarchical, hst st hst']
    have hn : ((dedupRdfsPerNet clock.sortValues ms.rows).map (·.netId)).Nodup :=
      (hdedup.map _).nodup_iff.mpr h.nodup
    have hperm := (@hierMembers_perm clock.sortValues _ hn fun m hm =>
      h.myNetId_ne_none hl m (hdedup.mem_iff.mp hm)).trans hdedup
    refine ⟨hdedup, hperm, ?_⟩
    rw [← hperm.length_eq, List.length_map]
  · have hle : folded.length ≤ reports.length := by
      rw [← List.length_map (f := Prod.fst), h.routed]
      exact List.length_filter_le ..
    rw [h.tally, tallyOf_total, (hrows.perm h.readReports.enumerates).length_eq]
    show folded.length + (reports.length - folded.length) = reports.length
    omega
  · exact ⟨_, h.building_of_received_eq_nil hl hx hr, rewritten_untimed (hnan n x hx) _⟩

end

/-- A build over two nets folds one report into the first, none into the second, and makes a
third. -/
theorem builds_keep_nets_secondBuild :
    ∃ s s' res building history reports folded,
      ReachedAnyReports .any s ∧ NoNaN s ∧
        Run (exec .any) s (runPipeline {} (.still 2)) s' (.ok res) ∧ res.processed = ⟨1, 1, 2⟩ ∧
          NetsKept {} (.still 2) s s' res building history reports folded ∧
            (∃ rows, Table.Enumerates rows s.building ∧
              rows.map netLine = [(100001, some 1, some 3), (100002, some 2, some 4)]) ∧
            ∃ rows, Table.Enumerates rows s'.building ∧ rows.map netLine
              = [(100001, some 1, some 8), (100002, some 2, some 4), (100003, some 3, some 6)] := by
  obtain ⟨p, p', h⟩ := exists_twoBuilds
  have hfirst : Run (exec .any) (.ofReports earlyReports) (runPipeline {} (.still 1))
      (.builtOnce p earlyReports) (.ok ⟨1, p.tally, p.nets⟩) :=
    run_of_buildPlan lists_empty lists_empty (lists_ofReports (by decide)) (by decide) h.first
  have hbuilt : ReachedAnyReports .any (.builtOnce p earlyReports) :=
    .call (.reports .empty _) (c := .build {} (.still 1)) (run_build_ok_iff.mpr ⟨_, hfirst, rfl⟩)
  have hs : ReachedAnyReports .any (.builtOnce p (earlyReports ++ lateReports)) :=
    .reports hbuilt _
  -- the first build has left no NaN
  have hnan : NoNaN (.builtOnce p (earlyReports ++ lateReports)) := by
    intro n x hx c hc
    obtain ⟨building, history, reports, folded, ms, hrun⟩ := run_runPipeline hfirst
    have hclean := (hrun.building_clean n x hx).2
    have hnull : (x.fields.num c).clean = x.fields.num c := congrArg (fun f => f.num c) hclean
    rw [hc] at hnull
    exact nomatch hnull
  have htally : (⟨2, p'.tally, p'.nets⟩ : BuildResult).processed = ⟨1, 1, 2⟩ := h.tally
  obtain ⟨building, history, reports, folded, ms, hb, hkept⟩ := builds_keep_nets hs hnan h.run
  refine ⟨_, _, _, building, history, reports, folded, hs, hnan, h.run, htally, hkept,
    ⟨p.rows, h.enumerates, h.nets⟩, p'.rows, enumerates_afterBuild h.enumerates ?_, h.nets'⟩
  rw [map_fst_netLine, h.nets']
  decide

end NetBuild
