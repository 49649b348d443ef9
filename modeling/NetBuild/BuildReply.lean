import NetBuild.BuildLedger
import NetBuild.SheetLayouts

/-!
# The reply to a build

A build writes the nets back row by row and returns them as records of their own making. Whatever it
read, the records it returns are the rows of the table it leaves, in the order of their ids.
-/

namespace NetBuild

open Prog (Run run_ret_iff run_raise_iff)

/-! ## Records and rows -/

/-- The row of a record. -/
def NetJson.toRow (now : Time) (j : NetJson) : ℤ × Net :=
  (j.netId, ⟨some j.myNetId, j.data.ffId, j.data.lti, j.data.fields, some now⟩)

/-- Where the records can be made, so can the rows. -/
theorem hierToCassandraRows_of_json {now : Time} {hier : List HierRow} {nets : List NetJson}
    (h : hierarchyToJson hier = .ok nets) :
    hierToCassandraRows now hier = .ok (nets.map (NetJson.toRow now)) := by
  unfold hierarchyToJson at h
  unfold hierToCassandraRows
  rw [Except.mapM_eq_ok_iff] at h ⊢
  rw [List.forall₂_map_right_iff]
  refine h.imp fun r j hj => ?_
  obtain ⟨data, hdata, h₁⟩ := Except.bind_eq_ok_iff.mp hj
  obtain ⟨my, hmy, h₂⟩ := Except.bind_eq_ok_iff.mp h₁
  obtain ⟨n, hn, h₃⟩ := Except.bind_eq_ok_iff.mp h₂
  rw [hdata, hmy, hn, ← Except.ok.inj h₃]
  rfl

/-- The records kept are in the order of their ids. -/
theorem pairwise_hierMembers (sv : SortValues) (rows : List Member) :
    (hierMembers sv rows).Pairwise fun r r' => toLex (r.1, r.2.1) < toLex (r'.1, r'.2.1) := by
  unfold hierMembers
  rw [List.pairwise_flatMap]
  refine ⟨fun my _ => ?_, (pairwise_groupKeys _).imp fun hlt r hr r' hr' => ?_⟩
  · rw [List.pairwise_filterMap]
    refine (pairwise_groupKeys _).imp fun hlt r hr r' hr' => ?_
    obtain ⟨_, -, rfl⟩ := Option.map_eq_some_iff.mp hr
    obtain ⟨_, -, rfl⟩ := Option.map_eq_some_iff.mp hr'
    exact Prod.Lex.toLex_lt_toLex.mpr (.inr ⟨rfl, hlt⟩)
  · obtain ⟨n, -, hx⟩ := List.mem_filterMap.mp hr
    obtain ⟨_, -, rfl⟩ := Option.map_eq_some_iff.mp hx
    obtain ⟨n', -, hx'⟩ := List.mem_filterMap.mp hr'
    obtain ⟨_, -, rfl⟩ := Option.map_eq_some_iff.mp hx'
    exact Prod.Lex.toLex_lt_toLex.mpr (.inl hlt)

/-! ## The run -/

variable {ord : ReadOrder} {cfg : MatchConfig} {clock : BuildClock} {s s' : Store}
  {res : BuildResult}

/-- A completed build leaves the rows of the records it returns. -/
theorem run_runPipeline_nets (h : Run (exec ord) s (runPipeline cfg clock) s' (.ok res)) :
    ∃ rows, (rows.map (·.netId)).Nodup ∧
      res.nets.map (NetJson.toRow clock.updatedAt) = netRows clock rows ∧
        ∀ n x, s'.building n = some x ↔ (n, x) ∈ netRows clock rows := by
  unfold runPipeline at h
  rw [Prog.request_bind] at h
  obtain ⟨building, hb, h₁⟩ := run_request_iff.mp h
  rw [Prog.request_bind] at h₁
  obtain ⟨history, hh, h₂⟩ := run_request_iff.mp h₁
  rw [Prog.request_bind] at h₂
  obtain ⟨reports, hr, h₃⟩ := run_request_iff.mp h₂
  have hfin : Finishes cfg clock building history reports _ := finishes hr.nodup
  generalize finishPipeline cfg clock building (loadHistory history) (fetchNewReports reports) = p
    at h₃ hfin
  rcases hfin with ⟨rfl, rfl⟩ | e | @⟨folded, st, hst, hinv⟩
  · obtain ⟨rfl, hres⟩ := run_ret_iff.mp h₃
    have hempty : s'.building = Table.empty := Table.Enumerates.eq_empty hb.enumerates
    refine ⟨[], List.nodup_nil, ?_, fun n x => ?_⟩
    · rw [Except.ok.inj hres, netRows_nil]
      rfl
    · rw [hempty, netRows_nil]
      exact ⟨fun h => (nomatch h), fun h => absurd h List.not_mem_nil⟩
  · exact nomatch (run_raise_iff.mp h₃).2
  · obtain ⟨added, nets, -, hnets, rfl, rfl⟩ := run_writeBack.mp h₃
    have hrun' : BuildRun ord cfg clock s (s.writtenBack clock building st.members.rows folded)
        _ _ _ _ _ _ := hinv.buildRun hb hh hr hst clock.generatedAt nets
    refine ⟨st.members.rows, hrun'.nodup, ?_, fun n x => ?_⟩
    · exact hierToCassandraRows_eq_ok (hierToCassandraRows_of_json hnets)
    · rw [mem_netRows hrun'.nodup, ← hrun'.building_iff]
      exact Iff.rfl

/-- Whatever a completed build read, the records it returns are in the order of their ids, and the
table it leaves has their rows and no others. -/
theorem build_reply_is_table (h : Run (exec ord) s (runPipeline cfg clock) s' (.ok res)) :
    (res.nets.Pairwise fun j j' => toLex (j.myNetId, j.netId) < toLex (j'.myNetId, j'.netId)) ∧
      ∀ n x, s'.building n = some x ↔ ∃ j ∈ res.nets, j.toRow clock.updatedAt = (n, x) := by
  obtain ⟨rows, hn, hnets, hrows⟩ := run_runPipeline_nets h
  refine ⟨?_, fun n x => ?_⟩
  · -- the ids of the records are those of the members kept
    have hids := congrArg (List.map fun r : ℤ × Net => (r.2.myNetId.getD 0, r.1)) hnets
    unfold netRows at hids
    rw [List.map_map, List.map_map] at hids
    have hsorted := (pairwise_hierMembers clock.sortValues
        (dedupRdfsPerNet clock.sortValues rows)).map
      (fun r : ℤ × ℤ × Member => (r.1, r.2.1)) (S := fun a b => toLex a < toLex b) fun _ _ h => h
    exact List.pairwise_map.mp (hids.symm ▸ hsorted : (res.nets.map _).Pairwise _)
  · rw [hrows, ← hnets, List.mem_map]

/-! ## A store with nets -/

/-- A net of a station. -/
def netAt (my : Option ℤ) (rdfs : Text) : Net where
  myNetId := my
  ffId := some 7
  lti := some (.of2024 3 1 (by decide))
  fields := .plain (.of2024 3 1 (by decide)) 2 500 rdfs
  updatedAt := none

/-- Three nets, the second without a label. -/
def threeNets : List (ℤ × Net) :=
  [(100001, netAt (some 2) ['B']), (100002, netAt none ['C']), (100003, netAt (some 1) ['D'])]

/-- A build over them and one report of another station: the records are in the order of their
labels, and the net without one is in neither the reply nor the table. -/
theorem build_reply_is_table_threeNets :
    ∃ s' res, Run (exec .any) (.ofNets threeNets loneReport) (runPipeline {} (.still 1)) s'
        (.ok res) ∧
      res.nets.map (fun j => (j.myNetId, j.netId)) = [(1, 100003), (2, 100001), (3, 100004)] ∧
        (∀ n x, s'.building n = some x ↔ ∃ j ∈ res.nets, j.toRow 1 = (n, x)) ∧
          s'.building 100002 = none := by
  obtain ⟨p, hp, hids⟩ : ∃ p, buildPlan {} (.still 1) threeNets [] loneReport = .ok p ∧
      p.nets.map (fun j => (j.myNetId, j.netId)) = [(1, 100003), (2, 100001), (3, 100004)] :=
    Except.map_eq_ok_iff.mp (by decide +kernel)
  have hrun : Run (exec .any) (.ofNets threeNets loneReport) (runPipeline {} (.still 1)) _
      (.ok ⟨1, p.tally, p.nets⟩) :=
    run_of_buildPlan (lists_ofNets (by decide)) lists_empty (lists_ofReports (by decide))
      (by decide) hp
  have hreply := build_reply_is_table hrun
  refine ⟨_, _, hrun, hids, hreply.2, ?_⟩
  by_contra hne
  obtain ⟨x, hx⟩ := Option.ne_none_iff_exists'.mp hne
  obtain ⟨j, hj, he⟩ := (hreply.2 100002 x).mp hx
  have hmem : (j.myNetId, j.netId) ∈ p.nets.map fun j => (j.myNetId, j.netId) :=
    List.mem_map_of_mem hj
  have hnet : j.netId = 100002 := congrArg Prod.fst he
  rw [hids, hnet] at hmem
  simp at hmem

end NetBuild
