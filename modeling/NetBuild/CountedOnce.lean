import NetBuild.Aggregates
import NetBuild.MergeGroups
import NetBuild.NetsKept

/-!
# Every report counted once

Where every report comes from an emitter of its own, builds made one after another keep the net
table and the history in agreement: the count of a net is the sum of the counts of the reports
that the history records under it, and no report is recorded under two nets.
-/

namespace NetBuild

open Prog (Run)

/-! ## What is promised -/

/-- The count of a net, and 0 where there is none. -/
def Store.nti (s : Store) (n : ℤ) : ℤ := ((s.building n).bind (·.fields.nti)).getD 0

/-- The history records the report under the net. -/
def Records (s : Store) (n : ℤ) (x : Report) : Prop :=
  s.report x.1 = some x.2 ∧ ∃ k row, s.history k = some row ∧ k.1 = n ∧
    histSig (k, row) = reportSig x

/-- Every report the history records is counted once, in the net it is recorded under. -/
structure CountedOnce (s : Store) : Prop where
  reports : ∀ k row, s.history k = some row →
    ∃ x, Records s k.1 x ∧ histSig (k, row) = reportSig x
  rows : ∀ n x, Records s n x → s.building n ≠ none
  counts : ∀ n, ∃ l : List Report, l.Nodup ∧ (∀ x, x ∈ l ↔ Records s n x) ∧
    s.nti n = (l.map fun x => x.2.nti.getD 0).sum
  oneNet : ∀ n m x, Records s n x → Records s m x → n = m

/-- Every report has an `ff_id` of its own. -/
def OwnEmitters (s : Store) : Prop :=
  ∀ x y : Report, s.report x.1 = some x.2 → s.report y.1 = some y.2 → x.1.1 = y.1.1 → x = y

/-- No report has this `ff_id`. -/
def NewEmitter (s : Store) (ffId : ℤ) : Prop := ∀ k, s.report k ≠ none → k.1 ≠ ffId

/-- Reports of new emitters arriving, and builds that complete. -/
def newEmitters : Guard := fun s c o =>
  (∃ out, o = .ok out) ∧
    match c with
    | .insertReport key _ => NewEmitter s key.1
    | .build _ _ => True
    | _ => False

/-- What holds between builds. -/
structure Ledgered (s : Store) : Prop where
  labelled : Labelled s
  own : OwnEmitters s
  counted : CountedOnce s

/-! ## Counts -/

section
variable {ord : ReadOrder} {cfg : MatchConfig} {clock : BuildClock} {s s' : Store}
  {res : BuildResult} {building : List (ℤ × Net)} {history : List (HistKey × Hist)}
  {reports : List Report} {folded : List (Report × Assignment)} {ms : Members}

theorem Store.nti_of_eq_some {n : ℤ} {x : Net} (h : s.building n = some x) :
    s.nti n = x.fields.nti.getD 0 := by
  unfold Store.nti
  rw [h]
  rfl

theorem Store.nti_of_eq_none {n : ℤ} (h : s.building n = none) : s.nti n = 0 := by
  unfold Store.nti
  rw [h]
  rfl

/-- The members loaded have the counts of the rows. -/
theorem BuildRun.netCount_start
    (h : BuildRun ord cfg clock s s' res building history reports folded ms) (n : ℤ) :
    netCount (startMembers building).rows n = s.nti n := by
  rcases hn : s.building n with _ | x
  · rw [Store.nti_of_eq_none hn, netCount_eq_zero]
    rw [rows_startMembers, List.map_map]
    intro hm
    have hsome := h.readBuilding.mem_keys.mp hm
    rw [hn] at hsome
    exact nomatch hsome
  · rw [Store.nti_of_eq_some hn, ← count_startMember building (n, x)]
    exact netCount_eq h.nodup_start (h.mem_start hn)

/-- The rows written have the counts of the members. -/
theorem BuildRun.netCount_end
    (h : BuildRun ord cfg clock s s' res building history reports folded ms) (hs : Labelled s)
    (n : ℤ) : netCount ms.rows n = s'.nti n := by
  by_cases hn : n ∈ ms.rows.map (·.netId)
  · obtain ⟨m, hm, rfl⟩ := List.mem_map.mp hn
    have hrow : s'.building m.netId = some (m.toNet clock.updatedAt) :=
      (h.building_iff _ _).mpr ⟨m, hm, rfl, h.myNetId_ne_none hs m hm, rfl⟩
    rw [Store.nti_of_eq_some hrow, nti_toNet]
    exact netCount_eq h.nodup hm
  · rw [netCount_eq_zero hn, Store.nti_of_eq_none]
    rcases hrow : s'.building n with _ | row
    · rfl
    · obtain ⟨m, hm, rfl, -⟩ := (h.building_iff _ _).mp hrow
      exact absurd (List.mem_map_of_mem hm) hn

/-- A build adds to the count of each net the counts of the reports it routed to it. -/
theorem BuildRun.store_nti
    (h : BuildRun ord cfg clock s s' res building history reports folded ms) (hs : Labelled s)
    (n : ℤ) : s'.nti n = s.nti n + ((received folded n).map fun x => x.2.nti.getD 0).sum := by
  rw [← h.netCount_end hs, ← h.netCount_start, ← routedCount_reportRow reports]
  exact h.routes.netCount rfl n

/-! ## Records -/

/-- A history row has the `ff_id` of the report it has the signature of. -/
theorem ffId_eq_of_histSig_eq {k : HistKey} {row : Hist} {x : Report}
    (h : histSig (k, row) = reportSig x) : k.2.2 = x.1.1 := by
  obtain ⟨⟨ffId, lti⟩, f⟩ := x
  simp only [histSig, reportSig, reportSignature, sigCols, List.map_cons, List.map_nil,
    List.cons.injEq, sigVal, rawHist, rawReport, cassandraRowToDfRow, and_true] at h
  simpa [sigInt, Cell.isna, Cell.pyInt] using h.1

/-- Two reports of the table with one signature are one report. -/
theorem eq_of_reportSig_eq {x y : Report} (hx : s.report x.1 = some x.2)
    (hy : s.report y.1 = some y.2) (h : reportSig x = reportSig y) : x = y := by
  have hkey := key_eq_of_reportSig_eq h
  refine Prod.ext hkey ?_
  rw [hkey, hy] at hx
  exact (Option.some.inj hx).symm

theorem BuildRun.nodup_folded
    (h : BuildRun ord cfg clock s s' res building history reports folded ms) :
    (folded.map Prod.fst).Nodup := by
  rw [h.routed]
  exact (List.Nodup.of_map _ h.readReports.nodup).filter _

/-- With an emitter for each report, the rows a build adds replace no row. -/
theorem BuildRun.appends_of_own
    (h : BuildRun ord cfg clock s s' res building history reports folded ms) (hs : Ledgered s) :
    Appends s s' (folded.map (histRow clock.processedAt)) := by
  have hreport : ∀ p ∈ folded, s.report p.1.1 = some p.1.2 := fun p hp =>
    ((h.mem_folded_iff p.1).mp ⟨p.2, hp⟩).1
  refine ⟨(nodup_histRow_iff _ _).mpr ?_, fun k hk => ?_, h.history_eq⟩
  · refine List.Nodup.of_map Prod.snd ?_
    rw [List.map_map]
    refine List.Nodup.map_on (fun p hp q hq he => ?_) (List.Nodup.of_map _ h.nodup_folded)
    exact List.inj_on_of_nodup_map h.nodup_folded hp hq
      (hs.own p.1 q.1 (hreport p hp) (hreport q hq) he)
  · rw [List.map_map] at hk
    obtain ⟨p, hp, rfl⟩ := List.mem_map.mp hk
    by_contra hne
    obtain ⟨row, hrow⟩ := Option.ne_none_iff_exists'.mp hne
    -- the row there is that of a report of the emitter, which is this report
    obtain ⟨y, hy, hsig⟩ := hs.counted.reports _ row hrow
    have hyp : y = p.1 := hs.own y p.1 hy.1 (hreport p hp) (ffId_eq_of_histSig_eq hsig).symm
    have hunrec := ((h.mem_folded_iff p.1).mp ⟨p.2, hp⟩).2
    rw [recorded_eq_false_iff h.readHistory] at hunrec
    exact hunrec _ row hrow (hyp ▸ hsig)

/-- The history records what it recorded, and the reports routed. -/
theorem BuildRun.records_iff
    (h : BuildRun ord cfg clock s s' res building history reports folded ms) (hs : Ledgered s)
    (n : ℤ) (x : Report) : Records s' n x ↔ Records s n x ∨ x ∈ received folded n := by
  have happ := h.appends_of_own hs
  unfold Records
  rw [h.report_eq, happ.history, mem_received]
  refine ⟨fun hx => ?_, fun hx => ?_⟩
  · obtain ⟨hrep, k, row, hrow, hk, hsig⟩ := hx
    rw [Table.upsertAll_eq_some_iff _ happ.nodup] at hrow
    rcases hrow with hnew | ⟨-, hold⟩
    · obtain ⟨p, hp, he⟩ := List.mem_map.mp hnew
      right
      rw [← he, histSig_histRow] at hsig
      have hxp : p.1 = x := eq_of_reportSig_eq ((h.mem_folded_iff p.1).mp ⟨p.2, hp⟩).1 hrep hsig
      refine ⟨p.2, hxp ▸ hp, ?_⟩
      rw [← hk]
      exact congrArg (fun r : HistKey × Hist => r.1.1) he
    · exact .inl ⟨hrep, k, row, hold, hk, hsig⟩
  · rcases hx with ⟨hrep, k, row, hrow, hk, hsig⟩ | ⟨a, ha, rfl⟩
    · refine ⟨hrep, k, row, (Table.upsertAll_eq_some_iff _ happ.nodup _ _).mpr (.inr ⟨?_, hrow⟩),
        hk, hsig⟩
      intro hmem
      rw [happ.fresh k hmem] at hrow
      exact nomatch hrow
    · refine ⟨((h.mem_folded_iff x).mp ⟨a, ha⟩).1, (histRow clock.processedAt (x, a)).1,
        (histRow clock.processedAt (x, a)).2, ?_, rfl, histSig_histRow ..⟩
      exact Table.upsertAll_of_mem _ happ.nodup (List.mem_map_of_mem ha)

/-- A report that is routed was not recorded. -/
theorem BuildRun.not_records
    (h : BuildRun ord cfg clock s s' res building history reports folded ms) {n m : ℤ}
    {x : Report} (hx : x ∈ received folded n) : ¬ Records s m x := by
  intro hrec
  obtain ⟨a, ha, -⟩ := mem_received.mp hx
  obtain ⟨-, k, row, hrow, -, hsig⟩ := hrec
  have hunrec := ((h.mem_folded_iff x).mp ⟨a, ha⟩).2
  rw [recorded_eq_false_iff h.readHistory] at hunrec
  exact hunrec k row hrow hsig

theorem BuildRun.countedOnce
    (h : BuildRun ord cfg clock s s' res building history reports folded ms) (hs : Ledgered s) :
    CountedOnce s' where
  reports k row hrow := by
    have happ := h.appends_of_own hs
    have hrow' := hrow
    rw [happ.history, Table.upsertAll_eq_some_iff _ happ.nodup] at hrow'
    rcases hrow' with hnew | ⟨-, hold⟩
    · obtain ⟨p, hp, he⟩ := List.mem_map.mp hnew
      have hsig : histSig (k, row) = reportSig p.1 := by rw [← he, histSig_histRow]
      have hnet : p.2.netId = k.1 := congrArg (fun r : HistKey × Hist => r.1.1) he
      exact ⟨p.1, (h.records_iff hs _ _).mpr (.inr (mem_received.mpr ⟨p.2, hp, hnet⟩)), hsig⟩
    · obtain ⟨x, hx, hsig⟩ := hs.counted.reports k row hold
      exact ⟨x, (h.records_iff hs _ _).mpr (.inl hx), hsig⟩
  rows n x hx := by
    rcases (h.records_iff hs n x).mp hx with hx | hx
    · obtain ⟨y, hy⟩ := Option.ne_none_iff_exists'.mp (hs.counted.rows n x hx)
      obtain ⟨l, hl⟩ := Option.ne_none_iff_exists'.mp (hs.labelled n y hy)
      have hkept := h.grows.kept n l ((Store.label_of_eq_some hy).trans hl)
      rw [Ne, ← h.labelled.label_eq_none_iff, hkept]
      exact Option.some_ne_none l
    · obtain ⟨a, ha, rfl⟩ := mem_received.mp hx
      obtain ⟨m, -, -, -, hrow⟩ := h.row_of_folded ha
      rw [hrow]
      exact Option.some_ne_none _
  counts n := by
    obtain ⟨l, hl, hmem, hsum⟩ := hs.counted.counts n
    -- the reports recorded before, and those this build has routed to the net
    refine ⟨l ++ received folded n, ?_, fun x => ?_, ?_⟩
    · refine List.nodup_append.mpr ⟨hl, ?_, fun x hx y hy he => ?_⟩
      · exact h.nodup_folded.sublist (List.filter_sublist.map _)
      · exact h.not_records (he ▸ hy) ((hmem x).mp hx)
    · rw [List.mem_append, hmem, h.records_iff hs]
    · rw [h.store_nti hs.labelled, hsum, List.map_append, List.sum_append]
  oneNet n m x hn hm := by
    rcases (h.records_iff hs n x).mp hn with hn | hn
    · rcases (h.records_iff hs m x).mp hm with hm | hm
      · exact hs.counted.oneNet n m x hn hm
      · exact absurd hn (h.not_records hm)
    · rcases (h.records_iff hs m x).mp hm with hm | hm
      · exact absurd hm (h.not_records hn)
      · obtain ⟨a, ha, rfl⟩ := mem_received.mp hn
        obtain ⟨b, hb, rfl⟩ := mem_received.mp hm
        have hab := List.inj_on_of_nodup_map h.nodup_folded ha hb rfl
        rw [(Prod.mk.inj hab).2]

/-- A build keeps the nets and the history in agreement. -/
theorem BuildRun.ledgered
    (h : BuildRun ord cfg clock s s' res building history reports folded ms) (hs : Ledgered s) :
    Ledgered s' where
  labelled := h.labelled
  own := by
    unfold OwnEmitters
    rw [h.report_eq]
    exact hs.own
  counted := h.countedOnce hs

end

/-! ## Reports arriving -/

section
variable {ord : ReadOrder} {s : Store} {key : ReportKey} {row : Fields}

/-- The store after a report has arrived. -/
def Store.withReport (s : Store) (key : ReportKey) (row : Fields) : Store :=
  { s with report := s.report.upsert key row }

theorem OwnEmitters.insert (h : OwnEmitters s) (hnew : NewEmitter s key.1) :
    OwnEmitters (s.withReport key row) := by
  have hcases : ∀ x : Report, (s.withReport key row).report x.1 = some x.2 →
      x = (key, row) ∨ s.report x.1 = some x.2 ∧ x.1.1 ≠ key.1 := by
    intro x hx
    change s.report.upsert key row x.1 = some x.2 at hx
    rw [Table.upsert_apply] at hx
    split at hx
    · next he => exact .inl (Prod.ext he (Option.some.inj hx).symm)
    · exact .inr ⟨hx, hnew x.1 (by rw [hx]; exact Option.some_ne_none _)⟩
  intro x y hx hy he
  rcases hcases x hx with rfl | ⟨hx, hxk⟩
  · rcases hcases y hy with rfl | ⟨-, hyk⟩
    · rfl
    · exact absurd he.symm hyk
  · rcases hcases y hy with rfl | ⟨hy, -⟩
    · exact absurd he hxk
    · exact h x y hx hy he

/-- A new report is recorded nowhere. -/
theorem CountedOnce.records_insert_iff (h : CountedOnce s) (hnew : NewEmitter s key.1) (n : ℤ)
    (x : Report) : Records (s.withReport key row) n x ↔ Records s n x := by
  unfold Records
  show (s.report.upsert key row x.1 = some x.2 ∧ _) ↔ _
  rw [Table.upsert_apply]
  by_cases hx : x.1 = key
  · -- a row with its signature would be that of an older report of the emitter
    have hno : ∀ k hist, s.history k = some hist → histSig (k, hist) ≠ reportSig x := by
      intro k hist hk hsig
      obtain ⟨y, hy, hysig⟩ := h.reports k hist hk
      refine hnew y.1 (by rw [hy.1]; exact Option.some_ne_none _) ?_
      rw [← ffId_eq_of_histSig_eq hysig, ffId_eq_of_histSig_eq hsig, hx]
    exact iff_of_false (fun ⟨_, k, hist, hk, _, hsig⟩ => hno k hist hk hsig)
      fun ⟨_, k, hist, hk, _, hsig⟩ => hno k hist hk hsig
  · rw [if_neg hx]
    exact Iff.rfl

theorem Ledgered.insert (h : Ledgered s) (hnew : NewEmitter s key.1) :
    Ledgered (s.withReport key row) := by
  have hrec : ∀ n x, Records (s.withReport key row) n x ↔ Records s n x :=
    h.counted.records_insert_iff hnew
  refine ⟨h.labelled, h.own.insert hnew, ⟨fun k hist hk => ?_, fun n x hx => ?_, fun n => ?_,
    fun n m x hn hm => ?_⟩⟩
  · obtain ⟨x, hx, hsig⟩ := h.counted.reports k hist hk
    exact ⟨x, (hrec _ _).mpr hx, hsig⟩
  · exact h.counted.rows n x ((hrec _ _).mp hx)
  · obtain ⟨l, hl, hmem, hsum⟩ := h.counted.counts n
    exact ⟨l, hl, fun x => (hmem x).trans (hrec n x).symm, hsum⟩
  · exact h.counted.oneNet n m x ((hrec _ _).mp hn) ((hrec _ _).mp hm)

theorem ledgered_empty : Ledgered .empty :=
  ⟨fun _ _ hx => (nomatch hx), fun _ _ hx => (nomatch hx), fun _ _ hk => (nomatch hk),
    fun _ _ hx => (nomatch hx.1), fun _ => ⟨[], List.nodup_nil, fun _ => ⟨fun hx => (nomatch hx),
      fun hx => (nomatch hx.1)⟩, rfl⟩, fun _ _ _ hx => (nomatch hx.1)⟩

/-- What holds between builds holds of every store they reach. -/
theorem Reached.ledgered (h : Reached ord newEmitters .empty s) : Ledgered s := by
  refine h.invariant ledgered_empty fun t c o t' _ ht hG hrun => ?_
  obtain ⟨⟨out, rfl⟩, hc⟩ := hG
  rcases c with ⟨key, row⟩ | ⟨cfg, clock⟩ | _ | _
  · obtain ⟨rfl, -⟩ := run_insertReport_iff.mp hrun
    exact ht.insert hc
  · obtain ⟨res, hbuild, -⟩ := run_build_ok_iff.mp hrun
    obtain ⟨_, _, _, _, _, hb⟩ := run_runPipeline hbuild
    exact hb.ledgered ht
  · exact hc.elim
  · exact hc.elim

end

end NetBuild
