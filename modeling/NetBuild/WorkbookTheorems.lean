import NetBuild.BuildRun
import NetBuild.Workbook

/-!
# What a batch does to a workbook

`processReports_cases` says everything a batch that is processed has done: which reports were
skipped and how the others were routed (`Ingests`), and the sheets that were written. `loaded_iff`
says what the next batch loads from them.
-/

namespace NetBuild

/-! ## Ids and cells -/

theorem asInt_fmtMyNet (n : ℤ) : asInt (fmtMyNet n) = some n := by
  unfold asInt fmtMyNet
  rw [floatText_zfill]
  exact congrArg some (Cell.truncate_intCast n)

theorem asInt_fmtSystemNet (n : ℤ) : asInt (fmtSystemNet n) = some n := by
  have h0 := floatText_zfill 0 n
  rw [zfill_zero] at h0
  unfold asInt fmtSystemNet
  rw [h0]
  exact congrArg some (Cell.truncate_intCast n)

@[simp] theorem Cell.val_readBack (c : Cell) : c.readBack.val = c.val := by
  rcases c <;> rfl

theorem Row.readBack_agrees (row : Row) : row.readBack.Agrees row := fun c => (row c).val_readBack

theorem Cell.readBack_ne_nat (c : Cell) : c.readBack ≠ .nat := by
  rcases c <;> exact fun h => nomatch h

theorem Cell.eq_ts_of_val {c : Cell} {t : Timestamp} (h : c.val = some (.ts t)) : c = .ts t := by
  rcases c with _ | _ | _ | _ | _ | _ | t' <;> simp_all [Cell.val]

/-! ## Validation -/

/-- What passes has reports and the required columns. -/
theorem validateReports_eq_ok {df : Frame} (h : validateReports df = .ok ⟨⟩) :
    df.rows ≠ [] ∧ ∀ c ∈ requiredCols.map Prod.fst, c ∈ df.cols := by
  unfold validateReports at h
  split at h
  · exact nomatch h
  · next hrows =>
    refine ⟨hrows, fun c hc => ?_⟩
    dsimp only at h
    split at h
    · exact nomatch h
    · next hmissing =>
      obtain ⟨p, hp, rfl⟩ := List.mem_map.mp hc
      by_contra hcol
      exact hmissing (List.ne_nil_of_mem (List.mem_filter.mpr ⟨hp, decide_eq_true hcol⟩))

/-! ## The reports of a batch -/

/-- A row under some columns only. -/
def Row.only (cols : List Col) (row : Row) : Row := fun c => if c ∈ cols then row c else .null

theorem Row.only_of_mem {cols : List Col} {row : Row} {c : Col} (h : c ∈ cols) :
    row.only cols c = row c := if_pos h

theorem Row.only_of_notMem {cols : List Col} {row : Row} {c : Col} (h : c ∉ cols) :
    row.only cols c = .null := if_neg h

/-- The reports of a batch. -/
def Frame.reports (df : Frame) : List Row := df.rows.map (Row.only df.cols)

/-- The net a member of the results names, `none` where the report was skipped. -/
def Result.net : Result → Option ℤ
  | .skipped _ => none
  | .routed _ _ netId => some netId

/-! ## The loop over the reports -/

/-- The report has the signature of a logged one, or of one of the reports `done` before it. -/
def FoldEnv.Seen (env : FoldEnv) (seen : List (List SigVal)) (done : List (Row × Option Assignment))
    (rep : Row) : Prop :=
  env.sigCols ≠ [] ∧ (reportSignature rep env.sigCols ∈ seen ∨
    ∃ p ∈ done, reportSignature p.1 env.sigCols = reportSignature rep env.sigCols)

/-- The members after the reports `done` were skipped, or routed each as assigned. -/
inductive Ingests (env : FoldEnv) (seen : List (List SigVal)) (ms : Members) :
    List (Row × Option Assignment) → Members → Prop
  | start : Ingests env seen ms [] ms
  | skip {done : List (Row × Option Assignment)} {ms' : Members} {rep : Row}
      (before : Ingests env seen ms done ms') (known : env.Seen seen done rep) :
      Ingests env seen ms (done ++ [(rep, none)]) ms'
  | route {done : List (Row × Option Assignment)} {ms' ms'' : Members} {rep : Row}
      {a : Assignment} (before : Ingests env seen ms done ms') (unknown : ¬ env.Seen seen done rep)
      (last : routeReport .processReports env.cfg ms' (env.dict rep) = .ok (ms'', a)) :
      Ingests env seen ms (done ++ [(rep, some a)]) ms''

/-- The log entry of a routed report. -/
def FoldEnv.entry (env : FoldEnv) (rep : Row) (a : Assignment) : Entry where
  cells := rep.only env.newCols
  action := a.action
  myNetId := a.myNetId
  netId := a.netId
  collapsedFfId := if a.action = .collapsed then a.survivorFfId else .null
  wasCollapsed := a.action = .collapsed

def FoldEnv.entries (env : FoldEnv) (done : List (Row × Option Assignment)) : List Entry :=
  done.filterMap fun p => p.2.map (env.entry p.1)

/-- The state of the loop after the reports `pre`. -/
structure IngestInv (env : FoldEnv) (seen : List (List SigVal)) (ms : Members) (pre : List Row)
    (done : List (Row × Option Assignment)) (st : IngestState) : Prop where
  ingests : Ingests env seen ms done st.members
  reports : done.map (·.1) = pre
  seen : ∀ s, s ∈ st.seen ↔ s ∈ seen ∨
    env.sigCols ≠ [] ∧ ∃ p ∈ done, reportSignature p.1 env.sigCols = s
  nets : st.results.map Result.net = done.map (·.2.map (·.netId))
  logRows : st.logRows = env.entries done

section
variable {env : FoldEnv} {seen : List (List SigVal)} {ms : Members} {pre : List Row}
  {done : List (Row × Option Assignment)} {st st' : IngestState} {rep : Row} {i : ℕ}

theorem IngestInv.isIngested_iff (h : IngestInv env seen ms pre done st) :
    env.isIngested st.seen rep = true ↔ env.Seen seen done rep := by
  unfold FoldEnv.isIngested FoldEnv.Seen
  rw [decide_eq_true_iff, h.seen]
  exact and_congr_right fun hs => or_congr_right (and_iff_right hs)

/-- One round: the report is skipped or routed. -/
theorem IngestInv.step (h : IngestInv env seen ms pre done st)
    (hstep : ingestReport env st rep i = .ok st') :
    ∃ a, IngestInv env seen ms (pre ++ [rep]) (done ++ [(rep, a)]) st' := by
  have hreports : ∀ a : Option Assignment, (done ++ [(rep, a)]).map (·.1) = pre ++ [rep] := by
    intro a
    rw [List.map_append, h.reports]
    rfl
  have hsig : ∀ (a : Option Assignment) (s : List SigVal),
      (∃ p ∈ done ++ [(rep, a)], reportSignature p.1 env.sigCols = s) ↔
        (∃ p ∈ done, reportSignature p.1 env.sigCols = s) ∨
          reportSignature rep env.sigCols = s := by
    intro a s
    simp only [List.mem_append, List.mem_singleton, or_and_right, exists_or, exists_eq_left]
  unfold ingestReport at hstep
  dsimp only at hstep
  split at hstep
  · next hseen =>
    have hknown := h.isIngested_iff.mp hseen
    obtain rfl := Except.ok.inj hstep
    refine ⟨none, .skip h.ingests hknown, hreports none, fun s => ?_, ?_, ?_⟩
    · rw [h.seen, hsig]
      refine ⟨fun hs => hs.imp_right fun hs => ⟨hs.1, .inl hs.2⟩, fun hs => ?_⟩
      -- the signature of a skipped report was there before
      rcases hs with hs | ⟨hne, hs | rfl⟩
      · exact .inl hs
      · exact .inr ⟨hne, hs⟩
      · exact hknown.2.imp_right fun hp => ⟨hne, hp⟩
    · show (st.results ++ [_]).map Result.net = _
      rw [List.map_append, List.map_append, h.nets]
      rfl
    · show st.logRows = _
      unfold FoldEnv.entries
      rw [List.filterMap_append, h.logRows]
      exact (List.append_nil _).symm
  · next hseen =>
    have hunknown := fun hk => hseen (h.isIngested_iff.mpr hk)
    obtain ⟨⟨ms', a⟩, ha, hstep⟩ := Except.bind_eq_ok_iff.mp hstep
    obtain rfl := Except.ok.inj hstep
    refine ⟨some a, .route h.ingests hunknown ha, hreports (some a), fun s => ?_, ?_, ?_⟩
    · rw [hsig]
      show s ∈ (if env.sigCols = [] then st.seen else _) ↔ _
      by_cases hne : env.sigCols = []
      · rw [if_pos hne, h.seen]
        simp [hne]
      · have hcomm : s = reportSignature rep env.sigCols ↔ reportSignature rep env.sigCols = s :=
          eq_comm
        rw [if_neg hne, List.mem_cons, h.seen, hcomm, and_iff_right hne, and_iff_right hne,
          or_comm, or_assoc]
    · show (st.results ++ [_]).map Result.net = _
      rw [List.map_append, List.map_append, h.nets]
      rfl
    · show st.logRows ++ [_] = _
      unfold FoldEnv.entries
      rw [List.filterMap_append, h.logRows]
      rfl

/-- The loop with all its rounds. -/
theorem foldlM_ingestReport {rows : List Row}
    (h : rows.zipIdx.foldlM (fun st r => ingestReport env st r.1 r.2) st = .ok st')
    (hst : st.results = []) (hlog : st.logRows = []) :
    ∃ done, IngestInv env st.seen st.members rows done st' := by
  have hall : ∃ done, IngestInv env st.seen st.members (rows.zipIdx.map (·.1)) done st' := by
    refine Except.foldlM_invariant
      (P := fun pre s => ∃ done, IngestInv env st.seen st.members (pre.map (·.1)) done s)
      ?_ h ⟨[], .start, rfl, fun s => by simp, by rw [hst]; rfl, hlog⟩
    intro pre a post s s' _ hP hstep
    obtain ⟨done, hP⟩ := hP
    obtain ⟨p, hP⟩ := hP.step hstep
    rw [List.map_append]
    exact ⟨_, hP⟩
  rwa [List.zipIdx_map_fst] at hall

end

/-! ## A batch -/

/-- What a batch that was processed has done: the reports `done` of it were skipped or routed, the
members were then `ms`, and the sheets were written from these. -/
structure BatchRun (sv : SortValues) (cfg : MatchConfig) (wb : Option Workbook) (newDf : Frame)
    (wb' : Workbook) (results : List Result) (done : List (Row × Option Assignment))
    (ms : Members) : Prop where
  valid : validateReports newDf = .ok ⟨⟩
  reports : done.map (·.1) = newDf.rows
  ingests : Ingests (ingestStart cfg wb newDf).1 (ingestStart cfg wb newDf).2.seen
    (ingestStart cfg wb newDf).2.members done ms
  nets : results.map Result.net = done.map (·.2.map (·.netId))
  dataCols : wb'.dataCols = (ingestStart cfg wb newDf).1.dataCols
  sheet : wb'.nets = buildHierarchical sv (dedupRdfsPerNet sv ms.rows) wb'.dataCols
  log : (wb'.logCols, wb'.log)
    = fullLog wb newDf.cols ((ingestStart cfg wb newDf).1.entries done)

theorem processReports_cases {sv : SortValues} {cfg : MatchConfig} {wb : Option Workbook}
    {newDf : Frame} {wb' : Workbook} {results : List Result} {n : ℕ}
    (h : processReports sv cfg wb newDf = .ok (wb', results, n)) :
    ∃ done ms, BatchRun sv cfg wb newDf wb' results done ms := by
  unfold processReports at h
  obtain ⟨⟨⟩, hvalid, h⟩ := Except.bind_eq_ok_iff.mp h
  obtain ⟨st, hst, h⟩ := Except.bind_eq_ok_iff.mp h
  obtain ⟨hwb, hrest⟩ := Prod.mk.inj (Except.ok.inj h)
  obtain ⟨rfl, -⟩ := Prod.mk.inj hrest
  obtain ⟨done, hinv⟩ := foldlM_ingestReport hst rfl rfl
  subst hwb
  exact ⟨done, st.members, hvalid, hinv.reports, hinv.ingests, hinv.nets, rfl, rfl,
    congrArg (fullLog wb newDf.cols) hinv.logRows⟩

/-! ## The members of a workbook -/

/-- Members that a sheet with the data columns keeps: one record for each net, with both its ids,
and no time as a timestamp. -/
structure Sheetable (dataCols : List Col) (ms : Members) : Prop where
  nodup : (ms.rows.map (·.netId)).Nodup
  labelled : ∀ m ∈ ms.rows, ∃ my, m.myNetId = some my
  cols : dataCols ⊆ ms.cols
  dtype : ∀ c : FoldCol, c ≠ .nti → c.col ∈ dataCols → ms.dtype c ≠ .datetime64
  cells : ∀ c : FoldCol, c ≠ .nti → c.col ∈ dataCols → ∀ m ∈ ms.rows, ∀ t, m.cells c.col ≠ .ts t

section
variable {cfg : MatchConfig} {ms ms' : Members} {d : Dict} {a : Assignment} {dataCols : List Col}

theorem sheetable_empty (dataCols : List Col) : Sheetable dataCols (.empty dataCols) where
  nodup := List.nodup_nil
  labelled _ hm := absurd hm List.not_mem_nil
  cols := List.Subset.refl _
  dtype _ _ _ := nofun
  cells _ _ _ _ hm := absurd hm List.not_mem_nil

/-- The column is none of times after a record was appended if it was none before. -/
theorem dtype_append_ne_datetime64 {c : FoldCol} {keys : List Col} {m : Member}
    (hc : c.col ∈ ms.cols) (h : ms.dtype c ≠ .datetime64) :
    (ms.append keys m).dtype c ≠ .datetime64 := by
  show (if c.col ∉ keys then _ else if c.col ∈ ms.cols then _ else _) ≠ _
  rw [if_pos hc]
  split
  · exact h
  · exact fun he => h (concat_eq_datetime64_iff.mp he).1

theorem normalizeTime_ne_ts (c : Cell) (t : Timestamp) : normalizeTime c ≠ .ts t := by
  unfold normalizeTime
  rcases h : c.toDt with _ | u
  · -- a timestamp is always read
    show c ≠ .ts t
    intro hc
    rw [hc] at h
    exact nomatch h
  · exact fun h => nomatch h

/-- A time that is folded is stored as text where the column is no `datetime64`. -/
theorem getD_setDate_ne_ts {o : Option Timestamp} {c : Cell} {t : Timestamp} (h : c ≠ .ts t) :
    (o.map (setDate false)).getD c ≠ .ts t := by
  rcases o with _ | u
  · exact h
  · exact fun h => nomatch h

/-- The records after a fold are the old ones and the updated one. -/
theorem forall_mem_set {P : Member → Prop} {l : List Member} {i : ℕ} {m : Member}
    (hl : ∀ x ∈ l, P x) (hm : P m) : ∀ x ∈ l.set i m, P x := by
  intro x hx
  rcases List.mem_or_eq_of_mem_set hx with hx | rfl
  · exact hl x hx
  · exact hm

theorem Sheetable.route (h : Sheetable dataCols ms)
    (hr : routeReport .processReports cfg ms d = .ok (ms', a)) : Sheetable dataCols ms' := by
  rcases routeReport_eq_ok_iff.mp hr with
    ⟨-, rfl, rfl⟩ | ⟨old, i, nti, my, hnew, -, hmy, rfl, rfl⟩
  -- a net is spawned: its record comes last
  · have hrows : ∀ {P : Member → Prop}, (∀ m ∈ ms.rows, P m) →
        P (newMember ⟨nextMyNetId ms.rows, nextNetId ms.rows, .new, .null⟩
          (Caller.processReports.record d.cells)) →
        ∀ m ∈ ms.rows ++ [newMember ⟨nextMyNetId ms.rows, nextNetId ms.rows, .new, .null⟩
          (Caller.processReports.record d.cells)], P m := by
      intro P hP hnew m hm
      rcases List.mem_append.mp hm with hm | hm
      · exact hP m hm
      · rw [List.mem_singleton.mp hm]
        exact hnew
    refine ⟨?_, hrows h.labelled ⟨_, rfl⟩, fun c hc => List.mem_append_left _ (h.cols hc),
      fun c hc hcol => dtype_append_ne_datetime64 (h.cols hcol) (h.dtype c hc hcol),
      fun c hc hcol => hrows (h.cells c hc hcol) fun t => ?_⟩
    · show ((ms.rows ++ [_]).map fun m : Member => m.netId).Nodup
      rw [List.map_append]
      refine List.Nodup.append h.nodup (List.nodup_singleton _) fun n hn hn' => ?_
      obtain ⟨m, hm, rfl⟩ := List.mem_map.mp hn
      exact (netId_lt_nextNetId hm).ne (List.mem_singleton.mp hn')
    · cases c with
      | fti => exact normalizeTime_ne_ts _ t
      | lti => exact normalizeTime_ne_ts _ t
      | nti => exact absurd rfl hc
  -- a net absorbs the report: its record is replaced in its place
  · obtain ⟨-, -, hget, -, -⟩ := newest_eq_some hnew
    have hold := List.mem_of_getElem? hget
    obtain ⟨pre, post, hrows, hset⟩ := List.exists_set_eq hget
    refine ⟨?_, forall_mem_set h.labelled ⟨my, hmy⟩,
      fun c hc => List.mem_append_left _ (h.cols hc), h.dtype,
      fun c hc hcol => forall_mem_set (h.cells c hc hcol) fun t => ?_⟩
    · show ((ms.rows.set i _).map fun m : Member => m.netId).Nodup
      have hids := h.nodup
      rw [hset]
      rw [hrows] at hids
      simpa using hids
    · cases c with
      | fti =>
        show (collapsedMember ms old d.cells nti).cells .fti ≠ _
        rw [fti_collapsedMember,
          show ms.ftiDatetime = false from decide_eq_false (h.dtype _ hc hcol)]
        exact getD_setDate_ne_ts (h.cells _ hc hcol old hold t)
      | lti =>
        show (collapsedMember ms old d.cells nti).cells .lti ≠ _
        rw [lti_collapsedMember,
          show ms.ltiDatetime = false from decide_eq_false (h.dtype _ hc hcol)]
        exact getD_setDate_ne_ts (h.cells _ hc hcol old hold t)
      | nti => exact absurd rfl hc

theorem Sheetable.ingests {env : FoldEnv} {seen : List (List SigVal)}
    {done : List (Row × Option Assignment)} (h : Sheetable dataCols ms)
    (hi : Ingests env seen ms done ms') : Sheetable dataCols ms' := by
  induction hi with
  | start => exact h
  | skip _ _ ih => exact ih
  | route _ _ last ih => exact ih.route last

end

/-! ## Loading a sheet that was written -/

/-- `loaded` has the records of `ms` as a sheet with the data columns gives them back. -/
structure Reloads (dataCols : List Col) (ms loaded : Members) (f : Member → Member) : Prop where
  netId : ∀ m, (f m).netId = m.netId
  myNetId : ∀ m, (f m).myNetId = m.myNetId
  cells : ∀ m, (f m).cells.Agrees (m.cells.only dataCols)
  mem_iff : ∀ m', m' ∈ loaded.rows ↔ ∃ m ∈ ms.rows, f m = m'

theorem loadNets_rows {sv : SortValues} {wb : Workbook} {ms : List Member}
    (h : wb.nets = buildHierarchical sv ms wb.dataCols) :
    ∃ g : Row → Row, (∀ row, (g row).Agrees (row.only wb.dataCols)) ∧
      (∀ row c, g row c ≠ .nat) ∧
      wb.nets.map (·.cells.readBack) = (hierMembers sv ms).map (fun (_, _, m) => g m.cells) ∧
      (loadNets (some wb)).1.rows = (hierMembers sv ms).map fun (my, n, m) =>
        { netId := n, myNetId := some my, cells := g m.cells } := by
  obtain ⟨frame, hframe⟩ := buildHierarchical_eq sv ms wb.dataCols
  refine ⟨fun row => (storeRow frame (row.only wb.dataCols)).readBack, fun row c => ?_,
    fun row c => Cell.readBack_ne_nat _, ?_, ?_⟩
  · exact ((Row.readBack_agrees _ c).trans (storeRow_agrees frame _ c))
  · rw [h, hframe, List.map_map]
    rfl
  · show wb.nets.filterMap _ = _
    rw [h, hframe, List.filterMap_map, ← List.filterMap_eq_map]
    refine List.filterMap_congr fun x _ => ?_
    obtain ⟨my, n, m⟩ := x
    show ((asInt (fmtSystemNet n)).map fun netId =>
      ({ netId, myNetId := asInt (fmtMyNet my), cells := _ } : Member)) = _
    rw [asInt_fmtSystemNet, asInt_fmtMyNet]
    rfl

/-- A column without a timestamp is no `datetime64`. -/
theorem inferDtype_ne_datetime64 {l : List Cell} (h : ∀ c ∈ l, c.isTime = false) :
    inferDtype l ≠ .datetime64 := by
  have hany : l.any Cell.isTime = false := by
    rw [List.any_eq_false]
    exact fun c hc => Bool.eq_false_iff.mp (h c hc)
  unfold inferDtype
  rw [hany, Bool.false_and]
  split
  · exact fun h => nomatch h
  · rw [if_neg Bool.false_ne_true]
    split
    · exact fun h => nomatch h
    · split <;> exact fun h => nomatch h

/-- What was written is loaded again. -/
theorem Sheetable.load {sv : SortValues} {ms : Members} {wb : Workbook}
    (h : Sheetable wb.dataCols ms)
    (hw : wb.nets = buildHierarchical sv (dedupRdfsPerNet sv ms.rows) wb.dataCols) :
    Sheetable wb.dataCols (loadNets (some wb)).1 ∧
      ∃ f, Reloads wb.dataCols ms (loadNets (some wb)).1 f := by
  obtain ⟨g, hg, hnat, hcells, hrows⟩ := loadNets_rows hw
  have hperm := dedupRdfsPerNet_perm sv h.nodup
  have hnodup : ((dedupRdfsPerNet sv ms.rows).map (·.netId)).Nodup :=
    (hperm.map _).nodup_iff.mpr h.nodup
  have hre : Reloads wb.dataCols ms (loadNets (some wb)).1
      fun m => { netId := m.netId, myNetId := m.myNetId, cells := g m.cells } := by
    refine ⟨fun _ => rfl, fun _ => rfl, fun m => hg m.cells, fun m' => ?_⟩
    rw [hrows, List.mem_map]
    refine ⟨fun hm => ?_, fun hm => ?_⟩
    · obtain ⟨⟨my, n, m⟩, hx, rfl⟩ := hm
      obtain ⟨hmem, rfl, hmy⟩ := (mem_hierMembers hnodup).mp hx
      refine ⟨m, hperm.mem_iff.mp hmem, ?_⟩
      rw [hmy]
    · obtain ⟨m, hm, rfl⟩ := hm
      obtain ⟨my, hmy⟩ := h.labelled m hm
      refine ⟨(my, m.netId, m), (mem_hierMembers hnodup).mpr ⟨hperm.mem_iff.mpr hm, rfl, hmy⟩, ?_⟩
      dsimp only
      rw [hmy]
  -- no time of the sheet is a timestamp, since none of the members is
  have hts : ∀ c : FoldCol, c ≠ .nti → c.col ∈ wb.dataCols → ∀ m ∈ ms.rows, ∀ t,
      g m.cells c.col ≠ .ts t := by
    intro c hc hcol m hm t ht
    have hval := hg m.cells c.col
    rw [ht, Row.only_of_mem hcol] at hval
    exact h.cells c hc hcol m hm t (Cell.eq_ts_of_val hval.symm)
  refine ⟨⟨?_, ?_, List.Subset.refl _, ?_, ?_⟩, _, hre⟩
  · rw [hrows, List.map_map]
    exact nodup_hierMembers hnodup
  · intro m' hm'
    obtain ⟨m, hm, rfl⟩ := (hre.mem_iff m').mp hm'
    exact h.labelled m hm
  · intro c hc hcol
    show (if c.col ∈ wb.dataCols then inferDtype _ else _) ≠ _
    rw [if_pos hcol, hcells, List.map_map]
    apply inferDtype_ne_datetime64
    intro x hx
    obtain ⟨⟨my, n, m⟩, hm, rfl⟩ := List.mem_map.mp hx
    obtain ⟨hmem, -, -⟩ := (mem_hierMembers hnodup).mp hm
    have hne := hts c hc hcol m (hperm.mem_iff.mp hmem)
    have hne' := hnat m.cells c.col
    show (g m.cells c.col).isTime = false
    rcases hcell : g m.cells c.col with _ | _ | _ | _ | _ | _ | t
    all_goals first | rfl | exact absurd hcell hne' | exact absurd hcell (hne t)
  · intro c hc hcol m' hm'
    obtain ⟨m, hm, rfl⟩ := (hre.mem_iff m').mp hm'
    exact hts c hc hcol m hm

end NetBuild
