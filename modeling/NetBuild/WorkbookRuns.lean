import NetBuild.WorkbookTheorems

/-!
# Runs over a workbook

A workbook grows by batches, from none at first. A run comes with its record: every report that was
submitted, with the net its entry in the results names. Which reports of a batch are skipped is
decided by signatures (`BatchRun.skipped_iff`), and the log holds reports that were routed.
-/

namespace NetBuild

/-! ## The record of a run -/

/-- The reports of a batch, each with the net its entry in the results names. -/
def Frame.record (df : Frame) (results : List Result) : List (Row × Option ℤ) :=
  df.reports.zip (results.map Result.net)

/-- A workbook, with the record of the batches that made it. Each of them met a condition on the
workbook it was processed with, the record so far and the batch. A batch that is refused leaves the
workbook as it is, and has no results. -/
inductive Processed (Meets : Option Workbook → List (Row × Option ℤ) → Frame → Prop) :
    Option Workbook → List (Row × Option ℤ) → Prop
  | start : Processed Meets none []
  | batch {wb : Option Workbook} {record : List (Row × Option ℤ)} {sv : SortValues}
      {cfg : MatchConfig} {newDf : Frame} {wb' : Workbook} {results : List Result} {n : ℕ}
      (before : Processed Meets wb record) (meets : Meets wb record newDf)
      (ok : processReports sv cfg wb newDf = .ok (wb', results, n)) :
      Processed Meets (some wb') (record ++ newDf.record results)
  | refused {wb : Option Workbook} {record : List (Row × Option ℤ)} {sv : SortValues}
      {cfg : MatchConfig} {newDf : Frame} {e : PyError} (before : Processed Meets wb record)
      (error : processReports sv cfg wb newDf = .error e) : Processed Meets wb record

/-! ## What the guard compares -/

/-- `seen_cols`: the columns of the log that signatures are made of. -/
def seenCols (wb : Option Workbook) : List Col :=
  if (loadLog wb).rows = [] then [] else sigCols.filter (· ∈ (loadLog wb).cols)

/-- `sig_cols`: those of them the batch has. -/
def sharedCols (wb : Option Workbook) (df : Frame) : List Col :=
  (seenCols wb).filter (· ∈ df.cols)

/-- A report has the signature of a logged one, or of one of the reports `pre` of its batch. -/
def SigSeen (wb : Option Workbook) (df : Frame) (pre : List Row) (rep : Row) : Prop :=
  sharedCols wb df ≠ [] ∧
    ((∃ e ∈ (loadLog wb).rows,
        reportSignature e (seenCols wb) = reportSignature rep (sharedCols wb df)) ∨
      ∃ r ∈ pre, reportSignature r (sharedCols wb df) = reportSignature rep (sharedCols wb df))

theorem seenSignatures_loadLog (wb : Option Workbook) :
    seenSignatures (loadLog wb) =
      (if seenCols wb = [] then [] else (loadLog wb).rows.map (reportSignature · (seenCols wb)),
        seenCols wb) := by
  unfold seenSignatures seenCols
  by_cases h : (loadLog wb).rows = []
  · rw [if_pos h, if_pos h, if_pos rfl]
  · rw [if_neg h, if_neg h]
    dsimp only
    split
    · next hc => rw [hc]
    · rfl

section
variable (cfg : MatchConfig) (wb : Option Workbook) (df : Frame)

theorem sigCols_ingestStart : (ingestStart cfg wb df).1.sigCols = sharedCols wb df := by
  unfold ingestStart sharedCols
  rw [seenSignatures_loadLog]

theorem seen_ingestStart : (ingestStart cfg wb df).2.seen =
    if seenCols wb = [] then []
    else (loadLog wb).rows.map (reportSignature · (seenCols wb)) := by
  unfold ingestStart
  rw [seenSignatures_loadLog]

variable {wb df}

/-- The columns a report's signature is made of are columns of the batch. -/
theorem reportSignature_only (row : Row) :
    reportSignature (row.only df.cols) (sharedCols wb df)
      = reportSignature row (sharedCols wb df) := by
  apply reportSignature_congr
  intro c hc
  unfold sharedCols at hc
  rw [Row.only_of_mem (of_decide_eq_true (List.mem_filter.mp hc).2)]

theorem seen_iff {done : List (Row × Option Assignment)} {rep : Row} :
    (ingestStart cfg wb df).1.Seen (ingestStart cfg wb df).2.seen done rep ↔
      SigSeen wb df (done.map fun p => p.1.only df.cols) (rep.only df.cols) := by
  unfold FoldEnv.Seen SigSeen
  rw [sigCols_ingestStart, seen_ingestStart]
  refine and_congr_right fun hne => or_congr ?_ ?_
  · have hseen : seenCols wb ≠ [] := by
      intro h
      unfold sharedCols at hne
      rw [h] at hne
      exact hne rfl
    rw [if_neg hseen, List.mem_map, reportSignature_only]
  · simp only [List.mem_map, exists_exists_and_eq_and, reportSignature_only]

end

/-! ## Which reports are skipped -/

/-- A report is skipped exactly where its signature was seen. -/
theorem Ingests.skipped_iff {env : FoldEnv} {seen : List (List SigVal)} {ms ms' : Members}
    {done : List (Row × Option Assignment)} (h : Ingests env seen ms done ms')
    {pre post : List (Row × Option Assignment)} {p : Row × Option Assignment}
    (hd : done = pre ++ p :: post) : p.2 = none ↔ env.Seen seen pre p.1 := by
  induction h generalizing post with
  | start => exact absurd hd.symm (List.append_ne_nil_of_right_ne_nil _ (List.cons_ne_nil _ _))
  | skip _ known ih =>
    rcases List.concat_eq_split hd with ⟨rfl, rfl⟩ | ⟨post', hd'⟩
    · exact ⟨fun _ => known, fun _ => rfl⟩
    · exact ih hd'
  | route _ unknown _ ih =>
    rcases List.concat_eq_split hd with ⟨rfl, rfl⟩ | ⟨post', hd'⟩
    · exact ⟨fun h => absurd h (Option.some_ne_none _), fun h => absurd h unknown⟩
    · exact ih hd'

section
variable {sv : SortValues} {cfg : MatchConfig} {wb : Option Workbook} {df : Frame} {wb' : Workbook}
  {results : List Result} {done : List (Row × Option Assignment)} {ms : Members}

/-- The record of a batch, by what its loop did. -/
theorem BatchRun.record (h : BatchRun sv cfg wb df wb' results done ms) :
    df.record results = done.map fun p => (p.1.only df.cols, p.2.map (·.netId)) := by
  unfold Frame.record Frame.reports
  rw [h.nets, ← h.reports, List.map_map, List.zip_map']
  rfl

/-- A report of a batch is skipped exactly where its signature was seen. -/
theorem BatchRun.skipped_iff (h : BatchRun sv cfg wb df wb' results done ms)
    {pre post : List (Row × Option ℤ)} {rep : Row} {net : Option ℤ}
    (hr : df.record results = pre ++ (rep, net) :: post) :
    net = none ↔ SigSeen wb df (pre.map (·.1)) rep := by
  rw [h.record] at hr
  obtain ⟨dpre, drest, rfl, rfl, hrest⟩ := List.map_eq_append_iff.mp hr
  obtain ⟨p, dpost, rfl, hp, -⟩ := List.map_eq_cons_iff.mp hrest
  obtain ⟨rfl, rfl⟩ := Prod.mk.inj hp
  rw [Option.map_eq_none_iff, h.ingests.skipped_iff rfl, seen_iff, List.map_map]
  rfl

theorem BatchRun.fst_record (h : BatchRun sv cfg wb df wb' results done ms) :
    (df.record results).map (·.1) = df.reports := by
  rw [h.record, List.map_map]
  unfold Frame.reports
  rw [← h.reports, List.map_map]
  rfl

theorem BatchRun.reports_split (h : BatchRun sv cfg wb df wb' results done ms)
    {pre post : List (Row × Option ℤ)} {rep : Row} {net : Option ℤ}
    (hr : df.record results = pre ++ (rep, net) :: post) :
    df.reports = pre.map (·.1) ++ rep :: post.map (·.1) := by
  rw [← h.fst_record, hr, List.map_append]
  rfl

end

/-! ## The log -/

/-- The reports of a record that were not skipped. -/
def ingested (record : List (Row × Option ℤ)) : List Row :=
  record.filterMap fun p => p.2.map fun _ => p.1

theorem mem_ingested {record : List (Row × Option ℤ)} {r : Row} :
    r ∈ ingested record ↔ ∃ n, (r, some n) ∈ record := by
  unfold ingested
  rw [List.mem_filterMap]
  refine ⟨fun h => ?_, fun h => ?_⟩
  · obtain ⟨⟨r', o⟩, hp, ho⟩ := h
    obtain ⟨n, rfl, rfl⟩ := Option.map_eq_some_iff.mp ho
    exact ⟨n, hp⟩
  · obtain ⟨n, hp⟩ := h
    exact ⟨_, hp, rfl⟩

theorem ingested_append (record record' : List (Row × Option ℤ)) :
    ingested (record ++ record') = ingested record ++ ingested record' :=
  List.filterMap_append ..

/-- Reports that each differ from those ingested before it are pairwise different. -/
theorem pairwise_ingested {R : Row → Row → Prop} {record : List (Row × Option ℤ)}
    (h : ∀ pre rep n post, record = pre ++ (rep, some n) :: post → ∀ r ∈ ingested pre, R r rep) :
    (ingested record).Pairwise R := by
  induction record using List.reverseRecOn with
  | nil => exact .nil
  | append_singleton record p ih =>
    have hpre : (ingested record).Pairwise R := by
      refine ih fun pre rep n post hr => h pre rep n (post ++ [p]) ?_
      rw [hr, List.append_assoc]
      rfl
    rw [ingested_append, List.pairwise_append]
    refine ⟨hpre, ?_, fun r hr r' hr' => ?_⟩
    · rcases p with ⟨r, _ | n⟩
      · exact List.Pairwise.nil
      · exact List.pairwise_singleton _ _
    · obtain ⟨n, hn⟩ := mem_ingested.mp hr'
      obtain rfl := List.mem_singleton.mp hn
      exact h record r' n [] rfl r hr

section
variable {prev : Option Workbook} {newCols : List Col} {new : List Entry} {e : Entry}

theorem mem_of_mem_fullLog (h : e ∈ (fullLog prev newCols new).2) : e ∈ logEntries prev ++ new := by
  unfold fullLog at h
  dsimp only at h
  split at h
  · exact h
  · exact List.mem_reverse.mp (mem_of_mem_dropDuplicates (List.mem_reverse.mp h))

/-- For every entry one with its key is kept. -/
theorem exists_mem_fullLog (h : e ∈ logEntries prev ++ new) :
    ∃ e' ∈ (fullLog prev newCols new).2, ∀ c ∈ logKeyCols, c ∈ (fullLog prev newCols new).1 →
      (e'.cells c).val = (e.cells c).val := by
  unfold fullLog
  dsimp only
  split
  · exact ⟨e, h, fun _ _ _ => rfl⟩
  · let key (e : Entry) : List (Option Scalar) :=
      (logKeyCols.filter (· ∈ fullCols prev newCols new)).map fun c => (e.cells c).val
    have hkept : ∃ e' ∈ dropDuplicates key (logEntries prev ++ new).reverse, key e' = key e :=
      exists_mem_dropDuplicates (List.mem_reverse.mpr h)
    obtain ⟨e', he', hkey⟩ := hkept
    refine ⟨e', List.mem_reverse.mpr he', fun c hc hcol => ?_⟩
    exact List.map_inj_left.mp hkey c (List.mem_filter.mpr ⟨hc, decide_eq_true hcol⟩)

end

section
variable {sv : SortValues} {cfg : MatchConfig} {wb : Option Workbook} {df : Frame} {wb' : Workbook}
  {results : List Result} {done : List (Row × Option Assignment)} {ms : Members}

/-- The rows a batch logs are the reports that were not skipped. -/
theorem BatchRun.cells_entries (h : BatchRun sv cfg wb df wb' results done ms) :
    ((ingestStart cfg wb df).1.entries done).map (·.cells) = ingested (df.record results) := by
  unfold FoldEnv.entries ingested
  rw [h.record, List.filterMap_map, List.map_filterMap]
  refine List.filterMap_congr fun p _ => ?_
  show (p.2.map _).map _ = (p.2.map _).map _
  rw [Option.map_map, Option.map_map]
  rfl

/-- The rows that are there to be logged. -/
theorem BatchRun.full (h : BatchRun sv cfg wb df wb' results done ms) :
    (logEntries wb ++ (ingestStart cfg wb df).1.entries done).map (·.cells)
      = (loadLog wb).rows ++ ingested (df.record results) := by
  rw [List.map_append, h.cells_entries]
  rfl

/-- A row of the log was a row of the log before, or a report of the batch. -/
theorem BatchRun.logged (h : BatchRun sv cfg wb df wb' results done ms) {e : Row}
    (he : e ∈ (loadLog (some wb')).rows) :
    ∃ r ∈ (loadLog wb).rows ++ ingested (df.record results), e.Agrees r := by
  obtain ⟨x, hx, rfl⟩ := List.mem_map.mp he
  obtain ⟨y, hy, rfl⟩ := List.mem_map.mp hx
  have hmem : y ∈ (fullLog wb df.cols ((ingestStart cfg wb df).1.entries done)).2 := by
    rw [← h.log]
    exact hy
  refine ⟨y.cells, ?_, Row.readBack_agrees _⟩
  rw [← h.full]
  exact List.mem_map_of_mem (mem_of_mem_fullLog hmem)

/-- For every one of these a row with its key is in the log. -/
theorem BatchRun.kept (h : BatchRun sv cfg wb df wb' results done ms) {r : Row}
    (hr : r ∈ (loadLog wb).rows ++ ingested (df.record results)) :
    ∃ e ∈ (loadLog (some wb')).rows,
      ∃ r' ∈ (loadLog wb).rows ++ ingested (df.record results), e.Agrees r' ∧
        ∀ c ∈ logKeyCols, c ∈ wb'.logCols → (r' c).val = (r c).val := by
  rw [← h.full] at hr
  obtain ⟨x, hx, rfl⟩ := List.mem_map.mp hr
  have hkept : ∃ y ∈ wb'.log, y ∈ logEntries wb ++ (ingestStart cfg wb df).1.entries done ∧
      ∀ c ∈ logKeyCols, c ∈ wb'.logCols → (y.cells c).val = (x.cells c).val := by
    obtain ⟨y, hy, hkey⟩ :=
      @exists_mem_fullLog wb df.cols ((ingestStart cfg wb df).1.entries done) x hx
    have hfull := mem_of_mem_fullLog hy
    rw [← h.log] at hy hkey
    exact ⟨y, hy, hfull, hkey⟩
  obtain ⟨y, hy, hfull, hkey⟩ := hkept
  refine ⟨y.cells.readBack, List.mem_map_of_mem (List.mem_map_of_mem hy), y.cells, ?_,
    Row.readBack_agrees _, hkey⟩
  rw [← h.full]
  exact List.mem_map_of_mem hfull

end

section
variable {Meets : Option Workbook → List (Row × Option ℤ) → Frame → Prop}
  {wb : Option Workbook} {record : List (Row × Option ℤ)}

/-- The sheet of a workbook is made of members that it keeps. -/
theorem Processed.written (h : Processed Meets wb record) :
    ∀ wb', wb = some wb' → ∃ sv ms, Sheetable wb'.dataCols ms ∧
      wb'.nets = buildHierarchical sv (dedupRdfsPerNet sv ms.rows) wb'.dataCols := by
  induction h with
  | start => exact fun _ h => nomatch h
  | refused _ _ ih => exact ih
  | @batch wb record sv cfg df wb₁ results n _ _ ok ih =>
    intro wb' he
    obtain rfl := Option.some.inj he
    obtain ⟨done, ms, hb⟩ := processReports_cases ok
    refine ⟨sv, ms, ?_, hb.sheet⟩
    rw [hb.dataCols]
    refine Sheetable.ingests ?_ hb.ingests
    rcases wb with _ | wb
    · exact sheetable_empty df.cols
    · obtain ⟨sv₀, ms₀, hms₀, hw⟩ := ih wb rfl
      exact (hms₀.load hw).1

/-- A row of the log is a report that was not skipped. -/
theorem Processed.logged (h : Processed Meets wb record) {e : Row}
    (he : e ∈ (loadLog wb).rows) : ∃ r ∈ ingested record, e.Agrees r := by
  induction h generalizing e with
  | start => exact absurd he List.not_mem_nil
  | refused _ _ ih => exact ih he
  | batch _ _ ok ih =>
    obtain ⟨done, ms, hb⟩ := processReports_cases ok
    rw [ingested_append]
    obtain ⟨r, hr, hag⟩ := hb.logged he
    rcases List.mem_append.mp hr with hr | hr
    · obtain ⟨r', hr', hag'⟩ := ih hr
      exact ⟨r', List.mem_append_left _ hr', fun c => (hag c).trans (hag' c)⟩
    · exact ⟨r, List.mem_append_right _ hr, hag⟩

end

/-- Where a report that is skipped has a relative that is known, or before it in the record, it has
one that is known or was not skipped. -/
theorem exists_ingested {R : Row → Row → Prop} (htrans : ∀ {r r' r''}, R r r' → R r' r'' → R r r'')
    {known : Row → Prop} {record : List (Row × Option ℤ)}
    (h : ∀ pre rep post, record = pre ++ (rep, none) :: post →
      ∃ r, (known r ∨ r ∈ pre.map (·.1)) ∧ R r rep)
    {pre post : List (Row × Option ℤ)} {rep : Row} (hr : record = pre ++ (rep, none) :: post) :
    ∃ r, (known r ∨ r ∈ ingested pre) ∧ R r rep := by
  -- the relative before it may itself have been skipped
  induction hlen : pre.length using Nat.strong_induction_on generalizing pre post rep with
  | _ k ih =>
    obtain ⟨r, hkn | hpre, hR⟩ := h pre rep post hr
    · exact ⟨r, .inl hkn, hR⟩
    · obtain ⟨⟨r', o⟩, hp, rfl⟩ := List.mem_map.mp hpre
      rcases o with _ | n
      · obtain ⟨pre', post', hsplit⟩ := List.append_of_mem hp
        have hlt : pre'.length < k := by
          rw [← hlen, hsplit, List.length_append, List.length_cons]
          omega
        have hr' : record = pre' ++ (r', none) :: (post' ++ (rep, none) :: post) := by
          rw [hr, hsplit, List.append_assoc, List.cons_append]
        obtain ⟨r, hor, hR'⟩ := ih _ hlt hr' rfl
        refine ⟨r, hor.imp_right fun hin => ?_, htrans hR' hR⟩
        rw [hsplit, ingested_append]
        exact List.mem_append_left _ hin
      · exact ⟨r', .inr (mem_ingested.mpr ⟨n, hp⟩), hR⟩

/-! ## Reports of an emitter -/

/-- A report of an emitter at 100 MHz. -/
def heardBy (station : String) (ffId : ℤ) : Row := fun c =>
  match c with
  | .ffId => .int ffId
  | .num .frequencyMHz => .int 100
  | .num .bandwidthKHz => .int 20
  | .txt .rdfs => .str station.toList
  | .fti => .str "05-05-2024 10:00:00".toList
  | .lti => .str "05-05-2024 11:00:00".toList
  | .nti => .int 1
  | _ => .null

/-- Its columns. -/
def heardCols : List Col :=
  [.ffId, .num .frequencyMHz, .num .bandwidthKHz, .txt .rdfs, .fti, .lti, .nti]

/-- A batch of such reports. -/
def heardBatch (heard : List (String × ℤ)) : Frame where
  cols := heardCols
  rows := heard.map fun h => heardBy h.1 h.2

theorem reports_heardBatch (heard : List (String × ℤ)) :
    (heardBatch heard).reports = heard.map fun h => heardBy h.1 h.2 := by
  show (heard.map _).map _ = _
  rw [List.map_map]
  refine List.map_congr_left fun h _ => funext fun c => ?_
  show (heardBy h.1 h.2).only heardCols c = heardBy h.1 h.2 c
  unfold Row.only
  split
  · rfl
  · next hc =>
    -- a column the batch does not have is empty
    unfold heardBy
    split <;> first | rfl | exact absurd (by decide) hc

end NetBuild
