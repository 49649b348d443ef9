import NetBuild.WorkbookRuns

/-!
# Each report folded once

A workbook is to fold each report once, however often it is submitted. Signatures, the key the log
is cleaned by, and the columns both are made of each decide part of it, and a first batch is not
compared with itself. Where these tell the reports of every batch apart, each report is folded once,
is in the log, and its batch can be submitted again without effect.
-/

namespace NetBuild

/-! ## What is promised -/

/-- The two reports are one: the fields a signature normalises are the same after that, and the
others say the same. -/
structure SameReport (r r' : Row) : Prop where
  signed : ∀ c ∈ sigCols, sigVal r c = sigVal r' c
  others : ∀ c, c ∉ sigCols → (r c).val = (r' c).val

/-- The rows of the sheet `Nets`, by what they say. -/
def Workbook.shown (wb : Workbook) : List (Text × Text × (Col → Option Scalar)) :=
  wb.nets.map fun r => (r.myNet, r.systemNet, fun c => (r.cells c).val)

/-- After a batch `df` that left the workbook `wb`: each report of the record was folded once and is
in the log, and the batch submitted again is skipped and leaves the nets as they are. -/
structure IngestedOnce (record : List (Row × Option ℤ)) (df : Frame) (wb : Workbook) : Prop where
  folded : ∀ p ∈ record, ∃ r ∈ ingested record, SameReport r p.1
  once : (ingested record).Pairwise fun r r' => ¬ SameReport r r'
  logged : ∀ p ∈ record, ∃ e ∈ wb.log, SameReport e.cells p.1
  again : ∀ sv cfg, ∃ wb' results n, processReports sv cfg (some wb) df = .ok (wb', results, n) ∧
    (∀ r ∈ results, ∃ label, r = .skipped label) ∧ wb'.shown = wb.shown

/-! ## The condition -/

/-- The report is none of the log's, and none of those before it in its batch. -/
def IsNew (wb : Option Workbook) (pre : List Row) (rep : Row) : Prop :=
  ∀ r, r ∈ (loadLog wb).rows ∨ r ∈ pre → ¬ SameReport r rep

/-- The log is cleaned of one of the two. -/
def SameKey (r r' : Row) : Prop := ∀ c ∈ logKeyCols, (r c).val = (r' c).val

/-- What a workbook compares tells the reports of a batch apart. -/
structure TellsReports (wb : Option Workbook) (df : Frame) : Prop where
  /-- The batch has the columns the log's signatures are made of. -/
  columns : ∀ c ∈ seenCols wb, c ∈ df.cols
  /-- A batch that nothing is compared with does not repeat a report. -/
  first : (loadLog wb).rows = [] → df.reports.Pairwise fun r r' => ¬ SameReport r r'
  /-- A signature that was seen is that of a report that was. -/
  signature : ∀ pre rep post, df.reports = pre ++ rep :: post → SigSeen wb df pre rep →
    ¬ IsNew wb pre rep
  /-- A new report has the key of no logged one. -/
  key : ∀ pre rep post, df.reports = pre ++ rep :: post → IsNew wb pre rep →
    ∀ e ∈ (loadLog wb).rows, ¬ SameKey e rep
  /-- Nor of another new one. -/
  keys : ∀ pre r mid rep post, df.reports = pre ++ r :: (mid ++ rep :: post) → IsNew wb pre r →
    IsNew wb (pre ++ r :: mid) rep → ¬ SameKey r rep

/-- No report of the batch is folded into a record that refuses it, in the table as it is when the
report comes: a time column that read as numbers gets no date, and the counts are numbers, in a
column that takes them. -/
def TakesReports (cfg : MatchConfig) (wb : Option Workbook) (df : Frame) : Prop :=
  ∀ done ms rep post, df.rows = done.map (·.1) ++ rep :: post →
    Ingests (ingestStart cfg wb df).1 (ingestStart cfg wb df).2.seen
      (ingestStart cfg wb df).2.members done ms →
    ¬ (ingestStart cfg wb df).1.Seen (ingestStart cfg wb df).2.seen done rep →
      ∀ old i, newest cfg ms ((ingestStart cfg wb df).1.row rep) = some (old, i) →
        ∃ nti, ms.Takes old.cells ((ingestStart cfg wb df).1.row rep) nti

/-! ## One and the same report -/

section
variable {r r' r'' : Row}

theorem SameReport.refl (r : Row) : SameReport r r := ⟨fun _ _ => rfl, fun _ _ => rfl⟩

theorem SameReport.symm (h : SameReport r r') : SameReport r' r :=
  ⟨fun c hc => (h.signed c hc).symm, fun c hc => (h.others c hc).symm⟩

theorem SameReport.trans (h : SameReport r r') (h' : SameReport r' r'') : SameReport r r'' :=
  ⟨fun c hc => (h.signed c hc).trans (h'.signed c hc),
    fun c hc => (h.others c hc).trans (h'.others c hc)⟩

theorem Row.Agrees.sameReport (h : r.Agrees r') : SameReport r r' :=
  ⟨fun c _ => sigVal_congr (h c), fun c _ => h c⟩

theorem SameReport.signature (h : SameReport r r') {cols : List Col}
    (hc : ∀ c ∈ cols, c ∈ sigCols) : reportSignature r cols = reportSignature r' cols :=
  List.map_congr_left fun c hcol => h.signed c (hc c hcol)

theorem not_isNew_iff {wb : Option Workbook} {pre : List Row} {rep : Row} :
    ¬ IsNew wb pre rep ↔ ∃ r, (r ∈ (loadLog wb).rows ∨ r ∈ pre) ∧ SameReport r rep := by
  unfold IsNew
  push Not
  rfl

end

/-! ## The columns of the log -/

section
variable {prev : Option Workbook} {newCols : List Col} {new : List Entry} {c : Col}

theorem rows_loadLog_eq_nil_iff : (loadLog prev).rows = [] ↔ logEntries prev = [] :=
  List.map_eq_nil_iff

theorem mem_fullCols_of_log (h : (loadLog prev).rows ≠ []) (hc : c ∈ (loadLog prev).cols) :
    c ∈ fullCols prev newCols new := by
  unfold fullCols
  rw [if_neg (rows_loadLog_eq_nil_iff.not.mp h)]
  exact List.mem_append_left _ hc

theorem mem_fullCols_of_new (h : new ≠ []) (hc : c ∈ newCols) : c ∈ fullCols prev newCols new := by
  unfold fullCols
  rw [if_neg h]
  split
  · exact hc
  · by_cases hp : c ∈ (prev.map (·.logCols)).getD []
    · exact List.mem_append_left _ hp
    · exact List.mem_append_right _ (List.mem_filter.mpr ⟨hc, decide_eq_true hp⟩)

theorem of_mem_fullCols (h : c ∈ fullCols prev newCols new) :
    ((loadLog prev).rows ≠ [] ∧ c ∈ (loadLog prev).cols) ∨ c ∈ newCols := by
  have hnew : ∀ {c}, c ∈ (if new = [] then [] else newCols) → c ∈ newCols := by
    intro c hc
    split at hc
    · exact absurd hc List.not_mem_nil
    · exact hc
  unfold fullCols at h
  dsimp only at h
  split at h
  · exact .inr (hnew h)
  · next hl =>
    rcases List.mem_append.mp h with h | h
    · exact .inl ⟨rows_loadLog_eq_nil_iff.not.mpr hl, h⟩
    · exact .inr (hnew (List.mem_filter.mp h).1)

end

/-! ## The ledger -/

/-- The log stands for the record. -/
structure Ledger (wb : Option Workbook) (record : List (Row × Option ℤ)) : Prop where
  masked : ∀ e ∈ (loadLog wb).rows, ∀ c, c ∉ (loadLog wb).cols → (e c).val = none
  lti : (loadLog wb).rows ≠ [] → Col.lti ∈ (loadLog wb).cols
  keyed : ∀ e ∈ (loadLog wb).rows, ∀ e' ∈ (loadLog wb).rows, SameKey e e' → SameReport e e'
  held : ∀ p ∈ record, ∃ e ∈ (loadLog wb).rows, SameReport e p.1
  once : (ingested record).Pairwise fun r r' => ¬ SameReport r r'

section
variable {sv : SortValues} {cfg : MatchConfig} {wb : Option Workbook} {df : Frame} {wb' : Workbook}
  {results : List Result} {done : List (Row × Option Assignment)} {ms : Members}
  {record : List (Row × Option ℤ)}

/-- A log's signature columns are there to compare reports by, as soon as it has a report. -/
theorem Ledger.lti_mem_seenCols (h : Ledger wb record) (hl : (loadLog wb).rows ≠ []) :
    Col.lti ∈ seenCols wb := by
  unfold seenCols
  rw [if_neg hl]
  exact List.mem_filter.mpr ⟨by decide, decide_eq_true (h.lti hl)⟩

theorem seenCols_subset {c : Col} (h : c ∈ seenCols wb) : c ∈ sigCols := by
  unfold seenCols at h
  split at h
  · exact absurd h List.not_mem_nil
  · exact (List.mem_filter.mp h).1

theorem sharedCols_eq (h : ∀ c ∈ seenCols wb, c ∈ df.cols) : sharedCols wb df = seenCols wb :=
  List.filter_eq_self.mpr fun c hc => decide_eq_true (h c hc)

/-- A report that repeats a logged one, or one before it, has its signature. -/
theorem Ledger.sigSeen (h : Ledger wb record) (hcols : ∀ c ∈ seenCols wb, c ∈ df.cols)
    (hl : (loadLog wb).rows ≠ []) {pre : List Row} {rep : Row} (hnew : ¬ IsNew wb pre rep) :
    SigSeen wb df pre rep := by
  unfold SigSeen
  rw [sharedCols_eq hcols]
  refine ⟨List.ne_nil_of_mem (h.lti_mem_seenCols hl), ?_⟩
  obtain ⟨r, hr, hs⟩ := not_isNew_iff.mp hnew
  have hsig : reportSignature r (seenCols wb) = reportSignature rep (seenCols wb) :=
    hs.signature fun c hc => seenCols_subset hc
  exact hr.imp (fun hr => ⟨r, hr, hsig⟩) fun hr => ⟨r, hr, hsig⟩

/-- What is skipped is what is not new. -/
theorem Ledger.sigSeen_iff (h : Ledger wb record) (meets : TellsReports wb df)
    {pre post : List Row} {rep : Row} (hr : df.reports = pre ++ rep :: post) :
    SigSeen wb df pre rep ↔ ¬ IsNew wb pre rep := by
  refine ⟨meets.signature pre rep post hr, fun hnew => ?_⟩
  by_cases hl : (loadLog wb).rows = []
  · -- a batch that is compared with nothing has no repetition
    obtain ⟨r, hr', hs⟩ := not_isNew_iff.mp hnew
    have hpre : r ∈ pre := hr'.resolve_left fun hm => List.not_mem_nil (hl ▸ hm)
    have hpair := meets.first hl
    rw [hr] at hpair
    exact absurd hs ((List.pairwise_append.mp hpair).2.2 r hpre rep List.mem_cons_self)
  · exact h.sigSeen meets.columns hl hnew

/-! ## A batch in the ledger -/

/-- A report that is not skipped is new. -/
theorem BatchRun.isNew (h : BatchRun sv cfg wb df wb' results done ms) (hled : Ledger wb record)
    (meets : TellsReports wb df) {pre post : List (Row × Option ℤ)} {rep : Row} {n : ℤ}
    (hr : df.record results = pre ++ (rep, some n) :: post) : IsNew wb (pre.map (·.1)) rep := by
  by_contra hnew
  have hskip := (h.skipped_iff hr).mpr ((hled.sigSeen_iff meets (h.reports_split hr)).mpr hnew)
  exact nomatch hskip

theorem exists_split_of_mem_ingested {record : List (Row × Option ℤ)} {r : Row}
    (h : r ∈ ingested record) : ∃ pre n post, record = pre ++ (r, some n) :: post := by
  obtain ⟨n, hn⟩ := mem_ingested.mp h
  obtain ⟨pre, post, hr⟩ := List.append_of_mem hn
  exact ⟨pre, n, post, hr⟩

/-- The key of the log tells the reports it is made of apart. -/
theorem BatchRun.keyed (h : BatchRun sv cfg wb df wb' results done ms) (hled : Ledger wb record)
    (meets : TellsReports wb df) {r r' : Row}
    (hr : r ∈ (loadLog wb).rows ++ ingested (df.record results))
    (hr' : r' ∈ (loadLog wb).rows ++ ingested (df.record results)) (hkey : SameKey r r') :
    SameReport r r' := by
  have hlog : ∀ {e rep : Row}, e ∈ (loadLog wb).rows → rep ∈ ingested (df.record results) →
      ¬ SameKey e rep := by
    intro e rep he hrep
    obtain ⟨pre, n, post, hrec⟩ := exists_split_of_mem_ingested hrep
    exact meets.key _ rep _ (h.reports_split hrec) (h.isNew hled meets hrec) e he
  -- of two reports of the batch the later one is new after the earlier
  have hlater : ∀ {pre pre' mid post post' : List (Row × Option ℤ)} {x y : Row} {n k : ℤ},
      df.record results = pre ++ (x, some n) :: post →
        df.record results = pre' ++ (y, some k) :: post' → pre' = pre ++ (x, some n) :: mid →
          ¬ SameKey x y := by
    intro pre pre' mid post post' x y n k hx hy hpre
    have hynew := h.isNew hled meets hy
    rw [hpre, List.map_append, List.map_cons] at hynew
    refine meets.keys _ x _ y (post'.map (·.1)) ?_ (h.isNew hled meets hx) hynew
    rw [h.reports_split hy, hpre, List.map_append, List.append_assoc]
    rfl
  have hsymm : SameKey r' r := fun c hc => (hkey c hc).symm
  rcases List.mem_append.mp hr with hr | hr
  · rcases List.mem_append.mp hr' with hr' | hr'
    · exact hled.keyed r hr r' hr' hkey
    · exact absurd hkey (hlog hr hr')
  · rcases List.mem_append.mp hr' with hr' | hr'
    · exact absurd hsymm (hlog hr' hr)
    · obtain ⟨pre, n, post, hrec⟩ := exists_split_of_mem_ingested hr
      obtain ⟨pre', n', post', hrec'⟩ := exists_split_of_mem_ingested hr'
      rcases List.split_trichotomy (hrec.symm.trans hrec') with ⟨-, he⟩ | ⟨mid, hm⟩ | ⟨mid, hm⟩
      · rw [(Prod.mk.inj he).1]
        exact .refl _
      · exact absurd hkey (hlater hrec hrec' hm)
      · exact absurd hsymm (hlater hrec' hrec hm)

/-- What may be in the log has nothing under a column the log does not have. -/
theorem BatchRun.masked (h : BatchRun sv cfg wb df wb' results done ms) (hled : Ledger wb record)
    {r : Row} (hr : r ∈ (loadLog wb).rows ++ ingested (df.record results)) {c : Col}
    (hc : c ∉ wb'.logCols) : (r c).val = none := by
  have hcols : wb'.logCols = fullCols wb df.cols ((ingestStart cfg wb df).1.entries done) :=
    congrArg Prod.fst h.log
  rw [hcols] at hc
  rcases List.mem_append.mp hr with hr | hr
  · exact hled.masked r hr c fun hcol => hc (mem_fullCols_of_log (List.ne_nil_of_mem hr) hcol)
  · have hentries : (ingestStart cfg wb df).1.entries done ≠ [] := by
      intro he
      have hcells := h.cells_entries
      rw [he] at hcells
      exact List.not_mem_nil (hcells ▸ hr)
    have hcol : c ∉ df.cols := fun hcol => hc (mem_fullCols_of_new hentries hcol)
    obtain ⟨n, hn⟩ := mem_ingested.mp hr
    have hrep : r ∈ df.reports := by
      rw [← h.fst_record]
      exact List.mem_map_of_mem hn
    obtain ⟨row, -, rfl⟩ := List.mem_map.mp hrep
    rw [Row.only_of_notMem hcol]
    rfl

/-- The log after a batch has each of these. -/
theorem BatchRun.held (h : BatchRun sv cfg wb df wb' results done ms) (hled : Ledger wb record)
    (meets : TellsReports wb df) {r : Row}
    (hr : r ∈ (loadLog wb).rows ++ ingested (df.record results)) :
    ∃ e ∈ (loadLog (some wb')).rows, SameReport e r := by
  obtain ⟨e, he, r', hr', hag, hkey⟩ := h.kept hr
  refine ⟨e, he, hag.sameReport.trans (h.keyed hled meets hr' hr fun c hc => ?_)⟩
  by_cases hcol : c ∈ wb'.logCols
  · exact hkey c hc hcol
  · rw [h.masked hled hr' hcol, h.masked hled hr hcol]

/-- So does it have every report of the batch. -/
theorem BatchRun.held_record (h : BatchRun sv cfg wb df wb' results done ms)
    (hled : Ledger wb record) (meets : TellsReports wb df) {p : Row × Option ℤ}
    (hp : p ∈ df.record results) : ∃ e ∈ (loadLog (some wb')).rows, SameReport e p.1 := by
  obtain ⟨rep, net⟩ := p
  rcases net with _ | n
  · have hknown : ∀ pre rep post, df.record results = pre ++ (rep, none) :: post →
        ∃ r, (r ∈ (loadLog wb).rows ∨ r ∈ pre.map (·.1)) ∧ SameReport r rep := by
      intro pre rep post hrec
      exact not_isNew_iff.mp
        (meets.signature _ _ _ (h.reports_split hrec) ((h.skipped_iff hrec).mp rfl))
    obtain ⟨pre, post, hrec⟩ := List.append_of_mem hp
    obtain ⟨r, hr, hs⟩ := exists_ingested (R := SameReport) (fun hs => hs.trans) hknown hrec
    have hfull : r ∈ (loadLog wb).rows ++ ingested (df.record results) := by
      rw [List.mem_append]
      refine hr.imp_right fun hin => ?_
      rw [hrec, ingested_append]
      exact List.mem_append_left _ hin
    obtain ⟨e, he, hs'⟩ := h.held hled meets hfull
    exact ⟨e, he, hs'.trans hs⟩
  · exact h.held hled meets (List.mem_append_right _ (mem_ingested.mpr ⟨n, hp⟩))

theorem BatchRun.ledger (h : BatchRun sv cfg wb df wb' results done ms) (hled : Ledger wb record)
    (meets : TellsReports wb df) : Ledger (some wb') (record ++ df.record results) := by
  have hcols : wb'.logCols = fullCols wb df.cols ((ingestStart cfg wb df).1.entries done) :=
    congrArg Prod.fst h.log
  refine ⟨fun e he c hc => ?_, fun hl => ?_, fun e he e' he' hkey => ?_, fun p hp => ?_, ?_⟩
  · obtain ⟨r, hr, hag⟩ := h.logged he
    rw [hag c, h.masked hled hr hc]
  · -- a column that nothing can be under is none of a report's
    obtain ⟨e, he⟩ := List.exists_mem_of_ne_nil _ hl
    obtain ⟨r, hr, -⟩ := h.logged he
    show Col.lti ∈ wb'.logCols
    rw [hcols]
    rcases List.mem_append.mp hr with hr | hr
    · have hne := List.ne_nil_of_mem hr
      exact mem_fullCols_of_log hne (hled.lti hne)
    · refine mem_fullCols_of_new ?_ ((validateReports_eq_ok h.valid).2 _ (by decide))
      intro hentries
      have hcells := h.cells_entries
      rw [hentries] at hcells
      exact List.not_mem_nil (hcells ▸ hr)
  · obtain ⟨r, hr, hag⟩ := h.logged he
    obtain ⟨r', hr', hag'⟩ := h.logged he'
    have hkeys : SameKey r r' := fun c hc => (hag c).symm.trans ((hkey c hc).trans (hag' c))
    exact hag.sameReport.trans ((h.keyed hled meets hr hr' hkeys).trans hag'.sameReport.symm)
  · rcases List.mem_append.mp hp with hp | hp
    · obtain ⟨e, he, hs⟩ := hled.held p hp
      obtain ⟨e', he', hs'⟩ := h.held hled meets (List.mem_append_left _ he)
      exact ⟨e', he', hs'.trans hs⟩
    · exact h.held_record hled meets hp
  · rw [ingested_append, List.pairwise_append]
    refine ⟨hled.once, ?_, fun r hr r' hr' hs => ?_⟩
    · refine pairwise_ingested fun pre rep n post hrec r hr hs => ?_
      obtain ⟨k, hk⟩ := mem_ingested.mp hr
      exact h.isNew hled meets hrec r (.inr (List.mem_map_of_mem hk)) hs
    · -- a new report repeats none that the log stands for
      obtain ⟨n, hn⟩ := mem_ingested.mp hr
      obtain ⟨e, he, hs'⟩ := hled.held _ hn
      obtain ⟨pre, k, post, hrec⟩ := exists_split_of_mem_ingested hr'
      exact h.isNew hled meets hrec e (.inl he) (hs'.trans hs)

end

theorem ledger_of_processed {wb : Option Workbook} {record : List (Row × Option ℤ)}
    (h : Processed (fun wb _ df => TellsReports wb df) wb record) : Ledger wb record := by
  induction h with
  | start =>
    exact ⟨fun _ he => absurd he List.not_mem_nil, fun hl => absurd rfl hl,
      fun _ he => absurd he List.not_mem_nil, fun _ hp => absurd hp List.not_mem_nil, .nil⟩
  | batch _ meets ok ih =>
    obtain ⟨done, ms, hb⟩ := processReports_cases ok
    exact hb.ledger ih meets
  | refused _ _ ih => exact ih

/-! ## A batch submitted again -/

section
variable {env : FoldEnv} {cfg : MatchConfig} {wb : Option Workbook} {df : Frame}

theorem foldlM_ingestReport_of_seen {st : IngestState} {rows : List (Row × ℕ)}
    (h : ∀ r ∈ rows, env.isIngested st.seen r.1 = true) :
    ∃ labels : List Cell, rows.foldlM (fun st r => ingestReport env st r.1 r.2) st
      = .ok { st with results := st.results ++ labels.map Result.skipped } := by
  induction rows generalizing st with
  | nil => exact ⟨[], by simp [pure, Except.pure]⟩
  | cons r rows ih =>
    have hr := h r List.mem_cons_self
    have hround : ∃ label, ingestReport env st r.1 r.2
        = .ok { st with results := st.results ++ [Result.skipped label] } := by
      unfold ingestReport
      dsimp only
      rw [if_pos hr]
      exact ⟨_, rfl⟩
    obtain ⟨label, hround⟩ := hround
    obtain ⟨labels, hrest⟩ := @ih { st with results := st.results ++ [Result.skipped label] }
      fun x hx => h x (List.mem_cons_of_mem _ hx)
    refine ⟨label :: labels, ?_⟩
    rw [List.foldlM_cons, hround]
    refine hrest.trans ?_
    rw [List.append_assoc]
    rfl

/-- A batch of reports that were all seen is skipped, and the members are written as they were. -/
theorem processReports_of_seen (sv : SortValues) (hvalid : validateReports df = .ok ⟨⟩)
    (h : ∀ rep ∈ df.rows, (ingestStart cfg wb df).1.Seen (ingestStart cfg wb df).2.seen [] rep) :
    ∃ wb' results n, processReports sv cfg wb df = .ok (wb', results, n) ∧
      (∀ r ∈ results, ∃ label, r = .skipped label) ∧
      wb'.nets = buildHierarchical sv (dedupRdfsPerNet sv (ingestStart cfg wb df).2.members.rows)
        (ingestStart cfg wb df).1.dataCols := by
  have hstart : IngestInv (ingestStart cfg wb df).1 (ingestStart cfg wb df).2.seen
      (ingestStart cfg wb df).2.members [] [] (ingestStart cfg wb df).2 :=
    ⟨.start, rfl, fun s => by simp, rfl, rfl⟩
  have hseen : ∀ r ∈ df.rows.zipIdx,
      (ingestStart cfg wb df).1.isIngested (ingestStart cfg wb df).2.seen r.1 = true := by
    intro r hr
    exact hstart.isIngested_iff.mpr (h r.1 (List.fst_mem_of_mem_zipIdx hr))
  obtain ⟨labels, hloop⟩ := foldlM_ingestReport_of_seen hseen
  -- after the loop nothing can fail: the members are written as they were loaded
  have hrun : ∃ wb' n, processReports sv cfg wb df = .ok (wb', labels.map .skipped, n) ∧
      wb'.nets = buildHierarchical sv (dedupRdfsPerNet sv (ingestStart cfg wb df).2.members.rows)
        (ingestStart cfg wb df).1.dataCols := by
    unfold processReports
    rw [hvalid]
    change ∃ wb' n, (df.rows.zipIdx.foldlM
      (fun st r => ingestReport (ingestStart cfg wb df).1 st r.1 r.2)
      (ingestStart cfg wb df).2 >>= _) = _ ∧ _
    rw [hloop]
    exact ⟨_, _, rfl, rfl⟩
  obtain ⟨wb', n, hrun, hnets⟩ := hrun
  refine ⟨wb', _, n, hrun, fun r hr => ?_, hnets⟩
  obtain ⟨label, -, rfl⟩ := List.mem_map.mp hr
  exact ⟨label, rfl⟩

end

/-! ## A batch that is taken -/

section
variable {env : FoldEnv} {seen : List (List SigVal)} {ms : Members} {pre : List Row}
  {done : List (Row × Option Assignment)} {st : IngestState} {dataCols : List Col}

/-- A round on a report that is skipped, or that the record it is folded into takes. -/
theorem exists_ingestReport (h : IngestInv env seen ms pre done st)
    (hs : Sheetable dataCols st.members) {rep : Row} (i : ℕ)
    (htakes : ¬ env.Seen seen done rep →
      ∀ old j, newest env.cfg st.members (env.row rep) = some (old, j) →
        ∃ nti, st.members.Takes old.cells (env.row rep) nti) :
    ∃ st', ingestReport env st rep i = .ok st' := by
  unfold ingestReport
  dsimp only
  split
  · exact ⟨_, rfl⟩
  · next hseen =>
    have hroute : ∃ p, routeReport .processReports env.cfg st.members (env.dict rep) = .ok p := by
      rcases hn : newest env.cfg st.members (env.row rep) with _ | ⟨old, j⟩
      · exact ⟨(_, _), routeReport_eq_ok_iff.mpr (.inl ⟨hn, rfl, rfl⟩)⟩
      · obtain ⟨nti, hnti⟩ := htakes (fun hk => hseen (h.isIngested_iff.mpr hk)) old j hn
        obtain ⟨-, -, hget, -, -⟩ := newest_eq_some hn
        obtain ⟨my, hmy⟩ := hs.labelled old (List.mem_of_getElem? hget)
        exact ⟨(_, _), routeReport_eq_ok_iff.mpr (.inr ⟨old, j, nti, my, hn, hnti, hmy, rfl, rfl⟩)⟩
    obtain ⟨⟨ms', a⟩, hr⟩ := hroute
    rw [hr]
    exact ⟨_, rfl⟩

theorem exists_foldlM_ingestReport {rows : List (Row × ℕ)} (hs : Sheetable dataCols ms)
    (h : IngestInv env seen ms pre done st)
    (htakes : ∀ done ms' rep post, pre ++ rows.map (·.1) = done.map (·.1) ++ rep :: post →
      Ingests env seen ms done ms' → ¬ env.Seen seen done rep →
        ∀ old i, newest env.cfg ms' (env.row rep) = some (old, i) →
          ∃ nti, ms'.Takes old.cells (env.row rep) nti) :
    ∃ st', rows.foldlM (fun st r => ingestReport env st r.1 r.2) st = .ok st' := by
  induction rows generalizing pre done st with
  | nil => exact ⟨st, rfl⟩
  | cons r rows ih =>
    have hround : ∃ st', ingestReport env st r.1 r.2 = .ok st' := by
      refine exists_ingestReport h (hs.ingests h.ingests) r.2 fun hseen => ?_
      refine htakes done st.members r.1 (rows.map (·.1)) ?_ h.ingests hseen
      rw [h.reports]
      rfl
    obtain ⟨st', hst'⟩ := hround
    obtain ⟨a, h'⟩ := h.step hst'
    rw [List.foldlM_cons, hst']
    refine ih h' fun done ms' rep post hr => htakes done ms' rep post ?_
    rw [← hr, List.append_assoc]
    rfl

end

/-- The members a batch starts from are those of a sheet that was written. -/
theorem Processed.sheetable {Meets : Option Workbook → List (Row × Option ℤ) → Frame → Prop}
    {wb : Option Workbook} {record : List (Row × Option ℤ)} (h : Processed Meets wb record)
    (cfg : MatchConfig) (df : Frame) :
    Sheetable (ingestStart cfg wb df).1.dataCols (ingestStart cfg wb df).2.members := by
  rcases wb with _ | wb
  · exact sheetable_empty df.cols
  · obtain ⟨sv, ms, hms, hw⟩ := h.written wb rfl
    exact (hms.load hw).1

/-- A valid batch whose reports are all taken is processed. -/
theorem Processed.exists_ok {Meets : Option Workbook → List (Row × Option ℤ) → Frame → Prop}
    {sv : SortValues} {cfg : MatchConfig} {wb : Option Workbook} {record : List (Row × Option ℤ)}
    {df : Frame} (h : Processed Meets wb record) (hvalid : validateReports df = .ok ⟨⟩)
    (htakes : TakesReports cfg wb df) :
    ∃ wb' results n, processReports sv cfg wb df = .ok (wb', results, n) := by
  have hstart : IngestInv (ingestStart cfg wb df).1 (ingestStart cfg wb df).2.seen
      (ingestStart cfg wb df).2.members [] [] (ingestStart cfg wb df).2 :=
    ⟨.start, rfl, fun s => by simp, rfl, rfl⟩
  have hloop : ∃ st, df.rows.zipIdx.foldlM
      (fun st r => ingestReport (ingestStart cfg wb df).1 st r.1 r.2)
      (ingestStart cfg wb df).2 = .ok st := by
    refine exists_foldlM_ingestReport (h.sheetable cfg df) hstart fun done ms rep post hr => ?_
    rw [List.zipIdx_map_fst] at hr
    exact htakes done ms rep post hr
  obtain ⟨st, hst⟩ := hloop
  unfold processReports
  rw [hvalid]
  change ∃ wb' results n, (df.rows.zipIdx.foldlM
    (fun st r => ingestReport (ingestStart cfg wb df).1 st r.1 r.2)
    (ingestStart cfg wb df).2 >>= _) = _
  rw [hst]
  exact ⟨_, _, _, rfl⟩

/-! ## Columns that take what a fold assigns -/

theorem takesText_concat {d : Dtype} (h : d.takesText = true) (e : Dtype) :
    (d.concat e).takesText = true := by
  cases d <;> cases e <;> first | rfl | exact absurd h (by decide)

theorem takesInt_concat {d : Dtype} (h : d.takesInt = true) (e : Dtype) :
    (d.concat e).takesInt = true := by
  cases d <;> cases e <;> first | rfl | exact absurd h (by decide)

/-- A table that takes the dates and counts of any fold: its time columns take text, its count
column ints, and its counts are numbers. The columns `keys` of the reports that are folded are
there. -/
structure Members.TakesAll (keys : List Col) (ms : Members) : Prop where
  cols : ∀ c : FoldCol, c.col ∈ keys → c.col ∈ ms.cols
  text : ∀ c : FoldCol, c ≠ .nti → (ms.dtype c).takesText = true
  int : (ms.dtype .nti).takesInt = true
  counts : ∀ m ∈ ms.rows, ∃ n, intOrZero (m.cells .nti) = .ok n

section
variable {ms ms' : Members} {cfg : MatchConfig} {d : Dict} {a : Assignment} {keys : List Col}

/-- Every fold of a report with a count is taken. -/
theorem Members.TakesAll.takes (h : ms.TakesAll keys) {old : Member} (hold : old ∈ ms.rows)
    {new : Row} (hnew : ∃ n, intOrZero (new .nti) = .ok n) :
    ∃ nti, ms.Takes old.cells new nti ∧ ∃ n, intOrZero nti = .ok n := by
  have hdates : ms.takesDates old.cells new = true := by
    unfold Members.takesDates
    rw [List.all_eq_true]
    intro c hc
    rw [h.text c (by rintro rfl; exact absurd hc (by decide)), Bool.or_true]
  obtain ⟨o, ho⟩ := h.counts old hold
  obtain ⟨n, hn⟩ := hnew
  have hsum : ∃ nti, sumNti ms old.cells new = .ok nti ∧ ∃ n, intOrZero nti = .ok n := by
    unfold sumNti
    rw [ho, hn, h.int]
    split
    · show ∃ nti, (if o ≠ 0 ∨ n ≠ 0 then _ else _) = _ ∧ _
      split
      · exact ⟨_, rfl, _, rfl⟩
      · exact ⟨_, rfl, o, ho⟩
    · exact ⟨_, rfl, o, ho⟩
  obtain ⟨nti, hnti, hint⟩ := hsum
  exact ⟨nti, ⟨hdates, hnti⟩, hint⟩

theorem Members.TakesAll.route (h : ms.TakesAll keys) (hkeys : d.keys = keys)
    (hd : ∃ n, intOrZero (d.cells .nti) = .ok n)
    (hr : routeReport .processReports cfg ms d = .ok (ms', a)) : ms'.TakesAll keys := by
  rcases routeReport_eq_ok_iff.mp hr with
    ⟨-, rfl, rfl⟩ | ⟨old, i, nti, my, hnew, hnti, -, rfl, rfl⟩
  · have hdtype : ∀ c : FoldCol, ∃ e, (ms.append d.keys (newMember
        ⟨nextMyNetId ms.rows, nextNetId ms.rows, .new, .null⟩
          (Caller.processReports.record d.cells))).dtype c = (ms.dtype c).concat e := by
      intro c
      show ∃ e, (if c.col ∉ d.keys then _ else if c.col ∈ ms.cols then _ else _) = _
      split
      · exact ⟨ms.dtype c, (if_pos rfl).symm⟩
      · next hc =>
        rw [if_pos (h.cols c (hkeys ▸ not_not.mp hc))]
        exact ⟨_, rfl⟩
    refine ⟨fun c hc => List.mem_append_left _ (h.cols c hc), fun c hc => ?_, ?_, fun m hm => ?_⟩
    · obtain ⟨e, he⟩ := hdtype c
      rw [he]
      exact takesText_concat (h.text c hc) e
    · obtain ⟨e, he⟩ := hdtype .nti
      rw [he]
      exact takesInt_concat h.int e
    · rcases List.mem_append.mp hm with hm | hm
      · exact h.counts m hm
      · rw [List.mem_singleton.mp hm]
        exact hd
  · obtain ⟨-, -, hget, -, -⟩ := newest_eq_some hnew
    obtain ⟨nti', hnti', hint⟩ := h.takes (List.mem_of_getElem? hget) hd
    obtain rfl : nti = nti' := Except.ok.inj (hnti.sum.symm.trans hnti'.sum)
    exact ⟨fun c hc => List.mem_append_left _ (h.cols c hc), h.text, h.int,
      forall_mem_set h.counts hint⟩

theorem Members.TakesAll.ingests {env : FoldEnv} {seen : List (List SigVal)}
    {done : List (Row × Option Assignment)} (h : ms.TakesAll env.keys)
    (hi : Ingests env seen ms done ms')
    (hdone : ∀ p ∈ done, ∃ n, intOrZero (env.row p.1 .nti) = .ok n) : ms'.TakesAll env.keys := by
  induction hi with
  | start => exact h
  | skip _ _ ih => exact ih fun p hp => hdone p (List.mem_append_left _ hp)
  | route _ _ last ih =>
    exact (ih fun p hp => hdone p (List.mem_append_left _ hp)).route rfl
      (hdone _ (List.mem_append_right _ List.mem_cons_self)) last

end

/-- A sheet whose columns take dates and counts takes a batch whose counts are numbers. -/
theorem takesReports_of_takesAll {cfg : MatchConfig} {wb : Option Workbook} {df : Frame}
    (h : (ingestStart cfg wb df).2.members.TakesAll (ingestStart cfg wb df).1.keys)
    (hdf : ∀ r ∈ df.rows, ∃ n, intOrZero ((ingestStart cfg wb df).1.row r .nti) = .ok n) :
    TakesReports cfg wb df := by
  intro done ms rep post hrows hi _ old i hnew
  have hms := h.ingests hi fun p hp => hdf p.1 (by
    rw [hrows]
    exact List.mem_append_left _ (List.mem_map_of_mem hp))
  obtain ⟨-, -, hget, -, -⟩ := newest_eq_some hnew
  obtain ⟨nti, hnti, -⟩ := hms.takes (List.mem_of_getElem? hget) (hdf rep (by rw [hrows]; simp))
  exact ⟨nti, hnti⟩

/-! ## What a sheet says -/

/-- What the sheet of some members says. -/
theorem shown_of_written {sv : SortValues} {wb : Workbook} {ms : List Member}
    (h : wb.nets = buildHierarchical sv ms wb.dataCols) :
    wb.shown = (hierMembers sv ms).map fun (my, n, m) =>
      (fmtMyNet my, fmtSystemNet n, fun c => (m.cells.only wb.dataCols c).val) := by
  obtain ⟨frame, hframe⟩ := buildHierarchical_eq sv ms wb.dataCols
  unfold Workbook.shown
  rw [h, hframe, List.map_map]
  refine List.map_congr_left fun x _ => ?_
  obtain ⟨my, n, m⟩ := x
  show (fmtMyNet my, fmtSystemNet n,
    fun c => (storeRow frame (m.cells.only wb.dataCols) c).val) = _
  rw [funext (storeRow_agrees frame (m.cells.only wb.dataCols))]

/-- Where each net has one record, its sheet does not depend on how the records are sorted. -/
theorem Sheetable.shown_congr {sv sv' : SortValues} {ms : Members} {wb wb' : Workbook}
    (h : Sheetable wb.dataCols ms)
    (hw : wb.nets = buildHierarchical sv (dedupRdfsPerNet sv ms.rows) wb.dataCols)
    (hw' : wb'.nets = buildHierarchical sv' (dedupRdfsPerNet sv' ms.rows) wb'.dataCols)
    (hcols : wb'.dataCols = wb.dataCols) : wb'.shown = wb.shown := by
  have hperm := dedupRdfsPerNet_perm sv h.nodup
  have hperm' := dedupRdfsPerNet_perm sv' h.nodup
  have hmem : ∀ m', m' ∈ dedupRdfsPerNet sv' ms.rows ↔
      ∃ m ∈ dedupRdfsPerNet sv ms.rows, id m = m' := by
    intro m'
    rw [hperm'.mem_iff, ← hperm.mem_iff]
    simp
  rw [shown_of_written hw, shown_of_written hw', hcols,
    hierMembers_congr ((hperm.map _).nodup_iff.mpr h.nodup)
      ((hperm'.map _).nodup_iff.mpr h.nodup) hmem (fun _ => rfl) (fun _ => rfl), List.map_map]
  rfl

/-- The members a sheet gives back are written to the same sheet. -/
theorem Sheetable.shown_again {sv sv' : SortValues} {ms : Members} {wb wb' : Workbook}
    (h : Sheetable wb.dataCols ms)
    (hw : wb.nets = buildHierarchical sv (dedupRdfsPerNet sv ms.rows) wb.dataCols)
    (hw' : wb'.nets = buildHierarchical sv' (dedupRdfsPerNet sv' (loadNets (some wb)).1.rows)
      wb'.dataCols)
    (hcols : wb'.dataCols = wb.dataCols) : wb'.shown = wb.shown := by
  obtain ⟨hload, f, hf⟩ := h.load hw
  have hperm := dedupRdfsPerNet_perm sv h.nodup
  have hperm' := dedupRdfsPerNet_perm sv' hload.nodup
  have hmem : ∀ m', m' ∈ dedupRdfsPerNet sv' (loadNets (some wb)).1.rows ↔
      ∃ m ∈ dedupRdfsPerNet sv ms.rows, f m = m' := by
    intro m'
    rw [hperm'.mem_iff, hf.mem_iff]
    exact exists_congr fun m => and_congr_left fun _ => hperm.mem_iff.symm
  rw [shown_of_written hw, shown_of_written hw', hcols,
    hierMembers_congr ((hperm.map _).nodup_iff.mpr h.nodup)
      ((hperm'.map _).nodup_iff.mpr hload.nodup) hmem hf.netId hf.myNetId, List.map_map]
  refine List.map_congr_left fun x _ => ?_
  obtain ⟨my, n, m⟩ := x
  have hcells : ∀ c, ((f m).cells.only wb.dataCols c).val = (m.cells.only wb.dataCols c).val := by
    intro c
    by_cases hc : c ∈ wb.dataCols
    · rw [Row.only_of_mem hc, hf.cells m c]
    · rw [Row.only_of_notMem hc, Row.only_of_notMem hc]
  show (_, _, fun c => ((f m).cells.only wb.dataCols c).val) = _
  rw [funext hcells]

/-- The order of records with the same LTI shows neither in the results nor in the sheet. -/
theorem Processed.sorted_either_way {Meets : Option Workbook → List (Row × Option ℤ) → Frame → Prop}
    {sv sv' : SortValues} {cfg : MatchConfig} {wb : Option Workbook}
    {record : List (Row × Option ℤ)} {df : Frame} {wb₁ wb₂ : Workbook}
    {results results' : List Result}
    {n n' : ℕ} (h : Processed Meets wb record)
    (ok : processReports sv cfg wb df = .ok (wb₁, results, n))
    (ok' : processReports sv' cfg wb df = .ok (wb₂, results', n')) :
    results' = results ∧ wb₂.shown = wb₁.shown := by
  obtain ⟨⟨⟩, -, ok⟩ := Except.bind_eq_ok_iff.mp ok
  obtain ⟨⟨⟩, -, ok'⟩ := Except.bind_eq_ok_iff.mp ok'
  obtain ⟨st, hst, ok⟩ := Except.bind_eq_ok_iff.mp ok
  obtain ⟨st', hst', ok'⟩ := Except.bind_eq_ok_iff.mp ok'
  obtain rfl := Except.ok.inj (hst.symm.trans hst')
  obtain ⟨rfl, hrest⟩ := Prod.mk.inj (Except.ok.inj ok)
  obtain ⟨rfl, hrest'⟩ := Prod.mk.inj (Except.ok.inj ok')
  obtain ⟨done, hinv⟩ := foldlM_ingestReport hst rfl rfl
  refine ⟨(Prod.mk.inj hrest').1.symm.trans (Prod.mk.inj hrest).1, ?_⟩
  exact ((h.sheetable cfg df).ingests hinv.ingests).shown_congr rfl rfl rfl

/-! ## Each report once -/

theorem ingestedOnce {sv : SortValues} {cfg : MatchConfig} {wb : Option Workbook}
    {record : List (Row × Option ℤ)} {df : Frame} {wb' : Workbook} {results : List Result} {n : ℕ}
    (before : Processed (fun wb _ df => TellsReports wb df) wb record)
    (meets : TellsReports wb df) (ok : processReports sv cfg wb df = .ok (wb', results, n)) :
    IngestedOnce (record ++ df.record results) df wb' := by
  have hrun := Processed.batch before meets ok
  have hled := ledger_of_processed hrun
  obtain ⟨done, ms, hb⟩ := processReports_cases ok
  have hvalid := validateReports_eq_ok hb.valid
  refine ⟨fun p hp => ?_, hled.once, fun p hp => ?_, fun sv' cfg' => ?_⟩
  · obtain ⟨e, he, hs⟩ := hled.held p hp
    obtain ⟨r, hr, hag⟩ := hrun.logged he
    exact ⟨r, hr, hag.sameReport.symm.trans hs⟩
  · obtain ⟨e, he, hs⟩ := hled.held p hp
    obtain ⟨x, hx, rfl⟩ := List.mem_map.mp he
    obtain ⟨y, hy, rfl⟩ := List.mem_map.mp hx
    exact ⟨y, hy, (Row.readBack_agrees y.cells).sameReport.symm.trans hs⟩
  · -- the batch has the signature columns of the log it left
    have hcols : ∀ c ∈ seenCols (some wb'), c ∈ df.cols := by
      intro c hc
      have hsig := seenCols_subset hc
      unfold seenCols at hc
      split at hc
      · exact absurd hc List.not_mem_nil
      · have hcol : c ∈ wb'.logCols := of_decide_eq_true (List.mem_filter.mp hc).2
        rw [show wb'.logCols = _ from congrArg Prod.fst hb.log] at hcol
        rcases of_mem_fullCols hcol with ⟨hl, hprev⟩ | hnew
        · refine meets.columns c ?_
          unfold seenCols
          rw [if_neg hl]
          exact List.mem_filter.mpr ⟨hsig, decide_eq_true hprev⟩
        · exact hnew
    have hseen : ∀ rep ∈ df.rows, (ingestStart cfg' (some wb') df).1.Seen
        (ingestStart cfg' (some wb') df).2.seen [] rep := by
      intro rep hrep
      have hreport : rep.only df.cols ∈ (df.record results).map (·.1) := by
        rw [hb.fst_record]
        exact List.mem_map_of_mem hrep
      obtain ⟨p, hp, hpe⟩ := List.mem_map.mp hreport
      obtain ⟨e, he, hs⟩ := hled.held p (List.mem_append_right _ hp)
      rw [hpe] at hs
      refine (seen_iff cfg').mpr (hled.sigSeen hcols (List.ne_nil_of_mem he) ?_)
      exact not_isNew_iff.mpr ⟨e, .inl he, hs⟩
    obtain ⟨wb'', results', n', hok, hskip, hnets⟩ := processReports_of_seen sv' hb.valid hseen
    obtain ⟨done', ms₁, hb'⟩ := processReports_cases hok
    have hdata : wb''.dataCols = wb'.dataCols := hb'.dataCols
    obtain ⟨sv₀, ms', hms', hw⟩ := hrun.written wb' rfl
    have hw' : wb''.nets = buildHierarchical sv' (dedupRdfsPerNet sv' (loadNets (some wb')).1.rows)
        wb''.dataCols := by
      rw [hdata]
      exact hnets
    exact ⟨wb'', results', n', hok, hskip, hms'.shown_again hw hw' hdata⟩

/-- In a run whose valid batches are all told apart and taken, each of them is processed, each
report is folded once and logged, and the last batch can be submitted again without effect. -/
theorem reports_ingested_once {sv : SortValues} {cfg : MatchConfig} {wb : Option Workbook}
    {record : List (Row × Option ℤ)} {df : Frame}
    (before : Processed (fun wb _ df => TellsReports wb df) wb record)
    (valid : validateReports df = .ok ⟨⟩) (meets : TellsReports wb df)
    (takes : TakesReports cfg wb df) :
    ∃ wb' results n, processReports sv cfg wb df = .ok (wb', results, n) ∧
      IngestedOnce (record ++ df.record results) df wb' := by
  obtain ⟨wb', results, n, ok⟩ := before.exists_ok valid takes
  exact ⟨wb', results, n, ok, ingestedOnce before meets ok⟩

/-- Reports of different emitters in a first batch, of which the second is folded into the net of
the first. -/
theorem reports_ingested_once_heardBatch :
    ∃ wb' results n,
      processReports .stable {} none (heardBatch [("A", 1), ("A", 2)]) = .ok (wb', results, n) ∧
      results.map Result.net = [some 100001, some 100001] ∧
      IngestedOnce [(heardBy "A" 1, some 100001), (heardBy "A" 2, some 100001)]
        (heardBatch [("A", 1), ("A", 2)]) wb' := by
  have hrun : (processReports .stable {} none (heardBatch [("A", 1), ("A", 2)])).map
      (fun p => p.2.1.map Result.net) = .ok [some 100001, some 100001] := by decide +kernel
  have hdiff : ¬ SameReport (heardBy "A" 1) (heardBy "A" 2) := by
    intro h
    exact absurd (h.signed .ffId (by decide)) (by decide +kernel)
  have hmeets : TellsReports none (heardBatch [("A", 1), ("A", 2)]) := by
    refine ⟨fun c hc => absurd hc List.not_mem_nil, fun _ => ?_, fun pre rep post _ hseen => ?_,
      fun pre rep post _ _ e he => absurd he List.not_mem_nil, ?_⟩
    · rw [reports_heardBatch]
      exact List.pairwise_pair.mpr hdiff
    · exact absurd rfl hseen.1
    · -- the two reports have different ids, which are part of the key
      intro pre r mid rep post hr _ _ hkey
      rw [reports_heardBatch] at hr
      have hlen := congrArg List.length hr
      have hpre : pre = [] := by
        apply List.eq_nil_of_length_eq_zero
        simp at hlen
        omega
      have hmid : mid = [] := by
        apply List.eq_nil_of_length_eq_zero
        simp at hlen
        omega
      rw [hpre, hmid] at hr
      obtain ⟨rfl, hr'⟩ := List.cons.inj hr
      obtain ⟨rfl, -⟩ := List.cons.inj hr'
      exact absurd (hkey .ffId (by decide)) (by decide +kernel)
  have htakes : TakesReports {} none (heardBatch [("A", 1), ("A", 2)]) := by
    refine takesReports_of_takesAll ⟨?_, fun c _ => rfl, rfl, fun _ hm => ?_⟩ fun r hr => ?_
    · intro c hc
      cases c <;> decide
    · exact absurd hm List.not_mem_nil
    · obtain ⟨h, -, rfl⟩ := List.mem_map.mp hr
      exact ⟨1, rfl⟩
  obtain ⟨wb', results, n, hp, honce⟩ := @reports_ingested_once .stable {} none [] _ .start
    (by decide +kernel) hmeets htakes
  obtain ⟨⟨wb₁, results₁, n₁⟩, hp₁, hnets⟩ := Except.map_eq_ok_iff.mp hrun
  obtain ⟨rfl, hrest⟩ := Prod.mk.inj (Except.ok.inj (hp.symm.trans hp₁))
  obtain ⟨rfl, rfl⟩ := Prod.mk.inj hrest
  dsimp only at hnets
  refine ⟨wb', results, n, hp, hnets, ?_⟩
  unfold Frame.record at honce
  rw [hnets, reports_heardBatch] at honce
  exact honce

/-- A report that is twice in the first batch is folded twice. -/
theorem not_ingested_once_heardBatch :
    ¬ ∀ (sv : SortValues) (cfg : MatchConfig) (wb : Option Workbook)
      (record : List (Row × Option ℤ)) (df : Frame) (wb' : Workbook) (results : List Result)
      (n : ℕ),
      Processed (fun _ _ _ => True) wb record →
        processReports sv cfg wb df = .ok (wb', results, n) →
          IngestedOnce (record ++ df.record results) df wb' := by
  intro hclaim
  have hrun : (processReports .stable {} none (heardBatch [("A", 1), ("A", 1)])).map
      (fun p => p.2.1.map Result.net) = .ok [some 100001, some 100001] := by decide +kernel
  obtain ⟨⟨wb', results, n⟩, hp, hnets⟩ := Except.map_eq_ok_iff.mp hrun
  have honce := (hclaim _ _ _ _ _ _ _ _ .start hp).once
  dsimp only at hnets
  unfold Frame.record at honce
  rw [hnets, reports_heardBatch] at honce
  exact List.pairwise_pair.mp honce (.refl _)

end NetBuild
