import NetBuild.NetFileRuns
import NetBuild.WorkbookLedger

/-!
# A batch submitted until a run returns

A run on its own leaves the net workbook as it was, or as `process_reports` makes it, wherever it is
stopped and whichever command fails. A batch can be submitted again and again until a run returns:
its reports are folded once all the same, whether an earlier run had replaced the workbook or not.
-/

namespace NetBuild

namespace NetFile

/-! ## A run on its own -/

/-- No file of the call is named like a temporary one, and the log is not written over the net
workbook. -/
structure ReportsCall.Proper (c : ReportsCall) : Prop where
  netFile : ¬ IsTemp c.netFile
  logCsv : ∀ f, c.logCsv = some f → ¬ IsTemp f
  apart : c.logCsv ≠ some c.netFile

/-- A run on its own, that has `q` still to do where it stops. -/
def Attempt (c : ReportsCall) (q : FileProg Unit (List Result × ℕ))
    (files files' : Text → Option File) : Prop :=
  c.Proper ∧ ∃ t, Prog.Steps exec (.of files) (processReports () c) t q ∧ t.now = files'

section
variable {c : ReportsCall} {q : FileProg Unit (List Result × ℕ)} {files files' : Text → Option File}

/-- The net workbook is the one `process_reports` makes of it. -/
def Folded (c : ReportsCall) (files files' : Text → Option File) : Prop :=
  ∃ newDf wb out, c.source = .ok newDf ∧
    NetBuild.processReports c.sortValues c.cfg (bookOf (files c.netFile)) newDf = .ok (wb, out) ∧
    files' c.netFile = some (.workbook wb)

theorem Attempt.orderly (h : Attempt c q files files') (hbook : IsBook (files c.netFile)) :
    Orderly (fun _ : Unit => c) files :=
  ⟨fun _ => h.1.netFile, fun _ => h.1.logCsv, fun _ _ _ hf he => h.1.apart (he ▸ hf),
    fun _ => hbook⟩

/-- The run replaced the net workbook, or did not. -/
theorem History.single {v₀ v : Option File} {past : List (Unit × Option File)}
    (h : History (fun _ : Unit => c) c.netFile v₀ v past) :
    past = [] ∧ v = v₀ ∨ ∃ newDf wb out, c.source = .ok newDf ∧
      NetBuild.processReports c.sortValues c.cfg (bookOf v₀) newDf = .ok (wb, out) ∧
      v = some (.workbook wb) := by
  cases h with
  | start => exact .inl ⟨rfl, rfl⟩
  | @replaced v nets prevLog past i older newDf wb out before once _ source log loaded ok =>
    -- there is one run, which had not replaced it before
    rcases past with _ | ⟨x, past⟩
    · cases before
      obtain ⟨rfl, rfl⟩ : prevLog = v₀ ∧ older = [] := by
        have hlen := log.length_le
        simp only [List.map_nil, List.length_cons, List.length_nil] at hlen
        have hnil : older = [] := List.eq_nil_of_length_eq_zero (by omega)
        rw [hnil] at log
        exact ⟨(List.cons.inj (log.eq_of_length rfl)).1, hnil⟩
      obtain rfl := List.mem_singleton.mp loaded
      exact .inr ⟨newDf, wb, out, source, ok, rfl⟩
    · exact absurd List.mem_cons_self once

/-- Wherever the run stops. -/
theorem Attempt.cases (h : Attempt c q files files') (hbook : IsBook (files c.netFile)) :
    IsBook (files' c.netFile) ∧
      (files' c.netFile = files c.netFile ∨ Folded c files files') ∧
      ∀ out, q = .ret out → c.dryRun = false → Folded c files files' := by
  obtain ⟨-, t, hsteps, rfl⟩ := id h
  have ho := h.orderly hbook
  obtain ⟨hinv, hup⟩ := (upholds_processReports ho (sound_of _ files) (idle_of files ())).steps
    hsteps.attempt (sound_of _ files)
  have hhist := hinv.history ()
  have hsingle := hhist.single
  refine ⟨hhist.isBook hbook, hsingle.imp (·.2) id, fun out hq hdry => hsingle.resolve_left ?_⟩
  rintro ⟨hpast, -⟩
  rw [hq] at hup
  have hwritten := (hup t ((pact _ files).refl () t) hinv).written out rfl hdry
  unfold Written Dir.writers at hwritten
  rw [hpast] at hwritten
  exact absurd hwritten List.not_mem_nil

end

/-! ## A batch that a workbook has -/

/-- All reports of the batch are in the log, which has no signature column that the batch has
not. -/
structure Settled (df : Frame) (wb : Workbook) (record : List (Row × Option ℤ)) : Prop where
  processed : Processed (fun wb _ df => TellsReports wb df) (some wb) record
  valid : validateReports df = .ok ⟨⟩
  columns : ∀ c ∈ seenCols (some wb), c ∈ df.cols
  held : ∀ r ∈ df.reports, ∃ e ∈ (NetBuild.loadLog (some wb)).rows, SameReport e r

section
variable {df : Frame} {wb wb' : Workbook} {prev : Option Workbook} {cfg : MatchConfig}
  {record : List (Row × Option ℤ)} {results : List Result} {n : ℕ}

/-- No report of the batch is new. -/
theorem Settled.tells (h : Settled df wb record) : TellsReports (some wb) df := by
  have hold : ∀ pre rep post, df.reports = pre ++ rep :: post → ¬ IsNew (some wb) pre rep := by
    intro pre rep post hr
    obtain ⟨e, he, hs⟩ := h.held rep (by rw [hr]; exact List.mem_append_right _ List.mem_cons_self)
    exact not_isNew_iff.mpr ⟨e, .inl he, hs⟩
  refine ⟨h.columns, fun hnil => ?_, fun pre rep post hr _ => hold pre rep post hr,
    fun pre rep post hr hnew => absurd hnew (hold pre rep post hr),
    fun pre r mid rep post hr hnew => absurd hnew (hold pre r _ hr)⟩
  have hrows := (validateReports_eq_ok h.valid).1
  obtain ⟨r, hr⟩ := List.exists_mem_of_ne_nil df.reports (by simpa [Frame.reports] using hrows)
  obtain ⟨e, he, -⟩ := h.held r hr
  rw [hnil] at he
  exact absurd he List.not_mem_nil

/-- A batch that was processed is one the workbook has. -/
theorem settled_of_ok (before : Processed (fun wb _ df => TellsReports wb df) prev record)
    (meets : TellsReports prev df)
    {sv : SortValues} (ok : NetBuild.processReports sv cfg prev df = .ok (wb, results, n)) :
    Settled df wb (record ++ df.record results) := by
  have hrun := Processed.batch before meets ok
  obtain ⟨done, ms, hb⟩ := processReports_cases ok
  refine ⟨hrun, hb.valid, fun c hc => ?_, fun r hr => ?_⟩
  · have hsig := seenCols_subset hc
    unfold seenCols at hc
    split at hc
    · exact absurd hc List.not_mem_nil
    · have hcol : c ∈ wb.logCols := of_decide_eq_true (List.mem_filter.mp hc).2
      rw [show wb.logCols = _ from congrArg Prod.fst hb.log] at hcol
      rcases of_mem_fullCols hcol with ⟨hl, hprev⟩ | hnew
      · refine meets.columns c ?_
        unfold seenCols
        rw [if_neg hl]
        exact List.mem_filter.mpr ⟨hsig, decide_eq_true hprev⟩
      · exact hnew
  · rw [← hb.fst_record] at hr
    obtain ⟨p, hp, rfl⟩ := List.mem_map.mp hr
    exact (ledger_of_processed hrun).held p (List.mem_append_right _ hp)

/-- Submitted again, it is skipped, and the nets stay as they are. -/
theorem Settled.again (h : Settled df wb record)
    {sv : SortValues} (ok : NetBuild.processReports sv cfg (some wb) df = .ok (wb', results, n)) :
    Settled df wb' (record ++ df.record results) ∧ wb'.shown = wb.shown ∧
      ingested (df.record results) = [] := by
  have hled := ledger_of_processed h.processed
  have hseen : ∀ rep ∈ df.rows, (ingestStart cfg (some wb) df).1.Seen
      (ingestStart cfg (some wb) df).2.seen [] rep := by
    intro rep hrep
    obtain ⟨e, he, hs⟩ := h.held _ (List.mem_map_of_mem hrep)
    refine (seen_iff cfg).mpr (hled.sigSeen h.columns (List.ne_nil_of_mem he) ?_)
    exact not_isNew_iff.mpr ⟨e, .inl he, hs⟩
  obtain ⟨wb'', results', n', hok, hskip, hnets⟩ := processReports_of_seen sv h.valid hseen
  rw [ok] at hok
  obtain ⟨rfl, hrest⟩ := Prod.mk.inj (Except.ok.inj hok)
  obtain ⟨rfl, rfl⟩ := Prod.mk.inj hrest
  obtain ⟨done, ms₁, hb⟩ := processReports_cases ok
  have hdata : wb'.dataCols = wb.dataCols := hb.dataCols
  obtain ⟨sv₀, ms, hms, hw⟩ := h.processed.written wb rfl
  have hw' : wb'.nets = buildHierarchical sv (dedupRdfsPerNet sv (loadNets (some wb)).1.rows)
      wb'.dataCols := by
    rw [hdata]
    exact hnets
  refine ⟨settled_of_ok h.processed h.tells ok, hms.shown_again hw hw' hdata, ?_⟩
  refine List.filterMap_eq_nil_iff.mpr fun p hp => ?_
  obtain ⟨r, hr, hp'⟩ := List.mem_map.mp (List.of_mem_zip hp).2
  obtain ⟨label, rfl⟩ := hskip r hr
  rw [← hp']
  rfl

end

/-! ## Again and again -/

section
variable {p : Text} {df : Frame} {sv : SortValues} {cfg : MatchConfig} {wb : Option Workbook}
  {wb₁ : Workbook}
  {record : List (Row × Option ℤ)} {results : List Result} {n : ℕ}
  {files files' files'' : Text → Option File}

/-- A run that is given the batch, and stops somewhere. -/
def Submitted (p : Text) (cfg : MatchConfig) (df : Frame) (files files' : Text → Option File) :
    Prop :=
  ∃ c q, Attempt c q files files' ∧ c.netFile = p ∧ c.cfg = cfg ∧ c.source = .ok df

/-- The net workbook has the batch, folded once, and shows what `wb₁` does. -/
def HasBatch (p : Text) (df : Frame) (wb₁ : Workbook) (record : List (Row × Option ℤ))
    (files : Text → Option File) : Prop :=
  ∃ wb' record', files p = some (.workbook wb') ∧ Settled df wb' record' ∧
    wb'.shown = wb₁.shown ∧ ingested record' = ingested record

/-- A run folds the batch in, unless the workbook has it. -/
theorem hasBatch_of_folded {c : ReportsCall}
    (before : Processed (fun wb _ df => TellsReports wb df) wb record) (meets : TellsReports wb df)
    (ok : NetBuild.processReports sv cfg wb df = .ok (wb₁, results, n))
    (hs : bookOf (files p) = wb ∨ HasBatch p df wb₁ (record ++ df.record results) files)
    (hp : c.netFile = p) (hcfg : c.cfg = cfg) (hsource : c.source = .ok df)
    (h : Folded c files files') : HasBatch p df wb₁ (record ++ df.record results) files' := by
  obtain ⟨newDf, wb₂, ⟨results₂, n₂⟩, hdf, hok, hnow⟩ := h
  obtain rfl := Except.ok.inj (hsource.symm.trans hdf)
  rw [hp, hcfg] at hok
  rw [hp] at hnow
  rcases hs with hwb | ⟨wb', record', hfile, hsettled, hshown, hing⟩
  · rw [hwb] at hok
    obtain ⟨rfl, hshown⟩ := before.sorted_either_way ok hok
    exact ⟨wb₂, _, hnow, settled_of_ok before meets hok, hshown, rfl⟩
  · rw [hfile] at hok
    obtain ⟨hagain, hshow, hnone⟩ := hsettled.again hok
    refine ⟨wb₂, _, hnow, hagain, hshow.trans hshown, ?_⟩
    rw [ingested_append, hnone, List.append_nil, hing]

/-- However often a batch is submitted, and wherever these runs stop, once a run has returned each
report of the batch has been folded once, and the workbook shows what one run makes of it. -/
theorem retried_batch_folded_once
    (before : Processed (fun wb _ df => TellsReports wb df) wb record) (meets : TellsReports wb df)
    (ok : NetBuild.processReports sv cfg wb df = .ok (wb₁, results, n))
    (hfile : files p = wb.map File.workbook)
    (hruns : Relation.ReflTransGen (Submitted p cfg df) files files') :
    (files' p = files p ∨ HasBatch p df wb₁ (record ++ df.record results) files') ∧
      ∀ c out, c.netFile = p → c.cfg = cfg → c.source = .ok df → c.dryRun = false →
        Attempt c (.ret out) files' files'' →
          HasBatch p df wb₁ (record ++ df.record results) files'' := by
  have hbookOf : bookOf (files p) = wb := by
    rw [hfile]
    cases wb <;> rfl
  have hbook₀ : IsBook (files p) := by
    rw [hfile]
    cases wb with
    | none => exact .inl rfl
    | some wb => exact .inr ⟨wb, rfl⟩
  have hinv : IsBook (files' p) ∧
      (files' p = files p ∨ HasBatch p df wb₁ (record ++ df.record results) files') := by
    induction hruns with
    | refl => exact ⟨hbook₀, .inl rfl⟩
    | tail _ hrun ih =>
      obtain ⟨c, q, hattempt, hp, hcfg, hsource⟩ := hrun
      obtain ⟨hbook, hs⟩ := ih
      obtain ⟨hbook', hcases, -⟩ := hattempt.cases (hp ▸ hbook)
      rw [hp] at hbook' hcases
      refine ⟨hbook', ?_⟩
      rcases hcases with hsame | hfolded
      · refine hs.imp hsame.trans fun ⟨wb', record', hnow, h⟩ => ⟨wb', record', ?_, h⟩
        rw [hsame, hnow]
      · exact .inr (hasBatch_of_folded before meets ok (hs.imp (fun h => h ▸ hbookOf) id) hp hcfg
          hsource hfolded)
  refine ⟨hinv.2, fun c out hp hcfg hsource hdry hattempt => ?_⟩
  exact hasBatch_of_folded before meets ok (hinv.2.imp (fun h => h ▸ hbookOf) id) hp hcfg hsource
    ((hattempt.cases (hp ▸ hinv.1)).2.2 out rfl hdry)

end

/-- A report alone in the first batch is told from all others. -/
theorem tellsReports_one (station : String) (ffId : ℤ) :
    TellsReports none (heardBatch [(station, ffId)]) := by
  refine ⟨fun c hc => absurd hc List.not_mem_nil, fun _ => ?_, fun pre rep post _ hseen => ?_,
    fun pre rep post _ _ e he => absurd he List.not_mem_nil, fun pre r mid rep post hr => ?_⟩
  · rw [reports_heardBatch]
    exact List.pairwise_singleton _ _
  · exact absurd rfl hseen.1
  · rw [reports_heardBatch] at hr
    have hlen := congrArg List.length hr
    simp only [List.map_cons, List.map_nil, List.length_cons, List.length_nil,
      List.length_append] at hlen
    omega

theorem proper_firstCall : firstCall.Proper where
  netFile h := absurd h.length_le (by decide)
  logCsv _ h := nomatch h
  apart := nofun

/-- The report is folded once by four runs: the first is stopped while it writes, the second after
it has replaced the workbook, the third cannot write, and the fourth returns. -/
theorem retried_batch_folded_once_stopped : ∃ files₁ files₂ files₃ files₄ q₁ q₂ out wb₁ record,
    Attempt firstCall q₁ (fun _ => none) files₁ ∧ (∀ o, q₁.attempt ≠ .ret o) ∧
      files₁ firstCall.netFile = none ∧
    Attempt firstCall q₂ files₁ files₂ ∧ (∀ o, q₂.attempt ≠ .ret o) ∧
      files₂ firstCall.netFile ≠ none ∧
    Attempt firstCall (.raise .osError) files₂ files₃ ∧ Attempt firstCall (.ret out) files₃ files₄ ∧
      HasBatch firstCall.netFile (heardBatch [("A", 1)]) wb₁ record files₄ := by
  have hok : ((NetBuild.processReports .stable {} none (heardBatch [("A", 1)])).bind fun a =>
      (NetBuild.processReports .stable {} (some a.1) (heardBatch [("A", 1)])).map fun _ => ())
        = .ok () := by decide +kernel
  obtain ⟨made, hp, hok⟩ := Except.bind_eq_ok_iff.mp hok
  obtain ⟨made', hp', -⟩ := Except.map_eq_ok_iff.mp hok
  have hne (i : Fin 4) : firstCall.netFile ≠ firstTmp i :=
    fun he => proper_firstCall.netFile (he ▸ isTemp_firstTmp i)
  have hread (wb : Option Workbook) (made : Workbook × List Result × ℕ)
      (files : Text → Option File) (h : files firstCall.netFile = wb.map File.workbook)
      (hp : NetBuild.processReports .stable {} wb (heardBatch [("A", 1)]) = .ok made) :
      Prog.Steps exec (.of files) (processReports () firstCall) (.of files)
        (firstCall.write () made) := steps_read (s := .of files) () h rfl hp rfl
  set s₀ : Dir Unit := .of fun _ => none
  obtain ⟨q₁, hsteps₁, hq₁⟩ := @steps_write_stopped _ s₀ (firstTmp 0) firstCall made ()
    (isTemp_firstTmp 0) rfl rfl
  set files₁ := ((s₀.make () (firstTmp 0)).put (firstTmp 0) (some (.fragment true))).now
  have hother₁ (f : Text) (hf : f ≠ firstTmp 0) : files₁ f = none := Dir.now_make_put () _ hf
  have h₁ : Attempt firstCall q₁ (fun _ => none) files₁ :=
    ⟨proper_firstCall, _, (hread none made _ rfl hp).trans hsteps₁, rfl⟩
  have hnow₁ := hother₁ _ (hne 0)
  obtain ⟨t₂, q₂, hsteps₂, hq₂, -, hnow₂, hother₂, -⟩ := @steps_write_replaced _ (.of files₁)
    (firstTmp 1) firstCall made () (isTemp_firstTmp 1) (hother₁ (firstTmp 1) (by decide)) rfl
    (hne 1)
  have h₂ : Attempt firstCall q₂ files₁ t₂.now :=
    ⟨proper_firstCall, _, (hread none made _ hnow₁ hp).trans hsteps₂, rfl⟩
  have hfree (i : Fin 4) (hi : firstTmp i ≠ firstTmp 0) : t₂.now (firstTmp i) = none :=
    (hother₂ _ (hne i).symm).trans (hother₁ _ hi)
  have hsteps₃ := @steps_write_failed _ (.of t₂.now) (firstTmp 2) firstCall made' ()
    (isTemp_firstTmp 2) (hfree 2 (by decide)) rfl
  set files₃ := ((Dir.make (.of t₂.now) () (firstTmp 2)).put (firstTmp 2) none).now
  have hother₃ (f : Text) (hf : f ≠ firstTmp 2) : files₃ f = t₂.now f := Dir.now_make_put () _ hf
  have h₃ : Attempt firstCall (.raise .osError) t₂.now files₃ :=
    ⟨proper_firstCall, _, (hread (some made.1) made' _ hnow₂ hp').trans hsteps₃, rfl⟩
  obtain ⟨t₄, q₄, hsteps₄, -, hend₄, -⟩ := @steps_write_replaced _ (.of files₃)
    (firstTmp 3) firstCall made' () (isTemp_firstTmp 3)
    ((hother₃ (firstTmp 3) (by decide)).trans (hfree 3 (by decide))) rfl (hne 3)
  have hnow₃ : files₃ firstCall.netFile = some (.workbook made.1) :=
    (hother₃ _ (hne 2)).trans hnow₂
  have h₄ : Attempt firstCall (.ret made'.2) files₃ t₄.now :=
    ⟨proper_firstCall, _, (hread (some made.1) made' _ hnow₃ hp').trans
      (hsteps₄.trans (hend₄ rfl)), rfl⟩
  have hruns : Relation.ReflTransGen (Submitted firstCall.netFile {} (heardBatch [("A", 1)]))
      (fun _ => none) files₃ :=
    .tail (.tail (.tail .refl ⟨firstCall, _, h₁, rfl, rfl, rfl⟩) ⟨firstCall, _, h₂, rfl, rfl, rfl⟩)
      ⟨firstCall, _, h₃, rfl, rfl, rfl⟩
  refine ⟨files₁, t₂.now, files₃, t₄.now, q₁, q₂, made'.2, made.1, _, h₁, hq₁, hnow₁, h₂, hq₂, ?_,
    h₃, h₄, (retried_batch_folded_once .start (tellsReports_one "A" 1) hp rfl hruns).2 firstCall
      made'.2 rfl rfl rfl rfl h₄⟩
  rw [hnow₂]
  exact nofun

end NetFile

end NetBuild
