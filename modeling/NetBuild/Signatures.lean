import NetBuild.BuildLedger

/-!
# Signatures through the history

A report is skipped when the history has a row with its signature. The report and the row were
written and read in frames of their own, whose columns take their types from whatever other rows
there are; `signatures_round_trip` says that none of it shows in the signature, and that a row
speaks for its own report only.
-/

namespace NetBuild

/-! ## A round of the loop -/

/-- The `FoldEnv` of a build on the rows it read. -/
def startEnv (cfg : MatchConfig) (building : List (ℤ × Net)) (history : List (HistKey × Hist))
    (reports : List Report) : FoldEnv :=
  (foldStart cfg building (loadHistory history) (fetchNewReports reports)).1

/-- The loop of a build has come to the report `x`, after those in `pre`, in the state `st`. -/
structure AtReport (cfg : MatchConfig) (building : List (ℤ × Net))
    (history : List (HistKey × Hist)) (reports pre : List Report) (x : Report)
    (post : List Report) (st : FoldState) : Prop where
  split : reports = pre ++ x :: post
  before : (pre.map (reportRow reports)).foldlM
    (foldReport (startEnv cfg building history reports))
    (foldStart cfg building (loadHistory history) (fetchNewReports reports)).2 = .ok st

/-- The build skips the report it has come to. -/
def skips (cfg : MatchConfig) (building : List (ℤ × Net)) (history : List (HistKey × Hist))
    (reports : List Report) (x : Report) (st : FoldState) : Bool :=
  (startEnv cfg building history reports).isSeen st (reportRow reports x)

section
variable {cfg : MatchConfig} {building : List (ℤ × Net)} {history : List (HistKey × Hist)}
  {reports pre post : List Report} {x : Report} {st : FoldState}

theorem AtReport.mem (h : AtReport cfg building history reports pre x post st) : x ∈ reports :=
  h.split ▸ List.mem_append_right _ List.mem_cons_self

theorem startEnv_eq (hr : reports ≠ []) :
    startEnv cfg building history reports = buildEnv cfg history := by
  unfold startEnv
  rw [foldStart_eq hr]

theorem AtReport.loopInv (h : AtReport cfg building history reports pre x post st)
    (hn : (reports.map Prod.fst).Nodup) :
    ∃ folded, LoopInv cfg building history reports pre folded st := by
  have hr : reports ≠ [] := List.ne_nil_of_mem h.mem
  have hbefore := h.before
  rw [startEnv_eq hr, foldStart_eq hr, List.foldlM_map] at hbefore
  refine Except.foldlM_invariant
    (P := fun pre st => ∃ folded, LoopInv cfg building history reports pre folded st)
    ?_ hbefore ⟨[], loopInv_start ..⟩
  intro pre' y post' s s' hl hP hstep
  obtain ⟨folded, hP⟩ := hP
  -- the reports from `x` on come after every round that is done
  have hsplit : reports = pre' ++ y :: (post' ++ x :: post) := by
    rw [h.split, hl, List.append_assoc, List.cons_append]
  exact hP.step hsplit hn hstep

/-- Whether a report is skipped depends on the history alone. -/
theorem AtReport.skips_eq (h : AtReport cfg building history reports pre x post st)
    (hn : (reports.map Prod.fst).Nodup) :
    skips cfg building history reports x st = recorded history x := by
  obtain ⟨folded, hinv⟩ := h.loopInv hn
  unfold skips
  rw [startEnv_eq (List.ne_nil_of_mem h.mem)]
  exact hinv.isSeen_iff h.split hn

end

/-! ## Rows as they are loaded -/

theorem rows_loadHistory (history : List (HistKey × Hist)) :
    (loadHistory history).rows
      = history.map fun x => storeRow (history.map rawHist) (rawHist x) := by
  unfold loadHistory
  split
  · next h => rw [h]; rfl
  · show dataFrame (history.map rawHist) = _
    rw [dataFrame_eq, List.map_map]
    rfl

/-- A loaded row has the signature of the stored one. -/
theorem signature_loadHistory {history : List (HistKey × Hist)} {i : ℕ} {r : HistKey × Hist}
    {row : Row} (hi : history[i]? = some r) (hrow : (loadHistory history).rows[i]? = some row) :
    reportSignature row sigCols = histSig r := by
  rw [rows_loadHistory, List.getElem?_map, hi] at hrow
  obtain rfl := Option.some.inj hrow
  exact reportSignature_congr fun c _ => storeRow_agrees _ _ c

theorem signature_fetchNewReports {reports : List Report} {j : ℕ} {x : Report} {rep : Row}
    (hj : reports[j]? = some x) (hrep : (fetchNewReports reports).rows[j]? = some rep) :
    reportSignature rep sigCols = reportSig x := by
  rw [rows_fetchNewReports, List.getElem?_map, hj] at hrep
  obtain rfl := Option.some.inj hrep
  exact reportSignature_reportRow reports x

theorem recorded_iff {history : List (HistKey × Hist)} {x : Report} :
    recorded history x = true ↔ ∃ r ∈ history, histSig r = reportSig x := by
  unfold recorded
  rw [decide_eq_true_iff, List.mem_map]

/-- The history row `r` that was written for a report has the report's signature in whatever
tables the two are read back; reports with different keys have different signatures; and a build
that reads the row skips the report, and no report of another key that it would not skip without
the row. -/
theorem signatures_round_trip {x : Report} {a : Assignment} {now : Time} {processed : List Report}
    {r : HistKey × Hist} (h : historyRow now (entryOf (reportRow processed x) a) = .ok r) :
    (∀ (history : List (HistKey × Hist)) (reports : List Report) (i j : ℕ) (row rep : Row),
      history[i]? = some r → (loadHistory history).rows[i]? = some row →
        reports[j]? = some x → (fetchNewReports reports).rows[j]? = some rep →
          reportSignature row sigCols = reportSignature rep sigCols) ∧
    (∀ (y : Report) (reports reports' : List Report) (j j' : ℕ) (rep rep' : Row), y.1 ≠ x.1 →
      reports[j]? = some x → (fetchNewReports reports).rows[j]? = some rep →
        reports'[j']? = some y → (fetchNewReports reports').rows[j']? = some rep' →
          reportSignature rep sigCols ≠ reportSignature rep' sigCols) ∧
    ∀ (cfg : MatchConfig) (building : List (ℤ × Net)) (h₁ h₂ : List (HistKey × Hist))
      (reports pre post : List Report) (y : Report) (st st' : FoldState),
      (reports.map Prod.fst).Nodup →
        AtReport cfg building (h₁ ++ r :: h₂) reports pre y post st →
          (y = x → skips cfg building (h₁ ++ r :: h₂) reports y st = true) ∧
          (y.1 ≠ x.1 → AtReport cfg building (h₁ ++ h₂) reports pre y post st' →
            skips cfg building (h₁ ++ r :: h₂) reports y st
              = skips cfg building (h₁ ++ h₂) reports y st') := by
  have hsig : histSig r = reportSig x := by
    rw [historyRow_entryOf (p := (x, a)) h]
    exact histSig_histRow now (x, a)
  refine ⟨fun history reports i j row rep hi hrow hj hrep => ?_,
    fun y reports reports' j j' rep rep' hne hj hrep hj' hrep' he => hne ?_,
    fun cfg building h₁ h₂ reports pre post y st st' hn hat => ⟨fun hy => ?_, fun hne hat' => ?_⟩⟩
  · rw [signature_loadHistory hi hrow, signature_fetchNewReports hj hrep, hsig]
  · apply key_eq_of_reportSig_eq
    rw [← signature_fetchNewReports hj hrep, ← signature_fetchNewReports hj' hrep', he]
  · rw [hat.skips_eq hn, recorded_iff, hy]
    exact ⟨r, List.mem_append_right _ List.mem_cons_self, hsig⟩
  · -- a row with the signature of `y` is not the one written for `x`
    have hother : histSig r ≠ reportSig y := by
      intro he
      exact hne (key_eq_of_reportSig_eq (he.symm.trans hsig))
    rw [hat.skips_eq hn, hat'.skips_eq hn, Bool.eq_iff_iff, recorded_iff, recorded_iff]
    simp [or_and_right, exists_or, hother]

/-- The first of two reports has, alone in the table, the signature of the row that was written for
it beside the other one. -/
theorem signatures_round_trip_loneReport :
    ∃ r row rep, historyRow 1 (entryOf (reportRow twinReports (twinReports.get ⟨0, by decide⟩))
        ⟨1, 100001, .new, .null⟩) = .ok r ∧
      (loadHistory [r]).rows[0]? = some row ∧ (fetchNewReports loneReport).rows[0]? = some rep ∧
        reportSignature row sigCols = reportSignature rep sigCols := by
  obtain ⟨r, hr⟩ : ∃ r, historyRow 1 (entryOf (reportRow twinReports
      (twinReports.get ⟨0, by decide⟩)) ⟨1, 100001, .new, .null⟩) = .ok r := ⟨_, rfl⟩
  exact ⟨r, _, _, hr, rfl, rfl,
    (signatures_round_trip hr).1 [r] loneReport 0 0 _ _ rfl rfl rfl rfl⟩

end NetBuild
