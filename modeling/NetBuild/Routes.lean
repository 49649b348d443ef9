import NetBuild.NetBuildingServiceTheorems
import Mathlib.Algebra.BigOperators.Group.List.Basic

/-!
# The loop over the reports as a list of routings

`foldLoop_routes` is the one fact about the loop the rest uses: it routes exactly the reports
the history does not record, in the order they were read, each into a net of the members as
the routings before it left them. The lemmas below it say what a list of routings does to the
ids, the labels and the counts.
-/

namespace NetBuild

/-! ## Signatures of stored rows -/

/-- The signature of a report. -/
def reportSig (x : Report) : List SigVal := reportSignature (rawReport x) sigCols

/-- The signature of a history row. -/
def histSig (x : HistKey × Hist) : List SigVal := reportSignature (rawHist x) sigCols

/-- The history has a row with the report's signature. -/
def recorded (history : List (HistKey × Hist)) (x : Report) : Bool :=
  reportSig x ∈ history.map histSig

/-- Two reports with one signature have one key. -/
theorem key_eq_of_reportSig_eq {x y : Report} (h : reportSig x = reportSig y) : x.1 = y.1 := by
  obtain ⟨⟨ffId, lti⟩, f⟩ := x
  obtain ⟨⟨ffId', lti'⟩, f'⟩ := y
  simp only [reportSig, reportSignature, sigCols, List.map_cons, List.map_nil, List.cons.injEq,
    sigVal, rawReport, cassandraRowToDfRow, and_true] at h
  obtain ⟨hff, -, hlti, -⟩ := h
  have h1 : ffId = ffId' := by
    simpa [sigInt, Cell.isna, Cell.pyInt] using hff
  have h2 : Timestamp.ofDate lti = Timestamp.ofDate lti' := by
    simpa [sigTime, Cell.toDt] using hlti
  rw [h1, Timestamp.ofDate_injective h2]

/-- The signature the loop computes is the one of the stored row. -/
theorem reportSignature_reportRow (reports : List Report) (x : Report) :
    reportSignature (reportRow reports x) sigCols = reportSig x :=
  reportSignature_congr fun c _ => reportRow_agrees reports x c

/-! ## How the loop starts -/

/-- The `FoldEnv` of a build with reports: every frame has all the data columns. -/
def buildEnv (cfg : MatchConfig) (history : List (HistKey × Hist)) : FoldEnv where
  cfg := cfg
  sigCols := if history = [] then [] else sigCols
  dataCols := Col.data
  newCols := Col.data

theorem mem_data {c : Col} : c ∈ Col.data ↔ ∀ n, c ≠ .other n := by
  rcases c with _ | _ | _ | _ | c | c | n
  · simp [Col.data]
  · simp [Col.data]
  · simp [Col.data]
  · simp [Col.data]
  · rcases c <;> simp [Col.data]
  · rcases c <;> simp [Col.data]
  · simp [Col.data]

theorem keys_buildEnv (cfg : MatchConfig) (history : List (HistKey × Hist)) :
    (buildEnv cfg history).keys = Col.data := by
  show FoldEnv.keys ⟨cfg, _, Col.data, Col.data⟩ = Col.data
  rfl

theorem row_buildEnv (cfg : MatchConfig) (history : List (HistKey × Hist)) {rep : Row}
    (h : ∀ n, rep (.other n) = .null) : (buildEnv cfg history).row rep = rep := by
  funext c
  unfold FoldEnv.row
  rw [keys_buildEnv]
  split
  · rfl
  · next hc =>
    rw [mem_data, not_forall] at hc
    obtain ⟨n, hn⟩ := hc
    rw [not_not.mp hn, h]

theorem seenSignatures_loadHistory (history : List (HistKey × Hist)) :
    seenSignatures (loadHistory history) =
      (history.map histSig, if history = [] then [] else sigCols) := by
  unfold loadHistory
  by_cases h : history = []
  · rw [if_pos h, if_pos h, h]
    rfl
  · have hrows : dataFrame (history.map rawHist) ≠ [] := by
      rw [dataFrame_eq, Ne, List.map_eq_nil_iff, List.map_eq_nil_iff]
      exact h
    have hcols : sigCols.filter (· ∈ Col.data) = sigCols := by decide
    rw [if_neg h, if_neg h]
    show seenSignatures ⟨Col.data, dataFrame (history.map rawHist)⟩ = _
    unfold seenSignatures
    simp only [hrows, if_false, hcols]
    rw [if_neg (by decide), dataFrame_eq, List.map_map, List.map_map, Prod.mk.injEq]
    refine ⟨List.map_congr_left fun x _ => ?_, rfl⟩
    exact reportSignature_congr fun c _ => storeRow_agrees _ _ c

/-- With a net or a report to start from, the loop starts from the nets read and from the
signatures of the history. -/
theorem foldStart_eq {cfg : MatchConfig} {building : List (ℤ × Net)}
    {history : List (HistKey × Hist)} {reports : List Report} (hr : reports ≠ []) :
    foldStart cfg building (loadHistory history) (fetchNewReports reports) =
      (buildEnv cfg history, ⟨startMembers building, history.map histSig, {}, []⟩) := by
  have hsig : (if history = [] then [] else sigCols).filter (· ∈ Col.data)
      = if history = [] then [] else sigCols := by
    split <;> decide
  unfold foldStart
  rw [seenSignatures_loadHistory, cols_fetchNewReports hr]
  by_cases hb : building = []
  · rw [hb]
    simp only [loadMembers, if_true, Option.getD_none, Option.isNone_none, hsig,
      startMembers_nil]
    rfl
  · rw [loadMembers_eq hb]
    simp only [Option.getD_some, Option.isNone_some, hsig]
    rfl

/-! ## One round -/

/-- The entry of a routed report. -/
def entryOf (rep : Row) (a : Assignment) : Entry where
  cells := rep
  action := a.action
  myNetId := a.myNetId
  netId := a.netId
  collapsedFfId := if a.action = .collapsed then a.survivorFfId else .null
  wasCollapsed := a.action = .collapsed

/-- The members before and after one report is routed: it spawns a net or is folded into one. -/
inductive Routed (cfg : MatchConfig) (ms : Members) (rep : Row) (ms' : Members)
    (a : Assignment) : Prop
  | spawns (alone : candidates cfg ms rep = [])
      (assignment : a = ⟨nextMyNetId ms.rows, nextNetId ms.rows, .new, .null⟩)
      (members : ms' = ms.append Col.data (newMember a rep))
  | folds (i : ℕ) (old : Member) (nti : Cell) (into : FoldsInto cfg ms rep ms' a i old nti)

/-- One round of the loop: the report is skipped, or it is routed and entered. -/
inductive FoldStep (env : FoldEnv) (st : FoldState) (rep : Row) (st' : FoldState) : Prop
  | skipped (seen : env.isSeen st rep = true)
      (state : st' = { st with tally := { st.tally with skipped := st.tally.skipped + 1 } })
  | routed (a : Assignment) (unseen : env.isSeen st rep = false)
      (members : Routed env.cfg st.members rep st'.members a)
      (seen : st'.seen =
        if env.sigCols = [] then st.seen else reportSignature rep env.sigCols :: st.seen)
      (tally : st'.tally = st.tally.count a.action)
      (entries : st'.entries = st.entries ++ [entryOf rep a])

theorem foldReport_step {cfg : MatchConfig} {history : List (HistKey × Hist)}
    {st st' : FoldState} {rep : Row} (hrep : ∀ n, rep (.other n) = .null)
    (h : foldReport (buildEnv cfg history) st rep = .ok st') :
    FoldStep (buildEnv cfg history) st rep st' := by
  unfold foldReport at h
  split at h
  · next hs => exact .skipped hs (Except.ok.inj h).symm
  · next hs =>
    dsimp only at h
    rw [row_buildEnv cfg history hrep, keys_buildEnv] at h
    obtain ⟨⟨ms', a⟩, ha, h⟩ := Except.bind_eq_ok_iff.mp h
    have hcells : (fun c => if c ∈ (buildEnv cfg history).newCols then rep c else .null) = rep := by
      have := row_buildEnv cfg history hrep
      unfold FoldEnv.row at this
      rwa [keys_buildEnv] at this
    dsimp only at h
    rw [hcells] at h
    obtain rfl := Except.ok.inj h
    refine .routed a (Bool.eq_false_iff.mpr hs) ?_ rfl rfl rfl
    rcases assignNet_cases ha with ⟨rfl, hc, rfl⟩ | ⟨i, old, nti, hinto⟩
    · exact .spawns hc rfl rfl
    · refine .folds i old nti ?_
      have hact := hinto.action
      rw [hact]
      exact hinto

/-! ## The whole loop -/

/-- The members after the reports listed were routed one after another, each as assigned. -/
inductive Routes (cfg : MatchConfig) (row : Report → Row) (ms : Members) :
    List (Report × Assignment) → Members → Prop
  | start : Routes cfg row ms [] ms
  | snoc {folded : List (Report × Assignment)} {ms' ms'' : Members} {x : Report} {a : Assignment}
      (before : Routes cfg row ms folded ms') (last : Routed cfg ms' (row x) ms'' a) :
      Routes cfg row ms (folded ++ [(x, a)]) ms''

theorem Routes.eq_of_nil {cfg : MatchConfig} {row : Report → Row} {ms ms' : Members}
    {folded : List (Report × Assignment)} (h : Routes cfg row ms folded ms') (hf : folded = []) :
    ms' = ms := by
  rcases h with _ | _
  · rfl
  · exact absurd hf (List.append_ne_nil_of_right_ne_nil _ (List.cons_ne_nil _ _))

/-- The counts of a loop that routed the reports listed and skipped some. -/
def tallyOf (folded : List (Report × Assignment)) (skipped : ℕ) : Tally where
  new := folded.countP (·.2.action = .new)
  collapsed := folded.countP (·.2.action = .collapsed)
  skipped := skipped

theorem count_tallyOf (folded : List (Report × Assignment)) (x : Report) (a : Assignment) (n : ℕ) :
    tallyOf (folded ++ [(x, a)]) n = (tallyOf folded n).count a.action := by
  unfold tallyOf Tally.count
  rcases ha : a.action <;> simp [ha]

/-- What the loop has done with the reports `pre`. -/
structure LoopInv (cfg : MatchConfig) (building : List (ℤ × Net))
    (history : List (HistKey × Hist)) (reports pre : List Report)
    (folded : List (Report × Assignment)) (st : FoldState) : Prop where
  routes : Routes cfg (reportRow reports) (startMembers building) folded st.members
  routed : folded.map Prod.fst = pre.filter fun x => !recorded history x
  seen : history ≠ [] →
    ∀ s, s ∈ st.seen ↔ s ∈ history.map histSig ∨ ∃ p ∈ folded, reportSig p.1 = s
  tally : st.tally = tallyOf folded (pre.length - folded.length)
  entries : st.entries = folded.map fun p => entryOf (reportRow reports p.1) p.2

theorem LoopInv.length_le {cfg : MatchConfig} {building : List (ℤ × Net)}
    {history : List (HistKey × Hist)} {reports pre : List Report}
    {folded : List (Report × Assignment)} {st : FoldState}
    (h : LoopInv cfg building history reports pre folded st) : folded.length ≤ pre.length := by
  rw [← List.length_map (f := Prod.fst), h.routed]
  exact List.length_filter_le ..

/-- Whether a report is skipped depends on the history alone: no two reports have one key, so
none repeats the signature of one before it. -/
theorem LoopInv.isSeen_iff {cfg : MatchConfig} {building : List (ℤ × Net)}
    {history : List (HistKey × Hist)} {reports pre post : List Report} {x : Report}
    {folded : List (Report × Assignment)} {st : FoldState}
    (h : LoopInv cfg building history reports pre folded st)
    (hr : reports = pre ++ x :: post) (hn : (reports.map Prod.fst).Nodup) :
    (buildEnv cfg history).isSeen st (reportRow reports x) = recorded history x := by
  have hfresh : ∀ p ∈ folded, reportSig p.1 ≠ reportSig x := by
    intro p hp he
    have hpre : p.1 ∈ pre := by
      have := List.mem_map_of_mem (f := Prod.fst) hp
      rw [h.routed] at this
      exact List.mem_of_mem_filter this
    rw [hr, List.map_append, List.nodup_append] at hn
    exact hn.2.2 _ (List.mem_map_of_mem hpre) _ (List.mem_map_of_mem List.mem_cons_self)
      (key_eq_of_reportSig_eq he)
  unfold FoldEnv.isSeen buildEnv recorded
  by_cases hh : history = []
  · simp [hh]
  · simp only [hh, if_false]
    rw [reportSignature_reportRow, decide_eq_decide, h.seen hh]
    refine ⟨fun hs => ?_, fun hs => ⟨by decide, .inl hs⟩⟩
    rcases hs.2 with hs | ⟨p, hp, he⟩
    · exact hs
    · exact absurd he (hfresh p hp)

/-- One round: the report is skipped if the history records it, and routed otherwise. -/
theorem LoopInv.step {cfg : MatchConfig} {building : List (ℤ × Net)}
    {history : List (HistKey × Hist)} {reports pre post : List Report} {x : Report}
    {folded : List (Report × Assignment)} {st st' : FoldState}
    (h : LoopInv cfg building history reports pre folded st)
    (hl : reports = pre ++ x :: post) (hn : (reports.map Prod.fst).Nodup)
    (hstep : foldReport (buildEnv cfg history) st (reportRow reports x) = .ok st') :
    ∃ folded', LoopInv cfg building history reports (pre ++ [x]) folded' st' := by
  have hx : x ∈ reports := hl ▸ List.mem_append_right _ List.mem_cons_self
  have hseen := h.isSeen_iff hl hn
  have hlen := h.length_le
  rcases foldReport_step (reportRow_other hx) hstep with ⟨hs, rfl⟩ | ⟨a, hu, hm, hs, ht, he⟩
  -- skipped: the history records it
  · refine ⟨folded, h.routes, ?_, h.seen, ?_, h.entries⟩
    · rw [List.filter_append, List.filter_cons_of_neg, List.filter_nil, List.append_nil, h.routed]
      rw [← hseen, hs]
      decide
    · show ({ st.tally with skipped := st.tally.skipped + 1 } : Tally) = _
      rw [h.tally, List.length_append, List.length_singleton]
      simp only [tallyOf, Tally.mk.injEq, true_and]
      omega
  -- routed: it joins those routed and those seen
  · refine ⟨folded ++ [(x, a)], .snoc h.routes hm, ?_, ?_, ?_, ?_⟩
    · rw [List.map_append, h.routed, List.filter_append, List.filter_cons_of_pos, List.filter_nil]
      · rfl
      · rw [← hseen, hu]
        rfl
    · intro hh sig
      have hsig : (buildEnv cfg history).sigCols = sigCols := if_neg hh
      rw [hs, hsig, if_neg (by decide), reportSignature_reportRow, List.mem_cons, h.seen hh]
      simp only [List.mem_append, List.mem_singleton, or_and_right, exists_or, exists_eq_left]
      rw [@eq_comm _ sig (reportSig x), or_comm, or_assoc]
    · rw [ht, h.tally, ← count_tallyOf]
      congr 1
      simp only [List.length_append, List.length_singleton]
      omega
    · rw [he, h.entries, List.map_append]
      rfl

/-- The loop starts with nothing routed. -/
theorem loopInv_start (cfg : MatchConfig) (building : List (ℤ × Net))
    (history : List (HistKey × Hist)) (reports : List Report) :
    LoopInv cfg building history reports [] []
      ⟨startMembers building, history.map histSig, {}, []⟩ :=
  ⟨.start, rfl, fun _ s => by simp, rfl, rfl⟩

/-- The loop routes exactly the reports the history does not record. -/
theorem foldLoop_routes {cfg : MatchConfig} {building : List (ℤ × Net)}
    {history : List (HistKey × Hist)} {reports : List Report} {st : FoldState}
    (hne : building ≠ [] ∨ reports ≠ []) (hn : (reports.map Prod.fst).Nodup)
    (h : foldLoop cfg building (loadHistory history) (fetchNewReports reports) = .ok st) :
    ∃ folded, LoopInv cfg building history reports reports folded st := by
  unfold foldLoop at h
  by_cases hr : reports = []
  · -- nothing to route: the members are those loaded
    have hb := hne.resolve_right fun h => h hr
    subst hr
    have hst : st = (foldStart cfg building (loadHistory history) (fetchNewReports [])).2 :=
      (Except.ok.inj h).symm
    have hst' : st = ⟨startMembers building, history.map histSig, {}, []⟩ := by
      rw [hst]
      unfold foldStart
      rw [seenSignatures_loadHistory, loadMembers_eq hb]
      rfl
    rw [hst']
    exact ⟨[], loopInv_start ..⟩
  · rw [foldStart_eq hr, rows_fetchNewReports] at h
    dsimp only at h
    rw [List.foldlM_map] at h
    refine Except.foldlM_invariant
      (P := fun pre st => ∃ folded, LoopInv cfg building history reports pre folded st)
      ?_ h ⟨[], loopInv_start ..⟩
    intro pre x post s s' hl hP hstep
    obtain ⟨folded, hP⟩ := hP
    exact hP.step hl hn hstep

/-! ## Columns and ids -/

section
variable {cfg : MatchConfig} {row : Report → Row} {ms ms' : Members} {rep : Row} {a : Assignment}
  {folded : List (Report × Assignment)}

theorem cols_append_data {m : Member} (h : ms.cols = Col.data) :
    (ms.append Col.data m).cols = Col.data := by
  have hf : Col.data.filter (· ∉ Col.data) = [] := by decide
  show ms.cols ++ Col.data.filter (· ∉ ms.cols) = Col.data
  rw [h, hf, List.append_nil]

theorem Routed.cols (h : Routed cfg ms rep ms' a) (hc : ms.cols = Col.data) :
    ms'.cols = Col.data := by
  rcases h with ⟨-, -, rfl⟩ | ⟨i, old, nti, into⟩
  · exact cols_append_data hc
  · rw [into.cols (by rw [hc]; decide) (by rw [hc]; decide), hc]

theorem Routes.cols (h : Routes cfg row ms folded ms') (hc : ms.cols = Col.data) :
    ms'.cols = Col.data := by
  induction h with
  | start => exact hc
  | snoc _ last ih => exact last.cols ih

/-- The ids of a record. -/
def Member.ids (m : Member) : ℤ × Option ℤ := (m.netId, m.myNetId)

/-- The ids of `k` nets spawned one after another. -/
def spawned (net my : ℤ) (k : ℕ) : List (ℤ × Option ℤ) :=
  (List.range k).map fun i : ℕ => (net + i, some (my + i))

theorem spawned_succ (net my : ℤ) (k : ℕ) :
    spawned net my (k + 1) = spawned net my k ++ [(net + k, some (my + k))] := by
  unfold spawned
  rw [List.range_succ, List.map_append]
  rfl

theorem map_fst_spawned (net my : ℤ) (k : ℕ) :
    (spawned net my k).map Prod.fst = (List.range k).map fun i : ℕ => net + i := by
  unfold spawned
  rw [List.map_map]
  rfl

theorem filterMap_snd_spawned (net my : ℤ) (k : ℕ) :
    (spawned net my k).filterMap Prod.snd = (List.range k).map fun i : ℕ => my + i := by
  unfold spawned
  rw [List.filterMap_map, ← List.filterMap_eq_map]
  rfl

/-- Ids handed out one after another are consecutive. -/
theorem nextId_append_range (start : ℤ) (l : List ℤ) (k : ℕ) :
    nextId start (l ++ (List.range k).map fun i : ℕ => nextId start l + i)
      = nextId start l + k := by
  induction k with
  | zero => simp
  | succ k ih =>
    rw [List.range_succ, List.map_append, List.map_singleton, ← List.append_assoc,
      nextId_concat, Nat.cast_succ, add_assoc]
    intro n hn
    rw [← ih]
    exact lt_nextId hn

theorem nextNetId_eq (rows : List Member) :
    nextNetId rows = nextId systemNetStart ((rows.map Member.ids).map Prod.fst) := by
  rw [List.map_map]
  rfl

theorem nextMyNetId_eq (rows : List Member) :
    nextMyNetId rows = nextId myNetStart ((rows.map Member.ids).filterMap Prod.snd) := by
  rw [List.filterMap_map]
  rfl

/-- Routing a report keeps every record's ids and may append the next ones. -/
theorem Routed.ids (h : Routed cfg ms rep ms' a) :
    (a.action = .new ∧ a.netId = nextNetId ms.rows ∧ a.myNetId = nextMyNetId ms.rows ∧
        ms'.rows.map Member.ids = ms.rows.map Member.ids ++ [(a.netId, some a.myNetId)]) ∨
      (a.action = .collapsed ∧ (a.netId, some a.myNetId) ∈ ms.rows.map Member.ids ∧
        ms'.rows.map Member.ids = ms.rows.map Member.ids) := by
  rcases h with ⟨-, rfl, rfl⟩ | ⟨i, old, nti, into⟩
  · left
    refine ⟨rfl, rfl, rfl, ?_⟩
    show (ms.rows ++ [_]).map Member.ids = _
    rw [List.map_append]
    rfl
  · right
    have hold : old.ids = (a.netId, some a.myNetId) := Prod.ext into.netId.symm into.myNetId
    refine ⟨into.action, ?_, ?_⟩
    · rw [← hold]
      exact List.mem_map_of_mem (List.mem_of_getElem? into.getElem)
    · obtain ⟨hi, hget⟩ := List.getElem?_eq_some_iff.mp into.getElem
      have hi' : i < (ms.rows.map Member.ids).length := by rwa [List.length_map]
      have hsame : (collapsedMember ms old rep nti).ids = (ms.rows.map Member.ids)[i] := by
        rw [List.getElem_map, hget]
        rfl
      rw [into.rows, List.map_set, hsame, List.set_getElem_self]

/-- The ids after those handed out. -/
theorem next_of_ids {rows rows' : List Member} {k : ℕ}
    (h : rows'.map Member.ids
      = rows.map Member.ids ++ spawned (nextNetId rows) (nextMyNetId rows) k) :
    nextNetId rows' = nextNetId rows + k ∧ nextMyNetId rows' = nextMyNetId rows + k := by
  refine ⟨?_, ?_⟩
  · rw [nextNetId_eq, h, List.map_append, map_fst_spawned, nextNetId_eq]
    exact nextId_append_range ..
  · rw [nextMyNetId_eq, h, List.filterMap_append, filterMap_snd_spawned, nextMyNetId_eq]
    exact nextId_append_range ..

/-- A loop keeps every record's ids and appends consecutive new ones, in the order of the
reports that spawned them. -/
theorem Routes.ids (h : Routes cfg row ms folded ms') :
    ms'.rows.map Member.ids = ms.rows.map Member.ids ++
      spawned (nextNetId ms.rows) (nextMyNetId ms.rows) (folded.countP (·.2.action = .new)) := by
  induction h with
  | start => simp [spawned]
  | snoc before last ih =>
    rename_i folded ms' ms'' x a
    obtain ⟨hnet, hmy⟩ := next_of_ids ih
    rcases last.ids with ⟨hact, hn, hm, hids⟩ | ⟨hact, -, hids⟩
    · rw [hids, ih, List.countP_append, hn, hm, hnet, hmy]
      simp [hact, spawned_succ]
    · rw [hids, ih, List.countP_append]
      simp [hact]

/-- The ids of the nets spawned are the next ones, in the order of the reports. -/
theorem Routes.newIds (h : Routes cfg row ms folded ms') :
    (folded.filter (·.2.action = .new)).map (fun p => (p.2.netId, some p.2.myNetId))
      = spawned (nextNetId ms.rows) (nextMyNetId ms.rows)
          (folded.countP (·.2.action = .new)) := by
  induction h with
  | start => rfl
  | snoc before last ih =>
    rename_i folded ms' ms'' x a
    obtain ⟨hnet, hmy⟩ := next_of_ids before.ids
    rw [List.filter_append, List.map_append, ih, List.countP_append]
    rcases last.ids with ⟨hact, hn, hm, -⟩ | ⟨hact, -, -⟩
    · rw [hnet] at hn
      rw [hmy] at hm
      simp [hact, hn, hm, spawned_succ]
    · simp [hact]

theorem nodup_netId_iff (rows : List Member) :
    (rows.map (·.netId)).Nodup ↔ ((rows.map Member.ids).map Prod.fst).Nodup := by
  rw [List.map_map]
  rfl

/-- Records with different net ids stay so. -/
theorem Routes.nodup (h : Routes cfg row ms folded ms') (hn : (ms.rows.map (·.netId)).Nodup) :
    (ms'.rows.map (·.netId)).Nodup := by
  have hold : ∀ n ∈ (ms.rows.map Member.ids).map Prod.fst, n < nextNetId ms.rows := by
    intro n hn
    rw [nextNetId_eq]
    exact lt_nextId hn
  rw [nodup_netId_iff] at hn ⊢
  rw [h.ids, List.map_append, map_fst_spawned, List.nodup_append]
  refine ⟨hn, List.nodup_range.map fun i j hij => ?_, ?_⟩
  · simpa using hij
  · intro n hn' n' hn'' he
    obtain ⟨i, -, rfl⟩ := List.mem_map.mp hn''
    have := hold n hn'
    omega

/-- The net an entry names is in the members, with the entry's label. -/
theorem Routes.mem_ids (h : Routes cfg row ms folded ms') :
    ∀ p ∈ folded, (p.2.netId, some p.2.myNetId) ∈ ms'.rows.map Member.ids := by
  induction h with
  | start => exact fun p hp => absurd hp List.not_mem_nil
  | snoc before last ih =>
    intro p hp
    rcases last.ids with ⟨-, -, -, hids⟩ | ⟨-, hmem, hids⟩
    · rw [hids]
      rcases List.mem_append.mp hp with hp | hp
      · exact List.mem_append_left _ (ih p hp)
      · rw [List.mem_singleton.mp hp]
        exact List.mem_append_right _ List.mem_cons_self
    · rw [hids]
      rcases List.mem_append.mp hp with hp | hp
      · exact ih p hp
      · rwa [List.mem_singleton.mp hp]

/-! ## Which records a routing touches -/

/-- A fold replaces one record in its place. -/
theorem FoldsInto.split {i : ℕ} {old : Member} {nti : Cell}
    (into : FoldsInto cfg ms rep ms' a i old nti) :
    ∃ pre post, ms.rows = pre ++ old :: post ∧
      ms'.rows = pre ++ collapsedMember ms old rep nti :: post := by
  obtain ⟨hi, hget⟩ := List.getElem?_eq_some_iff.mp into.getElem
  refine ⟨ms.rows.take i, ms.rows.drop (i + 1), ?_, ?_⟩
  · rw [← hget, List.getElem_cons_drop, List.take_append_drop]
  · rw [into.rows, List.set_eq_take_append_cons_drop, if_pos hi]

/-- The records of the other nets stay as they are. -/
theorem Routed.mem_iff_of_ne (h : Routed cfg ms rep ms' a) {m : Member}
    (hm : m.netId ≠ a.netId) : m ∈ ms'.rows ↔ m ∈ ms.rows := by
  rcases h with ⟨-, rfl, rfl⟩ | ⟨i, old, nti, into⟩
  · show m ∈ ms.rows ++ [_] ↔ _
    rw [List.mem_append, List.mem_singleton]
    refine or_iff_left fun h => hm ?_
    rw [h]
    rfl
  · rw [into.netId] at hm
    obtain ⟨pre, post, hold, hset⟩ := into.split
    have hne : m ≠ collapsedMember ms old rep nti := fun h => hm (h ▸ rfl)
    have hne' : m ≠ old := fun h => hm (h ▸ rfl)
    rw [hset, hold]
    simp [hne, hne']

/-- The record a routing leaves in its net. -/
theorem Routed.eq_of_netId (h : Routed cfg ms rep ms' a) (hn : (ms'.rows.map (·.netId)).Nodup)
    {m : Member} (hm : m ∈ ms'.rows) (ha : m.netId = a.netId) :
    (candidates cfg ms rep = [] ∧ m = newMember a rep) ∨
      ∃ i old nti, FoldsInto cfg ms rep ms' a i old nti ∧ m = collapsedMember ms old rep nti := by
  rcases h with ⟨hc, hassign, rfl⟩ | ⟨i, old, nti, into⟩
  · left
    refine ⟨hc, List.inj_on_of_nodup_map hn hm ?_ ha⟩
    exact List.mem_append_right _ List.mem_cons_self
  · right
    refine ⟨i, old, nti, into, List.inj_on_of_nodup_map hn hm ?_ (ha.trans into.netId)⟩
    obtain ⟨hi, -⟩ := List.getElem?_eq_some_iff.mp into.getElem
    rw [into.rows]
    exact List.mem_set hi _

theorem Routes.lt_nextNetId (h : Routes cfg row ms folded ms') {m : Member} (hm : m ∈ ms.rows) :
    m.netId < nextNetId ms'.rows := by
  rw [nextNetId_eq, h.ids, List.map_append]
  apply lt_nextId
  apply List.mem_append_left
  rw [List.map_map]
  exact List.mem_map_of_mem hm

/-- A report routed to a net that was there is folded into its record. -/
theorem Routed.folds_of_lt (h : Routed cfg ms rep ms' a) (hn : (ms'.rows.map (·.netId)).Nodup)
    (hlt : a.netId < nextNetId ms.rows) {m : Member} (hm : m ∈ ms'.rows)
    (ha : m.netId = a.netId) :
    ∃ i old nti, FoldsInto cfg ms rep ms' a i old nti ∧ m = collapsedMember ms old rep nti := by
  rcases h.eq_of_netId hn hm ha with ⟨hc, -⟩ | hfold
  · exfalso
    rcases h with ⟨-, rfl, -⟩ | ⟨i, old, nti, into⟩
    · exact lt_irrefl _ hlt
    · have hmem : (old, i) ∈ candidates cfg ms rep := by
        unfold candidates
        rw [if_pos ⟨into.hasRdfs, into.rdfs⟩, List.mem_filter]
        exact ⟨List.mem_zipIdx_iff_getElem?.mpr into.getElem, into.candidate⟩
      rw [hc] at hmem
      exact List.not_mem_nil hmem
  · exact hfold

/-- The reports routed to a net. -/
def received (folded : List (Report × Assignment)) (n : ℤ) : List Report :=
  (folded.filter (·.2.netId = n)).map Prod.fst

theorem mem_received {folded : List (Report × Assignment)} {n : ℤ} {x : Report} :
    x ∈ received folded n ↔ ∃ a, (x, a) ∈ folded ∧ a.netId = n := by
  simp [received]

theorem received_eq_nil_iff {folded : List (Report × Assignment)} {n : ℤ} :
    received folded n = [] ↔ ∀ p ∈ folded, p.2.netId ≠ n := by
  unfold received
  simp

theorem received_concat (folded : List (Report × Assignment)) (x : Report) (a : Assignment)
    (n : ℤ) :
    received (folded ++ [(x, a)]) n = received folded n ++ if a.netId = n then [x] else [] := by
  unfold received
  rw [List.filter_append, List.map_append]
  by_cases ha : a.netId = n
  · rw [if_pos ha, List.filter_cons_of_pos (by simpa using ha)]
    rfl
  · rw [if_neg ha, List.filter_cons_of_neg (by simpa using ha)]
    rfl

/-- A routing never removes a record from a net: it is still there, perhaps updated. -/
theorem Routes.mem_of_untouched (h : Routes cfg row ms folded ms') {m : Member}
    (hm : ∀ p ∈ folded, p.2.netId ≠ m.netId) : m ∈ ms'.rows ↔ m ∈ ms.rows := by
  induction h with
  | start => exact Iff.rfl
  | snoc before last ih =>
    rw [last.mem_iff_of_ne (Ne.symm (hm _ (List.mem_append_right _ List.mem_cons_self))),
      ih fun p hp => hm p (List.mem_append_left _ hp)]

/-! ## Stations -/

/-- Every record of a net some report was routed to has the station of that report. -/
theorem Routes.rdfs (h : Routes cfg row ms folded ms') (hn : (ms.rows.map (·.netId)).Nodup) :
    ∀ p ∈ folded, ∀ m ∈ ms'.rows, m.netId = p.2.netId →
      (m.cells (.txt .rdfs)).val = (row p.1 (.txt .rdfs)).val := by
  induction h with
  | start => exact fun p hp => absurd hp List.not_mem_nil
  | snoc before last ih =>
    rename_i folded ms' ms'' x a
    have hn' := before.nodup hn
    have hn'' := (before.snoc last).nodup hn
    intro p hp m hm hmp
    by_cases ha : m.netId = a.netId
    · -- the last report went to this net, so its station is the one of the net before
      have hx : (m.cells (.txt .rdfs)).val = (row x (.txt .rdfs)).val := by
        rcases last.eq_of_netId hn'' hm ha with ⟨-, rfl⟩ | ⟨i, old, nti, into, rfl⟩
        · rfl
        · have hval := val_rdfs_of_isCandidate into.candidate
          exact (val_rdfs_collapsedMember nti hval).trans hval
      rcases List.mem_append.mp hp with hp | hp
      · rcases last with ⟨-, hassign, -⟩ | ⟨i, old, nti, into⟩
        · exfalso
          obtain ⟨m', hm', hids⟩ := List.mem_map.mp (before.mem_ids p hp)
          have hlt := netId_lt_nextNetId hm'
          have : m'.netId = p.2.netId := congrArg Prod.fst hids
          rw [hassign] at ha
          dsimp only at ha
          omega
        · have hold := List.mem_of_getElem? into.getElem
          have := ih p hp old hold (by rw [← into.netId, ← ha, hmp])
          rw [hx, ← this]
          exact (val_rdfs_of_isCandidate into.candidate).symm
      · rw [List.mem_singleton.mp hp]
        exact hx
    · rw [last.mem_iff_of_ne ha] at hm
      rcases List.mem_append.mp hp with hp | hp
      · exact ih p hp m hm hmp
      · rw [List.mem_singleton.mp hp] at hmp
        exact absurd hmp ha

/-- The sum of the counts of the records of a net. -/
def netCount (rows : List Member) (n : ℤ) : ℤ :=
  (rows.map fun m => if m.netId = n then (m.cells .nti).count else 0).sum

/-- The sum of the counts of the reports routed to a net. -/
def routedCount (row : Report → Row) (folded : List (Report × Assignment)) (n : ℤ) : ℤ :=
  (folded.map fun p => if p.2.netId = n then (row p.1 .nti).count else 0).sum

theorem Routed.netCount (h : Routed cfg ms rep ms' a) (hc : ms.cols = Col.data) (n : ℤ) :
    netCount ms'.rows n =
      netCount ms.rows n + if a.netId = n then (rep .nti).count else 0 := by
  unfold NetBuild.netCount
  rcases h with ⟨-, -, rfl⟩ | ⟨i, old, nti, into⟩
  · show ((ms.rows ++ [_]).map _).sum = _
    rw [List.map_append, List.sum_append, List.map_singleton, List.sum_singleton]
    rfl
  · obtain ⟨pre, post, hold, hset⟩ := into.split
    have hsum : nti.count = (old.cells .nti).count + (rep .nti).count :=
      count_sumNti (by rw [hc]; decide) into.takes.sum
    rw [hset, hold, into.netId]
    simp only [List.map_append, List.sum_append, List.map_cons, List.sum_cons,
      netId_collapsedMember, nti_collapsedMember, hsum]
    split <;> omega

/-- A net's count grows by exactly the counts of the reports routed to it. -/
theorem Routes.netCount (h : Routes cfg row ms folded ms') (hc : ms.cols = Col.data) (n : ℤ) :
    netCount ms'.rows n = netCount ms.rows n + routedCount row folded n := by
  induction h with
  | start => simp [routedCount]
  | snoc before last ih =>
    rw [last.netCount (before.cols hc), ih]
    unfold routedCount
    rw [List.map_append, List.sum_append, List.map_singleton, List.sum_singleton, add_assoc]

/-- The count of a net without a record. -/
theorem netCount_eq_zero {rows : List Member} {n : ℤ} (hn : n ∉ rows.map (·.netId)) :
    NetBuild.netCount rows n = 0 := by
  apply List.sum_eq_zero
  intro k hk
  obtain ⟨m, hm, rfl⟩ := List.mem_map.mp hk
  refine if_neg fun he : m.netId = n => hn ?_
  rw [← he]
  exact List.mem_map_of_mem hm

/-- With one record per net, the count of a net is that of its record. -/
theorem netCount_eq {rows : List Member} (hn : (rows.map (·.netId)).Nodup) {m : Member}
    (hm : m ∈ rows) : NetBuild.netCount rows m.netId = (m.cells .nti).count := by
  obtain ⟨pre, post, rfl⟩ := List.append_of_mem hm
  rw [List.map_append, List.map_cons, List.nodup_middle, List.nodup_cons, List.mem_append,
    not_or] at hn
  have hpre := netCount_eq_zero hn.1.1
  have hpost := netCount_eq_zero hn.1.2
  unfold NetBuild.netCount at hpre hpost ⊢
  rw [List.map_append, List.map_cons, List.sum_append, List.sum_cons, hpre, hpost, if_pos rfl]
  omega

end

end NetBuild
