import NetBuild.Aggregates
import NetBuild.WorkbookRuns

/-!
# A net is the fold of its reports

A workbook updates the record of a net report by report, over batches, with its times written as
text in between. Whatever the order the reports come in, the record says what a fold of all of them
would: the earliest FTI, the latest LTI, the sum of the counts, and for the rest the newest report.
-/

namespace NetBuild

/-! ## What a record is to say -/

/-- The earliest of some times, or the latest. -/
def TimeCol.extreme : TimeCol → List Timestamp → Option Timestamp
  | .fti, l => l.min?
  | .lti, l => l.max?

/-- A column that is neither a time nor the count. -/
def Col.IsPlain (c : Col) : Prop := c ≠ .fti ∧ c ≠ .lti ∧ c ≠ .nti

/-- The report is the last one of those with the latest LTI. -/
def LastLatest (l : List Row) (x : Row) : Prop :=
  ∃ pre post t, l = pre ++ x :: post ∧ (x .lti).toDt = some t ∧
    (∀ y ∈ pre, ∀ u ∈ (y .lti).toDt, u ≤ t) ∧ ∀ y ∈ post, ∀ u ∈ (y .lti).toDt, u < t

/-- The row `m` is the fold of the reports `l`. -/
structure FoldOf (cols : List Col) (m : Row) (l : List Row) : Prop where
  time : ∀ c : TimeCol, (m c.col).toDt = c.extreme (l.filterMap fun r => (r c.col).toDt)
  nti : (m .nti).count = (l.map fun r => (r .nti).count).sum
  plain : (∀ r ∈ l, ∀ c ∈ cols, c.IsPlain → (r c).isna = false) →
    (∃ r ∈ l, (r .lti).toDt ≠ none) →
      ∃ x, LastLatest l x ∧ ∀ c ∈ cols, c.IsPlain → (m c).val = (x c).val

/-- The reports whose entry in the results names the net. -/
def receivedBy (record : List (Row × Option ℤ)) (n : ℤ) : List Row :=
  record.filterMap fun p => if p.2 = some n then some p.1 else none

/-- The times of the report are whole seconds, where it has any. -/
def WholeTimes (r : Row) : Prop := ∀ c : TimeCol, ∀ t ∈ (r c.col).toDt, t.WholeSecond

/-- And of years from 1000 on, whose text has four digits for the year. -/
def FourDigitYears (r : Row) : Prop := ∀ c : TimeCol, ∀ t ∈ (r c.col).toDt, t.FourDigit

/-- The batch has the columns, and its times are whole seconds. -/
structure Uniform (cols : List Col) (df : Frame) : Prop where
  cols : ∀ c, c ∈ df.cols ↔ c ∈ cols
  times : ∀ r ∈ df.reports, WholeTimes r

/-- The time of the report is read back as it was written. -/
def Rereads (r : Row) : Prop := WholeTimes r ∧ FourDigitYears r

/-! ## One more report -/

/-- One more time is picked against the extreme so far. -/
theorem TimeCol.extreme_concat (c : TimeCol) (l : List Timestamp) (o : Option Timestamp) :
    c.extreme (l ++ o.toList) = Option.merge c.pick (c.extreme l) o := by
  rcases o with _ | t
  · rw [Option.toList_none, List.append_nil, Option.merge_none_right]
  · rcases c with _ | _
    · exact List.min?_concat l t
    · exact List.max?_concat l t

theorem TimeCol.mem_of_extreme {c : TimeCol} {l : List Timestamp} {t : Timestamp}
    (h : c.extreme l = some t) : t ∈ l := by
  rcases c with _ | _
  · exact List.min?_mem h
  · exact List.max?_mem h

theorem filterMap_toDt_concat (c : Col) (l : List Row) (x : Row) :
    (l ++ [x]).filterMap (fun r => (r c).toDt)
      = l.filterMap (fun r => (r c).toDt) ++ (x c).toDt.toList := by
  rw [List.filterMap_append]
  rcases h : (x c).toDt with _ | t <;> simp [h]

/-- The last of the latest has the latest LTI. -/
theorem LastLatest.max {l : List Row} {x : Row} (h : LastLatest l x) :
    (l.filterMap fun r => (r .lti).toDt).max? = (x .lti).toDt := by
  obtain ⟨pre, post, t, rfl, hx, hpre, hpost⟩ := h
  rw [hx, List.max?_eq_some_iff]
  refine ⟨List.mem_filterMap.mpr ⟨x, List.mem_append_right _ List.mem_cons_self, hx⟩, ?_⟩
  intro u hu
  obtain ⟨y, hy, hyu⟩ := List.mem_filterMap.mp hu
  rcases List.mem_append.mp hy with hy | hy
  · exact hpre y hy u hyu
  · rcases List.mem_cons.mp hy with rfl | hy
    · exact (Option.some.inj (hx.symm.trans hyu)).ge
    · exact (hpost y hy u hyu).le

/-- A report that is not newer leaves the last of the latest as it was. -/
theorem LastLatest.concat {l : List Row} {x new : Row} (h : LastLatest l x)
    (hnew : isNewer (x .lti).toDt (new .lti).toDt = false) : LastLatest (l ++ [new]) x := by
  obtain ⟨pre, post, t, rfl, hx, hpre, hpost⟩ := h
  refine ⟨pre, post ++ [new], t, by simp, hx, hpre, fun y hy u hu => ?_⟩
  rcases List.mem_append.mp hy with hy | hy
  · exact hpost y hy u hu
  · obtain rfl := List.mem_singleton.mp hy
    rw [hx, Option.mem_def.mp hu] at hnew
    exact not_le.mp (of_decide_eq_false hnew)

/-- A report that is newer than all the others is the last of the latest. -/
theorem lastLatest_concat {l : List Row} {new : Row}
    (hnew : isNewer (l.filterMap fun r => (r .lti).toDt).max? (new .lti).toDt = true) :
    LastLatest (l ++ [new]) new := by
  rcases ht : (new .lti).toDt with _ | t
  · rw [ht] at hnew
    exact nomatch hnew
  · refine ⟨l, [], t, rfl, ht, fun y hy u hu => ?_, fun y hy => absurd hy List.not_mem_nil⟩
    have hmem : u ∈ l.filterMap fun r => (r .lti).toDt := List.mem_filterMap.mpr ⟨y, hy, hu⟩
    rcases hm : (l.filterMap fun r => (r .lti).toDt).max? with _ | o
    · rw [List.max?_eq_none_iff] at hm
      exact absurd (hm ▸ hmem) List.not_mem_nil
    · rw [hm, ht] at hnew
      exact ((List.max?_eq_some_iff.mp hm).2 u hmem).trans (of_decide_eq_true hnew)

/-! ## Spawning and folding -/

theorem toDt_normalizeTime {c : Cell} (h : ∀ t ∈ c.toDt, t.WholeSecond)
    (hy : ∀ t ∈ c.toDt, t.FourDigit) : (normalizeTime c).toDt = c.toDt := by
  unfold normalizeTime
  rcases ht : c.toDt with _ | t
  · exact ht
  · exact parseText_strftime (h t ht) (hy t ht)

theorem record_plain (row : Row) {c : Col} (h : c.IsPlain) :
    Caller.processReports.record row c = row c := by
  obtain ⟨h1, h2, -⟩ := h
  rcases c with _ | _ | _ | _ | _ | _ | _ <;> first | rfl | contradiction

section
variable {cols : List Col} {x : Row}

/-- A net starts as the fold of one report. -/
theorem foldOf_record (hx : Rereads x) :
    FoldOf cols (Caller.processReports.record x) [x] := by
  refine ⟨fun c => ?_, ?_, fun _ hlti => ⟨x, ?_, fun c _ hc => by rw [record_plain x hc]⟩⟩
  · have hrecord : (Caller.processReports.record x c.col).toDt = (x c.col).toDt := by
      rcases c with _ | _
      · exact toDt_normalizeTime (hx.1 .fti) (hx.2 .fti)
      · exact toDt_normalizeTime (hx.1 .lti) (hx.2 .lti)
    rw [hrecord, ← List.nil_append [x], filterMap_toDt_concat, c.extreme_concat]
    rcases c with _ | _
    · exact Option.merge_none_left.symm
    · exact Option.merge_none_left.symm
  · simp only [List.map_cons, List.map_nil, List.sum_cons, List.sum_nil, add_zero]
    rfl
  · obtain ⟨r, hr, hne⟩ := hlti
    obtain rfl := List.mem_singleton.mp hr
    obtain ⟨t, ht⟩ := Option.ne_none_iff_exists'.mp hne
    refine lastLatest_concat (l := []) ?_
    rw [ht]
    rfl

/-- And stays one when a report is folded into it. -/
theorem FoldOf.collapse {ms : Members} {old : Member} {l : List Row} {nti : Cell}
    (h : FoldOf cols old.cells l) (hcols : ∀ c, c ∈ cols → c ∈ ms.cols) (hcount : Col.nti ∈ cols)
    (htext : ms.ftiDatetime = false ∧ ms.ltiDatetime = false)
    (hreread : ∀ r ∈ l ++ [x], Rereads r) (hsum : sumNti ms old.cells x = .ok nti) :
    FoldOf cols (collapsedMember ms old x nti).cells (l ++ [x]) := by
  have hlti : (old.cells .lti).toDt = (l.filterMap fun r => (r .lti).toDt).max? := h.time .lti
  refine ⟨fun c => ?_, ?_, fun hpop hsome => ?_⟩
  · have hflag : c.datetime ms = false := by
      rcases c with _ | _
      · exact htext.1
      · exact htext.2
    rw [time_collapsedMember, hflag, h.time c, filterMap_toDt_concat, c.extreme_concat]
    rcases ho : Option.merge c.pick _ (x c.col).toDt with _ | t
    · -- neither has a time, so the cell stays
      exact (h.time c).trans (Option.merge_eq_none_iff.mp ho).1
    · have hmem : t ∈ (l ++ [x]).filterMap fun r => (r c.col).toDt := by
        apply c.mem_of_extreme
        rw [filterMap_toDt_concat, c.extreme_concat]
        exact ho
      obtain ⟨r, hr, hrt⟩ := List.mem_filterMap.mp hmem
      exact toDt_setDate ((hreread r hr).1 c t hrt) ((hreread r hr).2 c t hrt)
  · rw [nti_collapsedMember, count_sumNti (hcols _ hcount) hsum, h.nti, List.map_append,
      List.sum_append]
    simp
  · have hpopx : ∀ c ∈ cols, c.IsPlain → (x c).isna = false :=
      hpop x (List.mem_append_right _ List.mem_cons_self)
    rcases hnew : isNewer (old.cells .lti).toDt (x .lti).toDt with _ | _
    · -- an older report leaves the record as it is, and there was a time before it
      have hbefore : ∃ r ∈ l, (r .lti).toDt ≠ none := by
        obtain ⟨r, hr, hne⟩ := hsome
        rcases List.mem_append.mp hr with hr | hr
        · exact ⟨r, hr, hne⟩
        · obtain rfl := List.mem_singleton.mp hr
          obtain ⟨t, ht⟩ := Option.ne_none_iff_exists'.mp hne
          rcases ho : (old.cells .lti).toDt with _ | o
          · rw [ho, ht] at hnew
            exact nomatch hnew
          · have hm := List.max?_mem (hlti.symm.trans ho)
            obtain ⟨r', hr', ho'⟩ := List.mem_filterMap.mp hm
            exact ⟨r', hr', fun hnone => nomatch hnone.symm.trans ho'⟩
      obtain ⟨y, hy, hval⟩ :=
        h.plain (fun r hr => hpop r (List.mem_append_left _ hr)) hbefore
      refine ⟨y, hy.concat ?_, fun c hc hplain => ?_⟩
      · rw [← hy.max, ← hlti]
        exact hnew
      · have hkept : ¬ (isNewer (old.cells .lti).toDt (x .lti).toDt = true ∧ c ∈ ms.cols ∧
            (x c).isna = false) := fun hif => Bool.false_ne_true (hnew.symm.trans hif.1)
        rw [cells_collapsedMember _ _ _ _ hplain, if_neg hkept]
        exact hval c hc hplain
    · refine ⟨x, lastLatest_concat ?_, fun c hc hplain => ?_⟩
      · rw [← hlti]
        exact hnew
      · rw [cells_collapsedMember _ _ _ _ hplain, if_pos ⟨hnew, hcols c hc, hpopx c hc hplain⟩]

end

/-! ## The record of each net -/

section
variable {record : List (Row × Option ℤ)} {n : ℤ} {x : Row} {o : Option ℤ}

theorem mem_receivedBy {r : Row} : r ∈ receivedBy record n ↔ (r, some n) ∈ record := by
  unfold receivedBy
  rw [List.mem_filterMap]
  refine ⟨fun h => ?_, fun h => ⟨_, h, if_pos rfl⟩⟩
  obtain ⟨⟨r', o⟩, hp, he⟩ := h
  dsimp only at he
  split at he
  · next ho =>
    obtain rfl := Option.some.inj he
    obtain rfl := ho
    exact hp
  · exact nomatch he

theorem receivedBy_concat_self :
    receivedBy (record ++ [(x, some n)]) n = receivedBy record n ++ [x] := by
  unfold receivedBy
  rw [List.filterMap_append]
  simp

theorem receivedBy_concat_of_ne (h : o ≠ some n) :
    receivedBy (record ++ [(x, o)]) n = receivedBy record n := by
  unfold receivedBy
  rw [List.filterMap_append]
  simp [h]

end

/-- Every member is the fold of the reports the results name its net for. -/
structure NetFolds (cols : List Col) (ms : Members) (record : List (Row × Option ℤ)) : Prop where
  columns : ∀ c, c ∈ ms.cols ↔ c ∈ cols
  named : ∀ r n, (r, some n) ∈ record → ∃ m ∈ ms.rows, m.netId = n
  fold : ∀ m ∈ ms.rows, FoldOf cols m.cells (receivedBy record m.netId)

section
variable {cols : List Col} {cfg : MatchConfig} {ms ms' : Members} {record : List (Row × Option ℤ)}
  {d : Dict} {a : Assignment}

/-- A net that is spawned has received nothing yet. -/
theorem NetFolds.receivedBy_nextNetId (h : NetFolds cols ms record) :
    receivedBy record (nextNetId ms.rows) = [] := by
  apply List.eq_nil_iff_forall_not_mem.mpr
  intro r hr
  obtain ⟨m, hm, he⟩ := h.named r _ (mem_receivedBy.mp hr)
  exact absurd he (netId_lt_nextNetId hm).ne

theorem NetFolds.skip (h : NetFolds cols ms record) (x : Row) :
    NetFolds cols ms (record ++ [(x, none)]) := by
  refine ⟨h.columns, fun r n hr => ?_, fun m hm => ?_⟩
  · rcases List.mem_append.mp hr with hr | hr
    · exact h.named r n hr
    · exact absurd (congrArg Prod.snd (List.mem_singleton.mp hr)) (Option.some_ne_none n)
  · rw [receivedBy_concat_of_ne (Option.some_ne_none _).symm]
    exact h.fold m hm

theorem NetFolds.route (h : NetFolds cols ms record) (hs : Sheetable cols ms)
    (htimes : Col.fti ∈ cols ∧ Col.lti ∈ cols) (hcount : Col.nti ∈ cols)
    (hkeys : ∀ c ∈ d.keys, c ∈ cols) (hreread : ∀ p ∈ record, Rereads p.1)
    (hx : Rereads d.cells)
    (hr : routeReport .processReports cfg ms d = .ok (ms', a)) :
    NetFolds cols ms' (record ++ [(d.cells, some a.netId)]) := by
  have hnamed : (∀ m ∈ ms.rows, ∃ m' ∈ ms'.rows, m'.netId = m.netId) →
      (∃ m' ∈ ms'.rows, m'.netId = a.netId) →
        ∀ r n, (r, some n) ∈ record ++ [(d.cells, some a.netId)] → ∃ m ∈ ms'.rows, m.netId = n := by
    intro hold hnew r n hmem
    rcases List.mem_append.mp hmem with hmem | hmem
    · obtain ⟨m, hm, rfl⟩ := h.named r n hmem
      exact hold m hm
    · obtain ⟨-, hn⟩ := Prod.mk.inj (List.mem_singleton.mp hmem)
      rw [Option.some.inj hn]
      exact hnew
  rcases routeReport_eq_ok_iff.mp hr with
    ⟨-, rfl, rfl⟩ | ⟨old, i, nti, my, hnew, hsum, -, rfl, rfl⟩
  · refine ⟨fun c => ?_, hnamed (fun m hm => ⟨m, List.mem_append_left _ hm, rfl⟩)
      ⟨_, List.mem_append_right _ List.mem_cons_self, rfl⟩, fun m hm => ?_⟩
    · show c ∈ ms.cols ++ d.keys.filter (· ∉ ms.cols) ↔ c ∈ cols
      rw [List.mem_append, h.columns]
      exact ⟨fun hc => hc.elim id fun hc => hkeys c (List.mem_filter.mp hc).1, Or.inl⟩
    · rcases List.mem_append.mp hm with hm | hm
      · rw [receivedBy_concat_of_ne fun he => (netId_lt_nextNetId hm).ne (Option.some.inj he).symm]
        exact h.fold m hm
      · obtain rfl := List.mem_singleton.mp hm
        show FoldOf cols _ (receivedBy _ (nextNetId ms.rows))
        rw [receivedBy_concat_self, h.receivedBy_nextNetId]
        exact foldOf_record hx
  · obtain ⟨-, -, hget, -, -⟩ := newest_eq_some hnew
    have hold := List.mem_of_getElem? hget
    obtain ⟨pre, post, hrows, hset⟩ := List.exists_set_eq hget
    have hids := hs.nodup
    rw [hrows, List.map_append, List.map_cons, List.nodup_middle, List.nodup_cons,
      ← List.map_append] at hids
    refine ⟨fun c => ?_, hnamed (fun m hm => ?_) ⟨collapsedMember ms old d.cells nti, ?_, rfl⟩,
      fun m hm => ?_⟩
    · show c ∈ ms.cols ++ [Col.fti, .lti].filter _ ↔ c ∈ cols
      rw [List.mem_append, h.columns]
      refine ⟨fun hc => hc.elim id fun hc => ?_, Or.inl⟩
      rcases List.mem_pair.mp (List.mem_filter.mp hc).1 with rfl | rfl
      · exact htimes.1
      · exact htimes.2
    · rcases List.eq_or_mem_set hget hm with rfl | hm
      · refine ⟨collapsedMember ms m d.cells nti, ?_, rfl⟩
        show _ ∈ ms.rows.set i _
        rw [hset]
        exact List.mem_append_right _ List.mem_cons_self
      · exact ⟨m, hm, rfl⟩
    · show _ ∈ ms.rows.set i _
      rw [hset]
      exact List.mem_append_right _ List.mem_cons_self
    · have hm' : m ∈ pre ++ collapsedMember ms old d.cells nti :: post := by
        rw [← hset]
        exact hm
      have hmid := List.perm_middle.mem_iff.mp hm'
      rcases List.mem_cons.mp hmid with rfl | hother
      · show FoldOf cols _ (receivedBy _ old.netId)
        rw [receivedBy_concat_self]
        refine (h.fold old hold).collapse (fun c => (h.columns c).mpr) hcount
          ⟨decide_eq_false (hs.dtype .fti nofun htimes.1),
            decide_eq_false (hs.dtype .lti nofun htimes.2)⟩ (fun r hr => ?_) hsum.sum
        rcases List.mem_append.mp hr with hr | hr
        · exact hreread _ (mem_receivedBy.mp hr)
        · rw [List.mem_singleton.mp hr]
          exact hx
      · -- the other records are as they were
        have hne : m.netId ≠ old.netId := fun he => hids.1 (he ▸ List.mem_map_of_mem hother)
        rw [receivedBy_concat_of_ne fun he => hne (Option.some.inj he).symm]
        refine h.fold m ?_
        rw [hrows]
        exact List.perm_middle.mem_iff.mpr (List.mem_cons_of_mem _ hother)

/-! ## Over a batch -/

theorem mem_keys_iff {env : FoldEnv} (h : ∀ c, c ∈ env.dataCols ↔ c ∈ env.newCols) {c : Col} :
    c ∈ env.keys ↔ c ∈ env.newCols := by
  unfold FoldEnv.keys
  dsimp only
  rw [List.mem_append, List.mem_filter, decide_eq_true_iff]
  refine ⟨fun hc => hc.elim And.right fun hc => ?_, fun hc => .inl ⟨(h c).mpr hc, hc⟩⟩
  exact (of_decide_eq_true (List.mem_filter.mp hc).2).1

/-- Where the sheet and the batch have the same columns, a report is routed as it is. -/
theorem cells_dict {env : FoldEnv} (h : ∀ c, c ∈ env.dataCols ↔ c ∈ env.newCols) (rep : Row) :
    (env.dict rep).cells = rep.only env.newCols := by
  funext c
  show (if c ∈ env.keys then rep c else .null) = if c ∈ env.newCols then rep c else .null
  exact if_congr (mem_keys_iff h) rfl rfl

theorem NetFolds.ingests {env : FoldEnv} {seen : List (List SigVal)}
    {done : List (Row × Option Assignment)} (h : NetFolds cols ms record)
    (hs : Sheetable cols ms)
    (htimes : Col.fti ∈ cols ∧ Col.lti ∈ cols) (hcount : Col.nti ∈ cols)
    (hdata : ∀ c, c ∈ env.dataCols ↔ c ∈ env.newCols) (hnew : ∀ c, c ∈ env.newCols ↔ c ∈ cols)
    (hreread : ∀ p ∈ record, Rereads p.1)
    (hdone : ∀ p ∈ done, Rereads (p.1.only env.newCols))
    (hi : Ingests env seen ms done ms') :
    NetFolds cols ms' (record ++ done.map fun p => (p.1.only env.newCols, p.2.map (·.netId))) := by
  induction hi with
  | start =>
    rw [List.map_nil, List.append_nil]
    exact h
  | skip _ _ ih =>
    rw [List.map_append, ← List.append_assoc]
    exact (ih fun p hp => hdone p (List.mem_append_left _ hp)).skip _
  | @route done ms₁ ms₂ rep a before _ last ih =>
    have hdone' := fun p hp => hdone p (List.mem_append_left [(rep, some a)] hp)
    have hx := hdone (rep, some a) (List.mem_append_right _ List.mem_cons_self)
    rw [List.map_append, ← List.append_assoc]
    rw [← cells_dict hdata] at hx
    -- the dict made of the report has its cells under the columns of the batch
    have hstep := (ih hdone').route (hs.ingests before) htimes hcount
      (fun c hc => (hnew c).mp ((mem_keys_iff hdata).mp hc)) (fun p hp => ?_) hx last
    · rw [cells_dict hdata] at hstep
      exact hstep
    · rcases List.mem_append.mp hp with hp | hp
      · exact hreread p hp
      · obtain ⟨q, hq, rfl⟩ := List.mem_map.mp hp
        exact hdone' q hq

/-! ## Over a sheet -/

theorem FoldOf.congr {m m' : Row} {l : List Row} (h : FoldOf cols m l)
    (htimes : Col.fti ∈ cols ∧ Col.lti ∈ cols) (hcount : Col.nti ∈ cols)
    (hval : ∀ c ∈ cols, (m' c).val = (m c).val) : FoldOf cols m' l := by
  refine ⟨fun c => ?_, ?_, fun hpop hsome => ?_⟩
  · have hc : c.col ∈ cols := by
      rcases c with _ | _
      · exact htimes.1
      · exact htimes.2
    rw [Cell.toDt_congr (hval _ hc), h.time]
  · rw [Cell.count_congr (hval _ hcount), h.nti]
  · obtain ⟨x, hx, hxval⟩ := h.plain hpop hsome
    exact ⟨x, hx, fun c hc hplain => (hval c hc).trans (hxval c hc hplain)⟩

theorem NetFolds.load {loaded : Members} {dataCols : List Col} {f : Member → Member}
    (h : NetFolds cols ms record) (htimes : Col.fti ∈ cols ∧ Col.lti ∈ cols)
    (hcount : Col.nti ∈ cols) (hdata : ∀ c, c ∈ dataCols ↔ c ∈ cols)
    (hf : Reloads dataCols ms loaded f) (hcols : loaded.cols = dataCols) :
    NetFolds cols loaded record := by
  refine ⟨fun c => ?_, fun r n hr => ?_, fun m' hm' => ?_⟩
  · rw [hcols]
    exact hdata c
  · obtain ⟨m, hm, rfl⟩ := h.named r n hr
    exact ⟨f m, (hf.mem_iff _).mpr ⟨m, hm, rfl⟩, hf.netId m⟩
  · obtain ⟨m, hm, rfl⟩ := (hf.mem_iff m').mp hm'
    rw [hf.netId]
    refine (h.fold m hm).congr htimes hcount fun c hc => ?_
    rw [hf.cells m c, Row.only_of_mem ((hdata c).mpr hc)]

end

/-! ## Over a run -/

/-- What the next batch of a run starts from. -/
structure Tracks (cols : List Col) (wb : Option Workbook) (record : List (Row × Option ℤ)) :
    Prop where
  reread : ∀ p ∈ record, Rereads p.1
  start : ∀ cfg df, Uniform cols df → Sheetable cols (ingestStart cfg wb df).2.members ∧
    NetFolds cols (ingestStart cfg wb df).2.members record ∧
      ∀ c, c ∈ (ingestStart cfg wb df).1.dataCols ↔ c ∈ cols

section
variable {cols cols' : List Col} {sv : SortValues} {cfg : MatchConfig} {wb : Option Workbook}
  {df : Frame} {wb' : Workbook} {results : List Result} {done : List (Row × Option Assignment)}
  {ms : Members} {record : List (Row × Option ℤ)}

theorem Sheetable.congr_cols (h : Sheetable cols ms) (hc : ∀ c, c ∈ cols ↔ c ∈ cols') :
    Sheetable cols' ms :=
  ⟨h.nodup, h.labelled, fun c hcol => h.cols ((hc c).mpr hcol),
    fun c hn hcol => h.dtype c hn ((hc _).mpr hcol),
    fun c hn hcol => h.cells c hn ((hc _).mpr hcol)⟩

theorem Tracks.reread_append (ht : Tracks cols wb record) (hu : Uniform cols df)
    (hy : ∀ r ∈ df.reports, FourDigitYears r) (h : BatchRun sv cfg wb df wb' results done ms) :
    ∀ p ∈ record ++ df.record results, Rereads p.1 := by
  intro p hp
  rcases List.mem_append.mp hp with hp | hp
  · exact ht.reread p hp
  · have hr : p.1 ∈ df.reports := by
      rw [← h.fst_record]
      exact List.mem_map_of_mem hp
    exact ⟨hu.times _ hr, hy _ hr⟩

/-- What a batch leaves. -/
theorem BatchRun.netFolds (h : BatchRun sv cfg wb df wb' results done ms)
    (ht : Tracks cols wb record) (hu : Uniform cols df) (hy : ∀ r ∈ df.reports, FourDigitYears r)
    (htimes : Col.fti ∈ cols ∧ Col.lti ∈ cols) (hcount : Col.nti ∈ cols) :
    Sheetable cols ms ∧ NetFolds cols ms (record ++ df.record results) ∧
      ∀ c, c ∈ wb'.dataCols ↔ c ∈ cols := by
  obtain ⟨hs, hfolds, hdata⟩ := ht.start cfg df hu
  refine ⟨hs.ingests h.ingests, ?_, fun c => ?_⟩
  · rw [h.record]
    refine hfolds.ingests hs htimes hcount (fun c => (hdata c).trans (hu.cols c).symm) hu.cols
      ht.reread (fun p hp => ?_) h.ingests
    have hr : p.1.only df.cols ∈ df.reports := by
      show _ ∈ df.rows.map _
      rw [← h.reports, List.map_map]
      exact List.mem_map_of_mem hp
    exact ⟨hu.times _ hr, hy _ hr⟩
  · rw [h.dataCols]
    exact hdata c

theorem BatchRun.tracks (h : BatchRun sv cfg wb df wb' results done ms) (ht : Tracks cols wb record)
    (hu : Uniform cols df) (hy : ∀ r ∈ df.reports, FourDigitYears r)
    (htimes : Col.fti ∈ cols ∧ Col.lti ∈ cols) (hcount : Col.nti ∈ cols) :
    Tracks cols (some wb') (record ++ df.record results) := by
  obtain ⟨hs, hfolds, hdata⟩ := h.netFolds ht hu hy htimes hcount
  obtain ⟨hload, f, hf⟩ := (hs.congr_cols fun c => (hdata c).symm).load h.sheet
  exact ⟨ht.reread_append hu hy h, fun cfg' df' _ =>
    ⟨hload.congr_cols hdata, hfolds.load htimes hcount hdata hf rfl, hdata⟩⟩

end

theorem tracks_none (cols : List Col) : Tracks cols none [] := by
  refine ⟨fun _ hp => absurd hp List.not_mem_nil, fun cfg df hu => ⟨?_, ?_, hu.cols⟩⟩
  · exact (sheetable_empty df.cols).congr_cols hu.cols
  · exact ⟨hu.cols, fun _ _ hr => absurd hr List.not_mem_nil,
      fun _ hm => absurd hm List.not_mem_nil⟩

/-- The batches of a run have one set of columns, and their times are written with four digits for
the year. -/
def Written (cols : List Col) (df : Frame) : Prop :=
  Uniform cols df ∧ ∀ r ∈ df.reports, FourDigitYears r

theorem tracks_of_processed {cols : List Col} {wb : Option Workbook}
    {record : List (Row × Option ℤ)} (htimes : Col.fti ∈ cols ∧ Col.lti ∈ cols)
    (hcount : Col.nti ∈ cols) (h : Processed (fun _ _ df => Written cols df) wb record) :
    Tracks cols wb record := by
  induction h with
  | start => exact tracks_none cols
  | batch _ meets ok ih =>
    obtain ⟨done, ms, hb⟩ := processReports_cases ok
    exact hb.tracks ih meets.1 meets.2 htimes hcount
  | refused _ _ ih => exact ih

/-- The nets of a workbook are the folds of the reports the results name them for, and each net the
results name is there. -/
structure FoldsReports (cols : List Col) (wb : Workbook) (record : List (Row × Option ℤ)) :
    Prop where
  fold : ∀ r ∈ wb.nets, ∃ n, r.systemNet = fmtSystemNet n ∧
    FoldOf cols r.cells (receivedBy record n)
  named : ∀ n, receivedBy record n ≠ [] → ∃ r ∈ wb.nets, r.systemNet = fmtSystemNet n

theorem BatchRun.foldsReports {cols : List Col} {sv : SortValues} {cfg : MatchConfig}
    {wb : Option Workbook} {df : Frame} {wb' : Workbook} {results : List Result}
    {done : List (Row × Option Assignment)} {ms : Members} {record : List (Row × Option ℤ)}
    (h : BatchRun sv cfg wb df wb' results done ms) (hs : Sheetable cols ms)
    (hfolds : NetFolds cols ms record) (hdata : ∀ c, c ∈ wb'.dataCols ↔ c ∈ cols)
    (htimes : Col.fti ∈ cols ∧ Col.lti ∈ cols) (hcount : Col.nti ∈ cols) :
    FoldsReports cols wb' record := by
  have hperm := dedupRdfsPerNet_perm sv hs.nodup
  have hnodup : ((dedupRdfsPerNet sv ms.rows).map (·.netId)).Nodup :=
    (hperm.map _).nodup_iff.mpr hs.nodup
  obtain ⟨frame, hframe⟩ := buildHierarchical_eq sv (dedupRdfsPerNet sv ms.rows) wb'.dataCols
  refine ⟨?_, ?_⟩
  · rw [h.sheet, hframe]
    intro r hr
    obtain ⟨⟨my, n, m⟩, hm, rfl⟩ := List.mem_map.mp hr
    obtain ⟨hmem, rfl, -⟩ := (mem_hierMembers hnodup).mp hm
    refine ⟨m.netId, rfl, ?_⟩
    refine (hfolds.fold m (hperm.mem_iff.mp hmem)).congr htimes hcount fun c hc => ?_
    have hcell : m.cells.only wb'.dataCols c = m.cells c := Row.only_of_mem ((hdata c).mpr hc)
    rw [← hcell]
    exact storeRow_agrees frame (m.cells.only wb'.dataCols) c
  · rw [h.sheet, hframe]
    intro n hn
    obtain ⟨r, hr⟩ := List.exists_mem_of_ne_nil _ hn
    obtain ⟨m, hm, rfl⟩ := hfolds.named r n (mem_receivedBy.mp hr)
    obtain ⟨my, hmy⟩ := hs.labelled m hm
    exact ⟨_, List.mem_map_of_mem
      ((mem_hierMembers hnodup).mpr ⟨hperm.mem_iff.mpr hm, rfl, hmy⟩), rfl⟩

/-- In a workbook made of batches with the same columns and times that are read back, each net is
the fold of the reports the results name it for, and each net they name is there. -/
theorem nets_fold_reports {cols : List Col} (htimes : Col.fti ∈ cols ∧ Col.lti ∈ cols)
    (hcount : Col.nti ∈ cols) {wb : Workbook} {record : List (Row × Option ℤ)}
    (h : Processed (fun _ _ df => Written cols df) (some wb) record) :
    FoldsReports cols wb record := by
  generalize hwb : some wb = o at h
  induction h with
  | start => exact nomatch hwb
  | refused _ _ ih => exact ih hwb
  | batch before meets ok _ =>
    obtain rfl := Option.some.inj hwb
    obtain ⟨done, ms, hb⟩ := processReports_cases ok
    obtain ⟨hs, hfolds, hdata⟩ := hb.netFolds (tracks_of_processed htimes hcount before) meets.1
      meets.2 htimes hcount
    exact hb.foldsReports hs hfolds hdata htimes hcount

/-! ## Two batches -/

theorem uniform_heardBatch (heard : List (String × ℤ)) : Uniform heardCols (heardBatch heard) := by
  refine ⟨fun _ => Iff.rfl, fun r hr c t ht => ?_⟩
  rw [reports_heardBatch] at hr
  obtain ⟨h, -, rfl⟩ := List.mem_map.mp hr
  rcases c with _ | _
  · exact wholeSecond_of_parseText ht
  · exact wholeSecond_of_parseText ht

theorem written_heardBatch (heard : List (String × ℤ)) : Written heardCols (heardBatch heard) := by
  refine ⟨uniform_heardBatch heard, fun r hr c t ht => ?_⟩
  rw [reports_heardBatch] at hr
  obtain ⟨h, -, rfl⟩ := List.mem_map.mp hr
  have hyear : (heardBy h.1 h.2 c.col).toDt.map (·.date.year) = some 2024 := by
    rcases c with _ | _
    · show (Cell.str "05-05-2024 10:00:00".toList).toDt.map (·.date.year) = some 2024
      decide +kernel
    · show (Cell.str "05-05-2024 11:00:00".toList).toDt.map (·.date.year) = some 2024
      decide +kernel
  rw [Option.mem_def.mp ht] at hyear
  exact (by decide : 1000 ≤ 2024).trans_eq (Option.some.inj hyear).symm

/-- Two reports of overlapping bands, in two batches with a refused one between them. -/
theorem nets_fold_reports_heardBatch :
    ∃ wb, Processed (fun _ _ df => Written heardCols df) (some wb)
        [(heardBy "A" 1, some 100001), (heardBy "A" 2, some 100001)] ∧
      ∃ r ∈ wb.nets, FoldOf heardCols r.cells [heardBy "A" 1, heardBy "A" 2] := by
  have hrun : (processReports .stable {} none (heardBatch [("A", 1)])).bind (fun p =>
      (processReports .stable {} (some p.1) (heardBatch [("A", 2)])).map fun q =>
        (p.2.1.map Result.net, q.2.1.map Result.net)) = .ok ([some 100001], [some 100001]) := by
    decide +kernel
  obtain ⟨⟨wb, results, n⟩, hp, hrun⟩ := Except.bind_eq_ok_iff.mp hrun
  obtain ⟨⟨wb', results', n'⟩, hq, hrun⟩ := Except.map_eq_ok_iff.mp hrun
  obtain ⟨h1, h2⟩ := Prod.mk.inj hrun
  have hempty : processReports .stable {} (some wb) (heardBatch [])
      = .error (.valueError "No reports to process (input is empty).") := rfl
  have hboth : Processed (fun _ _ df => Written heardCols df) (some wb') ([] ++
      (heardBatch [("A", 1)]).record results ++ (heardBatch [("A", 2)]).record results') :=
    .batch (.refused (.batch .start (written_heardBatch _) hp) hempty) (written_heardBatch _) hq
  unfold Frame.record at hboth
  dsimp only at h1 h2
  rw [h1, h2, reports_heardBatch, reports_heardBatch] at hboth
  refine ⟨wb', hboth, ?_⟩
  obtain ⟨hfold, hthere⟩ := nets_fold_reports ⟨by decide, by decide⟩ (by decide) hboth
  obtain ⟨r, hr, hnet⟩ := hthere 100001 (List.cons_ne_nil _ _)
  obtain ⟨k, hk, hfr⟩ := hfold r hr
  obtain rfl : k = 100001 := fmtSystemNet_injective (hk.symm.trans hnet)
  exact ⟨r, hr, hfr⟩

/-- A report that was first heard in the year 999. -/
def oldReport : Row := fun c =>
  if c = .fti then .str "05-05-0999 10:00:00".toList else heardBy "A" 1 c

def oldBatch : Frame := ⟨heardCols, [oldReport]⟩

theorem reports_oldBatch : oldBatch.reports = [oldReport] := by
  show [oldReport.only heardCols] = _
  congr 1
  funext c
  have h := congrFun (List.cons.inj (reports_heardBatch [("A", 1)])).1 c
  by_cases hc : c = .fti
  · subst hc
    rfl
  · show (if c ∈ heardCols then oldReport c else .null) = oldReport c
    unfold oldReport
    rw [if_neg hc]
    exact h

theorem uniform_oldBatch : Uniform heardCols oldBatch := by
  refine ⟨fun _ => Iff.rfl, fun r hr c t ht => ?_⟩
  rw [reports_oldBatch] at hr
  obtain rfl := List.mem_singleton.mp hr
  rcases c with _ | _
  · exact wholeSecond_of_parseText ht
  · exact wholeSecond_of_parseText ht

/-- Its FTI is written as a text that is not read back. -/
theorem not_nets_fold_oldBatch :
    ¬ ∀ (cols : List Col) (wb : Workbook) (record : List (Row × Option ℤ)),
      Col.fti ∈ cols → Col.lti ∈ cols → Col.nti ∈ cols →
        Processed (fun _ _ df => Uniform cols df) (some wb) record →
          FoldsReports cols wb record := by
  intro hclaim
  have hrun : (processReports .stable {} none oldBatch).map
      (fun p => (p.2.1.map Result.net, p.1.nets.map fun r => (r.cells .fti).toDt))
        = .ok ([some 100001], [none]) := by decide +kernel
  obtain ⟨⟨wb, results, n⟩, hp, hres⟩ := Except.map_eq_ok_iff.mp hrun
  obtain ⟨hnets, hfti⟩ := Prod.mk.inj hres
  have h : Processed (fun _ _ df => Uniform heardCols df) (some wb)
      ([] ++ oldBatch.record results) := .batch .start uniform_oldBatch hp
  unfold Frame.record at h
  dsimp only at hnets hfti
  rw [hnets, reports_oldBatch] at h
  obtain ⟨hfold, hthere⟩ := hclaim _ _ _ (by decide) (by decide) (by decide) h
  obtain ⟨r, hr, hnet⟩ := hthere 100001 (List.cons_ne_nil _ _)
  obtain ⟨k, hk, hfr⟩ := hfold r hr
  obtain rfl : k = 100001 := fmtSystemNet_injective (hk.symm.trans hnet)
  have hnone : (r.cells .fti).toDt = none := by
    have hmem := List.mem_map_of_mem (f := fun r : HierRow => (r.cells .fti).toDt) hr
    rw [hfti] at hmem
    exact List.mem_singleton.mp hmem
  have htime : (r.cells .fti).toDt
      = TimeCol.fti.extreme ([oldReport].filterMap fun r => (r .fti).toDt) :=
    hfr.time .fti
  rw [hnone] at htime
  exact absurd htime.symm (by decide +kernel)

end NetBuild
