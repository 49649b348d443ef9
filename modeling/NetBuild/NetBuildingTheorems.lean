import NetBuild.Lib.FirstMax
import NetBuild.NetBuilding
import NetBuild.FrameTheorems
import NetBuild.TimestampTheorems
import NetBuild.Lib.Fold
import Mathlib.Data.List.Nodup
import Mathlib.Data.List.Dedup

/-!
# What routing, folding and the flat table do

One spec lemma for each function of `net_building`: `assignNet_cases` says everything a
successful routing can do, `collapsedMember` has a lemma for each column a later proof reads,
and `mem_hierMembers` says which records the flat table is made of.
-/

namespace NetBuild

/-! ## Ids -/

theorem lt_nextId {start n : ℤ} {l : List ℤ} (h : n ∈ l) : n < nextId start l := by
  unfold nextId
  rcases hm : l.max? with _ | k
  · rw [List.max?_eq_none_iff] at hm
    subst hm
    exact absurd h List.not_mem_nil
  · show n < k + 1
    have := (List.max?_eq_some_iff.mp hm).2 n h
    omega

theorem nextId_sub_one_mem {start : ℤ} {l : List ℤ} (h : l ≠ []) : nextId start l - 1 ∈ l := by
  unfold nextId
  rcases hm : l.max? with _ | m
  · rw [List.max?_eq_none_iff] at hm
    exact absurd hm h
  · have hmem := List.max?_mem hm
    simpa using hmem

/-- A new largest id makes the next one its successor. -/
theorem nextId_concat {start k : ℤ} {l : List ℤ} (h : ∀ n ∈ l, n < k) :
    nextId start (l ++ [k]) = k + 1 := by
  have hm : (l ++ [k]).max? = some k := by
    rw [List.max?_eq_some_iff]
    refine ⟨List.mem_append_right _ List.mem_cons_self, fun n hn => ?_⟩
    rcases List.mem_append.mp hn with hn | hn
    · exact (h n hn).le
    · exact (List.mem_singleton.mp hn).le
  unfold nextId
  rw [hm]

theorem netId_lt_nextNetId {rows : List Member} {m : Member} (h : m ∈ rows) :
    m.netId < nextNetId rows := lt_nextId (List.mem_map_of_mem h)

theorem myNetId_lt_nextMyNetId {rows : List Member} {m : Member} {my : ℤ} (h : m ∈ rows)
    (hm : m.myNetId = some my) : my < nextMyNetId rows :=
  lt_nextId (List.mem_filterMap.mpr ⟨m, h, hm⟩)

/-! ## Signatures -/

theorem sigTime_congr {c c' : Cell} (h : c.val = c'.val) : sigTime c = sigTime c' := by
  unfold sigTime
  rw [Cell.toDt_congr h]

/-- Where `int` raises on a present cell, the cell is not a number, and `str` depends on what it
says only. -/
theorem Cell.pyStr_congr {c c' : Cell} (h : c.val = c'.val) (hn : c.isna = false)
    (hi : c.pyInt = none) : c.pyStr = c'.pyStr := by
  rcases c with _ | _ | _ | _ | _ | _ | _ <;> rcases c' with _ | _ | _ | _ | _ | _ | _ <;>
    simp_all [Cell.val, Cell.isna, Cell.pyInt]

theorem sigInt_congr {c c' : Cell} (h : c.val = c'.val) : sigInt c = sigInt c' := by
  unfold sigInt
  rw [← Cell.isna_congr h, ← Cell.pyInt_congr h]
  by_cases hn : c.isna = true
  · rw [if_pos hn, if_pos hn]
  · rcases hi : c.pyInt with _ | n
    · rw [Cell.pyStr_congr h (Bool.eq_false_iff.mpr hn) hi]
    · rfl

theorem sigNum_congr {c c' : Cell} (h : c.val = c'.val) : sigNum c = sigNum c' := by
  have hfl : c.isna = false → c.pyFloat = c'.pyFloat := by
    intro hn
    rcases c with _ | _ | _ | _ | _ | _ | _ <;> rcases c' with _ | _ | _ | _ | _ | _ | _ <;>
      simp_all [Cell.val, Cell.isna, Cell.pyFloat]
  unfold sigNum
  rw [← Cell.isna_congr h]
  by_cases hn : c.isna = true
  · rw [if_pos hn, if_pos hn]
  · rw [hfl (Bool.eq_false_iff.mpr hn)]

/-- A signature depends on what the cells say only. -/
theorem sigVal_congr {row row' : Row} {c : Col} (h : (row c).val = (row' c).val) :
    sigVal row c = sigVal row' c := by
  unfold sigVal
  split
  · exact sigTime_congr h
  · exact sigTime_congr h
  · exact sigInt_congr h
  · exact sigInt_congr h
  · exact sigNum_congr h

theorem reportSignature_congr {row row' : Row} {cols : List Col}
    (h : ∀ c ∈ cols, (row c).val = (row' c).val) :
    reportSignature row cols = reportSignature row' cols :=
  List.map_congr_left fun c hc => sigVal_congr (h c hc)

/-! ## Folding into a record -/

/-- The count in an `NTI` cell, a missing one being 0. -/
def Cell.count (c : Cell) : ℤ := if c.isna then 0 else c.pyInt.getD 0

theorem Cell.count_congr {c c' : Cell} (h : c.val = c'.val) : c.count = c'.count := by
  unfold Cell.count
  rw [Cell.isna_congr h, Cell.pyInt_congr h]

theorem intOrZero_eq_ok {c : Cell} {n : ℤ} (h : intOrZero c = .ok n) : n = c.count := by
  unfold intOrZero at h
  unfold Cell.count
  split at h
  · next hn => rw [if_pos hn, ← Except.ok.inj h]
  · next hn =>
    rw [if_neg hn]
    rcases hc : c.pyInt with _ | m
    · rw [hc] at h
      exact nomatch h
    · rw [hc] at h
      exact (Except.ok.inj h).symm

/-- `collapse_into` sums the counts. -/
theorem count_sumNti {ms : Members} {old new : Row} {c : Cell}
    (hcol : Col.nti ∈ ms.cols) (h : sumNti ms old new = .ok c) :
    c.count = (old .nti).count + (new .nti).count := by
  unfold sumNti at h
  rw [if_pos hcol, Except.bind_eq_ok_iff] at h
  obtain ⟨o, ho, h⟩ := h
  obtain ⟨n, hn, h⟩ := Except.bind_eq_ok_iff.mp h
  rw [← intOrZero_eq_ok ho, ← intOrZero_eq_ok hn]
  split at h
  · split at h
    · rw [← Except.ok.inj h]
      rfl
    · exact nomatch h
  · next h0 =>
    rw [← Except.ok.inj h, ← intOrZero_eq_ok ho]
    omega

/-- What `_to_dt` reads back from a cell that was assigned a timestamp's text. -/
theorem toDt_setDate {b : Bool} {t : Timestamp} (ht : t.WholeSecond) (hy : t.FourDigit) :
    (setDate b t).toDt = some (if b then t.monthFirst else t) := by
  unfold setDate
  rcases b with _ | _
  · exact parseText_strftime ht hy
  · rw [if_pos rfl, if_pos rfl, pdTimestamp_strftime ht hy]
    rfl

/-- The text of a year before 1000 does not read back. -/
theorem toDt_setDate_of_short {b : Bool} {t : Timestamp} (hy : ¬ t.FourDigit) :
    (setDate b t).toDt = none := by
  unfold setDate
  rcases b with _ | _
  · exact parseText_strftime_of_short hy
  · rw [if_pos rfl, pdTimestamp_strftime_of_short hy]
    rfl

/-- `collapse_into` completes, and leaves the `NTI` cell `nti`. -/
structure Members.Takes (ms : Members) (old new : Row) (nti : Cell) : Prop where
  dates : ms.takesDates old new = true
  sum : sumNti ms old new = .ok nti

section
variable (ms : Members) (old : Member) (new : Row) (nti : Cell)

@[simp] theorem netId_collapsedMember : (collapsedMember ms old new nti).netId = old.netId := rfl

@[simp] theorem myNetId_collapsedMember :
    (collapsedMember ms old new nti).myNetId = old.myNetId := rfl

@[simp] theorem nti_collapsedMember : (collapsedMember ms old new nti).cells .nti = nti := rfl

theorem fti_collapsedMember : (collapsedMember ms old new nti).cells .fti =
    ((Option.merge min (old.cells .fti).toDt (new .fti).toDt).map (setDate ms.ftiDatetime)).getD
      (old.cells .fti) := rfl

theorem lti_collapsedMember : (collapsedMember ms old new nti).cells .lti =
    ((Option.merge max (old.cells .lti).toDt (new .lti).toDt).map (setDate ms.ltiDatetime)).getD
      (old.cells .lti) := rfl

/-- The other columns are copied from the report when it is the newer one. -/
theorem cells_collapsedMember {c : Col} (h : c ≠ .fti ∧ c ≠ .lti ∧ c ≠ .nti) :
    (collapsedMember ms old new nti).cells c =
      if isNewer (old.cells .lti).toDt (new .lti).toDt ∧ c ∈ ms.cols ∧ (new c).isna = false
      then new c else old.cells c := by
  obtain ⟨h1, h2, h3⟩ := h
  rcases c with _ | _ | _ | _ | _ | _ | _ <;> first | rfl | contradiction

end

/-- A candidate is of the report's station. -/
theorem val_rdfs_of_isCandidate {cfg : MatchConfig} {new : Row} {old : Member}
    (h : isCandidate cfg new old = true) :
    (old.cells (.txt .rdfs)).val = (new (.txt .rdfs)).val := by
  unfold isCandidate at h
  rw [Bool.and_eq_true, beq_iff_eq] at h
  exact h.1

/-- A record keeps its station when a report of the station is folded into it. -/
theorem val_rdfs_collapsedMember {ms : Members} {old : Member} {new : Row} (nti : Cell)
    (hval : (old.cells (.txt .rdfs)).val = (new (.txt .rdfs)).val) :
    ((collapsedMember ms old new nti).cells (.txt .rdfs)).val = (old.cells (.txt .rdfs)).val := by
  rw [cells_collapsedMember _ _ _ _ ⟨by decide, by decide, by decide⟩]
  split
  · rw [hval]
  · rfl

/-! ## Routing -/

/-- The candidate a report is folded into, with its index: the first of those with the latest
LTI. -/
def newest (cfg : MatchConfig) (ms : Members) (new : Row) : Option (Member × ℕ) :=
  (candidates cfg ms new).argmax fun p => ltiKey p.1

theorem newest_eq (cfg : MatchConfig) (ms : Members) (new : Row) :
    newest cfg ms new =
      if Col.txt .rdfs ∈ ms.cols ∧ (new (.txt .rdfs)).isna = false then
        ms.rows.firstMax (isCandidate cfg new) ltiKey
      else none := by
  unfold newest candidates
  split
  · rfl
  · rfl

/-- The report `new` is folded into the record `old` at index `i` of the members. -/
structure FoldsInto (cfg : MatchConfig) (ms : Members) (new : Row) (ms' : Members)
    (a : Assignment) (i : ℕ) (old : Member) (nti : Cell) : Prop where
  newest : newest cfg ms new = some (old, i)
  getElem : ms.rows[i]? = some old
  candidate : isCandidate cfg new old = true
  hasRdfs : Col.txt .rdfs ∈ ms.cols
  rdfs : (new (.txt .rdfs)).isna = false
  takes : ms.Takes old.cells new nti
  rows : ms'.rows = ms.rows.set i (collapsedMember ms old new nti)
  dtype : ms'.dtype = ms.dtype
  cols : Col.fti ∈ ms.cols → Col.lti ∈ ms.cols → ms'.cols = ms.cols
  action : a.action = .collapsed
  netId : a.netId = old.netId
  myNetId : old.myNetId = some a.myNetId
  survivor : a.survivorFfId = (collapsedMember ms old new nti).cells .ffId

theorem mem_candidates {cfg : MatchConfig} {ms : Members} {new : Row} {p : Member × ℕ}
    (h : p ∈ candidates cfg ms new) :
    Col.txt .rdfs ∈ ms.cols ∧ (new (.txt .rdfs)).isna = false ∧ ms.rows[p.2]? = some p.1 ∧
      isCandidate cfg new p.1 = true := by
  unfold candidates at h
  split at h
  · next hc =>
    obtain ⟨hm, hp⟩ := List.mem_filter.mp h
    exact ⟨hc.1, hc.2, List.mem_zipIdx_iff_getElem?.mp hm, hp⟩
  · exact absurd h List.not_mem_nil

/-- The members `collapse_into` leaves. -/
def Members.fold (ms : Members) (i : ℕ) (old : Member) (new : Row) (nti : Cell) : Members :=
  let has (c : Col) : Bool := (old.cells c).toDt.isSome || (new c).toDt.isSome
  { ms with
    cols := ms.cols ++ [Col.fti, .lti].filter fun c => has c ∧ c ∉ ms.cols
    rows := ms.rows.set i (collapsedMember ms old new nti) }

/-- What a fold that succeeds does, and when it succeeds. -/
theorem collapseInto_eq_ok_iff {ms ms' : Members} {i : ℕ} {old m : Member} {new : Row} :
    collapseInto ms i old new = .ok (ms', m) ↔
      ∃ nti, ms.Takes old.cells new nti ∧ ms' = ms.fold i old new nti ∧
        m = collapsedMember ms old new nti := by
  unfold collapseInto Members.checkDates
  refine ⟨fun h => ?_, fun h => ?_⟩
  · obtain ⟨⟨⟩, hdates, h⟩ := Except.bind_eq_ok_iff.mp h
    obtain ⟨nti, hnti, h⟩ := Except.bind_eq_ok_iff.mp h
    obtain ⟨rfl, rfl⟩ := Prod.mk.inj (Except.ok.inj h)
    refine ⟨nti, ⟨?_, hnti⟩, rfl, rfl⟩
    split at hdates
    · assumption
    · exact nomatch hdates
  · obtain ⟨nti, hnti, rfl, rfl⟩ := h
    rw [if_pos hnti.dates]
    exact Except.bind_eq_ok_iff.mpr ⟨⟨⟩, rfl, Except.bind_eq_ok_iff.mpr ⟨nti, hnti.sum, rfl⟩⟩

/-- What a successful routing does, and when it succeeds. -/
theorem assignNet_eq_ok_iff {cfg : MatchConfig} {ms ms' : Members} {new : Row} {a : Assignment} :
    assignNet cfg ms new = .ok (ms', a) ↔
      (newest cfg ms new = none ∧ ms' = ms ∧
        a = ⟨nextMyNetId ms.rows, nextNetId ms.rows, .new, .null⟩) ∨
      ∃ old i nti my, newest cfg ms new = some (old, i) ∧ ms.Takes old.cells new nti ∧
        old.myNetId = some my ∧ ms' = ms.fold i old new nti ∧
          a = ⟨my, old.netId, .collapsed, (collapsedMember ms old new nti).cells .ffId⟩ := by
  have hnewest : ((candidates cfg ms new).argmax fun p => ltiKey p.1) = newest cfg ms new := rfl
  unfold assignNet
  rw [hnewest]
  rcases newest cfg ms new with _ | ⟨old, i⟩
  · dsimp only
    refine ⟨fun h => ?_, fun h => ?_⟩
    · obtain ⟨rfl, rfl⟩ := Prod.mk.inj (Except.ok.inj h)
      exact .inl ⟨rfl, rfl, rfl⟩
    · rcases h with ⟨-, rfl, rfl⟩ | ⟨_, _, _, _, h, -⟩
      · rfl
      · exact nomatch h
  · dsimp only
    refine ⟨fun h => ?_, fun h => ?_⟩
    · obtain ⟨⟨ms'', m⟩, hinto, h⟩ := Except.bind_eq_ok_iff.mp h
      obtain ⟨nti, hnti, rfl, rfl⟩ := collapseInto_eq_ok_iff.mp hinto
      dsimp only at h
      split at h
      -- `int(None)` raises for a survivor without a label
      · next my hmy =>
        obtain ⟨rfl, rfl⟩ := Prod.mk.inj (Except.ok.inj h)
        exact .inr ⟨old, i, nti, my, rfl, hnti, hmy, rfl, rfl⟩
      · exact nomatch h
    · rcases h with ⟨h, -⟩ | ⟨old', i', nti, my, hnew, hnti, hmy, rfl, rfl⟩
      · exact nomatch h
      · obtain ⟨rfl, rfl⟩ := Prod.mk.inj (Option.some.inj hnew)
        refine Except.bind_eq_ok_iff.mpr
          ⟨_, collapseInto_eq_ok_iff.mpr ⟨nti, hnti, rfl, rfl⟩, ?_⟩
        dsimp only [myNetId_collapsedMember]
        rw [hmy]
        rfl

/-- Everything a successful routing can do: spawn a net and leave the members as they were, or
fold the report into one of its candidates. -/
theorem assignNet_cases {cfg : MatchConfig} {ms ms' : Members} {new : Row} {a : Assignment}
    (h : assignNet cfg ms new = .ok (ms', a)) :
    (ms' = ms ∧ candidates cfg ms new = [] ∧
        a = ⟨nextMyNetId ms.rows, nextNetId ms.rows, .new, .null⟩) ∨
      ∃ i old nti, FoldsInto cfg ms new ms' a i old nti := by
  rcases assignNet_eq_ok_iff.mp h with
    ⟨hnone, rfl, rfl⟩ | ⟨old, i, nti, my, hnew, hnti, hmy, rfl, rfl⟩
  · exact .inl ⟨rfl, List.argmax_eq_none.mp hnone, rfl⟩
  · right
    obtain ⟨hcol, hna, hget, hcand⟩ := mem_candidates (List.argmax_mem hnew)
    refine ⟨i, old, nti, hnew, hget, hcand, hcol, hna, hnti, rfl, rfl, ?_, rfl, rfl, hmy, rfl⟩
    intro hf hl
    unfold Members.fold
    simp [hf, hl]

/-! ## The flat table -/

theorem intValue_fmtMyNet (n : ℤ) : intValue (fmtMyNet n) = some n := intValue_zfill ..

/-- No zero is added to a width of 0. -/
theorem zfill_zero (s : Text) : zfill 0 s = s := by
  unfold zfill
  split <;> simp_all

theorem intValue_fmtSystemNet (n : ℤ) : intValue (fmtSystemNet n) = some n := by
  have h := intValue_zfill 0 n
  rwa [zfill_zero] at h

theorem fmtSystemNet_injective : Function.Injective fmtSystemNet := by
  intro n n' h
  have hn := intValue_fmtSystemNet n
  rw [h, intValue_fmtSystemNet] at hn
  exact (Option.some.inj hn).symm

theorem dropDuplicates_concat {α κ : Type} [DecidableEq κ] (key : α → κ) (l : List α) (a : α) :
    dropDuplicates key (l ++ [a]) =
      if key a ∈ (dropDuplicates key l).map key then dropDuplicates key l
      else dropDuplicates key l ++ [a] := by
  unfold dropDuplicates
  rw [List.foldl_append]
  rfl

theorem mem_of_mem_dropDuplicates {α κ : Type} [DecidableEq κ] {key : α → κ} {l : List α} {a : α}
    (h : a ∈ dropDuplicates key l) : a ∈ l := by
  induction l using List.reverseRecOn with
  | nil => exact h
  | append_singleton l b ih =>
    rw [dropDuplicates_concat] at h
    split at h
    · exact List.mem_append_left _ (ih h)
    · rcases List.mem_append.mp h with h | h
      · exact List.mem_append_left _ (ih h)
      · exact List.mem_append_right _ h

/-- For every element one with its key is kept. -/
theorem exists_mem_dropDuplicates {α κ : Type} [DecidableEq κ] {key : α → κ} {l : List α} {a : α}
    (h : a ∈ l) : ∃ b ∈ dropDuplicates key l, key b = key a := by
  induction l using List.reverseRecOn with
  | nil => exact absurd h List.not_mem_nil
  | append_singleton l c ih =>
    rw [dropDuplicates_concat]
    rcases List.mem_append.mp h with h | h
    · obtain ⟨b, hb, he⟩ := ih h
      split
      · exact ⟨b, hb, he⟩
      · exact ⟨b, List.mem_append_left _ hb, he⟩
    · obtain rfl := List.mem_singleton.mp h
      split
      · next hk => exact List.mem_map.mp hk
      · exact ⟨a, List.mem_append_right _ List.mem_cons_self, rfl⟩

theorem dropDuplicates_of_nodup {α κ : Type} [DecidableEq κ] {key : α → κ} {l : List α}
    (h : (l.map key).Nodup) : dropDuplicates key l = l := by
  -- nothing kept so far has the key of anything still to come
  suffices H : ∀ post kept : List α, ((kept ++ post).map key).Nodup →
      post.foldl (fun kept a => if key a ∈ kept.map key then kept else kept ++ [a]) kept
        = kept ++ post from H l [] h
  intro post
  induction post with
  | nil => intro kept _; rw [List.append_nil]; rfl
  | cons a post ih =>
    intro kept hn
    have ha : key a ∉ kept.map key := by
      rw [List.map_append, List.nodup_append] at hn
      exact fun hm => hn.2.2 _ hm _ (List.mem_map_of_mem List.mem_cons_self) rfl
    rw [List.foldl_cons, if_neg ha, ih, List.append_assoc, List.singleton_append]
    rwa [List.append_assoc, List.singleton_append]

/-- What is kept is the first with its key. -/
theorem mem_dropDuplicates {α κ : Type} [DecidableEq κ] {key : α → κ} {l : List α} {a : α} :
    a ∈ dropDuplicates key l ↔ l.find? (fun b => key b = key a) = some a := by
  induction l using List.reverseRecOn with
  | nil => exact iff_of_false List.not_mem_nil nofun
  | append_singleton l c ih =>
    rw [dropDuplicates_concat, List.find?_append]
    split
    · next hc =>
      rw [ih]
      rcases hfind : l.find? (fun b => key b = key a) with _ | b
      · -- nothing kept has the key of `a`, so the last element has another
        have hne : key c ≠ key a := by
          intro heq
          obtain ⟨b, hb, hbc⟩ := List.mem_map.mp hc
          have hno := List.find?_eq_none.mp hfind b (mem_of_mem_dropDuplicates hb)
          exact hno (decide_eq_true (hbc.trans heq))
        simp [hne]
      · rfl
    · next hc =>
      rw [List.mem_append, List.mem_singleton, ih]
      rcases hfind : l.find? (fun b => key b = key a) with _ | b
      · refine ⟨fun h => ?_, fun h => ?_⟩
        · obtain rfl := h.resolve_left nofun
          simp
        · rw [Option.none_or] at h
          exact .inr (List.mem_singleton.mp (List.mem_of_find?_eq_some h))
      · refine ⟨fun h => ?_, fun h => .inl h⟩
        rcases h with h | rfl
        · exact h
        · -- one with the key of the last element was kept
          have hkept : ∃ b' ∈ dropDuplicates key l, key b' = key b :=
            exists_mem_dropDuplicates (List.mem_of_find?_eq_some hfind)
          obtain ⟨b', hb', hkey⟩ := hkept
          have hba : key b = key a := by simpa using List.find?_some hfind
          exact absurd (List.mem_map.mpr ⟨b', hb', hkey.trans hba⟩) hc

section
variable {sv sv' : SortValues}

/-- With one record per net there is nothing to drop. -/
theorem dedupRdfsPerNet_perm (sv : SortValues) {ms : List Member} (h : (ms.map (·.netId)).Nodup) :
    (dedupRdfsPerNet sv ms).Perm ms := by
  have hp := sv.perm ms
  have hn : ((sv.sort ms).map fun m => (m.netId, (m.cells (.txt .rdfs)).val)).Nodup := by
    apply List.Nodup.of_map Prod.fst
    rw [List.map_map]
    exact (hp.map _).nodup_iff.mpr h
  unfold dedupRdfsPerNet
  rwa [dropDuplicates_of_nodup hn]

theorem mem_groupKeys {l : List ℤ} {n : ℤ} : n ∈ groupKeys l ↔ n ∈ l := by
  unfold groupKeys
  rw [List.mem_insertionSort, List.mem_dedup]

theorem nodup_groupKeys (l : List ℤ) : (groupKeys l).Nodup :=
  (List.perm_insertionSort _ _).nodup_iff.mpr (List.nodup_dedup l)

theorem groupKeys_congr {l l' : List ℤ} (h : ∀ n, n ∈ l ↔ n ∈ l') : groupKeys l = groupKeys l' := by
  have hp : l.dedup.Perm l'.dedup := by
    rw [List.perm_ext_iff_of_nodup (List.nodup_dedup l) (List.nodup_dedup l')]
    intro n
    rw [List.mem_dedup, List.mem_dedup, h]
  have hs : (groupKeys l).Perm (groupKeys l') :=
    (List.perm_insertionSort _ _).trans (hp.trans (List.perm_insertionSort _ _).symm)
  exact hs.eq_of_sortedLE List.sortedLE_insertionSort List.sortedLE_insertionSort

theorem mem_hierMembers_iff_head {ms : List Member} {my n : ℤ} {m : Member} :
    (my, n, m) ∈ hierMembers sv ms ↔
      (∃ x ∈ ms, x.netId = n ∧ x.myNetId = some my) ∧
        (sv.sort ((ms.filter (·.myNetId = some my)).filter (·.netId = n))).head? = some m := by
  unfold hierMembers
  simp only [List.mem_flatMap, mem_groupKeys, List.mem_filterMap, List.mem_map, List.mem_filter,
    decide_eq_true_eq, Option.map_eq_some_iff, Prod.mk.injEq]
  refine ⟨fun h => ?_, fun h => ?_⟩
  · obtain ⟨_, -, _, ⟨x, ⟨hx, hxm⟩, hxn⟩, r, hr, rfl, rfl, rfl⟩ := h
    exact ⟨⟨x, hx, hxn, hxm⟩, hr⟩
  · obtain ⟨⟨x, hx, hxn, hxm⟩, hr⟩ := h
    exact ⟨my, ⟨x, hx, hxm⟩, n, ⟨x, ⟨hx, hxm⟩, hxn⟩, m, hr, rfl, rfl, rfl⟩

/-- A net has one record, which is the head of its group. -/
theorem head_sort_iff {ms : List Member} (h : (ms.map (·.netId)).Nodup) {my n : ℤ}
    {m : Member} :
    (sv.sort ((ms.filter (·.myNetId = some my)).filter (·.netId = n))).head? = some m ↔
      m ∈ ms ∧ m.netId = n ∧ m.myNetId = some my := by
  have hmem : ∀ r, r ∈ sv.sort ((ms.filter (·.myNetId = some my)).filter (·.netId = n)) ↔
      r ∈ ms ∧ r.netId = n ∧ r.myNetId = some my := by
    intro r
    rw [(sv.perm _).mem_iff, List.mem_filter, List.mem_filter]
    simp only [decide_eq_true_eq]
    tauto
  refine ⟨fun hh => (hmem m).mp (List.mem_of_head? hh), fun hm => ?_⟩
  rcases hh : sv.sort ((ms.filter (·.myNetId = some my)).filter (·.netId = n)) with _ | ⟨r, l⟩
  · rw [← hmem m, hh] at hm
    exact absurd hm List.not_mem_nil
  · have hr := (hmem r).mp (hh ▸ List.mem_cons_self)
    rw [hh, List.head?_cons, List.inj_on_of_nodup_map h hr.1 hm.1 (hr.2.1.trans hm.2.1.symm)]

/-- The flat table is made of the records that have a `my_net_id`. -/
theorem mem_hierMembers {ms : List Member} (h : (ms.map (·.netId)).Nodup) {my n : ℤ}
    {m : Member} :
    (my, n, m) ∈ hierMembers sv ms ↔ m ∈ ms ∧ m.netId = n ∧ m.myNetId = some my := by
  rw [mem_hierMembers_iff_head, head_sort_iff h]
  exact ⟨fun h => h.2, fun hm => ⟨⟨m, hm⟩, hm⟩⟩

/-- The flat table depends on which records there are only, and not on their order. -/
theorem hierMembers_congr {ms ms' : List Member} (h : (ms.map (·.netId)).Nodup)
    (h' : (ms'.map (·.netId)).Nodup) {f : Member → Member}
    (hmem : ∀ m', m' ∈ ms' ↔ ∃ m ∈ ms, f m = m')
    (hnet : ∀ m, (f m).netId = m.netId) (hmy : ∀ m, (f m).myNetId = m.myNetId) :
    hierMembers sv' ms' = (hierMembers sv ms).map fun (my, n, m) => (my, n, f m) := by
  have hkeys : ∀ my, groupKeys ((ms'.filter (·.myNetId = some my)).map (·.netId))
      = groupKeys ((ms.filter (·.myNetId = some my)).map (·.netId)) := by
    intro my
    apply groupKeys_congr
    intro n
    simp only [List.mem_map, List.mem_filter, decide_eq_true_eq]
    refine ⟨fun hx => ?_, fun hx => ?_⟩
    · obtain ⟨_, ⟨hx, hxm⟩, rfl⟩ := hx
      obtain ⟨m, hm, rfl⟩ := (hmem _).mp hx
      exact ⟨m, ⟨hm, (hmy m).symm.trans hxm⟩, (hnet m).symm⟩
    · obtain ⟨m, ⟨hm, hmm⟩, rfl⟩ := hx
      exact ⟨f m, ⟨(hmem _).mpr ⟨m, hm, rfl⟩, (hmy m).trans hmm⟩, hnet m⟩
  have hmyKeys : groupKeys (ms'.filterMap (·.myNetId)) = groupKeys (ms.filterMap (·.myNetId)) := by
    apply groupKeys_congr
    intro my
    simp only [List.mem_filterMap]
    refine ⟨fun hx => ?_, fun hx => ?_⟩
    · obtain ⟨_, hx, hxm⟩ := hx
      obtain ⟨m, hm, rfl⟩ := (hmem _).mp hx
      exact ⟨m, hm, (hmy m).symm.trans hxm⟩
    · obtain ⟨m, hm, hmm⟩ := hx
      exact ⟨f m, (hmem _).mpr ⟨m, hm, rfl⟩, (hmy m).trans hmm⟩
  -- the head of each group is the record of its net
  have hhead : ∀ my n,
      (sv'.sort ((ms'.filter (·.myNetId = some my)).filter (·.netId = n))).head?
        = (sv.sort ((ms.filter (·.myNetId = some my)).filter (·.netId = n))).head?.map f := by
    intro my n
    apply Option.ext
    intro m'
    rw [head_sort_iff h', Option.map_eq_some_iff]
    refine ⟨fun hm' => ?_, fun hm' => ?_⟩
    · obtain ⟨hm', hn, hmm⟩ := hm'
      obtain ⟨m, hm, rfl⟩ := (hmem m').mp hm'
      exact ⟨m, (head_sort_iff h).mpr
        ⟨hm, (hnet m).symm.trans hn, (hmy m).symm.trans hmm⟩, rfl⟩
    · obtain ⟨m, hm, rfl⟩ := hm'
      obtain ⟨hm, hn, hmm⟩ := (head_sort_iff h).mp hm
      exact ⟨(hmem _).mpr ⟨m, hm, rfl⟩, (hnet m).trans hn, (hmy m).trans hmm⟩
  unfold hierMembers
  rw [hmyKeys, List.map_flatMap]
  refine List.flatMap_congr fun my _ => ?_
  dsimp only
  rw [hkeys, List.map_filterMap]
  refine List.filterMap_congr fun n _ => ?_
  rw [hhead, Option.map_map, Option.map_map]
  rfl

theorem nodup_hierMembers {ms : List Member} (h : (ms.map (·.netId)).Nodup) :
    ((hierMembers sv ms).map (·.2.1)).Nodup := by
  have hn : (hierMembers sv ms).Nodup := by
    unfold hierMembers
    rw [List.nodup_flatMap]
    refine ⟨fun my _ => ?_, ?_⟩
    · refine (nodup_groupKeys _).filterMap fun n n' x hx hx' => ?_
      obtain ⟨r, -, rfl⟩ := Option.map_eq_some_iff.mp hx
      obtain ⟨r', -, he⟩ := Option.map_eq_some_iff.mp hx'
      exact (congrArg (·.2.1) he).symm
    · refine (nodup_groupKeys _).imp fun {my my'} hne => ?_
      intro x hx hx'
      obtain ⟨n, -, hn⟩ := List.mem_filterMap.mp hx
      obtain ⟨n', -, hn'⟩ := List.mem_filterMap.mp hx'
      obtain ⟨r, -, rfl⟩ := Option.map_eq_some_iff.mp hn
      obtain ⟨r', -, he⟩ := Option.map_eq_some_iff.mp hn'
      exact hne (congrArg (·.1) he).symm
  refine hn.map_on fun x hx y hy hxy => ?_
  obtain ⟨my, n, m⟩ := x
  obtain ⟨my', n', m'⟩ := y
  obtain ⟨hm, hmn, hmy⟩ := (mem_hierMembers h).mp hx
  obtain ⟨hm', hmn', hmy'⟩ := (mem_hierMembers h).mp hy
  obtain rfl : n = n' := hxy
  obtain rfl := List.inj_on_of_nodup_map h hm hm' (hmn.trans hmn'.symm)
  obtain rfl := Option.some.inj (hmy.symm.trans hmy')
  rfl

/-- With one labelled record per net the flat table has all the records. -/
theorem hierMembers_perm {ms : List Member} (hn : (ms.map (·.netId)).Nodup)
    (hl : ∀ m ∈ ms, m.myNetId ≠ none) : ((hierMembers sv ms).map (·.2.2)).Perm ms := by
  have hids : ((hierMembers sv ms).map (·.2.2)).map (·.netId)
      = (hierMembers sv ms).map (·.2.1) := by
    rw [List.map_map]
    refine List.map_congr_left fun x hx => ?_
    obtain ⟨my, n, m⟩ := x
    exact ((mem_hierMembers hn).mp hx).2.1
  have hnodup : ((hierMembers sv ms).map (·.2.2)).Nodup := by
    apply List.Nodup.of_map (·.netId)
    rw [hids]
    exact nodup_hierMembers hn
  rw [List.perm_ext_iff_of_nodup hnodup (.of_map _ hn)]
  intro m
  rw [List.mem_map]
  refine ⟨fun h => ?_, fun hm => ?_⟩
  · obtain ⟨⟨my, n, m'⟩, hx, rfl⟩ := h
    exact ((mem_hierMembers hn).mp hx).1
  · obtain ⟨my, hmy⟩ := Option.ne_none_iff_exists'.mp (hl m hm)
    exact ⟨(my, m.netId, m), (mem_hierMembers hn).mpr ⟨hm, rfl, hmy⟩, rfl⟩

end

end NetBuild
