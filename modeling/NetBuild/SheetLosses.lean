import NetBuild.NetsSheet
import NetBuild.WorkbookTheorems
import NetBuild.Lib.FirstMax
import Mathlib.Data.Fintype.EquivFin

/-!
# Nets that a batch loses

`build_hierarchical` groups the records by `my_net_id`, and a record without one is in no group. So
a net of the sheet is written back if, at one of its stations, the record that is kept for it has a
`my_net_id`. A report is never folded into a record without one, since that raises; the others may
be folded into, which changes their LTI. `keepsNets_iff` says which sheets keep their nets
whatever the batch.
-/

namespace NetBuild

/-! ## Times that are stored -/

/-- The timestamp without its fraction of a second. -/
def Timestamp.floorSecond (t : Timestamp) : Timestamp where
  date := t.date
  nanos := t.seconds * 1000000000
  nanos_lt := by
    have := t.seconds_lt
    simp only [dayNanos]
    omega

/-- The first moment of the year. -/
def Timestamp.yearStart (t : Timestamp) : Timestamp :=
  ofDate ⟨t.date.year, 1, 1, t.date.year_mem, by decide, by
    have := le_daysInMonth t.date.year 1
    omega⟩

namespace Timestamp

theorem wholeSecond_floorSecond (t : Timestamp) : t.floorSecond.WholeSecond := by
  unfold WholeSecond floorSecond
  dsimp only
  omega

theorem floorSecond_of_wholeSecond {t : Timestamp} (ht : t.WholeSecond) : t.floorSecond = t := by
  apply key_injective
  unfold WholeSecond at ht
  unfold key floorSecond seconds
  dsimp only
  omega

theorem floorSecond_le (t : Timestamp) : t.floorSecond ≤ t := by
  rw [le_iff_key]
  unfold key floorSecond seconds
  dsimp only
  omega

theorem floorSecond_mono {t u : Timestamp} (h : t ≤ u) : t.floorSecond ≤ u.floorSecond := by
  rw [le_iff_key] at h ⊢
  have ht := t.nanos_lt
  have hu := u.nanos_lt
  unfold key floorSecond seconds at *
  dsimp only at *
  simp only [dayNanos] at *
  omega

theorem strftime_floorSecond (t : Timestamp) : t.floorSecond.strftime = t.strftime := by
  have hsec : t.floorSecond.seconds = t.seconds := by
    show t.seconds * 1000000000 / 1000000000 = t.seconds
    omega
  unfold strftime
  rw [hsec]
  rfl

theorem yearStart_le_of_year_le {t u : Timestamp} (h : t.date.year ≤ u.date.year) :
    t.yearStart ≤ u := by
  have hu := u.date.month_mem
  have hday := u.date.day_mem
  rw [le_iff_key]
  show ((t.date.year * 16 + 1) * 32 + 1) * dayNanos + 0
    ≤ ((u.date.year * 16 + u.date.month) * 32 + u.date.day) * dayNanos + u.nanos
  simp only [dayNanos]
  omega

theorem year_le_of_yearStart_le {t u : Timestamp} (h : t.yearStart ≤ u) :
    t.date.year ≤ u.date.year := by
  have hu := u.date.month_mem
  have hday := u.date.day_le
  have hn := u.nanos_lt
  rw [le_iff_key] at h
  change ((t.date.year * 16 + 1) * 32 + 1) * dayNanos + 0
    ≤ ((u.date.year * 16 + u.date.month) * 32 + u.date.day) * dayNanos + u.nanos at h
  simp only [dayNanos] at h hn
  omega

/-- The least that folding reports leaves of a time: a text drops the fraction of a second, and a
`datetime64` cell may get the day and the month exchanged. -/
def least (datetime : Bool) (t : Timestamp) : Timestamp :=
  if datetime then t.yearStart else t.floorSecond

theorem least_le (b : Bool) (t : Timestamp) : t.least b ≤ t := by
  rcases b with _ | _
  · exact floorSecond_le t
  · exact yearStart_le_of_year_le le_rfl

theorem yearStart_le_least (b : Bool) (t : Timestamp) : t.yearStart ≤ t.least b := by
  rcases b with _ | _
  · exact yearStart_le_of_year_le (u := t.floorSecond) le_rfl
  · exact le_rfl

end Timestamp

theorem year_monthFirst (d : Date) : d.monthFirst.year = d.year := by
  unfold Date.monthFirst Date.ofYmd
  split
  · rfl
  · rfl

/-- What is read back of a time that was assigned. -/
theorem toDt_setDate_floorSecond {t : Timestamp} (hy : t.FourDigit) (b : Bool) :
    (setDate b t).toDt = some (if b then t.floorSecond.monthFirst else t.floorSecond) := by
  have hset : setDate b t = setDate b t.floorSecond := by
    unfold setDate
    rw [t.strftime_floorSecond]
  rw [hset, toDt_setDate t.wholeSecond_floorSecond hy]

/-- A time that is assigned does not get below what was the least. A column that is no
`datetime64` does not become one. -/
theorem least_le_setDate {b b' : Bool} {t u : Timestamp} (hy : t.FourDigit)
    (hb : b' = true → b = true) (h : t.least b ≤ u) :
    ∃ v, (setDate b' u).toDt = some v ∧ t.least b ≤ v := by
  have hyear : t.date.year ≤ u.date.year :=
    Timestamp.year_le_of_yearStart_le ((t.yearStart_le_least b).trans h)
  refine ⟨_, toDt_setDate_floorSecond (le_trans hy hyear) b', ?_⟩
  rcases b with _ | _
  · rcases b' with _ | _
    · have hfix : (t.least false).floorSecond = t.least false :=
        Timestamp.floorSecond_of_wholeSecond t.wholeSecond_floorSecond
      rw [← hfix]
      exact Timestamp.floorSecond_mono h
    · exact nomatch hb rfl
  · apply Timestamp.yearStart_le_of_year_le
    rcases b' with _ | _
    · exact hyear
    · exact hyear.trans_eq (year_monthFirst u.date).symm

/-! ## Records that outlast others -/

/-- The LTI a record is ranked by, a missing one below all. -/
def Member.latest (m : Member) : WithBot Timestamp := (m.cells .lti).toDt.elim ⊥ (↑·)

/-- The least LTI that folding reports into the record leaves: one before the year 1000 is stored as
a text that does not read back. -/
def Member.least (datetime : Bool) (m : Member) : WithBot Timestamp :=
  (m.cells .lti).toDt.elim ⊥ fun t => if t.FourDigit then ↑(t.least datetime) else ⊥

/-- The two records are of one net and one station. -/
def Member.SameStation (m m' : Member) : Prop :=
  m.netId = m'.netId ∧ (m.cells (.txt .rdfs)).val = (m'.cells (.txt .rdfs)).val

/-- At one of the stations of net `n` a record with a `my_net_id`, ranked by `rank`, is later than
all those without. -/
def Outlasts (rank : Member → WithBot Timestamp) (rows : List Member) (n : ℤ) : Prop :=
  ∃ m ∈ rows, m.netId = n ∧ m.myNetId ≠ none ∧
    ∀ m' ∈ rows, m'.SameStation m → m'.myNetId = none → m'.latest < rank m

theorem latestFirst_iff (m m' : Member) : latestFirst m m' = true ↔ m'.latest ≤ m.latest := by
  unfold latestFirst Member.latest
  rcases (m.cells .lti).toDt with _ | t
  · rcases (m'.cells .lti).toDt with _ | t'
    · simp
    · simp
  · rcases (m'.cells .lti).toDt with _ | t'
    · simp
    · simp

/-- Of a net and a station a record with the latest LTI is kept. -/
theorem latest_le_of_mem_dedup {sv : SortValues} {rows : List Member} {m b : Member}
    (hb : b ∈ dedupRdfsPerNet sv rows) (hm : m ∈ rows) (h : m.SameStation b) :
    m.latest ≤ b.latest := by
  obtain ⟨-, before, after, hsort, hbefore⟩ :=
    List.find?_eq_some_iff_append.mp (mem_dropDuplicates.mp hb)
  have hmem : m ∈ before ++ b :: after := by
    rw [← hsort]
    exact (sv.perm rows).mem_iff.mpr hm
  have hpair : (before ++ b :: after).Pairwise fun a b => latestFirst a b = true :=
    hsort ▸ sv.sorted rows
  rcases List.mem_append.mp hmem with hmem | hmem
  · have hother := hbefore m hmem
    simp [h.1, h.2] at hother
  · rcases List.mem_cons.mp hmem with rfl | hmem
    · exact le_rfl
    · have hafter := (List.pairwise_append.mp hpair).2.1
      exact (latestFirst_iff b m).mp (List.rel_of_pairwise_cons hafter hmem)

/-- A record that outlasts the others leaves one for its net, however the records are sorted. -/
theorem Outlasts.exists_mem_dedup {rows : List Member} {n : ℤ}
    (h : Outlasts Member.latest rows n) (sv : SortValues) :
    ∃ m ∈ dedupRdfsPerNet sv rows, m.netId = n ∧ m.myNetId ≠ none := by
  obtain ⟨m, hm, rfl, hmy, hout⟩ := h
  obtain ⟨b, hb, hkey⟩ : ∃ b ∈ dedupRdfsPerNet sv rows,
      (b.netId, (b.cells (.txt .rdfs)).val) = (m.netId, (m.cells (.txt .rdfs)).val) :=
    exists_mem_dropDuplicates ((sv.perm rows).mem_iff.mpr hm)
  obtain ⟨hnet, hrdfs⟩ := Prod.mk.inj hkey
  refine ⟨b, hb, hnet, fun hnone => ?_⟩
  have hrow : b ∈ rows := (sv.perm rows).mem_iff.mp (mem_of_mem_dropDuplicates hb)
  exact absurd (hout b hrow ⟨hnet, hrdfs⟩ hnone)
    (latest_le_of_mem_dedup hb hm ⟨hnet.symm, hrdfs.symm⟩).not_gt

/-- A sort that puts the records without a `my_net_id` first among those of one LTI. -/
def SortValues.unlabelledFirst : SortValues where
  sort ms := SortValues.stable.sort
    (ms.filter (·.myNetId = none) ++ ms.filter fun m => !decide (m.myNetId = none))
  perm ms := (SortValues.stable.perm _).trans (List.filter_append_perm _ ms)
  sorted _ := SortValues.stable.sorted _

/-- A record that is kept by that sort outlasts the others. -/
theorem outlasts_of_mem_dedup {rows : List Member} {m : Member}
    (hm : m ∈ dedupRdfsPerNet .unlabelledFirst rows) (hmy : m.myNetId ≠ none) :
    Outlasts Member.latest rows m.netId := by
  have hrow : m ∈ rows :=
    (SortValues.unlabelledFirst.perm rows).mem_iff.mp (mem_of_mem_dropDuplicates hm)
  refine ⟨m, hrow, rfl, hmy, fun m' hm' hsame hno => ?_⟩
  have hfind := mem_dropDuplicates.mp hm
  change (List.insertionSort (latestFirst · ·) _).find? _ = some m at hfind
  rw [List.find?_insertionSort latestFirst_iff, Option.map_eq_some_iff] at hfind
  obtain ⟨⟨_, i⟩, hmax, rfl⟩ := hfind
  -- the record stands behind all those without a `my_net_id`
  have hfirst : m' ∈ rows.filter (·.myNetId = none) :=
    List.mem_filter.mpr ⟨hm', decide_eq_true hno⟩
  obtain ⟨j, hj⟩ := List.getElem?_of_mem hfirst
  have hlt : j < (rows.filter (·.myNetId = none)).length := (List.getElem?_eq_some_iff.mp hj).1
  have hbehind : (rows.filter (·.myNetId = none)).length ≤ i := by
    by_contra hge
    have hget := (List.firstMax_eq_some hmax).1
    rw [List.getElem?_append_left (not_le.mp hge)] at hget
    exact hmy (by simpa using (List.mem_filter.mp (List.mem_of_getElem? hget)).2)
  refine (List.firstMax_greatest hmax ((List.getElem?_append_left hlt).trans hj) ?_).2
    (hlt.trans_le hbehind)
  exact decide_eq_true (Prod.ext hsame.1 hsame.2)

/-- The nets of a flat table are those of the records with a `my_net_id`. -/
theorem exists_mem_hierMembers_iff {sv : SortValues} {rows : List Member} {n : ℤ} :
    (∃ x ∈ hierMembers sv rows, x.2.1 = n) ↔ ∃ m ∈ rows, m.netId = n ∧ m.myNetId ≠ none := by
  refine ⟨fun h => ?_, fun h => ?_⟩
  · obtain ⟨⟨my, n, m⟩, hx, rfl⟩ := h
    obtain ⟨⟨m', hm', hn, hmy⟩, -⟩ := mem_hierMembers_iff_head.mp hx
    refine ⟨m', hm', hn, ?_⟩
    rw [hmy]
    exact Option.some_ne_none my
  · obtain ⟨m, hm, rfl, hmy⟩ := h
    obtain ⟨my, hmy⟩ := Option.ne_none_iff_exists'.mp hmy
    rcases hhead : (sv.sort ((rows.filter (·.myNetId = some my)).filter
        (·.netId = m.netId))).head? with _ | r
    · -- the record itself is in the group
      have hmem : m ∈ sv.sort ((rows.filter (·.myNetId = some my)).filter
          (·.netId = m.netId)) := by
        rw [(sv.perm _).mem_iff]
        simp [hm, hmy]
      rw [List.head?_eq_none_iff.mp hhead] at hmem
      exact absurd hmem List.not_mem_nil
    · exact ⟨(my, m.netId, r), mem_hierMembers_iff_head.mpr ⟨⟨m, hm, rfl, hmy⟩, hhead⟩, rfl⟩

/-- What is written of the members the loop leaves. -/
theorem written_iff {sv : SortValues} {ms members : Members} {cols : List Col} {sheet : NetsSheet}
    (hd : dedupMembers sv ms = .ok members) (hb : buildSheet sv members cols = .ok sheet) (n : ℤ) :
    (∃ r ∈ sheet.rows, r.systemNet = some (fmtSystemNet n)) ↔
      ∃ m ∈ dedupRdfsPerNet sv ms.rows, m.netId = n ∧ m.myNetId ≠ none := by
  have hrows : members.rows = dedupRdfsPerNet sv ms.rows := by
    unfold dedupMembers at hd
    split at hd
    · exact nomatch hd
    · rw [← Except.ok.inj hd]
  rw [← hrows]
  unfold buildSheet at hb
  split at hb
  · next hnil =>
    rw [← Except.ok.inj hb, hnil]
    simp
  · split at hb
    · exact nomatch hb
    · rw [← Except.ok.inj hb]
      obtain ⟨frame, hframe⟩ := buildHierarchical_eq sv (members.rows.map stampLti) cols
      -- stamping the dates leaves the two ids of a record as they are
      have hhier : (∃ x ∈ hierMembers sv (members.rows.map stampLti), x.2.1 = n) ↔
          ∃ m ∈ members.rows, m.netId = n ∧ m.myNetId ≠ none := by
        rw [exists_mem_hierMembers_iff]
        simp only [List.mem_map, exists_exists_and_eq_and]
        rfl
      rw [← hhier, hframe]
      simp only [List.mem_map]
      refine ⟨fun h => ?_, fun h => ?_⟩
      · obtain ⟨_, ⟨_, ⟨x, hx, rfl⟩, rfl⟩, hsys⟩ := h
        exact ⟨x, hx, fmtSystemNet_injective (Option.some.inj hsys)⟩
      · obtain ⟨x, hx, rfl⟩ := h
        exact ⟨_, ⟨_, ⟨x, hx, rfl⟩, rfl⟩, rfl⟩

/-! ## What the loop leaves of a record -/

/-- `m'` is what folding reports may leave of the loaded record `m`. -/
structure LeftOf (datetime : Bool) (m m' : Member) : Prop where
  sameStation : m'.SameStation m
  myNetId : m'.myNetId = m.myNetId
  unlabelled : m.myNetId = none → m' = m
  least : m.least datetime ≤ m'.latest

theorem LeftOf.refl (b : Bool) (m : Member) : LeftOf b m m := by
  refine ⟨⟨rfl, rfl⟩, rfl, fun _ => rfl, ?_⟩
  unfold Member.least Member.latest
  rcases (m.cells .lti).toDt with _ | t
  · exact le_rfl
  · by_cases hy : t.FourDigit
    · exact (if_pos hy).trans_le (WithBot.coe_le_coe.mpr (t.least_le b))
    · exact (if_neg hy).trans_le bot_le

/-- The members have the loaded ones at their places, and others with other ids after. -/
structure Carries (loaded ms : Members) : Prop where
  column : Col.lti ∈ loaded.cols →
    Col.lti ∈ ms.cols ∧ (ms.ltiDatetime = true → loaded.ltiDatetime = true)
  kept : ∀ (i : ℕ) (m : Member), loaded.rows[i]? = some m →
    ∃ m', ms.rows[i]? = some m' ∧ LeftOf loaded.ltiDatetime m m'
  added : ∀ (i : ℕ) (m' : Member), ms.rows[i]? = some m' → loaded.rows.length ≤ i →
    ∀ m ∈ loaded.rows, m'.netId ≠ m.netId

theorem Carries.refl (loaded : Members) : Carries loaded loaded where
  column h := ⟨h, id⟩
  kept i m h := ⟨m, h, LeftOf.refl _ m⟩
  added i m' h hi := by
    rw [List.getElem?_eq_none hi] at h
    exact nomatch h

section
variable {cfg : MatchConfig} {loaded ms ms' : Members} {d : Dict} {a : Assignment}

/-- A report folded into a record leaves of it what may be left. -/
theorem LeftOf.fold {m old : Member} {new : Row} {nti : Cell} {my : ℤ}
    (h : LeftOf loaded.ltiDatetime m old)
    (hb : (m.cells .lti).toDt ≠ none → ms.ltiDatetime = true → loaded.ltiDatetime = true)
    (hmy : old.myNetId = some my)
    (hrdfs : (old.cells (.txt .rdfs)).val = (new (.txt .rdfs)).val) :
    LeftOf loaded.ltiDatetime m (collapsedMember ms old new nti) := by
  have hlabel : m.myNetId ≠ none := by
    rw [← h.myNetId, hmy]
    exact Option.some_ne_none my
  refine ⟨⟨h.sameStation.1, ?_⟩, h.myNetId, fun hno => absurd hno hlabel, ?_⟩
  · rw [val_rdfs_collapsedMember nti hrdfs]
    exact h.sameStation.2
  · have hleast := h.least
    unfold Member.least Member.latest at hleast ⊢
    rw [lti_collapsedMember]
    rcases ht : (m.cells .lti).toDt with _ | t
    · exact bot_le
    · rw [ht] at hleast hb
      by_cases hy : t.FourDigit
      · have hfour : ((some t).elim ⊥ fun t => if t.FourDigit then ↑(t.least loaded.ltiDatetime)
            else ⊥ : WithBot Timestamp) = ↑(t.least loaded.ltiDatetime) := if_pos hy
        rw [hfour] at hleast ⊢
        rcases ho : (old.cells .lti).toDt with _ | o
        · rw [ho] at hleast
          exact absurd hleast (WithBot.not_coe_le_bot _)
        · rw [ho] at hleast
          -- the later of the two times is assigned
          obtain ⟨u, hu, hou⟩ :
              ∃ u, Option.merge max (some o) (new .lti).toDt = some u ∧ o ≤ u := by
            rcases (new .lti).toDt with _ | t'
            · exact ⟨o, rfl, le_rfl⟩
            · exact ⟨max o t', rfl, le_max_left o t'⟩
          obtain ⟨v, hv, htv⟩ := least_le_setDate hy (hb nofun)
            ((WithBot.coe_le_coe.mp hleast).trans hou)
          rw [hu, Option.map_some, Option.getD_some, hv]
          exact WithBot.coe_le_coe.mpr htv
      · exact (if_neg hy).trans_le bot_le

/-- Appending a record makes no column one of times. -/
theorem lti_append {keys : List Col} {m : Member} (h : Col.lti ∈ ms.cols) :
    Col.lti ∈ (ms.append keys m).cols ∧
      ((ms.append keys m).ltiDatetime = true → ms.ltiDatetime = true) := by
  refine ⟨List.mem_append_left _ h, fun hnew => decide_eq_true ?_⟩
  have hdtype := of_decide_eq_true hnew
  by_cases hkey : FoldCol.lti.col ∈ keys
  · have happend : (ms.append keys m).dtype .lti
        = (ms.dtype .lti).concat (inferDtype [m.cells .lti]) :=
      (if_neg (not_not.mpr hkey)).trans (if_pos h)
    exact (concat_eq_datetime64_iff.mp (happend.symm.trans hdtype)).1
  · have happend : (ms.append keys m).dtype .lti = ms.dtype .lti := if_pos hkey
    exact happend.symm.trans hdtype

variable (hloaded : Col.lti ∈ loaded.cols ∨ ∀ m ∈ loaded.rows, (m.cells .lti).toDt = none)
include hloaded

theorem Carries.route (h : Carries loaded ms)
    (hr : routeReport .processReports cfg ms d = .ok (ms', a)) : Carries loaded ms' := by
  -- the loaded records are still there, so that a new id is none of theirs
  have hlen : loaded.rows.length ≤ ms.rows.length := by
    by_contra hlt
    have hget : loaded.rows[ms.rows.length]? = some loaded.rows[ms.rows.length] :=
      List.getElem?_eq_getElem (by omega)
    obtain ⟨m', hm', -⟩ := h.kept _ _ hget
    rw [List.getElem?_eq_none le_rfl] at hm'
    exact nomatch hm'
  rcases routeReport_eq_ok_iff.mp hr with
    ⟨-, rfl, rfl⟩ | ⟨old, i, nti, my, hnew, -, hmy, rfl, rfl⟩
  · refine ⟨fun hcol => ?_, fun i m hi => ?_, fun i m' hi hle m hm => ?_⟩
    · obtain ⟨hcols, hdatetime⟩ := h.column hcol
      exact ⟨(lti_append hcols).1, fun hb => hdatetime ((lti_append hcols).2 hb)⟩
    · obtain ⟨m', hm', hleft⟩ := h.kept i m hi
      exact ⟨m', (List.getElem?_append_left (List.getElem?_eq_some_iff.mp hm').1).trans hm', hleft⟩
    · obtain ⟨j, hj⟩ := List.getElem?_of_mem hm
      obtain ⟨old, hold, hleft⟩ := h.kept j m hj
      rcases Nat.lt_or_ge i ms.rows.length with hlt | hge
      · exact h.added i m' ((List.getElem?_append_left hlt).symm.trans hi) hle m hm
      · have hlast : m' = newMember ⟨nextMyNetId ms.rows, nextNetId ms.rows, .new, .null⟩
            (Caller.processReports.record d.cells) := by
          have hi' := (List.getElem?_append_right hge).symm.trans hi
          exact (List.mem_singleton.mp (List.mem_of_getElem? hi'))
        rw [hlast, ← hleft.sameStation.1]
        exact (netId_lt_nextNetId (List.mem_of_getElem? hold)).ne'
  · obtain ⟨-, -, hget, -, hrdfs⟩ := newest_eq_some hnew
    refine ⟨fun hcol => ⟨List.mem_append_left _ (h.column hcol).1, (h.column hcol).2⟩,
      fun j m hj => ?_, fun j m' hj hle m hm => ?_⟩
    · obtain ⟨m', hm', hleft⟩ := h.kept j m hj
      show ∃ m', (ms.rows.set i _)[j]? = some m' ∧ _
      rw [List.getElem?_set]
      split
      · next hij =>
        subst hij
        obtain rfl := Option.some.inj (hget.symm.trans hm')
        rw [if_pos (List.getElem?_eq_some_iff.mp hget).1]
        refine ⟨_, rfl, hleft.fold (fun ht => ?_) hmy hrdfs⟩
        have hm := List.mem_of_getElem? hj
        exact (h.column (hloaded.resolve_right fun hno => ht (hno m hm))).2
      · exact ⟨m', hm', hleft⟩
    · change (ms.rows.set i _)[j]? = some m' at hj
      rw [List.getElem?_set] at hj
      split at hj
      · next hij =>
        subst hij
        rw [if_pos (List.getElem?_eq_some_iff.mp hget).1] at hj
        rw [← Option.some.inj hj]
        exact h.added i old hget hle m hm
      · exact h.added j m' hj hle m hm

theorem Carries.ingests {env : FoldEnv} {seen : List (List SigVal)}
    {done : List (Row × Option Assignment)} (hi : Ingests env seen loaded done ms) :
    Carries loaded ms := by
  induction hi with
  | start => exact .refl _
  | skip _ _ ih => exact ih
  | route _ _ last ih => exact ih.route hloaded last

omit hloaded in
/-- A record that outlasts the others with the least that may be left of it does so at the end. -/
theorem Carries.outlasts (h : Carries loaded ms) {n : ℤ}
    (ho : Outlasts (Member.least loaded.ltiDatetime) loaded.rows n) :
    Outlasts Member.latest ms.rows n := by
  obtain ⟨m, hm, rfl, hmy, hout⟩ := ho
  obtain ⟨i, hi⟩ := List.getElem?_of_mem hm
  obtain ⟨mEnd, hEnd, hleft⟩ := h.kept i m hi
  refine ⟨mEnd, List.mem_of_getElem? hEnd, hleft.sameStation.1, by rwa [hleft.myNetId],
    fun m' hm' hsame hno => ?_⟩
  obtain ⟨j, hj⟩ := List.getElem?_of_mem hm'
  have hj' : j < loaded.rows.length := by
    by_contra hge
    exact h.added j m' hj (not_lt.mp hge) m hm (hsame.1.trans hleft.sameStation.1)
  -- a record without a `my_net_id` is as it was loaded
  have hget : loaded.rows[j]? = some loaded.rows[j] := List.getElem?_eq_getElem hj'
  obtain ⟨m'', hm'', hleft'⟩ := h.kept j _ hget
  obtain rfl := Option.some.inj (hm''.symm.trans hj)
  have hnone : loaded.rows[j].myNetId = none := by rw [← hleft'.myNetId, hno]
  rw [hleft'.unlabelled hnone] at hsame ⊢
  exact (hout _ (List.getElem_mem hj')
    ⟨hsame.1.trans hleft.sameStation.1, hsame.2.trans hleft.sameStation.2⟩ hnone).trans_le
      hleft.least

end

/-! ## Sheets that keep their nets -/

/-- Whatever the batch, the nets of the sheet are in the sheet that is written, if one is. -/
def NetBook.KeepsNets (sv : SortValues) (cfg : MatchConfig) (wb : NetBook) : Prop :=
  ∀ newDf out, processBook sv cfg wb newDf = .ok out → ∀ m ∈ (loadSheet wb.sheet).rows,
    ∃ r ∈ out.1.sheet.rows, r.systemNet = some (fmtSystemNet m.netId)

/-- For each net of the sheet a record with a `my_net_id` outlasts those without. -/
def NetBook.Lasting (wb : NetBook) (rank : Member → WithBot Timestamp) : Prop :=
  ∀ m ∈ (loadSheet wb.sheet).rows, Outlasts rank (loadSheet wb.sheet).rows m.netId

/-- The LTIs of the sheet are text, as far as there are any, and not from before the year 1000. -/
def NetsSheet.TextTimes (sheet : NetsSheet) : Prop :=
  ∀ r ∈ sheet.rows, (r.cells .lti).isna = true ∨
    ∃ s, r.cells .lti = .str s ∧ ∀ t ∈ (Cell.str s).toDt, t.FourDigit

section
variable {sv : SortValues} {cfg : MatchConfig} {wb : NetBook} {newDf : Frame}
  {out : NetBook × List Result}

theorem legacyData_lti (cols : List Col) (my : Option ℤ) (sys : ℤ) (r : SheetRow) :
    r.legacyData cols my sys .lti = r.data cols .lti := by
  unfold SheetRow.legacyData SheetRow.data
  by_cases h : Col.lti ∈ cols
  · simp [h]
  · simp [h]

/-- A record is read from one row of the sheet. -/
theorem lti_loadSheet {sheet : NetsSheet} {m : Member} (hm : m ∈ (loadSheet sheet).rows) :
    ∃ r ∈ sheet.rows, m.cells .lti = r.data sheet.dataCols .lti := by
  -- on a legacy sheet the rows are walked with the two ids carried down
  have hlegacy : ∀ rows my sys, m ∈ legacyMembers sheet.dataCols my sys rows →
      ∃ r ∈ rows, m.cells .lti = r.data sheet.dataCols .lti := by
    intro rows
    induction rows with
    | nil => exact fun _ _ hm => absurd hm List.not_mem_nil
    | cons r rows ih =>
      intro my sys hm
      have hrest : ∀ my sys, m ∈ legacyMembers sheet.dataCols my sys rows →
          ∃ r' ∈ r :: rows, m.cells .lti = r'.data sheet.dataCols .lti := by
        intro my sys hm
        obtain ⟨r', hr', hcell⟩ := ih my sys hm
        exact ⟨r', List.mem_cons_of_mem _ hr', hcell⟩
      unfold legacyMembers at hm
      split at hm
      · exact hrest _ _ hm
      · exact hrest _ _ hm
      · split at hm
        · split at hm
          · rcases List.mem_cons.mp hm with rfl | hm
            · refine ⟨r, List.mem_cons_self, ?_⟩
              exact legacyData_lti _ _ _ _
            · exact hrest _ _ hm
          · exact hrest _ _ hm
        · exact hrest _ _ hm
  unfold loadSheet at hm
  dsimp only at hm
  split at hm
  · exact hlegacy sheet.rows none none hm
  · obtain ⟨r, hr, hm⟩ := List.mem_filterMap.mp hm
    obtain ⟨n, -, rfl⟩ := Option.map_eq_some_iff.mp hm
    exact ⟨r, hr, rfl⟩

theorem lti_mem_cols_or (sheet : NetsSheet) : Col.lti ∈ (loadSheet sheet).cols ∨
    ∀ m ∈ (loadSheet sheet).rows, (m.cells .lti).toDt = none := by
  by_cases h : Col.lti ∈ sheet.dataCols
  · exact .inl h
  · refine .inr fun m hm => ?_
    obtain ⟨r, -, hlti⟩ := lti_loadSheet hm
    rw [hlti, SheetRow.data, if_neg h]
    rfl

/-- What was processed was written from members that carry those of the sheet. -/
theorem processBook_eq_ok (h : processBook sv cfg wb newDf = .ok out) :
    ∃ ms, Carries (loadSheet wb.sheet) ms ∧ ∀ n,
      (∃ r ∈ out.1.sheet.rows, r.systemNet = some (fmtSystemNet n)) ↔
        ∃ m ∈ dedupRdfsPerNet sv ms.rows, m.netId = n ∧ m.myNetId ≠ none := by
  unfold processBook at h
  obtain ⟨⟨⟩, -, h⟩ := Except.bind_eq_ok_iff.mp h
  obtain ⟨st, hst, h⟩ := Except.bind_eq_ok_iff.mp h
  obtain ⟨members, hd, h⟩ := Except.bind_eq_ok_iff.mp h
  obtain ⟨sheet, hb, h⟩ := Except.bind_eq_ok_iff.mp h
  obtain rfl := Except.ok.inj h
  obtain ⟨done, hinv⟩ := foldlM_ingestReport hst rfl rfl
  exact ⟨st.members, .ingests (lti_mem_cols_or wb.sheet) hinv.ingests, written_iff hd hb⟩

theorem toDt_of_isna {c : Cell} (h : c.isna = true) : c.toDt = none := by
  rcases c with _ | _ | _ | _ | _ | _ | _
  all_goals first | rfl | exact nomatch h

theorem isTime_of_isna {c : Cell} (h : c.isna = true) (hnat : c ≠ .nat) : c.isTime = false := by
  rcases c with _ | _ | _ | _ | _ | _ | _
  all_goals first | rfl | exact absurd rfl hnat | exact nomatch h

/-- Where the times of the sheet are text, so are those that are read. -/
theorem NetsSheet.TextTimes.data {sheet : NetsSheet} (h : sheet.TextTimes) {r : SheetRow}
    (hr : r ∈ sheet.rows) : r.data sheet.dataCols .lti ≠ .nat ∧
      ((r.data sheet.dataCols .lti).isna = true ∨ ∃ s, r.data sheet.dataCols .lti = .str s ∧
        ∀ t ∈ (Cell.str s).toDt, t.FourDigit) := by
  unfold SheetRow.data
  by_cases hcol : Col.lti ∈ sheet.dataCols
  · rw [if_pos hcol]
    refine ⟨Cell.readBack_ne_nat _, ?_⟩
    rcases h r hr with hna | ⟨s, hs, hy⟩
    · rw [Cell.isna_congr (Cell.val_readBack _)]
      exact .inl hna
    · rw [hs]
      exact .inr ⟨s, rfl, hy⟩
  · rw [if_neg hcol]
    exact ⟨nofun, .inl rfl⟩

/-- Times that are text are kept as they are. -/
theorem least_eq_latest {sheet : NetsSheet} (h : sheet.TextTimes) {m : Member}
    (hm : m ∈ (loadSheet sheet).rows) : m.least (loadSheet sheet).ltiDatetime = m.latest := by
  have hdatetime : (loadSheet sheet).ltiDatetime = false := by
    refine decide_eq_false ?_
    show columnDtypes sheet.dataCols _ .lti ≠ _
    unfold columnDtypes
    split
    · refine inferDtype_ne_datetime64 fun c hc => ?_
      rw [List.map_map] at hc
      obtain ⟨r, hr, rfl⟩ := List.mem_map.mp hc
      obtain ⟨hnat, hna | ⟨s, hs, -⟩⟩ := h.data hr
      · exact isTime_of_isna hna hnat
      · show (r.data sheet.dataCols .lti).isTime = false
        rw [hs]
        rfl
    · exact nofun
  obtain ⟨r, hr, hlti⟩ := lti_loadSheet hm
  unfold Member.least Member.latest
  rw [hdatetime, hlti]
  obtain ⟨-, hna | ⟨s, hs, hy⟩⟩ := h.data hr
  · rw [toDt_of_isna hna]
    rfl
  · rw [hs]
    rcases ht : (Cell.str s).toDt with _ | t
    · rfl
    · refine (if_pos (hy t ht)).trans (congrArg _ ?_)
      exact Timestamp.floorSecond_of_wholeSecond (wholeSecond_of_parseText ht)

/-! ## A report of another station -/

/-- A report of station `s`. -/
def strangerReport (s : Text) : Row
  | .num .frequencyMHz => .int 100
  | .num .bandwidthKHz => .int 10
  | .txt .rdfs => .str s
  | .lti => .str "01-01-2024 00:00:00".toList
  | _ => .null

/-- The batch of that report alone. -/
def strangerBatch (s : Text) : Frame := ⟨requiredCols.map Prod.fst, [strangerReport s]⟩

theorem validateReports_strangerBatch (s : Text) :
    validateReports (strangerBatch s) = .ok ⟨⟩ := rfl

theorem Cell.eq_str_of_val {c : Cell} {s : Text} (h : c.val = some (.str s)) : c = .str s := by
  rcases c with _ | _ | _ | _ | _ | s' | _ <;> simp_all [Cell.val]

/-- There is always another station. -/
theorem exists_stranger (rows : List Member) :
    ∃ s : Text, ∀ m ∈ rows, (m.cells (.txt .rdfs)).val ≠ some (.str s) := by
  obtain ⟨s, hs⟩ := Infinite.exists_notMem_finset
    (rows.map fun m => (m.cells (.txt .rdfs)).pyStr).toFinset
  refine ⟨s, fun m hm hval => hs ?_⟩
  rw [List.mem_toFinset, List.mem_map]
  refine ⟨m, hm, ?_⟩
  rw [Cell.eq_str_of_val hval]
  rfl

/-- A report of another station is skipped or makes a net of its own. -/
theorem ingestReport_stranger (env : FoldEnv) (st : IngestState) {s : Text}
    (hs : ∀ m ∈ st.members.rows, (m.cells (.txt .rdfs)).val ≠ some (.str s)) :
    ∃ st', ingestReport env st (strangerReport s) 0 = .ok st' ∧
      (∀ c ∈ st.members.cols, c ∈ st'.members.cols) ∧
      ∃ added, st'.members.rows = st.members.rows ++ added ∧
        ∀ m' ∈ added, ∀ m ∈ st.members.rows, m'.netId ≠ m.netId := by
  by_cases hseen : env.isIngested st.seen (strangerReport s) = true
  · exact ⟨_, if_pos hseen, fun _ hc => hc, [], (List.append_nil _).symm,
      fun _ hm' => absurd hm' List.not_mem_nil⟩
  · have hnone : newest env.cfg st.members (env.dict (strangerReport s)).cells = none := by
      rw [newest_eq]
      split
      · next hcond =>
        rw [List.firstMax_eq_none_iff]
        intro m hm
        refine Bool.eq_false_iff.mpr fun hcand => hs m hm ?_
        rw [val_rdfs_of_isCandidate hcand]
        -- the station is among the columns that are carried over
        have hna := hcond.2
        show ((if Col.txt .rdfs ∈ env.keys then strangerReport s (.txt .rdfs) else .null).val) = _
        split
        · rfl
        · next hkey =>
          change (if Col.txt .rdfs ∈ env.keys then _ else Cell.null).isna = false at hna
          rw [if_neg hkey] at hna
          exact nomatch hna
      · rfl
    have hroute : routeReport .processReports env.cfg st.members (env.dict (strangerReport s))
        = .ok (_, ⟨nextMyNetId st.members.rows, nextNetId st.members.rows, .new, .null⟩) :=
      routeReport_eq_ok_iff.mpr (.inl ⟨hnone, rfl, rfl⟩)
    unfold ingestReport
    dsimp only
    rw [if_neg hseen, hroute]
    refine ⟨_, rfl, fun c hc => List.mem_append_left _ hc, _, rfl, fun m' hm' m hm => ?_⟩
    rw [List.mem_singleton.mp hm']
    exact (netId_lt_nextNetId hm).ne'

/-- With the columns the nets are told apart by, some batch is processed that folds no report. -/
theorem exists_processBook (sv : SortValues) (cfg : MatchConfig)
    (hlti : Col.lti ∈ wb.sheet.dataCols) (hrdfs : Col.txt .rdfs ∈ wb.sheet.dataCols) :
    ∃ newDf out added, processBook sv cfg wb newDf = .ok out ∧
      (∀ m' ∈ added, ∀ m ∈ (loadSheet wb.sheet).rows, m'.netId ≠ m.netId) ∧
      ∀ n, (∃ r ∈ out.1.sheet.rows, r.systemNet = some (fmtSystemNet n)) ↔
        ∃ m ∈ dedupRdfsPerNet sv ((loadSheet wb.sheet).rows ++ added),
          m.netId = n ∧ m.myNetId ≠ none := by
  obtain ⟨s, hs⟩ := exists_stranger (loadSheet wb.sheet).rows
  obtain ⟨st, hst, hcols, added, hadded, hids⟩ :=
    ingestReport_stranger (wb.start cfg (strangerBatch s)).1 (wb.start cfg (strangerBatch s)).2 hs
  -- the batch is one report, of a station that no net has
  have hfold : (strangerBatch s).rows.zipIdx.foldlM
      (fun st r => ingestReport (wb.start cfg (strangerBatch s)).1 st r.1 r.2)
        (wb.start cfg (strangerBatch s)).2 = .ok st := by
    show (ingestReport _ _ (strangerReport s) 0 >>= fun st => pure st) = _
    rw [hst]
    rfl
  have hd : dedupMembers sv st.members
      = .ok { st.members with rows := dedupRdfsPerNet sv st.members.rows } := by
    refine if_neg (not_or.mpr ⟨not_not.mpr (hcols _ hlti), not_not.mpr (hcols _ hrdfs)⟩)
  obtain ⟨sheet, hb⟩ : ∃ sheet,
      buildSheet sv { st.members with rows := dedupRdfsPerNet sv st.members.rows }
        (wb.start cfg (strangerBatch s)).1.dataCols = .ok sheet := by
    unfold buildSheet
    split
    · exact ⟨_, rfl⟩
    · rw [if_neg (not_not.mpr (hcols _ hlti))]
      exact ⟨_, rfl⟩
  obtain ⟨out, hout, hsheet⟩ : ∃ out, processBook sv cfg wb (strangerBatch s) = .ok out ∧
      out.1.sheet = sheet := by
    unfold processBook
    rw [validateReports_strangerBatch]
    refine ⟨_, Except.bind_eq_ok_iff.mpr ⟨⟨⟩, rfl, Except.bind_eq_ok_iff.mpr ⟨st, hfold,
      Except.bind_eq_ok_iff.mpr ⟨_, hd, Except.bind_eq_ok_iff.mpr ⟨sheet, hb, rfl⟩⟩⟩⟩, rfl⟩
  refine ⟨_, out, added, hout, hids, fun n => ?_⟩
  have hrows : st.members.rows = (loadSheet wb.sheet).rows ++ added := hadded
  rw [hsheet, ← hrows]
  exact written_iff hd hb n

end

/-- Added records of other nets change nothing for a net. -/
theorem Outlasts.of_append {rank : Member → WithBot Timestamp} {rows added : List Member} {n : ℤ}
    (h : Outlasts rank (rows ++ added) n) (hids : ∀ m ∈ added, m.netId ≠ n) :
    Outlasts rank rows n := by
  obtain ⟨m, hm, rfl, hmy, hout⟩ := h
  have hrow : m ∈ rows :=
    (List.mem_append.mp hm).resolve_right fun hadd => hids m hadd rfl
  exact ⟨m, hrow, rfl, hmy, fun m' hm' => hout m' (List.mem_append_left _ hm')⟩

section
variable {wb : NetBook} {cfg : MatchConfig}

/-- Where every record has a `my_net_id` there is nothing to outlast. -/
theorem NetBook.lasting_of_labelled (rank : Member → WithBot Timestamp)
    (h : ∀ m ∈ (loadSheet wb.sheet).rows, m.myNetId ≠ none) : wb.Lasting rank :=
  fun m hm => ⟨m, hm, rfl, h m hm, fun m' hm' _ hno => absurd hno (h m' hm')⟩

/-- A record that outlasts the others keeps the net. -/
theorem NetBook.Lasting.keepsNets
    (h : wb.Lasting (Member.least (loadSheet wb.sheet).ltiDatetime)) (sv : SortValues) :
    wb.KeepsNets sv cfg := by
  intro newDf out hrun m hm
  obtain ⟨ms, hcarries, hwritten⟩ := processBook_eq_ok hrun
  exact (hwritten m.netId).mpr ((hcarries.outlasts (h m hm)).exists_mem_dedup sv)

/-- Where nets are kept with the records that have no `my_net_id` first, others outlast these. -/
theorem NetBook.KeepsNets.lasting (h : wb.KeepsNets .unlabelledFirst cfg)
    (hlti : Col.lti ∈ wb.sheet.dataCols) (hrdfs : Col.txt .rdfs ∈ wb.sheet.dataCols) :
    wb.Lasting Member.latest := by
  intro m hm
  obtain ⟨newDf, out, added, hrun, hids, hwritten⟩ :=
    exists_processBook .unlabelledFirst cfg hlti hrdfs
  obtain ⟨m', hm', hnet, hmy⟩ := (hwritten m.netId).mp (h newDf out hrun m hm)
  rw [← hnet]
  refine (outlasts_of_mem_dedup hm' hmy).of_append fun x hx => ?_
  rw [hnet]
  exact hids x hx m hm

/-- Where a net has one record, it is this one that has a `my_net_id`. -/
theorem NetBook.KeepsNets.labelled {sv : SortValues} (h : wb.KeepsNets sv cfg)
    (hlti : Col.lti ∈ wb.sheet.dataCols) (hrdfs : Col.txt .rdfs ∈ wb.sheet.dataCols)
    (hn : ((loadSheet wb.sheet).rows.map (·.netId)).Nodup) :
    ∀ m ∈ (loadSheet wb.sheet).rows, m.myNetId ≠ none := by
  intro m hm
  obtain ⟨newDf, out, added, hrun, hids, hwritten⟩ := exists_processBook sv cfg hlti hrdfs
  obtain ⟨m', hm', hnet, hmy⟩ := (hwritten m.netId).mp (h newDf out hrun m hm)
  have hmem := (sv.perm _).mem_iff.mp (mem_of_mem_dropDuplicates hm')
  have hrow : m' ∈ (loadSheet wb.sheet).rows :=
    (List.mem_append.mp hmem).resolve_right fun hadd => hids m' hadd m hm hnet
  rwa [List.inj_on_of_nodup_map hn hrow hm hnet] at hmy

/-- A sheet keeps its nets if for each of them a record with a `my_net_id` outlasts those without
even with the least that folding leaves of its LTI. One that keeps them whatever the order of
records with the same LTI has such records for the LTIs as they are, which is the same where these
are text. With one record per net it means that all have a `my_net_id`. -/
theorem keepsNets_iff (cfg : MatchConfig) (wb : NetBook) :
    (wb.Lasting (Member.least (loadSheet wb.sheet).ltiDatetime) → ∀ sv, wb.KeepsNets sv cfg) ∧
      (Col.lti ∈ wb.sheet.dataCols → Col.txt .rdfs ∈ wb.sheet.dataCols →
        ((∀ sv, wb.KeepsNets sv cfg) → wb.Lasting Member.latest) ∧
          (wb.sheet.TextTimes → ((∀ sv, wb.KeepsNets sv cfg) ↔ wb.Lasting Member.latest)) ∧
          (((loadSheet wb.sheet).rows.map (·.netId)).Nodup → ∀ sv,
            (wb.KeepsNets sv cfg ↔ ∀ m ∈ (loadSheet wb.sheet).rows, m.myNetId ≠ none))) := by
  refine ⟨fun h => h.keepsNets, fun hlti hrdfs => ?_⟩
  have hlasting (h : ∀ sv, wb.KeepsNets sv cfg) : wb.Lasting Member.latest :=
    (h .unlabelledFirst).lasting hlti hrdfs
  refine ⟨hlasting, fun htext => ⟨hlasting, fun h => ?_⟩, fun hn sv => ⟨fun h =>
    h.labelled hlti hrdfs hn, fun h => (NetBook.lasting_of_labelled _ h).keepsNets sv⟩⟩
  refine NetBook.Lasting.keepsNets fun m hm => ?_
  obtain ⟨m', hm', hnet, hmy, hout⟩ := h m hm
  refine ⟨m', hm', hnet, hmy, ?_⟩
  rwa [least_eq_latest htext hm']

end

/-- A sheet with one net, and what its cell `MY_NET` says. -/
def oneNetBook (myNet : Option Text) : NetBook where
  sheet :=
    ⟨requiredCols.map Prod.fst,
      [{ myNet, systemNet := some "100001".toList, cells := strangerReport "A".toList }]⟩
  logCols := []
  log := []

/-- The sheet with a second record of the net, which is later and has a `my_net_id`. -/
def relabelledBook : NetBook where
  sheet :=
    ⟨requiredCols.map Prod.fst,
      [{ systemNet := some "100001".toList, cells := strangerReport "A".toList },
        { myNet := some "00001".toList, systemNet := some "100001".toList,
          cells := fun c => if c = .lti then .str "02-01-2024 00:00:00".toList
            else strangerReport "A".toList c }]⟩
  logCols := []
  log := []

/-- A legacy sheet with one net, which is under no `MY_NET`. -/
def headlessBook : NetBook where
  sheet :=
    ⟨requiredCols.map Prod.fst,
      [{ rowType := some "SYSTEM_NET".toList, systemNet := some "100001".toList,
          cells := fun _ => .null },
        { cells := strangerReport "A".toList }]⟩
  logCols := []
  log := []

/-- The net is kept, though one of its records has no `my_net_id`. -/
theorem keepsNets_relabelledBook : (∀ sv, relabelledBook.KeepsNets sv {}) ∧
    (loadSheet relabelledBook.sheet).rows.map (·.myNetId) = [none, some 1] := by
  have hload : (loadSheet relabelledBook.sheet).rows.map
      (fun m => (m.netId, m.myNetId, m.cells .lti))
        = [(100001, none, .str "01-01-2024 00:00:00".toList),
          (100001, some 1, .str "02-01-2024 00:00:00".toList)] := by decide +kernel
  have hrow {m : Member} (hm : m ∈ (loadSheet relabelledBook.sheet).rows) :=
    List.mem_map_of_mem (f := fun m : Member => (m.netId, m.myNetId, m.cells .lti)) hm
  rw [hload] at hrow
  simp only [List.mem_cons, Prod.mk.injEq, List.not_mem_nil, or_false] at hrow
  have hlater (m m' : Member) (h : m.cells .lti = .str "02-01-2024 00:00:00".toList)
      (h' : m'.cells .lti = .str "01-01-2024 00:00:00".toList) : m'.latest < m.least false := by
    unfold Member.latest Member.least
    rw [h, h']
    decide +kernel
  obtain ⟨kept, hkept, hlabel⟩ : ∃ m ∈ (loadSheet relabelledBook.sheet).rows,
      (m.netId, m.myNetId, m.cells .lti)
        = (100001, some 1, .str "02-01-2024 00:00:00".toList) := by
    rw [← List.mem_map, hload]
    exact List.mem_cons_of_mem _ List.mem_cons_self
  simp only [Prod.mk.injEq] at hlabel
  have hdatetime : (loadSheet relabelledBook.sheet).ltiDatetime = false := by decide +kernel
  refine ⟨(keepsNets_iff {} _).1 fun m hm => ⟨kept, hkept, ?_, ?_, fun m' hm' _ hno => ?_⟩,
    by decide +kernel⟩
  · exact hlabel.1.trans ((hrow hm).elim And.left And.left).symm
  · rw [hlabel.2.1]
    exact Option.some_ne_none 1
  · rw [hdatetime]
    rcases hrow hm' with ⟨-, -, hlti⟩ | ⟨-, hsome, -⟩
    · exact hlater kept m' hlabel.2.2 hlti
    · rw [hsome] at hno
      exact nomatch hno

/-- A net is lost if another than the sheet's is all that a batch writes. -/
theorem not_keepsNets_of_run {sv : SortValues} {cfg : MatchConfig} {wb : NetBook} {newDf : Frame}
    {n : ℤ} {written : List (Option Text)}
    (hload : (loadSheet wb.sheet).rows.map (·.netId) = [n])
    (hrun : (processBook sv cfg wb newDf).map (fun out => out.1.sheet.rows.map (·.systemNet))
      = .ok written) (hn : some (fmtSystemNet n) ∉ written) : ¬ wb.KeepsNets sv cfg := by
  intro h
  obtain ⟨out, hout, rfl⟩ := Except.map_eq_ok_iff.mp hrun
  have hmem : n ∈ (loadSheet wb.sheet).rows.map (·.netId) := by
    rw [hload]
    exact List.mem_singleton_self n
  obtain ⟨m, hm, rfl⟩ := List.mem_map.mp hmem
  obtain ⟨r, hr, hsys⟩ := h newDf out hout m hm
  exact hn (List.mem_map.mpr ⟨r, hr, hsys⟩)

/-- A net without a `my_net_id` is not written back, whichever the layout. -/
theorem not_keepsNets_oneNetBook :
    ¬ (oneNetBook none).KeepsNets .stable {} ∧ ¬ headlessBook.KeepsNets .stable {} := by
  have hload : (loadSheet (oneNetBook none).sheet).rows.map (·.netId) = [100001] := by
    decide +kernel
  have hload' : (loadSheet headlessBook.sheet).rows.map (·.netId) = [100001] := by
    decide +kernel
  have hrun : (processBook .stable {} (oneNetBook none) (strangerBatch "B".toList)).map
      (fun out => out.1.sheet.rows.map (·.systemNet)) = .ok [some "100002".toList] := by
    decide +kernel
  have hrun' : (processBook .stable {} headlessBook (strangerBatch "B".toList)).map
      (fun out => out.1.sheet.rows.map (·.systemNet)) = .ok [some "100002".toList] := by
    decide +kernel
  exact ⟨not_keepsNets_of_run hload hrun (by decide), not_keepsNets_of_run hload' hrun' (by decide)⟩

end NetBuild
