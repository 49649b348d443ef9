import NetBuild.AlertQueue
import NetBuild.SheetLayouts
import NetBuild.TimestampTheorems

/-!
# What an alert says, and which alerts there are

The numbers of an alert are rounded before they are stored, and the times they compare are dates.
Whatever requests have come, the numbers of every alert recorded are within the tolerances recorded
with them; and after a listing every two nets that match and are in different groups are in the
queue, unless they were rejected.
-/

namespace NetBuild

open NetMerging NetMergingService Views
open Prog (Run run_bind_iff run_bind_ok_iff run_ret_iff)

/-! ## Rounding -/

theorem roundHalfEven_near (q : ℚ) : |q - roundHalfEven q| ≤ 1 / 2 := by
  have hle : (q.floor : ℚ) ≤ q := Int.floor_le q
  have hlt : q < q.floor + 1 := Int.lt_floor_add_one q
  rw [abs_le]
  unfold roundHalfEven
  dsimp only
  split_ifs <;> push_cast <;> constructor <;> linarith

/-- Rounding keeps the order: between two neighbours there is one number that both are near to. -/
theorem roundHalfEven_mono {q q' : ℚ} (h : q ≤ q') : roundHalfEven q ≤ roundHalfEven q' := by
  refine not_lt.mp fun hlt => ?_
  have hstep : ((roundHalfEven q' + 1 : ℤ) : ℚ) ≤ roundHalfEven q := Int.cast_le.mpr hlt
  rw [Int.cast_add, Int.cast_one] at hstep
  have hq := (abs_le.mp (roundHalfEven_near q)).1
  have hq' := (abs_le.mp (roundHalfEven_near q')).2
  have heq : q = q' := le_antisymm h (by linarith)
  rw [heq] at hlt
  exact lt_irrefl _ hlt

theorem pyRound_mono (k : ℕ) : Monotone (pyRound · k) := by
  intro q q' h
  have hpow : (0 : ℚ) < 10 ^ k := by positivity
  refine div_le_div_of_nonneg_right ?_ hpow.le
  exact_mod_cast roundHalfEven_mono (mul_le_mul_of_nonneg_right h hpow.le)

@[simp] theorem pyRound_intCast (n : ℤ) (k : ℕ) : pyRound n k = n := by
  have hpow : (10 : ℚ) ^ k ≠ 0 := by positivity
  have hint : (n : ℚ) * 10 ^ k = ((n * 10 ^ k : ℤ) : ℚ) := by push_cast; rfl
  unfold pyRound
  rw [hint, roundHalfEven_intCast]
  push_cast
  exact mul_div_cancel_right₀ _ hpow

/-! ## The numbers of a match -/

/-- An alert that bears out what it was raised for, under the default knobs. -/
structure Snapshot.Justified (sn : Snapshot) : Prop where
  apart : sn.myNetIdA ≠ sn.myNetIdB
  bands : ∃ fa fb gap tol, sn.frequencyA = some fa ∧ sn.frequencyB = some fb ∧
    gap = pyRound |fa - fb| 4 ∧ sn.freqGapMhz = some gap ∧ sn.freqTolMhz = some tol ∧ gap ≤ tol
  day : sn.ltiA ≠ none ∧ sn.ltiB = sn.ltiA
  time : sn.ltiGapSec = some 0 ∧ sn.ltiTolSec = some 5
  place : ∃ d, sn.distanceM = some d ∧ d ≤ 100 ∧ sn.locTolM = some 100

theorem secondsBetween_ofDate (d d' : Date) :
    secondsBetween (.ofDate d) (.ofDate d') = ((d.toOrdinal : ℤ) - d'.toOrdinal : ℤ) * 86400 := by
  simp [secondsBetween, Timestamp.ofDate]

/-- Dates that are five seconds apart are the same. -/
theorem date_eq_of_near {d d' : Date}
    (h : |secondsBetween (.ofDate d) (.ofDate d')| ≤ 5) : d = d' := by
  rw [secondsBetween_ofDate] at h
  have hint : |((d.toOrdinal : ℤ) - d'.toOrdinal) * 86400| ≤ 5 := by exact_mod_cast h
  obtain ⟨hlo, hhi⟩ := abs_le.mp hint
  exact Date.toOrdinal_strictMono.injective (by omega)

namespace NetMerging

variable {M : MathFns} {r1 r2 : Row}

theorem freqMatch_eq_true {cfg : MergeConfig} (h : freqMatch cfg r1 r2 = .ok true) :
    ∃ fa fb tol, float (r1 (.num .frequencyMHz)) = .ok (some fa) ∧
      float (r2 (.num .frequencyMHz)) = .ok (some fb) ∧ tuneTol cfg r1 r2 = .ok (some tol) ∧
        |fa - fb| ≤ tol := by
  unfold freqMatch at h
  obtain ⟨f1, h1, h⟩ := Except.bind_eq_ok_iff.mp h
  obtain ⟨f2, h2, h⟩ := Except.bind_eq_ok_iff.mp h
  obtain ⟨t, ht, h⟩ := Except.bind_eq_ok_iff.mp h
  have hle := Except.ok.inj h
  rcases f1 with _ | fa
  · exact nomatch hle
  rcases f2 with _ | fb
  · exact nomatch hle
  rcases t with _ | tol
  · exact nomatch hle
  exact ⟨fa, fb, tol, h1, h2, ht, of_decide_eq_true hle⟩

theorem locMatch_eq_true (h : locMatch M {} r1 r2 = .ok true) :
    ∃ d, locDistM M r1 r2 = .ok (some d) ∧ d ≤ 100 := by
  unfold locMatch at h
  obtain ⟨d, hd, h⟩ := Except.bind_eq_ok_iff.mp h
  rcases d with _ | d
  · exact nomatch Except.ok.inj h
  · exact ⟨d, hd, of_decide_eq_true (Except.ok.inj h)⟩

end NetMerging

section
variable {rows : List (ℤ × Net)} {r r' : ℤ × Net}

/-- The time of a net in a frame is the midnight of its date. -/
theorem val_lti_netRecord (rows : List (ℤ × Net)) (r : ℤ × Net) :
    ((netRecord rows r).cells .lti).val = r.2.lti.map fun d => .ts (.ofDate d) := by
  have hval : ((netRecord rows r).cells .lti).val = (rawNet r.2 .lti).val := storeRow_agrees _ _ _
  rw [hval]
  unfold rawNet cassandraRowToDfRow
  rcases r.2.lti with _ | d <;> rfl

theorem dateOrNone_lti_netRecord (rows : List (ℤ × Net)) (r : ℤ × Net) :
    dateOrNone ((netRecord rows r).cells .lti) = .ok r.2.lti := by
  have hval := val_lti_netRecord rows r
  rcases hc : (netRecord rows r).cells .lti <;> rcases hd : r.2.lti <;> rw [hc, hd] at hval <;>
    simp_all [Cell.val, dateOrNone, Cell.isna, Timestamp.ofDate]

theorem toDt_lti_netRecord (rows : List (ℤ × Net)) (r : ℤ × Net) :
    toDt ((netRecord rows r).cells .lti) = r.2.lti.map .ofDate := by
  have hval := val_lti_netRecord rows r
  rcases hd : r.2.lti with _ | d
  · rw [hd] at hval
    have hnull : ((netRecord rows r).cells .lti).val = Cell.null.val := hval
    exact toDt_congr hnull
  · rw [hd] at hval
    have hts : ((netRecord rows r).cells .lti).val = (Cell.ts (.ofDate d)).val := hval
    exact toDt_congr hts

/-- Two nets whose times match were last seen on one day. -/
theorem lti_of_timeMatch
    (h : timeMatch {} (netRecord rows r).cells (netRecord rows r').cells = true) :
    r.2.lti ≠ none ∧ r'.2.lti = r.2.lti ∧
      ltiGapSec (netRecord rows r).cells (netRecord rows r').cells = some 0 := by
  unfold timeMatch ltiGapSec at h
  unfold ltiGapSec
  rw [toDt_lti_netRecord, toDt_lti_netRecord] at *
  rcases hr : r.2.lti with _ | d
  · rw [hr] at h
    exact nomatch h
  rcases hr' : r'.2.lti with _ | d'
  · rw [hr, hr'] at h
    exact nomatch h
  rw [hr, hr'] at h
  obtain rfl : d = d' := date_eq_of_near (of_decide_eq_true h)
  refine ⟨Option.some_ne_none _, rfl, ?_⟩
  simp [secondsBetween_ofDate]

end

/-- The alert of a pair that the search has found. -/
theorem snapshotRow_justified {ord : ReadOrder} {s : Store} {M : MathFns} {now : Time}
    {rows : List (ℤ × Net)} {pairs : List (ℤ × ℤ × Reasons)} {p : ℤ × ℤ × Reasons}
    {r : PairKey × Candidate} (hlab : Labelled s) (hrows : Lists ord.building rows s.building)
    (hpairs : proposePairs M {} (fetchNets rows) = .ok pairs) (hp : p ∈ pairs)
    (h : snapshotRow now (fetchNets rows) p.1 p.2.1 p.2.2 = .ok r) :
    r.1.1 < r.1.2 ∧ ∃ sn, r.2.snapshot = some sn ∧ sn.Justified := by
  obtain ⟨lo, hi, reasons⟩ := p
  have hn : ((fetchNets rows).map (·.netId)).Nodup := by
    rw [map_netId_fetchNets]
    exact hrows.nodup
  obtain ⟨a, ha, b, hb, rfl, rfl, hlt, ⟨hmy, hsame⟩, hreasons⟩ :=
    (mem_proposePairs_iff_matches hpairs hn).mp hp
  rw [fetchNets_eq] at ha hb
  obtain ⟨x, hx, rfl⟩ := List.mem_map.mp ha
  obtain ⟨y, hy, rfl⟩ := List.mem_map.mp hb
  obtain ⟨hfreq, htime, hloc⟩ := sameNet_eq_true_iff.mp hsame
  obtain ⟨fa, fb, tol, hfa, hfb, htol, hband⟩ := freqMatch_eq_true hfreq
  obtain ⟨d, hd, hnear⟩ := locMatch_eq_true hloc
  obtain ⟨hday, hdays, hgap⟩ := lti_of_timeMatch htime
  -- the labels are those of the nets
  have hlabels := snapshotRow_labels hrows h
  have hx' := (hrows.mem_iff x.1 x.2).mp hx
  have hy' := (hrows.mem_iff y.1 y.2).mp hy
  have hapart : x.2.myNetId ≠ y.2.myNetId := by
    intro he
    rw [(cellEq_netRecord_iff (hlab _ _ hx')).mpr he] at hmy
    exact nomatch hmy
  obtain ⟨hkey, -, sn, hsn, hmyA, hmyB⟩ := hlabels
  rw [hkey]
  refine ⟨hlt, sn, hsn, ?_⟩
  -- the numbers are those of the search
  unfold matchReasons at hreasons
  rw [hfa, hfb, htol] at hreasons
  dsimp only [Bind.bind, Except.bind] at hreasons
  rw [if_pos rfl, hd] at hreasons
  obtain rfl := Except.ok.inj hreasons
  unfold snapshotRow at h
  dsimp only at h
  have hrecA : netById (fetchNets rows) (netRecord rows x).netId = .ok (netRecord rows x) :=
    netById_fetchNets hrows.nodup hx
  have hrecB : netById (fetchNets rows) (netRecord rows y).netId = .ok (netRecord rows y) :=
    netById_fetchNets hrows.nodup hy
  rw [hrecA, hrecB, hgap] at h
  obtain ⟨_, hA, h⟩ := Except.bind_eq_ok_iff.mp h
  obtain ⟨_, hB, h⟩ := Except.bind_eq_ok_iff.mp h
  obtain rfl := Except.ok.inj hA
  obtain rfl := Except.ok.inj hB
  obtain ⟨myA, -, h⟩ := Except.bind_eq_ok_iff.mp h
  obtain ⟨myB, -, h⟩ := Except.bind_eq_ok_iff.mp h
  obtain ⟨_, -, h⟩ := Except.bind_eq_ok_iff.mp h
  obtain ⟨_, -, h⟩ := Except.bind_eq_ok_iff.mp h
  rw [hfa, hfb, dateOrNone_lti_netRecord, dateOrNone_lti_netRecord] at h
  obtain rfl := Except.ok.inj h
  obtain rfl := Option.some.inj hsn
  replace hmyA : x.2.myNetId = some myA := (Store.label_of_eq_some hx').symm.trans hmyA
  replace hmyB : y.2.myNetId = some myB := (Store.label_of_eq_some hy').symm.trans hmyB
  have hnear' : pyRound d 1 ≤ pyRound (100 : ℤ) 1 := pyRound_mono 1 (by exact_mod_cast hnear)
  have hzero : pyRound 0 1 = 0 := by exact_mod_cast pyRound_intCast 0 1
  exact {
    apart := fun he => hapart (by rw [hmyA, hmyB]; exact congrArg some he)
    bands := ⟨fa, fb, _, _, rfl, rfl, rfl, rfl, rfl, pyRound_mono 4 hband⟩
    day := ⟨hday, hdays⟩
    time := ⟨congrArg some hzero, rfl⟩
    place := ⟨_, rfl, by rwa [pyRound_intCast] at hnear', rfl⟩ }

/-! ## Every alert -/

/-- The alerts of the store bear out what they were raised for. -/
def Store.AlertsJustified (s : Store) : Prop :=
  ∀ k c, s.candidates k = some c → k.1 < k.2 ∧ ∃ sn, c.snapshot = some sn ∧ sn.Justified

/-- The request records an alert that bears out what it was raised for. -/
def Req.Justifies : Req → Prop
  | .buildingFindAll | .candidatesFindAll => True
  | .candidatesInsert k c => k.1 < k.2 ∧ ∃ sn, c.snapshot = some sn ∧ sn.Justified
  | _ => False

section
variable {ord : ReadOrder} {s s' : Store}

theorem Store.AlertsJustified.of_justifies {α : Type} {p : Client α} {o : Except PyError α}
    (h : s.AlertsJustified) (hp : p.Always Req.Justifies) (hrun : Run (exec ord) s p s' o) :
    s'.AlertsJustified := by
  refine hrun.preserves (fun t r x t' hr ht hex => ?_) hp h
  rw [hex.2]
  rcases r with _ | _ | _ | _ | _ | _ | _ | _ | _ | _ | _ | _ | ⟨k, c⟩ | _
  case buildingFindAll => exact ht
  case candidatesFindAll => exact ht
  case candidatesInsert =>
    intro k' c' hc'
    change t.candidates.upsert k c k' = some c' at hc'
    rw [Table.upsert_apply] at hc'
    split at hc'
    · next hk =>
      rw [hk, ← Option.some.inj hc']
      exact hr
    · exact ht k' c' hc'
  all_goals exact hr.elim

theorem Store.AlertsJustified.list {M : MathFns} {clock : ListClock}
    {o : Except PyError PendingList}
    (h : s.AlertsJustified) (hlab : Labelled s)
    (hrun : Run (exec ord) s (listPendingCandidates M {} clock) s' o) : s'.AlertsJustified := by
  unfold listPendingCandidates detectNewCandidates at hrun
  rw [Prog.bind_assoc', Prog.request_bind] at hrun
  obtain ⟨rows, hrows, hrun⟩ := run_request_iff.mp hrun
  change Run (exec ord) s _ _ _ at hrun
  refine h.of_justifies ?_ hrun
  refine Prog.Always.bind ?_ fun _ => ⟨trivial, fun _ => trivial⟩
  split
  · trivial
  · refine ⟨trivial, fun seen => ?_⟩
    refine Prog.Always.lift_bind fun pairs hpairs => Prog.Always.bind ?_ fun _ => trivial
    refine Prog.always_forM fun p hp => Prog.Always.lift_bind fun r hr => ⟨?_, fun _ => trivial⟩
    exact snapshotRow_justified hlab hrows hpairs (List.mem_of_mem_filter hp) hr

/-- No decision touches what an alert says. -/
theorem Store.AlertsJustified.decided {a b : ℤ} {d : Decision} {now : Time}
    (h : s.AlertsJustified) (hd : Decided ord s a b now d s') : s'.AlertsJustified := by
  intro k c' hc'
  obtain ⟨hcont, hnone⟩ := hd.continues
  rcases hc : s.candidates k with _ | c
  · exact nomatch (hnone k hc).symm.trans hc'
  · obtain ⟨c'', hc'', hlater⟩ := hcont k c hc
    obtain rfl := Option.some.inj (hc''.symm.trans hc')
    rcases hlater with _ | _
    · exact h k c hc
    · exact h k c hc

theorem Store.AlertsJustified.call {c : ApiCall} {o : Except PyError Reply}
    (h : s.AlertsJustified) (hlab : Labelled s) (hrun : Run (exec ord) s c.prog s' o) :
    s'.AlertsJustified := by
  have hdecide : ∀ {d ready pk now}, Run (exec ord) s (decisionPost d ready pk now) s' o →
      s'.AlertsJustified := by
    intro d ready pk now hrun
    rcases run_decisionPost hrun with ⟨_, _, _, -, -, -, hd⟩ | ⟨rfl, -⟩
    · exact h.decided hd
    · exact h
  rcases c with ⟨ready, clock⟩ | ⟨M, ready, clock⟩ | ⟨ready, pk, now⟩ | ⟨ready, pk, now⟩
  · have hcands : s'.candidates = s.candidates := by
      rcases (run_getBuild hrun).1 with _ | ⟨_, _, hcands, _⟩
      · rfl
      · exact hcands
    intro k x hx
    rw [hcands] at hx
    exact h k x hx
  · change Run (exec ord) s (getCandidates M ready clock) s' o at hrun
    unfold getCandidates at hrun
    split at hrun
    · rw [(run_ret_iff.mp hrun).1]
      exact h
    · rcases run_bind_iff.mp hrun with ⟨e, hlist, -⟩ | ⟨res, t, hlist, hret⟩
      · exact h.list hlab hlist
      · rw [(run_ret_iff.mp hret).1]
        exact h.list hlab hlist
  · exact hdecide hrun
  · exact hdecide hrun

/-- Every alert recorded, whatever requests have come and however they have ended, is of two nets
under their ids in order that were in different groups, were last seen on one day and, by the
numbers stored with it, were within the tolerances stored with it. -/
theorem alerts_justified {log : List Exchange} (h : ApiRun ord log s) : s.AlertsJustified := by
  induction h with
  | start => exact fun _ _ hc => nomatch hc
  | reports before report ih => exact ih
  | call before run ih => exact ih.call before.anchored.labelled run

end

/-- The alert of the two nets at one spot. -/
theorem alerts_justified_spotNets :
    ∃ log s c sn, ApiRun .any log s ∧ s.candidates (100001, 100002) = some c ∧
      c.snapshot = some sn ∧ sn.myNetIdA ≠ sn.myNetIdB ∧ sn.ltiGapSec = some 0 := by
  obtain ⟨log, s, hrun, hspot⟩ := apiRun_spotNets
  obtain ⟨c, hc, -⟩ := hspot.pair
  have hrow : s.candidates (100001, 100002) = some c :=
    (Table.Enumerates.mem_iff hc _ _).mp (List.mem_singleton_self _)
  obtain ⟨-, sn, hsn, hj⟩ := alerts_justified hrun _ _ hrow
  exact ⟨log, s, c, sn, hrun, hrow, hsn, hj.apart, hj.time.1⟩

/-! ## No alert is missing -/

section
variable {ord : ReadOrder} {past : List Store} {s s' : Store}

/-- Every recorded pair is pending, approved or rejected. -/
theorem SeqRun.status_ne_none (h : SeqRun ord completeCalls .empty past s) {k : PairKey}
    {c : Candidate} (hc : s.candidates k = some c) : c.status ≠ none := by
  induction h generalizing c with
  | start => exact nomatch hc
  | @call past s s' call o before allowed run ih =>
    have hG : listingsComplete s call o := by
      rcases call with _ | _ | _ | _
      case list => exact allowed.1
      all_goals trivial
    have hstep := ledgerStep hG run
    rcases hold : s.candidates k with _ | x
    · rw [(hstep.added k c hold hc).1]
      exact Option.some_ne_none _
    · obtain ⟨y, hy, hlater⟩ := hstep.continues k x hold
      obtain rfl := Option.some.inj (hy.symm.trans hc)
      rcases hlater with _ | _
      · exact ih hold
      · exact Option.some_ne_none _

/-- After a listing, two nets of different groups that match are in the list exactly where they
were not rejected. -/
theorem alerts_complete {M : MathFns} {cfg : MergeConfig} {clock : ListClock} {res : PendingList}
    (h : SeqRun ord completeCalls .empty past s)
    (hlist : Run (exec ord) s (listPendingCandidates M cfg clock) s' (.ok res))
    {a b : ℤ} {x y : Net} (hx : s'.building a = some x) (hy : s'.building b = some y)
    (hab : a < b) (hmy : x.myNetId ≠ y.myNetId)
    (hsame : sameNet M cfg (rawNet x) (rawNet y) = .ok true) :
    (a, b) ∈ res.candidates.map Prod.fst ↔ s.statusOf (a, b) ≠ some .rejected := by
  have hrun' : SeqRun ord completeCalls .empty (s :: past) s' :=
    h.call ⟨⟨_, rfl⟩, trivial⟩ (run_list_ok_iff.mpr ⟨res, hlist, rfl⟩)
  obtain ⟨rows, pairs, added, hdet⟩ := run_listPendingCandidates hlist
  have hb : s'.building = s.building := by rw [hdet.store]
  have hkey : pairKey a b = (a, b) := Prod.ext (min_eq_left hab.le) (max_eq_right hab.le)
  have hkept : s'.statusOf (a, b) = some .rejected ↔ s.statusOf (a, b) = some .rejected :=
    (run_list_ends hlist).statusOf_iff (by decide) (a, b)
  rw [Ne, ← hkept]
  refine ⟨fun hmem hrej => ?_, fun hrej => ?_⟩
  · obtain ⟨⟨k, c⟩, hc, rfl⟩ := List.mem_map.mp hmem
    obtain ⟨hrow, hp⟩ := (mem_listed_iff hlist _).mp hc
    have hst : s'.statusOf (a, b) = c.status := by
      unfold Store.statusOf
      rw [hrow]
      rfl
    rw [hst, hp] at hrej
    exact nomatch hrej
  · -- the search has recorded the pair
    rw [hb] at hx hy
    have hx' := (hdet.read.mem_iff a x).mpr hx
    have hy' := (hdet.read.mem_iff b y).mpr hy
    have hrec := hdet.complete hdet.read.enumerates hx' hy' hmy
      ((sameNet_netRecord_iff rows (a, x) (b, y)).mpr hsame)
    rw [hkey] at hrec
    obtain ⟨c, hc⟩ := Option.ne_none_iff_exists'.mp hrec
    have hst : s'.statusOf (a, b) = c.status := by
      unfold Store.statusOf
      rw [hc]
      rfl
    rcases hs : c.status with _ | _ | _ | _
    · exact absurd hs (hrun'.status_ne_none hc)
    · exact List.mem_map.mpr ⟨((a, b), c), (mem_listed_iff hlist _).mpr ⟨hc, hs⟩, rfl⟩
    · -- an approved pair is in one group
      have hlab := hrun'.grouped.tracks.eq_of_linked (.rel a b ⟨c, hc, hs⟩)
      rw [Store.label_of_eq_some (hb ▸ hx), Store.label_of_eq_some (hb ▸ hy)] at hlab
      exact absurd hlab hmy
    · exact absurd (hst.trans hs) hrej

end

/-- The first two of three nets are in the first list. -/
theorem alerts_complete_threeNets :
    ∃ past s s' res, SeqRun .any completeCalls .empty past s ∧
      Run (exec .any) s (listPendingCandidates flatMath anywhere ⟨fun _ => 1, 1⟩) s' (.ok res) ∧
        (100001, 100002) ∈ res.candidates.map Prod.fst := by
  obtain ⟨s, rows, pairs, added, ⟨past, hs⟩, hfound⟩ := reached_threeFound (G := completeCalls)
    fun s c out hc => ⟨⟨out, rfl⟩, by rcases c <;> first | trivial | exact absurd rfl (hc _ _ _ _)⟩
  obtain ⟨res, hrun⟩ := hfound.run
  obtain ⟨c, hc, -⟩ := hfound.threeNets.pairs (100001, 100002) (by simp)
  obtain ⟨rows', pairs', added', hdet⟩ := run_listPendingCandidates hrun
  -- the pair is one of those the search has found
  have hnone : s.candidates (100001, 100002) = none := by rw [hfound.unrecorded]; rfl
  have hadded : (100001, 100002) ∈ added'.map Prod.fst := by
    rcases (hdet.candidates_iff _ c).mp hc with hold | ⟨hm, -⟩
    · exact nomatch hnone.symm.trans hold
    · exact List.mem_map_of_mem hm
  rw [hdet.keys] at hadded
  obtain ⟨⟨_, _, reasons⟩, hp, hk⟩ := List.mem_map.mp (List.mem_of_mem_filter hadded)
  obtain ⟨rfl, rfl⟩ := Prod.mk.inj hk
  have hn : ((fetchNets rows').map (·.netId)).Nodup := by
    rw [map_netId_fetchNets]
    exact hdet.read.nodup
  obtain ⟨ra, ha, rb, hb, hida, hidb, hlt, ⟨hmy, hsame⟩, -⟩ :=
    (mem_proposePairs_iff_matches hdet.proposed hn).mp hp
  rw [fetchNets_eq] at ha hb
  obtain ⟨⟨a, x⟩, hx, rfl⟩ := List.mem_map.mp ha
  obtain ⟨⟨b, y⟩, hy, rfl⟩ := List.mem_map.mp hb
  obtain rfl : a = 100001 := hida
  obtain rfl : b = 100002 := hidb
  have hx' := (hdet.read.mem_iff _ x).mp hx
  have hy' := (hdet.read.mem_iff _ y).mp hy
  have hne : x.myNetId ≠ y.myNetId := by
    intro he
    rw [(cellEq_netRecord_iff (hs.grouped.labelled _ _ hx')).mpr he] at hmy
    exact nomatch hmy
  have hstatus : s.statusOf (100001, 100002) ≠ some .rejected := by
    unfold Store.statusOf
    rw [hnone]
    exact nofun
  exact ⟨past, s, _, res, hs, hrun, (alerts_complete hs hrun hx' hy' hlt hne
    ((sameNet_netRecord_iff rows' _ _).mp hsame)).mpr hstatus⟩

end NetBuild
