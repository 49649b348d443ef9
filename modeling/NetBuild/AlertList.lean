import NetBuild.CandidateSearch
import NetBuild.BuildLedger
import NetBuild.Bands

/-!
# When the alert list is returned

Listing the candidates detects new ones first, and the detection reads numbers of all the nets and
writes the stations of those it pairs. What is missing can be read, or written, or neither, by what
else its column holds; `listing_returns_iff` says which tables of nets can be listed.
-/

namespace NetBuild

open NetMerging NetMergingService
open Prog (Run run_bind_iff run_bind_ok_iff run_ret_iff run_raise_iff run_lift_ok_iff)

/-! ## Columns of the nets -/

section
variable {rows : List (ℤ × Net)} {r : ℤ × Net}

/-- Labelled nets compare as equal exactly when they are in one group. -/
theorem cellEq_netRecord_iff {r' : ℤ × Net} (hmy : r.2.myNetId ≠ none) :
    cellEq (netRecord rows r).myNetId (netRecord rows r').myNetId = true ↔
      r.2.myNetId = r'.2.myNetId := by
  refine ⟨fun h => ?_, fun h => ?_⟩
  · by_contra hne
    rw [cellEq_netRecord hne] at h
    exact nomatch h
  · have hval : ∀ r : ℤ × Net, (netRecord rows r).myNetId.val = (myNetIdCell r.2).val :=
      fun r => Dtype.val_store ..
    obtain ⟨n, hn⟩ := Option.ne_none_iff_exists'.mp hmy
    have hcell : myNetIdCell r.2 = .int n := by
      unfold myNetIdCell
      rw [hn]
      rfl
    have hcell' : myNetIdCell r'.2 = .int n := by
      unfold myNetIdCell
      rw [← h, hn]
      rfl
    unfold cellEq
    split
    · rfl
    · rw [hval, hval, hcell, hcell']
      simp [Cell.val]

/-- The record found for the id of a net is the net's own. -/
theorem netById_fetchNets (hn : (rows.map Prod.fst).Nodup) (hr : r ∈ rows) :
    netById (fetchNets rows) r.1 = .ok (netRecord rows r) := by
  have hmem : netRecord rows r ∈ (fetchNets rows).reverse := by
    rw [List.mem_reverse, fetchNets_eq]
    exact List.mem_map_of_mem hr
  unfold netById
  rcases hfind : (fetchNets rows).reverse.find? (·.netId = r.1) with _ | x
  · exact absurd (List.find?_eq_none.mp hfind _ hmem) (by simp [netRecord])
  · have hx := List.mem_of_find?_eq_some hfind
    rw [List.mem_reverse, fetchNets_eq] at hx
    obtain ⟨r', hr', rfl⟩ := List.mem_map.mp hx
    have hdec := List.find?_some hfind
    have hid : r'.1 = r.1 := of_decide_eq_true hdec
    obtain rfl := List.inj_on_of_nodup_map hn hr' hr hid
    rw [hfind]

end

/-! ## Acceptance by a net's own data -/

theorem Cell.number_congr {c c' : Cell} (h : c.val = c'.val) : c.number = c'.number := by
  rcases c with _ | _ | _ | _ | _ | _ | _ <;> rcases c' with _ | _ | _ | _ | _ | _ | _ <;>
    simp_all [Cell.val, Cell.number, Cell.pyFloat]

namespace NetMerging

variable {M : MathFns} {cfg : MergeConfig} {r1 r2 q1 q2 : Row}

theorem float_eq_some_iff {c : Cell} {q : ℚ} : float c = .ok (some q) ↔ c.number = some q := by
  unfold float Cell.number
  rcases c.pyFloat with _ | _ | x <;> simp

theorem toDt_congr {c c' : Cell} (h : c.val = c'.val) : toDt c = toDt c' := by
  have hdt := Cell.toDt_congr h
  rcases c with _ | _ | _ | _ | _ | _ | _ <;> rcases c' with _ | _ | _ | _ | _ | _ | _ <;>
    simp_all [Cell.val, toDt]

theorem position_eq (rec : Row) :
    position rec = (rec (.num .latitude)).number.bind fun lat =>
      (rec (.num .longitude)).number.map fun lon => (lat, lon) := by
  unfold position Cell.number
  rcases (rec (.num .latitude)).pyFloat with _ | _ | lat
  · rfl
  · rfl
  · rcases (rec (.num .longitude)).pyFloat with _ | _ | lon <;> rfl

theorem timeMatch_congr (h1 : r1.Agrees q1) (h2 : r2.Agrees q2) :
    timeMatch cfg r1 r2 = timeMatch cfg q1 q2 := by
  unfold timeMatch ltiGapSec
  rw [toDt_congr (h1 .lti), toDt_congr (h2 .lti)]

theorem position_congr {r q : Row} (h : r.Agrees q) : position r = position q := by
  rw [position_eq, position_eq, Cell.number_congr (h _), Cell.number_congr (h _)]

theorem locMatch_congr (h1 : r1.Agrees q1) (h2 : r2.Agrees q2) :
    locMatch M cfg r1 r2 = locMatch M cfg q1 q2 := by
  unfold locMatch locDistM
  rw [position_congr h1, position_congr h2]

theorem float_congr {c c' : Cell} {q : ℚ} (h : c.val = c'.val) (hc : float c = .ok (some q)) :
    float c' = .ok (some q) := by
  rw [float_eq_some_iff] at hc ⊢
  rw [← Cell.number_congr h, hc]

/-- A tolerance that is a number depends on what the bandwidths say only. -/
theorem tuneTol_congr {t : ℚ} (h1 : r1.Agrees q1) (h2 : r2.Agrees q2)
    (h : tuneTol cfg r1 r2 = .ok (some t)) : tuneTol cfg q1 q2 = .ok (some t) := by
  unfold tuneTol at h ⊢
  split
  · next huse =>
    rw [if_pos huse] at h
    rcases hov : cfg.bwTolOverrideMhz with _ | tol
    · rw [hov] at h
      dsimp only at h ⊢
      obtain ⟨_, hx, h⟩ := Except.bind_eq_ok_iff.mp h
      obtain ⟨b1, hb1, hx⟩ := Except.bind_eq_ok_iff.mp hx
      obtain rfl := Except.ok.inj hx
      obtain ⟨_, hy, h⟩ := Except.bind_eq_ok_iff.mp h
      obtain ⟨b2, hb2, hy⟩ := Except.bind_eq_ok_iff.mp hy
      obtain rfl := Except.ok.inj hy
      -- a `NaN` on either side would show in the sum
      rcases b1 with _ | b1
      · exact nomatch Except.ok.inj h
      · rcases b2 with _ | b2
        · exact nomatch Except.ok.inj h
        · rw [float_congr (h1 _) hb1, float_congr (h2 _) hb2]
          exact h
    · rw [hov] at h
      exact h
  · next huse =>
    rw [if_neg huse] at h
    exact h

theorem freqMatch_congr (h1 : r1.Agrees q1) (h2 : r2.Agrees q2)
    (h : freqMatch cfg r1 r2 = .ok true) : freqMatch cfg q1 q2 = .ok true := by
  obtain ⟨f1, hf1, h⟩ := Except.bind_eq_ok_iff.mp h
  obtain ⟨f2, hf2, h⟩ := Except.bind_eq_ok_iff.mp h
  obtain ⟨tol, htol, h⟩ := Except.bind_eq_ok_iff.mp h
  have hle : (f1.sub f2).abs.le tol = true := Except.ok.inj h
  -- no comparison with `NaN` is true
  rcases f1 with _ | f1
  · exact nomatch hle
  · rcases f2 with _ | f2
    · exact nomatch hle
    · rcases tol with _ | tol
      · exact nomatch hle
      · unfold freqMatch
        rw [float_congr (h1 _) hf1, float_congr (h2 _) hf2, tuneTol_congr h1 h2 htol]
        exact h

theorem sameNet_congr (h1 : r1.Agrees q1) (h2 : r2.Agrees q2)
    (h : sameNet M cfg r1 r2 = .ok true) : sameNet M cfg q1 q2 = .ok true := by
  rw [sameNet_eq_true_iff] at h ⊢
  rw [← timeMatch_congr h1 h2, ← locMatch_congr h1 h2]
  exact ⟨freqMatch_congr h1 h2 h.1, h.2⟩

theorem DistanceFails.congr (h1 : r1.Agrees q1) (h2 : r2.Agrees q2)
    (h : DistanceFails M cfg r1 r2) : DistanceFails M cfg q1 q2 := by
  obtain ⟨hfreq, htime, hloc, hpos⟩ := h
  refine ⟨freqMatch_congr h1 h2 hfreq, ?_, hloc, ?_⟩
  · rw [← timeMatch_congr h1 h2, htime]
  · rw [← position_congr h1, ← position_congr h2]
    exact hpos

end NetMerging

/-- Whether two nets are accepted does not depend on the nets they are read with. -/
theorem sameNet_netRecord_iff {M : MathFns} {cfg : MergeConfig} (rows : List (ℤ × Net))
    (r r' : ℤ × Net) :
    sameNet M cfg (netRecord rows r).cells (netRecord rows r').cells = .ok true ↔
      sameNet M cfg (rawNet r.2) (rawNet r'.2) = .ok true := by
  have hag : ∀ r, (netRecord rows r).cells.Agrees (rawNet r.2) := fun r => storeRow_agrees _ _
  have hag' : ∀ r : ℤ × Net, (rawNet r.2).Agrees (netRecord rows r).cells :=
    fun r c => (hag r c).symm
  exact ⟨sameNet_congr (hag r) (hag r'), sameNet_congr (hag' r) (hag' r')⟩

section
variable {ord : ReadOrder} {s s' : Store} {M : MathFns} {cfg : MergeConfig}
  {rows : List (ℤ × Net)}

/-- The inserting loop ends well exactly where every row can be made. -/
theorem run_insertCandidates_iff {clock : PairKey → Time} {nets : List NetRec}
    {fresh : List (ℤ × ℤ × Reasons)} {o : Except PyError Unit}
    (h : Run (exec ord) s (insertCandidates clock nets fresh) s' o) :
    (∃ u, o = .ok u) ↔
      ∀ p ∈ fresh, ∃ row, snapshotRow (clock (keyOf p)) nets p.1 p.2.1 p.2.2 = .ok row := by
  induction fresh generalizing s with
  | nil =>
    obtain ⟨-, rfl⟩ := run_ret_iff.mp h
    exact ⟨fun _ p hp => absurd hp List.not_mem_nil, fun _ => ⟨_, rfl⟩⟩
  | cons p fresh ih =>
    change Run (exec ord) s ((Prog.lift (snapshotRow (clock (keyOf p)) nets p.1 p.2.1 p.2.2) >>=
      fun r => Prog.request (Req.candidatesInsert r.1 r.2)) >>=
        fun _ => insertCandidates clock nets fresh) s' o at h
    rw [List.forall_mem_cons]
    rcases hrow : snapshotRow (clock (keyOf p)) nets p.1 p.2.1 p.2.2 with e | row
    · rw [hrow] at h
      obtain ⟨-, rfl⟩ := run_raise_iff.mp h
      exact ⟨fun ⟨_, h⟩ => (nomatch h), fun ⟨⟨_, h⟩, _⟩ => (nomatch h)⟩
    · rw [hrow] at h
      obtain ⟨_, -, h⟩ := run_request_iff.mp h
      rw [ih h]
      exact ⟨fun hall => ⟨⟨row, rfl⟩, hall⟩, fun hall => hall.2⟩

/-- A listing returns exactly where the search returns and every new pair can be recorded. -/
theorem run_list_returns_iff {clock : ListClock} {o : Except PyError PendingList}
    (h : Run (exec ord) s (listPendingCandidates M cfg clock) s' o) :
    ∃ rows, Lists ord.building rows s.building ∧
      ((∃ out, o = .ok out) ↔ rows = [] ∨
        ∃ pairs, proposePairs M cfg (fetchNets rows) = .ok pairs ∧
          ∀ p ∈ pairs, s.candidates (keyOf p) = none →
            ∃ row, snapshotRow (clock.detectedAt (keyOf p)) (fetchNets rows) p.1 p.2.1 p.2.2
              = .ok row) := by
  -- what follows the detection only reads
  have hdet : ∃ t o', Run (exec ord) s (detectNewCandidates M cfg clock.detectedAt) t o' ∧
      ((∃ out, o = .ok out) ↔ ∃ count, o' = .ok count) := by
    rcases run_bind_iff.mp h with ⟨e, hd, rfl⟩ | ⟨count, t, hd, h⟩
    · exact ⟨s', .error e, hd, fun ⟨_, h⟩ => (nomatch h), fun ⟨_, h⟩ => (nomatch h)⟩
    · obtain ⟨_, -, h⟩ := run_request_iff.mp h
      obtain ⟨-, rfl⟩ := run_ret_iff.mp h
      exact ⟨t, .ok count, hd, fun _ => ⟨count, rfl⟩, fun _ => ⟨_, rfl⟩⟩
  obtain ⟨t, o', hd, hout⟩ := hdet
  rw [hout]
  unfold detectNewCandidates at hd
  rw [Prog.request_bind] at hd
  obtain ⟨rows, hrows, hd⟩ := run_request_iff.mp hd
  refine ⟨rows, hrows, ?_⟩
  change Run (exec ord) s _ _ _ at hd
  split at hd
  · next he =>
    obtain ⟨-, rfl⟩ := run_ret_iff.mp hd
    exact ⟨fun _ => .inl he, fun _ => ⟨0, rfl⟩⟩
  · next hne =>
    rw [or_iff_right hne]
    rw [Prog.request_bind] at hd
    obtain ⟨seen, hseen, hd⟩ := run_request_iff.mp hd
    change Run (exec ord) s _ _ _ at hd
    rcases hpairs : proposePairs M cfg (fetchNets rows) with e | pairs
    · rw [hpairs] at hd
      obtain ⟨-, rfl⟩ := run_raise_iff.mp hd
      exact ⟨fun ⟨_, h⟩ => (nomatch h), fun ⟨_, h, _⟩ => (nomatch h)⟩
    · rw [hpairs] at hd
      change Run (exec ord) s (insertCandidates clock.detectedAt (fetchNets rows)
        (pairs.filter fun p => keyOf p ∉ existingPairs seen) >>= fun _ => .ret _) t o' at hd
      have hfresh : ∀ p : ℤ × ℤ × Reasons,
          keyOf p ∉ existingPairs seen ↔ s.candidates (keyOf p) = none := by
        intro p
        show keyOf p ∉ seen.map Prod.fst ↔ _
        rw [Lists.mem_keys hseen, Option.not_isSome_iff_eq_none]
      have hins : ∃ u o'', Run (exec ord) s (insertCandidates clock.detectedAt (fetchNets rows)
          (pairs.filter fun p => keyOf p ∉ existingPairs seen)) u o'' ∧
            ((∃ count, o' = .ok count) ↔ ∃ x, o'' = .ok x) := by
        rcases run_bind_iff.mp hd with ⟨e, hi, rfl⟩ | ⟨_, u, hi, hd⟩
        · exact ⟨t, .error e, hi, fun ⟨_, h⟩ => (nomatch h), fun ⟨_, h⟩ => (nomatch h)⟩
        · obtain ⟨-, rfl⟩ := run_ret_iff.mp hd
          exact ⟨u, _, hi, fun _ => ⟨_, rfl⟩, fun _ => ⟨_, rfl⟩⟩
      obtain ⟨u, o'', hi, hout'⟩ := hins
      rw [hout', run_insertCandidates_iff hi]
      simp [hfresh]

end

/-! ## Two tables -/

end NetBuild
