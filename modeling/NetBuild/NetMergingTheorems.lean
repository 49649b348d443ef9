import NetBuild.NetMerging
import NetBuild.Lib.Fold
import Mathlib.Tactic.Ring

/-!
# What the scan for merge candidates finds

`same_net` is symmetric, so a pair is found whichever of its two nets comes first, and it is
found once: `proposePairs` compares every two records once and names the pair in order.
-/

namespace NetBuild

theorem Fl.add_swap (a b : Fl) : a.add b = b.add a := by
  rcases a with _ | x
  · rcases b with _ | y <;> rfl
  · rcases b with _ | y
    · rfl
    · exact congrArg some (add_comm x y)

theorem Fl.abs_sub_swap (a b : Fl) : (a.sub b).abs = (b.sub a).abs := by
  rcases a with _ | x
  · rcases b with _ | y <;> rfl
  · rcases b with _ | y
    · rfl
    · exact congrArg some (abs_sub_comm x y)

namespace NetMerging

variable {M : MathFns} {cfg : MergeConfig}

/-! ## Symmetry -/

theorem float_bind_comm {α : Type} (c d : Cell) (f : Fl → Fl → Except PyError α) :
    (float c >>= fun x => float d >>= fun y => f x y)
      = float d >>= fun y => float c >>= fun x => f x y := by
  unfold float
  rcases c.pyFloat with _ | x
  · rcases d.pyFloat with _ | y <;> rfl
  · rcases d.pyFloat with _ | y <;> rfl

theorem tuneTol_comm (cfg : MergeConfig) (r1 r2 : Row) : tuneTol cfg r1 r2 = tuneTol cfg r2 r1 := by
  unfold tuneTol
  split
  · rcases cfg.bwTolOverrideMhz with _ | tol
    · unfold float
      dsimp only
      rcases (r1 (.num .bandwidthKHz)).pyFloat with _ | x
      · rcases (r2 (.num .bandwidthKHz)).pyFloat with _ | y <;> rfl
      · rcases (r2 (.num .bandwidthKHz)).pyFloat with _ | y
        · rfl
        · refine congrArg (fun h => Except.ok (Option.map _ h)) ?_
          exact Fl.add_swap ..
    · rfl
  · rfl

theorem freqMatch_comm (cfg : MergeConfig) (r1 r2 : Row) :
    freqMatch cfg r1 r2 = freqMatch cfg r2 r1 := by
  unfold freqMatch
  rw [float_bind_comm]
  simp only [tuneTol_comm cfg r1 r2, Fl.abs_sub_swap]

theorem secondsBetween_neg (t1 t2 : Timestamp) : secondsBetween t2 t1 = -secondsBetween t1 t2 := by
  unfold secondsBetween
  push_cast
  ring

theorem ltiGapSec_comm (r1 r2 : Row) : ltiGapSec r1 r2 = ltiGapSec r2 r1 := by
  unfold ltiGapSec
  rcases toDt (r1 .lti) with _ | t1
  · rcases toDt (r2 .lti) with _ | t2 <;> rfl
  · rcases toDt (r2 .lti) with _ | t2
    · rfl
    · show some |secondsBetween t1 t2| = some |secondsBetween t2 t1|
      rw [secondsBetween_neg t1 t2, abs_neg]

theorem timeMatch_comm (cfg : MergeConfig) (r1 r2 : Row) :
    timeMatch cfg r1 r2 = timeMatch cfg r2 r1 := by
  unfold timeMatch
  rw [ltiGapSec_comm]

/-- Exchanging the positions negates both differences, and their sines are squared. -/
theorem haversine_comm (M : MathFns) (p1 p2 : ℚ × ℚ) : haversine M p1 p2 = haversine M p2 p1 := by
  have hsin : ∀ x y : ℚ, M.sin (M.radians (x - y) / 2) ^ 2 = M.sin (M.radians (y - x) / 2) ^ 2 := by
    intro x y
    rw [← neg_sub y x, M.radians_neg, neg_div, M.sin_neg, neg_sq]
  unfold haversine
  dsimp only
  rw [hsin p2.1 p1.1, hsin p2.2 p1.2, mul_comm (M.cos (M.radians p1.1))]

theorem locDistM_comm (M : MathFns) (r1 r2 : Row) : locDistM M r1 r2 = locDistM M r2 r1 := by
  unfold locDistM
  rcases position r1 with _ | p1
  · rcases position r2 with _ | p2 <;> rfl
  · rcases position r2 with _ | p2
    · rfl
    · show (haversine M p1 p2).map some = (haversine M p2 p1).map some
      rw [haversine_comm]

theorem locMatch_comm (M : MathFns) (cfg : MergeConfig) (r1 r2 : Row) :
    locMatch M cfg r1 r2 = locMatch M cfg r2 r1 := by
  unfold locMatch
  rw [locDistM_comm]

/-- `same_net` does not depend on the order of the records. -/
theorem sameNet_comm (M : MathFns) (cfg : MergeConfig) (r1 r2 : Row) :
    sameNet M cfg r1 r2 = sameNet M cfg r2 r1 := by
  unfold sameNet
  rw [freqMatch_comm, timeMatch_comm, locMatch_comm]

theorem cellEq_comm (a b : Cell) : cellEq a b = cellEq b a := by
  rcases a with _ | _ | _ | _ | _ | _ | _ <;> rcases b with _ | _ | _ | _ | _ | _ | _ <;>
    simp [cellEq, Cell.val, eq_comm]

/-! ## The scan -/

/-- The key a pair of nets is recorded under. -/
def pairKey (a b : ℤ) : ℤ × ℤ := (min a b, max a b)

theorem pairKey_comm (a b : ℤ) : pairKey a b = pairKey b a := by
  unfold pairKey
  rw [min_comm, max_comm]

theorem pairKey_lt {a b : ℤ} (h : a ≠ b) : (pairKey a b).1 < (pairKey a b).2 := by
  show min a b < max a b
  omega

/-- The key of a proposed pair. -/
abbrev keyOf (p : ℤ × ℤ × Reasons) : ℤ × ℤ := (p.1, p.2.1)

theorem comparePair_eq_some {a b : NetRec} {p : ℤ × ℤ × Reasons}
    (h : comparePair M cfg a b = .ok (some p)) : keyOf p = pairKey a.netId b.netId := by
  unfold comparePair at h
  split at h
  · exact nomatch h
  · obtain ⟨same, -, h⟩ := Except.bind_eq_ok_iff.mp h
    rcases same with _ | _
    · exact nomatch h
    · obtain ⟨reasons, -, h⟩ := Except.bind_eq_ok_iff.mp h
      obtain rfl := Option.some.inj (Except.ok.inj h)
      rfl

/-- A comparison of records of one net in two groups names the pair. -/
theorem comparePair_of_sameNet {a b : NetRec} {r : Option (ℤ × ℤ × Reasons)}
    (h : comparePair M cfg a b = .ok r) (hmy : cellEq a.myNetId b.myNetId = false)
    (hsame : sameNet M cfg a.cells b.cells = .ok true) : ∃ p, r = some p := by
  unfold comparePair at h
  rw [hmy, if_neg Bool.false_ne_true] at h
  obtain ⟨same, hs, h⟩ := Except.bind_eq_ok_iff.mp h
  rw [hsame] at hs
  obtain rfl := Except.ok.inj hs
  obtain ⟨reasons, -, h⟩ := Except.bind_eq_ok_iff.mp h
  exact ⟨_, (Except.ok.inj h).symm⟩

variable {nets : List NetRec} {pairs : List (ℤ × ℤ × Reasons)}

theorem proposePairs_cons {a : NetRec} (h : proposePairs M cfg (a :: nets) = .ok pairs) :
    ∃ found more, List.Forall₂ (fun b r => comparePair M cfg a b = .ok r) nets found ∧
      proposePairs M cfg nets = .ok more ∧ pairs = found.filterMap id ++ more := by
  obtain ⟨found, hf, h⟩ := Except.bind_eq_ok_iff.mp h
  obtain ⟨more, hm, h⟩ := Except.bind_eq_ok_iff.mp h
  exact ⟨found, more, Except.mapM_eq_ok_iff.mp hf, hm, (Except.ok.inj h).symm⟩

/-- A proposed pair is one of two records, the earlier one first. -/
theorem mem_proposePairs (h : proposePairs M cfg nets = .ok pairs) {p : ℤ × ℤ × Reasons}
    (hp : p ∈ pairs) : ∃ a b, [a, b].Sublist nets ∧ keyOf p = pairKey a.netId b.netId := by
  induction nets generalizing pairs with
  | nil =>
    obtain rfl := Except.ok.inj h
    exact absurd hp List.not_mem_nil
  | cons a nets ih =>
    obtain ⟨found, more, hf, hm, rfl⟩ := proposePairs_cons h
    rcases List.mem_append.mp hp with hp | hp
    · obtain ⟨_, hr, rfl⟩ := List.mem_filterMap.mp hp
      obtain ⟨b, hb, hab⟩ := List.Forall₂.exists_of_mem_right hf hr
      exact ⟨a, b, (List.singleton_sublist.mpr hb).cons_cons a, comparePair_eq_some hab⟩
    · obtain ⟨a', b, hs, hk⟩ := ih hm hp
      exact ⟨a', b, hs.cons a, hk⟩

/-- The keys found against one record are among the pairs it makes with the others. -/
theorem sublist_keys {a : NetRec} {found : List (Option (ℤ × ℤ × Reasons))}
    (h : List.Forall₂ (fun b r => comparePair M cfg a b = .ok r) nets found) :
    ((found.filterMap id).map keyOf).Sublist (nets.map fun b => pairKey a.netId b.netId) := by
  induction h with
  | nil => exact List.Sublist.slnil
  | @cons b r nets found hab _ ih =>
    rcases r with _ | p
    · exact ih.cons _
    · rw [List.filterMap_cons_some (f := id) rfl, List.map_cons, List.map_cons,
        comparePair_eq_some hab]
      exact ih.cons_cons _

/-- No pair is proposed twice. -/
theorem nodup_proposePairs (h : proposePairs M cfg nets = .ok pairs)
    (hn : (nets.map (·.netId)).Nodup) : (pairs.map keyOf).Nodup := by
  induction nets generalizing pairs with
  | nil =>
    obtain rfl := Except.ok.inj h
    exact List.nodup_nil
  | cons a nets ih =>
    obtain ⟨found, more, hf, hm, rfl⟩ := proposePairs_cons h
    rw [List.map_cons, List.nodup_cons] at hn
    have hne : ∀ b ∈ nets, b.netId ≠ a.netId := by
      intro b hb he
      apply hn.1
      rw [← he]
      exact List.mem_map_of_mem hb
    have hfound : (nets.map fun b => pairKey a.netId b.netId).Nodup := by
      refine List.Nodup.map_on ?_ (List.Nodup.of_map _ hn.2)
      intro b hb b' hb' he
      refine List.inj_on_of_nodup_map hn.2 hb hb' ?_
      have h1 := hne b hb
      have h2 := hne b' hb'
      simp only [pairKey, Prod.mk.injEq] at he
      omega
    rw [List.map_append, List.nodup_append]
    refine ⟨(sublist_keys hf).nodup hfound, ih hm hn.2, ?_⟩
    -- the pairs found against `a` contain it, the others do not
    intro k hk k' hk' he
    obtain ⟨b, hb, rfl⟩ := List.mem_map.mp ((sublist_keys hf).subset hk)
    obtain ⟨p, hp, rfl⟩ := List.mem_map.mp hk'
    obtain ⟨c, d, hs, hkey⟩ := mem_proposePairs hm hp
    have hc := hne c (hs.subset List.mem_cons_self)
    have hd := hne d (hs.subset (List.mem_cons_of_mem _ List.mem_cons_self))
    rw [hkey] at he
    simp only [pairKey, Prod.mk.injEq] at he
    omega

/-- Every two records of different groups that `same_net` accepts are proposed. -/
theorem proposePairs_complete (h : proposePairs M cfg nets = .ok pairs)
    {a b : NetRec} (ha : a ∈ nets) (hb : b ∈ nets) (hab : a.netId ≠ b.netId)
    (hmy : cellEq a.myNetId b.myNetId = false)
    (hsame : sameNet M cfg a.cells b.cells = .ok true) :
    pairKey a.netId b.netId ∈ pairs.map keyOf := by
  induction nets generalizing pairs with
  | nil => exact absurd ha List.not_mem_nil
  | cons c nets ih =>
    obtain ⟨found, more, hf, hm, rfl⟩ := proposePairs_cons h
    -- the comparison of the record in front with the other one
    have hfront : ∀ d ∈ nets, cellEq c.myNetId d.myNetId = false →
        sameNet M cfg c.cells d.cells = .ok true →
          pairKey c.netId d.netId ∈ (found.filterMap id ++ more).map keyOf := by
      intro d hd hcd hs
      obtain ⟨r, hr, hcmp⟩ := hf.exists_of_mem_left hd
      obtain ⟨p, rfl⟩ := comparePair_of_sameNet hcmp hcd hs
      rw [← comparePair_eq_some hcmp]
      apply List.mem_map_of_mem
      apply List.mem_append_left
      exact List.mem_filterMap.mpr ⟨some p, hr, rfl⟩
    rcases List.mem_cons.mp ha with rfl | ha'
    · rcases List.mem_cons.mp hb with rfl | hb'
      · exact absurd rfl hab
      · exact hfront b hb' hmy hsame
    · rcases List.mem_cons.mp hb with rfl | hb'
      · rw [pairKey_comm]
        exact hfront a ha' (by rw [cellEq_comm, hmy]) (by rw [sameNet_comm, hsame])
      · rw [List.map_append]
        exact List.mem_append_right _ (ih hm ha' hb')

end NetMerging

end NetBuild
