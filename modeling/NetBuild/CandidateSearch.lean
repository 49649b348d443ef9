import NetBuild.MergeGroups

/-!
# Candidate search

`proposePairs` walks a table of nets once, comparing each record with those after it.
`proposePairs_spec` says what it finds without mentioning the walk: one entry for every two nets of
different groups that `same_net` accepts, whatever order the table has been read in.
-/

namespace NetBuild

namespace NetMerging

variable {M : MathFns} {cfg : MergeConfig}

/-- Any two positions have a distance. -/
def MathFns.Geodesic (M : MathFns) : Prop := ∀ p1 p2, ∃ d, haversine M p1 p2 = .ok d

/-- `float` reads the record's frequency and its bandwidth. -/
structure NetRec.Numeric (r : NetRec) : Prop where
  frequency : ∃ f, float (r.cells (.num .frequencyMHz)) = .ok f
  bandwidth : ∃ b, float (r.cells (.num .bandwidthKHz)) = .ok b

/-- The two nets are in different groups, and `same_net` accepts them. -/
def Matches (M : MathFns) (cfg : MergeConfig) (a b : NetRec) : Prop :=
  cellEq a.myNetId b.myNetId = false ∧ sameNet M cfg a.cells b.cells = .ok true

/-! ## Symmetry -/

/-- The numbers reported with a pair do not depend on the order of its records. -/
theorem matchReasons_comm (M : MathFns) (cfg : MergeConfig) (r1 r2 : Row) :
    matchReasons M cfg r1 r2 = matchReasons M cfg r2 r1 := by
  unfold matchReasons
  rw [float_bind_comm]
  simp only [tuneTol_comm cfg r1 r2, Fl.abs_sub_swap, locDistM_comm M r1 r2, ltiGapSec_comm r1 r2]

theorem Matches.symm {a b : NetRec} (h : Matches M cfg a b) : Matches M cfg b a :=
  ⟨by rw [cellEq_comm, h.1], by rw [sameNet_comm, h.2]⟩

theorem comparePair_comm (M : MathFns) (cfg : MergeConfig) (a b : NetRec) :
    comparePair M cfg a b = comparePair M cfg b a := by
  unfold comparePair
  rw [cellEq_comm, sameNet_comm, matchReasons_comm, min_comm, max_comm]

/-! ## One comparison -/

/-- A comparison proposes the nets that match, with their reasons. -/
theorem comparePair_eq_some_iff {a b : NetRec} {p : ℤ × ℤ × Reasons} :
    comparePair M cfg a b = .ok (some p) ↔
      Matches M cfg a b ∧ ∃ reasons, matchReasons M cfg a.cells b.cells = .ok reasons ∧
        p = (min a.netId b.netId, max a.netId b.netId, reasons) := by
  unfold comparePair Matches
  rcases cellEq a.myNetId b.myNetId with _ | _
  · rw [if_neg Bool.false_ne_true]
    rcases sameNet M cfg a.cells b.cells with e | _ | _
    · exact ⟨nofun, fun h => nomatch h.1.2⟩
    · exact ⟨nofun, fun h => nomatch h.1.2⟩
    · rcases matchReasons M cfg a.cells b.cells with e | reasons
      · exact ⟨nofun, fun ⟨_, _, h, _⟩ => nomatch h⟩
      · refine ⟨fun h => ⟨⟨rfl, rfl⟩, reasons, rfl, ?_⟩, fun ⟨_, r, hr, hp⟩ => ?_⟩
        · exact (Option.some.inj (Except.ok.inj h)).symm
        · obtain rfl := Except.ok.inj hr
          rw [hp]
          rfl
  · exact ⟨nofun, fun h => nomatch h.1.1⟩

/-! ## When a comparison returns -/

/-- Every number a comparison needs of two rows can be read. -/
structure Comparable (cfg : MergeConfig) (r1 r2 : Row) : Prop where
  frequency₁ : ∃ f, float (r1 (.num .frequencyMHz)) = .ok f
  frequency₂ : ∃ f, float (r2 (.num .frequencyMHz)) = .ok f
  tolerance : ∃ tol, tuneTol cfg r1 r2 = .ok tol

theorem NetRec.Numeric.comparable {a b : NetRec} (ha : a.Numeric) (hb : b.Numeric) :
    Comparable cfg a.cells b.cells := by
  obtain ⟨b1, h1⟩ := ha.bandwidth
  obtain ⟨b2, h2⟩ := hb.bandwidth
  refine ⟨ha.frequency, hb.frequency, ?_⟩
  unfold tuneTol
  split
  · rcases cfg.bwTolOverrideMhz with _ | tol
    · dsimp only
      rw [h1, h2]
      exact ⟨_, rfl⟩
    · exact ⟨_, rfl⟩
  · exact ⟨_, rfl⟩

/-- The distance of two rows is asked for and has no value: it takes `sqrt` or `asin` out of its
domain. -/
def DistanceFails (M : MathFns) (cfg : MergeConfig) (r1 r2 : Row) : Prop :=
  freqMatch cfg r1 r2 = .ok true ∧ timeMatch cfg r1 r2 = true ∧ cfg.useLocTol = true ∧
    ∃ p1 p2, position r1 = some p1 ∧ position r2 = some p2 ∧ ∀ d, haversine M p1 p2 ≠ .ok d

theorem DistanceFails.symm {r1 r2 : Row} (h : DistanceFails M cfg r1 r2) :
    DistanceFails M cfg r2 r1 := by
  obtain ⟨hfreq, htime, hloc, p1, p2, h1, h2, hd⟩ := h
  refine ⟨?_, ?_, hloc, p2, p1, h2, h1, ?_⟩
  · rw [freqMatch_comm, hfreq]
  · rw [timeMatch_comm, htime]
  · rw [haversine_comm]
    exact hd

theorem MathFns.Geodesic.not_distanceFails (hM : M.Geodesic) (r1 r2 : Row) :
    ¬ DistanceFails M cfg r1 r2 := by
  intro h
  obtain ⟨-, -, -, p1, p2, -, -, hd⟩ := h
  obtain ⟨d, hok⟩ := hM p1 p2
  exact hd d hok

/-- `_loc_dist_m` returns unless both rows have positions and these no distance. -/
theorem locDistM_ok_iff {r1 r2 : Row} :
    (∃ d, locDistM M r1 r2 = .ok d) ↔ ¬ ∃ p1 p2, position r1 = some p1 ∧
      position r2 = some p2 ∧ ∀ d, haversine M p1 p2 ≠ .ok d := by
  unfold locDistM
  rcases position r1 with _ | p1
  · simp
  · rcases position r2 with _ | p2
    · simp
    · rcases hd : haversine M p1 p2 with e | d
      · simp [hd, Except.map]
      · simp [hd, Except.map]

theorem sameNet_eq_true_iff {r1 r2 : Row} : sameNet M cfg r1 r2 = .ok true ↔
    freqMatch cfg r1 r2 = .ok true ∧ timeMatch cfg r1 r2 = true ∧
      locMatch M cfg r1 r2 = .ok true := by
  unfold sameNet
  rcases freqMatch cfg r1 r2 with e | _ | _
  · exact ⟨nofun, fun h => nomatch h.1⟩
  · exact ⟨nofun, fun h => nomatch h.1⟩
  · rcases timeMatch cfg r1 r2 with _ | _
    · exact ⟨nofun, fun h => nomatch h.2.1⟩
    · exact ⟨fun h => ⟨rfl, rfl, h⟩, fun h => h.2.2⟩

/-- `same_net` returns exactly on rows whose numbers can be read and whose distance, if it is asked
for, has a value. -/
theorem sameNet_ok_iff {r1 r2 : Row} :
    (∃ same, sameNet M cfg r1 r2 = .ok same) ↔
      Comparable cfg r1 r2 ∧ ¬ DistanceFails M cfg r1 r2 := by
  have hfreq : (∃ near, freqMatch cfg r1 r2 = .ok near) ↔ Comparable cfg r1 r2 := by
    refine ⟨fun ⟨_, h⟩ => ?_, fun h => ?_⟩
    · obtain ⟨f1, h1, h⟩ := Except.bind_eq_ok_iff.mp h
      obtain ⟨f2, h2, h⟩ := Except.bind_eq_ok_iff.mp h
      obtain ⟨tol, htol, -⟩ := Except.bind_eq_ok_iff.mp h
      exact ⟨⟨f1, h1⟩, ⟨f2, h2⟩, ⟨tol, htol⟩⟩
    · obtain ⟨f1, h1⟩ := h.frequency₁
      obtain ⟨f2, h2⟩ := h.frequency₂
      obtain ⟨tol, htol⟩ := h.tolerance
      unfold freqMatch
      rw [h1, h2, htol]
      exact ⟨_, rfl⟩
  have hloc : (∃ near, locMatch M cfg r1 r2 = .ok near) ↔
      (cfg.useLocTol = true → ∃ d, locDistM M r1 r2 = .ok d) := by
    unfold locMatch
    rcases cfg.useLocTol with _ | _
    · exact ⟨fun _ h => (nomatch h), fun _ => ⟨true, rfl⟩⟩
    · rcases locDistM M r1 r2 with e | d
      · exact ⟨fun ⟨_, h⟩ => (nomatch h), fun h => (nomatch (h rfl).choose_spec)⟩
      · exact ⟨fun _ _ => ⟨d, rfl⟩, fun _ => ⟨_, rfl⟩⟩
  rw [← hfreq]
  unfold sameNet DistanceFails
  -- the distance is asked for where frequencies and times match
  rcases freqMatch cfg r1 r2 with e | _ | _
  · exact ⟨fun ⟨_, h⟩ => (nomatch h), fun h => (nomatch h.1.choose_spec)⟩
  · exact ⟨fun _ => ⟨⟨false, rfl⟩, fun h => (nomatch h.1)⟩, fun _ => ⟨false, rfl⟩⟩
  · rcases timeMatch cfg r1 r2 with _ | _
    · exact ⟨fun _ => ⟨⟨true, rfl⟩, fun h => (nomatch h.2.1)⟩, fun _ => ⟨false, rfl⟩⟩
    · refine (hloc.trans ?_ : (∃ same, locMatch M cfg r1 r2 = .ok same) ↔ _)
      rw [locDistM_ok_iff]
      exact ⟨fun h => ⟨⟨true, rfl⟩, fun hd => h hd.2.2.1 hd.2.2.2⟩,
        fun h huse hd => h.2 ⟨rfl, rfl, huse, hd⟩⟩

/-- The reasons of two rows that `same_net` accepts can be given. -/
theorem matchReasons_ok {r1 r2 : Row} (h : sameNet M cfg r1 r2 = .ok true) :
    ∃ reasons, matchReasons M cfg r1 r2 = .ok reasons := by
  have hcomp : Comparable cfg r1 r2 := (sameNet_ok_iff.mp ⟨true, h⟩).1
  obtain ⟨f1, h1⟩ := hcomp.frequency₁
  obtain ⟨f2, h2⟩ := hcomp.frequency₂
  obtain ⟨tol, htol⟩ := hcomp.tolerance
  have hloc := (sameNet_eq_true_iff.mp h).2.2
  unfold matchReasons
  rw [h1, h2, htol]
  unfold locMatch at hloc
  rcases huse : cfg.useLocTol with _ | _
  · exact ⟨_, rfl⟩
  · rw [if_pos huse] at hloc
    obtain ⟨d, hd, -⟩ := Except.bind_eq_ok_iff.mp hloc
    rw [hd]
    exact ⟨_, rfl⟩

/-- Two records are compared without an error exactly when they are in one group or `same_net`
returns on them. -/
theorem comparePair_ok_iff {a b : NetRec} :
    (∃ r, comparePair M cfg a b = .ok r) ↔ cellEq a.myNetId b.myNetId = true ∨
      Comparable cfg a.cells b.cells ∧ ¬ DistanceFails M cfg a.cells b.cells := by
  rw [← sameNet_ok_iff]
  unfold comparePair
  rcases cellEq a.myNetId b.myNetId with _ | _
  · rw [if_neg Bool.false_ne_true]
    refine ⟨fun ⟨r, h⟩ => .inr ?_, fun h => ?_⟩
    · obtain ⟨same, hsame, -⟩ := Except.bind_eq_ok_iff.mp h
      exact ⟨same, hsame⟩
    · obtain ⟨same, hsame⟩ := h.resolve_left Bool.false_ne_true
      rcases same with _ | _
      · rw [hsame]
        exact ⟨_, rfl⟩
      · obtain ⟨reasons, hreasons⟩ := matchReasons_ok hsame
        rw [hsame, hreasons]
        exact ⟨_, rfl⟩
  · exact ⟨fun _ => .inl rfl, fun _ => ⟨none, rfl⟩⟩

/-! ## The whole scan -/

variable {nets : List NetRec} {pairs : List (ℤ × ℤ × Reasons)}

theorem mapM_comparePair_ok {a : NetRec} (h : ∀ b ∈ nets, ∃ r, comparePair M cfg a b = .ok r) :
    ∃ found, nets.mapM (comparePair M cfg a) = .ok found := by
  induction nets with
  | nil => exact ⟨[], rfl⟩
  | cons b nets ih =>
    obtain ⟨r, hr⟩ := h b List.mem_cons_self
    obtain ⟨found, hf⟩ := ih fun b hb => h b (List.mem_cons_of_mem _ hb)
    rw [List.mapM_cons, hr, hf]
    exact ⟨_, rfl⟩

/-- The scan returns exactly when every two records are compared without an error. -/
theorem proposePairs_ok_iff :
    (∃ pairs, proposePairs M cfg nets = .ok pairs) ↔
      ∀ a b, [a, b].Sublist nets → ∃ r, comparePair M cfg a b = .ok r := by
  induction nets with
  | nil => exact ⟨fun _ a b hs => absurd (List.sublist_nil.mp hs) (by simp), fun _ => ⟨[], rfl⟩⟩
  | cons c nets ih =>
    refine ⟨fun ⟨pairs, h⟩ a b hs => ?_, fun h => ?_⟩
    · obtain ⟨found, more, hf, hm, -⟩ := proposePairs_cons h
      rcases hs with _ | ⟨_, hs⟩ | ⟨_, hs⟩
      · exact ih.mp ⟨more, hm⟩ a b hs
      · obtain ⟨r, -, hr⟩ := hf.exists_of_mem_left (List.singleton_sublist.mp hs)
        exact ⟨r, hr⟩
    · obtain ⟨found, hf⟩ := mapM_comparePair_ok fun b hb =>
        h c b ((List.singleton_sublist.mpr hb).cons_cons c)
      obtain ⟨more, hm⟩ := ih.mpr fun a b hs => h a b (hs.cons c)
      unfold proposePairs
      rw [hf, hm]
      exact ⟨_, rfl⟩

/-- A table of nets with numbers is scanned to its end. -/
theorem proposePairs_ok (cfg : MergeConfig) (hM : M.Geodesic) (h : ∀ r ∈ nets, r.Numeric) :
    ∃ pairs, proposePairs M cfg nets = .ok pairs := by
  rw [proposePairs_ok_iff]
  intro a b hs
  refine comparePair_ok_iff.mpr (.inr ⟨?_, hM.not_distanceFails _ _⟩)
  exact (h a (hs.subset List.mem_cons_self)).comparable
    (h b (hs.subset (List.mem_cons_of_mem _ List.mem_cons_self)))

/-- What is proposed is what the comparison of some two records gives, the earlier one first. -/
theorem mem_proposePairs_iff (h : proposePairs M cfg nets = .ok pairs) {p : ℤ × ℤ × Reasons} :
    p ∈ pairs ↔ ∃ a b, [a, b].Sublist nets ∧ comparePair M cfg a b = .ok (some p) := by
  induction nets generalizing pairs with
  | nil =>
    obtain rfl := Except.ok.inj h
    simp
  | cons c nets ih =>
    obtain ⟨found, more, hf, hm, rfl⟩ := proposePairs_cons h
    rw [List.mem_append, ih hm]
    refine ⟨fun hp => ?_, fun ⟨a, b, hs, hab⟩ => ?_⟩
    · rcases hp with hp | ⟨a, b, hs, hab⟩
      · obtain ⟨_, hr, rfl⟩ := List.mem_filterMap.mp hp
        obtain ⟨b, hb, hab⟩ := List.Forall₂.exists_of_mem_right hf hr
        exact ⟨c, b, (List.singleton_sublist.mpr hb).cons_cons c, hab⟩
      · exact ⟨a, b, hs.cons c, hab⟩
    · rcases hs with _ | ⟨_, hs⟩ | ⟨_, hs⟩
      · exact .inr ⟨a, b, hs, hab⟩
      · obtain ⟨r, hr, hcmp⟩ := hf.exists_of_mem_left (List.singleton_sublist.mp hs)
        rw [hab] at hcmp
        obtain rfl := Except.ok.inj hcmp
        exact .inl (List.mem_filterMap.mpr ⟨some p, hr, rfl⟩)

end NetMerging

/-- Of two members of a list one comes after the other. -/
theorem List.pair_sublist_or {α : Type} {l : List α} {a b : α} (ha : a ∈ l) (hb : b ∈ l)
    (hab : a ≠ b) : [a, b].Sublist l ∨ [b, a].Sublist l := by
  induction l with
  | nil => exact absurd ha List.not_mem_nil
  | cons c l ih =>
    rcases List.mem_cons.mp ha with rfl | ha'
    · rcases List.mem_cons.mp hb with rfl | hb'
      · exact absurd rfl hab
      · exact .inl ((List.singleton_sublist.mpr hb').cons_cons a)
    · rcases List.mem_cons.mp hb with rfl | hb'
      · exact .inr ((List.singleton_sublist.mpr ha').cons_cons b)
      · exact (ih ha' hb').imp (·.cons c) (·.cons c)

namespace NetMerging

variable {M : MathFns} {cfg : MergeConfig} {nets : List NetRec} {pairs : List (ℤ × ℤ × Reasons)}

/-- The entry for two nets is proposed exactly when they match. -/
theorem mem_proposePairs_iff_matches (h : proposePairs M cfg nets = .ok pairs)
    (hn : (nets.map (·.netId)).Nodup) {lo hi : ℤ} {reasons : Reasons} :
    (lo, hi, reasons) ∈ pairs ↔ ∃ a ∈ nets, ∃ b ∈ nets, a.netId = lo ∧ b.netId = hi ∧ lo < hi ∧
      Matches M cfg a b ∧ matchReasons M cfg a.cells b.cells = .ok reasons := by
  rw [mem_proposePairs_iff h]
  refine ⟨fun ⟨a, b, hs, hab⟩ => ?_, fun ⟨a, ha, b, hb, hlo, hhi, hlt, hm, hr⟩ => ?_⟩
  · obtain ⟨hm, r, hr, hp⟩ := comparePair_eq_some_iff.mp hab
    obtain ⟨rfl, rfl, rfl⟩ := Prod.mk.injEq .. ▸ hp
    have ha : a ∈ nets := hs.subset List.mem_cons_self
    have hb : b ∈ nets := hs.subset (List.mem_cons_of_mem _ List.mem_cons_self)
    have hne : a.netId ≠ b.netId := by
      have hpair := (hs.map NetRec.netId).nodup hn
      simpa using hpair
    -- whichever of the two was read first, the entry has the smaller id first
    rcases lt_or_gt_of_ne hne with hlt | hlt
    · exact ⟨a, ha, b, hb, (min_eq_left hlt.le).symm, (max_eq_right hlt.le).symm,
        lt_of_eq_of_lt (min_eq_left hlt.le) (lt_of_lt_of_eq hlt (max_eq_right hlt.le).symm), hm, hr⟩
    · refine ⟨b, hb, a, ha, (min_eq_right hlt.le).symm, (max_eq_left hlt.le).symm, ?_, hm.symm, ?_⟩
      · rw [min_eq_right hlt.le, max_eq_left hlt.le]
        exact hlt
      · rw [matchReasons_comm, hr]
  · obtain rfl := hlo
    obtain rfl := hhi
    have hcmp : comparePair M cfg a b = .ok (some (a.netId, b.netId, reasons)) :=
      comparePair_eq_some_iff.mpr ⟨hm, reasons, hr, by
        rw [min_eq_left hlt.le, max_eq_right hlt.le]⟩
    have hne : a ≠ b := fun he => absurd hlt (he ▸ lt_irrefl _)
    rcases List.pair_sublist_or ha hb hne with hs | hs
    · exact ⟨a, b, hs, hcmp⟩
    · exact ⟨b, a, hs, by rw [comparePair_comm, hcmp]⟩

/-- The search returns exactly one entry, in order and with its reasons, for every two nets that
match, and it returns the same entries however the table is ordered. -/
theorem proposePairs_spec (hM : M.Geodesic) (hn : (nets.map (·.netId)).Nodup)
    (hnum : ∀ r ∈ nets, r.Numeric) :
    ∃ pairs, proposePairs M cfg nets = .ok pairs ∧ (pairs.map keyOf).Nodup ∧
      (∀ lo hi reasons, (lo, hi, reasons) ∈ pairs ↔
        ∃ a ∈ nets, ∃ b ∈ nets, a.netId = lo ∧ b.netId = hi ∧ lo < hi ∧ Matches M cfg a b ∧
          matchReasons M cfg a.cells b.cells = .ok reasons) ∧
      (∀ a ∈ nets, ∀ b ∈ nets, a.netId < b.netId → Matches M cfg a b →
        (a.netId, b.netId) ∈ pairs.map keyOf) ∧
      ∀ nets' : List NetRec, nets'.Perm nets →
        ∃ pairs', proposePairs M cfg nets' = .ok pairs' ∧ pairs'.Perm pairs := by
  obtain ⟨pairs, h⟩ := proposePairs_ok cfg hM hnum
  have hnodup := nodup_proposePairs h hn
  refine ⟨pairs, h, hnodup, fun _ _ _ => mem_proposePairs_iff_matches h hn,
    fun a ha b hb hlt hm => ?_, fun nets' hperm => ?_⟩
  · obtain ⟨reasons, hr⟩ := matchReasons_ok hm.2
    have hmem := (mem_proposePairs_iff_matches h hn).mpr
      ⟨a, ha, b, hb, rfl, rfl, hlt, hm, hr⟩
    exact List.mem_map_of_mem (f := keyOf) hmem
  · have hn' : (nets'.map (·.netId)).Nodup := (hperm.map _).nodup_iff.mpr hn
    obtain ⟨pairs', h'⟩ := proposePairs_ok cfg hM
      fun r hr => hnum r (hperm.mem_iff.mp hr)
    refine ⟨pairs', h', ?_⟩
    rw [List.perm_ext_iff_of_nodup (.of_map _ (nodup_proposePairs h' hn')) (.of_map _ hnodup)]
    intro p
    rw [mem_proposePairs_iff_matches h' hn', mem_proposePairs_iff_matches h hn]
    simp only [hperm.mem_iff]

/-- Two nets of two groups, last heard on one day at one place. -/
def sameSpot : List NetRec :=
  [(100001, 1), (100002, 2)].map fun (netId, my) =>
    { netId
      myNetId := .int my
      cells := fun
        | .lti => .ts (.ofDate (.of2024 3 27 (by decide)))
        | .num .frequencyMHz => .flt 100
        | .num .bandwidthKHz => .flt 10
        | .num .latitude | .num .longitude => .flt 0
        | _ => .null }

/-- The search finds them. -/
theorem proposePairs_spec_sameSpot :
    ∃ pairs, proposePairs flatMath {} sameSpot = .ok pairs ∧
      (100001, 100002) ∈ pairs.map keyOf := by
  have hnum : ∀ r ∈ sameSpot, r.Numeric := by
    intro r hr
    obtain ⟨_, -, rfl⟩ := List.mem_map.mp hr
    exact ⟨⟨_, rfl⟩, ⟨_, rfl⟩⟩
  obtain ⟨pairs, h, -, -, hfound, -⟩ :=
    proposePairs_spec (M := flatMath) (fun _ _ => ⟨_, rfl⟩) (by decide) hnum
  exact ⟨pairs, h, hfound (sameSpot.get ⟨0, by decide⟩) (List.get_mem ..)
    (sameSpot.get ⟨1, by decide⟩) (List.get_mem ..) (by decide)
    ⟨by decide, by decide +kernel⟩⟩

end NetMerging

end NetBuild
