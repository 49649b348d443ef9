import NetBuild.Outcomes

/-!
# Rejected pairs

A rejection is final for its pair: the pair is neither proposed nor decided again. It does not bar
the two nets from one group, though. An approval looks at its own pair only and moves a whole
group, so nets of a rejected pair end up under one `my_net_id` when approvals of other pairs link
them, and only then.
-/

namespace NetBuild

open NetMerging NetMergingService Labelling
open Prog (Run)

section
variable {ord : ReadOrder} {G : Guard} {past : List Store} {s t : Store}

/-- Over any run nets of one group are linked by approved pairs. -/
theorem SeqRun.linked (h : SeqRun ord G .empty past s) : Linked (Approved s) s.label := by
  induction h with
  | start => exact fun _ _ _ hl => nomatch hl
  | call before allowed run ih => exact (run_call_ends run).linked ih

theorem SeqRun.label_ne_none (h : SeqRun ord G .empty past s) (ht : t ∈ s :: past) {n : ℤ}
    (hn : t.label n ≠ none) : s.label n ≠ none := by
  induction h with
  | start => rwa [List.mem_singleton.mp ht] at hn
  | call before allowed run ih =>
    rcases List.mem_cons.mp ht with rfl | ht
    · exact hn
    · exact (run_call_ends run).label_ne_none (ih ht)

theorem SeqRun.decided_kept (h : SeqRun ord G .empty past s) (ht : t ∈ s :: past) {k : PairKey}
    {x : Candidate} (hx : t.candidates k = some x) (hp : x.status ≠ some .pending) :
    s.candidates k = some x := by
  induction h with
  | start => rwa [List.mem_singleton.mp ht] at hx
  | call before allowed run ih =>
    rcases List.mem_cons.mp ht with rfl | ht
    · exact hx
    · exact (run_call_ends run).decided_kept (ih ht) hp

/-- Once a pair of two groups is rejected it stays rejected as it is, and its nets stay in two
groups unless a chain of approved pairs links them. -/
theorem rejection_respected (h : SeqRun ord G .empty past s) (ht : t ∈ s :: past) {a b : ℤ}
    {x : Candidate} (hx : t.candidates (a, b) = some x) (hr : x.status = some .rejected)
    (hab : t.label a ≠ t.label b) :
    s.candidates (a, b) = some x ∧
      (s.label a ≠ s.label b ∨ Relation.EqvGen (Approved s) a b) := by
  refine ⟨h.decided_kept ht hx (by rw [hr]; decide), ?_⟩
  by_cases he : s.label a = s.label b
  · right
    -- one of the nets had a label, so both have one now
    have hne : s.label a ≠ none := by
      rcases hta : t.label a with _ | l
      · rw [he]
        exact h.label_ne_none ht fun htb => hab (hta.trans htb.symm)
      · exact h.label_ne_none ht (hta ▸ Option.some_ne_none l)
    obtain ⟨l, hl⟩ := Option.ne_none_iff_exists'.mp hne
    exact h.linked a b l hl (he ▸ hl)
  · exact .inl he

end

/-! ## Three nets -/

/-- Three nets, the first two of them rejected as a pair and the other two pairs pending. -/
structure FirstRejected (s : Store) : Prop where
  fewNets : FewNets s
  label : s.label 100001 = some 1 ∧ s.label 100002 = some 2 ∧ s.label 100003 = some 3
  rejected : ∃ c, s.candidates (100001, 100002) = some c ∧ c.status = some .rejected
  pairs : ∀ k ∈ [(100001, 100003), (100002, 100003)], ∃ c,
    s.candidates k = some c ∧ c.status = some .pending

theorem reached_firstRejected :
    ∃ past s, SeqRun .any completeCalls .empty past s ∧ FirstRejected s := by
  obtain ⟨s, ⟨past, hs⟩, hthree⟩ := reached_threeNets (G := completeCalls)
    (fun s c out hc => ⟨⟨out, rfl⟩, by
      rcases c <;> first | trivial | exact (hc _ _ _ _ rfl).elim⟩)
  obtain ⟨c, hc, hp⟩ := hthree.pairs (100001, 100002) (by simp)
  refine ⟨_, _, hs.reject hthree.fewNets (by decide) hc hp, hthree.fewNets, hthree.label,
    ⟨_, candidates_settle_self .., rfl⟩, fun k hk => ?_⟩
  rw [candidates_settle, Table.upsert_of_ne]
  · exact hthree.pairs k (List.mem_cons_of_mem _ hk)
  · intro he
    rw [he] at hk
    exact absurd hk (by decide)

/-- Both nets of the rejected pair are approved with the third one, and carry one label. -/
theorem rejected_pair_joined :
    ∃ past s t c, SeqRun .any completeCalls .empty past s ∧ t ∈ past ∧
      t.candidates (100001, 100002) = some c ∧ c.status = some .rejected ∧
        t.label 100001 ≠ t.label 100002 ∧ s.label 100001 = some 1 ∧ s.label 100002 = some 1 := by
  obtain ⟨past, t, ht, hrej⟩ := reached_firstRejected
  obtain ⟨l₁, l₂, l₃⟩ := hrej.label
  obtain ⟨c, hc, hst⟩ := hrej.rejected
  obtain ⟨c₁, hc₁, hp₁⟩ := hrej.pairs (100001, 100003) (by simp)
  obtain ⟨c₂, hc₂, hp₂⟩ := hrej.pairs (100002, 100003) (by simp)
  obtain ⟨u, hu, hufew, hulabel, -, hkeep⟩ :=
    ht.approve hrej.fewNets (by decide) hc₁ hp₁ l₁ l₃ (by decide)
  have hl : ∀ n, u.label n = relabel t.label 3 1 n := fun n => congrFun hulabel n
  have u₁ : u.label 100001 = some 1 := by
    rw [hl, relabel_of_ne (by rw [l₁]; decide), l₁]
  have u₂ : u.label 100002 = some 2 := by
    rw [hl, relabel_of_ne (by rw [l₂]; decide), l₂]
  have u₃ : u.label 100003 = some 1 := by
    rw [hl, relabel_of_eq l₃]
  obtain ⟨v, hv, -, hvlabel, -, -⟩ := hu.approve hufew (a := 100002) (b := 100003) (by decide)
    ((hkeep _ (by decide)).trans hc₂) hp₂ u₂ u₃ (by decide)
  have hl' : ∀ n, v.label n = relabel u.label 2 1 n := fun n => congrFun hvlabel n
  refine ⟨_, v, t, c, hv, by simp, hc, hst, by rw [l₁, l₂]; decide, ?_, ?_⟩
  · rw [hl', relabel_of_ne (by rw [u₁]; decide), u₁]
  · rw [hl', relabel_of_eq u₂]

/-- With the first pair rejected and the second one approved, the first two nets are apart. -/
theorem rejection_respected_threeNets :
    ∃ past s c, SeqRun .any completeCalls .empty past s ∧ Approved s 100001 100003 ∧
      s.candidates (100001, 100002) = some c ∧ c.status = some .rejected ∧
        (s.label 100001 ≠ s.label 100002 ∨ Relation.EqvGen (Approved s) 100001 100002) := by
  obtain ⟨past, t, ht, hrej⟩ := reached_firstRejected
  obtain ⟨l₁, l₂, l₃⟩ := hrej.label
  obtain ⟨c, hc, hst⟩ := hrej.rejected
  obtain ⟨c₁, hc₁, hp₁⟩ := hrej.pairs (100001, 100003) (by simp)
  obtain ⟨u, hu, -, -, happroved, -⟩ :=
    ht.approve hrej.fewNets (by decide) hc₁ hp₁ l₁ l₃ (by decide)
  obtain ⟨hkept, hapart⟩ := rejection_respected hu (t := t) (by simp) hc hst
    (by rw [l₁, l₂]; decide)
  exact ⟨_, u, c, hu, happroved, hkept, hst, hapart⟩

end NetBuild
