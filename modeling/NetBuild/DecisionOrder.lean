import NetBuild.AlertQueue
import NetBuild.BuildRetry

/-!
# The order of decisions does not matter

Between two builds commanders decide the pairs on the queue in some order, and some of what they
request is refused. Which `my_net_id` the nets end up with depends on which pairs an approval was
granted for, and on nothing else.
-/

namespace Labelling

variable {V ℓ : Type} {E : V → V → Prop} {L L' B : V → Option ℓ}

/-- The labels are determined by the graph, the labels nodes are born with, and which nodes are
labelled. -/
theorem Tracks.eq_of_least [PartialOrder ℓ] (ht : Tracks E L) (ht' : Tracks E L') (h : Least B L)
    (h' : Least B L') (hnone : ∀ a, L a = none ↔ L' a = none) : L = L' := by
  funext a
  rcases hl : L a with _ | l
  · exact ((hnone a).mp hl).symm
  · obtain ⟨l', hl'⟩ := Option.ne_none_iff_exists'.mp fun hno => by
      rw [(hnone a).mpr hno] at hl
      exact nomatch hl
    rw [hl', (h.isLeast ht hl).unique (h'.isLeast ht' hl')]

end Labelling

namespace NetBuild

open NetMerging NetMergingService Views Labelling
open Prog (Run)

variable {ord : ReadOrder} {M : MathFns} {past : List Store} {log : List Exchange}
  {s t t' : Store} {c : ApiCall} {o : Except PyError Reply}

/-! ## What a run without builds leaves -/

theorem approved_iff_statusOf (s : Store) (a b : ℤ) :
    Approved s a b ↔ s.statusOf (a, b) = some .approved :=
  Option.bind_eq_some_iff.symm

/-- The nets of `s` are there, with the labels of the components of the pairs approved in `s` or
granted since. -/
structure Regrouped (past : List Store) (s : Store) (log : List Exchange) (t : Store) : Prop where
  grouped : ∃ past', Grouped past' t ∧ born (t :: past') = born (s :: past)
  coarsens : Coarsens s t
  approved : ∀ a b, Approved t a b ↔ Approved s a b ∨ ∃ e ∈ log, e.Grants (a, b) .approve

theorem Regrouped.start (h : Grouped past s) : Regrouped past s [] s :=
  ⟨⟨past, h, rfl⟩, .refl s, fun a b => by simp⟩

/-- No net is born in a run without builds. -/
theorem born_cons_of_coarsens (h : Grouped past t) (hl : Labelled t') (hc : Coarsens t t') :
    born (t' :: t :: past) = born (t :: past) := by
  funext n
  by_cases hn : t.label n = none
  · have hnone : t'.label n = none := by
      rw [hl.label_eq_none_iff]
      by_contra hne
      exact (hc.building_ne_none_iff n).mp hne ((h.labelled.label_eq_none_iff n).mp hn)
    rw [born_cons, h.unborn n hn, hnone]
    rfl
  · exact born_cons_of_label t' hn

theorem Regrouped.same (h : Regrouped past s log t) (hb : t'.building = t.building)
    (ha : ∀ a b, Approved t' a b ↔ Approved t a b) : Regrouped past s log t' := by
  obtain ⟨past', hg, hborn⟩ := h.grouped
  have hg' : Grouped (t :: past') t' := hg.same hb ha
  refine ⟨⟨_, hg', ?_⟩, h.coarsens.trans (.of_eq hb), fun a b => by rw [ha, h.approved]⟩
  rw [born_cons_of_coarsens hg hg'.labelled (.of_eq hb), hborn]

/-- A request that grants no approval. -/
theorem Regrouped.cons (h : Regrouped past s log t)
    (hlog : ∀ k, ¬ Exchange.Grants (c, o) k .approve) : Regrouped past s ((c, o) :: log) t := by
  refine ⟨h.grouped, h.coarsens, fun a b => ?_⟩
  rw [h.approved, List.exists_mem_cons_iff, or_iff_right (hlog (a, b))]

/-- A decision that is granted. -/
theorem Regrouped.decided (h : Regrouped past s log t) {a b : ℤ} {d : Decision} {now : Time}
    {res : DecisionResult} (hd : Decided ord t a b now d t') (hfit : d = .approve → GroupsFit t)
    (hkey : (res.netA, res.netB) = (a, b)) (hres : res.decision = d) :
    Regrouped past s ((c, .ok ⟨200, .decided res⟩) :: log) t' := by
  obtain ⟨past', hg, hborn⟩ := h.grouped
  have hc := hd.coarsens hfit
  have hgrouped : Grouped (t :: past') t' := by
    rcases hd with ⟨-, -, hap⟩ | ⟨hrow, hp⟩
    · exact hg.approves (hfit rfl) hap
    · exact hg.same rfl (approved_settle_rejected hrow hp)
  refine ⟨⟨_, hgrouped, ?_⟩, h.coarsens.trans hc, fun x y => ?_⟩
  · rw [born_cons_of_coarsens hg hgrouped.labelled hc, hborn]
  · rw [List.exists_mem_cons_iff, grants_iff, hkey, hres, or_left_comm, ← h.approved,
      approved_iff_statusOf, approved_iff_statusOf, hd.statusOf.2.2]
    by_cases hk : (x, y) = (a, b)
    · rw [if_pos hk, hk, hd.statusOf.1]
      rcases d with _ | _ | text
      · exact ⟨fun _ => .inl ⟨rfl, rfl⟩, fun _ => rfl⟩
      · exact ⟨fun h => (nomatch h), fun h => h.elim (fun h => nomatch h.2) fun h => nomatch h⟩
      · exact ⟨fun h => (nomatch h), fun h => h.elim (fun h => nomatch h.2) fun h => nomatch h⟩
    · rw [if_neg hk, or_iff_right fun hg => hk hg.1.symm]

theorem Regrouped.call (h : Regrouped past s log t) (hq : c.Quiet M t)
    (hrun : Run (exec ord) t c.prog t' o) : Regrouped past s ((c, o) :: log) t' := by
  have hdecide : ∀ d {ready pk now}, (d = .approve → GroupsFit t) →
      Run (exec ord) t (decisionPost d ready pk now) t' o →
        Regrouped past s ((c, o) :: log) t' := by
    intro d ready pk now hfit hpost
    rcases run_decisionPost hpost with ⟨res, a, b, rfl, hkey, hd, hdec⟩ | ⟨rfl, ho⟩
    · exact h.decided hdec hfit hkey hd
    · exact h.cons fun k => not_grants (fun res hres => ho _ hres rfl) k .approve
  rcases c with ⟨ready, clock⟩ | ⟨M', ready, clock⟩ | ⟨ready, pk, now⟩ | ⟨ready, pk, now⟩
  · exact hq.elim
  · obtain ⟨hends, ho⟩ := run_getCandidates hrun
    have hst : Status.approved ≠ .pending := fun h => nomatch h
    refine (h.same hends.building fun a b => ?_).cons fun k => not_grants ho k .approve
    rw [approved_iff_statusOf, approved_iff_statusOf]
    exact hends.statusOf_iff hst _
  · exact hdecide .approve (fun _ => hq) hrun
  · exact hdecide .reject (fun h => nomatch h) hrun

theorem QuietRun.regrouped (hg : Grouped past s) (h : QuietRun ord M s log t) :
    Regrouped past s log t := by
  induction h with
  | start => exact .start hg
  | reports _ report ih => exact ih.same rfl fun _ _ => Iff.rfl
  | call _ quiet run ih => exact ih.call quiet run

/-! ## Two runs -/

/-- Two runs from one store in which approvals were granted for the same pairs, in any order and
whatever else was requested and came, leave the same nets in the same groups. -/
theorem decision_order_irrelevant {M₁ M₂ : MathFns} {log₁ log₂ : List Exchange} {s₁ s₂ : Store}
    (h : SeqRun ord completeCalls .empty past s) (h₁ : QuietRun ord M₁ s log₁ s₁)
    (h₂ : QuietRun ord M₂ s log₂ s₂)
    (hsame : ∀ k, (∃ e ∈ log₁, e.Grants k .approve) ↔ ∃ e ∈ log₂, e.Grants k .approve) (n : ℤ) :
    (s₁.building n).map Net.read = (s₂.building n).map Net.read := by
  have hr₁ := h₁.regrouped h.grouped
  have hr₂ := h₂.regrouped h.grouped
  obtain ⟨past₁, hg₁, hborn₁⟩ := hr₁.grouped
  obtain ⟨past₂, hg₂, hborn₂⟩ := hr₂.grouped
  have hthere : s₁.building n ≠ none ↔ s₂.building n ≠ none := by
    rw [hr₁.coarsens.building_ne_none_iff, hr₂.coarsens.building_ne_none_iff]
  have hlabel : s₁.label = s₂.label := by
    refine (hg₁.tracks.of_iff fun a b => ?_).eq_of_least hg₂.tracks (hborn₁ ▸ hg₁.least)
      (hborn₂ ▸ hg₂.least) fun m => ?_
    · rw [hr₁.approved, hr₂.approved, hsame]
    · rw [hg₁.labelled.label_eq_none_iff, hg₂.labelled.label_eq_none_iff, ← not_iff_not,
        ← Ne, ← Ne, hr₁.coarsens.building_ne_none_iff, hr₂.coarsens.building_ne_none_iff]
  have hraw : (s₁.building n).map rawNet = (s₂.building n).map rawNet := by
    rw [hr₁.coarsens.data, hr₂.coarsens.data]
  rcases hx : s₁.building n with _ | x
  · rcases hy : s₂.building n with _ | y
    · rfl
    · rw [hx, hy] at hthere
      exact absurd rfl (hthere.mpr (Option.some_ne_none y))
  · rcases hy : s₂.building n with _ | y
    · rw [hx, hy] at hthere
      exact absurd rfl (hthere.mp (Option.some_ne_none x))
    · rw [hx, hy] at hraw
      have hmy : x.myNetId = y.myNetId := by
        rw [← Store.label_of_eq_some hx, ← Store.label_of_eq_some hy, hlabel]
      exact congrArg some (Prod.ext hmy (Option.some.inj hraw))

/-! ## Three nets -/

/-- A run goes on with the approval of a pending pair of two groups. -/
theorem QuietRun.approve {a b la lb : ℤ} {row : Candidate} (h : QuietRun .any M s log t)
    (hfew : FewNets t) (hab : a ≤ b) (hbind : bindable a ∧ bindable b)
    (hc : t.candidates (a, b) = some row) (hp : row.status = some .pending)
    (ha : t.label a = some la) (hb : t.label b = some lb) (hne : la ≠ lb) :
    ∃ e t', QuietRun .any M s (e :: log) t' ∧
      (∀ k, Exchange.Grants e k .approve ↔ (a, b) = k) ∧ FewNets t' ∧
        t'.label = relabel t.label (max la lb) (min la lb) ∧
          ∀ k, k ≠ (a, b) → t'.candidates k = t.candidates k := by
  have hfits := hfew.groupsFit
  obtain ⟨rows, hrows, hlen⟩ := hfew
  have hall : Lists ReadOrder.any.building rows t.building := lists_any hrows
  obtain ⟨x, hx, hmyA⟩ := Option.bind_eq_some_iff.mp ha
  obtain ⟨y, hy, hmyB⟩ := Option.bind_eq_some_iff.mp hb
  have hap : Approves .any t a b 2 _ := .moved hx hy hmyA hmyB hne hall
  obtain ⟨res, hkey, hd, hrun⟩ := (Decided.approve hc hp hap).post hab hbind
  refine ⟨_, _, h.call (c := .approve true (some (pairPath a b)) 2) hfits hrun, fun k => ?_,
    ⟨_, enumerates_move hrows _ 2 (building_ne_none_of_mem_scanned hrows), by
      rwa [List.length_map]⟩, label_move_scanned (hfits _) hall .., fun k hk => ?_⟩
  · rw [grants_iff, hkey]
    exact and_iff_left hd
  · show Table.upsert _ _ _ k = _
    rw [Table.upsert_of_ne _ _ hk]
    rfl

/-- The two approvals that join three nets, in the one order and in the other. -/
theorem decision_order_irrelevant_threeNets : ∃ s log₁ s₁ log₂ s₂, ThreeNets s ∧
    QuietRun .any flatMath s log₁ s₁ ∧ QuietRun .any flatMath s log₂ s₂ ∧
      s₁.label 100003 = some 1 ∧
        (s₁.building 100003).map Net.read = (s₂.building 100003).map Net.read := by
  obtain ⟨s, ⟨past, hs⟩, hthree⟩ := reached_threeNets (G := completeCalls)
    (fun s c out hc => ⟨⟨out, rfl⟩, by
      rcases c <;> first | trivial | exact (hc _ _ _ _ rfl).elim⟩)
  obtain ⟨h₁, h₂, h₃⟩ := hthree.label
  obtain ⟨row₁₂, hc₁₂, hp₁₂⟩ := hthree.pairs (100001, 100002) (by simp)
  obtain ⟨row₂₃, hc₂₃, hp₂₃⟩ := hthree.pairs (100002, 100003) (by simp)
  -- the first two nets, then the last two
  obtain ⟨e₁, t₁, hrun₁, hgrant₁, hfew₁, hlabel₁, hcand₁⟩ :=
    (QuietRun.start (M := flatMath)).approve hthree.fewNets (by decide) (by decide) hc₁₂ hp₁₂ h₁ h₂
      (by decide)
  have hb₁ : t₁.label 100002 = some 1 := by
    rw [hlabel₁]
    exact relabel_of_eq h₂
  have hb₃ : t₁.label 100003 = some 3 := by
    rw [hlabel₁]
    exact (relabel_of_ne (by rw [h₃]; decide)).trans h₃
  obtain ⟨e₂, s₁, hrun₂, hgrant₂, -, hlabel₂, -⟩ := hrun₁.approve hfew₁ (by decide) (by decide)
    ((hcand₁ (100002, 100003) (by decide)).trans hc₂₃) hp₂₃ hb₁ hb₃ (by decide)
  -- the last two, then the first two
  obtain ⟨e₃, t₂, hrun₃, hgrant₃, hfew₃, hlabel₃, hcand₃⟩ :=
    (QuietRun.start (M := flatMath)).approve hthree.fewNets (by decide) (by decide) hc₂₃ hp₂₃ h₂ h₃
      (by decide)
  have ha₁ : t₂.label 100001 = some 1 := by
    rw [hlabel₃]
    exact (relabel_of_ne (by rw [h₁]; decide)).trans h₁
  have ha₂ : t₂.label 100002 = some 2 := by
    rw [hlabel₃]
    exact (relabel_of_ne (by rw [h₂]; decide)).trans h₂
  obtain ⟨e₄, s₂, hrun₄, hgrant₄, -, -, -⟩ := hrun₃.approve hfew₃ (by decide) (by decide)
    ((hcand₃ (100001, 100002) (by decide)).trans hc₁₂) hp₁₂ ha₁ ha₂ (by decide)
  refine ⟨s, _, s₁, _, s₂, hthree, hrun₂, hrun₄, ?_,
    decision_order_irrelevant hs hrun₂ hrun₄ (fun k => ?_) 100003⟩
  · rw [hlabel₂]
    exact relabel_of_eq hb₃
  · simp only [List.mem_cons, List.not_mem_nil, or_false, exists_eq_or_imp, exists_eq_left,
      hgrant₁, hgrant₂, hgrant₃, hgrant₄]
    exact or_comm

end NetBuild
