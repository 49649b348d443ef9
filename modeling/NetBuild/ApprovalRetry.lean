import NetBuild.CandidateLedger
import NetBuild.DecisionSteps

/-!
# Retrying an approval

An approval moves the absorbed group row by row and writes the status last, so one that a write
fails in leaves the pair pending and the group partly moved. A retry merges what was to be
merged exactly when every net of the two groups still carries the label of one of the pair's
nets: once the pair's own net of the absorbed group has been moved, the retry finds both nets in
one group and moves nothing.
-/

namespace NetBuild

open NetMerging NetMergingService Labelling
open Prog (Run Cut Steps)

/-! ## Labelled rows -/

/-- The request writes no row without a label. -/
def Req.Labels : Req → Prop
  | .buildingInsert _ row => row.myNetId ≠ none
  | _ => True

theorem Labelled.apply {s : Store} (h : Labelled s) {r : Req} (hr : r.Labels) :
    Labelled (s.apply r) := by
  have hupsert : ∀ (n : ℤ) (row : Net), row.myNetId ≠ none →
      Labelled { s with building := s.building.upsert n row } := by
    intro n row hrow n' x hx
    change s.building.upsert n row n' = some x at hx
    rw [Table.upsert_apply] at hx
    split at hx
    · rwa [← Option.some.inj hx]
    · exact h n' x hx
  rcases r with _ | _ | _ | _ | _ | ⟨n, row⟩ | ⟨n, my, now⟩ | n | _ | _ | _ | _ | _ | _
  case buildingInsert => exact hupsert n row hr
  case buildingUpdate => exact hupsert n _ (Option.some_ne_none my)
  case buildingDelete =>
    intro n' x hx
    change s.building.delete n n' = some x at hx
    rw [Table.delete_apply] at hx
    split at hx
    · exact nomatch hx
    · exact h n' x hx
  all_goals exact h

theorem always_labels (c : Call) : c.prog.Always Req.Labels := by
  rcases c with ⟨key, row⟩ | ⟨cfg, clock⟩ | ⟨M, cfg, clock⟩ | ⟨a, b, d, now⟩
  · exact ⟨trivial, fun _ => trivial⟩
  · refine (always_build cfg clock).mono fun r hr => ?_
    rcases r <;> first | exact hr | trivial
  · refine Prog.Always.bind ?_ fun _ => trivial
    refine (always_listPendingCandidates M cfg clock).mono fun r hr => ?_
    rcases r <;> first | exact hr.elim | trivial
  · refine Prog.Always.bind ?_ fun _ => trivial
    refine (always_applyDecision a b d now).mono fun r hr => ?_
    rcases r <;> first | exact hr.elim | trivial

theorem Reached.labelled_of {ord : ReadOrder} {G : Guard} {s t : Store} (h : Reached ord G s t)
    (hs : Labelled s) : Labelled t := by
  refine h.invariant hs fun u c o u' _ hu _ hrun => ?_
  refine hrun.preserves (fun v r x v' hr hv hex => ?_) (always_labels c) hu
  rw [hex.2]
  exact hv.apply hr

/-- Every row of a reachable store is labelled, whatever the calls were and however they ended. -/
theorem Reached.labelled {ord : ReadOrder} {G : Guard} {s : Store} (h : Reached ord G .empty s) :
    Labelled s := h.labelled_of fun _ _ hx => nomatch hx

/-- So is every row where an approval was stopped. -/
theorem labelled_of_cut {ord : ReadOrder} {s s' : Store} {netA netB : ℤ} {now : Time}
    (h : Cut (exec ord) Req.IsWrite s (applyDecision netA netB .approve now) s')
    (hs : Labelled s) : Labelled s' := by
  refine h.preserves (P := Req.Labels) (fun v r x v' hr hv hex => ?_) ?_ hs
  · rw [hex.2]
    exact hv.apply hr
  · refine (always_applyDecision netA netB .approve now).mono fun r hr => ?_
    rcases r <;> first | exact hr.elim | trivial

/-! ## An approval that fails -/

section
variable {ord : ReadOrder} {s s' : Store} {a b : ℤ} {now : Time}

/-- What an approval stopped by a failing write has done: nothing, or the first moves. -/
inductive Interrupts (ord : ReadOrder) (s : Store) (a b : ℤ) (now : Time) : Store → Prop
  | joined (row : s.building a ≠ none) (same : s.label a = s.label b) :
      Interrupts ord s a b now s
  | moved {hi lo : ℤ} {all done rest : List (ℤ × Net)} (lt : lo < hi)
      (ends : Ends s.label a b hi lo) (read : Lists ord.building all s.building)
      (moves : scanned all hi = done ++ rest) :
      Interrupts ord s a b now (move s lo now (done.map Prod.fst))

theorem cut_moveRows {my : ℤ} {rows : List (ℤ × Net)}
    (h : Cut (exec ord) Req.IsWrite s (moveRows now my rows) s') :
    ∃ done rest, rows = done ++ rest ∧ s' = move s my now (done.map Prod.fst) := by
  obtain ⟨done, r, rest, t, rfl, hrun, hcut⟩ := Prog.cut_forM h
  obtain ⟨rfl, -⟩ := run_moveRows.mp hrun
  refine ⟨done, r :: rest, rfl, ?_⟩
  rcases cut_request_iff.mp hcut with ⟨-, rfl⟩ | ⟨_, -, hcut⟩
  · rfl
  · exact absurd hcut (Prog.not_cut_ret _)

theorem cut_approve {x y : Net} (hx : s.building a = some x) (hy : s.building b = some y)
    (h : Cut (exec ord) Req.IsWrite s (approve now a b x.myNetId y.myNetId) s') :
    Interrupts ord s a b now s' := by
  have hla := Store.label_of_eq_some hx
  have hlb := Store.label_of_eq_some hy
  unfold approve at h
  split at h
  · next he =>
    rw [Prog.request_bind] at h
    rcases cut_request_iff.mp h with ⟨-, rfl⟩ | ⟨_, -, h⟩
    · exact .joined (hx ▸ Option.some_ne_none x) (by rw [hla, hlb, he])
    · exact absurd h (Prog.not_cut_ret _)
  · next he =>
    split at h
    · next myA myB hA hB =>
      have hne : myA ≠ myB := fun hab => he (by rw [hA, hB, hab])
      have hends : Ends s.label a b (max myA myB) (min myA myB) :=
        ends_max_min (hla.trans hA) (hlb.trans hB)
      rw [Prog.request_bind] at h
      rcases cut_request_iff.mp h with ⟨hw, -⟩ | ⟨_, ⟨all, hall, rfl⟩, h⟩
      · exact hw.elim
      · rcases Prog.cut_bind_iff.mp h with h | ⟨_, _, hmove, h⟩
        · obtain ⟨done, rest, hscan, rfl⟩ := cut_moveRows h
          exact .moved (by omega) hends hall hscan
        · obtain ⟨rfl, -⟩ := run_moveRows.mp hmove
          rw [Prog.request_bind] at h
          rcases cut_request_iff.mp h with ⟨-, rfl⟩ | ⟨_, -, h⟩
          · exact .moved (by omega) hends hall (List.append_nil _).symm
          · exact absurd h (Prog.not_cut_ret _)
    · exact absurd h (Prog.not_cut_raise _)

theorem cut_applyDecision {netA netB : ℤ}
    (h : Cut (exec ord) Req.IsWrite s (applyDecision netA netB .approve now) s') :
    Interrupts ord s (min netA netB) (max netA netB) now s' := by
  change Cut (exec ord) Req.IsWrite s (decidePair _ _ .approve now) s' at h
  unfold decidePair at h
  rw [Prog.request_bind] at h
  rcases cut_request_iff.mp h with ⟨hw, -⟩ | ⟨candidate, -, h₁⟩
  · exact hw.elim
  change Cut (exec ord) Req.IsWrite s _ s' at h₁
  rcases candidate with _ | c
  · exact absurd h₁ (Prog.not_cut_raise _)
  · dsimp only at h₁
    split at h₁
    · exact absurd h₁ (Prog.not_cut_raise _)
    · rw [if_neg (by decide), Prog.request_bind] at h₁
      rcases cut_request_iff.mp h₁ with ⟨hw, -⟩ | ⟨rowA, hA, h₂⟩
      · exact hw.elim
      rw [Prog.request_bind] at h₂
      rcases cut_request_iff.mp h₂ with ⟨hw, -⟩ | ⟨rowB, hB, h₃⟩
      · exact hw.elim
      change Cut (exec ord) Req.IsWrite s _ s' at h₃
      rcases rowA with _ | x
      · exact absurd h₃ (Prog.not_cut_raise _)
      · rcases rowB with _ | y
        · exact absurd h₃ (Prog.not_cut_raise _)
        · exact cut_approve (Eq.symm hA) (Eq.symm hB) h₃

end

/-! ## The retry -/

/-- The net carries the label of one of the two. -/
def Store.InGroups (s : Store) (a b n : ℤ) : Prop := s.label n = s.label a ∨ s.label n = s.label b

/-- The nets of the two groups there were carry one label, and the pair is approved. -/
def Merged (s s' : Store) (a b : ℤ) : Prop :=
  (∃ my, ∀ n, s.InGroups a b n → s'.label n = some my) ∧ Approved s' (min a b) (max a b)

/-- The nets of the two groups there were carry the label of one of the two nets still. -/
def StillCarried (s t : Store) (a b : ℤ) : Prop := ∀ n, s.InGroups a b n → t.InGroups a b n

/-- The group an approval would absorb is no larger than what one scan reads. -/
def AbsorbedFits (t : Store) (a b : ℤ) : Prop :=
  ∀ x y, t.label a = some x → t.label b = some y → x ≠ y → GroupFits t (max x y)

/-- Calls that complete and are no decisions. -/
def noDecision : Guard := fun _ c o =>
  (∃ out, o = .ok out) ∧ ∀ a b d now, c ≠ .decide a b d now

section
variable {ord : ReadOrder} {s s' t : Store} {a b : ℤ} {now : Time}

theorem inGroups_comm (s : Store) (a b n : ℤ) : s.InGroups a b n ↔ s.InGroups b a n := or_comm

theorem inGroups_min_max (s : Store) (a b n : ℤ) :
    s.InGroups (min a b) (max a b) n ↔ s.InGroups a b n := by
  rcases le_total a b with h | h
  · rw [min_eq_left h, max_eq_right h]
  · rw [min_eq_right h, max_eq_left h, inGroups_comm]

theorem absorbedFits_min_max (t : Store) (a b : ℤ) :
    AbsorbedFits t (min a b) (max a b) ↔ AbsorbedFits t a b := by
  rcases le_total a b with h | h
  · rw [min_eq_left h, max_eq_right h]
  · rw [min_eq_right h, max_eq_left h]
    unfold AbsorbedFits
    refine ⟨fun hf x y hx hy hne => ?_, fun hf x y hx hy hne => ?_⟩
    · rw [max_comm]
      exact hf y x hy hx hne.symm
    · rw [max_comm]
      exact hf y x hy hx hne.symm

theorem AbsorbedFits.of_ends (h : AbsorbedFits t a b) {hi lo : ℤ} (hlt : lo < hi)
    (hends : Ends t.label a b hi lo) : GroupFits t hi := by
  rcases hends with ⟨ha, hb⟩ | ⟨ha, hb⟩
  · have := h hi lo ha hb (by omega)
    rwa [max_eq_left hlt.le] at this
  · have := h lo hi ha hb (by omega)
    rwa [max_eq_right hlt.le] at this

/-- Where the absorbed group fits, an approval makes one group of some nets of two groups exactly
when each of them carries one of the two labels. -/
theorem NetMergingService.Approves.merges_iff (h : Approves ord t a b now s') (ht : Labelled t)
    (hfit : AbsorbedFits t a b) :
    (∃ my, ∀ n, s.InGroups a b n → s'.label n = some my) ↔
      ∀ n, s.InGroups a b n → t.InGroups a b n := by
  rcases h.label_cases with ⟨hab, rfl⟩ | ⟨hi, lo, all, hlt, hends, hall, rfl⟩
  · rw [label_settle]
    refine ⟨fun hmy n hn => ?_, fun hcarried => ?_⟩
    · obtain ⟨my, hmy⟩ := hmy
      left
      rw [hmy n hn, hmy a (.inl rfl)]
    · have ha : t.label a ≠ none := by
        rw [Ne, ht.label_eq_none_iff]
        exact h.row_ne_none.1
      obtain ⟨my, hmy⟩ := Option.ne_none_iff_exists'.mp ha
      refine ⟨my, fun n hn => ?_⟩
      rcases hcarried n hn with hn | hn
      · rw [hn, hmy]
      · rw [hn, ← hab, hmy]
  · rw [label_settle, label_move_scanned (hfit.of_ends hlt hends) hall]
    refine ⟨fun hmy n hn => ?_, fun hcarried => ⟨lo, fun n hn => ?_⟩⟩
    · obtain ⟨my, hmy⟩ := hmy
      -- the common label is the one both nets have afterwards
      have hmylo : my = lo := by
        have ha := relabel_eq_lo_iff.mpr ((hends.label_eq_iff a).mp (.inl rfl))
        rw [hmy a (.inl rfl)] at ha
        exact Option.some.inj ha
      have hn' := hmy n hn
      rw [hmylo] at hn'
      exact (hends.label_eq_iff n).mpr (relabel_eq_lo_iff.mp hn')
    · exact relabel_eq_lo_iff.mpr ((hends.label_eq_iff n).mp (hcarried n hn))

/-- Without decisions labels only grow. -/
theorem Reached.grows (h : Reached ord noDecision s t) : Grows s.label t.label := by
  refine h.invariant (I := fun u => Grows s.label u.label) (.refl _)
    fun u c o u' _ hu hG hrun => hu.trans ?_
  obtain ⟨⟨out, rfl⟩, hne⟩ := hG
  rcases c with ⟨key, row⟩ | ⟨cfg, clock⟩ | ⟨M, cfg, clock⟩ | ⟨a, b, d, now⟩
  · obtain ⟨rfl, -⟩ := run_insertReport_iff.mp hrun
    exact .refl _
  · obtain ⟨res, hbuild, -⟩ := run_build_ok_iff.mp hrun
    obtain ⟨_, _, _, _, _, hb⟩ := run_runPipeline hbuild
    exact hb.grows
  · obtain ⟨res, hlist, -⟩ := run_list_ok_iff.mp hrun
    obtain ⟨_, _, _, hd⟩ := run_listPendingCandidates hlist
    rw [hd.store]
    exact .refl _
  · exact absurd rfl (hne a b d now)

/-- The pair's nets have labels when an approval is stopped. -/
theorem Interrupts.label_ne_none (h : Interrupts ord s a b now s') (hs : Labelled s) :
    s'.label a ≠ none ∧ s'.label b ≠ none := by
  rcases h with ⟨hrow, hab⟩ | ⟨-, hends, -, -⟩
  · rw [← hab, Ne, hs.label_eq_none_iff]
    exact ⟨hrow, hrow⟩
  · rw [label_move, label_move]
    rcases hends with ⟨ha, hb⟩ | ⟨ha, hb⟩
    · rw [ha, hb]
      refine ⟨?_, ?_⟩ <;> split <;> exact Option.some_ne_none _
    · rw [ha, hb]
      refine ⟨?_, ?_⟩ <;> split <;> exact Option.some_ne_none _

/-- A net that has a label of the pair when the approval is stopped was in one of its groups. -/
theorem Interrupts.inGroups (h : Interrupts ord s a b now s') {n : ℤ}
    (hn : s'.InGroups a b n) : s.InGroups a b n := by
  rcases h with ⟨-, -⟩ | @⟨hi, lo, all, done, rest, -, hends, hall, hscan⟩
  · exact hn
  · have hdone : ∀ m, m ∈ done.map Prod.fst → s.label m = some hi := by
      intro m hm
      refine label_of_mem_scanned hall ?_
      rw [hscan, List.map_append]
      exact List.mem_append_left _ hm
    -- an end of the pair has one of the two labels still, whether it was moved or not
    have hend : ∀ m, s.InGroups a b m → (move s lo now (done.map Prod.fst)).label m = some hi ∨
        (move s lo now (done.map Prod.fst)).label m = some lo := by
      intro m hm
      rw [label_move]
      split
      · exact .inr rfl
      · exact (hends.label_eq_iff m).mp hm
    refine (hends.label_eq_iff n).mpr ?_
    by_cases hmem : n ∈ done.map Prod.fst
    · exact .inl (hdone n hmem)
    · have hsame : (move s lo now (done.map Prod.fst)).label n = s.label n := by
        rw [label_move, if_neg hmem]
      rw [← hsame]
      rcases hn with hn | hn
      · rw [hn]
        exact hend a (.inl rfl)
      · rw [hn]
        exact hend b (.inr rfl)

/-- A retry with no decision in between that merges what was to be merged found a group that
fits. -/
theorem Interrupts.absorbedFits {u : Store} {now' : Time} (h : Interrupts ord s a b now s')
    (hs : Labelled s) (hg : Grows s'.label t.label) (hap : Approves ord t a b now' u)
    (hmy : ∃ my, ∀ n, s.InGroups a b n → u.label n = some my) : AbsorbedFits t a b := by
  intro x y hx hy hxy
  obtain ⟨my, hmy⟩ := hmy
  rcases hap.label_cases with ⟨hab, -⟩ | ⟨hi, lo, all, hlt, hends, hall, rfl⟩
  · rw [hx, hy] at hab
    exact absurd (Option.some.inj hab) hxy
  · have hmax : max x y = hi := by
      unfold Ends at hends
      rw [hx, hy] at hends
      rcases hends with ⟨ha, hb⟩ | ⟨ha, hb⟩
      · rw [Option.some.inj ha, Option.some.inj hb, max_eq_left hlt.le]
      · rw [Option.some.inj ha, Option.some.inj hb, max_eq_right hlt.le]
    rw [hmax, groupFits_iff hall]
    intro n hn
    -- both nets had their labels when the approval was stopped, so the group had too
    obtain ⟨hna, hnb⟩ := h.label_ne_none hs
    obtain ⟨la, hla⟩ := Option.ne_none_iff_exists'.mp hna
    obtain ⟨lb, hlb⟩ := Option.ne_none_iff_exists'.mp hnb
    have hta := hg.kept a la hla
    have htb := hg.kept b lb hlb
    have hin : s'.InGroups a b n := by
      rcases (hends.label_eq_iff n).mpr (.inl hn) with he | he
      · left
        rw [hla]
        exact hg.of_eq hla (he.trans hta)
      · right
        rw [hlb]
        exact hg.of_eq hlb (he.trans htb)
    have hun := hmy n (h.inGroups hin)
    rw [label_settle, label_move] at hun
    by_contra hout
    rw [if_neg hout, hn] at hun
    -- then the common label is the greater one, but one of the two nets keeps the smaller one
    obtain ⟨c, hc, hcab⟩ : ∃ c, t.label c = some lo ∧ s.InGroups a b c := by
      rcases hends with ⟨-, hc⟩ | ⟨hc, -⟩
      · exact ⟨b, hc, .inr rfl⟩
      · exact ⟨a, hc, .inl rfl⟩
    have huc := hmy c hcab
    rw [label_settle, label_move, hc, ite_self] at huc
    have := Option.some.inj (huc.trans hun.symm)
    omega

/-- A retry of a failed approval, whatever came in between, merges what was to be merged exactly
when the nets of the two groups carry the labels of the pair's nets still, if the group it
absorbs fits one scan; with no decision in between it has to fit, too. -/
theorem retry_merges_iff {G G' : Guard} {u : Store} {netA netB : ℤ} {now' : Time}
    {res : DecisionResult} (hs : Reached ord G .empty s)
    (hcut : Cut (exec ord) Req.IsWrite s (applyDecision netA netB .approve now) s')
    (hlater : Reached ord G' s' t)
    (hretry : Run (exec ord) t (applyDecision netA netB .approve now') u (.ok res)) :
    (AbsorbedFits t netA netB → (Merged s u netA netB ↔ StillCarried s t netA netB)) ∧
      (Reached ord noDecision s' t →
        (Merged s u netA netB ↔ StillCarried s t netA netB ∧ AbsorbedFits t netA netB)) := by
  have hlab : Labelled s := hs.labelled
  have hcut' := cut_applyDecision hcut
  have hlabt : Labelled t := hlater.labelled_of (labelled_of_cut hcut hlab)
  have hap : Approves ord t (min netA netB) (max netA netB) now' u := by
    rcases run_applyDecision_ok hretry with ⟨-, -, hap⟩ | _
    exact hap
  have happroved : Approved u (min netA netB) (max netA netB) := hap.approved
  have hmerged : Merged s u netA netB ↔
      ∃ my, ∀ n, s.InGroups (min netA netB) (max netA netB) n → u.label n = some my := by
    unfold Merged
    rw [and_iff_left happroved]
    simp only [inGroups_min_max]
  have hcarried : StillCarried s t netA netB ↔ ∀ n, s.InGroups (min netA netB) (max netA netB) n →
      t.InGroups (min netA netB) (max netA netB) n := by
    unfold StillCarried
    simp only [inGroups_min_max]
  have hiff : AbsorbedFits t netA netB →
      (Merged s u netA netB ↔ StillCarried s t netA netB) := by
    intro hfit
    rw [hmerged, hcarried]
    exact hap.merges_iff hlabt ((absorbedFits_min_max t netA netB).mpr hfit)
  refine ⟨hiff, fun hquiet => ⟨fun hm => ?_, fun hm => (hiff hm.2).mpr hm.1⟩⟩
  have hfit : AbsorbedFits t netA netB := by
    rw [← absorbedFits_min_max]
    exact hcut'.absorbedFits hlab hquiet.grows hap (hmerged.mp hm)
  exact ⟨(hiff hfit).mp hm, hfit⟩

end

/-! ## A group left behind -/

/-- Three nets, the last two of them approved, and the first pair pending. -/
structure TwoGroups (s : Store) : Prop where
  nets : ∃ x₁ x₂ x₃, Table.Enumerates [(100001, x₁), (100002, x₂), (100003, x₃)] s.building ∧
    x₁.myNetId = some 1 ∧ x₂.myNetId = some 2 ∧ x₃.myNetId = some 2
  pair : ∃ c, s.candidates (100001, 100002) = some c ∧ c.status = some .pending

/-- They are what the approval of the last two of three nets leaves. -/
theorem reached_twoGroups : ∃ s, Reached .any completeCalls .empty s ∧ TwoGroups s := by
  obtain ⟨s, ⟨past, hs⟩, hthree⟩ := reached_threeNets (G := completeCalls)
    (fun s c out hc => ⟨⟨out, rfl⟩, by
      rcases c <;> first | trivial | exact (hc _ _ _ _ rfl).elim⟩)
  obtain ⟨x₁, x₂, x₃, hnets, h₁, h₂, h₃⟩ := hthree.nets
  have hb₂ := (hnets.mem_iff 100002 x₂).mp (by simp)
  have hb₃ := (hnets.mem_iff 100003 x₃).mp (by simp)
  obtain ⟨c, hc, hp⟩ := hthree.pairs (100002, 100003) (by simp)
  have hall : Lists ReadOrder.any.building _ s.building := lists_any hnets
  have hscan : scanned [(100001, x₁), (100002, x₂), (100003, x₃)] (max 2 3) = [(100003, x₃)] := by
    unfold scanned
    simp [h₁, h₂, h₃, groupLimit]
  have hap : Approves .any s 100002 100003 2 _ := .moved hb₂ hb₃ h₂ h₃ (by decide) hall
  rw [hscan, List.map_singleton, move_singleton] at hap
  obtain ⟨res, hrun⟩ := (Decided.approve hc hp hap).run (by decide)
  refine ⟨_, ⟨_, .call hs (c := .decide 100002 100003 .approve 2) ⟨⟨_, rfl⟩, hthree.groupsFit⟩
    (run_decide_ok_iff.mpr ⟨res, hrun, rfl⟩)⟩, ?_, ?_⟩
  · have hnets' : Table.Enumerates ([(100001, x₁), (100002, x₂)] ++ [(100003, x₃)]) s.building :=
      hnets
    exact ⟨x₁, x₂, _, hnets'.upsert_old (.relabel (s.building 100003) (min 2 3) 2), h₁, h₂, rfl⟩
  · obtain ⟨c', hc', hp'⟩ := hthree.pairs (100001, 100002) (by simp)
    refine ⟨c', ?_, hp'⟩
    rw [candidates_settle, Table.upsert_of_ne _ _ (by decide)]
    exact hc'

/-- An approval of the first pair has the rows of the other group to move, as they are read. -/
theorem TwoGroups.steps {s : Store} (h : TwoGroups s) (now : Time) {rows : List (ℤ × Net)}
    (hrows : Table.Enumerates rows s.building) : ∃ count,
    Steps (exec .any) s (applyDecision 100001 100002 .approve now) s
      ((DecisionPoint.moving 2 1 count (scanned rows 2)).prog ⟨100001, 100002, .approve, now⟩) := by
  obtain ⟨x₁, x₂, x₃, hnets, h₁, h₂, h₃⟩ := h.nets
  obtain ⟨c, hc, hp⟩ := h.pair
  have hb₁ := (hnets.mem_iff 100001 x₁).mp (by simp)
  have hb₂ := (hnets.mem_iff 100002 x₂).mp (by simp)
  have hstart : Steps (exec .any) s (DecisionCall.prog ⟨100001, 100002, .approve, now⟩) s
      (DecisionPoint.readA.prog ⟨100001, 100002, .approve, now⟩) := (steps_start hc hp).2 rfl
  have hread : Steps (exec .any) s (DecisionPoint.readA.prog ⟨100001, 100002, .approve, now⟩) s _ :=
    steps_readA hb₁ hb₂ h₁ h₂ (by decide) (lists_any hrows)
  exact ⟨_, hstart.trans hread⟩

theorem TwoGroups.label {s : Store} (h : TwoGroups s) :
    s.label 100001 = some 1 ∧ s.label 100002 = some 2 ∧ s.label 100003 = some 2 := by
  obtain ⟨x₁, x₂, x₃, hnets, h₁, h₂, h₃⟩ := h.nets
  unfold Store.label
  rw [(hnets.mem_iff 100001 x₁).mp (by simp), (hnets.mem_iff 100002 x₂).mp (by simp),
    (hnets.mem_iff 100003 x₃).mp (by simp)]
  exact ⟨h₁, h₂, h₃⟩

/-- The failing write is that of the second of the two rows to be moved: the pair's own net has
been moved, so the retry moves nothing. -/
theorem group_left_behind :
    ∃ s s' u res, Reached .any completeCalls .empty s ∧
      (∃ c, s.candidates (100001, 100002) = some c ∧ c.status = some .pending) ∧
      Cut (exec .any) Req.IsWrite s (applyDecision 100001 100002 .approve 3) s' ∧
      Run (exec .any) s' (applyDecision 100001 100002 .approve 4) u (.ok res) ∧
      s.label 100003 = s.label 100002 ∧ ¬ Merged s u 100001 100002 := by
  obtain ⟨s, hs, htwo⟩ := reached_twoGroups
  obtain ⟨x₁, x₂, x₃, hnets, h₁, h₂, h₃⟩ := htwo.nets
  obtain ⟨count, hsteps⟩ := htwo.steps 3 hnets
  have hscan : scanned [(100001, x₁), (100002, x₂), (100003, x₃)] 2
      = [(100002, x₂)] ++ [(100003, x₃)] := by
    unfold scanned
    simp [h₁, h₂, h₃, groupLimit]
  rw [hscan] at hsteps
  obtain ⟨hl₁, hl₂, hl₃⟩ := htwo.label
  obtain ⟨c, hc, hp⟩ := htwo.pair
  have hcut : Cut (exec .any) Req.IsWrite s (applyDecision 100001 100002 .approve 3)
      (move s 1 3 [100002]) :=
    (hsteps.trans (steps_moves 2 1 count [(100002, x₂)] [(100003, x₃)])).cut (.here trivial)
  -- the retry finds both nets in one group
  have hm : ∀ n, (move s 1 3 [100002]).label n = if n = 100002 then some 1 else s.label n := by
    intro n
    rw [label_move]
    simp
  have hm₁ := (hm 100001).trans hl₁
  have hm₂ : (move s 1 3 [100002]).label 100002 = some 1 := hm 100002
  have hm₃ := (hm 100003).trans hl₃
  obtain ⟨y₁, hy₁, hmy₁⟩ := Option.bind_eq_some_iff.mp hm₁
  obtain ⟨y₂, hy₂, hmy₂⟩ := Option.bind_eq_some_iff.mp hm₂
  have hdec : Decided .any (move s 1 3 [100002]) 100001 100002 4 .approve _ :=
    .approve hc hp (.joined hy₁ hy₂ (hmy₁.trans hmy₂.symm))
  obtain ⟨res, hrun⟩ := hdec.run (by decide)
  refine ⟨s, _, _, res, hs, ⟨c, hc, hp⟩, hcut, hrun, hl₃.trans hl₂.symm, fun hmerged => ?_⟩
  obtain ⟨⟨my, hmy⟩, -⟩ := hmerged
  have hu₁ := hmy 100001 (.inl rfl)
  have hu₃ := hmy 100003 (.inr (hl₃.trans hl₂.symm))
  rw [label_settle, hm₁] at hu₁
  rw [label_settle, hm₃] at hu₃
  exact absurd (hu₁.trans hu₃.symm) (by decide)

/-- Where the other row was read, and moved, first, the retry merges the groups. -/
theorem retry_merges_iff_twoGroups :
    ∃ s s' u res, Reached .any completeCalls .empty s ∧
      Cut (exec .any) Req.IsWrite s (applyDecision 100001 100002 .approve 3) s' ∧
      s'.label 100003 ≠ s.label 100003 ∧
      Run (exec .any) s' (applyDecision 100001 100002 .approve 4) u (.ok res) ∧
      s.label 100001 ≠ s.label 100003 ∧ Merged s u 100001 100002 := by
  obtain ⟨s, hs, htwo⟩ := reached_twoGroups
  obtain ⟨x₁, x₂, x₃, hnets, h₁, h₂, h₃⟩ := htwo.nets
  obtain ⟨hl₁, hl₂, hl₃⟩ := htwo.label
  obtain ⟨c, hc, hp⟩ := htwo.pair
  have hread : Table.Enumerates [(100001, x₁), (100003, x₃), (100002, x₂)] s.building :=
    ⟨by simp, fun n x => ((List.Perm.swap ..).cons _).mem_iff.trans (hnets.mem_iff n x)⟩
  obtain ⟨count, hsteps⟩ := htwo.steps 3 hread
  have hscan : scanned [(100001, x₁), (100003, x₃), (100002, x₂)] 2
      = [(100003, x₃)] ++ [(100002, x₂)] := by
    unfold scanned
    simp [h₁, h₂, h₃, groupLimit]
  rw [hscan] at hsteps
  set s' := move s 1 3 [100003] with hs'
  have hcut : Cut (exec .any) Req.IsWrite s (applyDecision 100001 100002 .approve 3) s' :=
    (hsteps.trans (steps_moves 2 1 count [(100003, x₃)] [(100002, x₂)])).cut (.here trivial)
  have hm : ∀ n, s'.label n = if n = 100003 then some 1 else s.label n := by
    intro n
    rw [hs', label_move]
    simp
  -- the retry finds the pair in two groups, and moves what is left
  have hmoved : ∃ x, Table.Enumerates [(100001, x₁), (100002, x₂), (100003, x)] s'.building := by
    rw [hs', move_singleton]
    have hnets' : Table.Enumerates ([(100001, x₁), (100002, x₂)] ++ [(100003, x₃)]) s.building :=
      hnets
    exact ⟨_, hnets'.upsert_old (.relabel (s.building 100003) 1 3)⟩
  obtain ⟨x, hnets'⟩ := hmoved
  have hdec : Decided .any s' 100001 100002 4 .approve _ :=
    .approve hc hp (.moved ((hnets'.mem_iff 100001 x₁).mp (by simp))
      ((hnets'.mem_iff 100002 x₂).mp (by simp)) h₁ h₂ (by decide) (lists_any hnets'))
  obtain ⟨res, hrun⟩ := hdec.run (by decide)
  have hnow : Reached .any noDecision s' s' := ⟨[], .start⟩
  have hcarried : StillCarried s s' 100001 100002 := by
    intro n hn
    unfold Store.InGroups at hn ⊢
    rw [hm n, hm 100001, hm 100002]
    by_cases h3 : n = 100003
    · subst h3
      exact .inl hl₁.symm
    · rw [if_neg h3]
      exact hn
  refine ⟨s, s', _, res, hs, hcut, by rw [hm, hl₃]; decide, hrun, by rw [hl₁, hl₃]; decide, ?_⟩
  refine ((retry_merges_iff hs hcut hnow hrun).2 hnow).mpr ⟨hcarried, ?_⟩
  intro y z _ _ _ rows hrows
  refine (List.length_filter_le ..).trans ?_
  rw [(hrows.perm hnets').length_eq]
  show 3 ≤ groupLimit
  decide

end NetBuild
