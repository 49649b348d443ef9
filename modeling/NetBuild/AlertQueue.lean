import NetBuild.AlertList
import NetBuild.DecisionReplies

/-!
# The alert queue between two builds

A look at the queue records every pair of nets of different groups that match. Decisions only join
groups, and change nothing else that a match depends on: so until the next build the queue only
gets shorter, and what it shows are the candidates listed that were not decided since.
-/

namespace NetBuild

open NetMerging NetMergingService Views Labelling
open Prog (Run run_bind_iff run_bind_ok_iff run_ret_iff run_lift_ok_iff)

variable {ord : ReadOrder} {s s' : Store}

/-! ## What decisions change of the nets -/

/-- The nets are the same but for their groups, and nets of one group still are. -/
structure Coarsens (s s' : Store) : Prop where
  data : ∀ n, (s'.building n).map rawNet = (s.building n).map rawNet
  labels : ∀ m n, s.label m = s.label n → s'.label m = s'.label n

theorem Coarsens.refl (s : Store) : Coarsens s s := ⟨fun _ => rfl, fun _ _ h => h⟩

theorem Coarsens.trans {s'' : Store} (h : Coarsens s s') (h' : Coarsens s' s'') :
    Coarsens s s'' :=
  ⟨fun n => (h'.data n).trans (h.data n), fun m n hmn => h'.labels m n (h.labels m n hmn)⟩

theorem Coarsens.of_eq (h : s'.building = s.building) : Coarsens s s' :=
  ⟨fun n => by rw [h], fun m n hmn => by rwa [Store.label_congr h]⟩

/-- The nets that are there are the same. -/
theorem Coarsens.building_ne_none_iff (h : Coarsens s s') (n : ℤ) :
    s'.building n ≠ none ↔ s.building n ≠ none := by
  have hdata := congrArg Option.isSome (h.data n)
  rw [Option.isSome_map, Option.isSome_map] at hdata
  rw [← Option.isSome_iff_ne_none, ← Option.isSome_iff_ne_none, hdata]

/-- Moving nets that are there keeps what a match depends on. -/
theorem data_move (my : ℤ) (now : Time) {nets : List ℤ} (hnets : ∀ n ∈ nets, s.building n ≠ none)
    (n : ℤ) : ((move s my now nets).building n).map rawNet = (s.building n).map rawNet := by
  unfold NetMergingService.move
  dsimp only
  split
  · next hn =>
    obtain ⟨x, hx⟩ := Option.ne_none_iff_exists'.mp (hnets n hn)
    rw [hx]
    rfl
  · rfl

theorem NetMergingService.Approves.coarsens {a b : ℤ} {now : Time}
    (h : Approves ord s a b now s') (hfit : GroupsFit s) : Coarsens s s' := by
  rcases h.label_cases with ⟨-, rfl⟩ | ⟨hi, lo, all, -, -, hall, rfl⟩
  · exact .of_eq rfl
  · refine ⟨fun n => ?_, fun m n hmn => ?_⟩
    · exact data_move lo now (building_ne_none_of_mem_scanned hall.enumerates) n
    · rw [label_settle, label_move_scanned (hfit hi) hall]
      unfold relabel
      rw [hmn]

theorem NetMergingService.Decided.coarsens {a b : ℤ} {now : Time} {d : Decision}
    (h : Decided ord s a b now d s') (hfit : d = .approve → GroupsFit s) : Coarsens s s' := by
  rcases h with ⟨-, -, hap⟩ | ⟨-, -⟩
  · exact hap.coarsens (hfit rfl)
  · exact .of_eq rfl

/-! ## What they change of the matches -/

section
variable {M : MathFns} {cfg : MergeConfig} {rows rows' : List (ℤ × Net)}
  {pairs : List (ℤ × ℤ × Reasons)}

/-- Two readings of the nets have the same cells, if in another order. -/
theorem Coarsens.perm (h : Coarsens s s') (hrows : Lists ord.building rows s.building)
    (hrows' : Lists ord.building rows' s'.building) :
    (rows.map fun r => (r.1, rawNet r.2)).Perm (rows'.map fun r => (r.1, rawNet r.2)) := by
  have hmem : ∀ {l : List (ℤ × Net)} {t : Store}, Lists ord.building l t.building →
      ∀ r : ℤ × Row, r ∈ l.map (fun r => (r.1, rawNet r.2)) ↔
        (t.building r.1).map rawNet = some r.2 := by
    intro l t hl r
    rw [List.mem_map, Option.map_eq_some_iff]
    refine ⟨fun ⟨q, hq, hr⟩ => ?_, fun ⟨x, hx, hr⟩ => ⟨(r.1, x), (hl.mem_iff _ _).mpr hx, ?_⟩⟩
    · rw [← hr]
      exact ⟨q.2, (hl.mem_iff _ _).mp hq, rfl⟩
    · rw [hr]
  have hnodup : ∀ {l : List (ℤ × Net)} {t : Store}, Lists ord.building l t.building →
      (l.map fun r => (r.1, rawNet r.2)).Nodup := by
    intro l t hl
    refine List.Nodup.of_map Prod.fst ?_
    rw [List.map_map]
    exact hl.nodup
  rw [List.perm_ext_iff_of_nodup (hnodup hrows) (hnodup hrows')]
  intro r
  rw [hmem hrows, hmem hrows', h.data]

/-- The records of a net in two readings differ in the group only. -/
theorem Coarsens.exists_record (h : Coarsens s s') (hrows : Lists ord.building rows s.building)
    (hrows' : Lists ord.building rows' s'.building) {r' : ℤ × Net} (hr' : r' ∈ rows') :
    ∃ r ∈ rows, r.1 = r'.1 ∧ (netRecord rows r).cells = (netRecord rows' r').cells := by
  have hdata := h.data r'.1
  rw [(hrows'.mem_iff r'.1 r'.2).mp hr', Option.map_some] at hdata
  obtain ⟨x, hx, hraw⟩ := Option.map_eq_some_iff.mp hdata.symm
  have hperm : (rows.map fun r => rawNet r.2).Perm (rows'.map fun r => rawNet r.2) := by
    have hcells := (h.perm hrows hrows').map Prod.snd
    rwa [List.map_map, List.map_map] at hcells
  refine ⟨(r'.1, x), (hrows.mem_iff _ _).mpr hx, rfl, ?_⟩
  unfold netRecord storeRow
  dsimp only
  rw [hraw]
  funext c
  rw [inferDtype_perm (hperm.map (· c))]

/-- Records of different groups are compared by their cells. -/
theorem NetMerging.comparePair_congr {a b a' b' : NetRec}
    (hmy : cellEq a.myNetId b.myNetId = false) (hmy' : cellEq a'.myNetId b'.myNetId = false)
    (ha : a.netId = a'.netId ∧ a.cells = a'.cells) (hb : b.netId = b'.netId ∧ b.cells = b'.cells) :
    comparePair M cfg a b = comparePair M cfg a' b' := by
  unfold comparePair
  rw [if_neg (ne_true_of_eq_false hmy), if_neg (ne_true_of_eq_false hmy'), ha.1, ha.2, hb.1, hb.2]

/-- After groups were joined the search returns again, and finds nothing it had not found. -/
theorem Coarsens.proposePairs (h : Coarsens s s') (hlab : Labelled s')
    (hrows : Lists ord.building rows s.building) (hrows' : Lists ord.building rows' s'.building)
    (hpairs : proposePairs M cfg (fetchNets rows) = .ok pairs) :
    ∃ pairs', proposePairs M cfg (fetchNets rows') = .ok pairs' ∧ ∀ p ∈ pairs', p ∈ pairs := by
  -- two records of different groups were compared before, in the one order or the other
  have hcompared : ∀ a' b', [a', b'].Sublist (fetchNets rows') →
      cellEq a'.myNetId b'.myNetId = true ∨ ∃ a b, [a, b].Sublist (fetchNets rows) ∧
        comparePair M cfg a' b' = comparePair M cfg a b := by
    intro a' b' hs
    rw [fetchNets_eq] at hs
    obtain ⟨l, hl, hmap⟩ := List.sublist_map_iff.mp hs
    obtain ⟨r₁', l', rfl, rfl, hl'⟩ := List.map_eq_cons_iff.mp hmap.symm
    obtain ⟨r₂', rfl, rfl⟩ := List.map_eq_singleton_iff.mp hl'
    have hr₁' : r₁' ∈ rows' := hl.subset List.mem_cons_self
    have hr₂' : r₂' ∈ rows' := hl.subset (List.mem_cons_of_mem _ List.mem_cons_self)
    by_cases hmy' : r₁'.2.myNetId = r₂'.2.myNetId
    · exact .inl ((cellEq_netRecord_iff (hlab _ _ ((hrows'.mem_iff _ _).mp hr₁'))).mpr hmy')
    · refine .inr ?_
      obtain ⟨r₁, hr₁, hk₁, hc₁⟩ := h.exists_record hrows hrows' hr₁'
      obtain ⟨r₂, hr₂, hk₂, hc₂⟩ := h.exists_record hrows hrows' hr₂'
      have hlabel : ∀ {r : ℤ × Net} {l : List (ℤ × Net)} {t : Store},
          Lists ord.building l t.building → r ∈ l → t.label r.1 = r.2.myNetId := by
        intro r l t hlist hr
        unfold Store.label
        rw [(hlist.mem_iff _ _).mp hr]
        rfl
      have hmy : r₁.2.myNetId ≠ r₂.2.myNetId := by
        intro he
        apply hmy'
        rw [← hlabel hrows' hr₁', ← hlabel hrows' hr₂', ← hk₁, ← hk₂]
        apply h.labels
        rw [hlabel hrows hr₁, hlabel hrows hr₂, he]
      have hcongr : comparePair M cfg (netRecord rows' r₁') (netRecord rows' r₂')
          = comparePair M cfg (netRecord rows r₁) (netRecord rows r₂) :=
        comparePair_congr (cellEq_netRecord hmy') (cellEq_netRecord hmy) ⟨hk₁.symm, hc₁.symm⟩
          ⟨hk₂.symm, hc₂.symm⟩
      rw [hcongr]
      rcases List.pair_sublist_or hr₁ hr₂ (fun he => hmy (by rw [he])) with hs | hs
      · refine ⟨_, _, ?_, rfl⟩
        rw [fetchNets_eq]
        exact hs.map (netRecord rows)
      · refine ⟨_, _, ?_, comparePair_comm ..⟩
        rw [fetchNets_eq]
        exact hs.map (netRecord rows)
  have hok := proposePairs_ok_iff.mp ⟨pairs, hpairs⟩
  have hreturns : ∃ pairs', NetMerging.proposePairs M cfg (fetchNets rows') = .ok pairs' := by
    refine proposePairs_ok_iff.mpr fun a' b' hs => ?_
    rcases hcompared a' b' hs with hmy | ⟨a, b, hab, hcongr⟩
    · unfold comparePair
      rw [if_pos hmy]
      exact ⟨none, rfl⟩
    · rw [hcongr]
      exact hok a b hab
  obtain ⟨pairs', hpairs'⟩ := hreturns
  refine ⟨pairs', hpairs', fun p hp => ?_⟩
  obtain ⟨a', b', hs, hfound⟩ := (mem_proposePairs_iff hpairs').mp hp
  rcases hcompared a' b' hs with hmy | ⟨a, b, hab, hcongr⟩
  · unfold comparePair at hfound
    rw [if_pos hmy] at hfound
    exact nomatch hfound
  · rw [hcongr] at hfound
    exact (mem_proposePairs_iff hpairs).mpr ⟨a, b, hab, hfound⟩

end

/-! ## A look at the queue -/

section
variable {M : MathFns} {cfg : MergeConfig} {rows : List (ℤ × Net)}
  {pairs : List (ℤ × ℤ × Reasons)}

/-- The pair is pending, with this row. -/
def Store.Awaits (s : Store) (r : PairKey × Candidate) : Prop :=
  s.candidates r.1 = some r.2 ∧ r.2.status = some .pending

/-- The candidates of the reply are the pending rows. -/
theorem mem_listed_iff {clock : ListClock} {res : PendingList}
    (h : Run (exec ord) s (listPendingCandidates M cfg clock) s' (.ok res))
    (r : PairKey × Candidate) : r ∈ res.candidates ↔ s'.Awaits r := by
  obtain ⟨count, t, -, h₁⟩ := run_bind_ok_iff.mp h
  rw [Prog.request_bind] at h₁
  obtain ⟨listed, hlisted, h₂⟩ := run_request_iff.mp h₁
  obtain ⟨rfl, hres⟩ := run_ret_iff.mp h₂
  rw [Except.ok.inj hres, List.mem_filter, decide_eq_true_iff]
  exact and_congr_left fun _ => Lists.mem_iff hlisted r.1 r.2

/-- The nets are what a search that found these pairs read, but for groups that were joined, and
the pairs found are recorded. -/
structure Searched (ord : ReadOrder) (M : MathFns) (s : Store) (rows : List (ℤ × Net))
    (pairs : List (ℤ × ℤ × Reasons)) (t : Store) : Prop where
  read : Lists ord.building rows s.building
  found : proposePairs M {} (fetchNets rows) = .ok pairs
  coarsens : Coarsens s t
  labelled : Labelled t
  recorded : ∀ p ∈ pairs, t.candidates (keyOf p) ≠ none

variable {t t' : Store} {clock : ListClock} {o : Except PyError Reply}

/-- Another look finds nothing new: it returns, and writes nothing. -/
theorem Searched.look (h : Searched ord M s rows pairs t)
    (hrun : Run (exec ord) t (getCandidates M true clock) t' o) :
    t' = t ∧ ∃ res, o = .ok ⟨200, .listed res⟩ ∧ res.newlyDetected = 0 ∧
      ∀ r, r ∈ res.candidates ↔ t.Awaits r := by
  have hsearch : ∀ {rows'}, Lists ord.building rows' t.building →
      ∃ pairs', proposePairs M {} (fetchNets rows') = .ok pairs' ∧
        ∀ p ∈ pairs', t.candidates (keyOf p) ≠ none := by
    intro rows' hrows'
    obtain ⟨pairs', hpairs', hsub⟩ := h.coarsens.proposePairs h.labelled h.read hrows' h.found
    exact ⟨pairs', hpairs', fun p hp => h.recorded p (hsub p hp)⟩
  unfold getCandidates at hrun
  rw [if_neg Bool.noConfusion] at hrun
  rcases run_bind_iff.mp hrun with ⟨e, hraise, -⟩ | ⟨res, u, hlist, hret⟩
  · obtain ⟨rows', hrows', hret⟩ := run_list_returns_iff hraise
    obtain ⟨pairs', hpairs', hseen⟩ := hsearch hrows'
    obtain ⟨_, hok⟩ := hret.mpr (.inr ⟨pairs', hpairs', fun p hp hnone =>
      absurd hnone (hseen p hp)⟩)
    exact nomatch hok
  · obtain ⟨rfl, rfl⟩ := run_ret_iff.mp hret
    obtain ⟨rows', pairs', added, hdet⟩ := run_listPendingCandidates hlist
    obtain ⟨pairs'', hpairs'', hseen⟩ := hsearch hdet.read
    obtain rfl := Except.ok.inj (hdet.proposed.symm.trans hpairs'')
    have hnone : added = [] := by
      rw [← List.map_eq_nil_iff (f := Prod.fst), hdet.keys, List.filter_eq_nil_iff]
      intro k hk
      obtain ⟨p, hp, rfl⟩ := List.mem_map.mp hk
      rw [Option.isNone_iff_eq_none]
      exact hseen p hp
    have hsame : t' = t := by
      rw [hdet.store, hnone]
      rfl
    subst hsame
    exact ⟨rfl, res, rfl, by rw [hdet.count_eq, hnone]; rfl, mem_listed_iff hlist⟩

/-- A decision granted takes its pair off the queue and changes no other. -/
theorem NetMergingService.Decided.awaits_iff {a b : ℤ} {d : Decision} {now : Time}
    (h : Decided ord t a b now d t') (r : PairKey × Candidate) :
    t'.Awaits r ↔ t.Awaits r ∧ r.1 ≠ (a, b) := by
  have hsettle : ∀ (u : Store) (st : Status), u.candidates = t.candidates → st ≠ .pending →
      ((settle u (a, b) st now).Awaits r ↔ t.Awaits r ∧ r.1 ≠ (a, b)) := by
    intro u st hu hst
    unfold Store.Awaits
    rw [candidates_settle, Table.upsert_apply, hu]
    by_cases hk : r.1 = (a, b)
    · rw [if_pos hk]
      refine ⟨fun ⟨hc, hp⟩ => ?_, fun hr => absurd hk hr.2⟩
      rw [← Option.some.inj hc] at hp
      exact absurd (Option.some.inj hp) hst
    · rw [if_neg hk]
      exact ⟨fun hr => ⟨hr, hk⟩, fun hr => hr.1⟩
  rcases h with ⟨-, -, hap⟩ | ⟨-, -⟩
  · rcases hap.label_cases with ⟨-, rfl⟩ | ⟨hi, lo, all, -, -, -, rfl⟩
    · exact hsettle t _ rfl (fun h => nomatch h)
    · exact hsettle _ _ rfl (fun h => nomatch h)
  · exact hsettle t _ rfl (fun h => nomatch h)

theorem Searched.decided {a b : ℤ} {d : Decision} {now : Time}
    (h : Searched ord M s rows pairs t) (hd : Decided ord t a b now d t')
    (hfit : d = .approve → GroupsFit t) : Searched ord M s rows pairs t' :=
  ⟨h.read, h.found, h.coarsens.trans (hd.coarsens hfit), hd.labelled h.labelled, fun p hp => by
    obtain ⟨c, hc⟩ := Option.ne_none_iff_exists'.mp (h.recorded p hp)
    obtain ⟨c', hc', -⟩ := hd.continues.1 _ c hc
    rw [hc']
    exact Option.some_ne_none c'⟩

/-- The search of a look records what it finds. -/
theorem searched_of_look {res : PendingList} (hlab : Labelled s)
    (h : Run (exec ord) s (getCandidates M true clock) s' (.ok ⟨200, .listed res⟩)) :
    (∃ rows pairs, Searched ord M s' rows pairs s') ∧
      ∀ r, r ∈ res.candidates ↔ s'.Awaits r := by
  unfold getCandidates at h
  rw [if_neg Bool.noConfusion] at h
  obtain ⟨res', t, hlist, hret⟩ := run_bind_ok_iff.mp h
  obtain ⟨rfl, hres⟩ := run_ret_iff.mp hret
  obtain rfl : res = res' := by simpa using hres
  refine ⟨?_, mem_listed_iff hlist⟩
  obtain ⟨rows, pairs, added, hdet⟩ := run_listPendingCandidates hlist
  have hnets : s'.building = s.building := by rw [hdet.store]
  refine ⟨rows, pairs, hnets ▸ hdet.read, hdet.proposed, .refl _, ?_, fun p hp => ?_⟩
  · intro n x hx
    rw [hnets] at hx
    exact hlab n x hx
  · by_cases hold : s.candidates (keyOf p) = none
    · have hk : keyOf p ∈ added.map Prod.fst := by
        rw [hdet.keys, List.mem_filter, Option.isNone_iff_eq_none]
        exact ⟨List.mem_map_of_mem hp, hold⟩
      obtain ⟨r, hr, hkey⟩ := List.mem_map.mp hk
      rw [(hdet.candidates_iff (keyOf p) r.2).mpr (.inr ⟨hkey ▸ hr, hold⟩)]
      exact Option.some_ne_none _
    · obtain ⟨c, hc⟩ := Option.ne_none_iff_exists'.mp hold
      rw [(hdet.candidates_iff (keyOf p) c).mpr (.inl hc)]
      exact Option.some_ne_none _

end

/-! ## Until the next build -/

/-- A request that is no build; where it approves, the groups fit in the group scan, and where it
looks at the queue, it does so with the same functions. -/
def Views.ApiCall.Quiet (M : MathFns) (s : Store) : ApiCall → Prop
  | .build _ _ => False
  | .candidates M' _ _ => M' = M
  | .approve _ _ _ => GroupsFit s
  | .reject _ _ _ => True

/-- Requests that are no builds, and the exchanges, the latest first. Reports may arrive. -/
inductive QuietRun (ord : ReadOrder) (M : MathFns) (s : Store) : List Exchange → Store → Prop
  | start : QuietRun ord M s [] s
  | reports {log : List Exchange} {t : Store} (before : QuietRun ord M s log t)
      (report : Table ReportKey Fields) : QuietRun ord M s log { t with report := report }
  | call {log : List Exchange} {t t' : Store} {c : ApiCall} {o : Except PyError Reply}
      (before : QuietRun ord M s log t) (quiet : c.Quiet M t)
      (run : Run (exec ord) t c.prog t' o) : QuietRun ord M s ((c, o) :: log) t'

section
variable {M : MathFns} {rows : List (ℤ × Net)} {pairs : List (ℤ × ℤ × Reasons)} {t t' : Store}
  {log : List Exchange} {c : ApiCall} {o : Except PyError Reply}

/-- The pairs on the queue are those that were on it and were not decided since. -/
def Shrinks (log : List Exchange) (s t : Store) : Prop :=
  ∀ r, t.Awaits r ↔ s.Awaits r ∧ ∀ e ∈ log, ∀ d, ¬ e.Grants r.1 d

theorem Shrinks.cons_of_not_granted (h : Shrinks log s t) (ht : t' = t)
    (ho : ∀ res, o ≠ .ok ⟨200, .decided res⟩) : Shrinks ((c, o) :: log) s t' := by
  intro r
  rw [ht, h r, List.forall_mem_cons]
  exact and_congr_right fun _ => (and_iff_right (not_grants ho r.1)).symm

theorem Shrinks.cons_of_granted (h : Shrinks log s t) {a b : ℤ} {d : Decision} {now : Time}
    {res : DecisionResult} (hd : Decided ord t a b now d t')
    (hkey : (res.netA, res.netB) = (a, b)) :
    Shrinks ((c, .ok ⟨200, .decided res⟩) :: log) s t' := by
  intro r
  rw [hd.awaits_iff, h r, List.forall_mem_cons]
  have hgrants : (∀ d', ¬ Exchange.Grants (c, .ok ⟨200, .decided res⟩) r.1 d') ↔ r.1 ≠ (a, b) := by
    simp only [grants_iff, hkey, not_and]
    exact ⟨fun hnot hk => hnot res.decision hk.symm rfl, fun hk _ he => absurd he.symm hk⟩
  rw [hgrants]
  tauto

/-- What a request that is no build preserves. -/
theorem Searched.call (h : Searched ord M s rows pairs t) (hlog : Shrinks log s t)
    (hq : c.Quiet M t) (hrun : Run (exec ord) t c.prog t' o) :
    Searched ord M s rows pairs t' ∧ Shrinks ((c, o) :: log) s t' := by
  have hdecide : ∀ {d ready pk now}, (d = .approve → GroupsFit t) →
      Run (exec ord) t (decisionPost d ready pk now) t' o →
        Searched ord M s rows pairs t' ∧ Shrinks ((c, o) :: log) s t' := by
    intro d ready pk now hfit hpost
    rcases run_decisionPost hpost with ⟨res, a, b, rfl, hkey, -, hdec⟩ | ⟨rfl, ho⟩
    · exact ⟨h.decided hdec hfit, hlog.cons_of_granted hdec hkey⟩
    · exact ⟨h, hlog.cons_of_not_granted rfl fun res hres => ho _ hres rfl⟩
  rcases c with ⟨ready, clock⟩ | ⟨M', ready, clock⟩ | ⟨ready, pk, now⟩ | ⟨ready, pk, now⟩
  · exact hq.elim
  · obtain rfl : M' = M := hq
    rcases ready with _ | _
    · obtain ⟨rfl, rfl⟩ := run_ret_iff.mp hrun
      exact ⟨h, hlog.cons_of_not_granted rfl fun _ h => nomatch h⟩
    · obtain ⟨rfl, res, rfl, -⟩ := h.look hrun
      exact ⟨h, hlog.cons_of_not_granted rfl fun _ h => nomatch h⟩
  · exact hdecide (fun _ => hq) hrun
  · exact hdecide (d := .reject) (fun h => nomatch h) hrun

theorem QuietRun.searched (hrun : QuietRun ord M s log t) (h : Searched ord M s rows pairs s) :
    Searched ord M s rows pairs t ∧ Shrinks log s t := by
  induction hrun with
  | start => exact ⟨h, fun r => ⟨fun hr => ⟨hr, fun _ he => absurd he List.not_mem_nil⟩, And.left⟩⟩
  | reports _ report ih => exact ⟨⟨ih.1.read, ih.1.found, ih.1.coarsens.trans (.of_eq rfl),
      ih.1.labelled, ih.1.recorded⟩, ih.2⟩
  | call _ quiet run ih => exact ih.1.call ih.2 quiet run

/-- After a look at the queue, and until the next build, whatever else is requested: another look
detects nothing and writes nothing, and it shows the candidates the first one showed less those
that a decision was granted for since. -/
theorem queue_only_shrinks {before since : List Exchange} {s₁ s₂ s₃ : Store}
    {clock clock' : ListClock} {res : PendingList} (h : ApiRun ord before s)
    (hlook : Run (exec ord) s (getCandidates M true clock) s₁ (.ok ⟨200, .listed res⟩))
    (hquiet : QuietRun ord M s₁ since s₂)
    (hnext : Run (exec ord) s₂ (getCandidates M true clock') s₃ o) :
    s₃ = s₂ ∧ ∃ res', o = .ok ⟨200, .listed res'⟩ ∧ res'.newlyDetected = 0 ∧
      ∀ r, r ∈ res'.candidates ↔ r ∈ res.candidates ∧ ∀ e ∈ since, ∀ d, ¬ e.Grants r.1 d := by
  obtain ⟨⟨rows, pairs, hsearched⟩, hlisted⟩ := searched_of_look h.anchored.labelled hlook
  obtain ⟨hsearched', hshrinks⟩ := hquiet.searched hsearched
  obtain ⟨hsame, res', ho, hnew, hlisted'⟩ := hsearched'.look hnext
  refine ⟨hsame, res', ho, hnew, fun r => ?_⟩
  rw [hlisted', hlisted]
  exact hshrinks r

/-- A search can be made again from any listing of the tables. -/
theorem Searched.exists_look (h : Searched ord M s rows pairs t) (clock : ListClock)
    {rows' : List (ℤ × Net)} {seen : List (PairKey × Candidate)} (hne : rows' ≠ [])
    (hrows' : Lists ord.building rows' t.building)
    (hseen : Lists ord.candidates seen t.candidates) :
    ∃ o, Run (exec ord) t (getCandidates M true clock) t o := by
  obtain ⟨pairs', hpairs', hsub⟩ := h.coarsens.proposePairs h.labelled h.read hrows' h.found
  have hfresh : pairs'.filter (fun p => keyOf p ∉ existingPairs seen) = [] := by
    refine List.filter_eq_nil_iff.mpr fun p hp hnew => ?_
    have hkey : keyOf p ∈ seen.map Prod.fst :=
      hseen.mem_keys.mpr (Option.isSome_iff_ne_none.mpr (h.recorded p (hsub p hp)))
    exact of_decide_eq_true hnew hkey
  have hlisting : ∃ res, Run (exec ord) t (listPendingCandidates M {} clock)
      { t with candidates := t.candidates.upsertAll [] } (.ok res) :=
    run_of_proposePairs hrows' hne hseen hpairs' (by rw [hfresh]; exact .nil) hseen
  obtain ⟨res, hlist⟩ := hlisting
  exact ⟨_, run_bind_iff.mpr (.inr ⟨res, t, hlist, .ret _ _⟩)⟩

end

/-- A pair that was rejected is not shown again. -/
theorem queue_only_shrinks_spotNets :
    ∃ s₁ s₂ o, SpotNets s₁ ∧ Run (exec .any) s₂ (getCandidates flatMath true ⟨fun _ => 2, 2⟩) s₂ o ∧
      ∃ res, o = .ok ⟨200, .listed res⟩ ∧ res.candidates = [] := by
  obtain ⟨log, s, s₁, res, hs, hspot, hlook⟩ := apiRun_spotLook
  obtain ⟨done, hkey, hdec, hrun⟩ := hspot.rejects
  have hquiet : QuietRun .any flatMath s₁ [(.reject true (some (pairPath 100001 100002)) 2, _)] _ :=
    QuietRun.start.call (c := .reject true (some (pairPath 100001 100002)) 2) trivial hrun
  obtain ⟨c, hc, hp⟩ := hspot.pair
  obtain ⟨x₁, x₂, hnets⟩ := hspot.nets
  have hledger : Table.Enumerates ([] ++ [((100001, 100002), c)]) s₁.candidates := hc
  -- the next look
  obtain ⟨⟨rows, pairs, hsearched⟩, hlisted⟩ := searched_of_look hs.anchored.labelled hlook
  obtain ⟨o, hnext⟩ := (hquiet.searched hsearched).1.exists_look ⟨fun _ => 2, 2⟩
    (List.cons_ne_nil _ _) (lists_any hnets) (lists_any (hledger.upsert_old _))
  obtain ⟨-, res', ho, -, hmem⟩ := queue_only_shrinks hs hlook hquiet hnext
  refine ⟨s₁, _, o, hspot, hnext, res', ho, List.eq_nil_iff_forall_not_mem.mpr fun r hr => ?_⟩
  obtain ⟨hr₁, hnot⟩ := (hmem r).mp hr
  have hpair : r.1 = (100001, 100002) := by
    have hrow := (hc.mem_iff r.1 r.2).mpr ((hlisted r).mp hr₁).1
    exact congrArg Prod.fst (List.mem_singleton.mp hrow)
  exact hnot _ List.mem_cons_self .reject ⟨done, rfl, hkey.trans hpair.symm, hdec⟩

end NetBuild
