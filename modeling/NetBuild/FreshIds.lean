import NetBuild.BuildLedger
import NetBuild.Rejections

/-!
# Fresh ids

A build hands out the ids after those in `ff_net_building`. No call takes a `net_id` out of that
table, so the `net_id` of a new net was never used. An approval does take a `my_net_id` out of it:
where the group with the greatest label is absorbed, the next build hands that label out again.
-/

namespace NetBuild

open NetMerging NetMergingService Labelling
open Prog (Run)

/-! ## Ids in use -/

/-- The net is named in one of the stores, by a net, a history row or a candidate. -/
def NetIdUsed (stores : List Store) (n : ℤ) : Prop :=
  ∃ t ∈ stores, t.building n ≠ none ∨ (∃ k, t.history k ≠ none ∧ k.1 = n) ∨
    ∃ k, t.candidates k ≠ none ∧ (k.1 = n ∨ k.2 = n)

/-- The label is named in one of the stores, by a net, a history row or a snapshot. -/
def MyNetIdUsed (stores : List Store) (l : ℤ) : Prop :=
  ∃ t ∈ stores, (∃ n x, t.building n = some x ∧ x.myNetId = some l) ∨
    (∃ k x, t.history k = some x ∧ x.myNetId = some l) ∨
      ∃ k c snapshot, t.candidates k = some c ∧ c.snapshot = some snapshot ∧
        (snapshot.myNetIdA = l ∨ snapshot.myNetIdB = l)

/-- The reports tallied `new`. -/
def newOnes (folded : List (Report × Assignment)) : List (Report × Assignment) :=
  folded.filter (·.2.action = .new)

/-- The reports tallied `new` got net ids of their own that no store names. -/
def FreshNetIds (stores : List Store) (folded : List (Report × Assignment)) : Prop :=
  (∀ p ∈ newOnes folded, ¬ NetIdUsed stores p.2.netId) ∧
    ((newOnes folded).map (·.2.netId)).Nodup

/-- The reports tallied `new` got labels of their own that no store names. -/
def FreshMyNetIds (stores : List Store) (folded : List (Report × Assignment)) : Prop :=
  (∀ p ∈ newOnes folded, ¬ MyNetIdUsed stores p.2.myNetId) ∧
    ((newOnes folded).map (·.2.myNetId)).Nodup

/-- No label that was ever used is greater than all those the nets carry. -/
def TopCarried (past : List Store) (s : Store) : Prop :=
  ∀ l, MyNetIdUsed (s :: past) l → ∃ n x l', s.building n = some x ∧ x.myNetId = some l' ∧ l ≤ l'

/-- The net carried the label in one of the stores. -/
def Carried (stores : List Store) (n l : ℤ) : Prop := ∃ t ∈ stores, t.label n = some l

theorem Carried.mono {stores stores' : List Store} (h : stores ⊆ stores') {n l : ℤ}
    (hc : Carried stores n l) : Carried stores' n l := by
  obtain ⟨t, ht, hl⟩ := hc
  exact ⟨t, h ht, hl⟩

/-! ## What is recorded was carried -/

/-- Every id a store names was carried by a net at some time, and no label was passed over. -/
structure Witnessed (past : List Store) (s : Store) : Prop where
  history : ∀ k x, s.history k = some x → ∃ l, x.myNetId = some l ∧ Carried (s :: past) k.1 l
  snapshots : ∀ k c, s.candidates k = some c → ∃ snapshot, c.snapshot = some snapshot ∧
    Carried (s :: past) k.1 snapshot.myNetIdA ∧ Carried (s :: past) k.2 snapshot.myNetIdB
  downward : ∀ n l, Carried (s :: past) n l →
    myNetStart ≤ l ∧ ∀ j, myNetStart ≤ j → j ≤ l → ∃ m, Carried (s :: past) m j

section
variable {ord : ReadOrder} {G : Guard} {past : List Store} {s s' t : Store} {c : Call}

theorem witnessed_empty : Witnessed [] .empty where
  history _ _ h := nomatch h
  snapshots _ _ h := nomatch h
  downward n l h := by
    obtain ⟨t, ht, hl⟩ := h
    rw [List.mem_singleton.mp ht] at hl
    exact nomatch hl

/-- A call that lets no label appear. -/
theorem Witnessed.same (h : Witnessed past s)
    (hhist : ∀ k x, s'.history k = some x → s.history k = some x)
    (hcands : ∀ k c', s'.candidates k = some c' →
      (∃ c, s.candidates k = some c ∧ c'.snapshot = c.snapshot) ∨
        ∃ snapshot, c'.snapshot = some snapshot ∧
          s.label k.1 = some snapshot.myNetIdA ∧ s.label k.2 = some snapshot.myNetIdB)
    (hlabels : ∀ n l, s'.label n = some l → ∃ m, s.label m = some l) :
    Witnessed (s :: past) s' := by
  have hsub : s :: past ⊆ s' :: s :: past := List.subset_cons_self ..
  refine ⟨fun k x hx => ?_, fun k c' hc' => ?_, fun n l hl => ?_⟩
  · obtain ⟨l, hl, hc⟩ := h.history k x (hhist k x hx)
    exact ⟨l, hl, hc.mono hsub⟩
  · have hmem : s ∈ s' :: s :: past := hsub List.mem_cons_self
    rcases hcands k c' hc' with ⟨c, hc, he⟩ | ⟨snapshot, hsn, ha, hb⟩
    · obtain ⟨snapshot, hsn, ha, hb⟩ := h.snapshots k c hc
      exact ⟨snapshot, he.trans hsn, ha.mono hsub, hb.mono hsub⟩
    · exact ⟨snapshot, hsn, ⟨s, hmem, ha⟩, ⟨s, hmem, hb⟩⟩
  -- a label there is now is one that some net carried before
  · have hold : ∃ m, Carried (s :: past) m l := by
      obtain ⟨t, ht, hl⟩ := hl
      rcases List.mem_cons.mp ht with rfl | ht
      · obtain ⟨m, hm⟩ := hlabels n l hl
        exact ⟨m, s, List.mem_cons_self, hm⟩
      · exact ⟨n, t, ht, hl⟩
    obtain ⟨m, hm⟩ := hold
    obtain ⟨hle, hdown⟩ := h.downward m l hm
    refine ⟨hle, fun j hj hjl => ?_⟩
    obtain ⟨m', hm'⟩ := hdown j hj hjl
    exact ⟨m', hm'.mono hsub⟩

section
variable {cfg : MatchConfig} {clock : BuildClock} {s'' : Store} {res : BuildResult}
  {building : List (ℤ × Net)} {history : List (HistKey × Hist)} {reports : List Report}
  {folded : List (Report × Assignment)} {ms : Members}

/-- The labels after a build: the old ones, and one for each new net. -/
theorem BuildRun.label_iff
    (h : BuildRun ord cfg clock s s' res building history reports folded ms) (n l : ℤ) :
    s'.label n = some l ↔ s.label n = some l ∨
      (n, some l) ∈ spawned (nextNetId (startMembers building).rows)
        (nextMyNetId (startMembers building).rows) (newOnes folded).length := by
  unfold newOnes
  rw [← h.mem_ids, h.routes.ids, List.mem_append, h.mem_start_ids, List.countP_eq_length_filter]

/-- The next label is the first one or comes after one that is carried. -/
theorem BuildRun.nextMyNetId_cases
    (h : BuildRun ord cfg clock s s' res building history reports folded ms) :
    nextMyNetId (startMembers building).rows = myNetStart ∨
      ∃ n, s.label n = some (nextMyNetId (startMembers building).rows - 1) := by
  by_cases hnil : (startMembers building).rows.filterMap (·.myNetId) = []
  · left
    unfold nextMyNetId
    rw [hnil]
    rfl
  · right
    obtain ⟨m, hm, hmy⟩ := List.mem_filterMap.mp (nextId_sub_one_mem hnil)
    refine ⟨m.netId, h.mem_start_ids.mp (List.mem_map.mpr ⟨m, hm, ?_⟩)⟩
    exact Prod.ext rfl hmy

theorem Witnessed.built (h : Witnessed past s)
    (hrun : BuildRun ord cfg clock s s'' res building history reports folded ms)
    (hnets : s'.building = s''.building) (hcands : s'.candidates = s.candidates)
    (hrows : ∀ k x, s'.history k = some x →
      s.history k = some x ∨ (k, x) ∈ folded.map (histRow clock.processedAt)) :
    Witnessed (s :: past) s' := by
  have hsub : s :: past ⊆ s' :: s :: past := List.subset_cons_self ..
  have hlabel := Store.label_congr hnets
  refine ⟨fun k x hx => ?_, fun k c hc => ?_, fun n l hl => ?_⟩
  · rcases hrows k x hx with hx | hx
    · obtain ⟨l, hl, hc⟩ := h.history k x hx
      exact ⟨l, hl, hc.mono hsub⟩
    · -- the row of a report is entered with the label its net is left with
      obtain ⟨p, hp, he⟩ := List.mem_map.mp hx
      obtain ⟨rfl, rfl⟩ := Prod.mk.inj he
      obtain ⟨m, -, -, hmy, hrow⟩ := hrun.row_of_folded hp
      refine ⟨p.2.myNetId, rfl, s', List.mem_cons_self, ?_⟩
      rw [hlabel]
      exact (Store.label_of_eq_some hrow).trans hmy
  · rw [hcands] at hc
    obtain ⟨snapshot, hsn, ha, hb⟩ := h.snapshots k c hc
    exact ⟨snapshot, hsn, ha.mono hsub, hb.mono hsub⟩
  · have hold : ∀ m j, Carried (s :: past) m j → ∀ i, myNetStart ≤ i → i ≤ j →
        ∃ m', Carried (s' :: s :: past) m' i := by
      intro m j hm i hi hij
      obtain ⟨m', hm'⟩ := (h.downward m j hm).2 i hi hij
      exact ⟨m', hm'.mono hsub⟩
    have hcases : Carried (s :: past) n l ∨
        (n, some l) ∈ spawned (nextNetId (startMembers building).rows)
          (nextMyNetId (startMembers building).rows) (newOnes folded).length := by
      obtain ⟨t, ht, hl⟩ := hl
      rcases List.mem_cons.mp ht with rfl | ht
      · rw [hlabel] at hl
        exact ((hrun.label_iff n l).mp hl).imp_left fun hl => ⟨s, List.mem_cons_self, hl⟩
      · exact .inl ⟨t, ht, hl⟩
    rcases hcases with hc | hnew
    · exact ⟨(h.downward n l hc).1, hold n l hc⟩
    · obtain ⟨i, hi, he⟩ := List.mem_map.mp hnew
      obtain ⟨-, hli⟩ := Prod.mk.inj he
      have hli := Option.some.inj hli
      -- the labels below the new ones end with one that is carried
      have hbelow : myNetStart ≤ nextMyNetId (startMembers building).rows ∧
          ∀ j, myNetStart ≤ j → j < nextMyNetId (startMembers building).rows →
            ∃ m, Carried (s' :: s :: past) m j := by
        rcases hrun.nextMyNetId_cases with hfirst | ⟨m, hm⟩
        · rw [hfirst]
          exact ⟨le_refl _, fun j hj hlt => absurd hlt (not_lt.mpr hj)⟩
        · have hc : Carried (s :: past) m _ := ⟨s, List.mem_cons_self, hm⟩
          have hle := (h.downward m _ hc).1
          exact ⟨by omega, fun j hj hlt => hold m _ hc j hj (by omega)⟩
      refine ⟨by omega, fun j hj hjl => ?_⟩
      by_cases hlt : j < nextMyNetId (startMembers building).rows
      · exact hbelow.2 j hj hlt
      · obtain ⟨d, rfl⟩ : ∃ d : ℕ, j = nextMyNetId (startMembers building).rows + d :=
          ⟨(j - nextMyNetId (startMembers building).rows).toNat, by omega⟩
        refine ⟨nextNetId (startMembers building).rows + d, s', List.mem_cons_self, ?_⟩
        rw [hlabel, hrun.label_iff]
        right
        have hd : d < (newOnes folded).length := by
          have := List.mem_range.mp hi
          omega
        exact List.mem_map.mpr ⟨d, List.mem_range.mpr hd, rfl⟩

end

theorem NetMergingService.Decided.history_eq {a b : ℤ} {d : Decision} {now : Time}
    (h : Decided ord s a b now d s') : s'.history = s.history := by
  rcases h with ⟨-, -, hap⟩ | ⟨-, -⟩
  · rcases hap with ⟨-, -, -⟩ | ⟨-, -, -, -, -, -⟩
    · rfl
    · rfl
  · rfl

/-- A decision adds no label. -/
theorem NetMergingService.Decided.label_mem {a b : ℤ} {d : Decision} {now : Time}
    (h : Decided ord s a b now d s') {n l : ℤ} (hl : s'.label n = some l) :
    ∃ m, s.label m = some l := by
  rcases h with ⟨-, -, hap⟩ | ⟨-, -⟩
  · rcases hap.label_cases with ⟨-, rfl⟩ | ⟨hi, lo, all, -, hends, -, rfl⟩
    · exact ⟨n, hl⟩
    · rw [label_settle, label_move] at hl
      split at hl
      · rw [← Option.some.inj hl]
        exact hends.exists_lo
      · exact ⟨n, hl⟩
  · exact ⟨n, hl⟩

theorem NetMergingService.Decided.snapshot_eq {a b : ℤ} {d : Decision} {now : Time}
    (h : Decided ord s a b now d s') {k : PairKey} {c' : Candidate}
    (hc' : s'.candidates k = some c') :
    ∃ c, s.candidates k = some c ∧ c'.snapshot = c.snapshot := by
  obtain ⟨hcont, hnone⟩ := h.continues
  rcases hc : s.candidates k with _ | c
  · rw [hnone k hc] at hc'
    exact nomatch hc'
  · obtain ⟨c'', hc'', hlater⟩ := hcont k c hc
    rw [hc'] at hc''
    obtain rfl := Option.some.inj hc''
    refine ⟨c, rfl, ?_⟩
    rcases hlater with _ | _
    · rfl
    · rfl

/-- Every call keeps what is recorded witnessed. -/
theorem Witnessed.call (h : Witnessed past s) (hc : CallEnds ord s c s') :
    Witnessed (s :: past) s' := by
  have hsame : ∀ {t : Store}, t.history = s.history → t.candidates = s.candidates →
      t.label = s.label → Witnessed (s :: past) t := fun hh hc hl =>
    h.same (fun _ _ hx => hh ▸ hx) (fun _ c hc' => .inl ⟨c, hc ▸ hc', rfl⟩)
      fun n _ hln => ⟨n, hl ▸ hln⟩
  rcases hc with ⟨key, row⟩ | ends | ends | _ | hd
  · exact hsame rfl rfl rfl
  · rcases ends with _ | ⟨run, nets, cands, rows⟩
    · exact hsame rfl rfl rfl
    · exact h.built run nets cands rows
  · refine h.same (fun k x hx => ends.history ▸ hx) (fun k c hc => ?_)
      fun n l hl => ⟨n, Store.label_congr ends.building ▸ hl⟩
    rcases ends.added k c hc with hold | ⟨-, hnew⟩
    · exact .inl ⟨c, hold, rfl⟩
    · exact .inr hnew
  · exact hsame rfl rfl rfl
  · exact h.same (fun k x hx => hd.history_eq ▸ hx) (fun _ _ hc' => .inl (hd.snapshot_eq hc'))
      fun _ _ hl => hd.label_mem hl

theorem SeqRun.witnessed (h : SeqRun ord G .empty past s) : Witnessed past s := by
  induction h with
  | start => exact witnessed_empty
  | call before allowed run ih => exact ih.call (run_call_ends run)

/-- Every store a run passed through was reached by a run of its own. -/
theorem SeqRun.reached_past {s₀ : Store} (h : SeqRun ord G s₀ past s) (ht : t ∈ s :: past) :
    ∃ past', SeqRun ord G s₀ past' t ∧ t :: past' ⊆ s :: past := by
  induction h with
  | start =>
    obtain rfl := List.mem_singleton.mp ht
    exact ⟨[], .start, List.Subset.refl _⟩
  | @call past s s' c o before allowed run ih =>
    rcases List.mem_cons.mp ht with rfl | ht
    · exact ⟨_, .call before allowed run, List.Subset.refl _⟩
    · obtain ⟨past', ht', hsub⟩ := ih ht
      exact ⟨past', ht', List.Subset.trans hsub (List.subset_cons_self ..)⟩

/-- A net that was ever named is in `ff_net_building`. -/
theorem SeqRun.building_of_netIdUsed (h : SeqRun ord G .empty past s) {n : ℤ}
    (hn : NetIdUsed (s :: past) n) : s.building n ≠ none := by
  have hlabel : ∀ {u : Store} {m : ℤ}, s.label m ≠ none → s.building m ≠ none := by
    intro _ m hm hnone
    unfold Store.label at hm
    rw [hnone] at hm
    exact hm rfl
  have hcarried : ∀ {m l : ℤ}, Carried (s :: past) m l → s.building m ≠ none := by
    intro m l hc
    obtain ⟨u, hu, hl⟩ := hc
    obtain ⟨past', hu', hsub⟩ := h.reached_past hu
    exact hlabel (u := u) (h.label_ne_none hu (hl ▸ Option.some_ne_none l))
  obtain ⟨t, ht, hn⟩ := hn
  obtain ⟨past', ht', hsub⟩ := h.reached_past ht
  -- it was a net, the net of a history row, or one of a pair
  rcases hn with hn | ⟨k, hk, rfl⟩ | ⟨k, hk, hn⟩
  · obtain ⟨x, hx⟩ := Option.ne_none_iff_exists'.mp hn
    have hreached : Reached ord G .empty t := ⟨past', ht'⟩
    obtain ⟨l, hl⟩ := Option.ne_none_iff_exists'.mp (hreached.labelled n x hx)
    exact hcarried ⟨t, ht, (Store.label_of_eq_some hx).trans hl⟩
  · obtain ⟨x, hx⟩ := Option.ne_none_iff_exists'.mp hk
    obtain ⟨l, -, hc⟩ := ht'.witnessed.history k x hx
    exact hcarried (hc.mono hsub)
  · obtain ⟨c, hc⟩ := Option.ne_none_iff_exists'.mp hk
    obtain ⟨snapshot, -, ha, hb⟩ := ht'.witnessed.snapshots k c hc
    rcases hn with rfl | rfl
    · exact hcarried (ha.mono hsub)
    · exact hcarried (hb.mono hsub)

/-- A label that was ever named was carried by a net. -/
theorem SeqRun.myNetIdUsed_iff (h : SeqRun ord G .empty past s) (l : ℤ) :
    MyNetIdUsed (s :: past) l ↔ ∃ n, Carried (s :: past) n l := by
  refine ⟨fun hl => ?_, fun hl => ?_⟩
  · obtain ⟨t, ht, hl⟩ := hl
    obtain ⟨past', ht', hsub⟩ := h.reached_past ht
    rcases hl with ⟨n, x, hx, hl⟩ | ⟨k, x, hx, hl⟩ | ⟨k, c, snapshot, hc, hsn, hl⟩
    · exact ⟨n, t, ht, (Store.label_of_eq_some hx).trans hl⟩
    · obtain ⟨l', hl', hc⟩ := ht'.witnessed.history k x hx
      rw [hl] at hl'
      obtain rfl := Option.some.inj hl'
      exact ⟨k.1, hc.mono hsub⟩
    · obtain ⟨snapshot', hsn', ha, hb⟩ := ht'.witnessed.snapshots k c hc
      rw [hsn] at hsn'
      obtain rfl := Option.some.inj hsn'
      rcases hl with rfl | rfl
      · exact ⟨k.1, ha.mono hsub⟩
      · exact ⟨k.2, hb.mono hsub⟩
  · obtain ⟨n, t, ht, hl⟩ := hl
    obtain ⟨x, hx, hl⟩ := Option.bind_eq_some_iff.mp hl
    exact ⟨t, ht, .inl ⟨n, x, hx, hl⟩⟩

end

/-! ## The ids a build hands out -/

section
variable {ord : ReadOrder} {G : Guard} {past : List Store} {cfg : MatchConfig}
  {clock : BuildClock} {s s' : Store} {res : BuildResult} {building : List (ℤ × Net)}
  {history : List (HistKey × Hist)} {reports : List Report}
  {folded : List (Report × Assignment)} {ms : Members}

theorem BuildRun.newOnes_ne_nil
    (h : BuildRun ord cfg clock s s' res building history reports folded ms)
    (hnew : res.processed.new ≠ 0) : newOnes folded ≠ [] := by
  intro hnil
  refine hnew ?_
  rw [h.tally]
  show folded.countP (·.2.action = .new) = 0
  rw [List.countP_eq_length_filter]
  exact List.length_eq_zero_iff.mpr hnil

theorem BuildRun.newOnes_eq
    (h : BuildRun ord cfg clock s s' res building history reports folded ms) :
    (newOnes folded).map (fun p => (p.2.netId, some p.2.myNetId))
      = spawned (nextNetId (startMembers building).rows)
          (nextMyNetId (startMembers building).rows) (newOnes folded).length := by
  unfold newOnes
  rw [h.routes.newIds, List.countP_eq_length_filter]

theorem BuildRun.freshNetIds
    (h : BuildRun ord cfg clock s s' res building history reports folded ms) {stores : List Store}
    (hused : ∀ n, NetIdUsed stores n → s.building n ≠ none) : FreshNetIds stores folded := by
  have hids := congrArg (List.map Prod.fst) h.newOnes_eq
  rw [List.map_map, map_fst_spawned] at hids
  refine ⟨fun p hp hp' => ?_, ?_⟩
  · -- the next ids are all greater than those there are
    obtain ⟨x, hx⟩ := Option.ne_none_iff_exists'.mp (hused _ hp')
    have hlt : p.2.netId < nextNetId (startMembers building).rows :=
      netId_lt_nextNetId (h.mem_start hx)
    have hmem := List.mem_map_of_mem (f := Prod.fst ∘ fun p => (p.2.netId, some p.2.myNetId)) hp
    rw [hids] at hmem
    obtain ⟨i, -, hi⟩ := List.mem_map.mp hmem
    change _ = p.2.netId at hi
    omega
  · change ((newOnes folded).map (Prod.fst ∘ fun p => (p.2.netId, some p.2.myNetId))).Nodup
    rw [hids]
    exact List.nodup_range.map fun i j hij => by simpa using hij

/-- The new labels are fresh exactly when no label ever used is greater than those carried. -/
theorem BuildRun.freshMyNetIds_iff
    (h : BuildRun ord cfg clock s s' res building history reports folded ms)
    (hrun : SeqRun ord G .empty past s) (hne : newOnes folded ≠ []) :
    FreshMyNetIds (s :: past) folded ↔ TopCarried past s := by
  have hids := congrArg (List.filterMap Prod.snd) h.newOnes_eq
  rw [List.filterMap_map, filterMap_snd_spawned] at hids
  change (newOnes folded).filterMap (some ∘ fun p => p.2.myNetId) = _ at hids
  rw [List.filterMap_eq_map] at hids
  have hmem : ∀ p ∈ newOnes folded, nextMyNetId (startMembers building).rows ≤ p.2.myNetId := by
    intro p hp
    have hp' := List.mem_map_of_mem (f := fun p => p.2.myNetId) hp
    rw [hids] at hp'
    obtain ⟨i, -, hi⟩ := List.mem_map.mp hp'
    omega
  have hw := hrun.witnessed
  refine ⟨fun hfresh l hl => ?_, fun htop => ⟨fun p hp hused => ?_, ?_⟩⟩
  · obtain ⟨n, hn⟩ := (hrun.myNetIdUsed_iff l).mp hl
    obtain ⟨hle, hdown⟩ := hw.downward n l hn
    -- the first new label is not in use, so those in use are below it
    have hfirst : ∃ p ∈ newOnes folded, p.2.myNetId = nextMyNetId (startMembers building).rows := by
      have hpos : 0 < (newOnes folded).length := List.length_pos_iff.mpr hne
      have h0 : nextMyNetId (startMembers building).rows ∈ (newOnes folded).map (·.2.myNetId) := by
        rw [hids]
        exact List.mem_map.mpr ⟨0, List.mem_range.mpr hpos, by simp⟩
      exact List.mem_map.mp h0
    obtain ⟨p, hp, hpl⟩ := hfirst
    have hlt : l < nextMyNetId (startMembers building).rows := by
      by_contra hge
      have hstart : myNetStart ≤ nextMyNetId (startMembers building).rows := by
        rcases h.nextMyNetId_cases with he | ⟨m, hm⟩
        · exact he.ge
        · have := (hw.downward m _ ⟨s, List.mem_cons_self, hm⟩).1
          omega
      refine hfresh.1 p hp ((hrun.myNetIdUsed_iff _).mpr ?_)
      rw [hpl]
      exact hdown _ hstart (not_lt.mp hge)
    rcases h.nextMyNetId_cases with he | ⟨m, hm⟩
    · omega
    · obtain ⟨x, hx, hmy⟩ := Option.bind_eq_some_iff.mp hm
      exact ⟨m, x, _, hx, hmy, by omega⟩
  · obtain ⟨n, x, l', hx, hmy, hle⟩ := htop _ hused
    have hlt := myNetId_lt_nextMyNetId (h.mem_start hx) hmy
    have := hmem p hp
    omega
  · rw [hids]
    exact List.nodup_range.map fun i j hij => by simpa using hij

/-- In every run: a report tallied `new` gets a net id that was never used, and a label that was
never used exactly when no label ever used is greater than all those carried. -/
theorem new_ids_fresh_iff (h : SeqRun ord G .empty past s)
    (hrun : Run (exec ord) s (runPipeline cfg clock) s' (.ok res)) :
    ∃ building history reports folded ms,
      BuildRun ord cfg clock s s' res building history reports folded ms ∧
        FreshNetIds (s :: past) folded ∧
          (res.processed.new ≠ 0 → (FreshMyNetIds (s :: past) folded ↔ TopCarried past s)) := by
  obtain ⟨building, history, reports, folded, ms, hb⟩ := run_runPipeline hrun
  refine ⟨building, history, reports, folded, ms, hb,
    hb.freshNetIds fun _ => h.building_of_netIdUsed, fun hnew => ?_⟩
  exact hb.freshMyNetIds_iff h (hb.newOnes_ne_nil hnew)

end

/-! ## A label handed out twice -/

/-- The nets of a table after an approval moved the group `2` into the group `1`. -/
def secondAbsorbed (rows : List (ℤ × Net)) : List (ℤ × Net) :=
  rows.map fun r =>
    (r.1, if r.1 ∈ (scanned rows 2).map Prod.fst then .relabel (some r.2) 1 2 else r.2)

/-- What is written by a build over the first two of the three reports, by a detection, and by a
build over all three after the approval. -/
def reusePlan : Except PyError
    (BuildPlan × List (ℤ × ℤ × Reasons) × List (PairKey × Candidate) × BuildPlan) := do
  let p ← buildPlan {} (.still 1) [] [] (threeReports.take 2)
  let pairs ← proposePairs flatMath anywhere (fetchNets p.rows)
  let added ← pairs.mapM fun q => snapshotRow 1 (fetchNets p.rows) q.1 q.2.1 q.2.2
  let p' ← buildPlan {} (.still 3) (secondAbsorbed p.rows) p.added threeReports
  pure (p, pairs, added, p')

set_option synthInstance.maxSize 1000 in
theorem reusePlan_eq : reusePlan.map (fun x =>
    (x.1.rows.map fun r => (r.1, r.2.myNetId), x.1.added.map Prod.fst,
      x.2.2.1.map fun r => (r.1, r.2.status), x.2.2.2.tally))
    = .ok ([(100001, some 1), (100002, some 2)], [(100001, 1, 1), (100002, 1, 2)],
      [((100001, 100002), some .pending)], ⟨1, 0, 2⟩) := by
  decide +kernel

/-- What the plan computes. -/
structure Reuses (p : BuildPlan) (pairs : List (ℤ × ℤ × Reasons))
    (added : List (PairKey × Candidate)) (p' : BuildPlan) : Prop where
  first : buildPlan {} (.still 1) [] [] (threeReports.take 2) = .ok p
  proposed : proposePairs flatMath anywhere (fetchNets p.rows) = .ok pairs
  snapshots : List.Forall₂
    (fun q r => snapshotRow 1 (fetchNets p.rows) q.1 q.2.1 q.2.2 = .ok r) pairs added
  last : buildPlan {} (.still 3) (secondAbsorbed p.rows) p.added threeReports = .ok p'
  nets : ∃ x₁ x₂, p.rows = [(100001, x₁), (100002, x₂)] ∧
    x₁.myNetId = some 1 ∧ x₂.myNetId = some 2
  history : (p.added.map Prod.fst).Nodup
  pair : ∃ c, added = [((100001, 100002), c)] ∧ c.status = some .pending
  tally : p'.tally = ⟨1, 0, 2⟩

theorem exists_reuses : ∃ p pairs added p', Reuses p pairs added p' := by
  obtain ⟨⟨p, pairs, added, p'⟩, hx, hv⟩ := Except.map_eq_ok_iff.mp reusePlan_eq
  obtain ⟨hnets, hv₁⟩ := Prod.mk.inj hv
  obtain ⟨hhist, hv₂⟩ := Prod.mk.inj hv₁
  obtain ⟨hcands, htally⟩ := Prod.mk.inj hv₂
  unfold reusePlan at hx
  obtain ⟨p₁, hp, hx₁⟩ := Except.bind_eq_ok_iff.mp hx
  obtain ⟨pairs', hpairs, hx₂⟩ := Except.bind_eq_ok_iff.mp hx₁
  obtain ⟨added', hadded, hx₃⟩ := Except.bind_eq_ok_iff.mp hx₂
  obtain ⟨p₂, hp₂, hx₄⟩ := Except.bind_eq_ok_iff.mp hx₃
  obtain ⟨rfl, hx₅⟩ := Prod.mk.inj (Except.ok.inj hx₄)
  obtain ⟨rfl, hx₆⟩ := Prod.mk.inj hx₅
  obtain ⟨rfl, rfl⟩ := Prod.mk.inj hx₆
  dsimp only at hnets hhist hcands htally
  obtain ⟨⟨n₁, x₁⟩, l₁, hl₁, hr₁, hnets₁⟩ := List.map_eq_cons_iff.mp hnets
  obtain ⟨⟨n₂, x₂⟩, rfl, hr₂⟩ := List.map_eq_singleton_iff.mp hnets₁
  obtain ⟨⟨k, c⟩, hc, hck⟩ := List.map_eq_singleton_iff.mp hcands
  obtain ⟨rfl, h₁⟩ := Prod.mk.inj hr₁
  obtain ⟨rfl, h₂⟩ := Prod.mk.inj hr₂
  obtain ⟨rfl, hst⟩ := Prod.mk.inj hck
  exact ⟨p₁, pairs', added', p₂, hp, hpairs, Except.mapM_eq_ok_iff.mp hadded, hp₂,
    ⟨x₁, x₂, hl₁, h₁, h₂⟩, by rw [hhist]; decide, ⟨c, hc, hst⟩, htally⟩

section
variable {p p' : BuildPlan} {pairs : List (ℤ × ℤ × Reasons)}
  {added : List (PairKey × Candidate)}

/-- The store after the first build and the listing. -/
def twoListed (p : BuildPlan) (added : List (PairKey × Candidate)) : Store :=
  { (Store.ofReports (threeReports.take 2)).afterBuild [] p with
    candidates := Table.empty.upsertAll added }

/-- The store after the approval. -/
def secondMoved (p : BuildPlan) (added : List (PairKey × Candidate)) : Store :=
  settle (move (twoListed p added) 1 2 ((scanned p.rows 2).map Prod.fst)) (100001, 100002)
    .approved 2

theorem Reuses.enumerates (h : Reuses p pairs added p') :
    Table.Enumerates p.rows (twoListed p added).building := by
  obtain ⟨x₁, x₂, hrows, -⟩ := h.nets
  refine Table.enumerates_upsertAll ?_
  rw [hrows]
  show [(100001 : ℤ), 100002].Nodup
  decide

theorem Reuses.label_iff (h : Reuses p pairs added p') (n l : ℤ) :
    (twoListed p added).label n = some l ↔ n = 100001 ∧ l = 1 ∨ n = 100002 ∧ l = 2 := by
  obtain ⟨x₁, x₂, hrows, h₁, h₂⟩ := h.nets
  have hmem := fun n x => h.enumerates.mem_iff n x
  rw [hrows] at hmem
  refine ⟨fun hl => ?_, fun hl => ?_⟩
  · obtain ⟨x, hx, hmy⟩ := Option.bind_eq_some_iff.mp hl
    have hx' := (hmem n x).mpr hx
    rw [List.mem_cons, List.mem_singleton, Prod.mk.injEq, Prod.mk.injEq] at hx'
    rcases hx' with ⟨rfl, rfl⟩ | ⟨rfl, rfl⟩
    · exact .inl ⟨rfl, Option.some.inj (hmy.symm.trans h₁)⟩
    · exact .inr ⟨rfl, Option.some.inj (hmy.symm.trans h₂)⟩
  · rcases hl with ⟨rfl, rfl⟩ | ⟨rfl, rfl⟩
    · rw [Store.label_of_eq_some ((hmem 100001 x₁).mp (by simp)), h₁]
    · rw [Store.label_of_eq_some ((hmem 100002 x₂).mp (by simp)), h₂]

theorem Reuses.listed (h : Reuses p pairs added p') :
    ∃ past, SeqRun .any completeCalls .empty past (twoListed p added) := by
  have hreports : Reached .any completeCalls .empty (.ofReports (threeReports.take 2)) :=
    reached_ofReports (fun _ _ _ => ⟨⟨_, rfl⟩, trivial⟩) _
  obtain ⟨past, hreports⟩ := hreports
  have hnone : Lists ReadOrder.any.building [] (Store.ofReports (threeReports.take 2)).building :=
    lists_empty
  have hbuild := run_of_buildPlan hnone lists_empty (lists_ofReports (by decide)) (by decide)
    h.first
  have hbuilt := SeqRun.call hreports (c := .build {} (.still 1)) ⟨⟨_, rfl⟩, trivial⟩
    (run_build_ok_iff.mpr ⟨_, hbuild, rfl⟩)
  obtain ⟨x₁, x₂, hrows, -⟩ := h.nets
  obtain ⟨c, hc, -⟩ := h.pair
  obtain ⟨listing, hlist⟩ := run_firstListing
    (s := (Store.ofReports (threeReports.take 2)).afterBuild [] p) (lists_any h.enumerates)
    (by rw [hrows]; exact List.cons_ne_nil _ _) rfl h.proposed h.snapshots
    (by rw [hc]; exact List.nodup_singleton _)
  exact ⟨_, .call hbuilt (c := .list flatMath anywhere ⟨fun _ => 1, 1⟩) ⟨⟨_, rfl⟩, trivial⟩
    (run_list_ok_iff.mpr ⟨_, hlist, rfl⟩)⟩

theorem Reuses.length_le (h : Reuses p pairs added p') : p.rows.length ≤ groupLimit := by
  obtain ⟨x₁, x₂, hrows, -⟩ := h.nets
  rw [hrows]
  show 2 ≤ groupLimit
  decide

theorem Reuses.moved (h : Reuses p pairs added p') {past : List Store}
    (hs : SeqRun .any completeCalls .empty past (twoListed p added)) :
    SeqRun .any completeCalls .empty (twoListed p added :: past) (secondMoved p added) := by
  obtain ⟨c, hc, hp⟩ := h.pair
  have hcand : (twoListed p added).candidates (100001, 100002) = some c := by
    show (Table.empty : Table PairKey Candidate).upsertAll added _ = _
    rw [hc]
    exact Table.upsertAll_of_mem _ (List.nodup_singleton _) List.mem_cons_self
  exact hs.approve_moves h.enumerates h.length_le (by decide) hcand hp
    ((h.label_iff _ _).mpr (.inl ⟨rfl, rfl⟩)) ((h.label_iff _ _).mpr (.inr ⟨rfl, rfl⟩)) (by decide)

/-- All nets carry the label 1 then. -/
theorem Reuses.label_moved (h : Reuses p pairs added p') {n l : ℤ}
    (hl : (secondMoved p added).label n = some l) : l = 1 := by
  have hfew : FewNets (twoListed p added) := ⟨_, h.enumerates, h.length_le⟩
  have hall : Lists ReadOrder.any.building p.rows (twoListed p added).building :=
    lists_any h.enumerates
  have hlabel : (secondMoved p added).label = relabel (twoListed p added).label 2 1 :=
    label_move_scanned (hfew.groupsFit 2) hall 1 2
  rw [hlabel] at hl
  unfold relabel at hl
  split at hl
  · exact (Option.some.inj hl).symm
  · next hne =>
    rcases (h.label_iff n l).mp hl with ⟨-, rfl⟩ | ⟨rfl, rfl⟩
    · rfl
    · exact absurd hl hne

end

/-- The last build hands out the label that the approval took out of the table. -/
theorem label_handed_out_twice :
    ∃ past s s' res building history reports folded ms,
      SeqRun .any completeCalls .empty past s ∧
        Run (exec .any) s (runPipeline {} (.still 3)) s' (.ok res) ∧
          BuildRun .any {} (.still 3) s s' res building history reports folded ms ∧
            ¬ FreshMyNetIds (s :: past) folded := by
  obtain ⟨p, pairs, added, p', h⟩ := exists_reuses
  obtain ⟨past, hlisted⟩ := h.listed
  have hmoved := h.moved hlisted
  -- the third report arrives
  have hs : SeqRun .any completeCalls .empty (secondMoved p added :: twoListed p added :: past)
      { secondMoved p added with report := (Store.ofReports threeReports).report } :=
    .call hmoved (c := .insertReport _ _) ⟨⟨_, rfl⟩, trivial⟩
      (run_insertReport_iff.mpr ⟨rfl, rfl⟩)
  have hnets : Table.Enumerates (secondAbsorbed p.rows) (secondMoved p added).building :=
    enumerates_move h.enumerates 1 2 (building_ne_none_of_mem_scanned h.enumerates)
  have hhist : Table.Enumerates p.added (secondMoved p added).history :=
    Table.enumerates_upsertAll h.history
  have hrun : Run (exec .any)
      { secondMoved p added with report := (Store.ofReports threeReports).report }
      (runPipeline {} (.still 3)) _ (.ok ⟨3, p'.tally, p'.nets⟩) :=
    run_of_buildPlan (lists_any hnets) (lists_any hhist) (lists_ofReports (by decide)) (by decide)
      h.last
  obtain ⟨building, history, reports, folded, ms, hb⟩ := run_runPipeline hrun
  refine ⟨_, _, _, _, building, history, reports, folded, ms, hs, hrun, hb, fun hfresh => ?_⟩
  have hne : newOnes folded ≠ [] := hb.newOnes_ne_nil (by rw [h.tally]; exact one_ne_zero)
  -- the label 2 was carried once, and no net carries it or a greater one now
  have hused : MyNetIdUsed (_ :: secondMoved p added :: twoListed p added :: past) 2 :=
    (hs.myNetIdUsed_iff 2).mpr ⟨100002, twoListed p added, by simp,
      (h.label_iff _ _).mpr (.inr ⟨rfl, rfl⟩)⟩
  obtain ⟨n, x, l', hx, hmy, hle⟩ := (hb.freshMyNetIds_iff hs hne).mp hfresh 2 hused
  have hl : (secondMoved p added).label n = some l' := (Store.label_of_eq_some hx).trans hmy
  have := h.label_moved hl
  omega

/-- A build over two nets, both of which carry the labels they were given, hands out a third net id
and a third label. -/
theorem new_ids_fresh_iff_secondBuild :
    ∃ past s s' res building history reports folded ms,
      SeqRun .any completeCalls .empty past s ∧ (s.building 100002).isSome ∧
        BuildRun .any {} (.still 2) s s' res building history reports folded ms ∧
          newOnes folded ≠ [] ∧ FreshNetIds (s :: past) folded ∧
            FreshMyNetIds (s :: past) folded := by
  obtain ⟨p, p', h⟩ := exists_twoBuilds
  have hs := h.seqRun (G := completeCalls) (fun _ _ _ => ⟨⟨_, rfl⟩, trivial⟩)
    fun _ => ⟨⟨_, rfl⟩, trivial⟩
  obtain ⟨building, history, reports, folded, ms, hb, hnets, hmy⟩ := new_ids_fresh_iff hs h.run
  have htop : TopCarried [.builtOnce p (earlyReports ++ lateReports.take 1),
      .builtOnce p earlyReports, .ofReports earlyReports, .ofReports (earlyReports.take 1), .empty]
      (.builtOnce p (earlyReports ++ lateReports)) := by
    intro l hl
    obtain ⟨n, t, ht, hl⟩ := (hs.myNetIdUsed_iff l).mp hl
    -- the stores with nets have those of the first build
    have hlabel : (Store.builtOnce p earlyReports).label n = some l := by
      simp only [List.mem_cons, List.not_mem_nil, or_false] at ht
      rcases ht with rfl | rfl | rfl | rfl | rfl | rfl
      · exact hl
      · exact hl
      · exact hl
      · exact nomatch hl
      · exact nomatch hl
      · exact nomatch hl
    obtain ⟨x, hx, hmy⟩ := Option.bind_eq_some_iff.mp hlabel
    exact ⟨n, x, l, hx, hmy, le_rfl⟩
  have hnew : (⟨2, p'.tally, p'.nets⟩ : BuildResult).processed.new ≠ 0 := by
    rw [h.tally]
    exact one_ne_zero
  have hnet : ((Store.builtOnce p (earlyReports ++ lateReports)).building 100002).isSome := by
    refine h.enumerates.mem_keys.mp ?_
    rw [map_fst_netLine, h.nets]
    decide
  exact ⟨_, _, _, _, building, history, reports, folded, ms, hs, hnet, hb,
    hb.newOnes_ne_nil hnew, hnets, (hmy hnew).mpr htop⟩

end NetBuild
