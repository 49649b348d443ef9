import Mathlib.Algebra.BigOperators.Group.Finset.Piecewise
import Mathlib.Algebra.Order.BigOperators.Group.Finset
import Mathlib.Data.Prod.Lex
import NetBuild.CountedOnce

/-!
# Retrying a build

A build writes the nets, row by row, and then the history. One that a write fails in can be run
again safely exactly when the writes it made changed nothing that a build reads: the nets hold
the counts of the reports already, and it is the history that keeps a report from being folded
twice.
-/

namespace NetBuild

open NetMergingService
open Prog (Run Cut)

/-! ## What is promised -/

/-- Two rows of a table are always read in one order, whatever else the table holds. -/
structure ReadOrder.Fixed (ord : ReadOrder) : Prop where
  report : ∀ k k', ord.report k k' → ord.report k' k → k = k'
  building : ∀ k k', ord.building k k' → ord.building k' k → k = k'
  history : ∀ k k', ord.history k k' → ord.history k' k → k = k'
  candidates : ∀ k k', ord.candidates k k' → ord.candidates k' k → k = k'

/-- Two stores have the same rows of `ff_net_building`, but for `updated_at`. -/
def SameNets (s s' : Store) : Prop :=
  ∀ n, (s.building n).map Net.untimed = (s'.building n).map Net.untimed

/-- What a build reads of a net. -/
def Net.read (x : Net) : Option ℤ × Row := (x.myNetId, rawNet x)

/-- A build reads in `u` the nets and the history it reads in `s`. -/
structure Untouched (s u : Store) : Prop where
  nets : ∀ n, (u.building n).map Net.read = (s.building n).map Net.read
  history : u.history = s.history

/-- Every report counts something. -/
def CountsPositive (s : Store) : Prop := ∀ x : Report, s.report x.1 = some x.2 → 0 < x.2.nti.getD 0

/-! ## Builds that read the same -/

/-- The nets a build reads, as it reads them. -/
def readNets (building : List (ℤ × Net)) : List (ℤ × Option ℤ × Row) :=
  building.map fun r => (r.1, r.2.read)

theorem startMembers_eq (building : List (ℤ × Net)) :
    startMembers building =
      { cols := Col.data
        dtype := columnDtypes Col.data ((readNets building).map fun r => r.2.2)
        rows := (readNets building).map fun r =>
          { netId := r.1
            myNetId := r.2.1
            cells := storeRow ((readNets building).map fun r => r.2.2) r.2.2 } } := by
  unfold startMembers readNets
  simp only [List.map_map]
  rfl

/-- The loop sees of the nets only what a build reads of them. -/
theorem foldLoop_congr {cfg : MatchConfig} {building building' : List (ℤ × Net)}
    (h : readNets building = readNets building') (prevLog newDf : Frame) :
    foldLoop cfg building prevLog newDf = foldLoop cfg building' prevLog newDf := by
  have hload : loadMembers building = loadMembers building' := by
    have hnil : building = [] ↔ building' = [] := by
      have := congrArg List.length h
      unfold readNets at this
      rw [List.length_map, List.length_map] at this
      rw [← List.length_eq_zero_iff, this, List.length_eq_zero_iff]
    by_cases hb : building = []
    · rw [hb, hnil.mp hb]
    · rw [loadMembers_eq hb, loadMembers_eq fun hb' => hb (hnil.mpr hb'), startMembers_eq, h,
        ← startMembers_eq]
  unfold foldLoop foldStart
  rw [hload]

section
variable {ord : ReadOrder} {cfg : MatchConfig} {clock clock' : BuildClock} {s s' u u' : Store}
  {res res' : BuildResult} {building building' : List (ℤ × Net)}
  {history history' : List (HistKey × Hist)} {reports reports' : List Report}
  {folded folded' : List (Report × Assignment)} {ms ms' : Members}

/-- The nets a build leaves, but for `updated_at`, are those of its members. -/
theorem BuildRun.untimed_iff
    (h : BuildRun ord cfg clock s s' res building history reports folded ms) (n : ℤ) (x : Net) :
    (s'.building n).map Net.untimed = some x ↔
      ∃ m ∈ ms.rows, m.netId = n ∧ m.myNetId ≠ none ∧ x = (m.toNet 0).untimed := by
  rw [Option.map_eq_some_iff]
  refine ⟨fun hx => ?_, fun hx => ?_⟩
  · obtain ⟨row, hrow, rfl⟩ := hx
    obtain ⟨m, hm, hn, hmy, rfl⟩ := (h.building_iff n row).mp hrow
    exact ⟨m, hm, hn, hmy, rfl⟩
  · obtain ⟨m, hm, hn, hmy, rfl⟩ := hx
    exact ⟨_, (h.building_iff n _).mpr ⟨m, hm, hn, hmy, rfl⟩, rfl⟩

/-- Builds that read the same leave the same nets. -/
theorem BuildRun.sameNets
    (h : BuildRun ord cfg clock s s' res building history reports folded ms)
    (h' : BuildRun ord cfg clock' u u' res' building' history' reports' folded' ms')
    (hord : ord.Fixed) (hun : Untouched s u) (hrep : u.report = s.report) : SameNets u' s' := by
  have hnets : readNets building' = readNets building :=
    h'.readBuilding.map_eq h.readBuilding hord.building hun.nets
  have hhist : history' = history :=
    h'.readHistory.eq (hun.history ▸ h.readHistory) hord.history
  have hreports : reports' = reports := h'.readReports.eq (hrep ▸ h.readReports) hord.report
  -- so the two loops are one
  obtain ⟨st, hst, -, hrows⟩ := h.loop
  obtain ⟨st', hst', -, hrows'⟩ := h'.loop
  rw [hhist, hreports, foldLoop_congr hnets, hst] at hst'
  have hms : ms'.rows = ms.rows := by
    rw [← hrows, ← hrows', Except.ok.inj hst']
  intro n
  apply Option.ext
  intro x
  rw [h'.untimed_iff, h.untimed_iff, hms]

/-! ## A build that fails -/

/-- What a build has written when a write fails: some of the deletions; or all of them, and some
of the nets; or all the nets, and some of the history. -/
inductive StopsAt (clock : BuildClock) (s : Store) (building : List (ℤ × Net))
    (rows : List Member) (folded : List (Report × Assignment)) : Store → Prop
  | deleting {done rest : List ℤ} {n : ℤ}
      (keys : staleKeys building (netRows clock rows) = done ++ n :: rest) :
      StopsAt clock s building rows folded { s with building := s.building.deleteAll done }
  | inserting {done rest : List (ℤ × Net)} {r : ℤ × Net}
      (nets : netRows clock rows = done ++ r :: rest) :
      StopsAt clock s building rows folded
        { s with
          building := (s.building.deleteAll
            (staleKeys building (netRows clock rows))).upsertAll done }
  | recording {done rest : List (Report × Assignment)} {p : Report × Assignment}
      (entries : folded = done ++ p :: rest) :
      StopsAt clock s building rows folded (s.writtenBack clock building rows done)

theorem cut_deleteRows {keys : List ℤ}
    (h : Cut (exec ord) Req.IsWrite s (deleteRows keys) u) :
    ∃ done n rest, keys = done ++ n :: rest ∧
      u = { s with building := s.building.deleteAll done } := by
  obtain ⟨done, n, rest, t, rfl, hrun, hcut⟩ := Prog.cut_forM h
  obtain ⟨rfl, -⟩ := run_deleteRows.mp hrun
  refine ⟨done, n, rest, rfl, ?_⟩
  rcases cut_request_iff.mp hcut with ⟨-, rfl⟩ | ⟨_, -, hcut⟩
  · rfl
  · exact absurd hcut (Prog.not_cut_ret _)

theorem cut_insertRows {rows : List (ℤ × Net)}
    (h : Cut (exec ord) Req.IsWrite s (insertRows rows) u) :
    ∃ done r rest, rows = done ++ r :: rest ∧
      u = { s with building := s.building.upsertAll done } := by
  obtain ⟨done, r, rest, t, rfl, hrun, hcut⟩ := Prog.cut_forM h
  obtain ⟨rfl, -⟩ := run_insertRows.mp hrun
  refine ⟨done, r, rest, rfl, ?_⟩
  rcases cut_request_iff.mp hcut with ⟨-, rfl⟩ | ⟨_, -, hcut⟩
  · rfl
  · exact absurd hcut (Prog.not_cut_ret _)

theorem cut_appendHistory {now : Time}
    (h : Cut (exec ord) Req.IsWrite s
      (appendHistory now (folded.map fun p => entryOf (reportRow reports p.1) p.2)) u) :
    ∃ done p rest, folded = done ++ p :: rest ∧
      u = { s with history := s.history.upsertAll (done.map (histRow now)) } := by
  obtain ⟨done, e, rest, t, hsplit, hrun, hcut⟩ := Prog.cut_forM h
  obtain ⟨pre, post, hfolded, rfl, hpost⟩ := List.map_eq_append_iff.mp hsplit
  obtain ⟨p, tail, rfl, -, -⟩ := List.map_eq_cons_iff.mp hpost
  obtain ⟨added, hadded, rfl⟩ := run_appendHistory.mp hrun
  have hrows : added = pre.map (histRow now) := by
    rw [List.forall₂_map_left_iff] at hadded
    exact hadded.eq_map fun p _ r hr => historyRow_entryOf hr
  refine ⟨pre, p, tail, hfolded, ?_⟩
  rw [← hrows]
  rcases Prog.cut_bind_iff.mp hcut with hcut | ⟨r, t, hlift, hcut⟩
  · exact absurd hcut (Prog.not_cut_lift _)
  · obtain ⟨rfl, -⟩ := Prog.run_lift_ok_iff.mp hlift
    rcases cut_request_iff.mp hcut with ⟨-, rfl⟩ | ⟨_, -, hcut⟩
    · rfl
    · exact absurd hcut (Prog.not_cut_ret _)

theorem cut_writeBack {st : FoldState}
    (hst : st.entries = folded.map fun p => entryOf (reportRow reports p.1) p.2)
    (h : Cut (exec ord) Req.IsWrite s (writeBack clock building st) u) :
    StopsAt clock s building st.members.rows folded u := by
  unfold writeBack at h
  rcases Prog.cut_bind_iff.mp h with h | ⟨_, t, hsync, h⟩
  · rcases Prog.cut_bind_iff.mp h with h | ⟨_, t, hdel, h⟩
    · obtain ⟨done, n, rest, hkeys, rfl⟩ := cut_deleteRows h
      exact .deleting hkeys
    · obtain ⟨rfl, -⟩ := run_deleteRows.mp hdel
      obtain ⟨done, r, rest, hrows, rfl⟩ := cut_insertRows h
      exact .inserting hrows
  · obtain ⟨_, t', hdel, hins⟩ := Prog.run_bind_ok_iff.mp hsync
    obtain ⟨rfl, -⟩ := run_deleteRows.mp hdel
    obtain ⟨rfl, -⟩ := run_insertRows.mp hins
    rcases Prog.cut_bind_iff.mp h with h | ⟨_, t', happ, h⟩
    · rw [hst] at h
      obtain ⟨done, p, rest, hfolded, rfl⟩ := cut_appendHistory h
      exact .recording hfolded
    · rcases Prog.cut_bind_iff.mp h with h | ⟨nets, t', -, h⟩
      · exact absurd h (Prog.not_cut_lift _)
      · exact absurd h (Prog.not_cut_ret _)

theorem cut_finishPipeline (hb : Lists ord.building building s.building)
    (hh : Lists ord.history history s.history) (hr : Lists ord.report reports s.report)
    (h : Cut (exec ord) Req.IsWrite s
      (finishPipeline cfg clock building (loadHistory history) (fetchNewReports reports)) u) :
    ∃ folded ms t res, BuildRun ord cfg clock s t res building history reports folded ms ∧
      StopsAt clock s building ms.rows folded u := by
  have hfin : Finishes cfg clock building history reports _ := finishes hr.nodup
  generalize finishPipeline cfg clock building (loadHistory history) (fetchNewReports reports) = p
    at h hfin
  rcases hfin with ⟨rfl, rfl⟩ | e | @⟨folded, st, hst, hinv⟩
  · exact absurd h (Prog.not_cut_ret _)
  · exact absurd h (Prog.not_cut_raise _)
  · exact ⟨folded, st.members, _, _, hinv.buildRun hb hh hr hst clock.generatedAt [],
      cut_writeBack hinv.entries h⟩

/-- A build that a write fails in has read and folded as one that completes, and has stopped
somewhere on the way of writing its tables. -/
theorem cut_runPipeline (h : Cut (exec ord) Req.IsWrite s (runPipeline cfg clock) u) :
    ∃ building history reports folded ms t res,
      BuildRun ord cfg clock s t res building history reports folded ms ∧
        StopsAt clock s building ms.rows folded u := by
  unfold runPipeline at h
  rw [Prog.request_bind] at h
  rcases cut_request_iff.mp h with ⟨hw, -⟩ | ⟨building, hb, h⟩
  · exact hw.elim
  rw [Prog.request_bind] at h
  rcases cut_request_iff.mp h with ⟨hw, -⟩ | ⟨history, hh, h⟩
  · exact hw.elim
  rw [Prog.request_bind] at h
  rcases cut_request_iff.mp h with ⟨hw, -⟩ | ⟨reports, hr, h⟩
  · exact hw.elim
  obtain ⟨folded, ms, t, res, hrun, hstop⟩ := cut_finishPipeline hb hh hr h
  exact ⟨building, history, reports, folded, ms, t, res, hrun, hstop⟩

end

/-! ## Counts -/

/-- The sum of the counts of reports. -/
def totalNti (l : List Report) : ℤ := (l.map fun x => x.2.nti.getD 0).sum

theorem totalNti_nonneg {l : List Report} (h : ∀ x ∈ l, 0 < x.2.nti.getD 0) : 0 ≤ totalNti l := by
  apply List.sum_nonneg
  intro k hk
  obtain ⟨x, hx, rfl⟩ := List.mem_map.mp hk
  exact (h x hx).le

theorem eq_nil_of_totalNti {l : List Report} (h : ∀ x ∈ l, 0 < x.2.nti.getD 0)
    (h0 : totalNti l = 0) : l = [] := by
  rcases l with _ | ⟨x, l⟩
  · rfl
  · exfalso
    have hx := h x List.mem_cons_self
    have hl : 0 ≤ totalNti l := totalNti_nonneg fun y hy => h y (List.mem_cons_of_mem _ hy)
    have hsum : totalNti (x :: l) = x.2.nti.getD 0 + totalNti l := List.sum_cons
    omega

/-- Every report routed is received by one net. -/
theorem sum_received {N : Finset ℤ} {folded : List (Report × Assignment)}
    (hN : ∀ p ∈ folded, p.2.netId ∈ N) :
    ∑ n ∈ N, totalNti (received folded n) = totalNti (folded.map Prod.fst) := by
  induction folded with
  | nil => exact Finset.sum_const_zero
  | cons p l ih =>
    have hcons : ∀ n, totalNti (received (p :: l) n)
        = (if p.2.netId = n then p.1.2.nti.getD 0 else 0) + totalNti (received l n) := by
      intro n
      unfold received
      by_cases hn : p.2.netId = n
      · rw [if_pos hn, List.filter_cons_of_pos (by simpa using hn)]
        exact List.sum_cons
      · rw [if_neg hn, List.filter_cons_of_neg (by simpa using hn), zero_add]
    simp only [hcons]
    rw [Finset.sum_add_distrib, Finset.sum_ite_eq, if_pos (hN p List.mem_cons_self),
      ih fun q hq => hN q (List.mem_cons_of_mem _ hq)]
    exact List.sum_cons.symm

section
variable {ord : ReadOrder} {cfg : MatchConfig} {clock clock' : BuildClock} {s t u u' : Store}
  {res res' : BuildResult} {building building' : List (ℤ × Net)}
  {history history' : List (HistKey × Hist)} {reports reports' : List Report}
  {folded folded' : List (Report × Assignment)} {ms ms' : Members}

theorem SameNets.nti_eq (h : SameNets s t) (n : ℤ) : s.nti n = t.nti n := by
  have hnti : ∀ v : Store,
      v.nti n = (((v.building n).map Net.untimed).bind (·.fields.nti)).getD 0 := by
    intro v
    unfold Store.nti
    rcases v.building n with _ | x <;> rfl
  rw [hnti, hnti, h n]

/-- The reports a net receives count something. -/
theorem BuildRun.received_pos
    (h : BuildRun ord cfg clock s t res building history reports folded ms)
    (hpos : CountsPositive s) (n : ℤ) : ∀ x ∈ received folded n, 0 < x.2.nti.getD 0 := by
  intro x hx
  obtain ⟨a, ha, -⟩ := mem_received.mp hx
  exact hpos x ((h.mem_folded_iff x).mp ⟨a, ha⟩).1

/-- A net that received nothing reads as before. -/
theorem BuildRun.read_of_received_eq_nil
    (h : BuildRun ord cfg clock s t res building history reports folded ms) (hs : Labelled s)
    {n : ℤ} (hr : received folded n = []) :
    (t.building n).map Net.read = (s.building n).map Net.read := by
  rcases hn : s.building n with _ | x
  · rcases ht : t.building n with _ | row
    · rfl
    · -- a record that was not loaded is one that a report spawned
      obtain ⟨m, hm, rfl, -⟩ := (h.building_iff n row).mp ht
      have hstart := (h.routes.mem_of_untouched (received_eq_nil_iff.mp hr)).mp hm
      rw [rows_startMembers] at hstart
      obtain ⟨y, hy, rfl⟩ := List.mem_map.mp hstart
      have hrow : s.building y.1 = some y.2 := (h.readBuilding.mem_iff y.1 y.2).mp hy
      exact nomatch hn.symm.trans hrow
  · rw [h.building_of_received_eq_nil hs hn hr]
    show some (x.myNetId, rawNet (x.rewritten clock.updatedAt)) = some (x.myNetId, rawNet x)
    unfold rawNet Net.rewritten
    rw [cassandraRowToDfRow_clean]

/-- Where some of the nets are written, each net is as the build leaves it, or as it was. -/
theorem BuildRun.building_or
    (h : BuildRun ord cfg clock s t res building history reports folded ms)
    {done rest : List (ℤ × Net)}
    (hrows : netRows clock ms.rows = done ++ rest) (n : ℤ) :
    s.building.upsertAll done n = t.building n ∨ s.building.upsertAll done n = s.building n := by
  have hnodup : ((netRows clock ms.rows).map Prod.fst).Nodup := nodup_netRows h.nodup
  have hkeys : (done.map Prod.fst).Nodup := by
    rw [hrows, List.map_append] at hnodup
    exact hnodup.of_append_left
  by_cases hn : n ∈ done.map Prod.fst
  · left
    obtain ⟨r, hr, rfl⟩ := List.mem_map.mp hn
    have hmem : r ∈ netRows clock ms.rows := hrows ▸ List.mem_append_left _ hr
    rw [Table.upsertAll_of_mem _ hkeys hr, h.store]
    exact (Table.upsertAll_of_mem _ hnodup hmem).symm
  · exact .inr (Table.upsertAll_of_not_mem _ hn)

/-- What a build adds to the counts of some nets is what the reports routed to them count. -/
theorem BuildRun.sum_nti
    (h : BuildRun ord cfg clock s t res building history reports folded ms) (hs : Labelled s)
    {N : Finset ℤ} (hN : ∀ p ∈ folded, p.2.netId ∈ N) :
    ∑ n ∈ N, t.nti n = ∑ n ∈ N, s.nti n + totalNti (folded.map Prod.fst) := by
  rw [← sum_received hN, ← Finset.sum_add_distrib]
  exact Finset.sum_congr rfl fun n _ => h.store_nti hs n

/-- A build that fails while it writes the nets, and whose retry leaves the right counts, has
written only nets that received nothing: the retry folds every report once more. -/
theorem BuildRun.received_eq_nil_of_inserting
    (h : BuildRun ord cfg clock s t res building history reports folded ms)
    (h' : BuildRun ord cfg clock' u u' res' building' history' reports' folded' ms')
    (hs : Labelled s) (hu : Labelled u) (hpos : CountsPositive s)
    (hrouted : folded'.map Prod.fst = folded.map Prod.fst)
    (hor : ∀ n, u.building n = t.building n ∨ u.building n = s.building n)
    (hsame : SameNets u' t) {n : ℤ} (hn : u.building n = t.building n) :
    received folded n = [] := by
  have hstep : ∀ m, t.nti m = s.nti m + totalNti (received folded m) := h.store_nti hs
  have hle : ∀ m, s.nti m ≤ u.nti m := by
    intro m
    rcases hor m with hm | hm
    · have hum : u.nti m = t.nti m := by
        unfold Store.nti
        rw [hm]
      have hnonneg := totalNti_nonneg (h.received_pos hpos m)
      rw [hum, hstep]
      omega
    · have hum : u.nti m = s.nti m := by
        unfold Store.nti
        rw [hm]
      exact hum.ge
  -- the two builds fold the same reports, so that the nets count the same before them
  let N : Finset ℤ := insert n ((folded ++ folded').map (·.2.netId)).toFinset
  have hmem : ∀ p ∈ folded ++ folded', p.2.netId ∈ N := by
    intro p hp
    apply Finset.mem_insert_of_mem
    rw [List.mem_toFinset]
    exact List.mem_map_of_mem hp
  have hsum := h.sum_nti hs fun p hp => hmem p (List.mem_append_left _ hp)
  have hsum' := h'.sum_nti hu fun p hp => hmem p (List.mem_append_right _ hp)
  rw [Finset.sum_congr rfl fun m _ => hsame.nti_eq m, hrouted, hsum] at hsum'
  have heq : ∑ m ∈ N, s.nti m = ∑ m ∈ N, u.nti m := add_right_cancel hsum'
  have hnti : s.nti n = u.nti n :=
    (Finset.sum_eq_sum_iff_of_le fun m _ => hle m).mp heq n (Finset.mem_insert_self ..)
  have hun : u.nti n = t.nti n := by
    unfold Store.nti
    rw [hn]
  apply eq_nil_of_totalNti (h.received_pos hpos n)
  have := hstep n
  omega

/-- Where a build fails while it writes the history, some report it folded is not recorded. -/
theorem BuildRun.mem_folded_of_recording
    (h : BuildRun ord cfg clock s t res building history reports folded ms)
    (h' : BuildRun ord cfg clock' u u' res' building' history' reports' folded' ms')
    (hrep : u.report = s.report) {done rest : List (Report × Assignment)}
    {p : Report × Assignment} (hfolded : folded = done ++ p :: rest)
    (hhist : u.history = s.history.upsertAll (done.map (histRow clock.processedAt))) :
    ∃ a, (p.1, a) ∈ folded' := by
  have hmem : ∀ q ∈ folded, s.report q.1.1 = some q.1.2 ∧ recorded history q.1 = false :=
    fun q hq => (h.mem_folded_iff q.1).mp ⟨q.2, hq⟩
  have hp : p ∈ folded := hfolded ▸ List.mem_append_right _ List.mem_cons_self
  obtain ⟨hreport, hrec⟩ := hmem p hp
  refine (h'.mem_folded_iff p.1).mpr ⟨by rw [hrep, hreport], ?_⟩
  rw [recorded_eq_false_iff h'.readHistory]
  intro k row hrow hsig
  rw [hhist] at hrow
  rcases Table.mem_or_of_upsertAll_eq_some hrow with hnew | hold
  · -- a row written so far is that of another report
    obtain ⟨q, hq, he⟩ := List.mem_map.mp hnew
    rw [← he, histSig_histRow] at hsig
    have hqp : q.1 = p.1 :=
      eq_of_reportSig_eq (hmem q (hfolded ▸ List.mem_append_left _ hq)).1 hreport hsig
    have hnodup := h.nodup_folded
    rw [hfolded, List.map_append, List.nodup_append] at hnodup
    exact hnodup.2.2 _ (List.mem_map_of_mem hq) _ (List.mem_map_of_mem List.mem_cons_self) hqp
  · exact (recorded_eq_false_iff h.readHistory p.1).mp hrec k row hold hsig

/-! ## The retry -/

/-- A retry that leaves the right nets has read what the build that failed had read. -/
theorem BuildRun.untouched
    (h : BuildRun ord cfg clock s t res building history reports folded ms)
    (h' : BuildRun ord cfg clock' u u' res' building' history' reports' folded' ms')
    (hstop : StopsAt clock s building ms.rows folded u) (hord : ord.Fixed) (hs : Labelled s)
    (hu : Labelled u) (hpos : CountsPositive s) (hsame : SameNets u' t) : Untouched s u := by
  have hstale := h.staleKeys_eq_nil hs
  rcases hstop with hkeys | @⟨done, rest, r, hrows⟩ | @⟨done, rest, p, hfolded⟩
  · -- there is nothing to delete
    rw [hstale] at hkeys
    exact absurd hkeys.symm (List.append_ne_nil_of_right_ne_nil _ (List.cons_ne_nil _ _))
  · rw [hstale] at h' hu ⊢
    have hhist : history' = history := h'.readHistory.eq h.readHistory hord.history
    have hreports : reports' = reports := h'.readReports.eq h.readReports hord.report
    have hrouted : folded'.map Prod.fst = folded.map Prod.fst := by
      rw [h.routed, h'.routed, hhist, hreports]
    have hor : ∀ n, s.building.upsertAll done n = t.building n
        ∨ s.building.upsertAll done n = s.building n := h.building_or hrows
    refine ⟨fun n => ?_, rfl⟩
    show (s.building.upsertAll done n).map Net.read = _
    rcases hor n with hn | hn
    · rw [hn]
      exact h.read_of_received_eq_nil hs
        (h.received_eq_nil_of_inserting h' hs hu hpos hrouted hor hsame hn)
    · rw [hn]
  · -- the nets have their counts already, and the retry adds one of them again
    exfalso
    obtain ⟨a, ha⟩ := h.mem_folded_of_recording h' rfl hfolded rfl
    have hbuilding : (s.writtenBack clock building ms.rows done).building = t.building := by
      rw [h.store]
      rfl
    have hnti : (s.writtenBack clock building ms.rows done).nti a.netId = t.nti a.netId := by
      unfold Store.nti
      rw [hbuilding]
    have hadd := h'.store_nti hu a.netId
    rw [hnti, hsame.nti_eq] at hadd
    have hnil : received folded' a.netId = [] :=
      eq_nil_of_totalNti (h'.received_pos (s := s.writtenBack clock building ms.rows done) hpos _)
        (left_eq_add.mp hadd)
    exact received_eq_nil_iff.mp hnil (p.1, a) ha rfl

/-- Every row is labelled where a build of labelled nets was stopped. -/
theorem labelled_of_cut_runPipeline
    (h : Cut (exec ord) Req.IsWrite s (runPipeline cfg clock) u) (hs : Labelled s) :
    Labelled u := by
  refine h.preserves (P := Req.Labels) (fun v r x v' hr hv hex => ?_) ?_ hs
  · rw [hex.2]
    exact hv.apply hr
  · refine (always_runPipeline cfg clock).mono fun r hr => ?_
    rcases r <;> first | exact hr | trivial

theorem StopsAt.report_eq {rows : List Member} (h : StopsAt clock s building rows folded u) :
    u.report = s.report := by
  rcases h <;> rfl

/-- A build that a write fails in and that is run again leaves the nets of a build that did not
fail if what it wrote before it failed changed nothing that a build reads. With a label on every
net and a count on every report, it does so only then. -/
theorem retry_sameNets_iff {clock₀ : BuildClock} (hord : ord.Fixed)
    (hcut : Cut (exec ord) Req.IsWrite s (runPipeline cfg clock₀) u)
    (honce : Run (exec ord) s (runPipeline cfg clock) t (.ok res))
    (hretry : Run (exec ord) u (runPipeline cfg clock') u' (.ok res')) :
    (Untouched s u → SameNets u' t) ∧
      (Labelled s → CountsPositive s → (SameNets u' t ↔ Untouched s u)) := by
  obtain ⟨_, _, _, _, _, v, _, hfailed, hstop⟩ := cut_runPipeline hcut
  obtain ⟨_, _, _, _, _, hone⟩ := run_runPipeline honce
  obtain ⟨_, _, _, _, _, hagain⟩ := run_runPipeline hretry
  have hgood : Untouched s u → SameNets u' t := fun hun =>
    hone.sameNets hagain hord hun hstop.report_eq
  refine ⟨hgood, fun hs hpos => ⟨fun hsame => ?_, hgood⟩⟩
  -- the build that failed would have left the nets of the one that did not
  have hwould : SameNets t v := hfailed.sameNets hone hord ⟨fun _ => rfl, rfl⟩ rfl
  exact hfailed.untouched hagain hstop hord hs (labelled_of_cut_runPipeline hcut hs) hpos
    fun n => (hsame n).trans (hwould n)

end

/-! ## Two nets -/

/-- Tables are read in the order of their keys. -/
def ReadOrder.byKey : ReadOrder where
  report k k' := toLex k < toLex k'
  building n n' := n < n'
  history k k' := toLex (k.1, toLex k.2) < toLex (k'.1, toLex k'.2)
  candidates k k' := toLex k < toLex k'

theorem fixed_byKey : ReadOrder.byKey.Fixed where
  report _ _ h h' := absurd h' h.asymm
  building _ _ h h' := absurd h' h.asymm
  history _ _ h h' := absurd h' h.asymm
  candidates _ _ h h' := absurd h' h.asymm

section
variable {ord : ReadOrder} {cfg : MatchConfig} {clock : BuildClock} {s : Store}
  {building : List (ℤ × Net)} {history : List (HistKey × Hist)} {reports : List Report}
  {p : BuildPlan}

theorem cut_insertRows_append (done : List (ℤ × Net)) (r : ℤ × Net) (rest : List (ℤ × Net)) :
    Cut (exec ord) Req.IsWrite s (insertRows (done ++ r :: rest))
      { s with building := s.building.upsertAll done } := by
  induction done generalizing s with
  | nil => exact .here trivial
  | cons x done ih =>
    show Cut (exec ord) Req.IsWrite s
      (.call (.buildingInsert x.1 x.2) fun _ => insertRows (done ++ r :: rest)) _
    exact cut_request_iff.mpr (.inr ⟨⟨⟩, trivial, ih⟩)

/-- A build whose computation succeeds can fail at any of the nets it writes. -/
theorem cut_of_buildPlan (hb : Lists ord.building building s.building)
    (hh : Lists ord.history history s.history) (hr : Lists ord.report reports s.report)
    (hne : reports ≠ []) (h : buildPlan cfg clock building history reports = .ok p)
    {done rest : List (ℤ × Net)} {r : ℤ × Net} (hrows : p.rows = done ++ r :: rest) :
    Cut (exec ord) Req.IsWrite s (runPipeline cfg clock)
      { s with
        building := (s.building.deleteAll (staleKeys building p.rows)).upsertAll done } := by
  unfold buildPlan at h
  obtain ⟨st, hst, h⟩ := Except.bind_eq_ok_iff.mp h
  obtain ⟨rows, hout, h⟩ := Except.bind_eq_ok_iff.mp h
  obtain ⟨added, -, h⟩ := Except.bind_eq_ok_iff.mp h
  obtain ⟨nets, -, h⟩ := Except.bind_eq_ok_iff.mp h
  obtain rfl := Except.ok.inj h
  change rows = done ++ r :: rest at hrows
  unfold runPipeline
  rw [Prog.request_bind]
  refine cut_request_iff.mpr (.inr ⟨building, hb, ?_⟩)
  rw [Prog.request_bind]
  refine cut_request_iff.mpr (.inr ⟨history, hh, ?_⟩)
  rw [Prog.request_bind]
  refine cut_request_iff.mpr (.inr ⟨reports, hr, ?_⟩)
  unfold finishPipeline
  rw [if_neg fun h => hne (by rw [rows_fetchNewReports, List.map_eq_nil_iff] at h; exact h.1)]
  -- the fold and the deletions go as in a build that completes
  refine Prog.cut_bind_iff.mpr (.inr ⟨st, s, Prog.run_lift_ok_iff.mpr ⟨rfl, hst⟩, ?_⟩)
  refine Prog.cut_bind_iff.mpr (.inl ?_)
  refine Prog.cut_bind_iff.mpr (.inr ⟨rows, s, Prog.run_lift_ok_iff.mpr ⟨rfl, hout⟩, ?_⟩)
  refine Prog.cut_bind_iff.mpr (.inr ⟨⟨⟩, _, run_deleteRows.mpr ⟨rfl, rfl⟩, ?_⟩)
  show Cut (exec ord) Req.IsWrite _ (insertRows rows) _
  rw [hrows]
  exact cut_insertRows_append done r rest

theorem nti_afterBuild {l : List (ℤ × Option ℤ)}
    (h : (p.rows.map fun r => (r.1, r.2.fields.nti)) = l) (hl : (l.map Prod.fst).Nodup) {n : ℤ}
    {k : Option ℤ} (hk : (n, k) ∈ l) : (s.afterBuild building p).nti n = k.getD 0 := by
  rw [← h] at hl hk
  rw [List.map_map] at hl
  obtain ⟨r, hr, he⟩ := List.mem_map.mp hk
  obtain ⟨rfl, rfl⟩ := Prod.mk.inj he
  exact Store.nti_of_eq_some (Table.upsertAll_of_mem _ hl hr)

end

/-- What a build over two reports writes, and what its retry writes where the first of the two nets
is there. -/
def retryPlan : Except PyError (BuildPlan × BuildPlan) := do
  let p ← buildPlan {} (.still 1) [] [] (threeReports.take 2)
  let p' ← buildPlan {} (.still 2) (p.rows.take 1) [] (threeReports.take 2)
  pure (p, p')

theorem exists_retryPlan : ∃ p p' : BuildPlan,
    buildPlan {} (.still 1) [] [] (threeReports.take 2) = .ok p ∧
      buildPlan {} (.still 2) (p.rows.take 1) [] (threeReports.take 2) = .ok p' ∧
      (p.rows.map fun r => (r.1, r.2.fields.nti)) = [(100001, some 1), (100002, some 1)] ∧
      (p'.rows.map fun r => (r.1, r.2.fields.nti)) = [(100001, some 2), (100002, some 1)] := by
  have hplan : retryPlan.map (fun q => (q.1.rows.map fun r => (r.1, r.2.fields.nti),
      q.2.rows.map fun r => (r.1, r.2.fields.nti)))
      = .ok ([(100001, some 1), (100002, some 1)], [(100001, some 2), (100002, some 1)]) := by
    decide +kernel
  obtain ⟨⟨p, p'⟩, hq, hv⟩ := Except.map_eq_ok_iff.mp hplan
  obtain ⟨hrows, hrows'⟩ := Prod.mk.inj hv
  unfold retryPlan at hq
  obtain ⟨q, hp, hq⟩ := Except.bind_eq_ok_iff.mp hq
  obtain ⟨q', hp', hq⟩ := Except.bind_eq_ok_iff.mp hq
  obtain ⟨rfl, rfl⟩ := Prod.mk.inj (Except.ok.inj hq)
  exact ⟨_, _, hp, hp', hrows, hrows'⟩

theorem lists_retryReports :
    Lists ReadOrder.byKey.report (threeReports.take 2)
      (Store.ofReports (threeReports.take 2)).report := by
  refine ⟨Table.enumerates_upsertAll (by decide), ?_⟩
  show List.Pairwise (fun k k' : ReportKey => toLex k < toLex k') _
  decide

/-- The build fails at the second of two nets: the retry counts the first report twice. -/
theorem not_sameNets_of_retry :
    ¬ ∀ (ord : ReadOrder) (cfg : MatchConfig) (clock₀ clock clock' : BuildClock)
      (s u t u' : Store) (res res' : BuildResult), ord.Fixed →
        Cut (exec ord) Req.IsWrite s (runPipeline cfg clock₀) u →
          Run (exec ord) s (runPipeline cfg clock) t (.ok res) →
            Run (exec ord) u (runPipeline cfg clock') u' (.ok res') → SameNets u' t := by
  intro h
  obtain ⟨p, p', hp, hp', hrows, hrows'⟩ := exists_retryPlan
  obtain ⟨x, l, hx, -, hl⟩ := List.map_eq_cons_iff.mp hrows
  obtain ⟨y, l', rfl, -, -⟩ := List.map_eq_cons_iff.mp hl
  have hcut : Cut (exec .byKey) Req.IsWrite (.ofReports (threeReports.take 2)) _
      { Store.ofReports (threeReports.take 2) with building := Table.empty.upsertAll [x] } :=
    cut_of_buildPlan lists_empty lists_empty lists_retryReports (by decide) hp hx
  have honce := run_of_buildPlan lists_empty lists_empty lists_retryReports (by decide) hp
  rw [hx] at hp'
  have hread : Lists ReadOrder.byKey.building [x] (Table.empty.upsertAll [x]) :=
    ⟨Table.enumerates_upsertAll (List.nodup_singleton _), List.pairwise_singleton ..⟩
  have hretry := run_of_buildPlan (s := { Store.ofReports (threeReports.take 2) with
    building := Table.empty.upsertAll [x] }) hread lists_empty lists_retryReports (by decide) hp'
  have hnti := (h _ _ _ _ _ _ _ _ _ _ _ fixed_byKey hcut honce hretry).nti_eq 100001
  rw [nti_afterBuild hrows (by decide) List.mem_cons_self,
    nti_afterBuild hrows' (by decide) List.mem_cons_self] at hnti
  exact absurd hnti (by decide)

/-- A net of another station than that of the report to come. -/
def heardBefore : ℤ × Net :=
  (100001, ⟨some 1, some 1, none, .plain (.of2024 3 24 (by decide)) 1 100 ['A'], none⟩)

/-- The store with that net and the report of one more station. -/
def Store.heardAgain : Store :=
  { Store.ofReports (threeReports.drop 2) with building := Table.empty.upsertAll [heardBefore] }

/-- What a build writes there, and what its retry writes once the old net has been rewritten. -/
def heardPlan : Except PyError (BuildPlan × BuildPlan) := do
  let p ← buildPlan {} (.still 1) [heardBefore] [] (threeReports.drop 2)
  let p' ← buildPlan {} (.still 2) (p.rows.take 1) [] (threeReports.drop 2)
  pure (p, p')

theorem exists_heardPlan : ∃ p p' : BuildPlan,
    buildPlan {} (.still 1) [heardBefore] [] (threeReports.drop 2) = .ok p ∧
      buildPlan {} (.still 2) (p.rows.take 1) [] (threeReports.drop 2) = .ok p' ∧
      (p.rows.map fun r => (r.1, r.2.fields.nti, r.2.updatedAt))
        = [(100001, some 1, some 1), (100002, some 1, some 1)] := by
  have hplan : heardPlan.map (fun q => q.1.rows.map fun r => (r.1, r.2.fields.nti, r.2.updatedAt))
      = .ok [(100001, some 1, some 1), (100002, some 1, some 1)] := by
    decide +kernel
  obtain ⟨⟨p, p'⟩, hq, hrows⟩ := Except.map_eq_ok_iff.mp hplan
  unfold heardPlan at hq
  obtain ⟨q, hp, hq⟩ := Except.bind_eq_ok_iff.mp hq
  obtain ⟨q', hp', hq⟩ := Except.bind_eq_ok_iff.mp hq
  obtain ⟨rfl, rfl⟩ := Prod.mk.inj (Except.ok.inj hq)
  exact ⟨_, _, hp, hp', hrows⟩

/-- The build fails when it has rewritten the net that no report meets: the retry leaves the right
nets. -/
theorem retry_sameNets_iff_heardAgain :
    ∃ u t u' res res',
      Cut (exec .byKey) Req.IsWrite .heardAgain (runPipeline {} (.still 1)) u ∧
      u.building 100001 ≠ Store.heardAgain.building 100001 ∧
      Run (exec .byKey) .heardAgain (runPipeline {} (.still 1)) t (.ok res) ∧
      Run (exec .byKey) u (runPipeline {} (.still 2)) u' (.ok res') ∧ SameNets u' t := by
  obtain ⟨p, p', hp, hp', hrows⟩ := exists_heardPlan
  obtain ⟨x, l, hx, hxval, hl⟩ := List.map_eq_cons_iff.mp hrows
  obtain ⟨hkey, hvals⟩ := Prod.mk.inj hxval
  obtain ⟨hnti, hupdated⟩ := Prod.mk.inj hvals
  obtain ⟨y, l', rfl, hyval, hl'⟩ := List.map_eq_cons_iff.mp hl
  obtain rfl := List.map_eq_nil_iff.mp hl'
  have hbuilding : Lists ReadOrder.byKey.building [heardBefore] Store.heardAgain.building :=
    ⟨Table.enumerates_upsertAll (List.nodup_singleton _), List.pairwise_singleton ..⟩
  have hreport : Lists ReadOrder.byKey.report (threeReports.drop 2) Store.heardAgain.report :=
    ⟨Table.enumerates_upsertAll (by decide), List.pairwise_singleton ..⟩
  have hlabelled : Labelled Store.heardAgain := by
    intro n z hz
    have hmem := (hbuilding.mem_iff n z).mpr hz
    obtain ⟨rfl, rfl⟩ := Prod.mk.inj (List.mem_singleton.mp hmem)
    exact nofun
  have hpos : CountsPositive Store.heardAgain := by
    intro z hz
    have hmem : z ∈ threeReports.drop 2 := (hreport.mem_iff z.1 z.2).mpr hz
    rw [List.mem_singleton.mp hmem]
    decide
  have hcut := cut_of_buildPlan hbuilding lists_empty hreport (by decide) hp
    (show p.rows = [x] ++ y :: [] from hx)
  have honce := run_of_buildPlan hbuilding lists_empty hreport (by decide) hp
  obtain ⟨_, _, _, folded, _, hone⟩ := run_runPipeline honce
  set t := Store.heardAgain.afterBuild [heardBefore] p with ht
  have hstale : staleKeys [heardBefore] p.rows = [] := by
    rw [hx]
    simp [staleKeys, hkey, heardBefore]
  have hrewritten : (Store.heardAgain.building.deleteAll (staleKeys [heardBefore] p.rows)).upsertAll
      [x] = Table.empty.upsertAll [x] := by
    rw [hstale]
    show (Table.empty.upsert 100001 _).upsert x.1 x.2 = Table.empty.upsert x.1 x.2
    rw [hkey]
    exact Function.update_idem ..
  have htx : t.building 100001 = some x.2 := by
    rw [ht, Store.afterBuild, hx, ← hkey]
    refine Table.upsertAll_of_mem _ ?_ List.mem_cons_self
    rw [List.map_cons, List.map_singleton, hkey, (Prod.mk.inj hyval).1]
    decide
  -- the net has as many sightings as before, so that no report met it
  have hnone : received folded 100001 = [] := by
    have hsum := hone.store_nti hlabelled 100001
    rw [Store.nti_of_eq_some htx, hnti] at hsum
    have hold : Store.heardAgain.nti 100001 = 1 := rfl
    refine eq_nil_of_totalNti (hone.received_pos hpos 100001) ?_
    rw [hold] at hsum
    have hzero : (1 : ℤ) = 1 + totalNti (received folded 100001) := hsum
    omega
  have hread := hone.read_of_received_eq_nil hlabelled hnone
  rw [htx] at hread
  rw [hrewritten] at hcut
  set u : Store := { Store.heardAgain with building := Table.empty.upsertAll [x] } with hu
  have hux : u.building 100001 = some x.2 := by
    rw [← hkey]
    exact Table.upsert_self ..
  have huntouched : Untouched .heardAgain u := by
    refine ⟨fun n => ?_, rfl⟩
    by_cases hn : n = 100001
    · rw [hn, hux]
      exact hread
    · have hunew : u.building n = none := Table.upsert_of_ne _ _ (hkey ▸ hn)
      have hsnew : Store.heardAgain.building n = none := Table.upsert_of_ne _ _ hn
      rw [hunew, hsnew]
  rw [hx] at hp'
  have hagain : Lists ReadOrder.byKey.building [x] u.building :=
    ⟨Table.enumerates_upsertAll (List.nodup_singleton _), List.pairwise_singleton ..⟩
  have hretry := run_of_buildPlan hagain lists_empty hreport (by decide) hp'
  refine ⟨u, t, _, _, _, hcut, fun hsame => ?_, honce, hretry,
    ((retry_sameNets_iff fixed_byKey hcut honce hretry).2 hlabelled hpos).mpr huntouched⟩
  rw [hux] at hsame
  have hnever : x.2.updatedAt = none := congrArg Net.updatedAt (Option.some.inj hsame)
  exact nomatch hupdated.symm.trans hnever

end NetBuild
