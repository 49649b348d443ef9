import NetBuild.ApprovalRetry

/-!
# Calls, however they end

A call may raise after some of its writes. A build that raises has written nothing, or all its
nets and the first of its history rows; a listing that raises has recorded the first of its
pairs; a decision that raises has written nothing. What holds of the labels and of the ledger in
every run, whatever the outcomes, follows from this.
-/

namespace NetBuild

open NetMerging NetMergingService Labelling
open Prog (Run request lift run_bind_iff run_ret_iff run_raise_iff run_lift_ok_iff)

variable {ord : ReadOrder} {s s' : Store}

/-! ## Builds -/

/-- What a build has written when it ends. -/
inductive BuildEnds (ord : ReadOrder) (cfg : MatchConfig) (clock : BuildClock) (s : Store) :
    Store → Prop
  | early : BuildEnds ord cfg clock s s
  | wrote {s' s'' : Store} {res : BuildResult} {building : List (ℤ × Net)}
      {history : List (HistKey × Hist)} {reports : List Report}
      {folded : List (Report × Assignment)} {ms : Members}
      (run : BuildRun ord cfg clock s s'' res building history reports folded ms)
      (nets : s'.building = s''.building) (candidates : s'.candidates = s.candidates)
      (rows : ∀ k x, s'.history k = some x →
        s.history k = some x ∨ (k, x) ∈ folded.map (histRow clock.processedAt)) :
      BuildEnds ord cfg clock s s'

/-- The request inserts one of the history rows. -/
def Req.Enters (rows : List (HistKey × Hist)) : Req → Prop
  | .historyInsert k x => (k, x) ∈ rows
  | _ => False

theorem always_enters {reports : List Report} {folded : List (Report × Assignment)} (now : Time) :
    (appendHistory now (folded.map fun p => entryOf (reportRow reports p.1) p.2)).Always
      (Req.Enters (folded.map (histRow now))) := by
  refine Prog.always_forM fun e he => ?_
  obtain ⟨p, hp, rfl⟩ := List.mem_map.mp he
  refine Prog.Always.lift_bind fun r hr => ⟨?_, fun _ => trivial⟩
  obtain rfl := historyRow_entryOf hr
  exact List.mem_map_of_mem hp

/-- Entering some rows changes nothing but the history, and that by these rows. -/
theorem run_enters {α : Type} {rows : List (HistKey × Hist)} {p : Client α}
    {o : Except PyError α} (hp : p.Always (Req.Enters rows)) (h : Run (exec ord) s p s' o) :
    s'.building = s.building ∧ s'.candidates = s.candidates ∧
      ∀ k x, s'.history k = some x → s.history k = some x ∨ (k, x) ∈ rows := by
  refine h.preserves (I := fun t => t.building = s.building ∧ t.candidates = s.candidates ∧
    ∀ k x, t.history k = some x → s.history k = some x ∨ (k, x) ∈ rows)
    (fun t r x t' hr ht hex => ?_) hp ⟨rfl, rfl, fun _ _ => .inl⟩
  rw [hex.2]
  rcases r with _ | _ | _ | _ | _ | _ | _ | _ | _ | ⟨k, row⟩ | _ | _ | _ | _
  case historyInsert =>
    refine ⟨ht.1, ht.2.1, fun k' x' hx' => ?_⟩
    change t.history.upsert k row k' = some x' at hx'
    rw [Table.upsert_apply] at hx'
    split at hx'
    · next hk =>
      rw [hk, ← Option.some.inj hx']
      exact .inr hr
    · exact ht.2.2 k' x' hx'
  all_goals exact hr.elim

theorem run_build_ends {cfg : MatchConfig} {clock : BuildClock} {o : Except PyError BuildResult}
    (h : Run (exec ord) s (runPipeline cfg clock) s' o) : BuildEnds ord cfg clock s s' := by
  unfold runPipeline at h
  rw [Prog.request_bind] at h
  obtain ⟨building, hb, h₁⟩ := run_request_iff.mp h
  rw [Prog.request_bind] at h₁
  obtain ⟨history, hh, h₂⟩ := run_request_iff.mp h₁
  rw [Prog.request_bind] at h₂
  obtain ⟨reports, hr, h₃⟩ := run_request_iff.mp h₂
  change Run (exec ord) s _ _ _ at h₃
  have hfin : Finishes cfg clock building history reports _ := finishes (Lists.nodup hr)
  generalize finishPipeline cfg clock building (loadHistory history) (fetchNewReports reports) = p
    at h₃ hfin
  rcases hfin with ⟨rfl, rfl⟩ | e | @⟨folded, st, hst, hinv⟩
  · rw [(run_ret_iff.mp h₃).1]
    exact .early
  · rw [(run_raise_iff.mp h₃).1]
    exact .early
  · have hrun : BuildRun ord cfg clock s _ ⟨0, st.tally, []⟩ building history reports folded
        st.members := hinv.buildRun hb hh hr hst 0 []
    unfold writeBack at h₃
    rcases run_bind_iff.mp h₃ with ⟨e, hsync, -⟩ | ⟨_, s₁, hsync, h₄⟩
    · -- the writes of the nets do not raise
      exfalso
      rcases run_bind_iff.mp hsync with ⟨e', hdel, -⟩ | ⟨_, s₂, hdel, hins⟩
      · exact nomatch (run_deleteRows.mp hdel).2
      · exact nomatch (run_insertRows.mp hins).2
    · rcases run_bind_iff.mp hsync with ⟨e', -, he⟩ | ⟨_, s₂, hdel, hins⟩
      · exact nomatch he
      · obtain rfl := (run_deleteRows.mp hdel).1
        obtain rfl := (run_insertRows.mp hins).1
        have hrest : (appendHistory clock.processedAt st.entries >>= fun _ =>
            lift (hierarchyToJson (hierOf clock.sortValues st Col.data)) >>= fun nets =>
              Prog.ret (⟨clock.generatedAt, st.tally, nets⟩ : BuildResult)).Always
            (Req.Enters (folded.map (histRow clock.processedAt))) := by
          rw [hinv.entries]
          exact (always_enters _).bind fun _ => (Prog.always_lift _ _).bind fun _ => trivial
        obtain ⟨hnets, hcands, hrows⟩ := run_enters hrest h₄
        exact .wrote hrun hnets hcands hrows

/-! ## Listings -/

/-- What a listing has recorded when it ends: pending pairs that had no row, with the labels of
their nets. -/
structure ListEnds (s s' : Store) : Prop where
  building : s'.building = s.building
  history : s'.history = s.history
  kept : ∀ k c, s.candidates k = some c → s'.candidates k = some c
  added : ∀ k c, s'.candidates k = some c → s.candidates k = some c ∨
    c.status = some .pending ∧ ∃ snapshot, c.snapshot = some snapshot ∧
      s.label k.1 = some snapshot.myNetIdA ∧ s.label k.2 = some snapshot.myNetIdB

/-- The request records a pending pair of nets of `s` that has no row there. -/
def Req.Records (s : Store) : Req → Prop
  | .buildingFindAll | .candidatesFindAll => True
  | .candidatesInsert k c => s.candidates k = none ∧ c.status = some .pending ∧
    ∃ snapshot, c.snapshot = some snapshot ∧
      s.label k.1 = some snapshot.myNetIdA ∧ s.label k.2 = some snapshot.myNetIdB
  | _ => False

/-- The label a snapshot takes from a record is the one of its row. -/
theorem label_of_netById {rows : List (ℤ × Net)} (hrows : Lists ord.building rows s.building)
    {n my : ℤ} {r : NetRec} (hr : netById (fetchNets rows) n = .ok r)
    (hmy : intOf r.myNetId = .ok my) : s.label n = some my := by
  have hmem : r ∈ fetchNets rows ∧ r.netId = n := by
    unfold netById at hr
    split at hr
    · next x hx =>
      obtain rfl := Except.ok.inj hr
      exact ⟨List.mem_reverse.mp (List.mem_of_find?_eq_some hx),
        by simpa using List.find?_some hx⟩
    · exact nomatch hr
  obtain ⟨hr₁, rfl⟩ := hmem
  rw [fetchNets_eq] at hr₁
  obtain ⟨x, hx, rfl⟩ := List.mem_map.mp hr₁
  -- the frame of the nets does not change the number of a label
  have hcell : (myNetIdCell x.2).pyInt = some my := by
    unfold intOf at hmy
    rw [← Cell.pyInt_congr (Dtype.val_store (inferDtype (rows.map fun r => myNetIdCell r.2)) _)]
    split at hmy
    · next m hm => rw [← Except.ok.inj hmy]; exact hm
    · exact nomatch hmy
  show s.label x.1 = _
  rw [Store.label_of_eq_some ((hrows.mem_iff x.1 x.2).mp hx)]
  unfold myNetIdCell at hcell
  rcases hl : x.2.myNetId with _ | l
  · rw [hl] at hcell
    exact nomatch hcell
  · rw [hl] at hcell
    exact hcell

/-- A snapshot is pending and has the labels of its nets. -/
theorem snapshotRow_labels {rows : List (ℤ × Net)} (hrows : Lists ord.building rows s.building)
    {now : Time} {a b : ℤ} {reasons : Reasons} {r : PairKey × Candidate}
    (h : snapshotRow now (fetchNets rows) a b reasons = .ok r) :
    r.1 = (a, b) ∧ r.2.status = some .pending ∧ ∃ snapshot, r.2.snapshot = some snapshot ∧
      s.label a = some snapshot.myNetIdA ∧ s.label b = some snapshot.myNetIdB := by
  unfold snapshotRow at h
  obtain ⟨ra, ha, h⟩ := Except.bind_eq_ok_iff.mp h
  obtain ⟨rb, hb, h⟩ := Except.bind_eq_ok_iff.mp h
  obtain ⟨myA, hmyA, h⟩ := Except.bind_eq_ok_iff.mp h
  obtain ⟨myB, hmyB, h⟩ := Except.bind_eq_ok_iff.mp h
  obtain ⟨_, -, h⟩ := Except.bind_eq_ok_iff.mp h
  obtain ⟨_, -, h⟩ := Except.bind_eq_ok_iff.mp h
  obtain ⟨_, -, h⟩ := Except.bind_eq_ok_iff.mp h
  obtain ⟨_, -, h⟩ := Except.bind_eq_ok_iff.mp h
  obtain ⟨_, -, h⟩ := Except.bind_eq_ok_iff.mp h
  obtain ⟨_, -, h⟩ := Except.bind_eq_ok_iff.mp h
  obtain rfl := Except.ok.inj h
  exact ⟨rfl, rfl, _, rfl, label_of_netById hrows ha hmyA, label_of_netById hrows hb hmyB⟩

theorem always_records {clock : ListClock}
    {rows : List (ℤ × Net)} (hrows : Lists ord.building rows s.building)
    {seen : List (PairKey × Candidate)} (hseen : Lists ord.candidates seen s.candidates)
    {pairs : List (ℤ × ℤ × Reasons)} :
    (insertCandidates clock.detectedAt (fetchNets rows)
      (pairs.filter fun (a, b, _) => (a, b) ∉ existingPairs seen)).Always (Req.Records s) := by
  refine Prog.always_forM fun p hp => ?_
  obtain ⟨a, b, reasons⟩ := p
  refine Prog.Always.lift_bind fun r hr => ⟨?_, fun _ => trivial⟩
  obtain ⟨hk, hst, snapshot, hsn, ha, hb⟩ := snapshotRow_labels hrows hr
  have hfresh := of_decide_eq_true (List.mem_filter.mp hp).2
  have hnone : s.candidates (a, b) = none := by
    rw [← Option.not_isSome_iff_eq_none, ← hseen.mem_keys]
    exact hfresh
  unfold Req.Records
  rw [hk]
  exact ⟨hnone, hst, snapshot, hsn, ha, hb⟩

theorem run_records {α : Type} {p : Client α} {o : Except PyError α} {s₀ : Store}
    (hp : p.Always (Req.Records s)) (h₀ : ListEnds s s₀) (h : Run (exec ord) s₀ p s' o) :
    ListEnds s s' := by
  refine h.preserves (I := ListEnds s) (fun t r x t' hr ht hex => ?_) hp h₀
  rw [hex.2]
  rcases r with _ | _ | _ | _ | _ | _ | _ | _ | _ | _ | _ | _ | ⟨k, c⟩ | _
  case buildingFindAll => exact ht
  case candidatesFindAll => exact ht
  case candidatesInsert =>
    obtain ⟨hnone, hadded⟩ := hr
    refine ⟨ht.building, ht.history, fun k' c' hc' => ?_, fun k' c' hc' => ?_⟩
    · show t.candidates.upsert k c k' = _
      rw [Table.upsert_of_ne, ht.kept k' c' hc']
      intro he
      rw [he, hnone] at hc'
      exact nomatch hc'
    · change t.candidates.upsert k c k' = some c' at hc'
      rw [Table.upsert_apply] at hc'
      split at hc'
      · next hk =>
        rw [hk, ← Option.some.inj hc']
        exact .inr hadded
      · exact ht.added k' c' hc'
  all_goals exact hr.elim

theorem ListEnds.refl (s : Store) : ListEnds s s :=
  ⟨rfl, rfl, fun _ _ h => h, fun _ _ h => .inl h⟩

theorem run_list_ends {M : MathFns} {cfg : MergeConfig} {clock : ListClock}
    {o : Except PyError PendingList}
    (h : Run (exec ord) s (listPendingCandidates M cfg clock) s' o) : ListEnds s s' := by
  -- what follows the detection only reads
  suffices hdet : ∀ {t : Store} {o : Except PyError ℕ},
      Run (exec ord) s (detectNewCandidates M cfg clock.detectedAt) t o → ListEnds s t by
    rcases run_bind_iff.mp h with ⟨e, hd, -⟩ | ⟨count, t, hd, h⟩
    · exact hdet hd
    · refine run_records ?_ (hdet hd) h
      exact Prog.Always.bind ⟨trivial, fun _ => trivial⟩ fun _ => trivial
  intro t o h
  unfold detectNewCandidates at h
  rw [Prog.request_bind] at h
  obtain ⟨rows, hrows, h⟩ := run_request_iff.mp h
  change Run (exec ord) s _ _ _ at h
  split at h
  · rw [(run_ret_iff.mp h).1]
    exact .refl s
  · rw [Prog.request_bind] at h
    obtain ⟨seen, hseen, h⟩ := run_request_iff.mp h
    change Run (exec ord) s _ _ _ at h
    refine run_records ?_ (.refl s) h
    exact (Prog.always_lift _ _).bind fun pairs =>
      (always_records hrows hseen).bind fun _ => trivial

/-! ## Every call -/

theorem run_decide_ends {netA netB : ℤ} {decision : Decision} {now : Time}
    {o : Except PyError DecisionResult}
    (h : Run (exec ord) s (applyDecision netA netB decision now) s' o) :
    s' = s ∨ Decided ord s (min netA netB) (max netA netB) now decision s' := by
  rcases o with e | res
  · exact .inl (run_applyDecision_error h)
  · exact .inr (run_applyDecision_ok h)

/-- What a call has done when it ends, with whatever outcome. -/
inductive CallEnds (ord : ReadOrder) (s : Store) : Call → Store → Prop
  | inserted (key : ReportKey) (row : Fields) :
      CallEnds ord s (.insertReport key row) { s with report := s.report.upsert key row }
  | built {cfg : MatchConfig} {clock : BuildClock} {s' : Store}
      (ends : BuildEnds ord cfg clock s s') : CallEnds ord s (.build cfg clock) s'
  | listed {M : MathFns} {cfg : MergeConfig} {clock : ListClock} {s' : Store}
      (ends : ListEnds s s') : CallEnds ord s (.list M cfg clock) s'
  | refused (a b : ℤ) (d : Decision) (now : Time) : CallEnds ord s (.decide a b d now) s
  | decided {a b : ℤ} {d : Decision} {now : Time} {s' : Store}
      (decided : Decided ord s (min a b) (max a b) now d s') : CallEnds ord s (.decide a b d now) s'

/-- A call that wraps the result of a program ends where the program does. -/
theorem run_of_map {α : Type} {p : Client α} {f : α → Outcome} {o : Except PyError Outcome}
    (h : Run (exec ord) s (p >>= fun a => .ret (f a)) s' o) : ∃ o', Run (exec ord) s p s' o' := by
  rcases run_bind_iff.mp h with ⟨e, h, -⟩ | ⟨a, t, h, hret⟩
  · exact ⟨.error e, h⟩
  · obtain ⟨rfl, -⟩ := run_ret_iff.mp hret
    exact ⟨.ok a, h⟩

theorem run_call_ends {c : Call} {o : Except PyError Outcome}
    (h : Run (exec ord) s c.prog s' o) : CallEnds ord s c s' := by
  rcases c with ⟨key, row⟩ | ⟨cfg, clock⟩ | ⟨M, cfg, clock⟩ | ⟨a, b, d, now⟩
  · obtain ⟨rfl, -⟩ := run_insertReport_iff.mp h
    exact .inserted key row
  · obtain ⟨o', h⟩ := run_of_map h
    exact .built (run_build_ends h)
  · obtain ⟨o', h⟩ := run_of_map h
    exact .listed (run_list_ends h)
  · obtain ⟨o', h⟩ := run_of_map h
    rcases run_decide_ends h with rfl | hd
    · exact .refused a b d now
    · exact .decided hd

section
variable {c : Call}

theorem Store.label_congr (h : s'.building = s.building) : s'.label = s.label := by
  unfold Store.label
  rw [h]

/-- No call takes a net's label away. -/
theorem CallEnds.label_ne_none (h : CallEnds ord s c s') {n : ℤ} (hn : s.label n ≠ none) :
    s'.label n ≠ none := by
  rcases h with ⟨key, row⟩ | ends | ends | _ | hd
  · exact hn
  · rcases ends with _ | ⟨run, nets, -, -⟩
    · exact hn
    · obtain ⟨l, hl⟩ := Option.ne_none_iff_exists'.mp hn
      rw [Store.label_congr nets, run.grows.kept n l hl]
      exact Option.some_ne_none l
  · rwa [Store.label_congr ends.building]
  · exact hn
  · rcases hd with ⟨-, -, hap⟩ | ⟨-, -⟩
    · rcases hap.label_cases with ⟨-, rfl⟩ | ⟨hi, lo, all, -, -, -, rfl⟩
      · exact hn
      · rw [label_settle, label_move]
        split
        · exact Option.some_ne_none lo
        · exact hn
    · exact hn

/-- A decided pair stays as it is. -/
theorem CallEnds.decided_kept (h : CallEnds ord s c s') {k : PairKey} {x : Candidate}
    (hx : s.candidates k = some x) (hp : x.status ≠ some .pending) :
    s'.candidates k = some x := by
  rcases h with ⟨key, row⟩ | ends | ends | _ | hd
  · exact hx
  · rcases ends with _ | ⟨-, -, hcands, -⟩
    · exact hx
    · rw [hcands, hx]
  · exact ends.kept k x hx
  · exact hx
  · obtain ⟨x', hx', hlater⟩ := hd.continues.1 k x hx
    rcases hlater with _ | ⟨now, hp', -⟩
    · exact hx'
    · exact absurd hp' hp

/-- An approved pair stays approved. -/
theorem CallEnds.approved (h : CallEnds ord s c s') {a b : ℤ} (hab : Approved s a b) :
    Approved s' a b := by
  obtain ⟨x, hx, hst⟩ := hab
  exact ⟨x, h.decided_kept hx (by rw [hst]; decide), hst⟩

/-- Every call keeps the nets of one label linked by approved pairs. -/
theorem CallEnds.linked (h : CallEnds ord s c s') (hs : Linked (Approved s) s.label) :
    Linked (Approved s') s'.label := by
  have happroved : ∀ a b, Approved s a b → Approved s' a b := fun _ _ => h.approved
  rcases h with ⟨key, row⟩ | ends | ends | _ | hd
  · exact hs
  · rcases ends with _ | ⟨run, nets, -, -⟩
    · exact hs
    · rw [Store.label_congr nets]
      exact (hs.grows run.grows).mono happroved
  · rw [Store.label_congr ends.building]
    exact hs.mono happroved
  · exact hs
  · rcases hd with ⟨-, -, hap⟩ | ⟨-, -⟩
    · rcases hap.label_cases with ⟨-, rfl⟩ | ⟨hi, lo, all, -, hends, hall, rfl⟩
      · exact hs.mono happroved
      · -- what is moved carried the absorbed label, all of its group or not
        refine (hs.moves hends fun n => ?_).mono fun x y hxy => ?_
        · rw [label_settle, label_move]
          split
          · next hn => exact .inr ⟨label_of_mem_scanned hall hn, rfl⟩
          · exact .inl rfl
        · exact (approved_settle_approved x y).mpr hxy
    · exact hs.mono happroved

end

end NetBuild
