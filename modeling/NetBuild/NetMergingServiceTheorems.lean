import NetBuild.NetMergingService
import NetBuild.NetMergingTheorems
import NetBuild.NetBuildingServiceTheorems
import NetBuild.StoreTheorems

/-!
# A completed listing, a completed decision

`Detected` says everything a completed detection has done, `Decided` everything a completed
decision has. A decision that raises has written nothing.
-/

namespace NetBuild

namespace NetMergingService

open NetMerging
open Prog (Run run_bind_ok_iff run_call_iff run_ret_iff run_raise_iff run_lift_ok_iff)

/-! ## The nets frame -/

/-- The record of a row of `ff_net_building`. -/
def netRecord (rows : List (ℤ × Net)) (r : ℤ × Net) : NetRec where
  netId := r.1
  myNetId := (inferDtype (rows.map fun r => myNetIdCell r.2)).store (myNetIdCell r.2)
  cells := storeRow (rows.map fun r => rawNet r.2) (rawNet r.2)

theorem fetchNets_eq (rows : List (ℤ × Net)) : fetchNets rows = rows.map (netRecord rows) := by
  have hcells : dataFrame (rows.map fun r => cassandraRowToDfRow r.2.ffId r.2.lti r.2.fields)
      = rows.map fun r => storeRow (rows.map fun r => rawNet r.2) (rawNet r.2) := by
    rw [dataFrame_eq, List.map_map]
    rfl
  unfold fetchNets
  dsimp only
  rw [hcells, ← List.map_prod_left_eq_zip, List.map_map]
  rfl

theorem map_netId_fetchNets (rows : List (ℤ × Net)) :
    (fetchNets rows).map (·.netId) = rows.map Prod.fst := by
  rw [fetchNets_eq, List.map_map]
  rfl

/-- The records do not depend on the order the rows were read in. -/
theorem netRecord_perm {rows rows' : List (ℤ × Net)} (h : rows.Perm rows') :
    netRecord rows = netRecord rows' := by
  funext r
  unfold netRecord storeRow
  congr 1
  · rw [inferDtype_perm (h.map _)]
  · funext c
    rw [inferDtype_perm ((h.map _).map _)]

/-- Records of nets in different groups compare as different. -/
theorem cellEq_netRecord {rows : List (ℤ × Net)} {r r' : ℤ × Net}
    (h : r.2.myNetId ≠ r'.2.myNetId) :
    cellEq (netRecord rows r).myNetId (netRecord rows r').myNetId = false := by
  have hval : ∀ r : ℤ × Net, (netRecord rows r).myNetId.val
      = r.2.myNetId.map fun n : ℤ => Scalar.num (n : ℚ) := by
    intro r
    show ((inferDtype _).store (myNetIdCell r.2)).val = _
    rw [Dtype.val_store]
    unfold myNetIdCell
    rcases r.2.myNetId <;> rfl
  have hne : (netRecord rows r).myNetId.val ≠ (netRecord rows r').myNetId.val := by
    rw [hval, hval]
    refine fun he => h (Option.map_injective ?_ he)
    intro m n hmn
    simpa using hmn
  unfold cellEq
  split
  · next h1 h2 => exact absurd (by rw [h1, h2]) hne
  · rw [Bool.and_eq_false_iff, beq_eq_false_iff_ne]
    exact .inr hne

/-! ## Detection -/

theorem snapshotRow_eq_ok {now : Time} {nets : List NetRec} {a b : ℤ} {reasons : Reasons}
    {r : PairKey × Candidate} (h : snapshotRow now nets a b reasons = .ok r) :
    ∃ snapshot, r = ((a, b), ⟨some .pending, some snapshot, some now, none⟩) := by
  unfold snapshotRow at h
  obtain ⟨_, -, h⟩ := Except.bind_eq_ok_iff.mp h
  obtain ⟨_, -, h⟩ := Except.bind_eq_ok_iff.mp h
  obtain ⟨_, -, h⟩ := Except.bind_eq_ok_iff.mp h
  obtain ⟨_, -, h⟩ := Except.bind_eq_ok_iff.mp h
  obtain ⟨_, -, h⟩ := Except.bind_eq_ok_iff.mp h
  obtain ⟨_, -, h⟩ := Except.bind_eq_ok_iff.mp h
  obtain ⟨_, -, h⟩ := Except.bind_eq_ok_iff.mp h
  obtain ⟨_, -, h⟩ := Except.bind_eq_ok_iff.mp h
  obtain ⟨_, -, h⟩ := Except.bind_eq_ok_iff.mp h
  obtain ⟨_, -, h⟩ := Except.bind_eq_ok_iff.mp h
  exact ⟨_, (Except.ok.inj h).symm⟩

section
variable {ord : ReadOrder} {s s' : Store} {M : MathFns} {cfg : MergeConfig}

/-- What a completed detection read, proposed and added, and the store it left. -/
structure Detected (ord : ReadOrder) (M : MathFns) (cfg : MergeConfig) (clock : PairKey → Time)
    (s s' : Store) (count : ℕ) (rows : List (ℤ × Net)) (pairs : List (ℤ × ℤ × Reasons))
    (added : List (PairKey × Candidate)) : Prop where
  read : Lists ord.building rows s.building
  proposed : proposePairs M cfg (fetchNets rows) = .ok pairs
  keys : added.map Prod.fst = (pairs.map keyOf).filter fun k => (s.candidates k).isNone
  pending : ∀ r ∈ added, ∃ snapshot,
    r.2 = ⟨some .pending, some snapshot, some (clock r.1), none⟩
  store : s' = { s with candidates := s.candidates.upsertAll added }
  count_eq : count = added.length

theorem Detected.nodup_keys {clock : PairKey → Time} {count : ℕ}
    {rows : List (ℤ × Net)} {pairs : List (ℤ × ℤ × Reasons)} {added : List (PairKey × Candidate)}
    (h : Detected ord M cfg clock s s' count rows pairs added) :
    (added.map Prod.fst).Nodup := by
  rw [h.keys]
  refine (nodup_proposePairs h.proposed ?_).filter _
  rw [map_netId_fetchNets]
  exact h.read.nodup

/-- A detection adds pending pairs that had no row. -/
theorem Detected.candidates_iff {clock : PairKey → Time} {count : ℕ}
    {rows : List (ℤ × Net)} {pairs : List (ℤ × ℤ × Reasons)}
    {added : List (PairKey × Candidate)}
    (h : Detected ord M cfg clock s s' count rows pairs added) (k : PairKey) (c : Candidate) :
    s'.candidates k = some c ↔
      s.candidates k = some c ∨ (k, c) ∈ added ∧ s.candidates k = none := by
  have hnone : k ∈ added.map Prod.fst → s.candidates k = none := by
    intro hk
    rw [h.keys, List.mem_filter] at hk
    exact Option.isNone_iff_eq_none.mp hk.2
  rw [h.store]
  show s.candidates.upsertAll added k = some c ↔ _
  rw [Table.upsertAll_eq_some_iff _ h.nodup_keys]
  refine ⟨fun hc => ?_, fun hc => ?_⟩
  · rcases hc with hm | ⟨-, hold⟩
    · exact .inr ⟨hm, hnone (List.mem_map_of_mem hm)⟩
    · exact .inl hold
  · rcases hc with hold | ⟨hm, -⟩
    · refine .inr ⟨fun hk => ?_, hold⟩
      rw [hnone hk] at hold
      exact nomatch hold
    · exact .inl hm

/-- After a detection every two nets of different groups that `same_net` accepts have a row. -/
theorem Detected.complete {clock : PairKey → Time} {count : ℕ} {rows : List (ℤ × Net)}
    {pairs : List (ℤ × ℤ × Reasons)} {added : List (PairKey × Candidate)}
    (h : Detected ord M cfg clock s s' count rows pairs added) {rows' : List (ℤ × Net)}
    (hrows : Table.Enumerates rows' s.building) {r₁ r₂ : ℤ × Net} (h₁ : r₁ ∈ rows')
    (h₂ : r₂ ∈ rows') (hmy : r₁.2.myNetId ≠ r₂.2.myNetId)
    (hsame : sameNet M cfg (netRecord rows' r₁).cells (netRecord rows' r₂).cells = .ok true) :
    s'.candidates (pairKey r₁.1 r₂.1) ≠ none := by
  have hperm := hrows.perm h.read.enumerates
  rw [netRecord_perm hperm] at hsame
  have hne : r₁.1 ≠ r₂.1 := by
    intro he
    have := List.inj_on_of_nodup_map hrows.nodup h₁ h₂ he
    exact hmy (by rw [this])
  have hmem : ∀ r ∈ rows', netRecord rows r ∈ fetchNets rows := by
    intro r hr
    rw [fetchNets_eq]
    exact List.mem_map_of_mem (hperm.mem_iff.mp hr)
  have hpair : pairKey r₁.1 r₂.1 ∈ pairs.map keyOf :=
    proposePairs_complete h.proposed (hmem r₁ h₁) (hmem r₂ h₂) hne (cellEq_netRecord hmy) hsame
  rw [h.store]
  show s.candidates.upsertAll added _ ≠ none
  rw [Table.upsertAll_ne_none_iff, h.keys, List.mem_filter]
  by_cases hn : s.candidates (pairKey r₁.1 r₂.1) = none
  · exact .inl ⟨hpair, by rw [hn]; rfl⟩
  · exact .inr hn

/-- The rows a detection adds name their nets in order. -/
theorem Detected.key_lt {clock : PairKey → Time} {count : ℕ} {rows : List (ℤ × Net)}
    {pairs : List (ℤ × ℤ × Reasons)} {added : List (PairKey × Candidate)}
    (h : Detected ord M cfg clock s s' count rows pairs added) {k : PairKey}
    (hk : k ∈ added.map Prod.fst) : k.1 < k.2 := by
  rw [h.keys] at hk
  obtain ⟨p, hp, rfl⟩ := List.mem_map.mp (List.mem_filter.mp hk).1
  obtain ⟨a, b, hs, hkey⟩ := mem_proposePairs h.proposed hp
  -- the two records are different ones, and no net has two
  have hn : ([a, b].map (·.netId)).Nodup := by
    refine (hs.map _).nodup ?_
    rw [map_netId_fetchNets]
    exact h.read.nodup
  rw [hkey]
  refine pairKey_lt fun he => ?_
  rw [List.map_cons, List.nodup_cons] at hn
  exact hn.1 (by rw [he]; exact List.mem_cons_self)

theorem run_insertCandidates {clock : PairKey → Time} {nets : List NetRec}
    {fresh : List (ℤ × ℤ × Reasons)} :
    Run (exec ord) s (insertCandidates clock nets fresh) s' (.ok ⟨⟩) ↔
      ∃ added, List.Forall₂
          (fun p r => snapshotRow (clock (keyOf p)) nets p.1 p.2.1 p.2.2 = .ok r) fresh added ∧
        s' = { s with candidates := s.candidates.upsertAll added } := by
  unfold insertCandidates
  rw [Prog.run_forM_ok_iff
    (f := fun p : ℤ × ℤ × Reasons => snapshotRow (clock (keyOf p)) nets p.1 p.2.1 p.2.2)
    (g := fun s r => s.apply (.candidatesInsert r.1 r.2))]
  · have hfold : ∀ (added : List (PairKey × Candidate)) (s : Store),
        added.foldl (fun s r => s.apply (.candidatesInsert r.1 r.2)) s
          = { s with candidates := s.candidates.upsertAll added } := by
      intro added
      induction added with
      | nil => intro s; rfl
      | cons r added ih => intro s; exact ih _
    simp only [hfold]
  · intro p s s'
    rw [run_bind_ok_iff]
    refine ⟨fun h => ?_, fun h => ?_⟩
    · obtain ⟨r, t, hlift, h⟩ := h
      obtain ⟨rfl, hr⟩ := run_lift_ok_iff.mp hlift
      obtain ⟨_, _, h⟩ := run_request_iff.mp h
      exact ⟨r, hr, (run_ret_iff.mp h).1⟩
    · obtain ⟨r, hr, rfl⟩ := h
      exact ⟨r, s, run_lift_ok_iff.mpr ⟨rfl, hr⟩,
        run_request_iff.mpr ⟨⟨⟩, trivial, run_ret_iff.mpr ⟨rfl, rfl⟩⟩⟩

theorem run_detectNewCandidates {clock : PairKey → Time} {count : ℕ}
    (h : Run (exec ord) s (detectNewCandidates M cfg clock) s' (.ok count)) :
    ∃ rows pairs added, Detected ord M cfg clock s s' count rows pairs added := by
  unfold detectNewCandidates at h
  rw [Prog.request_bind] at h
  obtain ⟨rows, hrows, h⟩ := run_request_iff.mp h
  change Run (exec ord) s _ _ _ at h
  split at h
  · next he =>
    obtain ⟨rfl, hc⟩ := run_ret_iff.mp h
    rw [he] at hrows
    exact ⟨[], [], [], hrows, rfl, rfl, fun r hr => absurd hr List.not_mem_nil, rfl,
      Except.ok.inj hc⟩
  · rw [Prog.request_bind] at h
    obtain ⟨seen, hseen, h⟩ := run_request_iff.mp h
    obtain ⟨pairs, t, hlift, h₁⟩ := run_bind_ok_iff.mp h
    obtain ⟨rfl, hpairs⟩ := run_lift_ok_iff.mp hlift
    obtain ⟨_, _, hins, h₂⟩ := run_bind_ok_iff.mp h₁
    obtain ⟨added, hadded, rfl⟩ := run_insertCandidates.mp hins
    obtain ⟨rfl, hc⟩ := run_ret_iff.mp h₂
    have hkey : ∀ (p : ℤ × ℤ × Reasons) r,
        snapshotRow (clock (keyOf p)) (fetchNets rows) p.1 p.2.1 p.2.2 = .ok r →
          keyOf p = r.1 ∧ ∃ snapshot,
            r.2 = ⟨some .pending, some snapshot, some (clock r.1), none⟩ := by
      intro p r hr
      obtain ⟨snapshot, rfl⟩ := snapshotRow_eq_ok hr
      exact ⟨rfl, snapshot, rfl⟩
    refine ⟨rows, pairs, added, hrows, hpairs, ?_, fun r hr => ?_, rfl, ?_⟩
    · rw [← hadded.map_eq_map fun p r hr => (hkey p r hr).1, List.filter_map]
      congr 1
      refine List.filter_congr fun p _ => ?_
      -- the pairs seen are those of the table
      show decide (keyOf p ∉ seen.map Prod.fst) = (t.candidates (keyOf p)).isNone
      rw [Bool.eq_iff_iff, decide_eq_true_iff, Lists.mem_keys hseen, Option.isNone_iff_eq_none,
        ← Option.not_isSome_iff_eq_none]
    · obtain ⟨p, -, hr'⟩ := hadded.exists_of_mem_right hr
      exact (hkey p r hr').2
    · rw [Except.ok.inj hc]
      exact hadded.length_eq

theorem run_listPendingCandidates {clock : ListClock} {res : PendingList}
    (h : Run (exec ord) s (listPendingCandidates M cfg clock) s' (.ok res)) :
    ∃ rows pairs added,
      Detected ord M cfg clock.detectedAt s s' res.newlyDetected rows pairs added := by
  unfold listPendingCandidates at h
  obtain ⟨count, s₁, hdetect, h₁⟩ := run_bind_ok_iff.mp h
  rw [Prog.request_bind] at h₁
  obtain ⟨listed, -, h₂⟩ := run_request_iff.mp h₁
  obtain ⟨rfl, hres⟩ := run_ret_iff.mp h₂
  rw [Except.ok.inj hres]
  exact run_detectNewCandidates hdetect

/-- A listing whose computation succeeds completes. -/
theorem run_of_proposePairs {clock : ListClock} {rows : List (ℤ × Net)}
    {seen listed : List (PairKey × Candidate)} {pairs : List (ℤ × ℤ × Reasons)}
    {added : List (PairKey × Candidate)}
    (hrows : Lists ord.building rows s.building) (hne : rows ≠ [])
    (hseen : Lists ord.candidates seen s.candidates)
    (hpairs : proposePairs M cfg (fetchNets rows) = .ok pairs)
    (hadded : List.Forall₂
      (fun p r => snapshotRow (clock.detectedAt (keyOf p)) (fetchNets rows) p.1 p.2.1 p.2.2 = .ok r)
      (pairs.filter fun p => keyOf p ∉ existingPairs seen) added)
    (hlisted : Lists ord.candidates listed (s.candidates.upsertAll added)) :
    ∃ res, Run (exec ord) s (listPendingCandidates M cfg clock)
      { s with candidates := s.candidates.upsertAll added } (.ok res) := by
  have hdetect : Run (exec ord) s (detectNewCandidates M cfg clock.detectedAt)
      { s with candidates := s.candidates.upsertAll added }
      (.ok (pairs.filter fun p => keyOf p ∉ existingPairs seen).length) := by
    unfold detectNewCandidates
    rw [Prog.request_bind]
    refine run_request_iff.mpr ⟨rows, hrows, ?_⟩
    change Run (exec ord) s (ite _ _ _) _ _
    rw [if_neg hne, Prog.request_bind]
    refine run_request_iff.mpr ⟨seen, hseen, ?_⟩
    refine run_bind_ok_iff.mpr ⟨pairs, s, run_lift_ok_iff.mpr ⟨rfl, hpairs⟩, ?_⟩
    exact run_bind_ok_iff.mpr ⟨⟨⟩, _, run_insertCandidates.mpr ⟨added, hadded, rfl⟩, .ret _ _⟩
  refine ⟨⟨clock.generatedAt, (pairs.filter fun p => keyOf p ∉ existingPairs seen).length,
    (listed.filter (·.2.status = some .pending)).length,
    listed.filter (·.2.status = some .pending)⟩, ?_⟩
  refine run_bind_ok_iff.mpr ⟨_, _, hdetect, ?_⟩
  rw [Prog.request_bind]
  exact run_request_iff.mpr ⟨listed, hlisted, .ret _ _⟩

end

/-! ## Decisions -/

/-- The store with a decision recorded. -/
def settle (s : Store) (k : PairKey) (status : Status) (now : Time) : Store :=
  s.apply (.candidatesUpdate k status now)

/-- The store with the nets listed moved to the group `my`. -/
def move (s : Store) (my : ℤ) (now : Time) (nets : List ℤ) : Store :=
  { s with building := fun n =>
      if n ∈ nets then some (.relabel (s.building n) my now) else s.building n }

/-- The nets of the group `my` that one scan finds. -/
def scanned (all : List (ℤ × Net)) (my : ℤ) : List (ℤ × Net) :=
  (all.filter fun r => r.2.myNetId = some my).take groupLimit

section
variable {ord : ReadOrder} {s s' : Store} {a b : ℤ} {now : Time} {decision : Decision}
  {res : DecisionResult}

/-- A row moved twice is as if moved once. -/
theorem move_cons (s : Store) (my : ℤ) (now : Time) (n : ℤ) (nets : List ℤ) :
    move (s.apply (.buildingUpdate n my now)) my now nets = move s my now (n :: nets) := by
  unfold move Store.apply
  congr 1
  funext n'
  simp only [Table.upsert_apply, List.mem_cons]
  by_cases hn : n' = n
  · subst hn
    by_cases hm : n' ∈ nets
    · simp [hm, Net.relabel]
    · simp [hm]
  · rw [if_neg hn]
    simp only [hn, false_or]

theorem move_nil (s : Store) (my : ℤ) (now : Time) : move s my now [] = s := by
  unfold move
  simp

theorem move_singleton (s : Store) (my : ℤ) (now : Time) (n : ℤ) :
    move s my now [n] = s.apply (.buildingUpdate n my now) := by
  rw [← move_cons, move_nil]

theorem run_moveRows {my : ℤ} {rows : List (ℤ × Net)} {o : Except PyError Unit} :
    Run (exec ord) s (moveRows now my rows) s' o ↔
      s' = move s my now (rows.map Prod.fst) ∧ o = .ok ⟨⟩ := by
  induction rows generalizing s with
  | nil =>
    refine run_ret_iff.trans (and_congr_left fun _ => ?_)
    rw [List.map_nil, move_nil]
  | cons r rows ih =>
    show Run (exec ord) s (.call (.buildingUpdate r.1 my now) fun _ => moveRows now my rows) s' o
      ↔ _
    rw [run_request_iff, List.map_cons, ← move_cons]
    refine ⟨fun h => ?_, fun h => ⟨⟨⟩, trivial, ih.mpr h⟩⟩
    obtain ⟨_, _, h⟩ := h
    exact ih.mp h

/-- What an approval that completes does. -/
inductive Approves (ord : ReadOrder) (s : Store) (a b : ℤ) (now : Time) : Store → Prop
  | joined {x y : Net} (rowA : s.building a = some x) (rowB : s.building b = some y)
      (same : x.myNetId = y.myNetId) : Approves ord s a b now (settle s (a, b) .approved now)
  | moved {x y : Net} {myA myB : ℤ} {all : List (ℤ × Net)} (rowA : s.building a = some x)
      (rowB : s.building b = some y) (labelA : x.myNetId = some myA)
      (labelB : y.myNetId = some myB) (ne : myA ≠ myB)
      (read : Lists ord.building all s.building) :
      Approves ord s a b now
        (settle (move s (min myA myB) now ((scanned all (max myA myB)).map Prod.fst))
          (a, b) .approved now)

/-- What a decision that completes does: the pair was pending, and it is approved or rejected. -/
inductive Decided (ord : ReadOrder) (s : Store) (a b : ℤ) (now : Time) :
    Decision → Store → Prop
  | approve {c : Candidate} {s' : Store} (row : s.candidates (a, b) = some c)
      (pending : c.status = some .pending) (approves : Approves ord s a b now s') :
      Decided ord s a b now .approve s'
  | reject {c : Candidate} (row : s.candidates (a, b) = some c)
      (pending : c.status = some .pending) :
      Decided ord s a b now .reject (settle s (a, b) .rejected now)

/-- An approval of nets in different groups moves the rows it scans of the greater one, and reports
how many these are. -/
theorem run_approve_moved {myA myB : ℤ} (hne : myA ≠ myB)
    (h : Run (exec ord) s (approve now a b (some myA) (some myB)) s' (.ok res)) :
    ∃ all, Lists ord.building all s.building ∧
      s' = settle (move s (min myA myB) now ((scanned all (max myA myB)).map Prod.fst))
        (a, b) .approved now ∧
      res.netsMoved = some (scanned all (max myA myB)).length := by
  unfold approve at h
  rw [if_neg fun he => hne (Option.some.inj he)] at h
  dsimp only at h
  rw [Prog.request_bind] at h
  obtain ⟨_, ⟨all, hall, rfl⟩, h₁⟩ := run_request_iff.mp h
  obtain ⟨_, _, hmove, h₂⟩ := run_bind_ok_iff.mp h₁
  obtain ⟨rfl, -⟩ := run_moveRows.mp hmove
  rw [Prog.request_bind] at h₂
  obtain ⟨_, -, h₃⟩ := run_request_iff.mp h₂
  obtain ⟨rfl, hres⟩ := run_ret_iff.mp h₃
  obtain rfl := Except.ok.inj hres
  exact ⟨all, hall, rfl, rfl⟩

theorem run_approve_ok {x y : Net} (hx : s.building a = some x) (hy : s.building b = some y)
    (h : Run (exec ord) s (approve now a b x.myNetId y.myNetId) s' (.ok res)) :
    Approves ord s a b now s' := by
  by_cases he : x.myNetId = y.myNetId
  · unfold approve at h
    rw [if_pos he, Prog.request_bind] at h
    obtain ⟨_, -, h⟩ := run_request_iff.mp h
    obtain ⟨rfl, -⟩ := run_ret_iff.mp h
    exact .joined hx hy he
  · rcases hA : x.myNetId with _ | myA
    · unfold approve at h
      rw [if_neg he, hA] at h
      exact nomatch (run_raise_iff.mp h).2
    · rcases hB : y.myNetId with _ | myB
      · unfold approve at h
        rw [if_neg he, hA, hB] at h
        exact nomatch (run_raise_iff.mp h).2
      · have hne : myA ≠ myB := fun hab => he (by rw [hA, hB, hab])
        rw [hA, hB] at h
        obtain ⟨all, hall, rfl, -⟩ := run_approve_moved hne h
        exact .moved hx hy hA hB hne hall

/-- An approval raises before it writes. -/
theorem run_approve_error {myA myB : Option ℤ} {e : PyError}
    (h : Run (exec ord) s (approve now a b myA myB) s' (.error e)) : s' = s := by
  unfold approve at h
  split at h
  · rw [Prog.request_bind] at h
    obtain ⟨_, -, h⟩ := run_request_iff.mp h
    exact nomatch (run_ret_iff.mp h).2
  · split at h
    · rw [Prog.request_bind] at h
      obtain ⟨rows, -, h₁⟩ := run_request_iff.mp h
      rcases Prog.run_bind_iff.mp h₁ with ⟨e', hmove, -⟩ | ⟨_, _, -, h₂⟩
      · exact nomatch (run_moveRows.mp hmove).2
      · rw [Prog.request_bind] at h₂
        obtain ⟨_, -, h₃⟩ := run_request_iff.mp h₂
        exact nomatch (run_ret_iff.mp h₃).2
    · exact (run_raise_iff.mp h).1

/-- A decision that completes was on a pending pair; an approval also read both nets. -/
theorem run_decidePair_cases (hd : ∀ text, decision ≠ .other text)
    (h : Run (exec ord) s (decidePair a b decision now) s' (.ok res)) :
    ∃ c, s.candidates (a, b) = some c ∧ c.status = some .pending ∧
      (decision = .reject ∧ s' = settle s (a, b) .rejected now ∨
        decision = .approve ∧ ∃ x y, s.building a = some x ∧ s.building b = some y ∧
          Run (exec ord) s (approve now a b x.myNetId y.myNetId) s' (.ok res)) := by
  unfold decidePair at h
  rw [Prog.request_bind] at h
  obtain ⟨candidate, hc, h₁⟩ := run_request_iff.mp h
  change Run (exec ord) s _ _ _ at h₁
  rcases candidate with _ | c
  · exact nomatch (run_raise_iff.mp h₁).2
  · dsimp only at h₁
    split at h₁
    · exact nomatch (run_raise_iff.mp h₁).2
    · next hp =>
      -- pending: a rejection is written at once, an approval reads both nets first
      refine ⟨c, hc.symm, not_not.mp hp, ?_⟩
      split at h₁
      · next hrej =>
        rw [Prog.request_bind] at h₁
        obtain ⟨_, -, h₂⟩ := run_request_iff.mp h₁
        exact .inl ⟨hrej, (run_ret_iff.mp h₂).1⟩
      · next hrej =>
        rw [Prog.request_bind] at h₁
        obtain ⟨rowA, hA, h₂⟩ := run_request_iff.mp h₁
        rw [Prog.request_bind] at h₂
        obtain ⟨rowB, hB, h₃⟩ := run_request_iff.mp h₂
        change Run (exec ord) s _ _ _ at h₃
        rcases rowA with _ | x
        · exact nomatch (run_raise_iff.mp h₃).2
        · rcases rowB with _ | y
          · exact nomatch (run_raise_iff.mp h₃).2
          · rcases decision with _ | _ | text
            · exact .inr ⟨rfl, x, y, Eq.symm hA, Eq.symm hB, h₃⟩
            · exact absurd rfl hrej
            · exact absurd rfl (hd text)

theorem run_decidePair_ok (hd : ∀ text, decision ≠ .other text)
    (h : Run (exec ord) s (decidePair a b decision now) s' (.ok res)) :
    Decided ord s a b now decision s' := by
  obtain ⟨c, hc, hp, ⟨rfl, rfl⟩ | ⟨rfl, x, y, hx, hy, hrun⟩⟩ := run_decidePair_cases hd h
  · exact .reject hc hp
  · exact .approve hc hp (run_approve_ok hx hy hrun)

/-- A decision raises before it writes. -/
theorem run_decidePair_error {e : PyError}
    (h : Run (exec ord) s (decidePair a b decision now) s' (.error e)) : s' = s := by
  unfold decidePair at h
  rw [Prog.request_bind] at h
  obtain ⟨candidate, -, h₁⟩ := run_request_iff.mp h
  change Run (exec ord) s _ _ _ at h₁
  rcases candidate with _ | c
  · exact (run_raise_iff.mp h₁).1
  · dsimp only at h₁
    split at h₁
    · exact (run_raise_iff.mp h₁).1
    · split at h₁
      · rw [Prog.request_bind] at h₁
        obtain ⟨_, -, h₂⟩ := run_request_iff.mp h₁
        exact nomatch (run_ret_iff.mp h₂).2
      · rw [Prog.request_bind] at h₁
        obtain ⟨rowA, -, h₂⟩ := run_request_iff.mp h₁
        rw [Prog.request_bind] at h₂
        obtain ⟨rowB, -, h₃⟩ := run_request_iff.mp h₂
        change Run (exec ord) s _ _ _ at h₃
        rcases rowA with _ | x
        · exact (run_raise_iff.mp h₃).1
        · rcases rowB with _ | y
          · exact (run_raise_iff.mp h₃).1
          · exact run_approve_error h₃

theorem run_applyDecision_ok {netA netB : ℤ}
    (h : Run (exec ord) s (applyDecision netA netB decision now) s' (.ok res)) :
    Decided ord s (min netA netB) (max netA netB) now decision s' := by
  rcases decision with _ | _ | text
  · exact run_decidePair_ok (fun _ h => nomatch h) h
  · exact run_decidePair_ok (fun _ h => nomatch h) h
  · exact nomatch (run_raise_iff.mp h).2

theorem Approves.run (h : Approves ord s a b now s') :
    ∃ x y res, s.building a = some x ∧ s.building b = some y ∧
      Run (exec ord) s (approve now a b x.myNetId y.myNetId) s' (.ok res) := by
  rcases h with @⟨x, y, hx, hy, he⟩ | @⟨x, y, myA, myB, all, hx, hy, hA, hB, hne, hall⟩
  · refine ⟨x, y, ⟨a, b, .approve, x.myNetId, none, some 0⟩, hx, hy, ?_⟩
    unfold approve
    rw [if_pos he, Prog.request_bind]
    exact run_request_iff.mpr ⟨⟨⟩, trivial, .ret _ _⟩
  · refine ⟨x, y, ⟨a, b, .approve, some (min myA myB), some (max myA myB),
      some (scanned all (max myA myB)).length⟩, hx, hy, ?_⟩
    unfold approve
    rw [hA, hB, if_neg fun he => hne (Option.some.inj he)]
    dsimp only
    rw [Prog.request_bind]
    refine run_request_iff.mpr ⟨_, ⟨_, hall, rfl⟩, ?_⟩
    refine run_bind_ok_iff.mpr ⟨⟨⟩, _, run_moveRows.mpr ⟨rfl, rfl⟩, ?_⟩
    rw [Prog.request_bind]
    exact run_request_iff.mpr ⟨⟨⟩, trivial, .ret _ _⟩

/-- What a decision can do it does in some run. -/
theorem Decided.run (hab : a ≤ b) (h : Decided ord s a b now decision s') :
    ∃ res, Run (exec ord) s (applyDecision a b decision now) s' (.ok res) := by
  rcases h with ⟨hc, hp, hap⟩ | ⟨hc, hp⟩
  · obtain ⟨x, y, res, hx, hy, hrun⟩ := hap.run
    refine ⟨res, ?_⟩
    show Run (exec ord) s (decidePair (min a b) (max a b) .approve now) _ _
    rw [min_eq_left hab, max_eq_right hab]
    unfold decidePair
    rw [Prog.request_bind]
    refine run_request_iff.mpr ⟨_, rfl, ?_⟩
    rw [hc]
    show Run (exec ord) s (ite _ _ _) _ _
    rw [if_neg (not_not.mpr hp), if_neg (by decide), Prog.request_bind]
    refine run_request_iff.mpr ⟨_, rfl, ?_⟩
    rw [Prog.request_bind]
    refine run_request_iff.mpr ⟨_, rfl, ?_⟩
    change Run (exec ord) s _ _ _
    rw [show s.apply (.buildingGet a) = s from rfl, hx, hy]
    exact hrun
  · refine ⟨⟨a, b, .reject, none, none, none⟩, ?_⟩
    show Run (exec ord) s (decidePair (min a b) (max a b) .reject now) _ _
    rw [min_eq_left hab, max_eq_right hab]
    unfold decidePair
    rw [Prog.request_bind]
    refine run_request_iff.mpr ⟨_, rfl, ?_⟩
    rw [hc]
    show Run (exec ord) s (ite _ _ _) _ _
    rw [if_neg (not_not.mpr hp), if_pos rfl, Prog.request_bind]
    exact run_request_iff.mpr ⟨⟨⟩, trivial, .ret _ _⟩

/-- A decision that raises leaves the store as it was. -/
theorem run_applyDecision_error {netA netB : ℤ} {e : PyError}
    (h : Run (exec ord) s (applyDecision netA netB decision now) s' (.error e)) : s' = s := by
  rcases decision with _ | _ | text
  · exact run_decidePair_error h
  · exact run_decidePair_error h
  · exact (run_raise_iff.mp h).1

/-- A decision does not depend on the order in which its nets are given. -/
theorem applyDecision_comm (netA netB : ℤ) (decision : Decision) (now : Time) :
    applyDecision netA netB decision now = applyDecision netB netA decision now := by
  unfold applyDecision
  rw [min_comm, max_comm]

end

end NetMergingService

end NetBuild
