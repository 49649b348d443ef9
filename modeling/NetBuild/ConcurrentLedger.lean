import NetBuild.CandidateLedger
import NetBuild.DecisionSteps

/-!
# Listings and decisions at the same time

A detection reads which pairs are recorded once, and inserts the others long after. An insert is
an upsert, so where another client has recorded and decided the pair in between, the decision is
undone. This is the one way to undo a decision: along any interleaving in which every insert
finds no row, or the undecided row it repeats, decisions stand and snapshots stay.
-/

namespace NetBuild

open NetMerging NetMergingService
open Prog (Run Steps)

/-! ## What is promised of a candidate -/

/-- A candidate that was approved or rejected. -/
def Candidate.IsDecided (c : Candidate) : Prop :=
  c.status = some .approved ∨ c.status = some .rejected

/-- The later row keeps what detection saw, and is decided if the earlier one was. -/
structure Candidate.Keeps (c c' : Candidate) : Prop where
  snapshot : c'.snapshot = c.snapshot
  detectedAt : c'.detectedAt = c.detectedAt
  decided : c.IsDecided → c'.IsDecided

/-- Every recorded candidate of the earlier store is kept by the later one. -/
def KeepsLedger (s s' : Store) : Prop :=
  ∀ k c, s.candidates k = some c → ∃ c', s'.candidates k = some c' ∧ c.Keeps c'

/-- The calls that work on the ledger. -/
def Call.OnLedger : Call → Prop
  | .list _ _ _ | .decide _ _ _ _ => True
  | _ => False

/-- An insert may land: there is no row, or an undecided one with the same snapshot. -/
def MayInsert (s : Store) (k : PairKey) (row : Candidate) : Prop :=
  ∀ c, s.candidates k = some c →
    ¬ c.IsDecided ∧ row.snapshot = c.snapshot ∧ row.detectedAt = c.detectedAt

/-- If the client is about to insert a candidate, the insert may land. -/
def InsertsLand {ι : Type} (σ : Sys Store ι (Client Outcome)) (i : ι) : Prop :=
  ∀ k row, (σ.client i).next? = some (.candidatesInsert k row) → MayInsert σ.store k row

/-- The requests of listings and of decisions. -/
def Req.OnLedger (r : Req) : Prop := r.OfListing ∨ ∃ k, r.OfDecision k

theorem Candidate.Keeps.refl (c : Candidate) : c.Keeps c := ⟨rfl, rfl, id⟩

theorem Candidate.Keeps.trans {c c' c'' : Candidate} (h : c.Keeps c') (h' : c'.Keeps c'') :
    c.Keeps c'' :=
  ⟨h'.snapshot.trans h.snapshot, h'.detectedAt.trans h.detectedAt, fun hc =>
    h'.decided (h.decided hc)⟩

theorem Status.ne_pending_iff (status : Status) :
    status ≠ .pending ↔ status = .approved ∨ status = .rejected := by
  rcases status <;> simp

theorem KeepsLedger.refl (s : Store) : KeepsLedger s s := fun _ c hc => ⟨c, hc, .refl c⟩

theorem KeepsLedger.of_eq {s s' : Store} (h : s'.candidates = s.candidates) :
    KeepsLedger s s' := by
  intro k c hc
  exact ⟨c, by rw [h, hc], .refl c⟩

theorem KeepsLedger.trans {s s' s'' : Store} (h : KeepsLedger s s') (h' : KeepsLedger s' s'') :
    KeepsLedger s s'' := by
  intro k c hc
  obtain ⟨c', hc', hk⟩ := h k c hc
  obtain ⟨c'', hc'', hk'⟩ := h' k c' hc'
  exact ⟨c'', hc'', hk.trans hk'⟩

/-! ## One request -/

/-- A write of one row keeps the ledger exactly when it keeps that row. -/
theorem keepsLedger_upsert_iff {s s' : Store} {k : PairKey} {row : Candidate}
    (h : s'.candidates = s.candidates.upsert k row) :
    KeepsLedger s s' ↔ ∀ c, s.candidates k = some c → c.Keeps row := by
  refine ⟨fun hk c hc => ?_, fun hk k' c hc => ?_⟩
  · obtain ⟨c', hc', hkeep⟩ := hk k c hc
    rw [h, Table.upsert_apply, if_pos rfl] at hc'
    rwa [Option.some.inj hc']
  · rw [h, Table.upsert_apply]
    by_cases he : k' = k
    · rw [if_pos he]
      exact ⟨row, rfl, hk c (he ▸ hc)⟩
    · rw [if_neg he]
      exact ⟨c, hc, .refl c⟩

/-- A request of a listing or of a decision keeps the ledger, unless it is an insert that may not
land. -/
theorem keepsLedger_apply_iff {s : Store} {r : Req} (hr : r.OnLedger) :
    KeepsLedger s (s.apply r) ↔ ∀ k row, r = .candidatesInsert k row → MayInsert s k row := by
  have hread : (s.apply r).candidates = s.candidates → (∀ k row, r ≠ .candidatesInsert k row) →
      (KeepsLedger s (s.apply r) ↔ ∀ k row, r = .candidatesInsert k row → MayInsert s k row) :=
    fun hc hne => iff_of_true (.of_eq hc) fun k row he => absurd he (hne k row)
  rcases r with _ | _ | _ | _ | _ | _ | _ | _ | _ | _ | _ | _ | ⟨k, row⟩ | ⟨k, status, now⟩
  case candidatesInsert =>
    have hp : row.status = some .pending := hr.elim id fun h => h.elim fun _ h => h.elim
    have hopen : ¬ row.IsDecided := by
      unfold Candidate.IsDecided
      rw [hp]
      simp
    rw [keepsLedger_upsert_iff rfl]
    refine ⟨fun h k' row' he c hc => ?_, fun h c hc => ?_⟩
    · obtain ⟨rfl, rfl⟩ := Req.candidatesInsert.inj he
      have hkeep := h c hc
      exact ⟨fun hd => hopen (hkeep.decided hd), hkeep.snapshot, hkeep.detectedAt⟩
    · obtain ⟨hd, hsnap, hat⟩ := h k row rfl c hc
      exact ⟨hsnap, hat, fun h => absurd h hd⟩
  case candidatesUpdate =>
    -- a decision writes a status other than pending over the row it finds
    have hne : status ≠ .pending := hr.elim (fun h => h.elim) fun h => h.elim fun _ h => h.2
    refine iff_of_true ?_ fun _ _ he => (nomatch he)
    rw [keepsLedger_upsert_iff rfl]
    intro c hc
    rw [hc]
    refine ⟨rfl, rfl, fun _ => ?_⟩
    unfold Candidate.IsDecided Candidate.decide
    simpa using (Status.ne_pending_iff status).mp hne
  all_goals exact hread rfl fun _ _ he => nomatch he

/-! ## Interleavings -/

theorem always_onLedger {c : Call} (hc : c.OnLedger) : c.prog.Always Req.OnLedger := by
  rcases c with ⟨key, row⟩ | ⟨cfg, clock⟩ | ⟨M, cfg, clock⟩ | ⟨a, b, d, now⟩
  · exact hc.elim
  · exact hc.elim
  · refine Prog.Always.bind ?_ fun _ => trivial
    exact (always_listPendingCandidates M cfg clock).mono fun _ h => .inl h
  · refine Prog.Always.bind ?_ fun _ => trivial
    exact (always_applyDecision a b d now).mono fun _ h => .inr ⟨_, h⟩

section
variable {ι : Type} [DecidableEq ι] {ord : ReadOrder} {s : Store} {calls : ι → Call}
  {σ σ' : Sys Store ι (Client Outcome)}

/-- A step keeps the ledger exactly when it is no insert that may not land. -/
theorem step_keepsLedger_iff {i : ι} (hP : ∀ i, (σ.client i).Always Req.OnLedger)
    (h : Sys.Step (exec ord) σ i σ') : KeepsLedger σ.store σ'.store ↔ InsertsLand σ i := by
  rcases h with @⟨r, k, x, s', hc, hex⟩
  have hr : r.OnLedger := by
    have := hP i
    rw [hc] at this
    exact this.1
  show KeepsLedger σ.store s' ↔ _
  rw [hex.2, keepsLedger_apply_iff hr]
  unfold InsertsLand
  rw [hc]
  refine forall₂_congr fun k row => ?_
  rw [Prog.next?_call, Option.some_inj]

theorem reaches_keepsLedger (hP : ∀ i, (σ.client i).Always Req.OnLedger)
    (h : Sys.Reaches (exec ord) InsertsLand σ σ') : KeepsLedger σ.store σ'.store := by
  induction h with
  | refl => exact .refl _
  | tail hσ hstep ih =>
    obtain ⟨i, hG, hs⟩ := hstep
    exact ih.trans ((step_keepsLedger_iff (Sys.Reaches.always hσ hP) hs).mpr hG)

/-- Along any interleaving of listings and decisions whose inserts may land, nothing recorded is
undone; and the next step undoes nothing exactly when it is no insert that may not land. -/
theorem ledger_kept_iff (hcalls : ∀ i, (calls i).OnLedger)
    (h : Sys.Reaches (exec ord) InsertsLand ⟨s, fun i => (calls i).prog⟩ σ) :
    (∀ σ', Sys.Reaches (exec ord) InsertsLand σ σ' → KeepsLedger σ.store σ'.store) ∧
      ∀ i σ', Sys.Step (exec ord) σ i σ' →
        (KeepsLedger σ.store σ'.store ↔ InsertsLand σ i) := by
  have hP := h.always (P := fun _ => Req.OnLedger) fun i => always_onLedger (hcalls i)
  exact ⟨fun σ' h' => reaches_keepsLedger hP h', fun i σ' hs => step_keepsLedger_iff hP hs⟩

end

/-! ## A listing, request by request -/

/-- The two reads of a detection, and the inserts it has to do when it finds no pair recorded. -/
theorem detect_reads {M : MathFns} {cfg : MergeConfig} (clock : PairKey → Time)
    {rows : List (ℤ × Net)} {pairs : List (ℤ × ℤ × Reasons)} (hne : rows ≠ [])
    (hpairs : proposePairs M cfg (fetchNets rows) = .ok pairs) :
    ∃ k₁ k₂, detectNewCandidates M cfg clock = .call .buildingFindAll k₁ ∧
      k₁ rows = .call .candidatesFindAll k₂ ∧
        k₂ [] = insertCandidates clock (fetchNets rows) pairs >>= fun _ => .ret pairs.length := by
  have hfresh : pairs.filter (fun p => keyOf p ∉ existingPairs []) = pairs :=
    List.filter_eq_self.mpr fun p _ => decide_eq_true List.not_mem_nil
  refine ⟨_, fun seen => Prog.lift (proposePairs M cfg (fetchNets rows)) >>= fun cs =>
    insertCandidates clock (fetchNets rows) (cs.filter fun p => keyOf p ∉ existingPairs seen) >>=
      fun _ => .ret (cs.filter fun p => keyOf p ∉ existingPairs seen).length, rfl, ?_, ?_⟩
  · exact if_neg hne
  · dsimp only
    rw [hpairs, Prog.lift_ok, Prog.ret_bind, hfresh]

theorem list_reads {M : MathFns} {cfg : MergeConfig} (clock : ListClock) {rows : List (ℤ × Net)}
    {pairs : List (ℤ × ℤ × Reasons)} (hne : rows ≠ [])
    (hpairs : proposePairs M cfg (fetchNets rows) = .ok pairs) :
    ∃ k₁ k₂, ∃ f : Unit → Client Outcome,
      (Call.list M cfg clock).prog = .call .buildingFindAll k₁ ∧
        k₁ rows = .call .candidatesFindAll k₂ ∧
          k₂ [] = insertCandidates clock.detectedAt (fetchNets rows) pairs >>= f := by
  obtain ⟨k₁, k₂, hdetect, hk₁, hk₂⟩ :=
    detect_reads clock.detectedAt hne hpairs
  -- what a listing does after its detection is not looked at
  have hprog : ∀ (g : ℕ → Client PendingList) (h : PendingList → Client Outcome),
      ∃ k₁ k₂, ∃ f : Unit → Client Outcome,
        detectNewCandidates M cfg clock.detectedAt >>= g >>= h = .call .buildingFindAll k₁ ∧
          k₁ rows = .call .candidatesFindAll k₂ ∧
            k₂ [] = insertCandidates clock.detectedAt (fetchNets rows) pairs >>= f := by
    intro g h
    refine ⟨fun x => k₁ x >>= g >>= h, fun x => k₂ x >>= g >>= h,
      fun _ => g pairs.length >>= h, ?_, ?_, ?_⟩
    · rw [hdetect]
      rfl
    · show k₁ rows >>= g >>= h = _
      rw [hk₁]
      rfl
    · show k₂ [] >>= g >>= h = _
      rw [hk₂, Prog.bind_assoc', Prog.bind_assoc']
      rfl
  exact hprog _ fun res => .ret (.listed res)

/-- The inserting loop takes one pair after another. -/
theorem insertCandidates_cons (clock : PairKey → Time) {nets : List NetRec}
    {p : ℤ × ℤ × Reasons} {pairs : List (ℤ × ℤ × Reasons)} {r : PairKey × Candidate}
    (h : snapshotRow (clock (keyOf p)) nets p.1 p.2.1 p.2.2 = .ok r) (f : Unit → Client Outcome) :
    insertCandidates clock nets (p :: pairs) >>= f =
      .call (.candidatesInsert r.1 r.2) fun _ => insertCandidates clock nets pairs >>= f := by
  show (((Prog.lift (snapshotRow (clock (keyOf p)) nets p.1 p.2.1 p.2.2) >>= fun r =>
    Prog.request (Req.candidatesInsert r.1 r.2)) >>= fun _ => insertCandidates clock nets pairs)
      >>= f) = _
  rw [h, Prog.lift_ok, Prog.ret_bind]
  rfl

section
variable {ι : Type} [DecidableEq ι] {ord : ReadOrder} {s s' : Store} {i : ι}
  {c : ι → Client Outcome} {σ₀ : Sys Store ι (Client Outcome)}

/-- The interleaving goes on with one request, which lands if it is an insert. -/
theorem reaches_request {r : Req} {k : r.Resp → Client Outcome} {x : r.Resp}
    (h : Sys.Reaches (exec ord) InsertsLand σ₀ ⟨s, c⟩) (hc : c i = .call r k)
    (hex : exec ord s r x s')
    (hland : ∀ key row, r = .candidatesInsert key row → MayInsert s key row) :
    Sys.Reaches (exec ord) InsertsLand σ₀ ⟨s', Function.update c i (k x)⟩ := by
  refine h.tail ⟨i, fun key row hn => hland key row ?_, .mk (σ := ⟨s, c⟩) hc hex⟩
  change (c i).next? = _ at hn
  rw [hc] at hn
  exact Option.some.inj hn

/-- A listing that finds no pair recorded goes on until it has its inserts to do. -/
theorem reaches_listed {M : MathFns} {cfg : MergeConfig} {clock : ListClock}
    {rows : List (ℤ × Net)} {pairs : List (ℤ × ℤ × Reasons)}
    (h : Sys.Reaches (exec ord) InsertsLand σ₀ ⟨s, c⟩) (hc : c i = (Call.list M cfg clock).prog)
    (hrows : Lists ord.building rows s.building) (hne : rows ≠ [])
    (hseen : Lists ord.candidates [] s.candidates)
    (hpairs : proposePairs M cfg (fetchNets rows) = .ok pairs) :
    ∃ f, Sys.Reaches (exec ord) InsertsLand σ₀
      ⟨s, Function.update c i
        (insertCandidates clock.detectedAt (fetchNets rows) pairs >>= f)⟩ := by
  obtain ⟨k₁, k₂, f, hprog, hk₁, hk₂⟩ := list_reads clock hne hpairs
  have hread : exec ord s .buildingFindAll rows s := ⟨hrows, rfl⟩
  have hread' : exec ord s .candidatesFindAll [] s := ⟨hseen, rfl⟩
  have h₁ := reaches_request h (hc.trans hprog) hread fun _ _ he => nomatch he
  have h₂ := reaches_request (i := i) h₁ ((Function.update_self ..).trans hk₁) hread'
    fun _ _ he => nomatch he
  rw [Function.update_idem, hk₂] at h₂
  exact ⟨f, h₂⟩

end

/-! ## Two listings and a commander -/

/-- The clients of `lateCalls`. -/
inductive LateClient
  | slow | fast | commander
  deriving DecidableEq

/-- Two listings and the rejection of a pair. -/
def lateCalls : LateClient → Call
  | .slow | .fast => .list flatMath anywhere ⟨fun _ => 1, 1⟩
  | .commander => .decide 100001 100002 .reject 2

/-- The programs the three have still to run. -/
def lateAt (slow fast commander : Client Outcome) : LateClient → Client Outcome
  | .slow => slow
  | .fast => fast
  | .commander => commander

theorem update_lateAt_slow (p q r p' : Client Outcome) :
    Function.update (lateAt p q r) .slow p' = lateAt p' q r := by
  funext i
  rcases i <;> rfl

theorem update_lateAt_fast (p q r q' : Client Outcome) :
    Function.update (lateAt p q r) .fast q' = lateAt p q' r := by
  funext i
  rcases i <;> rfl

theorem update_lateAt_commander (p q r r' : Client Outcome) :
    Function.update (lateAt p q r) .commander r' = lateAt p q r' := by
  funext i
  rcases i <;> rfl

theorem mayInsert_of_ne {s : Store} {k : PairKey} {row : Candidate} (h : s.candidates k = none) :
    MayInsert s k row := by
  intro c hc
  rw [h] at hc
  exact nomatch hc

/-- What the fast listing inserts, and then the commander and the slow one write. -/
structure LandsBetween (k₁ k₂ : PairKey) (τ τ' σ : Sys Store LateClient (Client Outcome)) :
    Prop where
  update : (τ.client .commander).next? = some (.candidatesUpdate k₁ .rejected 2)
  insert : ∃ row, (τ.client .fast).next? = some (.candidatesInsert k₁ row)
  step : Sys.Step (exec .any) τ .fast τ'
  land : InsertsLand τ .fast
  rest : Sys.Reaches (exec .any) InsertsLand τ' σ
  rejected : ∃ c, σ.store.candidates k₁ = some c ∧ c.status = some .rejected
  pending : ∃ c, σ.store.candidates k₂ = some c ∧ c.status = some .pending

/-- With the first pair recorded and read, they do. -/
theorem landsBetween {s : Store} {k₁ k₂ : PairKey} {c₁ c₂ : Candidate}
    {slow fast done : Client Outcome} (hne : k₂ ≠ k₁) (h₁ : s.candidates k₁ = some c₁)
    (h₂ : s.candidates k₂ = none)
    (hst₁ : c₁.status = some .pending) (hst₂ : c₂.status = some .pending) :
    ∃ τ' σ, LandsBetween k₁ k₂
      ⟨s, lateAt (.call (.candidatesInsert k₂ c₂) fun _ => slow)
        (.call (.candidatesInsert k₁ c₁) fun _ => fast)
        (.call (.candidatesUpdate k₁ .rejected 2) fun _ => done)⟩ τ' σ := by
  have hland : MayInsert s k₁ c₁ := by
    intro c hc
    obtain rfl := Option.some.inj (h₁.symm.trans hc)
    refine ⟨fun hd => ?_, rfl, rfl⟩
    unfold Candidate.IsDecided at hd
    rw [hst₁] at hd
    simp at hd
  have hinsert : ∀ t k c, exec .any t (.candidatesInsert k c) ⟨⟩
      (t.apply (.candidatesInsert k c)) := fun _ _ _ => ⟨trivial, rfl⟩
  have hstep : Sys.Step (exec .any) ⟨s, lateAt (.call (.candidatesInsert k₂ c₂) fun _ => slow)
      (.call (.candidatesInsert k₁ c₁) fun _ => fast)
      (.call (.candidatesUpdate k₁ .rejected 2) fun _ => done)⟩ .fast _ :=
    .mk (σ := ⟨s, lateAt _ _ _⟩) (k := fun _ => fast) rfl (hinsert s k₁ c₁)
  rw [update_lateAt_fast] at hstep
  obtain ⟨s₂, hs₂⟩ : ∃ s₂, s₂ = s.apply (.candidatesInsert k₁ c₁) := ⟨_, rfl⟩
  rw [← hs₂] at hstep
  have hrefl : Sys.Reaches (exec .any) InsertsLand
      ⟨s₂, lateAt (.call (.candidatesInsert k₂ c₂) fun _ => slow) fast
        (.call (.candidatesUpdate k₁ .rejected 2) fun _ => done)⟩ _ := .refl
  have hwrite : exec .any s₂ (.candidatesUpdate k₁ .rejected 2) ⟨⟩ (settle s₂ k₁ .rejected 2) :=
    ⟨trivial, rfl⟩
  have h₃ := reaches_request (i := LateClient.commander) hrefl rfl hwrite fun _ _ he => nomatch he
  have hk₂ : (settle s₂ k₁ .rejected 2).candidates k₂ = none := by
    rw [candidates_settle, Table.upsert_apply, if_neg hne, hs₂]
    show s.candidates.upsert k₁ c₁ k₂ = none
    rw [Table.upsert_apply, if_neg hne, h₂]
  have h₄ := reaches_request (i := LateClient.slow) h₃ rfl (hinsert _ k₂ c₂) fun key row he => by
    obtain ⟨rfl, rfl⟩ := Req.candidatesInsert.inj he
    exact mayInsert_of_ne hk₂
  refine ⟨_, _, rfl, ⟨c₁, rfl⟩, hstep, fun key row hn => ?_, h₄, ?_, ?_⟩
  · obtain ⟨rfl, rfl⟩ := Req.candidatesInsert.inj (Option.some.inj hn)
    exact hland
  · refine ⟨Candidate.decide (s₂.candidates k₁) .rejected 2, ?_, rfl⟩
    show (settle s₂ k₁ .rejected 2).candidates.upsert k₂ c₂ k₁ = _
    rw [Table.upsert_apply, if_neg hne.symm, candidates_settle_self]
  · refine ⟨c₂, ?_, hst₂⟩
    show (settle s₂ k₁ .rejected 2).candidates.upsert k₂ c₂ k₂ = _
    rw [Table.upsert_apply, if_pos rfl]

/-- The slow listing has recorded a pair and the commander has read that it is pending when the fast
listing records it again; the pair is rejected, and the slow listing records another one. -/
theorem ledger_kept_iff_lateCalls :
    ∃ s τ τ' σ, Reached .any (fun _ _ _ => True) .empty s ∧
      Sys.Reaches (exec .any) InsertsLand ⟨s, fun i => (lateCalls i).prog⟩ τ ∧
      LandsBetween (100001, 100002) (100001, 100003) τ τ' σ ∧
      KeepsLedger τ.store τ'.store ∧ KeepsLedger τ.store σ.store := by
  obtain ⟨s, rows, pairs, added, hs, hfound⟩ :=
    reached_threeFound (G := fun _ _ _ => True) fun _ _ _ _ => trivial
  have hseen : Lists ReadOrder.any.candidates [] s.candidates := by
    rw [hfound.unrecorded]
    exact lists_empty
  have hnone : ∀ k, s.candidates k = none := fun k => by rw [hfound.unrecorded]; rfl
  have hclients : (fun i => (lateCalls i).prog)
      = lateAt (lateCalls .slow).prog (lateCalls .fast).prog (lateCalls .commander).prog := by
    funext i
    rcases i <;> rfl
  have hstart : Sys.Reaches (exec .any) InsertsLand ⟨s, fun i => (lateCalls i).prog⟩
      ⟨s, lateAt (lateCalls .slow).prog (lateCalls .fast).prog (lateCalls .commander).prog⟩ := by
    rw [hclients]
    exact .refl
  -- what the two listings are to insert
  obtain ⟨⟨k₁, c₁⟩, added₁, rfl, hr₁, hkeys₁⟩ := List.map_eq_cons_iff.mp hfound.keys
  obtain ⟨⟨k₂, c₂⟩, added₂, rfl, hr₂, -⟩ := List.map_eq_cons_iff.mp hkeys₁
  obtain ⟨p₁, pairs₁, hp₁, hsnaps₁, rfl⟩ := List.forall₂_cons_right_iff.mp hfound.snapshots
  obtain ⟨p₂, pairs₂, hp₂, -, rfl⟩ := List.forall₂_cons_right_iff.mp hsnaps₁
  obtain ⟨rfl, hst₁⟩ := Prod.mk.inj hr₁
  obtain ⟨rfl, hst₂⟩ := Prod.mk.inj hr₂
  have hins : ∀ f : Unit → Client Outcome,
      insertCandidates (fun _ => 1) (fetchNets rows) (p₁ :: p₂ :: pairs₂) >>= f
        = .call (.candidatesInsert (100001, 100002) c₁) fun _ =>
            .call (.candidatesInsert (100001, 100003) c₂) fun _ =>
              insertCandidates (fun _ => 1) (fetchNets rows) pairs₂ >>= f := by
    intro f
    rw [insertCandidates_cons (fun _ => 1) hp₁, insertCandidates_cons (fun _ => 1) hp₂]
  obtain ⟨f, h₁⟩ := reaches_listed (i := LateClient.slow) hstart rfl hfound.read hfound.ne_nil
    hseen hfound.proposed
  rw [update_lateAt_slow] at h₁
  obtain ⟨f', h₂⟩ := reaches_listed (i := LateClient.fast) h₁ rfl hfound.read hfound.ne_nil
    hseen hfound.proposed
  rw [update_lateAt_fast, hins, hins] at h₂
  -- the slow one inserts the first pair, and the commander reads it
  obtain ⟨s₁, hs₁⟩ : ∃ s₁, s₁ = s.apply (.candidatesInsert (100001, 100002) c₁) := ⟨_, rfl⟩
  have hinsert : exec .any s (.candidatesInsert (100001, 100002) c₁) ⟨⟩ s₁ := ⟨trivial, hs₁⟩
  have h₃ := reaches_request (i := LateClient.slow) h₂ rfl hinsert fun key row he => by
    obtain ⟨rfl, rfl⟩ := Req.candidatesInsert.inj he
    exact mayInsert_of_ne (hnone _)
  have hc₁ : s₁.candidates (100001, 100002) = some c₁ := by
    rw [hs₁]
    show s.candidates.upsert (100001, 100002) c₁ (100001, 100002) = _
    rw [Table.upsert_apply, if_pos rfl]
  have hc₂ : s₁.candidates (100001, 100003) = none := by
    rw [hs₁]
    show s.candidates.upsert (100001, 100002) c₁ (100001, 100003) = _
    rw [Table.upsert_apply, if_neg (by decide), hnone]
  have hreads : (lateCalls .commander).prog = .call (.candidatesGet (100001, 100002)) fun x =>
      afterCandidate ⟨100001, 100002, .reject, 2⟩ x >>= fun res => .ret (.decided res) := by
    show DecisionCall.prog ⟨100001, 100002, .reject, 2⟩ >>= _ = _
    rw [prog_eq_call (d := ⟨100001, 100002, .reject, 2⟩) fun _ he => nomatch he]
    rfl
  have hget : exec .any s₁ (.candidatesGet (100001, 100002)) (some c₁) s₁ := ⟨hc₁.symm, rfl⟩
  have h₄ := reaches_request (i := LateClient.commander) h₃ hreads hget fun _ _ he => nomatch he
  have hrejecting : afterCandidate ⟨100001, 100002, .reject, 2⟩ (some c₁)
      = DecisionPoint.rejecting.prog ⟨100001, 100002, .reject, 2⟩ := by
    unfold afterCandidate
    dsimp only
    rw [if_neg (not_not.mpr hst₁)]
    rfl
  rw [update_lateAt_slow, update_lateAt_commander, hrejecting] at h₄
  obtain ⟨τ', σ, h⟩ := landsBetween (by decide) hc₁ hc₂ hst₁ hst₂
  have hkept := ledger_kept_iff (fun i => by rcases i <;> trivial) h₄
  exact ⟨s, _, τ', σ, hs, h₄, h, (hkept.2 _ _ h.step).mpr h.land,
    hkept.1 _ (.head ⟨_, h.land, h.step⟩ h.rest)⟩

/-! ## A detection that is late -/

/-- A listing that has read the nets and that no pair is recorded has the inserts still to do. -/
theorem steps_list {ord : ReadOrder} {s : Store} {M : MathFns} {cfg : MergeConfig}
    {clock : ListClock} {rows : List (ℤ × Net)} {pairs : List (ℤ × ℤ × Reasons)}
    (hrows : Lists ord.building rows s.building) (hne : rows ≠ [])
    (hseen : Lists ord.candidates [] s.candidates)
    (hpairs : proposePairs M cfg (fetchNets rows) = .ok pairs) :
    ∃ f : Unit → Client Outcome, Steps (exec ord) s (Call.list M cfg clock).prog s
      (insertCandidates clock.detectedAt (fetchNets rows) pairs >>= f) := by
  obtain ⟨k₁, k₂, f, hprog, hk₁, hk₂⟩ := list_reads clock hne hpairs
  have hread : Steps (exec ord) s (k₁ rows) s
      (insertCandidates clock.detectedAt (fetchNets rows) pairs >>= f) := by
    have hans : exec ord s .candidatesFindAll [] s := ⟨hseen, rfl⟩
    rw [hk₁]
    refine .call hans ?_
    rw [hk₂]
    exact .refl _ _
  rw [hprog]
  exact ⟨f, .call ⟨hrows, rfl⟩ hread⟩

/-- The slow listing reads that no pair is recorded, the fast one records all three, one is
rejected, and then the slow one inserts it again. -/
theorem decision_undone_threeNets :
    ∃ s σ σ', Reached .any (fun _ _ _ => True) .empty s ∧ (∀ i, (lateCalls i).OnLedger) ∧
      Sys.Reaches (exec .any) (fun _ _ => True) ⟨s, fun i => (lateCalls i).prog⟩ σ ∧
      Sys.Reaches (exec .any) (fun _ _ => True) σ σ' ∧
      (∃ c, σ.store.candidates (100001, 100002) = some c ∧ c.status = some .rejected) ∧
      ∃ c, σ'.store.candidates (100001, 100002) = some c ∧ c.status = some .pending := by
  obtain ⟨s, rows, pairs, added, hs, hfound⟩ :=
    reached_threeFound (G := fun _ _ _ => True) fun _ _ _ _ => trivial
  have hseen : Lists ReadOrder.any.candidates [] s.candidates := by
    rw [hfound.unrecorded]
    exact lists_empty
  -- the slow listing, up to its first insert
  obtain ⟨f, hslow⟩ : ∃ f : Unit → Client Outcome, Steps (exec .any) s (lateCalls .slow).prog s
      (insertCandidates (fun _ => 1) (fetchNets rows) pairs >>= f) :=
    steps_list hfound.read hfound.ne_nil hseen hfound.proposed
  -- the fast listing, and the decision on what it recorded
  obtain ⟨res, hfast⟩ := hfound.run
  have hfast' : Run (exec .any) s (lateCalls .fast).prog _ _ :=
    run_list_ok_iff.mpr ⟨res, hfast, rfl⟩
  obtain ⟨c, hc, hp⟩ := hfound.threeNets.pairs (100001, 100002) (by simp)
  have hreject : Decided .any _ 100001 100002 2 .reject _ := .reject hc hp
  obtain ⟨res', hdecide⟩ := hreject.run (by decide)
  have hdecide' : Run (exec .any) _ (lateCalls .commander).prog _ _ :=
    run_decide_ok_iff.mpr ⟨res', hdecide, rfl⟩
  -- the slow one goes on
  have hinsert : ∀ t, Run (exec .any) t (insertCandidates (fun _ => 1) (fetchNets rows) pairs) _
      (.ok ⟨⟩) := fun t => run_insertCandidates.mpr ⟨added, hfound.snapshots, rfl⟩
  have hσ : Sys.Reaches (exec .any) (fun _ _ => True) ⟨s, fun i => (lateCalls i).prog⟩ _ :=
    ((Sys.Reaches.steps .refl .slow hslow).steps .fast hfast'.steps).steps .commander
      hdecide'.steps
  refine ⟨s, _, _, hs, fun i => by rcases i <;> trivial, hσ,
    Sys.Reaches.steps .refl .slow ((hinsert _).steps.bind f), ?_, ?_⟩
  · exact ⟨_, candidates_settle_self .., rfl⟩
  · have hk : ((100001, 100002), some Status.pending) ∈ added.map fun r => (r.1, r.2.status) := by
      rw [hfound.keys]
      exact List.mem_cons_self
    obtain ⟨r, hr, he⟩ := List.mem_map.mp hk
    obtain ⟨hkey, hst⟩ := Prod.mk.inj he
    refine ⟨r.2, ?_, hst⟩
    rw [← hkey]
    exact Table.upsertAll_of_mem _ hfound.nodup_keys hr

end NetBuild
