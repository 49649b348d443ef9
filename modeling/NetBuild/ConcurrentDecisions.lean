import NetBuild.CandidateLedger
import NetBuild.GroupMoves

/-!
# Decisions at the same time

A decision checks that its pair is pending, reads the labels of its nets and the group to be
absorbed, and writes, with nothing to keep others from writing in between. Along any interleaving
in which no call acts on what another one has overwritten, each pair is decided once and the
nets of approved pairs end in one group.
-/

namespace NetBuild

open NetMerging NetMergingService
open Prog (Run Steps)

section
variable {ι : Type}

/-- The decisions stand at these points. -/
def Placed (calls : ι → DecisionCall) (pts : ι → DecisionPoint)
    (σ : Sys Store ι (Client DecisionResult)) : Prop :=
  ∀ i, σ.client i = (pts i).prog (calls i)

/-- The decision is about to write the status of its pair. -/
def DecisionPoint.Settles : DecisionPoint → Prop
  | .rejecting | .joining _ | .moving _ _ _ [] => True
  | _ => False

/-- The pair is recorded as pending. -/
def Pending (s : Store) (k : PairKey) : Prop :=
  ∃ c, s.candidates k = some c ∧ c.status = some .pending

/-- The next call of a decision acts on nothing that another one has overwritten, and overwrites
nothing that another one relies on. -/
structure Undisturbed (calls : ι → DecisionCall) (pts : ι → DecisionPoint) (s : Store) (i : ι) :
    Prop where
  settles : (pts i).Settles → Pending s (calls i).key
  scans : ∀ hi lo, pts i = .scanning hi lo → GroupFits s hi
  moves : ∀ hi lo count r rest, pts i = .moving hi lo count (r :: rest) →
    ∀ j, j ≠ i → ¬ (pts j).Relies hi ∧ ¬ (pts j).Absorbs lo

/-- So wherever the decisions stand. -/
def undisturbed (calls : ι → DecisionCall) (σ : Sys Store ι (Client DecisionResult)) (i : ι) :
    Prop :=
  ∀ pts, Placed calls pts σ → Undisturbed calls pts σ.store i

/-- What holds along the interleaving. -/
structure DecisionsAgree (calls : ι → DecisionCall) (pts : ι → DecisionPoint) (s : Store) :
    Prop where
  merges : MergesHold calls pts s
  decided : ∀ i res, pts i = .done res → ¬ Pending s (calls i).key
  once : ∀ i j res res', pts i = .done res → pts j = .done res' →
    (calls i).key = (calls j).key → i = j

end

/-! ## One call -/

section
variable {ord : ReadOrder} {d : DecisionCall} {s s' : Store} {pt pt' : DecisionPoint}

/-- A decision is done exactly when it writes the status of its pair, and no other call of it
touches the candidates. -/
theorem DecisionStep.candidates_cases (h : DecisionStep ord d s pt pt' s') :
    (s'.candidates = s.candidates ∧ ∀ res, pt' ≠ .done res) ∨
      pt.Settles ∧ ∃ status, status ≠ .pending ∧ s' = settle s d.key status d.now := by
  rcases h with _ | _ | _ | _ | _ | _ | _ | _ | _ | _ | _ | _
  case rejected => exact .inr ⟨trivial, .rejected, by decide, rfl⟩
  case joined => exact .inr ⟨trivial, .approved, by decide, rfl⟩
  case approved => exact .inr ⟨trivial, .approved, by decide, rfl⟩
  all_goals exact .inl ⟨rfl, fun _ he => nomatch he⟩

theorem pending_settle_iff {k k' : PairKey} {status : Status} {now : Time}
    (hne : status ≠ .pending) :
    Pending (settle s k status now) k' ↔ k' ≠ k ∧ Pending s k' := by
  unfold Pending
  rw [candidates_settle, Table.upsert_apply]
  by_cases hk : k' = k
  · rw [if_pos hk]
    refine iff_of_false (fun h => ?_) fun h => h.1 hk
    obtain ⟨c, hc, hp⟩ := h
    obtain rfl := Option.some.inj hc
    exact hne (Option.some.inj hp)
  · rw [if_neg hk]
    simp [hk]

variable {ι : Type} [DecidableEq ι] {calls : ι → DecisionCall} {pts : ι → DecisionPoint} {i : ι}

/-- One call of one decision, undisturbed by the others. -/
theorem DecisionsAgree.next (h : DecisionsAgree calls pts s)
    (hstep : DecisionStep ord (calls i) s (pts i) pt' s') (hG : Undisturbed calls pts s i) :
    DecisionsAgree calls (Function.update pts i pt') s' := by
  have hmerges := h.merges.decide hstep hG.scans hG.moves
  rcases hstep.candidates_cases with ⟨hc, hnot⟩ | ⟨hsettles, status, hne, rfl⟩
  · -- the decisions done are those done before
    have hdone : ∀ j res, Function.update pts i pt' j = .done res → pts j = .done res := by
      intro j res hj
      by_cases hji : j = i
      · subst hji
        rw [Function.update_self] at hj
        exact absurd hj (hnot res)
      · rwa [Function.update_of_ne hji] at hj
    refine ⟨hmerges, fun j res hj => ?_, fun j j' res res' hj hj' =>
      h.once j j' res res' (hdone j res hj) (hdone j' res' hj')⟩
    unfold Pending
    rw [hc]
    exact h.decided j res (hdone j res hj)
  · have hpend := hG.settles hsettles
    -- a decision done before was on another pair, for this one was pending
    have hdone : ∀ j res, Function.update pts i pt' j = .done res →
        j = i ∨ pts j = .done res ∧ (calls j).key ≠ (calls i).key := by
      intro j res hj
      by_cases hji : j = i
      · exact .inl hji
      · rw [Function.update_of_ne hji] at hj
        exact .inr ⟨hj, fun he => h.decided j res hj (he ▸ hpend)⟩
    refine ⟨hmerges, fun j res hj hp => ?_, fun j j' res res' hj hj' hk => ?_⟩
    · obtain ⟨hk, hp⟩ := (pending_settle_iff hne).mp hp
      rcases hdone j res hj with rfl | ⟨hj, -⟩
      · exact hk rfl
      · exact h.decided j res hj hp
    · rcases hdone j res hj with rfl | ⟨hj, hjk⟩
      · rcases hdone j' res' hj' with rfl | ⟨-, hjk'⟩
        · rfl
        · exact absurd hk.symm hjk'
      · rcases hdone j' res' hj' with rfl | ⟨hj', -⟩
        · exact absurd hk hjk
        · exact h.once j j' res res' hj hj' hk

end

/-! ## Interleavings -/

section
variable {ι : Type} [DecidableEq ι] {ord : ReadOrder} {calls : ι → DecisionCall} {s : Store}
  {σ : Sys Store ι (Client DecisionResult)}

/-- After complete calls the nets of every approved pair carry one label. -/
theorem Reached.shares (hs : Reached ord completeCalls .empty s) {a b : ℤ}
    (hab : Approved s a b) : Shares s.label a b := by
  obtain ⟨past, hs⟩ := hs
  obtain ⟨he, hne⟩ := hs.grouped.tracks.edge a b hab
  obtain ⟨l, hl⟩ := Option.ne_none_iff_exists'.mp hne
  exact ⟨l, hl, he ▸ hl⟩

omit [DecidableEq ι] in
/-- What holds at the start. -/
theorem decisionsAgree_start (hs : Reached ord completeCalls .empty s) :
    DecisionsAgree calls (fun _ => .start) s := by
  have hshares := fun a b => hs.shares (a := a) (b := b)
  obtain ⟨past, hs⟩ := hs
  exact ⟨⟨hs.grouped.labelled, fun _ => trivial, fun a b hab => .inl (hshares a b hab)⟩,
    fun _ _ he => (nomatch he), fun _ _ _ _ he => (nomatch he)⟩

theorem reaches_decisionsAgree (hs : Reached ord completeCalls .empty s)
    (h : Sys.Reaches (exec ord) (undisturbed calls) ⟨s, fun i => (calls i).prog⟩ σ) :
    ∃ pts, Placed calls pts σ ∧ DecisionsAgree calls pts σ.store := by
  refine h.invariant (I := fun σ => ∃ pts, Placed calls pts σ ∧ DecisionsAgree calls pts σ.store)
    ?_ ⟨fun _ => .start, fun _ => rfl, decisionsAgree_start hs⟩
  intro τ i τ' hI hG hstep
  obtain ⟨pts, hplaced, hagree⟩ := hI
  rcases hstep with @⟨r, k, x, s', hc, hex⟩
  have hprog : (pts i).prog (calls i) = .call r k := (hplaced i).symm.trans hc
  obtain ⟨pt', hk, hnext⟩ := decision_next hprog hex
  refine ⟨Function.update pts i pt', fun j => ?_, hagree.next hnext (hG pts hplaced)⟩
  show Function.update τ.client i (k x) j = _
  by_cases hji : j = i
  · subst hji
    rw [Function.update_self, Function.update_self, hk]
  · rw [Function.update_of_ne hji, Function.update_of_ne hji]
    exact hplaced j

/-- A decision that has no call left does not move a group. -/
theorem not_moving_of_next?_eq_none {d : DecisionCall} {pt : DecisionPoint}
    (h : (pt.prog d).next? = none) (hi lo : ℤ) (count : ℕ) (rest : List (ℤ × Net)) :
    pt ≠ .moving hi lo count rest := by
  rintro rfl
  rcases rest with _ | ⟨r, rest⟩
  · exact nomatch h
  · exact nomatch h

/-- A decision that has returned is done. -/
theorem eq_done_of_prog {d : DecisionCall} {pt : DecisionPoint} (h : (pt.prog d).Done) :
    ∃ res, pt = .done res := by
  obtain ⟨res, h⟩ := h
  rcases pt with _ | _ | _ | rowA | my | ⟨hi, lo⟩ | ⟨hi, lo, count, _ | ⟨r, rest⟩⟩ | res' | e
  case start =>
    exfalso
    by_cases hd : ∀ text, d.decision ≠ .other text
    · have := (prog_eq_call hd).symm.trans h
      exact nomatch this
    · push Not at hd
      obtain ⟨text, hd⟩ := hd
      change d.prog = _ at h
      unfold DecisionCall.prog at h
      rw [hd] at h
      exact nomatch h
  case done => exact ⟨res', rfl⟩
  all_goals exact nomatch h

/-- Decisions undisturbed by each other: when all have ended, no two that succeeded were on one
pair, and the nets of every approved pair carry one label. -/
theorem decisions_agree (hs : Reached ord completeCalls .empty s)
    (h : Sys.Reaches (exec ord) (undisturbed calls) ⟨s, fun i => (calls i).prog⟩ σ)
    (hend : ∀ i, (σ.client i).next? = none) :
    (∀ i j, (σ.client i).Done → (σ.client j).Done → (calls i).key = (calls j).key → i = j) ∧
      ∀ a b, Approved σ.store a b →
        ∃ my, σ.store.label a = some my ∧ σ.store.label b = some my := by
  obtain ⟨pts, hplaced, hagree⟩ := reaches_decisionsAgree hs h
  refine ⟨fun i j hi hj => ?_, fun a b hab => ?_⟩
  · rw [hplaced] at hi hj
    obtain ⟨res, hres⟩ := eq_done_of_prog hi
    obtain ⟨res', hres'⟩ := eq_done_of_prog hj
    exact hagree.once i j res res' hres hres'
  · refine (hagree.merges.joined a b hab).resolve_right fun hm => ?_
    obtain ⟨i, hi, lo, count, rest, hpt, -⟩ := hm
    have hnone := hend i
    rw [hplaced] at hnone
    exact not_moving_of_next?_eq_none hnone hi lo count rest hpt

end

/-! ## Interleavings on given points -/

section
variable {d : DecisionCall} {pt pt' : DecisionPoint}

theorem DecisionPoint.Alike.settles (h : pt.Alike pt') (hs : pt'.Settles) : pt.Settles := by
  rcases h with _ | hl | @⟨hi, lo, count, count', rest, rest', hr⟩ | e | e
  · exact hs
  · exact hs
  · rcases rest' with _ | ⟨r', rest'⟩
    · rw [hr.mpr rfl]
      trivial
    · exact hs.elim
  · exact hs
  · exact hs

theorem DecisionPoint.Alike.scanning_left {hi lo : ℤ} (h : pt.Alike (.scanning hi lo)) :
    pt = .scanning hi lo := by
  rcases h
  rfl

theorem DecisionPoint.Alike.moving_left {hi lo : ℤ} {count : ℕ} {r : ℤ × Net}
    {rest : List (ℤ × Net)} (h : pt.Alike (.moving hi lo count (r :: rest))) :
    ∃ count' r' rest', pt = .moving hi lo count' (r' :: rest') := by
  rcases h with _ | _ | @⟨_, _, count', _, rest', _, hr⟩
  · exact ⟨_, _, _, rfl⟩
  · rcases rest' with _ | ⟨r', rest'⟩
    · exact nomatch hr.mp rfl
    · exact ⟨_, _, _, rfl⟩

theorem DecisionPoint.Alike.relies (h : pt.Alike pt') {l : ℤ} (hl : pt'.Relies l) :
    pt.Relies l := by
  rcases h with _ | @⟨rowA, rowA', hmap⟩ | _ | e | e
  · exact hl
  · obtain ⟨x', rfl, hmy⟩ := hl
    obtain ⟨x, rfl, hx⟩ := Option.map_eq_some_iff.mp hmap
    exact ⟨x, rfl, hx.trans hmy⟩
  · exact hl
  · exact hl
  · exact hl

theorem DecisionPoint.Alike.absorbs (h : pt.Alike pt') {l : ℤ} (hl : pt'.Absorbs l) :
    pt.Absorbs l := by
  rcases h with _ | _ | _ | e | e
  all_goals exact hl

end

section
variable {ι : Type} {calls : ι → DecisionCall} {pts : ι → DecisionPoint} {i : ι}
  {σ : Sys Store ι (Client DecisionResult)}

/-- What is looked at is told by the programs. -/
theorem Undisturbed.undisturbed (h : Undisturbed calls pts σ.store i) (hp : Placed calls pts σ) :
    NetBuild.undisturbed calls σ i := by
  intro pts' hp'
  have hal : ∀ j, (pts j).Alike (pts' j) := fun j => alike_of_prog_eq ((hp j).symm.trans (hp' j))
  refine ⟨fun hs => h.settles ((hal i).settles hs), fun hi lo he => ?_,
    fun hi lo count r rest he j hj => ?_⟩
  · have hi' := hal i
    rw [he] at hi'
    exact h.scans hi lo hi'.scanning_left
  · have hi' := hal i
    rw [he] at hi'
    obtain ⟨_, _, _, hm⟩ := hi'.moving_left
    obtain ⟨hr, ha⟩ := h.moves _ _ _ _ _ hm j hj
    exact ⟨fun hl => hr ((hal j).relies hl), fun hl => ha ((hal j).absorbs hl)⟩

end

section
variable {ι : Type} [DecidableEq ι] {ord : ReadOrder} {calls : ι → DecisionCall}
  {pts : ι → DecisionPoint} {i : ι} {s s' : Store} {σ₀ : Sys Store ι (Client DecisionResult)}

/-- The system with the decisions at these points. -/
def sysAt (calls : ι → DecisionCall) (pts : ι → DecisionPoint) (s : Store) :
    Sys Store ι (Client DecisionResult) :=
  ⟨s, fun i => (pts i).prog (calls i)⟩

/-- The interleaving goes on with one call of one decision. -/
theorem reaches_next {pt pt' : DecisionPoint} {r : Req} {k : r.Resp → Client DecisionResult}
    {x : r.Resp} (h : Sys.Reaches (exec ord) (undisturbed calls) σ₀ (sysAt calls pts s))
    (hi : pts i = pt) (hG : Undisturbed calls pts s i) (hcall : pt.prog (calls i) = .call r k)
    (hex : exec ord s r x s') (hnext : k x = pt'.prog (calls i)) :
    Sys.Reaches (exec ord) (undisturbed calls) σ₀
      (sysAt calls (Function.update pts i pt') s') := by
  have hu : undisturbed calls (sysAt calls pts s) i :=
    Undisturbed.undisturbed (σ := sysAt calls pts s) hG fun _ => rfl
  have hclient : (sysAt calls pts s).client i = .call r k := by
    rw [← hcall, ← hi]
    rfl
  have hstep := Sys.Step.mk (σ := sysAt calls pts s) hclient hex
  have hupd : Function.update (sysAt calls pts s).client i (k x)
      = (sysAt calls (Function.update pts i pt') s').client := by
    funext j
    show _ = (Function.update pts i pt' j).prog (calls j)
    by_cases hj : j = i
    · subst hj
      rw [Function.update_self, Function.update_self, hnext]
    · rw [Function.update_of_ne hj, Function.update_of_ne hj]
      rfl
  rw [hupd] at hstep
  exact h.tail ⟨i, hu, hstep⟩

omit [DecidableEq ι] in
/-- A decision that has yet to write and whose group fits is not disturbed. -/
theorem undisturbed_reading (hfit : GroupsFit s) (hset : ¬ (pts i).Settles)
    (hmove : ∀ hi lo count rest, pts i ≠ .moving hi lo count rest) : Undisturbed calls pts s i :=
  ⟨fun hs => absurd hs hset, fun hi _ _ => hfit hi, fun hi lo count r rest he =>
    absurd he (hmove hi lo count (r :: rest))⟩

/-- An approval goes on until it has read the group to be absorbed. -/
theorem reaches_scanned {c : Candidate} {x y : Net} {myA myB : ℤ} {all : List (ℤ × Net)}
    (h : Sys.Reaches (exec ord) (undisturbed calls) σ₀ (sysAt calls pts s))
    (hi : pts i = .start) (happ : (calls i).decision = .approve) (hfit : GroupsFit s)
    (hc : s.candidates (calls i).key = some c) (hp : c.status = some .pending)
    (hx : s.building (calls i).key.1 = some x) (hy : s.building (calls i).key.2 = some y)
    (hA : x.myNetId = some myA) (hB : y.myNetId = some myB) (hne : myA ≠ myB)
    (hall : Lists ord.building all s.building) :
    Sys.Reaches (exec ord) (undisturbed calls) σ₀
      (sysAt calls (Function.update pts i
        (.moving (max myA myB) (min myA myB) (scanned all (max myA myB)).length
          (scanned all (max myA myB)))) s) := by
  have hd : ∀ text, (calls i).decision ≠ .other text := by
    intro text he
    rw [happ] at he
    exact nomatch he
  have hcand : afterCandidate (calls i) (s.candidates (calls i).key)
      = DecisionPoint.readA.prog (calls i) := by
    rw [hc]
    unfold afterCandidate
    dsimp only
    rw [if_neg (not_not.mpr hp), if_neg (by rw [happ]; decide)]
    rfl
  have hreads : afterReads (calls i) (some x) (s.building (calls i).key.2)
      = (DecisionPoint.scanning (max myA myB) (min myA myB)).prog (calls i) := by
    rw [hy]
    show approve _ _ _ x.myNetId y.myNetId = _
    unfold approve
    rw [hA, hB, if_neg fun he => hne (Option.some.inj he)]
    rfl
  have h₁ := reaches_next h hi (undisturbed_reading hfit (by rw [hi]; exact id)
    (by rw [hi]; exact fun _ _ _ _ he => nomatch he)) (prog_eq_call hd) ⟨rfl, rfl⟩ hcand
  have h₂ := reaches_next h₁ (Function.update_self ..) (undisturbed_reading hfit
    (by rw [Function.update_self]; exact id)
    (by rw [Function.update_self]; exact fun _ _ _ _ he => nomatch he)) rfl ⟨rfl, rfl⟩
    (show _ = (DecisionPoint.readB (s.building (calls i).key.1)).prog (calls i) from rfl)
  rw [Function.update_idem, hx] at h₂
  have h₃ := reaches_next h₂ (Function.update_self ..) (undisturbed_reading hfit
    (by rw [Function.update_self]; exact id)
    (by rw [Function.update_self]; exact fun _ _ _ _ he => nomatch he)) rfl ⟨rfl, rfl⟩ hreads
  rw [Function.update_idem] at h₃
  have h₄ := reaches_next h₃ (Function.update_self ..) (undisturbed_reading hfit
    (by rw [Function.update_self]; exact id)
    (by rw [Function.update_self]; exact fun _ _ _ _ he => nomatch he)) rfl
    ⟨⟨all, hall, rfl⟩, rfl⟩
    (show _ = (DecisionPoint.moving (max myA myB) (min myA myB)
      (scanned all (max myA myB)).length (scanned all (max myA myB))).prog (calls i) from rfl)
  rw [Function.update_idem] at h₄
  exact h₄

/-- It moves a row of the group, which no other one relies on. -/
theorem reaches_moved {hi lo : ℤ} {count : ℕ} {r : ℤ × Net} {rest : List (ℤ × Net)}
    (h : Sys.Reaches (exec ord) (undisturbed calls) σ₀ (sysAt calls pts s))
    (hpt : pts i = .moving hi lo count (r :: rest))
    (hfree : ∀ j, j ≠ i → ¬ (pts j).Relies hi ∧ ¬ (pts j).Absorbs lo) :
    Sys.Reaches (exec ord) (undisturbed calls) σ₀
      (sysAt calls (Function.update pts i (.moving hi lo count rest))
        (s.apply (.buildingUpdate r.1 lo (calls i).now))) := by
  have hG : Undisturbed calls pts s i := by
    refine ⟨fun hs => ?_, fun hi lo he => ?_, fun hi' lo' count' r' rest' he => ?_⟩
    · rw [hpt] at hs
      exact hs.elim
    · rw [hpt] at he
      exact nomatch he
    · rw [hpt] at he
      obtain ⟨⟩ := he
      exact hfree
  have hex : exec ord s (.buildingUpdate r.1 lo (calls i).now) ⟨⟩
      (s.apply (.buildingUpdate r.1 lo (calls i).now)) := ⟨trivial, rfl⟩
  exact reaches_next h hpt hG rfl hex rfl

/-- The whole group moved, it approves its pair, which is still pending. -/
theorem reaches_settled {hi lo : ℤ} {count : ℕ}
    (h : Sys.Reaches (exec ord) (undisturbed calls) σ₀ (sysAt calls pts s))
    (hpt : pts i = .moving hi lo count []) (hp : Pending s (calls i).key) :
    ∃ res, Sys.Reaches (exec ord) (undisturbed calls) σ₀
      (sysAt calls (Function.update pts i (.done res))
        (settle s (calls i).key .approved (calls i).now)) := by
  have hG : Undisturbed calls pts s i := by
    refine ⟨fun _ => hp, fun hi lo he => ?_, fun hi' lo' count' r' rest' he => ?_⟩
    · rw [hpt] at he
      exact nomatch he
    · rw [hpt] at he
      exact nomatch he
  have hex : exec ord s (.candidatesUpdate (calls i).key .approved (calls i).now) ⟨⟩
      (settle s (calls i).key .approved (calls i).now) := ⟨trivial, rfl⟩
  exact ⟨_, reaches_next h hpt hG rfl hex rfl⟩

end

/-! ## Two commanders -/

/-- Two commanders at work. -/
inductive Commander
  | first | second
  deriving DecidableEq

/-- Two commanders approve two pairs with a net in common. -/
def adjoining : Commander → DecisionCall
  | .first => ⟨100001, 100002, .approve, 2⟩
  | .second => ⟨100001, 100003, .approve, 3⟩

/-- Both have read the groups to be absorbed. -/
def bothRead (r₂ r₃ : ℤ × Net) : Commander → DecisionPoint
  | .first => .moving 2 1 1 [r₂]
  | .second => .moving 3 1 1 [r₃]

/-- Both have read what they need before either one writes, and their writes alternate. The three
nets end in one group. -/
theorem decisions_agree_adjoining :
    ∃ s τ σ, Reached .any completeCalls .empty s ∧
      Sys.Reaches (exec .any) (undisturbed adjoining) ⟨s, fun i => (adjoining i).prog⟩ τ ∧
      τ.store = s ∧ (∀ i, ∃ n my now, (τ.client i).next? = some (.buildingUpdate n my now)) ∧
      Sys.Reaches (exec .any) (undisturbed adjoining) τ σ ∧ (∀ i, (σ.client i).Done) ∧
      Approved σ.store 100001 100002 ∧ Approved σ.store 100001 100003 ∧
      (∃ my, σ.store.label 100001 = some my ∧ σ.store.label 100002 = some my) ∧
      ∃ my, σ.store.label 100001 = some my ∧ σ.store.label 100003 = some my := by
  obtain ⟨s, hs, hthree⟩ := reached_threeNets (G := completeCalls)
    (fun s c out hc => ⟨⟨out, rfl⟩, by
      rcases c <;> first | trivial | exact (hc _ _ _ _ rfl).elim⟩)
  obtain ⟨x₁, x₂, x₃, hnets, h₁, h₂, h₃⟩ := hthree.nets
  have hx₁ := (hnets.mem_iff 100001 x₁).mp (by simp)
  have hx₂ := (hnets.mem_iff 100002 x₂).mp (by simp)
  have hx₃ := (hnets.mem_iff 100003 x₃).mp (by simp)
  obtain ⟨c, hc, hp⟩ := hthree.pairs (100001, 100002) (by simp)
  obtain ⟨c', hc', hp'⟩ := hthree.pairs (100001, 100003) (by simp)
  have hall : Lists ReadOrder.any.building _ s.building := lists_any hnets
  have hgroup₂ : scanned [(100001, x₁), (100002, x₂), (100003, x₃)] (max 1 2)
      = [(100002, x₂)] := by
    unfold scanned
    simp [h₁, h₂, h₃, groupLimit]
  have hgroup₃ : scanned [(100001, x₁), (100002, x₂), (100003, x₃)] (max 1 3)
      = [(100003, x₃)] := by
    unfold scanned
    simp [h₁, h₂, h₃, groupLimit]
  -- the reads of the one, and then those of the other
  have hstart : Sys.Reaches (exec .any) (undisturbed adjoining)
      ⟨s, fun i => (adjoining i).prog⟩ (sysAt adjoining (fun _ => .start) s) := .refl
  have hfirst := reaches_scanned (i := Commander.first) hstart rfl rfl hthree.groupsFit hc hp
    hx₁ hx₂ h₁ h₂ (by decide) hall
  have hread := reaches_scanned (i := Commander.second) hfirst rfl rfl hthree.groupsFit hc' hp'
    hx₁ hx₃ h₁ h₃ (by decide) hall
  have hboth : Sys.Reaches (exec .any) (undisturbed adjoining) ⟨s, fun i => (adjoining i).prog⟩
      (sysAt adjoining (bothRead (100002, x₂) (100003, x₃)) s) := by
    rw [hgroup₂, hgroup₃] at hread
    refine Eq.mp (congrArg (fun p => Sys.Reaches _ _ _ (sysAt adjoining p s)) ?_) hread
    funext i
    rcases i
    · rfl
    · rfl
  -- the moves of the one and of the other, and then what they write of their pairs
  have hm₀ : Sys.Reaches (exec .any) (undisturbed adjoining)
      (sysAt adjoining (bothRead (100002, x₂) (100003, x₃)) s) _ := .refl
  have hm₁ := reaches_moved (i := Commander.first) hm₀ rfl fun j hj => by
    rcases j
    · exact absurd rfl hj
    · exact ⟨show ¬ ((2 : ℤ) = 3 ∨ (2 : ℤ) = 1) by decide, show ¬ (1 : ℤ) = 3 by decide⟩
  have hm₂ := reaches_moved (i := Commander.second) hm₁ rfl fun j hj => by
    rcases j
    · exact ⟨show ¬ ((3 : ℤ) = 2 ∨ (3 : ℤ) = 1) by decide, show ¬ (1 : ℤ) = 2 by decide⟩
    · exact absurd rfl hj
  obtain ⟨res, hs₁⟩ := reaches_settled (i := Commander.first) hm₂ rfl ⟨c, hc, hp⟩
  obtain ⟨res', hs₂⟩ := reaches_settled (i := Commander.second) hs₁ rfl
    ((pending_settle_iff (by decide)).mpr ⟨by decide, c', hc', hp'⟩)
  have hap : ∀ t, Approved (settle (settle t (100001, 100002) .approved 2) (100001, 100003)
      .approved 3) 100001 100002 := fun t => (approved_settle 100001 100002).mpr
    (.inr ⟨by decide, (approved_settle 100001 100002).mpr (.inl ⟨rfl, rfl⟩)⟩)
  have hap' : ∀ t, Approved (settle t (100001, 100003) .approved 3) 100001 100003 :=
    fun t => (approved_settle 100001 100003).mpr (.inl ⟨rfl, rfl⟩)
  have hagree := decisions_agree hs (hboth.trans hs₂) fun i => by
    rcases i
    · rfl
    · rfl
  refine ⟨s, _, _, hs, hboth, rfl, fun i => ?_, hs₂, fun i => ?_, hap _,
    hap' _, hagree.2 _ _ (hap _), hagree.2 _ _ (hap' _)⟩
  · rcases i
    · exact ⟨_, _, _, rfl⟩
    · exact ⟨_, _, _, rfl⟩
  · rcases i
    · exact ⟨_, rfl⟩
    · exact ⟨_, rfl⟩

/-- One approves a pair and the other one rejects it. -/
def opposite : Commander → DecisionCall
  | .first => ⟨100001, 100002, .approve, 2⟩
  | .second => ⟨100001, 100002, .reject, 3⟩

/-- The second one has read that the pair is pending when the first one approves it, and then
rejects it. -/
theorem pair_decided_twice :
    ∃ s σ, Reached .any completeCalls .empty s ∧
      (∀ i, Pending s (opposite i).key) ∧
      Sys.Reaches (exec .any) (fun _ _ => True) ⟨s, fun i => (opposite i).prog⟩ σ ∧
      (∀ i, (σ.client i).Done) ∧ (opposite .first).key = (opposite .second).key := by
  obtain ⟨s, hs, hthree⟩ := reached_threeNets (G := completeCalls)
    (fun s c out hc => ⟨⟨out, rfl⟩, by
      rcases c <;> first | trivial | exact (hc _ _ _ _ rfl).elim⟩)
  obtain ⟨x₁, x₂, x₃, hnets, h₁, h₂, h₃⟩ := hthree.nets
  obtain ⟨c, hc, hp⟩ := hthree.pairs (100001, 100002) (by simp)
  have hreads : Steps (exec .any) s (opposite .second).prog s
      (DecisionPoint.rejecting.prog (opposite .second)) := (steps_start hc hp).1 rfl
  have hdec : Decided .any s 100001 100002 2 .approve _ :=
    .approve hc hp (.moved ((hnets.mem_iff 100001 x₁).mp (by simp))
      ((hnets.mem_iff 100002 x₂).mp (by simp)) h₁ h₂ (by decide) (lists_any hnets))
  obtain ⟨res, hrun⟩ := hdec.run (by decide)
  have happroves : Run (exec .any) s (opposite .first).prog _ (.ok res) := hrun
  have hrejects : ∀ t, Steps (exec .any) t (DecisionPoint.rejecting.prog (opposite .second)) _
      (.ret _) := fun t => .call (x := ⟨⟩) ⟨trivial, rfl⟩ (.refl _ _)
  have hσ : Sys.Reaches (exec .any) (fun _ _ => True) ⟨s, fun i => (opposite i).prog⟩ _ :=
    ((Sys.Reaches.steps .refl .second hreads).steps .first happroves.steps).steps .second
      (hrejects _)
  refine ⟨s, _, hs, fun i => ?_, hσ, fun i => ?_, rfl⟩
  · rcases i
    · exact ⟨c, hc, hp⟩
    · exact ⟨c, hc, hp⟩
  · rcases i
    · exact ⟨_, rfl⟩
    · exact ⟨_, rfl⟩

end NetBuild
