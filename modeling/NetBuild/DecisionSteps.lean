import NetBuild.NetMergingServiceTheorems

/-!
# A decision, call by call

Where a decision stands between two repository calls, the program it has still to run there,
and what its next call does: `decision_next` says all of it, so that interleaved decisions are
reasoned about without unfolding `applyDecision` again.
-/

namespace NetBuild

open NetMerging NetMergingService
open Prog (request Steps)

/-- The arguments of `apply_decision`, and the time it is made at. -/
structure DecisionCall where
  netA : ℤ
  netB : ℤ
  decision : Decision
  now : Time

/-- The pair decided, in order. -/
def DecisionCall.key (d : DecisionCall) : PairKey := pairKey d.netA d.netB

def DecisionCall.prog (d : DecisionCall) : Client DecisionResult :=
  applyDecision d.netA d.netB d.decision d.now

/-- Where a decision stands. -/
inductive DecisionPoint
  /-- Nothing was read yet. -/
  | start
  /-- The pair was pending and is to be rejected. -/
  | rejecting
  /-- The pair was pending and the row of its first net is to be read. -/
  | readA
  /-- The row of the second net is to be read. -/
  | readB (rowA : Option Net)
  /-- The two nets had the same label. -/
  | joining (my : Option ℤ)
  /-- They had different ones, and the group with the greater one is to be read. -/
  | scanning (hi lo : ℤ)
  /-- These rows are still to be moved. -/
  | moving (hi lo : ℤ) (count : ℕ) (rest : List (ℤ × Net))
  | done (res : DecisionResult)
  | raised (e : PyError)

/-- What an approval does after it has read both rows. -/
def afterReads (d : DecisionCall) (rowA rowB : Option Net) : Client DecisionResult :=
  match rowA, rowB with
  | some x, some y => approve d.now d.key.1 d.key.2 x.myNetId y.myNetId
  | _, _ => .raise (.lookupError "one or both nets no longer exist in ff_net_building")

/-- What a decision does after it has read the candidate. -/
def afterCandidate (d : DecisionCall) (candidate : Option Candidate) : Client DecisionResult :=
  match candidate with
  | none => .raise (.lookupError s!"no merge candidate recorded for ({d.key.1}, {d.key.2})")
  | some c =>
    if c.status ≠ some .pending then
      .raise (.valueError s!"({d.key.1}, {d.key.2}) was already {statusText c.status}")
    else if d.decision = .reject then do
      request (Req.candidatesUpdate d.key .rejected d.now)
      return { netA := d.key.1, netB := d.key.2, decision := d.decision }
    else do
      let rowA ← request (Req.buildingGet d.key.1)
      let rowB ← request (Req.buildingGet d.key.2)
      afterReads d rowA rowB

/-- The program still to run. -/
def DecisionPoint.prog (d : DecisionCall) : DecisionPoint → Client DecisionResult
  | .start => d.prog
  | .rejecting => do
    request (Req.candidatesUpdate d.key .rejected d.now)
    return { netA := d.key.1, netB := d.key.2, decision := d.decision }
  | .readA => do
    let rowA ← request (Req.buildingGet d.key.1)
    let rowB ← request (Req.buildingGet d.key.2)
    afterReads d rowA rowB
  | .readB rowA => do
    let rowB ← request (Req.buildingGet d.key.2)
    afterReads d rowA rowB
  | .joining my => do
    request (Req.candidatesUpdate d.key .approved d.now)
    return {
      netA := d.key.1, netB := d.key.2, decision := .approve, survivorMyNetId := my
      netsMoved := some 0 }
  | .scanning hi lo => do
    let rows ← request (Req.buildingFind hi groupLimit)
    moveRows d.now lo rows
    request (Req.candidatesUpdate d.key .approved d.now)
    return {
      netA := d.key.1, netB := d.key.2, decision := .approve, survivorMyNetId := some lo
      absorbedMyNetId := some hi, netsMoved := some rows.length }
  | .moving hi lo count rest => do
    moveRows d.now lo rest
    request (Req.candidatesUpdate d.key .approved d.now)
    return {
      netA := d.key.1, netB := d.key.2, decision := .approve, survivorMyNetId := some lo
      absorbedMyNetId := some hi, netsMoved := some count }
  | .done res => .ret res
  | .raised e => .raise e

/-- What the next call of a decision does, by where the decision stands. -/
inductive DecisionStep (ord : ReadOrder) (d : DecisionCall) (s : Store) :
    DecisionPoint → DecisionPoint → Store → Prop
  | refused (e : PyError) : DecisionStep ord d s .start (.raised e) s
  | toReject {c : Candidate} (row : s.candidates d.key = some c)
      (pending : c.status = some .pending) : DecisionStep ord d s .start .rejecting s
  | toApprove {c : Candidate} (row : s.candidates d.key = some c)
      (pending : c.status = some .pending) : DecisionStep ord d s .start .readA s
  | rejected (res : DecisionResult) :
      DecisionStep ord d s .rejecting (.done res) (settle s d.key .rejected d.now)
  | readA : DecisionStep ord d s .readA (.readB (s.building d.key.1)) s
  | refusedB (rowA : Option Net) (e : PyError) :
      DecisionStep ord d s (.readB rowA) (.raised e) s
  | same {x y : Net} (rowB : s.building d.key.2 = some y) (same : x.myNetId = y.myNetId) :
      DecisionStep ord d s (.readB (some x)) (.joining x.myNetId) s
  | differ {x y : Net} {myA myB : ℤ} (rowB : s.building d.key.2 = some y)
      (labelA : x.myNetId = some myA) (labelB : y.myNetId = some myB) (ne : myA ≠ myB) :
      DecisionStep ord d s (.readB (some x)) (.scanning (max myA myB) (min myA myB)) s
  | joined (my : Option ℤ) (res : DecisionResult) :
      DecisionStep ord d s (.joining my) (.done res) (settle s d.key .approved d.now)
  | scanned (hi lo : ℤ) {all : List (ℤ × Net)} (read : Lists ord.building all s.building) :
      DecisionStep ord d s (.scanning hi lo)
        (.moving hi lo (scanned all hi).length (scanned all hi)) s
  | moved (hi lo : ℤ) (count : ℕ) (r : ℤ × Net) (rest : List (ℤ × Net)) :
      DecisionStep ord d s (.moving hi lo count (r :: rest)) (.moving hi lo count rest)
        (s.apply (.buildingUpdate r.1 lo d.now))
  | approved (hi lo : ℤ) (count : ℕ) (res : DecisionResult) :
      DecisionStep ord d s (.moving hi lo count []) (.done res) (settle s d.key .approved d.now)

section
variable {ord : ReadOrder} {d : DecisionCall} {s s' : Store} {r : Req}
  {k : r.Resp → Client DecisionResult} {x : r.Resp}

/-- With both rows read, the decision is at one of three points. -/
theorem afterReads_eq (d : DecisionCall) (rowA rowB : Option Net) :
    (∃ e, afterReads d rowA rowB = (DecisionPoint.raised e).prog d) ∨
      (∃ x y, rowA = some x ∧ rowB = some y ∧ x.myNetId = y.myNetId ∧
        afterReads d rowA rowB = (DecisionPoint.joining x.myNetId).prog d) ∨
      ∃ x y myA myB, rowA = some x ∧ rowB = some y ∧ x.myNetId = some myA ∧
        y.myNetId = some myB ∧ myA ≠ myB ∧ afterReads d rowA rowB
          = (DecisionPoint.scanning (max myA myB) (min myA myB)).prog d := by
  rcases rowA with _ | x
  · exact .inl ⟨_, rfl⟩
  · rcases rowB with _ | y
    · exact .inl ⟨_, rfl⟩
    · have hreads : afterReads d (some x) (some y)
          = approve d.now d.key.1 d.key.2 x.myNetId y.myNetId := rfl
      unfold approve at hreads
      split at hreads
      · next he => exact .inr (.inl ⟨x, y, rfl, rfl, he, hreads⟩)
      · next hne =>
        split at hreads
        · next myA myB hA hB =>
          exact .inr (.inr ⟨x, y, myA, myB, rfl, rfl, hA, hB,
            fun he => hne (by rw [hA, hB, he]), hreads⟩)
        · exact .inl ⟨_, hreads⟩

theorem prog_eq_call (hd : ∀ text, d.decision ≠ .other text) :
    d.prog = .call (.candidatesGet d.key) (afterCandidate d) := by
  have hprog : d.prog = decidePair d.key.1 d.key.2 d.decision d.now := by
    unfold DecisionCall.prog applyDecision
    split
    · next text hdec => exact absurd hdec (hd text)
    · rfl
  rw [hprog]
  refine congrArg (Prog.call _) (funext fun candidate => ?_)
  rcases candidate with _ | c
  · rfl
  · -- the two texts differ in how they match on the rows
    refine if_congr Iff.rfl rfl (if_congr Iff.rfl rfl ?_)
    refine congrArg (Prog.call _) (funext fun rowA => ?_)
    refine congrArg (Prog.call _) (funext fun rowB => ?_)
    rcases rowA with _ | x
    · rfl
    · rcases rowB with _ | y
      · rfl
      · rfl

/-- With the candidate read, the decision is at one of three points. -/
theorem afterCandidate_eq (hd : ∀ text, d.decision ≠ .other text) (candidate : Option Candidate) :
    (∃ e, afterCandidate d candidate = (DecisionPoint.raised e).prog d) ∨
      ∃ c, candidate = some c ∧ c.status = some .pending ∧
        (d.decision = .reject ∧ afterCandidate d candidate = DecisionPoint.rejecting.prog d ∨
          d.decision = .approve ∧ afterCandidate d candidate = DecisionPoint.readA.prog d) := by
  rcases candidate with _ | c
  · exact .inl ⟨_, rfl⟩
  · by_cases hp : c.status = some .pending
    · refine .inr ⟨c, rfl, hp, ?_⟩
      unfold afterCandidate
      dsimp only
      rw [if_neg (not_not.mpr hp)]
      by_cases hrej : d.decision = .reject
      · left
        rw [if_pos hrej]
        exact ⟨hrej, rfl⟩
      · right
        rw [if_neg hrej]
        refine ⟨?_, rfl⟩
        rcases hdec : d.decision with _ | _ | text
        · rfl
        · exact absurd hdec hrej
        · exact absurd hdec (hd text)
    · left
      unfold afterCandidate
      dsimp only
      rw [if_pos hp]
      exact ⟨_, rfl⟩

/-- The next call of a decision. -/
theorem decision_next {pt : DecisionPoint} (h : pt.prog d = .call r k)
    (hex : exec ord s r x s') : ∃ pt', k x = pt'.prog d ∧ DecisionStep ord d s pt pt' s' := by
  obtain ⟨hans, rfl⟩ := hex
  rcases pt with _ | _ | _ | rowA | my | ⟨hi, lo⟩ | ⟨hi, lo, count, rest⟩ | res | e
  case start =>
    have hd : ∀ text, d.decision ≠ .other text := by
      intro text hd
      change d.prog = _ at h
      unfold DecisionCall.prog at h
      rw [hd] at h
      exact nomatch h
    obtain ⟨⟩ := (prog_eq_call hd).symm.trans h
    rcases afterCandidate_eq hd x with ⟨e, he⟩ | ⟨c, rfl, hp, ⟨-, he⟩ | ⟨-, he⟩⟩
    · exact ⟨_, he, .refused e⟩
    · exact ⟨_, he, .toReject hans.symm hp⟩
    · exact ⟨_, he, .toApprove hans.symm hp⟩
  case rejecting =>
    obtain ⟨⟩ := h
    exact ⟨.done _, rfl, .rejected _⟩
  case readA =>
    obtain ⟨⟩ := h
    obtain rfl : x = s.building d.key.1 := hans
    exact ⟨.readB _, rfl, .readA⟩
  case readB =>
    obtain ⟨⟩ := h
    obtain rfl : x = s.building d.key.2 := hans
    rcases afterReads_eq d rowA (s.building d.key.2) with ⟨e, he⟩ |
      ⟨x, y, rfl, hy, hsame, he⟩ | ⟨x, y, myA, myB, rfl, hy, hA, hB, hne, he⟩
    · exact ⟨_, he, .refusedB rowA e⟩
    · exact ⟨_, he, .same hy hsame⟩
    · exact ⟨_, he, .differ hy hA hB hne⟩
  case joining =>
    obtain ⟨⟩ := h
    exact ⟨.done _, rfl, .joined my _⟩
  case scanning =>
    obtain ⟨⟩ := h
    obtain ⟨all, hall, rfl⟩ := hans
    exact ⟨.moving hi lo _ _, rfl, .scanned hi lo hall⟩
  case moving =>
    rcases rest with _ | ⟨r', rest⟩
    · obtain ⟨⟩ := h
      exact ⟨.done _, rfl, .approved hi lo count _⟩
    · obtain ⟨⟩ := h
      exact ⟨.moving hi lo count rest, rfl, .moved hi lo count r' rest⟩
  case done => exact nomatch h
  case raised => exact nomatch h

end

/-! ## Programs tell points apart -/

section
variable {d : DecisionCall} {pt pt' : DecisionPoint}

theorem moving_prog_inj {hi lo hi' lo' : ℤ} {count count' : ℕ} {rest rest' : List (ℤ × Net)}
    (h : (DecisionPoint.moving hi lo count rest).prog d
      = (DecisionPoint.moving hi' lo' count' rest').prog d) :
    hi = hi' ∧ lo = lo' ∧ (rest = [] ↔ rest' = []) := by
  induction rest generalizing rest' with
  | nil =>
    rcases rest' with _ | ⟨r', rest'⟩
    · have hret := congrFun (eq_of_heq (Prog.call.inj h).2) ⟨⟩
      obtain ⟨⟩ := Prog.ret.inj hret
      exact ⟨rfl, rfl, Iff.rfl⟩
    · exact nomatch h
  | cons r rest ih =>
    rcases rest' with _ | ⟨r', rest'⟩
    · exact nomatch h
    · obtain ⟨hhi, hlo, -⟩ := ih (congrFun (eq_of_heq (Prog.call.inj h).2) ⟨⟩)
      exact ⟨hhi, hlo, by simp⟩

theorem scanning_prog_inj {hi lo hi' lo' : ℤ}
    (h : (DecisionPoint.scanning hi lo).prog d = (DecisionPoint.scanning hi' lo').prog d) :
    hi = hi' ∧ lo = lo' := by
  have hrows := congrFun (eq_of_heq (Prog.call.inj h).2) []
  have hmoving : (DecisionPoint.moving hi lo 0 []).prog d
      = (DecisionPoint.moving hi' lo' 0 []).prog d :=
    hrows
  exact ⟨(moving_prog_inj hmoving).1, (moving_prog_inj hmoving).2.1⟩

theorem next?_start (d : DecisionCall) :
    d.prog.next? = some (.candidatesGet d.key) ∨ d.prog.next? = none := by
  by_cases hd : ∀ text, d.decision ≠ .other text
  · rw [prog_eq_call hd]
    exact .inl rfl
  · push Not at hd
    obtain ⟨text, hd⟩ := hd
    unfold DecisionCall.prog
    rw [hd]
    exact .inr rfl

theorem readB_prog_inj {rowA rowA' : Option Net}
    (h : (DecisionPoint.readB rowA).prog d = (DecisionPoint.readB rowA').prog d) :
    rowA.map (·.myNetId) = rowA'.map (·.myNetId) := by
  have hreads : afterReads d rowA = afterReads d rowA' := eq_of_heq (Prog.call.inj h).2
  have hsame : ∀ x : Net, afterReads d (some x) (some x)
      = (DecisionPoint.joining x.myNetId).prog d := fun x => if_pos rfl
  rcases rowA with _ | x
  · rcases rowA' with _ | x'
    · rfl
    · have := (congrFun hreads (some x')).trans (hsame x')
      exact nomatch this
  · have hx := (hsame x).symm.trans (congrFun hreads (some x))
    rcases rowA' with _ | x'
    · exact nomatch hx
    · by_contra hne
      -- with two labels the next request reads the group
      rcases afterReads_eq d (some x') (some x) with ⟨e, he⟩ | ⟨_, _, ⟨⟩, ⟨⟩, hl, -⟩ |
        ⟨_, _, myA, myB, -, -, -, -, -, he⟩
      · rw [he] at hx
        exact nomatch hx
      · exact hne (congrArg some hl.symm)
      · rw [he] at hx
        exact nomatch hx

/-- The two points differ at most in what no other decision looks at. -/
inductive DecisionPoint.Alike : DecisionPoint → DecisionPoint → Prop
  | same (pt : DecisionPoint) : Alike pt pt
  | readB {rowA rowA' : Option Net} (label : rowA.map (·.myNetId) = rowA'.map (·.myNetId)) :
      Alike (.readB rowA) (.readB rowA')
  | moving (hi lo : ℤ) {count count' : ℕ} {rest rest' : List (ℤ × Net)}
      (left : rest = [] ↔ rest' = []) :
      Alike (.moving hi lo count rest) (.moving hi lo count' rest')
  | refused (e : PyError) : Alike .start (.raised e)
  | refused' (e : PyError) : Alike (.raised e) .start

/-- A decision that has yet to begin reads its candidate or is refused. -/
theorem prog_ne_of_next? {r : Req} (hr : ∀ k, r ≠ .candidatesGet k) :
    d.prog.next? ≠ some r := by
  intro h
  rcases next?_start d with hs | hs
  · rw [hs] at h
    exact hr _ (Option.some.inj h).symm
  · rw [hs] at h
    exact nomatch h

theorem alike_of_start (h : d.prog = pt.prog d) : DecisionPoint.Alike .start pt := by
  have hne : ∀ r, (∀ k, r ≠ .candidatesGet k) → (pt.prog d).next? ≠ some r := by
    intro r hr
    rw [← h]
    exact prog_ne_of_next? hr
  rcases pt with _ | _ | _ | rowA | my | ⟨hi, lo⟩ | ⟨hi, lo, count, _ | ⟨r, rest⟩⟩ | res | e
  case start => exact .same _
  case raised => exact .refused e
  case done =>
    by_cases hd : ∀ text, d.decision ≠ .other text
    · exact nomatch (prog_eq_call hd).symm.trans h
    · push Not at hd
      obtain ⟨text, hd⟩ := hd
      unfold DecisionCall.prog at h
      rw [hd] at h
      exact nomatch h
  all_goals exact absurd rfl (hne _ fun _ he => nomatch he)

theorem readA_prog_ne (d : DecisionCall) (rowA : Option Net) :
    DecisionPoint.readA.prog d ≠ (DecisionPoint.readB rowA).prog d := by
  intro h
  have hnone := congrFun (eq_of_heq (Prog.call.inj h).2) none
  rcases rowA with _ | x
  · exact nomatch hnone
  · exact nomatch hnone

theorem DecisionPoint.Alike.symm (h : pt.Alike pt') : pt'.Alike pt := by
  rcases h with _ | hl | ⟨hi, lo, hr⟩ | e | e
  · exact .same _
  · exact .readB hl.symm
  · exact .moving hi lo hr.symm
  · exact .refused' e
  · exact .refused e

/-- Two points with one program are alike. -/
theorem alike_of_prog_eq (h : pt.prog d = pt'.prog d) : pt.Alike pt' := by
  rcases pt with _ | _ | _ | rowA | my | ⟨hi, lo⟩ | ⟨hi, lo, count, rest⟩ | res | e
  case start => exact alike_of_start h
  case rejecting =>
    rcases pt' with _ | _ | _ | rowA' | my' | ⟨hi', lo'⟩ | ⟨hi', lo', count', _ | _⟩ | res' | e'
    case start => exact (alike_of_start h.symm).symm
    case rejecting => exact .same _
    all_goals exact nomatch h
  case readA =>
    rcases pt' with _ | _ | _ | rowA' | my' | ⟨hi', lo'⟩ | ⟨hi', lo', count', _ | _⟩ | res' | e'
    case start => exact (alike_of_start h.symm).symm
    case readA => exact .same _
    case readB => exact absurd h (readA_prog_ne d rowA')
    all_goals exact nomatch h
  case readB =>
    rcases pt' with _ | _ | _ | rowA' | my' | ⟨hi', lo'⟩ | ⟨hi', lo', count', _ | _⟩ | res' | e'
    case start => exact (alike_of_start h.symm).symm
    case readA => exact absurd h.symm (readA_prog_ne d rowA)
    case readB => exact .readB (readB_prog_inj h)
    all_goals exact nomatch h
  case joining =>
    rcases pt' with _ | _ | _ | rowA' | my' | ⟨hi', lo'⟩ | ⟨hi', lo', count', _ | _⟩ | res' | e'
    case start => exact (alike_of_start h.symm).symm
    case joining =>
      have hret := congrFun (eq_of_heq (Prog.call.inj h).2) ⟨⟩
      obtain ⟨⟩ := Prog.ret.inj hret
      exact .same _
    case moving.nil =>
      have hret := congrFun (eq_of_heq (Prog.call.inj h).2) ⟨⟩
      exact nomatch Prog.ret.inj hret
    all_goals exact nomatch h
  case scanning =>
    rcases pt' with _ | _ | _ | rowA' | my' | ⟨hi', lo'⟩ | ⟨hi', lo', count', _ | _⟩ | res' | e'
    case start => exact (alike_of_start h.symm).symm
    case scanning =>
      obtain ⟨rfl, rfl⟩ := scanning_prog_inj h
      exact .same _
    all_goals exact nomatch h
  case moving =>
    rcases rest with _ | ⟨r, rest⟩
    all_goals
      rcases pt' with _ | _ | _ | rowA' | my' | ⟨hi', lo'⟩ | ⟨hi', lo', count', rest'⟩ | res' | e'
    case nil.joining =>
      have hret := congrFun (eq_of_heq (Prog.call.inj h).2) ⟨⟩
      exact nomatch Prog.ret.inj hret
    case nil.start => exact (alike_of_start h.symm).symm
    case cons.start => exact (alike_of_start h.symm).symm
    case nil.moving =>
      obtain ⟨rfl, rfl, hleft⟩ := moving_prog_inj h
      exact .moving hi lo hleft
    case cons.moving =>
      obtain ⟨rfl, rfl, hleft⟩ := moving_prog_inj h
      exact .moving hi lo hleft
    all_goals exact nomatch h
  case done =>
    rcases pt' with _ | _ | _ | rowA' | my' | ⟨hi', lo'⟩ | ⟨hi', lo', count', _ | _⟩ | res' | e'
    case start => exact (alike_of_start h.symm).symm
    case done =>
      obtain rfl := Prog.ret.inj h
      exact .same _
    all_goals exact nomatch h
  case raised =>
    rcases pt' with _ | _ | _ | rowA' | my' | ⟨hi', lo'⟩ | ⟨hi', lo', count', _ | _⟩ | res' | e'
    case start => exact (alike_of_start h.symm).symm
    case raised =>
      obtain rfl := Prog.raise.inj h
      exact .same _
    all_goals exact nomatch h

end

/-! ## A decision going on -/

section
variable {ord : ReadOrder} {d : DecisionCall} {s : Store} {c : Candidate}

/-- A decision on a pending pair has read the candidate. -/
theorem steps_start (hc : s.candidates d.key = some c) (hp : c.status = some .pending) :
    (d.decision = .reject → Steps (exec ord) s d.prog s (DecisionPoint.rejecting.prog d)) ∧
      (d.decision = .approve → Steps (exec ord) s d.prog s (DecisionPoint.readA.prog d)) := by
  have hread : (∀ text, d.decision ≠ .other text) →
      Steps (exec ord) s d.prog s (afterCandidate d (some c)) := by
    intro hd
    rw [prog_eq_call hd]
    refine .call ⟨rfl, rfl⟩ ?_
    rw [hc]
    exact .refl _ _
  refine ⟨fun hrej => ?_, fun hap => ?_⟩
  · have := hread fun text h => by rw [hrej] at h; exact nomatch h
    unfold afterCandidate at this
    dsimp only at this
    rwa [if_neg (not_not.mpr hp), if_pos hrej] at this
  · have := hread fun text h => by rw [hap] at h; exact nomatch h
    unfold afterCandidate at this
    dsimp only at this
    rwa [if_neg (not_not.mpr hp), if_neg (by rw [hap]; decide)] at this

/-- An approval of nets with two labels has read the group to be absorbed. -/
theorem steps_readA {x y : Net} {myA myB : ℤ} {all : List (ℤ × Net)}
    (hx : s.building d.key.1 = some x) (hy : s.building d.key.2 = some y)
    (hA : x.myNetId = some myA) (hB : y.myNetId = some myB) (hne : myA ≠ myB)
    (hall : Lists ord.building all s.building) :
    Steps (exec ord) s (DecisionPoint.readA.prog d) s
      ((DecisionPoint.moving (max myA myB) (min myA myB) (scanned all (max myA myB)).length
        (scanned all (max myA myB))).prog d) := by
  refine .call ⟨rfl, rfl⟩ (.call ⟨rfl, rfl⟩ ?_)
  show Steps _ s (afterReads d (s.building d.key.1) (s.building d.key.2)) _ _
  rw [hx, hy]
  show Steps _ s (approve d.now d.key.1 d.key.2 x.myNetId y.myNetId) _ _
  unfold approve
  rw [hA, hB, if_neg fun he => hne (Option.some.inj he)]
  exact .call ⟨⟨all, hall, rfl⟩, rfl⟩ (.refl _ _)

/-- It has moved the first rows. -/
theorem steps_moves (hi lo : ℤ) (count : ℕ) (rows rest : List (ℤ × Net)) :
    Steps (exec ord) s ((DecisionPoint.moving hi lo count (rows ++ rest)).prog d)
      (move s lo d.now (rows.map Prod.fst)) ((DecisionPoint.moving hi lo count rest).prog d) := by
  induction rows generalizing s with
  | nil =>
    rw [List.map_nil, move_nil]
    exact .refl _ _
  | cons r rows ih =>
    rw [List.map_cons, ← move_cons]
    exact .call (x := ⟨⟩) ⟨trivial, rfl⟩ ih

end

end NetBuild
