import NetBuild.NetMerging
import NetBuild.NetBuildingService

/-!
# `net_merging_service`: the candidate ledger and the commander's decisions

`listPendingCandidates` detects new candidate pairs among the current nets and records them;
`applyDecision` rejects a pending pair, or approves it and moves the group with the higher
`my_net_id` into the other one, row by row.
-/

namespace NetBuild

namespace NetMergingService

open Prog (request lift)
open NetMerging

/-! ## Loading -/

/-- The `my_net_id` cell of a row before it is put in a frame. -/
def myNetIdCell (x : Net) : Cell := (x.myNetId.map Cell.int).getD .null

/-- `_fetch_nets()`, on the rows read. -/
def fetchNets (rows : List (ℤ × Net)) : List NetRec :=
  let cells := dataFrame (rows.map fun r => cassandraRowToDfRow r.2.ffId r.2.lti r.2.fields)
  let dtype := inferDtype (rows.map fun r => myNetIdCell r.2)
  (rows.zip cells).map fun (r, c) => ⟨r.1, dtype.store (myNetIdCell r.2), c⟩

/-- `_existing_pairs()`, on the rows read. -/
def existingPairs (rows : List (PairKey × Candidate)) : List PairKey := rows.map Prod.fst

/-! ## Detection -/

/-- `int(c)`. -/
def intOf (c : Cell) : Except PyError ℤ :=
  match c.pyInt with
  | some n => .ok n
  | none => .error .typeError

/-- A text value bound to a text column: the driver refuses a float `nan`. -/
def bindText (c : Cell) : Except PyError (Option Text) :=
  match c with
  | .null => .ok none
  | .str s => .ok (some s)
  | _ => .error .typeError

/-- `t.date() if pd.notna(t) else None`. -/
def dateOrNone (c : Cell) : Except PyError (Option Date) :=
  match c with
  | .ts t => .ok (some t.date)
  | c => if c.isna then .ok none else .error .typeError

/-- The record `nets_by_id` holds for a net: the last one with that id. -/
def netById (nets : List NetRec) (n : ℤ) : Except PyError NetRec :=
  match nets.reverse.find? (·.netId = n) with
  | some r => .ok r
  | none => .error (.lookupError "KeyError")

/-- `_snapshot_row(net_a, net_b, reasons, nets_by_id)`, at the time `now`. -/
def snapshotRow (now : Time) (nets : List NetRec) (netA netB : ℤ) (reasons : Reasons) :
    Except PyError (PairKey × Candidate) := do
  let a ← netById nets netA
  let b ← netById nets netB
  let myNetIdA ← intOf a.myNetId
  let myNetIdB ← intOf b.myNetId
  let rdfsA ← bindText (a.cells (.txt .rdfs))
  let rdfsB ← bindText (b.cells (.txt .rdfs))
  let frequencyA ← float (a.cells (.num .frequencyMHz))
  let frequencyB ← float (b.cells (.num .frequencyMHz))
  let ltiA ← dateOrNone (a.cells .lti)
  let ltiB ← dateOrNone (b.cells .lti)
  let snapshot : Snapshot :=
    { myNetIdA, myNetIdB, rdfsA, rdfsB, frequencyA, frequencyB, ltiA, ltiB
      freqGapMhz := reasons.freqGapMhz
      freqTolMhz := reasons.freqTolMhz
      ltiGapSec := reasons.ltiGapSec
      ltiTolSec := reasons.ltiTolSec
      distanceM := reasons.distanceM
      locTolM := reasons.locTolM }
  pure ((netA, netB), ⟨some .pending, some snapshot, some now, none⟩)

/-- The inserting loop of `detect_new_candidates`; `clock` is the time each pair's snapshot is
taken at. -/
def insertCandidates (clock : PairKey → Time) (nets : List NetRec)
    (fresh : List (ℤ × ℤ × Reasons)) : Client Unit :=
  fresh.forM fun (a, b, reasons) => do
    let r ← lift (snapshotRow (clock (a, b)) nets a b reasons)
    request (Req.candidatesInsert r.1 r.2)

/-- `detect_new_candidates(cfg)`. -/
def detectNewCandidates (M : MathFns) (cfg : MergeConfig) (clock : PairKey → Time) : Client ℕ := do
  let rows ← request Req.buildingFindAll
  if rows = [] then return 0
  else
    let seen ← request Req.candidatesFindAll
    let candidates ← lift (proposePairs M cfg (fetchNets rows))
    let fresh := candidates.filter fun (a, b, _) => (a, b) ∉ existingPairs seen
    insertCandidates clock (fetchNets rows) fresh
    return fresh.length

/-- What `list_pending_candidates` returns. -/
structure PendingList where
  generatedAt : Time
  newlyDetected : ℕ
  pendingCount : ℕ
  candidates : List (PairKey × Candidate)

/-- The readings of the clock while candidates are listed. -/
structure ListClock where
  detectedAt : PairKey → Time
  generatedAt : Time

/-- `list_pending_candidates(cfg)`. -/
def listPendingCandidates (M : MathFns) (cfg : MergeConfig) (clock : ListClock) :
    Client PendingList := do
  let newlyDetected ← detectNewCandidates M cfg clock.detectedAt
  let rows ← request Req.candidatesFindAll
  let pending := rows.filter (·.2.status = some .pending)
  return ⟨clock.generatedAt, newlyDetected, pending.length, pending⟩

/-! ## Decisions -/

/-- The argument `decision`: one of `VALID_DECISIONS`, or some other text. -/
inductive Decision
  | approve | reject
  | other (text : String)
  deriving DecidableEq

/-- What `apply_decision` returns. The last three entries are there for an approval. -/
structure DecisionResult where
  netA : ℤ
  netB : ℤ
  decision : Decision
  survivorMyNetId : Option ℤ := none
  absorbedMyNetId : Option ℤ := none
  netsMoved : Option ℕ := none

/-- The text of a status in a message. -/
def statusText : Option Status → String
  | none => "None"
  | some .pending => "pending"
  | some .approved => "approved"
  | some .rejected => "rejected"

/-- The limit of the group scan. -/
def groupLimit : ℕ := 10000

/-- The loop that moves the rows of the absorbed group. -/
def moveRows (now : Time) (survivor : ℤ) (rows : List (ℤ × Net)) : Client Unit :=
  rows.forM fun r => request (Req.buildingUpdate r.1 survivor now)

/-- The approving branch, once both nets were read: `a` and `b` are in order. -/
def approve (now : Time) (a b : ℤ) (myA myB : Option ℤ) : Client DecisionResult :=
  if myA = myB then do
    request (Req.candidatesUpdate (a, b) .approved now)
    return {
      netA := a, netB := b, decision := .approve, survivorMyNetId := myA, netsMoved := some 0 }
  else
    match myA, myB with
    | some x, some y => do
      let survivor := min x y
      let absorbed := max x y
      let rows ← request (Req.buildingFind absorbed groupLimit)
      moveRows now survivor rows
      request (Req.candidatesUpdate (a, b) .approved now)
      return {
        netA := a, netB := b, decision := .approve, survivorMyNetId := some survivor
        absorbedMyNetId := some absorbed, netsMoved := some rows.length }
    -- `sorted` does not compare `None` with an int
    | _, _ => .raise .typeError

/-- `apply_decision(net_a, net_b, decision)` on a pair in order, at the time `now`. -/
def decidePair (a b : ℤ) (decision : Decision) (now : Time) : Client DecisionResult := do
  let candidate ← request (Req.candidatesGet (a, b))
  match candidate with
  | none => .raise (.lookupError s!"no merge candidate recorded for ({a}, {b})")
  | some c =>
    if c.status ≠ some .pending then
      .raise (.valueError s!"({a}, {b}) was already {statusText c.status}")
    else if decision = .reject then do
      request (Req.candidatesUpdate (a, b) .rejected now)
      return { netA := a, netB := b, decision }
    else do
      let rowA ← request (Req.buildingGet a)
      let rowB ← request (Req.buildingGet b)
      match rowA, rowB with
      | some x, some y => approve now a b x.myNetId y.myNetId
      | _, _ => .raise (.lookupError "one or both nets no longer exist in ff_net_building")

/-- `apply_decision(net_a, net_b, decision)`. -/
def applyDecision (netA netB : ℤ) (decision : Decision) (now : Time) : Client DecisionResult :=
  match decision with
  | .other _ => .raise (.valueError "decision must be one of ('approve', 'reject')")
  | _ => decidePair (min netA netB) (max netA netB) decision now

end NetMergingService

end NetBuild
