import NetBuild.Crud
import NetBuild.NetMergingService

/-!
# `views`: the endpoints of the pipelines

The build, the alert queue and the two decisions as requests with replies: which requests reach a
service at all, what the reply to a result is, and which exceptions become a reply. An exception
that is caught by no view leaves the program as it came.
-/

namespace NetBuild

namespace Views

open NetMerging NetMergingService

/-- The body of a reply. -/
inductive Body
  | detail (text : String)
  | built (res : BuildResult)
  | listed (res : PendingList)
  | decided (res : DecisionResult)

/-- A `Response`. -/
structure Reply where
  status : ℕ
  body : Body

/-- The reply when `cassandra_session.is_ready()` is false. -/
def unavailable : Reply := ⟨503, .detail "Cassandra is not available"⟩

/-- `NetBuildView.get(request)`. -/
def getBuild (ready : Bool) (clock : BuildClock) : Client Reply :=
  if ready = false then return unavailable else do
    return ⟨200, .built (← runPipeline {} clock)⟩

/-- `NetMergeCandidatesView.get(request)`. -/
def getCandidates (M : MathFns) (ready : Bool) (clock : ListClock) : Client Reply :=
  if ready = false then return unavailable else do
    return ⟨200, .listed (← listPendingCandidates M {} clock)⟩

/-- `_parse_pair(pk)`: the two ids, or the detail of a 400. -/
def parsePair (pk : Option Text) : Except String (ℤ × ℤ) :=
  match List.splitWord keySep (pk.getD []) with
  | [a, b] =>
    match intText a, intText b with
    | some netA, some netB => .ok (netA, netB)
    | _, _ => .error "net_a/net_b must be integers"
  | _ => .error "pair must be '<net_a>__<net_b>'"

/-- The columns of a net's id are `int`. -/
def bindable (n : ℤ) : Prop := -2 ^ 31 ≤ n ∧ n < 2 ^ 31

instance (n : ℤ) : Decidable (bindable n) := inferInstanceAs (Decidable (_ ∧ _))

/-- The driver binds the two ids of a pair, or raises a `TypeError` before anything is read. -/
def bindPair (netA netB : ℤ) : Client Unit :=
  if bindable netA ∧ bindable netB then return () else .raise .typeError

/-- The `except` clauses of `_NetMergeDecisionBase.post`. -/
def handleError : PyError → Client Reply
  | .valueError msg => return ⟨400, .detail msg⟩
  | .lookupError msg => return ⟨404, .detail msg⟩
  | e => .raise e

/-- `_NetMergeDecisionBase.post(request, pk)`. -/
def decisionPost (decision : Decision) (ready : Bool) (pk : Option Text) (now : Time) :
    Client Reply :=
  if ready = false then return unavailable else
    match parsePair pk with
    | .error detail => return ⟨400, .detail detail⟩
    | .ok (netA, netB) =>
      Prog.tryCatch (do
        bindPair netA netB
        return ⟨200, .decided (← applyDecision netA netB decision now)⟩) handleError

/-- `NetMergeApproveView.post(request, pk)`. -/
def postApprove : Bool → Option Text → Time → Client Reply := decisionPost .approve

/-- `NetMergeRejectView.post(request, pk)`. -/
def postReject : Bool → Option Text → Time → Client Reply := decisionPost .reject

/-- A request to one of the four endpoints. -/
inductive ApiCall
  | build (ready : Bool) (clock : BuildClock)
  | candidates (M : MathFns) (ready : Bool) (clock : ListClock)
  | approve (ready : Bool) (pk : Option Text) (now : Time)
  | reject (ready : Bool) (pk : Option Text) (now : Time)

/-- The program a request runs. -/
def ApiCall.prog : ApiCall → Client Reply
  | .build ready clock => getBuild ready clock
  | .candidates M ready clock => getCandidates M ready clock
  | .approve ready pk now => postApprove ready pk now
  | .reject ready pk now => postReject ready pk now

end Views

end NetBuild
