import NetBuild.NetMergingServiceTheorems
import NetBuild.Runs

/-!
# Which requests each call makes

Whatever the store answers, a build never touches the candidates, a listing writes pending
candidates only, and a decision on a pair writes labels and the status of that pair.
-/

namespace NetBuild

open NetMerging NetMergingService
open Prog (Run request lift)

/-- The requests of a build. -/
def Req.OfBuild : Req → Prop
  | .buildingFindAll | .historyFindAll | .reportFindAll => True
  | .buildingDelete _ | .historyInsert _ _ => True
  | .buildingInsert _ row => row.myNetId ≠ none
  | _ => False

/-- The requests of a listing. -/
def Req.OfListing : Req → Prop
  | .buildingFindAll | .candidatesFindAll => True
  | .candidatesInsert _ row => row.status = some .pending
  | _ => False

/-- The requests of a decision on a pair. -/
def Req.OfDecision (k : PairKey) : Req → Prop
  | .candidatesGet k' => k' = k
  | .buildingGet _ | .buildingFind _ _ | .buildingUpdate _ _ _ => True
  | .candidatesUpdate k' status _ => k' = k ∧ status ≠ .pending
  | _ => False

/-! ## The programs -/

theorem always_deleteRows (keys : List ℤ) : (deleteRows keys).Always Req.OfBuild :=
  Prog.always_forM fun _ _ => ⟨trivial, fun _ => trivial⟩

theorem always_insertRows {rows : List (ℤ × Net)} (h : ∀ r ∈ rows, r.2.myNetId ≠ none) :
    (insertRows rows).Always Req.OfBuild :=
  Prog.always_forM fun r hr => ⟨h r hr, fun _ => trivial⟩

theorem hierToCassandraRows_labelled {now : Time} {hier : List HierRow} {rows : List (ℤ × Net)}
    (h : hierToCassandraRows now hier = .ok rows) : ∀ r ∈ rows, r.2.myNetId ≠ none := by
  intro r hr
  obtain ⟨x, -, hx⟩ := (Except.mapM_eq_ok_iff.mp h).exists_of_mem_right hr
  obtain ⟨d, -, hx₁⟩ := Except.bind_eq_ok_iff.mp hx
  obtain ⟨netId, -, hx₂⟩ := Except.bind_eq_ok_iff.mp hx₁
  obtain ⟨myNetId, -, hx₃⟩ := Except.bind_eq_ok_iff.mp hx₂
  rw [← Except.ok.inj hx₃]
  exact Option.some_ne_none myNetId

theorem always_appendHistory (now : Time) (entries : List Entry) :
    (appendHistory now entries).Always Req.OfBuild :=
  Prog.always_forM fun _ _ => (Prog.always_lift _ _).bind fun _ => ⟨trivial, fun _ => trivial⟩

theorem always_finishPipeline (cfg : MatchConfig) (clock : BuildClock)
    (building : List (ℤ × Net)) (prevLog newDf : Frame) :
    (finishPipeline cfg clock building prevLog newDf).Always Req.OfBuild := by
  unfold finishPipeline
  split
  · trivial
  · refine (Prog.always_lift _ _).bind fun st => ?_
    refine Prog.Always.bind ?_ fun _ => ?_
    · refine Prog.Always.lift_bind fun rows hrows => ?_
      exact (always_deleteRows _).bind fun _ =>
        always_insertRows (hierToCassandraRows_labelled hrows)
    · refine (always_appendHistory _ _).bind fun _ => ?_
      exact (Prog.always_lift _ _).bind fun _ => trivial

theorem always_runPipeline (cfg : MatchConfig) (clock : BuildClock) :
    (runPipeline cfg clock).Always Req.OfBuild :=
  ⟨trivial, fun _ => ⟨trivial, fun _ => ⟨trivial, fun _ => always_finishPipeline ..⟩⟩⟩

theorem always_insertCandidates (clock : PairKey → Time) (nets : List NetRec)
    (fresh : List (ℤ × ℤ × Reasons)) :
    (insertCandidates clock nets fresh).Always Req.OfListing := by
  refine Prog.always_forM fun p _ => ?_
  rcases hr : snapshotRow (clock (keyOf p)) nets p.1 p.2.1 p.2.2 with e | r
  · show (lift (snapshotRow (clock (keyOf p)) nets p.1 p.2.1 p.2.2) >>= _ : Client Unit).Always _
    rw [hr]
    trivial
  · show (lift (snapshotRow (clock (keyOf p)) nets p.1 p.2.1 p.2.2) >>= _ : Client Unit).Always _
    rw [hr]
    obtain ⟨snapshot, rfl⟩ := snapshotRow_eq_ok hr
    exact ⟨rfl, fun _ => trivial⟩

theorem always_listPendingCandidates (M : MathFns) (cfg : MergeConfig) (clock : ListClock) :
    (listPendingCandidates M cfg clock).Always Req.OfListing := by
  refine Prog.Always.bind ⟨trivial, fun rows => ?_⟩ fun _ => ⟨trivial, fun _ => trivial⟩
  show (ite _ _ _ : Client ℕ).Always _
  split
  · trivial
  · refine ⟨trivial, fun seen => (Prog.always_lift _ _).bind fun pairs => ?_⟩
    exact (always_insertCandidates _ _ _).bind fun _ => trivial

theorem always_moveRows (k : PairKey) (now : Time) (my : ℤ) (rows : List (ℤ × Net)) :
    (moveRows now my rows).Always (Req.OfDecision k) :=
  Prog.always_forM fun _ _ => ⟨trivial, fun _ => trivial⟩

theorem always_approve (now : Time) (a b : ℤ) (myA myB : Option ℤ) :
    (approve now a b myA myB).Always (Req.OfDecision (a, b)) := by
  unfold approve
  split
  · exact ⟨⟨rfl, by decide⟩, fun _ => trivial⟩
  · split
    · refine ⟨trivial, fun rows => ?_⟩
      refine (always_moveRows _ _ _ _).bind fun _ => ?_
      exact ⟨⟨rfl, by decide⟩, fun _ => trivial⟩
    · trivial

theorem always_decidePair (a b : ℤ) (decision : Decision) (now : Time) :
    (decidePair a b decision now).Always (Req.OfDecision (a, b)) := by
  refine ⟨rfl, fun candidate => ?_⟩
  rcases candidate with _ | c
  · trivial
  · show (ite _ _ _ : Client DecisionResult).Always _
    split
    · trivial
    · split
      · exact ⟨⟨rfl, by decide⟩, fun _ => trivial⟩
      · refine ⟨trivial, fun rowA => ⟨trivial, fun rowB => ?_⟩⟩
        rcases rowA with _ | x
        · trivial
        · rcases rowB with _ | y
          · trivial
          · exact always_approve ..

theorem always_applyDecision (netA netB : ℤ) (decision : Decision) (now : Time) :
    (applyDecision netA netB decision now).Always (Req.OfDecision (pairKey netA netB)) := by
  rcases decision with _ | _ | text
  · exact always_decidePair ..
  · exact always_decidePair ..
  · trivial

theorem always_build (cfg : MatchConfig) (clock : BuildClock) :
    (Call.build cfg clock).prog.Always Req.OfBuild := by
  refine (always_runPipeline cfg clock).bind fun res => ?_
  trivial

/-! ## What they leave alone -/

section
variable {ord : ReadOrder} {s s' : Store} {α : Type} {p : Client α} {o : Except PyError α}

/-- A program of build requests keeps the candidates and the reports. -/
theorem run_ofBuild (hp : p.Always Req.OfBuild) (h : Run (exec ord) s p s' o) :
    s'.candidates = s.candidates ∧ s'.report = s.report := by
  refine h.preserves (I := fun t => t.candidates = s.candidates ∧ t.report = s.report)
    (fun t r x t' hr ht hex => ?_) hp ⟨rfl, rfl⟩
  rw [hex.2]
  rcases r <;> first | exact ht | exact hr.elim

end

end NetBuild
