import NetBuild.BuildRun

/-!
# A build, call by call

A build reads three tables and then only writes. `BuildStage` is where it stands between two
repository calls, and `BuildStage.inv` what its next call can be, so that builds interleaved with
other clients are reasoned about without unfolding `runPipeline` again.
-/

namespace NetBuild

open Prog (request lift)

/-- What a build that has read the nets has still to do. -/
def afterNets (cfg : MatchConfig) (clock : BuildClock) (building : List (ℤ × Net)) :
    Client BuildResult := do
  let history ← request .historyFindAll
  let reports ← request .reportFindAll
  finishPipeline cfg clock building (loadHistory history) (fetchNewReports reports)

/-- What a build that has read the nets and the history has still to do. -/
def afterHistory (cfg : MatchConfig) (clock : BuildClock) (building : List (ℤ × Net))
    (history : List (HistKey × Hist)) : Client BuildResult := do
  let reports ← request .reportFindAll
  finishPipeline cfg clock building (loadHistory history) (fetchNewReports reports)

/-- The requests of a build that has only to write back, where each of them is one of these. -/
theorem always_writeBack {P : Req → Prop} {clock : BuildClock} {building : List (ℤ × Net)}
    {st : FoldState}
    (hdelete : ∀ n ∈ staleKeys building (netRows clock st.members.rows),
      P (.buildingDelete n))
    (hinsert : ∀ r ∈ netRows clock st.members.rows, P (.buildingInsert r.1 r.2))
    (hhistory : ∀ key row, P (.historyInsert key row)) :
    (writeBack clock building st).Always P := by
  unfold writeBack
  refine Prog.Always.bind ?_ fun _ => Prog.Always.bind ?_ fun _ => ?_
  · refine Prog.Always.bind ?_ fun _ => ?_
    · exact Prog.always_forM fun n hn => ⟨hdelete n hn, fun _ => trivial⟩
    · exact Prog.always_forM fun r hr => ⟨hinsert r hr, fun _ => trivial⟩
  · exact Prog.always_forM fun e _ =>
      (Prog.always_lift _ _).bind fun r => ⟨hhistory r.1 r.2, fun _ => trivial⟩
  · exact (Prog.always_lift _ _).bind fun _ => trivial

section
variable {α : Type}

/-- Where a build whose result goes through `f` stands: it has read nothing, or nets that satisfy
`R`, or it has read everything and satisfies `W`. -/
inductive BuildStage (f : BuildResult → α) (cfg : MatchConfig) (clock : BuildClock)
    (R : List (ℤ × Net) → Prop) (W : Client α → Prop) : Client α → Prop
  | start : BuildStage f cfg clock R W (runPipeline cfg clock >>= fun res => .ret (f res))
  | nets {building : List (ℤ × Net)} (read : R building) :
      BuildStage f cfg clock R W (afterNets cfg clock building >>= fun res => .ret (f res))
  | history {building : List (ℤ × Net)} (history : List (HistKey × Hist)) (read : R building) :
      BuildStage f cfg clock R W
        (afterHistory cfg clock building history >>= fun res => .ret (f res))
  | writing {q : Client α} (writes : W q) : BuildStage f cfg clock R W q

/-- The request writes nets or the history. -/
def Req.WritesNets : Req → Prop
  | .buildingInsert _ _ | .buildingDelete _ | .historyInsert _ _ => True
  | _ => False

/-- A build that is about to read its last table. -/
structure ReadsLast (f : BuildResult → α) (cfg : MatchConfig) (clock : BuildClock)
    (building : List (ℤ × Net)) (history : List (HistKey × Hist)) (reports : List Report)
    (q q' : Client α) : Prop where
  before : q = afterHistory cfg clock building history >>= fun res => .ret (f res)
  after : q' = finishPipeline cfg clock building (loadHistory history) (fetchNewReports reports) >>=
    fun res => .ret (f res)

variable {ord : ReadOrder} {f : BuildResult → α} {cfg : MatchConfig} {clock : BuildClock}
  {R : List (ℤ × Net) → Prop} {W : Client α → Prop} {s s' : Store} {r : Req}
  {k : r.Resp → Client α} {x : r.Resp}

/-- The next call of a build reads one of the first two tables, or the last one, or comes after
all reads. -/
theorem BuildStage.inv (h : BuildStage f cfg clock R W (.call r k)) (hex : exec ord s r x s')
    (hR : ∀ building, Lists ord.building building s.building → R building) :
    (s' = s ∧ r ≠ .reportFindAll ∧ ¬ r.WritesNets ∧ BuildStage f cfg clock R W (k x)) ∨
      (s' = s ∧ r = .reportFindAll ∧ ∃ building history reports, R building ∧
        Lists ord.report reports s.report ∧
          ReadsLast f cfg clock building history reports (.call r k) (k x)) ∨
        W (.call r k) := by
  obtain ⟨hans, rfl⟩ := hex
  generalize hq : Prog.call r k = q at h
  rcases h with _ | @⟨building, read⟩ | @⟨building, history, read⟩ | writes
  · obtain ⟨⟩ := hq
    exact .inl ⟨rfl, fun h => (nomatch h), id, .nets (hR x hans)⟩
  · obtain ⟨⟩ := hq
    exact .inl ⟨rfl, fun h => (nomatch h), id, .history x read⟩
  · obtain ⟨⟩ := hq
    exact .inr (.inl ⟨rfl, rfl, building, history, x, read, hans, rfl, rfl⟩)
  · exact .inr (.inr writes)

end

end NetBuild
