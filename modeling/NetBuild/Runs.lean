import NetBuild.NetMergingService
import NetBuild.StoreTheorems

/-!
# Sequential runs

Calls of the service made one after another: reports arriving, builds, listings of the pending
candidates, and decisions. A run keeps the stores it has passed through, so that statements
about the past of a store (`born`) can be made; what is allowed in a run is a parameter.
-/

namespace NetBuild

open NetMerging NetMergingService
open Prog (Run request)

/-- A call, with the readings of the clock while it is served. -/
inductive Call
  | insertReport (key : ReportKey) (row : Fields)
  | build (cfg : MatchConfig) (clock : BuildClock)
  | list (M : MathFns) (cfg : MergeConfig) (clock : ListClock)
  | decide (netA netB : ℤ) (decision : Decision) (now : Time)

/-- What a call returns. -/
inductive Outcome
  | inserted
  | built (res : BuildResult)
  | listed (res : PendingList)
  | decided (res : DecisionResult)

/-- The program a call runs. -/
def Call.prog : Call → Client Outcome
  | .insertReport key row => do
    request (Req.reportInsert key row)
    return .inserted
  | .build cfg clock => do return .built (← runPipeline cfg clock)
  | .list M cfg clock => do return .listed (← listPendingCandidates M cfg clock)
  | .decide netA netB decision now => do return .decided (← applyDecision netA netB decision now)

/-- Which calls a run may make, in which stores and with which outcomes. -/
abbrev Guard := Store → Call → Except PyError Outcome → Prop

/-- A run from `s₀`: the stores it has left behind, the latest first, and the one it is in. -/
inductive SeqRun (ord : ReadOrder) (G : Guard) (s₀ : Store) : List Store → Store → Prop
  | start : SeqRun ord G s₀ [] s₀
  | call {past : List Store} {s s' : Store} {c : Call} {o : Except PyError Outcome}
      (before : SeqRun ord G s₀ past s) (allowed : G s c o)
      (run : Run (exec ord) s c.prog s' o) : SeqRun ord G s₀ (s :: past) s'

/-- The store is reached by some run. -/
def Reached (ord : ReadOrder) (G : Guard) (s₀ s : Store) : Prop := ∃ past, SeqRun ord G s₀ past s

variable {ord : ReadOrder} {G : Guard} {s₀ s s' : Store} {past : List Store}

/-- The invariant rule: what holds at the start and is kept by every allowed call holds of
every store reached. -/
theorem Reached.invariant {I : Store → Prop} (h : Reached ord G s₀ s) (hI : I s₀)
    (hstep : ∀ s c o s', Reached ord G s₀ s → I s → G s c o → Run (exec ord) s c.prog s' o → I s') :
    I s := by
  obtain ⟨past, h⟩ := h
  induction h with
  | start => exact hI
  | call before allowed run ih => exact hstep _ _ _ _ ⟨_, before⟩ ih allowed run

/-! ## What a call of each kind runs -/

theorem run_insertReport_iff {key : ReportKey} {row : Fields} {o : Except PyError Outcome} :
    Run (exec ord) s (Call.insertReport key row).prog s' o ↔
      s' = { s with report := s.report.upsert key row } ∧ o = .ok .inserted := by
  show Run (exec ord) s (.call (.reportInsert key row) fun _ => .ret .inserted) s' o ↔ _
  rw [run_request_iff]
  refine ⟨fun h => ?_, fun h => ⟨⟨⟩, trivial, Prog.run_ret_iff.mpr h⟩⟩
  obtain ⟨_, -, h⟩ := h
  exact Prog.run_ret_iff.mp h

/-- A call that wraps the result of a program completes when the program does. -/
theorem run_map_ok_iff {α : Type} {p : Client α} {f : α → Outcome} {out : Outcome} :
    Run (exec ord) s (p >>= fun a => .ret (f a)) s' (.ok out) ↔
      ∃ a, Run (exec ord) s p s' (.ok a) ∧ out = f a := by
  rw [Prog.run_bind_ok_iff]
  refine ⟨fun h => ?_, fun h => ?_⟩
  · obtain ⟨a, t, hp, h⟩ := h
    obtain ⟨rfl, hout⟩ := Prog.run_ret_iff.mp h
    exact ⟨a, hp, Except.ok.inj hout⟩
  · obtain ⟨a, hp, rfl⟩ := h
    exact ⟨a, s', hp, .ret _ _⟩

/-- It raises when the program does. -/
theorem run_map_error_iff {α : Type} {p : Client α} {f : α → Outcome} {e : PyError} :
    Run (exec ord) s (p >>= fun a => .ret (f a)) s' (.error e) ↔
      Run (exec ord) s p s' (.error e) := by
  rw [Prog.run_bind_iff]
  refine ⟨fun h => ?_, fun h => .inl ⟨e, h, rfl⟩⟩
  rcases h with ⟨e', h, he⟩ | ⟨a, t, -, h⟩
  · rwa [Except.error.inj he]
  · exact nomatch (Prog.run_ret_iff.mp h).2

theorem run_build_ok_iff {cfg : MatchConfig} {clock : BuildClock} {out : Outcome} :
    Run (exec ord) s (Call.build cfg clock).prog s' (.ok out) ↔
      ∃ res, Run (exec ord) s (runPipeline cfg clock) s' (.ok res) ∧ out = .built res :=
  run_map_ok_iff

theorem run_list_ok_iff {M : MathFns} {cfg : MergeConfig} {clock : ListClock} {out : Outcome} :
    Run (exec ord) s (Call.list M cfg clock).prog s' (.ok out) ↔
      ∃ res, Run (exec ord) s (listPendingCandidates M cfg clock) s' (.ok res) ∧
        out = .listed res :=
  run_map_ok_iff

theorem run_decide_ok_iff {netA netB : ℤ} {decision : Decision} {now : Time} {out : Outcome} :
    Run (exec ord) s (Call.decide netA netB decision now).prog s' (.ok out) ↔
      ∃ res, Run (exec ord) s (applyDecision netA netB decision now) s' (.ok res) ∧
        out = .decided res :=
  run_map_ok_iff

/-! ## Reports arriving -/

/-- The store that holds these reports and nothing else. -/
def Store.ofReports (rows : List (ReportKey × Fields)) : Store :=
  { Store.empty with report := Table.empty.upsertAll rows }

/-- Reports arriving one after another. -/
theorem reached_ofReports (hG : ∀ s key row, G s (.insertReport key row) (.ok .inserted))
    (rows : List (ReportKey × Fields)) : Reached ord G .empty (.ofReports rows) := by
  induction rows using List.reverseRecOn with
  | nil => exact ⟨[], .start⟩
  | append_singleton rows r ih =>
    obtain ⟨past, ih⟩ := ih
    refine ⟨_, .call ih (hG _ r.1 r.2) (run_insertReport_iff.mpr ⟨?_, rfl⟩)⟩
    unfold Store.ofReports
    rw [Table.upsertAll_append]
    rfl

theorem lists_any {K V : Type} {rows : List (K × V)} {t : Table K V}
    (h : Table.Enumerates rows t) : Lists (fun _ _ => True) rows t :=
  ⟨h, List.pairwise_of_forall fun _ _ => trivial⟩

theorem lists_ofReports {rows : List (ReportKey × Fields)} (hn : (rows.map Prod.fst).Nodup) :
    Lists ReadOrder.any.report rows (Store.ofReports rows).report :=
  ⟨Table.enumerates_upsertAll hn, List.pairwise_of_forall fun _ _ => trivial⟩

/-- The store that holds these nets and reports. -/
def Store.ofNets (nets : List (ℤ × Net)) (rows : List (ReportKey × Fields)) : Store :=
  { Store.ofReports rows with building := Table.empty.upsertAll nets }

theorem lists_ofNets {nets : List (ℤ × Net)} {rows : List (ReportKey × Fields)}
    (hn : (nets.map Prod.fst).Nodup) :
    Lists ReadOrder.any.building nets (Store.ofNets nets rows).building :=
  ⟨Table.enumerates_upsertAll hn, List.pairwise_of_forall fun _ _ => trivial⟩

theorem lists_empty {K V : Type} {ord : K → K → Prop} : Lists ord [] (Table.empty : Table K V) :=
  ⟨Table.enumerates_empty, List.Pairwise.nil⟩

end NetBuild
