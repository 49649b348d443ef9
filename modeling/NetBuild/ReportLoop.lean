import NetBuild.Routes

/-!
# The loop over the reports

`run_pipeline` and `process_reports` fold reports with the same loop: `assign_net`, and a new record
for a report that is folded into none. They differ in the record they append, whose times
`process_reports` writes as text. `routeReports` is that loop, on the dicts the callers make of the
reports.
-/

namespace NetBuild

/-- The dict `row` of a report: its keys, and the value under each. -/
structure Dict where
  keys : List Col
  cells : Row
  absent : ∀ c, c ∉ keys → cells c = .null

/-- The dict of some fields. -/
def Dict.of (fields : List (Col × Cell)) : Dict where
  keys := fields.map (·.1)
  cells c := (fields.lookup c).getD .null
  absent c hc := by
    rw [List.lookup_eq_none_iff.mpr]
    · rfl
    · intro p hp
      apply bne_iff_ne.mpr
      intro he
      exact hc (he ▸ List.mem_map_of_mem hp)

/-- The functions that run the loop. -/
inductive Caller
  | runPipeline | processReports

/-- `_t.strftime(DT_FMT)` for a time that parses. -/
def normalizeTime (c : Cell) : Cell := (c.toDt.map fun t => Cell.str t.strftime).getD c

/-- The row a caller appends for a report tallied `new`, ids apart. -/
def Caller.record : Caller → Row → Row
  | .runPipeline, row => row
  | .processReports, row => fun c =>
    match c with
    | .fti => normalizeTime (row .fti)
    | .lti => normalizeTime (row .lti)
    | c => row c

/-- One round: a report is routed, and gets a record if it is tallied `new`. -/
def routeReport (caller : Caller) (cfg : MatchConfig) (ms : Members) (d : Dict) :
    Except PyError (Members × Assignment) := do
  let (ms', a) ← assignNet cfg ms d.cells
  match a.action with
  | .new => pure (ms'.append d.keys (newMember a (caller.record d.cells)), a)
  | .collapsed => pure (ms', a)

/-- The loop, with what it assigns to each report. -/
def routeReports (caller : Caller) (cfg : MatchConfig) :
    Members → List Dict → Except PyError (Members × List Assignment)
  | ms, [] => pure (ms, [])
  | ms, d :: ds => do
    let (ms', a) ← routeReport caller cfg ms d
    let (ms'', as) ← routeReports caller cfg ms' ds
    pure (ms'', a :: as)

section
variable {caller : Caller} {cfg : MatchConfig} {ms ms' : Members} {d : Dict} {a : Assignment}

theorem record_rdfs (caller : Caller) (row : Row) :
    caller.record row (.txt .rdfs) = row (.txt .rdfs) := by
  rcases caller
  · rfl
  · rfl

theorem record_ffId (caller : Caller) (row : Row) : caller.record row .ffId = row .ffId := by
  rcases caller
  · rfl
  · rfl

/-- What a round does, and when it succeeds. -/
theorem routeReport_eq_ok_iff :
    routeReport caller cfg ms d = .ok (ms', a) ↔
      (newest cfg ms d.cells = none ∧
        a = ⟨nextMyNetId ms.rows, nextNetId ms.rows, .new, .null⟩ ∧
          ms' = ms.append d.keys (newMember a (caller.record d.cells))) ∨
      ∃ old i nti my, newest cfg ms d.cells = some (old, i) ∧
        ms.Takes old.cells d.cells nti ∧ old.myNetId = some my ∧
          ms' = ms.fold i old d.cells nti ∧
            a = ⟨my, old.netId, .collapsed, (collapsedMember ms old d.cells nti).cells .ffId⟩ := by
  unfold routeReport
  rw [Except.bind_eq_ok_iff]
  refine ⟨fun h => ?_, fun h => ?_⟩
  · obtain ⟨⟨ms₁, a₁⟩, ha, h⟩ := h
    rcases assignNet_eq_ok_iff.mp ha with
      ⟨hnone, rfl, rfl⟩ | ⟨old, i, nti, my, hnew, hnti, hmy, rfl, rfl⟩
    · obtain ⟨rfl, rfl⟩ := Prod.mk.inj (Except.ok.inj h)
      exact .inl ⟨hnone, rfl, rfl⟩
    · obtain ⟨rfl, rfl⟩ := Prod.mk.inj (Except.ok.inj h)
      exact .inr ⟨old, i, nti, my, hnew, hnti, hmy, rfl, rfl⟩
  · rcases h with ⟨hnone, rfl, rfl⟩ | ⟨old, i, nti, my, hnew, hnti, hmy, rfl, rfl⟩
    · exact ⟨_, assignNet_eq_ok_iff.mpr (.inl ⟨hnone, rfl, rfl⟩), rfl⟩
    · exact ⟨_, assignNet_eq_ok_iff.mpr (.inr ⟨old, i, nti, my, hnew, hnti, hmy, rfl, rfl⟩), rfl⟩

theorem routeReports_cons {ds : List Dict} {as : List Assignment} {ms'' : Members} :
    routeReports caller cfg ms (d :: ds) = .ok (ms'', as) ↔
      ∃ ms' a as', routeReport caller cfg ms d = .ok (ms', a) ∧
        routeReports caller cfg ms' ds = .ok (ms'', as') ∧ as = a :: as' := by
  show (routeReport caller cfg ms d >>= _) = _ ↔ _
  rw [Except.bind_eq_ok_iff]
  refine ⟨fun h => ?_, fun h => ?_⟩
  · obtain ⟨⟨ms', a⟩, ha, h⟩ := h
    obtain ⟨⟨ms₂, as'⟩, hs, h⟩ := Except.bind_eq_ok_iff.mp h
    obtain ⟨rfl, rfl⟩ := Prod.mk.inj (Except.ok.inj h)
    exact ⟨ms', a, as', ha, hs, rfl⟩
  · obtain ⟨ms', a, as', ha, hs, rfl⟩ := h
    exact ⟨(ms', a), ha, Except.bind_eq_ok_iff.mpr ⟨(ms'', as'), hs, rfl⟩⟩

/-- The record a report is folded into is a candidate of its station. -/
theorem newest_eq_some {new : Row} {old : Member} {i : ℕ}
    (h : newest cfg ms new = some (old, i)) :
    Col.txt .rdfs ∈ ms.cols ∧ (new (.txt .rdfs)).isna = false ∧ ms.rows[i]? = some old ∧
      isCandidate cfg new old = true ∧ (old.cells (.txt .rdfs)).val = (new (.txt .rdfs)).val := by
  obtain ⟨hcol, hna, hget, hcand⟩ := mem_candidates (List.argmax_mem h)
  exact ⟨hcol, hna, hget, hcand, val_rdfs_of_isCandidate hcand⟩

end

end NetBuild
