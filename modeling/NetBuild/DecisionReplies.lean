import NetBuild.MergeViews
import NetBuild.Outcomes
import NetBuild.PathKeys

/-!
# What the replies say of the ledger

Over any run of requests, whatever they name and however they end: a decision is always replied
to, with a status that the pair's row in the ledger fixes; the pairs the ledger has as approved or
rejected are the ones such a request was granted for; and no pair is granted twice.
-/

namespace NetBuild

open NetMerging NetMergingService Views
open Prog (Run Returns run_bind_iff run_bind_ok_iff run_ret_iff run_raise_iff run_tryCatch_iff)

variable {ord : ReadOrder} {s s' : Store}

/-! ## Runs of requests -/

/-- A request and how it ended. -/
abbrev Exchange := ApiCall × Except PyError Reply

/-- What is left by requests from empty tables, and the exchanges, the latest first.
`ff_net_report` is what its clients make of it meanwhile. -/
inductive ApiRun (ord : ReadOrder) : List Exchange → Store → Prop
  | start : ApiRun ord [] .empty
  | reports {log : List Exchange} {s : Store} (before : ApiRun ord log s)
      (report : Table ReportKey Fields) : ApiRun ord log { s with report := report }
  | call {log : List Exchange} {s s' : Store} {c : ApiCall} {o : Except PyError Reply}
      (before : ApiRun ord log s) (run : Run (exec ord) s c.prog s' o) :
      ApiRun ord ((c, o) :: log) s'

/-- What the ledger says of a pair. -/
def Store.statusOf (s : Store) (k : PairKey) : Option Status := (s.candidates k).bind (·.status)

/-- The request was granted: the pair is decided so. -/
def Exchange.Grants (r : Exchange) (k : PairKey) (d : Decision) : Prop :=
  ∃ res, r.2 = .ok ⟨200, .decided res⟩ ∧ (res.netA, res.netB) = k ∧ res.decision = d

theorem grants_iff {c : ApiCall} {res : DecisionResult} {k : PairKey} {d : Decision} :
    Exchange.Grants (c, .ok ⟨200, .decided res⟩) k d
      ↔ (res.netA, res.netB) = k ∧ res.decision = d := by
  refine ⟨fun ⟨res', hres, hk, hd⟩ => ?_, fun h => ⟨res, rfl, h⟩⟩
  obtain rfl : res = res' := by simpa using hres
  exact ⟨hk, hd⟩

theorem not_grants {c : ApiCall} {o : Except PyError Reply}
    (ho : ∀ res, o ≠ .ok ⟨200, .decided res⟩) (k : PairKey) (d : Decision) :
    ¬ Exchange.Grants (c, o) k d := fun ⟨res, hres, _⟩ => ho res hres

/-! ## One decision -/

section
variable {a b : ℤ} {d : Decision} {now : Time}

/-- The result of a decision names its pair in order. -/
theorem returns_applyDecision (netA netB : ℤ) (d : Decision) (now : Time) :
    (applyDecision netA netB d now).Returns fun res =>
      (res.netA, res.netB) = pairKey netA netB ∧ res.decision = d := by
  have hpair : ∀ d, (∀ text, d ≠ .other text) → (decidePair (min netA netB) (max netA netB) d
      now).Returns fun res => (res.netA, res.netB) = pairKey netA netB ∧ res.decision = d := by
    intro d hd
    unfold decidePair
    rw [Prog.request_bind]
    rintro (_ | c)
    · trivial
    · dsimp only
      split
      · trivial
      · split
        · rw [Prog.request_bind]
          exact fun _ => ⟨rfl, rfl⟩
        · next hrej =>
          obtain rfl : d = .approve := by
            rcases d with _ | _ | text
            · rfl
            · exact absurd rfl hrej
            · exact absurd rfl (hd text)
          rw [Prog.request_bind]
          intro rowA
          dsimp only
          rw [Prog.request_bind]
          intro rowB
          rcases rowA with _ | x
          · trivial
          · rcases rowB with _ | y
            · trivial
            · dsimp only
              unfold approve
              split
              · rw [Prog.request_bind]
                exact fun _ => ⟨rfl, rfl⟩
              · split
                · rw [Prog.request_bind]
                  intro rows
                  refine Returns.bind fun _ => ?_
                  rw [Prog.request_bind]
                  exact fun _ => ⟨rfl, rfl⟩
                · trivial
  rcases d with _ | _ | text
  · exact hpair .approve fun _ h => nomatch h
  · exact hpair .reject fun _ h => nomatch h
  · trivial

theorem not_granted_of_ne {status : ℕ} {body : Body} (h : status ≠ 200) :
    ∀ reply, (.ok ⟨status, body⟩ : Except PyError Reply) = .ok reply → reply.status ≠ 200 := by
  intro reply he
  rwa [← Except.ok.inj he]

/-- What `handleError` makes of an exception: a reply that grants nothing, or the exception. -/
theorem run_handleError {e : PyError} {o : Except PyError Reply}
    (h : Run (exec ord) s (handleError e) s' o) :
    s' = s ∧ ∀ reply, o = .ok reply → reply.status ≠ 200 := by
  rcases e with _ | msg | msg
  · obtain ⟨rfl, rfl⟩ := run_raise_iff.mp h
    exact ⟨rfl, fun _ h => nomatch h⟩
  · obtain ⟨rfl, rfl⟩ := run_ret_iff.mp h
    exact ⟨rfl, not_granted_of_ne (by decide)⟩
  · obtain ⟨rfl, rfl⟩ := run_ret_iff.mp h
    exact ⟨rfl, not_granted_of_ne (by decide)⟩

theorem run_bindPair_ok {netA netB : ℤ} {u : Unit}
    (h : Run (exec ord) s (bindPair netA netB) s' (.ok u)) :
    s' = s ∧ bindable netA ∧ bindable netB := by
  unfold bindPair at h
  split at h
  · next hb => exact ⟨(run_ret_iff.mp h).1, hb⟩
  · exact nomatch (run_raise_iff.mp h).2

theorem run_bindPair_error {netA netB : ℤ} {e : PyError}
    (h : Run (exec ord) s (bindPair netA netB) s' (.error e)) :
    s' = s ∧ e = .typeError ∧ ¬(bindable netA ∧ bindable netB) := by
  unfold bindPair at h
  split at h
  · exact nomatch (run_ret_iff.mp h).2
  · next hb =>
    obtain ⟨hs, he⟩ := run_raise_iff.mp h
    exact ⟨hs, Except.error.inj he, hb⟩

/-- A decision is granted and made, or the store is as it was. -/
theorem run_decisionPost {ready : Bool} {pk : Option Text} {o : Except PyError Reply}
    (h : Run (exec ord) s (decisionPost d ready pk now) s' o) :
    (∃ res netA netB, o = .ok ⟨200, .decided res⟩ ∧ (res.netA, res.netB) = pairKey netA netB ∧
        res.decision = d ∧ Decided ord s (min netA netB) (max netA netB) now d s') ∨
      s' = s ∧ ∀ reply, o = .ok reply → reply.status ≠ 200 := by
  unfold decisionPost at h
  split at h
  · obtain ⟨rfl, rfl⟩ := run_ret_iff.mp h
    exact .inr ⟨rfl, not_granted_of_ne (by decide)⟩
  · split at h
    · obtain ⟨rfl, rfl⟩ := run_ret_iff.mp h
      exact .inr ⟨rfl, not_granted_of_ne (by decide)⟩
    · next netA netB _ =>
      rcases run_tryCatch_iff.mp h with ⟨reply, hok, rfl⟩ | ⟨e, t, herr, he⟩
      · obtain ⟨_, u, hbind, hrun⟩ := run_bind_ok_iff.mp hok
        obtain ⟨rfl, -⟩ := run_bindPair_ok hbind
        obtain ⟨res, t, hres, hret⟩ := run_bind_ok_iff.mp hrun
        obtain ⟨rfl, hreply⟩ := run_ret_iff.mp hret
        obtain ⟨hkey, hd⟩ := hres.returns (returns_applyDecision netA netB d now)
        exact .inl ⟨res, netA, netB, hreply, hkey, hd, run_applyDecision_ok hres⟩
      · rcases run_bind_iff.mp herr with ⟨e', hraise, -⟩ | ⟨_, u, hbind, hrun⟩
        · obtain ⟨rfl, -⟩ := run_bindPair_error hraise
          exact .inr (run_handleError he)
        · obtain ⟨rfl, -⟩ := run_bindPair_ok hbind
          rcases run_bind_iff.mp hrun with ⟨e', hraise, -⟩ | ⟨res, v, -, hret⟩
          · obtain rfl := run_applyDecision_error hraise
            exact .inr (run_handleError he)
          · exact nomatch (run_ret_iff.mp hret).2

end

/-! ## One request -/

section
variable {c : ApiCall} {o : Except PyError Reply} {ready : Bool}

theorem run_getBuild {clock : BuildClock} (h : Run (exec ord) s (getBuild ready clock) s' o) :
    BuildEnds ord {} clock s s' ∧ ∀ res, o ≠ .ok ⟨200, .decided res⟩ := by
  unfold getBuild at h
  split at h
  · obtain ⟨rfl, rfl⟩ := run_ret_iff.mp h
    exact ⟨.early, fun _ h => nomatch h⟩
  · rcases run_bind_iff.mp h with ⟨e, hrun, rfl⟩ | ⟨res, t, hrun, hret⟩
    · exact ⟨run_build_ends hrun, fun _ h => nomatch h⟩
    · obtain ⟨rfl, rfl⟩ := run_ret_iff.mp hret
      exact ⟨run_build_ends hrun, fun _ h => nomatch h⟩

theorem run_getCandidates {M : MathFns} {clock : ListClock}
    (h : Run (exec ord) s (getCandidates M ready clock) s' o) :
    ListEnds s s' ∧ ∀ res, o ≠ .ok ⟨200, .decided res⟩ := by
  unfold getCandidates at h
  split at h
  · obtain ⟨rfl, rfl⟩ := run_ret_iff.mp h
    exact ⟨.refl _, fun _ h => nomatch h⟩
  · rcases run_bind_iff.mp h with ⟨e, hrun, rfl⟩ | ⟨res, t, hrun, hret⟩
    · exact ⟨run_list_ends hrun, fun _ h => nomatch h⟩
    · obtain ⟨rfl, rfl⟩ := run_ret_iff.mp hret
      exact ⟨run_list_ends hrun, fun _ h => nomatch h⟩

/-- A request ends as a call of a service does. -/
theorem run_api_ends (h : Run (exec ord) s c.prog s' o) : ∃ call, CallEnds ord s call s' := by
  have hdecide : ∀ {d ready pk now}, Run (exec ord) s (decisionPost d ready pk now) s' o →
      ∃ call, CallEnds ord s call s' := by
    intro d ready pk now h
    rcases run_decisionPost h with ⟨res, a, b, -, -, -, hd⟩ | ⟨rfl, -⟩
    · exact ⟨_, .decided hd⟩
    · exact ⟨_, .refused 0 0 d now⟩
  rcases c with ⟨ready, clock⟩ | ⟨M, ready, clock⟩ | ⟨ready, pk, now⟩ | ⟨ready, pk, now⟩
  · exact ⟨_, .built (run_getBuild h).1⟩
  · exact ⟨.list M {} clock, .listed (run_getCandidates h).1⟩
  · exact hdecide h
  · exact hdecide h

end

/-! ## Addresses -/

/-- The last part but one of the address of a pair. -/
def pairPath (netA netB : ℤ) : Text := keySep.intercalate [fmtInt netA, fmtInt netB]

/-- The text of an id that a column holds is not too long to be read. -/
theorem intText_of_bindable {n : ℤ} (h : bindable n) : intText (fmtInt n) = some n := by
  have hlen : ∀ m : ℕ, m ≤ 2 ^ 31 → (Nat.toDigits 10 m).length ≤ 10 := by
    intro m hm
    rw [Nat.length_toDigits_le_iff (by norm_num) (by norm_num)]
    omega
  have hfmt : (fmtInt n).length ≤ 11 := by
    unfold fmtInt
    split
    · have := hlen n.natAbs (by unfold bindable at h; omega)
      rw [List.length_cons]
      omega
    · have := hlen n.toNat (by unfold bindable at h; omega)
      omega
  rw [intText_of_length_le (by omega), intValue_fmtInt]

theorem parsePair_pairPath {netA netB : ℤ} (hA : bindable netA) (hB : bindable netB) :
    parsePair (some (pairPath netA netB)) = .ok (netA, netB) := by
  have hsplit : List.splitWord keySep (pairPath netA netB) = [fmtInt netA, fmtInt netB] := by
    have hwords : ∀ w ∈ [fmtInt netA], ¬ keySep <:+: w ++ keySep.dropLast := by
      intro w hw
      rw [List.mem_singleton.mp hw]
      exact not_infix_fmtInt_append netA
    exact List.splitWord_intercalate keySep_ne_nil hwords (not_infix_fmtInt netB)
  unfold parsePair
  rw [Option.getD_some, hsplit]
  dsimp only
  rw [intText_of_bindable hA, intText_of_bindable hB]

/-- A decision that can be made is granted at the address of its pair. -/
theorem NetMergingService.Decided.post {a b : ℤ} {d : Decision} {now : Time} (hab : a ≤ b)
    (hbind : bindable a ∧ bindable b) (h : Decided ord s a b now d s') :
    ∃ res, (res.netA, res.netB) = (a, b) ∧ res.decision = d ∧
      Run (exec ord) s (decisionPost d true (some (pairPath a b)) now) s'
        (.ok ⟨200, .decided res⟩) := by
  obtain ⟨res, hrun⟩ := h.run hab
  obtain ⟨hkey, hd⟩ := hrun.returns (returns_applyDecision a b d now)
  refine ⟨res, hkey.trans (Prod.ext (min_eq_left hab) (max_eq_right hab)), hd, ?_⟩
  unfold decisionPost
  rw [if_neg Bool.noConfusion, parsePair_pairPath hbind.1 hbind.2]
  refine run_tryCatch_iff.mpr (.inl ⟨_, run_bind_ok_iff.mpr ⟨(), s, ?_, ?_⟩, rfl⟩)
  · unfold bindPair
    rw [if_pos hbind]
    exact .ret _ _
  · exact run_bind_ok_iff.mpr ⟨res, s', hrun, .ret _ _⟩

/-! ## Two stations at one spot -/

/-- Reports of two stations that hear one emitter at one place. -/
def spotReports : List Report :=
  [(1, ['A']), (2, ['B'])].map fun (ffId, rdfs) =>
    let plain : Fields := .plain (.of2024 3 28 (by decide)) 1 100 rdfs
    ((ffId, .of2024 3 28 (by decide)),
      { plain with
        num := fun c => if c = .latitude ∨ c = .longitude then .val 10 else plain.num c })

/-- What a build over these reports and then a detection write. -/
def spotPlan : Except PyError (BuildPlan × List (ℤ × ℤ × Reasons) × List (PairKey × Candidate)) :=
  do
    let p ← buildPlan {} (.still 1) [] [] spotReports
    let pairs ← proposePairs flatMath {} (fetchNets p.rows)
    let added ← pairs.mapM fun q => snapshotRow 1 (fetchNets p.rows) q.1 q.2.1 q.2.2
    pure (p, pairs, added)

/-- Two nets, the pair of which is pending. -/
structure SpotNets (s : Store) : Prop where
  nets : ∃ x₁ x₂, Table.Enumerates [(100001, x₁), (100002, x₂)] s.building
  pair : ∃ c, Table.Enumerates [((100001, 100002), c)] s.candidates ∧ c.status = some .pending

theorem SpotNets.statusOf {s : Store} (h : SpotNets s) :
    s.statusOf (100001, 100002) = some .pending := by
  obtain ⟨c, hc, hp⟩ := h.pair
  unfold Store.statusOf
  rw [(hc.mem_iff _ c).mp List.mem_cons_self]
  exact hp

theorem SpotNets.rejects {s : Store} (h : SpotNets s) :
    ∃ res, (res.netA, res.netB) = (100001, 100002) ∧ res.decision = .reject ∧
      Run (exec .any) s (postReject true (some (pairPath 100001 100002)) 2)
        (settle s (100001, 100002) .rejected 2) (.ok ⟨200, .decided res⟩) := by
  obtain ⟨c, hc, hp⟩ := Option.bind_eq_some_iff.mp h.statusOf
  exact Decided.post (by decide) (by decide) (.reject hc hp)

/-- They are reached by a build and a look at the alert queue. -/
theorem apiRun_spotLook : ∃ log s s' res, ApiRun .any log s ∧ SpotNets s' ∧
    Run (exec .any) s (getCandidates flatMath true ⟨fun _ => 1, 1⟩) s'
      (.ok ⟨200, .listed res⟩) := by
  have hplan : spotPlan.map (fun x => (x.1.rows.map Prod.fst, x.2.2.map fun r => (r.1, r.2.status)))
      = .ok ([100001, 100002], [((100001, 100002), some .pending)]) := by
    decide +kernel
  obtain ⟨⟨p, pairs, added⟩, hx, hv⟩ := Except.map_eq_ok_iff.mp hplan
  obtain ⟨hnets, hcands⟩ := Prod.mk.inj hv
  unfold spotPlan at hx
  obtain ⟨p', hp, hx₁⟩ := Except.bind_eq_ok_iff.mp hx
  obtain ⟨pairs', hpairs, hx₂⟩ := Except.bind_eq_ok_iff.mp hx₁
  obtain ⟨added', hadded, hx₃⟩ := Except.bind_eq_ok_iff.mp hx₂
  obtain ⟨rfl, hx₄⟩ := Prod.mk.inj (Except.ok.inj hx₃)
  obtain ⟨rfl, rfl⟩ := Prod.mk.inj hx₄
  dsimp only at hnets hcands
  -- the reports arrive, the nets are built, and the queue is looked at
  have hnodup : (p'.rows.map Prod.fst).Nodup := by
    rw [hnets]
    decide
  have hkey : added'.map Prod.fst = [(100001, 100002)] := by
    have := congrArg (List.map Prod.fst) hcands
    rwa [List.map_map] at this
  have hreports : ApiRun .any [] (.ofReports spotReports) := ApiRun.start.reports _
  have hbuild : Run (exec .any) _ _ _ _ := run_of_buildPlan (s := .ofReports spotReports)
    lists_empty lists_empty (lists_ofReports (by decide)) (by decide) hp
  have hread : Lists ReadOrder.any.building p'.rows
      ((Store.ofReports spotReports).afterBuild [] p').building :=
    lists_any (Table.enumerates_upsertAll hnodup)
  have hfresh : pairs'.filter (fun p => keyOf p ∉ existingPairs []) = pairs' :=
    List.filter_eq_self.mpr fun p _ => decide_eq_true List.not_mem_nil
  have hlisted : Lists ReadOrder.any.candidates _ _ :=
    lists_any (Table.enumerates_upsertAll (by rw [hkey]; decide))
  have hlisting : ∃ res, Run (exec .any) ((Store.ofReports spotReports).afterBuild [] p')
      (listPendingCandidates flatMath {} ⟨fun _ => 1, 1⟩) _ (.ok res) :=
    run_of_proposePairs hread (fun he => by rw [he] at hnets; exact nomatch hnets) lists_empty
      hpairs (by rw [hfresh]; exact Except.mapM_eq_ok_iff.mp hadded) hlisted
  obtain ⟨res, hlist⟩ := hlisting
  refine ⟨_, _, _, res, .call hreports (c := .build true (.still 1))
    (run_bind_iff.mpr (.inr ⟨_, _, hbuild, .ret _ _⟩)), ⟨?_, ?_⟩,
    run_bind_iff.mpr (.inr ⟨_, _, hlist, .ret _ _⟩)⟩
  · obtain ⟨r₁, l, hl, h₁, hl₁⟩ := List.map_eq_cons_iff.mp hnets
    obtain ⟨r₂, rfl, h₂⟩ := List.map_eq_singleton_iff.mp hl₁
    refine ⟨r₁.2, r₂.2, ?_⟩
    rw [← h₁, ← h₂]
    show Table.Enumerates [r₁, r₂] _
    rw [← hl]
    exact hread.enumerates
  · obtain ⟨r, rfl, hr⟩ := List.map_eq_singleton_iff.mp hcands
    obtain ⟨hk, hst⟩ := Prod.mk.inj hr
    refine ⟨r.2, ?_, hst⟩
    rw [← hk]
    exact hlisted.enumerates

theorem apiRun_spotNets : ∃ log s, ApiRun .any log s ∧ SpotNets s := by
  obtain ⟨log, s, s', res, hs, hspot, hlook⟩ := apiRun_spotLook
  exact ⟨_, s', hs.call (c := .candidates flatMath true ⟨fun _ => 1, 1⟩) hlook, hspot⟩

/-! ## Recorded pairs have their nets -/

/-- The nets are labelled, and those of every recorded pair are there. -/
structure Anchored (s : Store) : Prop where
  labelled : Labelled s
  nets : ∀ k, s.candidates k ≠ none → s.label k.1 ≠ none ∧ s.label k.2 ≠ none

theorem NetMergingService.Decided.labelled {a b : ℤ} {d : Decision} {now : Time}
    (h : Decided ord s a b now d s') (hs : Labelled s) : Labelled s' := by
  rcases h with ⟨-, -, hap⟩ | ⟨-, -⟩
  · rcases hap.label_cases with ⟨-, rfl⟩ | ⟨hi, lo, all, -, -, -, rfl⟩
    · exact hs
    · exact hs.move lo _ _
  · exact hs

theorem CallEnds.labelled {c : Call} (h : CallEnds ord s c s') (hs : Labelled s) :
    Labelled s' := by
  rcases h with ⟨key, row⟩ | ends | ends | _ | hd
  · exact hs
  · rcases ends with _ | ⟨run, nets, -, -⟩
    · exact hs
    · intro n x hx
      rw [nets] at hx
      exact run.labelled n x hx
  · intro n x hx
    rw [ends.building] at hx
    exact hs n x hx
  · exact hs
  · exact hd.labelled hs

theorem CallEnds.anchored {c : Call} (h : CallEnds ord s c s') (hs : Anchored s) :
    Anchored s' := by
  refine ⟨h.labelled hs.labelled, fun k hk => ?_⟩
  have hkept : s.candidates k ≠ none → s'.label k.1 ≠ none ∧ s'.label k.2 ≠ none := fun hold =>
    ⟨h.label_ne_none (hs.nets k hold).1, h.label_ne_none (hs.nets k hold).2⟩
  by_cases hold : s.candidates k = none
  · -- only a listing records a pair, and it has read the labels of its nets
    rcases h with ⟨key, row⟩ | ends | ends | _ | hd
    · exact absurd hold hk
    · rcases ends with _ | ⟨-, -, hcands, -⟩
      · exact absurd hold hk
      · rw [hcands] at hk
        exact absurd hold hk
    · obtain ⟨c, hc⟩ := Option.ne_none_iff_exists'.mp hk
      rcases ends.added k c hc with hc' | ⟨-, snapshot, -, hA, hB⟩
      · exact nomatch hold.symm.trans hc'
      · rw [Store.label_congr ends.building, hA, hB]
        exact ⟨Option.some_ne_none _, Option.some_ne_none _⟩
    · exact absurd hold hk
    · exact absurd (hd.continues.2 k hold) hk
  · exact hkept hold

theorem ApiRun.anchored {log : List Exchange} (h : ApiRun ord log s) : Anchored s := by
  induction h with
  | start => exact ⟨fun _ _ hx => (nomatch hx), fun _ hk => absurd rfl hk⟩
  | reports _ report ih => exact ⟨ih.labelled, ih.nets⟩
  | call _ run ih =>
    obtain ⟨call, hends⟩ := run_api_ends run
    exact hends.anchored ih

/-! ## The status of a reply -/

/-- The status of the reply to a decision, or the exception: from the ledger alone. -/
def replyStatus (s : Store) (ready : Bool) (pk : Option Text) : Except PyError ℕ :=
  if ready = false then .ok 503 else
    match parsePair pk with
    | .error _ => .ok 400
    | .ok (netA, netB) =>
      if bindable netA ∧ bindable netB then
        match s.candidates (pairKey netA netB) with
        | none => .ok 404
        | some c => .ok (if c.status = some .pending then 200 else 400)
      else .error .typeError

theorem run_approve_labels {a b : ℤ} {now : Time} {myA myB : Option ℤ} {e : PyError}
    (h : Run (exec ord) s (approve now a b myA myB) s' (.error e)) : myA = none ∨ myB = none := by
  rcases myA with _ | x
  · exact .inl rfl
  · rcases myB with _ | y
    · exact .inr rfl
    · exfalso
      by_cases hxy : some x = some y
      · unfold approve at h
        rw [if_pos hxy, Prog.request_bind] at h
        obtain ⟨_, -, h⟩ := run_request_iff.mp h
        exact nomatch (run_ret_iff.mp h).2
      · unfold approve at h
        rw [if_neg hxy] at h
        dsimp only at h
        rw [Prog.request_bind] at h
        obtain ⟨rows, -, h₁⟩ := run_request_iff.mp h
        rcases run_bind_iff.mp h₁ with ⟨e', hmove, -⟩ | ⟨_, _, -, h₂⟩
        · exact nomatch (run_moveRows.mp hmove).2
        · rw [Prog.request_bind] at h₂
          obtain ⟨_, -, h₃⟩ := run_request_iff.mp h₂
          exact nomatch (run_ret_iff.mp h₃).2

/-- A decision whose nets are there is refused for the row of its pair only. -/
theorem run_decidePair_refused (hs : Anchored s) {a b : ℤ} {d : Decision} {now : Time}
    {e : PyError} (h : Run (exec ord) s (decidePair a b d now) s' (.error e)) :
    s.candidates (a, b) = none ∧ (∃ msg, e = .lookupError msg) ∨
      ∃ c, s.candidates (a, b) = some c ∧ c.status ≠ some .pending
        ∧ ∃ msg, e = .valueError msg := by
  unfold decidePair at h
  rw [Prog.request_bind] at h
  obtain ⟨candidate, hc, h₁⟩ := run_request_iff.mp h
  change candidate = s.candidates (a, b) at hc
  change Run (exec ord) s _ _ _ at h₁
  rcases candidate with _ | c
  · exact .inl ⟨hc.symm, _, Except.error.inj (run_raise_iff.mp h₁).2⟩
  · dsimp only at h₁
    split at h₁
    · next hp => exact .inr ⟨c, hc.symm, hp, _, Except.error.inj (run_raise_iff.mp h₁).2⟩
    · exfalso
      obtain ⟨hA, hB⟩ := hs.nets (a, b) (by rw [← hc]; exact Option.some_ne_none c)
      split at h₁
      · rw [Prog.request_bind] at h₁
        obtain ⟨_, -, h₂⟩ := run_request_iff.mp h₁
        exact nomatch (run_ret_iff.mp h₂).2
      · rw [Prog.request_bind] at h₁
        obtain ⟨rowA, hrowA, h₂⟩ := run_request_iff.mp h₁
        rw [Prog.request_bind] at h₂
        obtain ⟨rowB, hrowB, h₃⟩ := run_request_iff.mp h₂
        change rowA = s.building a at hrowA
        change rowB = s.building b at hrowB
        change Run (exec ord) s _ _ _ at h₃
        -- both nets are there, and have labels
        rcases rowA with _ | x
        · exact hA (by unfold Store.label; rw [← hrowA]; rfl)
        · rcases rowB with _ | y
          · exact hB (by unfold Store.label; rw [← hrowB]; rfl)
          · rcases run_approve_labels h₃ with hx | hy
            · exact hs.labelled a x hrowA.symm hx
            · exact hs.labelled b y hrowB.symm hy

theorem Anchored.replied (h : Anchored s) {d : Decision} (hd : ∀ text, d ≠ .other text)
    {ready : Bool} {pk : Option Text} {now : Time} {o : Except PyError Reply}
    (hrun : Run (exec ord) s (decisionPost d ready pk now) s' o) :
    o.map Reply.status = replyStatus s ready pk := by
  unfold decisionPost at hrun
  unfold replyStatus
  by_cases hready : ready = false
  · rw [if_pos hready] at hrun
    rw [if_pos hready, (run_ret_iff.mp hrun).2]
    rfl
  · rw [if_neg hready] at hrun
    rw [if_neg hready]
    rcases hpk : parsePair pk with detail | ⟨netA, netB⟩
    · rw [hpk] at hrun
      rw [(run_ret_iff.mp hrun).2]
      rfl
    · rw [hpk] at hrun
      dsimp only at hrun ⊢
      have happly : applyDecision netA netB d now
          = decidePair (min netA netB) (max netA netB) d now := by
        unfold applyDecision
        split
        · next text => exact absurd rfl (hd text)
        · rfl
      rw [happly] at hrun
      rcases run_tryCatch_iff.mp hrun with ⟨reply, hok, rfl⟩ | ⟨e, t, herr, he⟩
      · obtain ⟨_, u, hbind, hdecide⟩ := run_bind_ok_iff.mp hok
        obtain ⟨rfl, hfits⟩ := run_bindPair_ok hbind
        obtain ⟨res, t, hres, hret⟩ := run_bind_ok_iff.mp hdecide
        obtain ⟨c, hc, hp, -⟩ := run_decidePair_cases hd hres
        unfold pairKey
        rw [if_pos hfits, hc, Except.ok.inj (run_ret_iff.mp hret).2]
        exact congrArg Except.ok (if_pos hp).symm
      · rcases run_bind_iff.mp herr with ⟨e', hraise, he'⟩ | ⟨_, u, hbind, hdecide⟩
        · obtain rfl := Except.error.inj he'
          obtain ⟨rfl, rfl, hnot⟩ := run_bindPair_error hraise
          rw [if_neg hnot, (run_raise_iff.mp he).2]
          rfl
        · obtain ⟨rfl, hfits⟩ := run_bindPair_ok hbind
          rcases run_bind_iff.mp hdecide with ⟨e', hraise, he'⟩ | ⟨res, v, -, hret⟩
          · obtain rfl := Except.error.inj he'
            unfold pairKey
            rw [if_pos hfits]
            rcases run_decidePair_refused h hraise with ⟨hc, msg, rfl⟩ | ⟨c, hc, hp, msg, rfl⟩
            · rw [hc, (run_ret_iff.mp he).2]
              rfl
            · rw [hc, (run_ret_iff.mp he).2]
              exact congrArg Except.ok (if_neg hp).symm
          · exact nomatch (run_ret_iff.mp hret).2

/-- How a request to decide a pair ends is fixed by whether Cassandra is there, by the path, and by
the row of the pair in the ledger: it is granted exactly where that is pending, and no exception
goes by the view but the driver's, for an id that no column holds. -/
theorem decision_replied {log : List Exchange} (h : ApiRun ord log s) (ready : Bool)
    (pk : Option Text) (now : Time) (o : Except PyError Reply) :
    (Run (exec ord) s (postApprove ready pk now) s' o →
        o.map Reply.status = replyStatus s ready pk) ∧
      (Run (exec ord) s (postReject ready pk now) s' o →
        o.map Reply.status = replyStatus s ready pk) := by
  refine ⟨h.anchored.replied ?_, h.anchored.replied ?_⟩
  · intro text htext
    exact nomatch htext
  · intro text htext
    exact nomatch htext

/-- A pending pair is rejected at its address. -/
theorem decision_replied_spotNets :
    ∃ log s s' reply, ApiRun .any log s ∧
      Run (exec .any) s (postReject true (some (pairPath 100001 100002)) 2) s' (.ok reply) ∧
        replyStatus s true (some (pairPath 100001 100002)) = .ok 200 ∧ reply.status = 200 := by
  obtain ⟨log, s, hs, hspot⟩ := apiRun_spotNets
  obtain ⟨res, -, -, hrun⟩ := hspot.rejects
  have hstatus := (decision_replied hs true _ 2 _).2 hrun
  exact ⟨log, s, _, _, hs, hrun, hstatus.symm, rfl⟩

/-! ## What was granted and what is recorded -/

/-- The status a decision gives a pair. -/
def NetMergingService.Decision.verdict : Decision → Option Status
  | .approve => some .approved
  | .reject => some .rejected
  | .other _ => none

theorem verdict_ne_pending (d : Decision) : d.verdict ≠ some .pending := by
  cases d <;> exact fun h => nomatch h

theorem verdict_inj {d d' : Decision} {st : Status} (h : d.verdict = some st)
    (h' : d'.verdict = some st) : d = d' := by
  unfold Decision.verdict at h h'
  grind

theorem statusOf_settle (s : Store) (k k' : PairKey) (status : Status) (now : Time) :
    (settle s k status now).statusOf k' = if k' = k then some status else s.statusOf k' := by
  unfold Store.statusOf
  rw [candidates_settle, Table.upsert_apply]
  split <;> rfl

/-- A decision gives a pending pair its verdict, and no other pair anything. -/
theorem NetMergingService.Decided.statusOf {a b : ℤ} {now : Time} {d : Decision}
    (h : Decided ord s a b now d s') :
    s.statusOf (a, b) = some .pending ∧ d.verdict ≠ none ∧
      ∀ k, s'.statusOf k = if k = (a, b) then d.verdict else s.statusOf k := by
  have hpending : ∀ {c : Candidate}, s.candidates (a, b) = some c → c.status = some .pending →
      s.statusOf (a, b) = some .pending := by
    intro c hc hp
    unfold Store.statusOf
    rw [hc]
    exact hp
  rcases h with ⟨hc, hp, hap⟩ | ⟨hc, hp⟩
  · refine ⟨hpending hc hp, Option.some_ne_none _, fun k => ?_⟩
    rcases hap.label_cases with ⟨-, rfl⟩ | ⟨hi, lo, all, -, -, -, rfl⟩
    · exact statusOf_settle s _ k _ now
    · exact statusOf_settle (move s lo now _) _ k _ now
  · exact ⟨hpending hc hp, Option.some_ne_none _, fun k => statusOf_settle s _ k _ now⟩

theorem BuildEnds.statusOf {cfg : MatchConfig} {clock : BuildClock}
    (h : BuildEnds ord cfg clock s s') : s'.statusOf = s.statusOf := by
  rcases h with _ | ⟨-, -, hcands, -⟩
  · rfl
  · funext k
    unfold Store.statusOf
    rw [hcands]

/-- A listing makes no verdict, and takes none back. -/
theorem ListEnds.statusOf_iff (h : ListEnds s s') {st : Status} (hst : st ≠ .pending)
    (k : PairKey) : s'.statusOf k = some st ↔ s.statusOf k = some st := by
  unfold Store.statusOf
  simp only [Option.bind_eq_some_iff]
  refine ⟨fun ⟨c, hc, hs⟩ => ?_, fun ⟨c, hc, hs⟩ => ⟨c, h.kept k c hc, hs⟩⟩
  rcases h.added k c hc with hold | ⟨hp, -⟩
  · exact ⟨c, hold, hs⟩
  · exact absurd (Option.some.inj (hs.symm.trans hp)) hst

/-- The ledger has the verdicts that were granted, and no pair was granted two. -/
structure Reconciled (log : List Exchange) (s : Store) : Prop where
  recorded : ∀ r ∈ log, ∀ k d, r.Grants k d → d.verdict ≠ none ∧ s.statusOf k = d.verdict
  granted : ∀ k d, d.verdict ≠ none → s.statusOf k = d.verdict → ∃ r ∈ log, r.Grants k d
  once : log.Pairwise fun r r' => ∀ k d d', r.Grants k d → ¬ r'.Grants k d'

section
variable {log : List Exchange} {c : ApiCall} {o : Except PyError Reply}

/-- An exchange that grants nothing and changes no verdict. -/
theorem Reconciled.cons_of_not_granted (h : Reconciled log s)
    (hs : ∀ k st, st ≠ .pending → (s'.statusOf k = some st ↔ s.statusOf k = some st))
    (ho : ∀ res, o ≠ .ok ⟨200, .decided res⟩) : Reconciled ((c, o) :: log) s' := by
  have hnot := not_grants (c := c) ho
  have hverdict : ∀ (k : PairKey) (d : Decision), d.verdict ≠ none →
      (s'.statusOf k = d.verdict ↔ s.statusOf k = d.verdict) := by
    intro k d hd
    obtain ⟨st, hst⟩ := Option.ne_none_iff_exists'.mp hd
    rw [hst]
    refine hs k st fun hp => ?_
    rw [hp] at hst
    exact verdict_ne_pending d hst
  refine ⟨fun r hr k d hg => ?_, fun k d hd hst => ?_,
    List.pairwise_cons.mpr ⟨fun r _ k d d' hg => absurd hg (hnot k d), h.once⟩⟩
  · rcases List.mem_cons.mp hr with rfl | hr
    · exact absurd hg (hnot k d)
    · obtain ⟨hd, hst⟩ := h.recorded r hr k d hg
      exact ⟨hd, (hverdict k d hd).mpr hst⟩
  · obtain ⟨r, hr, hg⟩ := h.granted k d hd ((hverdict k d hd).mp hst)
    exact ⟨r, List.mem_cons_of_mem _ hr, hg⟩

/-- An exchange that grants a decision. -/
theorem Reconciled.cons_of_granted (h : Reconciled log s) {a b : ℤ} {d : Decision} {now : Time}
    {res : DecisionResult} (hdec : Decided ord s a b now d s')
    (hkey : (res.netA, res.netB) = (a, b)) (hd : res.decision = d) :
    Reconciled ((c, .ok ⟨200, .decided res⟩) :: log) s' := by
  obtain ⟨hpending, hverdict, hafter⟩ := hdec.statusOf
  have hgrants : ∀ k d', Exchange.Grants (c, .ok ⟨200, .decided res⟩) k d' ↔
      k = (a, b) ∧ d' = d := by
    intro k d'
    rw [grants_iff, hkey, hd]
    exact and_congr eq_comm eq_comm
  -- a pair that is pending has been granted nothing
  have hfresh : ∀ r ∈ log, ∀ d', ¬ r.Grants (a, b) d' := by
    intro r hr d' hg
    have hst := (h.recorded r hr (a, b) d' hg).2
    rw [hpending] at hst
    exact verdict_ne_pending d' hst.symm
  refine ⟨fun r hr k d' hg => ?_, fun k d' hd' hst => ?_,
    List.pairwise_cons.mpr ⟨fun r hr k d₁ d₂ hg hr' => ?_, h.once⟩⟩
  · rcases List.mem_cons.mp hr with rfl | hr
    · obtain ⟨rfl, rfl⟩ := (hgrants k d').mp hg
      exact ⟨hverdict, (hafter (a, b)).trans (if_pos rfl)⟩
    · obtain ⟨hd', hst⟩ := h.recorded r hr k d' hg
      have hk : k ≠ (a, b) := by
        rintro rfl
        exact hfresh r hr d' hg
      exact ⟨hd', by rw [hafter, if_neg hk, hst]⟩
  · rw [hafter] at hst
    by_cases hk : k = (a, b)
    · rw [if_pos hk] at hst
      obtain ⟨st, hst'⟩ := Option.ne_none_iff_exists'.mp hd'
      have hdd : d' = d := verdict_inj hst' (hst.trans hst')
      exact ⟨_, List.mem_cons_self, (hgrants k d').mpr ⟨hk, hdd⟩⟩
    · rw [if_neg hk] at hst
      obtain ⟨r, hr, hg⟩ := h.granted k d' hd' hst
      exact ⟨r, List.mem_cons_of_mem _ hr, hg⟩
  · obtain ⟨rfl, rfl⟩ := (hgrants k d₁).mp hg
    exact hfresh r hr d₂ hr'

theorem Reconciled.call (h : Reconciled log s) (hrun : Run (exec ord) s c.prog s' o) :
    Reconciled ((c, o) :: log) s' := by
  have hdecide : ∀ {d ready pk now}, Run (exec ord) s (decisionPost d ready pk now) s' o →
      Reconciled ((c, o) :: log) s' := by
    intro d ready pk now hpost
    rcases run_decisionPost hpost with ⟨res, a, b, rfl, hkey, hd, hdec⟩ | ⟨rfl, ho⟩
    · exact h.cons_of_granted hdec hkey hd
    · exact h.cons_of_not_granted (fun _ _ _ => Iff.rfl) fun res hres => ho _ hres rfl
  rcases c with ⟨ready, clock⟩ | ⟨M, ready, clock⟩ | ⟨ready, pk, now⟩ | ⟨ready, pk, now⟩
  · obtain ⟨hends, ho⟩ := run_getBuild hrun
    exact h.cons_of_not_granted (fun k st _ => by rw [hends.statusOf]) ho
  · obtain ⟨hends, ho⟩ := run_getCandidates hrun
    exact h.cons_of_not_granted (fun k st hst => hends.statusOf_iff hst k) ho
  · exact hdecide hrun
  · exact hdecide hrun

theorem ApiRun.reconciled (h : ApiRun ord log s) : Reconciled log s := by
  induction h with
  | start => exact ⟨fun r hr => absurd hr List.not_mem_nil, fun k d hd hst => absurd hst.symm hd,
      List.Pairwise.nil⟩
  | reports _ report ih => exact ⟨ih.recorded, ih.granted, ih.once⟩
  | call _ run ih => exact ih.call run

/-- After any run of requests the approved pairs are those an approval was granted for, the
rejected ones those a rejection was granted for, and no pair was granted two decisions. -/
theorem replies_reconcile (h : ApiRun ord log s) :
    (∀ k, s.statusOf k = some .approved ↔ ∃ r ∈ log, r.Grants k .approve) ∧
      (∀ k, s.statusOf k = some .rejected ↔ ∃ r ∈ log, r.Grants k .reject) ∧
      log.Pairwise fun r r' => ∀ k d d', r.Grants k d → ¬ r'.Grants k d' := by
  have hrec := h.reconciled
  refine ⟨fun k => ⟨fun hst => ?_, fun ⟨r, hr, hg⟩ => ?_⟩,
    fun k => ⟨fun hst => ?_, fun ⟨r, hr, hg⟩ => ?_⟩, hrec.once⟩
  · exact hrec.granted k .approve (Option.some_ne_none _) hst
  · exact (hrec.recorded r hr k .approve hg).2
  · exact hrec.granted k .reject (Option.some_ne_none _) hst
  · exact (hrec.recorded r hr k .reject hg).2

end

/-- A pair that was rejected at its address is one a rejection was granted for. -/
theorem replies_reconcile_spotNets :
    ∃ log s, ApiRun .any log s ∧ s.statusOf (100001, 100002) = some .rejected ∧
      ∃ r ∈ log, r.Grants (100001, 100002) .reject := by
  obtain ⟨log, s, hs, hspot⟩ := apiRun_spotNets
  obtain ⟨res, -, -, hrun⟩ := hspot.rejects
  have hs' := hs.call (c := .reject true (some (pairPath 100001 100002)) 2) hrun
  have hst : (settle s (100001, 100002) .rejected 2).statusOf (100001, 100002) = some .rejected :=
    (statusOf_settle ..).trans (if_pos rfl)
  exact ⟨_, _, hs', hst, ((replies_reconcile hs').2.1 _).mp hst⟩

end NetBuild
