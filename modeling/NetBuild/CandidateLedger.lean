import NetBuild.Footprints
import NetBuild.MergeGroups

/-!
# The ledger of merge candidates

Calls made one after another treat `ff_net_merge_candidates` as a ledger: a pair is recorded
once, under its two nets in order, as pending and with what detection saw; it is decided at most
once; and nothing else of it changes.
-/

namespace NetBuild

open NetMerging NetMergingService
open Prog (Run)

/-- Any calls, of which the listings complete. -/
def listingsComplete : Guard := fun _ c o =>
  match c with
  | .list _ _ _ => ∃ out, o = .ok out
  | _ => True

/-- What may become of a recorded candidate: nothing, or its one decision. -/
inductive Later (c : Candidate) : Candidate → Prop
  | same : Later c c
  | decided {status : Status} (now : Time) (pending : c.status = some .pending)
      (ne : status ≠ .pending) :
      Later c { c with status := some status, decidedAt := some now }

/-- The rows of the earlier store are in the later one, decided or not. -/
def Continues (s s' : Store) : Prop :=
  ∀ k c, s.candidates k = some c → ∃ c', s'.candidates k = some c' ∧ Later c c'

/-- What one call does to the ledger and to the nets. -/
structure LedgerStep (ord : ReadOrder) (s : Store) (c : Call) (o : Except PyError Outcome)
    (s' : Store) : Prop where
  continues : Continues s s'
  added : ∀ k x, s.candidates k = none → s'.candidates k = some x →
    x.status = some .pending ∧ x.snapshot ≠ none ∧ x.detectedAt ≠ none
  raising : ∀ a b d now e, c = .decide a b d now → o = .error e → s'.building = s.building
  detection : ∀ M cfg clock, c = .list M cfg clock → s'.building = s.building
  rejection : ∀ a b now, c = .decide a b .reject now → s'.building = s.building
  swapped : ∀ a b d now, c = .decide a b d now →
    Run (exec ord) s (Call.decide b a d now).prog s' o
  complete : ∀ M cfg clock, c = .list M cfg clock →
    ∀ rows, Table.Enumerates rows s'.building → ∀ r₁ ∈ rows, ∀ r₂ ∈ rows,
      r₁.2.myNetId ≠ r₂.2.myNetId →
        sameNet M cfg (netRecord rows r₁).cells (netRecord rows r₂).cells = .ok true →
          s'.candidates (pairKey r₁.1 r₂.1) ≠ none
  counted : ∀ M cfg clock res, c = .list M cfg clock → o = .ok (.listed res) →
    ∃ added : List (PairKey × Candidate), (added.map Prod.fst).Nodup ∧
      (∀ k ∈ added.map Prod.fst, s.candidates k = none) ∧
      s'.candidates = s.candidates.upsertAll added ∧ res.newlyDetected = added.length

section
variable {ord : ReadOrder} {past : List Store} {s s' : Store} {c : Call}
  {o : Except PyError Outcome}

/-! ## Decided candidates -/

theorem Later.trans {x y z : Candidate} (hxy : Later x y) (hyz : Later y z) : Later x z := by
  rcases hxy with _ | ⟨now, hp, hne⟩
  · exact hyz
  · rcases hyz with _ | ⟨now', hp', -⟩
    · exact .decided now hp hne
    · exact absurd (Option.some.inj hp') hne

theorem Continues.refl (s : Store) : Continues s s := fun _ c hc => ⟨c, hc, .same⟩

theorem Continues.of_eq (h : s'.candidates = s.candidates) : Continues s s' := by
  intro k c hc
  exact ⟨c, by rw [h, hc], .same⟩

theorem Continues.trans {s'' : Store} (h : Continues s s') (h' : Continues s' s'') :
    Continues s s'' := by
  intro k c hc
  obtain ⟨c', hc', hl⟩ := h k c hc
  obtain ⟨c'', hc'', hl'⟩ := h' k c' hc'
  exact ⟨c'', hc'', hl.trans hl'⟩

theorem candidates_settle (s : Store) (k : PairKey) (status : Status) (now : Time) :
    (settle s k status now).candidates
      = s.candidates.upsert k (.decide (s.candidates k) status now) := rfl

theorem candidates_settle_self (s : Store) (k : PairKey) (status : Status) (now : Time) :
    (settle s k status now).candidates k = some (.decide (s.candidates k) status now) :=
  Table.upsert_self ..

/-- A decision on a pending pair. -/
theorem continues_settle {k : PairKey} {x : Candidate} {status : Status} {now : Time}
    (hx : s.candidates k = some x) (hp : x.status = some .pending) (hne : status ≠ .pending) :
    Continues s (settle s k status now) := by
  intro k' c hc
  rw [candidates_settle, Table.upsert_apply]
  by_cases hk : k' = k
  · rw [if_pos hk, hx]
    rw [hk, hx] at hc
    obtain rfl := Option.some.inj hc
    exact ⟨_, rfl, .decided now hp hne⟩
  · rw [if_neg hk]
    exact ⟨c, hc, .same⟩

theorem NetMergingService.Decided.continues {a b : ℤ} {now : Time} {decision : Decision}
    (h : Decided ord s a b now decision s') :
    Continues s s' ∧ ∀ k, s.candidates k = none → s'.candidates k = none := by
  have hother : ∀ {t : Store} {status : Status} {x : Candidate},
      t.candidates = s.candidates → s.candidates (a, b) = some x → ∀ k,
        s.candidates k = none → (settle t (a, b) status now).candidates k = none := by
    intro t status x ht hx k hk
    rw [candidates_settle, Table.upsert_apply, if_neg, ht, hk]
    intro he
    rw [he, hx] at hk
    exact nomatch hk
  rcases h with ⟨hx, hp, hap⟩ | ⟨hx, hp⟩
  · rcases hap with ⟨_, _, _⟩ | ⟨_, _, _, _, _, _⟩
    · exact ⟨continues_settle hx hp (by decide), hother rfl hx⟩
    · exact ⟨continues_settle (s := move s _ _ _) hx hp (by decide), hother rfl hx⟩
  · exact ⟨continues_settle hx hp (by decide), hother rfl hx⟩

/-! ## One call -/

/-- A call that keeps the candidates and is neither a listing nor a decision. -/
theorem LedgerStep.of_eq (hc : s'.candidates = s.candidates)
    (hl : ∀ M cfg clock, c ≠ .list M cfg clock) (hd : ∀ a b d now, c ≠ .decide a b d now) :
    LedgerStep ord s c o s' where
  continues := .of_eq hc
  added k x hk hx := by
    rw [hc, hk] at hx
    exact nomatch hx
  raising a b d now _ he _ := absurd he (hd a b d now)
  detection M cfg clock he := absurd he (hl M cfg clock)
  rejection a b now he := absurd he (hd a b .reject now)
  swapped a b d now he := absurd he (hd a b d now)
  complete M cfg clock he := absurd he (hl M cfg clock)
  counted M cfg clock _ he := absurd he (hl M cfg clock)

theorem prog_decide_comm (a b : ℤ) (d : Decision) (now : Time) :
    (Call.decide a b d now).prog = (Call.decide b a d now).prog := by
  show (do return Outcome.decided (← applyDecision a b d now) : Client Outcome)
    = do return Outcome.decided (← applyDecision b a d now)
  rw [applyDecision_comm]

theorem ledgerStep_decide {a b : ℤ} {d : Decision} {now : Time}
    (hrun : Run (exec ord) s (Call.decide a b d now).prog s' o) :
    LedgerStep ord s (.decide a b d now) o s' := by
  have hswap : Run (exec ord) s (Call.decide b a d now).prog s' o := by
    rw [← prog_decide_comm]
    exact hrun
  rcases o with e | out
  · obtain rfl := run_applyDecision_error (run_map_error_iff.mp hrun)
    exact {
      continues := .refl _
      added := fun k x hk hx => nomatch hk.symm.trans hx
      raising := fun _ _ _ _ _ _ _ => rfl
      detection := fun _ _ _ h => nomatch h
      rejection := fun _ _ _ _ => rfl
      swapped := fun a' b' d' now' h => by
        obtain ⟨rfl, rfl, rfl, rfl⟩ := Call.decide.inj h
        exact hswap
      complete := fun _ _ _ h => nomatch h
      counted := fun _ _ _ _ h => nomatch h }
  · obtain ⟨res, hdecide, -⟩ := run_decide_ok_iff.mp hrun
    have hdec := run_applyDecision_ok hdecide
    obtain ⟨hcont, hnone⟩ := hdec.continues
    exact {
      continues := hcont
      added := fun k x hk hx => nomatch (hnone k hk).symm.trans hx
      raising := fun _ _ _ _ _ _ h => nomatch h
      detection := fun _ _ _ h => nomatch h
      rejection := fun a' b' now' h => by
        obtain ⟨rfl, rfl, rfl, rfl⟩ := Call.decide.inj h
        rcases hdec with _ | _
        rfl
      swapped := fun a' b' d' now' h => by
        obtain ⟨rfl, rfl, rfl, rfl⟩ := Call.decide.inj h
        exact hswap
      complete := fun _ _ _ h => nomatch h
      counted := fun _ _ _ _ h => nomatch h }

theorem ledgerStep_list {M : MathFns} {cfg : MergeConfig} {clock : ListClock} {out : Outcome}
    (hrun : Run (exec ord) s (Call.list M cfg clock).prog s' (.ok out)) :
    LedgerStep ord s (.list M cfg clock) (.ok out) s' := by
  obtain ⟨res, hlist, rfl⟩ := run_list_ok_iff.mp hrun
  obtain ⟨rows, pairs, added, h⟩ := run_listPendingCandidates hlist
  have hb : s'.building = s.building := by rw [h.store]
  exact {
    continues := fun k c hc => ⟨c, (h.candidates_iff k c).mpr (.inl hc), .same⟩
    added := fun k x hk hx => by
      rcases (h.candidates_iff k x).mp hx with hold | ⟨hm, -⟩
      · exact nomatch hk.symm.trans hold
      · obtain ⟨snapshot, hp⟩ := h.pending _ hm
        change x = _ at hp
        rw [hp]
        exact ⟨rfl, Option.some_ne_none _, Option.some_ne_none _⟩
    raising := fun _ _ _ _ _ h => nomatch h
    detection := fun _ _ _ _ => hb
    rejection := fun _ _ _ h => nomatch h
    swapped := fun _ _ _ _ h => nomatch h
    complete := fun M' cfg' clock' he rows' hrows r₁ h₁ r₂ h₂ hmy hsame => by
      obtain ⟨rfl, rfl, rfl⟩ := Call.list.inj he
      rw [hb] at hrows
      exact h.complete hrows h₁ h₂ hmy hsame
    counted := fun _ _ _ res' _ ho => by
      obtain rfl := Outcome.listed.inj (Except.ok.inj ho)
      refine ⟨added, h.nodup_keys, fun k hk => ?_, by rw [h.store], h.count_eq⟩
      rw [h.keys, List.mem_filter] at hk
      exact Option.isNone_iff_eq_none.mp hk.2 }

/-- Every call keeps the ledger a ledger. -/
theorem ledgerStep (hG : listingsComplete s c o) (hrun : Run (exec ord) s c.prog s' o) :
    LedgerStep ord s c o s' := by
  rcases c with ⟨key, row⟩ | ⟨cfg, clock⟩ | ⟨M, cfg, clock⟩ | ⟨a, b, d, now⟩
  · obtain ⟨rfl, -⟩ := run_insertReport_iff.mp hrun
    exact .of_eq rfl (fun _ _ _ h => nomatch h) fun _ _ _ _ h => nomatch h
  · have hbuild := run_ofBuild (always_build cfg clock) hrun
    exact .of_eq hbuild.1 (fun _ _ _ h => nomatch h) fun _ _ _ _ h => nomatch h
  · obtain ⟨out, rfl⟩ := hG
    exact ledgerStep_list hrun
  · exact ledgerStep_decide hrun

/-! ## Runs -/

/-- Pairs are recorded under their nets in order. -/
def KeysInOrder (s : Store) : Prop := ∀ k, s.candidates k ≠ none → k.1 < k.2

theorem KeysInOrder.call (h : KeysInOrder s) (hG : listingsComplete s c o)
    (hrun : Run (exec ord) s c.prog s' o) : KeysInOrder s' := by
  intro k hk
  by_cases hold : s.candidates k = none
  · -- only a listing adds rows
    rcases c with ⟨key, row⟩ | ⟨cfg, clock⟩ | ⟨M, cfg, clock⟩ | ⟨a, b, d, now⟩
    · obtain ⟨rfl, -⟩ := run_insertReport_iff.mp hrun
      exact absurd hold hk
    · have hbuild := run_ofBuild (always_build cfg clock) hrun
      rw [hbuild.1] at hk
      exact absurd hold hk
    · obtain ⟨out, rfl⟩ := hG
      obtain ⟨res, hlist, rfl⟩ := run_list_ok_iff.mp hrun
      obtain ⟨rows, pairs, added, hd⟩ := run_listPendingCandidates hlist
      obtain ⟨x, hx⟩ := Option.ne_none_iff_exists'.mp hk
      rcases (hd.candidates_iff k x).mp hx with hx | ⟨hm, -⟩
      · exact nomatch hold.symm.trans hx
      · exact hd.key_lt (List.mem_map_of_mem hm)
    · rcases o with e | out
      · obtain rfl := run_applyDecision_error (run_map_error_iff.mp hrun)
        exact absurd hold hk
      · obtain ⟨res, hdecide, -⟩ := run_decide_ok_iff.mp hrun
        exact absurd ((run_applyDecision_ok hdecide).continues.2 k hold) hk
  · exact h k hold

theorem SeqRun.keysInOrder (h : SeqRun ord listingsComplete .empty past s) : KeysInOrder s := by
  induction h with
  | start => exact fun _ hk => absurd rfl hk
  | call before allowed run ih => exact ih.call allowed run

theorem SeqRun.continues (h : SeqRun ord listingsComplete .empty past s) :
    ∀ t ∈ past, Continues t s := by
  induction h with
  | start => exact fun t ht => absurd ht List.not_mem_nil
  | call before allowed run ih =>
    intro t ht
    have hstep := (ledgerStep allowed run).continues
    rcases List.mem_cons.mp ht with rfl | ht
    · exact hstep
    · exact (ih t ht).trans hstep

/-- The ledger over any run from empty tables: one row a pair, under its nets in order, decided
at most once and otherwise as first inserted, whatever call comes next. -/
theorem candidate_ledger (h : SeqRun ord listingsComplete .empty past s) :
    (∀ a b, s.candidates (a, b) ≠ none → a < b ∧ s.candidates (b, a) = none) ∧
      (∀ t ∈ past, Continues t s) ∧
      ∀ c o s', listingsComplete s c o → Run (exec ord) s c.prog s' o →
        LedgerStep ord s c o s' := by
  refine ⟨fun a b hab => ?_, h.continues, fun c o s' hG hrun => ledgerStep hG hrun⟩
  have hlt : a < b := h.keysInOrder (a, b) hab
  refine ⟨hlt, ?_⟩
  by_contra hba
  have : b < a := h.keysInOrder (b, a) hba
  omega

end

/-- Of the three pairs of three nets one is approved and one is rejected, and the approved one is to
be rejected under its nets the other way round. -/
theorem candidate_ledger_threeNets :
    ∃ past s t, SeqRun .any listingsComplete .empty past s ∧ t ∈ past ∧
      (t.candidates (100001, 100002)).bind (·.status) = some .pending ∧
      (t.candidates (100001, 100003)).bind (·.status) = some .pending ∧
      (s.candidates (100001, 100002)).bind (·.status) = some .approved ∧
      (s.candidates (100001, 100003)).bind (·.status) = some .rejected ∧
      s.candidates (100002, 100001) = none ∧ Continues t s ∧
      ∀ o s', Run (exec .any) s (Call.decide 100002 100001 .reject 4).prog s' o →
        LedgerStep .any s (.decide 100002 100001 .reject 4) o s' := by
  obtain ⟨t, ⟨past, ht⟩, hthree⟩ := reached_threeNets (G := listingsComplete)
    (fun s c out hc => by rcases c <;> first | trivial | exact ⟨out, rfl⟩)
  obtain ⟨x₁, x₂, x₃, hnets, h₁, h₂, h₃⟩ := hthree.nets
  obtain ⟨c, hc, hp⟩ := hthree.pairs (100001, 100002) (by simp)
  obtain ⟨c', hc', hp'⟩ := hthree.pairs (100001, 100003) (by simp)
  have happroves : Approves .any t 100001 100002 2 _ :=
    .moved ((hnets.mem_iff 100001 x₁).mp (by simp)) ((hnets.mem_iff 100002 x₂).mp (by simp)) h₁ h₂
      (by decide) (lists_any hnets)
  have happroved := Decided.approve hc hp happroves
  obtain ⟨res, hrun⟩ := happroved.run (by decide)
  set u := settle (move t (min 1 2) 2 ((scanned _ (max 1 2)).map Prod.fst)) (100001, 100002)
    .approved 2 with hu
  have hseq := SeqRun.call ht (c := .decide 100001 100002 .approve 2) trivial
    (run_decide_ok_iff.mpr ⟨res, hrun, rfl⟩)
  -- the other pair is as it was
  have hother : u.candidates (100001, 100003) = some c' := by
    rw [hu, candidates_settle, Table.upsert_of_ne _ _ (by decide)]
    exact hc'
  have hrejected : Decided .any u 100001 100003 3 .reject _ := .reject hother hp'
  obtain ⟨res', hrun'⟩ := hrejected.run (by decide)
  have hs := SeqRun.call hseq (c := .decide 100001 100003 .reject 3) trivial
    (run_decide_ok_iff.mpr ⟨res', hrun', rfl⟩)
  obtain ⟨hkeys, hcontinues, hstep⟩ := candidate_ledger hs
  have happrovedRow : (settle u (100001, 100003) .rejected 3).candidates (100001, 100002)
      = some (.decide (some c) .approved 2) := by
    rw [candidates_settle, Table.upsert_of_ne _ _ (by decide), hu, candidates_settle_self]
    exact congrArg (fun x => some (Candidate.decide x .approved 2)) hc
  refine ⟨_, _, t, hs, by simp, ?_, ?_, ?_, ?_, ?_, hcontinues t (by simp), fun o s' =>
    hstep _ o s' trivial⟩
  · rw [hc]
    exact hp
  · rw [hc']
    exact hp'
  · rw [happrovedRow]
    rfl
  · rw [candidates_settle_self]
    rfl
  · exact (hkeys 100001 100002 (by rw [happrovedRow]; exact nofun)).2

end NetBuild
