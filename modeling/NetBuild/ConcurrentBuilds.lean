import NetBuild.BuildPhases
import NetBuild.CountedOnce
import NetBuild.FreshIds

/-!
# Builds at the same time

Two builds that overlap choose ids and write rows from what they have read, and the slower one
writes over the faster one. Along any interleaving with reports that arrive, in which a build that
reads its last table has nothing stale in its hands and no other build is writing, every report is
counted once.
-/

namespace NetBuild

open Prog (Run Steps)

/-! ## What is promised -/

/-- Reports arriving, and builds. -/
def Call.OnReports : Call → Prop
  | .insertReport _ _ | .build _ _ => True
  | _ => False

section
variable {ι : Type}

/-- The reports to arrive are of new emitters, each of its own. -/
structure Arrivals (calls : ι → Call) (s : Store) : Prop where
  new : ∀ i key row, calls i = .insertReport key row → NewEmitter s key.1
  own : ∀ i j key row key' row', calls i = .insertReport key row →
    calls j = .insertReport key' row' → key.1 = key'.1 → i = j

/-- A build that is about to read the reports goes on as if it had read the nets and the history
only now, and no build is writing. -/
def readsCurrent (ord : ReadOrder) (calls : ι → Call) (σ : Sys Store ι (Client Outcome))
    (i : ι) : Prop :=
  ∀ cfg clock, calls i = .build cfg clock → (σ.client i).next? = some .reportFindAll →
    (∃ building history, Lists ord.building building σ.store.building ∧
      Lists ord.history history σ.store.history ∧
        σ.client i = (afterHistory cfg clock building history >>= fun res => .ret (.built res))) ∧
      ∀ j r, (σ.client j).next? = some r → ¬ r.WritesNets

end

/-! ## A build that only writes -/

/-- A build that has only writes left, and leaves the nets and the history in agreement if it
completes. -/
structure UnderWay (ord : ReadOrder) (s : Store) (q : Client Outcome) : Prop where
  writes : q.Always Req.WritesNets
  ends : ∀ s' out, Run (exec ord) s q s' (.ok out) → Ledgered s'

section
variable {ord : ReadOrder} {s s' : Store} {r : Req} {x : r.Resp} {key : ReportKey} {row : Fields}

theorem Req.WritesNets.answers (hr : r.WritesNets) : s.Answers ord r x := by
  rcases r <;> trivial

theorem Req.WritesNets.report_eq (hr : r.WritesNets) : (s.apply r).report = s.report := by
  rcases r <;> first | rfl | exact hr.elim

theorem Req.WritesNets.apply_withReport (hr : r.WritesNets) :
    (s.withReport key row).apply r = (s.apply r).withReport key row := by
  rcases r <;> first | rfl | exact hr.elim

/-- A program that only writes nets and history runs as it would without a report that has
arrived. -/
theorem run_withReport {α : Type} {q : Client α} {o : Except PyError α}
    (hq : q.Always Req.WritesNets) (h : Run (exec ord) (s.withReport key row) q s' o) :
    ∃ u, Run (exec ord) s q u o ∧ u.report = s.report ∧ s' = u.withReport key row := by
  induction q generalizing s with
  | ret a =>
    obtain ⟨rfl, rfl⟩ := Prog.run_ret_iff.mp h
    exact ⟨s, .ret _ _, rfl, rfl⟩
  | raise e =>
    obtain ⟨rfl, rfl⟩ := Prog.run_raise_iff.mp h
    exact ⟨s, .raise _ _, rfl, rfl⟩
  | call r k ih =>
    obtain ⟨x, -, h⟩ := run_request_iff.mp h
    rw [hq.1.apply_withReport] at h
    obtain ⟨u, hu, hrep, rfl⟩ := ih x (hq.2 x) h
    exact ⟨u, run_request_iff.mpr ⟨x, hq.1.answers, hu⟩, hrep.trans hq.1.report_eq, rfl⟩

theorem UnderWay.insert {q : Client Outcome} (h : UnderWay ord s q) (hnew : NewEmitter s key.1) :
    UnderWay ord (s.withReport key row) q where
  writes := h.writes
  ends s' out hrun := by
    obtain ⟨u, hu, hrep, rfl⟩ := run_withReport h.writes hrun
    refine (h.ends u out hu).insert ?_
    unfold NewEmitter
    rw [hrep]
    exact hnew

/-- Its next call is a write. -/
theorem UnderWay.next {k : r.Resp → Client Outcome} (h : UnderWay ord s (.call r k))
    (hex : exec ord s r x s') : r.WritesNets ∧ UnderWay ord s' (k x) :=
  ⟨h.writes.1, h.writes.2 x, fun s'' out hrun => h.ends s'' out (.call hex hrun)⟩

theorem always_writesNets {cfg : MatchConfig} {clock : BuildClock} {building : List (ℤ × Net)}
    {history : List (HistKey × Hist)} {reports : List Report} (hn : (reports.map Prod.fst).Nodup) :
    (finishPipeline cfg clock building (loadHistory history) (fetchNewReports reports) >>=
      fun res => .ret (Outcome.built res) : Client Outcome).Always Req.WritesNets := by
  refine Prog.Always.bind ?_ fun _ => trivial
  have hfin : Finishes cfg clock building history reports _ := finishes hn
  generalize finishPipeline cfg clock building (loadHistory history) (fetchNewReports reports) = q
    at hfin
  rcases hfin with _ | e | @⟨folded, st, hst, hinv⟩
  · trivial
  · trivial
  · exact always_writeBack (fun _ _ => trivial) (fun _ _ => trivial) fun _ _ => trivial

/-- A build that has read the tables as they are is under way. -/
theorem underWay_of_lists {cfg : MatchConfig} {clock : BuildClock} {building : List (ℤ × Net)}
    {history : List (HistKey × Hist)} {reports : List Report} (hs : Ledgered s)
    (hb : Lists ord.building building s.building) (hh : Lists ord.history history s.history)
    (hr : Lists ord.report reports s.report) :
    UnderWay ord s
      (finishPipeline cfg clock building (loadHistory history) (fetchNewReports reports) >>=
        fun res => .ret (.built res)) where
  writes := always_writesNets hr.nodup
  ends s' out hrun := by
    obtain ⟨res, hrun, -⟩ := run_map_ok_iff.mp hrun
    obtain ⟨folded, ms, hb⟩ := run_finishPipeline hb hh hr hrun
    exact hb.ledgered hs

end

/-! ## Interleavings -/

section
variable {ι : Type}

/-- A client whose report arrives is not one that builds. -/
theorem ne_of_build {calls : ι → Call} {i j : ι} {cfg : MatchConfig} {clock : BuildClock}
    {key : ReportKey} {row : Fields} (hi : calls i = .build cfg clock)
    (hj : calls j = .insertReport key row) : j ≠ i := by
  intro he
  rw [he, hi] at hj
  exact nomatch hj

/-- No build has raised. -/
def NoneRaised (calls : ι → Call) (σ : Sys Store ι (Client Outcome)) : Prop :=
  ∀ i cfg clock e, calls i = .build cfg clock → σ.client i ≠ .raise e

/-- What holds along the interleaving, as long as no build has raised: there is at most one build
that writes. -/
structure OneWriter (ord : ReadOrder) (calls : ι → Call) (w : Option ι)
    (σ : Sys Store ι (Client Outcome)) : Prop where
  arrivals : ∀ i key row, calls i = .insertReport key row →
    σ.client i = .ret .inserted ∨ σ.client i = (calls i).prog ∧ NewEmitter σ.store key.1
  builds : ∀ i cfg clock, calls i = .build cfg clock → w ≠ some i →
    BuildStage Outcome.built cfg clock (fun _ => True) (fun q => q.next? = none) (σ.client i)
  idle : w = none → Ledgered σ.store
  writer : ∀ i, w = some i →
    (∃ cfg clock, calls i = .build cfg clock) ∧ UnderWay ord σ.store (σ.client i)

variable [DecidableEq ι] {ord : ReadOrder} {calls : ι → Call} {w : Option ι}
  {σ : Sys Store ι (Client Outcome)} {i : ι} {s' : Store} {r : Req} {k : r.Resp → Client Outcome}
  {x : r.Resp}

omit [DecidableEq ι] in
/-- While no build has raised and none is about to write, the nets and the history agree. -/
theorem OneWriter.ledgered (h : OneWriter ord calls w σ) (hraise : NoneRaised calls σ)
    (hquiet : ∀ j r, (σ.client j).next? = some r → ¬ r.WritesNets) : Ledgered σ.store := by
  rcases w with _ | j
  · exact h.idle rfl
  · obtain ⟨⟨cfg, clock, hcalls⟩, hj⟩ := h.writer j rfl
    rcases hq : σ.client j with out | e | ⟨r, k⟩
    · rw [hq] at hj
      exact hj.ends _ out (.ret _ _)
    · exact absurd hq (hraise j cfg clock e hcalls)
    · rw [hq] at hj
      exact absurd hj.writes.1 (hquiet j r (by rw [hq]; rfl))

/-- A report arrives. -/
theorem OneWriter.insert (h : OneWriter ord calls w σ) {s : Store} (ha : Arrivals calls s)
    {key : ReportKey} {row : Fields} (hi : calls i = .insertReport key row)
    (hc : σ.client i = .call r k) (hex : exec ord σ.store r x s') :
    OneWriter ord calls w ⟨s', Function.update σ.client i (k x)⟩ := by
  rcases h.arrivals i key row hi with hret | ⟨hprog, hnew⟩
  · rw [hc] at hret
    exact nomatch hret
  have hcall : Prog.call r k = (Call.insertReport key row).prog := by rw [← hc, hprog, hi]
  obtain ⟨⟩ := hcall
  obtain ⟨-, rfl⟩ := hex
  have hother : ∀ j, j ≠ i → Function.update σ.client i (.ret .inserted) j = σ.client j :=
    fun j hj => Function.update_of_ne hj ..
  have hbuild : ∀ j cfg clock, calls j = .build cfg clock → j ≠ i := fun j cfg clock hj =>
    (ne_of_build hj hi).symm
  refine ⟨fun j key' row' hj => ?_, fun j cfg clock hj hw => ?_, fun hw => ?_, fun j hj => ?_⟩
  · show Function.update σ.client i (.ret .inserted) j = _ ∨
      Function.update σ.client i (.ret .inserted) j = _ ∧ NewEmitter (σ.store.withReport key row) _
    by_cases hji : j = i
    · subst hji
      exact .inl (Function.update_self ..)
    · rw [hother j hji]
      refine (h.arrivals j key' row' hj).imp_right fun hj' => ⟨hj'.1, fun k hk => ?_⟩
      change σ.store.report.upsert key row k ≠ none at hk
      rw [Table.upsert_apply] at hk
      split at hk
      -- two clients bring reports of different emitters
      · next he =>
        rw [he]
        exact fun hkey => hji (ha.own j i key' row' key row hj hi hkey.symm)
      · exact hj'.2 k hk
  · show BuildStage _ _ _ _ _ (Function.update σ.client i (.ret .inserted) j)
    rw [hother j (hbuild j cfg clock hj)]
    exact h.builds j cfg clock hj hw
  · exact (h.idle hw).insert hnew
  · obtain ⟨⟨cfg, clock, hcalls⟩, hunder⟩ := h.writer j hj
    refine ⟨⟨cfg, clock, hcalls⟩, ?_⟩
    show UnderWay ord (σ.store.withReport key row) (Function.update σ.client i (.ret .inserted) j)
    rw [hother j (hbuild j cfg clock hcalls)]
    exact hunder.insert hnew

/-- The build that writes makes its next call. -/
theorem OneWriter.write (h : OneWriter ord calls (some i) σ) (hc : σ.client i = .call r k)
    (hex : exec ord σ.store r x s') :
    OneWriter ord calls (some i) ⟨s', Function.update σ.client i (k x)⟩ := by
  obtain ⟨⟨cfg, clock, hi⟩, hunder⟩ := h.writer i rfl
  rw [hc] at hunder
  obtain ⟨hr, hnext⟩ := hunder.next hex
  refine ⟨fun j key row hj => ?_, fun j cfg' clock' hj hw => ?_, fun hw => (nomatch hw),
    fun j hj => ?_⟩
  · have hji : j ≠ i := ne_of_build hi hj
    show Function.update σ.client i (k x) j = _ ∨ Function.update σ.client i (k x) j = _ ∧ _
    rw [Function.update_of_ne hji, hex.2]
    refine (h.arrivals j key row hj).imp_right fun hj' => ⟨hj'.1, ?_⟩
    unfold NewEmitter
    rw [hr.report_eq]
    exact hj'.2
  · have hji : j ≠ i := fun he => hw (congrArg some he.symm)
    show BuildStage _ _ _ _ _ (Function.update σ.client i (k x) j)
    rw [Function.update_of_ne hji]
    exact h.builds j cfg' clock' hj hw
  · obtain rfl := Option.some.inj hj
    refine ⟨⟨cfg, clock, hi⟩, ?_⟩
    show UnderWay ord s' (Function.update σ.client i (k x) i)
    rw [Function.update_self]
    exact hnext

/-- A build goes on to another stage, the store being as it was. -/
theorem OneWriter.stage (h : OneWriter ord calls w σ) {cfg : MatchConfig} {clock : BuildClock}
    (hi : calls i = .build cfg clock) (hw : w ≠ some i) {q : Client Outcome}
    (hq : BuildStage Outcome.built cfg clock (fun _ => True) (fun q => q.next? = none) q) :
    OneWriter ord calls w ⟨σ.store, Function.update σ.client i q⟩ := by
  refine ⟨fun j key row hj => ?_, fun j cfg' clock' hj hwj => ?_, h.idle, fun j hj => ?_⟩
  · have hji : j ≠ i := ne_of_build hi hj
    show Function.update σ.client i q j = _ ∨ Function.update σ.client i q j = _ ∧ _
    rw [Function.update_of_ne hji]
    exact h.arrivals j key row hj
  · show BuildStage _ _ _ _ _ (Function.update σ.client i q j)
    by_cases hji : j = i
    · subst hji
      rw [hi] at hj
      obtain ⟨rfl, rfl⟩ := Call.build.inj hj
      rw [Function.update_self]
      exact hq
    · rw [Function.update_of_ne hji]
      exact h.builds j cfg' clock' hj hwj
  · have hji : j ≠ i := fun he => hw (he ▸ hj)
    show _ ∧ UnderWay ord σ.store (Function.update σ.client i q j)
    rw [Function.update_of_ne hji]
    exact h.writer j hj

/-- A build has read its last table and is the one that writes now. -/
theorem OneWriter.enter (h : OneWriter ord calls w σ) {cfg : MatchConfig} {clock : BuildClock}
    (hi : calls i = .build cfg clock) {q : Client Outcome} (hq : UnderWay ord σ.store q)
    (hquiet : ∀ j r, (σ.client j).next? = some r → ¬ r.WritesNets) :
    OneWriter ord calls (some i) ⟨σ.store, Function.update σ.client i q⟩ := by
  refine ⟨fun j key row hj => ?_, fun j cfg' clock' hj hwj => ?_, fun hw => (nomatch hw),
    fun j hj => ?_⟩
  · have hji : j ≠ i := ne_of_build hi hj
    show Function.update σ.client i q j = _ ∨ Function.update σ.client i q j = _ ∧ _
    rw [Function.update_of_ne hji]
    exact h.arrivals j key row hj
  · have hji : j ≠ i := fun he => hwj (congrArg some he.symm)
    show BuildStage _ _ _ _ _ (Function.update σ.client i q j)
    rw [Function.update_of_ne hji]
    by_cases hw : w = some j
    · -- the build that wrote before has ended
      refine .writing ?_
      obtain ⟨-, hj'⟩ := h.writer j hw
      rcases hqj : σ.client j with out | e | ⟨r, k⟩
      · rfl
      · rfl
      · rw [hqj] at hj'
        exact absurd hj'.writes.1 (hquiet j r (by rw [hqj]; rfl))
    · exact h.builds j cfg' clock' hj hw
  · obtain rfl := Option.some.inj hj
    refine ⟨⟨cfg, clock, hi⟩, ?_⟩
    show UnderWay ord σ.store (Function.update σ.client i q i)
    rw [Function.update_self]
    exact hq

/-- The next call of a build that does not write. -/
theorem OneWriter.read (h : OneWriter ord calls w σ) {cfg : MatchConfig} {clock : BuildClock}
    (hi : calls i = .build cfg clock) (hw : w ≠ some i) (hraise : NoneRaised calls σ)
    (hG : readsCurrent ord calls σ i) (hc : σ.client i = .call r k)
    (hex : exec ord σ.store r x s') :
    ∃ w', OneWriter ord calls w' ⟨s', Function.update σ.client i (k x)⟩ := by
  have hstage := h.builds i cfg clock hi hw
  rw [hc] at hstage
  rcases hstage.inv hex fun _ _ => trivial with ⟨rfl, -, -, hk⟩ |
    ⟨rfl, rfl, building, history, reports, -, hr, hlast⟩ | hnone
  · exact ⟨w, h.stage hi hw hk⟩
  · obtain ⟨⟨b, hist, hb, hh, hprog⟩, hquiet⟩ := hG cfg clock hi (by rw [hc]; rfl)
    obtain ⟨⟩ := hc.symm.trans hprog
    exact ⟨some i, h.enter hi (underWay_of_lists (h.ledgered hraise hquiet) hb hh hex.1) hquiet⟩
  · exact nomatch hnone

/-- One step, as long as no build has raised. -/
theorem OneWriter.next (h : OneWriter ord calls w σ) {s : Store} (ha : Arrivals calls s)
    (hcalls : ∀ i, (calls i).OnReports) (hraise : NoneRaised calls σ)
    (hG : readsCurrent ord calls σ i) (hc : σ.client i = .call r k)
    (hex : exec ord σ.store r x s') :
    ∃ w', OneWriter ord calls w' ⟨s', Function.update σ.client i (k x)⟩ := by
  rcases hi : calls i with ⟨key, row⟩ | ⟨cfg, clock⟩ | ⟨M, cfg, clock⟩ | ⟨a, b, d, now⟩
  · exact ⟨w, h.insert ha hi hc hex⟩
  · by_cases hw : w = some i
    · subst hw
      exact ⟨some i, h.write hc hex⟩
    · exact h.read hi hw hraise hG hc hex
  · have := hcalls i
    rw [hi] at this
    exact this.elim
  · have := hcalls i
    rw [hi] at this
    exact this.elim

/-- Builds that overlap with each other and with reports that arrive: where no build goes on with
stale tables, or while another one writes, every report is counted once when all have ended. -/
theorem reports_counted_once {s : Store} (hs : Reached ord newEmitters .empty s)
    (hcalls : ∀ i, (calls i).OnReports) (ha : Arrivals calls s)
    (h : Sys.Reaches (exec ord) (readsCurrent ord calls) ⟨s, fun i => (calls i).prog⟩ σ)
    (hend : ∀ i cfg clock, calls i = .build cfg clock → (σ.client i).Done) :
    CountedOnce σ.store := by
  have hinv : ¬ NoneRaised calls σ ∨ ∃ w, OneWriter ord calls w σ := by
    refine h.invariant (I := fun σ => ¬ NoneRaised calls σ ∨ ∃ w, OneWriter ord calls w σ) ?_ ?_
    · intro τ i τ' hI hG hstep
      rcases hstep with @⟨r, k, x, s', hc, hex⟩
      by_cases hraise : NoneRaised calls τ
      · obtain ⟨w, hw⟩ := hI.resolve_left fun hn => hn hraise
        exact .inr (hw.next ha hcalls hraise hG hc hex)
      · -- a build that has raised stays so
        refine .inl fun hn => hraise fun j cfg clock e hj he => hn j cfg clock e hj ?_
        have hji : j ≠ i := by
          intro hji
          rw [hji, hc] at he
          exact nomatch he
        exact (Function.update_of_ne hji ..).trans he
    · refine .inr ⟨none, fun i key row hi => .inr ⟨rfl, ha.new i key row hi⟩,
        fun i cfg clock hi _ => ?_, fun _ => hs.ledgered, fun _ hi => nomatch hi⟩
      show BuildStage _ _ _ _ _ (calls i).prog
      rw [hi]
      exact .start
  have hnone : NoneRaised calls σ := by
    intro i cfg clock e hi he
    obtain ⟨out, hout⟩ := hend i cfg clock hi
    rw [he] at hout
    exact nomatch hout
  obtain ⟨w, hw⟩ := hinv.resolve_left fun hn => hn hnone
  rcases w with _ | i
  · exact (hw.idle rfl).counted
  · obtain ⟨⟨cfg, clock, hi⟩, hunder⟩ := hw.writer i rfl
    obtain ⟨out, hout⟩ := hend i cfg clock hi
    rw [hout] at hunder
    exact (hunder.ends _ out (.ret _ _)).counted

end

/-! ## Two builds that overlap -/

/-- The first of the three reports. -/
def firstReport : Report := threeReports.get ⟨0, by decide⟩

/-- The second one. -/
def secondReport : Report := threeReports.get ⟨1, by decide⟩

/-- What a build over the first report writes, and one that has read no nets, but the history and
the reports after that one and after the second report has arrived. -/
def overlapPlan : Except PyError (BuildPlan × BuildPlan) := do
  let p ← buildPlan {} (.still 1) [] [] [firstReport]
  let p' ← buildPlan {} (.still 2) [] p.added [firstReport, secondReport]
  pure (p, p')

/-- Both enter their report under one id. -/
structure Overlaps (p p' : BuildPlan) : Prop where
  first : buildPlan {} (.still 1) [] [] [firstReport] = .ok p
  second : buildPlan {} (.still 2) [] p.added [firstReport, secondReport] = .ok p'
  row : ∃ x, p'.rows = [(100001, x)] ∧ x.fields.nti = some 1
  entry : ∃ h, p.added = [((100001, 1, 1), h)] ∧
    histSig ((100001, 1, 1), h) = reportSig firstReport
  entry' : ∃ h, p'.added = [((100001, 2, 2), h)] ∧
    histSig ((100001, 2, 2), h) = reportSig secondReport

set_option synthInstance.maxSize 1000 in
theorem exists_overlaps : ∃ p p', Overlaps p p' := by
  have hplan : overlapPlan.map (fun x => (x.2.rows.map (fun r => (r.1, r.2.fields.nti)),
      x.1.added.map (fun r => (r.1, histSig r)), x.2.added.map (fun r => (r.1, histSig r))))
      = .ok ([(100001, some 1)], [((100001, 1, 1), reportSig firstReport)],
        [((100001, 2, 2), reportSig secondReport)]) := by
    decide +kernel
  obtain ⟨⟨p, p'⟩, hx, hv⟩ := Except.map_eq_ok_iff.mp hplan
  obtain ⟨p₁, hp₁, hx₁⟩ := Except.bind_eq_ok_iff.mp hx
  obtain ⟨p₂, hp₂, hx₂⟩ := Except.bind_eq_ok_iff.mp hx₁
  obtain ⟨rfl, rfl⟩ := Prod.mk.inj (Except.ok.inj hx₂)
  obtain ⟨hrows, hv₁⟩ := Prod.mk.inj hv
  obtain ⟨hadded, hadded'⟩ := Prod.mk.inj hv₁
  have hsingle : ∀ {added : List (HistKey × Hist)} {k : HistKey} {sig : List SigVal},
      added.map (fun r => (r.1, histSig r)) = [(k, sig)] →
        ∃ h, added = [(k, h)] ∧ histSig (k, h) = sig := by
    intro added k sig h
    obtain ⟨⟨k', row⟩, hr, he⟩ := List.map_eq_singleton_iff.mp h
    obtain ⟨rfl, hsig⟩ := Prod.mk.inj he
    exact ⟨row, hr, hsig⟩
  obtain ⟨⟨n, x⟩, hr, he⟩ := List.map_eq_singleton_iff.mp hrows
  obtain ⟨rfl, hnti⟩ := Prod.mk.inj he
  exact ⟨p₁, p₂, hp₁, hp₂, ⟨x, hr, hnti⟩, hsingle hadded, hsingle hadded'⟩

/-- Two builds, and the arrival of a report. -/
inductive OverlapClient
  | slow | fast | arrival
  deriving DecidableEq

def overlapCalls : OverlapClient → Call
  | .slow => .build {} (.still 2)
  | .fast => .build {} (.still 1)
  | .arrival => .insertReport secondReport.1 secondReport.2

theorem reached_firstReport {ord : ReadOrder} :
    Reached ord newEmitters .empty (.ofReports [firstReport]) :=
  ⟨_, .call .start (c := .insertReport firstReport.1 firstReport.2)
    ⟨⟨_, rfl⟩, fun _ hk => absurd rfl hk⟩ (run_insertReport_iff.mpr ⟨rfl, rfl⟩)⟩

theorem newEmitter_secondReport : NewEmitter (.ofReports [firstReport]) secondReport.1.1 := by
  intro k hk
  change (Table.empty : Table ReportKey Fields).upsert firstReport.1 firstReport.2 k ≠ none at hk
  rw [Table.upsert_apply] at hk
  split at hk
  · next he =>
    rw [he]
    decide
  · exact absurd rfl hk

theorem arrivals_overlapCalls : Arrivals overlapCalls (.ofReports [firstReport]) where
  new i key row hi := by
    rcases i
    case arrival =>
      obtain ⟨rfl, rfl⟩ := Call.insertReport.inj hi
      exact newEmitter_secondReport
    all_goals exact nomatch hi
  own i j key row key' row' hi hj _ := by
    rcases i
    case arrival =>
      rcases j
      case arrival => rfl
      all_goals exact nomatch hj
    all_goals exact nomatch hi

section
variable {p p' : BuildPlan}

/-- The store when the fast build has ended and the second report has arrived. -/
def overlapStore (p : BuildPlan) : Store :=
  ((Store.ofReports [firstReport]).afterBuild [] p).withReport secondReport.1 secondReport.2

theorem lists_overlapReports (p : BuildPlan) :
    Lists ReadOrder.any.report [firstReport, secondReport] (overlapStore p).report :=
  lists_ofReports (by decide)

/-- The slow build writes its net over the one of the first report. -/
theorem Overlaps.not_countedOnce (h : Overlaps p p') :
    ¬ CountedOnce ((overlapStore p).afterBuild [] p') := by
  intro hcounted
  obtain ⟨x, hrows, hnti⟩ := h.row
  obtain ⟨h₁, hadded₁, hsig₁⟩ := h.entry
  obtain ⟨h₂, hadded₂, hsig₂⟩ := h.entry'
  have hreports := lists_overlapReports p
  have hhist : ((overlapStore p).afterBuild [] p').history
      = ((Table.empty.upsertAll p.added).upsertAll p'.added) := rfl
  have hnets : ((overlapStore p).afterBuild [] p').nti 100001 = 1 := by
    have hrow : ((overlapStore p).afterBuild [] p').building 100001 = some x :=
      Table.upsertAll_of_mem _ (by rw [hrows]; exact List.nodup_singleton _)
        (by rw [hrows]; exact List.mem_cons_self)
    rw [Store.nti_of_eq_some hrow, hnti]
    rfl
  have hrec₁ : Records ((overlapStore p).afterBuild [] p') 100001 firstReport := by
    refine ⟨(hreports.mem_iff _ _).mp List.mem_cons_self, (100001, 1, 1), h₁, ?_, rfl, hsig₁⟩
    rw [hhist, hadded₁, hadded₂]
    rfl
  have hrec₂ : Records ((overlapStore p).afterBuild [] p') 100001 secondReport := by
    refine ⟨(hreports.mem_iff _ _).mp (List.mem_cons_of_mem _ List.mem_cons_self),
      (100001, 2, 2), h₂, ?_, rfl, hsig₂⟩
    rw [hhist, hadded₁, hadded₂]
    rfl
  obtain ⟨l, hl, hmem, hsum⟩ := hcounted.counts 100001
  -- both reports are recorded under the net, and no others are in the table
  have hperm : l.Perm [firstReport, secondReport] := by
    refine (List.perm_ext_iff_of_nodup hl (List.Nodup.of_map _ hreports.nodup)).mpr fun y => ?_
    rw [hmem]
    refine ⟨fun hy => (hreports.mem_iff y.1 y.2).mpr hy.1, fun hy => ?_⟩
    rcases List.mem_cons.mp hy with rfl | hy
    · exact hrec₁
    · rw [List.mem_singleton.mp hy]
      exact hrec₂
  rw [hnets, (hperm.map _).sum_eq] at hsum
  exact absurd hsum (by decide)

end

/-- The slow build has read that there are no nets when the fast one makes the first, and both
give their net one id. -/
theorem report_lost_by_build :
    ∃ σ, Reached .any newEmitters .empty (.ofReports [firstReport]) ∧
      (∀ i, (overlapCalls i).OnReports) ∧ Arrivals overlapCalls (.ofReports [firstReport]) ∧
      Sys.Reaches (exec .any) (fun _ _ => True)
        ⟨.ofReports [firstReport], fun i => (overlapCalls i).prog⟩ σ ∧
      (∀ i, (σ.client i).Done) ∧ ¬ CountedOnce σ.store := by
  obtain ⟨p, p', h⟩ := exists_overlaps
  obtain ⟨h₁, hadded, -⟩ := h.entry
  have hreport : Lists ReadOrder.any.report [firstReport]
      (Store.ofReports [firstReport]).report := lists_ofReports (by decide)
  have hhist : Lists ReadOrder.any.history p.added (overlapStore p).history :=
    lists_any (Table.enumerates_upsertAll (by rw [hadded]; exact List.nodup_singleton _))
  have hnets : Lists ReadOrder.any.building [] (Store.ofReports [firstReport]).building :=
    lists_empty
  have hslow : Steps (exec .any) (.ofReports [firstReport]) (overlapCalls .slow).prog
      (.ofReports [firstReport])
      (afterNets {} (.still 2) [] >>= fun res => .ret (Outcome.built res)) :=
    .call ⟨hnets, rfl⟩ (.refl _ _)
  have hfast : Run (exec .any) (.ofReports [firstReport]) (overlapCalls .fast).prog _ _ :=
    run_build_ok_iff.mpr ⟨_, run_of_buildPlan hnets lists_empty hreport (by decide) h.first, rfl⟩
  have harrival : Run (exec .any) ((Store.ofReports [firstReport]).afterBuild [] p)
      (overlapCalls .arrival).prog (overlapStore p) _ := run_insertReport_iff.mpr ⟨rfl, rfl⟩
  -- the slow build goes on
  have hreads : Steps (exec .any) (overlapStore p)
      (afterNets {} (.still 2) [] >>= fun res => .ret (Outcome.built res)) (overlapStore p)
      (finishPipeline {} (.still 2) [] (loadHistory p.added)
        (fetchNewReports [firstReport, secondReport]) >>= fun res => .ret (Outcome.built res)) :=
    .call ⟨hhist, rfl⟩ (.call ⟨lists_overlapReports p, rfl⟩ (.refl _ _))
  have hwrites : Steps (exec .any) (overlapStore p) _ _ _ :=
    (run_finishPipeline_of_buildPlan (by decide) h.second).steps.bind
      fun res => .ret (Outcome.built res)
  have hσ : Sys.Reaches (exec .any) (fun _ _ => True)
      ⟨.ofReports [firstReport], fun i => (overlapCalls i).prog⟩ _ :=
    ((((Sys.Reaches.steps .refl .slow hslow).steps .fast hfast.steps).steps .arrival
      harrival.steps).steps .slow hreads).steps .slow hwrites
  refine ⟨_, reached_firstReport, fun i => by rcases i <;> trivial, arrivals_overlapCalls, hσ,
    fun i => ?_, h.not_countedOnce⟩
  rcases i
  · exact ⟨_, rfl⟩
  · exact ⟨_, rfl⟩
  · exact ⟨_, rfl⟩

/-! ## A build that no other one disturbs -/

/-- A build that has read the tables as they are, as far as it has read. -/
inductive Undelayed (ord : ReadOrder) (cfg : MatchConfig) (clock : BuildClock) (s : Store) :
    Client Outcome → Prop
  | start : Undelayed ord cfg clock s (Call.build cfg clock).prog
  | nets {building : List (ℤ × Net)} (read : Lists ord.building building s.building) :
      Undelayed ord cfg clock s (afterNets cfg clock building >>= fun res => .ret (.built res))
  | history {building : List (ℤ × Net)} {history : List (HistKey × Hist)}
      (read : Lists ord.building building s.building)
      (readHistory : Lists ord.history history s.history) :
      Undelayed ord cfg clock s
        (afterHistory cfg clock building history >>= fun res => .ret (.built res))
  | writing {q : Client Outcome} (writes : q.Always Req.WritesNets) :
      Undelayed ord cfg clock s q

section
variable {ord : ReadOrder} {cfg : MatchConfig} {clock : BuildClock} {s s' : Store}

theorem Undelayed.next {r : Req} {k : r.Resp → Client Outcome} {x : r.Resp}
    (h : Undelayed ord cfg clock s (.call r k)) (hex : exec ord s r x s') :
    Undelayed ord cfg clock s' (k x) := by
  obtain ⟨hans, rfl⟩ := hex
  generalize hq : Prog.call r k = q at h
  rcases h with _ | read | ⟨read, readHistory⟩ | writes
  · obtain ⟨⟩ := hq
    exact .nets hans
  · obtain ⟨⟩ := hq
    exact .history read hans
  · obtain ⟨⟩ := hq
    exact .writing (always_writesNets hans.nodup)
  · subst hq
    exact .writing (writes.2 x)

variable {ι : Type} [DecidableEq ι] {calls : ι → Call} {c : ι → Client Outcome} {i : ι}

theorem Undelayed.readsCurrent {q : Client Outcome} (h : Undelayed ord cfg clock s q)
    (hi : calls i = .build cfg clock)
    (hquiet : ∀ j, j ≠ i → ∀ r, (c j).next? = some r → ¬ r.WritesNets) :
    readsCurrent ord calls ⟨s, Function.update c i q⟩ i := by
  intro cfg' clock' hi' hnext
  rw [hi] at hi'
  obtain ⟨rfl, rfl⟩ := Call.build.inj hi'
  change (Function.update c i q i).next? = _ at hnext
  rw [Function.update_self] at hnext
  rcases h with _ | read | @⟨building, history, read, readHistory⟩ | writes
  · exact nomatch hnext
  · exact nomatch hnext
  · refine ⟨⟨building, history, read, readHistory, Function.update_self ..⟩, fun j r hr => ?_⟩
    by_cases hji : j = i
    · subst hji
      change (Function.update c j _ j).next? = some r at hr
      rw [Function.update_self] at hr
      obtain rfl := Option.some.inj hr
      exact id
    · change (Function.update c i _ j).next? = some r at hr
      rw [Function.update_of_ne hji] at hr
      exact hquiet j hji r hr
  · exact (writes.next hnext).elim

/-- It goes on while no other client is about to write nets. -/
theorem Undelayed.reaches {p q : Client Outcome} (h : Undelayed ord cfg clock s p)
    (hi : calls i = .build cfg clock) (hsteps : Steps (exec ord) s p s' q)
    (hquiet : ∀ j, j ≠ i → ∀ r, (c j).next? = some r → ¬ r.WritesNets) (hc : c i = p) :
    Sys.Reaches (exec ord) (NetBuild.readsCurrent ord calls) ⟨s, c⟩ ⟨s', Function.update c i q⟩ :=
  Sys.reaches_of_steps (J := Undelayed ord cfg clock) hsteps h
    (fun _ _ _ _ _ ht hex => ht.next hex) (fun _ _ ht => ht.readsCurrent hi hquiet) hc

end

/-- One build, and the arrival of a report. -/
def arrivalCalls : Bool → Call
  | true => .build {} (.still 1)
  | false => .insertReport secondReport.1 secondReport.2

/-- The second report arrives after the build has read the nets, and is counted. -/
theorem reports_counted_once_twoReports :
    ∃ σ, Sys.Reaches (exec .any) (readsCurrent .any arrivalCalls)
        ⟨.ofReports [firstReport], fun i => (arrivalCalls i).prog⟩ σ ∧
      (∀ i, (σ.client i).Done) ∧ σ.store.building 100002 ≠ none ∧ CountedOnce σ.store := by
  obtain ⟨p, pairs, added, p', h⟩ := exists_reuses
  obtain ⟨x₁, x₂, hrows, -⟩ := h.nets
  have hplan : buildPlan {} (.still 1) [] [] [firstReport, secondReport] = .ok p := h.first
  have hnets : Lists ReadOrder.any.building [] (Store.ofReports [firstReport]).building :=
    lists_empty
  have hreports : Lists ReadOrder.any.report [firstReport, secondReport]
      (Store.ofReports [firstReport, secondReport]).report := lists_ofReports (by decide)
  have hfirst : Steps (exec .any) (.ofReports [firstReport]) (arrivalCalls true).prog
      (.ofReports [firstReport])
      (afterNets {} (.still 1) [] >>= fun res => .ret (Outcome.built res)) :=
    .call ⟨hnets, rfl⟩ (.refl _ _)
  have harrival : Run (exec .any) (.ofReports [firstReport]) (arrivalCalls false).prog
      (.ofReports [firstReport, secondReport]) _ := run_insertReport_iff.mpr ⟨rfl, rfl⟩
  have hreads : Steps (exec .any) (.ofReports [firstReport, secondReport])
      (afterNets {} (.still 1) [] >>= fun res => .ret (Outcome.built res))
      (.ofReports [firstReport, secondReport])
      (finishPipeline {} (.still 1) [] (loadHistory [])
        (fetchNewReports [firstReport, secondReport]) >>= fun res => .ret (Outcome.built res)) :=
    .call ⟨lists_empty, rfl⟩ (.call ⟨hreports, rfl⟩ (.refl _ _))
  have hwrites : Steps (exec .any) (.ofReports [firstReport, secondReport]) _ _ _ :=
    (run_finishPipeline_of_buildPlan (by decide) hplan).steps.bind
      fun res => .ret (Outcome.built res)
  have hquiet : ∀ (c : Bool → Client Outcome), (∀ r, (c false).next? = some r →
      ¬ r.WritesNets) → ∀ j, j ≠ true → ∀ r, (c j).next? = some r → ¬ r.WritesNets := by
    intro c hc j hj
    rcases j with _ | _
    · exact hc
    · exact absurd rfl hj
  have hσ₁ : Sys.Reaches (exec .any) (readsCurrent .any arrivalCalls)
      ⟨.ofReports [firstReport], fun i => (arrivalCalls i).prog⟩ _ :=
    Undelayed.start.reaches (i := true) rfl hfirst
      (hquiet _ fun r hr => by obtain rfl := Option.some.inj hr; exact id) rfl
  have hσ₂ : Sys.Reaches (exec .any) (readsCurrent .any arrivalCalls) _ _ :=
    hσ₁.trans (Sys.reaches_of_steps (i := false) (J := fun _ _ => True) harrival.steps trivial
      (fun _ _ _ _ _ _ _ => trivial) (fun _ _ _ _ _ hi => nomatch hi) rfl)
  have hread : Undelayed .any {} (.still 1) (.ofReports [firstReport, secondReport])
      (afterNets {} (.still 1) [] >>= fun res => .ret (.built res)) := .nets lists_empty
  have hσ : Sys.Reaches (exec .any) (readsCurrent .any arrivalCalls) _ _ :=
    hσ₂.trans (hread.reaches (i := true) rfl (hreads.trans hwrites)
      (hquiet _ fun r hr => nomatch hr) rfl)
  refine ⟨_, hσ, fun i => ?_, ?_, ?_⟩
  · rcases i with _ | _
    · exact ⟨_, rfl⟩
    · exact ⟨_, rfl⟩
  · show (((Table.empty : Table ℤ Net).deleteAll _).upsertAll p.rows) 100002 ≠ none
    rw [Table.upsertAll_ne_none_iff, hrows]
    exact .inl (by simp)
  · refine reports_counted_once reached_firstReport (fun i => by rcases i <;> trivial) ?_ hσ
      fun i _ _ _ => ?_
    · refine ⟨fun i key row hi => ?_, fun i j key row key' row' hi hj _ => ?_⟩
      · rcases i with _ | _
        · obtain ⟨rfl, rfl⟩ := Call.insertReport.inj hi
          exact newEmitter_secondReport
        · exact nomatch hi
      · rcases i with _ | _
        · rcases j with _ | _
          · rfl
          · exact nomatch hj
        · exact nomatch hi
    · rcases i with _ | _
      · exact ⟨_, rfl⟩
      · exact ⟨_, rfl⟩

end NetBuild
