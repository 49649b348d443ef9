import NetBuild.ReportLoop

/-!
# Reports of one emitter

A net keeps one emitter id, the newest report's. A report that is folded into a net of its
station by its band, though the net carries another id, leaves one of the two ids unrecorded, and
later reports of that emitter may go elsewhere. Where no report meets such a net, the reports of
an emitter stay in one net.
-/

namespace NetBuild

/-- The two rows are of one station and carry the same emitter id. -/
def SameEmitter (row row' : Row) : Prop :=
  (row (.txt .rdfs)).val = (row' (.txt .rdfs)).val ∧ (row .ffId).val = (row' .ffId).val ∧
    (row .ffId).isna = false

/-- Reports of one emitter are assigned to one net. -/
def OneNetEach (reports : List Dict) (as : List Assignment) : Prop :=
  ∀ p ∈ reports.zip as, ∀ q ∈ reports.zip as, SameEmitter p.1.cells q.1.cells →
    p.2.netId = q.2.netId

/-- The net a report of a station meets: of those it matches, the first with the latest LTI. -/
structure Meets (cfg : MatchConfig) (ms : Members) (new : Row) (i : ℕ) (old : Member) : Prop where
  getElem : ms.rows[i]? = some old
  candidate : isCandidate cfg new old = true
  latest : ∀ j m, ms.rows[j]? = some m → isCandidate cfg new m = true →
    ltiKey m ≤ ltiKey old ∧ (j < i → ltiKey m < ltiKey old)

/-- A report with an emitter id meets no net under another one: either the net it meets carries
its id, or that net carries none, takes the report's, and is the only one of the station to do so.
A report without a station is the first with its id. -/
def KeepsEmitters (cfg : MatchConfig) (ms : Members) (new : Row) : Prop :=
  (new .ffId).isna = false →
    if (new (.txt .rdfs)).isna = true then ∀ m ∈ ms.rows, ¬ SameEmitter m.cells new
    else ∀ i old, Meets cfg ms new i old → SameEmitter old.cells new ∨
      (old.cells .ffId).isna = true ∧ (∀ m ∈ ms.rows, ¬ SameEmitter m.cells new) ∧
        Col.ffId ∈ ms.cols ∧ isNewer (old.cells .lti).toDt (new .lti).toDt = true

/-- Every report of the list does, in the table it finds. -/
def AllKeepEmitters (caller : Caller) (cfg : MatchConfig) : Members → List Dict → Prop
  | _, [] => True
  | ms, d :: ds => KeepsEmitters cfg ms d.cells ∧ ∀ ms' a,
      routeReport caller cfg ms d = .ok (ms', a) → AllKeepEmitters caller cfg ms' ds

/-- The nets have the emitters of the reports `done` so far, each in one net. -/
structure Emitters (ms : Members) (done : List (Dict × Assignment)) : Prop where
  carried : ∀ p ∈ done, (p.1.cells .ffId).isna = false →
    ∃ m ∈ ms.rows, m.netId = p.2.netId ∧ SameEmitter m.cells p.1.cells
  unique : ∀ m ∈ ms.rows, ∀ m' ∈ ms.rows, SameEmitter m.cells m'.cells → m.netId = m'.netId
  column : ∀ m ∈ ms.rows, (m.cells (.txt .rdfs)).isna = false → Col.txt .rdfs ∈ ms.cols

section
variable {caller : Caller} {cfg : MatchConfig} {ms ms' : Members} {d : Dict} {a : Assignment}
  {done : List (Dict × Assignment)} {row row' row'' new : Row}

/-! ## Emitters -/

theorem SameEmitter.symm (h : SameEmitter row row') : SameEmitter row' row :=
  ⟨h.1.symm, h.2.1.symm, (Cell.isna_congr h.2.1).symm.trans h.2.2⟩

theorem SameEmitter.trans (h : SameEmitter row row') (h' : SameEmitter row' row'') :
    SameEmitter row row'' :=
  ⟨h.1.trans h'.1, h.2.1.trans h'.2.1, h.2.2⟩

/-- It depends on what the two cells say only. -/
theorem SameEmitter.congr (h : SameEmitter row row'') (hr : (row' (.txt .rdfs)).val
    = (row (.txt .rdfs)).val) (hf : (row' .ffId).val = (row .ffId).val) :
    SameEmitter row' row'' :=
  ⟨hr.trans h.1, hf.trans h.2.1, (Cell.isna_congr hf).trans h.2.2⟩

/-- A report always matches the nets that carry its emitter. -/
theorem SameEmitter.isCandidate {m : Member} (h : SameEmitter m.cells new) :
    isCandidate cfg new m = true := by
  obtain ⟨hr, hf, hn⟩ := h
  have hsame : sameFfId m.cells new = true := by
    unfold sameFfId
    rw [← Cell.isna_congr hf, hn, ← Cell.pyInt_congr hf]
    rcases hi : (m.cells .ffId).pyInt with _ | n
    · simp [Cell.pyStr_congr hf hn hi]
    · simp
  unfold NetBuild.isCandidate
  simp [hr, hsame]

theorem meets_of_newest {old : Member} {i : ℕ} (h : newest cfg ms new = some (old, i)) :
    Meets cfg ms new i old := by
  obtain ⟨hcol, hna, hget, hcand, -⟩ := newest_eq_some h
  rw [newest_eq, if_pos ⟨hcol, hna⟩] at h
  exact ⟨hget, hcand, fun j m hm hc => List.firstMax_greatest h hm hc⟩

/-- It is one net. -/
theorem Meets.unique {i i' : ℕ} {old old' : Member} (h : Meets cfg ms new i old)
    (h' : Meets cfg ms new i' old') : old = old' := by
  have hle := (h.latest i' old' h'.getElem h'.candidate).1
  have hge := (h'.latest i old h.getElem h.candidate).1
  have hi : i = i' := by
    rcases Nat.lt_trichotomy i i' with hlt | heq | hgt
    · exact absurd ((h'.latest i old h.getElem h.candidate).2 hlt) (not_lt_of_ge hle)
    · exact heq
    · exact absurd ((h.latest i' old' h'.getElem h'.candidate).2 hgt) (not_lt_of_ge hge)
  subst hi
  exact Option.some_inj.mp (h.getElem.symm.trans h'.getElem)

/-- The emitter of the record a report was folded into: the report's if it is newer and has one,
else the one the record had. -/
theorem ffId_collapsedMember {old : Member} (nti : Cell) :
    (collapsedMember ms old new nti).cells .ffId =
      if isNewer (old.cells .lti).toDt (new .lti).toDt ∧ Col.ffId ∈ ms.cols
        ∧ (new .ffId).isna = false
      then new .ffId else old.cells .ffId :=
  cells_collapsedMember _ _ _ _ ⟨by decide, by decide, by decide⟩

/-- What a fold does to the emitter of the net: it keeps it, or it had none and now has the
report's, which no other net of the station has. -/
theorem KeepsEmitters.collapsedMember {old : Member} {i : ℕ} (hk : KeepsEmitters cfg ms new)
    (hm : Meets cfg ms new i old) (hst : (new (.txt .rdfs)).isna = false)
    (hval : (old.cells (.txt .rdfs)).val = (new (.txt .rdfs)).val) (nti : Cell) :
    (((collapsedMember ms old new nti).cells .ffId).val = (old.cells .ffId).val ∧
        ((new .ffId).isna = false → SameEmitter old.cells new)) ∨
      (old.cells .ffId).isna = true ∧ (∀ m ∈ ms.rows, ¬ SameEmitter m.cells new) ∧
        SameEmitter (NetBuild.collapsedMember ms old new nti).cells new := by
  rcases hff : (new .ffId).isna with _ | _
  · have hfind := hk hff
    rw [hst, if_neg Bool.false_ne_true] at hfind
    rcases hfind i old hm with hsame | ⟨hnone, hfresh, hcol, hnewer⟩
    · refine .inl ⟨?_, fun _ => hsame⟩
      rw [ffId_collapsedMember]
      split
      · exact hsame.2.1.symm
      · rfl
    · refine .inr ⟨hnone, hfresh, (val_rdfs_collapsedMember nti hval).trans hval, ?_⟩
      rw [ffId_collapsedMember, if_pos ⟨hnewer, hcol, hff⟩]
      exact ⟨rfl, hff⟩
  · refine .inl ⟨?_, fun h => nomatch h⟩
    rw [ffId_collapsedMember, if_neg]
    intro h
    rw [hff] at h
    exact nomatch h.2.2

/-! ## One report -/

/-- A new net is the first of its emitter. -/
theorem Emitters.fresh (h : Emitters ms done) (hk : KeepsEmitters cfg ms new)
    (hnone : newest cfg ms new = none) : ∀ m ∈ ms.rows, ¬ SameEmitter m.cells new := by
  intro m hm hsame
  have hfind := hk hsame.symm.2.2
  rcases hst : (new (.txt .rdfs)).isna with _ | _
  · have hcol := h.column m hm ((Cell.isna_congr hsame.1).trans hst)
    rw [newest_eq, if_pos ⟨hcol, hst⟩, List.firstMax_eq_none_iff] at hnone
    have hcand := hnone m hm
    rw [hsame.isCandidate] at hcand
    exact nomatch hcand
  · rw [hst, if_pos rfl] at hfind
    exact hfind m hm hsame

theorem Emitters.spawn (h : Emitters ms done) (hk : KeepsEmitters cfg ms d.cells)
    (hnone : newest cfg ms d.cells = none) :
    Emitters (ms.append d.keys (newMember a (caller.record d.cells))) (done ++ [(d, a)]) := by
  have hfresh := h.fresh hk hnone
  have hrec : ∀ row, SameEmitter (newMember a (caller.record d.cells)).cells row ↔
      SameEmitter d.cells row := by
    intro row
    show SameEmitter (caller.record d.cells) row ↔ _
    unfold SameEmitter
    rw [record_rdfs, record_ffId]
  -- the net that is spawned has the emitter of the report, which no net had
  refine ⟨fun p hp hff => ?_, fun m hm m' hm' hs => ?_, fun m hm hst => ?_⟩
  · rcases List.mem_append.mp hp with hp | hp
    · obtain ⟨m, hm, hnet, hsame⟩ := h.carried p hp hff
      exact ⟨m, List.mem_append_left _ hm, hnet, hsame⟩
    · obtain rfl := List.mem_singleton.mp hp
      exact ⟨_, List.mem_append_right _ List.mem_cons_self, rfl, (hrec _).mpr ⟨rfl, rfl, hff⟩⟩
  · rcases List.mem_append.mp hm with hm | hm
    · rcases List.mem_append.mp hm' with hm' | hm'
      · exact h.unique m hm m' hm' hs
      · obtain rfl := List.mem_singleton.mp hm'
        exact absurd ((hrec _).mp hs.symm).symm (hfresh m hm)
    · obtain rfl := List.mem_singleton.mp hm
      rcases List.mem_append.mp hm' with hm' | hm'
      · exact absurd ((hrec _).mp hs).symm (hfresh m' hm')
      · rw [List.mem_singleton.mp hm']
  · rcases List.mem_append.mp hm with hm | hm
    · exact List.mem_append_left _ (h.column m hm hst)
    · obtain rfl := List.mem_singleton.mp hm
      have hkey : Col.txt .rdfs ∈ d.keys := by
        by_contra hn
        have hst' : (caller.record d.cells (.txt .rdfs)).isna = false := hst
        rw [record_rdfs, d.absent _ hn] at hst'
        exact nomatch hst'
      show _ ∈ ms.cols ++ _
      by_cases hc : Col.txt .rdfs ∈ ms.cols
      · exact List.mem_append_left _ hc
      · exact List.mem_append_right _ (List.mem_filter.mpr ⟨hkey, decide_eq_true hc⟩)

/-- A net a report is folded into keeps its emitter, or gets one that no net has. -/
theorem Emitters.collapse {old : Member} {i : ℕ} (h : Emitters ms done)
    (hk : KeepsEmitters cfg ms d.cells) (hnew : newest cfg ms d.cells = some (old, i)) (nti : Cell)
    (hnet : a.netId = old.netId) :
    Emitters (ms.fold i old d.cells nti) (done ++ [(d, a)]) := by
  obtain ⟨-, hst, hget, -, hval⟩ := newest_eq_some hnew
  have hi : i < ms.rows.length := (List.getElem?_eq_some_iff.mp hget).1
  have hold : old ∈ ms.rows := List.mem_of_getElem? hget
  have hr : ((collapsedMember ms old d.cells nti).cells (.txt .rdfs)).val
      = (old.cells (.txt .rdfs)).val := val_rdfs_collapsedMember nti hval
  obtain ⟨hkeep, hthen, hself⟩ :
      (∀ row, SameEmitter old.cells row →
        SameEmitter (collapsedMember ms old d.cells nti).cells row) ∧
      (∀ row, SameEmitter (collapsedMember ms old d.cells nti).cells row →
        SameEmitter old.cells row ∨ ∀ m ∈ ms.rows, ¬ SameEmitter m.cells row) ∧
      ((d.cells .ffId).isna = false →
        SameEmitter (collapsedMember ms old d.cells nti).cells d.cells) := by
    rcases hk.collapsedMember (meets_of_newest hnew) hst hval nti with
      ⟨hf, hown⟩ | ⟨hnone, hfresh, hown⟩
    · exact ⟨fun _ hs => hs.congr hr hf, fun _ hs => .inl (hs.congr hr.symm hf.symm),
        fun hff => (hown hff).congr hr hf⟩
    · refine ⟨fun _ hs => ?_, fun _ hs => .inr fun m hm hs' => ?_, fun _ => hown⟩
      · have hn := hs.2.2
        rw [hnone] at hn
        exact nomatch hn
      · exact hfresh m hm (hs'.trans (hs.symm.trans hown))
  refine ⟨fun p hp hff => ?_, fun m hm m' hm' hs => ?_, fun m hm hst' => ?_⟩
  · rcases List.mem_append.mp hp with hp | hp
    · obtain ⟨m, hm, hn, hsame⟩ := h.carried p hp hff
      rcases List.eq_or_mem_set hget hm with rfl | hm
      · exact ⟨_, List.mem_set hi _, hn, hkeep _ hsame⟩
      · exact ⟨m, hm, hn, hsame⟩
    · obtain rfl := List.mem_singleton.mp hp
      exact ⟨_, List.mem_set hi _, hnet.symm, hself hff⟩
  · -- against the net itself, another net has the emitter it had
    have hone : ∀ x ∈ ms.rows, SameEmitter (collapsedMember ms old d.cells nti).cells x.cells →
        old.netId = x.netId := by
      intro x hx hs
      rcases hthen _ hs with hs' | hnot
      · exact h.unique old hold x hx hs'
      · exact absurd (hs.symm.trans hs) (hnot x hx)
    rcases List.mem_or_eq_of_mem_set hm with hm | rfl
    · rcases List.mem_or_eq_of_mem_set hm' with hm' | rfl
      · exact h.unique m hm m' hm' hs
      · exact (hone m hm hs.symm).symm
    · rcases List.mem_or_eq_of_mem_set hm' with hm' | rfl
      · exact hone m' hm' hs
      · rfl
  · show _ ∈ ms.cols ++ _
    apply List.mem_append_left
    rcases List.mem_or_eq_of_mem_set hm with hm | rfl
    · exact h.column m hm hst'
    · exact h.column old hold ((Cell.isna_congr hr).symm.trans hst')

/-! ## All reports -/

theorem Emitters.route (h : Emitters ms done) (hk : KeepsEmitters cfg ms d.cells)
    (hd : routeReport caller cfg ms d = .ok (ms', a)) : Emitters ms' (done ++ [(d, a)]) := by
  rcases routeReport_eq_ok_iff.mp hd with
    ⟨hnone, -, rfl⟩ | ⟨old, i, nti, my, hnew, -, -, rfl, rfl⟩
  · exact h.spawn hk hnone
  · exact h.collapse hk hnew nti rfl

theorem Emitters.routeAll {reports : List Dict} {as : List Assignment} (h : Emitters ms done)
    (hk : AllKeepEmitters caller cfg ms reports)
    (hr : routeReports caller cfg ms reports = .ok (ms', as)) :
    Emitters ms' (done ++ reports.zip as) := by
  induction reports generalizing ms done as with
  | nil =>
    obtain ⟨rfl, rfl⟩ := Prod.mk.inj (Except.ok.inj hr)
    rw [List.zip_nil_right, List.append_nil]
    exact h
  | cons d ds ih =>
    obtain ⟨ms₁, a, as', hd, hds, rfl⟩ := routeReports_cons.mp hr
    have hrest := ih (h.route hk.1 hd) (hk.2 _ _ hd) hds
    rwa [List.append_assoc] at hrest

/-- Where every report keeps the emitters apart, the reports of an emitter are assigned one net,
whatever other reports there are. -/
theorem one_net_each_emitter {reports : List Dict} {as : List Assignment}
    (hempty : ms.rows = []) (hk : AllKeepEmitters caller cfg ms reports)
    (hr : routeReports caller cfg ms reports = .ok (ms', as)) : OneNetEach reports as := by
  have hstart : Emitters ms [] := by
    refine ⟨fun p hp => absurd hp List.not_mem_nil, fun m hm => ?_, fun m hm => ?_⟩
    · rw [hempty] at hm
      exact absurd hm List.not_mem_nil
    · rw [hempty] at hm
      exact absurd hm List.not_mem_nil
  have h := hstart.routeAll hk hr
  intro p hp q hq hs
  obtain ⟨m, hm, hnet, hsame⟩ := h.carried p hp hs.2.2
  obtain ⟨m', hm', hnet', hsame'⟩ := h.carried q hq hs.symm.2.2
  rw [← hnet, ← hnet']
  exact h.unique m hm m' hm' (hsame.trans (hs.trans hsame'.symm))

end

/-- A day of May. -/
def may (day : ℕ) (h : 1 ≤ day ∧ day ≤ daysInMonth 2024 5) : Timestamp :=
  .ofDate (.of2024 5 day ⟨by decide, h⟩)

/-- A sighting of an emitter by station `a`, on a frequency. -/
def sighting (ffId mhz : ℤ) (t : Timestamp) : Dict :=
  .of [(.ffId, .int ffId), (.txt .rdfs, .str "a".toList), (.num .frequencyMHz, .int mhz),
    (.lti, .ts t)]

/-- An empty table with the columns of a report. -/
def noNets : Members := .empty Col.data

/-- An emitter that changes its frequency. -/
def hopping : List Dict := [sighting 1 100 (may 1 (by decide)), sighting 1 500 (may 2 (by decide))]

theorem one_net_each_emitter_hopping :
    ∃ ms' as, routeReports .runPipeline {} noNets hopping = .ok (ms', as) ∧
      as.map (·.netId) = [100001, 100001] ∧ OneNetEach hopping as := by
  have hnets : (routeReports .runPipeline {} noNets hopping).map (fun r => r.2.map (·.netId))
      = .ok [100001, 100001] := by
    decide +kernel
  obtain ⟨⟨ms', as⟩, hr, has⟩ := Except.map_eq_ok_iff.mp hnets
  have hfirst : KeepsEmitters {} noNets (sighting 1 100 (may 1 (by decide))).cells := by
    intro _
    rw [if_neg (by decide)]
    exact fun i old hm => absurd (List.mem_of_getElem? hm.getElem) List.not_mem_nil
  have hsecond : ∀ ms' a,
      routeReport .runPipeline {} noNets (sighting 1 100 (may 1 (by decide))) = .ok (ms', a) →
        KeepsEmitters {} ms' (sighting 1 500 (may 2 (by decide))).cells := by
    intro ms' a hd _
    rw [if_neg (by decide)]
    intro i old hm
    rcases routeReport_eq_ok_iff.mp hd with ⟨-, -, rfl⟩ | ⟨old', j, -, -, hnew, -⟩
    · obtain rfl := List.mem_singleton.mp (List.mem_of_getElem? hm.getElem)
      exact .inl ⟨rfl, rfl, rfl⟩
    · exact absurd (List.mem_of_getElem? (newest_eq_some hnew).2.2.1) List.not_mem_nil
  exact ⟨ms', as, hr, has, one_net_each_emitter rfl
    ⟨hfirst, fun ms' a hd => ⟨hsecond ms' a hd, fun _ _ _ => trivial⟩⟩ hr⟩

/-- Emitter 2 takes over the net of emitter 1, which gets another one later. -/
theorem emitter_moves :
    ¬ ∀ (caller : Caller) (cfg : MatchConfig) (ms ms' : Members) (reports : List Dict)
      (as : List Assignment), ms.rows = [] →
        routeReports caller cfg ms reports = .ok (ms', as) → OneNetEach reports as := by
  intro hclaim
  have hnets : (routeReports .runPipeline {} noNets [sighting 1 100 (may 1 (by decide)),
      sighting 2 100 (may 2 (by decide)), sighting 1 500 (may 3 (by decide))]).map
        (fun r => r.2.map (·.netId)) = .ok [100001, 100001, 100002] := by
    decide +kernel
  obtain ⟨⟨ms', as⟩, hr, has⟩ := Except.map_eq_ok_iff.mp hnets
  have hone := hclaim _ _ _ _ _ _ rfl hr
  rcases as with _ | ⟨a, _ | ⟨b, _ | ⟨c, as⟩⟩⟩
  all_goals simp at has
  have hac := hone (sighting 1 100 (may 1 (by decide)), a) (by simp)
    (sighting 1 500 (may 3 (by decide)), c) (by simp) ⟨rfl, rfl, rfl⟩
  dsimp only at hac
  omega

end NetBuild
