import NetBuild.BuildPhases
import NetBuild.ConcurrentDecisions
import NetBuild.FreshIds

/-!
# Approvals during builds

A build reads all of `ff_net_building`, and at its end inserts every row again with the
`my_net_id` it has read. A label that an approval moves in between is put back, and the pair stays
approved. Along any interleaving in which a row is relabelled only while every build under way has
still to read the nets, or has no write of that row left, the nets of approved pairs end in one
group.
-/

namespace NetBuild

open NetMerging NetMergingService
open Prog (Run Steps)

/-! ## The nets there were -/

/-- The label of a net that was there in `s₀`. -/
def Store.labelIn (s₀ s : Store) (n : ℤ) : Option ℤ := (s₀.building n).bind fun _ => s.label n

/-- Where a decision stands, as far as the nets there were in `s₀` are concerned. -/
def DecisionPoint.within (s₀ : Store) : DecisionPoint → DecisionPoint
  | .moving hi lo count rest =>
    .moving hi lo count (rest.filter fun r => (s₀.building r.1).isSome)
  | pt => pt

/-- The decision has read that its pair is pending, and has not ended. -/
def DecisionPoint.Underway : DecisionPoint → Prop
  | .start | .done _ | .raised _ => False
  | _ => True

section
variable {s₀ s s' : Store} {n l : ℤ}

theorem labelIn_eq_some_iff :
    s₀.labelIn s n = some l ↔ s₀.building n ≠ none ∧ s.label n = some l := by
  unfold Store.labelIn
  rcases s₀.building n with _ | x
  · simp
  · simp

theorem labelIn_of_ne_none (h : s₀.building n ≠ none) : s₀.labelIn s n = s.label n := by
  unfold Store.labelIn
  rcases hx : s₀.building n with _ | x
  · exact absurd hx h
  · rfl

theorem mem_filter_isSome {rest : List (ℤ × Net)} :
    n ∈ (rest.filter fun r => (s₀.building r.1).isSome).map Prod.fst ↔
      n ∈ rest.map Prod.fst ∧ s₀.building n ≠ none := by
  simp only [List.mem_map, List.mem_filter, Option.isSome_iff_ne_none]
  refine ⟨fun h => ?_, fun h => ?_⟩
  · obtain ⟨r, ⟨hr, hs⟩, rfl⟩ := h
    exact ⟨⟨r, hr, rfl⟩, hs⟩
  · obtain ⟨⟨r, hr, rfl⟩, hs⟩ := h
    exact ⟨r, ⟨hr, hs⟩, rfl⟩

theorem within_cons_of_eq_none {hi lo : ℤ} {count : ℕ} {r : ℤ × Net} {rest : List (ℤ × Net)}
    (hr : s₀.building r.1 = none) :
    (DecisionPoint.moving hi lo count (r :: rest)).within s₀
      = (DecisionPoint.moving hi lo count rest).within s₀ := by
  unfold DecisionPoint.within
  dsimp only
  rw [List.filter_cons_of_neg (by simp [hr])]

theorem within_cons_of_ne_none {hi lo : ℤ} {count : ℕ} {r : ℤ × Net} {rest : List (ℤ × Net)}
    (hr : s₀.building r.1 ≠ none) :
    (DecisionPoint.moving hi lo count (r :: rest)).within s₀
      = .moving hi lo count (r :: rest.filter fun r => (s₀.building r.1).isSome) := by
  unfold DecisionPoint.within
  dsimp only
  rw [List.filter_cons_of_pos (by simpa [Option.isSome_iff_ne_none] using hr)]

/-- A move changes the label of the net it moves. -/
theorem labelIn_building_update {my : ℤ} {now : Time} (hn : s₀.building n ≠ none) (m : ℤ) :
    s₀.labelIn (s.apply (.buildingUpdate n my now)) m
      = if m = n then some my else s₀.labelIn s m := by
  by_cases hm : s₀.building m = none
  · have hne : m ≠ n := fun he => hn (he ▸ hm)
    unfold Store.labelIn
    rw [hm, if_neg hne]
    rfl
  · rw [labelIn_of_ne_none hm, labelIn_of_ne_none hm, label_building_update]

/-- A move of a net that was not there changes no label. -/
theorem labelIn_building_update_none {my : ℤ} {now : Time} (hn : s₀.building n = none) :
    s₀.labelIn (s.apply (.buildingUpdate n my now)) = s₀.labelIn s := by
  funext m
  by_cases hm : s₀.building m = none
  · unfold Store.labelIn
    rw [hm]
    rfl
  · have hne : m ≠ n := fun he => hm (he ▸ hn)
    rw [labelIn_of_ne_none hm, labelIn_of_ne_none hm, label_building_update, if_neg hne]

end

/-! ## The decision under way -/

/-- What holds of the decision under way, and of the pairs decided before it. -/
structure Merging (s₀ : Store) (d : DecisionCall) (pt : DecisionPoint) (s : Store) : Prop where
  /-- The nets there were are there and labelled. -/
  labelled : ∀ n, s₀.building n ≠ none → s.label n ≠ none
  /-- The candidates are pairs of these. -/
  tracked : ∀ k, s.candidates k ≠ none → s₀.building k.1 ≠ none ∧ s₀.building k.2 ≠ none
  recorded : pt.Underway → s.candidates d.key ≠ none
  sound : (pt.within s₀).Sound (s₀.labelIn s) d.key
  joined : ∀ a b, Approved s a b → Joined (s₀.labelIn s) (fun _ : Unit => pt.within s₀) a b

section
variable {ord : ReadOrder} {s₀ s s' : Store} {d : DecisionCall} {pt pt' : DecisionPoint}

/-- A decision keeps the candidates that are recorded, and its own pair is one of them. -/
theorem DecisionStep.candidates_ne_none (h : DecisionStep ord d s pt pt' s')
    (hr : pt.Underway → s.candidates d.key ≠ none) :
    (∀ k, s'.candidates k ≠ none ↔ s.candidates k ≠ none) ∧
      (pt'.Underway → s'.candidates d.key ≠ none) := by
  have hsettle : ∀ status, pt.Underway → ∀ k,
      (settle s d.key status d.now).candidates k ≠ none ↔ s.candidates k ≠ none := by
    intro status hu k
    rw [candidates_settle, Table.upsert_apply]
    by_cases hk : k = d.key
    · rw [if_pos hk, hk]
      exact iff_of_true (Option.some_ne_none _) (hr hu)
    · rw [if_neg hk]
  rcases h with e | hc | hc | _ | _ | _ | _ | _ | _ | _ | _ | _
  case rejected => exact ⟨hsettle _ trivial, False.elim⟩
  case joined => exact ⟨hsettle _ trivial, False.elim⟩
  case approved => exact ⟨hsettle _ trivial, False.elim⟩
  case refused => exact ⟨fun _ => Iff.rfl, False.elim⟩
  case refusedB => exact ⟨fun _ => Iff.rfl, False.elim⟩
  case toReject => exact ⟨fun _ => Iff.rfl, fun _ => by rw [hc]; exact Option.some_ne_none _⟩
  case toApprove => exact ⟨fun _ => Iff.rfl, fun _ => by rw [hc]; exact Option.some_ne_none _⟩
  all_goals exact ⟨fun _ => Iff.rfl, fun _ => hr trivial⟩

theorem DecisionStep.label_ne_none (h : DecisionStep ord d s pt pt' s') {n : ℤ}
    (hn : s.label n ≠ none) : s'.label n ≠ none := by
  rcases h with _ | _ | _ | _ | _ | _ | _ | _ | _ | _ | ⟨hi, lo, count, r, rest⟩ | _
  case moved =>
    rw [label_building_update]
    split
    · exact Option.some_ne_none _
    · exact hn
  all_goals exact hn

/-- The labels the decision has read are still those there are, where a net was there. -/
theorem Merging.sound_next (h : Merging s₀ d pt s) (hstep : DecisionStep ord d s pt pt' s')
    (hfit : ∀ hi lo, pt = .scanning hi lo → GroupFits s hi) :
    (pt'.within s₀).Sound (s₀.labelIn s') d.key := by
  have hpt := h.sound
  have hkey : pt.Underway → s₀.building d.key.1 ≠ none ∧ s₀.building d.key.2 ≠ none :=
    fun hu => h.tracked _ (h.recorded hu)
  rcases hstep with _ | _ | _ | _ | _ | _ | @⟨x, y, hy, hsame⟩ | @⟨x, y, myA, myB, hy, hA, hB, hne⟩
    | _ | @⟨hi, lo, all, hall⟩ | ⟨hi, lo, count, r, rest⟩ | _
  case readA =>
    intro x hx
    have hlabel := h.labelled _ (hkey trivial).1
    rw [Store.label_of_eq_some hx] at hlabel
    obtain ⟨my, hmy⟩ := Option.ne_none_iff_exists'.mp hlabel
    exact ⟨my, hmy, labelIn_eq_some_iff.mpr
      ⟨(hkey trivial).1, (Store.label_of_eq_some hx).trans hmy⟩⟩
  case same =>
    obtain ⟨my, hmy, hlabel⟩ := hpt x rfl
    exact ⟨my, hmy, hlabel, labelIn_eq_some_iff.mpr
      ⟨(hkey trivial).2, (Store.label_of_eq_some hy).trans (hsame.symm.trans hmy)⟩⟩
  case differ =>
    exact DecisionPoint.Sound.differ hpt hA
      (labelIn_eq_some_iff.mpr ⟨(hkey trivial).2, (Store.label_of_eq_some hy).trans hB⟩) hne
  case scanned =>
    refine DecisionPoint.Sound.scanned hpt ?_ fun n => ?_
    · refine List.Nodup.sublist (List.filter_sublist.map _) ?_
      exact hall.nodup.sublist (((List.take_sublist _ _).trans List.filter_sublist).map _)
    · rw [mem_filter_isSome, labelIn_eq_some_iff, and_comm]
      exact and_congr_right fun _ => ⟨fun hn => label_of_mem_scanned hall hn,
        (groupFits_iff hall hi).mp (hfit hi lo rfl) n⟩
  case moved =>
    by_cases hr : s₀.building r.1 = none
    · rw [labelIn_building_update_none hr, ← within_cons_of_eq_none hr]
      exact hpt
    · rw [within_cons_of_ne_none hr] at hpt
      exact DecisionPoint.Sound.moved hpt (labelIn_building_update hr)
  all_goals trivial

theorem Joined.of_update {L : ℤ → Option ℤ} {p q : DecisionPoint} {a b : ℤ}
    (h : Joined L (Function.update (fun _ : Unit => p) () q) a b) :
    Joined L (fun _ : Unit => q) a b := by
  rwa [Function.update_eq_const_of_subsingleton] at h

/-- The nets of approved pairs stay together, or are on their way. -/
theorem Merging.joined_next (h : Merging s₀ d pt s) (hstep : DecisionStep ord d s pt pt' s')
    {a b : ℤ} (hab : Approved s' a b) :
    Joined (s₀.labelIn s') (fun _ : Unit => pt'.within s₀) a b := by
  -- a step from a point that moves nothing, to another one
  have hgo : ∀ {q : DecisionPoint}, (∀ hi lo count rest, pt.within s₀ ≠ .moving hi lo count rest) →
      Approved s a b → Joined (s₀.labelIn s) (fun _ : Unit => q) a b := by
    intro q hne hold
    refine (h.joined a b hold).imp_right fun hm => ?_
    obtain ⟨_, hi, lo, count, rest, he, -⟩ := hm
    exact absurd he (hne hi lo count rest)
  have hpt := h.sound
  rcases hpt' : pt with _ | _ | _ | rowA | my | ⟨hi, lo⟩ | ⟨hi, lo, count, _ | ⟨r, rest⟩⟩ |
    res | e
  all_goals rw [hpt'] at hstep hpt hgo
  case moving.nil =>
    rcases hstep
    rcases (approved_settle a b).mp hab with ⟨hk, -⟩ | ⟨-, hold⟩
    · obtain ⟨-, -, -, -, ha, hb⟩ := hpt
      rw [← hk] at ha hb
      exact .inl ⟨lo, ha.resolve_right List.not_mem_nil, hb.resolve_right List.not_mem_nil⟩
    · have hj := h.joined a b hold
      rw [hpt'] at hj
      exact (hj.update_moved (i := ()) _ rfl).of_update
  case moving.cons =>
    obtain ⟨rfl, rfl⟩ := hstep.moved_inv
    have hj := h.joined a b hab
    rw [hpt'] at hj
    by_cases hr : s₀.building r.1 = none
    · rw [labelIn_building_update_none hr, ← within_cons_of_eq_none hr]
      exact hj
    · rw [within_cons_of_ne_none hr] at hj hpt
      obtain ⟨-, -, hhi, hall, -⟩ := hpt
      exact (hj.move (i := ()) rfl (hhi r.1 List.mem_cons_self) (hall (List.cons_ne_nil _ _))
        (labelIn_building_update hr) fun j hj => absurd rfl hj).of_update
  case joining =>
    rcases hstep
    rcases (approved_settle a b).mp hab with ⟨hk, -⟩ | ⟨-, hold⟩
    · obtain ⟨l, -, ha, hb⟩ := hpt
      rw [← hk] at ha hb
      exact .inl ⟨l, ha, hb⟩
    · exact hgo (fun _ _ _ _ he => nomatch he) hold
  case rejecting =>
    rcases hstep
    rcases (approved_settle a b).mp hab with ⟨-, he⟩ | ⟨-, hold⟩
    · exact nomatch he
    · exact hgo (fun _ _ _ _ he => nomatch he) hold
  all_goals
    have hs : s' = s := by
      rcases hstep <;> rfl
    subst hs
    exact hgo (fun _ _ _ _ he => nomatch he) hab

/-- One call of the decision. -/
theorem Merging.decide (h : Merging s₀ d pt s) (hstep : DecisionStep ord d s pt pt' s')
    (hfit : ∀ hi lo, pt = .scanning hi lo → GroupFits s hi) : Merging s₀ d pt' s' where
  labelled n hn := hstep.label_ne_none (h.labelled n hn)
  tracked k hk := h.tracked k (((hstep.candidates_ne_none h.recorded).1 k).mp hk)
  recorded := (hstep.candidates_ne_none h.recorded).2
  sound := h.sound_next hstep hfit
  joined _ _ hab := h.joined_next hstep hab

/-- A decision that has no call left leaves the nets of approved pairs together. -/
theorem Merging.shares (h : Merging s₀ d pt s) (hpt : (pt.prog d).next? = none) {a b : ℤ}
    (hab : Approved s a b) : Shares (s₀.labelIn s) a b := by
  refine (h.joined a b hab).resolve_right fun hm => ?_
  obtain ⟨_, hi, lo, count, rest, he, -⟩ := hm
  rcases pt with _ | _ | _ | rowA | my | ⟨hi', lo'⟩ | ⟨hi', lo', count', rest'⟩ | res | e
  case moving => exact not_moving_of_next?_eq_none hpt hi' lo' count' rest' rfl
  all_goals exact nomatch he

/-- The next decision starts where one has ended. -/
theorem Merging.restart (h : Merging s₀ d pt s) (hpt : (pt.prog d).next? = none)
    (d' : DecisionCall) : Merging s₀ d' .start s where
  labelled := h.labelled
  tracked := h.tracked
  recorded := False.elim
  sound := trivial
  joined _ _ hab := .inl (h.shares hpt hab)

end

/-! ## The builds under way -/

/-- The request writes nets or the history, and none of the labels `L`. -/
def Req.KeepsLabels (L : ℤ → Option ℤ) : Req → Prop
  | .buildingInsert n row => L n ≠ none → row.myNetId = L n
  | .buildingDelete n => L n = none
  | .historyInsert _ _ => True
  | _ => False

/-- The request writes nets or the history, but not the row of the net `n`. -/
def Req.Avoids (n : ℤ) : Req → Prop
  | .buildingInsert m _ | .buildingDelete m => m ≠ n
  | .historyInsert _ _ => True
  | _ => False

/-- The rows read carry the labels `L`. -/
structure ReadLabels (L : ℤ → Option ℤ) (building : List (ℤ × Net)) : Prop where
  nodup : (building.map Prod.fst).Nodup
  labels : ∀ n l, L n = some l → ∃ x, (n, x) ∈ building ∧ x.myNetId = some l

/-- The arguments of a build, and the readings of the clock during it. -/
structure BuildCall where
  cfg : MatchConfig
  clock : BuildClock

/-- A build whose result nobody looks at. -/
def BuildCall.prog (b : BuildCall) : Client Unit := do
  let _ ← runPipeline b.cfg b.clock
  return ()

/-- Where a build stands that is to keep the labels `L`. -/
def Rebuilds (L : ℤ → Option ℤ) (b : BuildCall) : Client Unit → Prop :=
  BuildStage (fun _ => ()) b.cfg b.clock (ReadLabels L) fun q => q.Always (Req.KeepsLabels L)

section
variable {ord : ReadOrder} {s s' s₀ : Store} {L L' : ℤ → Option ℤ} {cfg : MatchConfig}
  {clock : BuildClock} {building : List (ℤ × Net)} {history : List (HistKey × Hist)}
  {reports : List Report} {folded : List (Report × Assignment)} {st : FoldState}

/-- The members a build has read the labels `L` for carry them when the loop is over. -/
theorem ReadLabels.mem_ids (h : ReadLabels L building)
    (hinv : LoopInv cfg building history reports reports folded st) {n l : ℤ}
    (hl : L n = some l) : ∃ m ∈ st.members.rows, m.netId = n ∧ m.myNetId = some l := by
  obtain ⟨x, hx, hmy⟩ := h.labels n l hl
  have hids : (n, some l) ∈ st.members.rows.map Member.ids := by
    rw [hinv.routes.ids, rows_startMembers, List.map_map]
    exact List.mem_append_left _ (List.mem_map.mpr ⟨(n, x), hx, Prod.ext rfl hmy⟩)
  obtain ⟨m, hm, he⟩ := List.mem_map.mp hids
  exact ⟨m, hm, congrArg Prod.fst he, congrArg Prod.snd he⟩

theorem ReadLabels.always_writeBack (h : ReadLabels L building)
    (hinv : LoopInv cfg building history reports reports folded st) :
    (writeBack clock building st).Always (Req.KeepsLabels L) := by
  have hnodup : (st.members.rows.map (·.netId)).Nodup := by
    refine hinv.routes.nodup ?_
    rw [rows_startMembers, List.map_map]
    exact h.nodup
  refine NetBuild.always_writeBack (fun n hn => ?_) (fun r hr hne => ?_) fun _ _ => trivial
  · -- a labelled row is written again, so it is not stale
    by_contra hne
    obtain ⟨l, hl⟩ := Option.ne_none_iff_exists'.mp hne
    obtain ⟨m, hm, hnet, hmy⟩ := h.mem_ids hinv hl
    have hrow : (n, m.toNet clock.updatedAt) ∈ netRows clock st.members.rows :=
      (mem_netRows hnodup).mpr ⟨m, hm, hnet, by rw [hmy]; exact Option.some_ne_none l, rfl⟩
    have := (List.mem_filter.mp hn).2
    exact (of_decide_eq_true this) (List.mem_map_of_mem hrow)
  · obtain ⟨n, row⟩ := r
    obtain ⟨l, hl⟩ := Option.ne_none_iff_exists'.mp hne
    obtain ⟨m, hm, rfl, -, rfl⟩ := (mem_netRows hnodup).mp hr
    obtain ⟨m', hm', hnet, hmy⟩ := h.mem_ids hinv hl
    obtain rfl := List.inj_on_of_nodup_map hnodup hm' hm hnet
    exact hmy.trans hl.symm

/-- The next call of a build reads, or keeps the labels. -/
theorem Rebuilds.next {b : BuildCall} {r : Req} {k : r.Resp → Client Unit} {x : r.Resp}
    (h : Rebuilds L b (.call r k)) (hex : exec ord s r x s')
    (hL : ∀ n l, L n = some l → s.label n = some l) :
    Rebuilds L b (k x) ∧ (s' = s ∨ r.KeepsLabels L) := by
  have hread : ∀ building, Lists ord.building building s.building → ReadLabels L building := by
    intro building hb
    refine ⟨hb.nodup, fun n l hl => ?_⟩
    obtain ⟨y, hy, hmy⟩ := Option.bind_eq_some_iff.mp (hL n l hl)
    exact ⟨y, (hb.mem_iff n y).mpr hy, hmy⟩
  rcases h.inv hex hread with ⟨rfl, -, -, hk⟩ | ⟨rfl, -, building, history, reports, hb, hr, hlast⟩
    | hw
  · exact ⟨hk, .inl rfl⟩
  · refine ⟨.writing ?_, .inl rfl⟩
    rw [hlast.after]
    refine Prog.Always.bind ?_ fun _ => trivial
    have hfin : Finishes b.cfg b.clock building history reports _ := finishes hr.nodup
    generalize finishPipeline b.cfg b.clock building (loadHistory history)
      (fetchNewReports reports) = q at hfin
    rcases hfin with _ | e | @⟨folded, st, hst, hinv⟩
    · trivial
    · trivial
    · exact hb.always_writeBack hinv
  · exact ⟨.writing (hw.2 x), .inr hw.1⟩

/-- A build that has yet to read, or has no write of the net left, keeps a new label of it. -/
theorem Rebuilds.relabelled {b : BuildCall} {q : Client Unit} {n : ℤ} (h : Rebuilds L b q)
    (hq : q = b.prog ∨ q.Always (Req.Avoids n)) (hL : ∀ m, m ≠ n → L' m = L m) :
    Rebuilds L' b q := by
  rcases hq with rfl | hq
  · exact .start
  · rcases h with _ | _ | _ | hw
    · exact .start
    · exact hq.1.elim
    · exact hq.1.elim
    · refine .writing ((hw.and hq).mono fun r hr => ?_)
      obtain ⟨hkeep, havoid⟩ := hr
      rcases r with _ | _ | _ | _ | _ | ⟨m, row⟩ | _ | m | _ | _ | _ | _ | _ | _
      case buildingInsert =>
        intro hm
        rw [hL m havoid] at hm ⊢
        exact hkeep hm
      case buildingDelete => exact (hL m havoid).trans hkeep
      case historyInsert => trivial
      all_goals exact hkeep.elim

/-- A write that keeps the labels of the nets there were. -/
theorem labelIn_apply {r : Req} (hl : ∀ n, s₀.building n ≠ none → s.label n ≠ none)
    (hr : r.KeepsLabels (s₀.labelIn s)) : s₀.labelIn (s.apply r) = s₀.labelIn s := by
  funext m
  by_cases hm : s₀.building m = none
  · unfold Store.labelIn
    rw [hm]
    rfl
  · rw [labelIn_of_ne_none hm, labelIn_of_ne_none hm]
    rcases r with _ | _ | _ | _ | _ | ⟨n, row⟩ | _ | n | _ | _ | _ | _ | _ | _
    case buildingInsert =>
      show (s.building.upsert n row m).bind _ = _
      rw [Table.upsert_apply]
      split
      · next he =>
        subst he
        have hne := hl m hm
        rw [← labelIn_of_ne_none hm] at hne ⊢
        exact hr hne
      · rfl
    case buildingDelete =>
      show (s.building.delete n m).bind _ = _
      -- a net that is deleted had no label, and those there were have one
      rw [Table.delete_apply, if_neg]
      · rfl
      · intro he
        subst he
        exact hl m hm ((labelIn_of_ne_none hm).symm.trans hr)
    case historyInsert => rfl
    all_goals exact hr.elim

theorem candidates_apply {r : Req} (hr : r.KeepsLabels L) :
    (s.apply r).candidates = s.candidates := by
  rcases r <;> first | rfl | exact hr.elim

/-- A write of a build leaves alone what the decision relies on. -/
theorem Merging.built {d : DecisionCall} {pt : DecisionPoint} {r : Req} (h : Merging s₀ d pt s)
    (hr : r.KeepsLabels (s₀.labelIn s)) : Merging s₀ d pt (s.apply r) := by
  have hL := labelIn_apply h.labelled hr
  have hc := candidates_apply (s := s) hr
  refine ⟨fun n hn => ?_, fun k hk => h.tracked k (hc ▸ hk), fun hu => hc ▸ h.recorded hu,
    hL ▸ h.sound, fun a b hab => ?_⟩
  · rw [← labelIn_of_ne_none hn, hL, labelIn_of_ne_none hn]
    exact h.labelled n hn
  · rw [hL]
    refine h.joined a b ?_
    unfold Approved at hab ⊢
    rwa [hc] at hab

end

/-! ## Builds and a commander -/

/-- Decisions made one after another. -/
def decideAll : List DecisionCall → Client Unit
  | [] => return ()
  | d :: ds => do
    let _ ← d.prog
    decideAll ds

section
variable {κ : Type}

/-- The commander, and the builds. -/
def server (builds : κ → BuildCall) (ds : List DecisionCall) : Option κ → Client Unit
  | none => decideAll ds
  | some k => (builds k).prog

/-- If the commander is about to read a group, one scan reads all of it; if it is about to move a
net, each build has read nothing yet, or has only writes left and none of that net. -/
def movesAlone (builds : κ → BuildCall) (σ : Sys Store (Option κ) (Client Unit))
    (i : Option κ) : Prop :=
  i = none →
    (∀ hi limit, (σ.client none).next? = some (.buildingFind hi limit) → GroupFits σ.store hi) ∧
      ∀ n my now, (σ.client none).next? = some (.buildingUpdate n my now) →
        ∀ k, σ.client (some k) = (builds k).prog ∨ (σ.client (some k)).Always (Req.Avoids n)

/-- What holds along the interleaving. -/
structure MergesSurvive (s₀ : Store) (builds : κ → BuildCall)
    (σ : Sys Store (Option κ) (Client Unit)) : Prop where
  commander : ∃ d pt rest, σ.client none = ((pt.prog d) >>= fun _ => decideAll rest) ∧
    Merging s₀ d pt σ.store
  builds : ∀ k, Rebuilds (s₀.labelIn σ.store) (builds k) (σ.client (some k))

end

section
variable {s₀ s : Store} {r : Req} {k : r.Resp → Client Unit}

/-- A commander with a call to make is in the middle of a decision. -/
theorem Merging.commander_next {rest : List DecisionCall} {d : DecisionCall} {pt : DecisionPoint}
    (h : Merging s₀ d pt s) (hprog : ((pt.prog d) >>= fun _ => decideAll rest) = .call r k) :
    ∃ d' pt' rest' k', Merging s₀ d' pt' s ∧ pt'.prog d' = .call r k' ∧
      k = fun x => k' x >>= fun _ => decideAll rest' := by
  induction rest generalizing d pt with
  | nil =>
    rcases Prog.bind_eq_call hprog with ⟨_, -, hc⟩ | ⟨k', hk, rfl⟩
    · exact nomatch hc
    · exact ⟨d, pt, [], k', h, hk, rfl⟩
  | cons d' rest ih =>
    rcases Prog.bind_eq_call hprog with ⟨res, hret, hc⟩ | ⟨k', hk, rfl⟩
    · exact ih (h.restart (by rw [hret]; rfl) d') hc
    · exact ⟨d, pt, d' :: rest, k', h, hk, rfl⟩

variable {ord : ReadOrder} {κ : Type} [DecidableEq κ] {builds : κ → BuildCall}
  {ds : List DecisionCall} {σ : Sys Store (Option κ) (Client Unit)} {s' : Store} {x : r.Resp}

/-- The commander's next call. -/
theorem MergesSurvive.decide (h : MergesSurvive s₀ builds σ) (hc : σ.client none = .call r k)
    (hex : exec ord σ.store r x s') (hG : movesAlone builds σ none) :
    MergesSurvive s₀ builds ⟨s', Function.update σ.client none (k x)⟩ := by
  obtain ⟨hscan, hmove⟩ := hG rfl
  rw [hc] at hscan hmove
  obtain ⟨d₀, pt₀, rest₀, hprog, hm₀⟩ := h.commander
  obtain ⟨d, pt, rest, k', hm, hcall, rfl⟩ := hm₀.commander_next (hprog.symm.trans hc)
  obtain ⟨pt', hk, hstep⟩ := decision_next hcall hex
  have hnext := hm.decide hstep fun hi lo hpt => by
    rw [hpt] at hcall
    obtain ⟨⟩ := hcall
    exact hscan hi groupLimit rfl
  refine ⟨⟨d, pt', rest, ?_, hnext⟩, fun j => ?_⟩
  · show Function.update σ.client none (k' x >>= fun _ => decideAll rest) none = _
    rw [Function.update_self, hk]
  · show Rebuilds (s₀.labelIn s') (builds j)
      (Function.update σ.client none (k' x >>= fun _ => decideAll rest) (some j))
    rw [Function.update_of_ne (Option.some_ne_none j)]
    -- the commander changes a label only where it moves a row
    by_cases hmoving : ∃ hi lo count r rest, pt = .moving hi lo count (r :: rest)
    · obtain ⟨hi, lo, count, r', rest', rfl⟩ := hmoving
      obtain ⟨-, rfl⟩ := hstep.moved_inv
      obtain ⟨⟩ := hcall
      refine (h.builds j).relabelled (hmove r'.1 lo d.now rfl j) fun m hne => ?_
      by_cases hr : s₀.building r'.1 = none
      · rw [labelIn_building_update_none hr]
      · rw [labelIn_building_update hr, if_neg hne]
    · have hlabel : s'.label = σ.store.label := hstep.label_eq
        fun hi lo count r rest he => hmoving ⟨hi, lo, count, r, rest, he⟩
      unfold Store.labelIn
      rw [hlabel]
      exact h.builds j

/-- The next call of a build. -/
theorem MergesSurvive.build (h : MergesSurvive s₀ builds σ) {j : κ}
    (hc : σ.client (some j) = .call r k) (hex : exec ord σ.store r x s') :
    MergesSurvive s₀ builds ⟨s', Function.update σ.client (some j) (k x)⟩ := by
  obtain ⟨d, pt, rest, hprog, hm⟩ := h.commander
  have hj := h.builds j
  rw [hc] at hj
  obtain ⟨hk, hs⟩ := hj.next hex fun n l hl => (labelIn_eq_some_iff.mp hl).2
  have hL : s₀.labelIn s' = s₀.labelIn σ.store := by
    rcases hs with rfl | hr
    · rfl
    · rw [hex.2]
      exact labelIn_apply hm.labelled hr
  refine ⟨⟨d, pt, rest, ?_, ?_⟩, fun i => ?_⟩
  · show Function.update σ.client (some j) (k x) none = _
    rw [Function.update_of_ne (Option.some_ne_none j).symm, hprog]
  · rcases hs with rfl | hr
    · exact hm
    · rw [hex.2]
      exact hm.built hr
  · show Rebuilds (s₀.labelIn s') (builds i) (Function.update σ.client (some j) (k x) (some i))
    rw [hL]
    by_cases hij : i = j
    · subst hij
      rw [Function.update_self]
      exact hk
    · rw [Function.update_of_ne fun he => hij (Option.some.inj he)]
      exact h.builds i

/-- Every pair that is approved in a reachable store is one of nets that are there. -/
theorem candidates_tracked {G : Guard} (hs : Reached ord G .empty s) {k : PairKey}
    (hk : s.candidates k ≠ none) : s.building k.1 ≠ none ∧ s.building k.2 ≠ none := by
  obtain ⟨past, hs⟩ := hs
  have hl := Reached.labelled ⟨past, hs⟩
  obtain ⟨c, hc⟩ := Option.ne_none_iff_exists'.mp hk
  obtain ⟨snapshot, -, ⟨t, ht, ha⟩, ⟨u, hu, hb⟩⟩ := hs.witnessed.snapshots k c hc
  have hrow : ∀ {n v l}, v ∈ s :: past → v.label n = some l → s.building n ≠ none := by
    intro n v l hv hl'
    rw [Ne, ← hl.label_eq_none_iff]
    exact hs.label_ne_none hv (by rw [hl']; exact Option.some_ne_none l)
  exact ⟨hrow ht ha, hrow hu hb⟩

omit [DecidableEq κ] in
/-- What holds at the start. -/
theorem mergesSurvive_start {G : Guard} (hs : Reached ord G .empty s)
    (hjoined : ∀ a b, Approved s a b → Shares s.label a b) :
    MergesSurvive s builds ⟨s, server builds ds⟩ := by
  have hl := hs.labelled
  refine ⟨⟨⟨0, 0, .reject, 0⟩, .done { netA := 0, netB := 0, decision := .reject }, ds, rfl, ?_⟩,
    fun _ => .start⟩
  refine ⟨fun n hn => ?_, fun k hk => candidates_tracked hs hk, False.elim, trivial,
    fun a b hab => .inl ?_⟩
  · rwa [Ne, hl.label_eq_none_iff]
  · obtain ⟨l, ha, hb⟩ := hjoined a b hab
    have hrow : ∀ n, s.label n = some l → s.labelIn s n = some l := by
      intro n hn
      refine labelIn_eq_some_iff.mpr ⟨fun hnone => ?_, hn⟩
      rw [(hl.label_eq_none_iff n).mpr hnone] at hn
      exact nomatch hn
    exact ⟨l, hrow a ha, hrow b hb⟩

/-- Where no row is relabelled under a build that is to write it back, the nets of every approved
pair carry one label when all calls have ended. -/
theorem approved_merges_survive {G : Guard} (hs : Reached ord G .empty s)
    (hjoined : ∀ a b, Approved s a b → Shares s.label a b)
    (h : Sys.Reaches (exec ord) (movesAlone builds) ⟨s, server builds ds⟩ σ)
    (hend : ∀ i, (σ.client i).Done) :
    ∀ a b, Approved σ.store a b →
      ∃ my, σ.store.label a = some my ∧ σ.store.label b = some my := by
  have hsurvive : MergesSurvive s builds σ := by
    refine h.invariant (I := MergesSurvive s builds) (fun τ i τ' hI hG hstep => ?_)
      (mergesSurvive_start hs hjoined)
    rcases hstep with @⟨r, k, x, s', hc, hex⟩
    rcases i with _ | j
    · exact hI.decide hc hex hG
    · exact hI.build hc hex
  intro a b hab
  obtain ⟨d, pt, rest, hprog, hm⟩ := hsurvive.commander
  obtain ⟨_, hdone⟩ := hend none
  obtain ⟨res, hret, -⟩ := Prog.bind_eq_ret (hprog.symm.trans hdone)
  obtain ⟨my, ha, hb⟩ := hm.shares (by rw [hret]; rfl) hab
  exact ⟨my, (labelIn_eq_some_iff.mp ha).2, (labelIn_eq_some_iff.mp hb).2⟩

end

/-! ## An approval during a build -/

/-- What a build over two reports writes, and a later one over the same reports. -/
def twicePlan : Except PyError (BuildPlan × BuildPlan) := do
  let p ← buildPlan {} (.still 1) [] [] (threeReports.take 2)
  let p' ← buildPlan {} (.still 3) p.rows p.added (threeReports.take 2)
  pure (p, p')

/-- The later one writes both rows again as they were. -/
theorem exists_twice {p : BuildPlan}
    (hp : buildPlan {} (.still 1) [] [] (threeReports.take 2) = .ok p) :
    ∃ p' x₁ x₂, buildPlan {} (.still 3) p.rows p.added (threeReports.take 2) = .ok p' ∧
      p'.rows = [(100001, x₁), (100002, x₂)] ∧ x₁.myNetId = some 1 ∧ x₂.myNetId = some 2 := by
  have hplan : twicePlan.map (fun x => x.2.rows.map fun r => (r.1, r.2.myNetId))
      = .ok [(100001, some 1), (100002, some 2)] := by
    decide +kernel
  obtain ⟨⟨p₁, p'⟩, hx, hv⟩ := Except.map_eq_ok_iff.mp hplan
  obtain ⟨p₂, hp₂, hx₁⟩ := Except.bind_eq_ok_iff.mp hx
  obtain ⟨p₃, hp₃, hx₂⟩ := Except.bind_eq_ok_iff.mp hx₁
  obtain ⟨rfl, rfl⟩ := Prod.mk.inj (Except.ok.inj hx₂)
  obtain rfl := Except.ok.inj (hp₂.symm.trans hp)
  dsimp only at hv
  obtain ⟨⟨n₁, x₁⟩, l₁, hl₁, hr₁, hnets₁⟩ := List.map_eq_cons_iff.mp hv
  obtain ⟨⟨n₂, x₂⟩, rfl, hr₂⟩ := List.map_eq_singleton_iff.mp hnets₁
  obtain ⟨rfl, h₁⟩ := Prod.mk.inj hr₁
  obtain ⟨rfl, h₂⟩ := Prod.mk.inj hr₂
  exact ⟨p₃, x₁, x₂, hp₃, hl₁, h₁, h₂⟩

section
variable {p p' : BuildPlan} {pairs : List (ℤ × ℤ × Reasons)}
  {added : List (PairKey × Candidate)}

/-- The approval of the two nets, whatever reports have arrived. -/
theorem Reuses.decided (h : Reuses p pairs added p') (reports : Table ReportKey Fields) :
    Decided .any { twoListed p added with report := reports } 100001 100002 2 .approve
      { secondMoved p added with report := reports } := by
  obtain ⟨x₁, x₂, hrows, h₁, h₂⟩ := h.nets
  obtain ⟨c, hc, hp⟩ := h.pair
  have hmem := h.enumerates.mem_iff
  have hcand : (twoListed p added).candidates (100001, 100002) = some c := by
    show (Table.empty : Table PairKey Candidate).upsertAll added _ = _
    rw [hc]
    exact Table.upsertAll_of_mem _ (List.nodup_singleton _) List.mem_cons_self
  have hx : (twoListed p added).building 100001 = some x₁ :=
    (hmem _ _).mp (by rw [hrows]; simp)
  have hy : (twoListed p added).building 100002 = some x₂ :=
    (hmem _ _).mp (by rw [hrows]; simp)
  have hread : Lists ReadOrder.any.building p.rows (twoListed p added).building :=
    lists_any h.enumerates
  have happroves : Approves .any { twoListed p added with report := reports } 100001 100002 2 _ :=
    .moved hx hy h₁ h₂ (by decide) hread
  exact .approve hcand hp happroves

end

/-- The approval of the first two nets. -/
def firstApproval : DecisionCall := ⟨100001, 100002, .approve, 2⟩

/-- A build. -/
def laterBuild : Unit → BuildCall := fun _ => ⟨{}, (.still 3)⟩

/-- The build has read the nets when the approval moves one, and puts the old label back. -/
theorem merge_undone_by_build :
    ∃ s σ, Reached .any completeCalls .empty s ∧
      Sys.Reaches (exec .any) (fun _ _ => True) ⟨s, server laterBuild [firstApproval]⟩ σ ∧
      (∀ i, (σ.client i).Done) ∧ Approved σ.store 100001 100002 ∧
      σ.store.label 100001 ≠ σ.store.label 100002 := by
  obtain ⟨p, pairs, added, p', h⟩ := exists_reuses
  obtain ⟨p₂, x₁, x₂, hp₂, hrows, h₁, h₂⟩ := exists_twice h.first
  obtain ⟨past, hs⟩ := h.listed
  have hnets : Lists ReadOrder.any.building p.rows (twoListed p added).building :=
    lists_any h.enumerates
  have hhist : Lists ReadOrder.any.history p.added (twoListed p added).history :=
    lists_any (Table.enumerates_upsertAll h.history)
  have hreports : Lists ReadOrder.any.report (threeReports.take 2) (twoListed p added).report :=
    lists_ofReports (by decide)
  -- the build, up to its first write
  have hreads : Steps (exec .any) (twoListed p added) (laterBuild ()).prog (twoListed p added)
      (finishPipeline {} (.still 3) p.rows (loadHistory p.added)
        (fetchNewReports (threeReports.take 2)) >>= fun _ => .ret ()) :=
    .call ⟨hnets, rfl⟩ (.call ⟨hhist, rfl⟩ (.call ⟨hreports, rfl⟩ (.refl _ _)))
  obtain ⟨res, happrove⟩ := (h.decided (twoListed p added).report).run (by decide)
  have happroves : Steps (exec .any) (twoListed p added) (decideAll [firstApproval])
      (secondMoved p added) (.ret ()) := happrove.steps.bind fun _ => decideAll []
  -- the build goes on with what it has read
  have hwrites : Steps (exec .any) (secondMoved p added) _ _ _ :=
    (run_finishPipeline_of_buildPlan (by decide) hp₂).steps.bind fun _ => .ret ()
  have hσ : Sys.Reaches (exec .any) (fun _ _ => True)
      ⟨twoListed p added, server laterBuild [firstApproval]⟩ _ :=
    ((Sys.Reaches.steps .refl (some ()) hreads).steps none happroves).steps (some ()) hwrites
  have hkeys : (p₂.rows.map Prod.fst).Nodup := by
    rw [hrows]
    show [(100001 : ℤ), 100002].Nodup
    decide
  have hlabel : ∀ n x l, (n, x) ∈ p₂.rows → x.myNetId = some l →
      ((secondMoved p added).afterBuild p.rows p₂).label n = some l := by
    intro n x l hx hl
    refine (Store.label_of_eq_some ?_).trans hl
    exact Table.upsertAll_of_mem _ hkeys hx
  refine ⟨_, _, ⟨past, hs⟩, hσ, fun i => ?_, ?_, ?_⟩
  · rcases i with _ | _
    · exact ⟨_, rfl⟩
    · exact ⟨_, rfl⟩
  · exact (approved_settle 100001 100002).mpr (.inl ⟨rfl, rfl⟩)
  · rw [hlabel 100001 x₁ 1 (by rw [hrows]; simp) h₁, hlabel 100002 x₂ 2 (by rw [hrows]; simp) h₂]
    decide

/-- What a decision that is alone has changed in the store `s`. -/
def DecisionPoint.Alone (s t : Store) : DecisionPoint → Prop
  | .moving _ _ _ _ => t.candidates = s.candidates
  | .done _ => True
  | _ => t = s

theorem DecisionStep.alone {ord : ReadOrder} {d : DecisionCall} {s t t' : Store}
    {pt pt' : DecisionPoint} (h : DecisionStep ord d t pt pt' t') (hpt : pt.Alone s t) :
    pt'.Alone s t' := by
  rcases h with _ | _ | _ | _ | _ | _ | _ | _ | _ | _ | _ | _
  case rejected => trivial
  case joined => trivial
  case approved => trivial
  case scanned => exact congrArg Store.candidates hpt
  all_goals exact hpt

/-- A commander that is alone and whose group fits moves nothing under a build. -/
theorem movesAlone_of_alone {s t : Store} {d : DecisionCall} {pt : DecisionPoint} {κ : Type}
    [DecidableEq κ] {builds : κ → BuildCall} {ds : List DecisionCall} (hfit : GroupsFit s)
    (h : pt.Alone s t) :
    movesAlone builds
      ⟨t, Function.update (server builds ds) none (pt.prog d >>= fun _ => .ret ())⟩ none := by
  refine fun _ => ⟨fun hi limit hnext => ?_, fun _ _ _ _ k => .inl ?_⟩
  · change (Function.update (server builds ds) none (pt.prog d >>= fun _ => .ret ()) none).next? = _
      at hnext
    rw [Function.update_self] at hnext
    -- the group is read before anything is written
    have ht : t = s := by
      rcases pt with _ | _ | _ | _ | _ | _ | ⟨_, _, _, _ | _⟩ | res | _
      case moving.nil => exact nomatch hnext
      case moving.cons => exact nomatch hnext
      case done => exact nomatch hnext
      all_goals exact h
    rw [ht]
    exact hfit hi
  · show Function.update (server builds ds) none (pt.prog d >>= fun _ => .ret ()) (some k) = _
    exact Function.update_of_ne (Option.some_ne_none k) ..

/-- The approval comes before the build, which keeps the new label. -/
theorem approved_merges_survive_twoNets :
    ∃ s σ, Reached .any completeCalls .empty s ∧
      Sys.Reaches (exec .any) (movesAlone laterBuild) ⟨s, server laterBuild [firstApproval]⟩ σ ∧
      s.label 100001 ≠ s.label 100002 ∧ Approved σ.store 100001 100002 ∧
      ∃ my, σ.store.label 100001 = some my ∧ σ.store.label 100002 = some my := by
  obtain ⟨p, pairs, added, p', h⟩ := exists_reuses
  obtain ⟨past, hlisted⟩ := h.listed
  -- the third report has arrived
  have hs : Reached .any completeCalls .empty
      { twoListed p added with report := (Store.ofReports threeReports).report } :=
    ⟨_, .call hlisted (c := .insertReport _ _) ⟨⟨_, rfl⟩, trivial⟩
      (run_insertReport_iff.mpr ⟨rfl, rfl⟩)⟩
  have hfew : FewNets { twoListed p added with report := (Store.ofReports threeReports).report } :=
    ⟨p.rows, h.enumerates, h.length_le⟩
  obtain ⟨res, happrove⟩ := (h.decided (Store.ofReports threeReports).report).run (by decide)
  have happroves := Sys.reaches_of_steps (i := none) (G := movesAlone laterBuild)
    (J := fun t q => ∃ pt : DecisionPoint, q = (pt.prog firstApproval >>= fun _ => .ret ()) ∧
      pt.Alone { twoListed p added with report := (Store.ofReports threeReports).report } t)
    (c := server laterBuild [firstApproval]) (happrove.steps.bind fun _ => .ret ())
    ⟨.start, rfl, rfl⟩ ?_ ?_ rfl
  · have hnets : Lists ReadOrder.any.building (secondAbsorbed p.rows)
        (secondMoved p added).building := lists_any
      (enumerates_move h.enumerates 1 2 (building_ne_none_of_mem_scanned h.enumerates))
    have hhist : Lists ReadOrder.any.history p.added (secondMoved p added).history :=
      lists_any (Table.enumerates_upsertAll h.history)
    have hbuild : Run (exec .any)
        { secondMoved p added with report := (Store.ofReports threeReports).report }
        (runPipeline {} (.still 3)) _ (.ok ⟨3, p'.tally, p'.nets⟩) :=
      run_of_buildPlan hnets hhist (lists_ofReports (by decide)) (by decide) h.last
    have hbuilds := Sys.reaches_of_steps (i := some ()) (G := movesAlone laterBuild)
      (J := fun _ _ => True) (c := Function.update (server laterBuild [firstApproval]) none
        (.ret ())) (hbuild.steps.bind fun _ => .ret ()) trivial (fun _ _ _ _ _ _ _ => trivial)
      (fun _ _ _ hi => nomatch hi) rfl
    have hσ := Relation.ReflTransGen.trans happroves hbuilds
    refine ⟨_, _, hs, hσ, ?_, (approved_settle 100001 100002).mpr (.inl ⟨rfl, rfl⟩), ?_⟩
    · show (twoListed p added).label _ ≠ (twoListed p added).label _
      rw [(h.label_iff 100001 1).mpr (.inl ⟨rfl, rfl⟩),
        (h.label_iff 100002 2).mpr (.inr ⟨rfl, rfl⟩)]
      decide
    · refine approved_merges_survive hs (fun _ _ => hs.shares) hσ (fun i => ?_) 100001 100002
        ((approved_settle 100001 100002).mpr (.inl ⟨rfl, rfl⟩))
      rcases i with _ | _
      · exact ⟨_, rfl⟩
      · exact ⟨_, rfl⟩
  · intro t r k x t' hJ hex
    obtain ⟨pt, hpt, halone⟩ := hJ
    rcases Prog.bind_eq_call hpt.symm with ⟨_, -, hc⟩ | ⟨k', hk, rfl⟩
    · exact nomatch hc
    · obtain ⟨pt', hk', hnext⟩ := decision_next hk hex
      exact ⟨pt', by rw [← hk'], hnext.alone halone⟩
  · intro t q hJ
    obtain ⟨pt, rfl, halone⟩ := hJ
    exact movesAlone_of_alone hfew.groupsFit halone

end NetBuild
