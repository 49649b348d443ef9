import NetBuild.DecisionSteps
import NetBuild.MergeGroups

/-!
# Groups on the move

What holds of the labels while decisions are under way, one repository call at a time: a
decision relies on the labels it has read, and while it moves a group, the nets of an approved
pair may carry two labels, the one moved away from and the one moved to. `MergesHold.decide` is
the step lemma for one call of one decision.
-/

namespace NetBuild

open NetMerging NetMergingService Labelling

/-! ## What a decision relies on -/

/-- The net was moved to the group `lo`, or is one of those still to be moved. -/
def OnTheWay (L : ℤ → Option ℤ) (lo : ℤ) (rest : List (ℤ × Net)) (n : ℤ) : Prop :=
  L n = some lo ∨ n ∈ rest.map Prod.fst

/-- The labels are still those that the decision on the pair `k` has read. -/
def DecisionPoint.Sound (L : ℤ → Option ℤ) (k : PairKey) : DecisionPoint → Prop
  | .readB rowA => ∀ x, rowA = some x → ∃ my, x.myNetId = some my ∧ L k.1 = some my
  | .joining my => ∃ l, my = some l ∧ L k.1 = some l ∧ L k.2 = some l
  | .scanning hi lo => lo < hi ∧ Ends L k.1 k.2 hi lo
  | .moving hi lo _ rest =>
    lo < hi ∧ (rest.map Prod.fst).Nodup ∧ (∀ n ∈ rest.map Prod.fst, L n = some hi) ∧
      (rest ≠ [] → ∀ n, L n = some hi → n ∈ rest.map Prod.fst) ∧
      OnTheWay L lo rest k.1 ∧ OnTheWay L lo rest k.2
  | _ => True

/-- The decision has read this label of a net and relies on it. -/
def DecisionPoint.Relies (l : ℤ) : DecisionPoint → Prop
  | .readB rowA => ∃ x, rowA = some x ∧ x.myNetId = some l
  | .joining my => my = some l
  | .scanning hi lo | .moving hi lo _ _ => l = hi ∨ l = lo
  | _ => False

/-- The decision has read which nets carry this label, to move them. -/
def DecisionPoint.Absorbs (l : ℤ) : DecisionPoint → Prop
  | .moving hi _ _ _ => l = hi
  | _ => False

/-- The two nets carry one label. -/
def Shares (L : ℤ → Option ℤ) (a b : ℤ) : Prop := ∃ l, L a = some l ∧ L b = some l

section
variable {ι : Type}

/-- The two nets carry one label, or will when a decision under way has moved its group. -/
def Joined (L : ℤ → Option ℤ) (pts : ι → DecisionPoint) (a b : ℤ) : Prop :=
  Shares L a b ∨ ∃ i hi lo count rest, pts i = .moving hi lo count rest ∧
    OnTheWay L lo rest a ∧ OnTheWay L lo rest b

/-- What holds while decisions are under way. -/
structure MergesHold (calls : ι → DecisionCall) (pts : ι → DecisionPoint) (s : Store) : Prop where
  labelled : Labelled s
  sound : ∀ i, (pts i).Sound s.label (calls i).key
  joined : ∀ a b, Approved s a b → Joined s.label pts a b

end

/-! ## One call -/

section
variable {ord : ReadOrder} {d : DecisionCall} {s s' : Store} {pt pt' : DecisionPoint}

theorem label_building_update (s : Store) (n my : ℤ) (now : Time) (m : ℤ) :
    (s.apply (.buildingUpdate n my now)).label m = if m = n then some my else s.label m := by
  rw [← move_singleton, label_move]
  simp only [List.mem_singleton]

/-- A net that was moved or is to be moved is so after the next move. -/
theorem OnTheWay.moved {L L' : ℤ → Option ℤ} {lo n : ℤ} {r : ℤ × Net} {rest : List (ℤ × Net)}
    (hL : ∀ m, L' m = if m = r.1 then some lo else L m) (h : OnTheWay L lo (r :: rest) n) :
    OnTheWay L' lo rest n := by
  unfold OnTheWay
  rw [hL]
  split
  · exact .inl rfl
  · next hne =>
    rcases h with h | h
    · exact .inl h
    · rw [List.map_cons, List.mem_cons] at h
      exact .inr (h.resolve_left hne)

section
variable {L L' : ℤ → Option ℤ} {k : PairKey}

/-- The two labels read are those of the pair's nets. -/
theorem DecisionPoint.Sound.differ {x : Net} {myA myB : ℤ}
    (h : (DecisionPoint.readB (some x)).Sound L k) (hA : x.myNetId = some myA)
    (hB : L k.2 = some myB) (hne : myA ≠ myB) :
    (DecisionPoint.scanning (max myA myB) (min myA myB)).Sound L k := by
  obtain ⟨my, hmy, hlabel⟩ := h x rfl
  exact ⟨by omega, ends_max_min (hlabel.trans (hmy.symm.trans hA)) hB⟩

/-- The whole group is on the way. -/
theorem DecisionPoint.Sound.scanned {hi lo : ℤ} {count : ℕ} {rest : List (ℤ × Net)}
    (h : (DecisionPoint.scanning hi lo).Sound L k) (hn : (rest.map Prod.fst).Nodup)
    (hmem : ∀ n, n ∈ rest.map Prod.fst ↔ L n = some hi) :
    (DecisionPoint.moving hi lo count rest).Sound L k := by
  obtain ⟨hlt, hends⟩ := h
  refine ⟨hlt, hn, fun n hn => (hmem n).mp hn, fun _ n hn => (hmem n).mpr hn, ?_, ?_⟩
  · rcases (hends.label_eq_iff _).mp (.inl rfl) with ha | ha
    · exact .inr ((hmem _).mpr ha)
    · exact .inl ha
  · rcases (hends.label_eq_iff _).mp (.inr rfl) with hb | hb
    · exact .inr ((hmem _).mpr hb)
    · exact .inl hb

/-- The first row on the way was moved. -/
theorem DecisionPoint.Sound.moved {hi lo : ℤ} {count : ℕ} {r : ℤ × Net} {rest : List (ℤ × Net)}
    (h : (DecisionPoint.moving hi lo count (r :: rest)).Sound L k)
    (hL : ∀ m, L' m = if m = r.1 then some lo else L m) :
    (DecisionPoint.moving hi lo count rest).Sound L' k := by
  obtain ⟨hlt, hnodup, hhi, hall, ha, hb⟩ := h
  rw [List.map_cons, List.nodup_cons] at hnodup
  refine ⟨hlt, hnodup.2, fun n hn => ?_, fun hne n hn => ?_, ha.moved hL, hb.moved hL⟩
  · have hnr : n ≠ r.1 := fun he => hnodup.1 (he ▸ hn)
    rw [hL, if_neg hnr]
    exact hhi n (List.mem_cons_of_mem _ hn)
  · rw [hL] at hn
    split at hn
    · have := Option.some.inj hn
      omega
    · next hnr =>
      have := hall (List.cons_ne_nil _ _) n hn
      rw [List.map_cons, List.mem_cons] at this
      exact this.resolve_left hnr

end

/-- A call that is no move keeps the labels. -/
theorem DecisionStep.label_eq (h : DecisionStep ord d s pt pt' s')
    (hmove : ∀ hi lo count r rest, pt ≠ .moving hi lo count (r :: rest)) :
    s'.label = s.label := by
  rcases h with _ | _ | _ | _ | _ | _ | _ | _ | _ | _ | ⟨hi, lo, count, r, rest⟩ | _
  case moved => exact absurd rfl (hmove hi lo count r rest)
  all_goals rfl

theorem DecisionStep.labelled (h : DecisionStep ord d s pt pt' s') (hs : Labelled s) :
    Labelled s' := by
  rcases h with _ | _ | _ | _ | _ | _ | _ | _ | _ | _ | ⟨hi, lo, count, r, rest⟩ | _
  case moved =>
    rw [← move_singleton]
    exact hs.move lo d.now [r.1]
  all_goals exact hs

/-- The labels a decision has read are those there are, and it keeps them so itself. -/
theorem DecisionStep.sound (h : DecisionStep ord d s pt pt' s') (hs : Labelled s)
    (hfit : ∀ hi lo, pt = .scanning hi lo → GroupFits s hi) (hpt : pt.Sound s.label d.key) :
    pt'.Sound s'.label d.key := by
  rcases h with _ | _ | _ | _ | _ | _ | @⟨x, y, hy, hsame⟩ | @⟨x, y, myA, myB, hy, hA, hB, hne⟩ |
    _ | @⟨hi, lo, all, hall⟩ | ⟨hi, lo, count, r, rest⟩ | _
  case readA =>
    intro x hx
    obtain ⟨my, hmy⟩ := Option.ne_none_iff_exists'.mp (hs _ x hx)
    exact ⟨my, hmy, (Store.label_of_eq_some hx).trans hmy⟩
  case same =>
    obtain ⟨my, hmy, hlabel⟩ := hpt x rfl
    exact ⟨my, hmy, hlabel, (Store.label_of_eq_some hy).trans (hsame.symm.trans hmy)⟩
  case differ => exact hpt.differ hA ((Store.label_of_eq_some hy).trans hB) hne
  case scanned =>
    refine hpt.scanned ?_ fun n => ⟨fun hn => label_of_mem_scanned hall hn,
      (groupFits_iff hall hi).mp (hfit hi lo rfl) n⟩
    exact hall.nodup.sublist (((List.take_sublist _ _).trans List.filter_sublist).map _)
  case moved => exact hpt.moved (label_building_update s r.1 lo d.now)
  all_goals trivial

end

/-! ## A call of another decision -/

section
variable {L L' : ℤ → Option ℤ} {hi lo n : ℤ}

/-- A move keeps every label other than the one it moves away from. -/
theorem label_of_move (hn : L n = some hi) (hL : ∀ m, L' m = if m = n then some lo else L m)
    {m l : ℤ} (hm : L m = some l) (hne : l ≠ hi) : L' m = some l := by
  have hmn : m ≠ n := by
    intro he
    rw [he, hn] at hm
    exact hne (Option.some.inj hm).symm
  rw [hL, if_neg hmn, hm]

/-- A move by another client leaves alone what a decision relies on. -/
theorem DecisionPoint.Sound.of_move {k : PairKey} {pt : DecisionPoint} (h : pt.Sound L k)
    (hn : L n = some hi) (hL : ∀ m, L' m = if m = n then some lo else L m)
    (hrel : ¬ pt.Relies hi) (habs : ¬ pt.Absorbs lo) : pt.Sound L' k := by
  have hkeep := fun {m l : ℤ} => label_of_move (m := m) (l := l) hn hL
  rcases pt with _ | _ | _ | rowA | my | ⟨hi', lo'⟩ | ⟨hi', lo', count, rest⟩ | _ | _
  case readB =>
    intro x hx
    obtain ⟨my, hmy, hlabel⟩ := h x hx
    exact ⟨my, hmy, hkeep hlabel fun he => hrel ⟨x, hx, he ▸ hmy⟩⟩
  case joining =>
    obtain ⟨l, rfl, ha, hb⟩ := h
    have hne : l ≠ hi := fun he => hrel (congrArg some he)
    exact ⟨l, rfl, hkeep ha hne, hkeep hb hne⟩
  case scanning =>
    obtain ⟨hlt, hends⟩ := h
    have hne₁ : hi' ≠ hi := fun he => hrel (.inl he.symm)
    have hne₂ : lo' ≠ hi := fun he => hrel (.inr he.symm)
    refine ⟨hlt, ?_⟩
    rcases hends with ⟨ha, hb⟩ | ⟨ha, hb⟩
    · exact .inl ⟨hkeep ha hne₁, hkeep hb hne₂⟩
    · exact .inr ⟨hkeep ha hne₂, hkeep hb hne₁⟩
  case moving =>
    obtain ⟨hlt, hnodup, hhi, hall, ha, hb⟩ := h
    have hne₁ : hi' ≠ hi := fun he => hrel (.inl he.symm)
    have hne₂ : lo' ≠ hi := fun he => hrel (.inr he.symm)
    have hway : ∀ m, OnTheWay L lo' rest m → OnTheWay L' lo' rest m := fun m hm =>
      hm.imp_left fun hm => hkeep hm hne₂
    refine ⟨hlt, hnodup, fun m hm => hkeep (hhi m hm) hne₁, fun hne m hm => ?_, hway _ ha,
      hway _ hb⟩
    rw [hL] at hm
    split at hm
    · exact absurd (Option.some.inj hm) habs
    · exact hall hne m hm
  all_goals trivial

variable {ι : Type} [DecidableEq ι] {pts : ι → DecisionPoint} {i : ι} {a b : ℤ}

/-- A decision that is not moving goes on. -/
theorem Joined.update (h : Joined L pts a b) (pt' : DecisionPoint)
    (hi : ∀ hi lo count rest, pts i ≠ .moving hi lo count rest) :
    Joined L (Function.update pts i pt') a b := by
  refine h.imp_right fun h => ?_
  obtain ⟨j, hi', lo', count, rest, hj, hab⟩ := h
  have hji : j ≠ i := by
    intro he
    subst he
    exact hi _ _ _ _ hj
  exact ⟨j, hi', lo', count, rest, by rwa [Function.update_of_ne hji], hab⟩

/-- A decision that has moved its group goes on. -/
theorem Joined.update_moved {count : ℕ} (h : Joined L pts a b) (pt' : DecisionPoint)
    (hpt : pts i = .moving hi lo count []) : Joined L (Function.update pts i pt') a b := by
  rcases h with h | ⟨j, hi', lo', count', rest, hj, ha, hb⟩
  · exact .inl h
  · by_cases hji : j = i
    · subst hji
      obtain ⟨-, rfl, -, rfl⟩ := DecisionPoint.moving.inj (hpt.symm.trans hj)
      -- with no row left, both nets carry the label moved to
      exact .inl ⟨lo, ha.resolve_right List.not_mem_nil, hb.resolve_right List.not_mem_nil⟩
    · exact .inr ⟨j, hi', lo', count', rest, by rwa [Function.update_of_ne hji], ha, hb⟩

/-- A decision moves a row of its group. -/
theorem Joined.move {count : ℕ} {r : ℤ × Net} {rest : List (ℤ × Net)} (h : Joined L pts a b)
    (hpt : pts i = .moving hi lo count (r :: rest)) (hr : L r.1 = some hi)
    (hall : ∀ n, L n = some hi → n ∈ (r :: rest).map Prod.fst)
    (hL : ∀ m, L' m = if m = r.1 then some lo else L m)
    (hrel : ∀ j, j ≠ i → ¬ (pts j).Relies hi) :
    Joined L' (Function.update pts i (.moving hi lo count rest)) a b := by
  rcases h with ⟨l, ha, hb⟩ | ⟨j, hi', lo', count', rest', hj, ha, hb⟩
  · by_cases hl : l = hi
    · rw [hl] at ha hb
      have hwa : OnTheWay L lo (r :: rest) a := .inr (hall a ha)
      have hwb : OnTheWay L lo (r :: rest) b := .inr (hall b hb)
      exact .inr ⟨i, hi, lo, count, rest, Function.update_self .., hwa.moved hL, hwb.moved hL⟩
    · exact .inl ⟨l, label_of_move hr hL ha hl, label_of_move hr hL hb hl⟩
  · right
    by_cases hji : j = i
    · subst hji
      obtain ⟨-, rfl, -, rfl⟩ := DecisionPoint.moving.inj (hpt.symm.trans hj)
      exact ⟨j, hi, lo, count, rest, Function.update_self .., ha.moved hL, hb.moved hL⟩
    · have hne : lo' ≠ hi := by
        intro he
        have := hrel j hji
        rw [hj] at this
        exact this (.inr he.symm)
      refine ⟨j, hi', lo', count', rest', by rwa [Function.update_of_ne hji], ?_, ?_⟩
      · exact ha.imp_left fun ha => label_of_move hr hL ha hne
      · exact hb.imp_left fun hb => label_of_move hr hL hb hne

end

/-! ## One call of one of many decisions -/

section
variable {ι : Type} [DecidableEq ι] {ord : ReadOrder} {calls : ι → DecisionCall}
  {pts : ι → DecisionPoint} {s s' : Store} {i : ι} {pt pt' : DecisionPoint}

theorem DecisionStep.moved_inv {d : DecisionCall} {hi lo : ℤ} {count : ℕ} {r : ℤ × Net}
    {rest : List (ℤ × Net)} (h : DecisionStep ord d s (.moving hi lo count (r :: rest)) pt' s') :
    pt' = .moving hi lo count rest ∧ s' = s.apply (.buildingUpdate r.1 lo d.now) := by
  rcases h
  exact ⟨rfl, rfl⟩

/-- The next call of a decision keeps what the decisions rely on, if no other one relies on the
label it moves a net away from, or has read the group it moves the net to. -/
theorem MergesHold.sound_next (h : MergesHold calls pts s)
    (hstep : DecisionStep ord (calls i) s (pts i) pt' s')
    (hfit : ∀ hi lo, pts i = .scanning hi lo → GroupFits s hi)
    (hmove : ∀ hi lo count r rest, pts i = .moving hi lo count (r :: rest) →
      ∀ j, j ≠ i → ¬ (pts j).Relies hi ∧ ¬ (pts j).Absorbs lo) (j : ι) :
    (Function.update pts i pt' j).Sound s'.label (calls j).key := by
  by_cases hji : j = i
  · subst hji
    rw [Function.update_self]
    exact hstep.sound h.labelled hfit (h.sound j)
  · rw [Function.update_of_ne hji]
    by_cases hm : ∃ hi lo count r rest, pts i = .moving hi lo count (r :: rest)
    · obtain ⟨hi, lo, count, r, rest, hpt⟩ := hm
      obtain ⟨hrel, habs⟩ := hmove hi lo count r rest hpt j hji
      have hi_sound := h.sound i
      rw [hpt] at hstep hi_sound
      obtain ⟨-, rfl⟩ := hstep.moved_inv
      obtain ⟨-, -, hhi, -⟩ := hi_sound
      exact (h.sound j).of_move (hhi r.1 List.mem_cons_self) (label_building_update s r.1 lo _)
        hrel habs
    · rw [hstep.label_eq fun hi lo count r rest hpt => hm ⟨hi, lo, count, r, rest, hpt⟩]
      exact h.sound j

/-- It keeps the nets of approved pairs together. -/
theorem MergesHold.joined_next (h : MergesHold calls pts s)
    (hstep : DecisionStep ord (calls i) s (pts i) pt' s')
    (hmove : ∀ hi lo count r rest, pts i = .moving hi lo count (r :: rest) →
      ∀ j, j ≠ i → ¬ (pts j).Relies hi) {a b : ℤ} (hab : Approved s' a b) :
    Joined s'.label (Function.update pts i pt') a b := by
  have hi_sound := h.sound i
  rcases hpt : pts i with _ | _ | _ | rowA | my | ⟨hi, lo⟩ | ⟨hi, lo, count, _ | ⟨r, rest⟩⟩ |
    res | e
  all_goals rw [hpt] at hstep hi_sound
  case moving.nil =>
    rcases hstep
    -- the pair approved now, or one that was
    rcases (approved_settle a b).mp hab with ⟨hk, -⟩ | ⟨-, hold⟩
    · obtain ⟨-, -, -, -, ha, hb⟩ := hi_sound
      rw [← hk] at ha hb
      exact .inl ⟨lo, ha.resolve_right List.not_mem_nil, hb.resolve_right List.not_mem_nil⟩
    · exact (h.joined a b hold).update_moved _ hpt
  case moving.cons =>
    obtain ⟨rfl, rfl⟩ := hstep.moved_inv
    obtain ⟨-, -, hhi, hall, -⟩ := hi_sound
    exact (h.joined a b hab).move hpt (hhi r.1 List.mem_cons_self)
      (hall (List.cons_ne_nil _ _)) (label_building_update s r.1 lo _) (hmove _ _ _ _ _ hpt)
  case joining =>
    rcases hstep
    rcases (approved_settle a b).mp hab with ⟨hk, -⟩ | ⟨-, hold⟩
    · obtain ⟨l, -, ha, hb⟩ := hi_sound
      rw [← hk] at ha hb
      exact .inl ⟨l, ha, hb⟩
    · refine (h.joined a b hold).update _ ?_
      rw [hpt]
      exact fun _ _ _ _ he => nomatch he
  case rejecting =>
    rcases hstep
    rcases (approved_settle a b).mp hab with ⟨-, he⟩ | ⟨-, hold⟩
    · exact nomatch he
    · refine (h.joined a b hold).update _ ?_
      rw [hpt]
      exact fun _ _ _ _ he => nomatch he
  all_goals
    have hs : s' = s := by
      rcases hstep <;> rfl
    subst hs
    refine (h.joined a b hab).update pt' ?_
    rw [hpt]
    exact fun _ _ _ _ he => nomatch he

/-- One call of one decision. -/
theorem MergesHold.decide (h : MergesHold calls pts s)
    (hstep : DecisionStep ord (calls i) s (pts i) pt' s')
    (hfit : ∀ hi lo, pts i = .scanning hi lo → GroupFits s hi)
    (hmove : ∀ hi lo count r rest, pts i = .moving hi lo count (r :: rest) →
      ∀ j, j ≠ i → ¬ (pts j).Relies hi ∧ ¬ (pts j).Absorbs lo) :
    MergesHold calls (Function.update pts i pt') s' where
  labelled := hstep.labelled h.labelled
  sound := h.sound_next hstep hfit hmove
  joined _ _ hab := h.joined_next hstep
    (fun hi lo count r rest hpt j hji => (hmove hi lo count r rest hpt j hji).1) hab

end

end NetBuild
