import NetBuild.MergeGroups

/-!
# Approving a group

An approval moves the rows one scan finds of the absorbed group, and the scan has a limit.
`wholeGroupMoved_iff` says that this is the only thing that can leave a part of the group behind.
-/

namespace NetBuild

open NetMerging NetMergingService
open Prog (Run)

/-- The group `hi` was moved into the group `lo` as a whole, nothing else was touched, and `res`
reports its size. -/
structure WholeGroupMoved (s s' : Store) (hi lo : ℤ) (res : DecisionResult) : Prop where
  emptied : ∀ n, s'.label n ≠ some hi
  moved : ∀ n, s.label n = some hi → s'.label n = some lo
  others : ∀ n, s.label n ≠ some hi → s'.building n = s.building n
  counted : ∀ rows, Table.Enumerates rows s.building →
    res.netsMoved = some (rows.filter fun r => r.2.myNetId = some hi).length

/-! ## What one scan moves -/

section
variable {ord : ReadOrder} {s s' : Store} {a b hi lo : ℤ} {now : Time} {res : DecisionResult}
  {all : List (ℤ × Net)}

theorem building_settle_move (hall : Lists ord.building all s.building) (k : PairKey) {n : ℤ}
    (hn : s.label n ≠ some hi) :
    (settle (move s lo now ((scanned all hi).map Prod.fst)) k .approved now).building n
      = s.building n := by
  show (if n ∈ (scanned all hi).map Prod.fst then _ else _) = _
  rw [if_neg fun h => hn (label_of_mem_scanned hall h)]

/-- The whole group is moved exactly when it is no larger than what one scan reads. -/
theorem wholeGroupMoved_scanned_iff (hne : hi ≠ lo) (hall : Lists ord.building all s.building)
    (k : PairKey) (hres : res.netsMoved = some (scanned all hi).length) :
    WholeGroupMoved s (settle (move s lo now ((scanned all hi).map Prod.fst)) k .approved now)
      hi lo res ↔ GroupFits s hi := by
  refine ⟨fun h => ?_,
    fun hfit => ⟨fun n => ?_, fun n hn => ?_, fun n hn => ?_, fun rows hrows => ?_⟩⟩
  · rw [groupFits_iff hall]
    intro n hn
    by_contra hout
    -- a row of the group that was not scanned keeps its label
    apply h.emptied n
    rw [label_settle, label_move, if_neg hout, hn]
  · rw [label_settle, label_move_scanned hfit hall]
    unfold Labelling.relabel
    split
    · exact fun he => hne (Option.some.inj he).symm
    · next hn => exact hn
  · rw [label_settle, label_move_scanned hfit hall]
    exact if_pos hn
  · exact building_settle_move hall k hn
  · have hlen := ((hrows.perm hall.enumerates).filter fun r => r.2.myNetId = some hi).length_eq
    rw [hres, hlen]
    unfold scanned
    rw [List.take_of_length_le (hfit all hall.enumerates)]

/-- An approval that completes on a pair of nets in two groups. -/
theorem run_applyDecision_groups {netA netB myA myB : ℤ}
    (h : Run (exec ord) s (applyDecision netA netB .approve now) s' (.ok res))
    (hA : s.label netA = some myA) (hB : s.label netB = some myB) (hne : myA ≠ myB) :
    ∃ all, Lists ord.building all s.building ∧
      s' = settle (move s (min myA myB) now ((scanned all (max myA myB)).map Prod.fst))
        (min netA netB, max netA netB) .approved now ∧
      res.netsMoved = some (scanned all (max myA myB)).length := by
  have hd : ∀ text, Decision.approve ≠ .other text := fun _ h => nomatch h
  obtain ⟨c, -, -, ⟨hrej, -⟩ | ⟨-, x, y, hx, hy, hrun⟩⟩ := run_decidePair_cases hd h
  · exact nomatch hrej
  · have hlx := Store.label_of_eq_some hx
    have hly := Store.label_of_eq_some hy
    rcases le_total netA netB with hle | hle
    · rw [min_eq_left hle, hA] at hlx
      rw [max_eq_right hle, hB] at hly
      rw [← hlx, ← hly] at hrun
      exact run_approve_moved hne hrun
    · rw [min_eq_right hle, hB] at hlx
      rw [max_eq_left hle, hA] at hly
      rw [← hlx, ← hly] at hrun
      rw [min_comm myA, max_comm myA]
      exact run_approve_moved hne.symm hrun

/-- An approval of nets in two groups that completes moves the whole absorbed group exactly when
that group is no larger than the limit of the scan. -/
theorem wholeGroupMoved_iff {netA netB myA myB : ℤ}
    (hrun : Run (exec ord) s (applyDecision netA netB .approve now) s' (.ok res))
    (hA : s.label netA = some myA) (hB : s.label netB = some myB) (hne : myA ≠ myB) :
    WholeGroupMoved s s' (max myA myB) (min myA myB) res ↔ GroupFits s (max myA myB) := by
  obtain ⟨all, hall, rfl, hres⟩ := run_applyDecision_groups hrun hA hB hne
  exact wholeGroupMoved_scanned_iff (by omega) hall _ hres

end

/-! ## A group of any size -/

/-- A net of the group `my`. -/
def netOf (my : ℤ) : Net := { Net.blank with myNetId := some my }

/-- The net 0 in the group 1, and `k` nets in the group 2. -/
def groupRows (k : ℕ) : List (ℤ × Net) :=
  (0, netOf 1) :: (List.range k).map fun i : ℕ => ((i : ℤ) + 1, netOf 2)

/-- These nets, with the first two of them pending. -/
def groupStore (k : ℕ) : Store where
  report := Table.empty
  building := Table.empty.upsertAll (groupRows k)
  history := Table.empty
  candidates := Table.empty.upsert (0, 1) ⟨some .pending, none, none, none⟩

theorem enumerates_groupStore (k : ℕ) :
    Table.Enumerates (groupRows k) (groupStore k).building := by
  apply Table.enumerates_upsertAll
  have hkeys : (groupRows k).map Prod.fst
      = 0 :: (List.range k).map fun i : ℕ => (i : ℤ) + 1 := by
    unfold groupRows
    rw [List.map_cons, List.map_map]
    rfl
  rw [hkeys, List.nodup_cons]
  refine ⟨?_, List.nodup_range.map fun i j h => by simpa using h⟩
  simp only [List.mem_map, not_exists, not_and]
  omega

theorem building_groupStore {k : ℕ} {r : ℤ × Net} (h : r ∈ groupRows k) :
    (groupStore k).building r.1 = some r.2 :=
  ((enumerates_groupStore k).mem_iff r.1 r.2).mp h

theorem group_groupRows (k : ℕ) :
    ((groupRows k).filter fun r => r.2.myNetId = some 2).length = k := by
  unfold groupRows
  rw [List.filter_cons_of_neg (by decide), List.filter_eq_self.mpr, List.length_map,
    List.length_range]
  intro r hr
  obtain ⟨i, -, rfl⟩ := List.mem_map.mp hr
  rfl

theorem groupFits_groupStore (k : ℕ) : GroupFits (groupStore k) 2 ↔ k ≤ groupLimit := by
  unfold GroupFits
  refine ⟨fun h => ?_, fun h rows hrows => ?_⟩
  · rw [← group_groupRows k]
    exact h _ (enumerates_groupStore k)
  · rw [((hrows.perm (enumerates_groupStore k)).filter _).length_eq, group_groupRows]
    exact h

section
variable {k : ℕ}

theorem label_groupStore (hk : 0 < k) :
    (groupStore k).label 0 = some 1 ∧ (groupStore k).label 1 = some 2 := by
  have h0 : ((0 : ℤ), netOf 1) ∈ groupRows k := List.mem_cons_self
  have h1 : ((1 : ℤ), netOf 2) ∈ groupRows k :=
    List.mem_cons_of_mem _ (List.mem_map.mpr ⟨0, List.mem_range.mpr hk, rfl⟩)
  exact ⟨Store.label_of_eq_some (building_groupStore h0),
    Store.label_of_eq_some (building_groupStore h1)⟩

/-- The pair can be approved. -/
theorem run_groupStore (hk : 0 < k) :
    ∃ s' res, Run (exec .any) (groupStore k) (applyDecision 0 1 .approve 1) s' (.ok res) := by
  have h0 : ((0 : ℤ), netOf 1) ∈ groupRows k := List.mem_cons_self
  have h1 : ((1 : ℤ), netOf 2) ∈ groupRows k :=
    List.mem_cons_of_mem _ (List.mem_map.mpr ⟨0, List.mem_range.mpr hk, rfl⟩)
  have happ : Approves .any (groupStore k) 0 1 1 _ :=
    .moved (building_groupStore h0) (building_groupStore h1) rfl rfl (by decide)
      (lists_any (enumerates_groupStore k))
  have hc : (groupStore k).candidates (0, 1) = some ⟨some .pending, none, none, none⟩ := by
    simp [groupStore]
  obtain ⟨res, hrun⟩ := (Decided.approve hc rfl happ).run (by decide)
  exact ⟨_, res, hrun⟩

end

/-- A group of three is moved as a whole. -/
theorem wholeGroupMoved_three :
    ∃ s' res, Run (exec .any) (groupStore 3) (applyDecision 0 1 .approve 1) s' (.ok res) ∧
      WholeGroupMoved (groupStore 3) s' 2 1 res := by
  obtain ⟨s', res, hrun⟩ := run_groupStore (k := 3) (by decide)
  obtain ⟨hA, hB⟩ := label_groupStore (k := 3) (by decide)
  exact ⟨s', res, hrun,
    (wholeGroupMoved_iff hrun hA hB (by decide)).mpr ((groupFits_groupStore 3).mpr (by decide))⟩

/-- Of a group of 10001, a part is left behind. -/
theorem group_split_10001 :
    ∃ s' res, Run (exec .any) (groupStore 10001) (applyDecision 0 1 .approve 1) s' (.ok res) ∧
      ¬WholeGroupMoved (groupStore 10001) s' 2 1 res := by
  obtain ⟨s', res, hrun⟩ := run_groupStore (k := 10001) (by decide)
  obtain ⟨hA, hB⟩ := label_groupStore (k := 10001) (by decide)
  obtain ⟨all, hall, rfl, hres⟩ := run_applyDecision_groups hrun hA hB (by decide)
  refine ⟨_, res, hrun, fun h => ?_⟩
  have hfit := (wholeGroupMoved_scanned_iff (by decide) hall _ hres).mp h
  exact absurd ((groupFits_groupStore 10001).mp hfit) (by decide)

end NetBuild
