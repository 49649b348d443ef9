import NetBuild.BuildRun
import NetBuild.NetMergingServiceTheorems
import NetBuild.Runs
import NetBuild.Lib.Components

/-!
# Merge groups are the components of the approved pairs

A group is the nets that carry one `my_net_id`. Builds mint labels and keep those there are,
approvals replace the greater of two labels by the smaller one, and nothing else writes them:
over any run of complete calls the labels track the components of the graph of approved pairs,
and each is the least one its nets were created with.
-/

namespace NetBuild

open NetMerging NetMergingService Labelling
open Prog (Run)

/-- The `my_net_id` of a net. -/
def Store.label (s : Store) (n : ℤ) : Option ℤ := (s.building n).bind (·.myNetId)

theorem Store.label_of_eq_some {s : Store} {n : ℤ} {x : Net} (h : s.building n = some x) :
    s.label n = x.myNetId := by
  unfold Store.label
  rw [h]
  rfl

/-- The pair is recorded as approved. -/
def Approved (s : Store) (a b : ℤ) : Prop :=
  ∃ c, s.candidates (a, b) = some c ∧ c.status = some .approved

/-- The group `my` is no larger than what one scan reads. -/
def GroupFits (s : Store) (my : ℤ) : Prop :=
  ∀ rows, Table.Enumerates rows s.building →
    (rows.filter fun r => r.2.myNetId = some my).length ≤ groupLimit

/-- No group is larger than what one scan reads. -/
def GroupsFit (s : Store) : Prop := ∀ my, GroupFits s my

/-- Calls that complete, and decisions where the groups fit. -/
def completeCalls : Guard := fun s c o =>
  (∃ out, o = .ok out) ∧
    match c with
    | .decide _ _ _ _ => GroupsFit s
    | _ => True

/-- The `my_net_id` a net was created with: the one it carries in the earliest of the stores,
given the latest first. -/
def born (stores : List Store) (n : ℤ) : Option ℤ := stores.reverse.findSome? fun t => t.label n

/-- Every row is labelled. -/
def Labelled (s : Store) : Prop := ∀ n x, s.building n = some x → x.myNetId ≠ none

theorem Labelled.label_eq_none_iff {s : Store} (h : Labelled s) (n : ℤ) :
    s.label n = none ↔ s.building n = none := by
  unfold Store.label
  rcases hx : s.building n with _ | x
  · simp
  · simpa using h n x hx

/-! ## Births -/

theorem born_cons (s : Store) (stores : List Store) (n : ℤ) :
    born (s :: stores) n = (born stores n).or (s.label n) := by
  unfold born
  rw [List.reverse_cons, List.findSome?_append]
  congr 1
  rcases h : s.label n with _ | l <;> simp [h]

theorem born_ne_none {s : Store} {n : ℤ} (stores : List Store) (h : s.label n ≠ none) :
    born (s :: stores) n ≠ none := by
  rw [born_cons]
  intro he
  exact h (Option.or_eq_none_iff.mp he).2

/-- A net keeps the label it was created with. -/
theorem born_cons_of_label {s : Store} (s' : Store) {stores : List Store} {n : ℤ}
    (h : s.label n ≠ none) : born (s' :: s :: stores) n = born (s :: stores) n := by
  obtain ⟨l, hl⟩ := Option.ne_none_iff_exists'.mp (born_ne_none stores h)
  rw [born_cons, hl]
  rfl

/-! ## What a build does to the labels -/

section
variable {ord : ReadOrder} {cfg : MatchConfig} {clock : BuildClock} {s s' : Store}
  {res : BuildResult} {building : List (ℤ × Net)} {history : List (HistKey × Hist)}
  {reports : List Report} {folded : List (Report × Assignment)} {ms : Members}

theorem BuildRun.mem_start_ids
    (h : BuildRun ord cfg clock s s' res building history reports folded ms) {n l : ℤ} :
    (n, some l) ∈ (startMembers building).rows.map Member.ids ↔ s.label n = some l := by
  rw [rows_startMembers, List.map_map]
  unfold Store.label
  refine ⟨fun hm => ?_, fun hl => ?_⟩
  · obtain ⟨x, hx, he⟩ := List.mem_map.mp hm
    obtain ⟨hn, hmy⟩ := Prod.mk.inj he
    rw [← hn]
    show (s.building x.1).bind _ = _
    rw [(h.readBuilding.mem_iff x.1 x.2).mp hx]
    exact hmy
  · obtain ⟨x, hx, hmy⟩ := Option.bind_eq_some_iff.mp hl
    exact List.mem_map.mpr ⟨(n, x), (h.readBuilding.mem_iff n x).mpr hx, Prod.ext rfl hmy⟩

theorem BuildRun.mem_ids
    (h : BuildRun ord cfg clock s s' res building history reports folded ms) {n l : ℤ} :
    (n, some l) ∈ ms.rows.map Member.ids ↔ s'.label n = some l := by
  unfold Store.label
  refine ⟨fun hm => ?_, fun hl => ?_⟩
  · obtain ⟨m, hm₁, he⟩ := List.mem_map.mp hm
    obtain ⟨rfl, hmy⟩ := Prod.mk.inj he
    rw [(h.building_iff _ _).mpr ⟨m, hm₁, rfl, by rw [hmy]; exact Option.some_ne_none l, rfl⟩]
    exact hmy
  · obtain ⟨row, hrow, hmy⟩ := Option.bind_eq_some_iff.mp hl
    obtain ⟨m, hm, rfl, -, rfl⟩ := (h.building_iff _ _).mp hrow
    exact List.mem_map.mpr ⟨m, hm, Prod.ext rfl hmy⟩

theorem BuildRun.labelled
    (h : BuildRun ord cfg clock s s' res building history reports folded ms) : Labelled s' := by
  intro n x hx
  obtain ⟨m, -, -, hmy, rfl⟩ := (h.building_iff n x).mp hx
  exact hmy

/-- A build keeps the labels of the nets that were there, and gives every net it creates a label
of its own. -/
theorem BuildRun.grows
    (h : BuildRun ord cfg clock s s' res building history reports folded ms) :
    Grows s.label s'.label := by
  have hids := h.routes.ids
  refine ⟨fun n l hl => ?_, fun a b l ha hla hlb => ?_⟩
  · rw [← h.mem_ids, hids]
    exact List.mem_append_left _ (h.mem_start_ids.mpr hl)
  · rw [← h.mem_ids, hids, List.mem_append, h.mem_start_ids] at hla hlb
    have hnew : ∀ n l, (n, some l) ∈ spawned (nextNetId (startMembers building).rows)
        (nextMyNetId (startMembers building).rows) (folded.countP (·.2.action = .new)) →
        ∃ i : ℕ, n = nextNetId (startMembers building).rows + i ∧
          l = nextMyNetId (startMembers building).rows + i := by
      intro n l hm
      obtain ⟨i, -, he⟩ := List.mem_map.mp hm
      obtain ⟨hn, hl⟩ := Prod.mk.inj he
      exact ⟨i, hn.symm, (Option.some.inj hl).symm⟩
    rcases hla with hla | hla
    · rw [ha] at hla
      exact nomatch hla
    · obtain ⟨i, rfl, hli⟩ := hnew a l hla
      rcases hlb with hlb | hlb
      · -- the labels there were are all smaller than the new ones
        exfalso
        obtain ⟨m, hm, he⟩ := List.mem_map.mp (h.mem_start_ids.mpr hlb)
        have := myNetId_lt_nextMyNetId hm (congrArg Prod.snd he)
        omega
      · obtain ⟨j, rfl, hlj⟩ := hnew b l hlb
        omega

end

/-! ## What the other calls do to them -/

section
variable {ord : ReadOrder} {s s' : Store}

/-- A decision other than on an approved pair changes the approved pairs by that pair. -/
theorem approved_settle {k : PairKey} {status : Status} {now : Time} (x y : ℤ) :
    Approved (settle s k status now) x y ↔
      (x, y) = k ∧ status = .approved ∨ (x, y) ≠ k ∧ Approved s x y := by
  unfold Approved
  show (∃ c, s.candidates.upsert k (.decide (s.candidates k) status now) (x, y) = some c ∧ _) ↔ _
  rw [Table.upsert_apply]
  by_cases hk : (x, y) = k
  · rw [if_pos hk]
    refine ⟨fun h => ?_, fun h => ?_⟩
    · obtain ⟨c, hc, hst⟩ := h
      obtain rfl := Option.some.inj hc
      exact .inl ⟨hk, Option.some.inj hst⟩
    · rcases h with ⟨-, rfl⟩ | ⟨hne, -⟩
      · exact ⟨_, rfl, rfl⟩
      · exact absurd hk hne
  · rw [if_neg hk]
    simp [hk]

theorem approved_settle_approved {a b : ℤ} {now : Time} (x y : ℤ) :
    Approved (settle s (a, b) .approved now) x y ↔ addEdge (Approved s) a b x y := by
  rw [approved_settle]
  unfold addEdge
  rw [Prod.mk.injEq]
  by_cases hk : x = a ∧ y = b
  · simp [hk]
  · simp [hk]

theorem approved_settle_rejected {k : PairKey} {now : Time} {c : Candidate}
    (hc : s.candidates k = some c) (hp : c.status = some .pending) (x y : ℤ) :
    Approved (settle s k .rejected now) x y ↔ Approved s x y := by
  rw [approved_settle]
  by_cases hk : (x, y) = k
  · have hno : ¬ Approved s x y := by
      intro ha
      obtain ⟨c', hc', hst⟩ := ha
      rw [hk, hc] at hc'
      obtain rfl := Option.some.inj hc'
      rw [hp] at hst
      exact nomatch hst
    simp [hk, hno]
  · simp [hk]

theorem label_settle (k : PairKey) (status : Status) (now : Time) :
    (settle s k status now).label = s.label := rfl

theorem label_move (my : ℤ) (now : Time) (nets : List ℤ) (n : ℤ) :
    (move s my now nets).label n = if n ∈ nets then some my else s.label n := by
  unfold Store.label move
  dsimp only
  split <;> rfl

/-- The rows of the group `my`, in a read of the whole table. -/
theorem mem_group_iff {all : List (ℤ × Net)} (hall : Lists ord.building all s.building)
    (my n : ℤ) :
    n ∈ (all.filter fun r => r.2.myNetId = some my).map Prod.fst ↔ s.label n = some my := by
  rw [List.mem_map]
  unfold Store.label
  rw [Option.bind_eq_some_iff]
  refine ⟨fun h => ?_, fun h => ?_⟩
  · obtain ⟨r, hr, rfl⟩ := h
    obtain ⟨hr, hmy⟩ := List.mem_filter.mp hr
    exact ⟨r.2, (hall.mem_iff r.1 r.2).mp hr, of_decide_eq_true hmy⟩
  · obtain ⟨x, hx, hmy⟩ := h
    exact ⟨(n, x), List.mem_filter.mpr ⟨(hall.mem_iff n x).mpr hx, decide_eq_true hmy⟩, rfl⟩

theorem label_of_mem_scanned {all : List (ℤ × Net)} (hall : Lists ord.building all s.building)
    {my n : ℤ} (h : n ∈ (scanned all my).map Prod.fst) : s.label n = some my := by
  rw [← mem_group_iff hall]
  exact ((List.take_sublist _ _).map _).subset h

/-- A group fits exactly when the scan finds all of it. -/
theorem groupFits_iff {all : List (ℤ × Net)} (hall : Lists ord.building all s.building) (my : ℤ) :
    GroupFits s my ↔ ∀ n, s.label n = some my → n ∈ (scanned all my).map Prod.fst := by
  refine ⟨fun hfit n hn => ?_, fun h rows hrows => ?_⟩
  · unfold scanned
    rw [List.take_of_length_le (hfit all hall.enumerates)]
    exact (mem_group_iff hall my n).mpr hn
  · rw [((hrows.perm hall.enumerates).filter _).length_eq]
    -- the group has no row twice, and no row that is not scanned
    have hnodup : ((all.filter fun r => r.2.myNetId = some my).map Prod.fst).Nodup :=
      hall.nodup.sublist (List.filter_sublist.map _)
    have hsub := List.subperm_of_subset hnodup fun n hn => h n ((mem_group_iff hall my n).mp hn)
    have hle := hsub.length_le
    rw [List.length_map, List.length_map] at hle
    exact hle.trans (List.length_take_le _ _)

/-- With a group that fits, an approval that moves it relabels all of it. -/
theorem label_move_scanned {all : List (ℤ × Net)} {hi : ℤ} (hfit : GroupFits s hi)
    (hall : Lists ord.building all s.building) (lo : ℤ) (now : Time) :
    (move s lo now ((scanned all hi).map Prod.fst)).label = relabel s.label hi lo := by
  funext n
  rw [label_move]
  unfold relabel
  have hmem : n ∈ (scanned all hi).map Prod.fst ↔ s.label n = some hi :=
    ⟨label_of_mem_scanned hall, (groupFits_iff hall hi).mp hfit n⟩
  simp only [hmem]

theorem Labelled.move (h : Labelled s) (my : ℤ) (now : Time) (nets : List ℤ) :
    Labelled (move s my now nets) := by
  intro n x hx
  unfold NetMergingService.move at hx
  dsimp only at hx
  split at hx
  · obtain rfl := Option.some.inj hx
    exact Option.some_ne_none _
  · exact h n x hx

theorem NetMergingService.Approves.row_ne_none {a b : ℤ} {now : Time}
    (h : Approves ord s a b now s') : s.building a ≠ none ∧ s.building b ≠ none := by
  rcases h with ⟨hx, hy, -⟩ | ⟨hx, hy, -, -, -, -⟩
  · exact ⟨hx ▸ Option.some_ne_none _, hy ▸ Option.some_ne_none _⟩
  · exact ⟨hx ▸ Option.some_ne_none _, hy ▸ Option.some_ne_none _⟩

theorem NetMergingService.Approves.approved {a b : ℤ} {now : Time}
    (h : Approves ord s a b now s') : Approved s' a b := by
  rcases h with ⟨_, _, _⟩ | ⟨_, _, _, _, _, _⟩
  · exact (approved_settle a b).mpr (.inl ⟨rfl, rfl⟩)
  · exact (approved_settle a b).mpr (.inl ⟨rfl, rfl⟩)

/-- What an approval does to the labels: nothing, where its nets carry one label, and else it
moves what it scans of the group with the greater one. -/
theorem NetMergingService.Approves.label_cases {a b : ℤ} {now : Time}
    (h : Approves ord s a b now s') :
    (s.label a = s.label b ∧ s' = settle s (a, b) .approved now) ∨
      ∃ hi lo all, lo < hi ∧ Ends s.label a b hi lo ∧ Lists ord.building all s.building ∧
        s' = settle (move s lo now ((scanned all hi).map Prod.fst)) (a, b) .approved now := by
  rcases h with ⟨hx, hy, he⟩ | @⟨x, y, myA, myB, all, hx, hy, hA, hB, hne, hall⟩
  · left
    rw [Store.label_of_eq_some hx, Store.label_of_eq_some hy]
    exact ⟨he, rfl⟩
  · right
    refine ⟨max myA myB, min myA myB, all, by omega, ends_max_min ?_ ?_, hall, rfl⟩
    · rw [Store.label_of_eq_some hx, hA]
    · rw [Store.label_of_eq_some hy, hB]

theorem NetMergingService.Detected.approved_iff {M : MathFns} {cfg : MergeConfig}
    {clock : PairKey → Time} {count : ℕ} {rows : List (ℤ × Net)} {pairs : List (ℤ × ℤ × Reasons)}
    {added : List (PairKey × Candidate)}
    (h : Detected ord M cfg clock s s' count rows pairs added) (x y : ℤ) :
    Approved s' x y ↔ Approved s x y := by
  unfold Approved
  simp only [h.candidates_iff]
  refine ⟨fun ha => ?_, fun ha => ?_⟩
  · obtain ⟨c, hold | ⟨hm, -⟩, hst⟩ := ha
    · exact ⟨c, hold, hst⟩
    · obtain ⟨snapshot, hp⟩ := h.pending _ hm
      dsimp only at hp
      rw [hp] at hst
      exact nomatch hst
  · obtain ⟨c, hc, hst⟩ := ha
    exact ⟨c, .inl hc, hst⟩

end

/-! ## Runs -/

/-- What holds of a store and of the stores before it. -/
structure Grouped (past : List Store) (s : Store) : Prop where
  labelled : Labelled s
  tracks : Tracks (Approved s) s.label
  least : Least (born (s :: past)) s.label
  unborn : ∀ n, s.label n = none → born (s :: past) n = none

section
variable {ord : ReadOrder} {past : List Store} {s s' : Store}

theorem grouped_empty : Grouped [] .empty where
  labelled _ _ hx := nomatch hx
  tracks := ⟨fun _ _ h => (nomatch h.choose_spec.1), fun _ _ _ hl => (nomatch hl)⟩
  least := ⟨fun _ _ hl => (nomatch hl), fun _ _ _ hl => (nomatch hl)⟩
  unborn _ _ := rfl

/-- A call that lets the labels grow and keeps the approved pairs. -/
theorem Grouped.grows (h : Grouped past s) (hl : Labelled s') (hg : Grows s.label s'.label)
    (ha : ∀ x y, Approved s' x y ↔ Approved s x y) : Grouped (s :: past) s' := by
  have hborn : ∀ n, s.label n = none → born (s' :: s :: past) n = s'.label n := by
    intro n hn
    rw [born_cons, h.unborn n hn, Option.none_or]
  refine ⟨hl, (h.tracks.grows hg).of_iff ha, ?_, fun n hn => ?_⟩
  · exact h.least.grows hg (fun n hn => born_cons_of_label s' hn) hborn
  · rcases hln : s.label n with _ | l
    · rw [hborn n hln, hn]
    · rw [hg.kept n l hln] at hn
      exact nomatch hn

/-- A call that keeps the labels. -/
theorem Grouped.same (h : Grouped past s) (hb : s'.building = s.building)
    (ha : ∀ x y, Approved s' x y ↔ Approved s x y) : Grouped (s :: past) s' := by
  have hl : s'.label = s.label := by
    unfold Store.label
    rw [hb]
  refine h.grows (fun n x hx => h.labelled n x (hb ▸ hx)) ?_ ha
  rw [hl]
  exact .refl _

/-- A call that changes labels and labels no new net. -/
theorem Grouped.merges (h : Grouped past s) (hl : Labelled s')
    (hnone : ∀ n, s'.label n = none ↔ s.label n = none) (ht : Tracks (Approved s') s'.label)
    (hm : Least (born (s :: past)) s'.label) : Grouped (s :: past) s' := by
  have hborn : born (s' :: s :: past) = born (s :: past) := by
    funext n
    by_cases hn : s.label n = none
    · rw [born_cons, h.unborn n hn, (hnone n).mpr hn]
      rfl
    · exact born_cons_of_label s' hn
  refine ⟨hl, ht, by rw [hborn]; exact hm, fun n hn => ?_⟩
  rw [hborn]
  exact h.unborn n ((hnone n).mp hn)

/-- An approval merges the groups of its nets. -/
theorem Grouped.approves {a b : ℤ} {now : Time} (h : Grouped past s) (hfit : GroupsFit s)
    (hap : Approves ord s a b now s') : Grouped (s :: past) s' := by
  rcases hap.label_cases with ⟨hab, rfl⟩ | ⟨hi, lo, all, hlt, hends, hall, rfl⟩
  · have ha : s.label a ≠ none := by
      rw [Ne, h.labelled.label_eq_none_iff]
      exact hap.row_ne_none.1
    exact h.merges h.labelled (fun _ => Iff.rfl)
      ((h.tracks.addEdge hab ha).of_iff approved_settle_approved) h.least
  · have hlabel :
        (settle (move s lo now ((scanned all hi).map Prod.fst)) (a, b) .approved now).label
        = relabel s.label hi lo := label_move_scanned (hfit hi) hall lo now
    obtain ⟨c, hc⟩ := hends.exists_lo
    refine h.merges (h.labelled.move lo now _) (fun n => ?_) ?_ ?_
    · rw [hlabel]
      unfold relabel
      split
      · next hn => simp [hn]
      · exact Iff.rfl
    · rw [hlabel]
      exact (h.tracks.relabel hends).of_iff approved_settle_approved
    · rw [hlabel]
      exact h.least.relabel hlt hc

/-- Every call keeps the labels those of the components of the approved pairs. -/
theorem Grouped.call {c : Call} {o : Except PyError Outcome} (h : Grouped past s)
    (hG : completeCalls s c o) (hrun : Run (exec ord) s c.prog s' o) : Grouped (s :: past) s' := by
  obtain ⟨⟨out, rfl⟩, hfit⟩ := hG
  rcases c with ⟨key, row⟩ | ⟨cfg, clock⟩ | ⟨M, cfg, clock⟩ | ⟨netA, netB, decision, now⟩
  · obtain ⟨rfl, -⟩ := run_insertReport_iff.mp hrun
    exact h.same rfl fun _ _ => Iff.rfl
  · obtain ⟨res, hbuild, -⟩ := run_build_ok_iff.mp hrun
    obtain ⟨_, _, _, _, _, hb⟩ := run_runPipeline hbuild
    refine h.grows hb.labelled hb.grows fun x y => ?_
    unfold Approved
    rw [hb.candidates_eq]
  · obtain ⟨res, hlist, -⟩ := run_list_ok_iff.mp hrun
    obtain ⟨_, _, _, hd⟩ := run_listPendingCandidates hlist
    exact h.same (by rw [hd.store]) hd.approved_iff
  · obtain ⟨res, hdecide, -⟩ := run_decide_ok_iff.mp hrun
    rcases run_applyDecision_ok hdecide with ⟨hc, hp, hap⟩ | ⟨hc, hp⟩
    · exact h.approves hfit hap
    · exact h.same rfl (approved_settle_rejected hc hp)

theorem SeqRun.grouped (h : SeqRun ord completeCalls .empty past s) : Grouped past s := by
  induction h with
  | start => exact grouped_empty
  | call before allowed run ih => exact ih.call allowed run

/-- Two nets carry one `my_net_id` exactly when they are linked by approved pairs, and it is the
least one that a net of their group was created with. -/
theorem groups_eq_components (h : SeqRun ord completeCalls .empty past s) :
    (∀ a b x y, s.building a = some x → s.building b = some y →
      (x.myNetId = y.myNetId ↔ Relation.EqvGen (Approved s) a b)) ∧
    ∀ a x, s.building a = some x → ∃ my, x.myNetId = some my ∧
      IsLeast {l | ∃ b y, s.building b = some y ∧ y.myNetId = some my ∧
        born (s :: past) b = some l} my := by
  have hg := h.grouped
  have hlabel : ∀ n x, s.building n = some x → s.label n = x.myNetId :=
    fun _ _ => Store.label_of_eq_some
  refine ⟨fun a b x y hx hy => ?_, fun a x hx => ?_⟩
  · obtain ⟨la, hla⟩ := Option.ne_none_iff_exists'.mp (hg.labelled a x hx)
    obtain ⟨lb, hlb⟩ := Option.ne_none_iff_exists'.mp (hg.labelled b y hy)
    rw [hla, hlb, Option.some_inj]
    exact hg.tracks.label_eq_iff ((hlabel a x hx).trans hla) ((hlabel b y hy).trans hlb)
  · obtain ⟨my, hmy⟩ := Option.ne_none_iff_exists'.mp (hg.labelled a x hx)
    have hleast := hg.least.isLeast hg.tracks ((hlabel a x hx).trans hmy)
    refine ⟨my, hmy, ?_⟩
    -- the nets linked to `a` are those that carry its label
    have hset : {l | ∃ b y, s.building b = some y ∧ y.myNetId = some my ∧
        born (s :: past) b = some l}
          = {l | ∃ b, Relation.EqvGen (Approved s) a b ∧ born (s :: past) b = some l} := by
      ext l
      refine exists_congr fun b => ⟨fun hb => ?_, fun hb => ?_⟩
      · obtain ⟨y, hy, hyl, hborn⟩ := hb
        exact ⟨hg.tracks.linked a b my ((hlabel a x hx).trans hmy) ((hlabel b y hy).trans hyl),
          hborn⟩
      · obtain ⟨hab, hborn⟩ := hb
        have hbl := (hg.tracks.eq_of_linked hab).symm.trans ((hlabel a x hx).trans hmy)
        obtain ⟨y, hy, hyl⟩ := Option.bind_eq_some_iff.mp hbl
        exact ⟨y, hy, hyl, hborn⟩
    rw [hset]
    exact hleast

end

/-! ## Three nets -/

/-- Reports of three emitters on one frequency, each from a station of its own. -/
def threeReports : List Report :=
  [(1, ['A']), (2, ['B']), (3, ['C'])].map fun (ffId, rdfs) =>
    ((ffId, .of2024 3 25 (by decide)), .plain (.of2024 3 25 (by decide)) 1 100 rdfs)

/-- A detection that does not look at positions. -/
def anywhere : MergeConfig := { useLocTol := false }

/-- Functions for a detection that does not look at positions. -/
def flatMath : MathFns where
  radians x := x
  sin x := x
  cos _ := 1
  sqrt := some
  asin := some
  radians_neg _ := rfl
  sin_neg _ := rfl

/-- What a build over these reports and then a detection write. -/
def threePlan : Except PyError (BuildPlan × List (ℤ × ℤ × Reasons) × List (PairKey × Candidate)) :=
  do
    let p ← buildPlan {} (.still 1) [] [] threeReports
    let pairs ← proposePairs flatMath anywhere (fetchNets p.rows)
    let added ← pairs.mapM fun q => snapshotRow 1 (fetchNets p.rows) q.1 q.2.1 q.2.2
    pure (p, pairs, added)

/-- Three nets in three groups, and every pair of them pending. -/
structure ThreeNets (s : Store) : Prop where
  nets : ∃ x₁ x₂ x₃, Table.Enumerates [(100001, x₁), (100002, x₂), (100003, x₃)] s.building ∧
    x₁.myNetId = some 1 ∧ x₂.myNetId = some 2 ∧ x₃.myNetId = some 3
  pairs : ∀ k ∈ [(100001, 100002), (100001, 100003), (100002, 100003)], ∃ c,
    s.candidates k = some c ∧ c.status = some .pending

/-- A first listing records all the pairs proposed. -/
theorem run_firstListing {s : Store} {rows : List (ℤ × Net)} {pairs : List (ℤ × ℤ × Reasons)}
    {added : List (PairKey × Candidate)} (hread : Lists ReadOrder.any.building rows s.building)
    (hne : rows ≠ []) (hnone : s.candidates = Table.empty)
    (hpairs : proposePairs flatMath anywhere (fetchNets rows) = .ok pairs)
    (hadded : List.Forall₂
      (fun p r => snapshotRow 1 (fetchNets rows) p.1 p.2.1 p.2.2 = .ok r) pairs added)
    (hkeys : (added.map Prod.fst).Nodup) :
    ∃ res, Run (exec .any) s (listPendingCandidates flatMath anywhere ⟨fun _ => 1, 1⟩)
      { s with candidates := Table.empty.upsertAll added } (.ok res) := by
  have hfresh : pairs.filter (fun p => keyOf p ∉ existingPairs []) = pairs :=
    List.filter_eq_self.mpr fun p _ => decide_eq_true List.not_mem_nil
  have hseen : Lists ReadOrder.any.candidates [] s.candidates := by
    rw [hnone]
    exact lists_empty
  have hlisted : Lists ReadOrder.any.candidates added (s.candidates.upsertAll added) := by
    rw [hnone]
    exact lists_any (Table.enumerates_upsertAll hkeys)
  have hrun : ∃ res, Run (exec .any) s (listPendingCandidates flatMath anywhere ⟨fun _ => 1, 1⟩)
      { s with candidates := s.candidates.upsertAll added } (.ok res) :=
    run_of_proposePairs hread hne hseen hpairs (by rw [hfresh]; exact hadded) hlisted
  rwa [hnone] at hrun

/-- Three nets in three groups and no candidates: what a detection reads and adds. -/
structure ThreeFound (s : Store) (rows : List (ℤ × Net)) (pairs : List (ℤ × ℤ × Reasons))
    (added : List (PairKey × Candidate)) : Prop where
  read : Lists ReadOrder.any.building rows s.building
  unrecorded : s.candidates = Table.empty
  nets : rows.map (fun r => (r.1, r.2.myNetId))
    = [(100001, some 1), (100002, some 2), (100003, some 3)]
  proposed : proposePairs flatMath anywhere (fetchNets rows) = .ok pairs
  snapshots : List.Forall₂
    (fun p r => snapshotRow 1 (fetchNets rows) p.1 p.2.1 p.2.2 = .ok r) pairs added
  keys : added.map (fun r => (r.1, r.2.status)) = [((100001, 100002), some .pending),
    ((100001, 100003), some .pending), ((100002, 100003), some .pending)]

/-- They are reached by reports and a build. -/
theorem reached_threeFound {G : Guard}
    (hG : ∀ s c out, (∀ a b d now, c ≠ .decide a b d now) → G s c (.ok out)) :
    ∃ s rows pairs added, Reached .any G .empty s ∧ ThreeFound s rows pairs added := by
  have hplan : threePlan.map (fun x => (x.1.rows.map fun r => (r.1, r.2.myNetId),
      x.2.2.map fun r => (r.1, r.2.status)))
      = .ok ([(100001, some 1), (100002, some 2), (100003, some 3)],
        [((100001, 100002), some .pending), ((100001, 100003), some .pending),
          ((100002, 100003), some .pending)]) := by
    decide +kernel
  obtain ⟨⟨p, pairs, added⟩, hx, hv⟩ := Except.map_eq_ok_iff.mp hplan
  obtain ⟨hnets, hcands⟩ := Prod.mk.inj hv
  unfold threePlan at hx
  obtain ⟨p', hp, hx₁⟩ := Except.bind_eq_ok_iff.mp hx
  obtain ⟨pairs', hpairs, hx₂⟩ := Except.bind_eq_ok_iff.mp hx₁
  obtain ⟨added', hadded, hx₃⟩ := Except.bind_eq_ok_iff.mp hx₂
  obtain ⟨rfl, hx₄⟩ := Prod.mk.inj (Except.ok.inj hx₃)
  obtain ⟨rfl, rfl⟩ := Prod.mk.inj hx₄
  dsimp only at hnets hcands
  have hkeys : (p'.rows.map Prod.fst).Nodup := by
    have := congrArg (List.map Prod.fst) hnets
    rw [List.map_map] at this
    rw [show p'.rows.map Prod.fst = [100001, 100002, 100003] from this]
    decide
  have hnodup : (threeReports.map Prod.fst).Nodup := by decide
  have hnone : Lists ReadOrder.any.building [] (Store.ofReports threeReports).building :=
    lists_empty
  have hbuild := run_of_buildPlan hnone lists_empty (lists_ofReports hnodup) (by decide) hp
  have hreports : Reached .any G .empty (.ofReports threeReports) := reached_ofReports
    (fun s key row => hG s (.insertReport key row) .inserted fun _ _ _ _ h => nomatch h) _
  obtain ⟨past, hreports⟩ := hreports
  refine ⟨_, p'.rows, pairs', added', ⟨_, .call hreports
    (hG _ (.build {} (.still 1)) _ fun _ _ _ _ h => nomatch h)
      (run_build_ok_iff.mpr ⟨_, hbuild, rfl⟩)⟩, ?_⟩
  exact {
    read := lists_any (Table.enumerates_upsertAll hkeys)
    unrecorded := rfl
    nets := hnets
    proposed := hpairs
    snapshots := Except.mapM_eq_ok_iff.mp hadded
    keys := hcands }

section
variable {s : Store} {rows : List (ℤ × Net)} {pairs : List (ℤ × ℤ × Reasons)}
  {added : List (PairKey × Candidate)}

theorem ThreeFound.nodup_keys (h : ThreeFound s rows pairs added) :
    (added.map Prod.fst).Nodup := by
  have := congrArg (List.map Prod.fst) h.keys
  rw [List.map_map] at this
  rw [show added.map Prod.fst = [(100001, 100002), (100001, 100003), (100002, 100003)] from this]
  decide

theorem ThreeFound.ne_nil (h : ThreeFound s rows pairs added) : rows ≠ [] := by
  intro he
  have := h.nets
  rw [he] at this
  exact nomatch this

/-- A listing adds the three pairs. -/
theorem ThreeFound.run (h : ThreeFound s rows pairs added) :
    ∃ res, Run (exec .any) s (listPendingCandidates flatMath anywhere ⟨fun _ => 1, 1⟩)
      { s with candidates := Table.empty.upsertAll added } (.ok res) :=
  run_firstListing h.read h.ne_nil h.unrecorded h.proposed h.snapshots h.nodup_keys

theorem ThreeFound.threeNets (h : ThreeFound s rows pairs added) :
    ThreeNets { s with candidates := Table.empty.upsertAll added } := by
  refine ⟨?_, fun k hk => ?_⟩
  · obtain ⟨r₁, l₁, hl₁, hr₁, hnets₁⟩ := List.map_eq_cons_iff.mp h.nets
    obtain ⟨r₂, l₂, hl₂, hr₂, hnets₂⟩ := List.map_eq_cons_iff.mp hnets₁
    obtain ⟨r₃, hl₃, hr₃⟩ := List.map_eq_singleton_iff.mp hnets₂
    obtain ⟨h₁, my₁⟩ := Prod.mk.inj hr₁
    obtain ⟨h₂, my₂⟩ := Prod.mk.inj hr₂
    obtain ⟨h₃, my₃⟩ := Prod.mk.inj hr₃
    refine ⟨r₁.2, r₂.2, r₃.2, ?_, my₁, my₂, my₃⟩
    rw [← h₁, ← h₂, ← h₃]
    show Table.Enumerates [r₁, r₂, r₃] _
    rw [← hl₃, ← hl₂, ← hl₁]
    exact h.read.enumerates
  · have hk' : (k, some Status.pending) ∈ added.map fun r => (r.1, r.2.status) := by
      rw [h.keys]
      exact List.mem_map_of_mem (f := fun k => (k, some Status.pending)) hk
    obtain ⟨r, hr, he⟩ := List.mem_map.mp hk'
    obtain ⟨rfl, hst⟩ := Prod.mk.inj he
    exact ⟨r.2, Table.upsertAll_of_mem _ h.nodup_keys hr, hst⟩

end

/-- They are reached by reports, a build and a listing. -/
theorem reached_threeNets {G : Guard}
    (hG : ∀ s c out, (∀ a b d now, c ≠ .decide a b d now) → G s c (.ok out)) :
    ∃ s, Reached .any G .empty s ∧ ThreeNets s := by
  obtain ⟨s, rows, pairs, added, ⟨past, hs⟩, hfound⟩ := reached_threeFound hG
  obtain ⟨listing, hlist⟩ := hfound.run
  exact ⟨_, ⟨_, .call hs (hG _ (.list flatMath anywhere ⟨fun _ => 1, 1⟩) _
    fun _ _ _ _ h => nomatch h) (run_list_ok_iff.mpr ⟨_, hlist, rfl⟩)⟩, hfound.threeNets⟩

/-! ## Decisions on a few nets -/

/-- There are no more nets than one scan reads. -/
def FewNets (s : Store) : Prop :=
  ∃ rows, Table.Enumerates rows s.building ∧ rows.length ≤ groupLimit

section
variable {G : Guard} {past : List Store} {s : Store} {a b : ℤ} {c : Candidate}

theorem FewNets.groupsFit (h : FewNets s) : GroupsFit s := by
  obtain ⟨rows, hrows, hlen⟩ := h
  intro my rows' hrows'
  refine (List.length_filter_le ..).trans ?_
  rwa [(hrows'.perm hrows).length_eq]

theorem ThreeNets.fewNets (h : ThreeNets s) : FewNets s := by
  obtain ⟨x₁, x₂, x₃, hnets, -⟩ := h.nets
  exact ⟨_, hnets, by show 3 ≤ groupLimit; decide⟩

theorem ThreeNets.groupsFit (h : ThreeNets s) : GroupsFit s := h.fewNets.groupsFit

/-- The table after nets that are there were moved. -/
theorem enumerates_move {rows : List (ℤ × Net)} (h : Table.Enumerates rows s.building) (my : ℤ)
    (now : Time) {nets : List ℤ} (hnets : ∀ n ∈ nets, s.building n ≠ none) :
    Table.Enumerates
      (rows.map fun r => (r.1, if r.1 ∈ nets then .relabel (some r.2) my now else r.2))
      (move s my now nets).building := by
  refine ⟨?_, fun n x => ?_⟩
  · rw [List.map_map]
    exact h.nodup
  · rw [List.mem_map]
    unfold NetMergingService.move
    dsimp only
    refine ⟨fun hx => ?_, fun hx => ?_⟩
    · obtain ⟨r, hr, he⟩ := hx
      obtain ⟨rfl, rfl⟩ := Prod.mk.inj he
      have hrow := (h.mem_iff r.1 r.2).mp hr
      split
      · rw [hrow]
      · exact hrow
    · split at hx
      · next hn =>
        obtain ⟨y, hy⟩ := Option.ne_none_iff_exists'.mp (hnets n hn)
        refine ⟨(n, y), (h.mem_iff n y).mpr hy, ?_⟩
        rw [hy] at hx
        rw [if_pos hn, Option.some.inj hx]
      · next hn => exact ⟨(n, x), (h.mem_iff n x).mpr hx, by rw [if_neg hn]⟩

theorem building_ne_none_of_mem_scanned {rows : List (ℤ × Net)}
    (h : Table.Enumerates rows s.building) {my : ℤ} :
    ∀ n ∈ (scanned rows my).map Prod.fst, s.building n ≠ none := by
  intro n hn
  have hall : Lists ReadOrder.any.building rows s.building := lists_any h
  obtain ⟨x, hx, -⟩ := Option.bind_eq_some_iff.mp (label_of_mem_scanned hall hn)
  rw [hx]
  exact Option.some_ne_none x

/-- A run goes on with the rejection of a pending pair. -/
theorem SeqRun.reject (h : SeqRun .any completeCalls .empty past s) (hfew : FewNets s)
    (hab : a ≤ b) (hc : s.candidates (a, b) = some c) (hp : c.status = some .pending) :
    SeqRun .any completeCalls .empty (s :: past) (settle s (a, b) .rejected 2) := by
  have hdec : Decided .any s a b 2 .reject _ := .reject hc hp
  obtain ⟨res, hrun⟩ := hdec.run hab
  exact .call h (c := .decide a b .reject 2) ⟨⟨_, rfl⟩, hfew.groupsFit⟩
    (run_decide_ok_iff.mpr ⟨res, hrun, rfl⟩)

/-- A run goes on with the approval of a pending pair of two groups. -/
theorem SeqRun.approve_moves (h : SeqRun .any completeCalls .empty past s)
    {rows : List (ℤ × Net)} (hrows : Table.Enumerates rows s.building)
    (hlen : rows.length ≤ groupLimit) (hab : a ≤ b) (hc : s.candidates (a, b) = some c)
    (hp : c.status = some .pending) {la lb : ℤ} (ha : s.label a = some la)
    (hb : s.label b = some lb) (hne : la ≠ lb) :
    SeqRun .any completeCalls .empty (s :: past)
      (settle (move s (min la lb) 2 ((scanned rows (max la lb)).map Prod.fst)) (a, b)
        .approved 2) := by
  obtain ⟨x, hx, hmyA⟩ := Option.bind_eq_some_iff.mp ha
  obtain ⟨y, hy, hmyB⟩ := Option.bind_eq_some_iff.mp hb
  have hap : Approves .any s a b 2 _ := .moved hx hy hmyA hmyB hne (lists_any hrows)
  obtain ⟨res, hrun⟩ := (Decided.approve hc hp hap).run hab
  have hfew : FewNets s := ⟨rows, hrows, hlen⟩
  exact .call h (c := .decide a b .approve 2) ⟨⟨_, rfl⟩, hfew.groupsFit⟩
    (run_decide_ok_iff.mpr ⟨res, hrun, rfl⟩)

/-- It merges the two groups, and leaves the other candidates as they are. -/
theorem SeqRun.approve (h : SeqRun .any completeCalls .empty past s) (hfew : FewNets s)
    (hab : a ≤ b) (hc : s.candidates (a, b) = some c) (hp : c.status = some .pending) {la lb : ℤ}
    (ha : s.label a = some la) (hb : s.label b = some lb) (hne : la ≠ lb) :
    ∃ t, SeqRun .any completeCalls .empty (s :: past) t ∧ FewNets t ∧
      t.label = relabel s.label (max la lb) (min la lb) ∧ Approved t a b ∧
        ∀ k, k ≠ (a, b) → t.candidates k = s.candidates k := by
  have hfits := hfew.groupsFit
  obtain ⟨rows, hrows, hlen⟩ := hfew
  have hall : Lists ReadOrder.any.building rows s.building := lists_any hrows
  refine ⟨_, h.approve_moves hrows hlen hab hc hp ha hb hne, ?_, ?_, ?_, fun k hk => ?_⟩
  · exact ⟨_, enumerates_move hrows _ 2 (building_ne_none_of_mem_scanned hrows),
      by rwa [List.length_map]⟩
  · exact label_move_scanned (hfits _) hall ..
  · exact (approved_settle a b).mpr (.inl ⟨rfl, rfl⟩)
  · show Table.upsert _ _ _ k = _
    rw [Table.upsert_of_ne _ _ hk]
    rfl

end

theorem ThreeNets.label {s : Store} (h : ThreeNets s) :
    s.label 100001 = some 1 ∧ s.label 100002 = some 2 ∧ s.label 100003 = some 3 := by
  obtain ⟨x₁, x₂, x₃, hnets, h₁, h₂, h₃⟩ := h.nets
  unfold Store.label
  rw [(hnets.mem_iff 100001 x₁).mp (by simp), (hnets.mem_iff 100002 x₂).mp (by simp),
    (hnets.mem_iff 100003 x₃).mp (by simp)]
  exact ⟨h₁, h₂, h₃⟩

/-- The first two of them approved carry one label, and are linked. -/
theorem groups_eq_components_threeNets :
    ∃ past s, SeqRun .any completeCalls .empty past s ∧
      ∃ x y, s.building 100001 = some x ∧ s.building 100002 = some y ∧ x.myNetId = some 1 ∧
        x.myNetId = y.myNetId ∧ Relation.EqvGen (Approved s) 100001 100002 := by
  obtain ⟨s, ⟨past, hs⟩, hthree⟩ := reached_threeNets (G := completeCalls)
    (fun s c out hc => ⟨⟨out, rfl⟩, by
      rcases c <;> first | trivial | exact (hc _ _ _ _ rfl).elim⟩)
  obtain ⟨x₁, x₂, x₃, hnets, h₁, h₂, -⟩ := hthree.nets
  have hb₁ := (hnets.mem_iff 100001 x₁).mp (by simp)
  have hb₂ := (hnets.mem_iff 100002 x₂).mp (by simp)
  obtain ⟨c, hc, hp⟩ := hthree.pairs (100001, 100002) (by simp)
  have hall : Lists ReadOrder.any.building _ s.building := lists_any hnets
  have hap : Approves .any s 100001 100002 2 _ := .moved hb₁ hb₂ h₁ h₂ (by decide) hall
  obtain ⟨res, hrun⟩ := (Decided.approve hc hp hap).run (by decide)
  have hrun' := SeqRun.call hs (c := .decide 100001 100002 .approve 2)
    ⟨⟨_, rfl⟩, hthree.groupsFit⟩ (run_decide_ok_iff.mpr ⟨res, hrun, rfl⟩)
  obtain ⟨hlinked, -⟩ := groups_eq_components hrun'
  have hlabel : (settle (move s (min 1 2) 2 ((scanned _ (max 1 2)).map Prod.fst))
      (100001, 100002) .approved 2).label = relabel s.label (max 1 2) (min 1 2) :=
    label_move_scanned (hthree.groupsFit _) hall ..
  obtain ⟨hl₁, hl₂, -⟩ := hthree.label
  obtain ⟨x, hx, hxl⟩ := Option.bind_eq_some_iff.mp
    ((congrFun hlabel 100001).trans ((relabel_of_ne (by rw [hl₁]; decide)).trans hl₁))
  obtain ⟨y, hy, hyl⟩ := Option.bind_eq_some_iff.mp
    ((congrFun hlabel 100002).trans (relabel_of_eq hl₂))
  exact ⟨_, _, hrun', x, y, hx, hy, hxl, hxl.trans hyl.symm,
    (hlinked _ _ x y hx hy).mp (hxl.trans hyl.symm)⟩

end NetBuild
