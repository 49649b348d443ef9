import NetBuild.NetsSheet
import NetBuild.WorkbookTheorems
import Mathlib.Data.Prod.Lex

/-!
# The two layouts of a sheet

A table of nets is written as the flat sheet of `build_hierarchical`, or as a sheet of the legacy
layout. `layouts_agree` says that both are read back as the table in the order of its ids.

The scan of a legacy sheet is followed block by block: what comes after the rows of a `MY_NET` is
another `MY_NET` header, which lets go of both ids.
-/

namespace NetBuild

/-! ## Ids as doubles -/

@[simp] theorem roundHalfEven_intCast (n : ℤ) : roundHalfEven (n : ℚ) = n := by
  unfold roundHalfEven
  simp

/-- A number that is a multiple of its last place is a double. -/
theorem double_of_multiple {q : ℚ} {k : ℤ}
    (h : q = k * (2 : ℚ) ^ (Int.log 2 |q| - 52)) : double q = q := by
  have hulp : (2 : ℚ) ^ (Int.log 2 |q| - 52) ≠ 0 := zpow_ne_zero _ two_ne_zero
  have hk : q / (2 : ℚ) ^ (Int.log 2 |q| - 52) = k := (eq_div_of_mul_eq hulp h.symm).symm
  unfold double
  dsimp only
  rw [hk, roundHalfEven_intCast, ← h]

/-- The integers up to 2^53 are doubles. -/
theorem double_intCast {n : ℤ} (hn : n.natAbs ≤ 2 ^ 53) : double n = n := by
  have hlog : Int.log 2 |(n : ℚ)| = Nat.log 2 n.natAbs := by
    rw [← Int.cast_abs, ← Nat.cast_natAbs]
    exact Int.log_natCast 2 n.natAbs
  rcases Nat.lt_or_ge 52 (Nat.log 2 n.natAbs) with hbig | hsmall
  · -- only the bound itself has 54 binary digits
    have hne : n.natAbs ≠ 0 := by
      intro h0
      rw [h0, Nat.log_zero_right] at hbig
      omega
    have hpow : 2 ^ 53 ≤ n.natAbs :=
      (Nat.pow_le_pow_right (by omega) hbig).trans (Nat.pow_log_le_self 2 hne)
    rcases Int.natAbs_eq n with h | h
    · have hn' : n = 2 ^ 53 := by omega
      rw [hn']
      decide +kernel
    · have hn' : n = -2 ^ 53 := by omega
      rw [hn']
      decide +kernel
  · have hexp : ((Nat.log 2 n.natAbs : ℕ) : ℤ) - 52 = -((52 - Nat.log 2 n.natAbs : ℕ) : ℤ) := by
      omega
    apply double_of_multiple (k := n * 2 ^ (52 - Nat.log 2 n.natAbs))
    rw [hlog, hexp, zpow_neg, zpow_natCast]
    push_cast
    rw [mul_assoc, mul_inv_cancel₀ (pow_ne_zero _ two_ne_zero), mul_one]

/-- An id is read back from its text. -/
theorem cellId_zfill {w : ℕ} {n : ℤ} (hn : n.natAbs ≤ 2 ^ 53) :
    cellId (some (zfill w (fmtInt n))) = some n := by
  unfold cellId
  rw [Option.bind_some, floatText_zfill]
  show some (truncate (double n)) = some n
  rw [double_intCast hn, Cell.truncate_intCast]

theorem cellId_fmtMyNet {n : ℤ} (hn : n.natAbs ≤ 2 ^ 53) : cellId (some (fmtMyNet n)) = some n :=
  cellId_zfill hn

theorem cellId_fmtSystemNet {n : ℤ} (hn : n.natAbs ≤ 2 ^ 53) :
    cellId (some (fmtSystemNet n)) = some n := by
  have h := cellId_zfill (w := 0) hn
  rwa [zfill_zero] at h

/-! ## The order of the nets -/

/-- The two ids of a record, the `my_net_id` first. -/
def Member.sortKey (m : Member) : ℤ ×ₗ ℤ := toLex (m.myNetId.getD 0, m.netId)

/-- The records sorted by `(my_net_id, net_id)`. -/
def byIds (rows : List Member) : List Member :=
  rows.insertionSort fun m m' => m.sortKey ≤ m'.sortKey

/-- With one record per net there is one way to sort them. -/
theorem eq_byIds {l rows : List Member} (hn : (rows.map (·.netId)).Nodup) (hp : l.Perm rows)
    (hs : l.Pairwise fun m m' => m.sortKey ≤ m'.sortKey) : l = byIds rows := by
  have hsort : (byIds rows).Perm rows := List.perm_insertionSort _ _
  have : Std.Total fun m m' : Member => m.sortKey ≤ m'.sortKey :=
    ⟨fun m m' => le_total m.sortKey m'.sortKey⟩
  have : IsTrans Member fun m m' => m.sortKey ≤ m'.sortKey := ⟨fun _ _ _ => le_trans⟩
  refine List.Perm.eq_of_pairwise (fun m m' hm hm' hle hge => ?_) hs
    (List.pairwise_insertionSort _ _) (hp.trans hsort.symm)
  have hids : m.netId = m'.netId := congrArg (fun x => (ofLex x).2) (le_antisymm hle hge)
  exact List.inj_on_of_nodup_map hn (hp.mem_iff.mp hm) (hsort.mem_iff.mp hm') hids

/-- Records group by group are in the order of their ids, if those of each group are. -/
theorem pairwise_sortKey_flatMap {keys : List ℤ} {f : ℤ → List Member}
    (hkeys : keys.Pairwise (· < ·)) (hmy : ∀ my, ∀ m ∈ f my, m.myNetId = some my)
    (hnet : ∀ my, (f my).Pairwise fun m m' => m.netId ≤ m'.netId) :
    (keys.flatMap f).Pairwise fun m m' => m.sortKey ≤ m'.sortKey := by
  rw [List.pairwise_flatMap]
  refine ⟨fun my _ => (hnet my).imp_of_mem fun hm hm' hle => ?_,
    hkeys.imp fun hlt m hm m' hm' => ?_⟩
  · refine Prod.Lex.toLex_le_toLex.mpr (.inr ⟨?_, hle⟩)
    rw [hmy _ _ hm, hmy _ _ hm']
  · refine Prod.Lex.toLex_le_toLex.mpr (.inl ?_)
    rw [hmy _ _ hm, hmy _ _ hm']
    exact hlt

theorem pairwise_groupKeys (l : List ℤ) : (groupKeys l).Pairwise (· < ·) := by
  have hle : (groupKeys l).Pairwise (· ≤ ·) := List.sortedLE_insertionSort.pairwise
  exact (hle.and (nodup_groupKeys l)).imp fun h => lt_of_le_of_ne h.1 h.2

/-- The flat table has its records in the order of their ids. -/
theorem hierMembers_eq_byIds {sv : SortValues} {rows : List Member}
    (hn : (rows.map (·.netId)).Nodup)
    (hl : ∀ m ∈ rows, m.myNetId ≠ none) : (hierMembers sv rows).map (·.2.2) = byIds rows := by
  apply eq_byIds hn (hierMembers_perm hn hl)
  unfold hierMembers
  rw [List.map_flatMap]
  refine pairwise_sortKey_flatMap (pairwise_groupKeys _) (fun my m hm => ?_) fun my => ?_
  · obtain ⟨x, hx, rfl⟩ := List.mem_map.mp hm
    obtain ⟨n, -, hx⟩ := List.mem_filterMap.mp hx
    obtain ⟨r, hr, rfl⟩ := Option.map_eq_some_iff.mp hx
    exact ((head_sort_iff hn).mp hr).2.2
  · rw [List.map_filterMap, List.pairwise_filterMap]
    refine (pairwise_groupKeys _).imp fun {n n'} hlt m hm m' hm' => ?_
    rw [Option.map_map, Option.map_eq_some_iff] at hm hm'
    obtain ⟨r, hr, rfl⟩ := hm
    obtain ⟨r', hr', rfl⟩ := hm'
    show r.netId ≤ r'.netId
    rw [((head_sort_iff hn).mp hr).2.1, ((head_sort_iff hn).mp hr').2.1]
    exact hlt.le

/-! ## The table -/

/-- A table of nets: one labelled record for each, on a frequency, and no data under the names the
sheet has its own use for. -/
structure IsNetTable (ms : Members) : Prop where
  reserved : ∀ name ∈ ["MY_NET", "SYSTEM_NET", "Row_Type", "net_id", "my_net_id"],
    Col.other name.toList ∉ ms.cols
  nodup : (ms.rows.map (·.netId)).Nodup
  netId_pos : ∀ m ∈ ms.rows, 0 < m.netId
  myNetId_pos : ∀ m ∈ ms.rows, ∃ my, m.myNetId = some my ∧ 0 < my
  hasFrequency : ∀ m ∈ ms.rows,
    Col.num .frequencyMHz ∈ ms.cols ∧ (m.cells (.num .frequencyMHz)).isna = false

/-- A table both layouts keep: the ids are doubles, it can be sorted by `LTI`, and none of its
columns is one that the reader or the writer makes for itself. -/
structure IsSheetTable (ms : Members) : Prop extends IsNetTable ms where
  netId_le : ∀ m ∈ ms.rows, m.netId ≤ 2 ^ 53
  myNetId_le : ∀ m ∈ ms.rows, ∀ my, m.myNetId = some my → my ≤ 2 ^ 53
  hasLti : Col.lti ∈ ms.cols
  ownCols : ∀ name ∈ ["_my", "_sys", "_keep", "_LTI_dt"], Col.other name.toList ∉ ms.cols

/-- What a table says of a net: its ids, and the values in the data columns. -/
def Member.shown (cols : List Col) (m : Member) : ℤ × Option ℤ × (Col → Option Scalar) :=
  (m.netId, m.myNetId, fun c => (m.cells.only cols c).val)

theorem shown_congr {cols : List Col} {m m' : Member} (hnet : m.netId = m'.netId)
    (hmy : m.myNetId = m'.myNetId) (hcells : ∀ c ∈ cols, (m.cells c).val = (m'.cells c).val) :
    m.shown cols = m'.shown cols := by
  unfold Member.shown
  rw [hnet, hmy]
  refine congrArg (fun f => (m'.netId, m'.myNetId, f)) (funext fun c => ?_)
  by_cases hc : c ∈ cols
  · rw [Row.only_of_mem hc, Row.only_of_mem hc, hcells c hc]
  · rw [Row.only_of_notMem hc, Row.only_of_notMem hc]

/-! ## The flat layout -/

theorem SheetRow.kind_of_rowType_none {r : SheetRow} (h : r.rowType = none) : r.kind = .record := by
  unfold SheetRow.kind
  rw [h]
  rfl

theorem data_of_mem {cols : List Col} {r : SheetRow} {c : Col} (hc : c ∈ cols) :
    (r.data cols c).val = (r.cells c).val := by
  unfold SheetRow.data
  rw [if_pos hc, Cell.val_readBack]

theorem isLegacy_toSheet (cols : List Col) (nets : List HierRow) :
    (⟨cols, nets.map HierRow.toSheet⟩ : NetsSheet).isLegacy = false := by
  unfold NetsSheet.isLegacy
  rw [List.any_eq_false]
  intro r hr
  obtain ⟨r', -, rfl⟩ := List.mem_map.mp hr
  simp [SheetRow.kind_of_rowType_none (r := r'.toSheet) rfl]

/-- A sheet that `process_reports` leaves is read as `loadNets` says. -/
theorem shown_toSheet {cols : List Col} {nets : List HierRow}
    (hids : ∀ r ∈ nets, ∃ my n : ℤ, my.natAbs ≤ 2 ^ 53 ∧ n.natAbs ≤ 2 ^ 53 ∧
      r.myNet = fmtMyNet my ∧ r.systemNet = fmtSystemNet n) (logCols : List Col)
    (log : List Entry) :
    (loadSheet ⟨cols, nets.map HierRow.toSheet⟩).rows.map (Member.shown cols)
      = (loadNets (some ⟨cols, nets, logCols, log⟩)).1.rows.map (Member.shown cols) := by
  unfold loadSheet
  dsimp only
  rw [isLegacy_toSheet, if_neg Bool.false_ne_true]
  unfold flatMembers loadNets
  dsimp only
  rw [List.filterMap_map, List.map_filterMap, List.map_filterMap]
  refine List.filterMap_congr fun r hr => ?_
  obtain ⟨my, n, hmy, hn, hmyNet, hsys⟩ := hids r hr
  show ((cellId (some r.systemNet)).map fun n : ℤ => Member.mk n (cellId (some r.myNet)) none none
    (r.toSheet.data cols)).map (Member.shown cols) = ((asInt r.systemNet).map fun n : ℤ =>
      Member.mk n (asInt r.myNet) none none r.cells.readBack).map (Member.shown cols)
  rw [hmyNet, hsys, cellId_fmtMyNet hmy, cellId_fmtSystemNet hn, asInt_fmtMyNet, asInt_fmtSystemNet]
  refine congrArg some (shown_congr rfl rfl fun c hc => ?_)
  exact (data_of_mem hc).trans (r.cells.readBack_agrees c).symm

/-- A flat sheet is read back as it was written. -/
theorem shown_flat {sv : SortValues} {rows : List Member} {cols : List Col}
    (hn : (rows.map (·.netId)).Nodup)
    (hids : ∀ m ∈ rows, m.netId.natAbs ≤ 2 ^ 53 ∧
      ∀ my, m.myNetId = some my → my.natAbs ≤ 2 ^ 53) :
    (loadSheet ⟨cols, (buildHierarchical sv rows cols).map HierRow.toSheet⟩).rows.map
        (Member.shown cols)
      = ((hierMembers sv rows).map (·.2.2)).map (Member.shown cols) := by
  obtain ⟨frame, hframe⟩ := buildHierarchical_eq sv rows cols
  have hwb : (⟨cols, buildHierarchical sv rows cols, [], []⟩ : Workbook).nets
      = buildHierarchical sv rows cols := rfl
  obtain ⟨g, hg, -, -, hrows⟩ := loadNets_rows hwb
  rw [shown_toSheet ?_ [] [], hrows, List.map_map, List.map_map]
  · refine List.map_congr_left fun x hx => ?_
    obtain ⟨my, n, m⟩ := x
    obtain ⟨-, rfl, hmy⟩ := (mem_hierMembers hn).mp hx
    refine shown_congr rfl hmy.symm fun c hc => ?_
    exact (hg m.cells c).trans (congrArg Cell.val (Row.only_of_mem hc))
  · intro r hr
    rw [hframe] at hr
    obtain ⟨⟨my, n, m⟩, hx, rfl⟩ := List.mem_map.mp hr
    obtain ⟨hm, rfl, hmy⟩ := (mem_hierMembers hn).mp hx
    exact ⟨my, m.netId, (hids m hm).2 my hmy, (hids m hm).1, rfl, rfl⟩

/-! ## The legacy layout -/

/-- The header row of a `MY_NET`. -/
def myNetHeader (my : ℤ) : SheetRow where
  rowType := some "MY_NET".toList
  myNet := some (fmtMyNet my)
  cells := fun _ => .null

/-- The header row of a `SYSTEM_NET`. -/
def systemNetHeader (sys : ℤ) : SheetRow where
  rowType := some "SYSTEM_NET".toList
  systemNet := some (fmtSystemNet sys)
  cells := fun _ => .null

/-- The row of a record. -/
def recordRow (m : Member) : SheetRow where
  cells := m.cells

/-- The rows of a net. -/
def headedRows (m : Member) : List SheetRow := [systemNetHeader m.netId, recordRow m]

/-- The nets of a `MY_NET`, in the order of their ids. -/
def netsOf (rows : List Member) (my : ℤ) : List Member :=
  (rows.filter (·.myNetId = some my)).insertionSort fun m m' => m.netId ≤ m'.netId

theorem mem_netsOf {rows : List Member} {my : ℤ} {m : Member} :
    m ∈ netsOf rows my ↔ m ∈ rows ∧ m.myNetId = some my := by
  unfold netsOf
  rw [List.mem_insertionSort, List.mem_filter, decide_eq_true_iff]

/-- A table in the legacy layout. -/
def legacySheet (ms : Members) : NetsSheet where
  dataCols := ms.cols
  rows := (groupKeys (ms.rows.filterMap (·.myNetId))).flatMap fun my =>
    myNetHeader my :: (netsOf ms.rows my).flatMap headedRows

/-- The record the scan makes of a net. -/
def scanned (cols : List Col) (my : ℤ) (m : Member) : Member where
  netId := m.netId
  myNetId := some my
  cells := (recordRow m).legacyData cols (some my) m.netId

theorem kind_myNetHeader (my : ℤ) : (myNetHeader my).kind = .myNet := rfl

theorem kind_systemNetHeader (sys : ℤ) : (systemNetHeader sys).kind = .systemNet := rfl

theorem kind_recordRow (m : Member) : (recordRow m).kind = .record := rfl

section
variable {cols : List Col} {my sys : Option ℤ} {r : SheetRow} {rest : List SheetRow}

theorem legacyMembers_of_myNet (h : r.kind = .myNet) :
    legacyMembers cols my sys (r :: rest) = legacyMembers cols (cellId r.myNet) none rest := by
  simp only [legacyMembers, h]

theorem legacyMembers_of_systemNet (h : r.kind = .systemNet) :
    legacyMembers cols my sys (r :: rest) = legacyMembers cols my (cellId r.systemNet) rest := by
  simp only [legacyMembers, h]

theorem legacyMembers_of_record {n : ℤ} (h : r.kind = .record) (hdata : r.hasData cols = true) :
    legacyMembers cols my (some n) (r :: rest)
      = { netId := n, myNetId := my, cells := r.legacyData cols my n } ::
        legacyMembers cols my (some n) rest := by
  simp only [legacyMembers, h, hdata, if_true]

/-- Both ids are let go of at a `MY_NET` header. -/
theorem legacyMembers_myNetHeader {n : ℤ} (hn : n.natAbs ≤ 2 ^ 53) :
    legacyMembers cols my sys (myNetHeader n :: rest) = legacyMembers cols (some n) none rest := by
  rw [legacyMembers_of_myNet (kind_myNetHeader n)]
  show legacyMembers cols (cellId (some (fmtMyNet n))) none rest = _
  rw [cellId_fmtMyNet hn]

/-- A net is read from its two rows. -/
theorem legacyMembers_headedRows {my : ℤ} {m : Member} (hn : m.netId.natAbs ≤ 2 ^ 53)
    (hdata : (recordRow m).hasData cols = true) :
    legacyMembers cols (some my) sys (headedRows m ++ rest)
      = scanned cols my m :: legacyMembers cols (some my) (some m.netId) rest := by
  show legacyMembers cols (some my) sys (systemNetHeader m.netId :: recordRow m :: rest) = _
  rw [legacyMembers_of_systemNet (kind_systemNetHeader m.netId)]
  show legacyMembers cols (some my) (cellId (some (fmtSystemNet m.netId))) (recordRow m :: rest) = _
  rw [cellId_fmtSystemNet hn]
  exact legacyMembers_of_record (kind_recordRow m) hdata

/-- The nets of a `MY_NET` are read, if what comes after does not depend on the ids carried. -/
theorem legacyMembers_nets {my : ℤ} {l : List Member} {read : List Member}
    (hl : ∀ m ∈ l, m.netId.natAbs ≤ 2 ^ 53 ∧ (recordRow m).hasData cols = true)
    (hrest : ∀ my sys, legacyMembers cols my sys rest = read) (sys : Option ℤ) :
    legacyMembers cols (some my) sys (l.flatMap headedRows ++ rest)
      = l.map (scanned cols my) ++ read := by
  induction l generalizing sys with
  | nil => exact hrest (some my) sys
  | cons m l ih =>
    obtain ⟨hn, hdata⟩ := hl m List.mem_cons_self
    rw [List.flatMap_cons, List.append_assoc, legacyMembers_headedRows hn hdata,
      ih fun m' hm' => hl m' (List.mem_cons_of_mem _ hm')]
    rfl

/-- A legacy sheet is read one `MY_NET` after the other. -/
theorem legacyMembers_groups {keys : List ℤ} {f : ℤ → List Member}
    (hkeys : ∀ my ∈ keys, my.natAbs ≤ 2 ^ 53)
    (hf : ∀ my, ∀ m ∈ f my, m.netId.natAbs ≤ 2 ^ 53 ∧ (recordRow m).hasData cols = true)
    (my sys : Option ℤ) :
    legacyMembers cols my sys (keys.flatMap fun my => myNetHeader my :: (f my).flatMap headedRows)
      = keys.flatMap fun my => (f my).map (scanned cols my) := by
  induction keys generalizing my sys with
  | nil => rfl
  | cons n keys ih =>
    rw [List.flatMap_cons, List.flatMap_cons, List.cons_append,
      legacyMembers_myNetHeader (hkeys n List.mem_cons_self)]
    exact legacyMembers_nets (hf n) (ih fun my hmy => hkeys my (List.mem_cons_of_mem _ hmy)) none

end

/-! ## Decoding undoes encoding -/

section
variable {ms : Members}

theorem IsNetTable.labelled (h : IsNetTable ms) : ∀ m ∈ ms.rows, m.myNetId ≠ none := by
  intro m hm hnone
  obtain ⟨my, hmy, -⟩ := h.myNetId_pos m hm
  rw [hnone] at hmy
  exact nomatch hmy

/-- The ids of the table are doubles. -/
theorem IsSheetTable.ids (h : IsSheetTable ms) : ∀ m ∈ ms.rows, m.netId.natAbs ≤ 2 ^ 53 ∧
    ∀ my, m.myNetId = some my → my.natAbs ≤ 2 ^ 53 := by
  intro m hm
  have hpos := h.netId_pos m hm
  have hle := h.netId_le m hm
  refine ⟨by omega, fun my hmy => ?_⟩
  obtain ⟨my', hmy', hpos'⟩ := h.myNetId_pos m hm
  obtain rfl := Option.some.inj (hmy'.symm.trans hmy)
  have hle' := h.myNetId_le m hm my' hmy
  omega

theorem IsNetTable.hasData (h : IsNetTable ms) : ∀ m ∈ ms.rows,
    (recordRow m).hasData ms.cols = true := by
  intro m hm
  obtain ⟨hcol, hna⟩ := h.hasFrequency m hm
  have hna' : ((recordRow m).data ms.cols (.num .frequencyMHz)).isna = false := by
    rw [← hna]
    exact Cell.isna_congr (data_of_mem hcol)
  unfold SheetRow.hasData
  simp [hcol, hna']

/-- The nets of all `MY_NET`s are the records of the table in the order of their ids. -/
theorem IsNetTable.flatMap_netsOf (h : IsNetTable ms) :
    (groupKeys (ms.rows.filterMap (·.myNetId))).flatMap (netsOf ms.rows) = byIds ms.rows := by
  have hrows : ms.rows.Nodup := .of_map _ h.nodup
  apply eq_byIds h.nodup
  · have hnodup : ((groupKeys (ms.rows.filterMap (·.myNetId))).flatMap (netsOf ms.rows)).Nodup := by
      rw [List.nodup_flatMap]
      refine ⟨fun my _ => ?_, (nodup_groupKeys _).imp fun {my my'} hne m hm hm' => ?_⟩
      · exact (List.perm_insertionSort _ _).nodup_iff.mpr (hrows.filter _)
      · exact hne (Option.some.inj ((mem_netsOf.mp hm).2.symm.trans (mem_netsOf.mp hm').2))
    rw [List.perm_ext_iff_of_nodup hnodup hrows]
    intro m
    rw [List.mem_flatMap]
    refine ⟨fun hm => ?_, fun hm => ?_⟩
    · obtain ⟨my, -, hm⟩ := hm
      exact (mem_netsOf.mp hm).1
    · obtain ⟨my, hmy, -⟩ := h.myNetId_pos m hm
      exact ⟨my, mem_groupKeys.mpr (List.mem_filterMap.mpr ⟨m, hm, hmy⟩),
        mem_netsOf.mpr ⟨hm, hmy⟩⟩
  · refine pairwise_sortKey_flatMap (pairwise_groupKeys _) (fun my m hm => (mem_netsOf.mp hm).2)
      fun my => ?_
    have : Std.Total fun m m' : Member => m.netId ≤ m'.netId :=
      ⟨fun m m' => le_total m.netId m'.netId⟩
    have : IsTrans Member fun m m' => m.netId ≤ m'.netId := ⟨fun _ _ _ => le_trans⟩
    exact List.pairwise_insertionSort _ _

theorem shown_stampLti (h : IsSheetTable ms) (m : Member) :
    (stampLti m).shown ms.cols = m.shown ms.cols := by
  refine shown_congr rfl rfl fun c hc => ?_
  have hne : c ≠ ltiDt := by
    intro heq
    rw [heq] at hc
    exact h.ownCols "_LTI_dt" (by decide) hc
  show (if c = ltiDt then _ else m.cells c).val = _
  rw [if_neg hne]

theorem shown_scanned (h : IsSheetTable ms) {my : ℤ} {m : Member} (hmy : m.myNetId = some my) :
    (scanned ms.cols my m).shown ms.cols = m.shown ms.cols := by
  refine shown_congr rfl hmy.symm fun c hc => ?_
  have hne : ∀ name ∈ ["_my", "_sys", "_keep", "_LTI_dt"], c ≠ Col.other name.toList := by
    intro name hname heq
    rw [heq] at hc
    exact h.ownCols name hname hc
  show ((recordRow m).legacyData ms.cols (some my) m.netId c).val = _
  unfold SheetRow.legacyData
  rw [if_neg (not_not.mpr hc), if_neg (hne "_my" (by decide)), if_neg (hne "_sys" (by decide)),
    if_neg (hne "_keep" (by decide))]
  exact data_of_mem hc

/-- The records stamped for the writer are in the same order. -/
theorem byIds_map_stampLti (rows : List Member) :
    byIds (rows.map stampLti) = (byIds rows).map stampLti :=
  (List.map_insertionSort _ _ stampLti rows fun _ _ _ _ => Iff.rfl).symm

/-- What the flat sheet of a table is read as. -/
theorem IsSheetTable.flat (h : IsSheetTable ms) (sv : SortValues) :
    (loadSheet ⟨ms.cols, (buildHierarchical sv (ms.rows.map stampLti) ms.cols).map
        HierRow.toSheet⟩).rows.map (Member.shown ms.cols)
      = (byIds ms.rows).map (Member.shown ms.cols) := by
  have hn : ((ms.rows.map stampLti).map (·.netId)).Nodup := by
    rw [List.map_map]
    exact h.nodup
  rw [shown_flat hn, hierMembers_eq_byIds hn, byIds_map_stampLti, List.map_map]
  · exact List.map_congr_left fun m _ => shown_stampLti h m
  · intro m hm
    obtain ⟨m', hm', rfl⟩ := List.mem_map.mp hm
    exact h.labelled m' hm'
  · intro m hm
    obtain ⟨m', hm', rfl⟩ := List.mem_map.mp hm
    exact h.ids m' hm'

/-- A table with a net has a header in the legacy layout. -/
theorem IsNetTable.isLegacy (h : IsNetTable ms) (hrows : ms.rows ≠ []) :
    (legacySheet ms).isLegacy = true := by
  obtain ⟨m, hm⟩ := List.exists_mem_of_ne_nil _ hrows
  obtain ⟨my, hmy, -⟩ := h.myNetId_pos m hm
  have hheader : myNetHeader my ∈ (legacySheet ms).rows :=
    List.mem_flatMap.mpr
      ⟨my, mem_groupKeys.mpr (List.mem_filterMap.mpr ⟨m, hm, hmy⟩), List.mem_cons_self⟩
  unfold NetsSheet.isLegacy
  rw [List.any_eq_true]
  exact ⟨myNetHeader my, hheader, rfl⟩

/-- What the legacy sheet of a table is read as. -/
theorem IsSheetTable.legacy (h : IsSheetTable ms) (hrows : ms.rows ≠ []) :
    (loadSheet (legacySheet ms)).rows.map (Member.shown ms.cols)
      = (byIds ms.rows).map (Member.shown ms.cols) := by
  have hscan : (loadSheet (legacySheet ms)).rows =
      (groupKeys (ms.rows.filterMap (·.myNetId))).flatMap fun my =>
        (netsOf ms.rows my).map (scanned ms.cols my) := by
    unfold loadSheet
    dsimp only
    rw [if_pos (h.isLegacy hrows)]
    refine legacyMembers_groups (fun my hmy => ?_) (fun my m hm => ?_) none none
    · obtain ⟨m, hm, hmy⟩ := List.mem_filterMap.mp (mem_groupKeys.mp hmy)
      exact (h.ids m hm).2 my hmy
    · have hm := (mem_netsOf.mp hm).1
      exact ⟨(h.ids m hm).1, h.hasData m hm⟩
  rw [hscan, ← h.flatMap_netsOf, List.map_flatMap, List.map_flatMap]
  refine List.flatMap_congr fun my _ => ?_
  rw [List.map_map]
  exact List.map_congr_left fun m hm => shown_scanned h (mem_netsOf.mp hm).2

/-- Both layouts of a table are read back as its records and columns, sorted by the ids. -/
def Decodes (sv : SortValues) (ms : Members) : Prop :=
  ∃ sheet, buildSheet sv ms ms.cols = .ok sheet ∧
    (loadSheet sheet).rows.map (Member.shown ms.cols)
      = (byIds ms.rows).map (Member.shown ms.cols) ∧
    (loadSheet (legacySheet ms)).rows.map (Member.shown ms.cols)
      = (byIds ms.rows).map (Member.shown ms.cols) ∧
    (loadSheet sheet).cols = ms.cols ∧ (loadSheet (legacySheet ms)).cols = ms.cols

theorem layouts_agree (sv : SortValues) (h : IsSheetTable ms) : Decodes sv ms := by
  by_cases hrows : ms.rows = []
  · have hlegacy : legacySheet ms = ⟨ms.cols, []⟩ := by
      unfold legacySheet
      rw [hrows]
      rfl
    refine ⟨⟨ms.cols, []⟩, if_pos hrows, ?_, ?_, rfl, rfl⟩
    · rw [hrows]
      rfl
    · rw [hlegacy, hrows]
      rfl
  · exact ⟨_, (if_neg hrows).trans (if_neg (not_not.mpr h.hasLti)), h.flat sv, h.legacy hrows, rfl,
      rfl⟩

end

/-! ## Tables of few nets -/

/-- Nets of one `MY_NET`, with the given columns. -/
def netsOn (cols : List Col) (ids : List ℤ) : Members where
  cols := cols
  dtype _ := .object
  rows := ids.map fun n =>
    { netId := n
      myNetId := some 1
      cells := fun
        | .num _ => .int 100
        | .lti => .str "01-01-2024 00:00:00".toList
        | .other _ => .str "data".toList
        | _ => .null }

theorem isNetTable_netsOn {cols : List Col} {ids : List ℤ} (hn : ids.Nodup)
    (hpos : ∀ n ∈ ids, 0 < n) (hf : Col.num .frequencyMHz ∈ cols)
    (hr : ∀ name ∈ ["MY_NET", "SYSTEM_NET", "Row_Type", "net_id", "my_net_id"],
      Col.other name.toList ∉ cols) : IsNetTable (netsOn cols ids) := by
  have hrow : ∀ m ∈ (netsOn cols ids).rows, m.netId ∈ ids ∧ m.myNetId = some 1 ∧
      m.cells (.num .frequencyMHz) = .int 100 := by
    intro m hm
    obtain ⟨n, hn, rfl⟩ := List.mem_map.mp hm
    exact ⟨hn, rfl, rfl⟩
  refine ⟨hr, ?_, fun m hm => hpos _ (hrow m hm).1, fun m hm => ⟨1, (hrow m hm).2.1, by omega⟩,
    fun m hm => ⟨hf, ?_⟩⟩
  · unfold netsOn
    rw [List.map_map]
    exact (List.map_id ids).symm ▸ hn
  · rw [(hrow m hm).2.2]
    rfl

/-- A net and its value in a column. -/
def Member.cellOf (cols : List Col) (c : Col) (m : Member) : ℤ × Option Scalar :=
  (m.netId, (m.cells.only cols c).val)

/-- What both layouts give back of one column. -/
theorem Decodes.column {sv : SortValues} {ms : Members} (h : Decodes sv ms) (c : Col) :
    (buildSheet sv ms ms.cols).toOption.map (fun sheet =>
        (loadSheet sheet).rows.map (Member.cellOf ms.cols c))
      = some ((byIds ms.rows).map (Member.cellOf ms.cols c)) ∧
    (loadSheet (legacySheet ms)).rows.map (Member.cellOf ms.cols c)
      = (byIds ms.rows).map (Member.cellOf ms.cols c) := by
  have hcol : ∀ {l l' : List Member},
      l.map (Member.shown ms.cols) = l'.map (Member.shown ms.cols) →
        l.map (Member.cellOf ms.cols c) = l'.map (Member.cellOf ms.cols c) := by
    intro l l' hl
    have := congrArg (List.map fun x => (x.1, x.2.2 c)) hl
    rwa [List.map_map, List.map_map] at this
  obtain ⟨sheet, hsheet, hflat, hlegacy, -⟩ := h
  rw [hsheet]
  exact ⟨congrArg some (hcol hflat), hcol hlegacy⟩

/-- Without `LTI` nothing is written; an id that is no double is read as another; and the columns
that the reader or the writer makes for itself are not those of the table. -/
theorem not_decodes :
    (IsNetTable (netsOn [.num .frequencyMHz] [100001]) ∧
      ¬ Decodes .stable (netsOn [.num .frequencyMHz] [100001])) ∧
    (IsNetTable (netsOn [.num .frequencyMHz, .lti] [9007199254740993]) ∧
      ¬ Decodes .stable (netsOn [.num .frequencyMHz, .lti] [9007199254740993])) ∧
    ∀ name ∈ ["_my", "_sys", "_keep", "_LTI_dt"],
      IsNetTable (netsOn [.num .frequencyMHz, .lti, .other name.toList] [100001]) ∧
        ¬ Decodes .stable (netsOn [.num .frequencyMHz, .lti, .other name.toList] [100001]) := by
  refine ⟨⟨isNetTable_netsOn (by decide) (by decide) (by decide) (by decide), fun h => ?_⟩,
    ⟨isNetTable_netsOn (by decide) (by decide) (by decide) (by decide), fun h => ?_⟩,
    fun name hname => ⟨isNetTable_netsOn (by decide) (by decide) List.mem_cons_self ?_,
      fun h => ?_⟩⟩
  · obtain ⟨sheet, hsheet, -⟩ := h
    exact nomatch hsheet
  · exact absurd (h.column .lti).2 (by decide +kernel)
  · revert name
    decide +kernel
  · refine absurd (h.column (.other name.toList)) ?_
    clear h
    revert name
    decide +kernel

/-- Two nets of one `MY_NET`. -/
theorem layouts_agree_twoNets :
    Decodes .stable (netsOn [.num .frequencyMHz, .lti] [100002, 100001]) := by
  refine layouts_agree .stable ⟨isNetTable_netsOn (by decide) (by decide) (by decide) (by decide),
    by decide, fun m hm my hmy => ?_, by decide, by decide⟩
  obtain ⟨n, -, rfl⟩ := List.mem_map.mp hm
  obtain rfl := Option.some.inj hmy
  decide

end NetBuild
