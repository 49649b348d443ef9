import NetBuild.Lib.Table
import Mathlib.Data.Fintype.Basic
import Mathlib.Data.Fintype.Sets

/-!
# Column stores and record maps

A column store keeps a cell for each key and column, and every write to it is an upsert of the
columns it names: it asks nothing about what is there. A row is there when an insert has made it
or any of its cells holds a value.

A record map is what such a store is often taken for: an insert puts a whole record at its key,
an update changes the record at its key if there is one. A step of the store is the step of the
record map exactly when an insert names every column that holds a value at its key, and an update
finds a row or sets no value; for an update this takes rows that inserts have made, which runs of
such steps keep.
-/

variable {K C V : Type}

/-- What a write says about each column: nothing, or what it leaves there, `none` for no value. -/
abbrev RowPatch (C V : Type) := C → Option (Option V)

namespace RowPatch

/-- The cells after the write. -/
def apply (w : RowPatch C V) (cells : C → Option V) : C → Option V :=
  fun c => (w c).getD (cells c)

/-- The write as a record of its own: a column it does not name has no value. -/
def record (w : RowPatch C V) : C → Option V := fun c => (w c).join

theorem apply_none (w : RowPatch C V) : (w.apply fun _ => none) = w.record := by
  funext c
  rw [apply, record]
  rcases w c with _ | v <;> rfl

theorem apply_eq_record_iff (w : RowPatch C V) (cells : C → Option V) :
    w.apply cells = w.record ↔ ∀ c, w c = none → cells c = none := by
  rw [funext_iff]
  refine forall_congr' fun c => ?_
  rw [apply, record]
  rcases w c with _ | v <;> simp

/-- The write sets some column to a value. -/
def SetsValue (w : RowPatch C V) : Prop := ∃ c v, w c = some (some v)

theorem record_eq_none_iff (w : RowPatch C V) : (w.record = fun _ => none) ↔ ¬ w.SetsValue := by
  rw [SetsValue, not_exists, funext_iff]
  refine forall_congr' fun c => ?_
  rw [record]
  rcases w c with _ | _ | v <;> simp

end RowPatch

/-- A row as a store keeps it. -/
structure StoredRow (C V : Type) where
  /-- An insert has made the row. -/
  inserted : Bool
  cells : C → Option V

/-- The rows of a column store, those that are not there with no cell. -/
abbrev ColumnStore (K C V : Type) := K → StoredRow C V

/-! ## Which rows are there -/

namespace StoredRow

/-- No row. -/
def absent : StoredRow C V := ⟨false, fun _ => none⟩

variable [Fintype C]

/-- What a read finds of a row: its cells, when it is there. -/
def read (r : StoredRow C V) : Option (C → Option V) :=
  if r.inserted = true ∨ ∃ c, (r.cells c).isSome = true then some r.cells else none

theorem read_absent : (absent : StoredRow C V).read = none := by
  simp [read, absent]

theorem read_of_inserted {r : StoredRow C V} (h : r.inserted = true) : r.read = some r.cells :=
  if_pos (.inl h)

theorem read_of_not_inserted (cells : C → Option V) :
    (⟨false, cells⟩ : StoredRow C V).read = none ↔ cells = fun _ => none := by
  simp [read, funext_iff]

theorem cells_eq_getD_read (r : StoredRow C V) : r.cells = r.read.getD fun _ => none := by
  rcases r with ⟨_ | _, cells⟩
  · rcases h : (⟨false, cells⟩ : StoredRow C V).read with _ | cells'
    · exact (read_of_not_inserted cells).mp h
    · rw [read] at h
      split at h
      · exact Option.some.inj h
      · exact nomatch h
  · rfl

end StoredRow

namespace ColumnStore

/-- The store with no rows. -/
def empty : ColumnStore K C V := fun _ => .absent

variable [Fintype C]

/-- What reads of the store find. -/
def rows (s : ColumnStore K C V) : Table K (C → Option V) := fun k => (s k).read

theorem rows_empty : rows (empty : ColumnStore K C V) = Table.empty :=
  funext fun _ => StoredRow.read_absent

/-- Every row that is there has been made by an insert. -/
def AllInserted (s : ColumnStore K C V) : Prop := ∀ k, rows s k ≠ none → (s k).inserted = true

theorem allInserted_empty : AllInserted (empty : ColumnStore K C V) := fun k h =>
  absurd (congrFun rows_empty k) h

/-- What a write leaves of a row goes by the row that was there. -/
theorem cells_eq_of_rows (s : ColumnStore K C V) (k : K) :
    (s k).cells = (rows s k).getD fun _ => none := (s k).cells_eq_getD_read

/-! ## Writes -/

variable [DecidableEq K]

/-- Write the columns given, and mark the row as made. -/
def insert (s : ColumnStore K C V) (k : K) (w : RowPatch C V) : ColumnStore K C V :=
  Function.update s k ⟨true, w.apply (s k).cells⟩

/-- Write the columns given. -/
def update (s : ColumnStore K C V) (k : K) (w : RowPatch C V) : ColumnStore K C V :=
  Function.update s k ⟨(s k).inserted, w.apply (s k).cells⟩

/-- Remove the row. -/
def delete (s : ColumnStore K C V) (k : K) : ColumnStore K C V := Function.update s k .absent

theorem rows_update_stored (s : ColumnStore K C V) (k : K) (r : StoredRow C V) (k' : K) :
    rows (Function.update s k r) k' = if k' = k then r.read else rows s k' := by
  unfold rows
  rw [Function.update_apply]
  split <;> rfl

theorem rows_insert (s : ColumnStore K C V) (k : K) (w : RowPatch C V) :
    rows (insert s k w) = (rows s).upsert k (w.apply (s k).cells) := by
  funext k'
  rw [insert, rows_update_stored, Table.upsert_apply, StoredRow.read_of_inserted rfl]

theorem rows_delete (s : ColumnStore K C V) (k : K) :
    rows (delete s k) = (rows s).delete k := by
  funext k'
  rw [delete, rows_update_stored, Table.delete_apply, StoredRow.read_absent]

/-- An update of a row that is there, made by an insert, changes its cells. -/
theorem rows_update_of_inserted {s : ColumnStore K C V} {k : K} (h : (s k).inserted = true)
    (w : RowPatch C V) :
    rows (update s k w) = (rows s).upsert k (w.apply (s k).cells) := by
  funext k'
  rw [update, rows_update_stored, Table.upsert_apply, h, StoredRow.read_of_inserted rfl]

/-- An update where no row is leaves a row when it sets a value. -/
theorem rows_update_of_none {s : ColumnStore K C V} {k : K} (h : rows s k = none)
    (w : RowPatch C V) :
    rows (update s k w) k = none ↔ ¬ w.SetsValue := by
  have hins : (s k).inserted = false := by
    rcases hi : (s k).inserted with _ | _
    · rfl
    · rw [rows, StoredRow.read_of_inserted hi] at h
      exact nomatch h
  have hcells : w.apply (s k).cells = w.record := by
    rw [cells_eq_of_rows, h, Option.getD_none, w.apply_none]
  rw [update, rows_update_stored, if_pos rfl, hcells, ← w.record_eq_none_iff, hins,
    StoredRow.read_of_not_inserted]

omit [Fintype C] in
/-- A write that names no column changes nothing. -/
theorem update_of_forall_none (s : ColumnStore K C V) (k : K) {w : RowPatch C V}
    (h : ∀ c, w c = none) : update s k w = s := by
  have hcells : w.apply (s k).cells = (s k).cells := funext fun c => by
    rw [RowPatch.apply, h, Option.getD_none]
  rw [update, hcells]
  exact Function.update_eq_self k s

theorem rows_update_of_ne (s : ColumnStore K C V) {k k' : K} (h : k' ≠ k)
    (w : RowPatch C V) : rows (update s k w) k' = rows s k' := by
  rw [update, rows_update_stored, if_neg h]

end ColumnStore

/-! ## The record map -/

namespace RecordMap

variable [DecidableEq K]

/-- Put a whole record at a key. -/
def put (m : Table K (C → Option V)) (k : K) (w : RowPatch C V) : Table K (C → Option V) :=
  m.upsert k w.record

/-- Change the record at a key, if there is one. -/
def change (m : Table K (C → Option V)) (k : K) (w : RowPatch C V) : Table K (C → Option V) :=
  match m k with
  | some r => m.upsert k (w.apply r)
  | none => m

end RecordMap

namespace ColumnStore

variable [DecidableEq K] [Fintype C]

/-- An insert puts the whole record exactly when it names every column that holds a value. -/
theorem rows_insert_eq_put_iff (s : ColumnStore K C V) (k : K) (w : RowPatch C V) :
    rows (insert s k w) = RecordMap.put (rows s) k w ↔
      ∀ r, rows s k = some r → ∀ c, w c = none → r c = none := by
  have hinj : (rows s).upsert k (w.apply (s k).cells) = (rows s).upsert k w.record ↔
      w.apply (s k).cells = w.record := by
    refine ⟨fun h => ?_, fun h => by rw [h]⟩
    have hk := congrFun h k
    rwa [Table.upsert_self, Table.upsert_self, Option.some.injEq] at hk
  rw [rows_insert, RecordMap.put, hinj, w.apply_eq_record_iff, cells_eq_of_rows]
  rcases rows s k with _ | r
  · exact ⟨nofun, fun _ _ _ => rfl⟩
  · exact ⟨fun h r' hr' => Option.some.inj hr' ▸ h, fun h => h r rfl⟩

/-- An update changes the record, and brings none into being, exactly when there is one or it sets
no value. -/
theorem rows_update_eq_change_iff {s : ColumnStore K C V} (hs : AllInserted s) (k : K)
    (w : RowPatch C V) :
    rows (update s k w) = RecordMap.change (rows s) k w ↔ rows s k ≠ none ∨ ¬ w.SetsValue := by
  unfold RecordMap.change
  rcases hr : rows s k with _ | r
  · refine ⟨fun h => .inr ?_, fun h => ?_⟩
    · have hk := congrFun h k
      rw [← rows_update_of_none hr, hk]
      exact hr
    · funext k'
      by_cases he : k' = k
      · subst he
        exact ((rows_update_of_none hr w).mpr (h.resolve_left (not_not_intro rfl))).trans hr.symm
      · exact rows_update_of_ne s he w
  · have hins : (s k).inserted = true := hs k (by rw [hr]; exact Option.some_ne_none r)
    have hcells : (s k).cells = r := by rw [cells_eq_of_rows, hr, Option.getD_some]
    rw [rows_update_of_inserted hins, hcells]
    exact ⟨fun _ => .inl (Option.some_ne_none r), fun _ => rfl⟩

/-! ## Rows stay made by inserts -/

theorem AllInserted.insert {s : ColumnStore K C V} (hs : AllInserted s) (k : K)
    (w : RowPatch C V) : AllInserted (insert s k w) := by
  intro k' hk'
  by_cases he : k' = k
  · rw [ColumnStore.insert, he, Function.update_self]
  · rw [ColumnStore.insert, rows_update_stored, if_neg he] at hk'
    rw [ColumnStore.insert, Function.update_of_ne he]
    exact hs k' hk'

theorem AllInserted.delete {s : ColumnStore K C V} (hs : AllInserted s) (k : K) :
    AllInserted (delete s k) := by
  intro k' hk'
  rw [rows_delete, Table.delete_apply] at hk'
  split at hk'
  · exact absurd rfl hk'
  · next he =>
    rw [ColumnStore.delete, Function.update_of_ne he]
    exact hs k' hk'

theorem AllInserted.update {s : ColumnStore K C V} (hs : AllInserted s) {k : K}
    {w : RowPatch C V} (h : rows s k ≠ none ∨ ¬ w.SetsValue) : AllInserted (update s k w) := by
  intro k' hk'
  by_cases he : k' = k
  · subst he
    rw [ColumnStore.update, Function.update_self]
    refine hs k' fun hnone => hk' ?_
    exact (rows_update_of_none hnone w).mpr (h.resolve_left (not_not_intro hnone))
  · rw [rows_update_of_ne s he] at hk'
    rw [ColumnStore.update, Function.update_of_ne he]
    exact hs k' hk'

/-! ## What cells and keys hold -/

variable {P : C → V → Prop} {Q : K → Prop}

omit [DecidableEq K] [Fintype C] in
variable (P) in
/-- Each cell has no value or one that is allowed in its column. -/
def CellsIn (s : ColumnStore K C V) : Prop := ∀ k c v, (s k).cells c = some v → P c v

omit [DecidableEq K] in
variable (Q) in
/-- The rows that are there are under keys that are allowed. -/
def KeysIn (s : ColumnStore K C V) : Prop := ∀ k, rows s k ≠ none → Q k

omit [DecidableEq K] [Fintype C] in
theorem cellsIn_empty : CellsIn P (empty : ColumnStore K C V) := fun _ _ _ h => nomatch h

omit [DecidableEq K] in
theorem keysIn_empty : KeysIn Q (empty : ColumnStore K C V) := fun k h =>
  absurd (congrFun rows_empty k) h

omit [Fintype C] in
/-- A write of allowed values to one row keeps the cells allowed. -/
theorem CellsIn.write {s : ColumnStore K C V} (hs : CellsIn P s) {w : RowPatch C V}
    (hw : ∀ c v, w c = some (some v) → P c v) (k : K) (inserted : Bool) :
    CellsIn P (Function.update s k ⟨inserted, w.apply (s k).cells⟩) := by
  intro k' c v h
  by_cases he : k' = k
  · subst he
    rw [Function.update_self] at h
    change (w c).getD ((s k').cells c) = some v at h
    rcases hc : w c with _ | x
    · rw [hc] at h
      exact hs k' c v h
    · rw [hc] at h
      exact hw c v (hc.trans (congrArg some h))
  · rw [Function.update_of_ne he] at h
    exact hs k' c v h

omit [Fintype C] in
theorem CellsIn.delete {s : ColumnStore K C V} (hs : CellsIn P s) (k : K) :
    CellsIn P (delete s k) := by
  intro k' c v h
  by_cases he : k' = k
  · rw [ColumnStore.delete, he, Function.update_self] at h
    exact nomatch h
  · rw [ColumnStore.delete, Function.update_of_ne he] at h
    exact hs k' c v h

theorem KeysIn.write {s : ColumnStore K C V} (hs : KeysIn Q s) {k : K} (hk : Q k)
    (r : StoredRow C V) : KeysIn Q (Function.update s k r) := by
  intro k' h
  by_cases he : k' = k
  · exact he ▸ hk
  · rw [rows_update_stored, if_neg he] at h
    exact hs k' h

theorem KeysIn.delete {s : ColumnStore K C V} (hs : KeysIn Q s) (k : K) :
    KeysIn Q (delete s k) := by
  intro k' h
  rw [rows_delete, Table.delete_apply] at h
  split at h
  · exact absurd rfl h
  · exact hs k' h

end ColumnStore
