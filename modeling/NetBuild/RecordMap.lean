import NetBuild.PathKeys
import NetBuild.Lib.Fold

/-!
# The record map

What the CRUD endpoints promise is a map of whole records: `create` makes the record at its key
exactly the body, `update` changes the record at its key and brings none into being, `destroy`
removes its own key. What they do is upsert columns of types that round or refuse some values. A
run shows the record map, after each of its requests, exactly when every `create` and every `update`
of a record posts values that their columns hold as they are, every `create` posts each column that
the record at its key holds a value in, if there is one, and every `update` where no record is sets
no column or is refused.
-/

namespace NetBuild

variable {C B : Type} [DecidableEq C]

/-! ## What is promised -/

/-- The records a viewset serves, by the values of the key columns. -/
abbrev RecordTable (C : Type) : Type := Table (List Value) (C → Option Value)

namespace ViewSet

variable (T : ViewSet C)

/-- The record at the body's key is the body; a column that is not posted is null. -/
def recordCreate (data : RowPatch C Value) (m : RecordTable C) : RecordTable C :=
  match T.keyOf data with
  | some key => m.upsert key data.record
  | none => m

/-- The record at the key, if there is one, gets the values given, its key columns apart. -/
def recordUpdate (key : List Value) (data : RowPatch C Value) (m : RecordTable C) : RecordTable C :=
  match m key with
  | some r => m.upsert key fun c => if c ∈ T.primaryKeyColumns then r c else (data c).getD (r c)
  | none => m

end ViewSet

section
variable (F : RestFramework C B) (D : CqlDriver) (T : ViewSet C)

/-- What a request makes of the records. -/
def recordServe (m : RecordTable C) : Bool × Request B → RecordTable C
  | (false, _) => m
  | (true, .create body) =>
    match F.validatedData false body with
    | some data => T.recordCreate data m
    | none => m
  | (true, .update pk body) =>
    match parsePrimaryKey F T pk, F.validatedData true body with
    | .ok keyValues, some data => T.recordUpdate (keyValues.map Prod.snd) data m
    | _, _ => m
  | (true, .destroy pk) =>
    match parsePrimaryKey F T pk with
    | .ok keyValues => m.delete (keyValues.map Prod.snd)
    | .error _ => m

/-- What `retrieve` answers from the records. A key that the driver refuses is of no record, and the
answer is an error. -/
def recordRetrieve (ready : Bool) (pk : Option Text) (m : RecordTable C) : Response C :=
  if ready = false then serviceUnavailable else
  match parsePrimaryKey F T pk with
  | .error reason => .badRequest reason
  | .ok keyValues =>
    if T.bindKey D keyValues = none then .serverError else
    match m (keyValues.map Prod.snd) with
    | none => .notFound
    | some row => .ok row

/-- The columns hold the values as they are posted. -/
def ViewSet.StoresExactly (row : RowPatch C Value) : Prop :=
  ∀ c v, row c = some (some v) → D.store (T.columnType c) v = some v

/-- The driver refuses the key of an `UPDATE` or a value it sets. -/
def ViewSet.Refuses (keyValues : List (C × Value)) (fields : RowPatch C Value) : Prop :=
  T.bindKey D keyValues = none ∨ ¬ T.Takes D fields

instance (keyValues : List (C × Value)) (fields : RowPatch C Value) :
    Decidable (T.Refuses D keyValues fields) := inferInstanceAs (Decidable (_ ∨ _))

/-- The request does to the records what it promises: a `create` posts values that are stored as
they are, and over a record it posts every column the record has a value in; an `update` of a record
sets values that are stored as they are, and where no record is it sets no column or is refused. -/
def StepOk (m : RecordTable C) : Bool × Request B → Prop
  | (true, .create body) => ∀ data key, F.validatedData false body = some data →
      T.keyOf data = some key → T.StoresExactly D data ∧
        ∀ r, m key = some r → ∀ c, data c = none → r c = none
  | (true, .update pk body) => ∀ keyValues data, parsePrimaryKey F T pk = .ok keyValues →
      F.validatedData true body = some data →
      (m (keyValues.map Prod.snd) ≠ none → T.StoresExactly D (updatableFields T data)) ∧
        (m (keyValues.map Prod.snd) = none → T.Refuses D keyValues (updatableFields T data) ∨
          ∀ c v, updatableFields T data c ≠ some (some v))
  | _ => True

end

/-! ## The records of a table -/

namespace ViewSet

variable {T : ViewSet C}

variable (T) in
/-- What `get` finds for the values of each key. -/
def records (s : T.Store) : RecordTable C := Table.mapRows T.row s.rows

theorem row_injective (key : List Value) : Function.Injective (T.row key) := by
  intro a b h
  funext c
  have hrow := congrFun h c
  rwa [row, row, dif_neg c.2, dif_neg c.2] at hrow

/-- The key of a body has the body's values, under the key columns. -/
theorem lookup_keyOf {data : RowPatch C Value} {key : List Value}
    (h : T.keyOf data = some key) {c : C} (hc : c ∈ T.primaryKeyColumns) :
    (T.primaryKeyColumns.zip key).lookup c = (data c).join ∧ (data c).join ≠ none := by
  unfold keyOf at h
  generalize T.primaryKeyColumns = cols at h hc ⊢
  induction cols generalizing key with
  | nil => exact absurd hc List.not_mem_nil
  | cons a cols ih =>
    rw [List.mapM_cons] at h
    obtain ⟨v, hv, h⟩ := Option.bind_eq_some_iff.mp h
    obtain ⟨vs, hvs, h⟩ := Option.bind_eq_some_iff.mp h
    obtain rfl := Option.some.inj h
    rw [List.zip_cons_cons, List.lookup_cons]
    by_cases hca : c = a
    · subst hca
      rw [beq_self_eq_true, hv]
      exact ⟨rfl, Option.some_ne_none v⟩
    · rw [beq_false_of_ne hca]
      exact ih hvs ((List.mem_cons.mp hc).resolve_left hca)

/-- A body with a whole key is the row that its insert into no row leaves. -/
theorem record_eq_row {data : RowPatch C Value} {key : List Value}
    (h : T.keyOf data = some key) :
    data.record = T.row key (regular (T := T) data).record := by
  funext c
  unfold row
  split
  · next hc => exact (lookup_keyOf h hc).1.symm
  · rfl

theorem recordUpdate_row (key : List Value) (data : RowPatch C Value)
    (cells : T.Regular → Option Value) :
    (fun c => if c ∈ T.primaryKeyColumns then T.row key cells c
      else (data c).getD (T.row key cells c))
        = T.row key ((regular (T := T) (updatableFields T data)).apply cells) := by
  funext c
  unfold row
  by_cases hc : c ∈ T.primaryKeyColumns
  · rw [if_pos hc, dif_pos hc, dif_pos hc]
  · rw [if_neg hc, dif_neg hc, dif_neg hc]
    unfold RowPatch.apply regular updatableFields
    rw [if_neg hc]

theorem records_eq_none_iff (s : T.Store) (key : List Value) :
    T.records s key = none ↔ s.rows key = none := Option.map_eq_none_iff

theorem records_eq (s : T.Store) (key : List Value) :
    T.records s key = (s.rows key).map (T.row key) := rfl

theorem updatableFields_of_mem {data : RowPatch C Value} {c : C} (hc : c ∈ T.primaryKeyColumns) :
    updatableFields T data c = none := if_pos hc

variable {D : CqlDriver}

omit [DecidableEq C] in
theorem StoresExactly.takes {row : RowPatch C Value} (h : T.StoresExactly D row) :
    T.Takes D row := by
  intro c v hv
  rw [h c v hv]
  rfl

omit [DecidableEq C] in
/-- What is stored of values that are held as they are. -/
theorem StoresExactly.stored_eq {row : RowPatch C Value} (h : T.StoresExactly D row) :
    T.stored D row = row := by
  funext c
  unfold stored
  rcases hrow : row c with _ | _ | v
  · rfl
  · rfl
  · exact congrArg some (h c v hrow)

/-! ## What a table holds -/

variable (T D) in
/-- What the table holds can be bound again: its cells hold values that are stored as they are, and
its rows are under keys that are. -/
structure Kept (s : T.Store) : Prop where
  cells : s.CellsIn fun (c : T.Regular) v => D.store (T.columnType c) v = some v
  keys : s.KeysIn fun key => T.bindKey D (T.primaryKeyColumns.zip key) = some key

theorem kept_empty : T.Kept D ColumnStore.empty :=
  ⟨ColumnStore.cellsIn_empty, ColumnStore.keysIn_empty⟩

omit [DecidableEq C] in
/-- The stored part of a row that the driver takes. -/
theorem store_stored (hD : D.Documented) {row : RowPatch C Value} {c : T.Regular} {w : Value}
    (h : T.stored D row c = some (some w)) : D.store (T.columnType c) w = some w := by
  unfold stored at h
  obtain ⟨v, -, hv⟩ := Option.map_eq_some_iff.mp h
  obtain ⟨x, -, hx⟩ := Option.bind_eq_some_iff.mp hv
  exact hD.stored hx

omit [DecidableEq C] in
/-- The key a row is inserted under is one that can be bound. -/
theorem bindKey_keyOf (hD : D.Documented) {row : RowPatch C Value} {key : List Value}
    (ht : T.Takes D row) (hkey : T.keyOf row = some key) :
    T.bindKey D (T.primaryKeyColumns.zip key) = some key := by
  have hcols : ∀ cols : List C, (∀ c ∈ cols, c ∈ T.primaryKeyColumns) → ∀ key,
      (cols.mapM fun c => (row c).join) = some key → T.bindKey D (cols.zip key) = some key := by
    intro cols hcols
    induction cols with
    | nil =>
      intro key hkey
      obtain rfl := Option.some.inj hkey
      rfl
    | cons c cols ih =>
      intro key hkey
      rw [List.mapM_cons] at hkey
      obtain ⟨v, hv, hkey⟩ := Option.bind_eq_some_iff.mp hkey
      obtain ⟨vs, hvs, hkey⟩ := Option.bind_eq_some_iff.mp hkey
      obtain rfl := Option.some.inj hkey
      have hstore := store_key hD ht (hcols c List.mem_cons_self) (Option.join_eq_some_iff.mp hv)
      unfold bindKey
      rw [List.zip_cons_cons, List.mapM_cons, hstore]
      have hrest := ih (fun c hc => hcols c (List.mem_cons_of_mem _ hc)) vs hvs
      unfold bindKey at hrest
      rw [hrest]
      rfl
  exact hcols _ (fun c hc => hc) key hkey

omit [DecidableEq C] in
/-- A key that is bound is the one given. -/
theorem eq_of_bindKey (hD : D.Documented) {keyValues : List (C × Value)} {key : List Value}
    (hcols : ∀ kv ∈ keyValues, kv.1 ∈ T.primaryKeyColumns)
    (h : T.bindKey D keyValues = some key) : key = keyValues.map Prod.snd := by
  unfold bindKey at h
  induction keyValues generalizing key with
  | nil => exact (Option.some.inj h).symm
  | cons kv keyValues ih =>
    rw [List.mapM_cons] at h
    obtain ⟨v, hv, h⟩ := Option.bind_eq_some_iff.mp h
    obtain ⟨vs, hvs, h⟩ := Option.bind_eq_some_iff.mp h
    obtain rfl := Option.some.inj h
    rw [hD.exact (T.keyExact _ (hcols kv List.mem_cons_self)) hv,
      ih (fun kv hkv => hcols kv (List.mem_cons_of_mem _ hkv)) hvs, List.map_cons]

/-- A value of a key is one that a key column takes. -/
theorem store_of_bindKey {cols : List C} {key : List Value}
    (h : T.bindKey D (cols.zip key) = some key) {c : C} {v : Value}
    (hv : (cols.zip key).lookup c = some v) : D.store (T.columnType c) v = some v := by
  unfold bindKey at h
  induction cols generalizing key with
  | nil => exact nomatch hv
  | cons a cols ih =>
    rcases key with _ | ⟨x, key⟩
    · exact nomatch hv
    · rw [List.zip_cons_cons, List.mapM_cons] at h
      obtain ⟨y, hy, h⟩ := Option.bind_eq_some_iff.mp h
      obtain ⟨ys, hys, h⟩ := Option.bind_eq_some_iff.mp h
      obtain ⟨rfl, rfl⟩ := List.cons.inj (Option.some.inj h)
      rw [List.zip_cons_cons, List.lookup_cons] at hv
      by_cases hca : c = a
      · subst hca
        rw [beq_self_eq_true] at hv
        obtain rfl := Option.some.inj hv
        exact hy
      · rw [beq_false_of_ne hca] at hv
        exact ih hys hv

/-- What a record of the table has in a column can be bound there. -/
theorem Kept.store {s : T.Store} (hs : T.Kept D s) {key : List Value} {r : C → Option Value}
    (hr : T.records s key = some r) {c : C} {v : Value} (hv : r c = some v) :
    D.store (T.columnType c) v = some v := by
  obtain ⟨cells, hcells, rfl⟩ := Option.map_eq_some_iff.mp hr
  unfold row at hv
  split at hv
  · exact store_of_bindKey (hs.keys key (by rw [hcells]; exact Option.some_ne_none _)) hv
  · next hc =>
    have hkept := hs.cells key ⟨c, hc⟩ v
    rw [ColumnStore.cells_eq_of_rows, hcells] at hkept
    exact hkept hv

/-! ## One write -/

omit [DecidableEq C] in
/-- A posted value that its column does not hold as it is: it is refused, or something else is
stored. -/
theorem exists_of_not_storesExactly {row : RowPatch C Value} (h : ¬ T.StoresExactly D row) :
    ∃ c v, row c = some (some v) ∧ D.store (T.columnType c) v ≠ some v := by
  unfold StoresExactly at h
  push Not at h
  exact h

/-- An insert makes the record the body exactly when the columns hold what is posted and the body
posts every column that the record at its key, if there is one, has a value in. -/
theorem records_insert_iff (hD : D.Documented) {s : T.Store} (hs : T.Kept D s)
    {data : RowPatch C Value} {key : List Value} (hkey : T.keyOf data = some key) :
    T.records (if T.Takes D data then ColumnStore.insert s key (regular (T.stored D data)) else s)
        = T.recordCreate data (T.records s) ↔
      T.StoresExactly D data ∧
        ∀ r, T.records s key = some r → ∀ c, data c = none → r c = none := by
  by_cases hexact : T.StoresExactly D data
  · rw [if_pos hexact.takes, hexact.stored_eq, and_iff_right hexact]
    have hcreate : T.recordCreate data (T.records s)
        = Table.mapRows T.row (RecordMap.put s.rows key (regular data)) := by
      unfold recordCreate
      rw [hkey, RecordMap.put, Table.mapRows_upsert, ← record_eq_row hkey]
      rfl
    rw [hcreate, records, (Table.mapRows_injective row_injective).eq_iff,
      ColumnStore.rows_insert_eq_put_iff]
    refine ⟨fun h r hr c hc => ?_, fun h cells hcells c hc => ?_⟩
    · obtain ⟨cells, hcells, rfl⟩ := Option.map_eq_some_iff.mp hr
      have hreg : c ∉ T.primaryKeyColumns := fun hmem => by
        refine (lookup_keyOf hkey hmem).2 ?_
        rw [hc]
        rfl
      rw [row, dif_neg hreg]
      exact h cells hcells ⟨c, hreg⟩ hc
    · have hrow : T.records s key = some (T.row key cells) := by
        rw [records_eq, hcells]
        rfl
      have hnone := h _ hrow c hc
      rwa [row, dif_neg c.2] at hnone
  · -- the record is not the body in the column that does not hold what is posted
    refine iff_of_false (fun h => ?_) fun h => hexact h.1
    obtain ⟨c, v, hv, hne⟩ := exists_of_not_storesExactly hexact
    have hbody : T.recordCreate data (T.records s) key = some data.record := by
      simp only [recordCreate, hkey, Table.upsert_self]
    have hposted : data.record c = some v := by
      unfold RowPatch.record
      rw [hv]
      rfl
    rw [← h] at hbody
    split at hbody
    · next ht =>
      have hreg : c ∉ T.primaryKeyColumns := fun hmem => hne (store_key hD ht hmem hv)
      rw [records_eq, ColumnStore.rows_insert, Table.upsert_self] at hbody
      have hcell := congrFun (Option.some.inj hbody) c
      rw [hposted, row, dif_neg hreg, RowPatch.apply, regular, stored, hv] at hcell
      exact hne hcell
    · exact hne (hs.store hbody hposted)

theorem not_setsValue_stored_iff {data : RowPatch C Value}
    (ht : T.Takes D (updatableFields T data)) :
    ¬ (regular (T := T) (T.stored D (updatableFields T data))).SetsValue ↔
      ∀ c v, updatableFields T data c ≠ some (some v) := by
  unfold RowPatch.SetsValue
  rw [not_exists]
  refine ⟨fun h c v hv => ?_, fun h ⟨c, hc⟩ ⟨w, hw⟩ => ?_⟩
  · have hreg : c ∉ T.primaryKeyColumns := fun hmem => by
      rw [updatableFields_of_mem hmem] at hv
      exact nomatch hv
    obtain ⟨w, hw⟩ := Option.isSome_iff_exists.mp (ht c v hv)
    refine h ⟨c, hreg⟩ ⟨w, ?_⟩
    unfold regular stored
    rw [hv]
    exact congrArg some hw
  · obtain ⟨x, hx, hw⟩ := Option.map_eq_some_iff.mp hw
    obtain ⟨v, rfl, -⟩ := Option.bind_eq_some_iff.mp hw
    exact h c v hx

/-- Where there is no record nothing is to happen. -/
theorem records_update_of_none {s : T.Store} (hi : s.AllInserted) {keyValues : List (C × Value)}
    (data : RowPatch C Value) (hr : T.records s (keyValues.map Prod.snd) = none) :
    T.records (if T.Refuses D keyValues (updatableFields T data) then s
        else ColumnStore.update s (keyValues.map Prod.snd)
          (regular (T.stored D (updatableFields T data))))
        = T.recordUpdate (keyValues.map Prod.snd) data (T.records s) ↔
      T.Refuses D keyValues (updatableFields T data) ∨
        ∀ c v, updatableFields T data c ≠ some (some v) := by
  have hsame : T.recordUpdate (keyValues.map Prod.snd) data (T.records s) = T.records s := by
    unfold recordUpdate
    rw [hr]
  rw [hsame]
  split
  · next href => exact iff_of_true rfl (.inl href)
  · next href =>
    have hnone := (records_eq_none_iff s _).mp hr
    have hrows := ColumnStore.rows_update_eq_change_iff hi (keyValues.map Prod.snd)
      (regular (T.stored D (updatableFields T data)))
    unfold RecordMap.change at hrows
    rw [hnone, or_iff_right (not_not_intro rfl)] at hrows
    rw [or_iff_right href, records, records, (Table.mapRows_injective row_injective).eq_iff,
      ← not_setsValue_stored_iff (not_not.mp (not_or.mp href).2)]
    exact hrows

/-- A record that is there is changed as promised exactly when its columns hold what is set. -/
theorem records_update_of_some {s : T.Store} (hi : s.AllInserted) (hs : T.Kept D s)
    {keyValues : List (C × Value)} (hcols : keyValues.map Prod.fst = T.primaryKeyColumns)
    (data : RowPatch C Value) {r : C → Option Value}
    (hr : T.records s (keyValues.map Prod.snd) = some r) :
    T.records (if T.Refuses D keyValues (updatableFields T data) then s
        else ColumnStore.update s (keyValues.map Prod.snd)
          (regular (T.stored D (updatableFields T data))))
        = T.recordUpdate (keyValues.map Prod.snd) data (T.records s) ↔
      T.StoresExactly D (updatableFields T data) := by
  have hrow : s.rows (keyValues.map Prod.snd) ≠ none := fun hnone => by
    rw [records_eq, hnone] at hr
    cases hr
  by_cases hexact : T.StoresExactly D (updatableFields T data)
  · refine iff_of_true ?_ hexact
    have hzip : T.primaryKeyColumns.zip (keyValues.map Prod.snd) = keyValues := by
      rw [← hcols]
      exact (List.zip_of_prod rfl rfl).symm
    have hbind : T.bindKey D keyValues ≠ none := by
      have hkept : T.bindKey D (T.primaryKeyColumns.zip (keyValues.map Prod.snd)) = _ :=
        hs.keys _ hrow
      rw [hzip] at hkept
      rw [hkept]
      exact Option.some_ne_none _
    have hnot : ¬ T.Refuses D keyValues (updatableFields T data) :=
      not_or.mpr ⟨hbind, not_not_intro hexact.takes⟩
    rw [if_neg hnot, hexact.stored_eq]
    have hchange := (ColumnStore.rows_update_eq_change_iff hi (keyValues.map Prod.snd)
      (regular (updatableFields T data))).mpr (.inl hrow)
    obtain ⟨cells, hcells, rfl⟩ := Option.map_eq_some_iff.mp hr
    unfold RecordMap.change at hchange
    rw [hcells] at hchange
    unfold recordUpdate
    rw [hr, records, hchange, Table.mapRows_upsert, ← recordUpdate_row]
    rfl
  · -- the record is not what is set in the column that does not hold it
    refine iff_of_false (fun h => ?_) hexact
    obtain ⟨c, v, hv, hne⟩ := exists_of_not_storesExactly hexact
    have hreg : c ∉ T.primaryKeyColumns := fun hmem => by
      rw [updatableFields_of_mem hmem] at hv
      cases hv
    have hset : T.recordUpdate (keyValues.map Prod.snd) data (T.records s)
        (keyValues.map Prod.snd) = some fun c =>
          if c ∈ T.primaryKeyColumns then r c else (data c).getD (r c) := by
      simp only [recordUpdate, hr, Table.upsert_self]
    have hposted : (if c ∈ T.primaryKeyColumns then r c else (data c).getD (r c)) = some v := by
      have hdata : updatableFields T data c = data c := if_neg hreg
      rw [if_neg hreg, ← hdata, hv]
      rfl
    rw [← h] at hset
    split at hset
    · exact hne (hs.store hset hposted)
    · have hins := hi _ hrow
      rw [records_eq, ColumnStore.rows_update_of_inserted hins, Table.upsert_self] at hset
      have hcell := congrFun (Option.some.inj hset) c
      rw [hposted, row, dif_neg hreg, RowPatch.apply, regular, stored, hv] at hcell
      exact hne hcell

/-- An update does what it promises exactly when the record is there and its columns hold what is
set, or it is not there and the update is refused or sets no column. -/
theorem records_update_iff {s : T.Store} (hi : s.AllInserted)
    (hs : T.Kept D s) {keyValues : List (C × Value)}
    (hcols : keyValues.map Prod.fst = T.primaryKeyColumns) (data : RowPatch C Value) :
    T.records (if T.Refuses D keyValues (updatableFields T data) then s
        else ColumnStore.update s (keyValues.map Prod.snd)
          (regular (T.stored D (updatableFields T data))))
        = T.recordUpdate (keyValues.map Prod.snd) data (T.records s) ↔
      (T.records s (keyValues.map Prod.snd) ≠ none →
          T.StoresExactly D (updatableFields T data)) ∧
        (T.records s (keyValues.map Prod.snd) = none →
          T.Refuses D keyValues (updatableFields T data) ∨
            ∀ c v, updatableFields T data c ≠ some (some v)) := by
  rcases hr : T.records s (keyValues.map Prod.snd) with _ | r
  · rw [records_update_of_none hi data hr, and_iff_right (fun h => absurd rfl h),
      forall_prop_of_true rfl]
  · rw [records_update_of_some hi hs hcols data hr,
      and_iff_left (fun h => absurd h (Option.some_ne_none r)),
      forall_prop_of_true (Option.some_ne_none r)]

end ViewSet

/-! ## One request -/

section
variable {F : RestFramework C B} {D : CqlDriver} {T : ViewSet C}

theorem map_fst_coerceQueryValues {raws : List (C × Text)} {keyValues : List (C × Value)}
    (h : coerceQueryValues F T raws = .ok keyValues) :
    keyValues.map Prod.fst = raws.map Prod.fst := by
  induction raws generalizing keyValues with
  | nil =>
    obtain rfl := Except.ok.inj h
    rfl
  | cons cr raws ih =>
    obtain ⟨c, raw⟩ := cr
    obtain ⟨field, hfield⟩ : ∃ field, T.fields.lookup c = some field := by
      obtain ⟨⟨c', field⟩, hmem, rfl⟩ := List.mem_map.mp (T.complete c)
      refine Option.ne_none_iff_exists'.mp fun hnone => ?_
      exact absurd (List.lookup_eq_none_iff.mp hnone _ hmem) (by simp)
    simp only [coerceQueryValues, hfield] at h
    split at h
    · cases h
    · obtain ⟨rest, hrest, rfl⟩ := Except.map_eq_ok_iff.mp h
      rw [List.map_cons, List.map_cons, ih hrest]

/-- The values that a path decodes to are those of the key columns. -/
theorem map_fst_parsePrimaryKey {pk : Option Text} {keyValues : List (C × Value)}
    (h : parsePrimaryKey F T pk = .ok keyValues) :
    keyValues.map Prod.fst = T.primaryKeyColumns := by
  unfold parsePrimaryKey at h
  dsimp only at h
  split at h
  · exact nomatch h
  · next hlen =>
    rw [map_fst_coerceQueryValues h]
    exact List.map_fst_zip (not_not.mp hlen).ge

theorem serve_create (hD : D.Documented) (s : T.Store) {body : B} {data : RowPatch C Value}
    {key : List Value} (hdata : F.validatedData false body = some data)
    (hkey : T.keyOf data = some key) :
    serve F D T s (true, .create body)
      = if T.Takes D data then ColumnStore.insert s key (ViewSet.regular (T.stored D data))
        else s := by
  show (create F D T true body s).2 = _
  unfold create ViewSet.insert
  rw [if_neg (by decide), hdata]
  by_cases ht : T.Takes D data
  · simp only [if_pos ht, ViewSet.keyOf_stored hD ht, hkey, Option.map_some]
  · simp only [if_neg ht]

theorem serve_create_of_keyOf (hD : D.Documented) (s : T.Store) {body : B}
    {data : RowPatch C Value} (hdata : F.validatedData false body = some data)
    (hkey : T.keyOf data = none) : serve F D T s (true, .create body) = s := by
  show (create F D T true body s).2 = _
  unfold create ViewSet.insert
  rw [if_neg (by decide), hdata]
  by_cases ht : T.Takes D data
  · simp only [if_pos ht, ViewSet.keyOf_stored hD ht, hkey, Option.map_none]
  · simp only [if_neg ht]

/-- An update that names no column leaves the store as it is, as no update does. -/
theorem serve_update (hD : D.Documented) (s : T.Store) {pk : Option Text} {body : B}
    {keyValues : List (C × Value)} {data : RowPatch C Value}
    (hpk : parsePrimaryKey F T pk = .ok keyValues) (hdata : F.validatedData true body = some data) :
    serve F D T s (true, .update pk body)
      = if T.Refuses D keyValues (updatableFields T data) then s
        else ColumnStore.update s (keyValues.map Prod.snd)
          (ViewSet.regular (T.stored D (updatableFields T data))) := by
  have hmem : ∀ kv ∈ keyValues, kv.1 ∈ T.primaryKeyColumns := fun kv hkv =>
    map_fst_parsePrimaryKey hpk ▸ List.mem_map_of_mem hkv
  have hupdate : (T.update D keyValues (updatableFields T data) s).getD s
      = if T.Refuses D keyValues (updatableFields T data) then s
        else ColumnStore.update s (keyValues.map Prod.snd)
          (ViewSet.regular (T.stored D (updatableFields T data))) := by
    unfold ViewSet.update
    by_cases ht : T.Takes D (updatableFields T data)
    · rw [if_pos ht]
      rcases hkey : T.bindKey D keyValues with _ | key
      · have hrefused : T.Refuses D keyValues (updatableFields T data) := .inl hkey
        rw [if_pos hrefused]
        rfl
      · have hnot : ¬ T.Refuses D keyValues (updatableFields T data) := by
          refine not_or.mpr ⟨?_, not_not_intro ht⟩
          rw [hkey]
          exact Option.some_ne_none key
        rw [if_neg hnot, ← ViewSet.eq_of_bindKey hD hmem hkey]
        rfl
    · have hrefused : T.Refuses D keyValues (updatableFields T data) := .inr ht
      rw [if_neg ht, if_pos hrefused]
      rfl
  rw [← hupdate]
  show (updateRecord F D T true pk body s).2 = _
  unfold updateRecord
  rw [if_neg (by decide), hpk]
  simp only [hdata]
  split
  · next hnone =>
    rcases hdone : T.update D keyValues (updatableFields T data) s with _ | s'
    · rfl
    · unfold ViewSet.update at hdone
      split at hdone
      · obtain ⟨key, -, rfl⟩ := Option.map_eq_some_iff.mp hdone
        refine (ColumnStore.update_of_forall_none s _ fun c => ?_).symm
        unfold ViewSet.regular ViewSet.stored
        rw [hnone c (T.complete c)]
        rfl
      · cases hdone
  · rcases T.update D keyValues (updatableFields T data) s with _ | s'
    · rfl
    · rfl

theorem serve_destroy (hD : D.Documented) (s : T.Store) {pk : Option Text}
    {keyValues : List (C × Value)} (hpk : parsePrimaryKey F T pk = .ok keyValues) :
    serve F D T s (true, .destroy pk)
      = if T.bindKey D keyValues = none then s
        else ColumnStore.delete s (keyValues.map Prod.snd) := by
  have hmem : ∀ kv ∈ keyValues, kv.1 ∈ T.primaryKeyColumns := fun kv hkv =>
    map_fst_parsePrimaryKey hpk ▸ List.mem_map_of_mem hkv
  show (destroy F D T true pk s).2 = _
  unfold destroy ViewSet.delete
  rw [if_neg (by decide), hpk]
  rcases hkey : T.bindKey D keyValues with _ | key
  · simp only [hkey, Option.map_none, if_true]
  · simp only [hkey, Option.map_some, ViewSet.eq_of_bindKey hD hmem hkey, reduceCtorEq, if_false]

/-- What a request can do to a table: nothing, insert the body it was accepted with, update the
cells its path and its body name, or delete the row its path names, unless the driver refuses; and
what it promises then. -/
inductive Served (F : RestFramework C B) (D : CqlDriver) (T : ViewSet C) (s : T.Store)
    (req : Bool × Request B) : Prop
  | nothing (hserve : serve F D T s req = s) (hrec : ∀ m, recordServe F T m req = m)
      (hok : ∀ m, StepOk F D T m req)
  | insert (data : RowPatch C Value) (key : List Value) (hkey : T.keyOf data = some key)
      (hserve : serve F D T s req = if T.Takes D data then
        ColumnStore.insert s key (ViewSet.regular (T.stored D data)) else s)
      (hrec : ∀ m, recordServe F T m req = T.recordCreate data m)
      (hok : ∀ m, StepOk F D T m req ↔ T.StoresExactly D data ∧
        ∀ r, m key = some r → ∀ c, data c = none → r c = none)
  | update (data : RowPatch C Value) (keyValues : List (C × Value))
      (hcols : keyValues.map Prod.fst = T.primaryKeyColumns)
      (hserve : serve F D T s req = if T.Refuses D keyValues (updatableFields T data) then s
        else ColumnStore.update s (keyValues.map Prod.snd)
          (ViewSet.regular (T.stored D (updatableFields T data))))
      (hrec : ∀ m, recordServe F T m req = T.recordUpdate (keyValues.map Prod.snd) data m)
      (hok : ∀ m, StepOk F D T m req ↔
        (m (keyValues.map Prod.snd) ≠ none → T.StoresExactly D (updatableFields T data)) ∧
          (m (keyValues.map Prod.snd) = none → T.Refuses D keyValues (updatableFields T data) ∨
            ∀ c v, updatableFields T data c ≠ some (some v)))
  | delete (keyValues : List (C × Value)) (hcols : keyValues.map Prod.fst = T.primaryKeyColumns)
      (hserve : serve F D T s req = if T.bindKey D keyValues = none then s
        else ColumnStore.delete s (keyValues.map Prod.snd))
      (hrec : ∀ m, recordServe F T m req = m.delete (keyValues.map Prod.snd))
      (hok : ∀ m, StepOk F D T m req)

theorem served_create (hD : D.Documented) (s : T.Store) (body : B) :
    Served F D T s (true, .create body) := by
  rcases hdata : F.validatedData false body with _ | data
  · refine .nothing ?_ (fun m => ?_) fun m data key h => ?_
    · show (create F D T true body s).2 = _
      unfold create
      rw [if_neg (by decide), hdata]
    · simp only [recordServe, hdata]
    · exact absurd (hdata.symm.trans h) nofun
  rcases hkey : T.keyOf data with _ | key
  · refine .nothing (serve_create_of_keyOf hD s hdata hkey) (fun m => ?_) fun m data' key h hk => ?_
    · simp only [recordServe, ViewSet.recordCreate, hdata, hkey]
    · obtain rfl := Option.some.inj (hdata.symm.trans h)
      exact absurd (hkey.symm.trans hk) nofun
  · refine .insert data key hkey (serve_create hD s hdata hkey) (fun m => ?_) fun m => ?_
    · simp only [recordServe, hdata]
    · refine ⟨fun h => h data key hdata hkey, fun h data' key' hd hk => ?_⟩
      obtain rfl := Option.some.inj (hdata.symm.trans hd)
      obtain rfl := Option.some.inj (hkey.symm.trans hk)
      exact h

theorem served_update (hD : D.Documented) (s : T.Store) (pk : Option Text) (body : B) :
    Served F D T s (true, .update pk body) := by
  rcases hpk : parsePrimaryKey F T pk with reason | keyValues
  · refine .nothing ?_ (fun m => ?_) fun m keyValues data h => ?_
    · show (updateRecord F D T true pk body s).2 = _
      unfold updateRecord
      rw [if_neg (by decide), hpk]
    · simp only [recordServe, hpk]
    · exact absurd (hpk.symm.trans h) nofun
  rcases hdata : F.validatedData true body with _ | data
  · refine .nothing ?_ (fun m => ?_) fun m keyValues data _ h => ?_
    · show (updateRecord F D T true pk body s).2 = _
      unfold updateRecord
      rw [if_neg (by decide), hpk]
      simp only [hdata]
    · simp only [recordServe, hpk, hdata]
    · exact absurd (hdata.symm.trans h) nofun
  · refine .update data keyValues (map_fst_parsePrimaryKey hpk) (serve_update hD s hpk hdata)
      (fun m => ?_) fun m => ?_
    · simp only [recordServe, hpk, hdata]
    · refine ⟨fun h => h keyValues data hpk hdata, fun h keyValues' data' hp hd => ?_⟩
      obtain rfl := Except.ok.inj (hpk.symm.trans hp)
      obtain rfl := Option.some.inj (hdata.symm.trans hd)
      exact h

theorem served_destroy (hD : D.Documented) (s : T.Store) (pk : Option Text) :
    Served F D T s (true, .destroy pk) := by
  rcases hpk : parsePrimaryKey F T pk with reason | keyValues
  · refine .nothing ?_ (fun m => ?_) fun _ => trivial
    · show (destroy F D T true pk s).2 = _
      unfold destroy
      rw [if_neg (by decide), hpk]
    · simp only [recordServe, hpk]
  · refine .delete keyValues (map_fst_parsePrimaryKey hpk) (serve_destroy hD s hpk) (fun m => ?_)
      fun _ => trivial
    simp only [recordServe, hpk]

theorem served (hD : D.Documented) (s : T.Store) (req : Bool × Request B) :
    Served F D T s req := by
  rcases req with ⟨_ | _, body | ⟨pk, body⟩ | pk⟩
  · exact .nothing rfl (fun _ => rfl) fun _ => trivial
  · exact .nothing rfl (fun _ => rfl) fun _ => trivial
  · exact .nothing rfl (fun _ => rfl) fun _ => trivial
  · exact served_create hD s body
  · exact served_update hD s pk body
  · exact served_destroy hD s pk

/-- A row that is there is under a key that can be bound. -/
theorem ViewSet.Kept.rows_eq_none {s : T.Store} (hs : T.Kept D s) {keyValues : List (C × Value)}
    (hcols : keyValues.map Prod.fst = T.primaryKeyColumns) (h : T.bindKey D keyValues = none) :
    s.rows (keyValues.map Prod.snd) = none := by
  by_contra hrow
  have hkept : T.bindKey D (T.primaryKeyColumns.zip (keyValues.map Prod.snd)) = _ :=
    hs.keys _ hrow
  rw [← hcols, ← List.zip_of_prod rfl rfl, h] at hkept
  exact nomatch hkept

/-- A request shows the record map exactly when it is one of those that do. -/
theorem records_serve_iff (hD : D.Documented) {s : T.Store} (hi : s.AllInserted)
    (hs : T.Kept D s) (req : Bool × Request B) :
    T.records (serve F D T s req) = recordServe F T (T.records s) req ↔
      StepOk F D T (T.records s) req := by
  cases served (F := F) hD s req with
  | nothing hserve hrec hok =>
    rw [hserve, hrec]
    exact ⟨fun _ => hok _, fun _ => rfl⟩
  | insert data key hkey hserve hrec hok =>
    rw [hserve, hrec, hok]
    exact ViewSet.records_insert_iff hD hs hkey
  | update data keyValues hcols hserve hrec hok =>
    rw [hserve, hrec, hok]
    exact ViewSet.records_update_iff hi hs hcols data
  | delete keyValues hcols hserve hrec hok =>
    rw [hserve, hrec]
    refine ⟨fun _ => hok _, fun _ => ?_⟩
    split
    · next hrefused =>
      have hnone := (ViewSet.records_eq_none_iff s _).mpr (hs.rows_eq_none hcols hrefused)
      funext key
      rw [Table.delete_apply]
      split
      · next he => rw [he, hnone]
      · rfl
    · rw [ViewSet.records, ColumnStore.rows_delete, Table.mapRows_delete]
      rfl

/-- Rows stay made by inserts along requests that do what they promise. -/
theorem allInserted_serve (hD : D.Documented) {s : T.Store} (hi : s.AllInserted)
    {req : Bool × Request B} (h : StepOk F D T (T.records s) req) :
    (serve F D T s req).AllInserted := by
  cases served (F := F) hD s req with
  | nothing hserve =>
    rw [hserve]
    exact hi
  | insert data key _ hserve =>
    rw [hserve]
    split
    · exact hi.insert key _
    · exact hi
  | update data keyValues hcols hserve _ hok =>
    rw [hserve]
    split
    · exact hi
    · next hrefused =>
      refine hi.update (or_iff_not_imp_left.mpr fun hnone => ?_)
      rw [not_not, ← ViewSet.records_eq_none_iff] at hnone
      have hunset := (((hok _).mp h).2 hnone).resolve_left hrefused
      exact (ViewSet.not_setsValue_stored_iff (not_not.mp (not_or.mp hrefused).2)).mpr hunset
  | delete keyValues _ hserve =>
    rw [hserve]
    split
    · exact hi
    · exact hi.delete _

/-- What the table holds can be bound again after any request. -/
theorem kept_serve (hD : D.Documented) {s : T.Store} (hs : T.Kept D s) (req : Bool × Request B) :
    T.Kept D (serve F D T s req) := by
  have hstored : ∀ row : RowPatch C Value, ∀ (c : T.Regular) (v : Value),
      ViewSet.regular (T := T) (T.stored D row) c = some (some v) →
        D.store (T.columnType c) v = some v := fun row c v h => ViewSet.store_stored hD h
  cases served (F := F) hD s req with
  | nothing hserve =>
    rw [hserve]
    exact hs
  | insert data key hkey hserve =>
    rw [hserve]
    split
    · next ht =>
      exact ⟨hs.cells.write (hstored data) key true,
        hs.keys.write (ViewSet.bindKey_keyOf hD ht hkey) _⟩
    · exact hs
  | update data keyValues hcols hserve =>
    rw [hserve]
    split
    · exact hs
    · next hrefused =>
      have hkey : T.bindKey D (T.primaryKeyColumns.zip (keyValues.map Prod.snd))
          = some (keyValues.map Prod.snd) := by
        have hmem : ∀ kv ∈ keyValues, kv.1 ∈ T.primaryKeyColumns := fun kv hkv =>
          hcols ▸ List.mem_map_of_mem hkv
        rw [← hcols, ← List.zip_of_prod rfl rfl]
        obtain ⟨key, hbind⟩ := Option.ne_none_iff_exists'.mp (not_or.mp hrefused).1
        rw [hbind, ViewSet.eq_of_bindKey hD hmem hbind]
      exact ⟨hs.cells.write (hstored _) _ _, hs.keys.write hkey _⟩
  | delete keyValues _ hserve =>
    rw [hserve]
    split
    · exact hs
    · exact ⟨hs.cells.delete _, hs.keys.delete _⟩

/-- From any table whose rows inserts have made, of values that can be bound again, a run shows the
record map exactly when each of its requests does what it promises. -/
theorem run_shows_records_iff (hD : D.Documented) {s : T.Store} (hi : s.AllInserted)
    (hs : T.Kept D s) (reqs : List (Bool × Request B)) :
    (∀ pre post, reqs = pre ++ post →
        T.records (pre.foldl (serve F D T) s) = pre.foldl (recordServe F T) (T.records s)) ↔
      ∀ pre req post, reqs = pre ++ req :: post →
        StepOk F D T (T.records (pre.foldl (serve F D T) s)) req := by
  have hstep : ∀ (s : T.Store) (req : Bool × Request B), s.AllInserted ∧ T.Kept D s →
      (T.records (serve F D T s req) = recordServe F T (T.records s) req ↔
        StepOk F D T (T.records s) req) := fun _ req hs => records_serve_iff hD hs.1 hs.2 req
  have hinv : ∀ (s : T.Store) (req : Bool × Request B), s.AllInserted ∧ T.Kept D s →
      StepOk F D T (T.records s) req →
        (serve F D T s req).AllInserted ∧ T.Kept D (serve F D T s req) :=
    fun _ req hs h => ⟨allInserted_serve hD hs.1 h, kept_serve hD hs.2 req⟩
  exact List.foldl_view_eq_iff hstep hinv ⟨hi, hs⟩ reqs

/-- Where the records are shown, `retrieve` answers from them. -/
theorem retrieve_eq_recordRetrieve (hD : D.Documented) (ready : Bool) (pk : Option Text)
    (s : T.Store) :
    retrieve F D T ready pk s = recordRetrieve F D T ready pk (T.records s) := by
  unfold retrieve recordRetrieve
  split
  · rfl
  · rcases hpk : parsePrimaryKey F T pk with reason | keyValues
    · rfl
    · have hmem : ∀ kv ∈ keyValues, kv.1 ∈ T.primaryKeyColumns := fun kv hkv =>
        map_fst_parsePrimaryKey hpk ▸ List.mem_map_of_mem hkv
      unfold ViewSet.get
      rcases hkey : T.bindKey D keyValues with _ | key
      · simp only [Option.map_none, hkey, if_true]
      · simp only [Option.map_some, hkey, reduceCtorEq, if_false,
          ViewSet.eq_of_bindKey hD hmem hkey, ViewSet.records_eq]
        rcases s.rows (keyValues.map Prod.snd) with _ | cells
        · rfl
        · rfl

end

/-! ## Every run -/

section
variable (F : RestFramework C B) (D : CqlDriver) (T : ViewSet C)

/-- The table after some requests, none of which found anything in it at first. -/
def tableAfter (reqs : List (Bool × Request B)) : T.Store :=
  reqs.foldl (serve F D T) ColumnStore.empty

/-- What the same requests promise. -/
def recordsAfter (reqs : List (Bool × Request B)) : RecordTable C :=
  reqs.foldl (recordServe F T) Table.empty

/-- Each request is one that does what it promises, judged by the records it finds. -/
def AllStepsOk (reqs : List (Bool × Request B)) : Prop :=
  ∀ pre req post, reqs = pre ++ req :: post → StepOk F D T (T.records (tableAfter F D T pre)) req

theorem records_empty : T.records ColumnStore.empty = Table.empty := by
  unfold ViewSet.records
  rw [ColumnStore.rows_empty]
  rfl

/-- A run shows the record map after each of its requests exactly when each of them does what it
promises, and then `retrieve` answers from the record map. -/
theorem serve_shows_records_iff (hD : D.Documented) (reqs : List (Bool × Request B)) :
    ((∀ pre post, reqs = pre ++ post →
        T.records (tableAfter F D T pre) = recordsAfter F T pre) ↔ AllStepsOk F D T reqs) ∧
      (AllStepsOk F D T reqs → ∀ pre post, reqs = pre ++ post → ∀ ready pk,
        retrieve F D T ready pk (tableAfter F D T pre)
          = recordRetrieve F D T ready pk (recordsAfter F T pre)) := by
  have hiff : (∀ pre post, reqs = pre ++ post →
      T.records (tableAfter F D T pre) = recordsAfter F T pre) ↔ AllStepsOk F D T reqs := by
    have hrun := run_shows_records_iff (F := F) (T := T) hD ColumnStore.allInserted_empty
      ViewSet.kept_empty reqs
    rw [records_empty] at hrun
    exact hrun
  refine ⟨hiff, fun h pre post hsplit ready pk => ?_⟩
  rw [retrieve_eq_recordRetrieve hD, hiff.mpr h pre post hsplit]

end

/-! ## Short runs -/

/-- What is posted for product 5, `A`: a rating, and a title or none. -/
def productA (title : Option Text) (rating : ℚ) (c : ProductsCol) : Option (Option Value) :=
  match c with
  | .title => title.map fun s => some (.str s)
  | .rating => some (some (.float rating))
  | c => product5 "A".toList c

/-- What is patched to change a title. -/
def newTitle (title : Text) (c : ProductsCol) : Option (Option Value) :=
  match c with
  | .title => some (some (.str title))
  | _ => none

/-- Create product 5, `A`. -/
def createA (title : Option Text) (rating : ℚ) : Bool × Request (RowPatch ProductsCol Value) :=
  (true, .create (productA title rating))

/-- Update product 5, `A`. -/
def updateA (title : Text) : Bool × Request (RowPatch ProductsCol Value) :=
  (true, .update (some "5__A".toList) (newTitle title))

/-- The value that product 5, `A`, has in a column, if it is there. -/
def valueA (m : RecordTable ProductsCol) (c : ProductsCol) : Option (Option Value) :=
  (m [.int 5, .str "A".toList]).map (· c)

/-- A title is posted with the product and changed afterwards; the rating has a short fraction. -/
theorem allStepsOk_retitled :
    AllStepsOk (plainRest ProductsCol) plainDriver productsViewSet
      [createA (some "old".toList) (9 / 2), updateA "new".toList] := by
  intro pre req post h
  rcases pre with _ | ⟨a, _ | ⟨b, pre⟩⟩
  · -- the create finds no record
    obtain ⟨rfl, -⟩ := List.cons.inj h
    intro data key hdata _
    obtain rfl := Option.some.inj hdata
    refine ⟨fun c v hv => ?_, fun r hr => ?_⟩
    · cases c
      case rating =>
        obtain rfl := Option.some.inj (Option.some.inj hv)
        decide +kernel
      all_goals first
        | obtain rfl := Option.some.inj (Option.some.inj hv)
          rfl
        | exact nomatch hv
    · have hnone : productsViewSet.records ColumnStore.empty key = none :=
        congrFun (records_empty productsViewSet) key
      exact absurd (hnone.symm.trans hr) nofun
  · -- the update finds the one created
    obtain ⟨rfl, hrest⟩ := List.cons.inj h
    obtain ⟨rfl, -⟩ := List.cons.inj hrest
    intro keyValues data hpk hdata
    have hkey : parsePrimaryKey (plainRest ProductsCol) productsViewSet (some "5__A".toList)
        = .ok [(.categoryId, .int 5), (.sku, .str "A".toList)] := rfl
    obtain rfl := Except.ok.inj (hkey.symm.trans hpk)
    obtain rfl := Option.some.inj hdata
    refine ⟨fun _ c v hv => ?_, fun hnone => ?_⟩
    · cases c <;> first
        | obtain rfl := Option.some.inj (Option.some.inj hv)
          rfl
        | exact nomatch hv
    · exact absurd (congrArg Option.isSome hnone) (by decide)
  · obtain ⟨-, hrest⟩ := List.cons.inj h
    obtain ⟨-, hnil⟩ := List.cons.inj hrest
    exact absurd hnil.symm (by simp)

theorem serve_shows_records_retitled :
    retrieve (plainRest ProductsCol) plainDriver productsViewSet true (some "5__A".toList)
        (tableAfter (plainRest ProductsCol) plainDriver productsViewSet
          [createA (some "old".toList) (9 / 2), updateA "new".toList])
      = recordRetrieve (plainRest ProductsCol) plainDriver productsViewSet true
        (some "5__A".toList) (recordsAfter (plainRest ProductsCol) productsViewSet
          [createA (some "old".toList) (9 / 2), updateA "new".toList]) :=
  (serve_shows_records_iff (plainRest ProductsCol) plainDriver productsViewSet
    plainDriver_documented _).2 allStepsOk_retitled _ [] rfl true (some "5__A".toList)

/-- An update where there is no record makes one, a second create keeps the title of the first, and
a rating of 4.1 is stored as the nearest number of 32 bits. -/
theorem serve_shows_no_records :
    valueA (productsViewSet.records (tableAfter (plainRest ProductsCol) plainDriver
        productsViewSet [updateA "old".toList])) .title = some (some (.str "old".toList)) ∧
      valueA (recordsAfter (plainRest ProductsCol) productsViewSet [updateA "old".toList]) .title
        = none ∧
      valueA (productsViewSet.records (tableAfter (plainRest ProductsCol) plainDriver
        productsViewSet [createA (some "old".toList) 4, createA none 4])) .title
        = some (some (.str "old".toList)) ∧
      valueA (recordsAfter (plainRest ProductsCol) productsViewSet
        [createA (some "old".toList) 4, createA none 4]) .title = some none ∧
      valueA (productsViewSet.records (tableAfter (plainRest ProductsCol) plainDriver
        productsViewSet [createA none (41 / 10)])) .rating
        = some (some (.float (8598323 / 2097152))) ∧
      valueA (recordsAfter (plainRest ProductsCol) productsViewSet [createA none (41 / 10)])
        .rating = some (some (.float (41 / 10))) := by
  refine ⟨?_, ?_, ?_, ?_, ?_, ?_⟩
  · rfl
  · rfl
  · decide +kernel
  · rfl
  · decide +kernel
  · rfl

end NetBuild
