import NetBuild.Crud
import NetBuild.FrameTheorems
import NetBuild.Lib.Separated
import Mathlib.Data.List.DropRight
import Mathlib.Data.Rat.Floor

/-!
# Path keys

The path of a record is the text of its key columns joined by `__`. The text of an int has no
underscore in it, so the paths of two products or two shipments differ and the first and the last
separator of a path are where the ints say. A product's path is split into more parts when its
`sku` has a separator in it; a shipment's also loses an underscore that ends its `tracking_code`
to the separator behind it.
-/

namespace NetBuild

/-! ## Underscores -/

theorem underscore_notMem_fmtInt (n : ℤ) : '_' ∉ fmtInt n := by
  have hdigits : ∀ m : ℕ, '_' ∉ Nat.toDigits 10 m := fun m hm =>
    absurd (Nat.isDigit_of_mem_toDigits (by norm_num) (by norm_num) hm) (by decide)
  unfold fmtInt
  split
  · rw [List.mem_cons, not_or]
    exact ⟨by decide, hdigits _⟩
  · exact hdigits _

theorem intValue_fmtInt (n : ℤ) : intValue (fmtInt n) = some n := by
  have hzero : ∀ s, zfill 0 s = s := fun s => by
    unfold zfill
    split <;> simp
  rw [← hzero (fmtInt n), intValue_zfill]

theorem fmtInt_injective : Function.Injective fmtInt := fun m n h => by
  have hm := intValue_fmtInt m
  rw [h, intValue_fmtInt n] at hm
  exact (Option.some.inj hm).symm

theorem keySep_eq : keySep = ['_', '_'] := rfl

theorem keySep_ne_nil : keySep ≠ [] := nofun

theorem keySep_dropLast : keySep.dropLast = ['_'] := rfl

/-- A text with fewer than two underscores has no separator in it. -/
theorem not_infix_of_count_lt {s : Text} (h : s.count '_' < 2) : ¬ keySep <:+: s := by
  intro hin
  have hle : keySep.count '_' ≤ s.count '_' := hin.sublist.count_le '_'
  rw [show keySep.count '_' = 2 from rfl] at hle
  omega

theorem not_infix_of_notMem {s : Text} (h : '_' ∉ s) : ¬ keySep <:+: s := by
  apply not_infix_of_count_lt
  rw [List.count_eq_zero_of_not_mem h]
  omega

theorem not_infix_fmtInt (n : ℤ) : ¬ keySep <:+: fmtInt n :=
  not_infix_of_notMem (underscore_notMem_fmtInt n)

theorem not_infix_fmtInt_append (n : ℤ) : ¬ keySep <:+: fmtInt n ++ keySep.dropLast := by
  apply not_infix_of_count_lt
  rw [List.count_append, List.count_eq_zero_of_not_mem (underscore_notMem_fmtInt n)]
  decide

theorem not_infix_underscore_fmtInt (n : ℤ) : ¬ keySep <:+: '_' :: fmtInt n := by
  apply not_infix_of_count_lt
  rw [List.count_cons, List.count_eq_zero_of_not_mem (underscore_notMem_fmtInt n)]
  decide

/-- With the separator behind it a text has no other separator exactly when it has none in itself
and does not end in an underscore. -/
theorem infix_append_dropLast_iff (s : Text) :
    keySep <:+: s ++ keySep.dropLast ↔ keySep <:+: s ∨ s.getLast? = some '_' := by
  have hend : keySep <:+ s ++ ['_'] ↔ s.getLast? = some '_' := by
    rw [List.getLast?_eq_some_iff, List.suffix_concat_iff]
    refine ⟨fun h => ?_, fun ⟨u, hu⟩ => .inr ⟨['_'], rfl, u, hu.symm⟩⟩
    obtain ⟨t, ht, u, hu⟩ := h.resolve_left keySep_ne_nil
    have hcut : ['_'] ++ ['_'] = t ++ ['_'] := ht
    obtain rfl := List.append_cancel_right hcut
    exact ⟨u, hu.symm⟩
  rw [keySep_dropLast, List.infix_concat_iff, hend, or_comm]

/-! ## The parts of a path -/

/-- The path of a product. -/
def productPath (categoryId : ℤ) (sku : Text) : Text :=
  keySep.intercalate [fmtInt categoryId, sku]

/-- The path of a shipment. -/
def shipmentPath (carrierId : ℤ) (trackingCode : Text) (legNo : ℤ) : Text :=
  keySep.intercalate [fmtInt carrierId, trackingCode, fmtInt legNo]

theorem productPath_eq (n : ℤ) (sku : Text) : productPath n sku = fmtInt n ++ (keySep ++ sku) := by
  rw [productPath, List.intercalate_cons_cons, List.intercalate_singleton, List.append_assoc]

theorem shipmentPath_eq (n : ℤ) (code : Text) (leg : ℤ) :
    shipmentPath n code leg = fmtInt n ++ (keySep ++ (code ++ (keySep ++ fmtInt leg))) := by
  rw [shipmentPath, List.intercalate_cons_cons, List.intercalate_cons_cons,
    List.intercalate_singleton, List.append_assoc, List.append_assoc]

/-- The int comes off; the rest of the path is the `sku`. -/
theorem splitWord_productPath (n : ℤ) (sku : Text) :
    List.splitWord keySep (productPath n sku) = fmtInt n :: List.splitWord keySep sku := by
  rw [productPath_eq, List.splitWord_append keySep_ne_nil (not_infix_fmtInt_append n)]

theorem splitWord_shipmentPath (n : ℤ) (code : Text) (leg : ℤ) :
    List.splitWord keySep (shipmentPath n code leg)
      = fmtInt n :: List.splitWord keySep (code ++ (keySep ++ fmtInt leg)) := by
  rw [shipmentPath_eq, List.splitWord_append keySep_ne_nil (not_infix_fmtInt_append n)]

/-- An underscore that ends the code goes with the separator, and one is left for the int. -/
theorem shipmentPath_underscore (n : ℤ) (code : Text) (leg : ℤ) :
    shipmentPath n (code ++ ['_']) leg
      = keySep.intercalate [fmtInt n, code, '_' :: fmtInt leg] := by
  rw [shipmentPath_eq, List.intercalate_cons_cons, List.intercalate_cons_cons,
    List.intercalate_singleton, List.append_assoc, List.append_assoc, List.append_assoc]
  rfl

/-- A code with a separator in it makes too many parts. -/
theorem three_le_length_splitWord_code {code : Text} (h : keySep <:+: code) (leg : ℤ) :
    3 ≤ (List.splitWord keySep (code ++ (keySep ++ fmtInt leg))).length := by
  obtain ⟨w, t, rfl, hw⟩ := List.exists_first_infix keySep_ne_nil h
  have hrest : keySep <:+: t ++ (keySep ++ fmtInt leg) := ⟨t, fmtInt leg, List.append_assoc ..⟩
  have htwo := List.two_le_length_splitWord keySep_ne_nil hrest
  rw [List.append_assoc, List.append_assoc, List.splitWord_append keySep_ne_nil hw,
    List.length_cons]
  omega

/-! ## No two records share a path -/

theorem productPath_injective {n n' : ℤ} {sku sku' : Text}
    (h : productPath n sku = productPath n' sku') : n = n' ∧ sku = sku' := by
  rw [productPath_eq, productPath_eq] at h
  have hint : fmtInt n = fmtInt n' :=
    List.eq_of_append_cons_eq (underscore_notMem_fmtInt n) (underscore_notMem_fmtInt n') h
  rw [hint] at h
  exact ⟨fmtInt_injective hint, List.append_cancel_left (List.append_cancel_left h)⟩

theorem shipmentPath_injective {n n' leg leg' : ℤ} {code code' : Text}
    (h : shipmentPath n code leg = shipmentPath n' code' leg') :
    n = n' ∧ code = code' ∧ leg = leg' := by
  rw [shipmentPath_eq, shipmentPath_eq] at h
  have hint : fmtInt n = fmtInt n' :=
    List.eq_of_append_cons_eq (underscore_notMem_fmtInt n) (underscore_notMem_fmtInt n') h
  rw [hint] at h
  have hrest := List.append_cancel_left (List.append_cancel_left h)
  -- the last underscore is where the int at the end says
  have hrev : (fmtInt leg).reverse ++ '_' :: ('_' :: code.reverse)
      = (fmtInt leg').reverse ++ '_' :: ('_' :: code'.reverse) := by
    simpa [keySep_eq] using congrArg List.reverse hrest
  have hmem : ∀ m : ℤ, '_' ∉ (fmtInt m).reverse := fun m hm =>
    underscore_notMem_fmtInt m (List.mem_reverse.mp hm)
  have hlast : fmtInt leg = fmtInt leg' :=
    List.reverse_injective (List.eq_of_append_cons_eq (hmem leg) (hmem leg') hrev)
  rw [hlast] at hrest
  exact ⟨fmtInt_injective hint, List.append_cancel_right hrest, fmtInt_injective hlast⟩

/-! ## What a path decodes to -/

/-- `IntegerField` and `CharField` as documented, as far as path keys go. -/
structure RestFramework.Documented {C B : Type} [DecidableEq C] (F : RestFramework C B)
    (T : ViewSet C) : Prop where
  /-- An `IntegerField` reads `str(n)`, up to its `MAX_STRING_LENGTH`. -/
  integer_text (n : ℤ) (h : (fmtInt n).length ≤ 1000) :
    F.toInternalValue .integerField (fmtInt n) = some (.int n)
  integer_long (s : Text) (h : 1000 < s.length) : F.toInternalValue .integerField s = none
  /-- No number starts with an underscore. -/
  integer_underscore (s : Text) : F.toInternalValue .integerField ('_' :: s) = none
  /-- A `CharField` trims what it reads. -/
  char_text (s : Text) : F.toInternalValue .charField s = some (.str (strip s))
  /-- So it does what it validates. -/
  char_valid {forUpdate : Bool} {body : B} {data : RowPatch C Value} {c : C} {s : Text}
    (h : F.validatedData forUpdate body = some data) (hc : T.fields.lookup c = some .charField)
    (hs : data c = some (some (.str s))) : strip s = s

/-- The Cassandra driver as documented: what a column of an exact type holds is what was bound to
it, and what is read of a column can be bound to it again. -/
structure CqlDriver.Documented (D : CqlDriver) : Prop where
  exact {ty : CqlType} {v w : Value} (hty : ty.Exact) (h : D.store ty v = some w) : w = v
  stored {ty : CqlType} {v w : Value} (h : D.store ty v = some w) : D.store ty w = some w

/-- The endpoint accepts the body, and the driver its values: there is a record then. -/
def Creates {C B : Type} [DecidableEq C] (F : RestFramework C B) (D : CqlDriver) (T : ViewSet C)
    (body : B) : Prop :=
  ∃ s data, (create F D T true body s).1 = .created data

/-- A path names the record that a body creates: it decodes to its key, and so the record can be
retrieved, updated and deleted under it. -/
structure PathNames {C B : Type} [DecidableEq C] (F : RestFramework C B) (D : CqlDriver)
    (T : ViewSet C) (body : B) (path : Text) (key : List (C × Value)) : Prop where
  decodes : parsePrimaryKey F T (some path) = .ok key
  retrieved (hbody : Creates F D T body) (s : T.Store) :
    ∃ row, retrieve F D T true (some path) (create F D T true body s).2 = .ok row
  updated (hbody : Creates F D T body) (s : T.Store) {changes : B} {data : RowPatch C Value}
    (h : F.validatedData true changes = some data) (hc : ∃ c : T.Regular, data c ≠ none)
    (ht : T.Takes D (updatableFields T data)) :
    updateRecord F D T true (some path) changes s = (.updated, ColumnStore.update s
      (key.map Prod.snd) (ViewSet.regular (T.stored D (updatableFields T data))))
  destroyed (hbody : Creates F D T body) (s : T.Store) :
    destroy F D T true (some path) s = (.noContent, ColumnStore.delete s (key.map Prod.snd))

/-! ## Values bound to columns -/

section
variable {C B : Type} [DecidableEq C] {F : RestFramework C B} {D : CqlDriver} {T : ViewSet C}

omit [DecidableEq C] in
/-- A key column holds what was posted. -/
theorem ViewSet.store_key (hD : D.Documented) {row : RowPatch C Value} (h : T.Takes D row) {c : C}
    {v : Value} (hc : c ∈ T.primaryKeyColumns) (hv : row c = some (some v)) :
    D.store (T.columnType c) v = some v := by
  obtain ⟨w, hw⟩ := Option.isSome_iff_exists.mp (h c v hv)
  rw [hw, hD.exact (T.keyExact c hc) hw]

omit [DecidableEq C] in
theorem ViewSet.keyOf_stored (hD : D.Documented) {row : RowPatch C Value} (h : T.Takes D row) :
    T.keyOf (T.stored D row) = T.keyOf row := by
  have hcell : ∀ c ∈ T.primaryKeyColumns, (T.stored D row c).join = (row c).join := by
    intro c hc
    unfold ViewSet.stored
    rcases hrow : row c with _ | _ | v
    · rfl
    · rfl
    · exact ViewSet.store_key hD h hc hrow
  have hmapM : ∀ cols : List C, (∀ c ∈ cols, c ∈ T.primaryKeyColumns) →
      (cols.mapM fun c => (T.stored D row c).join) = cols.mapM fun c => (row c).join := by
    intro cols hcols
    induction cols with
    | nil => rfl
    | cons c cols ih =>
      rw [List.mapM_cons, List.mapM_cons, hcell c (hcols c List.mem_cons_self),
        ih fun c hc => hcols c (List.mem_cons_of_mem _ hc)]
  exact hmapM _ fun c hc => hc

omit [DecidableEq C] in
theorem ViewSet.bindKey_eq_some {key : List (C × Value)}
    (h : ∀ kv ∈ key, D.store (T.columnType kv.1) kv.2 = some kv.2) :
    T.bindKey D key = some (key.map Prod.snd) := by
  unfold ViewSet.bindKey
  induction key with
  | nil => rfl
  | cons kv key ih =>
    rw [List.mapM_cons, h kv List.mem_cons_self, ih fun kv hkv => h kv (List.mem_cons_of_mem _ hkv)]
    rfl

/-- What the body of a record that was created has gone through. -/
theorem takes_of_creates {body : B} {data : RowPatch C Value}
    (hdata : F.validatedData false body = some data) (h : Creates F D T body) :
    T.Takes D data := by
  obtain ⟨s, _, h⟩ := h
  unfold create at h
  rw [if_neg (by decide), hdata] at h
  by_contra hnot
  simp only [ViewSet.insert, if_neg hnot] at h
  exact nomatch h

theorem pathNames_of_decodes (hD : D.Documented) {body : B} {data : RowPatch C Value}
    {path : Text} {key : List (C × Value)} (hbody : F.validatedData false body = some data)
    (hkey : T.keyOf data = some (key.map Prod.snd))
    (hvals : ∀ kv ∈ key, kv.1 ∈ T.primaryKeyColumns ∧ data kv.1 = some (some kv.2))
    (h : parsePrimaryKey F T (some path) = .ok key) : PathNames F D T body path key := by
  have hbind : Creates F D T body → T.bindKey D key = some (key.map Prod.snd) := by
    intro hcreates
    refine ViewSet.bindKey_eq_some fun kv hkv => ?_
    obtain ⟨hc, hv⟩ := hvals kv hkv
    exact ViewSet.store_key hD (takes_of_creates hbody hcreates) hc hv
  refine ⟨h, fun hcreates s => ?_, fun hcreates s changes data' hdata' hc ht => ?_,
    fun hcreates s => ?_⟩
  · have htakes := takes_of_creates hbody hcreates
    have hcreate : (create F D T true body s).2
        = ColumnStore.insert s (key.map Prod.snd) (ViewSet.regular (T.stored D data)) := by
      unfold create ViewSet.insert
      rw [if_neg (by decide), hbody]
      simp only [if_pos htakes, ViewSet.keyOf_stored hD htakes, hkey, Option.map_some]
    unfold retrieve
    rw [hcreate, if_neg (by decide), h]
    simp only [ViewSet.get, hbind hcreates, Option.map_some, ColumnStore.rows_insert,
      Table.upsert_self]
    exact ⟨_, rfl⟩
  · obtain ⟨c, hc⟩ := hc
    have hsome : ¬ ∀ c ∈ T.fields.map Prod.fst, updatableFields T data' c = none := by
      intro hall
      have hnone := hall c (T.complete c)
      unfold updatableFields at hnone
      rw [if_neg c.2] at hnone
      exact hc hnone
    unfold updateRecord
    rw [if_neg (by decide), h]
    simp only [hdata', if_neg hsome, ViewSet.update, if_pos ht, hbind hcreates, Option.map_some]
  · unfold destroy
    rw [if_neg (by decide), h]
    simp only [ViewSet.delete, hbind hcreates, Option.map_some]

end

section
variable {C B : Type} [DecidableEq C] {F : RestFramework C B} {T : ViewSet C}

/-- Parts that make no separator with the one behind them are read under the key columns. -/
theorem parsePrimaryKey_intercalate {parts : List Text} {last : Text}
    (hparts : ∀ w ∈ parts, ¬ keySep <:+: w ++ keySep.dropLast) (hlast : ¬ keySep <:+: last)
    (hlen : (parts ++ [last]).length = T.primaryKeyColumns.length) :
    parsePrimaryKey F T (some (keySep.intercalate (parts ++ [last])))
      = coerceQueryValues F T (T.primaryKeyColumns.zip (parts ++ [last])) := by
  rw [parsePrimaryKey, Option.getD_some,
    List.splitWord_intercalate keySep_ne_nil hparts hlast]
  exact if_neg (not_not_intro hlen)

/-- A path with too many or too few parts is refused. -/
theorem parsePrimaryKey_of_length_ne {path : Text}
    (h : (List.splitWord keySep path).length ≠ T.primaryKeyColumns.length) :
    ∃ reason, parsePrimaryKey F T (some path) = .error reason := by
  rw [parsePrimaryKey, Option.getD_some]
  exact ⟨_, if_pos h⟩

theorem coerceQueryValues_cons {c : C} {field : FieldClass} {raw : Text} {v : Value}
    (hfield : T.fields.lookup c = some field) (hv : F.toInternalValue field raw = some v)
    (raws : List (C × Text)) :
    coerceQueryValues F T ((c, raw) :: raws) = (coerceQueryValues F T raws).map ((c, v) :: ·) := by
  simp only [coerceQueryValues, hfield, hv]

theorem coerceQueryValues_cons_of_none {c : C} {field : FieldClass} {raw : Text}
    (hfield : T.fields.lookup c = some field) (hv : F.toInternalValue field raw = none)
    (raws : List (C × Text)) :
    coerceQueryValues F T ((c, raw) :: raws) = .error .validationError := by
  simp only [coerceQueryValues, hfield, hv]

end

/-! ## Products -/

/-- The path of the product decodes. -/
def ProductPathOk (categoryId : ℤ) (sku : Text) : Prop :=
  ¬ keySep <:+: sku ∧ (fmtInt categoryId).length ≤ 1000

section
variable {B : Type} {F : RestFramework ProductsCol B}

theorem parsePrimaryKey_product {n : ℤ} {sku : Text} (h : ¬ keySep <:+: sku) :
    parsePrimaryKey F productsViewSet (some (productPath n sku))
      = coerceQueryValues F productsViewSet [(.categoryId, fmtInt n), (.sku, sku)] := by
  have hint : ∀ w ∈ [fmtInt n], ¬ keySep <:+: w ++ keySep.dropLast := fun w hw =>
    List.mem_singleton.mp hw ▸ not_infix_fmtInt_append n
  exact parsePrimaryKey_intercalate hint h rfl

theorem parsePrimaryKey_product_of_infix (n : ℤ) {sku : Text} (h : keySep <:+: sku) :
    ∃ reason, parsePrimaryKey F productsViewSet (some (productPath n sku)) = .error reason := by
  have htwo := List.two_le_length_splitWord keySep_ne_nil h
  apply parsePrimaryKey_of_length_ne
  rw [splitWord_productPath, List.length_cons]
  show _ ≠ 2
  omega

theorem parsePrimaryKey_product_eq_iff (hF : F.Documented productsViewSet) (n : ℤ) {sku : Text}
    (hsku : strip sku = sku) :
    parsePrimaryKey F productsViewSet (some (productPath n sku))
        = .ok [(.categoryId, .int n), (.sku, .str sku)] ↔ ProductPathOk n sku := by
  unfold ProductPathOk
  by_cases hin : keySep <:+: sku
  · obtain ⟨reason, herr⟩ := parsePrimaryKey_product_of_infix (F := F) n hin
    rw [herr]
    exact ⟨nofun, fun h => absurd hin h.1⟩
  · rw [parsePrimaryKey_product hin]
    by_cases hlen : (fmtInt n).length ≤ 1000
    · have htext : F.toInternalValue .charField sku = some (.str sku) := by
        rw [hF.char_text, hsku]
      rw [coerceQueryValues_cons rfl (hF.integer_text n hlen), coerceQueryValues_cons rfl htext]
      exact ⟨fun _ => ⟨hin, hlen⟩, fun _ => rfl⟩
    · rw [coerceQueryValues_cons_of_none rfl (hF.integer_long _ (by omega))]
      exact ⟨nofun, fun h => absurd h.2 hlen⟩

/-- The path of an accepted product names it exactly when its `sku` has no separator in it. -/
theorem pathNames_product_iff {D : CqlDriver} (hF : F.Documented productsViewSet)
    (hD : D.Documented) {body : B} {data : RowPatch ProductsCol Value} {n : ℤ} {sku : Text}
    (hbody : F.validatedData false body = some data)
    (hn : data .categoryId = some (some (.int n))) (hsku : data .sku = some (some (.str sku))) :
    PathNames F D productsViewSet body (productPath n sku)
        [(.categoryId, .int n), (.sku, .str sku)] ↔ ProductPathOk n sku := by
  have hiff := parsePrimaryKey_product_eq_iff hF n (hF.char_valid hbody rfl hsku)
  have hkey : productsViewSet.keyOf data = some [.int n, .str sku] := by
    simp [ViewSet.keyOf, productsViewSet, hn, hsku]
  have hvals : ∀ kv ∈ [(ProductsCol.categoryId, Value.int n), (.sku, .str sku)],
      kv.1 ∈ productsViewSet.primaryKeyColumns ∧ data kv.1 = some (some kv.2) := by
    simp [productsViewSet, hn, hsku]
  exact ⟨fun h => hiff.mp h.decodes,
    fun h => pathNames_of_decodes hD hbody hkey hvals (hiff.mpr h)⟩

end

/-! ## Shipments -/

/-- The path of the shipment decodes. -/
def ShipmentPathOk (carrierId : ℤ) (trackingCode : Text) (legNo : ℤ) : Prop :=
  ¬ keySep <:+: trackingCode ∧ trackingCode.getLast? ≠ some '_' ∧
    (fmtInt carrierId).length ≤ 1000 ∧ (fmtInt legNo).length ≤ 1000

section
variable {B : Type} {F : RestFramework ShipmentsCol B}

theorem parsePrimaryKey_shipment {n : ℤ} {p₁ p₂ : Text}
    (h₁ : ¬ keySep <:+: p₁ ++ keySep.dropLast) (h₂ : ¬ keySep <:+: p₂) :
    parsePrimaryKey F shipmentsViewSet (some (keySep.intercalate [fmtInt n, p₁, p₂]))
      = coerceQueryValues F shipmentsViewSet
          [(.carrierId, fmtInt n), (.trackingCode, p₁), (.legNo, p₂)] := by
  have hfirst : ∀ w ∈ [fmtInt n, p₁], ¬ keySep <:+: w ++ keySep.dropLast := by
    intro w hw
    rcases List.mem_cons.mp hw with rfl | hw
    · exact not_infix_fmtInt_append n
    · exact List.mem_singleton.mp hw ▸ h₁
  exact parsePrimaryKey_intercalate hfirst h₂ rfl

theorem parsePrimaryKey_shipment_of_infix (n leg : ℤ) {code : Text} (h : keySep <:+: code) :
    ∃ reason,
      parsePrimaryKey F shipmentsViewSet (some (shipmentPath n code leg)) = .error reason := by
  have hthree := three_le_length_splitWord_code h leg
  apply parsePrimaryKey_of_length_ne
  rw [splitWord_shipmentPath, List.length_cons]
  show _ ≠ 3
  omega

/-- The int fields of a shipment's key, read around its code. -/
theorem coerce_shipment (hF : F.Documented shipmentsViewSet) {n : ℤ} {p₁ p₂ : Text} :
    coerceQueryValues F shipmentsViewSet
        [(.carrierId, fmtInt n), (.trackingCode, p₁), (.legNo, p₂)]
      = if (fmtInt n).length ≤ 1000 then
          match F.toInternalValue .integerField p₂ with
          | none => .error .validationError
          | some leg => .ok [(.carrierId, .int n), (.trackingCode, .str (strip p₁)), (.legNo, leg)]
        else .error .validationError := by
  split
  · next hlen =>
    rw [coerceQueryValues_cons rfl (hF.integer_text n hlen),
      coerceQueryValues_cons rfl (hF.char_text p₁)]
    rcases hleg : F.toInternalValue .integerField p₂ with _ | leg
    · rw [coerceQueryValues_cons_of_none rfl hleg]
      rfl
    · rw [coerceQueryValues_cons rfl hleg]
      rfl
  · rw [coerceQueryValues_cons_of_none rfl (hF.integer_long _ (by omega))]

theorem parsePrimaryKey_shipment_eq_iff (hF : F.Documented shipmentsViewSet) (n leg : ℤ)
    {code : Text} (hcode : strip code = code) :
    parsePrimaryKey F shipmentsViewSet (some (shipmentPath n code leg))
        = .ok [(.carrierId, .int n), (.trackingCode, .str code), (.legNo, .int leg)]
      ↔ ShipmentPathOk n code leg := by
  unfold ShipmentPathOk
  by_cases hin : keySep <:+: code
  · obtain ⟨reason, herr⟩ := parsePrimaryKey_shipment_of_infix (F := F) n leg hin
    rw [herr]
    exact ⟨nofun, fun h => absurd hin h.1⟩
  by_cases hend : code.getLast? = some '_'
  · -- the int at the end is read with an underscore before it
    obtain ⟨code', rfl⟩ := List.getLast?_eq_some_iff.mp hend
    rw [shipmentPath_underscore, parsePrimaryKey_shipment hin (not_infix_underscore_fmtInt leg),
      coerce_shipment hF, hF.integer_underscore]
    refine ⟨fun h => ?_, fun h => absurd hend h.2.1⟩
    split at h <;> exact nomatch h
  · have hmid : ¬ keySep <:+: code ++ keySep.dropLast := by
      rw [infix_append_dropLast_iff, not_or]
      exact ⟨hin, hend⟩
    rw [shipmentPath, parsePrimaryKey_shipment hmid (not_infix_fmtInt leg), coerce_shipment hF,
      hcode]
    by_cases hlen : (fmtInt n).length ≤ 1000
    · rw [if_pos hlen]
      by_cases hleg : (fmtInt leg).length ≤ 1000
      · rw [hF.integer_text leg hleg]
        exact ⟨fun _ => ⟨hin, hend, hlen, hleg⟩, fun _ => rfl⟩
      · rw [hF.integer_long _ (by omega)]
        exact ⟨nofun, fun h => absurd h.2.2.2 hleg⟩
    · rw [if_neg hlen]
      exact ⟨nofun, fun h => absurd h.2.2.1 hlen⟩

/-- The path of an accepted shipment names it exactly when its `tracking_code` has no separator in
it and does not end in an underscore. -/
theorem pathNames_shipment_iff {D : CqlDriver} (hF : F.Documented shipmentsViewSet)
    (hD : D.Documented) {body : B} {data : RowPatch ShipmentsCol Value} {n leg : ℤ} {code : Text}
    (hbody : F.validatedData false body = some data)
    (hn : data .carrierId = some (some (.int n)))
    (hcode : data .trackingCode = some (some (.str code)))
    (hleg : data .legNo = some (some (.int leg))) :
    PathNames F D shipmentsViewSet body (shipmentPath n code leg)
        [(.carrierId, .int n), (.trackingCode, .str code), (.legNo, .int leg)]
      ↔ ShipmentPathOk n code leg := by
  have hiff := parsePrimaryKey_shipment_eq_iff hF n leg (hF.char_valid hbody rfl hcode)
  have hkey : shipmentsViewSet.keyOf data = some [.int n, .str code, .int leg] := by
    simp [ViewSet.keyOf, shipmentsViewSet, hn, hcode, hleg]
  have hvals : ∀ kv ∈ [(ShipmentsCol.carrierId, Value.int n), (.trackingCode, .str code),
      (.legNo, .int leg)],
      kv.1 ∈ shipmentsViewSet.primaryKeyColumns ∧ data kv.1 = some (some kv.2) := by
    simp [shipmentsViewSet, hn, hcode, hleg]
  exact ⟨fun h => hiff.mp h.decodes,
    fun h => pathNames_of_decodes hD hbody hkey hvals (hiff.mpr h)⟩

end

/-! ## All paths -/

/-- The path of an accepted record names it exactly when its text column has no separator in it,
and for a shipment does not end in an underscore (and the ints are no longer than an
`IntegerField` reads); no two records ever share a path. -/
theorem path_names_record_iff {B B' : Type} {P : RestFramework ProductsCol B}
    {S : RestFramework ShipmentsCol B'} {D : CqlDriver} (hP : P.Documented productsViewSet)
    (hS : S.Documented shipmentsViewSet) (hD : D.Documented) :
    (∀ (body : B) (data : RowPatch ProductsCol Value) (n : ℤ) (sku : Text),
        P.validatedData false body = some data → data .categoryId = some (some (.int n)) →
        data .sku = some (some (.str sku)) →
        (PathNames P D productsViewSet body (productPath n sku)
            [(.categoryId, .int n), (.sku, .str sku)] ↔ ProductPathOk n sku)) ∧
      (∀ (body : B') (data : RowPatch ShipmentsCol Value) (n : ℤ) (code : Text) (leg : ℤ),
        S.validatedData false body = some data → data .carrierId = some (some (.int n)) →
        data .trackingCode = some (some (.str code)) → data .legNo = some (some (.int leg)) →
        (PathNames S D shipmentsViewSet body (shipmentPath n code leg)
            [(.carrierId, .int n), (.trackingCode, .str code), (.legNo, .int leg)]
          ↔ ShipmentPathOk n code leg)) ∧
      (∀ (n n' : ℤ) (sku sku' : Text), productPath n sku = productPath n' sku' →
        n = n' ∧ sku = sku') ∧
      ∀ (n n' leg leg' : ℤ) (code code' : Text),
        shipmentPath n code leg = shipmentPath n' code' leg' → n = n' ∧ code = code' ∧ leg = leg' :=
  ⟨fun _ _ _ _ => pathNames_product_iff hP hD, fun _ _ _ _ _ => pathNames_shipment_iff hS hD,
    fun _ _ _ _ => productPath_injective, fun _ _ _ _ _ _ => shipmentPath_injective⟩

/-- What a `CharField` makes of a text; other values as they are. -/
def Value.trim : Value → Value
  | .str s => .str (strip s)
  | v => v

/-- `rest_framework` for bodies of values: it trims their texts. -/
def plainRest (C : Type) : RestFramework C (RowPatch C Value) where
  validatedData _ body := some fun c => (body c).map (Option.map Value.trim)
  toInternalValue
    | .integerField, s => if 1000 < s.length then none else (intText s).map .int
    | .charField, s => some (.str (strip s))
    | _, _ => none

theorem strip_strip (s : Text) : strip (strip s) = strip s := by
  have hstrip : ∀ u, strip u = (u.dropWhile isSpace).rdropWhile isSpace := fun _ => rfl
  have hfirst : (strip s).dropWhile isSpace = strip s := by
    rw [List.dropWhile_eq_self_iff]
    intro hl
    -- what is stripped from the right leaves the first character where it was
    have hpre : strip s <+: s.dropWhile isSpace := by
      rw [hstrip]
      exact List.rdropWhile_prefix ..
    rw [hpre.getElem hl]
    exact List.dropWhile_get_zero_not _ _ _
  rw [hstrip (strip s), hfirst, hstrip s]
  exact List.rdropWhile_idempotent ..

theorem intText_underscore (s : Text) : intText ('_' :: s) = none := by
  have hstrip : ∃ s', strip ('_' :: s) = '_' :: s' := by
    have hhead : ('_' :: s).dropWhile isSpace = '_' :: s := List.dropWhile_cons_of_neg (by decide)
    have hlast : (['_'] : Text).dropWhile isSpace = ['_'] := by decide
    rw [strip, hhead, List.reverse_cons, List.dropWhile_append, hlast]
    split
    · exact ⟨[], rfl⟩
    · rw [List.reverse_append]
      exact ⟨_, rfl⟩
  obtain ⟨s', hs'⟩ := hstrip
  have hnone : intValue ('_' :: s) = none := by
    unfold intValue
    rw [hs']
    rfl
  unfold intText
  rw [hnone, ite_self]

theorem plainRest_documented {C : Type} [DecidableEq C] (T : ViewSet C) :
    (plainRest C).Documented T where
  integer_text n h := by
    show (if 1000 < _ then none else _) = _
    rw [if_neg (by omega), intText_of_length_le (by omega), intValue_fmtInt]
    rfl
  integer_long s h := if_pos h
  integer_underscore s := by
    show (if 1000 < _ then none else _) = _
    rw [intText_underscore]
    split <;> rfl
  char_text s := rfl
  char_valid {_ body data c s} h _ hs := by
    obtain rfl := Option.some.inj h
    obtain ⟨v, -, hv⟩ := Option.map_eq_some_iff.mp hs
    obtain ⟨w, -, hw⟩ := Option.map_eq_some_iff.mp hv
    unfold Value.trim at hw
    split at hw
    · obtain rfl := Value.str.inj hw
      exact strip_strip _
    · next hne => exact absurd hw (hne s)

/-- A whole number in the range of a type of so many bits. -/
def storeInt (bits : ℕ) (n : ℤ) : Option Value :=
  if -2 ^ (bits - 1) ≤ n ∧ n < 2 ^ (bits - 1) then some (.int n) else none

/-- The driver for timestamps of whole milliseconds and floats from 4 to 8, of whose fraction 32
bits keep 21. -/
def plainDriver : CqlDriver where
  store
    | .int, .int n => storeInt 32 n
    | .smallint, .int n => storeInt 16 n
    | .bigint, .int n => storeInt 64 n
    | .float, .float q => some (.float (round (q * 2 ^ 21) / 2 ^ 21))
    | .double, .float q => some (.float q)
    | .timestamp, .datetime t => some (.datetime t)
    | .date, .date d => some (.date d)
    | .time, .time n => some (.time n)
    | .text, .str s => some (.str s)
    | .boolean, .bool b => some (.bool b)
    | .uuid, .uuid n => some (.uuid n)
    | .timeuuid, .uuid n => some (.uuid n)
    | _, _ => none

theorem storeInt_eq_some {bits : ℕ} {n : ℤ} {v : Value} (h : storeInt bits n = some v) :
    v = .int n := by
  unfold storeInt at h
  split at h
  · exact (Option.some.inj h).symm
  · exact nomatch h

theorem plainDriver_documented : plainDriver.Documented where
  exact {ty v w} hty h := by
    cases ty <;> cases v <;> first
      | exact absurd rfl hty.1
      | exact absurd rfl hty.2
      | exact storeInt_eq_some h
      | exact (Option.some.inj h).symm
      | exact nomatch h
  stored {ty v w} h := by
    by_cases hfloat : ty = .float
    · subst hfloat
      cases v with
      | float q =>
        obtain rfl := Option.some.inj h
        show some (Value.float (round ((round (q * 2 ^ 21) : ℚ) / 2 ^ 21 * 2 ^ 21) / 2 ^ 21)) = _
        rw [div_mul_cancel₀ _ (by norm_num), round_intCast]
      | _ => exact nomatch h
    · -- every other column holds what is bound to it
      have hw : w = v := by
        cases ty <;> cases v <;> first
          | exact absurd rfl hfloat
          | exact storeInt_eq_some h
          | exact (Option.some.inj h).symm
          | exact nomatch h
      rw [hw] at h ⊢
      exact h

/-- A product of category 5. -/
def product5 (sku : Text) (c : ProductsCol) : Option (Option Value) :=
  match c with
  | .categoryId => some (some (.int 5))
  | .sku => some (some (.str sku))
  | _ => none

/-- The second leg of carrier 7. -/
def shipment7 (code : Text) (c : ShipmentsCol) : Option (Option Value) :=
  match c with
  | .carrierId => some (some (.int 7))
  | .trackingCode => some (some (.str code))
  | .legNo => some (some (.int 2))
  | _ => none

/-- A product and a shipment with harmless underscores can be created and reached. -/
theorem path_names_record_of_underscores :
    (Creates (plainRest ProductsCol) plainDriver productsViewSet (product5 "_A_1_".toList) ∧
      PathNames (plainRest ProductsCol) plainDriver productsViewSet (product5 "_A_1_".toList)
        (productPath 5 "_A_1_".toList) [(.categoryId, .int 5), (.sku, .str "_A_1_".toList)]) ∧
      Creates (plainRest ShipmentsCol) plainDriver shipmentsViewSet (shipment7 "_T_1".toList) ∧
      PathNames (plainRest ShipmentsCol) plainDriver shipmentsViewSet (shipment7 "_T_1".toList)
        (shipmentPath 7 "_T_1".toList 2)
        [(.carrierId, .int 7), (.trackingCode, .str "_T_1".toList), (.legNo, .int 2)] := by
  have hall := path_names_record_iff (plainRest_documented productsViewSet)
    (plainRest_documented shipmentsViewSet) plainDriver_documented
  refine ⟨⟨⟨ColumnStore.empty, _, rfl⟩, (hall.1 _ _ 5 "_A_1_".toList rfl rfl rfl).mpr ?_⟩,
    ⟨ColumnStore.empty, _, rfl⟩, (hall.2.1 _ _ 7 "_T_1".toList 2 rfl rfl rfl rfl).mpr ?_⟩
  · unfold ProductPathOk
    decide
  · unfold ShipmentPathOk
    decide

/-- A product whose `sku` has a separator in it and a shipment whose code ends in an underscore
are created, and their paths are refused. -/
theorem path_names_no_record :
    (create (plainRest ProductsCol) plainDriver productsViewSet true (product5 "A__B".toList)
        ColumnStore.empty).1 = .created (product5 "A__B".toList) ∧
      parsePrimaryKey (plainRest ProductsCol) productsViewSet (some (productPath 5 "A__B".toList))
        = .error (.detail "primary key must be 2 parts joined by '__'".toList) ∧
      (create (plainRest ShipmentsCol) plainDriver shipmentsViewSet true (shipment7 "A_".toList)
        ColumnStore.empty).1 = .created (shipment7 "A_".toList) ∧
      parsePrimaryKey (plainRest ShipmentsCol) shipmentsViewSet
        (some (shipmentPath 7 "A_".toList 2)) = .error .validationError := by
  refine ⟨?_, ?_, ?_, ?_⟩
  · exact congrArg Response.created (funext fun c => by cases c <;> rfl)
  · rfl
  · exact congrArg Response.created (funext fun c => by cases c <;> rfl)
  · rfl

end NetBuild
