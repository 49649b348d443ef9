import NetBuild.Lib.ColumnStore
import NetBuild.Lib.SplitWord
import NetBuild.Timestamp

/-!
# The CRUD endpoints

The viewsets of `apps.catalog` and `apps.ff_net` differ in their serializer and their repository
only, so one definition models each endpoint:

* `ViewSet`: the serializer's fields, the types of the table's columns and the columns of the
  primary key, with the five viewsets;
* `parsePrimaryKey`, `coerceQueryValues`: from the last part of a path to the values of a key;
* `get`, `insert`, `update`, `delete`: the queries of `BaseRepository`, over a column store;
* `create`, `retrieve`, `updateRecord`, `destroy`: the endpoints, with their answers, and `serve`,
  what a request makes of the table.

What `rest_framework` does, reading a text and validating a body, is a parameter, and so is what the
Cassandra driver makes of a value that is bound to a column.
-/

namespace NetBuild

/-! ## Serializers -/

/-- The field classes the serializers use. -/
inductive FieldClass
  | integerField | floatField | charField | booleanField | dateField | timeField | dateTimeField
  | uuidField
  deriving DecidableEq

/-- What the fields make of their input. A time of day is in nanoseconds, a UUID is a number. -/
inductive Value
  | int (n : ℤ)
  | float (q : ℚ)
  | str (s : Text)
  | bool (b : Bool)
  | date (d : Date)
  | time (nanos : ℕ)
  | datetime (t : Timestamp)
  | uuid (n : ℕ)
  deriving DecidableEq

/-- What a viewset asks of `rest_framework`, for request bodies `B`. -/
structure RestFramework (C B : Type) where
  /-- The `validated_data` of a body that `is_valid`, where an update need not have every field. -/
  validatedData (forUpdate : Bool) (body : B) : Option (RowPatch C Value)
  /-- `field.to_internal_value(text)`, unless it raises a `ValidationError`. -/
  toInternalValue (field : FieldClass) (text : Text) : Option Value

/-- The types of the columns in `schema.sql` and `cassandra.sql`. -/
inductive CqlType
  | int | smallint | bigint | float | double | timestamp | date | time | text | boolean | uuid
  | timeuuid
  deriving DecidableEq

/-- A column of the type holds what is bound to it: of the others `float` rounds to 32 bits and
`timestamp` cuts to milliseconds. -/
def CqlType.Exact (ty : CqlType) : Prop := ty ≠ .float ∧ ty ≠ .timestamp

instance (ty : CqlType) : Decidable ty.Exact := inferInstanceAs (Decidable (_ ∧ _))

/-- What the Cassandra driver makes of a value: what a column of the type holds when the value was
bound to it, unless the driver or the node refuses it. -/
structure CqlDriver where
  store (ty : CqlType) (v : Value) : Option Value

/-- The lines in which viewsets differ: the fields of `serializer_class`, one for each column, the
types of the columns and the key columns of `repository`. -/
structure ViewSet (C : Type) where
  fields : List (C × FieldClass)
  columnType : C → CqlType
  primaryKeyColumns : List C
  complete : ∀ c, c ∈ fields.map Prod.fst
  keyExact : ∀ c ∈ primaryKeyColumns, (columnType c).Exact

/-! ## The viewsets -/

inductive ProductsCol
  | categoryId | sku | warrantyMonths | stockQty | viewCount | rating | weightKg | listedAt
  | releaseDate | restockTime | title | isActive
  deriving DecidableEq

def productsViewSet : ViewSet ProductsCol where
  fields := [(.categoryId, .integerField), (.sku, .charField), (.warrantyMonths, .integerField),
    (.stockQty, .integerField), (.viewCount, .integerField), (.rating, .floatField),
    (.weightKg, .floatField), (.listedAt, .dateTimeField), (.releaseDate, .dateField),
    (.restockTime, .timeField), (.title, .charField), (.isActive, .booleanField)]
  columnType
    | .categoryId | .stockQty => .int
    | .sku | .title => .text
    | .warrantyMonths => .smallint
    | .viewCount => .bigint
    | .rating => .float
    | .weightKg => .double
    | .listedAt => .timestamp
    | .releaseDate => .date
    | .restockTime => .time
    | .isActive => .boolean
  primaryKeyColumns := [.categoryId, .sku]
  complete := fun c => by cases c <;> decide
  keyExact := by decide

inductive ShipmentsCol
  | carrierId | trackingCode | legNo | legCount | parcelCount | distanceMeters | weightKg
  | shippingCost | dispatchedAt | etaDate | pickupTime | status | isDelivered
  deriving DecidableEq

def shipmentsViewSet : ViewSet ShipmentsCol where
  fields := [(.carrierId, .integerField), (.trackingCode, .charField), (.legNo, .integerField),
    (.legCount, .integerField), (.parcelCount, .integerField), (.distanceMeters, .integerField),
    (.weightKg, .floatField), (.shippingCost, .floatField), (.dispatchedAt, .dateTimeField),
    (.etaDate, .dateField), (.pickupTime, .timeField), (.status, .charField),
    (.isDelivered, .booleanField)]
  columnType
    | .carrierId | .legNo | .parcelCount => .int
    | .trackingCode | .status => .text
    | .legCount => .smallint
    | .distanceMeters => .bigint
    | .weightKg => .float
    | .shippingCost => .double
    | .dispatchedAt => .timestamp
    | .etaDate => .date
    | .pickupTime => .time
    | .isDelivered => .boolean
  primaryKeyColumns := [.carrierId, .trackingCode, .legNo]
  complete := fun c => by cases c <;> decide
  keyExact := by decide

inductive OrdersCol
  | orderId | placedAt | itemCount | customerId | orderTotalCents | discountRate | taxAmount
  | confirmedAt | deliveryDate | orderWindow | status | isGift
  deriving DecidableEq

def ordersViewSet : ViewSet OrdersCol where
  fields := [(.orderId, .uuidField), (.placedAt, .uuidField), (.itemCount, .integerField),
    (.customerId, .integerField), (.orderTotalCents, .integerField), (.discountRate, .floatField),
    (.taxAmount, .floatField), (.confirmedAt, .dateTimeField), (.deliveryDate, .dateField),
    (.orderWindow, .timeField), (.status, .charField), (.isGift, .booleanField)]
  columnType
    | .orderId => .uuid
    | .placedAt => .timeuuid
    | .itemCount => .smallint
    | .customerId => .int
    | .orderTotalCents => .bigint
    | .discountRate => .float
    | .taxAmount => .double
    | .confirmedAt => .timestamp
    | .deliveryDate => .date
    | .orderWindow => .time
    | .status => .text
    | .isGift => .boolean
  primaryKeyColumns := [.orderId, .placedAt]
  complete := fun c => by cases c <;> decide
  keyExact := by decide

inductive InventoryCol
  | warehouseId | binId | aisle | quantityOnHand | totalMovements | fillRatio | temperatureC
  | lastCountedAt | expiryDate | lastScanTime | locationLabel | needsRestock
  deriving DecidableEq

def inventoryViewSet : ViewSet InventoryCol where
  fields := [(.warehouseId, .integerField), (.binId, .integerField), (.aisle, .integerField),
    (.quantityOnHand, .integerField), (.totalMovements, .integerField), (.fillRatio, .floatField),
    (.temperatureC, .floatField), (.lastCountedAt, .dateTimeField), (.expiryDate, .dateField),
    (.lastScanTime, .timeField), (.locationLabel, .charField), (.needsRestock, .booleanField)]
  columnType
    | .warehouseId | .binId | .quantityOnHand => .int
    | .aisle => .smallint
    | .totalMovements => .bigint
    | .fillRatio => .float
    | .temperatureC => .double
    | .lastCountedAt => .timestamp
    | .expiryDate => .date
    | .lastScanTime => .time
    | .locationLabel => .text
    | .needsRestock => .boolean
  primaryKeyColumns := [.warehouseId, .binId]
  complete := fun c => by cases c <;> decide
  keyExact := by decide

inductive FFNetReportCol
  | ffId | lti | frequency | bandwidth | modulation | signalType | netLevel | netType | branch
  | nationality | force | language | cipher | latitude | longitude | geoDistance | nti | fti
  | azimuth | elevation | snrDb | rdfs
  deriving DecidableEq

def ffNetViewSet : ViewSet FFNetReportCol where
  fields := [(.ffId, .integerField), (.lti, .dateField), (.frequency, .floatField),
    (.bandwidth, .floatField), (.modulation, .charField), (.signalType, .charField),
    (.netLevel, .charField), (.netType, .charField), (.branch, .charField),
    (.nationality, .charField), (.force, .charField), (.language, .charField),
    (.cipher, .charField), (.latitude, .floatField), (.longitude, .floatField),
    (.geoDistance, .floatField), (.nti, .integerField), (.fti, .dateField),
    (.azimuth, .floatField), (.elevation, .floatField), (.snrDb, .floatField), (.rdfs, .charField)]
  columnType
    | .ffId | .nti => .int
    | .lti | .fti => .date
    | .frequency | .bandwidth | .latitude | .longitude | .geoDistance | .azimuth | .elevation
    | .snrDb => .double
    | .modulation | .signalType | .netLevel | .netType | .branch | .nationality | .force
    | .language | .cipher | .rdfs => .text
  primaryKeyColumns := [.ffId, .lti]
  complete := fun c => by cases c <;> decide
  keyExact := by decide

/-! ## Path keys -/

/-- Why an endpoint answers 400. -/
inductive BadRequest
  | detail (text : Text)
  | validationError
  deriving DecidableEq

section
variable {C B : Type} [DecidableEq C]

/-- `coerce_query_values(serializer_class, raw_values)`. -/
def coerceQueryValues (F : RestFramework C B) (T : ViewSet C) :
    List (C × Text) → Except BadRequest (List (C × Value))
  | [] => .ok []
  | (column, rawValue) :: rawValues =>
    match T.fields.lookup column with
    | none => coerceQueryValues F T rawValues
    | some field =>
      match F.toInternalValue field rawValue with
      | none => .error .validationError
      | some value => (coerceQueryValues F T rawValues).map ((column, value) :: ·)

/-- The separator of the parts of a path key. -/
def keySep : Text := "__".toList

/-- `_parse_primary_key(pk)`. -/
def parsePrimaryKey (F : RestFramework C B) (T : ViewSet C) (pk : Option Text) :
    Except BadRequest (List (C × Value)) :=
  let parts := List.splitWord keySep (pk.getD [])
  if parts.length ≠ T.primaryKeyColumns.length then
    .error (.detail ("primary key must be ".toList ++ Nat.toDigits 10 T.primaryKeyColumns.length
      ++ " parts joined by '__'".toList))
  else coerceQueryValues F T (T.primaryKeyColumns.zip parts)

end

/-! ## Repositories -/

namespace ViewSet

variable {C : Type} [DecidableEq C]

/-- The columns that are not of the primary key, those with cells. -/
abbrev Regular (T : ViewSet C) : Type := {c : C // c ∉ T.primaryKeyColumns}

instance (T : ViewSet C) : Fintype T.Regular :=
  .ofList ((T.fields.map Prod.fst).filterMap fun c => if h : c ∉ T.primaryKeyColumns then
    some ⟨c, h⟩ else none) fun ⟨c, h⟩ =>
      List.mem_filterMap.mpr ⟨c, T.complete c, dif_pos h⟩

/-- What Cassandra holds of a viewset's table, by the values of the key columns. -/
abbrev Store (T : ViewSet C) : Type := ColumnStore (List Value) T.Regular Value

/-- A row as a query returns it, with the key columns. -/
def row (T : ViewSet C) (key : List Value) (cells : T.Regular → Option Value) (c : C) :
    Option Value :=
  if h : c ∈ T.primaryKeyColumns then (T.primaryKeyColumns.zip key).lookup c else cells ⟨c, h⟩

/-- The key a row goes under, when it has a value in each key column. -/
def keyOf (T : ViewSet C) (row : RowPatch C Value) : Option (List Value) :=
  T.primaryKeyColumns.mapM fun c => (row c).join

/-- The part of a write that goes to cells. -/
abbrev regular {T : ViewSet C} (data : RowPatch C Value) : RowPatch T.Regular Value :=
  fun c => data c

/-- The driver takes every value of the row. -/
def Takes (D : CqlDriver) (T : ViewSet C) (row : RowPatch C Value) : Prop :=
  ∀ c v, row c = some (some v) → (D.store (T.columnType c) v).isSome = true

instance (D : CqlDriver) (T : ViewSet C) (row : RowPatch C Value) : Decidable (Takes D T row) :=
  decidable_of_iff (∀ c ∈ T.fields.map Prod.fst, ∀ v ∈ (row c).join,
      (D.store (T.columnType c) v).isSome = true)
    ⟨fun h c v hv => h c (T.complete c) v (by rw [hv]; rfl),
      fun h c _ v hv => h c v (Option.join_eq_some_iff.mp hv)⟩

/-- What the columns hold when the row was bound. -/
def stored (D : CqlDriver) (T : ViewSet C) (row : RowPatch C Value) : RowPatch C Value :=
  fun c => (row c).map fun v => v.bind (D.store (T.columnType c))

/-- The key bound to a `WHERE` clause, unless the driver refuses a value of it. -/
def bindKey (D : CqlDriver) (T : ViewSet C) (keyValues : List (C × Value)) : Option (List Value) :=
  keyValues.mapM fun kv => D.store (T.columnType kv.1) kv.2

/-- `repository.get(key_values)`: no two rows have the same values in all key columns. -/
def get (D : CqlDriver) (T : ViewSet C) (s : T.Store) (keyValues : List (C × Value)) :
    Option (Option (C → Option Value)) :=
  (T.bindKey D keyValues).map fun key => (s.rows key).map (T.row key)

/-- `repository.insert(row)`, which raises where a value is refused, or a key column is missing or
null. -/
def insert (D : CqlDriver) (T : ViewSet C) (row : RowPatch C Value) (s : T.Store) :
    Option T.Store :=
  if T.Takes D row then
    (T.keyOf (T.stored D row)).map fun key => ColumnStore.insert s key (regular (T.stored D row))
  else none

/-- `repository.update(key_values, fields)`, which raises where a value is refused. -/
def update (D : CqlDriver) (T : ViewSet C) (keyValues : List (C × Value))
    (fields : RowPatch C Value) (s : T.Store) : Option T.Store :=
  if T.Takes D fields then
    (T.bindKey D keyValues).map fun key => ColumnStore.update s key (regular (T.stored D fields))
  else none

/-- `repository.delete(key_values)`. -/
def delete (D : CqlDriver) (T : ViewSet C) (keyValues : List (C × Value)) (s : T.Store) :
    Option T.Store :=
  (T.bindKey D keyValues).map (ColumnStore.delete s)

end ViewSet

/-! ## Endpoints -/

/-- What an endpoint answers. -/
inductive Response (C : Type)
  | ok (row : C → Option Value)
  | created (validatedData : RowPatch C Value)
  | updated
  | notUpdated (detail : Text)
  | noContent
  | badRequest (reason : BadRequest)
  | notFound
  | serverError
  | serviceUnavailable (detail : Text)

section
variable {C B : Type} [DecidableEq C] (F : RestFramework C B) (D : CqlDriver) (T : ViewSet C)

/-- `_service_unavailable()`. -/
def serviceUnavailable : Response C := .serviceUnavailable "Cassandra is not available".toList

/-- `create(request)`; `ready` is `cassandra_session.is_ready()`. -/
def create (ready : Bool) (body : B) (s : T.Store) : Response C × T.Store :=
  if ready = false then (serviceUnavailable, s) else
  match F.validatedData false body with
  | none => (.badRequest .validationError, s)
  | some validatedData =>
    match T.insert D validatedData s with
    | none => (.serverError, s)
    | some s' => (.created validatedData, s')

/-- `retrieve(request, pk)`. -/
def retrieve (ready : Bool) (pk : Option Text) (s : T.Store) : Response C :=
  if ready = false then serviceUnavailable else
  match parsePrimaryKey F T pk with
  | .error reason => .badRequest reason
  | .ok keyValues =>
    match T.get D s keyValues with
    | none => .serverError
    | some none => .notFound
    | some (some row) => .ok row

/-- `updatable_fields`. -/
def updatableFields (validatedData : RowPatch C Value) : RowPatch C Value :=
  fun c => if c ∈ T.primaryKeyColumns then none else validatedData c

/-- `update(request, pk)`. -/
def updateRecord (ready : Bool) (pk : Option Text) (body : B) (s : T.Store) :
    Response C × T.Store :=
  if ready = false then (serviceUnavailable, s) else
  match parsePrimaryKey F T pk with
  | .error reason => (.badRequest reason, s)
  | .ok keyValues =>
    match F.validatedData true body with
    | none => (.badRequest .validationError, s)
    | some validatedData =>
      if ∀ c ∈ T.fields.map Prod.fst, updatableFields T validatedData c = none then
        (.notUpdated "no updatable fields".toList, s)
      else
        match T.update D keyValues (updatableFields T validatedData) s with
        | none => (.serverError, s)
        | some s' => (.updated, s')

/-- `destroy(request, pk)`. -/
def destroy (ready : Bool) (pk : Option Text) (s : T.Store) : Response C × T.Store :=
  if ready = false then (serviceUnavailable, s) else
  match parsePrimaryKey F T pk with
  | .error reason => (.badRequest reason, s)
  | .ok keyValues =>
    match T.delete D keyValues s with
    | none => (.serverError, s)
    | some s' => (.noContent, s')

/-- A request that writes. -/
inductive Request (B : Type)
  | create (body : B)
  | update (pk : Option Text) (body : B)
  | destroy (pk : Option Text)

/-- The table after a request, which finds Cassandra ready or not. -/
def serve (s : T.Store) : Bool × Request B → T.Store
  | (ready, .create body) => (create F D T ready body s).2
  | (ready, .update pk body) => (updateRecord F D T ready pk body s).2
  | (ready, .destroy pk) => (destroy F D T ready pk s).2

end

end NetBuild
