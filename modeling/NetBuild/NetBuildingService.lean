import NetBuild.Store

/-!
# `net_building_service`: the build over Cassandra

`runPipeline` and the helpers it is made of. It reads three tables, folds the reports the
history does not know into the nets (`foldLoop`, the part between the reads and the writes),
and writes the nets and then the history back, row by row.
-/

namespace NetBuild

open Prog (request lift)

/-! ## Row conversions -/

/-- `_clean` of a `double` read from the store. -/
def Dbl.cell : Dbl → Cell
  | .val q => .flt q
  | _ => .null

/-- `_cassandra_row_to_df_row(row)`, for the data columns of a row of any of the three tables. -/
def cassandraRowToDfRow (ffId : Option ℤ) (lti : Option Date) (f : Fields) : Row
  | .ffId => (ffId.map Cell.int).getD .null
  | .lti => (lti.map fun d => Cell.ts (.ofDate d)).getD .null
  | .fti => (f.fti.map fun d => Cell.ts (.ofDate d)).getD .null
  | .nti => (f.nti.map Cell.int).getD .null
  | .num c => (f.num c).cell
  | .txt c => ((f.txt c).map Cell.str).getD .null
  | .other _ => .null

/-- The data columns of a row on its way to the store. -/
structure DataRow where
  ffId : Option ℤ
  lti : Option Date
  fields : Fields

def NumCol.all : List NumCol :=
  [.frequencyMHz, .bandwidthKHz, .latitude, .longitude, .geoDistance, .azimuth, .elevation, .snrDb]

def TxtCol.all : List TxtCol :=
  [.rdfs, .modulation, .signalType, .netLevel, .netType, .branch, .nationality, .force,
    .language, .cipher]

/-- A cell as a `double`; `none` where the driver refuses it. -/
def Cell.toDbl : Cell → Option Dbl
  | .null | .nan | .nat => some .null
  | .int n => some (.val n)
  | .flt q => some (.val q)
  | _ => none

/-- A cell as `text`; `none` where the driver refuses it. -/
def Cell.toTxt : Cell → Option (Option Text)
  | .null | .nan | .nat => some none
  | .str s => some (some s)
  | _ => none

/-- `int(v) if v is not None and pd.notna(v) else None`. -/
def Cell.toIntCol (c : Cell) : Except PyError (Option ℤ) :=
  if c.isna then .ok none
  else
    match c.pyInt with
    | some n => .ok (some n)
    | none => .error (.valueError "invalid literal for int() with base 10")

/-- The column types of the two families of plain columns are met. -/
def Row.driverAccepts (row : Row) : Bool :=
  NumCol.all.all (fun c => (row (.num c)).toDbl.isSome)
    && TxtCol.all.all (fun c => (row (.txt c)).toTxt.isSome)

/-- `_df_row_to_cassandra(row)`, together with the driver's check of the types it binds. It refuses
no number for the range of its column. -/
def dfRowToCassandra (row : Row) : Except PyError DataRow := do
  let ffId ← (row .ffId).toIntCol
  let nti ← (row .nti).toIntCol
  if row.driverAccepts then
    pure
      { ffId
        lti := (row .lti).toDt.map (·.date)
        fields :=
          { fti := (row .fti).toDt.map (·.date)
            nti
            num := fun c => (row (.num c)).toDbl.getD .null
            txt := fun c => (row (.txt c)).toTxt.getD none } }
  else .error .typeError

/-! ## Loading -/

/-- `fetch_new_reports()`, on the rows read. -/
def fetchNewReports (rows : List (ReportKey × Fields)) : Frame :=
  if rows = [] then ⟨[], []⟩
  else ⟨Col.data, dataFrame (rows.map fun r => cassandraRowToDfRow (some r.1.1) (some r.1.2) r.2)⟩

/-- `load_members(building_rows)`: the members and the data columns, which are `None` for an
empty table. -/
def loadMembers (rows : List (ℤ × Net)) : Members × Option (List Col) :=
  if rows = [] then (.empty [], none)
  else
    let cells := rows.map fun r => cassandraRowToDfRow r.2.ffId r.2.lti r.2.fields
    ({ cols := Col.data
       dtype := columnDtypes Col.data cells
       rows := (rows.zip (dataFrame cells)).map fun (r, c) =>
        { netId := r.1, myNetId := r.2.myNetId, cells := c } }, some Col.data)

/-- `load_history()`, on the rows read. Its columns that are no report's (`net_id`, `Action`
and so on) are left out, since nothing reads them. -/
def loadHistory (rows : List (HistKey × Hist)) : Frame :=
  if rows = [] then ⟨[], []⟩
  else
    ⟨Col.data, dataFrame (rows.map fun r => cassandraRowToDfRow (some r.1.2.2) r.2.lti r.2.fields)⟩

/-! ## The fold -/

/-- The counts a build reports. -/
structure Tally where
  new : ℕ := 0
  collapsed : ℕ := 0
  skipped : ℕ := 0
  deriving DecidableEq

def Tally.count (t : Tally) : Action → Tally
  | .new => { t with new := t.new + 1 }
  | .collapsed => { t with collapsed := t.collapsed + 1 }

/-- An entry of `new_history_entries`. -/
structure Entry where
  cells : Row
  action : Action
  myNetId : ℤ
  netId : ℤ
  collapsedFfId : Cell
  wasCollapsed : Bool

/-- The variables of the loop over the reports. -/
structure FoldState where
  members : Members
  seen : List (List SigVal)
  tally : Tally
  entries : List Entry

/-- What stays the same over the loop: the configuration, `sig_cols`, `data_cols` and
`new_df.columns`. -/
structure FoldEnv where
  cfg : MatchConfig
  sigCols : List Col
  dataCols : List Col
  newCols : List Col

/-- The columns of the dict `row` built from a report. -/
def FoldEnv.keys (env : FoldEnv) : List Col :=
  let own := env.dataCols.filter (· ∈ env.newCols)
  own ++ [Col.fti, .lti, .nti, .txt .rdfs].filter fun c => c ∈ env.newCols ∧ c ∉ own

/-- The dict `row` built from a report. -/
def FoldEnv.row (env : FoldEnv) (rep : Row) : Row := fun c => if c ∈ env.keys then rep c else .null

/-- The record a report tallied `new` appends. -/
def newMember (a : Assignment) (row : Row) : Member where
  netId := a.netId
  myNetId := some a.myNetId
  fLo := (reportBand row).bind (·.1)
  fHi := (reportBand row).bind (·.2)
  cells := row

/-- The report is already recorded, in the history or earlier in this run. -/
def FoldEnv.isSeen (env : FoldEnv) (st : FoldState) (rep : Row) : Bool :=
  env.sigCols ≠ [] ∧ reportSignature rep env.sigCols ∈ st.seen

/-- One round of the loop. -/
def foldReport (env : FoldEnv) (st : FoldState) (rep : Row) : Except PyError FoldState :=
  if env.isSeen st rep then
    .ok { st with tally := { st.tally with skipped := st.tally.skipped + 1 } }
  else do
    let row := env.row rep
    let (members, a) ← assignNet env.cfg st.members row
    pure
      { members :=
          match a.action with
          | .new => members.append env.keys (newMember a row)
          | .collapsed => members
        seen :=
          if env.sigCols = [] then st.seen else reportSignature rep env.sigCols :: st.seen
        tally := st.tally.count a.action
        entries := st.entries ++ [
          { cells := fun c => if c ∈ env.newCols then rep c else .null
            action := a.action
            myNetId := a.myNetId
            netId := a.netId
            collapsedFfId := if a.action = .collapsed then a.survivorFfId else .null
            wasCollapsed := a.action = .collapsed }] }

/-- The members and the `FoldEnv` the loop starts with; a build with no nets yet takes its
columns from the reports. -/
def foldStart (cfg : MatchConfig) (building : List (ℤ × Net)) (prevLog newDf : Frame) :
    FoldEnv × FoldState :=
  let (loaded, dataCols?) := loadMembers building
  let dataCols := dataCols?.getD newDf.cols
  let members := if dataCols?.isNone then .empty dataCols else loaded
  let (seen, seenCols) := seenSignatures prevLog
  (⟨cfg, seenCols.filter (· ∈ newDf.cols), dataCols, newDf.cols⟩, ⟨members, seen, {}, []⟩)

/-- The loop over the reports. -/
def foldLoop (cfg : MatchConfig) (building : List (ℤ × Net)) (prevLog newDf : Frame) :
    Except PyError FoldState :=
  let (env, st) := foldStart cfg building prevLog newDf
  newDf.rows.foldlM (foldReport env) st

/-- The flat table made of the members the loop leaves. -/
def hierOf (sv : SortValues) (st : FoldState) (dataCols : List Col) : List HierRow :=
  buildHierarchical sv (dedupRdfsPerNet sv st.members.rows) dataCols

/-! ## Writing -/

/-- `int(s)` of an id column. -/
def intOfText (s : Text) : Except PyError ℤ :=
  match intText s with
  | some n => .ok n
  | none => .error (.valueError "invalid literal for int() with base 10")

/-- `_hier_to_cassandra_rows(hier)`, at the time `now`. -/
def hierToCassandraRows (now : Time) (hier : List HierRow) : Except PyError (List (ℤ × Net)) :=
  hier.mapM fun r => do
    let d ← dfRowToCassandra r.cells
    let netId ← intOfText r.systemNet
    let myNetId ← intOfText r.myNet
    pure (netId, ⟨some myNetId, d.ffId, d.lti, d.fields, some now⟩)

/-- The keys `_sync_building_table` deletes: those of rows that are not written again. -/
def staleKeys (old new : List (ℤ × Net)) : List ℤ :=
  (old.map Prod.fst).filter (· ∉ new.map Prod.fst)

/-- The deleting loop of `_sync_building_table`. -/
def deleteRows (keys : List ℤ) : Client Unit :=
  keys.forM fun n => request (Req.buildingDelete n)

/-- The inserting loop of `_sync_building_table`. -/
def insertRows (rows : List (ℤ × Net)) : Client Unit :=
  rows.forM fun r => request (Req.buildingInsert r.1 r.2)

/-- `_sync_building_table(hier, old_building_rows)`. -/
def syncBuildingTable (now : Time) (hier : List HierRow) (old : List (ℤ × Net)) : Client Unit := do
  let rows ← lift (hierToCassandraRows now hier)
  deleteRows (staleKeys old rows)
  insertRows rows

/-- The history row of an entry, with its key. -/
def historyRow (now : Time) (e : Entry) : Except PyError (HistKey × Hist) := do
  let d ← dfRowToCassandra e.cells
  let collapsed ← e.collapsedFfId.toIntCol
  match d.ffId with
  | some ffId =>
    pure ((e.netId, now, ffId),
      ⟨some e.myNetId, d.lti, d.fields, some e.action, collapsed, e.wasCollapsed⟩)
  -- the driver refuses a null key column
  | none => .error .typeError

/-- `_append_history(entries)`. -/
def appendHistory (now : Time) (entries : List Entry) : Client Unit :=
  entries.forM fun e => do
    let r ← lift (historyRow now e)
    request (Req.historyInsert r.1 r.2)

/-- A record of `_hierarchy_to_json(hier)`. -/
structure NetJson where
  netId : ℤ
  myNetId : ℤ
  data : DataRow

/-- `_hierarchy_to_json(hier)`. -/
def hierarchyToJson (hier : List HierRow) : Except PyError (List NetJson) :=
  hier.mapM fun r => do
    let data ← dfRowToCassandra r.cells
    let myNetId ← intOfText r.myNet
    let netId ← intOfText r.systemNet
    pure ⟨netId, myNetId, data⟩

/-! ## The pipeline -/

/-- What a build takes from outside: the readings of the clock, and how its sorts leave records of
one LTI. -/
structure BuildClock where
  updatedAt : Time
  processedAt : Time
  generatedAt : Time
  sortValues : SortValues

/-- The clock reads one time all along. -/
def BuildClock.still (t : Time) : BuildClock := ⟨t, t, t, .stable⟩

/-- What `run_pipeline` returns. -/
structure BuildResult where
  generatedAt : Time
  processed : Tally
  nets : List NetJson

/-- `run_pipeline` after its three reads. -/
def finishPipeline (cfg : MatchConfig) (clock : BuildClock) (building : List (ℤ × Net))
    (prevLog newDf : Frame) : Client BuildResult :=
  if newDf.rows = [] ∧ building = [] then return ⟨clock.generatedAt, {}, []⟩
  else do
    let st ← lift (foldLoop cfg building prevLog newDf)
    let hier := hierOf clock.sortValues st (foldStart cfg building prevLog newDf).1.dataCols
    syncBuildingTable clock.updatedAt hier building
    appendHistory clock.processedAt st.entries
    let nets ← lift (hierarchyToJson hier)
    return ⟨clock.generatedAt, st.tally, nets⟩

/-- `run_pipeline(cfg)`. -/
def runPipeline (cfg : MatchConfig) (clock : BuildClock) : Client BuildResult := do
  let building ← request .buildingFindAll
  let history ← request .historyFindAll
  let reports ← request .reportFindAll
  finishPipeline cfg clock building (loadHistory history) (fetchNewReports reports)

end NetBuild
