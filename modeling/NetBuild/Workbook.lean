import NetBuild.ReportLoop

/-!
# `net_building`: the pipeline over a workbook

`process_reports` folds a batch of reports into the nets of a workbook with two sheets: `Nets`, one
row for each net, and `Emitter_Log`, the reports folded so far, whose signatures keep a report from
being folded again.

The sheets are taken to read back as they were written; an empty cell reads as `NaN`. The
columns of a report are report columns: none has the name of an id column or of a hidden one.
-/

namespace NetBuild

/-! ## The sheets -/

/-- The net workbook: the sheet `Nets` with its data columns, and the sheet `Emitter_Log` with its
report columns. -/
structure Workbook where
  dataCols : List Col
  nets : List HierRow
  logCols : List Col
  log : List Entry

/-- What a cell of a sheet reads as. -/
def Cell.readBack (c : Cell) : Cell := if c.isna then .nan else c

def Row.readBack (row : Row) : Row := fun c => (row c).readBack

/-- `_as_int(v)` of an id cell. -/
def asInt (s : Text) : Option ℤ := ((floatText s).bind id).map truncate

/-- `load_members(net_file)`: the members and the data columns, which are `None` where there is no
workbook. A row without a `SYSTEM_NET` is dropped. -/
def loadNets : Option Workbook → Members × Option (List Col)
  | none => (.empty [], none)
  | some wb =>
    let rows := wb.nets.filterMap fun r => (asInt r.systemNet).map fun netId =>
      ({ netId, myNetId := asInt r.myNet, cells := r.cells.readBack } : Member)
    ({ cols := wb.dataCols
       dtype := columnDtypes wb.dataCols (wb.nets.map (·.cells.readBack))
       rows }, some wb.dataCols)

/-- The entries of `Emitter_Log`. -/
def logEntries (wb : Option Workbook) : List Entry :=
  ((wb.map (·.log)).getD []).map fun e => { e with cells := e.cells.readBack }

/-- `load_log(net_file)`, without the columns that are no report's. -/
def loadLog (wb : Option Workbook) : Frame :=
  ⟨(wb.map (·.logCols)).getD [], (logEntries wb).map (·.cells)⟩

/-! ## Validation -/

/-- `REQUIRED_COLS`. -/
def requiredCols : List (Col × String) :=
  [(.num .frequencyMHz, "Frequency_MHz"), (.num .bandwidthKHz, "Bandwidth_kHz"),
    (.txt .rdfs, "RDFS"), (.lti, "LTI")]

/-- The columns that must be numeric and populated. -/
def numericCols : List (Col × String) :=
  [(.num .frequencyMHz, "Frequency_MHz"), (.num .bandwidthKHz, "Bandwidth_kHz")]

/-- `pd.to_numeric(c, errors="coerce")`, with `NaN` as `none`. -/
def Cell.toNumeric : Cell → Fl
  | int n => some n
  | flt q => some q
  | str s => (floatText s).bind id
  | _ => none

/-- `str` of a list, of the texts of its elements. -/
def strList (l : List String) : String := "[" ++ ", ".intercalate l ++ "]"

/-- `validate_reports(df)`. -/
def validateReports (df : Frame) : Except PyError Unit :=
  if df.rows = [] then .error (.valueError "No reports to process (input is empty).")
  else
    let quoted (l : List (Col × String)) : String := strList (l.map fun c => "'" ++ c.2 ++ "'")
    let missing := requiredCols.filter (·.1 ∉ df.cols)
    if missing ≠ [] then
      .error (.valueError ("Input is missing required column(s): " ++ quoted missing
        ++ ". Required: " ++ quoted requiredCols ++ "."))
    else
      numericCols.forM fun c =>
        let bad := (df.rows.zipIdx.filter fun r => (r.1 c.1).toNumeric.isNone).map (·.2)
        if bad = [] then .ok ⟨⟩
        else .error (.valueError ("Column '" ++ c.2 ++ "' has non-numeric/empty values at rows "
          ++ strList ((bad.take 10).map toString) ++ (if 10 < bad.length then " ..." else "")
          ++ "."))

/-! ## The fold -/

/-- A member of the `results` a batch returns: the label of the report with what was done. -/
inductive Result
  | skipped (label : Cell)
  | routed (label : Cell) (action : Action) (netId : ℤ)

/-- The variables of the loop over the reports. -/
structure IngestState where
  members : Members
  seen : List (List SigVal)
  results : List Result
  logRows : List Entry

/-- The dict `row` of a report. -/
def FoldEnv.dict (env : FoldEnv) (rep : Row) : Dict where
  keys := env.keys
  cells := env.row rep
  absent _ hc := if_neg hc

/-- The report has the signature of a logged one, or of one before it in the batch. -/
def FoldEnv.isIngested (env : FoldEnv) (seen : List (List SigVal)) (rep : Row) : Bool :=
  env.sigCols ≠ [] ∧ reportSignature rep env.sigCols ∈ seen

/-- One round of the loop, on the report at index `i`. -/
def ingestReport (env : FoldEnv) (st : IngestState) (rep : Row) (i : ℕ) :
    Except PyError IngestState :=
  let label := if Col.ffId ∈ env.newCols then rep .ffId else .int i
  if env.isIngested st.seen rep then
    .ok { st with results := st.results ++ [.skipped label] }
  else do
    let (members, a) ← routeReport .processReports env.cfg st.members (env.dict rep)
    pure
      { members
        seen := if env.sigCols = [] then st.seen else reportSignature rep env.sigCols :: st.seen
        results := st.results ++ [.routed label a.action a.netId]
        logRows := st.logRows ++ [
          { cells := fun c => if c ∈ env.newCols then rep c else .null
            action := a.action
            myNetId := a.myNetId
            netId := a.netId
            collapsedFfId := if a.action = .collapsed then a.survivorFfId else .null
            wasCollapsed := a.action = .collapsed }] }

/-- The `FoldEnv` and the state the loop starts with. -/
def ingestStart (cfg : MatchConfig) (wb : Option Workbook) (newDf : Frame) :
    FoldEnv × IngestState :=
  let (loaded, dataCols?) := loadNets wb
  let dataCols := dataCols?.getD newDf.cols
  let members := if dataCols?.isNone then .empty dataCols else loaded
  let (seen, seenCols) := seenSignatures (loadLog wb)
  (⟨cfg, seenCols.filter (· ∈ newDf.cols), dataCols, newDf.cols⟩, ⟨members, seen, [], []⟩)

/-! ## The log -/

/-- The columns a logged report is told apart by. -/
def logKeyCols : List Col := [.ffId, .fti, .lti, .nti]

/-- `drop_duplicates(keep="last")` on a key. -/
def dropDuplicatesLast {α κ : Type} [DecidableEq κ] (key : α → κ) (l : List α) : List α :=
  (dropDuplicates key l.reverse).reverse

/-- `full_log.columns`. -/
def fullCols (prev : Option Workbook) (newCols : List Col) (new : List Entry) : List Col :=
  let prevCols := (prev.map (·.logCols)).getD []
  let newCols := if new = [] then [] else newCols
  if logEntries prev = [] then newCols else prevCols ++ newCols.filter (· ∉ prevCols)

/-- `full_log`, with its columns: the old entries and the new ones, of which the last with a key is
kept. -/
def fullLog (prev : Option Workbook) (newCols : List Col) (new : List Entry) :
    List Col × List Entry :=
  let key := logKeyCols.filter (· ∈ fullCols prev newCols new)
  let full := logEntries prev ++ new
  (fullCols prev newCols new,
    if key = [] then full else dropDuplicatesLast (fun e => key.map (e.cells · |>.val)) full)

/-! ## The pipeline -/

/-- `process_reports(net_file, source, cfg)`: the workbook it writes, its results and the number of
nets. -/
def processReports (sv : SortValues) (cfg : MatchConfig) (wb : Option Workbook) (newDf : Frame) :
    Except PyError (Workbook × List Result × ℕ) := do
  validateReports newDf
  let (env, start) := ingestStart cfg wb newDf
  let st ← newDf.rows.zipIdx.foldlM (fun st r => ingestReport env st r.1 r.2) start
  let members := dedupRdfsPerNet sv st.members.rows
  let hier := buildHierarchical sv members env.dataCols
  let (logCols, log) := fullLog wb newDf.cols st.logRows
  pure (⟨env.dataCols, hier, logCols, log⟩, st.results, (members.map (·.netId)).dedup.length)

end NetBuild
