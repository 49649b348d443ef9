import NetBuild.Workbook
import Mathlib.Data.Int.Log
import Mathlib.Data.Rat.Floor

/-!
# The sheet `Nets`

`load_members` reads the sheet in two layouts. In the flat one every row is a net; in the legacy one
the ids stand in header rows, and are carried down to the record below. Which it is shows in the
column `Row_Type`. This module reads and writes the sheet itself, as it may come from anywhere:
`Workbook` is what `process_reports` leaves.

A row holds the text of its id cells, `none` where a cell is empty. A column that is absent reads
as one that is empty.
-/

namespace NetBuild

/-! ## Rows -/

/-- A row of the sheet. -/
structure SheetRow where
  rowType : Option Text := none
  myNet : Option Text := none
  systemNet : Option Text := none
  cells : Row

/-- The sheet, with its data columns. -/
structure NetsSheet where
  dataCols : List Col
  rows : List SheetRow

/-- The kinds of rows of the legacy layout. -/
inductive RowKind
  | myNet | systemNet | record
  deriving DecidableEq

/-- The kind a row has by its `Row_Type`. -/
def SheetRow.kind (r : SheetRow) : RowKind :=
  let rtype := strip (r.rowType.getD [])
  if rtype = "MY_NET".toList then .myNet
  else if rtype = "SYSTEM_NET".toList then .systemNet
  else .record

/-- `is_legacy`. -/
def NetsSheet.isLegacy (sheet : NetsSheet) : Bool := sheet.rows.any (·.kind ≠ .record)

/-- The data of a row as they are read. -/
def SheetRow.data (cols : List Col) (r : SheetRow) : Row := fun c =>
  if c ∈ cols then (r.cells c).readBack else .null

/-! ## Ids -/

/-- The double nearest to a number, a tie going to the even significand. -/
def double (q : ℚ) : ℚ :=
  let ulp := (2 : ℚ) ^ (Int.log 2 |q| - 52)
  roundHalfEven (q / ulp) * ulp

/-- `_as_int(v)` of an id cell: `int(float(str(v).strip()))`, or `None`. -/
def cellId (v : Option Text) : Option ℤ :=
  v.bind fun s => ((floatText s).bind id).map fun q => truncate (double q)

/-! ## Reading -/

/-- The row has an `FF_ID` or a frequency. -/
def SheetRow.hasData (cols : List Col) (r : SheetRow) : Bool :=
  [Col.ffId, .num .frequencyMHz].any fun c => c ∈ cols && !(r.data cols c).isna

/-- An id in a column of ids. -/
def idCell (o : Option ℤ) : Cell := (o.map fun n : ℤ => Cell.flt n).getD .nan

/-- The data of a record of the legacy layout: its columns `_my`, `_sys` and `_keep`, if there are
any, are those the reader itself makes. -/
def SheetRow.legacyData (cols : List Col) (my : Option ℤ) (sys : ℤ) (r : SheetRow) : Row := fun c =>
  if c ∉ cols then .null
  else if c = .other "_my".toList then idCell my
  else if c = .other "_sys".toList then idCell (some sys)
  else if c = .other "_keep".toList then .int 1
  else r.data cols c

/-- The scan of the legacy layout, with the ids carried down so far. -/
def legacyMembers (cols : List Col) : Option ℤ → Option ℤ → List SheetRow → List Member
  | _, _, [] => []
  | my, sys, r :: rows =>
    match r.kind with
    | .myNet => legacyMembers cols (cellId r.myNet) none rows
    | .systemNet => legacyMembers cols my (cellId r.systemNet) rows
    | .record =>
      match sys with
      | some n =>
        if r.hasData cols then
          { netId := n, myNetId := my, cells := r.legacyData cols my n } ::
            legacyMembers cols my sys rows
        else legacyMembers cols my sys rows
      | none => legacyMembers cols my sys rows

/-- The rows of the flat layout; one without a `SYSTEM_NET` is dropped. -/
def flatMembers (cols : List Col) (rows : List SheetRow) : List Member :=
  rows.filterMap fun r => (cellId r.systemNet).map fun n =>
    { netId := n, myNetId := cellId r.myNet, cells := r.data cols }

/-- The members `load_members(net_file)` makes of the sheet; the data columns it returns are those
of the sheet. -/
def loadSheet (sheet : NetsSheet) : Members where
  cols := sheet.dataCols
  dtype := columnDtypes sheet.dataCols (sheet.rows.map (·.data sheet.dataCols))
  rows :=
    if sheet.isLegacy then legacyMembers sheet.dataCols none none sheet.rows
    else flatMembers sheet.dataCols sheet.rows

/-! ## Writing -/

/-- A row of the flat table on the sheet. -/
def HierRow.toSheet (r : HierRow) : SheetRow where
  myNet := some r.myNet
  systemNet := some r.systemNet
  cells := r.cells

/-- The hidden column the records are sorted by. -/
def ltiDt : Col := .other "_LTI_dt".toList

/-- `m["_LTI_dt"] = m["LTI"].map(_to_dt)`. -/
def stampLti (m : Member) : Member :=
  { m with cells := fun c =>
      if c = ltiDt then ((m.cells .lti).toDt.map Cell.ts).getD .nat else m.cells c }

/-- `build_hierarchical(members, data_cols)`, for columns that are there. -/
def buildSheet (sv : SortValues) (ms : Members) (dataCols : List Col) : Except PyError NetsSheet :=
  if ms.rows = [] then .ok ⟨dataCols, []⟩
  else if Col.lti ∉ ms.cols then .error (.lookupError "KeyError")
  else .ok ⟨dataCols,
    (buildHierarchical sv (ms.rows.map stampLti) dataCols).map HierRow.toSheet⟩

/-- `dedup_rdfs_per_net(members)`. -/
def dedupMembers (sv : SortValues) (ms : Members) : Except PyError Members :=
  if Col.lti ∉ ms.cols ∨ Col.txt .rdfs ∉ ms.cols then .error (.lookupError "KeyError")
  else .ok { ms with rows := dedupRdfsPerNet sv ms.rows }

/-! ## The pipeline -/

/-- A net workbook whose sheet `Nets` may come from anywhere. -/
structure NetBook where
  sheet : NetsSheet
  logCols : List Col
  log : List Entry

/-- The workbook without its nets. -/
def NetBook.logOnly (wb : NetBook) : Workbook := ⟨wb.sheet.dataCols, [], wb.logCols, wb.log⟩

/-- The `FoldEnv` and the state the loop starts with. -/
def NetBook.start (cfg : MatchConfig) (wb : NetBook) (newDf : Frame) : FoldEnv × IngestState :=
  let (env, st) := ingestStart cfg (some wb.logOnly) newDf
  (env, { st with members := loadSheet wb.sheet })

/-- `process_reports(net_file, source, cfg)` on a workbook that is there: the one it writes, and its
results. -/
def processBook (sv : SortValues) (cfg : MatchConfig) (wb : NetBook) (newDf : Frame) :
    Except PyError (NetBook × List Result) := do
  validateReports newDf
  let (env, start) := wb.start cfg newDf
  let st ← newDf.rows.zipIdx.foldlM (fun st r => ingestReport env st r.1 r.2) start
  let members ← dedupMembers sv st.members
  let sheet ← buildSheet sv members env.dataCols
  let (logCols, log) := fullLog (some wb.logOnly) newDf.cols st.logRows
  pure (⟨sheet, logCols, log⟩, st.results)

end NetBuild
