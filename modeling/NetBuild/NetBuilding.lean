import NetBuild.Frame
import Mathlib.Data.List.MinMax
import Mathlib.Data.List.Sort
import Mathlib.Data.Option.Basic

/-!
# `net_building`: routing and folding of reports

The storage-agnostic core of the pipeline: the signature of a report, the next free ids,
`assign_net` with `collapse_into` below it, and the flat table `build_hierarchical` emits.

Names follow the source, in camel case. A function of the source that may raise is an
`Except PyError`.
-/

namespace NetBuild

/-- The exceptions the modelled functions raise. -/
inductive PyError
  | typeError
  | valueError (msg : String)
  | lookupError (msg : String)
  deriving DecidableEq

/-- `MatchConfig`: the knobs that decide whether two records are the same emitter. -/
structure MatchConfig where
  useBandTol : Bool := true
  freqTolMhz : ℚ := 2 / 5
  bandPadMhz : ℚ := 0
  freqTolOverrideMhz : Option ℚ := none
  bwTolOverrideMhz : Option ℚ := none
  useBwGuard : Bool := false
  bwTolFrac : ℚ := 3 / 20
  matchSignalType : Bool := false

/-- First `MY_NET` id of a fresh build. -/
def myNetStart : ℤ := 1

/-- Width of a `MY_NET` id as text. -/
def myNetWidth : ℕ := 5

/-- First `SYSTEM_NET` id of a fresh build. -/
def systemNetStart : ℤ := 100001

/-! ## The members table -/

/-- A record of the members table: its ids, the observed band kept in the hidden `_f_lo` and
`_f_hi` columns, and its data columns. -/
structure Member where
  netId : ℤ
  myNetId : Option ℤ
  fLo : Fl := none
  fHi : Fl := none
  cells : Row

/-- The columns `collapse_into` assigns a value of its own to, whatever their dtype. -/
inductive FoldCol
  | fti | lti | nti
  deriving DecidableEq

def FoldCol.col : FoldCol → Col
  | fti => .fti
  | lti => .lti
  | nti => .nti

/-- The members frame. The dtype of a column decides what assigning to one of its cells stores, and
whether that raises; a column that is not there yet takes anything. The other columns are assigned
under a guard, and hold no times. -/
structure Members where
  cols : List Col
  dtype : FoldCol → Dtype
  rows : List Member

/-- `pd.DataFrame(columns=cols)`. -/
def Members.empty (cols : List Col) : Members := ⟨cols, fun _ => .object, []⟩

/-- The dtypes of the columns of some rows. -/
def columnDtypes (cols : List Col) (rows : List Row) (c : FoldCol) : Dtype :=
  if c.col ∈ cols then inferDtype (rows.map (· c.col)) else .object

def Members.ftiDatetime (ms : Members) : Bool := ms.dtype .fti = .datetime64

def Members.ltiDatetime (ms : Members) : Bool := ms.dtype .lti = .datetime64

/-- `pd.concat([members, pd.DataFrame([row])])`, where the new row has the columns `keys`. -/
def Members.append (ms : Members) (keys : List Col) (m : Member) : Members where
  cols := ms.cols ++ keys.filter (· ∉ ms.cols)
  dtype c :=
    let new := inferDtype [m.cells c.col]
    if c.col ∉ keys then ms.dtype c
    else if c.col ∈ ms.cols then (ms.dtype c).concat new
    else new
  rows := ms.rows ++ [m]

/-! ## Signatures -/

/-- One entry of a signature tuple. -/
inductive SigVal
  | none
  | ts (t : Timestamp)
  | int (n : ℤ)
  | str (s : Text)
  | num (q : Fl)
  deriving DecidableEq

instance : LawfulBEq (List SigVal) := inferInstance

/-- `_SIG_COLS`. -/
def sigCols : List Col := [.ffId, .fti, .lti, .nti, .num .frequencyMHz]

/-- The entry for a time: `_to_dt(v).isoformat()`. -/
def sigTime (c : Cell) : SigVal := (c.toDt.map SigVal.ts).getD .none

/-- The entry for an id or a count: `int(v)`, or `str(v)` where that raises. -/
def sigInt (c : Cell) : SigVal :=
  if c.isna then .none else (c.pyInt.map SigVal.int).getD (.str c.pyStr)

/-- The entry for the frequency: `round(float(v), 6)`, a text for the number it says. -/
def sigNum (c : Cell) : SigVal :=
  if c.isna then .none
  else (c.pyFloat.map fun f => SigVal.num (f.map (pyRound · 6))).getD .none

/-- The entry of a signature for one column. -/
def sigVal (row : Row) (c : Col) : SigVal :=
  match c with
  | .fti | .lti => sigTime (row c)
  | .ffId | .nti => sigInt (row c)
  | _ => sigNum (row c)

/-- `_report_signature(row, cols)`, for columns among `_SIG_COLS`. -/
def reportSignature (row : Row) (cols : List Col) : List SigVal := cols.map (sigVal row)

/-- `_seen_signatures(prev_log)`. -/
def seenSignatures (prevLog : Frame) : List (List SigVal) × List Col :=
  if prevLog.rows = [] then ([], [])
  else
    let cols := sigCols.filter (· ∈ prevLog.cols)
    if cols = [] then ([], []) else (prevLog.rows.map (reportSignature · cols), cols)

/-! ## Ids -/

/-- One more than the largest id in use, or the first id. -/
def nextId (start : ℤ) (used : List ℤ) : ℤ :=
  match used.max? with
  | some n => n + 1
  | none => start

/-- `_next_net_id(members)`. -/
def nextNetId (rows : List Member) : ℤ := nextId systemNetStart (rows.map (·.netId))

/-- `_next_my_net_id(members)`. -/
def nextMyNetId (rows : List Member) : ℤ := nextId myNetStart (rows.filterMap (·.myNetId))

/-! ## Bands -/

/-- The band `[f - bw/2, f + bw/2]` of a record in MHz, `none` where its frequency is not a
number. A bandwidth that is not a number counts as 0; a `nan` one spreads. -/
def bandEdges (rec : Row) : Option (Fl × Fl) :=
  (rec (.num .frequencyMHz)).pyFloat.map fun f =>
    let half : Fl :=
      match (rec (.num .bandwidthKHz)).pyFloat with
      | some b => b.map fun b => b / 2 / 1000
      | none => some 0
    (f.sub half, f.add half)

/-- `_report_band(rep, cfg)`. -/
def reportBand (rep : Row) : Option (Fl × Fl) := bandEdges rep

/-- `_member_band(row)`: the observed band where it is tracked. -/
def memberBand (m : Member) : Option (Fl × Fl) :=
  match m.fLo, m.fHi with
  | some lo, some hi => some (some lo, some hi)
  | _, _ => bandEdges m.cells

/-! ## Folding a report into a record -/

/-- Assigning a timestamp's `DT_FMT` text to a cell of an `FTI` or `LTI` column that takes text. -/
def setDate (datetime : Bool) (t : Timestamp) : Cell :=
  -- what a `datetime64` column makes of the text of a year before 1000 is left open
  if datetime then (pdTimestamp t.strftime).elim .nat .ts else .str t.strftime

/-- `int(c) if pd.notna(c) else 0`. -/
def intOrZero (c : Cell) : Except PyError ℤ :=
  if c.isna then .ok 0
  else
    match c.pyInt with
    | some n => .ok n
    | none => .error (.valueError "invalid literal for int() with base 10")

/-- Whether the non-time fields are taken from the new report: its LTI is not before the old. -/
def isNewer (oldLti newLti : Option Timestamp) : Bool :=
  match newLti, oldLti with
  | none, _ => false
  | some _, none => true
  | some t, some o => o ≤ t

/-- The `NTI` cell `collapse_into` leaves: the sum, where the column exists. -/
def sumNti (ms : Members) (old newReport : Row) : Except PyError Cell :=
  if Col.nti ∈ ms.cols then do
    let o ← intOrZero (old .nti)
    let n ← intOrZero (newReport .nti)
    if o ≠ 0 ∨ n ≠ 0 then
      if (ms.dtype .nti).takesInt then pure (.int (o + n)) else .error .typeError
    else pure (old .nti)
  else pure (old .nti)

/-- One of the two records has a date in the column. -/
def hasDate (old newReport : Row) (c : FoldCol) : Bool :=
  (old c.col).toDt.isSome || (newReport c.col).toDt.isSome

/-- The columns a date is assigned to take its text. -/
def Members.takesDates (ms : Members) (old newReport : Row) : Bool :=
  [FoldCol.fti, .lti].all fun c => !hasDate old newReport c || (ms.dtype c).takesText

/-- The `TypeError` of a time column that does not take text. -/
def Members.checkDates (ms : Members) (old newReport : Row) : Except PyError Unit :=
  if ms.takesDates old newReport then .ok ⟨⟩ else .error .typeError

/-- The record `collapse_into` leaves in the place of `old`, given its `NTI` cell. -/
def collapsedMember (ms : Members) (old : Member) (newReport : Row) (nti : Cell) : Member :=
  { old with
    fLo := Option.merge min old.fLo ((bandEdges newReport).bind (·.1))
    fHi := Option.merge max old.fHi ((bandEdges newReport).bind (·.2))
    cells := fun
      | .fti =>
        ((Option.merge min (old.cells .fti).toDt (newReport .fti).toDt).map
          (setDate ms.ftiDatetime)).getD (old.cells .fti)
      | .lti =>
        ((Option.merge max (old.cells .lti).toDt (newReport .lti).toDt).map
          (setDate ms.ltiDatetime)).getD (old.cells .lti)
      | .nti => nti
      | c =>
        if isNewer (old.cells .lti).toDt (newReport .lti).toDt ∧ c ∈ ms.cols
            ∧ (newReport c).isna = false
        then newReport c else old.cells c }

/-- `collapse_into(members, midx, new_report)`, with the record at `midx` and the updated one. -/
def collapseInto (ms : Members) (midx : ℕ) (old : Member) (newReport : Row) :
    Except PyError (Members × Member) := do
  ms.checkDates old.cells newReport
  let m := collapsedMember ms old newReport (← sumNti ms old.cells newReport)
  pure
    ({ ms with
        cols := ms.cols ++
          [Col.fti, .lti].filter fun c =>
            ((old.cells c).toDt.isSome || (newReport c).toDt.isSome) ∧ c ∉ ms.cols
        rows := ms.rows.set midx m }, m)

/-! ## Routing -/

inductive Action
  | new | collapsed
  deriving DecidableEq

/-- What `assign_net` returns for a report. -/
structure Assignment where
  myNetId : ℤ
  netId : ℤ
  action : Action
  survivorFfId : Cell

/-- The two records carry the same emitter id. -/
def sameFfId (row new : Row) : Bool :=
  !(new .ffId).isna && !(row .ffId).isna &&
    match (row .ffId).pyInt, (new .ffId).pyInt with
    | some a, some b => a == b
    | _, _ => (row .ffId).pyStr == (new .ffId).pyStr

/-- The report's band, widened by the pad, meets the band of the net. -/
def bandsOverlap (cfg : MatchConfig) (m : Member) (new : Row) : Bool :=
  match reportBand new, memberBand m with
  | some r, some b =>
    (r.1.sub (some cfg.bandPadMhz)).le b.2 && b.1.le (r.2.add (some cfg.bandPadMhz))
  | _, _ => false

/-- The report is the net's emitter intercepted again by the same station. -/
def isCandidate (cfg : MatchConfig) (new : Row) (m : Member) : Bool :=
  (m.cells (.txt .rdfs)).val == (new (.txt .rdfs)).val
    && (sameFfId m.cells new || bandsOverlap cfg m new)

/-- The records `assign_net` considers, each with its index. -/
def candidates (cfg : MatchConfig) (ms : Members) (new : Row) : List (Member × ℕ) :=
  if Col.txt .rdfs ∈ ms.cols ∧ (new (.txt .rdfs)).isna = false then
    ms.rows.zipIdx.filter fun p => isCandidate cfg new p.1
  else []

/-- `_lti_key`: a missing LTI sorts as `pd.Timestamp.min`. -/
def ltiKey (m : Member) : Timestamp := (m.cells .lti).toDt.getD .pdMin

/-- `assign_net(members, new_report, cfg)`. -/
def assignNet (cfg : MatchConfig) (ms : Members) (new : Row) :
    Except PyError (Members × Assignment) :=
  match (candidates cfg ms new).argmax fun p => ltiKey p.1 with
  | some (old, newest) => do
    let (ms', m) ← collapseInto ms newest old new
    match m.myNetId with
    | some my => pure (ms', ⟨my, m.netId, .collapsed, m.cells .ffId⟩)
    | none => .error (.valueError "cannot convert float NaN to integer")
  | none => pure (ms, ⟨nextMyNetId ms.rows, nextNetId ms.rows, .new, .null⟩)

/-! ## The table written back -/

/-- Order of `sort_values("_LTI_dt", ascending=False)`, which puts a missing LTI last. -/
def latestFirst (a b : Member) : Bool :=
  match (a.cells .lti).toDt, (b.cells .lti).toDt with
  | _, none => true
  | none, some _ => false
  | some s, some t => t ≤ s

/-- What `sort_values("_LTI_dt", ascending=False)` does. Its quicksort is not stable, so the order
of records with one LTI is open. -/
structure SortValues where
  sort : List Member → List Member
  perm (ms : List Member) : (sort ms).Perm ms
  sorted (ms : List Member) : (sort ms).Pairwise fun a b => latestFirst a b = true

@[simp] theorem SortValues.sort_nil (sv : SortValues) : sv.sort [] = [] := (sv.perm []).eq_nil

theorem latestFirst_total (a b : Member) : latestFirst a b = true ∨ latestFirst b a = true := by
  unfold latestFirst
  cases (a.cells .lti).toDt <;> cases (b.cells .lti).toDt <;> simp [le_total]

theorem latestFirst_trans {a b c : Member} (hab : latestFirst a b = true)
    (hbc : latestFirst b c = true) : latestFirst a c = true := by
  unfold latestFirst at *
  cases ha : (a.cells .lti).toDt <;> cases hb : (b.cells .lti).toDt <;>
    cases hc : (c.cells .lti).toDt <;> simp_all
  exact hbc.trans hab

/-- A sort that keeps records of one LTI in their order. -/
def SortValues.stable : SortValues where
  sort ms := ms.insertionSort (latestFirst · ·)
  perm ms := ms.perm_insertionSort _
  sorted ms :=
    have : Std.Total fun a b => latestFirst a b = true := ⟨latestFirst_total⟩
    have : IsTrans Member fun a b => latestFirst a b = true := ⟨fun _ _ _ => latestFirst_trans⟩
    List.pairwise_insertionSort _ ms

/-- `drop_duplicates(keep="first")` on a key. -/
def dropDuplicates {α κ : Type} [DecidableEq κ] (key : α → κ) (l : List α) : List α :=
  l.foldl (fun kept a => if key a ∈ kept.map key then kept else kept ++ [a]) []

/-- `dedup_rdfs_per_net(members)`. -/
def dedupRdfsPerNet (sv : SortValues) (ms : List Member) : List Member :=
  dropDuplicates (fun m => (m.netId, (m.cells (.txt .rdfs)).val)) (sv.sort ms)

/-- `_fmt_my_net(v)`. -/
def fmtMyNet (v : ℤ) : Text := zfill myNetWidth (fmtInt v)

/-- `_fmt_system_net(v)`. -/
def fmtSystemNet (v : ℤ) : Text := fmtInt v

/-- A row of the flat table: the two ids as text and the data columns. -/
structure HierRow where
  myNet : Text
  systemNet : Text
  cells : Row

/-- The group keys of `groupby(sort=True)`. -/
def groupKeys (l : List ℤ) : List ℤ := l.dedup.insertionSort (· ≤ ·)

/-- The record kept for each net, by ascending `my_net_id` and then `net_id`. Records without a
`my_net_id` are in no group. -/
def hierMembers (sv : SortValues) (ms : List Member) : List (ℤ × ℤ × Member) :=
  (groupKeys (ms.filterMap (·.myNetId))).flatMap fun myId =>
    let myGrp := ms.filter (·.myNetId = some myId)
    (groupKeys (myGrp.map (·.netId))).filterMap fun sysId =>
      (sv.sort (myGrp.filter (·.netId = sysId))).head?.map fun r =>
        (myId, sysId, r)

/-- `build_hierarchical(members, data_cols)`. -/
def buildHierarchical (sv : SortValues) (ms : List Member) (dataCols : List Col) :
    List HierRow :=
  let kept := hierMembers sv ms
  let rows : List Row := kept.map fun (_, _, r) c => if c ∈ dataCols then r.cells c else .null
  (kept.zip (dataFrame rows)).map fun ((myId, sysId, _), cells) =>
    ⟨fmtMyNet myId, fmtSystemNet sysId, cells⟩

end NetBuild
