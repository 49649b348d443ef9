import NetBuild.Lib.Rely
import NetBuild.Workbook

/-!
# `net_building`: the workbook as a file

`process_reports` reads the two sheets of the net workbook one after the other. It writes the new
workbook to a temporary file beside it, which then takes its place, and after that the log to a file
of its own. Any number of runs go on at the same time, any command can fail, and a run can be
stopped anywhere.

A file is read in one step, and a workbook is written in two: until the last of it is written, the
file holds a fragment. The reports of a run are given with it, as `read_new_reports` returns them.
-/

namespace NetBuild

namespace NetFile

open Prog (request lift)

/-! ## Files -/

/-- What a file holds: a workbook, a log, or neither, with whether it begins as a workbook does. -/
inductive File
  | workbook (wb : Workbook)
  | csv (cols : List Col) (log : List Entry)
  | fragment (isZip : Bool)

/-- The files: what each path holds, what it held before it was last replaced, with the run that
did, which run a temporary file was made for, and whether closing or removing it has failed. -/
structure Dir (ι : Type) where
  now : Text → Option File
  past : Text → List (ι × Option File)
  owner : Text → Option ι
  stuck : Text → Bool

/-- The files before any run. -/
def Dir.of {ι : Type} (files : Text → Option File) : Dir ι :=
  ⟨files, fun _ => [], fun _ => none, fun _ => false⟩

/-- The names `tempfile.mkstemp(suffix=".xlsx", dir=dest_dir)` chooses from. -/
def IsTemp (f : Text) : Prop :=
  ∃ destDir random : Text, random.length = 8 ∧
    f = destDir ++ "/tmp".toList ++ random ++ ".xlsx".toList

/-- The commands that read or write. -/
inductive Req (ι : Type)
  | exists (f : Text)
  | readExcel (f : Text)
  | mkstemp (run : ι)
  | close (f : Text)
  | write (f : Text) (x : File)
  | replace (run : ι) (src dst : Text)
  | remove (f : Text)

variable {ι : Type}

/-- What a command answers: one that writes, whether it succeeded. -/
abbrev Req.Resp : Req ι → Type
  | .exists _ => Bool
  | .readExcel _ => Option File
  | .mkstemp _ => Option Text
  | .close _ => Bool
  | .write _ _ => Bool
  | .replace _ _ _ => Bool
  | .remove _ => Bool

namespace Dir

def put (s : Dir ι) (f : Text) (x : Option File) : Dir ι :=
  { s with now := Function.update s.now f x }

/-- A new and empty temporary file. -/
def make (s : Dir ι) (run : ι) (f : Text) : Dir ι :=
  { s.put f (some (.fragment false)) with owner := Function.update s.owner f (some run) }

/-- The file `x` at `src` takes the place of the one at `dst`. -/
def move (s : Dir ι) (run : ι) (src dst : Text) (x : File) : Dir ι :=
  { (s.put dst (some x)).put src none with
    past := Function.update s.past dst ((run, s.now dst) :: s.past dst) }

/-- Closing or removing `f` failed. -/
def fail (s : Dir ι) (f : Text) : Dir ι :=
  { s with stuck := Function.update s.stuck f true }

end Dir

/-- `x` is what the command answers in `s`, and `s'` the files after it. A temporary file is given a
name that is free and that no temporary file had before. -/
def exec (s : Dir ι) : (r : Req ι) → r.Resp → Dir ι → Prop
  | .exists f, (x : Bool), s' => x = (s.now f).isSome ∧ s' = s
  | .readExcel f, (x : Option File), s' => x = s.now f ∧ s' = s
  | .mkstemp run, (x : Option Text), s' =>
    (∃ f, x = some f ∧ IsTemp f ∧ s.now f = none ∧ s.owner f = none ∧ s' = s.make run f) ∨
      x = none ∧ s' = s
  | .close f, (ok : Bool), s' => ok = true ∧ s' = s ∨ ok = false ∧ s' = s.fail f
  | .write f x, (ok : Bool), s' => ok = true ∧ s' = s.put f (some x) ∨ ok = false ∧ s' = s
  | .replace run src dst, (ok : Bool), s' =>
    (∃ x, s.now src = some x ∧ ok = true ∧ s' = s.move run src dst x) ∨ ok = false ∧ s' = s
  | .remove f, (ok : Bool), s' => ok = true ∧ s' = s.put f none ∨ ok = false ∧ s' = s.fail f

/-- What `process_reports` can raise. -/
inductive FileError
  | py (e : PyError)
  | fileNotFound | badZipFile | osError

abbrev FileProg (ι α : Type) := Prog (Req ι) Req.Resp FileError α

/-! ## Reading -/

/-- `pd.read_excel(net_file, ..)`. -/
def readExcel : Option File → Except FileError Workbook
  | some (.workbook wb) => .ok wb
  | some (.fragment true) => .error .badZipFile
  | some _ => .error (.py (.valueError
      "Excel file format cannot be determined, you must specify an engine manually."))
  | none => .error .fileNotFound

def FileError.isValueError : FileError → Bool
  | .py (.valueError _) => true
  | _ => false

def FileError.isFileNotFound : FileError → Bool
  | .fileNotFound => true
  | _ => false

/-- Where an exception is caught there is no workbook. -/
def orEmpty (caught : FileError → Bool) : Except FileError Workbook →
    Except FileError (Option Workbook)
  | .ok wb => .ok (some wb)
  | .error e => if caught e then .ok none else .error e

/-- A sheet of the net workbook, read as a part of it. -/
def readSheet (caught : FileError → Bool) (netFile : Text) : FileProg ι (Option Workbook) := do
  let there ← request (Req.exists netFile)
  if there = false then return none
  else do
    let file ← request (Req.readExcel netFile)
    lift (orEmpty caught (readExcel file))

/-- `load_members(net_file)`, as the workbook whose sheet `Nets` it reads. -/
def loadMembers (netFile : Text) : FileProg ι (Option Workbook) :=
  readSheet FileError.isValueError netFile

/-- `load_log(net_file)`, as the workbook whose sheet `Emitter_Log` it reads. -/
def loadLog (netFile : Text) : FileProg ι (Option Workbook) :=
  readSheet (fun e => e.isValueError || e.isFileNotFound) netFile

/-! ## The pipeline on what was read -/

/-- The `FoldEnv` and the state the loop starts with, from the nets of one workbook and the log of
another. -/
def ingestFrom (cfg : MatchConfig) (nets prevLog : Option Workbook) (newDf : Frame) :
    FoldEnv × IngestState :=
  let (loaded, dataCols?) := loadNets nets
  let dataCols := dataCols?.getD newDf.cols
  let members := if dataCols?.isNone then .empty dataCols else loaded
  let (seen, seenCols) := seenSignatures (NetBuild.loadLog prevLog)
  (⟨cfg, seenCols.filter (· ∈ newDf.cols), dataCols, newDf.cols⟩, ⟨members, seen, [], []⟩)

/-- `process_reports` between reading and writing. -/
def processFrom (sv : SortValues) (cfg : MatchConfig) (nets prevLog : Option Workbook)
    (newDf : Frame) : Except PyError (Workbook × List Result × ℕ) := do
  validateReports newDf
  let (env, start) := ingestFrom cfg nets prevLog newDf
  let st ← newDf.rows.zipIdx.foldlM (fun st r => ingestReport env st r.1 r.2) start
  let members := dedupRdfsPerNet sv st.members.rows
  let hier := buildHierarchical sv members env.dataCols
  let (logCols, log) := fullLog prevLog newDf.cols st.logRows
  pure (⟨env.dataCols, hier, logCols, log⟩, st.results, (members.map (·.netId)).dedup.length)

/-- On the two sheets of one workbook it is `process_reports` on the workbook. -/
theorem processFrom_self (sv : SortValues) (cfg : MatchConfig) (wb : Option Workbook)
    (newDf : Frame) :
    processFrom sv cfg wb wb newDf = NetBuild.processReports sv cfg wb newDf := rfl

/-! ## Writing -/

/-- A command that fails raises. -/
def check (ok : Bool) : Except FileError Unit := if ok then .ok () else .error .osError

/-- A file is written: what it holds until it is complete, and what it holds then. -/
def writeFile (f : Text) (before after : File) : FileProg ι Unit := do
  let ok ← request (Req.write f before)
  lift (check ok)
  let ok ← request (Req.write f after)
  lift (check ok)

/-- `_atomic_write_workbook(net_file, hier, full_log)`, by the run `run`. -/
def atomicWriteWorkbook (run : ι) (netFile : Text) (wb : Workbook) : FileProg ι Unit := do
  let made ← request (Req.mkstemp run)
  let tmp ← lift (made.elim (.error .osError) .ok)
  let closed ← request (Req.close tmp)
  lift (check closed)
  Prog.andFinally
    (do
      writeFile tmp (.fragment true) (.workbook wb)
      let ok ← request (Req.replace run tmp netFile)
      lift (check ok))
    (do
      let there ← request (Req.exists tmp)
      if there = false then return ()
      else do
        let ok ← request (Req.remove tmp)
        lift (check ok))

/-! ## `process_reports` -/

/-- A call of `process_reports`, with what its sort does. -/
structure ReportsCall where
  netFile : Text
  source : Except FileError Frame
  sortValues : SortValues
  cfg : MatchConfig
  logCsv : Option Text
  dryRun : Bool

def FileError.lift {α : Type} : Except PyError α → Except FileError α
  | .ok a => .ok a
  | .error e => .error (.py e)

/-- `full_log.to_csv(log_csv, index=False)`, where it is asked for. -/
def ReportsCall.writeCsv (c : ReportsCall) (wb : Workbook) : FileProg ι Unit :=
  match c.logCsv with
  | some f => writeFile f (.fragment false) (.csv wb.logCols wb.log)
  | none => return ()

/-- `process_reports(net_file, source, cfg, log_csv, dry_run=..)`, by the run `run`. -/
def processReports (run : ι) (c : ReportsCall) : FileProg ι (List Result × ℕ) := do
  let nets ← loadMembers c.netFile
  let prevLog ← loadLog c.netFile
  let newDf ← lift c.source
  let made ← lift (FileError.lift (processFrom c.sortValues c.cfg nets prevLog newDf))
  if c.dryRun = true then return made.2
  else do
    atomicWriteWorkbook run c.netFile made.1
    c.writeCsv made.1
    return made.2

end NetFile

end NetBuild
