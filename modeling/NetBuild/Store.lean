import NetBuild.Lib.Table
import NetBuild.Lib.Prog
import NetBuild.NetBuilding

/-!
# The four Cassandra tables

The tables of `cassandra.sql` with the columns the pipeline reads or writes, typed as the
schema types them, and the repository calls on them:

* every `insert` is an unconditional upsert at the primary key, and so is every `update`, which
  sets some columns of a row and creates it if it is not there;
* a read returns the rows in the order of the table, about which nothing is assumed beyond
  what a `ReadOrder` says.
-/

namespace NetBuild

/-! ## Rows -/

/-- A reading of `datetime.utcnow()`. -/
abbrev Time := ℕ

/-- A `double` column. -/
inductive Dbl
  | null | nan
  | val (q : ℚ)
  deriving DecidableEq

/-- The data columns that are in no primary key. -/
structure Fields where
  fti : Option Date
  nti : Option ℤ
  num : NumCol → Dbl
  txt : TxtCol → Option Text

/-- A row of `ff_net_building`, without its key `net_id`. -/
structure Net where
  myNetId : Option ℤ
  ffId : Option ℤ
  lti : Option Date
  fields : Fields
  updatedAt : Option Time

/-- The row an `update` starts from where there is none. -/
def Net.blank : Net :=
  ⟨none, none, none, ⟨none, none, fun _ => .null, fun _ => none⟩, none⟩

/-- A row of `ff_net_report_history`, without its key. -/
structure Hist where
  myNetId : Option ℤ
  lti : Option Date
  fields : Fields
  action : Option Action
  collapsedFfId : Option ℤ
  wasCollapsed : Bool

inductive Status
  | pending | approved | rejected
  deriving DecidableEq

/-- The columns of a merge candidate that record what detection saw. -/
structure Snapshot where
  myNetIdA : ℤ
  myNetIdB : ℤ
  rdfsA : Option Text
  rdfsB : Option Text
  frequencyA : Fl
  frequencyB : Fl
  ltiA : Option Date
  ltiB : Option Date
  freqGapMhz : Fl
  freqTolMhz : Fl
  ltiGapSec : Option ℚ
  ltiTolSec : Option ℚ
  distanceM : Option ℚ
  locTolM : Option ℚ
  deriving DecidableEq

/-- A row of `ff_net_merge_candidates`, without its key. A row that an `update` created has no
snapshot. -/
structure Candidate where
  status : Option Status
  snapshot : Option Snapshot
  detectedAt : Option Time
  decidedAt : Option Time
  deriving DecidableEq

def Candidate.blank : Candidate := ⟨none, none, none, none⟩

/-- Primary key of `ff_net_report`: `(ff_id, lti)`. -/
abbrev ReportKey := ℤ × Date

/-- Primary key of `ff_net_report_history`: `(net_id, processed_at, ff_id)`. -/
abbrev HistKey := ℤ × Time × ℤ

/-- Primary key of `ff_net_merge_candidates`: `(net_a, net_b)`. -/
abbrev PairKey := ℤ × ℤ

/-- The keyspace. -/
structure Store where
  report : Table ReportKey Fields
  building : Table ℤ Net
  history : Table HistKey Hist
  candidates : Table PairKey Candidate

/-- Four empty tables. -/
def Store.empty : Store := ⟨Table.empty, Table.empty, Table.empty, Table.empty⟩

/-! ## Repository calls -/

/-- A call of a repository method. -/
inductive Req
  | reportFindAll
  | reportInsert (key : ReportKey) (row : Fields)
  | buildingFindAll
  | buildingGet (netId : ℤ)
  | buildingFind (myNetId : ℤ) (limit : ℕ)
  | buildingInsert (netId : ℤ) (row : Net)
  | buildingUpdate (netId myNetId : ℤ) (updatedAt : Time)
  | buildingDelete (netId : ℤ)
  | historyFindAll
  | historyInsert (key : HistKey) (row : Hist)
  | candidatesFindAll
  | candidatesGet (key : PairKey)
  | candidatesInsert (key : PairKey) (row : Candidate)
  | candidatesUpdate (key : PairKey) (status : Status) (decidedAt : Time)

/-- What a call returns. -/
abbrev Req.Resp : Req → Type
  | .reportFindAll => List (ReportKey × Fields)
  | .buildingFindAll => List (ℤ × Net)
  | .buildingGet _ => Option Net
  | .buildingFind _ _ => List (ℤ × Net)
  | .historyFindAll => List (HistKey × Hist)
  | .candidatesFindAll => List (PairKey × Candidate)
  | .candidatesGet _ => Option Candidate
  | _ => Unit

/-- The call writes. -/
def Req.IsWrite : Req → Prop
  | .reportInsert .. | .buildingInsert .. | .buildingUpdate .. | .buildingDelete ..
  | .historyInsert .. | .candidatesInsert .. | .candidatesUpdate .. => True
  | _ => False

/-- What an `update` of `my_net_id` makes of a row. -/
def Net.relabel (row : Option Net) (myNetId : ℤ) (updatedAt : Time) : Net :=
  { row.getD .blank with myNetId := some myNetId, updatedAt := some updatedAt }

/-- What an `update` of `status` makes of a row. -/
def Candidate.decide (row : Option Candidate) (status : Status) (decidedAt : Time) : Candidate :=
  { row.getD .blank with status := some status, decidedAt := some decidedAt }

/-- The store after a call. -/
def Store.apply (s : Store) : Req → Store
  | .reportInsert k row => { s with report := s.report.upsert k row }
  | .buildingInsert n row => { s with building := s.building.upsert n row }
  | .buildingUpdate n my now =>
    { s with building := s.building.upsert n (.relabel (s.building n) my now) }
  | .buildingDelete n => { s with building := s.building.delete n }
  | .historyInsert k row => { s with history := s.history.upsert k row }
  | .candidatesInsert k row => { s with candidates := s.candidates.upsert k row }
  | .candidatesUpdate k st now =>
    { s with candidates := s.candidates.upsert k (.decide (s.candidates k) st now) }
  | _ => s

/-- Which orders a read of a whole table may come in, as a relation between the keys of any two
of its rows, the earlier one first. -/
structure ReadOrder where
  report : ReportKey → ReportKey → Prop
  building : ℤ → ℤ → Prop
  history : HistKey → HistKey → Prop
  candidates : PairKey → PairKey → Prop

/-- Nothing is known about the order. -/
def ReadOrder.any : ReadOrder :=
  ⟨fun _ _ => True, fun _ _ => True, fun _ _ => True, fun _ _ => True⟩

/-- `rows` is the whole table, in an admissible order. -/
structure Lists {K V : Type} (ord : K → K → Prop) (rows : List (K × V)) (t : Table K V) :
    Prop where
  enumerates : Table.Enumerates rows t
  ordered : (rows.map Prod.fst).Pairwise ord

/-- `x` is a response the store may give to a call. -/
def Store.Answers (ord : ReadOrder) (s : Store) : (r : Req) → r.Resp → Prop
  | .reportFindAll, rows => Lists ord.report rows s.report
  | .buildingFindAll, rows => Lists ord.building rows s.building
  | .buildingGet n, row => row = s.building n
  | .buildingFind my limit, rows =>
    ∃ all, Lists ord.building all s.building ∧
      rows = (all.filter fun r => r.2.myNetId = some my).take limit
  | .historyFindAll, rows => Lists ord.history rows s.history
  | .candidatesFindAll, rows => Lists ord.candidates rows s.candidates
  | .candidatesGet k, row => row = s.candidates k
  | .reportInsert .., _ | .buildingInsert .., _ | .buildingUpdate .., _ | .buildingDelete .., _
  | .historyInsert .., _ | .candidatesInsert .., _ | .candidatesUpdate .., _ => True

/-- One repository call: in store `s` the call `r` may return `x` and leave `s'`. -/
def exec (ord : ReadOrder) (s : Store) (r : Req) (x : r.Resp) (s' : Store) : Prop :=
  s.Answers ord r x ∧ s' = s.apply r

/-- A program over the store. -/
abbrev Client (α : Type) := Prog Req Req.Resp PyError α

end NetBuild
