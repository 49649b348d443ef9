import NetBuild.NetBuildingService
import NetBuild.NetBuildingTheorems

/-!
# What a build computes between its reads and its writes

The rows a build reads go through two frames on their way into the fold, and a third one on
their way out; none of them changes what a cell says. Once that is settled the loop over the
reports is a list of routings (`Routes`), and the rest of the development only looks at those.
-/

namespace NetBuild

/-- A row of `ff_net_report`, with its key. -/
abbrev Report := ReportKey × Fields

/-! ## Rows -/

/-- `int(v) if pd.notna(v) else None`, on a cell `int` accepts. -/
def Cell.toInt (c : Cell) : Option ℤ := if c.isna then none else c.pyInt

theorem Cell.toIntCol_eq_ok {c : Cell} {v : Option ℤ} (h : c.toIntCol = .ok v) : v = c.toInt := by
  unfold toIntCol at h
  unfold toInt
  split at h
  · next hn => rw [if_pos hn, ← Except.ok.inj h]
  · next hn =>
    rw [if_neg hn]
    rcases hc : c.pyInt with _ | n
    · rw [hc] at h
      exact nomatch h
    · rw [hc] at h
      exact (Except.ok.inj h).symm

/-- What a row of a frame becomes in the store. -/
def Row.data (row : Row) : DataRow where
  ffId := (row .ffId).toInt
  lti := (row .lti).toDt.map (·.date)
  fields :=
    { fti := (row .fti).toDt.map (·.date)
      nti := (row .nti).toInt
      num := fun c => (row (.num c)).toDbl.getD .null
      txt := fun c => (row (.txt c)).toTxt.getD none }

theorem dfRowToCassandra_eq_ok {row : Row} {d : DataRow} (h : dfRowToCassandra row = .ok d) :
    d = row.data := by
  unfold dfRowToCassandra at h
  obtain ⟨ffId, hff, h⟩ := Except.bind_eq_ok_iff.mp h
  obtain ⟨nti, hnti, h⟩ := Except.bind_eq_ok_iff.mp h
  split at h
  · rw [← Except.ok.inj h, Cell.toIntCol_eq_ok hff, Cell.toIntCol_eq_ok hnti]
    rfl
  · exact nomatch h

theorem Cell.toInt_congr {c c' : Cell} (h : c.val = c'.val) : c.toInt = c'.toInt := by
  unfold toInt
  rw [isna_congr h, pyInt_congr h]

theorem Cell.toDbl_congr {c c' : Cell} (h : c.val = c'.val) : c.toDbl = c'.toDbl := by
  rcases c with _ | _ | _ | _ | _ | _ | _ <;> rcases c' with _ | _ | _ | _ | _ | _ | _ <;>
    simp_all [val, toDbl]

theorem Cell.toTxt_congr {c c' : Cell} (h : c.val = c'.val) : c.toTxt = c'.toTxt := by
  rcases c with _ | _ | _ | _ | _ | _ | _ <;> rcases c' with _ | _ | _ | _ | _ | _ | _ <;>
    simp_all [val, toTxt]

/-- Two rows say the same under every column. -/
def Row.Agrees (row row' : Row) : Prop := ∀ c, (row c).val = (row' c).val

theorem Row.data_congr {row row' : Row} (h : ∀ c ∈ Col.data, (row c).val = (row' c).val) :
    row.data = row'.data := by
  have hnum : ∀ c : NumCol, (row (.num c)).toDbl = (row' (.num c)).toDbl := fun c =>
    Cell.toDbl_congr (h _ (by rcases c <;> decide))
  have htxt : ∀ c : TxtCol, (row (.txt c)).toTxt = (row' (.txt c)).toTxt := fun c =>
    Cell.toTxt_congr (h _ (by rcases c <;> decide))
  unfold data
  simp only [Cell.toInt_congr (h .ffId (by decide)), Cell.toInt_congr (h .nti (by decide)),
    Cell.toDt_congr (h .lti (by decide)), Cell.toDt_congr (h .fti (by decide)), hnum, htxt]

/-- A `double` that went through `_clean`. -/
def Dbl.clean : Dbl → Dbl
  | .nan => .null
  | d => d

/-- The data columns as a build writes them back: a `nan` becomes null. -/
def Fields.clean (f : Fields) : Fields := { f with num := fun c => (f.num c).clean }

/-- Reading a row and writing it back changes nothing but `nan`s. -/
theorem data_cassandraRowToDfRow (ffId : Option ℤ) (lti : Option Date) (f : Fields) :
    (cassandraRowToDfRow ffId lti f).data = ⟨ffId, lti, f.clean⟩ := by
  have hint : ∀ o : Option ℤ, ((o.map Cell.int).getD .null).toInt = o := by
    intro o
    rcases o <;> rfl
  have hdt : ∀ o : Option Date,
      (((o.map fun d => Cell.ts (.ofDate d)).getD .null).toDt).map (·.date) = o := by
    intro o
    rcases o <;> rfl
  have hdbl : ∀ d : Dbl, (d.cell.toDbl).getD .null = d.clean := by
    intro d
    rcases d <;> rfl
  have htxt : ∀ o : Option Text, ((o.map Cell.str).getD .null).toTxt.getD none = o := by
    intro o
    rcases o <;> rfl
  unfold Row.data Fields.clean
  simp only [cassandraRowToDfRow, hint, hdt, hdbl, htxt]

theorem cassandraRowToDfRow_clean (ffId : Option ℤ) (lti : Option Date) (f : Fields) :
    cassandraRowToDfRow ffId lti f.clean = cassandraRowToDfRow ffId lti f := by
  have h : ∀ d : Dbl, d.clean.cell = d.cell := by
    intro d
    rcases d <;> rfl
  funext c
  rcases c with _ | _ | _ | _ | c | c | c <;> first | rfl | exact h _

/-! ## Frames -/

/-- A row as the frame made of `rows` holds it. -/
def storeRow (rows : List Row) (r : Row) : Row := fun c =>
  (inferDtype (rows.map (· c))).store (r c)

theorem dataFrame_eq (rows : List Row) : dataFrame rows = rows.map (storeRow rows) := rfl

theorem storeRow_agrees (rows : List Row) (r : Row) : (storeRow rows r).Agrees r := fun _ =>
  Dtype.val_store ..

/-- A column no row has a value in stays as it is. -/
theorem storeRow_null {rows : List Row} {r : Row} {c : Col} (h : ∀ r ∈ rows, r c = .null)
    (hr : r ∈ rows) : storeRow rows r c = .null := by
  have hc : ∀ x ∈ rows.map (· c), x = Cell.null := by
    intro x hx
    obtain ⟨r', hr', rfl⟩ := List.mem_map.mp hx
    exact h r' hr'
  have hany : ∀ p : Cell → Bool, p .null = false → (rows.map (· c)).any p = false := by
    intro p hp
    rw [List.any_eq_false]
    intro x hx
    rw [hc x hx, hp]
    exact Bool.false_ne_true
  unfold storeRow inferDtype
  rw [hany Cell.isStr rfl, hany Cell.isTime rfl, hany Cell.isInt rfl, hany Cell.isNum rfl]
  exact h r hr

/-- A column of `double`s with a number in it is one of floats, so that what is missing is `NaN`. -/
theorem inferDtype_of_number {ds : List Dbl} {q : ℚ} (h : Dbl.val q ∈ ds) :
    inferDtype (ds.map Dbl.cell) = .float64 := by
  have hcell : ∀ c ∈ ds.map Dbl.cell, (∃ q, c = .flt q) ∨ c = .null := by
    intro c hc
    obtain ⟨d, -, rfl⟩ := List.mem_map.mp hc
    rcases d with _ | _ | q
    · exact .inr rfl
    · exact .inr rfl
    · exact .inl ⟨q, rfl⟩
  have hany : ∀ p : Cell → Bool, (∀ q, p (.flt q) = false) → p .null = false →
      (ds.map Dbl.cell).any p = false := by
    intro p hflt hnull
    rw [List.any_eq_false]
    intro c hc
    rcases hcell c hc with ⟨q, rfl⟩ | rfl
    · simp [hflt]
    · simp [hnull]
  -- the column holds floats and gaps, and a float at least
  have hnum : (ds.map Dbl.cell).any Cell.isNum = true :=
    List.any_eq_true.mpr ⟨.flt q, List.mem_map_of_mem (f := Dbl.cell) h, rfl⟩
  have hall : (ds.map Dbl.cell).all (fun c => c.isNum || c.isGap) = true := by
    rw [List.all_eq_true]
    intro c hc
    rcases hcell c hc with ⟨q, rfl⟩ | rfl
    · rfl
    · rfl
  unfold inferDtype
  rw [hany Cell.isStr (fun _ => rfl) rfl, hany Cell.isTime (fun _ => rfl) rfl,
    hany Cell.isInt (fun _ => rfl) rfl, hnum, hall]
  rfl

/-- A column of `double`s without a number keeps `None`. -/
theorem inferDtype_of_noNumber {ds : List Dbl} (h : ∀ q, Dbl.val q ∉ ds) :
    inferDtype (ds.map Dbl.cell) = .object := by
  have hany : ∀ p : Cell → Bool, p .null = false → (ds.map Dbl.cell).any p = false := by
    intro p hnull
    rw [List.any_eq_false]
    intro c hc
    obtain ⟨d, hd, rfl⟩ := List.mem_map.mp hc
    rcases d with _ | _ | q
    · simp [Dbl.cell, hnull]
    · simp [Dbl.cell, hnull]
    · exact absurd hd (h q)
  unfold inferDtype
  rw [hany Cell.isStr rfl, hany Cell.isTime rfl, hany Cell.isInt rfl, hany Cell.isNum rfl]
  rfl

/-- The row of a report before it is put in a frame. -/
def rawReport (x : Report) : Row := cassandraRowToDfRow (some x.1.1) (some x.1.2) x.2

/-- The row of a net before it is put in a frame. -/
def rawNet (x : Net) : Row := cassandraRowToDfRow x.ffId x.lti x.fields

/-- The row of a history entry before it is put in a frame. -/
def rawHist (x : HistKey × Hist) : Row := cassandraRowToDfRow (some x.1.2.2) x.2.lti x.2.fields

/-- The row of a report as the loop sees it. -/
def reportRow (reports : List Report) (x : Report) : Row :=
  storeRow (reports.map rawReport) (rawReport x)

theorem reportRow_agrees (reports : List Report) (x : Report) :
    (reportRow reports x).Agrees (rawReport x) := storeRow_agrees _ _

theorem reportRow_other {reports : List Report} {x : Report} (hx : x ∈ reports) (n : Text) :
    reportRow reports x (.other n) = .null := by
  apply storeRow_null
  · intro r hr
    obtain ⟨y, -, rfl⟩ := List.mem_map.mp hr
    rfl
  · exact List.mem_map_of_mem hx

theorem rows_fetchNewReports (reports : List Report) :
    (fetchNewReports reports).rows = reports.map (reportRow reports) := by
  unfold fetchNewReports
  split
  · next h => rw [h]; rfl
  · show dataFrame _ = _
    rw [dataFrame_eq, List.map_map]
    rfl

theorem cols_fetchNewReports {reports : List Report} (h : reports ≠ []) :
    (fetchNewReports reports).cols = Col.data := by
  unfold fetchNewReports
  rw [if_neg h]

/-- The members loaded from the rows of `ff_net_building`; none when there are none. -/
def startMembers (building : List (ℤ × Net)) : Members where
  cols := Col.data
  dtype := columnDtypes Col.data (building.map fun x => rawNet x.2)
  rows := building.map fun x =>
    { netId := x.1
      myNetId := x.2.myNetId
      cells := storeRow (building.map fun x => rawNet x.2) (rawNet x.2) }

theorem startMembers_nil : startMembers [] = .empty Col.data := by
  have hd : columnDtypes Col.data [] = fun _ => .object := funext fun c => by cases c <;> rfl
  unfold startMembers
  rw [List.map_nil, hd]
  rfl

theorem loadMembers_eq {building : List (ℤ × Net)} (h : building ≠ []) :
    loadMembers building = (startMembers building, some Col.data) := by
  unfold loadMembers
  rw [if_neg h]
  simp only [dataFrame_eq, startMembers, Prod.mk.injEq, Members.mk.injEq, and_true, true_and]
  refine ⟨rfl, ?_⟩
  rw [List.map_map, ← List.map_prod_left_eq_zip, List.map_map]
  rfl

end NetBuild
