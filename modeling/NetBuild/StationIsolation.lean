import NetBuild.ReportLoop
import Mathlib.Data.Set.Function

/-!
# Stations do not disturb each other

A report is only ever folded into a net of its own station. So the nets of one station come out of
the loop as if its reports had been folded alone, into its nets alone, except for the ids of the
new nets, which are the next ones of the whole table.
-/

namespace NetBuild

/-- The net is one of the station's. -/
def ofStation (s : Scalar) (m : Member) : Bool := (m.cells (.txt .rdfs)).val = some s

/-- The report is one of the station's. -/
def Dict.ofStation (s : Scalar) (d : Dict) : Bool := (d.cells (.txt .rdfs)).val = some s

/-- The table with the nets of the station only. -/
def Members.only (s : Scalar) (ms : Members) : Members :=
  { ms with rows := ms.rows.filter (NetBuild.ofStation s) }

/-- The net under other ids. -/
def Member.renumber (ρ μ : ℤ → ℤ) (m : Member) : Member :=
  { m with netId := ρ m.netId, myNetId := m.myNetId.map μ }

def Members.renumber (ρ μ : ℤ → ℤ) (ms : Members) : Members :=
  { ms with rows := ms.rows.map (Member.renumber ρ μ) }

def Assignment.renumber (ρ μ : ℤ → ℤ) (a : Assignment) : Assignment :=
  { a with netId := ρ a.netId, myNetId := μ a.myNetId }

/-- The ids of the nets of the station. -/
def stationIds (s : Scalar) (ms : Members) : Set ℤ :=
  {n | ∃ m ∈ (ms.only s).rows, m.netId = n}

def stationMyIds (s : Scalar) (ms : Members) : Set ℤ :=
  {my | ∃ m ∈ (ms.only s).rows, m.myNetId = some my}

/-- The dtypes that take what is assigned to a cell of the column alike, by one of them: a time
column stores text in its own way as `datetime64`, as it is in a column of objects or texts, and not
at all in one of numbers. -/
def FoldCol.kind : FoldCol → Dtype → Dtype
  | .nti, .int64 | .nti, .float64 => .object
  | .fti, .str | .lti, .str => .object
  | .fti, .int64 | .lti, .int64 => .float64
  | _, d => d

/-- Two tables with the same records under the same columns, which take the same values alike. -/
structure Members.Alike (ms ms' : Members) : Prop where
  cols : ms.cols = ms'.cols
  kind : ∀ c : FoldCol, c.kind (ms.dtype c) = c.kind (ms'.dtype c)
  rows : ms.rows = ms'.rows

/-- Every field of the reports is a column of the table, which holds it as it is: the reports
change neither the columns nor how these take dates and counts. -/
structure Explicit (caller : Caller) (ms : Members) (reports : List Dict) : Prop where
  keys : ∀ d ∈ reports, d.keys ⊆ ms.cols
  fti : Col.fti ∈ ms.cols
  lti : Col.lti ∈ ms.cols
  steady : ∀ c : FoldCol, ∀ d ∈ reports, c.col ∈ d.keys →
    c.kind ((ms.dtype c).concat (inferDtype [caller.record d.cells c.col])) = c.kind (ms.dtype c)

/-- Folding the station's reports into its nets alone gives, up to the ids, what folding all of
them into all the nets gives of the station: the same records in the same order, with the same
actions. -/
structure Isolated (caller : Caller) (cfg : MatchConfig) (s : Scalar) (ms : Members)
    (reports : List Dict) (ms' : Members) (as : List Assignment) (ρ μ : ℤ → ℤ) : Prop where
  alone : ∃ msₛ, routeReports caller cfg (ms.only s) (reports.filter (·.ofStation s))
    = .ok (msₛ, ((reports.zip as).filter (·.1.ofStation s)).map fun p => p.2.renumber ρ μ) ∧
      msₛ.Alike ((ms'.only s).renumber ρ μ)
  injNet : Set.InjOn ρ (stationIds s ms')
  injMy : Set.InjOn μ (stationMyIds s ms')
  /-- The nets there were keep their ids. -/
  old : (∀ n ∈ stationIds s ms, ρ n = n) ∧ ∀ my ∈ stationMyIds s ms, μ my = my

/-- A report leaves every net of another station as it is and where it is, and every net if it
has no station. -/
def LeavesOthers (caller : Caller) (cfg : MatchConfig) : Prop :=
  ∀ ms d ms' a, routeReport caller cfg ms d = .ok (ms', a) → ∀ (i : ℕ) (m : Member),
    ms.rows[i]? = some m →
      (m.cells (.txt .rdfs)).val ≠ (d.cells (.txt .rdfs)).val ∨
        (d.cells (.txt .rdfs)).isna = true →
      ms'.rows[i]? = some m

/-! ## Columns that take values alike -/

theorem kind_concat_kind (c : FoldCol) (d e : Dtype) :
    c.kind ((c.kind d).concat e) = c.kind (d.concat e) := by
  cases c <;> cases d <;> cases e <;> rfl

theorem kind_eq_datetime64_iff (c : FoldCol) (d : Dtype) :
    c.kind d = .datetime64 ↔ d = .datetime64 := by
  cases c <;> cases d <;> decide

theorem takesText_kind {c : FoldCol} (hc : c ≠ .nti) (d : Dtype) :
    (c.kind d).takesText = d.takesText := by
  cases c <;> cases d <;> first | rfl | exact absurd rfl hc

theorem takesInt_kind (d : Dtype) : (FoldCol.nti.kind d).takesInt = d.takesInt := by
  cases d <;> rfl

section
variable {caller : Caller} {cfg : MatchConfig} {ms ms' ms'' : Members} {d : Dict} {a : Assignment}
  {s : Scalar}

theorem Members.Alike.refl (ms : Members) : ms.Alike ms := ⟨rfl, fun _ => rfl, rfl⟩

theorem Members.Alike.symm (h : ms.Alike ms') : ms'.Alike ms :=
  ⟨h.cols.symm, fun c => (h.kind c).symm, h.rows.symm⟩

theorem Members.Alike.trans (h : ms.Alike ms') (h' : ms'.Alike ms'') : ms.Alike ms'' :=
  ⟨h.cols.trans h'.cols, fun c => (h.kind c).trans (h'.kind c), h.rows.trans h'.rows⟩

theorem Members.Alike.renumber (h : ms.Alike ms') (ρ μ : ℤ → ℤ) :
    (ms.renumber ρ μ).Alike (ms'.renumber ρ μ) :=
  ⟨h.cols, h.kind, congrArg (List.map (Member.renumber ρ μ)) h.rows⟩

theorem Members.Alike.datetime (h : ms.Alike ms') (c : FoldCol) :
    ms.dtype c = .datetime64 ↔ ms'.dtype c = .datetime64 := by
  rw [← kind_eq_datetime64_iff c, h.kind, kind_eq_datetime64_iff]

/-- Such tables take the same folds. -/
theorem Members.Alike.takes (h : ms.Alike ms') {old new : Row} {nti : Cell}
    (ht : ms'.Takes old new nti) : ms.Takes old new nti := by
  have htext : ∀ c : FoldCol, c ≠ .nti → (ms.dtype c).takesText = (ms'.dtype c).takesText := by
    intro c hc
    rw [← takesText_kind hc, h.kind, takesText_kind hc]
  have hint : (ms.dtype .nti).takesInt = (ms'.dtype .nti).takesInt := by
    rw [← takesInt_kind, h.kind, takesInt_kind]
  refine ⟨?_, ?_⟩
  · rw [← ht.dates]
    unfold Members.takesDates
    simp only [List.all_cons, List.all_nil, htext .fti nofun, htext .lti nofun]
  · rw [← ht.sum]
    unfold sumNti
    rw [h.cols, hint]

/-- And fold alike. -/
theorem Members.Alike.collapsedMember (h : ms.Alike ms') (old : Member) (new : Row) (nti : Cell) :
    NetBuild.collapsedMember ms old new nti = NetBuild.collapsedMember ms' old new nti := by
  have hfti : ms.ftiDatetime = ms'.ftiDatetime := decide_eq_decide.mpr (h.datetime .fti)
  have hlti : ms.ltiDatetime = ms'.ltiDatetime := decide_eq_decide.mpr (h.datetime .lti)
  unfold NetBuild.collapsedMember
  rw [hfti, hlti, h.cols]

theorem Members.Alike.append (h : ms.Alike ms') (keys : List Col) (m : Member) :
    (ms.append keys m).Alike (ms'.append keys m) := by
  refine ⟨?_, fun c => ?_, ?_⟩
  · show ms.cols ++ _ = ms'.cols ++ _
    rw [h.cols]
  · show c.kind (if c.col ∉ keys then _ else if c.col ∈ ms.cols then _ else _) =
      c.kind (if c.col ∉ keys then _ else if c.col ∈ ms'.cols then _ else _)
    rw [h.cols]
    split
    · exact h.kind c
    · split
      · rw [← kind_concat_kind, h.kind, kind_concat_kind]
      · rfl
  · show ms.rows ++ _ = ms'.rows ++ _
    rw [h.rows]

theorem Members.Alike.fold (h : ms.Alike ms') (i : ℕ) (old : Member) (new : Row) (nti : Cell) :
    (ms.fold i old new nti).Alike (ms'.fold i old new nti) := by
  refine ⟨?_, h.kind, ?_⟩
  · show ms.cols ++ _ = ms'.cols ++ _
    rw [h.cols]
  · show ms.rows.set i _ = ms'.rows.set i _
    rw [h.rows, h.collapsedMember]

/-- So a report is routed alike in both. -/
theorem Members.Alike.routeReport (h : ms.Alike ms')
    (hd : NetBuild.routeReport caller cfg ms' d = .ok (ms'', a)) :
    ∃ ms₁, NetBuild.routeReport caller cfg ms d = .ok (ms₁, a) ∧ ms₁.Alike ms'' := by
  have hnewest : newest cfg ms d.cells = newest cfg ms' d.cells := by
    rw [newest_eq, newest_eq, h.cols, h.rows]
  rcases routeReport_eq_ok_iff.mp hd with ⟨hnone, rfl, rfl⟩
    | ⟨old, i, nti, my, hnew, hnti, hmy, rfl, rfl⟩
  · refine ⟨_, routeReport_eq_ok_iff.mpr (.inl ⟨hnewest.trans hnone, ?_, rfl⟩), h.append _ _⟩
    rw [h.rows]
  · refine ⟨_, routeReport_eq_ok_iff.mpr
      (.inr ⟨old, i, nti, my, hnewest.trans hnew, h.takes hnti, hmy, rfl, ?_⟩), h.fold _ _ _ _⟩
    rw [h.collapsedMember]

/-! ## One round -/

theorem leavesOthers (caller : Caller) (cfg : MatchConfig) : LeavesOthers caller cfg := by
  intro ms d ms' a h i m hm hother
  rcases routeReport_eq_ok_iff.mp h with
    ⟨-, -, rfl⟩ | ⟨old, j, nti, my, hnew, -, -, rfl, -⟩
  · show (ms.rows ++ [_])[i]? = some m
    rw [List.getElem?_append_left (List.getElem?_eq_some_iff.mp hm).1, hm]
  · obtain ⟨-, hna, hget, -, hval⟩ := newest_eq_some hnew
    show (ms.rows.set j _)[i]? = some m
    rw [List.getElem?_set_ne, hm]
    -- the record folded into is one of the report's station
    intro hji
    rw [hji, hm] at hget
    obtain rfl := Option.some.inj hget
    rcases hother with hne | hn
    · exact hne hval
    · rw [hna] at hn
      exact nomatch hn

/-- The new record is of the report's station. -/
theorem ofStation_newMember (caller : Caller) (a : Assignment) (d : Dict) :
    ofStation s (newMember a (caller.record d.cells)) = d.ofStation s := by
  show decide ((caller.record d.cells (.txt .rdfs)).val = some s) = _
  rw [record_rdfs]
  rfl

/-- A record keeps its station when a report is folded into it. -/
theorem ofStation_collapsedMember (nti : Cell) {old : Member} {new : Row}
    (hval : (old.cells (.txt .rdfs)).val = (new (.txt .rdfs)).val) :
    ofStation s (collapsedMember ms old new nti) = ofStation s old := by
  unfold ofStation
  rw [val_rdfs_collapsedMember nti hval]

/-- Reports with explicit fields keep the columns, and how they take values. -/
theorem Explicit.frame {ds : List Dict} (h : Explicit caller ms (d :: ds))
    (hd : routeReport caller cfg ms d = .ok (ms', a)) :
    ms'.cols = ms.cols ∧ ∀ c : FoldCol, c.kind (ms'.dtype c) = c.kind (ms.dtype c) := by
  rcases routeReport_eq_ok_iff.mp hd with ⟨-, -, rfl⟩ | ⟨old, j, nti, my, -, -, -, rfl, -⟩
  · refine ⟨?_, fun c => ?_⟩
    · show ms.cols ++ d.keys.filter (· ∉ ms.cols) = ms.cols
      rw [List.filter_eq_nil_iff.mpr, List.append_nil]
      intro c hc
      simpa using h.keys d List.mem_cons_self hc
    · show c.kind (if c.col ∉ d.keys then _ else if c.col ∈ ms.cols then _ else _) = _
      split
      · rfl
      · next hc =>
        have hkey := not_not.mp hc
        rw [if_pos (h.keys d List.mem_cons_self hkey)]
        exact h.steady c d List.mem_cons_self hkey
  · refine ⟨?_, fun _ => rfl⟩
    unfold Members.fold
    simp [h.fti, h.lti]

theorem Explicit.tail {ds : List Dict} (h : Explicit caller ms (d :: ds))
    (hd : routeReport caller cfg ms d = .ok (ms', a)) : Explicit caller ms' ds := by
  obtain ⟨hc, hkind⟩ := h.frame hd
  refine ⟨fun e he => ?_, ?_, ?_, fun c e he hkey => ?_⟩
  · rw [hc]
    exact h.keys e (List.mem_cons_of_mem _ he)
  · rw [hc]
    exact h.fti
  · rw [hc]
    exact h.lti
  · rw [← kind_concat_kind, hkind, kind_concat_kind]
    exact h.steady c e (List.mem_cons_of_mem _ he) hkey

/-! ## Two runs -/

/-- The table of the station alone is the station's part of the whole one, under other ids. -/
structure Mirrors (s : Scalar) (ρ μ : ℤ → ℤ) (ms msₛ : Members) : Prop where
  alike : msₛ.Alike ((ms.only s).renumber ρ μ)
  injNet : Set.InjOn ρ (stationIds s ms)
  injMy : Set.InjOn μ (stationMyIds s ms)

/-- The second renumbering is the first one on the station's nets. -/
def Extends (s : Scalar) (ms : Members) (ρ μ ρ' μ' : ℤ → ℤ) : Prop :=
  (∀ n ∈ stationIds s ms, ρ' n = ρ n) ∧ ∀ my ∈ stationMyIds s ms, μ' my = μ my

/-- The station keeps the ids it has. -/
def KeepsIds (s : Scalar) (ms ms' : Members) : Prop :=
  stationIds s ms ⊆ stationIds s ms' ∧ stationMyIds s ms ⊆ stationMyIds s ms'

/-- The table of the station alone takes the report as the whole one does, under ids that are
still those of the station's part. -/
def RoutedAlike (caller : Caller) (cfg : MatchConfig) (s : Scalar) (ρ μ : ℤ → ℤ)
    (ms msₛ : Members) (d : Dict) (ms' : Members) (a : Assignment) : Prop :=
  ∃ ρ' μ' msₛ', routeReport caller cfg msₛ d = .ok (msₛ', a.renumber ρ' μ') ∧
    Mirrors s ρ' μ' ms' msₛ' ∧ Extends s ms ρ μ ρ' μ' ∧ KeepsIds s ms ms' ∧
      a.netId ∈ stationIds s ms' ∧ a.myNetId ∈ stationMyIds s ms'

variable {ρ μ ρ' μ' : ℤ → ℤ} {msₛ : Members}

theorem Extends.renumber (h : Extends s ms ρ μ ρ' μ') :
    (ms.only s).renumber ρ' μ' = (ms.only s).renumber ρ μ := by
  unfold Members.renumber
  congr 1
  refine List.map_congr_left fun m hm => ?_
  unfold Member.renumber
  rw [h.1 m.netId ⟨m, hm, rfl⟩]
  rcases hmy : m.myNetId with _ | my
  · rfl
  · rw [Option.map_some, Option.map_some, h.2 my ⟨m, hm, hmy⟩]

theorem Extends.trans {ρ'' μ'' : ℤ → ℤ} (h : Extends s ms ρ μ ρ' μ') (hk : KeepsIds s ms ms')
    (h' : Extends s ms' ρ' μ' ρ'' μ'') : Extends s ms ρ μ ρ'' μ'' :=
  ⟨fun n hn => (h'.1 n (hk.1 hn)).trans (h.1 n hn),
    fun my hmy => (h'.2 my (hk.2 hmy)).trans (h.2 my hmy)⟩

/-- A report of another station changes nothing of the station's part. -/
theorem only_alike_of_other
    (hframe : ms'.cols = ms.cols ∧ ∀ c : FoldCol, c.kind (ms'.dtype c) = c.kind (ms.dtype c))
    (hd : routeReport caller cfg ms d = .ok (ms', a)) (hs : d.ofStation s = false) :
    (ms'.only s).Alike (ms.only s) := by
  have hrows : ms'.rows.filter (ofStation s) = ms.rows.filter (ofStation s) := by
    rcases routeReport_eq_ok_iff.mp hd with
      ⟨-, -, rfl⟩ | ⟨old, j, nti, my, hnew, -, -, rfl, -⟩
    · show (ms.rows ++ [_]).filter _ = _
      rw [List.filter_append, List.filter_cons_of_neg, List.filter_nil, List.append_nil]
      rw [ofStation_newMember, hs]
      exact Bool.false_ne_true
    · obtain ⟨-, -, hget, -, hval⟩ := newest_eq_some hnew
      have hold : ofStation s old = false := by
        unfold ofStation
        rw [hval]
        exact hs
      exact List.filter_set_of_false hget hold ((ofStation_collapsedMember nti hval).trans hold)
  exact ⟨hframe.1, hframe.2, hrows⟩

/-- The station's ids are below the next ones. -/
theorem lt_nextNetId_of_mem {n : ℤ} (h : n ∈ stationIds s ms) : n < nextNetId ms.rows := by
  obtain ⟨m, hm, rfl⟩ := h
  exact netId_lt_nextNetId (List.mem_of_mem_filter hm)

theorem lt_nextMyNetId_of_mem {my : ℤ} (h : my ∈ stationMyIds s ms) :
    my < nextMyNetId ms.rows := by
  obtain ⟨m, hm, hmy⟩ := h
  exact myNetId_lt_nextMyNetId (List.mem_of_mem_filter hm) hmy

/-- A renumbering that is injective stays so when a new id is given a number above all others. -/
theorem injOn_update {f : ℤ → ℤ} {t : Set ℤ} {n k : ℤ} (hf : Set.InjOn f t)
    (hn : n ∉ t) (hk : ∀ m ∈ t, f m < k) :
    Set.InjOn (Function.update f n k) (insert n t) := by
  have hold : Set.EqOn (Function.update f n k) f t := by
    intro m hm
    refine Function.update_of_ne ?_ ..
    intro he
    rw [he] at hm
    exact hn hm
  rw [Set.injOn_insert hn]
  refine ⟨hf.congr hold.symm, fun hmem => ?_⟩
  obtain ⟨m, hm, he⟩ := hmem
  rw [Function.update_self, hold hm] at he
  exact absurd he (hk m hm).ne

/-! ## A report of the station -/

/-- The choice among the station's nets alone is the one among all nets. -/
theorem newest_mirror_none {new : Row} (h : newest cfg ms new = none) :
    newest cfg ((ms.only s).renumber ρ μ) new = none := by
  rw [newest_eq, ite_eq_right_iff] at h ⊢
  intro hc
  exact List.firstMax_filter_map_none (fun _ _ => rfl) (h hc)

/-- A new record is appended to the station's nets. -/
theorem rows_only_append {keys : List Col} {m : Member} (hm : ofStation s m = true) :
    ((ms.append keys m).only s).rows = (ms.only s).rows ++ [m] := by
  show (ms.rows ++ [m]).filter _ = _
  rw [List.filter_append, List.filter_cons_of_pos hm, List.filter_nil]
  rfl

theorem stationIds_append {keys : List Col} {m : Member} (hm : ofStation s m = true) :
    stationIds s (ms.append keys m) = insert m.netId (stationIds s ms) := by
  ext n
  show (∃ x ∈ ((ms.append keys m).only s).rows, x.netId = n) ↔
    n = m.netId ∨ ∃ x ∈ (ms.only s).rows, x.netId = n
  rw [rows_only_append hm]
  simp only [List.mem_append, List.mem_singleton]
  grind

theorem stationMyIds_append {keys : List Col} {m : Member} {my : ℤ} (hm : ofStation s m = true)
    (hmy : m.myNetId = some my) :
    stationMyIds s (ms.append keys m) = insert my (stationMyIds s ms) := by
  ext k
  show (∃ x ∈ ((ms.append keys m).only s).rows, x.myNetId = some k) ↔
    k = my ∨ ∃ x ∈ (ms.only s).rows, x.myNetId = some k
  rw [rows_only_append hm]
  simp only [List.mem_append, List.mem_singleton]
  grind

/-- The ids of the station are those of the records of its part. -/
theorem stationIds_congr
    (h : (ms'.only s).rows.map (fun m => (m.netId, m.myNetId))
      = (ms.only s).rows.map fun m => (m.netId, m.myNetId)) :
    stationIds s ms' = stationIds s ms ∧ stationMyIds s ms' = stationMyIds s ms := by
  have hnets : ∀ (n : ℤ) (l : List Member), (∃ m ∈ l, m.netId = n) ↔
      n ∈ (l.map fun m => (m.netId, m.myNetId)).map (·.1) := by simp
  have hmys : ∀ (my : ℤ) (l : List Member), (∃ m ∈ l, m.myNetId = some my) ↔
      some my ∈ (l.map fun m => (m.netId, m.myNetId)).map (·.2) := by simp
  refine ⟨Set.ext fun n => ?_, Set.ext fun my => ?_⟩
  · show (∃ m ∈ (ms'.only s).rows, m.netId = n) ↔ ∃ m ∈ (ms.only s).rows, m.netId = n
    rw [hnets, hnets, h]
  · show (∃ m ∈ (ms'.only s).rows, m.myNetId = some my) ↔
      ∃ m ∈ (ms.only s).rows, m.myNetId = some my
    rw [hmys, hmys, h]

/-- A report that makes a new net makes one among the station's nets alone, and the next ids
there stand for the next ids of the whole table. -/
theorem Mirrors.spawn (h : Mirrors s ρ μ ms msₛ) (hd : routeReport caller cfg ms d = .ok (ms', a))
    (hs : d.ofStation s = true) (hnone : newest cfg ms d.cells = none) :
    RoutedAlike caller cfg s ρ μ ms ((ms.only s).renumber ρ μ) d ms' a := by
  obtain ⟨-, hρ, hμ⟩ := h
  obtain ⟨ha, rfl⟩ : a = ⟨nextMyNetId ms.rows, nextNetId ms.rows, .new, .null⟩ ∧
      ms' = ms.append d.keys (newMember a (caller.record d.cells)) := by
    rcases routeReport_eq_ok_iff.mp hd with ⟨-, ha, hms⟩ | ⟨_, _, _, _, hnew, -⟩
    · exact ⟨ha, hms⟩
    · rw [hnone] at hnew
      exact nomatch hnew
  have hm := (ofStation_newMember caller a d).trans hs
  have hnet : a.netId ∉ stationIds s ms := by
    intro h
    rw [ha] at h
    exact (lt_nextNetId_of_mem h).false
  have hmy : a.myNetId ∉ stationMyIds s ms := by
    intro h
    rw [ha] at h
    exact (lt_nextMyNetId_of_mem h).false
  -- the ids the report gets among the station's nets alone
  have hnext : ∀ n ∈ stationIds s ms, ρ n < nextNetId ((ms.only s).renumber ρ μ).rows := by
    intro n hn
    obtain ⟨m, hm, rfl⟩ := hn
    exact netId_lt_nextNetId (List.mem_map_of_mem hm)
  have hnextMy : ∀ k ∈ stationMyIds s ms, μ k < nextMyNetId ((ms.only s).renumber ρ μ).rows := by
    intro k hk
    obtain ⟨m, hm, hk⟩ := hk
    apply myNetId_lt_nextMyNetId (List.mem_map_of_mem hm)
    show m.myNetId.map μ = some (μ k)
    rw [hk]
    rfl
  have hext : Extends s ms ρ μ
      (Function.update ρ a.netId (nextNetId ((ms.only s).renumber ρ μ).rows))
      (Function.update μ a.myNetId (nextMyNetId ((ms.only s).renumber ρ μ).rows)) :=
    ⟨fun n hn => Function.update_of_ne (ne_of_mem_of_not_mem hn hnet) ..,
      fun k hk => Function.update_of_ne (ne_of_mem_of_not_mem hk hmy) ..⟩
  refine ⟨_, _, _, routeReport_eq_ok_iff.mpr (.inl ⟨newest_mirror_none hnone, ?_, rfl⟩),
    ⟨⟨rfl, fun _ => rfl, ?_⟩, ?_, ?_⟩, hext, ⟨?_, ?_⟩, ?_, ?_⟩
  · unfold Assignment.renumber
    rw [Function.update_self, Function.update_self, ha]
  · have hrows := congrArg Members.rows hext.renumber
    show ((ms.only s).rows.map (Member.renumber ρ μ)) ++ [_] =
      ((ms.append _ _).only s).rows.map _
    rw [rows_only_append hm, List.map_append]
    exact congrArg (· ++ _) hrows.symm
  · rw [stationIds_append hm]
    exact injOn_update hρ hnet hnext
  · rw [stationMyIds_append hm rfl]
    exact injOn_update hμ hmy hnextMy
  · rw [stationIds_append hm]
    exact Set.subset_insert ..
  · rw [stationMyIds_append hm rfl]
    exact Set.subset_insert ..
  · rw [stationIds_append hm]
    exact Set.mem_insert ..
  · rw [stationMyIds_append hm rfl]
    exact Set.mem_insert ..

/-- A report that is folded into a net is folded into it among the station's nets alone. -/
theorem Mirrors.collapse (h : Mirrors s ρ μ ms msₛ)
    (hd : routeReport caller cfg ms d = .ok (ms', a)) (hs : d.ofStation s = true)
    (hsome : newest cfg ms d.cells ≠ none) :
    RoutedAlike caller cfg s ρ μ ms ((ms.only s).renumber ρ μ) d ms' a := by
  obtain ⟨-, hρ, hμ⟩ := h
  rcases routeReport_eq_ok_iff.mp hd with ⟨hnone, -⟩ | ⟨old, i, nti, my, hnew, hnti, hmy, rfl, rfl⟩
  · exact absurd hnone hsome
  obtain ⟨hcol, hna, hget, hcand, hold⟩ := newest_eq_some hnew
  have hval : (d.cells (.txt .rdfs)).val = some s := of_decide_eq_true hs
  have hpq : ∀ m, isCandidate cfg d.cells m = true → ofStation s m = true := by
    intro m hm
    exact decide_eq_true ((val_rdfs_of_isCandidate hm).trans hval)
  have hqo := hpq old hcand
  have hqm : ofStation s (collapsedMember ms old d.cells nti) = true :=
    (ofStation_collapsedMember nti hold).trans hqo
  -- no id of the station changes
  have hids : ((ms.fold i old d.cells nti).only s).rows.map (fun m => (m.netId, m.myNetId))
      = (ms.only s).rows.map fun m => (m.netId, m.myNetId) :=
    List.map_filter_set hget hqo hqm rfl
  obtain ⟨hnets, hmys⟩ := stationIds_congr hids
  -- the net is at some place among the station's nets
  have hkey : ∀ m, ltiKey (Member.renumber ρ μ m) = ltiKey m := fun _ => rfl
  have hcandᵣ : ∀ m, ofStation s m = true →
      isCandidate cfg d.cells (m.renumber ρ μ) = isCandidate cfg d.cells m := fun _ _ => rfl
  have hfirst := hnew
  rw [newest_eq, if_pos ⟨hcol, hna⟩] at hfirst
  obtain ⟨j, hj, hset⟩ := List.firstMax_filter_map_some hpq hcandᵣ hkey hfirst
  refine ⟨ρ, μ, ((ms.fold i old d.cells nti).only s).renumber ρ μ,
    routeReport_eq_ok_iff.mpr (.inr ⟨old.renumber ρ μ, j, nti, μ my, ?_, ⟨hnti.dates, hnti.sum⟩,
      ?_, ?_, rfl⟩),
    ⟨.refl _, ?_, ?_⟩, ⟨fun _ _ => rfl, fun _ _ => rfl⟩, ⟨hnets.ge, hmys.ge⟩, ?_, ?_⟩
  · rw [newest_eq, if_pos ⟨hcol, hna⟩]
    exact hj
  · show old.myNetId.map μ = _
    rw [hmy]
    rfl
  · show Members.mk _ _ _ = Members.mk _ _ _
    congr 1
    exact hset _ hqm
  · rw [hnets]
    exact hρ
  · rw [hmys]
    exact hμ
  · rw [hnets]
    exact ⟨old, List.mem_filter.mpr ⟨List.mem_of_getElem? hget, hqo⟩, rfl⟩
  · rw [hmys]
    exact ⟨old, List.mem_filter.mpr ⟨List.mem_of_getElem? hget, hqo⟩, hmy⟩

/-- Two runs on a report of the station: it makes one new net in both, or is folded into the same
net. -/
theorem Mirrors.own (h : Mirrors s ρ μ ms msₛ) (hd : routeReport caller cfg ms d = .ok (ms', a))
    (hs : d.ofStation s = true) : RoutedAlike caller cfg s ρ μ ms msₛ d ms' a := by
  have hroute : RoutedAlike caller cfg s ρ μ ms ((ms.only s).renumber ρ μ) d ms' a := by
    by_cases hnone : newest cfg ms d.cells = none
    · exact h.spawn hd hs hnone
    · exact h.collapse hd hs hnone
  obtain ⟨ρ', μ', msₛ', hdₛ, hmirrors, hrest⟩ := hroute
  obtain ⟨ms₁, hd₁, halike⟩ := h.alike.routeReport hdₛ
  exact ⟨ρ', μ', ms₁, hd₁, ⟨halike.trans hmirrors.alike, hmirrors.injNet, hmirrors.injMy⟩, hrest⟩

/-! ## All reports -/

/-- Two runs on the same reports. -/
theorem Mirrors.isolated {reports : List Dict} {as : List Assignment}
    (h : Mirrors s ρ μ ms msₛ) (hx : Explicit caller ms reports)
    (hr : routeReports caller cfg ms reports = .ok (ms', as)) :
    ∃ ρ' μ' msₛ', routeReports caller cfg msₛ (reports.filter (·.ofStation s))
        = .ok (msₛ', ((reports.zip as).filter (·.1.ofStation s)).map fun p => p.2.renumber ρ' μ') ∧
      Mirrors s ρ' μ' ms' msₛ' ∧ Extends s ms ρ μ ρ' μ' ∧ KeepsIds s ms ms' := by
  induction reports generalizing ms msₛ ρ μ as with
  | nil =>
    obtain ⟨rfl, rfl⟩ := Prod.mk.inj (Except.ok.inj hr)
    exact ⟨ρ, μ, msₛ, rfl, h, ⟨fun _ _ => rfl, fun _ _ => rfl⟩, fun _ h => h, fun _ h => h⟩
  | cons d ds ih =>
    obtain ⟨ms₁, a, as', hd, hds, rfl⟩ := routeReports_cons.mp hr
    by_cases hs : d.ofStation s = true
    · obtain ⟨ρ₁, μ₁, ms₁ₛ, hdₛ, h₁, hext, hkeeps, hnet, hmy⟩ := h.own hd hs
      obtain ⟨ρ', μ', msₛ', hdsₛ, h', hext', hkeeps'⟩ := ih h₁ (hx.tail hd) hds
      refine ⟨ρ', μ', msₛ', ?_, h', hext.trans hkeeps hext', hkeeps.1.trans hkeeps'.1,
        hkeeps.2.trans hkeeps'.2⟩
      -- the later renumbering gives the report the same ids
      have ha : a.renumber ρ' μ' = a.renumber ρ₁ μ₁ := by
        unfold Assignment.renumber
        rw [hext'.1 _ hnet, hext'.2 _ hmy]
      have hown : (d :: ds).filter (·.ofStation s) = d :: ds.filter (·.ofStation s) :=
        List.filter_cons_of_pos hs
      have hzip : ((d, a) :: ds.zip as').filter (·.1.ofStation s)
          = (d, a) :: (ds.zip as').filter (·.1.ofStation s) := List.filter_cons_of_pos hs
      rw [hown, List.zip_cons_cons, hzip, List.map_cons, ha]
      exact routeReports_cons.mpr ⟨_, _, _, hdₛ, hdsₛ, rfl⟩
    · have honly := only_alike_of_other (hx.frame hd) hd (Bool.eq_false_iff.mpr hs)
      have hids : stationIds s ms₁ = stationIds s ms ∧ stationMyIds s ms₁ = stationMyIds s ms :=
        stationIds_congr (congrArg (List.map fun m => (m.netId, m.myNetId)) honly.rows)
      have h₁ : Mirrors s ρ μ ms₁ msₛ :=
        ⟨h.alike.trans (honly.symm.renumber ρ μ), hids.1 ▸ h.injNet, hids.2 ▸ h.injMy⟩
      obtain ⟨ρ', μ', msₛ', hdsₛ, h', hext', hkeeps'⟩ := ih h₁ (hx.tail hd) hds
      have hown : (d :: ds).filter (·.ofStation s) = ds.filter (·.ofStation s) :=
        List.filter_cons_of_neg hs
      have hzip : ((d, a) :: ds.zip as').filter (·.1.ofStation s)
          = (ds.zip as').filter (·.1.ofStation s) := List.filter_cons_of_neg hs
      rw [hown, List.zip_cons_cons, hzip]
      refine ⟨ρ', μ', msₛ', hdsₛ, h', ⟨fun n hn => ?_, fun my hmy => ?_⟩, ?_, ?_⟩
      · exact hext'.1 n (hids.1.ge hn)
      · exact hext'.2 my (hids.2.ge hmy)
      · exact hids.1.ge.trans hkeeps'.1
      · exact hids.2.ge.trans hkeeps'.2

/-- Whatever the reports and the table, a station's nets come out as if its reports had been
folded alone into its nets alone, and no report touches a net of another station. -/
theorem stations_isolated {reports : List Dict} {as : List Assignment}
    (hx : Explicit caller ms reports)
    (hr : routeReports caller cfg ms reports = .ok (ms', as)) (s : Scalar) :
    (∃ ρ μ, Isolated caller cfg s ms reports ms' as ρ μ) ∧ LeavesOthers caller cfg := by
  have hid : (ms.only s).renumber id id = ms.only s := by
    unfold Members.renumber
    congr 1
    refine (List.map_congr_left fun m _ => ?_).trans (List.map_id _)
    unfold Member.renumber
    rw [Option.map_id]
    rfl
  have h : Mirrors s id id ms (ms.only s) :=
    ⟨hid.symm ▸ .refl _, fun _ _ _ _ h => h, fun _ _ _ _ h => h⟩
  obtain ⟨ρ, μ, msₛ, hrₛ, h', hext, -⟩ := h.isolated hx hr
  exact ⟨⟨ρ, μ, ⟨msₛ, hrₛ, h'.alike⟩, h'.injNet, h'.injMy, hext⟩, leavesOthers caller cfg⟩

end

/-- A report of a station, on a frequency. -/
def reportOf (station : String) (mhz : ℤ) : Dict :=
  .of [(.txt .rdfs, .str station.toList), (.num .frequencyMHz, .int mhz)]

/-- A table with one net, of station `b`. -/
def stationTable : Members where
  cols := Col.data
  dtype _ := .object
  rows := [⟨100007, some 7, none, none, (reportOf "b" 100).cells⟩]

theorem stations_isolated_stationTable :
    ∃ ms' as, as.map (·.netId) = [100008, 100007, 100008] ∧
      (∃ ρ μ, Isolated .runPipeline {} (.str "a".toList) stationTable
        [reportOf "a" 100, reportOf "b" 100, reportOf "a" 100] ms' as ρ μ) ∧
      LeavesOthers .runPipeline {} := by
  have hids : (routeReports .runPipeline {} stationTable
      [reportOf "a" 100, reportOf "b" 100, reportOf "a" 100]).map (fun r => r.2.map (·.netId))
        = .ok [100008, 100007, 100008] := by
    decide +kernel
  obtain ⟨⟨ms', as⟩, hr, has⟩ := Except.map_eq_ok_iff.mp hids
  refine ⟨ms', as, has, stations_isolated ⟨?_, ?_, ?_, fun c d hd hkey => ?_⟩ hr _⟩
  · decide
  · decide
  · decide
  · show c.kind (Dtype.object.concat _) = _
    rw [concat_object]
    rfl

end NetBuild
