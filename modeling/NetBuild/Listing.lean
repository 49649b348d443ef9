import NetBuild.PathKeys
import NetBuild.Lib.Base64
import NetBuild.Lib.Paging

/-!
# The list endpoints

`list` reads a page of a table. Its parameters are a page size, a cursor and filters, and the reply
has the cursor of the next page: the paging state of the driver, in Base64. The driver's pages are a
parameter; `Driver.Pages` says that they are slices of the table in the order it is stored in.

A client that follows the cursors to the end is shown every row once, whatever page sizes it
asks for, and whatever else is written meanwhile.
-/

namespace NetBuild

open Paging

/-! ## Parameters -/

/-- The bytes of a paging state. -/
abbrev PagingState := List UInt8

/-- A name in the query string. -/
inductive ParamName (C : Type)
  | pageSize | cursor
  | column (c : C)
  | other (name : Text)
  deriving DecidableEq

def defaultPageSize : ℕ := 100

def maxPageSize : ℕ := 1000

/-- `_read_page_size(query_params)`, on the value popped. -/
def readPageSize : Option Text → Except BadRequest ℕ
  | none => .ok defaultPageSize
  | some rawValue =>
    match intText rawValue with
    | none => .error (.detail "page_size must be an integer".toList)
    | some pageSize =>
      if pageSize < 1 ∨ maxPageSize < pageSize then
        .error (.detail ("page_size must be between 1 and ".toList ++ Nat.toDigits 10 maxPageSize))
      else .ok pageSize.toNat

/-- `encode_paging_state(paging_state)`. -/
def encodePagingState (pagingState : Option PagingState) : Option Text :=
  pagingState.map Base64.encode

/-- `decode_paging_state(cursor)`; `none` where it raises a `ValueError`. -/
def decodePagingState (cursor : Option Text) : Option (Option PagingState) :=
  match cursor.getD [] with
  | [] => some none
  | text => if text.all (·.toNat < 128) then (Base64.decode text).map some else none

/-- `_decode_cursor(query_params)`, on the value popped. -/
def decodeCursor (rawCursor : Option Text) : Except BadRequest (Option PagingState) :=
  match decodePagingState rawCursor with
  | none => .error (.detail "cursor is invalid".toList)
  | some pagingState => .ok pagingState

/-! ## The endpoint -/

section
variable {C B : Type} [DecidableEq C]

/-- The driver's `execute` of a bound `SELECT`, as `find_page` uses it: the rows of a page and the
paging state after it, or `none` where it raises. -/
structure Driver (T : ViewSet C) where
  findPage (s : T.Store) (filters : List (C × Value)) (pageSize : ℕ)
    (pagingState : Option PagingState) : Option (List (C → Option Value) × Option PagingState)

/-- What `list` answers. -/
inductive ListReply (C : Type)
  | ok (results : List (C → Option Value)) (nextCursor : Option Text)
  | badRequest (reason : BadRequest)
  | serverError
  | serviceUnavailable (detail : Text)

/-- The parameters left when `page_size` and `cursor` were popped, those that name a field. -/
def filterParams (queryParams : List (ParamName C × Text)) : List (C × Text) :=
  queryParams.filterMap fun (name, rawValue) =>
    match name with
    | .column c => some (c, rawValue)
    | _ => none

/-- `list(request)`, for the items of `request.query_params.dict()`. -/
def list (F : RestFramework C B) (T : ViewSet C) (D : Driver T) (ready : Bool)
    (queryParams : List (ParamName C × Text)) (s : T.Store) : ListReply C :=
  if ready = false then .serviceUnavailable "Cassandra is not available".toList else
  match readPageSize (queryParams.lookup .pageSize) with
  | .error reason => .badRequest reason
  | .ok pageSize =>
    match decodeCursor (queryParams.lookup .cursor) with
    | .error reason => .badRequest reason
    | .ok pagingState =>
      match coerceQueryValues F T (filterParams queryParams) with
      | .error reason => .badRequest reason
      | .ok filters =>
        match D.findPage s filters pageSize pagingState with
        | none => .serverError
        | some (rows, nextState) => .ok rows (encodePagingState nextState)

end

/-! ## The cursor -/

theorem decodeCursor_encodePagingState {pagingState : Option PagingState}
    (h : pagingState ≠ some []) :
    decodeCursor (encodePagingState pagingState) = .ok pagingState := by
  rcases pagingState with _ | bytes
  · rfl
  · have hne : Base64.encode bytes ≠ [] := Base64.encode_ne_nil fun he => h (by rw [he])
    have hascii : (Base64.encode bytes).all (·.toNat < 128) = true := by
      rw [List.all_eq_true]
      exact fun c hc => decide_eq_true (Base64.encode_ascii hc)
    unfold decodeCursor decodePagingState encodePagingState
    rw [Option.map_some, Option.getD_some]
    split
    · next hnone =>
      split at hnone
      · exact nomatch hnone
      · rw [if_pos hascii, Base64.decode_encode] at hnone
        exact nomatch hnone
    · next hsome =>
      split at hsome
      · next he => exact absurd he hne
      · rw [if_pos hascii, Base64.decode_encode] at hsome
        rw [← Option.some.inj hsome]

/-! ## Pages of the driver -/

section
variable {C B : Type} [DecidableEq C] {F : RestFramework C B} {K : CqlDriver} {T : ViewSet C}
  {D : Driver T} {P : Type} [LinearOrder P]

/-- The table has this row under the key, and it passes the filters. -/
def Shows (T : ViewSet C) (filters : List (C × Value)) (s : T.Store) (key : List Value)
    (row : C → Option Value) : Prop :=
  (s.rows key).map (T.row key) = some row ∧ ∀ f ∈ filters, row f.1 = some f.2

/-- The paging states the driver hands out for the filters, and the one to start from. -/
inductive Driver.Issues (D : Driver T) (filters : List (C × Value)) : Option PagingState → Prop
  | start : D.Issues filters none
  | next {s : T.Store} {pageSize : ℕ} {state : Option PagingState}
      {rows : List (C → Option Value)} {nextState : PagingState} (before : D.Issues filters state)
      (page : D.findPage s filters pageSize state = some (rows, some nextState)) :
      D.Issues filters (some nextState)

/-- The driver's pages are slices of the table, in the order it is stored in: a paging state stands
at a place in that order, and the page that comes with it ends there. A paging state is no empty
text of bytes. -/
structure Driver.Pages (D : Driver T) (place : List Value → P)
    (standsAt : List (C × Value) → PagingState → P) : Prop where
  isPage : ∀ {s filters pageSize state rows nextState}, D.Issues filters state → 1 ≤ pageSize →
    D.findPage s filters pageSize state = some (rows, nextState) →
      let from' := state.elim ⊥ fun b => markAt (standsAt filters b)
      let upTo := nextState.elim ⊤ fun b => markAt (standsAt filters b)
      from' ≤ upTo ∧ ∃ keyed, keyed.map Prod.snd = rows ∧
        IsPage place (Shows T filters s) from' upTo keyed
  ne_nil : ∀ {s filters pageSize state rows nextState},
    D.findPage s filters pageSize state = some (rows, nextState) → nextState ≠ some []

/-! ## Following the cursors -/

/-- The parameters of a request for a page. -/
def ask (params : List (C × Text)) (pageSize cursor : Option Text) : List (ParamName C × Text) :=
  (pageSize.map (.pageSize, ·)).toList ++ (cursor.map (.cursor, ·)).toList
    ++ params.map fun (c, text) => (.column c, text)

/-- A client follows the cursors, in pages of any sizes, and others write meanwhile: the tables
there were, the latest first, the cursor to follow, and the rows it was sent. -/
inductive Follows (F : RestFramework C B) (K : CqlDriver) (T : ViewSet C) (D : Driver T)
    (params : List (C × Text)) :
    List T.Store → Option Text → List (C → Option Value) → Prop
  | start (s : T.Store) : Follows F K T D params [s] none []
  | write {s : T.Store} {seen : List T.Store} {cursor : Option Text}
      {rows : List (C → Option Value)} (before : Follows F K T D params (s :: seen) cursor rows)
      (request : Bool × Request B) :
      Follows F K T D params (serve F K T s request :: s :: seen) cursor rows
  | page {s : T.Store} {seen : List T.Store} {cursor pageSize : Option Text} {next : Text}
      {rows more : List (C → Option Value)}
      (before : Follows F K T D params (s :: seen) cursor rows)
      (reply : list F T D true (ask params pageSize cursor) s = .ok more (some next)) :
      Follows F K T D params (s :: seen) (some next) (rows ++ more)

theorem one_le_of_readPageSize {raw : Option Text} {n : ℕ} (h : readPageSize raw = .ok n) :
    1 ≤ n := by
  unfold readPageSize at h
  split at h
  · obtain rfl := Except.ok.inj h
    decide
  · split at h
    · exact nomatch h
    · split at h
      · exact nomatch h
      · next hrange =>
        obtain rfl := Except.ok.inj h
        omega

theorem lookup_ask (params : List (C × Text)) (pageSize cursor : Option Text) :
    (ask params pageSize cursor).lookup .pageSize = pageSize ∧
      (ask params pageSize cursor).lookup .cursor = cursor ∧
        filterParams (ask params pageSize cursor) = params := by
  have hnone : ∀ name : ParamName C, (∀ c, name ≠ .column c) →
      (params.map fun (c, text) => (ParamName.column c, text)).lookup name = none := by
    intro name hname
    induction params with
    | nil => rfl
    | cons p params ih =>
      rw [List.map_cons, List.lookup_cons, ih]
      rw [beq_eq_false_iff_ne.mpr (hname p.1)]
  have hfilter : filterParams (params.map fun (c, text) => (ParamName.column c, text))
      = params := by
    unfold filterParams
    rw [List.filterMap_map]
    exact List.filterMap_some
  have hsize := hnone .pageSize fun c h => nomatch h
  have hcursor := hnone .cursor fun c h => nomatch h
  refine ⟨?_, ?_, ?_⟩
  · rcases pageSize with _ | size
    · rcases cursor with _ | text
      · exact hsize
      · exact hsize
    · rfl
  · rcases pageSize with _ | size
    · rcases cursor with _ | text
      · exact hcursor
      · rfl
    · rcases cursor with _ | text
      · exact hcursor
      · rfl
  · rcases pageSize with _ | size
    · rcases cursor with _ | text
      · exact hfilter
      · exact hfilter
    · rcases cursor with _ | text
      · exact hfilter
      · exact hfilter

/-- A page that is sent is what was asked of the driver. -/
theorem list_ask_iff {params : List (C × Text)} {pageSize cursor next : Option Text}
    {s : T.Store} {rows : List (C → Option Value)} :
    list F T D true (ask params pageSize cursor) s = .ok rows next ↔
      ∃ n state filters nextState, readPageSize pageSize = .ok n ∧
        decodeCursor cursor = .ok state ∧ coerceQueryValues F T params = .ok filters ∧
          D.findPage s filters n state = some (rows, nextState) ∧
            next = encodePagingState nextState := by
  obtain ⟨hsize, hcursor, hparams⟩ := lookup_ask params pageSize cursor
  unfold list
  rw [if_neg Bool.noConfusion, hsize, hcursor, hparams]
  refine ⟨fun h => ?_, fun ⟨n, state, filters, nextState, hn, hstate, hfilters, hpage, hnext⟩ => ?_⟩
  · split at h
    · exact nomatch h
    · next n hn =>
      split at h
      · exact nomatch h
      · next state hstate =>
        split at h
        · exact nomatch h
        · next filters hfilters =>
          split at h
          · exact nomatch h
          · next rows' nextState hpage =>
            obtain ⟨rfl, rfl⟩ := ListReply.ok.inj h
            exact ⟨n, state, filters, nextState, hn, hstate, hfilters, hpage, rfl⟩
  · rw [hn, hstate, hfilters]
    dsimp only
    rw [hpage, hnext]

/-- The pages a client was sent follow on from one another. -/
theorem Follows.walk {place : List Value → P} {standsAt : List (C × Value) → PagingState → P}
    (hD : D.Pages place standsAt) {params : List (C × Text)} {filters : List (C × Value)}
    (hfilters : coerceQueryValues F T params = .ok filters) {seen : List T.Store}
    {cursor : Option Text} {rows : List (C → Option Value)}
    (h : Follows F K T D params seen cursor rows) :
    ∃ state keyed, decodeCursor cursor = .ok state ∧ D.Issues filters state ∧
      keyed.map Prod.snd = rows ∧ Walk place (seen.map (Shows T filters))
        (state.elim ⊥ fun b => markAt (standsAt filters b)) keyed := by
  induction h with
  | start s => exact ⟨none, [], rfl, .start, rfl, .start _⟩
  | write _ _ ih =>
    obtain ⟨state, keyed, hstate, hissued, hrows, hwalk⟩ := ih
    exact ⟨state, keyed, hstate, hissued, hrows, hwalk.change _⟩
  | page _ reply ih =>
    obtain ⟨state, keyed, hstate, hissued, rfl, hwalk⟩ := ih
    obtain ⟨n, state', filters', nextState, hn, hstate', hfilters', hpage, hnext⟩ :=
      list_ask_iff.mp reply
    obtain rfl := Except.ok.inj (hstate.symm.trans hstate')
    obtain rfl := Except.ok.inj (hfilters.symm.trans hfilters')
    obtain ⟨b, rfl, -⟩ := Option.map_eq_some_iff.mp hnext.symm
    obtain ⟨hle, more, rfl, hmore⟩ := hD.isPage hissued (one_le_of_readPageSize hn) hpage
    rw [hnext]
    exact ⟨some b, keyed ++ more, decodeCursor_encodePagingState (hD.ne_nil hpage),
      hissued.next hpage, List.map_append, hwalk.page hle hmore⟩

/-- A client that follows the cursors to the end, in pages of any sizes, while others write, is
sent every row that passes the filters all the while, no row twice, and none that was never
there. -/
theorem cursors_show_each_once {place : List Value → P}
    {standsAt : List (C × Value) → PagingState → P} (hD : D.Pages place standsAt)
    {params : List (C × Text)} {s : T.Store} {seen : List T.Store}
    {cursor pageSize : Option Text} {rows more : List (C → Option Value)}
    (h : Follows F K T D params (s :: seen) cursor rows)
    (hlast : list F T D true (ask params pageSize cursor) s = .ok more none) :
    ∃ (filters : List (C × Value)) (keyed : List (List Value × (C → Option Value))),
      coerceQueryValues F T params = .ok filters ∧ keyed.map Prod.snd = rows ++ more ∧
      (keyed.Pairwise fun r r' => place r.1 < place r'.1) ∧
      (∀ r ∈ keyed, ∃ t ∈ s :: seen, Shows T filters t r.1 r.2) ∧
      ∀ key, (∀ t ∈ s :: seen, ∃ row, Shows T filters t key row) → ∃ row, (key, row) ∈ keyed := by
  obtain ⟨n, state, filters, nextState, hn, hstate, hfilters, hpage, hnext⟩ :=
    list_ask_iff.mp hlast
  obtain ⟨state', keyed, hstate', hissued, rfl, hwalk⟩ := h.walk hD hfilters
  obtain rfl := Except.ok.inj (hstate.symm.trans hstate')
  obtain ⟨hle, last, rfl, hlastPage⟩ := hD.isPage hissued (one_le_of_readPageSize hn) hpage
  obtain rfl : nextState = none := Option.map_eq_none_iff.mp hnext.symm
  have hall := hwalk.page hle hlastPage
  rw [← List.map_cons] at hall
  refine ⟨filters, keyed ++ last, hfilters, List.map_append, hall.sorted, fun r hr => ?_,
    fun key hkey => hall.complete le_top fun S hS => ?_⟩
  · obtain ⟨S, hS, hshows⟩ := hall.shown r hr
    obtain ⟨t, ht, rfl⟩ := List.mem_map.mp hS
    exact ⟨t, ht, hshows⟩
  · obtain ⟨t, ht, rfl⟩ := List.mem_map.mp hS
    exact hkey t ht

end

/-! ## Two rows, a row a page -/

/-- The keys of a warehouse's bins. -/
def binKeys : List (List Value) := [[.int 1, .int 1], [.int 1, .int 2]]

/-- The table with a row under each of these keys. -/
def binStore (keys : List (List Value)) : inventoryViewSet.Store := fun key =>
  if key ∈ keys then ⟨true, fun _ => none⟩ else .absent

open Classical in
/-- The keys not passed yet whose rows there are to show. -/
noncomputable def binsLeft (s : inventoryViewSet.Store) (filters : List (InventoryCol × Value))
    (passed : ℕ) : List (List Value) :=
  (binKeys.drop passed).filter fun key => ∃ row, Shows inventoryViewSet filters s key row

open Classical in
/-- A driver for these keys that sends a row a page; its paging states count the keys passed. -/
noncomputable def binDriver : Driver inventoryViewSet where
  findPage s filters _ state :=
    if ∀ key, s.rows key ≠ none → key ∈ binKeys then
      match binsLeft s filters (state.getD []).length with
      | [] => some ([], none)
      | key :: _ => some (((s.rows key).map (inventoryViewSet.row key)).toList,
          some (List.replicate (binKeys.idxOf key + 1) 0))
    else none

section
variable {s : inventoryViewSet.Store} {filters : List (InventoryCol × Value)} {key : List Value}
  {passed : ℕ}

theorem mem_drop_binKeys :
    key ∈ binKeys.drop passed ↔ key ∈ binKeys ∧ passed ≤ binKeys.idxOf key := by
  have hnodup : binKeys.Nodup := by decide
  rw [List.mem_drop_iff_getElem]
  refine ⟨fun ⟨i, hi, hkey⟩ => ?_, fun ⟨hmem, hle⟩ => ?_⟩
  · rw [← hkey, hnodup.idxOf_getElem]
    exact ⟨List.getElem_mem _, by omega⟩
  · have hlt := List.idxOf_lt_length_of_mem hmem
    refine ⟨binKeys.idxOf key - passed, by omega, ?_⟩
    simp only [Nat.add_sub_cancel' hle, List.getElem_idxOf]

open Classical in
theorem mem_binsLeft : key ∈ binsLeft s filters passed ↔
    (key ∈ binKeys ∧ passed ≤ binKeys.idxOf key) ∧
      ∃ row, Shows inventoryViewSet filters s key row := by
  unfold binsLeft
  rw [List.mem_filter, mem_drop_binKeys, decide_eq_true_iff]

theorem sorted_binsLeft : (binsLeft s filters passed).Pairwise fun k k' =>
    binKeys.idxOf k < binKeys.idxOf k' := by
  have hbins : binKeys.Pairwise fun k k' => binKeys.idxOf k < binKeys.idxOf k' := by decide
  exact (hbins.sublist (List.drop_sublist ..)).sublist List.filter_sublist

end

theorem binDriver_pages :
    binDriver.Pages (fun key => binKeys.idxOf key + 1) fun _ b => b.length where
  isPage := by
    intro s filters n state rows nextState _ _ h
    have hfrom : ∀ i : ℕ, (state.elim ⊥ fun b => markAt b.length) < markAt (i + 1) ↔
        (state.getD []).length ≤ i := by
      intro i
      rcases state with _ | b
      · simp [markAt]
      · show markAt b.length < markAt (i + 1) ↔ b.length ≤ i
        unfold markAt
        rw [WithBot.coe_lt_coe, WithTop.coe_lt_coe]
        omega
    unfold binDriver at h
    dsimp only at h
    split at h
    · next hkeys =>
      have hmem : ∀ key row, Shows inventoryViewSet filters s key row →
          (state.getD []).length ≤ binKeys.idxOf key →
            key ∈ binsLeft s filters (state.getD []).length := by
        intro key row hrow hle
        refine mem_binsLeft.mpr ⟨⟨hkeys key fun hnone => ?_, hle⟩, row, hrow⟩
        have hshown := hrow.1
        rw [hnone] at hshown
        cases hshown
      split at h
      · next hnil =>
        obtain ⟨rfl, rfl⟩ := Prod.mk.inj (Option.some.inj h)
        refine ⟨le_top, [], rfl, .nil, fun key row => ⟨fun hr => absurd hr List.not_mem_nil, ?_⟩⟩
        rintro ⟨hrow, hlt, -⟩
        have hin := hmem key row hrow ((hfrom _).mp hlt)
        rw [hnil] at hin
        exact absurd hin List.not_mem_nil
      · next key rest hcons =>
        obtain ⟨rfl, rfl⟩ := Prod.mk.inj (Option.some.inj h)
        have hkey : key ∈ binsLeft s filters (state.getD []).length := by
          rw [hcons]
          exact List.mem_cons_self
        obtain ⟨⟨-, hpassed⟩, row, hrow⟩ := mem_binsLeft.mp hkey
        have hlen : (List.replicate (binKeys.idxOf key + 1) (0 : UInt8)).length
            = binKeys.idxOf key + 1 := List.length_replicate
        refine ⟨((hfrom _).mpr hpassed).le.trans_eq ?_, [(key, row)], ?_,
          List.pairwise_singleton ..,
          fun key' row' => ?_⟩
        · rw [Option.elim_some, hlen]
        · rw [hrow.1]
          rfl
        · rw [List.mem_singleton, Option.elim_some, hlen]
          refine ⟨fun heq => ?_, fun hshown => ?_⟩
          · obtain ⟨rfl, rfl⟩ := Prod.mk.inj heq
            exact ⟨hrow, (hfrom _).mpr hpassed, le_rfl⟩
          · obtain ⟨hrow', hlt, hle⟩ := hshown
            have hle' := WithTop.coe_le_coe.mp (WithBot.coe_le_coe.mp hle)
            have hin := hmem key' row' hrow' ((hfrom _).mp hlt)
            have hsorted : (binsLeft s filters (state.getD []).length).Pairwise _ := sorted_binsLeft
            rw [hcons] at hin hsorted
            rcases List.mem_cons.mp hin with rfl | hrest
            · rw [Option.some.inj (hrow'.1.symm.trans hrow.1)]
            · have hbefore := List.rel_of_pairwise_cons hsorted hrest
              omega
    · cases h
  ne_nil := by
    intro s filters n state rows nextState h
    unfold binDriver at h
    dsimp only at h
    split at h
    · split at h
      · obtain ⟨-, rfl⟩ := Prod.mk.inj (Option.some.inj h)
        intro h
        cases h
      · obtain ⟨-, rfl⟩ := Prod.mk.inj (Option.some.inj h)
        intro h
        cases h
    · cases h

section
variable {keys : List (List Value)}

theorem rows_binStore (key : List Value) :
    (binStore keys).rows key = if key ∈ keys then some fun _ => none else none := by
  unfold ColumnStore.rows
  by_cases h : key ∈ keys
  · have hrow : binStore keys key = ⟨true, fun _ => none⟩ := if_pos h
    rw [hrow, StoredRow.read_of_inserted rfl, if_pos h]
  · have hrow : binStore keys key = .absent := if_neg h
    rw [hrow, StoredRow.read_absent, if_neg h]

theorem shows_binStore_iff {key : List Value} :
    (∃ row, Shows inventoryViewSet [] (binStore keys) key row) ↔ key ∈ keys := by
  unfold Shows
  rw [rows_binStore]
  split
  · next h => exact iff_of_true ⟨_, rfl, fun f hf => absurd hf List.not_mem_nil⟩ h
  · next h =>
    refine iff_of_false ?_ h
    rintro ⟨row, hrow, -⟩
    cases hrow

/-- The page from a place on has the first row there. -/
theorem findPage_binStore (hkeys : ∀ key ∈ keys, key ∈ binKeys) (n : ℕ)
    (state : Option PagingState) :
    binDriver.findPage (binStore keys) [] n state
      = ((binKeys.drop (state.getD []).length).filter (· ∈ keys)).head?.elim (some ([], none))
        fun key => some ([inventoryViewSet.row key fun _ => none],
          some (List.replicate (binKeys.idxOf key + 1) 0)) := by
  have hleft : binsLeft (binStore keys) [] (state.getD []).length
      = (binKeys.drop (state.getD []).length).filter (· ∈ keys) := by
    unfold binsLeft
    exact List.filter_congr fun key _ => decide_eq_decide.mpr shows_binStore_iff
  have hall : ∀ key, (binStore keys).rows key ≠ none → key ∈ binKeys := by
    intro key hrow
    rw [rows_binStore] at hrow
    split at hrow
    · next h => exact hkeys key h
    · exact absurd rfl hrow
  unfold binDriver
  dsimp only
  rw [if_pos hall, hleft]
  rcases hfirst : (binKeys.drop (state.getD []).length).filter (· ∈ keys) with _ | ⟨key, rest⟩
  · rfl
  · have hkey : key ∈ (binKeys.drop (state.getD []).length).filter (· ∈ keys) := by
      rw [hfirst]
      exact List.mem_cons_self
    dsimp only
    rw [rows_binStore, if_pos (of_decide_eq_true (List.mem_filter.mp hkey).2)]
    rfl

end

/-- The first row is deleted when it has been sent, and the second one is sent after it. -/
theorem cursors_show_each_once_bins : ∃ cursor rows more,
    Follows (plainRest InventoryCol) plainDriver inventoryViewSet binDriver []
      [binStore [[.int 1, .int 2]], binStore binKeys] cursor rows ∧
      list (plainRest InventoryCol) inventoryViewSet binDriver true (ask [] (some ['1']) cursor)
        (binStore [[.int 1, .int 2]]) = .ok more none ∧
      ∃ keyed : List (List Value × (InventoryCol → Option Value)),
        keyed.map Prod.snd = rows ++ more ∧ ∃ row, ([.int 1, .int 2], row) ∈ keyed := by
  have hsize : readPageSize (some ['1']) = .ok 1 := by decide
  have hpage : ∀ keys state {rows next}, state ≠ some [] →
      binDriver.findPage (binStore keys) [] 1 state = some (rows, next) →
      list (plainRest InventoryCol) inventoryViewSet binDriver true
        (ask [] (some ['1']) (encodePagingState state)) (binStore keys)
          = .ok rows (encodePagingState next) := by
    intro keys state rows next hne h
    exact list_ask_iff.mpr ⟨1, state, [], next, hsize, decodeCursor_encodePagingState hne, rfl, h,
      rfl⟩
  have hdestroy : serve (plainRest InventoryCol) plainDriver inventoryViewSet (binStore binKeys)
      (true, .destroy (some "1__1".toList)) = binStore [[.int 1, .int 2]] := by
    funext key
    show Function.update (binStore binKeys) [.int 1, .int 1] .absent key = _
    by_cases he : key = [.int 1, .int 1]
    · rw [he]
      rfl
    · rw [Function.update_of_ne he]
      simp [binStore, binKeys, he]
  have hfirst : binDriver.findPage (binStore binKeys) [] 1 none
      = some ([inventoryViewSet.row [.int 1, .int 1] fun _ => none], some [0]) :=
    findPage_binStore (fun _ h => h) 1 none
  have hsecond : binDriver.findPage (binStore [[.int 1, .int 2]]) [] 1 (some [0])
      = some ([inventoryViewSet.row [.int 1, .int 2] fun _ => none], some [0, 0]) :=
    findPage_binStore (by decide) 1 (some [0])
  have hend : binDriver.findPage (binStore [[.int 1, .int 2]]) [] 1 (some [0, 0])
      = some ([], none) := findPage_binStore (by decide) 1 (some [0, 0])
  have h₁ := Follows.page (F := plainRest InventoryCol) (K := plainDriver)
    (.start (binStore binKeys)) (hpage _ none (fun h => nomatch h) hfirst)
  have hdeleted := h₁.write (true, .destroy (some "1__1".toList))
  rw [hdestroy] at hdeleted
  have h₂ := Follows.page hdeleted (hpage _ (some [0]) (fun h => nomatch h) hsecond)
  have h₃ := hpage _ (some [0, 0]) (fun h => nomatch h) hend
  obtain ⟨filters, keyed, hfilters, hrows, -, -, hall⟩ :=
    cursors_show_each_once binDriver_pages h₂ h₃
  obtain rfl : [] = filters := Except.ok.inj hfilters
  refine ⟨_, _, _, h₂, h₃, keyed, hrows, hall _ fun t ht => ?_⟩
  rcases List.mem_cons.mp ht with rfl | ht
  · exact shows_binStore_iff.mpr (by decide)
  · obtain rfl := List.mem_singleton.mp ht
    exact shows_binStore_iff.mpr (by decide)

end NetBuild
