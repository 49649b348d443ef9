import NetBuild.BuildRun
import NetBuild.Runs
import Mathlib.Data.List.ReduceOption

/-!
# The dates and the count of a net

A fold sums the counts and picks the earlier FTI and the later LTI. The picked time is stored
as day-first text, and where the column is `datetime64` that text is read month first whenever
it can be: the net's date is then another one, and later folds go on from there. The text of a year
before 1000 is not read back at all.
-/

namespace NetBuild

open Prog (Run)

/-! ## The two time columns -/

/-- The time columns of a net. -/
inductive TimeCol
  | fti | lti

namespace TimeCol

def col : TimeCol → Col
  | fti => .fti
  | lti => .lti

/-- Which of two times a fold keeps. -/
def pick {α : Type} [LinearOrder α] : TimeCol → α → α → α
  | fti => min
  | lti => max

def ofNet : TimeCol → Net → Option Date
  | fti, x => x.fields.fti
  | lti, x => x.lti

def ofReport : TimeCol → Report → Option Date
  | fti, x => x.2.fti
  | lti, x => some x.1.2

def foldCol : TimeCol → FoldCol
  | fti => .fti
  | lti => .lti

/-- The column of the members frame is `datetime64`. -/
def datetime (c : TimeCol) (ms : Members) : Bool := ms.dtype c.foldCol = .datetime64

/-- The earliest of the dates that are there, or the latest. -/
def best : TimeCol → List (Option Date) → Option Date
  | fti, l => l.reduceOption.min?
  | lti, l => l.reduceOption.max?

theorem pick_map {α β : Type} [LinearOrder α] [LinearOrder β] (c : TimeCol) {f : α → β}
    (hf : Monotone f) (a b : α) : f (c.pick a b) = c.pick (f a) (f b) := by
  rcases c with _ | _
  · exact hf.map_min
  · exact hf.map_max

theorem merge_map {α β : Type} [LinearOrder α] [LinearOrder β] (c : TimeCol) {f : α → β}
    (hf : Monotone f) (a b : Option α) :
    Option.merge c.pick (a.map f) (b.map f) = (Option.merge c.pick a b).map f := by
  rcases a with _ | a
  · rcases b with _ | b <;> rfl
  · rcases b with _ | b
    · rfl
    · exact congrArg some (c.pick_map hf a b).symm

theorem best_singleton (c : TimeCol) (v : Option Date) : c.best [v] = v := by
  rcases c with _ | _ <;> rcases v with _ | v <;> rfl

/-- One more date is picked against the best one so far. -/
theorem best_concat (c : TimeCol) (l : List (Option Date)) (d : Option Date) :
    c.best (l ++ [d]) = Option.merge c.pick (c.best l) d := by
  rcases d with _ | d
  · have h : (l ++ [none]).reduceOption = l.reduceOption := by
      rw [List.reduceOption_append]
      exact List.append_nil _
    rcases c with _ | _
    · show (l ++ [none]).reduceOption.min? = _
      rw [h, Option.merge_none_right]
      rfl
    · show (l ++ [none]).reduceOption.max? = _
      rw [h, Option.merge_none_right]
      rfl
  · have h : (l ++ [some d]).reduceOption = l.reduceOption ++ [d] := List.reduceOption_append ..
    rcases c with _ | _
    · show (l ++ [some d]).reduceOption.min? = Option.merge min l.reduceOption.min? (some d)
      rw [h, List.min?_concat]
    · show (l ++ [some d]).reduceOption.max? = Option.merge max l.reduceOption.max? (some d)
      rw [h, List.max?_concat]

theorem mem_of_best {c : TimeCol} {l : List (Option Date)} {d : Date} (h : c.best l = some d) :
    some d ∈ l := by
  rw [← List.reduceOption_mem_iff]
  rcases c with _ | _
  · exact List.min?_mem h
  · exact List.max?_mem h

end TimeCol

/-! ## What a fold writes -/

/-- The date a stored time is read back as. -/
def readBack (datetime : Bool) (d : Date) : Option Date :=
  if d.year < 1000 then none else some (if datetime then d.monthFirst else d)

/-- The date is read back as it was stored. -/
def Date.Survives (datetime : Bool) (d : Date) : Prop :=
  1000 ≤ d.year ∧ (datetime = true → d.Unambiguous)

theorem readBack_eq_some_iff (b : Bool) (d : Date) : readBack b d = some d ↔ d.Survives b := by
  unfold readBack Date.Survives
  split
  · next h => exact iff_of_false nofun fun h' => absurd h'.1 (by omega)
  · next h =>
    rw [Option.some.injEq, and_iff_right (Nat.le_of_not_lt h)]
    rcases b with _ | _
    · simp
    · simp [Date.monthFirst_eq_self_iff]

theorem toDt_setDate_ofDate (b : Bool) (d : Date) :
    (setDate b (.ofDate d)).toDt = (readBack b d).map .ofDate := by
  unfold readBack
  split
  · next h => exact toDt_setDate_of_short fun hy => absurd hy (Nat.not_le_of_lt h)
  · next h =>
    rw [toDt_setDate (Timestamp.wholeSecond_ofDate d) (Nat.le_of_not_lt h)]
    rcases b <;> rfl

section
variable {cfg : MatchConfig} {row : Report → Row} {ms ms' : Members} {rep : Row}
  {a : Assignment} {folded : List (Report × Assignment)} {c : TimeCol}

theorem time_collapsedMember (c : TimeCol) (ms : Members) (old : Member) (new : Row) (nti : Cell) :
    (collapsedMember ms old new nti).cells c.col =
      ((Option.merge c.pick (old.cells c.col).toDt (new c.col).toDt).map
        (setDate (c.datetime ms))).getD (old.cells c.col) := by
  rcases c with _ | _ <;> rfl

/-- Folding a date into a date picks one of them, which is read back. -/
theorem toDt_time_collapsedMember {old : Member} {new : Row} {nti : Cell} {v d : Option Date}
    (hv : (old.cells c.col).toDt = v.map .ofDate) (hd : (new c.col).toDt = d.map .ofDate) :
    ((collapsedMember ms old new nti).cells c.col).toDt =
      ((Option.merge c.pick v d).bind (readBack (c.datetime ms))).map .ofDate := by
  rw [time_collapsedMember, hv, hd, c.merge_map Timestamp.ofDate_monotone]
  rcases hm : Option.merge c.pick v d with _ | e
  · have hnone : v = none := (Option.merge_eq_none_iff.mp hm).1
    rw [hnone] at hv
    exact hv
  · exact toDt_setDate_ofDate _ e

/-! ## The frame's time columns -/

theorem inferDtype_singleton_iff (c : Cell) : inferDtype [c] = .datetime64 ↔ c.isTime = true := by
  cases c with
  | null => decide
  | nan => decide
  | nat => decide
  | int n => exact iff_of_false nofun nofun
  | flt q => exact iff_of_false nofun nofun
  | str t => exact iff_of_false nofun nofun
  | ts t => exact iff_of_true rfl rfl

/-- A new record leaves the column one of times only with a time of its own. -/
theorem datetime_append (c : TimeCol) {m : Member} (hc : ms.cols = Col.data) :
    c.datetime (ms.append Col.data m) = true ↔
      c.datetime ms = true ∧ (m.cells c.col).isTime = true := by
  have hcol : c.foldCol.col ∈ Col.data := by cases c <;> decide
  have hd : (ms.append Col.data m).dtype c.foldCol
      = (ms.dtype c.foldCol).concat (inferDtype [m.cells c.foldCol.col]) := by
    show (if c.foldCol.col ∉ Col.data then _ else if c.foldCol.col ∈ ms.cols then _ else _) = _
    rw [if_neg (not_not.mpr hcol), hc, if_pos hcol]
  have he : c.foldCol.col = c.col := by cases c <;> rfl
  unfold TimeCol.datetime
  rw [decide_eq_true_iff, decide_eq_true_iff, hd, concat_eq_datetime64_iff,
    inferDtype_singleton_iff, he]

theorem Routed.datetime_iff (h : Routed cfg ms rep ms' a) (hc : ms.cols = Col.data) :
    c.datetime ms' = true ↔
      c.datetime ms = true ∧ (a.action = .new → (rep c.col).isTime = true) := by
  rcases h with ⟨-, rfl, rfl⟩ | ⟨i, old, nti, into⟩
  · rw [datetime_append c hc]
    exact and_congr_right fun _ => ⟨fun h _ => h, fun h => h rfl⟩
  · have hsame : c.datetime ms' = c.datetime ms := by
      unfold TimeCol.datetime
      rw [into.dtype]
    rw [hsame, into.action]
    exact (and_iff_left nofun).symm

/-- The column is one of times as long as the new records have times. -/
theorem Routes.datetime_iff (h : Routes cfg row ms folded ms') (hc : ms.cols = Col.data) :
    c.datetime ms' = true ↔
      c.datetime ms = true ∧ ∀ p ∈ folded, p.2.action = .new → (row p.1 c.col).isTime = true := by
  induction h with
  | start => simp
  | snoc before last ih =>
    rw [last.datetime_iff (before.cols hc), ih]
    simp only [List.mem_append, List.mem_singleton, or_imp, forall_and, forall_eq]
    exact and_assoc

/-- The first of the reports routed, and then the others. -/
theorem Routes.split {pre post : List (Report × Assignment)} {x : Report}
    (h : Routes cfg row ms folded ms') (hf : folded = pre ++ (x, a) :: post) :
    ∃ ms₁ ms₂, Routes cfg row ms pre ms₁ ∧ Routed cfg ms₁ (row x) ms₂ a ∧
      Routes cfg row ms (pre ++ [(x, a)]) ms₂ := by
  induction h generalizing post with
  | start => exact absurd hf.symm (List.append_ne_nil_of_right_ne_nil _ (List.cons_ne_nil _ _))
  | snoc before last ih =>
    rcases List.concat_eq_split hf with ⟨rfl, hp⟩ | ⟨post', hf'⟩
    · obtain ⟨rfl, rfl⟩ := Prod.mk.inj hp
      exact ⟨_, _, before, last, before.snoc last⟩
    · exact ih hf'

/-! ## The date a net is left with -/

/-- Whatever is folded into net `n`, which had the date `v`, every date picked on the way comes back
as it was put in: it is of a year from 1000 on, and while the column is one of times it reads the
same day first and month first. `times pre` says that the column is one of times after `pre`. -/
def TimeCol.KeepsDates (c : TimeCol) (times : List (Report × Assignment) → Prop)
    (folded : List (Report × Assignment)) (n : ℤ) (v : Option Date) : Prop :=
  ∀ pre x a post, folded = pre ++ (x, a) :: post → a.netId = n →
    ∀ d ∈ c.best (v :: (received (pre ++ [(x, a)]) n).map c.ofReport),
      1000 ≤ d.year ∧ (times pre → d.Unambiguous)

/-- Every fold into net `n` leaves it with the date it picks. -/
def TimeCol.StoresPicked (c : TimeCol) (cfg : MatchConfig) (row : Report → Row) (ms : Members)
    (folded : List (Report × Assignment)) (n : ℤ) : Prop :=
  ∀ pre x a post ms₁ ms₂, folded = pre ++ (x, a) :: post → a.netId = n →
    Routes cfg row ms pre ms₁ → Routed cfg ms₁ (row x) ms₂ a →
      ∀ old ∈ ms₁.rows, old.netId = n → ∀ m ∈ ms₂.rows, m.netId = n →
        (m.cells c.col).toDt = Option.merge c.pick (old.cells c.col).toDt (row x c.col).toDt

theorem TimeCol.KeepsDates.shorter {times : List (Report × Assignment) → Prop}
    {pre post : List (Report × Assignment)} {n : ℤ} {v : Option Date}
    (h : c.KeepsDates times (pre ++ post) n v) : c.KeepsDates times pre n v :=
  fun pre' x a post' hp => h pre' x a (post' ++ post) (by rw [hp]; simp)

/-- With one more report, what it leaves its net with comes back too. -/
theorem TimeCol.keepsDates_concat {times : List (Report × Assignment) → Prop} {x : Report} {n : ℤ}
    {v : Option Date} :
    c.KeepsDates times (folded ++ [(x, a)]) n v ↔ c.KeepsDates times folded n v ∧
      (a.netId = n → ∀ d ∈ c.best (v :: (received (folded ++ [(x, a)]) n).map c.ofReport),
        1000 ≤ d.year ∧ (times folded → d.Unambiguous)) := by
  refine ⟨fun h => ⟨h.shorter, h folded x a [] rfl⟩, fun h pre y b post hf => ?_⟩
  rcases List.concat_eq_split hf with ⟨rfl, hp⟩ | ⟨post', hf'⟩
  · obtain ⟨rfl, rfl⟩ := Prod.mk.inj hp
    exact h.2
  · exact h.1 pre y b post' hf'

/-- Dates that all come back are kept, whichever are picked. -/
theorem TimeCol.keepsDates_of_forall {times : List (Report × Assignment) → Prop} {n : ℤ}
    {v : Option Date}
    (h : ∀ d, some d ∈ v :: (received folded n).map c.ofReport → 1000 ≤ d.year ∧ d.Unambiguous) :
    c.KeepsDates times folded n v := by
  intro pre x a post hf _ d hd
  have hmem : some d ∈ v :: (received folded n).map c.ofReport := by
    rcases List.mem_cons.mp (mem_of_best hd) with hv | hmem
    · exact hv ▸ List.mem_cons_self
    · obtain ⟨y, hy, he⟩ := List.mem_map.mp hmem
      obtain ⟨b, hb, hbn⟩ := mem_received.mp hy
      refine List.mem_cons_of_mem _ (he ▸ List.mem_map_of_mem (mem_received.mpr ⟨b, ?_, hbn⟩))
      rw [hf, ← List.singleton_append, ← List.append_assoc]
      exact List.mem_append_left _ hb
  exact ⟨(h d hmem).1, fun _ => (h d hmem).2⟩

theorem TimeCol.StoresPicked.shorter {p : Report × Assignment} {n : ℤ}
    (h : c.StoresPicked cfg row ms (folded ++ [p]) n) : c.StoresPicked cfg row ms folded n :=
  fun pre x a post ms₁ ms₂ hf => h pre x a (post ++ [p]) ms₁ ms₂ (by rw [hf]; simp)

/-- A net that was there still is. -/
theorem Routes.exists_mem (h : Routes cfg row ms folded ms') {m₀ : Member} (hm₀ : m₀ ∈ ms.rows) :
    ∃ m ∈ ms'.rows, m.netId = m₀.netId := by
  have hmem : m₀.ids ∈ ms'.rows.map Member.ids := by
    rw [h.ids]
    exact List.mem_append_left _ (List.mem_map_of_mem hm₀)
  obtain ⟨m, hm, he⟩ := List.mem_map.mp hmem
  exact ⟨m, hm, congrArg Prod.fst he⟩

section
variable {times : List (Report × Assignment) → Prop}
variable (hrow : ∀ x, (row x c.col).toDt = (c.ofReport x).map .ofDate)
variable (htimes : ∀ {pre ms₁}, Routes cfg row ms pre ms₁ → (c.datetime ms₁ = true ↔ times pre))
include hrow

/-- One fold, into a net that has the best date so far. -/
theorem Routes.toDt_of_fold {ms'' : Members} {x : Report} {m₀ m : Member} {v : Option Date}
    (h : Routes cfg row ms folded ms') (last : Routed cfg ms' (row x) ms'' a)
    (hn : (ms.rows.map (·.netId)).Nodup) (hm₀ : m₀ ∈ ms.rows) (ha : a.netId = m₀.netId)
    (hbest : ∀ old ∈ ms'.rows, old.netId = m₀.netId → (old.cells c.col).toDt
      = (c.best (v :: (received folded m₀.netId).map c.ofReport)).map .ofDate)
    (hm : m ∈ ms''.rows) (he : m.netId = m₀.netId) :
    (m.cells c.col).toDt =
      ((c.best (v :: (received (folded ++ [(x, a)]) m₀.netId).map c.ofReport)).bind
        (readBack (c.datetime ms'))).map .ofDate := by
  obtain ⟨i, old, nti, into, rfl⟩ := last.folds_of_lt ((h.snoc last).nodup hn)
    (by rw [ha]; exact h.lt_nextNetId hm₀) hm (he.trans ha.symm)
  have hold := hbest old (List.mem_of_getElem? into.getElem) (into.netId.symm.trans ha)
  rw [received_concat, if_pos ha, List.map_append, List.map_singleton,
    toDt_time_collapsedMember hold (hrow x), ← c.best_concat, List.cons_append]

include htimes

omit hrow in
theorem Routes.readBack_iff (h : Routes cfg row ms folded ms') (d : Date) :
    readBack (c.datetime ms') d = some d
      ↔ 1000 ≤ d.year ∧ (times folded → d.Unambiguous) := by
  rw [readBack_eq_some_iff, ← htimes h]
  rfl

/-- Where every date on the way comes back, a net that was there is left with the best of its
old date and the dates it received. -/
theorem Routes.time_of_keepsDates (h : Routes cfg row ms folded ms')
    (hn : (ms.rows.map (·.netId)).Nodup) {m₀ : Member} (hm₀ : m₀ ∈ ms.rows) {v : Option Date}
    (hv : (m₀.cells c.col).toDt = v.map .ofDate)
    (hkeeps : c.KeepsDates times folded m₀.netId v) :
    ∀ m ∈ ms'.rows, m.netId = m₀.netId →
      (m.cells c.col).toDt
        = (c.best (v :: (received folded m₀.netId).map c.ofReport)).map .ofDate := by
  induction h with
  | start =>
    intro m hm he
    rw [List.inj_on_of_nodup_map hn hm hm₀ he, hv]
    exact congrArg _ (c.best_singleton v).symm
  | snoc before last ih =>
    rename_i folded ms' ms'' x a
    obtain ⟨hpre, hlast⟩ := TimeCol.keepsDates_concat.mp hkeeps
    intro m hm he
    by_cases ha : a.netId = m₀.netId
    · rw [before.toDt_of_fold hrow last hn hm₀ ha (ih hpre) hm he]
      congr 1
      -- the date picked comes back as itself
      rcases hb : c.best _ with _ | e
      · rfl
      · exact (before.readBack_iff htimes e).mpr (hlast ha e hb)
    · rw [received_concat, if_neg ha, List.append_nil]
      rw [last.mem_iff_of_ne fun h => ha (h.symm.trans he)] at hm
      exact ih hpre m hm he

/-- Where the dates come back up to the last report folded into a net, the net is left with the best
date only if that one comes back too. -/
theorem Routes.keepsDates_of_time (h : Routes cfg row ms folded ms')
    (hn : (ms.rows.map (·.netId)).Nodup) {m₀ : Member} (hm₀ : m₀ ∈ ms.rows) {v : Option Date}
    (hv : (m₀.cells c.col).toDt = v.map .ofDate) {pre post : List (Report × Assignment)}
    {x : Report} (hf : folded = pre ++ (x, a) :: post) (ha : a.netId = m₀.netId)
    (hpre : c.KeepsDates times pre m₀.netId v) (hpost : ∀ p ∈ post, p.2.netId ≠ m₀.netId) :
    ∀ m ∈ ms'.rows, m.netId = m₀.netId →
      (m.cells c.col).toDt.map (·.date)
        = c.best (v :: (received folded m₀.netId).map c.ofReport) →
      c.KeepsDates times folded m₀.netId v := by
  induction h generalizing post with
  | start => exact absurd hf.symm (List.append_ne_nil_of_right_ne_nil _ (List.cons_ne_nil _ _))
  | snoc before last ih =>
    rename_i folded ms' ms'' y b
    intro m hm he hbest
    rcases List.eq_nil_or_concat post with rfl | ⟨post', p, rfl⟩
    · obtain ⟨rfl, hp⟩ := List.append_inj' hf rfl
      obtain ⟨rfl, rfl⟩ := Prod.mk.inj (List.cons.inj hp).1
      rw [before.toDt_of_fold hrow last hn hm₀ ha
        (before.time_of_keepsDates hrow htimes hn hm₀ hv hpre) hm he] at hbest
      refine TimeCol.keepsDates_concat.mpr ⟨hpre, fun _ d hd => ?_⟩
      rw [Option.mem_def.mp hd, Option.bind_some] at hbest
      refine (before.readBack_iff htimes d).mp ?_
      rcases hr : readBack (c.datetime ms') d with _ | e
      · rw [hr] at hbest
        exact nomatch hbest
      · rw [hr] at hbest
        exact congrArg some (Option.some.inj hbest)
    · rw [List.concat_eq_append, ← List.cons_append, ← List.append_assoc] at hf
      obtain ⟨hfolded, hp⟩ := List.append_inj' hf rfl
      obtain rfl := (List.cons.inj hp).1
      have hb : b.netId ≠ m₀.netId := hpost (y, b) (by simp)
      rw [last.mem_iff_of_ne fun h => hb (h.symm.trans he)] at hm
      rw [received_concat, if_neg hb, List.append_nil] at hbest
      have hkeeps := ih hfolded (fun q hq => hpost q (by simp [hq])) m hm he hbest
      exact TimeCol.keepsDates_concat.mpr ⟨hkeeps, fun h => absurd h hb⟩

/-- The folds into a net store the dates they pick exactly where these come back. -/
theorem Routes.storesPicked_iff (h : Routes cfg row ms folded ms')
    (hn : (ms.rows.map (·.netId)).Nodup) {m₀ : Member} (hm₀ : m₀ ∈ ms.rows) {v : Option Date}
    (hv : (m₀.cells c.col).toDt = v.map .ofDate) :
    c.StoresPicked cfg row ms folded m₀.netId ↔ c.KeepsDates times folded m₀.netId v := by
  refine ⟨fun hpicked => ?_, fun hkeeps => ?_⟩
  · induction h with
    | start =>
      exact fun pre x a post hf =>
        absurd hf.symm (List.append_ne_nil_of_right_ne_nil _ (List.cons_ne_nil _ _))
    | snoc before last ih =>
      rename_i folded ms' ms'' y b
      have hpre : c.KeepsDates times folded m₀.netId v := ih hpicked.shorter
      refine TimeCol.keepsDates_concat.mpr ⟨hpre, fun ha d hd => ?_⟩
      obtain ⟨old, hold, hon⟩ := before.exists_mem hm₀
      obtain ⟨m, hm, he⟩ := (before.snoc last).exists_mem hm₀
      have hbest := before.time_of_keepsDates hrow htimes hn hm₀ hv hpre
      have hstored := before.toDt_of_fold hrow last hn hm₀ ha hbest hm he
      rw [hpicked folded y b [] ms' ms'' rfl ha before last old hold hon m hm he,
        hbest old hold hon, hrow, c.merge_map Timestamp.ofDate_monotone,
        ← c.best_concat] at hstored
      rw [received_concat, if_pos ha, List.map_append, List.map_singleton,
        ← List.cons_append] at hd hstored
      rw [Option.mem_def.mp hd] at hstored
      exact (before.readBack_iff htimes d).mp
        (Option.map_injective Timestamp.ofDate_injective hstored.symm)
  · intro pre x a post ms₁ ms₂ hf ha before last old hold hon m hm he
    have hf' : folded = (pre ++ [(x, a)]) ++ post := by
      rw [hf, List.append_assoc, List.singleton_append]
    rw [(before.snoc last).time_of_keepsDates hrow htimes hn hm₀ hv
        (TimeCol.KeepsDates.shorter (hf' ▸ hkeeps)) m hm he,
      before.time_of_keepsDates hrow htimes hn hm₀ hv
        (TimeCol.KeepsDates.shorter (hf ▸ hkeeps)) old hold hon,
      hrow, c.merge_map Timestamp.ofDate_monotone, ← c.best_concat, received_concat, if_pos ha,
      List.map_append, List.map_singleton, List.cons_append]

end

end

/-! ## The rows read and written -/

/-- A date as a cell. -/
def dateCell (d : Option Date) : Cell := (d.map fun d => Cell.ts (.ofDate d)).getD .null

theorem toDt_dateCell (d : Option Date) : (dateCell d).toDt = d.map .ofDate := by
  rcases d with _ | d <;> rfl

/-- A column of dates is `datetime64` as soon as one of them is there. -/
theorem inferDtype_dateCell (l : List (Option Date)) :
    inferDtype (l.map dateCell) = .datetime64 ↔ ∃ d, some d ∈ l := by
  have hany : ∀ p : Cell → Bool, p .null = false → (∀ t, p (.ts t) = false) →
      (l.map dateCell).any p = false := by
    intro p h0 h1
    rw [List.any_map, List.any_eq_false]
    intro d _
    rcases d with _ | d
    · exact Bool.eq_false_iff.mp h0
    · exact Bool.eq_false_iff.mp (h1 _)
  have hall : ∀ p : Cell → Bool, p .null = true → (∀ t, p (.ts t) = true) →
      (l.map dateCell).all p = true := by
    intro p h0 h1
    rw [List.all_map, List.all_eq_true]
    intro d _
    rcases d with _ | d
    · exact h0
    · exact h1 _
  have htime : (l.map dateCell).any Cell.isTime = true ↔ ∃ d, some d ∈ l := by
    rw [List.any_map, List.any_eq_true]
    refine ⟨fun h => ?_, fun h => ?_⟩
    · obtain ⟨d, hd, ht⟩ := h
      rcases d with _ | d
      · exact nomatch ht
      · exact ⟨d, hd⟩
    · obtain ⟨d, hd⟩ := h
      exact ⟨some d, hd, rfl⟩
  unfold inferDtype
  rw [hany Cell.isStr rfl fun _ => rfl, hany Cell.isInt rfl fun _ => rfl,
    hany Cell.isNum rfl fun _ => rfl, hall (fun c => c.isTime || c.isGap) rfl fun _ => rfl,
    Bool.false_and, Bool.false_and, Bool.false_and, Bool.and_true, ← htime]
  simp

/-- A date, missing or not, is a time in a column of times, and by itself if it is there. -/
theorem isTime_store_dateCell (dt : Dtype) (d : Option Date) :
    (dt.store (dateCell d)).isTime = true ↔ dt = .datetime64 ∨ d ≠ none := by
  rcases d with _ | d
  · cases dt <;> decide
  · refine iff_of_true ?_ (Or.inr (Option.some_ne_none d))
    cases dt <;> rfl

/-- Some net read has a date in the column, which makes it `datetime64`. -/
def TimeCol.Loaded (c : TimeCol) (s : Store) : Prop :=
  ∃ n x, s.building n = some x ∧ c.ofNet x ≠ none

/-- Some report has a date in the column: the others then have `NaT` there. -/
def TimeCol.Reported (c : TimeCol) (s : Store) : Prop :=
  ∃ x : Report, s.report x.1 = some x.2 ∧ c.ofReport x ≠ none

/-- The column is `datetime64` after the reports of `pre`: it was loaded so, and no net was made of
a report that has neither a date nor `NaT` in it. -/
def TimeCol.DatetimeAfter (c : TimeCol) (s : Store) (pre : List (Report × Assignment)) : Prop :=
  c.Loaded s ∧ ∀ p ∈ pre, p.2.action = .new → c.Reported s ∨ c.ofReport p.1 ≠ none

theorem rawReport_time (c : TimeCol) (x : Report) :
    rawReport x c.col = dateCell (c.ofReport x) := by
  rcases c with _ | _ <;> rfl

theorem rawNet_time (c : TimeCol) (x : Net) : rawNet x c.col = dateCell (c.ofNet x) := by
  rcases c with _ | _ <;> rfl

theorem toDt_reportRow (c : TimeCol) (reports : List Report) (x : Report) :
    (reportRow reports x c.col).toDt = (c.ofReport x).map .ofDate := by
  rw [Cell.toDt_congr (reportRow_agrees reports x c.col), rawReport_time, toDt_dateCell]

theorem toDt_startMember (c : TimeCol) (building : List (ℤ × Net)) (x : ℤ × Net) :
    ((startMember building x).cells c.col).toDt = (c.ofNet x.2).map .ofDate := by
  show (storeRow _ (rawNet x.2) c.col).toDt = _
  rw [Cell.toDt_congr (storeRow_agrees _ _ c.col), rawNet_time, toDt_dateCell]

theorem ofNet_toNet (c : TimeCol) (m : Member) (now : Time) :
    c.ofNet (m.toNet now) = (m.cells c.col).toDt.map (·.date) := by
  rcases c with _ | _ <;> rfl

theorem count_reportRow (reports : List Report) (x : Report) :
    (reportRow reports x .nti).count = x.2.nti.getD 0 := by
  rw [Cell.count_congr (reportRow_agrees reports x .nti)]
  show ((x.2.nti.map Cell.int).getD .null).count = _
  rcases x.2.nti <;> rfl

theorem count_startMember (building : List (ℤ × Net)) (x : ℤ × Net) :
    ((startMember building x).cells .nti).count = x.2.fields.nti.getD 0 := by
  show (storeRow _ (rawNet x.2) .nti).count = _
  rw [Cell.count_congr (storeRow_agrees _ _ .nti)]
  show ((x.2.fields.nti.map Cell.int).getD .null).count = _
  rcases x.2.fields.nti <;> rfl

theorem nti_toNet (m : Member) (now : Time) :
    (m.toNet now).fields.nti.getD 0 = (m.cells .nti).count := by
  show ((m.cells .nti).toInt).getD 0 = _
  unfold Cell.toInt Cell.count
  rcases (m.cells .nti).isna <;> rfl

theorem routedCount_reportRow (reports : List Report) (folded : List (Report × Assignment))
    (n : ℤ) :
    routedCount (reportRow reports) folded n
      = ((received folded n).map fun x => x.2.nti.getD 0).sum := by
  unfold routedCount received
  induction folded with
  | nil => rfl
  | cons p folded ih =>
    rw [List.map_cons, List.sum_cons, ih, count_reportRow]
    by_cases hp : p.2.netId = n
    · rw [if_pos hp, List.filter_cons_of_pos (by simpa using hp)]
      rfl
    · rw [if_neg hp, List.filter_cons_of_neg (by simpa using hp), zero_add]

section
variable {ord : ReadOrder} {cfg : MatchConfig} {clock : BuildClock} {s s' : Store}
  {res : BuildResult} {building : List (ℤ × Net)} {history : List (HistKey × Hist)}
  {reports : List Report} {folded : List (Report × Assignment)} {ms : Members}

theorem BuildRun.datetime_start
    (h : BuildRun ord cfg clock s s' res building history reports folded ms) (c : TimeCol) :
    c.datetime (startMembers building) = true ↔ c.Loaded s := by
  have hcol : c.datetime (startMembers building)
      = decide (inferDtype ((building.map fun x => c.ofNet x.2).map dateCell) = .datetime64) := by
    have hraw : (building.map fun x => rawNet x.2).map (· c.col)
        = (building.map fun x => c.ofNet x.2).map dateCell := by
      rw [List.map_map, List.map_map]
      exact List.map_congr_left fun x _ => rawNet_time c x.2
    rw [← hraw]
    rcases c with _ | _ <;> rfl
  rw [hcol, decide_eq_true_iff, inferDtype_dateCell]
  refine ⟨fun hd => ?_, fun hl => ?_⟩
  · obtain ⟨d, hd⟩ := hd
    obtain ⟨x, hx, he⟩ := List.mem_map.mp hd
    refine ⟨x.1, x.2, (h.readBuilding.mem_iff x.1 x.2).mp hx, ?_⟩
    rw [he]
    exact Option.some_ne_none d
  · obtain ⟨n, x, hx, hne⟩ := hl
    obtain ⟨d, hd⟩ := Option.ne_none_iff_exists'.mp hne
    exact ⟨d, List.mem_map.mpr ⟨(n, x), (h.readBuilding.mem_iff n x).mpr hx, hd⟩⟩

theorem BuildRun.isTime_reportRow
    (h : BuildRun ord cfg clock s s' res building history reports folded ms) (c : TimeCol)
    (x : Report) :
    (reportRow reports x c.col).isTime = true ↔ c.Reported s ∨ c.ofReport x ≠ none := by
  have hraw : (reports.map rawReport).map (· c.col) = (reports.map c.ofReport).map dateCell := by
    rw [List.map_map, List.map_map]
    exact List.map_congr_left fun x _ => rawReport_time c x
  have hdt : inferDtype ((reports.map c.ofReport).map dateCell) = .datetime64 ↔ c.Reported s := by
    rw [inferDtype_dateCell]
    refine ⟨fun hd => ?_, fun hr => ?_⟩
    · obtain ⟨d, hd⟩ := hd
      obtain ⟨y, hy, he⟩ := List.mem_map.mp hd
      refine ⟨y, (h.readReports.mem_iff y.1 y.2).mp hy, ?_⟩
      rw [he]
      exact Option.some_ne_none d
    · obtain ⟨y, hy, hne⟩ := hr
      obtain ⟨d, hd⟩ := Option.ne_none_iff_exists'.mp hne
      exact ⟨d, List.mem_map.mpr ⟨y, (h.readReports.mem_iff y.1 y.2).mpr hy, hd⟩⟩
  show ((inferDtype ((reports.map rawReport).map (· c.col))).store (rawReport x c.col)).isTime
    = true ↔ _
  rw [hraw, rawReport_time, isTime_store_dateCell, hdt]

/-- The column is `datetime64` as long as every new net has a date or `NaT` there. -/
theorem BuildRun.datetime_iff
    (h : BuildRun ord cfg clock s s' res building history reports folded ms) (c : TimeCol)
    {pre : List (Report × Assignment)} {ms₁ : Members}
    (before : Routes cfg (reportRow reports) (startMembers building) pre ms₁) :
    c.datetime ms₁ = true ↔ c.DatetimeAfter s pre := by
  rw [before.datetime_iff rfl, h.datetime_start]
  exact and_congr_right fun _ => forall₂_congr fun p _ => imp_congr_right fun _ =>
    h.isTime_reportRow c p.1

/-- The count of a net grows by the counts of the reports it received. -/
theorem BuildRun.nti_eq
    (h : BuildRun ord cfg clock s s' res building history reports folded ms) {n : ℤ} {x : Net}
    (hx : s.building n = some x) {m : Member} (hm : m ∈ ms.rows) (hmn : m.netId = n) :
    (m.toNet clock.updatedAt).fields.nti.getD 0 =
      x.fields.nti.getD 0 + ((received folded n).map fun x => x.2.nti.getD 0).sum := by
  have hsum := h.routes.netCount rfl n
  have hstart := netCount_eq h.nodup_start (h.mem_start hx)
  have hend := netCount_eq h.nodup hm
  rw [hmn] at hend
  rw [nti_toNet, ← hend, hsum, ← routedCount_reportRow reports, ← count_startMember building (n, x),
    ← hstart]
  rfl

/-! ## When the dates are right -/

/-- The row has the earliest FTI, the latest LTI and the summed count of the row before the
build and the reports its net received. -/
structure Aggregates (x row : Net) (l : List Report) : Prop where
  time : ∀ c : TimeCol, c.ofNet row = c.best (c.ofNet x :: l.map c.ofReport)
  nti : row.fields.nti.getD 0 = x.fields.nti.getD 0 + (l.map fun r => r.2.nti.getD 0).sum

/-- After a build every net that was there and received reports has the summed count, and the
earliest FTI and the latest LTI where every date picked on the way comes back as it was put in.
Where one does not, a fold into the net stores another date than it picked; and if it is the date of
the last one, the net is left with a wrong date. -/
theorem aggregates_of_keepsDates
    (hrun : Run (exec ord) s (runPipeline cfg clock) s' (.ok res)) :
    ∃ building history reports folded ms,
      BuildRun ord cfg clock s s' res building history reports folded ms ∧
        ∀ n x, s.building n = some x → received folded n ≠ [] →
          ∃ row, s'.building n = some row ∧
            ((∀ c : TimeCol, c.KeepsDates (c.DatetimeAfter s) folded n (c.ofNet x)) →
              Aggregates x row (received folded n)) ∧
            row.fields.nti.getD 0 =
              x.fields.nti.getD 0 + ((received folded n).map fun x => x.2.nti.getD 0).sum ∧
            ∀ c : TimeCol,
              (c.StoresPicked cfg (reportRow reports) (startMembers building) folded n ↔
                c.KeepsDates (c.DatetimeAfter s) folded n (c.ofNet x)) ∧
              ∀ pre y a post, folded = pre ++ (y, a) :: post → a.netId = n →
                (∀ p ∈ post, p.2.netId ≠ n) →
                  c.KeepsDates (c.DatetimeAfter s) pre n (c.ofNet x) →
                    (c.ofNet row = c.best (c.ofNet x :: (received folded n).map c.ofReport) ↔
                      c.KeepsDates (c.DatetimeAfter s) folded n (c.ofNet x)) := by
  obtain ⟨building, history, reports, folded, ms, h⟩ := run_runPipeline hrun
  refine ⟨building, history, reports, folded, ms, h, fun n x hx hne => ?_⟩
  -- some report was routed to the net, so its record is written
  obtain ⟨y, hy⟩ := List.exists_mem_of_ne_nil _ hne
  obtain ⟨p, hp, -⟩ := List.mem_map.mp hy
  obtain ⟨hp₁, hpn⟩ := List.mem_filter.mp hp
  obtain ⟨m, hm, hmn, -, hrow⟩ := h.row_of_folded hp₁
  rw [of_decide_eq_true hpn] at hmn hrow
  have hnti := h.nti_eq hx hm hmn
  have hm₀ := h.mem_start hx
  have hbest (c : TimeCol) (hkeeps : c.KeepsDates (c.DatetimeAfter s) folded n (c.ofNet x)) :
      c.ofNet (m.toNet clock.updatedAt)
        = c.best (c.ofNet x :: (received folded n).map c.ofReport) := by
    rw [ofNet_toNet, h.routes.time_of_keepsDates (toDt_reportRow c reports) (h.datetime_iff c)
      h.nodup_start hm₀ (toDt_startMember c building (n, x)) hkeeps m hm hmn]
    rw [Option.map_map]
    exact Option.map_id_apply
  refine ⟨_, hrow, fun hkeeps => ⟨fun c => hbest c (hkeeps c), hnti⟩, hnti, fun c => ⟨?_, ?_⟩⟩
  · exact h.routes.storesPicked_iff (toDt_reportRow c reports) (h.datetime_iff c) h.nodup_start hm₀
      (toDt_startMember c building (n, x))
  · intro pre y a post hf ha hpost hpre
    refine ⟨fun heq => ?_, hbest c⟩
    rw [ofNet_toNet] at heq
    exact h.routes.keepsDates_of_time (toDt_reportRow c reports) (h.datetime_iff c) h.nodup_start
      hm₀ (toDt_startMember c building (n, x)) hf ha hpre hpost m hm hmn heq

end

/-! ## A date read month first -/

/-- A net of one emitter. -/
def oneNet : List (ℤ × Net) :=
  [(100001,
    { myNetId := some 1
      ffId := some 1
      lti := some ⟨2024, 2, 20, by decide, by decide, by decide⟩
      fields := .plain ⟨2024, 4, 26, by decide, by decide, by decide⟩ 3 100 ['A']
      updatedAt := none })]

/-- A report of that emitter with an earlier FTI in March. -/
def marchReport (day : ℕ) (h : 1 ≤ day ∧ day ≤ daysInMonth 2024 3) : Report :=
  ((1, ⟨2024, 3, 25, by decide, by decide, by decide⟩),
    .plain ⟨2024, 3, day, by decide, by decide, h⟩ 4 100 ['A'])

/-- A build of the report into the net, and the dates it leaves. -/
theorem run_marchReport (day : ℕ) (h : 1 ≤ day ∧ day ≤ daysInMonth 2024 3) (fti : Date)
    (hplan : (buildPlan {} (.still 1) oneNet [] [marchReport day h]).map
      (fun p => p.rows.map fun r => (r.1, r.2.fields.fti)) = .ok [(100001, some fti)]) :
    ∃ s' res,
      Run (exec .any) (.ofNets oneNet [marchReport day h]) (runPipeline {} (.still 1)) s'
        (.ok res) ∧
        ∀ n row, s'.building n = some row → n = 100001 ∧ row.fields.fti = some fti := by
  obtain ⟨p, hp, hrows⟩ := Except.map_eq_ok_iff.mp hplan
  refine ⟨_, _, run_of_buildPlan (lists_ofNets (by decide)) lists_empty
    (lists_ofReports (by simp)) (List.cons_ne_nil _ _) hp, fun n row hrow => ?_⟩
  obtain ⟨r, hr, hr'⟩ := List.map_eq_singleton_iff.mp hrows
  obtain ⟨hn, hf⟩ := Prod.mk.inj hr'
  have hafter : (((Store.ofNets oneNet [marchReport day h]).building.deleteAll
      (staleKeys oneNet p.rows)).upsert r.1 r.2) n = some row := by
    have := hrow
    unfold Store.afterBuild at this
    rw [hr] at this ⊢
    exact this
  rw [Table.upsert_apply, Table.deleteAll_apply] at hafter
  by_cases he : n = r.1
  · rw [if_pos he] at hafter
    obtain rfl := Option.some.inj hafter
    exact ⟨he.trans hn, hf⟩
  · have hnone : (Store.ofNets oneNet [marchReport day h]).building n = none :=
      Table.upsert_of_ne _ _ fun h => he (h.trans hn.symm)
    rw [if_neg he, hnone, ite_self] at hafter
    exact nomatch hafter

/-- A build from that store sends the report to that net. -/
theorem received_marchReport {day : ℕ} {h : 1 ≤ day ∧ day ≤ daysInMonth 2024 3}
    {ord : ReadOrder} {cfg : MatchConfig} {clock : BuildClock} {s' : Store} {res : BuildResult}
    {building : List (ℤ × Net)} {history : List (HistKey × Hist)} {reports : List Report}
    {folded : List (Report × Assignment)} {ms : Members}
    (hrun : BuildRun ord cfg clock (.ofNets oneNet [marchReport day h]) s' res building history
      reports folded ms) (hone : ∀ n row, s'.building n = some row → n = 100001) :
    received folded 100001 ≠ [] ∧ ∀ x ∈ received folded 100001, x = marchReport day h := by
  have hlists : Lists ReadOrder.any.report [marchReport day h] (Store.ofReports _).report :=
    lists_ofReports (List.nodup_singleton _)
  have hhist : history = [] := hrun.readHistory.eq_nil_iff.mpr rfl
  refine ⟨?_, fun x hx => ?_⟩
  · obtain ⟨a, ha⟩ := (hrun.mem_folded_iff _).mpr
      ⟨(hlists.mem_iff _ (marchReport day h).2).mp List.mem_cons_self, by rw [hhist]; rfl⟩
    obtain ⟨m, -, -, -, hrow⟩ := hrun.row_of_folded ha
    have hmem : (_, a) ∈ folded.filter (·.2.netId = 100001) :=
      List.mem_filter.mpr ⟨ha, decide_eq_true (hone _ _ hrow)⟩
    exact List.ne_nil_of_mem (List.mem_map_of_mem hmem)
  · obtain ⟨p, hp, rfl⟩ := List.mem_map.mp hx
    have hrep := ((hrun.mem_folded_iff p.1).mp ⟨p.2, (List.mem_filter.mp hp).1⟩).1
    exact List.mem_singleton.mp ((hlists.mem_iff _ _).mpr hrep)

/-- The 5th of March is stored as the 3rd of May. -/
theorem not_aggregates_marchReport :
    ¬ ∀ (ord : ReadOrder) (cfg : MatchConfig) (clock : BuildClock) (s s' : Store)
      (res : BuildResult), Run (exec ord) s (runPipeline cfg clock) s' (.ok res) →
        ∃ building history reports folded ms,
          BuildRun ord cfg clock s s' res building history reports folded ms ∧
            ∀ n x, s.building n = some x → received folded n ≠ [] →
              ∃ row, s'.building n = some row ∧ Aggregates x row (received folded n) := by
  intro hclaim
  obtain ⟨s', res, hrun, hrow⟩ := run_marchReport 5 (by decide)
    ⟨2024, 5, 3, by decide, by decide, by decide⟩ (by decide +kernel)
  obtain ⟨building, history, reports, folded, ms, h, hagg⟩ := hclaim _ _ _ _ _ _ hrun
  obtain ⟨hne, hall⟩ := received_marchReport h fun n row hr => (hrow n row hr).1
  obtain ⟨row, hr, ha⟩ := hagg 100001 _ rfl hne
  have hfti := (ha.time .fti).symm.trans (hrow _ row hr).2
  -- the date stored is neither the old one nor the report's
  rcases List.mem_cons.mp (TimeCol.mem_of_best hfti) with hold | hnew
  · exact absurd hold (by decide)
  · obtain ⟨x, hx, he⟩ := List.mem_map.mp hnew
    rw [hall x hx] at he
    exact absurd he (by decide)

/-- The 15th of March is stored as it is. -/
theorem aggregates_of_keepsDates_marchReport :
    ∃ s' res, Run (exec .any) (.ofNets oneNet [marchReport 15 (by decide)])
        (runPipeline {} (.still 1)) s' (.ok res) ∧
      ∃ x row l, (100001, x) ∈ oneNet ∧ s'.building 100001 = some row ∧ l ≠ [] ∧
        (∀ r ∈ l, r = marchReport 15 (by decide)) ∧ Aggregates x row l := by
  obtain ⟨s', res, hrun, hrow⟩ := run_marchReport 15 (by decide)
    ⟨2024, 3, 15, by decide, by decide, by decide⟩ (by decide +kernel)
  obtain ⟨building, history, reports, folded, ms, h, hagg⟩ := aggregates_of_keepsDates hrun
  obtain ⟨hne, hall⟩ := received_marchReport h fun n row hr => (hrow n row hr).1
  obtain ⟨row, hr, ha, -⟩ := hagg 100001 _ rfl hne
  refine ⟨s', res, hrun, _, row, _, List.mem_cons_self, hr, hne, hall, ha fun c => ?_⟩
  refine TimeCol.keepsDates_of_forall fun d hd => ?_
  rcases List.mem_cons.mp hd with hold | hnew
  · rcases c with _ | _
    · obtain rfl := Option.some.inj hold
      decide
    · obtain rfl := Option.some.inj hold
      decide
  · obtain ⟨x, hx, he⟩ := List.mem_map.mp hnew
    rw [hall x hx] at he
    rcases c with _ | _
    · obtain rfl := Option.some.inj he
      decide
    · obtain rfl := Option.some.inj he
      decide

end NetBuild
