import Mathlib.Data.List.Nodup
import Mathlib.Data.List.Basic
import Mathlib.Logic.Function.Basic

/-!
# Keyed tables

A table holds at most one row for each primary key, and every write is an upsert: it
replaces the row at its key or creates it. A read of the whole table returns its rows in
some order, which is why it is a relation (`Enumerates`) and not a function.
-/

/-- A table: the row stored at each primary key, if any. -/
abbrev Table (K V : Type) := K → Option V

namespace Table

variable {K V : Type}

/-- The table with no rows. -/
def empty : Table K V := fun _ => none

@[simp] theorem empty_apply (k : K) : (empty : Table K V) k = none := rfl

/-- `rows` is everything the table holds, each row once, in some order. -/
structure Enumerates (rows : List (K × V)) (t : Table K V) : Prop where
  nodup : (rows.map Prod.fst).Nodup
  mem_iff : ∀ k v, (k, v) ∈ rows ↔ t k = some v

theorem enumerates_empty : Enumerates [] (empty : Table K V) where
  nodup := List.nodup_nil
  mem_iff := by simp

theorem Enumerates.eq_empty {t : Table K V} (h : Enumerates [] t) : t = empty := by
  funext k
  cases hk : t k with
  | none => rfl
  | some v => exact absurd ((h.mem_iff k v).mpr hk) (by simp)

theorem Enumerates.mem_keys {rows : List (K × V)} {t : Table K V} (h : Enumerates rows t)
    {k : K} : k ∈ rows.map Prod.fst ↔ (t k).isSome := by
  rw [List.mem_map, Option.isSome_iff_exists]
  constructor
  · rintro ⟨⟨k', v⟩, hm, rfl⟩
    exact ⟨v, (h.mem_iff _ _).mp hm⟩
  · rintro ⟨v, hv⟩
    exact ⟨(k, v), (h.mem_iff _ _).mpr hv, rfl⟩

theorem Enumerates.perm {rows rows' : List (K × V)} {t : Table K V}
    (h : Enumerates rows t) (h' : Enumerates rows' t) : rows.Perm rows' := by
  rw [List.perm_ext_iff_of_nodup (.of_map _ h.nodup) (.of_map _ h'.nodup)]
  rintro ⟨k, v⟩
  rw [h.mem_iff, h'.mem_iff]

variable [DecidableEq K]

/-- Write one row, replacing whatever its key held. -/
def upsert (t : Table K V) (k : K) (v : V) : Table K V := Function.update t k (some v)

/-- Remove the row at a key. -/
def delete (t : Table K V) (k : K) : Table K V := Function.update t k none

/-- Write rows one after another. -/
def upsertAll (t : Table K V) (rows : List (K × V)) : Table K V :=
  rows.foldl (fun t r => t.upsert r.1 r.2) t

/-- Remove keys one after another. -/
def deleteAll (t : Table K V) (keys : List K) : Table K V := keys.foldl delete t

@[simp] theorem upsert_self (t : Table K V) (k : K) (v : V) : t.upsert k v k = some v :=
  Function.update_self ..

theorem upsert_of_ne (t : Table K V) {k k' : K} (v : V) (h : k' ≠ k) :
    t.upsert k v k' = t k' := Function.update_of_ne h ..

theorem upsert_apply (t : Table K V) (k k' : K) (v : V) :
    t.upsert k v k' = if k' = k then some v else t k' := Function.update_apply ..

theorem delete_apply (t : Table K V) (k k' : K) :
    t.delete k k' = if k' = k then none else t k' := Function.update_apply ..

@[simp] theorem upsertAll_nil (t : Table K V) : t.upsertAll [] = t := rfl

@[simp] theorem upsertAll_cons (t : Table K V) (r : K × V) (rows : List (K × V)) :
    t.upsertAll (r :: rows) = (t.upsert r.1 r.2).upsertAll rows := rfl

theorem upsertAll_append (t : Table K V) (rows rows' : List (K × V)) :
    t.upsertAll (rows ++ rows') = (t.upsertAll rows).upsertAll rows' :=
  List.foldl_append ..

@[simp] theorem deleteAll_nil (t : Table K V) : t.deleteAll [] = t := rfl

@[simp] theorem deleteAll_cons (t : Table K V) (k : K) (keys : List K) :
    t.deleteAll (k :: keys) = (t.delete k).deleteAll keys := rfl

theorem deleteAll_apply (t : Table K V) (keys : List K) (k : K) :
    t.deleteAll keys k = if k ∈ keys then none else t k := by
  induction keys generalizing t with
  | nil => simp
  | cons k' keys ih =>
    rw [deleteAll_cons, ih, delete_apply]
    by_cases hk : k ∈ keys <;> by_cases he : k = k' <;> simp [hk, he]

/-- A key that is not written keeps its row. -/
theorem upsertAll_of_not_mem (t : Table K V) {rows : List (K × V)} {k : K}
    (h : k ∉ rows.map Prod.fst) : t.upsertAll rows k = t k := by
  induction rows generalizing t with
  | nil => rfl
  | cons r rows ih =>
    rw [List.map_cons, List.mem_cons, not_or] at h
    rw [upsertAll_cons, ih _ h.2, upsert_of_ne _ _ h.1]

/-- The keys after writing rows are the old ones and the written ones. -/
theorem upsertAll_ne_none_iff (t : Table K V) (rows : List (K × V)) (k : K) :
    t.upsertAll rows k ≠ none ↔ k ∈ rows.map Prod.fst ∨ t k ≠ none := by
  induction rows generalizing t with
  | nil => simp
  | cons r rows ih =>
    rw [upsertAll_cons, ih, upsert_apply, List.map_cons, List.mem_cons]
    by_cases hk : k = r.1
    · simp [hk]
    · simp [hk]

/-- What a key holds after writing rows is one of them, or what it held. -/
theorem mem_or_of_upsertAll_eq_some {t : Table K V} {rows : List (K × V)} {k : K} {v : V}
    (h : t.upsertAll rows k = some v) : (k, v) ∈ rows ∨ t k = some v := by
  induction rows generalizing t with
  | nil => exact .inr h
  | cons r rows ih =>
    rw [upsertAll_cons] at h
    rcases ih h with hmem | hold
    · exact .inl (List.mem_cons_of_mem _ hmem)
    · rw [upsert_apply] at hold
      split at hold
      · next hk =>
        left
        rw [hk, ← Option.some.inj hold]
        exact List.mem_cons_self
      · exact .inr hold

/-- A row written once is what its key holds afterwards. -/
theorem upsertAll_of_mem (t : Table K V) {rows : List (K × V)} {k : K} {v : V}
    (hn : (rows.map Prod.fst).Nodup) (h : (k, v) ∈ rows) : t.upsertAll rows k = some v := by
  induction rows generalizing t with
  | nil => cases h
  | cons r rows ih =>
    rw [List.map_cons, List.nodup_cons] at hn
    rw [upsertAll_cons]
    rcases List.mem_cons.mp h with rfl | h
    · rw [upsertAll_of_not_mem _ hn.1, upsert_self]
    · exact ih _ hn.2 h

/-- What a key holds after writing rows with distinct keys: the written row, else the old one. -/
theorem upsertAll_eq_some_iff (t : Table K V) {rows : List (K × V)}
    (hn : (rows.map Prod.fst).Nodup) (k : K) (v : V) :
    t.upsertAll rows k = some v ↔
      (k, v) ∈ rows ∨ (k ∉ rows.map Prod.fst ∧ t k = some v) := by
  by_cases hk : k ∈ rows.map Prod.fst
  · obtain ⟨⟨k', w⟩, hm, rfl⟩ := List.mem_map.mp hk
    rw [upsertAll_of_mem t hn hm]
    constructor
    · intro h; cases h; exact .inl hm
    · rintro (h | ⟨h, _⟩)
      · rw [← upsertAll_of_mem t hn hm, upsertAll_of_mem t hn h]
      · exact absurd hk h
  · rw [upsertAll_of_not_mem t hk]
    constructor
    · exact fun h => .inr ⟨hk, h⟩
    · rintro (h | ⟨_, h⟩)
      · exact absurd (List.mem_map.mpr ⟨_, h, rfl⟩) hk
      · exact h

/-- A table filled with rows with distinct keys holds these rows. -/
theorem enumerates_upsertAll {rows : List (K × V)} (hn : (rows.map Prod.fst).Nodup) :
    Enumerates rows (empty.upsertAll rows) where
  nodup := hn
  mem_iff k v := by
    rw [upsertAll_eq_some_iff _ hn]
    simp

/-- A row written over an existing one takes its place in an enumeration. -/
theorem Enumerates.upsert_old {t : Table K V} {pre post : List (K × V)} {k : K} {v : V}
    (h : Enumerates (pre ++ (k, v) :: post) t) (w : V) :
    Enumerates (pre ++ (k, w) :: post) (t.upsert k w) where
  nodup := by simpa using h.nodup
  mem_iff k' v' := by
    have hn := h.nodup
    simp only [List.map_append, List.map_cons, List.nodup_middle, List.nodup_cons,
      List.mem_append, not_or] at hn
    have hpre : ∀ x, (k, x) ∈ pre → False := fun x hx =>
      hn.1.1 (List.mem_map.mpr ⟨_, hx, rfl⟩)
    have hpost : ∀ x, (k, x) ∈ post → False := fun x hx =>
      hn.1.2 (List.mem_map.mpr ⟨_, hx, rfl⟩)
    have hm := h.mem_iff k' v'
    rw [upsert_apply]
    split
    · next he =>
      subst he
      simp only [List.mem_append, List.mem_cons, Prod.mk.injEq, true_and, Option.some.injEq]
      constructor
      · rintro (h' | rfl | h')
        · exact (hpre _ h').elim
        · rfl
        · exact (hpost _ h').elim
      · rintro rfl; exact .inr (.inl rfl)
    · next he =>
      rw [← hm]
      simp [he]

/-! ## What the rows show -/

section
variable {W : Type} {g : K → V → W}

/-- The table of what each row shows. -/
def mapRows (g : K → V → W) (t : Table K V) : Table K W := fun k => (t k).map (g k)

theorem mapRows_upsert (t : Table K V) (k : K) (v : V) :
    mapRows g (t.upsert k v) = (mapRows g t).upsert k (g k v) := by
  funext k'
  unfold mapRows
  rw [upsert_apply, upsert_apply]
  by_cases h : k' = k
  · rw [if_pos h, if_pos h, h]
    rfl
  · rw [if_neg h, if_neg h]

theorem mapRows_delete (t : Table K V) (k : K) :
    mapRows g (t.delete k) = (mapRows g t).delete k := by
  funext k'
  unfold mapRows
  rw [delete_apply, delete_apply]
  split <;> rfl

omit [DecidableEq K] in
theorem mapRows_injective (hg : ∀ k, Function.Injective (g k)) :
    Function.Injective (mapRows g : Table K V → Table K W) := fun _ _ h =>
  funext fun k => Option.map_injective (hg k) (congrFun h k)

end

end Table
