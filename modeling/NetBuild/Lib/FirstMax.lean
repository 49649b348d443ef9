import Mathlib.Data.List.MinMax
import Mathlib.Data.List.Sort

/-!
# The first greatest of some elements

`firstMax p k l` is the first of the elements of `l` with the greatest key `k` among those that
satisfy `p`, with its index. It does not depend on the rest of the list: it is found again, under
another index, in any part of the list that keeps the elements that satisfy `p`, whatever is done
to the elements that leaves `p` and `k` as they are. And it is what is found first after the
elements are sorted by `k`, the greatest first.
-/

namespace List

variable {α β κ : Type} [LinearOrder κ]

/-! ## Replacing an element -/

/-- Replacing an element of a list, by the elements before and after it. -/
theorem exists_set_eq {l : List α} {i : ℕ} {x : α} (hx : l[i]? = some x) :
    ∃ pre post, l = pre ++ x :: post ∧ ∀ y, l.set i y = pre ++ y :: post := by
  obtain ⟨hi, rfl⟩ := getElem?_eq_some_iff.mp hx
  refine ⟨l.take i, l.drop (i + 1), ?_, fun y => ?_⟩
  · rw [getElem_cons_drop, take_append_drop]
  · rw [set_eq_take_append_cons_drop, if_pos hi]

theorem eq_or_mem_set {l : List α} {i : ℕ} {x y : α} (hx : l[i]? = some x) {z : α}
    (hz : z ∈ l) : z = x ∨ z ∈ l.set i y := by
  obtain ⟨pre, post, rfl, hset⟩ := exists_set_eq hx
  rw [hset]
  grind

theorem filter_set_of_false {q : α → Bool} {l : List α} {i : ℕ} {x y : α}
    (hx : l[i]? = some x) (hqx : q x = false) (hqy : q y = false) :
    (l.set i y).filter q = l.filter q := by
  obtain ⟨pre, post, rfl, hset⟩ := exists_set_eq hx
  rw [hset]
  simp [hqx, hqy]

theorem map_filter_set {q : α → Bool} {f : α → β} {l : List α} {i : ℕ} {x y : α}
    (hx : l[i]? = some x) (hqx : q x = true) (hqy : q y = true) (hf : f y = f x) :
    ((l.set i y).filter q).map f = (l.filter q).map f := by
  obtain ⟨pre, post, rfl, hset⟩ := exists_set_eq hx
  rw [hset]
  simp [hqx, hqy, hf]

/-! ## One more element -/

theorem min?_concat (l : List κ) (a : κ) : (l ++ [a]).min? = Option.merge min l.min? (some a) := by
  rcases l with _ | ⟨b, l⟩
  · rfl
  · rw [cons_append, min?_cons', min?_cons', foldl_append]
    rfl

theorem max?_concat (l : List κ) (a : κ) : (l ++ [a]).max? = Option.merge max l.max? (some a) := by
  rcases l with _ | ⟨b, l⟩
  · rfl
  · rw [cons_append, max?_cons', max?_cons', foldl_append]
    rfl

/-! ## The choice -/

/-- The first of the greatest elements that satisfy `p`, with its index. -/
def firstMax (p : α → Bool) (k : α → κ) (l : List α) : Option (α × ℕ) :=
  (l.zipIdx.filter fun x => p x.1).argmax fun x => k x.1

/-- One more element is chosen if it satisfies `p` and its key is greater than those before. -/
theorem firstMax_concat (p : α → Bool) (k : α → κ) (l : List α) (a : α) :
    firstMax p k (l ++ [a]) =
      if p a then
        match firstMax p k l with
        | none => some (a, l.length)
        | some x => if k x.1 < k a then some (a, l.length) else some x
      else firstMax p k l := by
  unfold firstMax
  rw [zipIdx_append, filter_append, zipIdx_singleton, Nat.zero_add]
  by_cases ha : p a
  · have hlast : [(a, l.length)].filter (fun x : α × ℕ => p x.1) = [(a, l.length)] :=
      filter_cons_of_pos ha
    rw [hlast, argmax_concat, if_pos ha]
    rcases argmax (fun x : α × ℕ => k x.1) (l.zipIdx.filter fun x => p x.1) with _ | x <;> rfl
  · have hlast : [(a, l.length)].filter (fun x : α × ℕ => p x.1) = [] := filter_cons_of_neg ha
    rw [hlast, append_nil, if_neg ha]

theorem firstMax_eq_none_iff {p : α → Bool} {k : α → κ} {l : List α} :
    firstMax p k l = none ↔ ∀ a ∈ l, p a = false := by
  unfold firstMax
  rw [argmax_eq_none, filter_eq_nil_iff]
  refine ⟨fun h a ha => ?_, fun h x hx => ?_⟩
  · obtain ⟨i, hi⟩ := getElem?_of_mem ha
    simpa using h (a, i) (mem_zipIdx_iff_getElem?.mpr hi)
  · simpa using h x.1 (mem_of_getElem? (mem_zipIdx_iff_getElem?.mp hx))

theorem firstMax_eq_some {p : α → Bool} {k : α → κ} {l : List α} {x : α × ℕ}
    (h : firstMax p k l = some x) : l[x.2]? = some x.1 ∧ p x.1 = true := by
  obtain ⟨hm, hp⟩ := mem_filter.mp (argmax_mem h)
  exact ⟨mem_zipIdx_iff_getElem?.mp hm, hp⟩

/-- No element that satisfies `p` has a greater key, and none before has the same. -/
theorem firstMax_greatest {p : α → Bool} {k : α → κ} {l : List α} {x : α × ℕ}
    (h : firstMax p k l = some x) {y : α} {j : ℕ} (hy : l[j]? = some y) (hp : p y = true) :
    k y ≤ k x.1 ∧ (j < x.2 → k y < k x.1) := by
  induction l using reverseRecOn generalizing x with
  | nil => exact nomatch h
  | append_singleton l a ih =>
    rw [firstMax_concat] at h
    rcases Nat.lt_or_ge j l.length with hj | hj
    · rw [getElem?_append_left hj] at hy
      -- an earlier element against the choice among the earlier ones
      rcases hl : firstMax p k l with _ | x'
      · have := firstMax_eq_none_iff.mp hl y (mem_of_getElem? hy)
        rw [hp] at this
        exact nomatch this
      · obtain ⟨hle, hlt⟩ := ih hl hy
        rw [hl] at h
        dsimp only at h
        split at h
        · split at h
          · next hgt =>
            obtain rfl := Option.some.inj h
            exact ⟨(hle.trans_lt hgt).le, fun _ => hle.trans_lt hgt⟩
          · obtain rfl := Option.some.inj h
            exact ⟨hle, hlt⟩
        · obtain rfl := Option.some.inj h
          exact ⟨hle, hlt⟩
    · rw [getElem?_append_right hj] at hy
      rw [getElem?_singleton] at hy
      split at hy
      · next hj0 =>
        obtain rfl := Option.some.inj hy
        rw [if_pos hp] at h
        -- the last element itself, which no choice comes after
        have hlast : ∀ {x : α × ℕ}, x.2 ≤ l.length → j < x.2 → k a < k x.1 := by
          intro x hx hlt
          omega
        rcases hl : firstMax p k l with _ | x'
        · rw [hl] at h
          obtain rfl := Option.some.inj h
          exact ⟨le_rfl, hlast le_rfl⟩
        · rw [hl] at h
          dsimp only at h
          split at h
          · obtain rfl := Option.some.inj h
            exact ⟨le_rfl, hlast le_rfl⟩
          · next hge =>
            obtain rfl := Option.some.inj h
            exact ⟨not_lt.mp hge, hlast (getElem?_eq_some_iff.mp (firstMax_eq_some hl).1).1.le⟩
      · exact nomatch hy

section
variable {p q : α → Bool} {k : α → κ} {p' : β → Bool} {k' : β → κ} {g : α → β}

/-- Where nothing is chosen, nothing is chosen in the part. -/
theorem firstMax_filter_map_none (hp : ∀ a, q a → p' (g a) = p a) {l : List α}
    (h : firstMax p k l = none) : firstMax p' k' ((l.filter q).map g) = none := by
  rw [firstMax_eq_none_iff] at h ⊢
  intro b hb
  obtain ⟨a, ha, rfl⟩ := mem_map.mp hb
  obtain ⟨ha, hq⟩ := mem_filter.mp ha
  rw [hp a hq, h a ha]

/-- The element chosen is chosen in the part too, and replacing it in the list replaces it
there. -/
theorem firstMax_filter_map_some (hpq : ∀ a, p a → q a) (hp : ∀ a, q a → p' (g a) = p a)
    (hk : ∀ a, k' (g a) = k a) {l : List α} {x : α × ℕ} (h : firstMax p k l = some x) :
    ∃ j, firstMax p' k' ((l.filter q).map g) = some (g x.1, j) ∧
      ∀ y, q y → ((l.set x.2 y).filter q).map g = ((l.filter q).map g).set j (g y) := by
  induction l using reverseRecOn generalizing x with
  | nil => exact nomatch h
  | append_singleton l a ih =>
    rw [firstMax_concat] at h
    -- a choice among the earlier elements stays one, and the last element is not touched
    have hearlier : firstMax p k l = some x → ∃ j,
        firstMax p' k' ((l.filter q).map g) = some (g x.1, j) ∧
          ∀ y, q y → (((l ++ [a]).set x.2 y).filter q).map g
            = (((l ++ [a]).filter q).map g).set j (g y) := by
      intro hx
      obtain ⟨j, hj, hset⟩ := ih hx
      refine ⟨j, hj, fun y hy => ?_⟩
      have hi : x.2 < l.length := (getElem?_eq_some_iff.mp (firstMax_eq_some hx).1).1
      have hj' : j < ((l.filter q).map g).length :=
        (getElem?_eq_some_iff.mp (firstMax_eq_some hj).1).1
      rw [set_append_left _ _ hi, filter_append, map_append, hset y hy, filter_append, map_append,
        set_append_left _ _ hj']
    by_cases ha : p a
    · have hqa := hpq a ha
      have hlast : ((l ++ [a]).filter q).map g = (l.filter q).map g ++ [g a] := by
        rw [filter_append, filter_cons_of_pos hqa, map_append]
        rfl
      have hpa : p' (g a) = true := (hp a hqa).trans ha
      -- the last element takes the last place of the part
      have hset : ∀ y, q y → (((l ++ [a]).set l.length y).filter q).map g
          = (((l ++ [a]).filter q).map g).set ((l.filter q).map g).length (g y) := by
        intro y hy
        rw [hlast, set_append_right _ _ le_rfl, set_append_right _ _ le_rfl, Nat.sub_self,
          Nat.sub_self, set_cons_zero, set_cons_zero, filter_append, filter_cons_of_pos hy,
          map_append]
        rfl
      rw [if_pos ha] at h
      rw [hlast, firstMax_concat, if_pos hpa, ← hlast]
      rcases hl : firstMax p k l with _ | x'
      · rw [hl] at h
        obtain rfl := Option.some.inj h
        rw [firstMax_filter_map_none hp hl]
        exact ⟨_, rfl, hset⟩
      · rw [hl] at h
        dsimp only at h
        obtain ⟨j, hj, -⟩ := ih hl
        rw [hj]
        dsimp only
        rw [hk, hk]
        split at h
        · next hlt =>
          obtain rfl := Option.some.inj h
          rw [if_pos hlt]
          exact ⟨_, rfl, hset⟩
        · next hge =>
          obtain rfl := Option.some.inj h
          rw [if_neg hge]
          obtain ⟨j', hj', hset'⟩ := hearlier hl
          rw [hj] at hj'
          obtain ⟨-, rfl⟩ := Prod.mk.inj (Option.some.inj hj')
          exact ⟨j, rfl, hset'⟩
    · rw [if_neg ha] at h
      obtain ⟨j, hj, hset⟩ := hearlier h
      refine ⟨j, ?_, hset⟩
      by_cases hqa : q a
      · have hpa : ¬ p' (g a) = true := by
          rw [hp a hqa]
          exact ha
        rw [filter_append, filter_cons_of_pos hqa, filter_nil, map_append, map_singleton,
          firstMax_concat, if_neg hpa, hj]
      · rw [filter_append, filter_cons_of_neg hqa, filter_nil, append_nil, hj]

end

/-! ## By sorting -/

theorem argmax_map (k : β → κ) (g : α → β) (l : List α) :
    (l.map g).argmax k = (l.argmax fun a => k (g a)).map g := by
  induction l with
  | nil => rfl
  | cons a l ih =>
    rw [map_cons, argmax_cons, argmax_cons, ih]
    rcases argmax (fun a => k (g a)) l with _ | c
    · rfl
    · dsimp only [Option.map_some]
      split
      · rfl
      · rfl

theorem map_fst_firstMax (p : α → Bool) (k : α → κ) (l : List α) :
    (firstMax p k l).map Prod.fst = (l.filter p).argmax k := by
  have hfilter : l.filter p = (l.zipIdx.filter fun x => p x.1).map Prod.fst := by
    rw [← zipIdx_map_fst 0 l, filter_map, zipIdx_map_fst]
    rfl
  rw [hfilter, argmax_map]
  rfl

section
variable {r : α → α → Prop} [DecidableRel r] {p : α → Bool} {k : α → κ}

/-- Where an element is inserted into a sorted list it is found before those that come after. -/
theorem find?_orderedInsert [IsTrans α r] {a : α} {l : List α} (hl : l.Pairwise r) :
    (l.orderedInsert r a).find? p =
      if p a then
        match l.find? p with
        | none => some a
        | some c => if r a c then some a else some c
      else l.find? p := by
  induction l with
  | nil =>
    rw [orderedInsert_nil, find?_singleton]
    rfl
  | cons b l ih =>
    obtain ⟨hb, hl⟩ := pairwise_cons.mp hl
    rw [orderedInsert_cons]
    split
    · next hab =>
      rw [find?_cons]
      split
      · next ha =>
        rw [if_pos ha]
        rcases hfind : (b :: l).find? p with _ | c
        · rfl
        · -- what is found comes after `b`, which comes after `a`
          have hac : r a c := by
            rcases mem_cons.mp (mem_of_find?_eq_some hfind) with rfl | hc
            · exact hab
            · exact IsTrans.trans a b c hab (hb c hc)
          dsimp only
          rw [if_pos hac]
      · next ha => rw [if_neg (by simp [ha])]
    · next hab =>
      by_cases hb : p b
      · rw [find?_cons_of_pos hb, find?_cons_of_pos hb]
        dsimp only
        rw [if_neg hab, ite_self]
      · rw [find?_cons_of_neg hb, find?_cons_of_neg hb]
        exact ih hl

/-- The first of the elements that satisfy `p`, after they are sorted by their keys, the greatest
first, is the first greatest of them. -/
theorem find?_insertionSort (hr : ∀ a b, r a b ↔ k b ≤ k a) (l : List α) :
    (l.insertionSort r).find? p = (firstMax p k l).map Prod.fst := by
  have : Std.Total r := ⟨fun a b => (le_total (k b) (k a)).imp (hr a b).mpr (hr b a).mpr⟩
  have : IsTrans α r :=
    ⟨fun a b c hab hbc => (hr a c).mpr (((hr b c).mp hbc).trans ((hr a b).mp hab))⟩
  rw [map_fst_firstMax]
  induction l with
  | nil => rfl
  | cons a l ih =>
    rw [insertionSort_cons, find?_orderedInsert (pairwise_insertionSort r l), ih]
    by_cases ha : p a
    · rw [if_pos ha, filter_cons_of_pos ha, argmax_cons]
      rcases argmax k (l.filter p) with _ | c
      · rfl
      · dsimp only
        by_cases hac : k a < k c
        · rw [if_neg fun h => absurd ((hr a c).mp h) (not_le.mpr hac), if_pos hac]
        · rw [if_pos ((hr a c).mpr (not_lt.mp hac)), if_neg hac]
    · rw [if_neg ha, filter_cons_of_neg ha]

end

end List
