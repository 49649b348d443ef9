import Mathlib.Data.List.Infix
import Mathlib.Data.List.TakeWhile

/-!
# Lists of words in one list

A list of words is kept in one list with a separator between them. Where the separator is in no
word, `splitOn` gives the words back, and a word is one of them exactly when the list, fenced by
separators, has the fenced word in it.
-/

namespace List

variable {α : Type} {sep : α}

/-- No part of a split list has the separator in it. -/
theorem notMem_of_mem_splitOn [DecidableEq α] {l n : List α} (h : n ∈ l.splitOn sep) : sep ∉ n := by
  induction l generalizing n with
  | nil =>
    rw [splitOn_nil, mem_singleton] at h
    rw [h]
    exact not_mem_nil
  | cons a l ih =>
    rw [splitOn_cons_eq_if_modifyHead] at h
    split at h
    · rcases mem_cons.mp h with rfl | h
      · exact not_mem_nil
      · exact ih h
    · next ha =>
      rcases hl : l.splitOn sep with _ | ⟨m, ms⟩
      · exact (splitOn_ne_nil _ _ hl).elim
      · rw [hl, modifyHead_cons] at h
        rcases mem_cons.mp h with rfl | h
        · have hm : sep ∉ m := ih (hl ▸ mem_cons_self)
          simp only [beq_iff_eq] at ha
          simp [hm, Ne.symm ha]
        · exact ih (hl ▸ mem_cons_of_mem _ h)

theorem intercalate_cons_eq (l : List α) (ls : List (List α)) :
    intercalate [sep] (l :: ls) = l ++ ls.flatMap (sep :: ·) := by
  induction ls generalizing l with
  | nil => simp
  | cons l' ls ih =>
    rw [intercalate_cons_cons, ih l', flatMap_cons]
    simp

/-- The words, each between two separators. -/
def fenced (sep : α) (ls : List (List α)) : List α := sep :: ls.flatMap (· ++ [sep])

theorem fenced_cons (l : List α) (ls : List (List α)) :
    fenced sep (l :: ls) = sep :: (l ++ fenced sep ls) := by
  unfold fenced
  simp

theorem fenced_eq {ls : List (List α)} (h : ls ≠ []) :
    fenced sep ls = sep :: (intercalate [sep] ls ++ [sep]) := by
  induction ls with
  | nil => exact absurd rfl h
  | cons l ls ih =>
    rcases ls with _ | ⟨l', ls⟩
    · simp [fenced]
    · rw [fenced_cons, ih (cons_ne_nil _ _), intercalate_cons_cons]
      simp

/-- A word that ends at the first separator is the one before it. -/
theorem eq_of_append_cons_eq [DecidableEq α] {n l u t : List α} (hn : sep ∉ n) (hl : sep ∉ l)
    (h : n ++ sep :: u = l ++ sep :: t) : n = l := by
  have htake : ∀ m v : List α, sep ∉ m → (m ++ sep :: v).takeWhile (· ≠ sep) = m := by
    intro m v hm
    rw [takeWhile_append_of_pos, takeWhile_cons_of_neg, append_nil]
    · simp
    · intro x hx
      simpa using ne_of_mem_of_not_mem hx hm
  rw [← htake n u hn, h, htake l t hl]

/-- What begins with a separator is not found before the first one. -/
theorem cons_infix_append_iff {p l t : List α} (hl : sep ∉ l) :
    sep :: p <:+: l ++ t ↔ sep :: p <:+: t := by
  refine ⟨fun h => ?_, fun h => h.trans (suffix_append _ _).isInfix⟩
  induction l with
  | nil => exact h
  | cons a l ih =>
    rw [mem_cons, not_or] at hl
    rw [cons_append, infix_cons_iff] at h
    rcases h with h | h
    · exact absurd (cons_prefix_cons.mp h).1 hl.1
    · exact ih hl.2 h

/-- Where the separator is in no word, a fenced word is found among the words exactly when it is
one of them. -/
theorem fenced_singleton_infix_iff [DecidableEq α] {n : List α} {ls : List (List α)} (hn : sep ∉ n)
    (hls : ∀ l ∈ ls, sep ∉ l) : fenced sep [n] <:+: fenced sep ls ↔ n ∈ ls := by
  have hone : fenced sep [n] = sep :: (n ++ [sep]) := by simp [fenced]
  rw [hone]
  induction ls with
  | nil =>
    refine ⟨fun h => ?_, fun h => absurd h not_mem_nil⟩
    have hlen := h.length_le
    simp [fenced] at hlen
  | cons l ls ih =>
    have hl := hls l mem_cons_self
    have hrest : sep :: (n ++ [sep]) <:+: fenced sep ls ↔ n ∈ ls :=
      ih fun m hm => hls m (mem_cons_of_mem _ hm)
    rw [fenced_cons, infix_cons_iff, cons_infix_append_iff hl, hrest, mem_cons]
    refine or_congr_left ⟨fun h => ?_, fun h => ?_⟩
    · obtain ⟨u, hu⟩ := (cons_prefix_cons.mp h).2
      refine eq_of_append_cons_eq (u := u) (t := ls.flatMap (· ++ [sep])) hn hl ?_
      rw [append_assoc] at hu
      exact hu
    · rw [h]
      exact cons_prefix_cons.mpr ⟨rfl, prefix_append_right_inj .. |>.mpr ⟨_, rfl⟩⟩

/-- A word is found in a list, both between separators, exactly when it is a part of the split
list. -/
theorem infix_iff_mem_splitOn [DecidableEq α] {n l : List α} (hn : sep ∉ n) :
    sep :: (n ++ [sep]) <:+: sep :: (l ++ [sep]) ↔ n ∈ l.splitOn sep := by
  have hone : fenced sep [n] = sep :: (n ++ [sep]) := by simp [fenced]
  have hall : fenced sep (l.splitOn sep) = sep :: (l ++ [sep]) := by
    rw [fenced_eq (splitOn_ne_nil _ _), intercalate_splitOn]
  rw [← hone, ← hall]
  exact fenced_singleton_infix_iff hn fun m hm => notMem_of_mem_splitOn hm

end List
