import Mathlib.Data.List.Infix
import Mathlib.Data.List.TakeWhile

/-!
# Splitting at a word

`splitWord sep s` cuts a list wherever a separator of several elements occurs, from the left and
without overlaps. What was joined with the separator comes apart again when the separator occurs
in the joined list only where it was put; that depends on each part with the separator after it,
since a part may end in what the separator begins with.
-/

namespace List

variable {α : Type} {sep : List α}

theorem not_infix_dropLast (hsep : sep ≠ []) : ¬ sep <:+: sep.dropLast := by
  intro h
  have hlen := h.length_le
  have hpos := length_pos_iff.mpr hsep
  rw [length_dropLast] at hlen
  omega

theorem isPrefix_append_dropLast (hsep : sep ≠ []) (w s : List α) :
    w ++ sep.dropLast <+: w ++ (sep ++ s) := by
  refine ⟨sep.getLast hsep :: s, ?_⟩
  rw [append_assoc, append_cons, dropLast_append_getLast]

variable [DecidableEq α]

/-- Skip so many elements, then cut at the separator. -/
def splitWordAux (sep : List α) : ℕ → List α → List (List α)
  | _, [] => [[]]
  | n + 1, _ :: s => splitWordAux sep n s
  | 0, c :: s =>
    if sep <+: c :: s then [] :: splitWordAux sep (sep.length - 1) s
    else (splitWordAux sep 0 s).modifyHead (c :: ·)

/-- The parts of a list between the occurrences of a separator, leftmost first. -/
def splitWord (sep s : List α) : List (List α) := splitWordAux sep 0 s

theorem splitWordAux_eq (n : ℕ) (s : List α) : splitWordAux sep n s = splitWord sep (s.drop n) := by
  induction s generalizing n with
  | nil => cases n <;> rfl
  | cons c s ih =>
    cases n with
    | zero => rfl
    | succ n => exact ih n

/-! ## One step -/

theorem splitWord_sep_append (hsep : sep ≠ []) (s : List α) :
    splitWord sep (sep ++ s) = [] :: splitWord sep s := by
  rcases sep with _ | ⟨a, sep⟩
  · exact absurd rfl hsep
  · have hp : a :: sep <+: a :: (sep ++ s) := prefix_append (a :: sep) s
    rw [splitWord, cons_append, splitWordAux, if_pos hp, splitWordAux_eq, length_cons,
      Nat.add_sub_cancel, drop_left]

theorem splitWord_cons {c : α} {s : List α} (h : ¬ sep <+: c :: s) :
    splitWord sep (c :: s) = (splitWord sep s).modifyHead (c :: ·) := by
  rw [splitWord, splitWordAux, if_neg h, splitWord]

/-- A list without the separator is one part. -/
theorem splitWord_of_not_infix {s : List α} (h : ¬ sep <:+: s) : splitWord sep s = [s] := by
  induction s with
  | nil => rfl
  | cons c s ih =>
    have hs : ¬ sep <:+: s := fun hs => h (infix_cons hs)
    rw [splitWord_cons fun hp => h hp.isInfix, ih hs]
    rfl

/-- The separator occurs first where it was put, after a part that does not make one with it. -/
theorem splitWord_append (hsep : sep ≠ []) {w : List α} (hw : ¬ sep <:+: w ++ sep.dropLast)
    (s : List α) : splitWord sep (w ++ (sep ++ s)) = w :: splitWord sep s := by
  induction w with
  | nil => exact splitWord_sep_append hsep s
  | cons c w ih =>
    have hstart : ¬ sep <+: c :: (w ++ (sep ++ s)) := by
      intro hp
      -- a separator that starts here ends before the last element of the one that was put
      have hlong : c :: w ++ sep.dropLast <+: c :: (w ++ (sep ++ s)) :=
        isPrefix_append_dropLast hsep (c :: w) s
      have hlen : sep.length ≤ (c :: w ++ sep.dropLast).length := by
        simp only [length_append, length_cons, length_dropLast]
        omega
      exact hw (prefix_of_prefix_length_le hp hlong hlen).isInfix
    have hw' : ¬ sep <:+: w ++ sep.dropLast := fun hin => hw (infix_cons hin)
    rw [cons_append, splitWord_cons hstart, ih hw']
    rfl

/-! ## Joined lists -/

/-- Parts that make no separator with the one after them come apart as they were joined. -/
theorem splitWord_intercalate (hsep : sep ≠ []) {ws : List (List α)} {last : List α}
    (hws : ∀ w ∈ ws, ¬ sep <:+: w ++ sep.dropLast) (hlast : ¬ sep <:+: last) :
    splitWord sep (sep.intercalate (ws ++ [last])) = ws ++ [last] := by
  induction ws with
  | nil =>
    rw [nil_append, intercalate_singleton]
    exact splitWord_of_not_infix hlast
  | cons w ws ih =>
    have hne : ws ++ [last] ≠ [] := by simp
    rw [cons_append, intercalate_cons_of_ne_nil hne, append_assoc,
      splitWord_append hsep (hws w mem_cons_self),
      ih fun w' hw' => hws w' (mem_cons_of_mem w hw')]

/-! ## Lists with the separator in them -/

/-- A list with the separator in it has a first one. -/
theorem exists_first_infix (hsep : sep ≠ []) {s : List α} (h : sep <:+: s) :
    ∃ w t, s = w ++ (sep ++ t) ∧ ¬ sep <:+: w ++ sep.dropLast := by
  induction s with
  | nil => exact absurd (infix_nil.mp h) hsep
  | cons c s ih =>
    by_cases hp : sep <+: c :: s
    · obtain ⟨t, ht⟩ := hp
      exact ⟨[], t, ht.symm, not_infix_dropLast hsep⟩
    · obtain ⟨w, t, rfl, hw⟩ := ih ((infix_cons_iff.mp h).resolve_left hp)
      refine ⟨c :: w, t, rfl, fun hin => ?_⟩
      rcases infix_cons_iff.mp hin with hpre | hin
      · exact hp (hpre.trans (isPrefix_append_dropLast hsep (c :: w) t))
      · exact hw hin

theorem splitWord_ne_nil (sep s : List α) : splitWord sep s ≠ [] := by
  induction s with
  | nil => exact cons_ne_nil _ _
  | cons c s ih =>
    rw [splitWord, splitWordAux]
    split
    · exact cons_ne_nil _ _
    · rw [← length_pos_iff, length_modifyHead]
      exact length_pos_iff.mpr ih

/-- A list with the separator in it comes apart. -/
theorem two_le_length_splitWord (hsep : sep ≠ []) {s : List α} (h : sep <:+: s) :
    2 ≤ (splitWord sep s).length := by
  obtain ⟨w, t, rfl, hw⟩ := exists_first_infix hsep h
  have hpos := length_pos_iff.mpr (splitWord_ne_nil sep t)
  rw [splitWord_append hsep hw, length_cons]
  omega

end List
