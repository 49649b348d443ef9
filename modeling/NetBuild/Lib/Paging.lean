import Mathlib.Data.List.Forall2
import Mathlib.Order.WithBot

/-!
# Paged reads

Rows have places in a linear order, and a page is what there is to see between two marks. Pages
that follow on from one another show what is there in order and once, and where the rows change
between the pages they still show no place twice, and miss none where there was always a row.
-/

namespace Paging

variable {K R P : Type} [LinearOrder P]

/-- Before every place, at a place, after every place. -/
abbrev Mark (P : Type) := WithBot (WithTop P)

/-- The mark at a place. -/
def markAt (p : P) : Mark P := ((p : WithTop P) : WithBot (WithTop P))

/-- The rows between two marks, in order. -/
structure IsPage (place : K → P) (Shows : K → R → Prop) (lo hi : Mark P) (rows : List (K × R)) :
    Prop where
  sorted : rows.Pairwise fun r r' => place r.1 < place r'.1
  mem_iff : ∀ k row, (k, row) ∈ rows ↔ Shows k row ∧ lo < markAt (place k) ∧ markAt (place k) ≤ hi

/-- Pages that follow on from one another, from the first mark: what there was to see, the latest
first, the mark reached, and the rows. -/
inductive Walk (place : K → P) : List (K → R → Prop) → Mark P → List (K × R) → Prop
  | start (Shows : K → R → Prop) : Walk place [Shows] ⊥ []
  | change {seen : List (K → R → Prop)} {m : Mark P} {rows : List (K × R)}
      (before : Walk place seen m rows) (Shows : K → R → Prop) :
      Walk place (Shows :: seen) m rows
  | page {Shows : K → R → Prop} {seen : List (K → R → Prop)} {m m' : Mark P}
      {rows more : List (K × R)} (before : Walk place (Shows :: seen) m rows) (le : m ≤ m')
      (isPage : IsPage place Shows m m' more) : Walk place (Shows :: seen) m' (rows ++ more)

variable {place : K → P} {seen : List (K → R → Prop)} {m : Mark P} {rows : List (K × R)}

theorem Walk.le (h : Walk place seen m rows) : ∀ r ∈ rows, markAt (place r.1) ≤ m := by
  induction h with
  | start => exact fun r hr => absurd hr List.not_mem_nil
  | change _ _ ih => exact ih
  | page _ le isPage ih =>
    intro r hr
    rcases List.mem_append.mp hr with hr | hr
    · exact (ih r hr).trans le
    · exact ((isPage.mem_iff r.1 r.2).mp hr).2.2

/-- No place is shown twice, and the places are shown in order. -/
theorem Walk.sorted (h : Walk place seen m rows) :
    rows.Pairwise fun r r' => place r.1 < place r'.1 := by
  induction h with
  | start => exact List.Pairwise.nil
  | change _ _ ih => exact ih
  | page before _ isPage ih =>
    refine List.pairwise_append.mpr ⟨ih, isPage.sorted, fun r hr r' hr' => ?_⟩
    have hlt := (before.le r hr).trans_lt ((isPage.mem_iff r'.1 r'.2).mp hr').2.1
    exact WithTop.coe_lt_coe.mp (WithBot.coe_lt_coe.mp hlt)

/-- What is shown was there. -/
theorem Walk.shown (h : Walk place seen m rows) :
    ∀ r ∈ rows, ∃ Shows ∈ seen, Shows r.1 r.2 := by
  induction h with
  | start => exact fun r hr => absurd hr List.not_mem_nil
  | change _ _ ih =>
    intro r hr
    obtain ⟨S, hS, hshows⟩ := ih r hr
    exact ⟨S, List.mem_cons_of_mem _ hS, hshows⟩
  | page _ _ isPage ih =>
    intro r hr
    rcases List.mem_append.mp hr with hr | hr
    · exact ih r hr
    · exact ⟨_, List.mem_cons_self, ((isPage.mem_iff r.1 r.2).mp hr).1⟩

/-- What was always there is shown, once its place was passed. -/
theorem Walk.complete (h : Walk place seen m rows) {k : K} (hk : markAt (place k) ≤ m)
    (hthere : ∀ Shows ∈ seen, ∃ row, Shows k row) : ∃ row, (k, row) ∈ rows := by
  induction h with
  | start => exact absurd hk (not_le_of_gt (WithBot.bot_lt_coe _))
  | change _ _ ih => exact ih hk fun S hS => hthere S (List.mem_cons_of_mem _ hS)
  | @page Shows _ m _ _ _ _ _ isPage ih =>
    rcases le_or_gt (markAt (place k)) m with hle | hlt
    · obtain ⟨row, hrow⟩ := ih hle hthere
      exact ⟨row, List.mem_append_left _ hrow⟩
    · obtain ⟨row, hrow⟩ := hthere Shows List.mem_cons_self
      exact ⟨row, List.mem_append_right _ ((isPage.mem_iff k row).mpr ⟨hrow, hlt, hk⟩)⟩

end Paging
