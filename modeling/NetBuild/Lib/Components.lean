import Mathlib.Logic.Relation
import Mathlib.Order.Basic
import Mathlib.Order.Bounds.Defs
import Mathlib.Order.Lattice

/-!
# Components tracked by labels

Some nodes of a growing graph carry a label. The labels track the components of the graph if
two labelled nodes have one label exactly when they are linked. Three operations keep this: new
nodes with labels of their own, an edge between nodes of one label, and an edge between nodes of
two labels one of which then replaces the other. If always the smaller one stays, every label
is the least of those the nodes of its component were born with.
-/

namespace Labelling

open Relation (EqvGen)

variable {V ℓ : Type} {E E' : V → V → Prop} {L L' B B' : V → Option ℓ} {a b : V}

/-- The labels are those of the components of the graph `E`, whose edges are between labelled
nodes. -/
structure Tracks (E : V → V → Prop) (L : V → Option ℓ) : Prop where
  edge : ∀ a b, E a b → L a = L b ∧ L a ≠ none
  linked : ∀ a b l, L a = some l → L b = some l → EqvGen E a b

/-- Nodes of one label are linked. -/
def Linked (E : V → V → Prop) (L : V → Option ℓ) : Prop :=
  ∀ a b l, L a = some l → L b = some l → EqvGen E a b

/-- New nodes have labels no other node has, and the others keep theirs. -/
structure Grows (L L' : V → Option ℓ) : Prop where
  kept : ∀ a l, L a = some l → L' a = some l
  fresh : ∀ a b l, L a = none → L' a = some l → L' b = some l → b = a

/-- Every node labelled `hi` gets the label `lo`. -/
def relabel [DecidableEq ℓ] (L : V → Option ℓ) (hi lo : ℓ) : V → Option ℓ := fun a =>
  if L a = some hi then some lo else L a

/-- The graph with one more edge. -/
def addEdge (E : V → V → Prop) (a b : V) : V → V → Prop := fun x y => E x y ∨ x = a ∧ y = b

/-- One of the two nodes is labelled `hi` and the other one `lo`. -/
def Ends (L : V → Option ℓ) (a b : V) (hi lo : ℓ) : Prop :=
  L a = some hi ∧ L b = some lo ∨ L a = some lo ∧ L b = some hi

/-- Each label is the least one of those its nodes were born with. -/
structure Least [LE ℓ] (B L : V → Option ℓ) : Prop where
  attained : ∀ a l, L a = some l → ∃ b, L b = some l ∧ B b = some l
  le : ∀ a l l', L a = some l → B a = some l' → l ≤ l'

/-! ## Linked nodes -/

theorem Tracks.eq_of_linked (h : Tracks E L) (hab : EqvGen E a b) : L a = L b := by
  induction hab with
  | rel a b hab => exact (h.edge a b hab).1
  | refl => rfl
  | symm _ _ _ ih => exact ih.symm
  | trans _ _ _ _ _ ih ih' => exact ih.trans ih'

/-- Two labelled nodes have one label exactly when they are linked. -/
theorem Tracks.label_eq_iff (h : Tracks E L) {la lb : ℓ} (ha : L a = some la)
    (hb : L b = some lb) : la = lb ↔ EqvGen E a b := by
  refine ⟨fun he => h.linked a b lb (by rw [ha, he]) hb, fun hab => ?_⟩
  have := h.eq_of_linked hab
  rw [ha, hb] at this
  exact Option.some.inj this

theorem Tracks.of_iff (h : Tracks E L) (he : ∀ a b, E' a b ↔ E a b) : Tracks E' L := by
  have : E' = E := funext fun a => funext fun b => propext (he a b)
  rwa [this]

/-! ## Growth -/

theorem Grows.refl (L : V → Option ℓ) : Grows L L := by
  refine ⟨fun _ _ h => h, fun a b l hnone hsome => ?_⟩
  rw [hnone] at hsome
  exact nomatch hsome

theorem Grows.trans {L'' : V → Option ℓ} (h : Grows L L') (h' : Grows L' L'') : Grows L L'' := by
  refine ⟨fun a l hl => h'.kept a l (h.kept a l hl), fun a b l hnone ha hb => ?_⟩
  rcases hLa : L' a with _ | la
  · exact h'.fresh a b l hLa ha hb
  · have hla := (h'.kept a la hLa).symm.trans ha
    rw [hla] at hLa
    rcases hLb : L' b with _ | lb
    · exact (h'.fresh b a l hLb hb ha).symm
    · have hlb := (h'.kept b lb hLb).symm.trans hb
      rw [hlb] at hLb
      exact h.fresh a b l hnone hLa hLb

/-- A node labelled like one that was labelled before was labelled like it before. -/
theorem Grows.of_eq (h : Grows L L') {l : ℓ} (ha : L a = some l) (hb : L' b = some l) :
    L b = some l := by
  rcases hLb : L b with _ | lb
  · have := h.fresh b a l hLb hb (h.kept a l ha)
    rw [this, hLb] at ha
    exact nomatch ha
  · exact (h.kept b lb hLb).symm.trans hb

theorem Linked.grows (h : Linked E L) (hg : Grows L L') : Linked E L' := by
  intro a b l ha hb
  rcases hLa : L a with _ | la
  · rw [hg.fresh a b l hLa ha hb]
    exact .refl a
  · rcases hLb : L b with _ | lb
    · rw [hg.fresh b a l hLb hb ha]
      exact .refl b
    · have hla := (hg.kept a la hLa).symm.trans ha
      have hlb := (hg.kept b lb hLb).symm.trans hb
      rw [hla] at hLa
      rw [hlb] at hLb
      exact h a b l hLa hLb

theorem Linked.mono (h : Linked E L) (hE : ∀ a b, E a b → E' a b) : Linked E' L :=
  fun a b l ha hb => Relation.EqvGen.mono hE a b (h a b l ha hb)

theorem Tracks.grows (h : Tracks E L) (hg : Grows L L') : Tracks E L' := by
  have hlinked : Linked E L := h.linked
  refine ⟨fun a b hab => ?_, hlinked.grows hg⟩
  obtain ⟨he, hne⟩ := h.edge a b hab
  obtain ⟨l, hl⟩ := Option.ne_none_iff_exists'.mp hne
  rw [hg.kept a l hl, hg.kept b l (he ▸ hl)]
  exact ⟨rfl, Option.some_ne_none l⟩

/-- Nodes born between `L` and `L'` are born with their label in `L'`. -/
theorem Least.grows [Preorder ℓ] (h : Least B L) (hg : Grows L L')
    (hold : ∀ a, L a ≠ none → B' a = B a) (hnew : ∀ a, L a = none → B' a = L' a) :
    Least B' L' := by
  refine ⟨fun a l ha => ?_, fun a l l' ha hb => ?_⟩
  · rcases hLa : L a with _ | la
    · exact ⟨a, ha, (hnew a hLa).trans ha⟩
    · have hla := (hg.kept a la hLa).symm.trans ha
      rw [hla] at hLa
      obtain ⟨b, hLb, hBb⟩ := h.attained a l hLa
      refine ⟨b, hg.kept b l hLb, (hold b ?_).trans hBb⟩
      rw [hLb]
      exact Option.some_ne_none l
  · rcases hLa : L a with _ | la
    · rw [hnew a hLa, ha] at hb
      exact (Option.some.inj hb).le
    · have hla := (hg.kept a la hLa).symm.trans ha
      rw [hla] at hLa
      rw [hold a (hLa ▸ Option.some_ne_none l)] at hb
      exact h.le a l l' hLa hb

/-! ## A new edge -/

theorem Tracks.addEdge (h : Tracks E L) (hab : L a = L b) (hne : L a ≠ none) :
    Tracks (addEdge E a b) L := by
  refine ⟨fun x y hxy => ?_, fun x y l hx hy => ?_⟩
  · rcases hxy with hxy | ⟨rfl, rfl⟩
    · exact h.edge x y hxy
    · exact ⟨hab, hne⟩
  · exact Relation.EqvGen.mono (fun _ _ => Or.inl) _ _ (h.linked x y l hx hy)

section
variable [DecidableEq ℓ] {hi lo : ℓ}

omit [DecidableEq ℓ] in
/-- Two labels are the greater and the smaller one, one way or the other. -/
theorem ends_max_min [LinearOrder ℓ] {x y : ℓ} (ha : L a = some x) (hb : L b = some y) :
    Ends L a b (max x y) (min x y) := by
  unfold Ends
  rw [ha, hb]
  rcases le_total x y with hle | hle
  · right
    rw [min_eq_left hle, max_eq_right hle]
    exact ⟨rfl, rfl⟩
  · left
    rw [min_eq_right hle, max_eq_left hle]
    exact ⟨rfl, rfl⟩

omit [DecidableEq ℓ] in
theorem Ends.exists_lo (h : Ends L a b hi lo) : ∃ c, L c = some lo := by
  rcases h with ⟨-, hc⟩ | ⟨hc, -⟩
  · exact ⟨b, hc⟩
  · exact ⟨a, hc⟩

omit [DecidableEq ℓ] in
theorem Ends.label_eq_iff (h : Ends L a b hi lo) (x : V) :
    L x = L a ∨ L x = L b ↔ L x = some hi ∨ L x = some lo := by
  rcases h with ⟨ha, hb⟩ | ⟨ha, hb⟩
  · rw [ha, hb]
  · rw [ha, hb, or_comm]

theorem relabel_of_eq (ha : L a = some hi) : relabel L hi lo a = some lo := if_pos ha

theorem relabel_of_ne (ha : L a ≠ some hi) : relabel L hi lo a = L a := if_neg ha

theorem relabel_eq_lo_iff {x : V} :
    relabel L hi lo x = some lo ↔ L x = some hi ∨ L x = some lo := by
  by_cases hx : L x = some hi
  · rw [relabel_of_eq hx]
    exact iff_of_true rfl (.inl hx)
  · rw [relabel_of_ne hx, or_iff_right hx]

omit [DecidableEq ℓ] in
/-- Nodes of two labels joined by an edge may take one of the labels for the other. -/
theorem Linked.moves (h : Linked E L) (hab : Ends L a b hi lo)
    (hm : ∀ x, L' x = L x ∨ L x = some hi ∧ L' x = some lo) :
    Linked (Labelling.addEdge E a b) L' := by
  have hmono : ∀ x y, EqvGen E x y → EqvGen (Labelling.addEdge E a b) x y := fun x y =>
    Relation.EqvGen.mono (fun _ _ => Or.inl) x y
  -- a node of either label is linked to the end of the new edge that has it
  have hend : ∀ x, L x = some hi ∨ L x = some lo → EqvGen (Labelling.addEdge E a b) x a := by
    have hedge : EqvGen (Labelling.addEdge E a b) b a := .symm _ _ (.rel _ _ (Or.inr ⟨rfl, rfl⟩))
    intro x hx
    rcases hab with ⟨ha, hb⟩ | ⟨ha, hb⟩
    · rcases hx with hx | hx
      · exact hmono x a (h x a hi hx ha)
      · exact .trans _ _ _ (hmono x b (h x b lo hx hb)) hedge
    · rcases hx with hx | hx
      · exact .trans _ _ _ (hmono x b (h x b hi hx hb)) hedge
      · exact hmono x a (h x a lo hx ha)
  have hcases : ∀ x l, L' x = some l → L x = some l ∨ l = lo ∧ L x = some hi := by
    intro x l hx
    rcases hm x with he | ⟨hhi, hlo⟩
    · exact .inl (he ▸ hx)
    · exact .inr ⟨Option.some.inj (hx.symm.trans hlo), hhi⟩
  intro x y l hx hy
  rcases hcases x l hx with hLx | ⟨rfl, hLx⟩
  · rcases hcases y l hy with hLy | ⟨rfl, hLy⟩
    · exact hmono x y (h x y l hLx hLy)
    · exact .trans _ _ _ (hend x (.inr hLx)) (.symm _ _ (hend y (.inl hLy)))
  · have hLy : L y = some hi ∨ L y = some l := (hcases y l hy).elim .inr fun h => .inl h.2
    exact .trans _ _ _ (hend x (.inl hLx)) (.symm _ _ (hend y hLy))

/-- An edge between the nodes of two labels makes one component of theirs. -/
theorem Tracks.relabel (h : Tracks E L) (hab : Ends L a b hi lo) :
    Tracks (Labelling.addEdge E a b) (relabel L hi lo) := by
  have hends : Labelling.relabel L hi lo a = some lo ∧ Labelling.relabel L hi lo b = some lo := by
    rw [relabel_eq_lo_iff, relabel_eq_lo_iff]
    rcases hab with ⟨ha, hb⟩ | ⟨ha, hb⟩
    · exact ⟨.inl ha, .inr hb⟩
    · exact ⟨.inr ha, .inl hb⟩
  have hlinked : Linked E L := h.linked
  refine ⟨fun x y hxy => ?_, hlinked.moves hab fun x => ?_⟩
  · rcases hxy with hxy | ⟨rfl, rfl⟩
    · obtain ⟨he, hne⟩ := h.edge x y hxy
      unfold Labelling.relabel
      rw [← he]
      refine ⟨rfl, ?_⟩
      split
      · exact Option.some_ne_none lo
      · exact hne
    · rw [hends.1, hends.2]
      exact ⟨rfl, Option.some_ne_none lo⟩
  · by_cases hx : L x = some hi
    · exact .inr ⟨hx, relabel_of_eq hx⟩
    · exact .inl (relabel_of_ne hx)

/-- When the smaller label replaces the greater one, it is the least one of both components. -/
theorem Least.relabel [LinearOrder ℓ] (h : Least B L) (hlt : lo < hi) (hlo : L a = some lo) :
    Least B (relabel L hi lo) := by
  refine ⟨fun x l hx => ?_, fun x l l' hx hb => ?_⟩
  · have hlx : ∃ y, L y = some l ∧ l ≠ hi := by
      by_cases hxi : L x = some hi
      · rw [relabel_of_eq hxi] at hx
        obtain rfl := Option.some.inj hx
        exact ⟨a, hlo, hlt.ne⟩
      · rw [relabel_of_ne hxi] at hx
        exact ⟨x, hx, fun he => hxi (he ▸ hx)⟩
    obtain ⟨y, hy, hne⟩ := hlx
    obtain ⟨b, hLb, hBb⟩ := h.attained y l hy
    refine ⟨b, ?_, hBb⟩
    rw [relabel_of_ne (by rw [hLb]; exact fun he => hne (Option.some.inj he)), hLb]
  · by_cases hxi : L x = some hi
    · rw [relabel_of_eq hxi] at hx
      obtain rfl := Option.some.inj hx
      exact hlt.le.trans (h.le x hi l' hxi hb)
    · rw [relabel_of_ne hxi] at hx
      exact h.le x l l' hx hb

end

/-- The label of a node is the least one its component was born with. -/
theorem Least.isLeast [Preorder ℓ] (h : Least B L) (ht : Tracks E L) {l : ℓ}
    (ha : L a = some l) : IsLeast {l' | ∃ b, EqvGen E a b ∧ B b = some l'} l := by
  refine ⟨?_, fun l' hl' => ?_⟩
  · obtain ⟨b, hLb, hBb⟩ := h.attained a l ha
    exact ⟨b, ht.linked a b l ha hLb, hBb⟩
  · obtain ⟨b, hab, hBb⟩ := hl'
    exact h.le b l l' ((ht.eq_of_linked hab).symm.trans ha) hBb

end Labelling
