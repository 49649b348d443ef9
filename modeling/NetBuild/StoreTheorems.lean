import NetBuild.Store

/-!
# Calls and reads

What one repository call does to a run, and what a read says about the table read.
-/

namespace NetBuild

open Prog (Run)

section
variable {ord : ReadOrder} {s s' : Store} {α : Type}

theorem run_request_iff {r : Req} {f : r.Resp → Client α} {o : Except PyError α} :
    Run (exec ord) s (.call r f) s' o ↔
      ∃ x, s.Answers ord r x ∧ Run (exec ord) (s.apply r) (f x) s' o := by
  rw [Prog.run_call_iff]
  refine ⟨fun h => ?_, fun h => ?_⟩
  · obtain ⟨x, _, ⟨hx, rfl⟩, h⟩ := h
    exact ⟨x, hx, h⟩
  · obtain ⟨x, hx, h⟩ := h
    exact ⟨x, _, ⟨hx, rfl⟩, h⟩

theorem cut_request_iff {W : Req → Prop} {r : Req} {f : r.Resp → Client α} :
    Prog.Cut (exec ord) W s (.call r f) s' ↔
      W r ∧ s' = s ∨ ∃ x, s.Answers ord r x ∧ Prog.Cut (exec ord) W (s.apply r) (f x) s' := by
  rw [Prog.cut_call_iff]
  refine or_congr_right ⟨fun h => ?_, fun h => ?_⟩
  · obtain ⟨x, _, ⟨hx, rfl⟩, h⟩ := h
    exact ⟨x, hx, h⟩
  · obtain ⟨x, hx, h⟩ := h
    exact ⟨x, _, ⟨hx, rfl⟩, h⟩

end

/-! ## Reads of a whole table -/

section
variable {K V : Type} {ord : K → K → Prop} {rows : List (K × V)} {t : Table K V}

theorem Lists.nodup (h : Lists ord rows t) : (rows.map Prod.fst).Nodup := h.enumerates.nodup

theorem Lists.mem_iff (h : Lists ord rows t) (k : K) (v : V) : (k, v) ∈ rows ↔ t k = some v :=
  h.enumerates.mem_iff k v

theorem Lists.mem_keys (h : Lists ord rows t) {k : K} :
    k ∈ rows.map Prod.fst ↔ (t k).isSome := h.enumerates.mem_keys

theorem Lists.eq_nil_iff (h : Lists ord rows t) : rows = [] ↔ t = Table.empty := by
  refine ⟨fun hr => Table.Enumerates.eq_empty (hr ▸ h.enumerates), fun ht => ?_⟩
  rw [List.eq_nil_iff_forall_not_mem]
  intro r hr
  have := (h.mem_iff r.1 r.2).mp hr
  rw [ht] at this
  exact nomatch this

/-- With a fixed order, two tables whose rows look the same are read as rows that look the same. -/
theorem Lists.map_eq {W : Type} {rows' : List (K × V)} {t' : Table K V} {f : V → W}
    (h : Lists ord rows t) (h' : Lists ord rows' t')
    (hord : ∀ k k', ord k k' → ord k' k → k = k') (ht : ∀ k, (t k).map f = (t' k).map f) :
    (rows.map fun r => (r.1, f r.2)) = rows'.map fun r => (r.1, f r.2) := by
  have hmem : ∀ {l : List (K × V)} {v : Table K V}, Lists ord l v → ∀ r : K × W,
      (r ∈ l.map fun r => (r.1, f r.2)) ↔ (v r.1).map f = some r.2 := by
    intro l v hl r
    rw [List.mem_map, Option.map_eq_some_iff]
    refine ⟨fun hr => ?_, fun hr => ?_⟩
    · obtain ⟨x, hx, rfl⟩ := hr
      exact ⟨x.2, (hl.mem_iff x.1 x.2).mp hx, rfl⟩
    · obtain ⟨x, hx, he⟩ := hr
      exact ⟨(r.1, x), (hl.mem_iff r.1 x).mpr hx, Prod.ext rfl he⟩
  have hnodup : ∀ {l : List (K × V)} {v : Table K V}, Lists ord l v →
      (l.map fun r => (r.1, f r.2)).Nodup := by
    intro l v hl
    apply List.Nodup.of_map Prod.fst
    rw [List.map_map]
    exact hl.nodup
  have hpair : ∀ {l : List (K × V)} {v : Table K V}, Lists ord l v →
      (l.map fun r => (r.1, f r.2)).Pairwise fun r r' => ord r.1 r'.1 := by
    intro l v hl
    exact List.pairwise_map.mpr (List.pairwise_map.mp hl.ordered)
  -- the same rows, both times in the order of their keys
  refine List.Perm.eq_of_pairwise (fun a b ha hb hab hba => ?_) (hpair h) (hpair h') ?_
  · have hk : a.1 = b.1 := hord _ _ hab hba
    rw [hmem h, hk, ht] at ha
    rw [hmem h', ha] at hb
    exact Prod.ext hk (Option.some.inj hb)
  · refine (List.perm_ext_iff_of_nodup (hnodup h) (hnodup h')).mpr fun r => ?_
    rw [hmem h, hmem h', ht]

/-- With a fixed order, one table is read in one way. -/
theorem Lists.eq {rows' : List (K × V)} (h : Lists ord rows t) (h' : Lists ord rows' t)
    (hord : ∀ k k', ord k k' → ord k' k → k = k') : rows = rows' := by
  have hmap := h.map_eq (f := id) h' hord fun _ => rfl
  simpa using hmap

end

end NetBuild
