import Mathlib.Data.List.Forall2

/-!
# Loops that may raise

A loop over a list whose body may raise is a `foldlM` or a `mapM` in `Except`. Its results are
reasoned about one round at a time: the rule for `foldlM` carries an invariant that may speak
of the part of the list already consumed, the rule for `mapM` pairs every element with its
result. Loops that always end well are compared with what they are to show, at every point.
-/

namespace Except

variable {ε α β σ : Type}

/-- A sequence of two steps ends well exactly when both do. -/
theorem bind_eq_ok_iff {x : Except ε α} {f : α → Except ε β} {b : β} :
    (x >>= f) = .ok b ↔ ∃ a, x = .ok a ∧ f a = .ok b := by
  rcases x with e | a
  · refine ⟨fun h => ?_, fun h => ?_⟩
    · exact nomatch h
    · obtain ⟨a, ha, -⟩ := h
      exact nomatch ha
  · refine ⟨fun h => ⟨a, rfl, h⟩, fun h => ?_⟩
    obtain ⟨a', ha, h⟩ := h
    obtain rfl := Except.ok.inj ha
    exact h

/-- A mapped result was a result. -/
theorem map_eq_ok_iff {x : Except ε α} {f : α → β} {b : β} :
    x.map f = .ok b ↔ ∃ a, x = .ok a ∧ f a = b := by
  rcases x with e | a
  · refine ⟨fun h => ?_, fun h => ?_⟩
    · exact nomatch h
    · obtain ⟨a, ha, -⟩ := h
      exact nomatch ha
  · refine ⟨fun h => ⟨a, rfl, Except.ok.inj h⟩, fun h => ?_⟩
    obtain ⟨a', ha, rfl⟩ := h
    rw [Except.ok.inj ha]
    rfl

/-- A loop keeps an invariant that each of its rounds keeps. The invariant may mention the
elements consumed so far. -/
theorem foldlM_invariant {P : List α → σ → Prop} {f : σ → α → Except ε σ} {l : List α}
    (hstep : ∀ pre a post s s', l = pre ++ a :: post → P pre s → f s a = .ok s' →
      P (pre ++ [a]) s')
    {s s' : σ} (h : l.foldlM f s = .ok s') (hs : P [] s) : P l s' := by
  -- the consumed part grows by one element per round
  suffices H : ∀ post pre s, l = pre ++ post → P pre s → post.foldlM f s = .ok s' → P l s' from
    H l [] s rfl hs h
  intro post
  induction post with
  | nil =>
    intro pre s hl hP h
    obtain rfl := Except.ok.inj h
    rw [hl, List.append_nil]
    exact hP
  | cons a post ih =>
    intro pre s hl hP h
    rw [List.foldlM_cons, bind_eq_ok_iff] at h
    obtain ⟨t, ht, h⟩ := h
    refine ih (pre ++ [a]) t ?_ (hstep pre a post s t hl hP ht) h
    rw [hl, List.append_assoc, List.singleton_append]

/-- Two loops show the same, where each round of the one shows the same as that of the other from
states that do. The rounds may rely on an invariant of the first loop. -/
theorem foldlM_map_congr {τ ρ : Type} {P : List α → σ → Prop} {f : σ → α → Except ε σ}
    {g : τ → α → Except ε τ} {π : σ → ρ} {π' : τ → ρ} {l : List α}
    (hinv : ∀ pre a post s s', l = pre ++ a :: post → P pre s → f s a = .ok s' → P (pre ++ [a]) s')
    (hstep : ∀ pre a post s t, l = pre ++ a :: post → P pre s → π s = π' t →
      (f s a).map π = (g t a).map π')
    {s : σ} {t : τ} (hs : P [] s) (hst : π s = π' t) :
    (l.foldlM f s).map π = (l.foldlM g t).map π' := by
  -- over the elements still to go, the ones before them kept for the invariant
  suffices H : ∀ post pre s t, l = pre ++ post → P pre s → π s = π' t →
      (post.foldlM f s).map π = (post.foldlM g t).map π' from H l [] s t rfl hs hst
  intro post
  induction post with
  | nil =>
    intro pre s t _ _ hst
    exact congrArg Except.ok hst
  | cons a post ih =>
    intro pre s t hl hP hst
    have hround := hstep pre a post s t hl hP hst
    rw [List.foldlM_cons, List.foldlM_cons]
    rcases hf : f s a with e | s'
    · rw [hf] at hround
      rcases hg : g t a with e' | t'
      · rw [hg] at hround
        exact congrArg Except.error (Except.error.inj hround)
      · rw [hg] at hround
        exact nomatch hround
    · rw [hf] at hround
      rcases hg : g t a with e' | t'
      · rw [hg] at hround
        exact nomatch hround
      · rw [hg] at hround
        refine ih (pre ++ [a]) s' t' ?_ (hinv pre a post s s' hl hP hf) (Except.ok.inj hround)
        rw [hl, List.append_assoc, List.singleton_append]

/-- A loop that collects results pairs each element with its result. -/
theorem mapM_eq_ok_iff {f : α → Except ε β} {l : List α} {bs : List β} :
    l.mapM f = .ok bs ↔ List.Forall₂ (fun a b => f a = .ok b) l bs := by
  induction l generalizing bs with
  | nil =>
    rw [List.mapM_nil, List.forall₂_nil_left_iff]
    exact ⟨fun h => (Except.ok.inj h).symm, fun h => h ▸ rfl⟩
  | cons a l ih =>
    rw [List.mapM_cons, bind_eq_ok_iff]
    refine ⟨fun h => ?_, fun h => ?_⟩
    · obtain ⟨b, hb, h⟩ := h
      obtain ⟨bs', hbs, h⟩ := bind_eq_ok_iff.mp h
      obtain rfl := Except.ok.inj h
      exact .cons hb (ih.mp hbs)
    · rcases h with - | ⟨hb, hbs⟩
      exact ⟨_, hb, bind_eq_ok_iff.mpr ⟨_, ih.mpr hbs, rfl⟩⟩

end Except

/-- The results of a loop whose rounds can only give what `g` gives. -/
theorem List.Forall₂.eq_map {α β : Type} {R : α → β → Prop} {g : α → β} {l : List α} {bs : List β}
    (h : List.Forall₂ R l bs) (hg : ∀ a ∈ l, ∀ b, R a b → b = g a) : bs = l.map g := by
  induction h with
  | nil => rfl
  | cons hab _ ih =>
    rw [hg _ List.mem_cons_self _ hab, List.map_cons,
      ih fun a ha => hg a (List.mem_cons_of_mem _ ha)]

/-- Each result comes from an element. -/
theorem List.Forall₂.exists_of_mem_right {α β : Type} {R : α → β → Prop} {l : List α}
    {bs : List β} (h : List.Forall₂ R l bs) {b : β} (hb : b ∈ bs) : ∃ a ∈ l, R a b := by
  induction h with
  | nil => exact absurd hb List.not_mem_nil
  | cons hab _ ih =>
    rcases List.mem_cons.mp hb with rfl | hb
    · exact ⟨_, List.mem_cons_self, hab⟩
    · obtain ⟨a, ha, hab⟩ := ih hb
      exact ⟨a, List.mem_cons_of_mem _ ha, hab⟩

/-- Each element has a result. -/
theorem List.Forall₂.exists_of_mem_left {α β : Type} {R : α → β → Prop} {l : List α}
    {bs : List β} (h : List.Forall₂ R l bs) {a : α} (ha : a ∈ l) : ∃ b ∈ bs, R a b :=
  h.flip.exists_of_mem_right ha

/-- What the elements and their results have in common. -/
theorem List.Forall₂.map_eq_map {α β γ : Type} {R : α → β → Prop} {f : α → γ} {g : β → γ}
    {l : List α} {bs : List β} (h : List.Forall₂ R l bs) (hfg : ∀ a b, R a b → f a = g b) :
    l.map f = bs.map g := by
  induction h with
  | nil => rfl
  | cons hab _ ih => rw [List.map_cons, List.map_cons, hfg _ _ hab, ih]

/-- An element of a list with one more at its end is that one or one before it. -/
theorem List.concat_eq_split {α : Type} {l pre post : List α} {a b : α}
    (h : l ++ [b] = pre ++ a :: post) :
    (pre = l ∧ a = b) ∨ ∃ post', l = pre ++ a :: post' := by
  rcases List.eq_nil_or_concat' post with rfl | ⟨post', x, rfl⟩
  · obtain ⟨h1, h2⟩ := List.append_inj' h rfl
    exact .inl ⟨h1.symm, (List.cons.inj h2).1.symm⟩
  · rw [← List.cons_append, ← List.append_assoc] at h
    exact .inr ⟨post', (List.append_inj' h rfl).1⟩

/-- Of two elements of a list one is before the other, or they are the same one. -/
theorem List.split_trichotomy {α : Type} {pre post pre' post' : List α} {a b : α}
    (h : pre ++ a :: post = pre' ++ b :: post') :
    (pre = pre' ∧ a = b) ∨ (∃ mid, pre' = pre ++ a :: mid) ∨ ∃ mid, pre = pre' ++ b :: mid := by
  rcases List.append_eq_append_iff.mp h with ⟨mid, hpre, hpost⟩ | ⟨mid, hpre, hpost⟩
  · rcases mid with _ | ⟨x, mid⟩
    · exact .inl ⟨(List.append_nil pre ▸ hpre).symm, (List.cons.inj hpost).1⟩
    · obtain ⟨rfl, -⟩ := List.cons.inj hpost
      exact .inr (.inl ⟨mid, hpre⟩)
  · rcases mid with _ | ⟨x, mid⟩
    · exact .inl ⟨List.append_nil pre' ▸ hpre, (List.cons.inj hpost).1.symm⟩
    · obtain ⟨rfl, -⟩ := List.cons.inj hpost
      exact .inr (.inr ⟨mid, hpre⟩)

/-- A run shows what its specification shows, at every point, exactly when each step meets the
condition under which one step does. The condition may rely on what such steps keep. -/
theorem List.foldl_view_eq_iff {α σ τ : Type} {f : σ → α → σ} {g : τ → α → τ} {view : σ → τ}
    {I : σ → Prop} {ok : σ → α → Prop}
    (hstep : ∀ s a, I s → (view (f s a) = g (view s) a ↔ ok s a))
    (hinv : ∀ s a, I s → ok s a → I (f s a)) {s : σ} (hs : I s) (l : List α) :
    (∀ pre post, l = pre ++ post → view (pre.foldl f s) = pre.foldl g (view s)) ↔
      ∀ pre a post, l = pre ++ a :: post → ok (pre.foldl f s) a := by
  induction l generalizing s with
  | nil =>
    refine ⟨fun _ pre a post h => ?_, fun _ pre post h => ?_⟩
    · exact absurd h.symm (by simp)
    · obtain ⟨rfl, -⟩ := List.append_eq_nil_iff.mp h.symm
      rfl
  | cons a l ih =>
    refine ⟨fun h => ?_, fun h => ?_⟩
    · have hone : view (f s a) = g (view s) a := h [a] l rfl
      have hok := (hstep s a hs).mp hone
      have hrest := (ih (hinv s a hs hok)).mp fun pre post hl => by
        rw [hone]
        exact h (a :: pre) post (by rw [hl, List.cons_append])
      intro pre b post hl
      rcases pre with _ | ⟨c, pre⟩
      · obtain ⟨rfl, -⟩ := List.cons.inj hl
        exact hok
      · obtain ⟨rfl, ht⟩ := List.cons.inj hl
        exact hrest pre b post ht
    · have hok : ok s a := h [] a l rfl
      have hone := (hstep s a hs).mpr hok
      have hrest := (ih (hinv s a hs hok)).mpr fun pre b post hl =>
        h (a :: pre) b post (by rw [hl, List.cons_append])
      intro pre post hl
      rcases pre with _ | ⟨c, pre⟩
      · rfl
      · obtain ⟨rfl, ht⟩ := List.cons.inj hl
        rw [List.foldl_cons, List.foldl_cons, ← hone]
        exact hrest pre post ht
