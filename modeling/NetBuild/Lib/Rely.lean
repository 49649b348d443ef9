import NetBuild.Lib.Prog

/-!
# What a client relies on

Many clients of one store, proved one client at a time. A `Pact` says what always holds of the store
and what each client may rely on while the others move. A program `Upholds` it when, started in a
store, it keeps what holds and what the others rely on, whatever they do that it relies on itself;
and when it returns, what it knows of the store is something it can rely on.

`Sys.Reaches.upholds` puts the clients together.
-/

namespace Prog

variable {Req : Type} {Resp : Req → Type} {ε α β S ι : Type}

/-- An invariant of the store, and what each client may rely on of the moves of the others. -/
structure Pact (S ι : Type) where
  inv : S → Prop
  rely : ι → S → S → Prop
  refl : ∀ i s, rely i s s
  trans : ∀ i s t u, rely i s t → rely i t u → rely i s u

variable (exec : S → (r : Req) → Resp r → S → Prop)

/-- From a store onwards client `i` keeps the pact, and `Q` holds once it has returned. -/
def Upholds (P : Pact S ι) (i : ι) (Q : α → S → Prop) : Prog Req Resp ε α → S → Prop
  | .ret a, s => ∀ t, P.rely i s t → P.inv t → Q a t
  | .raise _, _ => True
  | .call r k, s => ∀ t, P.rely i s t → P.inv t → ∀ x t', exec t r x t' →
      P.inv t' ∧ (∀ j, j ≠ i → P.rely j t t') ∧ (k x).Upholds P i Q t'

variable {exec} {P : Pact S ι} {i : ι} {Q : α → S → Prop} {s t : S}

@[simp] theorem upholds_raise (e : ε) (s : S) :
    (.raise e : Prog Req Resp ε α).Upholds exec P i Q s := trivial

theorem upholds_ret {a : α} (h : ∀ t, P.rely i s t → P.inv t → Q a t) :
    (.ret a : Prog Req Resp ε α).Upholds exec P i Q s := h

/-- What the others do is within what the client relies on. -/
theorem Upholds.rely {p : Prog Req Resp ε α} (h : p.Upholds exec P i Q s) (ht : P.rely i s t) :
    p.Upholds exec P i Q t := by
  cases p with
  | ret a => exact fun u hu => h u (P.trans i s t u ht hu)
  | raise e => trivial
  | call r k => exact fun u hu => h u (P.trans i s t u ht hu)

theorem Upholds.mono {Q' : α → S → Prop} {p : Prog Req Resp ε α} (h : p.Upholds exec P i Q s)
    (hQ : ∀ a t, P.inv t → Q a t → Q' a t) : p.Upholds exec P i Q' s := by
  induction p generalizing s with
  | ret a => exact fun t ht hinv => hQ a t hinv (h t ht hinv)
  | raise e => trivial
  | call r k ih =>
    intro t ht hinv x t' hex
    obtain ⟨hinv', hrely, hk⟩ := h t ht hinv x t' hex
    exact ⟨hinv', hrely, ih x hk⟩

/-- The second half is proved for what the first half is known to leave. -/
theorem Upholds.bind {Q' : β → S → Prop} {p : Prog Req Resp ε α} {f : α → Prog Req Resp ε β}
    (h : p.Upholds exec P i Q s) (hs : P.inv s)
    (hf : ∀ a t, P.inv t → Q a t → (f a).Upholds exec P i Q' t) :
    (p >>= f).Upholds exec P i Q' s := by
  induction p generalizing s with
  | ret a => exact hf a s hs (h s (P.refl i s) hs)
  | raise e => trivial
  | call r k ih =>
    intro t ht hinv x t' hex
    obtain ⟨hinv', hrely, hk⟩ := h t ht hinv x t' hex
    exact ⟨hinv', hrely, ih x hk hinv'⟩

theorem upholds_lift_bind {Q' : β → S → Prop} {e : Except ε α} {f : α → Prog Req Resp ε β}
    (hf : ∀ a, e = .ok a → (f a).Upholds exec P i Q' s) :
    (lift e >>= f).Upholds exec P i Q' s := by
  cases e with
  | error e => trivial
  | ok a => exact hf a rfl

/-- As `Upholds.bind`, where the first half may raise. -/
theorem Upholds.attempt_bind {Q : Except ε α → S → Prop} {Q' : Except ε β → S → Prop}
    {p : Prog Req Resp ε α} {f : α → Prog Req Resp ε β}
    (h : p.attempt.Upholds exec P i Q s) (hs : P.inv s)
    (hf : ∀ a t, P.inv t → Q (.ok a) t → (f a).attempt.Upholds exec P i Q' t)
    (he : ∀ e t u, Q (.error e) t → P.rely i t u → P.inv u → Q' (.error e) u) :
    (p >>= f).attempt.Upholds exec P i Q' s := by
  induction p generalizing s with
  | ret a => exact hf a s hs (h s (P.refl i s) hs)
  | raise e => exact fun u hu hinv => he e s u (h s (P.refl i s) hs) hu hinv
  | call r k ih =>
    intro t ht hinv x t' hex
    obtain ⟨hinv', hrely, hk⟩ := h t ht hinv x t' hex
    exact ⟨hinv', hrely, ih x hk hinv'⟩

/-- A pure computation between two parts of a program. -/
theorem upholds_attempt_lift_bind {Q : Except ε β → S → Prop} {o : Except ε α}
    {f : α → Prog Req Resp ε β} (hf : ∀ a, o = .ok a → (f a).attempt.Upholds exec P i Q s)
    (he : ∀ e, o = .error e → ∀ t, P.rely i s t → P.inv t → Q (.error e) t) :
    (lift o >>= f).attempt.Upholds exec P i Q s := by
  cases o with
  | error e => exact he e rfl
  | ok a => exact hf a rfl

/-- The handler is proved for whatever may have been raised. -/
theorem upholds_tryCatch {Q Q' : Except ε α → S → Prop} {p : Prog Req Resp ε α}
    {f : ε → Prog Req Resp ε α} (h : p.attempt.Upholds exec P i Q s) (hs : P.inv s)
    (hok : ∀ a t, P.inv t → Q (.ok a) t → Q' (.ok a) t)
    (hf : ∀ e t, P.inv t → Q (.error e) t → (f e).attempt.Upholds exec P i Q' t) :
    (p.tryCatch f).attempt.Upholds exec P i Q' s := by
  induction p generalizing s with
  | ret a => exact fun t ht hinv => hok a t hinv (h t ht hinv)
  | raise e => exact hf e s hs (h s (P.refl i s) hs)
  | call r k ih =>
    intro t ht hinv x t' hex
    obtain ⟨hinv', hrely, hk⟩ := h t ht hinv x t' hex
    exact ⟨hinv', hrely, ih x hk hinv'⟩

theorem Upholds.attempt_then {Q : Except ε α → S → Prop} {q : Prog Req Resp ε PUnit}
    {o : Except ε α} (h : q.attempt.Upholds exec P i (fun r => Q (r.bind fun _ => o)) s) :
    (q >>= fun _ => lift o).attempt.Upholds exec P i Q s := by
  induction q generalizing s with
  | ret a =>
    cases o with
    | error e => exact h
    | ok a => exact h
  | raise e => exact h
  | call r k ih =>
    intro t ht hinv x t' hex
    obtain ⟨hinv', hrely, hk⟩ := h t ht hinv x t' hex
    exact ⟨hinv', hrely, ih x hk⟩

/-- The last part of a program is proved for whatever the first one came to. -/
theorem upholds_andFinally {Q Q' : Except ε α → S → Prop} {p : Prog Req Resp ε α}
    {q : Prog Req Resp ε PUnit} (h : p.attempt.Upholds exec P i Q s) (hs : P.inv s)
    (hq : ∀ o t, P.inv t → Q o t →
      q.attempt.Upholds exec P i (fun r => Q' (r.bind fun _ => o)) t) :
    (p.andFinally q).attempt.Upholds exec P i Q' s := by
  induction p generalizing s with
  | ret a => exact (hq (.ok a) s hs (h s (P.refl i s) hs)).attempt_then
  | raise e => exact (hq (.error e) s hs (h s (P.refl i s) hs)).attempt_then
  | call r k ih =>
    intro t ht hinv x t' hex
    obtain ⟨hinv', hrely, hk⟩ := h t ht hinv x t' hex
    exact ⟨hinv', hrely, ih x hk hinv'⟩

/-- A program all of whose requests keep the pact upholds it. -/
theorem upholds_of_always {C : Req → Prop} {p : Prog Req Resp ε α} (hp : p.Always C)
    (hC : ∀ r, C r → ∀ t x t', P.inv t → exec t r x t' → P.inv t' ∧ ∀ j, j ≠ i → P.rely j t t')
    (s : S) : p.Upholds exec P i (fun _ _ => True) s := by
  induction p generalizing s with
  | ret a => exact fun _ _ _ => trivial
  | raise e => trivial
  | call r k ih =>
    intro t _ hinv x t' hex
    obtain ⟨hinv', hrely⟩ := hC r hp.1 t x t' hinv hex
    exact ⟨hinv', hrely, ih x (hp.2 x) t'⟩

/-- A loop keeps what each round keeps. -/
theorem upholds_forM {L : S → Prop} {l : List β} {f : β → Prog Req Resp ε PUnit}
    (hL : ∀ s t, P.rely i s t → L s → L t)
    (hf : ∀ b ∈ l, ∀ s, P.inv s → L s → (f b).Upholds exec P i (fun _ => L) s)
    (hs : P.inv s) (h : L s) : (l.forM f).Upholds exec P i (fun _ => L) s := by
  induction l generalizing s with
  | nil => exact fun t ht _ => hL s t ht h
  | cons b l ih =>
    refine (hf b List.mem_cons_self s hs h).bind hs fun _ t ht hLt => ?_
    exact ih (fun b' hb' => hf b' (List.mem_cons_of_mem b hb')) ht hLt

/-- An accumulating loop keeps what each round keeps of the accumulator. -/
theorem upholds_foldlM {L : α → S → Prop} {l : List β} {f : α → β → Prog Req Resp ε α} {a : α}
    (hL : ∀ a s t, P.rely i s t → L a s → L a t)
    (hf : ∀ b ∈ l, ∀ a s, P.inv s → L a s → (f a b).Upholds exec P i L s)
    (hs : P.inv s) (h : L a s) : (l.foldlM f a).Upholds exec P i L s := by
  induction l generalizing a s with
  | nil => exact fun t ht _ => hL a s t ht h
  | cons b l ih =>
    refine (hf b List.mem_cons_self a s hs h).bind hs fun a' t ht hLt => ?_
    exact ih (fun b' hb' => hf b' (List.mem_cons_of_mem b hb')) ht hLt

/-- One client alone keeps the pact as far as it gets. -/
theorem Upholds.steps {p q : Prog Req Resp ε α} (hpq : Steps exec s p t q)
    (h : p.Upholds exec P i Q s) (hs : P.inv s) : P.inv t ∧ q.Upholds exec P i Q t := by
  induction hpq with
  | refl => exact ⟨hs, h⟩
  | call hex _ ih =>
    obtain ⟨hinv, -, hk⟩ := h _ (P.refl i _) hs _ _ hex
    exact ih hk hinv

end Prog

namespace Sys

open Prog (Pact)

variable {Req : Type} {Resp : Req → Type} {ε α S ι : Type} [DecidableEq ι]
variable {exec : S → (r : Req) → Resp r → S → Prop} {P : Pact S ι} {Q : ι → α → S → Prop}

/-- Every client upholds the pact from the present store onwards. -/
def Upholds (exec : S → (r : Req) → Resp r → S → Prop) (P : Pact S ι) (Q : ι → α → S → Prop)
    (σ : Sys S ι (Prog Req Resp ε α)) : Prop :=
  P.inv σ.store ∧ ∀ i, (σ.client i).Upholds exec P i (Q i) σ.store

/-- One client moves, and the others can rely on what it does. -/
theorem Upholds.step {σ σ' : Sys S ι (Prog Req Resp ε α)} {i : ι} (h : σ.Upholds exec P Q)
    (hstep : Step exec σ i σ') : σ'.Upholds exec P Q := by
  obtain ⟨hinv, hup⟩ := h
  obtain @⟨_, k, x, s', hc, hex⟩ := hstep
  have hi := hup i
  rw [hc] at hi
  obtain ⟨hinv', hrely, hk⟩ := hi σ.store (P.refl i _) hinv x s' hex
  refine ⟨hinv', fun j => ?_⟩
  by_cases hj : j = i
  · subst hj
    show (Function.update σ.client j (k x) j).Upholds exec P j (Q j) s'
    rw [Function.update_self]
    exact hk
  · show (Function.update σ.client i (k x) j).Upholds exec P j (Q j) s'
    rw [Function.update_of_ne hj]
    exact (hup j).rely (hrely j hj)

/-- The pact is kept in every interleaving. -/
theorem Reaches.upholds {G : Sys S ι (Prog Req Resp ε α) → ι → Prop}
    {σ σ' : Sys S ι (Prog Req Resp ε α)} (hr : Reaches exec G σ σ') (h : σ.Upholds exec P Q) :
    σ'.Upholds exec P Q :=
  hr.invariant (fun _ _ _ hσ _ hstep => hσ.step hstep) h

omit [DecidableEq ι] in
/-- What a client that has returned knows of the store. -/
theorem Upholds.done {σ : Sys S ι (Prog Req Resp ε α)} {i : ι} {a : α} (h : σ.Upholds exec P Q)
    (hi : σ.client i = .ret a) : Q i a σ.store := by
  have hup := h.2 i
  rw [hi] at hup
  exact hup σ.store (P.refl i _) h.1

end Sys
