import Mathlib.Logic.Function.Basic
import Mathlib.Logic.Relation
import Mathlib.Data.List.Forall2

/-!
# Programs that call a store

A `Prog` is a computation that issues requests to a shared store, one at a time, and goes
on with the responses. It is data, so the same program text has three readings:

* `Run`: one client alone, to its result;
* `Cut`: one client alone, stopped by a request that raises;
* `Reaches`: any number of clients, interleaved request by request.

The store enters through `exec s r x s'`: in store `s`, request `r` may answer `x` and
leave `s'`. It is a relation because a response need not be determined by the store.
-/

/-- A computation over requests `Req`, which either returns, raises, or calls the store. -/
inductive Prog (Req : Type) (Resp : Req → Type) (ε α : Type) : Type
  | ret (a : α)
  | raise (e : ε)
  | call (r : Req) (k : Resp r → Prog Req Resp ε α)

namespace Prog

variable {Req : Type} {Resp : Req → Type} {ε α β γ S ι : Type}

/-- Sequencing: the second program starts from the first one's result. -/
protected def bind : Prog Req Resp ε α → (α → Prog Req Resp ε β) → Prog Req Resp ε β
  | .ret a, f => f a
  | .raise e, _ => .raise e
  | .call r k, f => .call r fun x => (k x).bind f

instance : Monad (Prog Req Resp ε) where
  pure := .ret
  bind := .bind

@[simp] theorem pure_eq (a : α) : (pure a : Prog Req Resp ε α) = .ret a := rfl

@[simp] theorem ret_bind (a : α) (f : α → Prog Req Resp ε β) : (.ret a >>= f) = f a := rfl

@[simp] theorem raise_bind (e : ε) (f : α → Prog Req Resp ε β) :
    (.raise e >>= f : Prog Req Resp ε β) = .raise e := rfl

@[simp] theorem call_bind (r : Req) (k : Resp r → Prog Req Resp ε α)
    (f : α → Prog Req Resp ε β) : (.call r k >>= f) = .call r fun x => k x >>= f := rfl

theorem bind_assoc' (p : Prog Req Resp ε α) (f : α → Prog Req Resp ε β)
    (g : β → Prog Req Resp ε γ) : (p >>= f) >>= g = p >>= fun a => f a >>= g := by
  induction p with
  | ret a => rfl
  | raise e => rfl
  | call r k ih => simp only [call_bind, ih]

/-- A sequenced program that calls the store does so in its first half, or in the second one. -/
theorem bind_eq_call {p : Prog Req Resp ε α} {f : α → Prog Req Resp ε β} {r : Req}
    {k : Resp r → Prog Req Resp ε β} (h : p >>= f = .call r k) :
    (∃ a, p = .ret a ∧ f a = .call r k) ∨ ∃ k', p = .call r k' ∧ k = fun x => k' x >>= f := by
  rcases p with a | e | ⟨r', k'⟩
  · exact .inl ⟨a, rfl, h⟩
  · exact nomatch h
  · obtain ⟨⟩ := h
    exact .inr ⟨k', rfl, rfl⟩

/-- A sequenced program has returned when both its halves have. -/
theorem bind_eq_ret {p : Prog Req Resp ε α} {f : α → Prog Req Resp ε β} {b : β}
    (h : p >>= f = .ret b) : ∃ a, p = .ret a ∧ f a = .ret b := by
  rcases p with a | e | ⟨r, k⟩
  · exact ⟨a, rfl, h⟩
  · exact nomatch h
  · exact nomatch h

/-- A single request. -/
def request (r : Req) : Prog Req Resp ε (Resp r) := .call r .ret

@[simp] theorem request_bind (r : Req) (f : Resp r → Prog Req Resp ε β) :
    (request r >>= f) = .call r f := rfl

/-- A pure computation that may raise. -/
def lift : Except ε α → Prog Req Resp ε α
  | .ok a => .ret a
  | .error e => .raise e

@[simp] theorem lift_ok (a : α) : (lift (.ok a) : Prog Req Resp ε α) = .ret a := rfl

@[simp] theorem lift_error (e : ε) : (lift (.error e) : Prog Req Resp ε α) = .raise e := rfl

/-- The program with its exceptions handled. -/
protected def tryCatch : Prog Req Resp ε α → (ε → Prog Req Resp ε α) → Prog Req Resp ε α
  | .ret a, _ => .ret a
  | .raise e, f => f e
  | .call r k, f => .call r fun x => (k x).tryCatch f

/-- The program with its exceptions among its results. -/
def attempt : Prog Req Resp ε α → Prog Req Resp ε (Except ε α)
  | .ret a => .ret (.ok a)
  | .raise e => .ret (.error e)
  | .call r k => .call r fun x => (k x).attempt

/-- The second program runs when the first one has ended, and what the first one came to stands
unless the second raises. -/
def andFinally (p : Prog Req Resp ε α) (q : Prog Req Resp ε PUnit) : Prog Req Resp ε α := do
  let o ← p.attempt
  q
  lift o

/-- The request a program issues next. -/
def next? : Prog Req Resp ε α → Option Req
  | .call r _ => some r
  | _ => none

@[simp] theorem next?_ret (a : α) : (.ret a : Prog Req Resp ε α).next? = none := rfl

@[simp] theorem next?_raise (e : ε) : (.raise e : Prog Req Resp ε α).next? = none := rfl

@[simp] theorem next?_call (r : Req) (k : Resp r → Prog Req Resp ε α) :
    (call r k).next? = some r := rfl

/-- The program has returned, so it has no request left. -/
def Done (p : Prog Req Resp ε α) : Prop := ∃ a, p = .ret a

/-- Every request the program can ever issue satisfies `P`, whatever the responses. -/
def Always (P : Req → Prop) : Prog Req Resp ε α → Prop
  | .ret _ => True
  | .raise _ => True
  | .call r k => P r ∧ ∀ x, (k x).Always P

theorem Always.next {P : Req → Prop} {p : Prog Req Resp ε α} (hp : p.Always P) {r : Req}
    (h : p.next? = some r) : P r := by
  rcases p with _ | _ | ⟨r', k⟩
  · exact nomatch h
  · exact nomatch h
  · rw [← Option.some.inj h]
    exact hp.1

theorem Always.bind {P : Req → Prop} {p : Prog Req Resp ε α} {f : α → Prog Req Resp ε β}
    (hp : p.Always P) (hf : ∀ a, (f a).Always P) : (p >>= f).Always P := by
  induction p with
  | ret a => exact hf a
  | raise e => trivial
  | call r k ih => exact ⟨hp.1, fun x => ih x (hp.2 x)⟩

theorem Always.mono {P Q : Req → Prop} (hPQ : ∀ r, P r → Q r) {p : Prog Req Resp ε α}
    (hp : p.Always P) : p.Always Q := by
  induction p with
  | ret a => trivial
  | raise e => trivial
  | call r k ih => exact ⟨hPQ r hp.1, fun x => ih x (hp.2 x)⟩

theorem Always.and {P Q : Req → Prop} {p : Prog Req Resp ε α} (hp : p.Always P)
    (hq : p.Always Q) : p.Always fun r => P r ∧ Q r := by
  induction p with
  | ret a => trivial
  | raise e => trivial
  | call r k ih => exact ⟨⟨hp.1, hq.1⟩, fun x => ih x (hp.2 x) (hq.2 x)⟩

theorem always_lift (P : Req → Prop) (e : Except ε α) :
    (lift e : Prog Req Resp ε α).Always P := by
  cases e <;> trivial

theorem Always.lift_bind {P : Req → Prop} {e : Except ε α} {f : α → Prog Req Resp ε β}
    (h : ∀ a, e = .ok a → (f a).Always P) : (lift e >>= f).Always P := by
  rcases e with e | a
  · trivial
  · exact h a rfl

/-- Every result the program can return satisfies `Q`, whatever the responses. -/
def Returns (Q : α → Prop) : Prog Req Resp ε α → Prop
  | .ret a => Q a
  | .raise _ => True
  | .call _ k => ∀ x, (k x).Returns Q

theorem Returns.bind {Q : β → Prop} {p : Prog Req Resp ε α} {f : α → Prog Req Resp ε β}
    (hf : ∀ a, (f a).Returns Q) : (p >>= f).Returns Q := by
  induction p with
  | ret a => exact hf a
  | raise e => trivial
  | call r k ih => exact fun x => ih x

theorem always_forM {P : Req → Prop} {l : List β} {f : β → Prog Req Resp ε PUnit}
    (h : ∀ b ∈ l, (f b).Always P) : (l.forM f).Always P := by
  induction l with
  | nil => trivial
  | cons b l ih =>
    exact Always.bind (h b List.mem_cons_self) fun _ =>
      ih fun b' hb' => h b' (List.mem_cons_of_mem _ hb')

theorem always_foldlM {P : Req → Prop} {l : List β} {f : α → β → Prog Req Resp ε α}
    (h : ∀ b ∈ l, ∀ a, (f a b).Always P) (a : α) : (l.foldlM f a).Always P := by
  induction l generalizing a with
  | nil => trivial
  | cons b l ih =>
    exact (h b List.mem_cons_self a).bind fun a' =>
      ih (fun b' hb' => h b' (List.mem_cons_of_mem b hb')) a'

/-! ## One client alone -/

variable (exec : S → (r : Req) → Resp r → S → Prop)

/-- The program runs from one store to another and ends with a result or an exception. -/
inductive Run : S → Prog Req Resp ε α → S → Except ε α → Prop
  | ret (s : S) (a : α) : Run s (.ret a) s (.ok a)
  | raise (s : S) (e : ε) : Run s (.raise e) s (.error e)
  | call {s s' s'' : S} {r : Req} {k : Resp r → Prog Req Resp ε α} {x : Resp r}
      {o : Except ε α} (h : exec s r x s') (hk : Run s' (k x) s'' o) : Run s (.call r k) s'' o

/-- The program runs up to a request accepted by `W`, and that request raises: the store is
left as it was before the request. -/
inductive Cut (W : Req → Prop) : S → Prog Req Resp ε α → S → Prop
  | here {s : S} {r : Req} {k : Resp r → Prog Req Resp ε α} (h : W r) : Cut W s (.call r k) s
  | call {s s' s'' : S} {r : Req} {k : Resp r → Prog Req Resp ε α} {x : Resp r}
      (h : exec s r x s') (hk : Cut W s' (k x) s'') : Cut W s (.call r k) s''

/-- The program has some of its requests answered, and the second program still to run. -/
inductive Steps : S → Prog Req Resp ε α → S → Prog Req Resp ε α → Prop
  | refl (s : S) (p : Prog Req Resp ε α) : Steps s p s p
  | call {s s' s'' : S} {r : Req} {k : Resp r → Prog Req Resp ε α} {x : Resp r}
      {q : Prog Req Resp ε α} (h : exec s r x s') (hk : Steps s' (k x) s'' q) :
      Steps s (.call r k) s'' q

variable {exec}

theorem Run.steps {s s' : S} {p : Prog Req Resp ε α} {o : Except ε α}
    (h : Run exec s p s' o) : Steps exec s p s' (lift o) := by
  induction h with
  | ret s a => exact .refl s _
  | raise s e => exact .refl s _
  | call h _ ih => exact .call h ih

theorem Steps.trans {s s' s'' : S} {p q q' : Prog Req Resp ε α} (h : Steps exec s p s' q)
    (h' : Steps exec s' q s'' q') : Steps exec s p s'' q' := by
  induction h with
  | refl => exact h'
  | call h _ ih => exact .call h (ih h')

theorem Steps.bind {s s' : S} {p q : Prog Req Resp ε α} (h : Steps exec s p s' q)
    (f : α → Prog Req Resp ε β) : Steps exec s (p >>= f) s' (q >>= f) := by
  induction h with
  | refl s p => exact .refl s _
  | call h _ ih => exact .call h ih

theorem Steps.attempt {s s' : S} {p q : Prog Req Resp ε α} (h : Steps exec s p s' q) :
    Steps exec s p.attempt s' q.attempt := by
  induction h with
  | refl => exact .refl _ _
  | call h _ ih => exact .call h ih

theorem Steps.cut {W : Req → Prop} {s s' s'' : S} {p q : Prog Req Resp ε α}
    (h : Steps exec s p s' q) (h' : Cut exec W s' q s'') : Cut exec W s p s'' := by
  induction h with
  | refl => exact h'
  | call h _ ih => exact .call h (ih h')

@[simp] theorem run_ret_iff {s s' : S} {a : α} {o : Except ε α} :
    Run exec s (.ret a) s' o ↔ s' = s ∧ o = .ok a := by
  constructor
  · intro h; cases h; exact ⟨rfl, rfl⟩
  · rintro ⟨rfl, rfl⟩; exact .ret _ _

@[simp] theorem run_raise_iff {s s' : S} {e : ε} {o : Except ε α} :
    Run exec s (.raise e) s' o ↔ s' = s ∧ o = .error e := by
  constructor
  · intro h; cases h; exact ⟨rfl, rfl⟩
  · rintro ⟨rfl, rfl⟩; exact .raise _ _

theorem run_call_iff {s s'' : S} {r : Req} {k : Resp r → Prog Req Resp ε α}
    {o : Except ε α} :
    Run exec s (.call r k) s'' o ↔ ∃ x s', exec s r x s' ∧ Run exec s' (k x) s'' o := by
  constructor
  · intro h; cases h with | call h hk => exact ⟨_, _, h, hk⟩
  · rintro ⟨x, s', h, hk⟩; exact .call h hk

/-- A sequenced program runs its first half, and the second one from the result. -/
theorem run_bind_iff {s s'' : S} {p : Prog Req Resp ε α} {f : α → Prog Req Resp ε β}
    {o : Except ε β} :
    Run exec s (p >>= f) s'' o ↔
      (∃ e, Run exec s p s'' (.error e) ∧ o = .error e) ∨
        ∃ a s', Run exec s p s' (.ok a) ∧ Run exec s' (f a) s'' o := by
  induction p generalizing s with
  | ret a =>
    rw [ret_bind]
    refine ⟨fun h => .inr ⟨a, s, .ret _ _, h⟩, fun h => ?_⟩
    rcases h with ⟨e, h, -⟩ | ⟨a', s', h, hf⟩
    · exact nomatch (run_ret_iff.mp h).2
    · obtain ⟨rfl, ha⟩ := run_ret_iff.mp h
      rwa [Except.ok.inj ha] at hf
  | raise e =>
    rw [raise_bind]
    refine ⟨fun h => ?_, fun h => ?_⟩
    · obtain ⟨rfl, rfl⟩ := run_raise_iff.mp h
      exact .inl ⟨e, .raise _ _, rfl⟩
    · rcases h with ⟨e', h, rfl⟩ | ⟨a', s', h, hf⟩
      · obtain ⟨rfl, he⟩ := run_raise_iff.mp h
        rw [Except.error.inj he]
        exact .raise _ _
      · exact nomatch (run_raise_iff.mp h).2
  | call r k ih =>
    simp only [call_bind, run_call_iff, ih]
    refine ⟨fun h => ?_, fun h => ?_⟩
    · obtain ⟨x, t, hx, ⟨e, hp, ho⟩ | ⟨a, s', hp, hf⟩⟩ := h
      · exact .inl ⟨e, ⟨x, t, hx, hp⟩, ho⟩
      · exact .inr ⟨a, s', ⟨x, t, hx, hp⟩, hf⟩
    · rcases h with ⟨e, ⟨x, t, hx, hp⟩, ho⟩ | ⟨a, s', ⟨x, t, hx, hp⟩, hf⟩
      · exact ⟨x, t, hx, .inl ⟨e, hp, ho⟩⟩
      · exact ⟨x, t, hx, .inr ⟨a, s', hp, hf⟩⟩

/-- A sequenced program completes exactly when its two halves do, one after the other. -/
theorem run_bind_ok_iff {s s'' : S} {p : Prog Req Resp ε α} {f : α → Prog Req Resp ε β}
    {b : β} :
    Run exec s (p >>= f) s'' (.ok b) ↔
      ∃ a s', Run exec s p s' (.ok a) ∧ Run exec s' (f a) s'' (.ok b) := by
  rw [run_bind_iff]
  refine or_iff_right fun h => ?_
  obtain ⟨e, -, h⟩ := h
  exact nomatch h

/-- A loop whose rounds each compute something that may raise and then change the store in one
way completes exactly when all the computations succeed. -/
theorem run_forM_ok_iff {l : List β} {p : β → Prog Req Resp ε PUnit} {f : β → Except ε γ}
    {g : S → γ → S}
    (h : ∀ b s s', Run exec s (p b) s' (.ok ⟨⟩) ↔ ∃ c, f b = .ok c ∧ s' = g s c) {s s' : S} :
    Run exec s (l.forM p) s' (.ok ⟨⟩) ↔
      ∃ cs, List.Forall₂ (fun b c => f b = .ok c) l cs ∧ s' = cs.foldl g s := by
  induction l generalizing s with
  | nil =>
    refine ⟨fun hr => ⟨[], .nil, (run_ret_iff.mp hr).1⟩, fun hr => ?_⟩
    obtain ⟨cs, hcs, rfl⟩ := hr
    obtain rfl := List.forall₂_nil_left_iff.mp hcs
    exact .ret _ _
  | cons b l ih =>
    show Run exec s (p b >>= fun _ => l.forM p) s' _ ↔ _
    rw [run_bind_ok_iff]
    refine ⟨fun hr => ?_, fun hr => ?_⟩
    · obtain ⟨_, t, hb, hl⟩ := hr
      obtain ⟨c, hc, rfl⟩ := (h b _ _).mp hb
      obtain ⟨cs, hcs, hs⟩ := ih.mp hl
      exact ⟨c :: cs, .cons hc hcs, hs⟩
    · obtain ⟨_, hcs, rfl⟩ := hr
      rcases hcs with - | ⟨hc, hcs⟩
      exact ⟨⟨⟩, _, (h b _ _).mpr ⟨_, hc, rfl⟩, ih.mpr ⟨_, hcs, rfl⟩⟩

theorem run_lift_ok_iff {s s' : S} {e : Except ε α} {a : α} :
    Run exec s (lift e) s' (.ok a) ↔ s' = s ∧ e = .ok a := by
  cases e <;> simp [eq_comm]

/-- A handled program runs to its result, or to the exception and through the handler. -/
theorem run_tryCatch_iff {s s' : S} {p : Prog Req Resp ε α} {f : ε → Prog Req Resp ε α}
    {o : Except ε α} :
    Run exec s (p.tryCatch f) s' o ↔
      (∃ a, Run exec s p s' (.ok a) ∧ o = .ok a) ∨
        ∃ e t, Run exec s p t (.error e) ∧ Run exec t (f e) s' o := by
  induction p generalizing s with
  | ret a =>
    refine ⟨fun h => .inl ⟨a, ?_⟩, fun h => ?_⟩
    · obtain ⟨rfl, rfl⟩ := run_ret_iff.mp h
      exact ⟨.ret _ _, rfl⟩
    · rcases h with ⟨a', h, rfl⟩ | ⟨e, t, h, -⟩
      · exact h
      · exact nomatch (run_ret_iff.mp h).2
  | raise e =>
    refine ⟨fun h => .inr ⟨e, s, .raise _ _, h⟩, fun h => ?_⟩
    rcases h with ⟨a, h, -⟩ | ⟨e', t, h, hf⟩
    · exact nomatch (run_raise_iff.mp h).2
    · obtain ⟨rfl, he⟩ := run_raise_iff.mp h
      rwa [Except.error.inj he] at hf
  | call r k ih =>
    show Run exec s (.call r fun x => (k x).tryCatch f) s' o ↔ _
    simp only [run_call_iff, ih]
    refine ⟨fun h => ?_, fun h => ?_⟩
    · obtain ⟨x, u, hx, ⟨a, hk, ho⟩ | ⟨e, t, hk, hf⟩⟩ := h
      · exact .inl ⟨a, ⟨x, u, hx, hk⟩, ho⟩
      · exact .inr ⟨e, t, ⟨x, u, hx, hk⟩, hf⟩
    · rcases h with ⟨a, ⟨x, u, hx, hk⟩, ho⟩ | ⟨e, t, ⟨x, u, hx, hk⟩, hf⟩
      · exact ⟨x, u, hx, .inl ⟨a, hk, ho⟩⟩
      · exact ⟨x, u, hx, .inr ⟨e, t, hk, hf⟩⟩

theorem Run.returns {Q : α → Prop} {s s' : S} {p : Prog Req Resp ε α} {a : α}
    (h : Run exec s p s' (.ok a)) (hp : p.Returns Q) : Q a := by
  induction p generalizing s with
  | ret b =>
    obtain ⟨-, hb⟩ := run_ret_iff.mp h
    rwa [Except.ok.inj hb]
  | raise e => exact nomatch (run_raise_iff.mp h).2
  | call r k ih =>
    obtain ⟨x, t, -, hk⟩ := run_call_iff.mp h
    exact ih x hk (hp x)

/-- An accumulating loop whose rounds only read. -/
theorem run_foldlM_iff {l : List β} {f : α → β → Prog Req Resp ε α} {g : α → β → α} {s : S}
    (h : ∀ b ∈ l, ∀ a s' o, Run exec s (f a b) s' o ↔ s' = s ∧ o = .ok (g a b)) (a : α) {s' : S}
    {o : Except ε α} : Run exec s (l.foldlM f a) s' o ↔ s' = s ∧ o = .ok (l.foldl g a) := by
  induction l generalizing a with
  | nil => exact run_ret_iff
  | cons b l ih =>
    have hround := h b List.mem_cons_self a
    show Run exec s (f a b >>= fun a => l.foldlM f a) s' o ↔ _
    rw [run_bind_iff, List.foldl_cons]
    simp only [hround]
    refine ⟨fun hr => ?_, fun hr => .inr ⟨_, s, ⟨rfl, rfl⟩, ?_⟩⟩
    · rcases hr with ⟨e, ⟨-, he⟩, -⟩ | ⟨a', t, ⟨rfl, ha⟩, hl⟩
      · exact nomatch he
      · obtain rfl := Except.ok.inj ha
        exact (ih (fun b' hb' => h b' (List.mem_cons_of_mem b hb')) _).mp hl
    · exact (ih (fun b' hb' => h b' (List.mem_cons_of_mem b hb')) _).mpr hr

/-- A store property kept by every request a program can issue is kept by its runs. -/
theorem Run.preserves {P : Req → Prop} {I : S → Prop}
    (hstep : ∀ s r x s', P r → I s → exec s r x s' → I s')
    {s s' : S} {p : Prog Req Resp ε α} {o : Except ε α}
    (h : Run exec s p s' o) (hp : p.Always P) (hs : I s) : I s' := by
  induction h with
  | ret => exact hs
  | raise => exact hs
  | call h _ ih => exact ih (hp.2 _) (hstep _ _ _ _ hp.1 hs h)

/-! ## One client stopped -/

section
variable {W : Req → Prop} {s s' s'' : S}

theorem not_cut_ret (a : α) : ¬ Cut exec W s (.ret a : Prog Req Resp ε α) s' :=
  fun h => (nomatch h)

theorem not_cut_raise (e : ε) : ¬ Cut exec W s (.raise e : Prog Req Resp ε α) s' :=
  fun h => (nomatch h)

theorem not_cut_lift (e : Except ε α) : ¬ Cut exec W s (lift e : Prog Req Resp ε α) s' := by
  rcases e with e | a
  · exact not_cut_raise e
  · exact not_cut_ret a

theorem cut_call_iff {r : Req} {k : Resp r → Prog Req Resp ε α} :
    Cut exec W s (.call r k) s'' ↔
      W r ∧ s'' = s ∨ ∃ x s', exec s r x s' ∧ Cut exec W s' (k x) s'' := by
  refine ⟨fun h => ?_, fun h => ?_⟩
  · rcases h with hW | ⟨hx, hk⟩
    · exact .inl ⟨hW, rfl⟩
    · exact .inr ⟨_, _, hx, hk⟩
  · rcases h with ⟨hW, rfl⟩ | ⟨x, s', hx, hk⟩
    · exact .here hW
    · exact .call hx hk

/-- A sequenced program is stopped in its first half, or in the second one. -/
theorem cut_bind_iff {p : Prog Req Resp ε α} {f : α → Prog Req Resp ε β} :
    Cut exec W s (p >>= f) s'' ↔
      Cut exec W s p s'' ∨ ∃ a s', Run exec s p s' (.ok a) ∧ Cut exec W s' (f a) s'' := by
  induction p generalizing s with
  | ret a =>
    rw [ret_bind]
    refine ⟨fun h => .inr ⟨a, s, .ret _ _, h⟩, fun h => ?_⟩
    rcases h with h | ⟨a', s', h, hf⟩
    · exact absurd h (not_cut_ret a)
    · obtain ⟨rfl, ha⟩ := run_ret_iff.mp h
      rwa [Except.ok.inj ha] at hf
  | raise e =>
    rw [raise_bind]
    refine ⟨fun h => absurd h (not_cut_raise e), fun h => ?_⟩
    rcases h with h | ⟨a', s', h, -⟩
    · exact absurd h (not_cut_raise e)
    · exact nomatch (run_raise_iff.mp h).2
  | call r k ih =>
    simp only [call_bind, cut_call_iff, run_call_iff, ih]
    refine ⟨fun h => ?_, fun h => ?_⟩
    · rcases h with h | ⟨x, t, hx, h | ⟨a, s', hk, hf⟩⟩
      · exact .inl (.inl h)
      · exact .inl (.inr ⟨x, t, hx, h⟩)
      · exact .inr ⟨a, s', ⟨x, t, hx, hk⟩, hf⟩
    · rcases h with (h | ⟨x, t, hx, h⟩) | ⟨a, s', ⟨x, t, hx, hk⟩, hf⟩
      · exact .inl h
      · exact .inr ⟨x, t, hx, .inl h⟩
      · exact .inr ⟨x, t, hx, .inr ⟨a, s', hk, hf⟩⟩

/-- A loop is stopped in one round, the rounds before it being complete. -/
theorem cut_forM {l : List β} {p : β → Prog Req Resp ε PUnit}
    (h : Cut exec W s (l.forM p) s'') :
    ∃ done b rest s', l = done ++ b :: rest ∧ Run exec s (done.forM p) s' (.ok ⟨⟩) ∧
      Cut exec W s' (p b) s'' := by
  induction l generalizing s with
  | nil => exact absurd h (not_cut_ret _)
  | cons b l ih =>
    have h' : Cut exec W s (p b >>= fun _ => l.forM p) s'' := h
    rcases cut_bind_iff.mp h' with hb | ⟨_, s', hb, hl⟩
    · exact ⟨[], b, l, s, rfl, .ret _ _, hb⟩
    · obtain ⟨done, b', rest, t, rfl, hrun, hcut⟩ := ih hl
      exact ⟨b :: done, b', rest, t, rfl, run_bind_ok_iff.mpr ⟨⟨⟩, s', hb, hrun⟩, hcut⟩

/-- A store property kept by every request a program can issue is kept up to where it stops. -/
theorem Cut.preserves {P : Req → Prop} {I : S → Prop}
    (hstep : ∀ s r x s', P r → I s → exec s r x s' → I s') {p : Prog Req Resp ε α}
    (h : Cut exec W s p s') (hp : p.Always P) (hs : I s) : I s' := by
  induction h with
  | here => exact hs
  | call h _ ih => exact ih (hp.2 _) (hstep _ _ _ _ hp.1 hs h)

end

end Prog

/-! ## Many clients -/

/-- A shared store and the programs its clients have still to run. -/
structure Sys (S ι P : Type) where
  store : S
  client : ι → P

namespace Sys

variable {Req : Type} {Resp : Req → Type} {ε α S ι : Type} [DecidableEq ι]
variable (exec : S → (r : Req) → Resp r → S → Prop)

/-- Client `i` has its next request answered. -/
inductive Step : Sys S ι (Prog Req Resp ε α) → ι → Sys S ι (Prog Req Resp ε α) → Prop
  | mk {σ : Sys S ι (Prog Req Resp ε α)} {i : ι} {r : Req}
      {k : Resp r → Prog Req Resp ε α} {x : Resp r} {s' : S}
      (hc : σ.client i = .call r k) (h : exec σ.store r x s') :
      Step σ i ⟨s', Function.update σ.client i (k x)⟩

/-- Any interleaving in which every step is taken in a state where `G` allows it. -/
def Reaches (G : Sys S ι (Prog Req Resp ε α) → ι → Prop) :
    Sys S ι (Prog Req Resp ε α) → Sys S ι (Prog Req Resp ε α) → Prop :=
  Relation.ReflTransGen fun σ σ' => ∃ i, G σ i ∧ Step exec σ i σ'

variable {exec}

/-- The invariant rule: what every allowed step keeps holds in every state reached. -/
theorem Reaches.invariant {G : Sys S ι (Prog Req Resp ε α) → ι → Prop}
    {I : Sys S ι (Prog Req Resp ε α) → Prop}
    (hstep : ∀ σ i σ', I σ → G σ i → Step exec σ i σ' → I σ')
    {σ σ' : Sys S ι (Prog Req Resp ε α)} (h : Reaches exec G σ σ') (hI : I σ) : I σ' := by
  induction h with
  | refl => exact hI
  | tail _ h ih => obtain ⟨i, hG, hs⟩ := h; exact hstep _ i _ ih hG hs

/-- One client goes on, and the others wait; `J` is what it keeps meanwhile. -/
theorem reaches_of_steps {J : S → Prog Req Resp ε α → Prop}
    {G : Sys S ι (Prog Req Resp ε α) → ι → Prop} {i : ι} {s s' : S} {p q : Prog Req Resp ε α}
    (h : Prog.Steps exec s p s' q) (hJ : J s p)
    (hkeep : ∀ t r k x t', J t (.call r k) → exec t r x t' → J t' (k x))
    {c : ι → Prog Req Resp ε α} (hG : ∀ t q, J t q → G ⟨t, Function.update c i q⟩ i)
    (hc : c i = p) : Reaches exec G ⟨s, c⟩ ⟨s', Function.update c i q⟩ := by
  have hfrom : Reaches exec G ⟨s, Function.update c i p⟩ ⟨s', Function.update c i q⟩ := by
    clear hc
    induction h with
    | refl s p => exact .refl
    | @call s s₁ _ r k x q h hk ih =>
      have hstep : Step exec ⟨s, Function.update c i (.call r k)⟩ i
          ⟨s₁, Function.update (Function.update c i (.call r k)) i (k x)⟩ :=
        ⟨Function.update_self .., h⟩
      rw [Function.update_idem] at hstep
      exact .head ⟨i, hG _ _ hJ, hstep⟩ (ih (hkeep _ _ _ _ _ hJ h))
  rwa [← hc, Function.update_eq_self] at hfrom

/-- An interleaving goes on with one client. -/
theorem Reaches.steps {σ τ : Sys S ι (Prog Req Resp ε α)}
    (hσ : Reaches exec (fun _ _ => True) σ τ) (i : ι) {s' : S} {q : Prog Req Resp ε α}
    (h : Prog.Steps exec τ.store (τ.client i) s' q) :
    Reaches exec (fun _ _ => True) σ ⟨s', Function.update τ.client i q⟩ :=
  hσ.trans (reaches_of_steps (J := fun _ _ => True) h trivial (fun _ _ _ _ _ _ _ => trivial)
    (fun _ _ _ => trivial) rfl)

/-- What a client may request is fixed by its program, along any interleaving. -/
theorem Reaches.always {P : ι → Req → Prop} {G : Sys S ι (Prog Req Resp ε α) → ι → Prop}
    {σ σ' : Sys S ι (Prog Req Resp ε α)} (h : Reaches exec G σ σ')
    (hP : ∀ i, (σ.client i).Always (P i)) : ∀ i, (σ'.client i).Always (P i) := by
  refine h.invariant (I := fun σ => ∀ i, (σ.client i).Always (P i)) ?_ hP
  rintro σ i _ hP - ⟨hc, -⟩ j
  by_cases hij : j = i
  · subst hij
    have hj := hP j
    rw [hc] at hj
    simpa using hj.2 _
  · simpa [Function.update_of_ne hij] using hP j

end Sys
