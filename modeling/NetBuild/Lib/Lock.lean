import NetBuild.Lib.Prog

/-!
# Clients of a lock

A store that holds a lock, and clients that take it and give it back. A program is `Holding` when it
takes the lock only without it, gives it back only with it, and never waits with it. The discipline
is that of the text of the program, whatever the store answers; so in every interleaving the client
that has the lock can go on, and nobody waits for a client that has ended.
-/

namespace Prog

variable {Req : Type} {Resp : Req → Type} {ε α β ι : Type}

/-- What a request is to the lock. One that waits is a request that a client may have to wait
for. -/
inductive LockOp (ι : Type)
  | acquire (client : ι)
  | release
  | wait
  | other

/-- Whether client `i` has the lock before the request, and after it. -/
def LockOp.Turns (i : ι) : LockOp ι → Bool → Bool → Prop
  | .acquire j, held, held' => j = i ∧ held = false ∧ held' = true
  | .release, held, held' => held = true ∧ held' = false
  | .wait, held, held' => held = false ∧ held' = false
  | .other, held, held' => held' = held

variable {op : Req → LockOp ι} {i : ι} {R E R' E' : Bool → Prop} {held : Bool}

/-- `R` holds of whether client `i` has the lock when the program returns, and `E` when it
raises. -/
def Holding (op : Req → LockOp ι) (i : ι) (R E : Bool → Prop) : Prog Req Resp ε α → Bool → Prop
  | .ret _, held => R held
  | .raise _, held => E held
  | .call r k, held => ∃ held', (op r).Turns i held held' ∧ ∀ x, (k x).Holding op i R E held'

theorem Holding.bind {p : Prog Req Resp ε α} {f : α → Prog Req Resp ε β}
    (hp : p.Holding op i R E held) (hf : ∀ a h, R h → (f a).Holding op i R' E h) :
    (p >>= f).Holding op i R' E held := by
  induction p generalizing held with
  | ret a => exact hf a held hp
  | raise e => exact hp
  | call r k ih =>
    obtain ⟨held', hturn, hk⟩ := hp
    exact ⟨held', hturn, fun x => ih x (hk x)⟩

/-- No exception leaves a program whose exceptions are among its results. -/
theorem Holding.attempt {p : Prog Req Resp ε α} (hp : p.Holding op i R R held) :
    p.attempt.Holding op i R E held := by
  induction p generalizing held with
  | ret a => exact hp
  | raise e => exact hp
  | call r k ih =>
    obtain ⟨held', hturn, hk⟩ := hp
    exact ⟨held', hturn, fun x => ih x (hk x)⟩

theorem Holding.tryCatch {p : Prog Req Resp ε α} {f : ε → Prog Req Resp ε α}
    (hp : p.Holding op i R E held) (hf : ∀ e h, E h → (f e).Holding op i R E' h) :
    (p.tryCatch f).Holding op i R E' held := by
  induction p generalizing held with
  | ret a => exact hp
  | raise e => exact hf e held hp
  | call r k ih =>
    obtain ⟨held', hturn, hk⟩ := hp
    exact ⟨held', hturn, fun x => ih x (hk x)⟩

theorem holding_lift (o : Except ε α) (hr : R held) (he : E held) :
    (lift o : Prog Req Resp ε α).Holding op i R E held := by
  cases o with
  | error e => exact he
  | ok a => exact hr

/-- However the first program ends, the second one runs. -/
theorem Holding.andFinally {p : Prog Req Resp ε α} {q : Prog Req Resp ε PUnit}
    (hp : p.Holding op i R R held) (hq : ∀ h, R h → q.Holding op i R' R' h) :
    (p.andFinally q).Holding op i R' R' held :=
  hp.attempt.bind fun o h hr => (hq h hr).bind fun _ _ hr' => holding_lift o hr' hr'

/-- A program that has nothing to do with the lock. -/
theorem holding_of_always {p : Prog Req Resp ε α} (hp : p.Always fun r => op r = .other)
    (hr : R held) (he : E held) : p.Holding op i R E held := by
  induction p with
  | ret a => exact hr
  | raise e => exact he
  | call r k ih =>
    refine ⟨held, ?_, fun x => ih x (hp.2 x)⟩
    rw [hp.1]
    rfl

/-- A request that has nothing to do with the lock. -/
theorem Holding.other {r : Req} {k : Resp r → Prog Req Resp ε α} (h : op r = .other)
    (hk : ∀ x, (k x).Holding op i R E held) : (call r k).Holding op i R E held :=
  ⟨held, by rw [h]; rfl, hk⟩

end Prog

namespace Sys

open Prog

variable {Req : Type} {Resp : Req → Type} {ε α S ι : Type} [DecidableEq ι]

/-- What the store makes of its lock. -/
structure Locking (exec : S → (r : Req) → Resp r → S → Prop) (lock : S → Option ι)
    (op : Req → LockOp ι) : Prop where
  acquire {s r x s' i} : exec s r x s' → op r = .acquire i → lock s = none ∧ lock s' = some i
  release {s r x s'} : exec s r x s' → op r = .release → lock s' = none
  wait {s r x s'} : exec s r x s' → op r = .wait → lock s' = lock s
  other {s r x s'} : exec s r x s' → op r = .other → lock s' = lock s

/-- Every client keeps to the discipline, never raises, and ends without the lock. -/
def Locked (lock : S → Option ι) (op : Req → LockOp ι) (σ : Sys S ι (Prog Req Resp ε α)) : Prop :=
  ∀ i, (σ.client i).Holding op i (· = false) (fun _ => False) (decide (lock σ.store = some i))

variable {exec : S → (r : Req) → Resp r → S → Prop} {lock : S → Option ι} {op : Req → LockOp ι}
variable {σ σ' : Sys S ι (Prog Req Resp ε α)} {i : ι}

/-- The store knows of the client that moves whether it has the lock. -/
theorem Locking.turns (hl : Locking exec lock op) {s s' : S} {r : Req} {x : Resp r}
    {held' : Bool} (hex : exec s r x s')
    (hturn : (op r).Turns i (decide (lock s = some i)) held') :
    decide (lock s' = some i) = held' := by
  rcases hop : op r with j | _ | _ | _ <;> rw [hop] at hturn
  · obtain ⟨rfl, -, rfl⟩ := hturn
    simp [(hl.acquire hex hop).2]
  · rw [hturn.2]
    simp [hl.release hex hop]
  · rw [hturn.2, hl.wait hex hop, hturn.1]
  · rw [hl.other hex hop, hturn]

/-- What it does about the lock does not concern the others. -/
theorem Locking.others (hl : Locking exec lock op) {s s' : S} {r : Req} {x : Resp r}
    {held' : Bool} (hex : exec s r x s')
    (hturn : (op r).Turns i (decide (lock s = some i)) held') {j : ι} (hj : j ≠ i) :
    lock s' = some j ↔ lock s = some j := by
  rcases hop : op r with c | _ | _ | _ <;> rw [hop] at hturn
  · obtain ⟨rfl, -, -⟩ := hturn
    obtain ⟨hfree, htaken⟩ := hl.acquire hex hop
    rw [hfree, htaken]
    exact iff_of_false (fun h => hj (Option.some.inj h).symm) nofun
  · rw [hl.release hex hop, of_decide_eq_true hturn.1]
    exact iff_of_false nofun fun h => hj (Option.some.inj h).symm
  · rw [hl.wait hex hop]
  · rw [hl.other hex hop]

theorem Locked.step (hl : Locking exec lock op) (h : σ.Locked lock op)
    (hstep : Step exec σ i σ') : σ'.Locked lock op := by
  obtain @⟨_, k, x, s', hc, hex⟩ := hstep
  have hi := h i
  rw [hc] at hi
  obtain ⟨held', hturn, hk⟩ := hi
  intro j
  by_cases hj : j = i
  · subst hj
    show (Function.update σ.client j (k x) j).Holding op j _ _ (decide (lock s' = some j))
    rw [Function.update_self, hl.turns hex hturn]
    exact hk x
  · show (Function.update σ.client i (k x) j).Holding op j _ _ (decide (lock s' = some j))
    rw [Function.update_of_ne hj, decide_eq_decide.mpr (hl.others hex hturn hj)]
    exact h j

/-- The discipline is kept in every interleaving. -/
theorem Reaches.locked {G : Sys S ι (Prog Req Resp ε α) → ι → Prop} (hr : Reaches exec G σ σ')
    (hl : Locking exec lock op) (h : σ.Locked lock op) : σ'.Locked lock op :=
  hr.invariant (fun _ _ _ hσ _ hstep => hσ.step hl hstep) h

/-- The client that has the lock has something to do, and does not have to wait for it. -/
theorem Locked.holder (h : σ.Locked lock op) (hi : lock σ.store = some i) :
    ∃ r k, σ.client i = .call r k ∧ op r ≠ .wait ∧ ∀ j, op r ≠ .acquire j := by
  have hhold := h i
  rw [decide_eq_true hi] at hhold
  rcases hc : σ.client i with a | e | ⟨r, k⟩ <;> rw [hc] at hhold
  · exact nomatch hhold
  · exact hhold.elim
  · obtain ⟨held', hturn, -⟩ := hhold
    refine ⟨r, k, rfl, fun hop => ?_, fun j hop => ?_⟩ <;> rw [hop] at hturn
    · exact nomatch hturn.1
    · exact nomatch hturn.2.1

/-- A client that has not ended waits for nothing, or for a client that waits for nothing, or for
what another request makes it wait for. -/
theorem Locked.moves (h : σ.Locked lock op)
    (hacquire : ∀ s r i, op r = .acquire i → lock s = none → ∃ x s', exec s r x s')
    (hother : ∀ s r, op r ≠ .wait → (∀ i, op r ≠ .acquire i) → ∃ x s', exec s r x s') (i : ι) :
    (∃ a, σ.client i = .ret a) ∨ (∃ σ', Step exec σ i σ') ∨
      (∃ j, lock σ.store = some j ∧ ∃ σ', Step exec σ j σ') ∨
      ∃ r k, σ.client i = .call r k ∧ op r = .wait := by
  rcases hc : σ.client i with a | e | ⟨r, k⟩
  · exact .inl ⟨a, rfl⟩
  · have hhold := h i
    rw [hc] at hhold
    exact hhold.elim
  by_cases hwait : op r = .wait
  · exact .inr (.inr (.inr ⟨r, k, rfl, hwait⟩))
  by_cases hacq : ∃ j, op r = .acquire j
  · obtain ⟨j, hj⟩ := hacq
    rcases hlock : lock σ.store with _ | j'
    · obtain ⟨x, s', hex⟩ := hacquire σ.store r j hj hlock
      exact .inr (.inl ⟨_, .mk hc hex⟩)
    · obtain ⟨r', k', hc', hw, ha⟩ := h.holder hlock
      obtain ⟨x, s', hex⟩ := hother σ.store r' hw ha
      exact .inr (.inr (.inl ⟨j', rfl, _, .mk hc' hex⟩))
  · obtain ⟨x, s', hex⟩ := hother σ.store r hwait (not_exists.mp hacq)
    exact .inr (.inl ⟨_, .mk hc hex⟩)

end Sys
