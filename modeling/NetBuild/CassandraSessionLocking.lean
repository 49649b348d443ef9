import NetBuild.CassandraSessionTheorems
import NetBuild.Lib.Lock

/-!
# No thread waits for good

Every thread takes the lock only when it is free, gives it back whatever happens in between, and
waits for nothing while it has it. So in every interleaving a thread that has not ended can go on,
or waits for one that can, but for a poller that nobody has started.
-/

namespace NetBuild

namespace CassandraSession

open Prog (request lift LockOp Holding holding_of_always always_lift)

variable {ι : Type}

/-- What a step is to the lock. A poller waits to be started. -/
def Req.lockOp : Req ι → LockOp ι
  | .acquire thread => .acquire thread
  | .release => .release
  | .run => .wait
  | _ => .other

section
variable {α : Type} {i : ι} {held : Bool} {R E : Bool → Prop}

theorem holding_withLock {body : Thread ι α}
    (hbody : body.Holding Req.lockOp i (· = true) (· = true) true) :
    (withLock i body).Holding Req.lockOp i (· = false) (· = false) false :=
  ⟨true, ⟨rfl, rfl, rfl⟩, fun _ => hbody.andFinally fun _ hh => ⟨false, ⟨hh, rfl⟩, fun _ => rfl⟩⟩

/-- What is done with the lock is done without regard to it. -/
theorem always_openSession :
    (openSession : Thread ι Unit).Always fun r => r.lockOp = .other := by
  refine ⟨rfl, fun session => ?_⟩
  rcases session with _ | c
  swap
  · trivial
  refine ⟨rfl, fun made => (always_lift _ _).bind fun cluster => ⟨rfl, fun ok => ?_⟩⟩
  refine (always_lift _ _).bind fun _ => ⟨rfl, fun ok => (always_lift _ _).bind fun _ => ?_⟩
  exact ⟨rfl, fun _ => ⟨rfl, fun _ => ⟨rfl, fun _ => trivial⟩⟩⟩

theorem always_closeSession :
    (closeSession : Thread ι Unit).Always fun r => r.lockOp = .other := by
  refine ⟨rfl, fun cluster => ?_⟩
  refine Prog.Always.bind (p := closeCluster cluster) ?_ fun _ => ?_
  · rcases cluster with _ | c
    · trivial
    · exact ⟨rfl, fun ok => always_lift _ _⟩
  · exact ⟨rfl, fun _ => ⟨rfl, fun _ => ⟨rfl, fun _ => trivial⟩⟩⟩

theorem always_claimPoller :
    (claimPoller i).Always fun r => r.lockOp = .other := by
  refine ⟨rfl, fun started => ?_⟩
  cases started with
  | true => trivial
  | false => exact ⟨rfl, fun _ => trivial⟩

theorem holding_connect (E : Bool → Prop) :
    (connect i).Holding Req.lockOp i (· = false) E false := by
  refine Holding.tryCatch (E := (· = false)) ?_ fun _ _ hh => ?_
  · exact (holding_withLock (holding_of_always always_openSession rfl rfl)).bind fun _ _ hh => hh
  · exact ⟨_, rfl, fun _ => hh⟩

theorem holding_isReady (E : Bool → Prop) :
    (isReady : Thread ι Bool).Holding Req.lockOp i (· = false) E false := by
  refine ⟨false, rfl, fun session => ?_⟩
  rcases session with _ | c
  · exact rfl
  refine Holding.tryCatch (E := (· = false)) ⟨false, rfl, fun session => ?_⟩ fun _ _ hh => hh
  refine Holding.bind (p := lift (orRaise .attribute session)) (R := (· = false))
    (Prog.holding_lift _ rfl rfl) fun c h hh => ⟨h, rfl, fun hosts => ?_⟩
  exact Prog.holding_lift _ hh hh

theorem holding_pollLoop (E : Bool → Prop) (n : ℕ) :
    (pollLoop i n).Holding Req.lockOp i (· = false) E false := by
  induction n with
  | zero => exact rfl
  | succ n ih =>
    refine ⟨false, rfl, fun ready => ?_⟩
    cases ready with
    | true => exact ih
    | false =>
      refine (holding_connect E).bind fun _ h hh => ?_
      rw [hh]
      exact ih

theorem holding_prog (i : ι) (job : Job) :
    (job.prog i).Holding Req.lockOp i (· = false) (fun _ => False) false := by
  cases job with
  | connect => exact (holding_connect _).attempt
  | isReady => exact (holding_isReady _).attempt
  | shutdown =>
    refine Holding.attempt (Holding.bind (holding_withLock ?_) fun _ _ hh => hh)
    exact holding_of_always always_closeSession rfl rfl
  | startPoller =>
    refine Holding.attempt (Holding.bind (R := (· = false)) ?_ fun _ _ hh => hh)
    refine (holding_withLock (holding_of_always always_claimPoller rfl rfl)).bind fun b h hh => ?_
    cases b with
    | true => exact hh
    | false => exact ⟨h, rfl, fun _ => hh⟩
  | poller n =>
    refine Holding.attempt ⟨false, ⟨rfl, rfl⟩, fun _ => ?_⟩
    exact (holding_pollLoop _ n).bind fun _ _ hh => hh

end

theorem locking : Sys.Locking (exec (ι := ι)) Globals.lock Req.lockOp where
  acquire {s r x s' i} hex hop := by
    cases r <;> simp [Req.lockOp] at hop
    subst hop
    obtain ⟨hfree, rfl⟩ := hex
    exact ⟨hfree, rfl⟩
  release {s r x s'} hex hop := by
    cases r <;> simp [Req.lockOp] at hop
    obtain rfl := hex
    rfl
  wait {s r x s'} hex hop := by
    cases r <;> simp [Req.lockOp] at hop
    obtain ⟨-, rfl⟩ := hex
    rfl
  other {s r x s'} hex hop := by
    cases r with
    | acquire | release | run => exact nomatch hop
    | getCluster | getSession | getReady | getPollerStarted => rw [hex.2]
    | newCluster | shutdown => rcases hex with ⟨-, rfl⟩ | ⟨-, rfl⟩ <;> rfl
    | _ => rw [show s' = _ from hex]

/-- The driver answers, if only with a failure. -/
theorem exec_total (s : Globals ι) (r : Req ι) (hwait : r.lockOp ≠ .wait)
    (hacquire : ∀ i, r.lockOp ≠ .acquire i) : ∃ x s', exec s r x s' := by
  cases r with
  | acquire i => exact absurd rfl (hacquire i)
  | run => exact absurd rfl hwait
  | getCluster | getSession | getReady | getPollerStarted => exact ⟨_, s, rfl, rfl⟩
  | newCluster => exact ⟨none, s, .inr ⟨rfl, rfl⟩⟩
  | shutdown c => exact ⟨false, s, .inr ⟨rfl, rfl⟩⟩
  | connect | setConsistency => exact ⟨false, s, rfl⟩
  | allHosts => exact ⟨none, s, rfl⟩
  | _ => exact ⟨(), _, rfl⟩

theorem locked_started [DecidableEq ι] (job : ι → Job) :
    (started job).Locked Globals.lock Req.lockOp := fun i => holding_prog i (job i)

/-- A thread that has not ended can take a step, or waits for the lock while the thread that has it
can, or is a poller that nobody has started. -/
theorem no_deadlock [DecidableEq ι] {job : ι → Job}
    {σ : Sys (Globals ι) ι (Thread ι (Except Failure Bool))}
    (h : Sys.Reaches exec (fun _ _ => True) (started job) σ) (i : ι) :
    (∃ o, σ.client i = .ret o) ∨ (∃ σ', Sys.Step exec σ i σ') ∨
      (∃ j, σ.store.lock = some j ∧ ∃ σ', Sys.Step exec σ j σ') ∨
      (∃ k, σ.client i = .call .run k) ∧ σ.store.running = σ.store.pollers := by
  have hlocked := h.locked locking (locked_started job)
  have hfree : ∀ (s : Globals ι) r i, Req.lockOp r = .acquire i → s.lock = none →
      ∃ x s', exec s r x s' := fun s r i hop hs => by
    cases r with
    | acquire j => exact ⟨(), _, hs, rfl⟩
    | _ => exact nomatch hop
  rcases hlocked.moves hfree exec_total i with hret | hstep | hwaits | ⟨r, k, hc, hop⟩
  · exact .inl hret
  · exact .inr (.inl hstep)
  · exact .inr (.inr (.inl hwaits))
  cases r with
  | run =>
    rcases Nat.lt_or_eq_of_le (h.upholds (upholds_started job)).1.poller.running with hlt | heq
    · exact .inr (.inl ⟨_, .mk hc (x := ()) ⟨hlt, rfl⟩⟩)
    · exact .inr (.inr (.inr ⟨⟨k, hc⟩, heq⟩))
  | _ => exact nomatch hop

/-- A thread that is to take the lock takes no step while another has it. -/
theorem not_step_of_acquire [DecidableEq ι] {σ : Sys (Globals ι) ι (Thread ι (Except Failure Bool))}
    {i j : ι} {k : Unit → Thread ι (Except Failure Bool)} (hc : σ.client i = .call (.acquire i) k)
    (hlock : σ.store.lock = some j) : ¬ ∃ σ', Sys.Step exec σ i σ' := by
  rintro ⟨σ', @⟨r, k', x, s', hc', hex⟩⟩
  obtain ⟨⟩ := hc.symm.trans hc'
  exact nomatch hlock.symm.trans hex.1

/-- One thread has the lock, and another waits for it. -/
theorem no_deadlock_askedMeanwhile : ∃ σ : Sys (Globals (Fin 3)) (Fin 3) _,
    Sys.Reaches exec (fun _ _ => True) (started askedMeanwhile) σ ∧ σ.store.lock = some 0 ∧
      (¬ ∃ σ', Sys.Step exec σ 1 σ') ∧ ∃ σ', Sys.Step exec σ 0 σ' := by
  set s₁ : Globals (Fin 3) := { (started askedMeanwhile).store with lock := some 0 }
  have hreach : Sys.Reaches exec (fun _ _ => True) (started askedMeanwhile) ⟨s₁, _⟩ :=
    Sys.Reaches.steps (σ := started askedMeanwhile) .refl 0
      (.call (x := ()) ⟨rfl, rfl⟩ (.refl _ _))
  refine ⟨_, hreach, rfl, not_step_of_acquire rfl rfl, ?_⟩
  rcases no_deadlock hreach 1 with ⟨o, ho⟩ | hstep | ⟨j, hj, hstep⟩ | ⟨⟨k, hk⟩, -⟩
  · exact nomatch ho
  · exact absurd hstep (not_step_of_acquire rfl rfl)
  · obtain rfl := Option.some.inj hj
    exact hstep
  · exact nomatch hk

end CassandraSession

end NetBuild
