import NetBuild.CassandraSession

/-!
# One session and one poller

Threads that connect, shut down, poll and ask, in any interleaving. Whenever the lock is free the
session is that of the cluster, no cluster that was ever stored has been lost without a shutdown,
and `_ready` is set only while there is a session, so that the poller connects again whenever there
is none. And at most one poller is ever started.
-/

namespace NetBuild

namespace CassandraSession

open Prog (request lift Pact upholds_ret upholds_attempt_lift_bind)

variable {ι : Type}

/-! ## What the lock guards -/

/-- The globals as a thread that takes the lock finds them. -/
structure Good (s : Globals ι) : Prop where
  session : s.session = s.cluster
  ready : s.ready = true → s.session ≠ none
  stored : ∀ c ∈ s.stored, c ∈ s.closed ∨ s.cluster = some c

theorem Good.withLock {s : Globals ι} (h : Good s) (lock : Option ι) :
    Good { s with lock := lock } :=
  ⟨h.session, h.ready, h.stored⟩

/-- The poller is started by the thread that has claimed it, and by no other. -/
structure PollerGood (job : ι → Job) (s : Globals ι) : Prop where
  idle : s.pollerStarted = false → s.spawner = none ∧ s.pollers = 0
  started : s.pollerStarted = true →
    (∃ i, s.spawner = some i ∧ job i = .startPoller) ∧ s.pollers = 0 ∨
      s.spawner = none ∧ s.pollers = 1
  running : s.running ≤ s.pollers

structure Sound (job : ι → Job) (s : Globals ι) : Prop where
  good : s.lock = none → Good s
  poller : PollerGood job s

/-- What the lock guards is unchanged, but that `_ready` may have been cleared. -/
structure Guarded (s t : Globals ι) : Prop where
  cluster : t.cluster = s.cluster
  session : t.session = s.session
  stored : t.stored = s.stored
  closed : t.closed = s.closed
  pollerStarted : t.pollerStarted = s.pollerStarted
  ready : t.ready = true → s.ready = true

theorem Guarded.refl (s : Globals ι) : Guarded s s := ⟨rfl, rfl, rfl, rfl, rfl, id⟩

theorem Guarded.trans {s t u : Globals ι} (h : Guarded s t) (h' : Guarded t u) : Guarded s u :=
  ⟨h'.cluster.trans h.cluster, h'.session.trans h.session, h'.stored.trans h.stored,
    h'.closed.trans h.closed, h'.pollerStarted.trans h.pollerStarted, h.ready ∘ h'.ready⟩

theorem Good.of_guarded {s t : Globals ι} (h : Good s) (hg : Guarded s t) : Good t where
  session := by rw [hg.session, hg.cluster, h.session]
  ready hr := by
    rw [hg.session]
    exact h.ready (hg.ready hr)
  stored c hc := by
    rw [hg.stored] at hc
    rw [hg.closed, hg.cluster]
    exact h.stored c hc

/-- What a thread may rely on: nobody takes or releases the lock for it, starts the poller for it,
or changes what the lock guards while it has the lock. -/
structure Keeps (i : ι) (s t : Globals ι) : Prop where
  lock : t.lock = some i ↔ s.lock = some i
  spawner : t.spawner = some i ↔ s.spawner = some i
  started : s.pollerStarted = true → t.pollerStarted = true
  guarded : s.lock = some i → Guarded s t

def pact (job : ι → Job) : Pact (Globals ι) ι where
  inv := Sound job
  rely := Keeps
  refl _ s := ⟨.rfl, .rfl, id, fun _ => .refl s⟩
  trans _ _ _ _ h h' := ⟨h'.lock.trans h.lock, h'.spawner.trans h.spawner, h'.started ∘ h.started,
    fun hs => (h.guarded hs).trans (h'.guarded (h.lock.mpr hs))⟩

section
variable {job : ι → Job} {i j : ι} {s t : Globals ι} {α : Type}

/-- What the thread knows goes on holding. -/
def Stable (i : ι) (K : Globals ι → Prop) : Prop := ∀ s t, Keeps i s t → K s → K t

/-- The start of the poller is not concerned. -/
structure SamePoller (s t : Globals ι) : Prop where
  pollerStarted : t.pollerStarted = s.pollerStarted
  spawner : t.spawner = s.spawner
  pollers : t.pollers = s.pollers
  running : t.running = s.running

theorem SamePoller.refl (s : Globals ι) : SamePoller s s := ⟨rfl, rfl, rfl, rfl⟩

theorem PollerGood.congr (h : PollerGood job s) (hc : SamePoller s t) : PollerGood job t := by
  refine ⟨fun hs => ?_, fun hs => ?_, ?_⟩
  · rw [hc.spawner, hc.pollers]
    exact h.idle (hc.pollerStarted ▸ hs)
  · rw [hc.spawner, hc.pollers]
    exact h.started (hc.pollerStarted ▸ hs)
  · rw [hc.running, hc.pollers]
    exact h.running

/-- The thread that has the lock changes what it guards. -/
theorem keeps_of_locked (hs : s.lock = some i) (hj : j ≠ i) (hlock : t.lock = s.lock)
    (hspawner : t.spawner = some j ↔ s.spawner = some j)
    (hstarted : s.pollerStarted = true → t.pollerStarted = true) : Keeps j s t :=
  ⟨by rw [hlock], hspawner, hstarted, fun h => absurd (Option.some.inj (h.symm.trans hs)) hj⟩

/-- A thread that has the lock need not leave the globals as it found them before it releases it. -/
theorem Sound.of_locked (hs : s.lock = some i) (hlock : t.lock = s.lock) (hp : PollerGood job t) :
    Sound job t :=
  ⟨fun hnone => absurd (hnone.symm.trans (hlock.trans hs)) nofun, hp⟩

/-- A step of the thread that has the lock. -/
theorem upholds_of_locked {Q : α → Globals ι → Prop} {K : Globals ι → Prop} (hK : Stable i K)
    (hlocked : ∀ t, K t → t.lock = some i) {r : Req ι} {k : r.Resp → Thread ι α}
    (hstep : ∀ t x t', K t → Sound job t → exec t r x t' →
      t'.lock = t.lock ∧ SamePoller t t' ∧ (k x).Upholds exec (pact job) i Q t') (h : K s) :
    (Prog.call r k).Upholds exec (pact job) i Q s := by
  intro t ht hinv x t' hex
  have hKt := hK s t ht h
  obtain ⟨hlock, hc, hk⟩ := hstep t x t' hKt hinv hex
  exact ⟨Sound.of_locked (hlocked t hKt) hlock (hinv.poller.congr hc), fun j hj =>
    keeps_of_locked (hlocked t hKt) hj hlock (by rw [hc.spawner])
      fun hs => hc.pollerStarted.trans hs, hk⟩

/-- A read of a global. -/
theorem upholds_read {Q : α → Globals ι → Prop} {r : Req ι} {k : r.Resp → Thread ι α}
    (hread : ∀ t x t', exec t r x t' → t' = t)
    (hk : ∀ t x, Keeps i s t → Sound job t → exec t r x t →
      (k x).Upholds exec (pact job) i Q t) :
    (Prog.call r k).Upholds exec (pact job) i Q s := by
  intro t ht hinv x t' hex
  obtain rfl := hread t x t' hex
  exact ⟨hinv, fun j _ => (pact job).refl j _, hk _ x ht hinv hex⟩

/-! ## With the lock -/

/-- The thread has the lock, and the globals are as it may leave them. -/
def HasLock (i : ι) (s : Globals ι) : Prop := s.lock = some i ∧ Good s

theorem stable_hasLock : Stable i (HasLock i) := fun _ _ hk h =>
  ⟨hk.lock.mpr h.1, h.2.of_guarded (hk.guarded h.1)⟩

/-- Whatever happens to the thread with the lock, it has to leave the globals as it found them. -/
theorem upholds_withLock {body : Thread ι α} {L : Globals ι → Prop}
    {Q : Except Failure α → Globals ι → Prop} (hL : Stable i L) (hQ : ∀ o, Stable i (Q o))
    (hacquire : ∀ t, L t → L { t with lock := some i })
    (hrelease : ∀ o t, Q o t → Q o { t with lock := none })
    (hbody : ∀ t, Sound job t → HasLock i t → L t →
      body.attempt.Upholds exec (pact job) i (fun o u => HasLock i u ∧ Q o u) t) (h : L s) :
    (withLock i body).attempt.Upholds exec (pact job) i Q s := by
  intro s₁ h₁ hinv₁ x s₂ hex
  obtain ⟨hfree, rfl⟩ := hex
  have hsound : Sound job { s₁ with lock := some i } :=
    ⟨nofun, hinv₁.poller.congr ⟨rfl, rfl, rfl, rfl⟩⟩
  have hlocked : HasLock i { s₁ with lock := some i } := ⟨rfl, (hinv₁.good hfree).withLock _⟩
  refine ⟨hsound, fun j hj => ⟨?_, .rfl, id, fun hj' => nomatch hfree.symm.trans hj'⟩, ?_⟩
  · rw [hfree]
    exact iff_of_false (fun h => hj (Option.some.inj h).symm) nofun
  refine Prog.upholds_andFinally (hbody _ hsound hlocked (hacquire s₁ (hL s s₁ h₁ h))) hsound ?_
  rintro o s₃ - ⟨hlocked₃, hq₃⟩ s₄ h₄ hinv₄ y s₅ hex
  obtain rfl : s₅ = { s₄ with lock := none } := hex
  obtain ⟨hlock₄, hgood₄⟩ := stable_hasLock s₃ s₄ h₄ hlocked₃
  refine ⟨⟨fun _ => hgood₄.withLock _,
    hinv₄.poller.congr ⟨rfl, rfl, rfl, rfl⟩⟩, fun j hj => ⟨?_, .rfl, id, fun hj' => ?_⟩, ?_⟩
  · rw [hlock₄]
    exact iff_of_false nofun fun h => hj (Option.some.inj h).symm
  · exact absurd (Option.some.inj (hj'.symm.trans hlock₄)) hj
  · exact fun t ht _ => hQ o _ t ht (hrelease o s₄ (hQ o s₃ s₄ h₄ hq₃))

/-! ## `connect` and `shutdown` -/

/-- A cluster is stored: the session is to follow. -/
structure Opening (i : ι) (c : ℕ) (s : Globals ι) : Prop where
  lock : s.lock = some i
  session : s.session = none
  cluster : s.cluster = some c
  ready : s.ready ≠ true
  stored : ∀ c' ∈ s.stored, c' ∈ s.closed ∨ c' = c

theorem stable_opening {c : ℕ} : Stable i (Opening i c) := fun s t hk h => by
  have hg := hk.guarded h.lock
  exact ⟨hk.lock.mpr h.lock, hg.session.trans h.session, hg.cluster.trans h.cluster,
    fun hr => h.ready (hg.ready hr), by rw [hg.stored, hg.closed]; exact h.stored⟩

/-- There is no cluster that is not shut down. -/
structure Closing (i : ι) (s : Globals ι) : Prop where
  lock : s.lock = some i
  ready : s.ready = true → s.session ≠ none
  stored : ∀ c ∈ s.stored, c ∈ s.closed

theorem stable_closing : Stable i (Closing i) := fun s t hk h => by
  have hg := hk.guarded h.lock
  exact ⟨hk.lock.mpr h.lock, fun hr => by rw [hg.session]; exact h.ready (hg.ready hr),
    by rw [hg.stored, hg.closed]; exact h.stored⟩

theorem upholds_check {Q : Except Failure α → Globals ι → Prop} {ok : Bool} {f : Unit → Thread ι α}
    (hf : (f ()).attempt.Upholds exec (pact job) i Q s)
    (he : ∀ t, Keeps i s t → Q (.error .driver) t) :
    (lift (check ok) >>= f).attempt.Upholds exec (pact job) i Q s := by
  cases ok with
  | false => exact fun t ht _ => he t ht
  | true => exact hf

/-- There is no session yet. -/
def Unopened (i : ι) (s : Globals ι) : Prop := HasLock i s ∧ s.session = none

theorem stable_unopened : Stable i (Unopened i) := fun s t hk h =>
  ⟨stable_hasLock s t hk h.1, (hk.guarded h.1.1).session.trans h.2⟩

theorem Unopened.made (h : Unopened i s) : Unopened i { s with made := s.made + 1 } :=
  ⟨⟨h.1.1, h.1.2.session, h.1.2.ready, h.1.2.stored⟩, h.2⟩

/-- Where there is no session, every cluster that was stored is shut down. -/
theorem Unopened.store (h : Unopened i s) (c : ℕ) :
    Opening i c { s with cluster := some c, stored := c :: s.stored } where
  lock := h.1.1
  session := h.2
  cluster := rfl
  ready hr := h.1.2.ready hr h.2
  stored c' hc' := by
    rcases List.mem_cons.mp hc' with rfl | hc'
    · exact .inr rfl
    · refine (h.1.2.stored c' hc').imp id fun hcl => ?_
      rw [← h.1.2.session, h.2] at hcl
      exact nomatch hcl

theorem Opening.open {c : ℕ} (h : Opening i c s) : HasLock i { s with session := some c } :=
  ⟨h.lock, h.cluster.symm, fun hr => absurd hr h.ready, fun c' hc' =>
    (h.stored c' hc').imp id fun hcc => by rw [hcc]; exact h.cluster⟩

theorem upholds_openSession (h : HasLock i s) :
    (openSession : Thread ι Unit).attempt.Upholds exec (pact job) i (fun _ => HasLock i) s := by
  have hfail : ∀ (e : Failure) u, Unopened i u →
      (.ret (.error e) : Thread ι (Except Failure Unit)).Upholds exec (pact job) i
        (fun _ => HasLock i) u :=
    fun e u hu => upholds_ret fun t ht _ => stable_hasLock u t ht hu.1
  refine upholds_of_locked stable_hasLock (fun _ => And.left) (fun t x t' ht _ hex => ?_) h
  obtain ⟨hx, rfl⟩ : x = t.session ∧ t' = t := hex
  refine ⟨rfl, .refl _, ?_⟩
  rcases x with _ | c
  swap
  · exact upholds_ret fun u hu _ => stable_hasLock _ u hu ht
  have hlocked : ∀ t, Unopened i t → t.lock = some i := fun _ ht => ht.1.1
  refine upholds_of_locked stable_unopened hlocked (fun t x t' ht _ hex => ?_) ⟨ht, hx.symm⟩
  rcases hex with ⟨rfl, rfl⟩ | ⟨rfl, rfl⟩
  swap
  · exact ⟨rfl, .refl _, hfail _ _ ht⟩
  refine ⟨rfl, ⟨rfl, rfl, rfl, rfl⟩, ?_⟩
  refine upholds_of_locked stable_unopened hlocked (fun u ok u' hu _ hex => ?_) ht.made
  obtain rfl : u' = u := hex
  refine ⟨rfl, .refl _, upholds_check ?_ fun v hv => stable_hasLock _ v hv hu.1⟩
  refine upholds_of_locked stable_unopened hlocked (fun u ok u' hu _ hex => ?_) hu
  obtain rfl : u' = u := hex
  refine ⟨rfl, .refl _, upholds_check ?_ fun v hv => stable_hasLock _ v hv hu.1⟩
  refine upholds_of_locked stable_unopened hlocked (fun u _ u' hu _ hex => ?_) hu
  obtain rfl : u' = { u with cluster := some t.made, stored := t.made :: u.stored } := hex
  refine ⟨rfl, ⟨rfl, rfl, rfl, rfl⟩, ?_⟩
  refine upholds_of_locked stable_opening (fun _ => Opening.lock) (fun v _ v' hv _ hex => ?_)
    (hu.store t.made)
  obtain rfl : v' = { v with session := some t.made } := hex
  refine ⟨rfl, ⟨rfl, rfl, rfl, rfl⟩, ?_⟩
  -- the session is there, and stays, when `_ready` is set
  have hopen : Stable i fun w => HasLock i w ∧ w.session ≠ none := fun w w' hk hw =>
    ⟨stable_hasLock w w' hk hw.1, by rw [(hk.guarded hw.1.1).session]; exact hw.2⟩
  refine upholds_of_locked hopen (fun _ hw => hw.1.1) (fun w _ w' hw _ hex => ?_) ⟨hv.open, nofun⟩
  obtain rfl : w' = { w with ready := true } := hex
  have hset : HasLock i { w with ready := true } :=
    ⟨hw.1.1, hw.1.2.session, fun _ => hw.2, hw.1.2.stored⟩
  exact ⟨rfl, ⟨rfl, rfl, rfl, rfl⟩, upholds_ret fun u hu _ => stable_hasLock _ u hu hset⟩

/-- Where there was a cluster, it is shut down. -/
theorem upholds_closeCluster (h : HasLock i s) {x : Option ℕ} (hx : s.cluster = x) :
    (closeCluster x : Thread ι Unit).attempt.Upholds exec (pact job) i
      (fun o t => HasLock i t ∧ (o = .ok () → Closing i t)) s := by
  have hclosing : ∀ t, HasLock i t → (∀ c ∈ t.stored, c ∈ t.closed) → Closing i t :=
    fun t ht hc => ⟨ht.1, ht.2.ready, hc⟩
  rcases x with _ | c
  · refine upholds_ret fun t ht _ => ⟨stable_hasLock s t ht h, fun _ => ?_⟩
    refine stable_closing s t ht (hclosing s h fun c hc => (h.2.stored c hc).resolve_right ?_)
    rw [hx]
    exact nofun
  have hcluster : Stable i fun t => HasLock i t ∧ t.cluster = some c := fun t u hk ht =>
    ⟨stable_hasLock t u hk ht.1, (hk.guarded ht.1.1).cluster.trans ht.2⟩
  refine upholds_of_locked hcluster (fun _ ht => ht.1.1) (fun t ok t' ht _ hex => ?_) ⟨h, hx⟩
  obtain ⟨hlock, hc⟩ := ht
  rcases hex with ⟨rfl, rfl⟩ | ⟨rfl, rfl⟩
  · refine ⟨rfl, ⟨rfl, rfl, rfl, rfl⟩, upholds_ret fun u hu _ => ?_⟩
    have hshut : HasLock i { t with closed := c :: t.closed } :=
      ⟨hlock.1, hlock.2.session, hlock.2.ready, fun c' hc' =>
        (hlock.2.stored c' hc').imp (List.mem_cons_of_mem c) id⟩
    refine ⟨stable_hasLock _ u hu hshut, fun _ => stable_closing _ u hu ?_⟩
    refine hclosing _ hshut fun c' hc' => (hlock.2.stored c' hc').elim (List.mem_cons_of_mem c) ?_
    intro hcc
    rw [Option.some.inj (hcc.symm.trans hc)]
    exact List.mem_cons_self
  · exact ⟨rfl, .refl _, upholds_ret fun u hu _ => ⟨stable_hasLock _ u hu hlock, nofun⟩⟩

theorem upholds_closeSession (h : HasLock i s) :
    (closeSession : Thread ι Unit).attempt.Upholds exec (pact job) i (fun _ => HasLock i) s := by
  refine upholds_of_locked stable_hasLock (fun _ => And.left) (fun t x t' ht hinv hex => ?_) h
  obtain ⟨rfl, rfl⟩ : x = t.cluster ∧ t' = t := hex
  refine ⟨rfl, .refl _, ?_⟩
  refine (upholds_closeCluster ht rfl).attempt_bind hinv (fun _ u _ hu => ?_)
    fun e u v hu hv _ => stable_hasLock u v hv hu.1
  refine upholds_of_locked stable_closing (fun _ => Closing.lock) (fun v _ v' hv _ hex => ?_)
    (hu.2 rfl)
  obtain rfl : v' = { v with cluster := none, stored := v.stored } := hex
  refine ⟨rfl, ⟨rfl, rfl, rfl, rfl⟩, ?_⟩
  -- the cluster is gone, and the session is to follow
  have hgone : Stable i fun w => Closing i w ∧ w.cluster = none := fun w w' hk hw =>
    ⟨stable_closing w w' hk hw.1, (hk.guarded hw.1.lock).cluster.trans hw.2⟩
  refine upholds_of_locked hgone (fun _ hw => hw.1.lock) (fun w _ w' hw _ hex => ?_)
    ⟨⟨hv.lock, hv.ready, hv.stored⟩, rfl⟩
  obtain rfl : w' = { w with session := none } := hex
  refine ⟨rfl, ⟨rfl, rfl, rfl, rfl⟩, ?_⟩
  have hboth : Stable i fun w => w.lock = some i ∧ w.cluster = none ∧ w.session = none ∧
      ∀ c ∈ w.stored, c ∈ w.closed := by
    rintro w w' hk ⟨hlock, hc, hs, hstored⟩
    have hg := hk.guarded hlock
    exact ⟨hk.lock.mpr hlock, hg.cluster.trans hc, hg.session.trans hs,
      by rw [hg.stored, hg.closed]; exact hstored⟩
  refine upholds_of_locked hboth (fun _ hy => hy.1) (fun y _ y' hy _ hex => ?_)
    ⟨hw.1.lock, hw.2, rfl, hw.1.stored⟩
  obtain rfl : y' = { y with ready := false } := hex
  obtain ⟨hlock, hc, hs, hstored⟩ := hy
  have hclear : HasLock i { y with ready := false } :=
    ⟨hlock, hs.trans hc.symm, nofun, fun c hcs => .inl (hstored c hcs)⟩
  exact ⟨rfl, ⟨rfl, rfl, rfl, rfl⟩, upholds_ret fun z hz _ => stable_hasLock _ z hz hclear⟩

/-- `connect` returns, whatever is raised meanwhile. -/
theorem upholds_connect (hs : Sound job s) :
    (connect i).attempt.Upholds exec (pact job) i (fun o _ => ∃ b, o = .ok b) s := by
  have hopen : (withLock i openSession).attempt.Upholds exec (pact job) i (fun _ _ => True) s :=
    upholds_withLock (L := fun _ => True) (fun _ _ _ _ => trivial) (fun _ _ _ _ _ => trivial)
      (fun _ _ => trivial) (fun _ _ _ => trivial)
      (fun _ _ ht _ => (upholds_openSession ht).mono fun _ _ _ hu => ⟨hu, trivial⟩) trivial
  refine Prog.upholds_tryCatch (Q := fun _ _ => True) ?_ hs (fun b _ _ _ => ⟨b, rfl⟩)
    fun e t hinv _ => ?_
  · exact hopen.attempt_bind hs (fun _ _ _ _ => fun _ _ _ => trivial) fun _ _ _ _ _ _ => trivial
  · -- `_ready` is cleared without the lock
    intro u _ hinvu x u' hex
    obtain rfl : u' = { u with ready := false } := hex
    refine ⟨⟨fun hfree => ?_, hinvu.poller.congr ⟨rfl, rfl, rfl, rfl⟩⟩, fun j _ =>
      ⟨.rfl, .rfl, id, fun _ => ⟨rfl, rfl, rfl, rfl, rfl, nofun⟩⟩, fun _ _ _ => ⟨false, rfl⟩⟩
    have hgood := hinvu.good hfree
    exact ⟨hgood.session, nofun, hgood.stored⟩

theorem upholds_shutdown (s : Globals ι) :
    (shutdown i).attempt.Upholds exec (pact job) i (fun _ _ => True) s :=
  upholds_withLock (L := fun _ => True) (fun _ _ _ _ => trivial) (fun _ _ _ _ _ => trivial)
    (fun _ _ => trivial) (fun _ _ _ => trivial)
    (fun _ _ ht _ => (upholds_closeSession ht).mono fun _ _ _ hu => ⟨hu, trivial⟩) trivial

/-- `is_ready` returns, also where the session goes away while it asks. -/
theorem upholds_isReady (s : Globals ι) :
    (isReady : Thread ι Bool).attempt.Upholds exec (pact job) i (fun o _ => ∃ b, o = .ok b) s := by
  refine upholds_read (fun _ _ _ hex => hex.2) fun t x _ hinv _ => ?_
  rcases x with _ | c
  · exact upholds_ret fun _ _ _ => ⟨false, rfl⟩
  refine Prog.upholds_tryCatch (Q := fun _ _ => True) ?_ hinv (fun b _ _ _ => ⟨b, rfl⟩)
    fun _ _ _ _ => upholds_ret fun _ _ _ => ⟨false, rfl⟩
  refine upholds_read (fun _ _ _ hex => hex.2) fun u x _ _ _ => ?_
  refine upholds_attempt_lift_bind (fun c _ => ?_) fun _ _ _ _ _ => trivial
  refine upholds_read (fun _ _ _ hex => hex) fun v hosts _ _ _ => ?_
  cases hosts <;> exact fun _ _ _ => trivial

/-! ## The poller -/

/-- What a thread knows that has asked for the poller: whether it is to start it. -/
def Claimed (i : ι) (o : Except Failure Bool) (s : Globals ι) : Prop :=
  ∃ b, o = .ok b ∧ s.pollerStarted = true ∧ (s.spawner = some i ↔ b = false)

theorem stable_claimed (o : Except Failure Bool) : Stable i (Claimed i o) := fun _ _ hk h =>
  h.imp fun _ hb => ⟨hb.1, hk.started hb.2.1, hk.spawner.trans hb.2.2⟩

theorem upholds_claimPoller (hjob : job i = .startPoller) (h : HasLock i s)
    (hfree : s.spawner ≠ some i) :
    (claimPoller i).attempt.Upholds exec (pact job) i
      (fun o t => HasLock i t ∧ Claimed i o t) s := by
  have hK : Stable i fun t => HasLock i t ∧ t.spawner ≠ some i := fun t u hk ht =>
    ⟨stable_hasLock t u hk ht.1, fun hu => ht.2 (hk.spawner.mp hu)⟩
  refine upholds_of_locked hK (fun _ ht => ht.1.1) (fun t x t' ht _ hex => ?_) ⟨h, hfree⟩
  obtain ⟨hx, rfl⟩ : x = t.pollerStarted ∧ t' = t := hex
  refine ⟨rfl, .refl _, ?_⟩
  rcases x with _ | _
  swap
  · exact upholds_ret fun u hu _ => ⟨stable_hasLock _ u hu ht.1,
      stable_claimed _ _ u hu ⟨true, rfl, hx.symm, iff_of_false ht.2 nofun⟩⟩
  intro u hu hinv _ u' hex
  obtain rfl : u' = { u with pollerStarted := true, spawner := some i } := hex
  obtain ⟨hlock, hfree⟩ := hK _ u hu ht
  obtain ⟨hnone, hzero⟩ := hinv.poller.idle ((hu.guarded ht.1.1).pollerStarted.trans hx.symm)
  have hset : HasLock i { u with pollerStarted := true, spawner := some i } :=
    ⟨hlock.1, hlock.2.session, hlock.2.ready, hlock.2.stored⟩
  refine ⟨Sound.of_locked hlock.1 rfl ⟨nofun, fun _ => .inl ⟨⟨i, rfl, hjob⟩, hzero⟩,
    hinv.poller.running⟩, fun j hj => keeps_of_locked hlock.1 hj rfl ?_ fun _ => rfl, ?_⟩
  · rw [hnone]
    exact iff_of_false (fun h => hj (Option.some.inj h).symm) nofun
  · exact upholds_ret fun v hv _ => ⟨stable_hasLock _ v hv hset,
      stable_claimed _ _ v hv ⟨false, rfl, rfl, iff_of_true rfl rfl⟩⟩

/-- The thread that has claimed the poller starts it. -/
theorem upholds_startPoller (hjob : job i = .startPoller) (hs : Sound job s)
    (hfree : s.spawner ≠ some i) :
    (startPoller i).attempt.Upholds exec (pact job) i
      (fun o t => o = .ok () ∧ t.pollerStarted = true ∧ t.spawner ≠ some i) s := by
  have hL : Stable i fun t => t.spawner ≠ some i := fun t u hk ht hu => ht (hk.spawner.mp hu)
  refine (upholds_withLock (Q := Claimed i) hL stable_claimed (fun _ ht => ht) (fun _ _ h => h)
    (fun t _ ht hfree => upholds_claimPoller hjob ht hfree) hfree).attempt_bind hs ?_ ?_
  swap
  · exact fun e t u ⟨b, hb, _⟩ => nomatch hb
  rintro b t - ⟨b', hb, hstarted, hspawner⟩
  obtain rfl := Except.ok.inj hb
  cases b with
  | true =>
    refine upholds_ret fun u hu _ => ⟨rfl, hu.started hstarted, fun hi => ?_⟩
    exact nomatch hspawner.mp (hu.spawner.mp hi)
  | false =>
    intro u hu hinv _ u' hex
    obtain rfl : u' = { u with spawner := none, pollers := u.pollers + 1 } := hex
    have hspawner' : u.spawner = some i := hu.spawner.mpr (hspawner.mpr rfl)
    have hstarted' := hu.started hstarted
    have hzero : u.pollers = 0 := by
      rcases hinv.poller.started hstarted' with ⟨-, hzero⟩ | ⟨hnone, -⟩
      · exact hzero
      · exact nomatch hnone.symm.trans hspawner'
    have hpoller : PollerGood job { u with spawner := none, pollers := u.pollers + 1 } := by
      have hrunning := hinv.poller.running
      refine ⟨fun hno => absurd (hstarted'.symm.trans hno) nofun, fun _ => .inr ⟨rfl, ?_⟩, ?_⟩
      · show u.pollers + 1 = 1
        omega
      · show u.running ≤ u.pollers + 1
        omega
    refine ⟨⟨fun hlock => ?_, hpoller⟩, fun j hj => ⟨.rfl, ?_, id, fun _ =>
      ⟨rfl, rfl, rfl, rfl, rfl, id⟩⟩, ?_⟩
    · have hgood := hinv.good hlock
      exact ⟨hgood.session, hgood.ready, hgood.stored⟩
    · rw [hspawner']
      exact iff_of_false nofun fun h => hj (Option.some.inj h).symm
    · exact upholds_ret fun v hv _ =>
        ⟨rfl, hv.started hstarted', fun hi => nomatch hv.spawner.mp hi⟩

/-- The loop of the poller returns from every round. -/
theorem upholds_pollLoop (n : ℕ) (hs : Sound job s) :
    (pollLoop i n).attempt.Upholds exec (pact job) i (fun o _ => o = .ok ()) s := by
  induction n generalizing s with
  | zero => exact fun _ _ _ => rfl
  | succ n ih =>
    refine upholds_read (fun _ _ _ hex => hex.2) fun t x _ hinv _ => ?_
    cases x with
    | true => exact ih hinv
    | false =>
      refine (upholds_connect hinv).attempt_bind hinv (fun _ _ hinv' _ => ih hinv') ?_
      exact fun e t u ⟨b, hb⟩ => nomatch hb

/-! ## Any interleaving -/

/-- What a thread leaves when it has ended. -/
structure Ended (job : ι → Job) (i : ι) (o : Except Failure Bool) (s : Globals ι) : Prop where
  returned : job i ≠ .shutdown → ∃ b, o = .ok b
  started : job i = .startPoller → s.pollerStarted = true ∧ s.spawner ≠ some i

theorem upholds_prog (hs : Sound job s) (hfree : s.spawner ≠ some i) :
    ((job i).prog i).Upholds exec (pact job) i (Ended job i) s := by
  rcases hjob : job i with _ | _ | _ | _ | n
  case connect =>
    refine (upholds_connect hs).mono fun _ _ _ h => ⟨fun _ => h, fun hno => ?_⟩
    exact nomatch hjob.symm.trans hno
  case shutdown =>
    refine (upholds_shutdown s).attempt_bind hs (fun _ _ _ _ => fun _ _ _ => ?_)
      fun _ _ _ _ _ _ => ?_
    · exact ⟨fun _ => ⟨true, rfl⟩, fun hno => nomatch hjob.symm.trans hno⟩
    · exact ⟨fun hno => absurd hjob hno, fun hno => nomatch hjob.symm.trans hno⟩
  case isReady =>
    refine (upholds_isReady s).mono fun _ _ _ h => ⟨fun _ => h, fun hno => ?_⟩
    exact nomatch hjob.symm.trans hno
  case startPoller =>
    refine (upholds_startPoller hjob hs hfree).attempt_bind hs (fun _ t _ ht => ?_) ?_
    · exact fun u hu _ => ⟨fun _ => ⟨true, rfl⟩, fun _ =>
        ⟨hu.started ht.2.1, fun hi => ht.2.2 (hu.spawner.mp hi)⟩⟩
    · exact fun e t u h => nomatch h.1
  case poller =>
    intro t _ hinv _ t' hex
    obtain ⟨hlt, rfl⟩ := hex
    have hp := hinv.poller
    have hsound : Sound job { t with running := t.running + 1 } :=
      ⟨fun hlock => ⟨(hinv.good hlock).session, (hinv.good hlock).ready, (hinv.good hlock).stored⟩,
        hp.idle, hp.started, hlt⟩
    refine ⟨hsound, fun j _ => ⟨.rfl, .rfl, id, fun _ => ⟨rfl, rfl, rfl, rfl, rfl, id⟩⟩, ?_⟩
    refine (upholds_pollLoop n hsound).attempt_bind hsound (fun _ _ _ _ => fun _ _ _ => ?_)
      fun e u v h => nomatch h
    exact ⟨fun _ => ⟨true, rfl⟩, fun hno => nomatch hjob.symm.trans hno⟩

/-- No thread has taken a step. -/
def started (job : ι → Job) : Sys (Globals ι) ι (Thread ι (Except Failure Bool)) where
  store :=
    { lock := none, cluster := none, session := none, ready := false, pollerStarted := false,
      made := 0, stored := [], closed := [], spawner := none, pollers := 0, running := 0 }
  client i := (job i).prog i

theorem upholds_started (job : ι → Job) :
    (started job).Upholds exec (pact job) (Ended job) := by
  have hs : Sound job (started job).store :=
    ⟨fun _ => ⟨rfl, nofun, nofun⟩, fun _ => ⟨rfl, rfl⟩, nofun, Nat.le_refl _⟩
  exact ⟨hs, fun i => upholds_prog hs nofun⟩

/-- A connection that succeeds. -/
theorem run_connect {s : Globals ι} (i : ι) (hlock : s.lock = none) (hsession : s.session = none) :
    Prog.Run exec s (connect i)
      { s with
        cluster := some s.made, session := some s.made, ready := true, made := s.made + 1
        stored := s.made :: s.stored } (.ok true) := by
  have hend : { s with
      lock := none, cluster := some s.made, session := some s.made, ready := true
      made := s.made + 1, stored := s.made :: s.stored } = { s with
        cluster := some s.made, session := some s.made, ready := true, made := s.made + 1
        stored := s.made :: s.stored } := by
    rw [← hlock]
  rw [← hend]
  refine .call (x := ()) ⟨hlock, rfl⟩ (.call (x := none) ⟨hsession.symm, rfl⟩ ?_)
  refine .call (x := some s.made) (.inl ⟨rfl, rfl⟩)
    (.call (x := true) rfl (.call (x := true) rfl ?_))
  refine .call (x := ()) rfl (.call (x := ()) rfl (.call (x := ()) rfl (.call (x := ()) rfl ?_)))
  exact .ret _ _

/-- A shutdown that succeeds. -/
theorem run_shutdown {s : Globals ι} (i : ι) (c : ℕ) (hlock : s.lock = none)
    (hcluster : s.cluster = some c) :
    Prog.Run exec s (shutdown i)
      { s with cluster := none, session := none, ready := false, closed := c :: s.closed }
      (.ok ()) := by
  have hend : { s with
      lock := none, cluster := none, session := none, ready := false, closed := c :: s.closed } =
      { s with cluster := none, session := none, ready := false, closed := c :: s.closed } := by
    rw [← hlock]
  rw [← hend]
  refine .call (x := ()) ⟨hlock, rfl⟩ (.call (x := some c) ⟨hcluster.symm, rfl⟩ ?_)
  refine .call (x := true) (.inl ⟨rfl, rfl⟩) (.call (x := ()) rfl (.call (x := ()) rfl ?_))
  exact .call (x := ()) rfl (.call (x := ()) rfl (.ret _ _))

variable [DecidableEq ι] {σ : Sys (Globals ι) ι (Thread ι (Except Failure Bool))}

/-- In every interleaving, and whatever of the driver fails: while no thread has the lock, the
session is that of the cluster, a cluster that was ever stored is still there or has been shut down,
and where there is no session `_ready` is cleared, so that the poller connects. No thread but one
that shuts down ever raises. -/
theorem session_is_of_cluster (h : Sys.Reaches exec (fun _ _ => True) (started job) σ) :
    (σ.store.lock = none → Good σ.store) ∧
      ∀ i o, σ.client i = .ret o → job i ≠ .shutdown → ∃ b, o = .ok b := by
  have hup := h.upholds (upholds_started job)
  exact ⟨hup.1.good, fun i o hi => (hup.done hi).returned⟩

/-- A thread that connects, one that shuts down, and one that asks meanwhile. -/
def askedMeanwhile : Fin 3 → Job
  | 0 => .connect
  | 1 => .shutdown
  | 2 => .isReady

/-- The session goes away while it is asked for, and asking answers that it is not ready. -/
theorem session_is_of_cluster_askedMeanwhile : ∃ σ : Sys (Globals (Fin 3)) (Fin 3) _,
    Sys.Reaches exec (fun _ _ => True) (started askedMeanwhile) σ ∧
      σ.client 2 = .ret (.ok false) ∧ σ.store.stored = [0] ∧ σ.store.closed = [0] ∧
      Good σ.store := by
  have hconnect := @run_connect _ (started askedMeanwhile).store 0 rfl rfl
  set s₁ : Globals (Fin 3) := { (started askedMeanwhile).store with
    cluster := some 0, session := some 0, ready := true, made := 0 + 1, stored := [0] }
  have hask : Prog.Steps exec s₁ (isReady : Thread (Fin 3) Bool) s₁ _ :=
    .call (x := some 0) ⟨rfl, rfl⟩ (.refl _ _)
  have hshutdown := @run_shutdown _ s₁ 1 0 rfl rfl
  set s₂ : Globals (Fin 3) :=
    { s₁ with cluster := none, session := none, ready := false, closed := [0] }
  have hreach : Sys.Reaches exec (fun _ _ => True) (started askedMeanwhile) ⟨s₁, _⟩ :=
    Sys.Reaches.steps (σ := started askedMeanwhile) .refl 0 hconnect.steps.attempt
  have hreach := hreach.steps 2 hask.attempt
  have hreach := hreach.steps 1 (hshutdown.steps.bind fun _ => .ret true).attempt
  have hreach := hreach.steps 2 (.call (s := s₂) (x := none) ⟨rfl, rfl⟩ (.refl _ _))
  exact ⟨_, hreach, rfl, rfl, rfl, (session_is_of_cluster hreach).1 rfl⟩

/-- However many threads start the poller, and however they interleave, one poller is started in
all: never a second one, and when they have all ended there is one. -/
theorem one_poller (h : Sys.Reaches exec (fun _ _ => True) (started job) σ) :
    σ.store.running ≤ σ.store.pollers ∧ σ.store.pollers ≤ 1 ∧
      ((∃ i, job i = .startPoller) →
        (∀ i, job i = .startPoller → ∃ o, σ.client i = .ret o) → σ.store.pollers = 1) := by
  have hup := h.upholds (upholds_started job)
  have hp := hup.1.poller
  refine ⟨hp.running, ?_, fun ⟨i, hi⟩ hend => ?_⟩
  · rcases hstarted : σ.store.pollerStarted with _ | _
    · rw [(hp.idle hstarted).2]
      exact Nat.zero_le 1
    · rcases hp.started hstarted with ⟨-, hn⟩ | ⟨-, hn⟩ <;> omega
  · have hended : ∀ j, job j = .startPoller →
        σ.store.pollerStarted = true ∧ σ.store.spawner ≠ some j := fun j hj => by
      obtain ⟨o, ho⟩ := hend j hj
      exact (hup.done ho).started hj
    rcases hp.started (hended i hi).1 with ⟨⟨j, hspawner, hj⟩, -⟩ | ⟨-, hn⟩
    · exact absurd hspawner (hended j hj).2
    · exact hn

/-- Two threads that start the poller, and the poller. -/
def startTwice : Fin 3 → Job
  | 0 => .startPoller
  | 1 => .startPoller
  | 2 => .poller 1

/-- The second thread asks when the first has claimed the poller and not started it yet. -/
theorem one_poller_startTwice : ∃ σ : Sys (Globals (Fin 3)) (Fin 3) _,
    Sys.Reaches exec (fun _ _ => True) (started startTwice) σ ∧
      (∀ i, ∃ o, σ.client i = .ret o) ∧ σ.store.running = 1 ∧ σ.store.pollers = 1 := by
  set s₀ := (started startTwice).store
  set s₁ : Globals (Fin 3) := { s₀ with pollerStarted := true, spawner := some 0 }
  have hclaim : Prog.Steps exec s₀ (startTwice 0 |>.prog 0) s₁ _ :=
    .call (x := ()) ⟨rfl, rfl⟩ (.call (x := false) ⟨rfl, rfl⟩ (.call (x := ()) rfl
      (.call (x := ()) rfl (.refl _ _))))
  have hasked : Prog.Steps exec s₁ (startTwice 1 |>.prog 1) s₁ (.ret (.ok true)) :=
    .call (x := ()) ⟨rfl, rfl⟩ (.call (x := true) ⟨rfl, rfl⟩ (.call (x := ()) rfl (.refl _ _)))
  set s₂ : Globals (Fin 3) := { s₁ with spawner := none, pollers := 1 }
  set s₃ : Globals (Fin 3) := { s₂ with running := 1 }
  obtain ⟨s₄, hrunning, hround⟩ : ∃ s₄ : Globals (Fin 3), s₄.running = 1 ∧
      Prog.Steps exec s₃ (connect 2 >>= fun _ => pollLoop 2 0) s₄ (.ret ()) :=
    ⟨_, rfl, (@run_connect _ s₃ 2 rfl rfl).steps.bind fun _ => pollLoop 2 0⟩
  have hloop : Prog.Steps exec s₂ (startTwice 2 |>.prog 2) s₄ (.ret (.ok true)) := by
    have hrun : exec s₂ .run () s₃ := ⟨Nat.zero_lt_one, rfl⟩
    refine .call hrun ?_
    refine .call (x := false) ⟨rfl, rfl⟩ ?_
    exact (hround.bind fun _ => .ret true).attempt
  have hreach : Sys.Reaches exec (fun _ _ => True) (started startTwice) ⟨s₁, _⟩ :=
    Sys.Reaches.steps (σ := started startTwice) .refl 0 hclaim
  have hreach := hreach.steps 1 hasked
  have hstart : exec s₁ .startThread () s₂ := rfl
  have hreach := hreach.steps 0 (.call hstart (.refl _ _))
  have hreach := hreach.steps 2 hloop
  refine ⟨_, hreach, fun i => ?_, hrunning, (one_poller hreach).2.2 ⟨0, rfl⟩ fun i _ => ?_⟩
  all_goals
    match i with
    | 0 => exact ⟨_, rfl⟩
    | 1 => exact ⟨_, rfl⟩
    | 2 => exact ⟨_, rfl⟩

end

end CassandraSession

end NetBuild
