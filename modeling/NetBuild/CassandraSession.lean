import NetBuild.Lib.Rely

/-!
# The shared Cassandra session

`cassandra_session` holds one cluster and one session for all threads of a process. Threads connect,
shut down, ask whether the session is ready, and start the poller that connects again; a lock guards
the globals, but `_ready` is also cleared, and everything is also read, without it.

Every read and write of a global and every call of the driver is a step, which any thread can take
between two steps of another. A session is known by the cluster it is of.
-/

namespace NetBuild

namespace CassandraSession

open Prog (request lift)

/-- The globals of the module, and of the driver: how many clusters were made, which of them have
been `_cluster` and which were shut down. `spawner` is the thread that is to start the poller,
`pollers` counts the pollers started, `running` those whose loop has begun. -/
structure Globals (ι : Type) where
  lock : Option ι
  cluster : Option ℕ
  session : Option ℕ
  ready : Bool
  pollerStarted : Bool
  made : ℕ
  stored : List ℕ
  closed : List ℕ
  spawner : Option ι
  pollers : ℕ
  running : ℕ

/-- A step of a thread. -/
inductive Req (ι : Type)
  | acquire (thread : ι)
  | release
  | getCluster
  | getSession
  | getReady
  | getPollerStarted
  | setCluster (c : Option ℕ)
  | setSession (c : Option ℕ)
  | setReady (b : Bool)
  | setPollerStarted (thread : ι)
  | newCluster
  | connect (c : ℕ)
  | setConsistency (c : ℕ)
  | shutdown (c : ℕ)
  | allHosts (c : ℕ)
  | startThread
  | run

variable {ι : Type}

/-- What a step answers: a call of the driver whether it succeeded, or what it returned. -/
abbrev Req.Resp : Req ι → Type
  | .getCluster => Option ℕ
  | .getSession => Option ℕ
  | .getReady => Bool
  | .getPollerStarted => Bool
  | .newCluster => Option ℕ
  | .connect _ => Bool
  | .setConsistency _ => Bool
  | .shutdown _ => Bool
  | .allHosts _ => Option Bool
  | _ => Unit

/-- `x` is what the step answers in `s`, and `s'` the globals after it. A thread waits for the lock
until it is free, and a poller until it is started. -/
def exec (s : Globals ι) : (r : Req ι) → r.Resp → Globals ι → Prop
  | .acquire thread, _, s' => s.lock = none ∧ s' = { s with lock := some thread }
  | .release, _, s' => s' = { s with lock := none }
  | .getCluster, (x : Option ℕ), s' => x = s.cluster ∧ s' = s
  | .getSession, (x : Option ℕ), s' => x = s.session ∧ s' = s
  | .getReady, (x : Bool), s' => x = s.ready ∧ s' = s
  | .getPollerStarted, (x : Bool), s' => x = s.pollerStarted ∧ s' = s
  | .setCluster c, _, s' => s' = { s with cluster := c, stored := c.toList ++ s.stored }
  | .setSession c, _, s' => s' = { s with session := c }
  | .setReady b, _, s' => s' = { s with ready := b }
  | .setPollerStarted thread, _, s' =>
    s' = { s with pollerStarted := true, spawner := some thread }
  | .newCluster, (x : Option ℕ), s' =>
    x = some s.made ∧ s' = { s with made := s.made + 1 } ∨ x = none ∧ s' = s
  | .connect _, _, s' => s' = s
  | .setConsistency _, _, s' => s' = s
  | .shutdown c, (ok : Bool), s' =>
    ok = true ∧ s' = { s with closed := c :: s.closed } ∨ ok = false ∧ s' = s
  | .allHosts _, _, s' => s' = s
  | .startThread, _, s' => s' = { s with spawner := none, pollers := s.pollers + 1 }
  | .run, _, s' => s.running < s.pollers ∧ s' = { s with running := s.running + 1 }

/-- An exception of the driver, or of an attribute of `None`. -/
inductive Failure
  | driver | attribute

abbrev Thread (ι α : Type) := Prog (Req ι) Req.Resp Failure α

/-- A call of the driver that fails raises. -/
def check (ok : Bool) : Except Failure Unit := if ok then .ok () else .error .driver

/-- What a call of the driver returned. -/
def orRaise {α : Type} (e : Failure) (x : Option α) : Except Failure α := x.elim (.error e) .ok

/-- `with _lock:`. -/
def withLock {α : Type} (i : ι) (body : Thread ι α) : Thread ι α := do
  request (Req.acquire i)
  body.andFinally (request Req.release)

/-- `is_ready()`. -/
def isReady : Thread ι Bool := do
  let session ← request Req.getSession
  if session = none then return false
  else
    Prog.tryCatch
      (do
        let session ← request Req.getSession
        let c ← lift (orRaise .attribute session)
        let hosts ← request (Req.allHosts c)
        lift (orRaise .driver hosts))
      (fun _ => return false)

/-- `connect()`, where it holds the lock. -/
def openSession : Thread ι Unit := do
  let session ← request Req.getSession
  if session = none then do
    let made ← request Req.newCluster
    let cluster ← lift (orRaise .driver made)
    let ok ← request (Req.connect cluster)
    lift (check ok)
    let ok ← request (Req.setConsistency cluster)
    lift (check ok)
    request (Req.setCluster (some cluster))
    request (Req.setSession (some cluster))
    request (Req.setReady true)
  else return ()

/-- `connect()`, by the thread `i`. -/
def connect (i : ι) : Thread ι Bool :=
  Prog.tryCatch
    (do
      withLock i openSession
      return true)
    (fun _ => do
      request (Req.setReady false)
      return false)

/-- `_cluster.shutdown()`, where there is one. -/
def closeCluster : Option ℕ → Thread ι Unit
  | some c => do
    let ok ← request (Req.shutdown c)
    lift (check ok)
  | none => return ()

/-- `shutdown()`, where it holds the lock. -/
def closeSession : Thread ι Unit := do
  let cluster ← request Req.getCluster
  closeCluster cluster
  request (Req.setCluster none)
  request (Req.setSession none)
  request (Req.setReady false)

/-- `shutdown()`, by the thread `i`. -/
def shutdown (i : ι) : Thread ι Unit := withLock i closeSession

/-- `_poll_loop()`, for some rounds. -/
def pollLoop (i : ι) : ℕ → Thread ι Unit
  | 0 => return ()
  | n + 1 => do
    let ready ← request Req.getReady
    if ready = true then pollLoop i n
    else do
      let _ ← connect i
      pollLoop i n

/-- `start_poller()`, where it holds the lock: whether the poller was started already. -/
def claimPoller (i : ι) : Thread ι Bool := do
  let started ← request Req.getPollerStarted
  if started = true then return true
  else do
    request (Req.setPollerStarted i)
    return false

/-- `start_poller()`, by the thread `i`. -/
def startPoller (i : ι) : Thread ι Unit := do
  let started ← withLock i (claimPoller i)
  if started = true then return () else request Req.startThread

/-- What a thread does. -/
inductive Job
  | connect | shutdown | isReady | startPoller
  | poller (rounds : ℕ)

/-- A thread, to its end: what it returns, or raises. -/
def Job.prog (i : ι) : Job → Thread ι (Except Failure Bool)
  | .connect => (CassandraSession.connect i).attempt
  | .shutdown => (do CassandraSession.shutdown i; return true : Thread ι Bool).attempt
  | .isReady => CassandraSession.isReady.attempt
  | .startPoller => (do CassandraSession.startPoller i; return true : Thread ι Bool).attempt
  | .poller rounds =>
    (do request Req.run; pollLoop i rounds; return true : Thread ι Bool).attempt

end CassandraSession

end NetBuild
