/-
  Mnet.Pool

  `mnet_run` with its worker pool, from mnet_server.c: the bounded queue, the
  accept loop that pushes, the workers that pop, and the shutdown.

  Every mutex-protected section is one atomic step of the thread that runs it,
  and what lies between two sections is a program point.  A thread that waits
  on a condition variable takes no step: `mnetPoolPush` and `mnetPoolPop` answer
  `none` where they wait, and look again at any later moment, as they do after a
  wakeup.
-/

import Mnet.Internal
import Mnet.Lib.RingBuffer
import Mnet.Lib.Transition

namespace Mnet

/-- `mnet_socket_t`. -/
abbrev MnetSocket := Int

abbrev MNET_INVALID_SOCKET : MnetSocket := -1

-- ============================================================================
-- The queue
-- ============================================================================

/-- `mnet_pool_t`: a ring of sockets and the shutdown flag. -/
structure MnetPool extends RingBuffer MnetSocket where
  shuttingDown : Bool

namespace MnetPool

/-- The queued sockets, in the order they were pushed. -/
abbrev queued (pool : MnetPool) : List MnetSocket := pool.toRingBuffer.contents

/-- What `mnet_run` sets up: `memset` and two `malloc`s, so the slots hold
    anything. -/
def fresh (slots : Nat → MnetSocket) (capacity : Nat) : MnetPool :=
  { slots, capacity, head := 0, count := 0, shuttingDown := false }

/-- `client` in the slot behind the last one, and `count++`. -/
def enqueue (pool : MnetPool) (client : MnetSocket) : MnetPool :=
  { pool with toRingBuffer := pool.toRingBuffer.put client }

/-- The head goes one slot on, and `count--`. -/
def dequeue (pool : MnetPool) : MnetPool :=
  { pool with toRingBuffer := pool.toRingBuffer.rest }

/-- `shutting_down = 1`. -/
def shutDown (pool : MnetPool) : MnetPool := { pool with shuttingDown := true }

end MnetPool

/-- The wait loop of `mnet_pool_push`: the pool it leaves, or `none` while it
    waits.  A full queue on a stopping server sets the flag. -/
def awaitSlot (running : Bool) (pool : MnetPool) : Option MnetPool :=
  if pool.count = pool.capacity ∧ pool.shuttingDown = false then
    if running then none else some pool.shutDown
  else some pool

/-- `mnet_pool_push`: its result and the pool behind it. -/
def mnetPoolPush (running : Bool) (pool : MnetPool) (client : MnetSocket) :
    Option (Int × MnetPool) :=
  match awaitSlot running pool with
  | none => none
  | some pool => some (if pool.shuttingDown then (-1, pool) else (0, pool.enqueue client))

/-- `mnet_pool_pop`: `some client` where it returns 0 with the client in `*out`,
    `none` inside where it returns -1. -/
def mnetPoolPop (pool : MnetPool) : Option (Option MnetSocket × MnetPool) :=
  if pool.count = 0 ∧ pool.shuttingDown = false then none
  else if pool.count = 0 then some (none, pool)
  else some (some pool.first, pool.dequeue)

/-- What a push that comes back has done. -/
theorem mnetPoolPush_cases {running : Bool} {pool pool' : MnetPool} {client : MnetSocket} {rc : Int}
    (h : mnetPoolPush running pool client = some (rc, pool')) :
    (rc = 0 ∧ pool.shuttingDown = false ∧ pool.count ≠ pool.capacity ∧
        pool' = pool.enqueue client) ∨
      (rc = -1 ∧ pool'.toRingBuffer = pool.toRingBuffer ∧ pool'.shuttingDown = true) := by
  simp only [mnetPoolPush, awaitSlot] at h
  by_cases hfull : pool.count = pool.capacity ∧ pool.shuttingDown = false
  · rw [if_pos hfull] at h
    cases running with
    | true => cases h
    | false =>
        cases h
        exact .inr ⟨rfl, rfl, rfl⟩
  · rw [if_neg hfull] at h
    by_cases hdown : pool.shuttingDown = true
    · simp only [if_pos hdown] at h
      cases h
      exact .inr ⟨rfl, rfl, hdown⟩
    · have hup : pool.shuttingDown = false := eq_false_of_ne_true hdown
      simp only [if_neg hdown] at h
      cases h
      exact .inl ⟨rfl, hup, fun hc => hfull ⟨hc, hup⟩, rfl⟩

theorem mnetPoolPush_of_room {pool : MnetPool} (hroom : pool.count ≠ pool.capacity)
    (hup : pool.shuttingDown = false) (running : Bool) (client : MnetSocket) :
    mnetPoolPush running pool client = some (0, pool.enqueue client) := by
  simp [mnetPoolPush, awaitSlot, hroom, hup]

theorem mnetPoolPush_of_stopping {pool : MnetPool} (hfull : pool.count = pool.capacity)
    (hup : pool.shuttingDown = false) (client : MnetSocket) :
    mnetPoolPush false pool client = some (-1, pool.shutDown) := by
  simp [mnetPoolPush, awaitSlot, hfull, hup, MnetPool.shutDown]

/-- What a pop that comes back has done. -/
theorem mnetPoolPop_cases {pool pool' : MnetPool} {out : Option MnetSocket}
    (h : mnetPoolPop pool = some (out, pool')) :
    (out = some pool.first ∧ 0 < pool.count ∧ pool' = pool.dequeue) ∨
      (out = none ∧ pool.shuttingDown = true ∧ pool.count = 0 ∧ pool' = pool) := by
  simp only [mnetPoolPop] at h
  by_cases hempty : pool.count = 0
  · by_cases hup : pool.shuttingDown = false
    · rw [if_pos ⟨hempty, hup⟩] at h
      cases h
    · rw [if_neg (fun hc => hup hc.2), if_pos hempty] at h
      cases h
      exact .inr ⟨rfl, eq_true_of_ne_false hup, hempty, rfl⟩
  · rw [if_neg (fun hc => hempty hc.1), if_neg hempty] at h
    cases h
    exact .inl ⟨rfl, Nat.pos_of_ne_zero hempty, rfl⟩

-- ============================================================================
-- The threads
-- ============================================================================

/-- Where a thread in `mnet_worker_main` stands. -/
inductive WorkerPc where
  /-- At `mnet_pool_pop`, inside its wait loop as well. -/
  | popping
  /-- In `mnet_handle_client` or before `mnet_close`. -/
  | handling (client : MnetSocket)
  /-- Before the section that counts the connection down. -/
  | closed
  | exited
deriving DecidableEq, Repr

/-- Where the thread in `mnet_run` stands. -/
inductive MainPc where
  /-- Before `mnet_tcp_listen`. -/
  | starting
  /-- At the top of the loop of a server with one worker or none. -/
  | soloLooping
  | soloAccepting
  /-- A client is there, the limit is not checked yet. -/
  | soloAccepted (client : MnetSocket)
  /-- In `mnet_handle_client` or before `mnet_close`. -/
  | soloHandling (client : MnetSocket)
  /-- Before `active_connections--`. -/
  | soloClosed
  /-- In the loop that creates the workers. -/
  | creating
  /-- At the top of the accept loop. -/
  | looping
  /-- In `mnet_tcp_accept`. -/
  | accepting
  /-- Before the section that reads `active_connections`. -/
  | accepted (client : MnetSocket)
  /-- Behind it, with the number read. -/
  | checking (client : MnetSocket) (active : Int)
  /-- Let in: before the section that counts the connection. -/
  | admitted (client : MnetSocket)
  /-- At `mnet_pool_push`, inside its wait loop as well. -/
  | pushing (client : MnetSocket)
  /-- The push gave -1: before the section that takes the count back. -/
  | turnedAway (client : MnetSocket)
  /-- Behind it, before `mnet_close`. -/
  | uncounted (client : MnetSocket)
  /-- Before the first section of `mnet_pool_shutdown`; the argument is what
      `mnet_run` is going to return. -/
  | stopping (rc : Int)
  /-- In the loop of `mnet_thread_join`. -/
  | joining (rc : Int)
  /-- All workers joined: in the loop that drains the queue. -/
  | draining (rc : Int)
  | returned (rc : Int)
deriving DecidableEq, Repr

/-- What a run shows. -/
inductive ConnEvent where
  /-- `mnet_tcp_accept` returned the client. -/
  | accepted (client : MnetSocket)
  /-- `mnet_pool_push` returned 0 for it. -/
  | pushed (client : MnetSocket)
  /-- `mnet_pool_pop` returned 0 with it. -/
  | popped (client : MnetSocket)
  /-- `mnet_close` was called on it. -/
  | closed (client : MnetSocket)
deriving DecidableEq, Repr

/-- The state all threads share, and where each of them stands.  `threads` are
    the workers created so far, so that its length is `thread_count`. -/
structure ServerState where
  main : MainPc
  threads : List WorkerPc
  pool : MnetPool
  running : Bool
  activeConnections : Int

/-- The check both loops make before they let a client in. -/
def atLimit (app : MnetApp) (active : Int) : Prop :=
  app.maxConnections > 0 ∧ active ≥ app.maxConnections

instance (app : MnetApp) (active : Int) : Decidable (atLimit app active) :=
  inferInstanceAs (Decidable (_ ∧ _))

/-- One step of a worker: program point, state, events. -/
inductive WorkerStep : WorkerPc → ServerState → List ConnEvent → WorkerPc → ServerState → Prop
  | pop {s : ServerState} {client : MnetSocket} {pool' : MnetPool}
      (h : mnetPoolPop s.pool = some (some client, pool')) :
      WorkerStep .popping s [.popped client] (.handling client) { s with pool := pool' }
  | exit {s : ServerState} {pool' : MnetPool} (h : mnetPoolPop s.pool = some (none, pool')) :
      WorkerStep .popping s [] .exited { s with pool := pool' }
  | close {s : ServerState} {client : MnetSocket} :
      WorkerStep (.handling client) s [.closed client] .closed s
  | countDown {s : ServerState} :
      WorkerStep .closed s [] .popping { s with activeConnections := s.activeConnections - 1 }

/-- One step of `mnet_run` on a server with one worker or none. -/
inductive SoloStep (app : MnetApp) :
    MainPc → ServerState → List ConnEvent → MainPc → ServerState → Prop
  | enter {s : ServerState} (h : s.running = true) : SoloStep app .soloLooping s [] .soloAccepting s
  | leave {s : ServerState} (h : s.running = false) : SoloStep app .soloLooping s [] (.returned 0) s
  | accept {s : ServerState} {client : MnetSocket} (h : client ≠ MNET_INVALID_SOCKET) :
      SoloStep app .soloAccepting s [.accepted client] (.soloAccepted client) s
  | interrupted {s : ServerState} : SoloStep app .soloAccepting s [] .soloLooping s
  | acceptFailed {s : ServerState} : SoloStep app .soloAccepting s [] (.returned 0) s
  | refuse {s : ServerState} {client : MnetSocket} (h : atLimit app s.activeConnections) :
      SoloStep app (.soloAccepted client) s [.closed client] .soloLooping s
  | letIn {s : ServerState} {client : MnetSocket} (h : ¬ atLimit app s.activeConnections) :
      SoloStep app (.soloAccepted client) s [] (.soloHandling client)
        { s with activeConnections := s.activeConnections + 1 }
  | close {s : ServerState} {client : MnetSocket} :
      SoloStep app (.soloHandling client) s [.closed client] .soloClosed s
  | countDown {s : ServerState} :
      SoloStep app .soloClosed s [] .soloLooping
        { s with activeConnections := s.activeConnections - 1 }

/-- One step of the accept loop of a server with a pool. -/
inductive AcceptStep (app : MnetApp) :
    MainPc → ServerState → List ConnEvent → MainPc → ServerState → Prop
  | enter {s : ServerState} (h : s.running = true) : AcceptStep app .looping s [] .accepting s
  | leave {s : ServerState} (h : s.running = false) : AcceptStep app .looping s [] (.stopping 0) s
  | accept {s : ServerState} {client : MnetSocket} (h : client ≠ MNET_INVALID_SOCKET) :
      AcceptStep app .accepting s [.accepted client] (.accepted client) s
  | interrupted {s : ServerState} : AcceptStep app .accepting s [] .looping s
  | acceptFailed {s : ServerState} : AcceptStep app .accepting s [] (.stopping 0) s
  | read {s : ServerState} {client : MnetSocket} :
      AcceptStep app (.accepted client) s [] (.checking client s.activeConnections) s
  | refuse {s : ServerState} {client : MnetSocket} {active : Int} (h : atLimit app active) :
      AcceptStep app (.checking client active) s [.closed client] .looping s
  | letIn {s : ServerState} {client : MnetSocket} {active : Int} (h : ¬ atLimit app active) :
      AcceptStep app (.checking client active) s [] (.admitted client) s
  | countUp {s : ServerState} {client : MnetSocket} :
      AcceptStep app (.admitted client) s [] (.pushing client)
        { s with activeConnections := s.activeConnections + 1 }
  | push {s : ServerState} {client : MnetSocket} {pool' : MnetPool}
      (h : mnetPoolPush s.running s.pool client = some (0, pool')) :
      AcceptStep app (.pushing client) s [.pushed client] .looping { s with pool := pool' }
  | turnAway {s : ServerState} {client : MnetSocket} {rc : Int} {pool' : MnetPool}
      (h : mnetPoolPush s.running s.pool client = some (rc, pool')) (hrc : rc ≠ 0) :
      AcceptStep app (.pushing client) s [] (.turnedAway client) { s with pool := pool' }
  | uncount {s : ServerState} {client : MnetSocket} :
      AcceptStep app (.turnedAway client) s [] (.uncounted client)
        { s with activeConnections := s.activeConnections - 1 }
  | close {s : ServerState} {client : MnetSocket} :
      AcceptStep app (.uncounted client) s [.closed client] (.stopping 0) s

/-- One step of `mnet_run` before its loop. -/
inductive StartStep (app : MnetApp) : MainPc → ServerState → MainPc → ServerState → Prop
  | listenFailed {s : ServerState} : StartStep app .starting s (.returned (-1)) s
  | solo {s : ServerState} (h : app.workers ≤ 1) :
      StartStep app .starting s .soloLooping { s with running := true, activeConnections := 0 }
  | mallocFailed {s : ServerState} (h : ¬ app.workers ≤ 1) :
      StartStep app .starting s (.returned (-1))
        { s with running := true, activeConnections := 0 }
  | pool {s : ServerState} (h : ¬ app.workers ≤ 1) :
      StartStep app .starting s .creating { s with running := true, activeConnections := 0 }
  | create {s : ServerState} (h : (s.threads.length : Int) < app.workers) :
      StartStep app .creating s .creating { s with threads := s.threads ++ [.popping] }
  | created {s : ServerState} (h : ¬ (s.threads.length : Int) < app.workers) :
      StartStep app .creating s .looping s
  /-- A worker that cannot be created: the loop goes on with those there are. -/
  | createFailed {s : ServerState} (h : (s.threads.length : Int) < app.workers)
      (hsome : s.threads ≠ []) : StartStep app .creating s .looping s
  | firstFailed {s : ServerState} (h : (s.threads.length : Int) < app.workers)
      (hnone : s.threads = []) : StartStep app .creating s (.stopping (-1)) s

/-- One step of `mnet_pool_shutdown`. -/
inductive ShutdownStep : MainPc → ServerState → List ConnEvent → MainPc → ServerState → Prop
  | begin {s : ServerState} {rc : Int} :
      ShutdownStep (.stopping rc) s [] (.joining rc) { s with pool := s.pool.shutDown }
  | joined {s : ServerState} {rc : Int} (h : ∀ pc ∈ s.threads, pc = .exited) :
      ShutdownStep (.joining rc) s [] (.draining rc) s
  | drain {s : ServerState} {rc : Int} (h : s.pool.count > 0) :
      ShutdownStep (.draining rc) s [.closed s.pool.first] (.draining rc)
        { s with pool := s.pool.dequeue }
  | drained {s : ServerState} {rc : Int} (h : ¬ s.pool.count > 0) :
      ShutdownStep (.draining rc) s [] (.returned rc) s

/-- One step of the whole server: of the thread in `mnet_run`, of any worker, or
    of whoever stops the server (a signal handler, `mnet_stop` in a handler). -/
inductive ServerStep (app : MnetApp) : ServerState → List ConnEvent → ServerState → Prop
  | start {s s' : ServerState} {pc' : MainPc} (h : StartStep app s.main s pc' s') :
      ServerStep app s [] { s' with main := pc' }
  | solo {s s' : ServerState} {es : List ConnEvent} {pc' : MainPc}
      (h : SoloStep app s.main s es pc' s') : ServerStep app s es { s' with main := pc' }
  | accept {s s' : ServerState} {es : List ConnEvent} {pc' : MainPc}
      (h : AcceptStep app s.main s es pc' s') : ServerStep app s es { s' with main := pc' }
  | shutdown {s s' : ServerState} {es : List ConnEvent} {pc' : MainPc}
      (h : ShutdownStep s.main s es pc' s') : ServerStep app s es { s' with main := pc' }
  | worker {s s' : ServerState} {es : List ConnEvent} {before after : List WorkerPc}
      {pc pc' : WorkerPc} (hthread : s.threads = before ++ pc :: after)
      (h : WorkerStep pc s es pc' s') :
      ServerStep app s es { s' with threads := before ++ pc' :: after }
  | stop {s : ServerState} : ServerStep app s [] { s with running := false }

/-- A server about to run, with a queue of `capacity` slots to be set up.  No
    connection is left over: `mnet_create` zeroes the counter. -/
structure Starting (capacity : Nat) (s : ServerState) : Prop where
  main : s.main = .starting
  threads : s.threads = []
  pool : ∃ slots, s.pool = MnetPool.fresh slots capacity
  active : s.activeConnections = 0

/-- The capacity `mnet_run` gives the queue. -/
def poolCapacity (app : MnetApp) : Nat :=
  if app.maxConnections > 0 then app.maxConnections.toNat else 128

/-- The runs of a server: from the call of `mnet_run` on, any order of steps. -/
abbrev ServerRun (app : MnetApp) := Transition.Run (ServerStep app)

end Mnet
