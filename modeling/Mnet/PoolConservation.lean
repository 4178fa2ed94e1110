/-
  Mnet.PoolConservation

  What the worker pool does with the connections it takes, in every run: the
  queue hands out what was pushed, in the order it was pushed, and when the
  workers are joined every accepted connection has been closed once.

  Two invariants carry it.  `Phases` says what the program point of `mnet_run`
  tells about the workers; an exited worker has seen the queue empty, and
  nothing is pushed after that.  `Conserved` says where the connections are.
-/

import Mnet.Pool

namespace Mnet

open Transition (Run)

-- ============================================================================
-- Where a run stands
-- ============================================================================

/-- What the program point of `mnet_run` says about the workers. -/
def MainPc.Allows (app : MnetApp) (threads : List WorkerPc) : MainPc → Prop
  | .starting | .soloLooping | .soloAccepting | .soloAccepted _ | .soloHandling _ | .soloClosed =>
      threads = []
  | .creating => 1 < app.workers
  | .looping | .accepting | .accepted _ | .checking _ _ | .admitted _ | .pushing _
  | .turnedAway _ | .uncounted _ => threads ≠ []
  | .stopping _ | .joining _ => True
  | .draining _ | .returned _ => ∀ pc ∈ threads, pc = .exited

/-- Behind the joins of `mnet_pool_shutdown`, or never in need of them. -/
def MainPc.workersJoined : MainPc → Bool
  | .draining _ | .returned _ => true
  | _ => false

/-- What the program points say about the pool. -/
structure Phases (app : MnetApp) (s : ServerState) : Prop where
  noWorker : s.threads = [] → s.pool.count = 0
  main : s.main.Allows app s.threads
  exited : WorkerPc.exited ∈ s.threads → s.pool.shuttingDown = true ∧ s.pool.count = 0

namespace Phases

variable {app : MnetApp} {s s' : ServerState} {es : List ConnEvent} {pc pc' : MainPc}

theorem allExited (hs : Phases app s) (h : s.main.workersJoined = true) :
    ∀ pc ∈ s.threads, pc = .exited := by
  have hpc := hs.main
  cases hmain : s.main with
  | draining rc | returned rc =>
      rw [hmain] at hpc
      exact hpc
  | _ =>
      rw [hmain] at h
      cases h

/-- Nothing is queued once the workers are joined. -/
theorem queue_empty (hs : Phases app s) (h : s.main.workersJoined = true) :
    s.pool.count = 0 := by
  cases hthreads : s.threads with
  | nil => exact hs.noWorker hthreads
  | cons pc rest =>
      have hpc : pc = .exited := hs.allExited h pc (by simp [hthreads])
      exact (hs.exited (by simp [hthreads, hpc])).2

/-- Neither threads nor pool change. -/
theorem move {t : ServerState} (hs : Phases app s) (hthreads : t.threads = s.threads)
    (hpool : t.pool = s.pool) (hmain : t.main.Allows app s.threads) : Phases app t where
  noWorker h := by
    rw [hpool]
    exact hs.noWorker (hthreads ▸ h)
  main := by
    rw [hthreads]
    exact hmain
  exited h := by
    rw [hpool]
    exact hs.exited (hthreads ▸ h)

theorem start (hs : Phases app s) (hmain : s.main = pc) (h : StartStep app pc s pc' s') :
    Phases app { s' with main := pc' } := by
  have hpc := hs.main
  rw [hmain] at hpc
  have hempty : ∀ {threads : List WorkerPc}, threads = [] → ∀ pc ∈ threads, pc = .exited := by
    rintro _ rfl pc ⟨⟩
  cases h with
  | listenFailed => exact hs.move rfl rfl (hempty hpc)
  | solo hw => exact hs.move rfl rfl hpc
  | mallocFailed hw => exact hs.move rfl rfl (hempty hpc)
  | pool hw => exact hs.move rfl rfl (Int.lt_of_not_ge hw)
  | create hlt =>
      refine ⟨fun h => absurd h (by simp), hpc, fun h => hs.exited ?_⟩
      simpa using h
  | created hlt =>
      have hsome : s.threads ≠ [] := by
        intro hnil
        have hw : 1 < app.workers := hpc
        rw [hnil] at hlt
        simp at hlt
        omega
      exact hs.move rfl rfl hsome
  | createFailed hlt hsome => exact hs.move rfl rfl hsome
  | firstFailed hlt hnone => exact hs.move rfl rfl trivial

theorem solo (hs : Phases app s) (hmain : s.main = pc) (h : SoloStep app pc s es pc' s') :
    Phases app { s' with main := pc' } := by
  have hpc := hs.main
  rw [hmain] at hpc
  have hempty : s.threads = [] → ∀ pc ∈ s.threads, pc = .exited := by
    intro hnil pc hmem
    rw [hnil] at hmem
    cases hmem
  cases h with
  | leave hrunning | acceptFailed => exact hs.move rfl rfl (hempty hpc)
  | _ => exact hs.move rfl rfl hpc

/-- Only a push fills the queue, and none comes behind an exited worker. -/
theorem accept (hs : Phases app s) (hmain : s.main = pc) (h : AcceptStep app pc s es pc' s') :
    Phases app { s' with main := pc' } := by
  have hpc := hs.main
  rw [hmain] at hpc
  cases h with
  | leave hrunning | acceptFailed | close => exact hs.move rfl rfl trivial
  | push hpush =>
      obtain ⟨-, hup, -, rfl⟩ | ⟨hrc, -⟩ := mnetPoolPush_cases hpush
      · refine ⟨fun hnil => absurd hnil hpc, hpc, fun hexited => ?_⟩
        rw [(hs.exited hexited).1] at hup
        cases hup
      · cases hrc
  | turnAway hpush hrc =>
      obtain ⟨rfl, -⟩ | ⟨-, hring, hdown⟩ := mnetPoolPush_cases hpush
      · exact absurd rfl hrc
      · refine ⟨fun hnil => absurd hnil hpc, hpc, fun hexited => ⟨hdown, ?_⟩⟩
        show _ = 0
        rw [hring]
        exact (hs.exited hexited).2
  | _ => exact hs.move rfl rfl hpc

theorem shutdown (hs : Phases app s) (hmain : s.main = pc) (h : ShutdownStep pc s es pc' s') :
    Phases app { s' with main := pc' } := by
  have hpc := hs.main
  rw [hmain] at hpc
  cases h with
  | begin => exact ⟨hs.noWorker, trivial, fun hexited => ⟨rfl, (hs.exited hexited).2⟩⟩
  | joined hall => exact hs.move rfl rfl hall
  | drain hcount =>
      have hempty : s.pool.count = 0 := hs.queue_empty (by rw [hmain]; rfl)
      omega
  | drained hcount => exact hs.move rfl rfl hpc

/-- A worker that still runs may go anywhere. -/
theorem allows_replace {main : MainPc} {before after : List WorkerPc} {pc pc' : WorkerPc}
    (h : main.Allows app (before ++ pc :: after)) (hpc : pc ≠ .exited) :
    main.Allows app (before ++ pc' :: after) := by
  cases main with
  | creating | stopping | joining => exact h
  | draining | returned => exact absurd (h pc (by simp)) hpc
  | looping | accepting | accepted | checking | admitted | pushing | turnedAway | uncounted =>
      exact List.append_ne_nil_of_right_ne_nil before (List.cons_ne_nil pc' after)
  | _ => exact absurd h (List.append_ne_nil_of_right_ne_nil before (List.cons_ne_nil pc after))

/-- A worker leaves for good only where it finds the queue empty on a stopping
    server. -/
theorem worker {before after : List WorkerPc} {pc pc' : WorkerPc} (hs : Phases app s)
    (hthreads : s.threads = before ++ pc :: after) (h : WorkerStep pc s es pc' s') :
    Phases app { s' with threads := before ++ pc' :: after } := by
  have hmain := hs.main
  have hexited := hs.exited
  rw [hthreads] at hmain hexited
  have hstays : pc' ≠ .exited → .exited ∈ before ++ pc' :: after →
      .exited ∈ before ++ pc :: after := by
    intro hne hmem
    rcases List.mem_append.mp hmem with hmem | hmem
    · exact List.mem_append_left _ hmem
    · obtain heq | hmem := List.mem_cons.mp hmem
      · exact absurd heq.symm hne
      · exact List.mem_append_right _ (List.mem_cons_of_mem _ hmem)
  refine ⟨fun hnil => by simp at hnil, ?_, fun hmem => ?_⟩
  · cases h with
    | _ => exact allows_replace hmain (by simp)
  · cases h with
    | pop hpop =>
        obtain ⟨-, hcount, -⟩ | ⟨⟨⟩, -⟩ := mnetPoolPop_cases hpop
        have hzero := (hexited (hstays (by simp) hmem)).2
        omega
    | exit hpop =>
        obtain ⟨⟨⟩, -⟩ | ⟨-, hdown, hcount, rfl⟩ := mnetPoolPop_cases hpop
        exact ⟨hdown, hcount⟩
    | close => exact hexited (hstays (by simp) hmem)
    | countDown => exact hexited (hstays (by simp) hmem)

theorem step {t : ServerState} (hs : Phases app s) (h : ServerStep app s es t) : Phases app t := by
  cases h with
  | start h => exact hs.start rfl h
  | solo h => exact hs.solo rfl h
  | accept h => exact hs.accept rfl h
  | shutdown h => exact hs.shutdown rfl h
  | worker hthread h => exact hs.worker hthread h
  | stop => exact hs.move rfl rfl hs.main

end Phases

theorem Starting.phases {app : MnetApp} {capacity : Nat} {s : ServerState}
    (hs : Starting capacity s) : Phases app s := by
  obtain ⟨slots, hpool⟩ := hs.pool
  refine ⟨fun _ => by rw [hpool]; rfl, ?_, fun h => ?_⟩
  · rw [hs.main]
    exact hs.threads
  · rw [hs.threads] at h
    cases h

theorem ServerRun.phases {app : MnetApp} {capacity : Nat} {s₀ s : ServerState}
    {es : List ConnEvent} (hrun : ServerRun app s₀ es s) (hs₀ : Starting capacity s₀) :
    Phases app s :=
  hrun.invariant (fun _ s => Phases app s) hs₀.phases fun hs h => hs.step h

-- ============================================================================
-- Where the connections are
-- ============================================================================

/-- The clients `mnet_tcp_accept` returned, in order. -/
def acceptedClients (es : List ConnEvent) : List MnetSocket :=
  es.filterMap fun | .accepted client => some client | _ => none

/-- The clients for which `mnet_pool_push` returned 0, in order. -/
def pushedClients (es : List ConnEvent) : List MnetSocket :=
  es.filterMap fun | .pushed client => some client | _ => none

/-- The clients `mnet_pool_pop` returned, in order. -/
def poppedClients (es : List ConnEvent) : List MnetSocket :=
  es.filterMap fun | .popped client => some client | _ => none

/-- The clients that were closed, in order. -/
def closedClients (es : List ConnEvent) : List MnetSocket :=
  es.filterMap fun | .closed client => some client | _ => none

/-- The open connection a worker has in hand. -/
def WorkerPc.held : WorkerPc → Option MnetSocket
  | .handling client => some client
  | _ => none

/-- The open connection the accept loop has in hand. -/
def MainPc.held : MainPc → Option MnetSocket
  | .soloAccepted client | .soloHandling client | .accepted client | .checking client _
  | .admitted client | .pushing client | .turnedAway client | .uncounted client => some client
  | _ => none

/-- The open connections: queued, with a worker, or with the accept loop. -/
def ServerState.openClients (s : ServerState) : List MnetSocket :=
  s.pool.queued ++ s.threads.filterMap WorkerPc.held ++ s.main.held.toList

/-- Where the connections of a run are. -/
structure Conserved (capacity : Nat) (es : List ConnEvent) (s : ServerState) : Prop where
  capacity : s.pool.capacity = capacity
  inBounds : s.pool.InBounds
  fifo : pushedClients es = poppedClients es ++ s.pool.queued
  balance : ∀ client, (acceptedClients es).count client =
    (closedClients es).count client + s.openClients.count client

@[simp] theorem acceptedClients_append (es e : List ConnEvent) :
    acceptedClients (es ++ e) = acceptedClients es ++ acceptedClients e := List.filterMap_append

@[simp] theorem pushedClients_append (es e : List ConnEvent) :
    pushedClients (es ++ e) = pushedClients es ++ pushedClients e := List.filterMap_append

@[simp] theorem poppedClients_append (es e : List ConnEvent) :
    poppedClients (es ++ e) = poppedClients es ++ poppedClients e := List.filterMap_append

@[simp] theorem closedClients_append (es e : List ConnEvent) :
    closedClients (es ++ e) = closedClients es ++ closedClients e := List.filterMap_append

/-- What a step does to the queue.  It never drains a queue that still holds
    something behind the joins. -/
inductive QueueStep (s t : ServerState) (e : List ConnEvent) : Prop
  | keep (hring : t.pool.toRingBuffer = s.pool.toRingBuffer) (hpush : pushedClients e = [])
      (hpop : poppedClients e = [])
  | push (client : MnetSocket) (hroom : s.pool.count ≠ s.pool.capacity)
      (hring : t.pool.toRingBuffer = s.pool.put client) (hpush : pushedClients e = [client])
      (hpop : poppedClients e = [])
  | pop (hsome : 0 < s.pool.count) (hring : t.pool.toRingBuffer = s.pool.rest)
      (hpush : pushedClients e = []) (hpop : poppedClients e = [s.pool.first])
  | drain (hjoined : s.main.workersJoined = true) (hsome : 0 < s.pool.count)

theorem ServerStep.queue {app : MnetApp} {s t : ServerState} {e : List ConnEvent}
    (h : ServerStep app s e t) : QueueStep s t e := by
  cases h with
  | start h =>
      generalize s.main = pc at h
      cases h <;> exact .keep rfl rfl rfl
  | solo h =>
      generalize s.main = pc at h
      cases h <;> exact .keep rfl rfl rfl
  | accept h =>
      generalize hmain : s.main = pc at h
      cases h with
      | push hpush =>
          obtain ⟨-, -, hroom, rfl⟩ | ⟨⟨⟩, -⟩ := mnetPoolPush_cases hpush
          exact .push _ hroom rfl rfl rfl
      | turnAway hpush hrc =>
          obtain ⟨rfl, -⟩ | ⟨-, hring, -⟩ := mnetPoolPush_cases hpush
          · exact absurd rfl hrc
          · exact .keep hring rfl rfl
      | _ => exact .keep rfl rfl rfl
  | shutdown h =>
      generalize hmain : s.main = pc at h
      cases h with
      | drain hcount => exact .drain (by rw [hmain]; rfl) hcount
      | _ => exact .keep rfl rfl rfl
  | worker hthread h =>
      cases h with
      | pop hpop =>
          obtain ⟨heq, hcount, rfl⟩ | ⟨⟨⟩, -⟩ := mnetPoolPop_cases hpop
          cases heq
          exact .pop hcount rfl rfl rfl
      | exit hpop =>
          obtain ⟨⟨⟩, -⟩ | ⟨-, -, -, rfl⟩ := mnetPoolPop_cases hpop
          exact .keep rfl rfl rfl
      | _ => exact .keep rfl rfl rfl
  | stop => exact .keep rfl rfl rfl

theorem ServerState.count_openClients (s : ServerState) (client : MnetSocket) :
    s.openClients.count client = s.pool.queued.count client +
      (s.threads.filterMap WorkerPc.held).count client + s.main.held.toList.count client := by
  rw [ServerState.openClients, List.count_append, List.count_append]

/-- The connections in the hands of the workers, but for one of them. -/
theorem count_held_append (before after : List WorkerPc) (pc : WorkerPc) (client : MnetSocket) :
    ((before ++ pc :: after).filterMap WorkerPc.held).count client =
      pc.held.toList.count client + ((before ++ after).filterMap WorkerPc.held).count client := by
  cases hheld : pc.held with
  | none => simp [hheld]
  | some c =>
      simp only [List.filterMap_append, List.filterMap_cons, hheld, List.count_append,
        List.count_cons, Option.toList_some, List.count_nil]
      omega

/-- Every step accounts for the connections it takes, hands on and closes. -/
theorem ServerStep.balance {app : MnetApp} {s t : ServerState} {e : List ConnEvent}
    (h : ServerStep app s e t) (hring : s.pool.InBounds) (client : MnetSocket) :
    (acceptedClients e).count client + s.openClients.count client =
      (closedClients e).count client + t.openClients.count client := by
  have htaken : 0 < s.pool.count →
      s.pool.queued.count client = (s.pool.first :: s.pool.dequeue.queued).count client := by
    intro hsome
    rw [MnetPool.queued, RingBuffer.contents_eq_cons hring hsome]
    rfl
  rw [ServerState.count_openClients, ServerState.count_openClients]
  cases h with
  | start h =>
      generalize hmain : s.main = pc at h
      cases h <;> simp [acceptedClients, closedClients, MainPc.held, List.filterMap_cons,
        WorkerPc.held]
  | solo h =>
      generalize hmain : s.main = pc at h
      cases h <;> simp [acceptedClients, closedClients, MainPc.held, Nat.add_comm]
  | accept h =>
      generalize hmain : s.main = pc at h
      cases h with
      | @push _ c _ hpush =>
          obtain ⟨-, -, hroom, rfl⟩ | ⟨⟨⟩, -⟩ := mnetPoolPush_cases hpush
          have hput : (s.pool.enqueue c).queued = s.pool.queued ++ [c] :=
            RingBuffer.contents_put (Nat.lt_of_le_of_ne hring.count_le hroom) c
          simp [acceptedClients, closedClients, MainPc.held, hput]
          omega
      | turnAway hpush hrc =>
          obtain ⟨rfl, -⟩ | ⟨-, hqueue, -⟩ := mnetPoolPush_cases hpush
          · exact absurd rfl hrc
          · simp [acceptedClients, closedClients, MainPc.held, MnetPool.queued, hqueue]
      | _ => simp [acceptedClients, closedClients, MainPc.held, Nat.add_comm]
  | shutdown h =>
      generalize hmain : s.main = pc at h
      cases h with
      | drain hcount =>
          rw [htaken hcount]
          simp [acceptedClients, closedClients, MainPc.held, List.count_cons]
          omega
      | _ => rfl
  | worker hthread h =>
      rw [hthread, count_held_append, count_held_append]
      cases h with
      | pop hpop =>
          obtain ⟨heq, hcount, rfl⟩ | ⟨⟨⟩, -⟩ := mnetPoolPop_cases hpop
          cases heq
          rw [htaken hcount]
          simp [acceptedClients, closedClients, WorkerPc.held, List.count_cons]
          omega
      | exit hpop =>
          obtain ⟨⟨⟩, -⟩ | ⟨-, -, -, rfl⟩ := mnetPoolPop_cases hpop
          rfl
      | close =>
          simp [acceptedClients, closedClients, WorkerPc.held]
          omega
      | countDown => rfl
  | stop => rfl

namespace Conserved

variable {app : MnetApp} {capacity : Nat} {s t : ServerState} {es e : List ConnEvent}

theorem step (hphases : Phases app s) (hs : Conserved capacity es s) (h : ServerStep app s e t) :
    Conserved capacity (es ++ e) t := by
  have hbalance : ∀ client, (acceptedClients (es ++ e)).count client =
      (closedClients (es ++ e)).count client + t.openClients.count client := by
    intro client
    have hbefore := hs.balance client
    have hstep := h.balance hs.inBounds client
    simp only [acceptedClients_append, closedClients_append, List.count_append]
    omega
  have hcapacity := hs.capacity
  cases h.queue with
  | keep hring hpush hpop =>
      refine ⟨hring ▸ hcapacity, hring ▸ hs.inBounds, ?_, hbalance⟩
      rw [pushedClients_append, poppedClients_append, hpush, hpop, List.append_nil,
        List.append_nil, MnetPool.queued, hring]
      exact hs.fifo
  | push client hroom hring hpush hpop =>
      have hlt := Nat.lt_of_le_of_ne hs.inBounds.count_le hroom
      refine ⟨hring ▸ hcapacity, hring ▸ hs.inBounds.put hlt client, ?_, hbalance⟩
      rw [pushedClients_append, poppedClients_append, hpush, hpop, List.append_nil,
        MnetPool.queued, hring, RingBuffer.contents_put hlt, ← List.append_assoc, hs.fifo]
  | pop hsome hring hpush hpop =>
      refine ⟨hring ▸ hcapacity, hring ▸ hs.inBounds.rest, ?_, hbalance⟩
      rw [pushedClients_append, poppedClients_append, hpush, hpop, List.append_nil,
        MnetPool.queued, hring, List.append_assoc, List.singleton_append,
        ← RingBuffer.contents_eq_cons hs.inBounds hsome]
      exact hs.fifo
  | drain hjoined hsome =>
      have hempty := hphases.queue_empty hjoined
      omega

end Conserved

theorem Starting.conserved {capacity : Nat} {s : ServerState} (hcapacity : 1 ≤ capacity)
    (hs : Starting capacity s) : Conserved capacity [] s := by
  obtain ⟨slots, hpool⟩ := hs.pool
  refine ⟨by rw [hpool]; rfl, ?_, ?_, fun client => ?_⟩
  · rw [hpool]
    exact ⟨hcapacity, Nat.zero_le _⟩
  · rw [hpool]
    rfl
  · rw [ServerState.count_openClients, hs.threads, hs.main, hpool]
    rfl

theorem ServerRun.conserved {app : MnetApp} {capacity : Nat} {s₀ s : ServerState}
    {es : List ConnEvent} (hrun : ServerRun app s₀ es s) (hcapacity : 1 ≤ capacity)
    (hs₀ : Starting capacity s₀) : Conserved capacity es s :=
  hrun.invariant_of (fun _ s => Phases app s) (Conserved capacity)
    (fun hrun => ServerRun.phases hrun hs₀) (hs₀.conserved hcapacity)
    fun hphases hs h => hs.step hphases h

/-- Nobody has a connection in hand once the workers are joined. -/
theorem Phases.openClients_eq_nil {app : MnetApp} {s : ServerState} (hs : Phases app s)
    (h : s.main.workersJoined = true) : s.openClients = [] := by
  have hqueued : s.pool.queued = [] := RingBuffer.contents_eq_nil (hs.queue_empty h)
  have hthreads : s.threads.filterMap WorkerPc.held = [] := by
    apply List.filterMap_eq_nil_iff.mpr
    intro pc hpc
    rw [hs.allExited h pc hpc]
    rfl
  have hmain : s.main.held = none := by
    cases hpc : s.main with
    | draining | returned => rfl
    | _ =>
        rw [hpc] at h
        cases h
  rw [ServerState.openClients, hqueued, hthreads, hmain]
  rfl

/-- The pool of a run, at any moment: head and count within the capacity, the
    queue holding what was pushed and not popped yet, in the order it was
    pushed; a pop that gives up on an empty queue of a stopping server only; and
    with the workers joined an empty queue, every client pushed popped once and
    every client accepted closed once. -/
theorem mnetRun_conserves {app : MnetApp} {capacity : Nat} {s₀ s : ServerState}
    {es : List ConnEvent} (hcapacity : 1 ≤ capacity) (hs₀ : Starting capacity s₀)
    (hrun : ServerRun app s₀ es s) :
    s.pool.count ≤ capacity ∧ s.pool.head < capacity ∧
      pushedClients es = poppedClients es ++
        (List.range s.pool.count).map (fun i => s.pool.slots ((s.pool.head + i) % capacity)) ∧
      (∀ pool', mnetPoolPop s.pool = some (none, pool') →
        s.pool.shuttingDown = true ∧ s.pool.count = 0) ∧
      (s.main.workersJoined = true →
        s.pool.count = 0 ∧ pushedClients es = poppedClients es ∧
          (acceptedClients es).Perm (closedClients es)) := by
  have hs := ServerRun.conserved hrun hcapacity hs₀
  have hphases : Phases app s := ServerRun.phases hrun hs₀
  have hcap := hs.capacity
  have hfifo := hs.fifo
  refine ⟨hcap ▸ hs.inBounds.count_le, hcap ▸ hs.inBounds.head_lt, ?_, ?_, ?_⟩
  · rw [hfifo, ← hcap]
    rfl
  · intro pool' hpop
    obtain ⟨⟨⟩, -⟩ | ⟨-, hdown, hempty, -⟩ := mnetPoolPop_cases hpop
    exact ⟨hdown, hempty⟩
  · intro hjoined
    have hempty := hphases.queue_empty hjoined
    refine ⟨hempty, ?_, List.perm_iff_count.mpr fun client => ?_⟩
    · rw [hfifo, MnetPool.queued, RingBuffer.contents_eq_nil hempty, List.append_nil]
    · rw [hs.balance client, hphases.openClients_eq_nil hjoined]
      rfl

/-- A server with the settings of `mnet_create`, before `mnet_run`. -/
def idleServer : ServerState :=
  { main := .starting, threads := [], pool := .fresh (fun _ => 0) 128, running := false
    activeConnections := 0 }

/-- One worker starts, serves one client and goes when the server is
    stopped. -/
theorem oneClientRun : ∃ s, ServerRun {} idleServer
    [.accepted 7, .pushed 7, .popped 7, .closed 7] s ∧ s.main = .returned 0 := by
  have hstart : ServerRun {} idleServer [] idleServer := .start
  have hpool := hstart.silent (.start (.pool (by decide)))
  have hworker := hpool.silent (.start (.create (by decide)))
  have hlooping := hworker.silent (.start (.createFailed (by decide) (by simp)))
  have haccepted := (hlooping.silent (.accept (.enter rfl))).next
    (.accept (@AcceptStep.accept _ _ 7 (by decide)))
  have hpushing := ((haccepted.silent (.accept .read)).silent
    (.accept (.letIn (by decide)))).silent (.accept .countUp)
  have hpushed := hpushing.next (.accept (.push rfl))
  have hpopped := hpushed.next (@ServerStep.worker _ _ _ _ [] [] _ _ rfl (.pop rfl))
  have hclosed := hpopped.next (@ServerStep.worker _ _ _ _ [] [] _ _ rfl .close)
  have hcounted := hclosed.silent (@ServerStep.worker _ _ _ _ [] [] _ _ rfl .countDown)
  have hstopping := (hcounted.silent .stop).silent (.accept (.leave rfl))
  have hjoining := hstopping.silent (.shutdown .begin)
  have hexited := hjoining.silent (@ServerStep.worker _ _ _ _ [] [] _ _ rfl (.exit rfl))
  have hdraining := hexited.silent (.shutdown (.joined (by simp)))
  exact ⟨_, hdraining.silent (.shutdown (.drained (by decide))), rfl⟩

theorem mnetRun_conserves_oneClient : ∃ s : ServerState, s.main = .returned 0 ∧
    s.pool.count = 0 ∧ s.pool.head < 128 := by
  obtain ⟨s, hrun, hmain⟩ := oneClientRun
  obtain ⟨-, hhead, -, -, hjoined⟩ :=
    mnetRun_conserves (by decide) ⟨rfl, rfl, ⟨_, rfl⟩, rfl⟩ hrun
  exact ⟨s, hmain, (hjoined (by rw [hmain]; rfl)).1, hhead⟩

end Mnet
