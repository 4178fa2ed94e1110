/-
  Mnet.ConnectionAccounting

  `active_connections`, in every run of `mnet_run`: it counts the connections
  that are queued, served, or between their two sections in the accept loop.

  The check against `max_connections` and the count are two sections, but
  between them only workers change the number, and they only count down; so
  what the check saw stays an upper bound (`MainPc.WithinLimit`).
-/

import Mnet.PoolConservation

namespace Mnet

open Transition (Run)

/-- Popped and not counted down yet. -/
def WorkerPc.busy : WorkerPc → Bool
  | .handling _ | .closed => true
  | _ => false

/-- Between counting a connection and either queueing it or counting it down. -/
def MainPc.counted : MainPc → Bool
  | .pushing _ | .turnedAway _ | .soloHandling _ | .soloClosed => true
  | _ => false

/-- The connections the counter stands for. -/
def ServerState.load (s : ServerState) : Int :=
  s.pool.count + s.threads.countP WorkerPc.busy + if s.main.counted then 1 else 0

-- ============================================================================
-- What is counted
-- ============================================================================

theorem countP_busy_append (before after : List WorkerPc) (pc : WorkerPc) :
    (before ++ pc :: after).countP WorkerPc.busy =
      (before ++ after).countP WorkerPc.busy + if pc.busy then 1 else 0 := by
  rw [List.countP_append, List.countP_cons, List.countP_append, Nat.add_assoc]

/-- Every step but the first, and a drain that finds something, changes the
    counter as it changes the load. -/
theorem ServerStep.load {app : MnetApp} {s t : ServerState} {e : List ConnEvent}
    (hphases : Phases app s) (hs : s.activeConnections = s.load) (h : ServerStep app s e t) :
    t.activeConnections = t.load := by
  unfold ServerState.load at hs ⊢
  cases h with
  | start h =>
      generalize hmain : s.main = pc at h
      have hpc := hphases.main
      have hnoWorker := hphases.noWorker
      rw [hmain] at hs hpc
      cases h with
      | create hlt => simpa [MainPc.counted, WorkerPc.busy] using hs
      | listenFailed | created | createFailed | firstFailed => exact hs
      | _ =>
          have hnil : s.threads = [] := hpc
          simp [hnil, hnoWorker hnil, MainPc.counted]
  | solo h =>
      generalize hmain : s.main = pc at h
      rw [hmain] at hs
      cases h <;> simp [MainPc.counted] at hs ⊢ <;> omega
  | accept h =>
      generalize hmain : s.main = pc at h
      rw [hmain] at hs
      cases h with
      | push hpush =>
          obtain ⟨-, -, -, rfl⟩ | ⟨⟨⟩, -⟩ := mnetPoolPush_cases hpush
          simp [MainPc.counted, MnetPool.enqueue] at hs ⊢
          omega
      | turnAway hpush hrc =>
          obtain ⟨rfl, -⟩ | ⟨-, hring, -⟩ := mnetPoolPush_cases hpush
          · exact absurd rfl hrc
          · simpa [MainPc.counted, hring] using hs
      | _ =>
          simp [MainPc.counted] at hs ⊢
          omega
  | shutdown h =>
      generalize hmain : s.main = pc at h
      rw [hmain] at hs
      cases h with
      | drain hcount =>
          have hempty := hphases.queue_empty (by rw [hmain]; rfl)
          omega
      | _ => exact hs
  | worker hthread h =>
      rw [hthread, countP_busy_append] at hs
      simp only [countP_busy_append]
      cases h with
      | pop hpop =>
          obtain ⟨heq, hcount, rfl⟩ | ⟨⟨⟩, -⟩ := mnetPoolPop_cases hpop
          simp [WorkerPc.busy, MnetPool.dequeue] at hs ⊢
          omega
      | exit hpop =>
          obtain ⟨⟨⟩, -⟩ | ⟨-, -, -, rfl⟩ := mnetPoolPop_cases hpop
          exact hs
      | close => exact hs
      | countDown =>
          simp [WorkerPc.busy] at hs ⊢
          omega
  | stop => exact hs

theorem Starting.load {capacity : Nat} {s : ServerState} (hs : Starting capacity s) :
    s.activeConnections = s.load := by
  obtain ⟨slots, hpool⟩ := hs.pool
  rw [ServerState.load, hs.active, hs.threads, hs.main, hpool]
  rfl

theorem ServerRun.load {app : MnetApp} {capacity : Nat} {s₀ s : ServerState}
    {es : List ConnEvent} (hrun : ServerRun app s₀ es s) (hs₀ : Starting capacity s₀) :
    s.activeConnections = s.load :=
  hrun.invariant_of (fun _ s => Phases app s) (fun _ s => s.activeConnections = s.load)
    (fun hrun => ServerRun.phases hrun hs₀) hs₀.load fun hphases hs h => h.load hphases hs

-- ============================================================================
-- The limit
-- ============================================================================

/-- What a limited server knows between its check and its count. -/
def MainPc.WithinLimit (app : MnetApp) (active : Int) : MainPc → Prop
  | .checking _ seen => active ≤ seen
  | .admitted _ => active < app.maxConnections
  | _ => True

/-- The counter of a limited server. -/
structure Limited (app : MnetApp) (s : ServerState) : Prop where
  le : s.activeConnections ≤ app.maxConnections
  main : s.main.WithinLimit app s.activeConnections

namespace Limited

variable {app : MnetApp} {s t : ServerState} {e : List ConnEvent}

/-- Counting down keeps what was seen before an upper bound. -/
theorem withinLimit_mono {main : MainPc} {active active' : Int} (hle : active' ≤ active)
    (h : main.WithinLimit app active) : main.WithinLimit app active' := by
  cases main with
  | checking client seen => exact Int.le_trans hle h
  | admitted client => exact Int.lt_of_le_of_lt hle h
  | _ => trivial

theorem lt_of_not_atLimit (hmax : 0 < app.maxConnections) {active : Int}
    (h : ¬ atLimit app active) : active < app.maxConnections := by
  by_contra hge
  exact h ⟨hmax, Int.not_lt.mp hge⟩

theorem step (hmax : 0 < app.maxConnections) (hs : Limited app s) (h : ServerStep app s e t) :
    Limited app t := by
  have hle := hs.le
  have hmain' := hs.main
  cases h with
  | start h =>
      generalize hmain : s.main = pc at h
      cases h with
      | solo | mallocFailed | pool => exact ⟨Int.le_of_lt hmax, trivial⟩
      | _ => exact ⟨hle, trivial⟩
  | solo h =>
      generalize hmain : s.main = pc at h
      cases h with
      | letIn hnot => exact ⟨lt_of_not_atLimit hmax hnot, trivial⟩
      | countDown => exact ⟨by show s.activeConnections - 1 ≤ _; omega, trivial⟩
      | _ => exact ⟨hle, trivial⟩
  | accept h =>
      generalize hmain : s.main = pc at h
      rw [hmain] at hmain'
      cases h with
      | read => exact ⟨hle, Int.le_refl _⟩
      | letIn hnot => exact ⟨hle, Int.lt_of_le_of_lt hmain' (lt_of_not_atLimit hmax hnot)⟩
      | countUp => exact ⟨hmain', trivial⟩
      | uncount => exact ⟨by show s.activeConnections - 1 ≤ _; omega, trivial⟩
      | _ => exact ⟨hle, trivial⟩
  | shutdown h =>
      generalize hmain : s.main = pc at h
      cases h <;> exact ⟨hle, trivial⟩
  | worker hthread h =>
      cases h with
      | countDown =>
          have hdown : s.activeConnections - 1 ≤ s.activeConnections := by omega
          exact ⟨Int.le_trans hdown hle, withinLimit_mono hdown hmain'⟩
      | _ => exact ⟨hle, hmain'⟩
  | stop => exact ⟨hle, hmain'⟩

end Limited

theorem ServerRun.limited {app : MnetApp} {capacity : Nat} {s₀ s : ServerState}
    {es : List ConnEvent} (hmax : 0 < app.maxConnections) (hrun : ServerRun app s₀ es s)
    (hs₀ : Starting capacity s₀) : Limited app s := by
  apply hrun.invariant (fun _ s => Limited app s) ?_ fun hs h => hs.step hmax h
  refine ⟨?_, ?_⟩
  · rw [hs₀.active]
    exact Int.le_of_lt hmax
  · rw [hs₀.main]
    trivial

-- ============================================================================
-- Every run
-- ============================================================================

theorem one_le_poolCapacity (app : MnetApp) : 1 ≤ poolCapacity app := by
  unfold poolCapacity
  split <;> omega

/-- In every run the counter is the number of connections that are queued, that
    are with a worker (or, without workers, with the accept loop) and not
    counted down yet, or that the accept loop has counted and is queueing or
    about to count down; it is never negative.  Under a limit it stays within
    it, and the queue is never full when a client is pushed.  When `mnet_run`
    returns it is zero. -/
theorem mnetRun_accounts {app : MnetApp} {s₀ s : ServerState} {es : List ConnEvent}
    (hs₀ : Starting (poolCapacity app) s₀) (hrun : ServerRun app s₀ es s) :
    s.activeConnections = s.pool.count + s.threads.countP WorkerPc.busy +
        (if s.main.counted then 1 else 0) ∧
      0 ≤ s.activeConnections ∧
      (0 < app.maxConnections → s.activeConnections ≤ app.maxConnections ∧
        ∀ client, s.main = .pushing client → s.pool.count < s.pool.capacity) ∧
      (∀ rc, s.main = .returned rc → s.activeConnections = 0) := by
  have hload := ServerRun.load hrun hs₀
  have hphases : Phases app s := ServerRun.phases hrun hs₀
  unfold ServerState.load at hload
  refine ⟨hload, ?_, fun hmax => ?_, fun rc hmain => ?_⟩
  · have hcounted : (0 : Int) ≤ if s.main.counted then 1 else 0 := by
      split <;> decide
    omega
  · have hlimited := ServerRun.limited hmax hrun hs₀
    refine ⟨hlimited.le, fun client hmain => ?_⟩
    have hcapacity := (ServerRun.conserved hrun (one_le_poolCapacity app) hs₀).capacity
    have hle := hlimited.le
    rw [hmain] at hload
    simp only [MainPc.counted, if_true] at hload
    rw [hcapacity, poolCapacity, if_pos hmax]
    omega
  · have hjoined : s.main.workersJoined = true := by
      rw [hmain]
      rfl
    have hidle : s.threads.countP WorkerPc.busy = 0 := by
      apply List.countP_eq_zero.mpr
      intro pc hpc
      rw [hphases.allExited hjoined pc hpc]
      decide
    rw [hload, hphases.queue_empty hjoined, hidle, hmain]
    rfl

theorem mnetRun_accounts_oneClient : ∃ s : ServerState, s.main = .returned 0 ∧
    s.activeConnections = 0 := by
  obtain ⟨s, hrun, hmain⟩ := oneClientRun
  obtain ⟨-, -, -, hreturned⟩ := mnetRun_accounts ⟨rfl, rfl, ⟨_, rfl⟩, rfl⟩ hrun
  exact ⟨s, hmain, hreturned 0 hmain⟩

-- ============================================================================
-- A push that is refused
-- ============================================================================

/-- Until the end of `mnet_pool_push` only, whatever it returns. -/
def MainPc.countedUntilPushed : MainPc → Bool
  | .pushing _ | .soloHandling _ | .soloClosed => true
  | _ => false

/-- One worker that has popped nothing yet, and `n` clients in its queue. -/
structure Queueing (n : Nat) (s : ServerState) : Prop where
  main : s.main = .looping
  threads : s.threads = [.popping]
  count : s.pool.count = n
  capacity : s.pool.capacity = 128
  up : s.pool.shuttingDown = false
  running : s.running = true
  active : s.activeConnections = n

/-- The accept loop takes one more client and comes to its push. -/
theorem Queueing.pushing {s : ServerState} {n : Nat} {es : List ConnEvent} (hs : Queueing n s)
    (hrun : ServerRun {} idleServer es s) :
    ServerRun {} idleServer (es ++ [.accepted 7])
      { s with main := .pushing 7, activeConnections := s.activeConnections + 1 } := by
  have henter : AcceptStep {} s.main s [] .accepting s := by
    rw [hs.main]
    exact .enter hs.running
  have haccepting := hrun.silent (.accept henter)
  have haccepted := haccepting.next (.accept (@AcceptStep.accept _ _ 7 (by decide)))
  have hchecking := haccepted.silent (.accept .read)
  have hadmitted := hchecking.silent (.accept (.letIn fun h => absurd h.1 (by decide)))
  have hpushing := hadmitted.silent (.accept .countUp)
  exact hpushing

theorem exists_queueing (n : Nat) (hn : n ≤ 128) :
    ∃ es s, ServerRun {} idleServer es s ∧ Queueing n s := by
  induction n with
  | zero =>
      have hstart : ServerRun {} idleServer [] idleServer := .start
      have hpool := hstart.silent (.start (.pool (by decide)))
      have hworker := hpool.silent (.start (.create (by decide)))
      have hlooping := hworker.silent (.start (.createFailed (by decide) (by simp)))
      exact ⟨_, _, hlooping, rfl, rfl, rfl, rfl, rfl, rfl, rfl⟩
  | succ n ih =>
      obtain ⟨es, s, hrun, hs⟩ := ih (by omega)
      have hroom : s.pool.count ≠ s.pool.capacity := by
        rw [hs.count, hs.capacity]
        omega
      have hpushed := (hs.pushing hrun).next
        (.accept (.push (mnetPoolPush_of_room hroom hs.up s.running 7)))
      refine ⟨_, _, hpushed, rfl, hs.threads, ?_, hs.capacity, hs.up, hs.running, ?_⟩
      · show s.pool.count + 1 = n + 1
        rw [hs.count]
      · show s.activeConnections + 1 = _
        rw [hs.active]
        rfl

/-- A server stopped while its queue is full: the push is refused, and until the
    next section the counter is one higher. -/
theorem not_mnetRun_accounts_untilPushed :
    ¬ ∀ (app : MnetApp) (s₀ s : ServerState) (es : List ConnEvent),
      Starting (poolCapacity app) s₀ → ServerRun app s₀ es s →
      s.activeConnections = s.pool.count + s.threads.countP WorkerPc.busy +
        if s.main.countedUntilPushed then 1 else 0 := by
  intro hclaim
  obtain ⟨es, s, hrun, hs⟩ := exists_queueing 128 (by omega)
  have hstopped := (hs.pushing hrun).silent .stop
  have hrefused := hstopped.silent (.accept (.turnAway
    (mnetPoolPush_of_stopping (hs.count.trans hs.capacity.symm) hs.up 7) (by decide)))
  have h := hclaim {} idleServer _ _ ⟨rfl, rfl, ⟨_, rfl⟩, rfl⟩ hrefused
  simp [MnetPool.shutDown, hs.threads, hs.active, hs.count, MainPc.countedUntilPushed,
    WorkerPc.busy] at h

end Mnet
