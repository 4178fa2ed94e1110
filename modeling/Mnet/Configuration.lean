/-
  Mnet.Configuration

  `mnet_create` and the setters of mnet_app.c, and what they leave of the limits
  of `mnet_run`.

  `mnet_set_workers` clamps, so that no sequence of calls makes `mnet_run` start
  more threads than `MNET_MAX_WORKERS`; with the queue and the accept loop this
  bounds the connections that are open at any moment of any run.
-/

import Mnet.ConnectionAccounting
import Mnet.Registration

namespace Mnet

-- ============================================================================
-- Setters
-- ============================================================================

def MNET_MAX_WORKERS : Int := 64

def MNET_DEFAULT_WORKERS : Int := 4

def MNET_DEFAULT_TIMEOUT : Int := 30

def MNET_DEFAULT_KEEP_ALIVE_TIMEOUT : Int := 5

/-- `mnet_create`, where `calloc` succeeds. -/
def mnetCreate : MnetApp where
  timeoutSeconds := MNET_DEFAULT_TIMEOUT
  keepAliveTimeout := MNET_DEFAULT_KEEP_ALIVE_TIMEOUT
  workers := MNET_DEFAULT_WORKERS

def mnetSetDebug (app : MnetApp) (enabled : Bool) : MnetApp := { app with debug := enabled }

def mnetSetNotFoundHandler (app : MnetApp) (handler : Option MnetHandler) : MnetApp :=
  { app with notFoundHandler := handler }

def mnetUse (app : MnetApp) (middleware : Option MnetMiddleware) : MnetApp :=
  { app with middleware := middleware }

def mnetSetTimeout (app : MnetApp) (seconds : Int) : MnetApp :=
  { app with timeoutSeconds := if seconds = 0 then MNET_DEFAULT_TIMEOUT else seconds }

def mnetSetWorkers (app : MnetApp) (workers : Int) : MnetApp :=
  let workers := if workers = 0 then MNET_DEFAULT_WORKERS else workers
  let workers := if workers < 0 then 1 else workers
  let workers := if workers > MNET_MAX_WORKERS then MNET_MAX_WORKERS else workers
  { app with workers := workers }

def mnetSetHttps (app : MnetApp) (enabled : Bool) : MnetApp := { app with https := enabled }

def mnetSetDevMode (app : MnetApp) (enabled : Bool) : MnetApp := { app with dev := enabled }

def mnetSetMaxConnections (app : MnetApp) (maxConnections : Int) : MnetApp :=
  { app with maxConnections := maxConnections }

def mnetSetKeepAliveTimeout (app : MnetApp) (seconds : Int) : MnetApp :=
  { app with
    keepAliveTimeout := if seconds = 0 then MNET_DEFAULT_KEEP_ALIVE_TIMEOUT else seconds }

def mnetSetMaxBodySize (app : MnetApp) (maxBodySize : Nat) : MnetApp :=
  { app with maxBodySize := maxBodySize }

/-- A call that configures an application. -/
inductive Setting where
  | debug (enabled : Bool)
  | notFoundHandler (handler : Option MnetHandler)
  | use (middleware : Option MnetMiddleware)
  | timeout (seconds : Int)
  | workers (number : Int)
  | https (enabled : Bool)
  | devMode (enabled : Bool)
  | maxConnections (number : Int)
  | keepAliveTimeout (seconds : Int)
  | maxBodySize (bytes : Nat)
  | routes (call : RouteCall)

def Setting.apply (fs : FileSystem) (app : MnetApp) : Setting → MnetApp
  | .debug enabled => mnetSetDebug app enabled
  | .notFoundHandler handler => mnetSetNotFoundHandler app handler
  | .use middleware => mnetUse app middleware
  | .timeout seconds => mnetSetTimeout app seconds
  | .workers number => mnetSetWorkers app number
  | .https enabled => mnetSetHttps app enabled
  | .devMode enabled => mnetSetDevMode app enabled
  | .maxConnections number => mnetSetMaxConnections app number
  | .keepAliveTimeout seconds => mnetSetKeepAliveTimeout app seconds
  | .maxBodySize bytes => mnetSetMaxBodySize app bytes
  | .routes call => call.register fs app

/-- The application after these calls, in their order. -/
def configured (fs : FileSystem) (settings : List Setting) : MnetApp :=
  settings.foldl (Setting.apply fs) mnetCreate

-- ============================================================================
-- The number of workers
-- ============================================================================

theorem workers_register (fs : FileSystem) (app : MnetApp) (call : RouteCall) :
    (call.register fs app).workers = app.workers := by
  cases call with
  | route method path handler => cases path <;> cases handler <;> rfl
  | static urlPrefix fsPath => cases urlPrefix <;> cases fsPath <;> rfl

/-- A setter leaves the number of workers in its range. -/
theorem workers_apply (fs : FileSystem) {app : MnetApp} (setting : Setting)
    (h : 1 ≤ app.workers ∧ app.workers ≤ MNET_MAX_WORKERS) :
    1 ≤ (setting.apply fs app).workers ∧ (setting.apply fs app).workers ≤ MNET_MAX_WORKERS := by
  cases setting with
  | workers number =>
      simp only [Setting.apply, mnetSetWorkers, MNET_MAX_WORKERS, MNET_DEFAULT_WORKERS]
      omega
  | routes call =>
      show 1 ≤ (call.register fs app).workers ∧ (call.register fs app).workers ≤ _
      rw [workers_register]
      exact h
  | _ => exact h

theorem workers_configured (fs : FileSystem) (settings : List Setting) :
    1 ≤ (configured fs settings).workers ∧
      (configured fs settings).workers ≤ MNET_MAX_WORKERS := by
  have hfold : ∀ (settings : List Setting) (app : MnetApp),
      1 ≤ app.workers ∧ app.workers ≤ MNET_MAX_WORKERS →
      1 ≤ (settings.foldl (Setting.apply fs) app).workers ∧
        (settings.foldl (Setting.apply fs) app).workers ≤ MNET_MAX_WORKERS := by
    intro settings
    induction settings with
    | nil => exact fun app h => h
    | cons setting settings ih => exact fun app h => ih _ (workers_apply fs setting h)
  exact hfold settings mnetCreate ⟨by decide, by decide⟩

-- ============================================================================
-- The threads of a run
-- ============================================================================

/-- The workers `mnet_run` starts at most: none on a server with one. -/
def workerLimit (app : MnetApp) : Nat := if app.workers ≤ 1 then 0 else app.workers.toNat

theorem length_threads_step {app : MnetApp} {s t : ServerState} {e : List ConnEvent}
    (hphases : Phases app s) (hs : s.threads.length ≤ workerLimit app) (h : ServerStep app s e t) :
    t.threads.length ≤ workerLimit app := by
  cases h with
  | start h =>
      generalize hmain : s.main = pc at h
      have hpc := hphases.main
      rw [hmain] at hpc
      cases h with
      | create hlt =>
          have hmore : 1 < app.workers := hpc
          show (s.threads ++ [WorkerPc.popping]).length ≤ _
          rw [workerLimit, if_neg (Int.not_le.mpr hmore), List.length_append, List.length_singleton]
          omega
      | _ => exact hs
  | solo h =>
      generalize s.main = pc at h
      cases h <;> exact hs
  | accept h =>
      generalize s.main = pc at h
      cases h <;> exact hs
  | shutdown h =>
      generalize s.main = pc at h
      cases h <;> exact hs
  | worker hthread h =>
      rw [hthread] at hs
      rwa [List.length_append, List.length_cons] at hs ⊢
  | stop => exact hs

theorem ServerRun.length_threads {app : MnetApp} {capacity : Nat} {s₀ s : ServerState}
    {es : List ConnEvent} (hrun : ServerRun app s₀ es s) (hs₀ : Starting capacity s₀) :
    s.threads.length ≤ workerLimit app := by
  apply hrun.invariant_of (fun _ s => Phases app s) (fun _ s => s.threads.length ≤ workerLimit app)
    (fun hrun => ServerRun.phases hrun hs₀)
  · rw [hs₀.threads]
    exact Nat.zero_le _
  · exact fun hphases hs h => length_threads_step hphases hs h

-- ============================================================================
-- The open connections
-- ============================================================================

/-- What is queued, what the workers have and what the accept loop has. -/
theorem length_openClients_le (s : ServerState) :
    s.openClients.length ≤
      s.pool.count + s.threads.countP WorkerPc.busy + s.main.held.toList.length := by
  have hheld : (s.threads.filterMap WorkerPc.held).length ≤ s.threads.countP WorkerPc.busy := by
    induction s.threads with
    | nil => exact Nat.le_refl _
    | cons pc threads ih =>
        rw [List.countP_cons]
        cases pc with
        | handling client => exact Nat.succ_le_succ ih
        | closed => exact Nat.le_succ_of_le ih
        | popping | exited => exact ih
  rw [ServerState.openClients, List.length_append, List.length_append, MnetPool.queued,
    RingBuffer.length_contents]
  omega

theorem length_toList_le {α : Type} (o : Option α) : o.toList.length ≤ 1 := by
  cases o with
  | none => exact Nat.zero_le _
  | some a => exact Nat.le_refl _

/-- The connections that can be open at once. -/
def clientLimit (app : MnetApp) : Nat :=
  if app.maxConnections > 0 then app.maxConnections.toNat + 1
  else if app.workers ≤ 1 then 1 else 128 + workerLimit app + 1

theorem length_openClients_run {app : MnetApp} {s₀ s : ServerState} {es : List ConnEvent}
    (hs₀ : Starting (poolCapacity app) s₀) (hrun : ServerRun app s₀ es s) :
    s.openClients.length ≤ clientLimit app := by
  have hle := length_openClients_le s
  have hmain := length_toList_le s.main.held
  have hthreads := ServerRun.length_threads hrun hs₀
  have hphases : Phases app s := ServerRun.phases hrun hs₀
  have hconserved := ServerRun.conserved hrun (one_le_poolCapacity app) hs₀
  have hcount := hconserved.inBounds.count_le
  rw [hconserved.capacity] at hcount
  rw [clientLimit]
  split
  · next hmax =>
    -- under a limit the counter has everything but what is not counted yet
    have hload := ServerRun.load hrun hs₀
    have hlimited := (ServerRun.limited hmax hrun hs₀).le
    rw [hload, ServerState.load] at hlimited
    have hcounted : (0 : Int) ≤ if s.main.counted then 1 else 0 := by
      split <;> decide
    omega
  · next hmax =>
    rw [poolCapacity, if_neg hmax] at hcount
    split
    · next hsolo =>
      rw [workerLimit, if_pos hsolo] at hthreads
      have hnil := List.eq_nil_of_length_eq_zero (Nat.le_zero.mp hthreads)
      rw [hphases.noWorker hnil, hnil, List.countP_nil] at hle
      omega
    · have hbusy : s.threads.countP WorkerPc.busy ≤ s.threads.length := List.countP_le_length
      omega

/-- However a server was configured: at every moment of every run there are at
    most 64 workers, and no more clients accepted and not closed than one over
    the limit set, or without one the 128 of the queue, one for each worker and
    one for the accept loop. -/
theorem mnetRun_bounded {fs : FileSystem} {settings : List Setting} {s₀ s : ServerState}
    {es : List ConnEvent} (hs₀ : Starting (poolCapacity (configured fs settings)) s₀)
    (hrun : ServerRun (configured fs settings) s₀ es s) :
    (s.threads.length : Int) ≤ MNET_MAX_WORKERS ∧
      (acceptedClients es).length ≤
        (closedClients es).length + clientLimit (configured fs settings) := by
  constructor
  · have hthreads := ServerRun.length_threads hrun hs₀
    obtain ⟨-, hmax⟩ := workers_configured fs settings
    have hpos : (0 : Int) ≤ MNET_MAX_WORKERS := by decide
    rw [workerLimit] at hthreads
    split at hthreads <;> omega
  · have hconserved := ServerRun.conserved hrun (one_le_poolCapacity _) hs₀
    have hperm : (acceptedClients es).Perm (closedClients es ++ s.openClients) := by
      apply List.perm_iff_count.mpr
      intro client
      rw [List.count_append]
      exact hconserved.balance client
    have hopen := length_openClients_run hs₀ hrun
    rw [hperm.length_eq, List.length_append]
    omega

/-- One worker, with a client in the queue. -/
theorem queuedClientRun : ∃ s, ServerRun {} idleServer [.accepted 7, .pushed 7] s := by
  have hstart : ServerRun {} idleServer [] idleServer := .start
  have hpool := hstart.silent (.start (.pool (by decide)))
  have hworker := hpool.silent (.start (.create (by decide)))
  have hlooping := hworker.silent (.start (.createFailed (by decide) (by simp)))
  have haccepted := (hlooping.silent (.accept (.enter rfl))).next
    (.accept (@AcceptStep.accept _ _ 7 (by decide)))
  have hpushing := ((haccepted.silent (.accept .read)).silent
    (.accept (.letIn (by decide)))).silent (.accept .countUp)
  exact ⟨_, hpushing.next (.accept (.push rfl))⟩

theorem mnetRun_bounded_queuedClient : ∃ s : ServerState, (s.threads.length : Int) ≤ 64 ∧
    (acceptedClients [.accepted 7, .pushed 7]).length ≤
      (closedClients [.accepted 7, .pushed 7]).length +
        clientLimit (configured siteFiles [.workers 0]) := by
  obtain ⟨s, hrun⟩ := queuedClientRun
  have hrun' : ServerRun (configured siteFiles [.workers 0]) idleServer
    [.accepted 7, .pushed 7] s := hrun
  exact ⟨s, mnetRun_bounded ⟨rfl, rfl, ⟨_, rfl⟩, rfl⟩ hrun'⟩

end Mnet
