/-
  Mnet.Monitor

  `mnet_run` with its worker pool once more, now with who is asleep in the two
  condition variables of the pool.

  The sections are those of `Mnet.Pool`.  There a thread that has to wait just
  looks again later; here it goes to sleep in `mnet_cond_wait`, and looks again
  when it was woken: by a signal, by the broadcasts of `mnet_pool_shutdown`, or
  by nobody at all, as POSIX allows.  `MonitorRun.sections` is the refinement:
  who sleeps never makes a run show anything else.
-/

import Mnet.Lib.CondVar
import Mnet.PoolConservation

namespace Mnet

open CondVar (Wake Signal broadcast)

-- ============================================================================
-- The threads and their sleep
-- ============================================================================

/-- The server, and who is asleep: the workers in `not_empty`, by their places
    in `threads`, and whether the accept loop is in `not_full`. -/
structure MonitorState where
  server : ServerState
  notEmpty : List Nat
  notFull : Bool

/-- Who makes a step.  Wakeups without a signal and the request to stop come
    from the system. -/
inductive Actor where
  | main
  | worker (i : Nat)
  | system
deriving DecidableEq, Repr

/-- One step.  A thread asleep makes none. -/
inductive MonitorStep (app : MnetApp) :
    Actor → MonitorState → List ConnEvent → MonitorState → Prop
  | start {s : MonitorState} {s' : ServerState} {pc' : MainPc} (hawake : s.notFull = false)
      (h : StartStep app s.server.main s.server pc' s') :
      MonitorStep app .main s [] { s with server := { s' with main := pc' } }
  | solo {s : MonitorState} {s' : ServerState} {es : List ConnEvent} {pc' : MainPc}
      (hawake : s.notFull = false) (h : SoloStep app s.server.main s.server es pc' s') :
      MonitorStep app .main s es { s with server := { s' with main := pc' } }
  | accept {s : MonitorState} {s' : ServerState} {es : List ConnEvent} {pc' : MainPc}
      (hawake : s.notFull = false) (h : AcceptStep app s.server.main s.server es pc' s')
      (hquiet : pushedClients es = []) :
      MonitorStep app .main s es { s with server := { s' with main := pc' } }
  /-- `mnet_pool_push` that queues its client and signals `not_empty`. -/
  | push {s : MonitorState} {s' : ServerState} {client : MnetSocket} {pc' : MainPc}
      {ws : List Nat} (hawake : s.notFull = false)
      (h : AcceptStep app s.server.main s.server [.pushed client] pc' s')
      (hsignal : Signal s.notEmpty ws) :
      MonitorStep app .main s [.pushed client]
        { s with server := { s' with main := pc' }, notEmpty := ws }
  /-- `mnet_pool_push` that finds the queue full. -/
  | awaitNotFull {s : MonitorState} {client : MnetSocket} (hawake : s.notFull = false)
      (hmain : s.server.main = .pushing client)
      (h : mnetPoolPush s.server.running s.server.pool client = none) :
      MonitorStep app .main s [] { s with notFull := true }
  /-- The first section of `mnet_pool_shutdown`, with its two broadcasts. -/
  | begin {s : MonitorState} {s' : ServerState} {rc : Int} {pc' : MainPc}
      (hawake : s.notFull = false) (hmain : s.server.main = .stopping rc)
      (h : ShutdownStep s.server.main s.server [] pc' s') :
      MonitorStep app .main s []
        { server := { s' with main := pc' }, notEmpty := broadcast s.notEmpty, notFull := false }
  | shutdown {s : MonitorState} {s' : ServerState} {es : List ConnEvent} {pc' : MainPc}
      (hawake : s.notFull = false) (hmain : ∀ rc, s.server.main ≠ .stopping rc)
      (h : ShutdownStep s.server.main s.server es pc' s') :
      MonitorStep app .main s es { s with server := { s' with main := pc' } }
  | worker {s : MonitorState} {s' : ServerState} {es : List ConnEvent}
      {before after : List WorkerPc} {pc pc' : WorkerPc}
      (hthread : s.server.threads = before ++ pc :: after) (hawake : before.length ∉ s.notEmpty)
      (h : WorkerStep pc s.server es pc' s') (hquiet : poppedClients es = []) :
      MonitorStep app (.worker before.length) s es
        { s with server := { s' with threads := before ++ pc' :: after } }
  /-- `mnet_pool_pop` that takes a client off and signals `not_full`. -/
  | pop {s : MonitorState} {s' : ServerState} {client : MnetSocket}
      {before after : List WorkerPc} {pc pc' : WorkerPc}
      (hthread : s.server.threads = before ++ pc :: after) (hawake : before.length ∉ s.notEmpty)
      (h : WorkerStep pc s.server [.popped client] pc' s') :
      MonitorStep app (.worker before.length) s [.popped client]
        { s with server := { s' with threads := before ++ pc' :: after }, notFull := false }
  /-- `mnet_pool_pop` that finds the queue empty. -/
  | awaitNotEmpty {s : MonitorState} {before after : List WorkerPc}
      (hthread : s.server.threads = before ++ .popping :: after)
      (hawake : before.length ∉ s.notEmpty) (h : mnetPoolPop s.server.pool = none) :
      MonitorStep app (.worker before.length) s []
        { s with notEmpty := before.length :: s.notEmpty }
  | wakeWorker {s : MonitorState} {ws : List Nat} (h : Wake s.notEmpty ws) :
      MonitorStep app .system s [] { s with notEmpty := ws }
  | wakeMain {s : MonitorState} (h : s.notFull = true) :
      MonitorStep app .system s [] { s with notFull := false }
  | stop {s : MonitorState} :
      MonitorStep app .system s [] { s with server := { s.server with running := false } }

/-- Runs, by what they show of the connections. -/
abbrev MonitorRun (app : MnetApp) :=
  Transition.Run fun s es t => ∃ a, MonitorStep app a s es t

/-- Runs, by who made the steps. -/
abbrev ActorRun (app : MnetApp) :=
  Transition.Run fun s as t => ∃ a es, MonitorStep app a s es t ∧ as = [a]

/-- A server about to run: nobody sleeps. -/
structure MonitorStarting (capacity : Nat) (s : MonitorState) : Prop where
  server : Starting capacity s.server
  notEmpty : s.notEmpty = []
  notFull : s.notFull = false

-- ============================================================================
-- The sections behind the steps
-- ============================================================================

variable {app : MnetApp} {capacity : Nat} {a : Actor} {s₀ s t : MonitorState}
  {es : List ConnEvent}

/-- A step is a section of the server, or nothing but sleep and wakeup. -/
theorem MonitorStep.sections (h : MonitorStep app a s es t) :
    ServerStep app s.server es t.server ∨ (es = [] ∧ t.server = s.server) := by
  cases h with
  | start hawake h => exact .inl (.start h)
  | solo hawake h => exact .inl (.solo h)
  | accept hawake h hquiet => exact .inl (.accept h)
  | push hawake h hsignal => exact .inl (.accept h)
  | begin hawake hmain h => exact .inl (.shutdown h)
  | shutdown hawake hmain h => exact .inl (.shutdown h)
  | worker hthread hawake h hquiet => exact .inl (.worker hthread h)
  | pop hthread hawake h => exact .inl (.worker hthread h)
  | stop => exact .inl .stop
  | awaitNotFull | awaitNotEmpty | wakeWorker | wakeMain => exact .inr ⟨rfl, rfl⟩

theorem MonitorRun.sections (hrun : MonitorRun app s₀ es s) :
    ServerRun app s₀.server es s.server := by
  induction hrun with
  | start => exact .start
  | next hrun h ih =>
      obtain ⟨a, h⟩ := h
      rcases h.sections with h | ⟨rfl, hserver⟩
      · exact ih.next h
      · rw [List.append_nil, hserver]
        exact ih

/-- A run by its actors shows some events. -/
theorem ActorRun.shown {as : List Actor} (hrun : ActorRun app s as t) :
    ∃ es, MonitorRun app s es t := by
  induction hrun with
  | start => exact ⟨[], .start⟩
  | next hrun h ih =>
      obtain ⟨a, e, h, -⟩ := h
      obtain ⟨es, ih⟩ := ih
      exact ⟨es ++ e, ih.next ⟨a, h⟩⟩

theorem MonitorRun.phases (hrun : MonitorRun app s₀ es s) (hs₀ : MonitorStarting capacity s₀) :
    Phases app s.server :=
  ServerRun.phases hrun.sections hs₀.server

-- ============================================================================
-- The steps in front of the sections
-- ============================================================================

/-- The server with everybody awake. -/
def ServerState.awake (s : ServerState) : MonitorState :=
  { server := s, notEmpty := [], notFull := false }

theorem AcceptStep.awake {s s' : ServerState} {pc pc' : MainPc} (hmain : s.main = pc)
    (h : AcceptStep app pc s es pc' s') :
    MonitorStep app .main s.awake es { s' with main := pc' }.awake := by
  subst hmain
  generalize hpc : s.main = pc at h
  cases h with
  | push hpush =>
      refine .push rfl ?_ .lost
      rw [show s.awake.server.main = _ from hpc]
      exact .push hpush
  | _ =>
      refine .accept rfl ?_ rfl
      rw [show s.awake.server.main = _ from hpc]
      constructor <;> assumption

theorem ShutdownStep.awake {s s' : ServerState} {pc pc' : MainPc} (hmain : s.main = pc)
    (h : ShutdownStep pc s es pc' s') :
    MonitorStep app .main s.awake es { s' with main := pc' }.awake := by
  cases h with
  | begin => exact .begin rfl hmain (by rw [show s.awake.server.main = _ from hmain]; exact .begin)
  | _ =>
      refine .shutdown rfl (fun rc h => ?_) ?_
      · rw [show s.awake.server.main = _ from hmain] at h
        cases h
      · rw [show s.awake.server.main = _ from hmain]
        constructor
        assumption

theorem WorkerStep.awake {s s' : ServerState} {before after : List WorkerPc} {pc pc' : WorkerPc}
    (hthread : s.threads = before ++ pc :: after) (h : WorkerStep pc s es pc' s') :
    MonitorStep app (.worker before.length) s.awake es
      { s' with threads := before ++ pc' :: after }.awake := by
  have hawake : before.length ∉ s.awake.notEmpty := List.not_mem_nil
  cases h with
  | pop hpop => exact .pop hthread hawake (.pop hpop)
  | exit hpop => exact .worker hthread hawake (.exit hpop) rfl
  | close => exact .worker hthread hawake .close rfl
  | countDown => exact .worker hthread hawake .countDown rfl

/-- A thread that never looks in vain never sleeps. -/
theorem ServerStep.awake {s t : ServerState} (h : ServerStep app s es t) :
    ∃ a, MonitorStep app a s.awake es t.awake := by
  cases h with
  | start h => exact ⟨_, .start rfl h⟩
  | solo h => exact ⟨_, .solo rfl h⟩
  | accept h => exact ⟨_, h.awake rfl⟩
  | shutdown h => exact ⟨_, h.awake rfl⟩
  | worker hthread h => exact ⟨_, h.awake hthread⟩
  | stop => exact ⟨_, .stop⟩

/-- Sleep and wakeup change nothing of what a run can show, or of the state it
    can come to. -/
theorem monitorRun_iff (app : MnetApp) (s₀ s : ServerState) (es : List ConnEvent) :
    (∃ m : MonitorState, m.server = s ∧ MonitorRun app s₀.awake es m) ↔
      ServerRun app s₀ es s := by
  constructor
  · rintro ⟨m, rfl, hrun⟩
    exact hrun.sections
  · intro hrun
    refine ⟨s.awake, rfl, ?_⟩
    induction hrun with
    | start => exact .start
    | next _ h ih => exact ih.next h.awake

end Mnet
