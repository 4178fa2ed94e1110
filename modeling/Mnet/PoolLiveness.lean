/-
  Mnet.PoolLiveness

  The worker pool never sleeps through its work, in every run: where a worker
  is asleep in `mnet_pool_pop`, as many others are awake in it as clients are
  queued, so no wakeup is lost (`Attended`).  It follows that a server in which
  no thread can move waits for a client or a handler, and that a stopped server
  comes to its end: every step but a wakeup without a signal uses up a part of
  what remains (`remaining`).
-/

import Mathlib.Algebra.GroupWithZero.Nat
import Mathlib.Algebra.Ring.Int.Defs
import Mnet.Monitor

namespace Mnet

open CondVar (Wake Signal broadcast)

-- ============================================================================
-- Sleepers and queued clients
-- ============================================================================

/-- At `mnet_pool_pop`, asleep or awake. -/
def WorkerPc.atPop : WorkerPc → Bool
  | .popping => true
  | _ => false

/-- Behind the broadcasts of `mnet_pool_shutdown`. -/
def MainPc.broadcasted : MainPc → Bool
  | .joining _ | .draining _ => true
  | _ => false

/-- Who sleeps, sleeps for a reason. -/
structure Attended (s : MonitorState) : Prop where
  nodup : s.notEmpty.Nodup
  asleep : ∀ i ∈ s.notEmpty, s.server.threads[i]? = some .popping
  attended : s.notEmpty ≠ [] →
    s.server.pool.count + s.notEmpty.length ≤ s.server.threads.countP WorkerPc.atPop
  awoken : s.server.main.broadcasted = true →
    s.notEmpty = [] ∧ s.server.pool.shuttingDown = true
  full : s.notFull = true → (∃ client, s.server.main = .pushing client) ∧
    s.server.pool.count = s.server.pool.capacity ∧ s.server.pool.shuttingDown = false

theorem mnetPoolPush_eq_none {running : Bool} {pool : MnetPool} {client : MnetSocket}
    (h : mnetPoolPush running pool client = none) :
    running = true ∧ pool.count = pool.capacity ∧ pool.shuttingDown = false := by
  simp only [mnetPoolPush, awaitSlot] at h
  by_cases hfull : pool.count = pool.capacity ∧ pool.shuttingDown = false
  · cases running with
    | true => exact ⟨rfl, hfull⟩
    | false => simp [hfull] at h
  · simp [hfull] at h

theorem mnetPoolPop_eq_none {pool : MnetPool} (h : mnetPoolPop pool = none) :
    pool.count = 0 ∧ pool.shuttingDown = false := by
  simp only [mnetPoolPop] at h
  by_cases hempty : pool.count = 0 ∧ pool.shuttingDown = false
  · exact hempty
  · rw [if_neg hempty] at h
    split at h <;> cases h

theorem getElem?_replace {before after : List WorkerPc} {pc : WorkerPc} (pc' : WorkerPc) {i : Nat}
    (hi : i ≠ before.length) : (before ++ pc' :: after)[i]? = (before ++ pc :: after)[i]? := by
  rw [List.getElem?_append, List.getElem?_append]
  split
  · rfl
  · next hlt =>
    obtain ⟨k, hk⟩ : ∃ k, i - before.length = k + 1 := ⟨i - before.length - 1, by omega⟩
    rw [hk, List.getElem?_cons_succ, List.getElem?_cons_succ]

theorem countP_atPop_append (before after : List WorkerPc) (pc : WorkerPc) :
    (before ++ pc :: after).countP WorkerPc.atPop =
      (before ++ after).countP WorkerPc.atPop + if pc.atPop then 1 else 0 := by
  rw [List.countP_append, List.countP_cons, List.countP_append, Nat.add_assoc]

namespace Attended

variable {app : MnetApp} {s t : MonitorState} {es : List ConnEvent} {a : Actor}

/-- A worker awake at its pop is one more than those asleep there. -/
theorem asleep_lt {before after : List WorkerPc} (hs : Attended s)
    (hthread : s.server.threads = before ++ .popping :: after)
    (hawake : before.length ∉ s.notEmpty) :
    s.notEmpty.length < s.server.threads.countP WorkerPc.atPop := by
  have hmore : (before.length :: s.notEmpty).length ≤ s.server.threads.countP WorkerPc.atPop := by
    apply CondVar.length_le_countP (List.nodup_cons.mpr ⟨hawake, hs.nodup⟩)
    intro i hi
    obtain rfl | hi := List.mem_cons.mp hi
    · exact ⟨.popping, by simp [hthread], rfl⟩
    · exact ⟨.popping, hs.asleep i hi, rfl⟩
  exact hmore

/-- The workers stand where they stood, the queue has not grown, and the accept
    loop is awake. -/
theorem quiet (hs : Attended s) (hthreads : t.server.threads = s.server.threads)
    (hws : t.notEmpty.Sublist s.notEmpty) (hcount : t.server.pool.count ≤ s.server.pool.count)
    (hawake : t.notFull = false)
    (hmain : t.server.main.broadcasted = true →
      t.notEmpty = [] ∧ t.server.pool.shuttingDown = true) : Attended t where
  nodup := hs.nodup.sublist hws
  asleep i hi := by
    rw [hthreads]
    exact hs.asleep i (hws.subset hi)
  attended hne := by
    have hsome : s.notEmpty ≠ [] := by
      intro hnil
      rw [hnil, List.sublist_nil] at hws
      exact hne hws
    have hbefore := hs.attended hsome
    have hlength := hws.length_le
    rw [hthreads]
    omega
  awoken := hmain
  full h := by
    rw [hawake] at h
    cases h

theorem start {s' : ServerState} {pc' : MainPc} (hs : Attended s) (hawake : s.notFull = false)
    (h : StartStep app s.server.main s.server pc' s') :
    Attended { s with server := { s' with main := pc' } } := by
  generalize s.server.main = pc at h
  cases h with
  | create hlt =>
      refine ⟨hs.nodup, fun i hi => ?_, fun hne => ?_, nofun, fun h => ?_⟩
      · have hat := hs.asleep i hi
        have hlt := (List.getElem?_eq_some_iff.mp hat).1
        show (s.server.threads ++ [WorkerPc.popping])[i]? = _
        rw [List.getElem?_append_left hlt]
        exact hat
      · have hbefore := hs.attended hne
        show _ ≤ (s.server.threads ++ [WorkerPc.popping]).countP _
        rw [countP_atPop_append, List.append_nil]
        exact Nat.le_succ_of_le hbefore
      · rw [hawake] at h
        cases h
  | _ => exact hs.quiet rfl (List.Sublist.refl _) (Nat.le_refl _) hawake nofun

theorem solo {s' : ServerState} {pc' : MainPc} (hs : Attended s) (hawake : s.notFull = false)
    (h : SoloStep app s.server.main s.server es pc' s') :
    Attended { s with server := { s' with main := pc' } } := by
  generalize s.server.main = pc at h
  cases h <;> exact hs.quiet rfl (List.Sublist.refl _) (Nat.le_refl _) hawake nofun

theorem accept {s' : ServerState} {pc' : MainPc} (hs : Attended s) (hawake : s.notFull = false)
    (h : AcceptStep app s.server.main s.server es pc' s') (hquiet : pushedClients es = []) :
    Attended { s with server := { s' with main := pc' } } := by
  generalize s.server.main = pc at h
  cases h with
  | push hpush => cases hquiet
  | turnAway hpush hrc =>
      obtain ⟨rfl, -⟩ | ⟨-, hring, -⟩ := mnetPoolPush_cases hpush
      · exact absurd rfl hrc
      · refine hs.quiet rfl (List.Sublist.refl _) ?_ hawake nofun
        show _ ≤ s.server.pool.count
        rw [hring]
  | _ => exact hs.quiet rfl (List.Sublist.refl _) (Nat.le_refl _) hawake nofun

/-- A push that leaves somebody asleep has woken somebody for its client. -/
theorem push {s' : ServerState} {client : MnetSocket} {pc' : MainPc} {ws : List Nat}
    (hs : Attended s) (hawake : s.notFull = false)
    (h : AcceptStep app s.server.main s.server [.pushed client] pc' s')
    (hsignal : Signal s.notEmpty ws) :
    Attended { s with server := { s' with main := pc' }, notEmpty := ws } := by
  generalize s.server.main = pc at h
  cases h with
  | push hpush =>
      obtain ⟨-, -, -, rfl⟩ | ⟨⟨⟩, -⟩ := mnetPoolPush_cases hpush
      refine ⟨hs.nodup.sublist hsignal.sublist,
        fun i hi => hs.asleep i (hsignal.sublist.subset hi), fun hne => ?_, nofun, fun h => ?_⟩
      · have hlength := hsignal.length hne
        have hsome : s.notEmpty ≠ [] := by
          intro hnil
          rw [hnil] at hlength
          cases hlength
        have hbefore := hs.attended hsome
        show s.server.pool.count + 1 + ws.length ≤ _
        show _ ≤ s.server.threads.countP _
        omega
      · rw [hawake] at h
        cases h

theorem begin {s' : ServerState} {rc : Int} {pc' : MainPc} (hs : Attended s)
    (hmain : s.server.main = .stopping rc)
    (h : ShutdownStep s.server.main s.server [] pc' s') :
    Attended
      { server := { s' with main := pc' }, notEmpty := broadcast s.notEmpty,
        notFull := false } := by
  rw [hmain] at h
  cases h with
  | begin =>
      exact hs.quiet rfl (List.nil_sublist _) (Nat.le_refl _) rfl fun _ => ⟨rfl, rfl⟩

theorem shutdown {s' : ServerState} {pc' : MainPc} (hs : Attended s) (hawake : s.notFull = false)
    (hmain : ∀ rc, s.server.main ≠ .stopping rc)
    (h : ShutdownStep s.server.main s.server es pc' s') :
    Attended { s with server := { s' with main := pc' } } := by
  have hawoken := hs.awoken
  generalize hpc : s.server.main = pc at h hmain hawoken
  cases h with
  | begin => exact absurd rfl (hmain _)
  | joined hall =>
      exact hs.quiet rfl (List.Sublist.refl _) (Nat.le_refl _) hawake fun _ => hawoken rfl
  | drain hcount =>
      exact hs.quiet rfl (List.Sublist.refl _) (Nat.sub_le _ _) hawake fun _ => hawoken rfl
  | drained hcount => exact hs.quiet rfl (List.Sublist.refl _) (Nat.le_refl _) hawake nofun

/-- A worker that is awake goes from `pc` to `pc'`. -/
theorem replace {s' : ServerState} {before after : List WorkerPc} {pc pc' : WorkerPc}
    {notFull : Bool} (hs : Attended s) (hthread : s.server.threads = before ++ pc :: after)
    (hawake : before.length ∉ s.notEmpty) (hmain : s'.main = s.server.main)
    (hdown : s'.pool.shuttingDown = s.server.pool.shuttingDown)
    (hattended : s.notEmpty ≠ [] → s'.pool.count + s.notEmpty.length ≤
      (before ++ pc' :: after).countP WorkerPc.atPop)
    (hfull : notFull = true → s.notFull = true ∧ s'.pool = s.server.pool) :
    Attended { server := { s' with threads := before ++ pc' :: after }
               notEmpty := s.notEmpty, notFull := notFull } where
  nodup := hs.nodup
  asleep i hi := by
    have hne : i ≠ before.length := fun heq => hawake (heq ▸ hi)
    show (before ++ pc' :: after)[i]? = _
    rw [getElem?_replace pc' hne, ← hthread]
    exact hs.asleep i hi
  attended := hattended
  awoken h := by
    show s.notEmpty = [] ∧ s'.pool.shuttingDown = true
    rw [hdown]
    exact hs.awoken (hmain ▸ h)
  full h := by
    obtain ⟨hasleep, hpool⟩ := hfull h
    show (∃ client, s'.main = _) ∧ s'.pool.count = s'.pool.capacity ∧ s'.pool.shuttingDown = false
    rw [hpool, hmain]
    exact hs.full hasleep

theorem worker {s' : ServerState} {before after : List WorkerPc} {pc pc' : WorkerPc}
    (hs : Attended s) (hthread : s.server.threads = before ++ pc :: after)
    (hawake : before.length ∉ s.notEmpty) (h : WorkerStep pc s.server es pc' s')
    (hquiet : poppedClients es = []) :
    Attended { s with server := { s' with threads := before ++ pc' :: after } } := by
  have hattended := hs.attended
  have hlt : pc = .popping → s.notEmpty.length < s.server.threads.countP WorkerPc.atPop :=
    fun hpc => hs.asleep_lt (hpc ▸ hthread) hawake
  rw [hthread, countP_atPop_append] at hattended hlt
  have hreplace := fun hmain hdown hatt hpool =>
    @replace s s' before after pc pc' s.notFull hs hthread hawake hmain hdown hatt hpool
  rw [countP_atPop_append] at hreplace
  cases h with
  | pop hpop => cases hquiet
  | exit hpop =>
      obtain ⟨⟨⟩, -⟩ | ⟨-, -, hcount, rfl⟩ := mnetPoolPop_cases hpop
      refine hreplace rfl rfl (fun _ => ?_) fun h => ⟨h, rfl⟩
      have := hlt rfl
      simp only [WorkerPc.atPop, if_true, hcount] at this ⊢
      simpa using Nat.lt_succ_iff.mp this
  | close => exact hreplace rfl rfl hattended fun h => ⟨h, rfl⟩
  | countDown =>
      refine hreplace rfl rfl (fun hne => ?_) fun h => ⟨h, rfl⟩
      have hbefore := hattended hne
      simp only [WorkerPc.atPop] at hbefore ⊢
      exact Nat.le_succ_of_le hbefore

theorem pop {s' : ServerState} {client : MnetSocket} {before after : List WorkerPc}
    {pc pc' : WorkerPc} (hs : Attended s) (hthread : s.server.threads = before ++ pc :: after)
    (hawake : before.length ∉ s.notEmpty) (h : WorkerStep pc s.server [.popped client] pc' s') :
    Attended
      { s with server := { s' with threads := before ++ pc' :: after }, notFull := false } := by
  have hattended := hs.attended
  rw [hthread, countP_atPop_append] at hattended
  cases h with
  | pop hpop =>
      obtain ⟨-, hcount, rfl⟩ | ⟨⟨⟩, -⟩ := mnetPoolPop_cases hpop
      refine hs.replace hthread hawake rfl rfl (fun hne => ?_) nofun
      have hbefore := hattended hne
      rw [countP_atPop_append]
      simp only [WorkerPc.atPop, if_true] at hbefore
      show s.server.pool.count - 1 + s.notEmpty.length ≤ (before ++ after).countP _ + 0
      omega

/-- Nobody goes to sleep in `not_empty` behind its broadcast. -/
theorem awaitNotEmpty {before after : List WorkerPc} (hs : Attended s)
    (hthread : s.server.threads = before ++ .popping :: after)
    (hawake : before.length ∉ s.notEmpty) (h : mnetPoolPop s.server.pool = none) :
    Attended { s with notEmpty := before.length :: s.notEmpty } := by
  obtain ⟨hempty, hup⟩ := mnetPoolPop_eq_none h
  refine ⟨List.nodup_cons.mpr ⟨hawake, hs.nodup⟩, fun i hi => ?_, fun _ => ?_, fun hmain => ?_,
    hs.full⟩
  · obtain rfl | hi := List.mem_cons.mp hi
    · simp [hthread]
    · exact hs.asleep i hi
  · have hlt := hs.asleep_lt hthread hawake
    show s.server.pool.count + (s.notEmpty.length + 1) ≤ s.server.threads.countP _
    rw [hempty, Nat.zero_add]
    exact hlt
  · have hdown := (hs.awoken hmain).2
    rw [hup] at hdown
    cases hdown

theorem step (hs : Attended s) (h : MonitorStep app a s es t) : Attended t := by
  cases h with
  | start hawake h => exact hs.start hawake h
  | solo hawake h => exact hs.solo hawake h
  | accept hawake h hquiet => exact hs.accept hawake h hquiet
  | push hawake h hsignal => exact hs.push hawake h hsignal
  | awaitNotFull hawake hmain h =>
      obtain ⟨-, hfull, hup⟩ := mnetPoolPush_eq_none h
      exact ⟨hs.nodup, hs.asleep, hs.attended, hs.awoken, fun _ => ⟨⟨_, hmain⟩, hfull, hup⟩⟩
  | begin hawake hmain h => exact hs.begin hmain h
  | shutdown hawake hmain h => exact hs.shutdown hawake hmain h
  | worker hthread hawake h hquiet => exact hs.worker hthread hawake h hquiet
  | pop hthread hawake h => exact hs.pop hthread hawake h
  | awaitNotEmpty hthread hawake h => exact hs.awaitNotEmpty hthread hawake h
  | @wakeWorker _ ws h =>
      refine ⟨hs.nodup.sublist h.sublist, fun i hi => hs.asleep i (h.sublist.subset hi),
        fun hne => ?_, fun hmain => ?_, hs.full⟩
      · have hlength := h.length
        have hbefore := hs.attended fun hnil => by simp [hnil] at hlength
        show s.server.pool.count + ws.length ≤ s.server.threads.countP _
        omega
      · obtain ⟨hnil, hdown⟩ := hs.awoken hmain
        rw [hnil] at h
        have hlength := h.length
        cases hlength
  | wakeMain h => exact ⟨hs.nodup, hs.asleep, hs.attended, hs.awoken, nofun⟩
  | stop => exact ⟨hs.nodup, hs.asleep, hs.attended, hs.awoken, hs.full⟩

end Attended

theorem MonitorRun.attended {app : MnetApp} {capacity : Nat} {s₀ s : MonitorState}
    {es : List ConnEvent} (hrun : MonitorRun app s₀ es s) (hs₀ : MonitorStarting capacity s₀) :
    Attended s := by
  apply hrun.invariant (fun _ s => Attended s) ?_ fun hs ⟨_, h⟩ => hs.step h
  refine ⟨?_, ?_, ?_, ?_, ?_⟩
  · rw [hs₀.notEmpty]
    exact List.nodup_nil
  · intro i hi
    rw [hs₀.notEmpty] at hi
    cases hi
  · intro hne
    exact absurd hs₀.notEmpty hne
  · intro hmain
    rw [hs₀.server.main] at hmain
    cases hmain
  · intro hfull
    rw [hs₀.notFull] at hfull
    cases hfull

-- ============================================================================
-- Who can move
-- ============================================================================

/-- Where the accept loop waits for a client or for a handler. -/
def MainPc.outside : MainPc → Bool
  | .accepting | .soloAccepting | .soloHandling _ => true
  | _ => false

/-- Where a worker waits for its client or for a handler. -/
def WorkerPc.outside : WorkerPc → Bool
  | .handling _ => true
  | _ => false

/-- Whose step the server does not make by itself. -/
def MonitorState.outside (s : MonitorState) : Actor → Bool
  | .main => s.server.main.outside
  | .worker i => s.server.threads[i]?.any WorkerPc.outside
  | .system => true

/-- Some thread can go on by itself. -/
def Runnable (app : MnetApp) (s : MonitorState) : Prop :=
  ∃ a es t, MonitorStep app a s es t ∧ s.outside a = false

section Progress

variable {app : MnetApp} {s : MonitorState} {before after : List WorkerPc} {pc : WorkerPc}

/-- A worker that is awake goes on, but for its client and its end. -/
theorem worker_runnable (hthread : s.server.threads = before ++ pc :: after)
    (hawake : before.length ∉ s.notEmpty) (hinside : pc.outside = false)
    (halive : pc ≠ .exited) : Runnable app s := by
  have houtside : s.outside (.worker before.length) = false := by
    simp [MonitorState.outside, hthread, hinside]
  cases pc with
  | handling client => cases hinside
  | exited => exact absurd rfl halive
  | closed => exact ⟨_, _, _, .worker hthread hawake .countDown rfl, houtside⟩
  | popping =>
      cases hpop : mnetPoolPop s.server.pool with
      | none => exact ⟨_, _, _, .awaitNotEmpty hthread hawake hpop, houtside⟩
      | some r =>
          obtain ⟨out, pool'⟩ := r
          cases out with
          | none => exact ⟨_, _, _, .worker hthread hawake (.exit hpop) rfl, houtside⟩
          | some client => exact ⟨_, _, _, .pop hthread hawake (.pop hpop), houtside⟩

/-- So does the accept loop, but where it waits for a client, a handler or the
    workers. -/
theorem main_runnable (hawake : s.notFull = false) (hinside : s.server.main.outside = false)
    (hreturned : ∀ rc, s.server.main ≠ .returned rc)
    (hjoin : ∀ rc, s.server.main = .joining rc → ∀ pc ∈ s.server.threads, pc = .exited) :
    Runnable app s := by
  suffices h : ∃ es t, MonitorStep app .main s es t by
    obtain ⟨es, t, h⟩ := h
    exact ⟨_, es, t, h, hinside⟩
  rcases s with ⟨⟨main, threads, pool, running, active⟩, notEmpty, notFull⟩
  simp only at hawake hinside hreturned hjoin
  cases main with
  | starting => exact ⟨_, _, .start hawake .listenFailed⟩
  | soloLooping =>
      cases running with
      | true => exact ⟨_, _, .solo hawake (.enter rfl)⟩
      | false => exact ⟨_, _, .solo hawake (.leave rfl)⟩
  | soloAccepting | soloHandling | accepting => cases hinside
  | soloAccepted client =>
      by_cases hlimit : atLimit app active
      · exact ⟨_, _, .solo hawake (.refuse hlimit)⟩
      · exact ⟨_, _, .solo hawake (.letIn hlimit)⟩
  | soloClosed => exact ⟨_, _, .solo hawake .countDown⟩
  | creating =>
      by_cases hlt : (threads.length : Int) < app.workers
      · exact ⟨_, _, .start hawake (.create hlt)⟩
      · exact ⟨_, _, .start hawake (.created hlt)⟩
  | looping =>
      cases running with
      | true => exact ⟨_, _, .accept hawake (.enter rfl) rfl⟩
      | false => exact ⟨_, _, .accept hawake (.leave rfl) rfl⟩
  | accepted client => exact ⟨_, _, .accept hawake .read rfl⟩
  | checking client seen =>
      by_cases hlimit : atLimit app seen
      · exact ⟨_, _, .accept hawake (.refuse hlimit) rfl⟩
      · exact ⟨_, _, .accept hawake (.letIn hlimit) rfl⟩
  | admitted client => exact ⟨_, _, .accept hawake .countUp rfl⟩
  | pushing client =>
      cases hpush : mnetPoolPush running pool client with
      | none => exact ⟨_, _, .awaitNotFull hawake rfl hpush⟩
      | some r =>
          obtain ⟨rc, pool'⟩ := r
          by_cases hrc : rc = 0
          · obtain ⟨ws, hsignal⟩ := CondVar.exists_signal notEmpty
            rw [hrc] at hpush
            exact ⟨_, _, .push hawake (.push hpush) hsignal⟩
          · exact ⟨_, _, .accept hawake (.turnAway hpush hrc) rfl⟩
  | turnedAway client => exact ⟨_, _, .accept hawake .uncount rfl⟩
  | uncounted client => exact ⟨_, _, .accept hawake .close rfl⟩
  | stopping rc => exact ⟨_, _, .begin hawake rfl .begin⟩
  | joining rc => exact ⟨_, _, .shutdown hawake nofun (.joined (hjoin rc rfl))⟩
  | draining rc =>
      by_cases hcount : pool.count > 0
      · exact ⟨_, _, .shutdown hawake nofun (.drain hcount)⟩
      · exact ⟨_, _, .shutdown hawake nofun (.drained hcount)⟩
  | returned rc => exact absurd rfl (hreturned rc)

/-- Where nobody can move, a worker has a client, is gone, or sleeps. -/
theorem stuck_worker (hstuck : ¬ Runnable app s)
    (hthread : s.server.threads = before ++ pc :: after) :
    (∃ client, pc = .handling client) ∨ pc = .exited ∨ before.length ∈ s.notEmpty := by
  by_cases hasleep : before.length ∈ s.notEmpty
  · exact .inr (.inr hasleep)
  · cases houtside : pc.outside with
    | true =>
        cases pc with
        | handling client => exact .inl ⟨client, rfl⟩
        | _ => cases houtside
    | false =>
        by_cases halive : pc = .exited
        · exact .inr (.inl halive)
        · exact absurd (worker_runnable hthread hasleep houtside halive) hstuck

/-- Where nobody can move and clients are queued, every worker has one. -/
theorem stuck_handling (hphases : Phases app s.server) (hs : Attended s)
    (hstuck : ¬ Runnable app s) (hcount : 0 < s.server.pool.count) :
    ∀ pc ∈ s.server.threads, ∃ client, pc = .handling client := by
  intro pc hpc
  obtain ⟨before, after, hthread⟩ := List.append_of_mem hpc
  obtain hhandling | rfl | hasleep := stuck_worker hstuck hthread
  · exact hhandling
  · have hempty := (hphases.exited hpc).2
    omega
  · -- one more worker is at its pop than sleeps there, and it can move
    have hattended := hs.attended (List.ne_nil_of_mem hasleep)
    obtain ⟨i, t, hget, ht, hawake⟩ : ∃ i t, s.server.threads[i]? = some t ∧
        WorkerPc.atPop t = true ∧ i ∉ s.notEmpty := CondVar.exists_awake (by omega)
    cases t with
    | popping =>
        obtain ⟨hlt, hget⟩ := List.getElem?_eq_some_iff.mp hget
        have hsplit : s.server.threads =
            s.server.threads.take i ++ .popping :: s.server.threads.drop (i + 1) := by
          rw [← hget, List.getElem_cons_drop, List.take_append_drop]
        have hlength : (s.server.threads.take i).length = i :=
          List.length_take_of_le (Nat.le_of_lt hlt)
        have hawake : (s.server.threads.take i).length ∉ s.notEmpty := by
          rw [hlength]
          exact hawake
        exact absurd (worker_runnable hsplit hawake rfl (by simp)) hstuck
    | _ => cases ht

/-- Where nobody can move, the server has returned, waits for a client, or a
    handler runs. -/
theorem stuck_main (hphases : Phases app s.server) (hs : Attended s)
    (hcapacity : 0 < s.server.pool.capacity) (hstuck : ¬ Runnable app s) :
    (∃ rc, s.server.main = .returned rc) ∨ s.server.main.outside = true ∨
      ∃ client, WorkerPc.handling client ∈ s.server.threads := by
  by_cases hreturned : ∃ rc, s.server.main = .returned rc
  · exact .inl hreturned
  cases houtside : s.server.main.outside with
  | true => exact .inr (.inl rfl)
  | false =>
      refine .inr (.inr ?_)
      cases hfull : s.notFull with
      | true =>
          obtain ⟨⟨client, hmain⟩, hcount, -⟩ := hs.full hfull
          have hsome : s.server.threads ≠ [] := by
            have hpc := hphases.main
            rw [hmain] at hpc
            exact hpc
          obtain ⟨pc, hpc⟩ := List.exists_mem_of_ne_nil _ hsome
          obtain ⟨client, rfl⟩ := stuck_handling hphases hs hstuck (by omega) pc hpc
          exact ⟨client, hpc⟩
      | false =>
          have hjoin : ¬ ∀ rc, s.server.main = .joining rc →
              ∀ pc ∈ s.server.threads, pc = .exited := by
            intro hjoin
            exact hstuck (main_runnable hfull houtside
              (fun rc hmain => hreturned ⟨rc, hmain⟩) hjoin)
          push Not at hjoin
          obtain ⟨rc, hmain, pc, hpc, halive⟩ := hjoin
          obtain ⟨before, after, hthread⟩ := List.append_of_mem hpc
          obtain ⟨client, rfl⟩ | hexited | hasleep := stuck_worker hstuck hthread
          · exact ⟨client, hpc⟩
          · exact absurd hexited halive
          · rw [(hs.awoken (by rw [hmain]; rfl)).1] at hasleep
            cases hasleep

end Progress

/-- Whenever nobody can go on by itself, `mnet_run` has returned, waits in
    `accept`, or a handler runs; and no client is queued then that an idle
    worker could serve. -/
theorem mnetRun_progresses {app : MnetApp} {capacity : Nat} {s₀ s : MonitorState}
    {es : List ConnEvent} (hcapacity : 1 ≤ capacity) (hs₀ : MonitorStarting capacity s₀)
    (hrun : MonitorRun app s₀ es s) :
    (s.notEmpty ≠ [] →
      s.server.pool.count + s.notEmpty.length ≤ s.server.threads.countP WorkerPc.atPop) ∧
    (¬ Runnable app s →
      ((∃ rc, s.server.main = .returned rc) ∨ s.server.main.outside = true ∨
        ∃ client, WorkerPc.handling client ∈ s.server.threads) ∧
      (0 < s.server.pool.count →
        ∀ pc ∈ s.server.threads, ∃ client, pc = .handling client)) := by
  have hphases := hrun.phases hs₀
  have hs := hrun.attended hs₀
  have hpool := (ServerRun.conserved hrun.sections hcapacity hs₀.server).capacity
  refine ⟨hs.attended, fun hstuck => ⟨?_, stuck_handling hphases hs hstuck⟩⟩
  exact stuck_main hphases hs (by omega) hstuck

/-- A server with the settings of `mnet_create`, before `mnet_run`. -/
def idleMonitor : MonitorState := { server := idleServer, notEmpty := [], notFull := false }

/-- One worker, asleep, and the accept loop in `accept`. -/
def waitingMonitor : MonitorState :=
  { server := { idleServer with main := .accepting, threads := [.popping], running := true }
    notEmpty := [0], notFull := false }

theorem waitingRun : MonitorRun {} idleMonitor [] waitingMonitor := by
  have hstart : MonitorRun {} idleMonitor [] idleMonitor := .start
  have hpool := hstart.silent ⟨_, .start rfl (.pool (by decide))⟩
  have hworker := hpool.silent ⟨_, .start rfl (.create (by decide))⟩
  have hlooping := hworker.silent ⟨_, .start rfl (.createFailed (by decide) (by simp))⟩
  have hasleep := hlooping.silent
    ⟨_, @MonitorStep.awaitNotEmpty _ _ [] [] rfl (by simp [idleMonitor]) rfl⟩
  have haccepting := hasleep.silent ⟨_, .accept rfl (.enter rfl) rfl⟩
  exact haccepting

theorem idleMonitor_starting : MonitorStarting 128 idleMonitor :=
  ⟨⟨rfl, rfl, ⟨_, rfl⟩, rfl⟩, rfl, rfl⟩

theorem not_runnable_waitingMonitor : ¬ Runnable {} waitingMonitor := by
  rintro ⟨a, es, t, hstep, hinside⟩
  have hasleep : ∀ {before after : List WorkerPc} {pc : WorkerPc},
      waitingMonitor.server.threads = before ++ pc :: after →
        before.length ∈ waitingMonitor.notEmpty := by
    intro before after pc hthread
    have hlen := congrArg List.length hthread
    rw [List.length_append, List.length_cons] at hlen
    have hone : waitingMonitor.server.threads.length = 1 := rfl
    exact List.mem_singleton.mpr (by omega)
  cases a with
  | main => exact absurd hinside (by decide)
  | system => exact absurd hinside (by decide)
  | worker i =>
      cases hstep with
      | worker hthread hawake => exact hawake (hasleep hthread)
      | pop hthread hawake => exact hawake (hasleep hthread)
      | awaitNotEmpty hthread hawake => exact hawake (hasleep hthread)

theorem mnetRun_progresses_waiting :
    waitingMonitor.server.pool.count + waitingMonitor.notEmpty.length ≤
        waitingMonitor.server.threads.countP WorkerPc.atPop ∧
      ((∃ rc, waitingMonitor.server.main = .returned rc) ∨
        waitingMonitor.server.main.outside = true ∨
        ∃ client, WorkerPc.handling client ∈ waitingMonitor.server.threads) :=
  have h := mnetRun_progresses (by decide) idleMonitor_starting waitingRun
  ⟨h.1 (by simp [waitingMonitor]), (h.2 not_runnable_waitingMonitor).1⟩

-- ============================================================================
-- What remains of a stopped server
-- ============================================================================

/-- The steps a worker has before it, until it finds the queue empty. -/
def WorkerPc.remaining : WorkerPc → Nat
  | .popping => 2
  | .handling _ => 4
  | .closed => 3
  | .exited => 0

/-- The steps the accept loop has before it on a stopped server.  Until the
    broadcasts it may still wake each of the `threads`. -/
def MainPc.remaining (workers : Int) (threads : Nat) : MainPc → Int
  | .starting | .returned _ => 0
  | .soloLooping => 1
  | .soloAccepting => 5
  | .soloAccepted _ => 4
  | .soloHandling _ => 3
  | .soloClosed => 2
  | .creating => threads + 5 + 4 * (workers - threads).toNat
  | .looping => threads + 4
  | .accepting => threads + 15
  | .accepted _ => threads + 14
  | .checking _ _ => threads + 13
  | .admitted _ => threads + 12
  | .pushing _ => threads + 11
  | .turnedAway _ => threads + 6
  | .uncounted _ => threads + 5
  | .stopping _ => threads + 3
  | .joining _ => 2
  | .draining _ => 1

/-- A queued client costs four steps, and who sleeps has made one of them. -/
def MonitorState.remaining (app : MnetApp) (s : MonitorState) : Int :=
  4 * s.server.pool.count + (s.server.threads.map WorkerPc.remaining).sum +
    s.server.main.remaining app.workers s.server.threads.length - s.notEmpty.length -
    if s.notFull then 1 else 0

/-- The run is under way, and somebody has stopped the server. -/
structure Stopped (s : MonitorState) : Prop where
  running : s.server.running = false
  main : s.server.main ≠ .starting

/-- What a step of each actor has to pay. -/
def Actor.price : Actor → Int
  | .system => -1
  | _ => 1

theorem sum_remaining_append (before after : List WorkerPc) (pc : WorkerPc) :
    ((before ++ pc :: after).map WorkerPc.remaining).sum =
      ((before ++ after).map WorkerPc.remaining).sum + pc.remaining := by
  simp only [List.map_append, List.map_cons, List.sum_append, List.sum_cons]
  omega

theorem countP_atPop_le (threads : List WorkerPc) :
    threads.countP WorkerPc.atPop ≤ (threads.map WorkerPc.remaining).sum := by
  induction threads with
  | nil => exact Nat.le_refl _
  | cons pc threads ih =>
      rw [List.countP_cons, List.map_cons, List.sum_cons]
      cases pc <;> simp only [WorkerPc.atPop, WorkerPc.remaining] <;> simp <;> omega

namespace Attended

variable {app : MnetApp} {s t : MonitorState} {es : List ConnEvent} {a : Actor}

theorem notEmpty_le (hs : Attended s) :
    s.notEmpty.length ≤ s.server.threads.countP WorkerPc.atPop :=
  CondVar.length_le_countP hs.nodup fun i hi => ⟨.popping, hs.asleep i hi, rfl⟩

theorem remaining_nonneg (hs : Attended s) : 0 ≤ s.remaining app := by
  have hasleep := hs.notEmpty_le
  have hle := countP_atPop_le s.server.threads
  have hmain : (if s.notFull then 1 else 0 : Int) ≤
      s.server.main.remaining app.workers s.server.threads.length := by
    cases hfull : s.notFull with
    | true =>
        obtain ⟨⟨client, hmain⟩, -⟩ := hs.full hfull
        rw [hmain]
        simp only [MainPc.remaining, if_true]
        omega
    | false => cases s.server.main <;> simp [MainPc.remaining] <;> omega
  unfold MonitorState.remaining
  omega

end Attended

theorem Stopped.step {app : MnetApp} {s t : MonitorState} {es : List ConnEvent} {a : Actor}
    (hs : Stopped s) (h : MonitorStep app a s es t) : Stopped t := by
  have hrunning := hs.running
  have hmain := hs.main
  cases h with
  | start hawake h =>
      generalize s.server.main = pc at h hmain
      cases h <;> first | exact absurd rfl hmain | exact ⟨hrunning, nofun⟩
  | solo hawake h =>
      generalize s.server.main = pc at h
      cases h <;> exact ⟨hrunning, nofun⟩
  | accept hawake h hquiet | push hawake h hsignal =>
      generalize s.server.main = pc at h
      cases h <;> exact ⟨hrunning, nofun⟩
  | begin hawake hstopping h | shutdown hawake hstopping h =>
      generalize s.server.main = pc at h
      cases h <;> exact ⟨hrunning, nofun⟩
  | worker hthread hawake h hquiet | pop hthread hawake h =>
      cases h <;> exact ⟨hrunning, hmain⟩
  | awaitNotFull | awaitNotEmpty | wakeWorker | wakeMain => exact ⟨hrunning, hmain⟩
  | stop => exact ⟨rfl, hmain⟩

namespace Stopped

variable {app : MnetApp} {s t : MonitorState} {es : List ConnEvent} {a : Actor}

/-- The accept loop goes on with nobody waking: what it had before it grows
    less. -/
theorem main_pays {s' : ServerState} {pc' : MainPc} (hawake : s.notFull = false)
    (hpc : pc'.remaining app.workers s'.threads.length + 4 * s'.pool.count +
        (s'.threads.map WorkerPc.remaining).sum + 1 ≤
      s.server.main.remaining app.workers s.server.threads.length + 4 * s.server.pool.count +
        (s.server.threads.map WorkerPc.remaining).sum) :
    ({ s with server := { s' with main := pc' } } : MonitorState).remaining app + 1 ≤
      s.remaining app := by
  simp only [MonitorState.remaining, hawake]
  omega

theorem start_pays {s' : ServerState} {pc' : MainPc} (hs : Stopped s) (hawake : s.notFull = false)
    (h : StartStep app s.server.main s.server pc' s') :
    ({ s with server := { s' with main := pc' } } : MonitorState).remaining app + 1 ≤
      s.remaining app := by
  have hmain := hs.main
  apply main_pays hawake
  generalize s.server.main = pc at h hmain
  cases h with
  | create hlt =>
      simp only [List.length_append, List.length_singleton, MainPc.remaining, List.map_append,
        List.map_singleton, WorkerPc.remaining, List.sum_append, List.sum_singleton]
      omega
  | created | createFailed | firstFailed =>
      simp only [MainPc.remaining]
      omega
  | _ => exact absurd rfl hmain

theorem solo_pays {s' : ServerState} {pc' : MainPc} (hs : Stopped s) (hawake : s.notFull = false)
    (h : SoloStep app s.server.main s.server es pc' s') :
    ({ s with server := { s' with main := pc' } } : MonitorState).remaining app + 1 ≤
      s.remaining app := by
  have hrunning := hs.running
  apply main_pays hawake
  generalize s.server.main = pc at h
  cases h with
  | enter hrun =>
      rw [hrunning] at hrun
      cases hrun
  | _ =>
      simp only [MainPc.remaining]
      omega

theorem accept_pays {s' : ServerState} {pc' : MainPc} (hs : Stopped s) (hawake : s.notFull = false)
    (h : AcceptStep app s.server.main s.server es pc' s') (hquiet : pushedClients es = []) :
    ({ s with server := { s' with main := pc' } } : MonitorState).remaining app + 1 ≤
      s.remaining app := by
  have hrunning := hs.running
  apply main_pays hawake
  generalize s.server.main = pc at h
  cases h with
  | enter hrun =>
      rw [hrunning] at hrun
      cases hrun
  | push hpush => cases hquiet
  | turnAway hpush hrc =>
      obtain ⟨rfl, -⟩ | ⟨-, hring, -⟩ := mnetPoolPush_cases hpush
      · exact absurd rfl hrc
      · simp only [MainPc.remaining, hring]
        omega
  | _ =>
      simp only [MainPc.remaining]
      omega

/-- A push pays for the client it queues and the worker it wakes. -/
theorem push_pays {s' : ServerState} {client : MnetSocket} {pc' : MainPc} {ws : List Nat}
    (hawake : s.notFull = false)
    (h : AcceptStep app s.server.main s.server [.pushed client] pc' s')
    (hsignal : Signal s.notEmpty ws) :
    ({ s with server := { s' with main := pc' }, notEmpty := ws } : MonitorState).remaining app +
      1 ≤ s.remaining app := by
  have hlength := hsignal.length_le
  simp only [MonitorState.remaining, hawake]
  generalize s.server.main = pc at h
  cases h with
  | push hpush =>
      obtain ⟨-, -, -, rfl⟩ | ⟨⟨⟩, -⟩ := mnetPoolPush_cases hpush
      simp only [MainPc.remaining, MnetPool.enqueue, RingBuffer.put_count]
      omega

/-- The broadcasts pay for all they wake. -/
theorem begin_pays {s' : ServerState} {rc : Int} {pc' : MainPc} (hattended : Attended s)
    (hawake : s.notFull = false) (hmain : s.server.main = .stopping rc)
    (h : ShutdownStep s.server.main s.server [] pc' s') :
    ({ server := { s' with main := pc' }, notEmpty := broadcast s.notEmpty, notFull := false } :
      MonitorState).remaining app + 1 ≤ s.remaining app := by
  have hasleep := Nat.le_trans hattended.notEmpty_le List.countP_le_length
  simp only [MonitorState.remaining, hawake]
  rw [hmain] at h ⊢
  cases h with
  | begin =>
      simp only [MainPc.remaining, MnetPool.shutDown, broadcast, List.length_nil]
      omega

theorem shutdown_pays {s' : ServerState} {pc' : MainPc}
    (hawake : s.notFull = false) (hmain : ∀ rc, s.server.main ≠ .stopping rc)
    (h : ShutdownStep s.server.main s.server es pc' s') :
    ({ s with server := { s' with main := pc' } } : MonitorState).remaining app + 1 ≤
      s.remaining app := by
  apply main_pays hawake
  generalize s.server.main = pc at h hmain
  cases h with
  | begin => exact absurd rfl (hmain _)
  | drain hcount =>
      simp only [MainPc.remaining, MnetPool.dequeue, RingBuffer.rest_count]
      omega
  | joined | drained =>
      simp only [MainPc.remaining]
      omega

theorem worker_pays {s' : ServerState} {before after : List WorkerPc} {pc pc' : WorkerPc}
    (hthread : s.server.threads = before ++ pc :: after) (h : WorkerStep pc s.server es pc' s')
    (hquiet : poppedClients es = []) :
    ({ s with server := { s' with threads := before ++ pc' :: after } } : MonitorState).remaining
      app + 1 ≤ s.remaining app := by
  simp only [MonitorState.remaining, hthread, sum_remaining_append, List.length_append,
    List.length_cons]
  cases h with
  | pop hpop => cases hquiet
  | exit hpop =>
      obtain ⟨⟨⟩, -⟩ | ⟨-, -, -, rfl⟩ := mnetPoolPop_cases hpop
      simp only [WorkerPc.remaining]
      omega
  | close | countDown =>
      simp only [WorkerPc.remaining]
      omega

/-- A pop may wake the accept loop. -/
theorem pop_pays {s' : ServerState} {client : MnetSocket} {before after : List WorkerPc}
    {pc pc' : WorkerPc} (hthread : s.server.threads = before ++ pc :: after)
    (h : WorkerStep pc s.server [.popped client] pc' s') :
    ({ s with server := { s' with threads := before ++ pc' :: after }, notFull := false } :
      MonitorState).remaining app + 1 ≤ s.remaining app := by
  have hfull : (if s.notFull then 1 else 0 : Int) ≤ 1 := by split <;> decide
  simp only [MonitorState.remaining, hthread, sum_remaining_append, List.length_append,
    List.length_cons]
  cases h with
  | pop hpop =>
      obtain ⟨-, hcount, rfl⟩ | ⟨⟨⟩, -⟩ := mnetPoolPop_cases hpop
      simp only [WorkerPc.remaining, MnetPool.dequeue, RingBuffer.rest_count]
      simp only [Bool.false_eq_true, if_false]
      omega

theorem pays (hs : Stopped s) (hattended : Attended s) (h : MonitorStep app a s es t) :
    t.remaining app + a.price ≤ s.remaining app := by
  cases h with
  | start hawake h => exact hs.start_pays hawake h
  | solo hawake h => exact hs.solo_pays hawake h
  | accept hawake h hquiet => exact hs.accept_pays hawake h hquiet
  | push hawake h hsignal => exact push_pays hawake h hsignal
  | awaitNotFull hawake hmain h =>
      have hrunning := (mnetPoolPush_eq_none h).1
      rw [hs.running] at hrunning
      cases hrunning
  | begin hawake hmain h => exact begin_pays hattended hawake hmain h
  | shutdown hawake hmain h => exact shutdown_pays hawake hmain h
  | worker hthread hawake h hquiet => exact worker_pays hthread h hquiet
  | pop hthread hawake h => exact pop_pays hthread h
  | awaitNotEmpty hthread hawake h =>
      simp only [MonitorState.remaining, List.length_cons, Actor.price]
      omega
  | wakeWorker h =>
      have hlength := h.length
      simp only [MonitorState.remaining, Actor.price]
      omega
  | wakeMain h =>
      simp only [MonitorState.remaining, Actor.price, h, Bool.false_eq_true, if_false, if_true]
      omega
  | stop =>
      simp only [MonitorState.remaining, Actor.price]
      omega

end Stopped

/-- Who waits for a client or a handler goes on when that comes. -/
theorem main_moves {app : MnetApp} {s : MonitorState} (hs : Attended s)
    (h : s.server.main.outside = true) :
    ∃ es t, MonitorStep app .main s es t := by
  have hawake : s.notFull = false := by
    cases hfull : s.notFull with
    | false => rfl
    | true =>
        obtain ⟨⟨client, hmain⟩, -⟩ := hs.full hfull
        rw [hmain] at h
        cases h
  rcases s with ⟨⟨main, threads, pool, running, active⟩, notEmpty, notFull⟩
  cases main with
  | accepting => exact ⟨_, _, .accept hawake .interrupted rfl⟩
  | soloAccepting => exact ⟨_, _, .solo hawake .interrupted⟩
  | soloHandling client => exact ⟨_, _, .solo hawake .close⟩
  | _ => cases h

theorem handling_moves {app : MnetApp} {s : MonitorState} {before after : List WorkerPc}
    {client : MnetSocket} (hs : Attended s)
    (hthread : s.server.threads = before ++ .handling client :: after) :
    MonitorStep app (.worker before.length) s [.closed client]
      { s with server := { s.server with threads := before ++ .closed :: after } } := by
  refine .worker hthread (fun hasleep => ?_) .close rfl
  have hat := hs.asleep _ hasleep
  simp [hthread] at hat

/-- `waitingMonitor`, stopped. -/
def stoppedMonitor : MonitorState :=
  { waitingMonitor with server := { waitingMonitor.server with running := false } }

end Mnet
