/-
  Mnet.Deadlines

  When no receive loop of a connection gives up at its deadline: it is enough
  that the clock runs through less than one timeout.
-/

import Mnet.ParseSpec
import Mnet.Trace

namespace Mnet

/-- A later reading of the clock lies less than a timeout behind an earlier
    one. -/
def Prompt (app : MnetApp) (clock : Nat → Int) : Prop :=
  ∀ keepAlive i j, i < j → clock j < clock i + requestTimeout app keepAlive

/-- The timeouts, in milliseconds, are values of an `int`. -/
structure MnetApp.TimeoutsFit (app : MnetApp) : Prop where
  timeout : app.timeoutSeconds * 1000 < 2 ^ 31
  keepAlive : app.keepAliveTimeout * 1000 < 2 ^ 31

theorem MnetApp.TimeoutsFit.requestTimeout_pos {app : MnetApp} (h : app.TimeoutsFit)
    (keepAlive : Bool) : 0 < requestTimeout app keepAlive := by
  have hfits : ∀ seconds : Int, 0 < seconds → seconds * 1000 < 2 ^ 31 →
      0 < (seconds * 1000).bmod (2 ^ 32) := by
    intro seconds hpos hlt
    rw [Int.bmod_eq_of_le (by omega) (by omega)]
    omega
  have hbase : 0 < if app.timeoutSeconds > 0 then (app.timeoutSeconds * 1000).bmod (2 ^ 32)
      else 30000 := by
    split
    · next hpos => exact hfits _ hpos h.timeout
    · decide
  simp only [requestTimeout]
  split
  · next hka =>
    rw [Bool.and_eq_true, decide_eq_true_eq] at hka
    exact hfits _ hka.2 h.keepAlive
  · exact hbase

/-- No timeout is shorter than the least `int`. -/
theorem le_requestTimeout (app : MnetApp) (keepAlive : Bool) :
    -2 ^ 31 ≤ requestTimeout app keepAlive := by
  have hint : ∀ v : Int, -2 ^ 31 ≤ v.bmod (2 ^ 32) := fun v => by
    have h := @Int.le_bmod v (2 ^ 32) (by decide)
    omega
  have hbase : -2 ^ 31 ≤ if app.timeoutSeconds > 0 then (app.timeoutSeconds * 1000).bmod (2 ^ 32)
      else 30000 := by
    split
    · exact hint _
    · decide
  simp only [requestTimeout]
  split
  · exact hint _
  · exact hbase

/-- A clock that stands still. -/
def stillClock : Nat → Int := fun _ => 0

theorem prompt_stillClock {app : MnetApp} (h : app.TimeoutsFit) : Prompt app stillClock := by
  intro keepAlive i j _
  have h := h.requestTimeout_pos keepAlive
  show 0 < 0 + requestTimeout app keepAlive
  omega

/-- A clock set back by more than any timeout at every reading. -/
def fallingClock : Nat → Int := fun i => -(2 ^ 32 * i)

/-- Under it no deadline passes, not even one that lies in the past because
    the timeout overflowed. -/
theorem prompt_fallingClock (app : MnetApp) : Prompt app fallingClock := by
  intro keepAlive i j hij
  have h := le_requestTimeout app keepAlive
  show -(2 ^ 32 * (j : Int)) < -(2 ^ 32 * (i : Int)) + requestTimeout app keepAlive
  omega

/-- The head loop does not give up while the clock stays before its
    deadline. -/
theorem readHead_noExpiry {conn : Conn} {deadlineMs : Int} {buffer : Bytes}
    (hclock : ∀ j, conn.readings ≤ j → conn.clock j < deadlineMs) :
    conn.NoExpiry (readHead conn deadlineMs buffer).2.2 := by
  have hturn' : ∀ (c : Conn) (n : Nat), c.clock c.readings < deadlineMs →
      c.NoExpiry (recvTurn c deadlineMs n).2 :=
    fun c n h => (noExpiry_recvTurn_iff c deadlineMs n).mpr h
  fun_induction readHead conn deadlineMs buffer with
  | case1 conn buffer hroom conn' hturn =>
      have h := hturn' conn (MNET_REQUEST_BUFFER_SIZE - 1 - buffer.length)
        (hclock _ (Nat.le_refl _))
      rwa [hturn] at h
  | case2 conn buffer hroom b got conn' hturn hblank =>
      have h := hturn' conn (MNET_REQUEST_BUFFER_SIZE - 1 - buffer.length)
        (hclock _ (Nat.le_refl _))
      rwa [hturn] at h
  | case3 conn buffer hroom b got conn' hturn hblank ih =>
      have h := hturn' conn (MNET_REQUEST_BUFFER_SIZE - 1 - buffer.length)
        (hclock _ (Nat.le_refl _))
      have hrecv := recvTurn_received conn deadlineMs (MNET_REQUEST_BUFFER_SIZE - 1 - buffer.length)
      rw [hturn] at h hrecv
      obtain ⟨rest, hrest, -⟩ := readHead_received conn' deadlineMs (buffer ++ b :: got)
      refine (hrecv.noExpiry_trans_iff hrest).mpr ⟨h, ih fun j hj => ?_⟩
      rw [hrecv.clock]
      exact hclock j (Nat.le_trans hrecv.readings hj)
  | case4 conn buffer hroom => simp [Conn.NoExpiry]

theorem parseRequest_noExpiry {conn : Conn} {buffer : Bytes} {received maxBodySize : Nat}
    {timeoutMs : Int}
    (hclock : ∀ j, conn.readings < j → conn.clock j < conn.nowMs + timeoutMs) :
    conn.NoExpiry (parseRequest conn buffer received maxBodySize timeoutMs).2.2 := by
  have hsame : conn.NoExpiry conn := by simp [Conn.NoExpiry]
  rcases hraw : parseRawRequest buffer with ⟨ok, method, path⟩
  cases ok with
  | false =>
      simp only [parseRequest, hraw]
      exact hsame
  | true =>
      cases hm : mnetParseMethod method with
      | none =>
          simp only [parseRequest, hraw, hm]
          exact hsame
      | some m =>
          rw [parseRequest_conn hraw hm]
          exact readFullBody_noExpiry hclock

theorem Conn.Received.not_expired {a b : Conn} {got : Bytes} (h : a.Received got b)
    (hexp : a.NoExpiry b) (ha : .expired ∉ a.log) : .expired ∉ b.log := by
  obtain ⟨es, hlog, -⟩ := h.log
  rw [Conn.noExpiry_iff hlog] at hexp
  rw [hlog, List.mem_append]
  exact not_or.mpr ⟨ha, hexp⟩

theorem not_expired_sends (blocks : List Bytes) : .expired ∉ blocks.map Event.send := by
  simp

/-- The two reading parts of a pass under a prompt clock. -/
theorem readRequest_noExpiry {app : MnetApp} {conn : Conn} (hprompt : Prompt app conn.clock)
    (hexp : .expired ∉ conn.log) (keepAlive : Bool) (buffer : Bytes) :
    .expired ∉ (readRequest app keepAlive buffer conn).2.2.log ∧
      (readRequest app keepAlive buffer conn).2.2.clock = conn.clock := by
  obtain ⟨got, hrecv, -⟩ := readRequest_received app keepAlive buffer conn
  have hbegin : .expired ∉ (conn.beginPass buffer).log := by
    simpa [Conn.beginPass, Conn.emit, Conn.tick] using hexp
  have hread : (conn.beginPass buffer).NoExpiry (readRequest app keepAlive buffer conn).2.2 := by
    simp only [readRequest]
    split
    · simp [Conn.NoExpiry]
    · exact readHead_noExpiry fun j hj => hprompt keepAlive conn.readings j hj
  exact ⟨hrecv.not_expired hread hbegin, hrecv.clock⟩

theorem parseRequest_not_expired {app : MnetApp} {conn : Conn} (hprompt : Prompt app conn.clock)
    (hexp : .expired ∉ conn.log) (keepAlive : Bool) (buffer : Bytes) :
    .expired ∉ (parseRequest conn buffer buffer.length app.bodyLimit
        (requestTimeout app keepAlive)).2.2.log ∧
      (parseRequest conn buffer buffer.length app.bodyLimit
        (requestTimeout app keepAlive)).2.2.clock = conn.clock := by
  obtain ⟨body, hbody⟩ := parseRequest_received conn buffer buffer.length app.bodyLimit
    (requestTimeout app keepAlive)
  have hparse : conn.NoExpiry (parseRequest conn buffer buffer.length app.bodyLimit
      (requestTimeout app keepAlive)).2.2 :=
    parseRequest_noExpiry fun j hj => hprompt keepAlive conn.readings j hj
  exact ⟨hbody.not_expired hparse hexp, hbody.clock⟩

/-- A pass under a prompt clock. -/
theorem clientStep_noExpiry {app : MnetApp} {conn : Conn} (hprompt : Prompt app conn.clock)
    (hexp : .expired ∉ conn.log) (keepAlive : Bool) (buffer : Bytes) :
    .expired ∉ (clientStep app keepAlive buffer conn).2.log ∧
      (clientStep app keepAlive buffer conn).2.clock = conn.clock := by
  obtain ⟨hnone, hclock⟩ := readRequest_noExpiry hprompt hexp keepAlive buffer
  rcases heq : readRequest app keepAlive buffer conn with ⟨ok, buffer', conn₁⟩
  rw [heq] at hclock hnone
  dsimp only at hclock hnone
  cases ok with
  | false =>
      simp only [clientStep, heq]
      split
      · rw [sendSimpleError_eq_sends, Conn.sends, List.mem_append]
        exact ⟨not_or.mpr ⟨hnone, not_expired_sends _⟩, hclock⟩
      · exact ⟨hnone, hclock⟩
  | true =>
      rw [clientStep_of_readRequest heq]
      obtain ⟨hparse, hclock'⟩ :=
        parseRequest_not_expired (hclock ▸ hprompt) hnone keepAlive buffer'
      obtain ⟨code, parsed, conn₂, hstep, ⟨-, hserve⟩ | ⟨-, hserve⟩⟩ :=
        serveRequest_cases app conn₁ (requestTimeout app keepAlive) buffer'
      all_goals
        rw [hstep] at hparse hclock'
        have hevent : .expired ∉ (conn₂.emit (.parsed conn₁.start buffer' code parsed)).log := by
          simpa [Conn.emit] using hparse
        rw [hserve]
      · obtain ⟨blocks, hblocks⟩ := rejectRequest_eq_sends
          (conn₂.emit (.parsed conn₁.start buffer' code parsed)) code
        rw [hblocks, Conn.sends, List.mem_append]
        exact ⟨not_or.mpr ⟨hevent, not_expired_sends _⟩, hclock'.trans hclock⟩
      · obtain ⟨response, hresponse⟩ := serveParsed_eq app
          (conn₂.emit (.parsed conn₁.start buffer' code parsed)) buffer' parsed
        rw [hresponse, Conn.advance, List.mem_append, List.mem_cons]
        refine ⟨not_or.mpr ⟨hevent, not_or.mpr ⟨?_, not_expired_sends _⟩⟩, hclock'.trans hclock⟩
        simp

/-- A connection under a prompt clock sees no timeout. -/
theorem mnetHandleClient_noExpiry {app : MnetApp} {clock : Nat → Int} (hprompt : Prompt app clock)
    (arrivals : List Arrival) (world : Nat → World) :
    .expired ∉ (mnetHandleClient app (.opened arrivals clock world)).log := by
  suffices hloop : ∀ (keepAlive : Bool) (buffer : Bytes) (conn : Conn), conn.clock = clock →
      .expired ∉ conn.log → .expired ∉ (handleLoop app keepAlive buffer conn).log from
    hloop false [] _ rfl (by simp [Conn.opened])
  intro keepAlive buffer conn hclock hexp
  fun_induction handleLoop app keepAlive buffer conn with
  | case1 keepAlive buffer conn conn' hstep =>
      have h := (clientStep_noExpiry (hclock ▸ hprompt) hexp keepAlive buffer).1
      rwa [hstep] at h
  | case2 keepAlive buffer conn next conn' hstep ih =>
      obtain ⟨hnone, hsame⟩ := clientStep_noExpiry (hclock ▸ hprompt) hexp keepAlive buffer
      rw [hstep] at hnone hsame
      exact ih (hsame.trans hclock) hnone

end Mnet
