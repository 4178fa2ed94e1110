/-
  Mnet.ServedRequests

  The requests a connection dispatches, each with the buffer it was parsed from.

  `served` pairs a request with its response; `AnsweredIn` says where the two
  come from: `parse_request` accepted the request in a buffer, and the response
  is what `dispatch` made of the request and that buffer.
-/

import Mathlib.Data.List.Forall2
import Mnet.ConnectionWire
import Mnet.Intakes

namespace Mnet

/-- The requests a log shows as accepted. -/
def accepted (log : List Event) : List Intake := (intakes log).filter (·.code = .ok)

/-- The request was accepted by `parse_request`, and its response is what
    `dispatch` returns for it in some world. -/
structure AnsweredIn (app : MnetApp) (world : Nat → World) (x : Intake)
    (y : ParsedRequest × MnetResponse) : Prop where
  request : y.1 = x.request
  parsed : ∃ conn conn' timeoutMs, parseRequest conn x.buffer x.buffer.length app.bodyLimit
    timeoutMs = (.ok, x.request, conn')
  response : ∃ i, y.2 = (dispatch app (world i) x.buffer x.request
    (List.replicate MNET_MAX_PARAMS .null) MNET_MAX_PARAMS).1

theorem accepted_append (log log' : List Event) :
    accepted (log ++ log') = accepted log ++ accepted log' := by
  rw [accepted, intakes_append, List.filter_append]
  rfl

/-- Waiting and receiving accept and serve nothing. -/
theorem silent_of_waiting {ins : List Event} (h : ∀ e ∈ ins, e.isInput) (t : Int) :
    accepted (.waiting t :: ins) = [] ∧ served (.waiting t :: ins) = [] := by
  constructor
  · show (intakes ins).filter _ = []
    rw [(intakes_inputs h).1]
    rfl
  · exact (silent_of_inputs h).1

theorem accepted_sends (blocks : List Bytes) : accepted (blocks.map .send) = [] := by
  rw [accepted, (intakes_sends blocks).1]
  rfl

-- ============================================================================
-- One pass
-- ============================================================================

/-- A pass answers what it accepts. -/
theorem clientStep_answered (app : MnetApp) (keepAlive : Bool) (buffer : Bytes) (conn : Conn) :
    (clientStep app keepAlive buffer conn).2.world = conn.world ∧
      ∃ es, (clientStep app keepAlive buffer conn).2.log = conn.log ++ es ∧
        List.Forall₂ (AnsweredIn app conn.world) (accepted es) (served es) := by
  obtain ⟨got, hread, -⟩ := readRequest_received app keepAlive buffer conn
  obtain ⟨ins, hins, hinput⟩ := hread.log
  have hworld : (readRequest app keepAlive buffer conn).2.2.world = conn.world := hread.world
  have hbegin : (conn.beginPass buffer).log = conn.log ++ [.waiting conn.nowMs] := rfl
  unfold clientStep
  split
  · next buffer' conn₁ heq =>
    rw [heq, hbegin] at hins
    rw [heq] at hworld
    have hlog : conn₁.log = conn.log ++ (.waiting conn.nowMs :: ins) := by
      rw [hins, List.append_assoc]
      rfl
    have hsilent := silent_of_waiting hinput conn.nowMs
    split
    · rw [sendSimpleError_eq_sends, Conn.sends]
      refine ⟨hworld, _, by rw [hlog, List.append_assoc], ?_⟩
      rw [accepted_append, served_append, accepted_sends, served_sends, hsilent.1, hsilent.2]
      exact .nil
    · refine ⟨hworld, _, hlog, ?_⟩
      rw [hsilent.1, hsilent.2]
      exact .nil
  · next buffer' conn₁ heq =>
    rw [heq, hbegin] at hins
    rw [heq] at hworld
    obtain ⟨code, parsed, conn₂, hparse, hcases⟩ :=
      serveRequest_cases app conn₁ (requestTimeout app keepAlive) buffer'
    obtain ⟨body, hbody⟩ := parseRequest_received conn₁ buffer' buffer'.length app.bodyLimit
      (requestTimeout app keepAlive)
    rw [hparse] at hbody
    obtain ⟨ins', hins', hinput'⟩ := hbody.log
    have hworld₂ : conn₂.world = conn.world := hbody.world.trans hworld
    have hinputs : ∀ e ∈ ins ++ ins', e.isInput = true :=
      fun e he => (List.mem_append.mp he).elim (hinput e) (hinput' e)
    have hlog : (conn₂.emit (.parsed conn₁.start buffer' code parsed)).log =
        conn.log ++ (.waiting conn.nowMs :: (ins ++ ins') ++
          [.parsed conn₁.start buffer' code parsed]) := by
      dsimp only at hins' hins
      rw [Conn.emit, hins', hins]
      simp only [List.append_assoc, List.cons_append, List.nil_append]
    have hsilent := silent_of_waiting hinputs conn.nowMs
    obtain ⟨hcode, hserve⟩ | ⟨rfl, hserve⟩ := hcases
    · obtain ⟨blocks, hblocks⟩ := rejectRequest_eq_sends
        (conn₂.emit (.parsed conn₁.start buffer' code parsed)) code
      have hnone : accepted [.parsed conn₁.start buffer' code parsed] = [] := by
        apply List.filter_eq_nil_iff.mpr
        intro x hx
        rw [List.mem_singleton.mp hx]
        exact fun h => hcode (of_decide_eq_true h)
      rw [hserve, hblocks, Conn.sends]
      refine ⟨hworld₂, _, by rw [hlog, List.append_assoc], ?_⟩
      rw [accepted_append, accepted_append, served_append, served_append, accepted_sends,
        served_sends, hsilent.1, hsilent.2, hnone]
      exact .nil
    · have hnow : (conn₂.emit (.parsed conn₁.start buffer' .ok parsed)).worldNow =
          conn.world (conn₂.emit (.parsed conn₁.start buffer' .ok parsed)).log.length := by
        rw [Conn.worldNow]
        show conn₂.world _ = _
        rw [hworld₂]
      rw [hserve, serveParsed, respond_eq_sends, hnow, Conn.advance, Conn.sends, Conn.emit]
      dsimp only
      refine ⟨hworld₂, _, by rw [hlog, List.append_assoc, List.append_assoc], ?_⟩
      rw [accepted_append, accepted_append, accepted_append, served_append, served_append,
        served_append, accepted_sends, served_sends, hsilent.1, hsilent.2, List.append_nil,
        List.append_nil]
      exact .cons ⟨rfl, ⟨conn₁, conn₂, _, hparse⟩, _, rfl⟩ .nil

-- ============================================================================
-- The whole connection
-- ============================================================================

/-- The requests served are the ones accepted, each answered by `dispatch`. -/
theorem answered_connection (app : MnetApp) (arrivals : List Arrival) (clock : Nat → Int)
    (world : Nat → World) :
    List.Forall₂ (AnsweredIn app world)
      (accepted (mnetHandleClient app (.opened arrivals clock world)).log)
      (served (mnetHandleClient app (.opened arrivals clock world)).log) := by
  have hloop : ∀ keepAlive buffer conn, ∃ es,
      (handleLoop app keepAlive buffer conn).log = conn.log ++ es ∧
        List.Forall₂ (AnsweredIn app conn.world) (accepted es) (served es) := by
    intro keepAlive buffer conn
    fun_induction handleLoop app keepAlive buffer conn with
    | case1 keepAlive buffer conn conn' hstep =>
        have hpass := (clientStep_answered app keepAlive buffer conn).2
        rw [hstep] at hpass
        exact hpass
    | case2 keepAlive buffer conn next conn' hstep ih =>
        obtain ⟨hworld, es, hlog, hes⟩ := clientStep_answered app keepAlive buffer conn
        rw [hstep] at hworld hlog
        obtain ⟨es', hlog', hes'⟩ := ih
        dsimp only at hworld hlog
        rw [hworld] at hes'
        refine ⟨es ++ es', by rw [hlog', hlog, List.append_assoc], ?_⟩
        rw [accepted_append, served_append]
        exact List.rel_append hes hes'
  obtain ⟨es, hlog, hes⟩ := hloop false [] (.opened arrivals clock world)
  have hall : (mnetHandleClient app (.opened arrivals clock world)).log = es := hlog
  rw [hall]
  exact hes

/-- The response is what `dispatch` makes of the request in some world. -/
def DispatchedIn (app : MnetApp) (world : Nat → World) (x : ParsedRequest × MnetResponse) : Prop :=
  ∃ i buffer, x.2 = (dispatch app (world i) buffer x.1
    (List.replicate MNET_MAX_PARAMS .null) MNET_MAX_PARAMS).1

/-- Every answer on a connection was given by `dispatch`. -/
theorem dispatchedIn_served (app : MnetApp) (arrivals : List Arrival) (clock : Nat → Int)
    (world : Nat → World) :
    ∀ x ∈ served (mnetHandleClient app (.opened arrivals clock world)).log,
      DispatchedIn app world x := by
  have hboth : List.Forall₂ (fun y x => DispatchedIn app world y ∧ AnsweredIn app world x y)
      (served (mnetHandleClient app (.opened arrivals clock world)).log)
      (accepted (mnetHandleClient app (.opened arrivals clock world)).log) := by
    apply List.Forall₂.flip
    refine (answered_connection app arrivals clock world).imp fun x y h => ⟨?_, h⟩
    obtain ⟨i, hresponse⟩ := h.response
    exact ⟨i, x.buffer, by rw [hresponse, h.request]⟩
  exact ((List.forall₂_and_left _ _).mp hboth).1

end Mnet
