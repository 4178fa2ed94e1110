/-
  Mnet.Trace

  The log of a connection, pass by pass.

  `clientStep_log` says once what one pass of `mnet_handle_client` may append
  to the log; `handleLoop_induct` turns a fact about passes into one about
  whole connections.  `exchanges` reads the requests passed to `dispatch` off a
  log, each with the blocks sent in answer to it and whether the connection was
  used again.
-/

import Mnet.Server

namespace Mnet

-- ============================================================================
-- One pass
-- ============================================================================

/-- What a pass whose buffer begins at `start` appends behind the bytes it
    received, and whether it keeps the connection. -/
inductive PassEnd (app : MnetApp) (start : Nat) : List Event → Bool → Prop where
  /-- no request came -/
  | idle (blocks : List Bytes) : PassEnd app start (blocks.map .send) false
  | rejected (buffer : Bytes) (code : ParseCode) (req : ParsedRequest) (blocks : List Bytes)
      (hcode : code ≠ .ok) :
      PassEnd app start (.parsed start buffer code req :: blocks.map .send) false
  | answered (buffer : Bytes) (req : ParsedRequest) (response : MnetResponse) :
      PassEnd app start (.parsed start buffer .ok req :: .dispatched req response ::
        (answerBlocks app req response).map .send) req.keepAlive

theorem clientStep_log (app : MnetApp) (keepAlive : Bool) (buffer : Bytes) (conn : Conn) :
    ∃ ins fin, (clientStep app keepAlive buffer conn).2.log =
        conn.log ++ .waiting conn.nowMs :: (ins ++ fin) ∧
      (∀ e ∈ ins, e.isInput) ∧
      PassEnd app (conn.beginPass buffer).start fin
        (clientStep app keepAlive buffer conn).1.isSome := by
  obtain ⟨got, hread, -⟩ := readRequest_received app keepAlive buffer conn
  obtain ⟨ins, hlog, hins⟩ := hread.log
  have hstart : (conn.beginPass buffer).log = conn.log ++ [.waiting conn.nowMs] := rfl
  rw [hstart] at hlog
  unfold clientStep
  split
  · next buffer' conn₁ heq =>
    rw [heq] at hlog
    dsimp only at hlog
    split
    · rw [sendSimpleError_eq_sends]
      generalize pageBlocks 431 _ _ false = blocks
      refine ⟨ins, blocks.map .send, ?_, hins, .idle blocks⟩
      rw [Conn.sends, hlog]
      simp only [List.append_assoc, List.cons_append, List.nil_append]
    · exact ⟨ins, [], by simp [hlog], hins, .idle []⟩
  · next buffer' conn₁ heq =>
    rw [heq] at hlog hread
    dsimp only at hlog
    have hoff : conn₁.start = (conn.beginPass buffer).start := hread.start
    obtain ⟨code, parsed, conn₂, hparse, ⟨hcode, hserve⟩ | ⟨hcode, hserve⟩⟩ :=
      serveRequest_cases app conn₁ (requestTimeout app keepAlive) buffer'
    all_goals
      obtain ⟨body, hbody⟩ := parseRequest_received conn₁ buffer' buffer'.length app.bodyLimit
        (requestTimeout app keepAlive)
      rw [hparse] at hbody
      obtain ⟨ins', hlog', hins'⟩ := hbody.log
      dsimp only at hlog'
      have hall : ∀ e ∈ ins ++ ins', e.isInput := fun e he =>
        (List.mem_append.mp he).elim (hins e) (hins' e)
      rw [hserve]
    · obtain ⟨blocks, hblocks⟩ := rejectRequest_eq_sends
        (conn₂.emit (.parsed conn₁.start buffer' code parsed)) code
      refine ⟨ins ++ ins', .parsed conn₁.start buffer' code parsed ::
        blocks.map .send, ?_, hall, ?_⟩
      · rw [hblocks, Conn.sends, Conn.emit, hlog', hlog]
        simp only [List.append_assoc, List.cons_append, List.nil_append]
      · rw [hoff]
        exact .rejected _ _ _ blocks hcode
    · obtain ⟨response, hserved⟩ := serveParsed_eq app
        (conn₂.emit (.parsed conn₁.start buffer' code parsed)) buffer' parsed
      refine ⟨ins ++ ins', .parsed conn₁.start buffer' .ok parsed ::
        .dispatched parsed response :: (answerBlocks app parsed response).map .send, ?_, hall, ?_⟩
      · rw [Conn.advance, hserved, Conn.emit, hlog', hlog, hcode]
        simp only [List.append_assoc, List.cons_append, List.nil_append]
      · rw [hoff]
        have h : PassEnd app (conn.beginPass buffer).start _ parsed.keepAlive :=
          .answered buffer' parsed response
        cases hka : parsed.keepAlive <;> simp only [hka] at h <;> exact h

-- ============================================================================
-- Exchanges
-- ============================================================================

/-- A request passed to `dispatch`, its response, the blocks sent before
    anything else happened, and whether the connection then waited for a
    further request. -/
structure Exchange where
  request : ParsedRequest
  response : MnetResponse
  sent : List Bytes
  reused : Bool
deriving DecidableEq, Repr

/-- The blocks sent at the start of a log. -/
def sentFirst : List Event → List Bytes
  | .send bytes :: log => bytes :: sentFirst log
  | _ => []

/-- What follows the blocks sent first is a wait for a request. -/
def reusedAfter : List Event → Bool
  | .send _ :: log => reusedAfter log
  | .waiting _ :: _ => true
  | _ => false

def exchanges : List Event → List Exchange
  | [] => []
  | .dispatched req response :: log =>
      { request := req, response := response, sent := sentFirst log,
        reused := reusedAfter log } :: exchanges log
  | _ :: log => exchanges log

theorem sentFirst_sends (blocks : List Bytes) (log : List Event) :
    sentFirst (blocks.map .send ++ log) = blocks ++ sentFirst log := by
  induction blocks with
  | nil => rfl
  | cons b blocks ih => simpa [sentFirst] using ih

theorem reusedAfter_sends (blocks : List Bytes) (log : List Event) :
    reusedAfter (blocks.map .send ++ log) = reusedAfter log := by
  induction blocks with
  | nil => rfl
  | cons b blocks ih => simpa [reusedAfter] using ih

theorem exchanges_inputs {ins : List Event} (hins : ∀ e ∈ ins, e.isInput) (log : List Event) :
    exchanges (ins ++ log) = exchanges log := by
  induction ins with
  | nil => rfl
  | cons e ins ih =>
      have hrest := ih fun e he => hins e (List.mem_cons_of_mem _ he)
      have he := hins e (List.mem_cons_self ..)
      cases e with
      | recv | expired => simpa [exchanges] using hrest
      | _ => simp [Event.isInput] at he

theorem exchanges_sends (blocks : List Bytes) (log : List Event) :
    exchanges (blocks.map .send ++ log) = exchanges log := by
  induction blocks with
  | nil => rfl
  | cons b blocks ih => simpa [exchanges] using ih

/-- A log that is empty or starts with the wait of a pass. -/
def StartsWaiting (log : List Event) : Prop := log = [] ∨ ∃ t0 rest, log = .waiting t0 :: rest

theorem StartsWaiting.sentFirst {log : List Event} (h : StartsWaiting log) :
    sentFirst log = [] := by
  obtain rfl | ⟨t0, rest, rfl⟩ := h
  · rfl
  · rfl

/-- An exchange as the server means it: the answer is sent at once, and the
    connection is used again exactly when the request asks for that. -/
def Exchange.Settled (app : MnetApp) (x : Exchange) : Prop :=
  x.sent = answerBlocks app x.request x.response ∧ x.reused = x.request.keepAlive

/-- The exchanges of a pass and what follows it. -/
theorem PassEnd.exchanges {app : MnetApp} {start : Nat} {fin rest : List Event} {more : Bool}
    (h : PassEnd app start fin more) (hrest : StartsWaiting rest)
    (hmore : more = true ↔ rest ≠ []) :
    ∀ x ∈ exchanges (fin ++ rest), x.Settled app ∨ x ∈ Mnet.exchanges rest := by
  intro x hx
  cases h with
  | idle blocks =>
      rw [exchanges_sends] at hx
      exact .inr hx
  | rejected buffer code req blocks hcode =>
      rw [List.cons_append, Mnet.exchanges, exchanges_sends] at hx
      · exact .inr hx
      · simp
  | answered buffer req response =>
      rw [List.cons_append, List.cons_append, Mnet.exchanges, Mnet.exchanges,
        exchanges_sends, sentFirst_sends, reusedAfter_sends] at hx
      · obtain rfl | hx := List.mem_cons.mp hx
        · refine .inl ⟨by simp [hrest.sentFirst], ?_⟩
          obtain rfl | ⟨t0, tail, rfl⟩ := hrest
          · have hka : req.keepAlive = false := by simpa using hmore
            exact hka.symm
          · have hka : req.keepAlive = true := by simpa using hmore
            exact hka.symm
        · exact .inr hx
      · simp

/-- Every exchange of a connection is settled. -/
theorem handleLoop_exchanges (app : MnetApp) (keepAlive : Bool) (buffer : Bytes) (conn : Conn) :
    ∃ log, (handleLoop app keepAlive buffer conn).log = conn.log ++ log ∧
      (∃ t0 rest, log = .waiting t0 :: rest) ∧ ∀ x ∈ exchanges log, x.Settled app := by
  fun_induction handleLoop app keepAlive buffer conn with
  | case1 keepAlive buffer conn conn' hstep =>
      obtain ⟨ins, fin, hlog, hins, hfin⟩ := clientStep_log app keepAlive buffer conn
      rw [hstep] at hlog hfin
      refine ⟨_, hlog, ⟨_, _, rfl⟩, fun x hx => ?_⟩
      rw [exchanges, exchanges_inputs hins, ← List.append_nil fin] at hx
      · have hend : StartsWaiting [] := .inl rfl
        have h := hfin.exchanges hend (by simp) x hx
        simpa [exchanges] using h
      · simp
  | case2 keepAlive buffer conn next conn' hstep ih =>
      obtain ⟨ins, fin, hlog, hins, hfin⟩ := clientStep_log app keepAlive buffer conn
      rw [hstep] at hlog hfin
      obtain ⟨rest, hrest, ⟨t0, tail, rfl⟩, hsettled⟩ := ih
      refine ⟨_, by rw [hrest, hlog, List.append_assoc, List.cons_append, List.append_assoc],
        ⟨_, _, rfl⟩, fun x hx => ?_⟩
      rw [exchanges, exchanges_inputs hins] at hx
      · obtain h | h := hfin.exchanges (.inr ⟨_, _, rfl⟩) (by simp) x hx
        · exact h
        · exact hsettled x h
      · simp

end Mnet
