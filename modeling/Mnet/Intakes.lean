/-
  Mnet.Intakes

  The requests on the log of a connection: those `parse_request` ran on, each
  with the place of its first byte in the stream, and those that were passed to
  `dispatch`.
-/

import Mnet.Trace

namespace Mnet

-- ============================================================================
-- Requests on the log
-- ============================================================================

/-- A run of `parse_request`. -/
structure Intake where
  offset : Nat
  buffer : Bytes
  code : ParseCode
  request : ParsedRequest
deriving DecidableEq, Repr

def Event.intake? : Event → Option Intake
  | .parsed offset buffer code req => some ⟨offset, buffer, code, req⟩
  | _ => none

def Event.dispatched? : Event → Option ParsedRequest
  | .dispatched req _ => some req
  | _ => none

def intakes (log : List Event) : List Intake := log.filterMap Event.intake?

def dispatched (log : List Event) : List ParsedRequest := log.filterMap Event.dispatched?

theorem intakes_append (xs ys : List Event) : intakes (xs ++ ys) = intakes xs ++ intakes ys :=
  List.filterMap_append

theorem intakes_cons (e : Event) (log : List Event) :
    intakes (e :: log) = e.intake?.toList ++ intakes log := by
  rw [intakes, List.filterMap_cons]
  cases e <;> rfl

theorem dispatched_append (xs ys : List Event) :
    dispatched (xs ++ ys) = dispatched xs ++ dispatched ys := List.filterMap_append

theorem dispatched_cons (e : Event) (log : List Event) :
    dispatched (e :: log) = e.dispatched?.toList ++ dispatched log := by
  rw [dispatched, List.filterMap_cons]
  cases e <;> rfl

theorem intakes_inputs {ins : List Event} (hins : ∀ e ∈ ins, e.isInput) :
    intakes ins = [] ∧ dispatched ins = [] := by
  constructor
  all_goals
    refine List.filterMap_eq_nil_iff.mpr fun e he => ?_
    have h := hins e he
    cases e <;> first | rfl | simp [Event.isInput] at h

theorem intakes_sends (blocks : List Bytes) :
    intakes (blocks.map .send) = [] ∧ dispatched (blocks.map .send) = [] := by
  constructor
  all_goals
    refine List.filterMap_eq_nil_iff.mpr fun e he => ?_
    obtain ⟨bytes, -, rfl⟩ := List.mem_map.mp he
    rfl

theorem Conn.Received.intakes {a b : Conn} {got : Bytes} (h : a.Received got b) :
    intakes b.log = Mnet.intakes a.log := by
  obtain ⟨es, hlog, hes⟩ := h.log
  rw [hlog, intakes_append, (intakes_inputs hes).1, List.append_nil]

/-- What a pass adds: nothing, or one request at the start of its buffer, which
    is dispatched when it was accepted. -/
theorem PassEnd.intakes {app : MnetApp} {start : Nat} {fin : List Event} {more : Bool}
    (h : PassEnd app start fin more) :
    (intakes fin = [] ∧ dispatched fin = [] ∧ more = false) ∨
      ∃ x, intakes fin = [x] ∧ x.offset = start ∧
        dispatched fin = ([x].filter (·.code = .ok)).map (·.request) := by
  cases h with
  | idle blocks =>
      obtain ⟨hi, hd⟩ := intakes_sends blocks
      exact .inl ⟨hi, hd, rfl⟩
  | rejected buffer code req blocks hcode =>
      obtain ⟨hi, hd⟩ := intakes_sends blocks
      refine .inr ⟨⟨start, buffer, code, req⟩, ?_, rfl, ?_⟩
      · rw [intakes_cons, hi]
        rfl
      · rw [dispatched_cons, hd]
        simp [hcode, Event.dispatched?]
  | answered buffer req response =>
      obtain ⟨hi, hd⟩ := intakes_sends (answerBlocks app req response)
      refine .inr ⟨⟨start, buffer, .ok, req⟩, ?_, rfl, ?_⟩
      · rw [intakes_cons, intakes_cons, hi]
        rfl
      · rw [dispatched_cons, dispatched_cons, hd]
        rfl

/-- The requests on the log of one pass. -/
theorem clientStep_intakes (app : MnetApp) (keepAlive : Bool) (buffer : Bytes) (conn : Conn) :
    ∃ es, (clientStep app keepAlive buffer conn).2.log = conn.log ++ es ∧
      ((intakes es = [] ∧ dispatched es = [] ∧
          (clientStep app keepAlive buffer conn).1.isSome = false) ∨
        ∃ x, intakes es = [x] ∧ x.offset = (conn.beginPass buffer).start ∧
          dispatched es = ([x].filter (·.code = .ok)).map (·.request)) := by
  obtain ⟨ins, fin, hlog, hins, hfin⟩ := clientStep_log app keepAlive buffer conn
  have hi : intakes (.waiting conn.nowMs :: (ins ++ fin)) = intakes fin := by
    rw [intakes_cons, intakes_append, (intakes_inputs hins).1]
    rfl
  have hd : dispatched (.waiting conn.nowMs :: (ins ++ fin)) = dispatched fin := by
    rw [dispatched_cons, dispatched_append, (intakes_inputs hins).2]
    rfl
  refine ⟨_, hlog, ?_⟩
  rw [hi, hd]
  exact hfin.intakes

/-- A pass that finds no request parses and dispatches none. -/
theorem clientStep_idle {app : MnetApp} {keepAlive : Bool} {buffer : Bytes} {conn : Conn}
    (h : (readRequest app keepAlive buffer conn).1 = false) :
    intakes (clientStep app keepAlive buffer conn).2.log = intakes conn.log ∧
      dispatched (clientStep app keepAlive buffer conn).2.log = dispatched conn.log := by
  obtain ⟨got, hrecv, -⟩ := readRequest_received app keepAlive buffer conn
  obtain ⟨ins, hins, hinput⟩ := hrecv.log
  have hbegin : (conn.beginPass buffer).log = conn.log ++ [.waiting conn.nowMs] := rfl
  rcases hread : readRequest app keepAlive buffer conn with ⟨ok, buffer', conn'⟩
  rw [hread] at h hins
  obtain rfl : ok = false := h
  have hi : intakes conn'.log = intakes conn.log := by
    rw [hins, hbegin, intakes_append, intakes_append, (intakes_inputs hinput).1, List.append_nil]
    exact List.append_nil _
  have hd : dispatched conn'.log = dispatched conn.log := by
    rw [hins, hbegin, dispatched_append, dispatched_append, (intakes_inputs hinput).2,
      List.append_nil]
    exact List.append_nil _
  simp only [clientStep, hread]
  split
  · rw [sendSimpleError_eq_sends, Conn.sends, intakes_append, dispatched_append,
      (intakes_sends _).1, (intakes_sends _).2, List.append_nil, List.append_nil]
    exact ⟨hi, hd⟩
  · exact ⟨hi, hd⟩

theorem handleLoop_none {app : MnetApp} {keepAlive : Bool} {buffer : Bytes} {conn conn' : Conn}
    (h : clientStep app keepAlive buffer conn = (none, conn')) :
    handleLoop app keepAlive buffer conn = conn' := by
  rw [handleLoop]
  split
  · next heq => rw [h] at heq; exact (Prod.mk.inj heq).2.symm
  · next heq => rw [h] at heq; simp at heq

theorem handleLoop_some {app : MnetApp} {keepAlive : Bool} {buffer next : Bytes}
    {conn conn' : Conn} (h : clientStep app keepAlive buffer conn = (some next, conn')) :
    handleLoop app keepAlive buffer conn = handleLoop app true next conn' := by
  conv_lhs => rw [handleLoop]
  split
  · next heq => rw [h] at heq; simp at heq
  · next heq =>
    rw [h] at heq
    obtain ⟨hnext, rfl⟩ := Prod.mk.inj heq
    rw [Option.some.inj hnext]

/-- What a connection adds from some pass on: the first request stands at the
    start of that pass's buffer, and the accepted ones are dispatched. -/
theorem handleLoop_intakes (app : MnetApp) (keepAlive : Bool) (buffer : Bytes) (conn : Conn) :
    ∃ es, (handleLoop app keepAlive buffer conn).log = conn.log ++ es ∧
      (∀ x ∈ (intakes es).head?, x.offset = (conn.beginPass buffer).start) ∧
      dispatched es = ((intakes es).filter (·.code = .ok)).map (·.request) := by
  fun_induction handleLoop app keepAlive buffer conn with
  | case1 keepAlive buffer conn conn' hstep =>
      obtain ⟨es, hlog, hes⟩ := clientStep_intakes app keepAlive buffer conn
      rw [hstep] at hlog
      refine ⟨es, hlog, ?_⟩
      obtain ⟨hi, hd, -⟩ | ⟨x, hi, hx, hd⟩ := hes
      · simp [hi, hd]
      · rw [hi, hd]
        exact ⟨fun y hy => Option.some.inj hy ▸ hx, rfl⟩
  | case2 keepAlive buffer conn next conn' hstep ih =>
      obtain ⟨es, hlog, hes⟩ := clientStep_intakes app keepAlive buffer conn
      rw [hstep] at hlog hes
      obtain ⟨fs, hlog', -, hd'⟩ := ih
      refine ⟨es ++ fs, by rw [hlog', hlog, List.append_assoc], ?_⟩
      obtain ⟨-, -, hnone⟩ | ⟨x, hi, hx, hd⟩ := hes
      · exact absurd hnone (by simp)
      · rw [intakes_append, dispatched_append, hi, hd, hd', List.filter_append, List.map_append]
        exact ⟨fun y hy => Option.some.inj hy ▸ hx, rfl⟩

/-- A pass that has read a head runs `parse_request` on its buffer. -/
theorem clientStep_parses {app : MnetApp} {keepAlive : Bool} {buffer buffer' : Bytes}
    {conn conn' : Conn} (h : readRequest app keepAlive buffer conn = (true, buffer', conn')) :
    ∃ x conn'', intakes (clientStep app keepAlive buffer conn).2.log = intakes conn.log ++ [x] ∧
      x.offset = (conn.beginPass buffer).start ∧ x.buffer = buffer' ∧
      parseRequest conn' buffer' buffer'.length app.bodyLimit (requestTimeout app keepAlive) =
        (x.code, x.request, conn'') := by
  have hbegin : intakes (conn.beginPass buffer).log = intakes conn.log := by
    rw [Conn.beginPass, Conn.emit, intakes_append]
    exact List.append_nil _
  obtain ⟨got, hread, -⟩ := readRequest_received app keepAlive buffer conn
  obtain ⟨body, hbody⟩ := parseRequest_received conn' buffer' buffer'.length
    app.bodyLimit (requestTimeout app keepAlive)
  rw [h] at hread
  have hsame := (hread.trans hbody).intakes
  have hstart : conn'.start = (conn.beginPass buffer).start := hread.start
  rw [clientStep_of_readRequest h, ← hstart]
  obtain ⟨code, parsed, conn'', hparse, ⟨-, hserve⟩ | ⟨-, hserve⟩⟩ :=
    serveRequest_cases app conn' (requestTimeout app keepAlive) buffer'
  all_goals
    rw [hparse, hbegin] at hsame
    rw [hserve]
    refine ⟨⟨conn'.start, buffer', code, parsed⟩, conn'', ?_, rfl, rfl, hparse⟩
  · obtain ⟨blocks, hblocks⟩ := rejectRequest_eq_sends
      (conn''.emit (.parsed conn'.start buffer' code parsed)) code
    rw [hblocks, Conn.sends, Conn.emit, intakes_append, intakes_append, hsame,
      (intakes_sends _).1]
    exact List.append_nil _
  · obtain ⟨response, heq⟩ := serveParsed_eq app
      (conn''.emit (.parsed conn'.start buffer' code parsed)) buffer' parsed
    rw [heq, Conn.advance, Conn.emit, intakes_append, intakes_append, hsame, intakes_cons,
      intakes_cons, (intakes_sends _).1]
    exact List.append_nil _

/-- A pass that finds a blank line in its buffer parses a request. -/
theorem clientStep_intakes_of_blankLine (app : MnetApp) (keepAlive : Bool) {buffer : Bytes}
    (conn : Conn) (hne : buffer ≠ []) (hblank : hasBlankLine buffer = true) :
    ∃ x, intakes (clientStep app keepAlive buffer conn).2.log = intakes conn.log ++ [x] := by
  have hread : readRequest app keepAlive buffer conn = (true, buffer, conn.beginPass buffer) := by
    rw [readRequest, if_pos ⟨hne, hblank⟩]
  obtain ⟨x, -, hx, -⟩ := clientStep_parses hread
  exact ⟨x, hx⟩

/-- The log of a pass is the front of the connection's. -/
theorem clientStep_isPrefix_handleLoop (app : MnetApp) (keepAlive : Bool) (buffer : Bytes)
    (conn : Conn) :
    (clientStep app keepAlive buffer conn).2.log <+: (handleLoop app keepAlive buffer conn).log := by
  rcases hstep : clientStep app keepAlive buffer conn with ⟨_ | next, conn'⟩
  · rw [handleLoop_none hstep]
  · rw [handleLoop_some hstep]
    obtain ⟨es, hlog, -⟩ := handleLoop_intakes app true next conn'
    rw [hlog]
    exact List.prefix_append _ _

theorem handleLoop_intakes_ne_nil {app : MnetApp} {keepAlive : Bool} {buffer : Bytes}
    {conn : Conn} {xs : List Intake} (hne : buffer ≠ []) (hblank : hasBlankLine buffer = true)
    (hxs : intakes (handleLoop app keepAlive buffer conn).log = intakes conn.log ++ xs) :
    xs ≠ [] := by
  obtain ⟨x, hx⟩ := clientStep_intakes_of_blankLine app keepAlive conn hne hblank
  obtain ⟨more, hmore⟩ := clientStep_isPrefix_handleLoop app keepAlive buffer conn
  rw [← hmore, intakes_append, hx, List.append_assoc] at hxs
  rw [← List.append_cancel_left hxs]
  exact List.cons_ne_nil _ _

end Mnet
