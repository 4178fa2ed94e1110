/-
  Mnet.RequestDeadline

  The deadline of a request: `timeout_ms` behind the reading `t0` taken when
  the wait for it begins.

  The head loop keeps it.  `read_full_body` counts a deadline of its own, from
  the reading it takes itself, so its loop can receive after the request's.
-/

import Mathlib
import Mnet.HeadArrival
import Mnet.LoopEnds

namespace Mnet

-- ============================================================================
-- The deadline on the log
-- ============================================================================

/-- Every `recv` on the log was made after a reading of the clock before the
    deadline of its request: `keepAlive` tells whether the next request is a
    later one, `deadlineMs` is the deadline of the current one. -/
def recvsInTime (app : MnetApp) : Bool → Option Int → List Event → Bool
  | _, _, [] => true
  | keepAlive, _, .waiting t0 :: log =>
      recvsInTime app true (some (t0 + requestTimeout app keepAlive)) log
  | keepAlive, deadlineMs, .recv now _ _ :: log =>
      deadlineMs.any (now < ·) && recvsInTime app keepAlive deadlineMs log
  | keepAlive, deadlineMs, _ :: log => recvsInTime app keepAlive deadlineMs log

/-- No `recv` came later than the deadline. -/
def Event.inTime (deadlineMs : Int) : Event → Bool
  | .recv now _ _ => now < deadlineMs
  | _ => true

def Event.isWaiting : Event → Bool
  | .waiting _ => true
  | _ => false

/-- Within one request all that counts is its deadline. -/
theorem recvsInTime_append {app : MnetApp} {keepAlive : Bool} {deadlineMs : Int}
    {es : List Event} (hes : ∀ e ∈ es, e.isWaiting = false) (log : List Event) :
    recvsInTime app keepAlive (some deadlineMs) (es ++ log) =
      (es.all (Event.inTime deadlineMs) && recvsInTime app keepAlive (some deadlineMs) log) := by
  induction es with
  | nil => rfl
  | cons e es ih =>
      have hrest := ih fun e he => hes e (List.mem_cons_of_mem _ he)
      have he := hes e (List.mem_cons_self ..)
      rw [List.cons_append, List.all_cons, Bool.and_assoc, ← hrest]
      cases e with
      | waiting t0 => simp [Event.isWaiting] at he
      | _ => rfl

/-- No wait and no `recv` among the events. -/
def Quiet (es : List Event) : Prop :=
  ∀ e ∈ es, e.isWaiting = false ∧ ∀ deadlineMs, e.inTime deadlineMs = true

theorem quiet_sends (blocks : List Bytes) : Quiet (blocks.map .send) := by
  intro e he
  obtain ⟨b, -, rfl⟩ := List.mem_map.mp he
  exact ⟨rfl, fun _ => rfl⟩

theorem Quiet.all {es : List Event} (h : Quiet es) (deadlineMs : Int) :
    es.all (Event.inTime deadlineMs) = true :=
  List.all_eq_true.mpr fun e he => (h e he).2 deadlineMs

theorem isWaiting_of_isInput {e : Event} (h : e.isInput) : e.isWaiting = false := by
  cases e with
  | waiting t0 => simp [Event.isInput] at h
  | _ => rfl

/-- Nothing is received once the request is parsed. -/
theorem serveRequest_quiet (app : MnetApp) (conn : Conn) (timeoutMs : Int) (buffer : Bytes) :
    ∃ fin, (serveRequest app conn timeoutMs buffer).2.log =
        (parseRequest conn buffer buffer.length app.bodyLimit timeoutMs).2.2.log ++ fin ∧
      Quiet fin := by
  obtain ⟨code, parsed, conn', hparse, ⟨-, hserve⟩ | ⟨-, hserve⟩⟩ :=
    serveRequest_cases app conn timeoutMs buffer
  · obtain ⟨blocks, hblocks⟩ := rejectRequest_eq_sends
      (conn'.emit (.parsed conn.start buffer code parsed)) code
    refine ⟨_, by rw [hparse, hserve, hblocks, Conn.sends, Conn.emit, List.append_assoc], ?_⟩
    exact List.forall_mem_cons.mpr ⟨⟨rfl, fun _ => rfl⟩, quiet_sends blocks⟩
  · obtain ⟨response, heq⟩ := serveParsed_eq app
      (conn'.emit (.parsed conn.start buffer code parsed)) buffer parsed
    refine ⟨_, by rw [hparse, hserve, Conn.advance, heq, Conn.emit, List.append_assoc], ?_⟩
    exact List.forall_mem_cons.mpr ⟨⟨rfl, fun _ => rfl⟩,
      List.forall_mem_cons.mpr ⟨⟨rfl, fun _ => rfl⟩, quiet_sends _⟩⟩

-- ============================================================================
-- Bodies that come late
-- ============================================================================

/-- `poll` reports something: bytes, or that the peer has closed. -/
def ready : List Arrival → Bool
  | .silence :: _ => false
  | .pollError :: _ => false
  | _ => true

theorem mnetPoll_pos_iff (conn : Conn) : 0 < mnetPoll conn ↔ ready conn.arrivals = true := by
  unfold mnetPoll
  rcases conn.arrivals with _ | ⟨_ | _ | _ | _, rest⟩ <;> simp [ready]

/-- The next `n` bytes are still being received when the deadline of the request
    is past and that of the body is not: as long as bytes are there before
    `bodyDeadline`, the clock is read again, and one of the readings lies at
    `requestDeadline` or behind it while the socket is ready.  `readings` counts
    the readings made so far. -/
inductive Overdue (clock : Nat → Int) (requestDeadline bodyDeadline : Int) :
    List Arrival → Nat → Nat → Prop where
  | here {arrivals : List Arrival} {readings n : Nat} (hn : 0 < n)
      (hlate : requestDeadline ≤ clock readings) (hopen : clock readings < bodyDeadline)
      (hready : ready arrivals = true) :
      Overdue clock requestDeadline bodyDeadline arrivals readings n
  | later {bytes : Bytes} {rest : List Arrival} {readings n : Nat}
      (hnow : clock readings < bodyDeadline) (hgot : bytes.take (recvLength n) ≠ [])
      (hrest : Overdue clock requestDeadline bodyDeadline (leftOver bytes rest n) (readings + 1)
        (n - (bytes.take (recvLength n)).length)) :
      Overdue clock requestDeadline bodyDeadline (.segment bytes :: rest) readings n

theorem overdue_iff {clock : Nat → Int} {requestDeadline bodyDeadline : Int}
    {arrivals : List Arrival} {readings n : Nat} :
    Overdue clock requestDeadline bodyDeadline arrivals readings n ↔
      (0 < n ∧ requestDeadline ≤ clock readings ∧ clock readings < bodyDeadline ∧
        ready arrivals = true) ∨
      ∃ bytes rest, arrivals = .segment bytes :: rest ∧ clock readings < bodyDeadline ∧
        bytes.take (recvLength n) ≠ [] ∧
        Overdue clock requestDeadline bodyDeadline (leftOver bytes rest n) (readings + 1)
          (n - (bytes.take (recvLength n)).length) := by
  constructor
  · intro h
    cases h with
    | here hn hlate hopen hready => exact .inl ⟨hn, hlate, hopen, hready⟩
    | later hnow hgot hrest => exact .inr ⟨_, _, rfl, hnow, hgot, hrest⟩
  · rintro (⟨hn, hlate, hopen, hready⟩ | ⟨bytes, rest, rfl, hnow, hgot, hrest⟩)
    · exact .here hn hlate hopen hready
    · exact .later hnow hgot hrest

/-- Nothing is overdue of a body that is there. -/
theorem not_overdue_zero {clock : Nat → Int} {requestDeadline bodyDeadline : Int}
    {arrivals : List Arrival} {readings : Nat} :
    ¬ Overdue clock requestDeadline bodyDeadline arrivals readings 0 := by
  rw [overdue_iff]
  rintro (⟨hn, -⟩ | ⟨bytes, rest, -, -, hgot, -⟩)
  · exact Nat.lt_irrefl 0 hn
  · exact hgot List.take_zero

/-- `buffer` holds a request that is accepted so far and declares a body, and
    what is missing of the body is overdue. -/
def LateBody (clock : Nat → Int) (requestDeadline timeoutMs : Int) (buffer : Bytes)
    (arrivals : List Arrival) (readings maxBodySize : Nat) : Prop :=
  AcceptsLine buffer ∧ ∃ headerEnd sepLen len, endOfHeaders buffer = some (headerEnd, sepLen) ∧
    contentLength buffer headerEnd maxBodySize = .ok len ∧
    Overdue clock requestDeadline (clock readings + timeoutMs) arrivals (readings + 1)
      (len - (buffer.length - (headerEnd + sepLen)))

/-- The pass that begins with these bytes, arrivals and clock has no late
    body. -/
def NoLateBody (app : MnetApp) (keepAlive : Bool) (buffer : Bytes) (conn : Conn) : Prop :=
  ∀ k, HeadComes conn.clock (conn.nowMs + requestTimeout app keepAlive) buffer conn.arrivals
      (conn.readings + 1) k →
    ¬ LateBody conn.clock (conn.nowMs + requestTimeout app keepAlive)
      (requestTimeout app keepAlive) (filledBy buffer conn.arrivals k)
      (behind buffer conn.arrivals k) (conn.readings + 1 + k) app.bodyLimit

-- ============================================================================
-- When the loops receive
-- ============================================================================

/-- One turn receives too late exactly when the clock is read between the two
    deadlines and the socket is ready. -/
theorem recvTurn_inTime (conn : Conn) (requestDeadline deadlineMs : Int) (length : Nat) :
    ∃ es, (recvTurn conn deadlineMs length).2.log = conn.log ++ es ∧
      (∀ e ∈ es, e.isInput) ∧
      (es.all (Event.inTime requestDeadline) = true ↔
        ¬ (requestDeadline ≤ conn.nowMs ∧ conn.nowMs < deadlineMs ∧
          ready conn.arrivals = true)) := by
  have hready := mnetPoll_pos_iff conn
  obtain ⟨hge, hturn⟩ | ⟨hlt, hpoll, hturn⟩ | ⟨hlt, hpoll, hturn⟩ :=
    recvTurn_cases conn deadlineMs length
  · refine ⟨[.expired], by rw [hturn]; rfl, by simp [Event.isInput], ?_⟩
    exact iff_of_true rfl fun h => by have := h.2.1; omega
  · refine ⟨[], by rw [hturn, List.append_nil]; rfl, by simp, ?_⟩
    exact iff_of_true rfl fun h => by have := hready.mpr h.2.2; omega
  · obtain ⟨bytes, hlog⟩ : ∃ bytes, (mnetRecv conn.tick conn.nowMs length).2.log =
        conn.log ++ [.recv conn.nowMs (recvLength length) bytes] := by
      unfold mnetRecv
      split
      · exact ⟨_, rfl⟩
      · exact ⟨_, rfl⟩
    refine ⟨_, by rw [hturn]; exact hlog, by simp [Event.isInput], ?_⟩
    simp [Event.inTime, hlt, hready.mp hpoll]

/-- The head loop keeps the deadline it is given. -/
theorem readHead_inTime (conn : Conn) (deadlineMs : Int) (buffer : Bytes) :
    ∃ es, (readHead conn deadlineMs buffer).2.2.log = conn.log ++ es ∧
      (∀ e ∈ es, e.isInput) ∧ es.all (Event.inTime deadlineMs) = true := by
  have hturn' : ∀ (c : Conn) (n : Nat), ∃ es, (recvTurn c deadlineMs n).2.log = c.log ++ es ∧
      (∀ e ∈ es, e.isInput) ∧ es.all (Event.inTime deadlineMs) = true := by
    intro c n
    obtain ⟨es, hlog, hes, hiff⟩ := recvTurn_inTime c deadlineMs deadlineMs n
    exact ⟨es, hlog, hes, hiff.mpr fun h => by have := h.1; have := h.2.1; omega⟩
  fun_induction readHead conn deadlineMs buffer with
  | case1 conn buffer hroom conn' hturn =>
      have h := hturn' conn (MNET_REQUEST_BUFFER_SIZE - 1 - buffer.length)
      rwa [hturn] at h
  | case2 conn buffer hroom b got conn' hturn hblank =>
      have h := hturn' conn (MNET_REQUEST_BUFFER_SIZE - 1 - buffer.length)
      rwa [hturn] at h
  | case3 conn buffer hroom b got conn' hturn hblank ih =>
      obtain ⟨es, hlog, hes, hall⟩ := hturn' conn (MNET_REQUEST_BUFFER_SIZE - 1 - buffer.length)
      obtain ⟨fs, hlog', hfs, hall'⟩ := ih
      rw [hturn] at hlog
      refine ⟨es ++ fs, by rw [hlog', hlog, List.append_assoc], ?_, ?_⟩
      · exact fun e he => (List.mem_append.mp he).elim (hes e) (hfs e)
      · rw [List.all_append, hall, hall']
        rfl
  | case4 conn buffer hroom => exact ⟨[], (List.append_nil _).symm, by simp, rfl⟩

/-- The body loop receives in time exactly when what is missing is not
    overdue. -/
theorem recvBody_inTime (requestDeadline : Int) (conn : Conn) (deadlineMs : Int)
    (contentLength : Nat) (fullBody : Bytes) :
    ∃ es, (recvBody conn deadlineMs contentLength fullBody).2.log = conn.log ++ es ∧
      (∀ e ∈ es, e.isInput) ∧
      (es.all (Event.inTime requestDeadline) = true ↔
        ¬ Overdue conn.clock requestDeadline deadlineMs conn.arrivals conn.readings
          (contentLength - fullBody.length)) := by
  fun_induction recvBody conn deadlineMs contentLength fullBody with
  | case1 conn fullBody hlt conn' hturn =>
      obtain ⟨es, hlog, hes, hiff⟩ := recvTurn_inTime conn requestDeadline deadlineMs
        (contentLength - fullBody.length)
      have hmissing : 0 < contentLength - fullBody.length := by omega
      rw [hturn] at hlog
      refine ⟨es, hlog, hes, ?_⟩
      rw [hiff, overdue_iff, not_or]
      refine ⟨fun h => ⟨fun hover => h hover.2, ?_⟩, fun h hover => h.1 ⟨hmissing, hover⟩⟩
      -- a segment would have been received
      rintro ⟨bytes, rest, harr, hnow, hgot, -⟩
      obtain ⟨conn'', hturn', -⟩ := recvTurn_segment harr hnow (contentLength - fullBody.length)
      exact hgot (Prod.mk.inj (hturn'.symm.trans hturn)).1
  | case2 conn fullBody hlt b got conn' hturn ih =>
      obtain ⟨es, hlog, hes, hiff⟩ := recvTurn_inTime conn requestDeadline deadlineMs
        (contentLength - fullBody.length)
      obtain ⟨fs, hlog', hfs, hiff'⟩ := ih
      obtain ⟨hnow, bytes, rest, harr⟩ :=
        segment_of_recvTurn (by rw [hturn]; exact List.cons_ne_nil b got)
      obtain ⟨conn'', hturn', harr', hclock, hreadings⟩ :=
        recvTurn_segment harr hnow (contentLength - fullBody.length)
      obtain ⟨hgot, rfl⟩ := Prod.mk.inj (hturn.symm.trans hturn')
      have hmissing : 0 < contentLength - fullBody.length := by omega
      rw [hclock, harr', hreadings, List.length_append, hgot, Nat.sub_add_eq] at hiff'
      rw [hturn] at hlog
      refine ⟨es ++ fs, by rw [hlog', hlog, List.append_assoc], ?_, ?_⟩
      · exact fun e he => (List.mem_append.mp he).elim (hes e) (hfs e)
      have hsplit := @overdue_iff conn.clock requestDeadline deadlineMs conn.arrivals conn.readings
        (contentLength - fullBody.length)
      rw [List.all_append, Bool.and_eq_true, hiff, hiff', hsplit, not_or]
      refine and_congr ?_ (not_congr ?_)
      · exact ⟨fun h hover => h hover.2, fun h hover => h ⟨hmissing, hover⟩⟩
      constructor
      · exact fun h => ⟨bytes, rest, harr, hnow, hgot ▸ List.cons_ne_nil b got, h⟩
      · rintro ⟨bytes', rest', harr'', -, -, h⟩
        obtain ⟨hbytes, rfl⟩ := List.cons.inj (harr.symm.trans harr'')
        obtain rfl := Arrival.segment.inj hbytes
        exact h
  | case3 conn fullBody hge =>
      refine ⟨[], (List.append_nil _).symm, by simp, ?_⟩
      rw [Nat.sub_eq_zero_of_le (by omega)]
      exact iff_of_true rfl not_overdue_zero

/-- The same of `read_full_body`, once it has the length. -/
theorem readFullBody_inTime (requestDeadline : Int) (conn : Conn) {buffer : Bytes}
    (maxBodySize : Nat) (timeoutMs : Int) {headerEnd sepLen : Nat}
    (hend : endOfHeaders buffer = some (headerEnd, sepLen)) :
    ∃ es, (readFullBody conn buffer buffer.length maxBodySize timeoutMs).2.log =
        conn.log ++ es ∧
      (∀ e ∈ es, e.isInput) ∧
      (es.all (Event.inTime requestDeadline) = true ↔
        ∀ len, contentLength buffer headerEnd maxBodySize = .ok len →
          ¬ Overdue conn.clock requestDeadline (conn.nowMs + timeoutMs) conn.arrivals
            (conn.readings + 1) (len - (buffer.length - (headerEnd + sepLen)))) := by
  have havail : (buffer.drop (headerEnd + sepLen)).length =
      buffer.length - (headerEnd + sepLen) := List.length_drop ..
  obtain ⟨code, hbody, hreason⟩ | ⟨len, hcl, -, ⟨hfast, hbody⟩ | ⟨hshort, hbody⟩⟩ :=
    readFullBody_cases conn hend buffer.length maxBodySize timeoutMs
  · refine ⟨[], by rw [hbody, List.append_nil], by simp, iff_of_true rfl fun len hlen => ?_⟩
    obtain hcl | ⟨-, len', hcl, hover⟩ := hreason
    · exact absurd (hlen.symm.trans hcl) (by simp)
    · exact absurd (le_of_contentLength_ok hcl) (by omega)
  · refine ⟨[], by rw [hbody, List.append_nil], by simp, iff_of_true rfl fun len' hlen => ?_⟩
    obtain rfl := Except.ok.inj (hlen.symm.trans hcl)
    rw [Nat.sub_eq_zero_of_le hfast]
    exact not_overdue_zero
  · rw [List.take_of_length_le (Nat.le_of_eq havail)] at hbody
    obtain ⟨es, hlog, hes, hiff⟩ := recvBody_inTime requestDeadline conn.tick
      (conn.nowMs + timeoutMs) len (buffer.drop (headerEnd + sepLen))
    rw [havail] at hiff
    refine ⟨es, by rw [hbody]; exact hlog, hes, ?_⟩
    rw [hiff, hcl]
    exact ⟨fun h len' hlen => Except.ok.inj hlen ▸ h, fun h => h len rfl⟩

/-- The same of `parse_request`, which receives in no other way. -/
theorem parseRequest_inTime (requestDeadline : Int) (conn : Conn) (buffer : Bytes)
    (maxBodySize : Nat) (timeoutMs : Int) :
    ∃ es, (parseRequest conn buffer buffer.length maxBodySize timeoutMs).2.2.log =
        conn.log ++ es ∧
      (∀ e ∈ es, e.isInput) ∧
      (es.all (Event.inTime requestDeadline) = true ↔
        ¬ LateBody conn.clock requestDeadline timeoutMs buffer conn.arrivals conn.readings
          maxBodySize) := by
  by_cases hline : AcceptsLine buffer
  · obtain ⟨method, path, m, hraw, hm⟩ := hline
    obtain ⟨headerEnd, sepLen, hend⟩ := endOfHeaders_of_parseRawRequest hraw
    obtain ⟨es, hlog, hes, hiff⟩ :=
      readFullBody_inTime requestDeadline conn maxBodySize timeoutMs hend
    refine ⟨es, by rw [parseRequest_conn hraw hm]; exact hlog, hes, ?_⟩
    rw [hiff]
    constructor
    · rintro h ⟨-, headerEnd', sepLen', len, hend', hcl, hover⟩
      obtain ⟨rfl, rfl⟩ := Prod.mk.inj (Option.some.inj (hend'.symm.trans hend))
      exact h len hcl hover
    · exact fun h len hcl hover => h ⟨⟨method, path, m, hraw, hm⟩, _, _, len, hend, hcl, hover⟩
  · have hsame : (parseRequest conn buffer buffer.length maxBodySize timeoutMs).2.2 = conn := by
      rcases hraw : parseRawRequest buffer with ⟨ok, method, path⟩
      cases ok with
      | false => simp only [parseRequest, hraw]
      | true =>
          cases hm : mnetParseMethod method with
          | none => simp only [parseRequest, hraw, hm]
          | some m => exact absurd ⟨method, path, m, hraw, hm⟩ hline
    refine ⟨[], by rw [hsame, List.append_nil], by simp, iff_of_true rfl fun h => hline h.1⟩

-- ============================================================================
-- Passes and connections
-- ============================================================================

/-- Up to the parse a pass keeps the deadline. -/
theorem readRequest_inTime (app : MnetApp) (keepAlive : Bool) (buffer : Bytes) (conn : Conn) :
    ∃ es, (readRequest app keepAlive buffer conn).2.2.log =
        conn.log ++ .waiting conn.nowMs :: es ∧ (∀ e ∈ es, e.isInput) ∧
      es.all (Event.inTime (conn.nowMs + requestTimeout app keepAlive)) = true := by
  have hbegin : (conn.beginPass buffer).log = conn.log ++ [.waiting conn.nowMs] := rfl
  simp only [readRequest]
  split
  · exact ⟨[], hbegin, by simp, rfl⟩
  · obtain ⟨es, hlog, hes, hall⟩ := readHead_inTime (conn.beginPass buffer)
      (conn.nowMs + requestTimeout app keepAlive) buffer
    refine ⟨es, ?_, hes, hall⟩
    rw [hlog, hbegin, List.append_assoc]
    rfl

/-- A pass receives in time exactly when it has no late body. -/
theorem clientStep_inTime (app : MnetApp) (keepAlive : Bool) (buffer : Bytes) (conn : Conn) :
    ∃ es, (clientStep app keepAlive buffer conn).2.log =
        conn.log ++ .waiting conn.nowMs :: es ∧
      (∀ e ∈ es, e.isWaiting = false) ∧
      (es.all (Event.inTime (conn.nowMs + requestTimeout app keepAlive)) = true ↔
        NoLateBody app keepAlive buffer conn) := by
  obtain ⟨es, hlog, hes, hall⟩ := readRequest_inTime app keepAlive buffer conn
  rcases hread : readRequest app keepAlive buffer conn with ⟨ok, buffer', conn'⟩
  rw [hread] at hlog
  dsimp only at hlog
  cases ok with
  | false =>
      have hnone : NoLateBody app keepAlive buffer conn := by
        intro k hk
        obtain ⟨conn'', hread', -⟩ := readRequest_of_headComes hk
        exact absurd (congrArg Prod.fst (hread.symm.trans hread')) Bool.false_ne_true
      simp only [clientStep, hread]
      split
      · rw [sendSimpleError_eq_sends, Conn.sends, hlog]
        refine ⟨_, by rw [List.append_assoc, List.cons_append], ?_, ?_⟩
        · exact fun e he => (List.mem_append.mp he).elim
            (fun he => isWaiting_of_isInput (hes e he)) fun he => (quiet_sends _ e he).1
        · rw [List.all_append, hall, (quiet_sends _).all]
          exact iff_of_true rfl hnone
      · exact ⟨es, hlog, fun e he => isWaiting_of_isInput (hes e he), iff_of_true hall hnone⟩
  | true =>
      obtain ⟨body, hbody, hinput, hiff⟩ := parseRequest_inTime
        (conn.nowMs + requestTimeout app keepAlive) conn' buffer' app.bodyLimit
        (requestTimeout app keepAlive)
      obtain ⟨fin, hfin, hquiet⟩ := serveRequest_quiet app conn' (requestTimeout app keepAlive)
        buffer'
      rw [clientStep_of_readRequest hread]
      refine ⟨es ++ (body ++ fin), ?_, ?_, ?_⟩
      · rw [hfin, hbody, hlog]
        simp only [List.append_assoc, List.cons_append]
      · intro e he
        rcases List.mem_append.mp he with he | he
        · exact isWaiting_of_isInput (hes e he)
        · exact (List.mem_append.mp he).elim (fun he => isWaiting_of_isInput (hinput e he))
            fun he => (hquiet e he).1
      · rw [List.all_append, List.all_append, hall, hquiet.all, Bool.true_and, Bool.and_true, hiff]
        have hbrought : ∀ k, HeadComes conn.clock (conn.nowMs + requestTimeout app keepAlive) buffer
            conn.arrivals (conn.readings + 1) k →
            buffer' = filledBy buffer conn.arrivals k ∧
              conn'.arrivals = behind buffer conn.arrivals k ∧ conn'.clock = conn.clock ∧
              conn'.readings = conn.readings + 1 + k := by
          intro k hk
          obtain ⟨conn'', hread', hrest⟩ := readRequest_of_headComes hk
          obtain ⟨-, hbuffer, rfl⟩ : true = true ∧ buffer' = _ ∧ conn' = conn'' := by
            simpa using hread.symm.trans hread'
          exact ⟨hbuffer, hrest⟩
        constructor
        · intro h k hk
          obtain ⟨hbuffer, harr, hclock, hreadings⟩ := hbrought k hk
          rwa [hbuffer, harr, hclock, hreadings] at h
        · intro h
          have htaken : (readRequest app keepAlive buffer conn).1 = true := by rw [hread]
          obtain ⟨k, hk⟩ := exists_headComes htaken
          obtain ⟨hbuffer, harr, hclock, hreadings⟩ := hbrought k hk
          rw [hbuffer, harr, hclock, hreadings]
          exact h k hk

/-- From some pass on, the connection receives in time exactly when none of the
    passes to come has a late body. -/
theorem handleLoop_inTime (app : MnetApp) (keepAlive : Bool) (buffer : Bytes) (conn : Conn) :
    ∃ es, (handleLoop app keepAlive buffer conn).log = conn.log ++ es ∧
      ∀ deadlineMs, recvsInTime app keepAlive deadlineMs es = true ↔
        ∀ keepAlive' buffer' conn', PassOf app keepAlive buffer conn keepAlive' buffer' conn' →
          NoLateBody app keepAlive' buffer' conn' := by
  fun_induction handleLoop app keepAlive buffer conn with
  | case1 keepAlive buffer conn conn' hstep =>
      obtain ⟨es, hlog, hes, hiff⟩ := clientStep_inTime app keepAlive buffer conn
      rw [hstep] at hlog
      refine ⟨_, hlog, fun deadlineMs => ?_⟩
      rw [recvsInTime, ← List.append_nil es, recvsInTime_append hes, recvsInTime, Bool.and_true,
        hiff]
      constructor
      · rintro hhere keepAlive' buffer' conn'' hpass
        obtain ⟨rfl, rfl, rfl⟩ | ⟨next, mid, hstep', -⟩ := passOf_iff.mp hpass
        · exact hhere
        · simp [hstep] at hstep'
      · exact fun h => h _ _ _ (.here ..)
  | case2 keepAlive buffer conn next conn' hstep ih =>
      obtain ⟨es, hlog, hes, hiff⟩ := clientStep_inTime app keepAlive buffer conn
      obtain ⟨fs, hlog', hiff'⟩ := ih
      rw [hstep] at hlog
      refine ⟨_, by rw [hlog', hlog, List.append_assoc, List.cons_append], fun deadlineMs => ?_⟩
      rw [recvsInTime, recvsInTime_append hes, Bool.and_eq_true, hiff, hiff']
      constructor
      · rintro ⟨hhere, hrest⟩ keepAlive' buffer' conn'' hpass
        obtain ⟨rfl, rfl, rfl⟩ | ⟨next', mid, hstep', hpass'⟩ := passOf_iff.mp hpass
        · exact hhere
        · obtain ⟨rfl, rfl⟩ : next = next' ∧ conn' = mid := by simpa [hstep] using hstep'
          exact hrest _ _ _ hpass'
      · intro h
        exact ⟨h _ _ _ (.here ..), fun _ _ _ hpass => h _ _ _ (.later hstep hpass)⟩

/-- Every `recv` of a connection comes before the deadline of its request
    exactly when no pass has a late body. -/
theorem recvsInTime_iff (app : MnetApp) (arrivals : List Arrival) (clock : Nat → Int)
    (world : Nat → World) :
    recvsInTime app false none (mnetHandleClient app (.opened arrivals clock world)).log = true ↔
      ∀ keepAlive buffer conn,
        PassOf app false [] (.opened arrivals clock world) keepAlive buffer conn →
        NoLateBody app keepAlive buffer conn := by
  obtain ⟨es, hlog, hiff⟩ := handleLoop_inTime app false [] (.opened arrivals clock world)
  have hopened : (Conn.opened arrivals clock world).log = [] := rfl
  rw [hopened, List.nil_append] at hlog
  rw [mnetHandleClient, hlog]
  exact hiff none

/-- The head of the request comes in 29 s late, and its body 2 s later. -/
def slowBody : List Arrival :=
  [.segment (ascii "POST / HTTP/1.1\r\nContent-Length: 1\r\n\r\n"), .segment (ascii "x")]

def slowClock (k : Nat) : Int := if k = 0 then 0 else if k ≤ 2 then 29000 else 31000

/-- The body is received 31 s after the wait for its request began, with a
    timeout of 30 s. -/
theorem not_recvsInTime :
    ¬ ∀ (app : MnetApp) (arrivals : List Arrival) (clock : Nat → Int) (world : Nat → World),
      Monotone clock →
      recvsInTime app false none (mnetHandleClient app (.opened arrivals clock world)).log =
        true := by
  intro h
  have hmono : Monotone slowClock := by
    apply monotone_nat_of_le_succ
    intro k
    simp only [slowClock]
    repeat' split
    all_goals omega
  obtain ⟨es, hlog, hiff⟩ := handleLoop_inTime {} false [] (.opened slowBody slowClock fun _ => {})
  have hrun := h {} slowBody slowClock (fun _ => {}) hmono
  rw [mnetHandleClient, hlog] at hrun
  have hpass := (hiff none).mp hrun _ _ _ (.here ..)
  refine hpass 1 ?_ ⟨?_, 34, 4, 1, by decide +kernel, by decide +kernel, ?_⟩
  · exact { enough := by decide, inTime := by decide +kernel, blank := by decide +kernel
            first := by decide +kernel
            segments := List.forall_mem_singleton.mpr ⟨_, by decide +kernel, rfl⟩ }
  · exact ⟨ascii "POST", ascii "/", .post, by decide +kernel, by decide +kernel⟩
  · exact .here (by decide +kernel) (by decide +kernel) (by decide +kernel) (by decide +kernel)

end Mnet
