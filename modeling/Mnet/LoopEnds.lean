/-
  Mnet.LoopEnds

  The loop of `mnet_handle_client` ends: each pass that goes round again leaves
  less of the stream and the buffer than it found, so a stream of `n` bytes
  sees at most `n` requests dispatched and at most `n + 1` passes.
-/

import Mnet.Intakes

namespace Mnet

/-- The loop of `mnet_handle_client`, stopped after `fuel` passes. -/
def handleLoopFor (app : MnetApp) : Nat → Bool → Bytes → Conn → Option Conn
  | 0, _, _, _ => none
  | fuel + 1, keepAlive, buffer, conn =>
      match clientStep app keepAlive buffer conn with
      | (none, conn') => some conn'
      | (some next, conn') => handleLoopFor app fuel true next conn'

/-- The passes of a connection, from one of them on. -/
inductive PassOf (app : MnetApp) : Bool → Bytes → Conn → Bool → Bytes → Conn → Prop where
  | here (keepAlive : Bool) (buffer : Bytes) (conn : Conn) :
      PassOf app keepAlive buffer conn keepAlive buffer conn
  | later {keepAlive keepAlive' : Bool} {buffer next buffer' : Bytes} {conn conn' conn'' : Conn}
      (hstep : clientStep app keepAlive buffer conn = (some next, conn'))
      (hrest : PassOf app true next conn' keepAlive' buffer' conn'') :
      PassOf app keepAlive buffer conn keepAlive' buffer' conn''

theorem passOf_iff {app : MnetApp} {keepAlive keepAlive' : Bool} {buffer buffer' : Bytes}
    {conn conn' : Conn} :
    PassOf app keepAlive buffer conn keepAlive' buffer' conn' ↔
      (keepAlive' = keepAlive ∧ buffer' = buffer ∧ conn' = conn) ∨
      ∃ next mid, clientStep app keepAlive buffer conn = (some next, mid) ∧
        PassOf app true next mid keepAlive' buffer' conn' := by
  constructor
  · intro h
    cases h with
    | here => exact .inl ⟨rfl, rfl, rfl⟩
    | later hstep hrest => exact .inr ⟨_, _, hstep, hrest⟩
  · rintro (⟨rfl, rfl, rfl⟩ | ⟨next, mid, hstep, hrest⟩)
    · exact .here ..
    · exact .later hstep hrest

/-- Enough passes are as many as there are bytes left, and one. -/
theorem handleLoopFor_eq {app : MnetApp} {fuel : Nat} {keepAlive : Bool} {buffer : Bytes}
    {conn : Conn} (hfuel : conn.stream.length + buffer.length < fuel) :
    handleLoopFor app fuel keepAlive buffer conn = some (handleLoop app keepAlive buffer conn) := by
  induction fuel generalizing keepAlive buffer conn with
  | zero => exact absurd hfuel (Nat.not_lt_zero _)
  | succ fuel ih =>
      rcases hstep : clientStep app keepAlive buffer conn with ⟨_ | next, conn'⟩
      · rw [handleLoop_none hstep]
        simp only [handleLoopFor, hstep]
      · have hlt := clientStep_some_lt hstep
        rw [handleLoop_some hstep]
        simp only [handleLoopFor, hstep]
        exact ih (by omega)

/-- Without a byte there is no request. -/
theorem readRequest_of_empty {app : MnetApp} {keepAlive : Bool} {buffer : Bytes} {conn : Conn}
    (h : conn.stream.length + buffer.length = 0) :
    (readRequest app keepAlive buffer conn).1 = false := by
  obtain ⟨got, hrecv, hbuf⟩ := readRequest_received app keepAlive buffer conn
  have hlen := hrecv.length_le
  have hstream : (conn.beginPass buffer).stream = conn.stream := rfl
  have hnil : (readRequest app keepAlive buffer conn).2.1 = [] := by
    apply List.eq_nil_of_length_eq_zero
    rw [hbuf, List.length_append]
    rw [hstream] at hlen
    omega
  by_contra hread
  have hblank := readRequest_blankLine (Bool.not_eq_false _ ▸ hread)
  rw [hnil] at hblank
  exact absurd hblank (by decide)

/-- A pass dispatches at most one request, and none when there is no byte to
    make one of. -/
theorem length_dispatched_clientStep (app : MnetApp) (keepAlive : Bool) (buffer : Bytes)
    (conn : Conn) :
    ∃ es, (clientStep app keepAlive buffer conn).2.log = conn.log ++ es ∧
      (dispatched es).length ≤ 1 ∧
      (dispatched es).length ≤ conn.stream.length + buffer.length := by
  obtain ⟨es, hlog, hes⟩ := clientStep_intakes app keepAlive buffer conn
  have hone : (dispatched es).length ≤ 1 := by
    obtain ⟨-, hd, -⟩ | ⟨x, -, -, hd⟩ := hes
    · simp [hd]
    · rw [hd, List.length_map]
      exact List.length_filter_le _ _
  refine ⟨es, hlog, hone, ?_⟩
  by_cases hempty : conn.stream.length + buffer.length = 0
  · have hnone : (readRequest app keepAlive buffer conn).1 = false := readRequest_of_empty hempty
    have hidle := (clientStep_idle hnone).2
    rw [hlog, dispatched_append, List.append_right_eq_self] at hidle
    rw [hidle]
    exact Nat.zero_le _
  · omega

/-- No more requests are dispatched than there are bytes. -/
theorem length_dispatched_handleLoop (app : MnetApp) (keepAlive : Bool) (buffer : Bytes)
    (conn : Conn) :
    ∃ es, (handleLoop app keepAlive buffer conn).log = conn.log ++ es ∧
      (dispatched es).length ≤ conn.stream.length + buffer.length := by
  fun_induction handleLoop app keepAlive buffer conn with
  | case1 keepAlive buffer conn conn' hstep =>
      obtain ⟨es, hlog, -, hle⟩ := length_dispatched_clientStep app keepAlive buffer conn
      rw [hstep] at hlog
      exact ⟨es, hlog, hle⟩
  | case2 keepAlive buffer conn next conn' hstep ih =>
      obtain ⟨es, hlog, hone, -⟩ := length_dispatched_clientStep app keepAlive buffer conn
      obtain ⟨fs, hlog', hle⟩ := ih
      have hlt := clientStep_some_lt hstep
      rw [hstep] at hlog
      refine ⟨es ++ fs, by rw [hlog', hlog, List.append_assoc], ?_⟩
      rw [dispatched_append, List.length_append]
      omega

/-- A connection over a finite stream comes to its end: it takes at most one
    pass more than there are bytes, dispatches at most one request a byte, and
    every pass that goes round again has used up at least one byte. -/
theorem mnetHandleClient_ends (app : MnetApp) (arrivals : List Arrival) (clock : Nat → Int)
    (world : Nat → World) :
    handleLoopFor app ((arrivals.flatMap Arrival.bytes).length + 1) false []
        (.opened arrivals clock world) =
      some (mnetHandleClient app (.opened arrivals clock world)) ∧
    (dispatched (mnetHandleClient app (.opened arrivals clock world)).log).length ≤
      (arrivals.flatMap Arrival.bytes).length ∧
    ∀ keepAlive buffer conn next conn',
      PassOf app false [] (.opened arrivals clock world) keepAlive buffer conn →
      clientStep app keepAlive buffer conn = (some next, conn') →
      conn'.stream.length + next.length < conn.stream.length + buffer.length := by
  refine ⟨handleLoopFor_eq (Nat.lt_succ_self _), ?_, ?_⟩
  · obtain ⟨es, hlog, hle⟩ :=
      length_dispatched_handleLoop app false [] (.opened arrivals clock world)
    have hopened : (Conn.opened arrivals clock world).log = [] := rfl
    rw [hopened, List.nil_append] at hlog
    rw [mnetHandleClient, hlog]
    exact hle
  · intro keepAlive buffer conn next conn' _ hstep
    exact clientStep_some_lt hstep

end Mnet
