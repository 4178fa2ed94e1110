/-
  Mnet.HeadArrival

  The arrivals that bring the head of a request, and what they leave for its
  body: read off the segments, the clock and the bytes left over, without
  running the loop.

  `HeadComes` says that it takes the first `k` arrivals.  The loop then ends
  with the buffer they fill (`filledBy`) and with the arrivals behind them
  (`behind`), and in no other way does it end with a request.
-/

import Mnet.HeadLimit
import Mnet.TooLarge

namespace Mnet

-- ============================================================================
-- The first arrivals
-- ============================================================================

/-- The bytes of the first `k` arrivals. -/
def firstBytes (arrivals : List Arrival) (k : Nat) : Bytes :=
  (arrivals.take k).flatMap Arrival.bytes

/-- The buffer, with what it takes of the first `k` arrivals. -/
def filledBy (buffer : Bytes) (arrivals : List Arrival) (k : Nat) : Bytes :=
  buffer ++ (firstBytes arrivals k).take (bufferRoom - buffer.length)

/-- What the buffer leaves of them, and the arrivals behind them. -/
def behind (buffer : Bytes) (arrivals : List Arrival) (k : Nat) : List Arrival :=
  if (firstBytes arrivals k).drop (bufferRoom - buffer.length) = [] then arrivals.drop k
  else .segment ((firstBytes arrivals k).drop (bufferRoom - buffer.length)) :: arrivals.drop k

/-- The head comes with the first `k` arrivals: they are segments that are there
    before the deadline, each time the clock is read for one of them, and the
    buffer holds a blank line with all of them and not before.  `readings`
    counts the readings made so far. -/
structure HeadComes (clock : Nat → Int) (deadlineMs : Int) (buffer : Bytes)
    (arrivals : List Arrival) (readings k : Nat) : Prop where
  enough : k ≤ arrivals.length
  segments : ∀ a ∈ arrivals.take k, ∃ bytes, bytes ≠ [] ∧ a = .segment bytes
  inTime : ∀ i < k, clock (readings + i) < deadlineMs
  blank : hasBlankLine (filledBy buffer arrivals k) = true
  first : ∀ i < k, hasBlankLine (filledBy buffer arrivals i) = false

@[simp] theorem firstBytes_zero (arrivals : List Arrival) : firstBytes arrivals 0 = [] := rfl

theorem firstBytes_succ (bytes : Bytes) (rest : List Arrival) (k : Nat) :
    firstBytes (.segment bytes :: rest) (k + 1) = bytes ++ firstBytes rest k := rfl

@[simp] theorem filledBy_zero (buffer : Bytes) (arrivals : List Arrival) :
    filledBy buffer arrivals 0 = buffer := by
  rw [filledBy, firstBytes_zero, List.take_nil, List.append_nil]

@[simp] theorem behind_zero (buffer : Bytes) (arrivals : List Arrival) :
    behind buffer arrivals 0 = arrivals := by
  rw [behind, firstBytes_zero, List.drop_nil, if_pos rfl, List.drop_zero]

/-- A full buffer takes nothing more. -/
theorem filledBy_of_full {buffer : Bytes} (hfull : bufferRoom ≤ buffer.length)
    (arrivals : List Arrival) (k : Nat) : filledBy buffer arrivals k = buffer := by
  rw [filledBy, Nat.sub_eq_zero_of_le hfull, List.take_zero, List.append_nil]

section

variable {buffer bytes : Bytes} {rest : List Arrival} {clock : Nat → Int} {deadlineMs : Int}
  {readings k : Nat}

/-- A segment that fits is in the buffer before the next. -/
theorem filledBy_succ (hfits : bytes.length ≤ bufferRoom - buffer.length) (k : Nat) :
    filledBy buffer (.segment bytes :: rest) (k + 1) = filledBy (buffer ++ bytes) rest k := by
  rw [filledBy, filledBy, firstBytes_succ, List.take_append, List.take_of_length_le hfits,
    List.length_append, Nat.sub_add_eq, List.append_assoc]

/-- One that does not fit fills the buffer. -/
theorem filledBy_succ_of_lt (hcut : bufferRoom - buffer.length < bytes.length) (k : Nat) :
    filledBy buffer (.segment bytes :: rest) (k + 1) =
      buffer ++ bytes.take (bufferRoom - buffer.length) := by
  rw [filledBy, firstBytes_succ, List.take_append_of_le_length (Nat.le_of_lt hcut)]

theorem behind_succ (hfits : bytes.length ≤ bufferRoom - buffer.length) (k : Nat) :
    behind buffer (.segment bytes :: rest) (k + 1) = behind (buffer ++ bytes) rest k := by
  have hdrop : (bytes ++ firstBytes rest k).drop (bufferRoom - buffer.length) =
      (firstBytes rest k).drop (bufferRoom - (buffer ++ bytes).length) := by
    rw [List.drop_append, List.drop_of_length_le hfits, List.nil_append, List.length_append,
      Nat.sub_add_eq]
  rw [behind, behind, firstBytes_succ, hdrop, List.drop_succ_cons]

theorem filledBy_one :
    filledBy buffer (.segment bytes :: rest) 1 =
      buffer ++ bytes.take (bufferRoom - buffer.length) := by
  rw [filledBy, firstBytes_succ, firstBytes_zero, List.append_nil]

theorem behind_one :
    behind buffer (.segment bytes :: rest) 1 = leftOver bytes rest (bufferRoom - buffer.length) := by
  have hroom : recvLength (bufferRoom - buffer.length) = bufferRoom - buffer.length :=
    recvLength_of_lt (Nat.lt_of_le_of_lt (Nat.sub_le _ _) (by decide))
  rw [behind, leftOver, firstBytes_succ, firstBytes_zero, List.append_nil, hroom]
  rfl

-- ============================================================================
-- Heads by their arrivals
-- ============================================================================

/-- The arrivals that bring a head: none for one that is there already, else a
    segment and those that bring the rest. -/
theorem HeadComes.cons (hnow : clock readings < deadlineMs) (hne : bytes ≠ [])
    (hblank : hasBlankLine buffer = false) (hfits : bytes.length ≤ bufferRoom - buffer.length)
    (h : HeadComes clock deadlineMs (buffer ++ bytes) rest (readings + 1) k) :
    HeadComes clock deadlineMs buffer (.segment bytes :: rest) readings (k + 1) where
  enough := Nat.succ_le_succ h.enough
  segments := List.forall_mem_cons.mpr ⟨⟨bytes, hne, rfl⟩, h.segments⟩
  inTime i hi := by
    cases i with
    | zero => exact hnow
    | succ i =>
        rw [← Nat.add_assoc, Nat.add_right_comm]
        exact h.inTime i (by omega)
  blank := by
    rw [filledBy_succ hfits]
    exact h.blank
  first i hi := by
    cases i with
    | zero => rwa [filledBy_zero]
    | succ i =>
        rw [filledBy_succ hfits]
        exact h.first i (by omega)

theorem HeadComes.one (hnow : clock readings < deadlineMs) (hne : bytes ≠ [])
    (hblank : hasBlankLine buffer = false)
    (hdone : hasBlankLine (buffer ++ bytes.take (bufferRoom - buffer.length)) = true) :
    HeadComes clock deadlineMs buffer (.segment bytes :: rest) readings 1 where
  enough := Nat.le_add_left ..
  segments := List.forall_mem_singleton.mpr ⟨bytes, hne, rfl⟩
  inTime i hi := by
    obtain rfl : i = 0 := by omega
    exact hnow
  blank := by
    rw [filledBy_one]
    exact hdone
  first i hi := by
    obtain rfl : i = 0 := by omega
    rwa [filledBy_zero]

/-- The first of the arrivals, and what it is for the others. -/
theorem HeadComes.uncons {arrivals : List Arrival}
    (h : HeadComes clock deadlineMs buffer arrivals readings (k + 1)) :
    ∃ bytes rest, arrivals = .segment bytes :: rest ∧ bytes ≠ [] ∧ clock readings < deadlineMs ∧
      buffer.length < bufferRoom ∧
      (hasBlankLine (buffer ++ bytes.take (bufferRoom - buffer.length)) = true ∧ k = 0 ∨
        hasBlankLine (buffer ++ bytes) = false ∧ bytes.length ≤ bufferRoom - buffer.length ∧
        HeadComes clock deadlineMs (buffer ++ bytes) rest (readings + 1) k) := by
  cases arrivals with
  | nil => exact absurd h.enough (Nat.not_succ_le_zero k)
  | cons a rest =>
  obtain ⟨⟨bytes, hne, rfl⟩, hsegments⟩ := List.forall_mem_cons.mp h.segments
  have hhere : hasBlankLine buffer = false := by
    have hfirst := h.first 0 (Nat.succ_pos k)
    rwa [filledBy_zero] at hfirst
  have hroom : buffer.length < bufferRoom := by
    by_contra hfull
    have hblank := h.blank
    rw [filledBy_of_full (Nat.not_lt.mp hfull), hhere] at hblank
    exact absurd hblank Bool.false_ne_true
  refine ⟨bytes, rest, rfl, hne, h.inTime 0 (Nat.succ_pos k), hroom, ?_⟩
  by_cases hdone : hasBlankLine (buffer ++ bytes.take (bufferRoom - buffer.length)) = true
  · refine .inl ⟨hdone, ?_⟩
    by_contra hk
    have hone := h.first 1 (by omega)
    rw [filledBy_one, hdone] at hone
    exact absurd hone.symm Bool.false_ne_true
  · have hfits : bytes.length ≤ bufferRoom - buffer.length := by
      by_contra hcut
      have hblank := h.blank
      rw [filledBy_succ_of_lt (Nat.not_le.mp hcut)] at hblank
      exact hdone hblank
    rw [List.take_of_length_le hfits] at hdone
    refine .inr ⟨by simpa using hdone, hfits, Nat.le_of_succ_le_succ h.enough, hsegments, ?_, ?_, ?_⟩
    · intro i hi
      rw [Nat.add_right_comm]
      exact h.inTime (i + 1) (by omega)
    · rw [← filledBy_succ hfits]
      exact h.blank
    · intro i hi
      rw [← filledBy_succ hfits]
      exact h.first (i + 1) (by omega)

end

-- ============================================================================
-- The loop
-- ============================================================================

/-- The loop ends with the buffer the arrivals fill. -/
theorem readHead_of_headComes {conn : Conn} {deadlineMs : Int} {buffer : Bytes} {k : Nat}
    (h : HeadComes conn.clock deadlineMs buffer conn.arrivals conn.readings k)
    (hblank : hasBlankLine buffer = false) :
    ∃ conn', readHead conn deadlineMs buffer =
        (true, filledBy buffer conn.arrivals k, conn') ∧
      conn'.arrivals = behind buffer conn.arrivals k ∧ conn'.clock = conn.clock ∧
      conn'.readings = conn.readings + k := by
  induction k generalizing conn buffer with
  | zero =>
      have hhere := h.blank
      rw [filledBy_zero, hblank] at hhere
      exact absurd hhere Bool.false_ne_true
  | succ k ih =>
      obtain ⟨bytes, rest, harr, hne, hnow, hroom, hways⟩ := h.uncons
      obtain ⟨conn', hturn, harr', hclock, hreadings⟩ :=
        recvTurn_segment harr hnow (bufferRoom - buffer.length)
      rw [recvLength_of_lt (Nat.lt_of_le_of_lt (Nat.sub_le _ _) (by decide))] at hturn
      obtain ⟨b, got, hgot⟩ := List.exists_cons_of_ne_nil
        (show bytes.take (bufferRoom - buffer.length) ≠ [] by
          rw [ne_eq, List.take_eq_nil_iff, not_or]
          exact ⟨by omega, hne⟩)
      rw [readHead, if_pos hroom, hturn, hgot]
      dsimp only
      rw [harr]
      obtain ⟨hdone, rfl⟩ | ⟨hmore, hfits, hrest⟩ := hways
      · rw [hgot] at hdone
        rw [if_pos hdone]
        exact ⟨conn', by rw [filledBy_one, hgot], by rw [harr', behind_one], hclock, hreadings⟩
      · rw [List.take_of_length_le hfits] at hgot
        have hleft : conn'.arrivals = rest := by
          rw [harr', ← behind_one, behind_succ hfits, behind_zero]
        rw [← hgot, if_neg (by rw [hmore]; exact Bool.false_ne_true)]
        obtain ⟨conn'', hread, harr'', hclock', hreadings'⟩ :=
          @ih conn' (buffer ++ bytes) (by rw [hclock, hleft, hreadings]; exact hrest) hmore
        rw [hleft] at hread harr''
        refine ⟨conn'', by rw [hread, filledBy_succ hfits], by rw [harr'', behind_succ hfits],
          hclock'.trans hclock, ?_⟩
        rw [hreadings', hreadings]
        omega

/-- A request is read only when its head comes. -/
theorem exists_headComes_of_readHead (conn : Conn) (deadlineMs : Int) (buffer : Bytes)
    (hblank : hasBlankLine buffer = false) (h : (readHead conn deadlineMs buffer).1 = true) :
    ∃ k, HeadComes conn.clock deadlineMs buffer conn.arrivals conn.readings k := by
  fun_induction readHead conn deadlineMs buffer with
  | case1 conn buffer hroom conn' hturn => exact absurd h Bool.false_ne_true
  | case4 conn buffer hroom => exact absurd h Bool.false_ne_true
  | case2 conn buffer hroom b got conn' hturn hdone =>
      obtain ⟨hnow, bytes, rest, harr⟩ :=
        segment_of_recvTurn (by rw [hturn]; exact List.cons_ne_nil b got)
      obtain ⟨conn'', hturn', -, -, -⟩ := recvTurn_room buffer harr hnow
      obtain ⟨hgot, -⟩ := Prod.mk.inj (hturn.symm.trans hturn')
      have hne : bytes ≠ [] := by
        rintro rfl
        rw [List.take_nil] at hgot
        exact List.cons_ne_nil b got hgot
      rw [harr]
      exact ⟨1, .one hnow hne hblank (by rw [← hgot]; exact hdone)⟩
  | case3 conn buffer hroom b got conn' hturn hmore ih =>
      obtain ⟨hnow, bytes, rest, harr⟩ :=
        segment_of_recvTurn (by rw [hturn]; exact List.cons_ne_nil b got)
      obtain ⟨conn'', hturn', hleft, hclock, hreadings⟩ := recvTurn_room buffer harr hnow
      obtain ⟨hgot, rfl⟩ := Prod.mk.inj (hturn.symm.trans hturn')
      have hmore' : hasBlankLine (buffer ++ b :: got) = false := by simpa using hmore
      obtain ⟨k, hk⟩ := ih hmore' h
      have hfits : bytes.length ≤ bufferRoom - buffer.length := by
        -- a full buffer without a blank line stays without one
        by_contra hcut
        have hfull : bufferRoom ≤ (buffer ++ b :: got).length := by
          rw [hgot, List.length_append, List.length_take]
          omega
        have hdone := hk.blank
        rw [filledBy_of_full hfull, hmore'] at hdone
        exact Bool.false_ne_true hdone
      rw [List.take_of_length_le hfits] at hgot
      have hne : bytes ≠ [] := hgot ▸ List.cons_ne_nil b got
      rw [hclock, hreadings, hleft hfits, hgot] at hk
      rw [harr]
      exact ⟨k + 1, .cons hnow hne hblank hfits hk⟩

section

variable {app : MnetApp} {keepAlive : Bool} {buffer : Bytes} {conn : Conn}

/-- The first part of a pass, when the head comes. -/
theorem readRequest_of_headComes {k : Nat}
    (h : HeadComes conn.clock (conn.nowMs + requestTimeout app keepAlive) buffer conn.arrivals
      (conn.readings + 1) k) :
    ∃ conn', readRequest app keepAlive buffer conn =
        (true, filledBy buffer conn.arrivals k, conn') ∧
      conn'.arrivals = behind buffer conn.arrivals k ∧ conn'.clock = conn.clock ∧
      conn'.readings = conn.readings + 1 + k := by
  cases hblank : hasBlankLine buffer with
  | true =>
      have hk : k = 0 := by
        by_contra hk
        have hfirst := h.first 0 (by omega)
        rw [filledBy_zero, hblank] at hfirst
        exact Bool.false_ne_true hfirst.symm
      have hne : buffer ≠ [] := by
        rintro rfl
        exact absurd hblank (by decide)
      subst hk
      rw [readRequest, if_pos ⟨hne, hblank⟩, filledBy_zero, behind_zero]
      exact ⟨_, rfl, rfl, rfl, rfl⟩
  | false =>
      rw [readRequest, if_neg (fun hboth => by rw [hblank] at hboth; exact absurd hboth.2 (by simp))]
      exact @readHead_of_headComes (conn.beginPass buffer) _ _ _ h hblank

/-- A pass that reads a request was brought its head. -/
theorem exists_headComes (h : (readRequest app keepAlive buffer conn).1 = true) :
    ∃ k, HeadComes conn.clock (conn.nowMs + requestTimeout app keepAlive) buffer conn.arrivals
      (conn.readings + 1) k := by
  cases hblank : hasBlankLine buffer with
  | true => exact ⟨0, Nat.zero_le _, nofun, nofun, by rwa [filledBy_zero], nofun⟩
  | false =>
      rw [readRequest, if_neg (fun hboth => by rw [hblank] at hboth; exact absurd hboth.2 (by simp))]
        at h
      exact exists_headComes_of_readHead (conn.beginPass buffer) _ buffer hblank h

end

end Mnet
