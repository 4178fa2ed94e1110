/-
  Mnet.HeadReading

  What the head-reading loop leaves in the buffer when the bytes are delivered.

  The loop stops at the first `recv` that completes a blank line.  Once a
  prefix of the stream holds a blank line every longer one does, so there is a
  byte `need` at which the line is complete; the buffer then reaches to the
  end of the segment that byte comes in, or to its own end.
-/

import Mathlib.Data.Nat.Find
import Mnet.Server

namespace Mnet

open Search (OccursAt)

/-- The bytes the buffer takes; one more is kept for the NUL. -/
abbrev bufferRoom : Nat := MNET_REQUEST_BUFFER_SIZE - 1

/-- A prefix that covers the front of a text splits there too. -/
theorem split_of_append_eq {p tail a more : Bytes} (h : p ++ tail = a ++ more)
    (hle : a.length ≤ p.length) : ∃ extra, p = a ++ extra ∧ extra ++ tail = more := by
  obtain ⟨extra, rfl⟩ : a <+: p :=
    List.prefix_of_prefix_length_le ⟨more, h.symm⟩ (List.prefix_append _ _) hle
  rw [List.append_assoc] at h
  exact ⟨extra, rfl, List.append_cancel_left h⟩

-- ============================================================================
-- Blank lines
-- ============================================================================

theorem strstr_isSome_append {mem needle : Bytes} (h : (strstr mem needle).isSome) (more : Bytes) :
    (strstr (mem ++ more) needle).isSome := by
  obtain ⟨i, hi⟩ := Option.isSome_iff_exists.mp h
  rw [strstr_of_isPrefix (List.prefix_append mem more) hi]
  rfl

theorem hasBlankLine_append {buffer : Bytes} (h : hasBlankLine buffer = true) (more : Bytes) :
    hasBlankLine (buffer ++ more) = true := by
  unfold hasBlankLine at h ⊢
  rw [Bool.or_eq_true] at h ⊢
  exact h.imp (strstr_isSome_append · more) (strstr_isSome_append · more)

/-- The prefixes of `text` of `need` bytes and more are those that hold a blank
    line. -/
def BlankLineAt (text : Bytes) (need : Nat) : Prop :=
  ∀ p, p <+: text → (hasBlankLine p = true ↔ need ≤ p.length)

-- ============================================================================
-- The loop
-- ============================================================================

theorem segmentEnd_of_lt {arrivals : List Arrival} {i : Nat}
    (h : i < segmentEnd arrivals 0) : segmentEnd arrivals i = segmentEnd arrivals 0 := by
  induction arrivals with
  | nil => simp [segmentEnd] at h
  | cons a rest ih =>
      rw [segmentEnd] at h ⊢
      rw [segmentEnd]
      split at h
      · next hpos => rw [if_pos h, if_pos hpos]
      · next hempty =>
        have hzero : a.bytes.length = 0 := by omega
        rw [hzero, Nat.zero_add, Nat.sub_zero] at h ⊢
        rw [if_neg (by omega), if_neg (by omega), Nat.zero_add, Nat.sub_zero]
        exact ih h

/-- The loop succeeds when the blank line is delivered, and reads on to the end
    of the segment that completes it. -/
theorem readHead_delivered {conn : Conn} {deadlineMs : Int} {buffer : Bytes} {need : Nat}
    (hblank : BlankLineAt (buffer ++ conn.stream) need) (hlt : buffer.length < need)
    (hneed : need ≤ bufferRoom) (hdel : conn.Delivers (need - buffer.length))
    (hexp : conn.NoExpiry (readHead conn deadlineMs buffer).2.2) :
    ∃ got conn', readHead conn deadlineMs buffer = (true, buffer ++ got, conn') ∧
      conn.Received got conn' ∧
      buffer.length + got.length =
        min (buffer.length + segmentEnd conn.arrivals (need - 1 - buffer.length)) bufferRoom := by
  fun_induction readHead conn deadlineMs buffer with
  | case1 conn buffer hroom conn' hturn =>
      have hnow : conn.nowMs < deadlineMs := by
        rw [← noExpiry_recvTurn_iff conn deadlineMs (bufferRoom - buffer.length), hturn]
        exact hexp
      have hasked : 0 < recvLength (bufferRoom - buffer.length) :=
        recvLength_pos (by omega) (Nat.lt_of_le_of_lt (Nat.sub_le _ _) (by decide))
      have hgot := recvTurn_ne_nil (bufferRoom - buffer.length) hdel (by omega) hasked hnow
      rw [hturn] at hgot
      exact absurd rfl hgot
  | case2 conn buffer hroom b got conn' hturn hdone =>
      have hrecv := recvTurn_received conn deadlineMs (bufferRoom - buffer.length)
      have hne : (recvTurn conn deadlineMs (bufferRoom - buffer.length)).1 ≠ [] := by
        rw [hturn]
        exact List.cons_ne_nil _ _
      have hlen := length_recvTurn hne
      rw [recvLength_of_lt (Nat.lt_of_le_of_lt (Nat.sub_le _ _) (by decide)), hturn] at hlen
      rw [hturn] at hrecv
      dsimp only at hlen hrecv
      refine ⟨b :: got, conn', rfl, hrecv, ?_⟩
      have hle : need ≤ (buffer ++ b :: got).length := by
        refine (hblank _ ?_).mp hdone
        rw [hrecv.stream, ← List.append_assoc]
        exact List.prefix_append _ _
      rw [List.length_append] at hle
      rw [segmentEnd_of_lt (i := need - 1 - buffer.length) (by omega)]
      omega
  | case3 conn buffer hroom b got conn' hturn hmore ih =>
      have hrecv := recvTurn_received conn deadlineMs (bufferRoom - buffer.length)
      have hne : (recvTurn conn deadlineMs (bufferRoom - buffer.length)).1 ≠ [] := by
        rw [hturn]
        exact List.cons_ne_nil _ _
      have hlen := length_recvTurn hne
      rw [recvLength_of_lt (Nat.lt_of_le_of_lt (Nat.sub_le _ _) (by decide)), hturn] at hlen
      rw [hturn] at hrecv
      dsimp only at hlen hrecv
      have happ : buffer ++ conn.stream = (buffer ++ b :: got) ++ conn'.stream := by
        rw [hrecv.stream, List.append_assoc]
      have hlt' : (buffer ++ b :: got).length < need := by
        by_contra hge
        refine hmore ((hblank _ ?_).mpr (by omega))
        rw [happ]
        exact List.prefix_append _ _
      obtain ⟨got', hrest, -⟩ := readHead_received conn' deadlineMs (buffer ++ b :: got)
      obtain ⟨more, conn'', hread, hrecv', hreach⟩ := ih (happ ▸ hblank) hlt'
        (by rw [List.length_append, Nat.sub_add_eq]; exact hrecv.delivers _ hdel)
        ((hrecv.noExpiry_trans_iff hrest).mp hexp).2
      refine ⟨(b :: got) ++ more, conn'', ?_, hrecv.trans hrecv', ?_⟩
      · rw [hread, List.append_assoc]
      · have hends := hrecv.ends (need - 1 - (buffer ++ b :: got).length)
        rw [List.length_append] at hreach hlt' hends ⊢
        have hidx : (b :: got).length + (need - 1 - (buffer.length + (b :: got).length)) =
            need - 1 - buffer.length := by omega
        rw [hidx] at hends
        omega
  | case4 conn buffer hroom => exact absurd (Nat.lt_of_lt_of_le hlt hneed) hroom

end Mnet
