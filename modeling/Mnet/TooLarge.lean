/-
  Mnet.TooLarge

  When a request is reported as too large, against the length its head
  declares.

  `read_full_body` has one code for a length over the limit and for a body it
  does not get: at the deadline, when `poll` or `recv` fails and when the peer
  closes.  `parse_request` reports all of them as too large.
-/

import Mnet.LengthLimit
import Mnet.ParseSpec

namespace Mnet

-- ============================================================================
-- Bodies that arrive
-- ============================================================================

/-- The next `n` bytes arrive before the deadline: whenever the clock is read
    for them it stands before it, and bytes are there to be received.
    `readings` counts the readings of the clock made so far. -/
inductive Arrives (clock : Nat → Int) (deadlineMs : Int) : List Arrival → Nat → Nat → Prop where
  | complete (arrivals : List Arrival) (readings : Nat) :
      Arrives clock deadlineMs arrivals readings 0
  | turn {bytes : Bytes} {rest : List Arrival} {readings n : Nat}
      (hnow : clock readings < deadlineMs) (hgot : bytes.take (recvLength n) ≠ [])
      (hrest : Arrives clock deadlineMs (leftOver bytes rest n) (readings + 1)
        (n - (bytes.take (recvLength n)).length)) :
      Arrives clock deadlineMs (.segment bytes :: rest) readings n

theorem Arrives.inversion {clock : Nat → Int} {deadlineMs : Int} {arrivals : List Arrival}
    {readings n : Nat} (h : Arrives clock deadlineMs arrivals readings n) (hn : 0 < n) :
    ∃ bytes rest, arrivals = .segment bytes :: rest ∧ clock readings < deadlineMs ∧
      bytes.take (recvLength n) ≠ [] ∧
      Arrives clock deadlineMs (leftOver bytes rest n) (readings + 1)
        (n - (bytes.take (recvLength n)).length) := by
  cases h with
  | complete => exact absurd hn (Nat.lt_irrefl 0)
  | turn hnow hgot hrest => exact ⟨_, _, rfl, hnow, hgot, hrest⟩

/-- A turn that receives something met a segment before the deadline. -/
theorem segment_of_recvTurn {conn : Conn} {deadlineMs : Int} {n : Nat}
    (h : (recvTurn conn deadlineMs n).1 ≠ []) :
    conn.nowMs < deadlineMs ∧ ∃ bytes rest, conn.arrivals = .segment bytes :: rest := by
  obtain ⟨-, hturn⟩ | ⟨-, -, hturn⟩ | ⟨hnow, -, hturn⟩ := recvTurn_cases conn deadlineMs n
  · rw [hturn] at h
    exact absurd rfl h
  · rw [hturn] at h
    exact absurd rfl h
  · rw [hturn] at h
    refine ⟨hnow, ?_⟩
    unfold mnetRecv at h
    split at h
    · next bytes rest harr => exact ⟨bytes, rest, harr⟩
    · exact absurd rfl h

/-- The body loop returns the body exactly when what is missing of it
    arrives. -/
theorem recvBody_isSome_iff (conn : Conn) (deadlineMs : Int) (contentLength : Nat)
    (fullBody : Bytes) :
    (recvBody conn deadlineMs contentLength fullBody).1.isSome = true ↔
      Arrives conn.clock deadlineMs conn.arrivals conn.readings
        (contentLength - fullBody.length) := by
  fun_induction recvBody conn deadlineMs contentLength fullBody with
  | case1 conn fullBody hlt conn' hturn =>
      refine iff_of_false (by simp) fun harrives => ?_
      obtain ⟨bytes, rest, harr, hnow, hgot, -⟩ := harrives.inversion (by omega)
      obtain ⟨conn'', hturn', -⟩ := recvTurn_segment harr hnow (contentLength - fullBody.length)
      rw [hturn] at hturn'
      exact hgot (Prod.mk.inj hturn').1.symm
  | case2 conn fullBody hlt b got conn' hturn ih =>
      obtain ⟨hnow, bytes, rest, harr⟩ :=
        segment_of_recvTurn (by rw [hturn]; exact List.cons_ne_nil b got)
      obtain ⟨conn'', hturn', harr', hclock, hreadings⟩ :=
        recvTurn_segment harr hnow (contentLength - fullBody.length)
      rw [hturn] at hturn'
      obtain ⟨hgot, rfl⟩ := Prod.mk.inj hturn'
      rw [ih, harr', hclock, hreadings, hgot, List.length_append, Nat.sub_add_eq, harr]
      constructor
      · exact Arrives.turn hnow (hgot ▸ List.cons_ne_nil b got)
      · intro harrives
        obtain ⟨bytes', rest', heq, -, -, hrest⟩ := harrives.inversion (by omega)
        obtain ⟨hbytes, rfl⟩ := List.cons.inj heq
        obtain rfl := Arrival.segment.inj hbytes
        exact hrest
  | case3 conn fullBody hge =>
      rw [Nat.sub_eq_zero_of_le (by omega)]
      exact iff_of_true rfl (.complete _ _)

-- ============================================================================
-- The code for too large
-- ============================================================================

/-- A body of `len` bytes that begins at `offset` is in the buffer, or the rest
    of it arrives within the timeout. -/
def BodyComes (conn : Conn) (buffer : Bytes) (offset : Nat) (timeoutMs : Int) (len : Nat) : Prop :=
  len ≤ buffer.length - offset ∨
    Arrives conn.clock (conn.nowMs + timeoutMs) conn.arrivals (conn.readings + 1)
      (len - (buffer.length - offset))

section

variable {conn : Conn} {buffer : Bytes} {headerEnd sepLen i n maxBodySize : Nat} {timeoutMs : Int}

/-- The two reasons for the code -1: the length, and a body that does not
    come. -/
theorem readFullBody_code_iff (hend : endOfHeaders buffer = some (headerEnd, sepLen)) :
    (readFullBody conn buffer buffer.length maxBodySize timeoutMs).1.code = -1 ↔
      contentLength buffer headerEnd maxBodySize = .error (-1) ∨
        ∃ len, contentLength buffer headerEnd maxBodySize = .ok len ∧
          ¬ BodyComes conn buffer (headerEnd + sepLen) timeoutMs len := by
  obtain ⟨code, hbody, hreason⟩ | ⟨len, hcl, -, hways⟩ :=
    readFullBody_cases conn hend buffer.length maxBodySize timeoutMs
  · obtain hcl | ⟨-, len, hcl, hover⟩ := hreason
    · rw [hbody, hcl]
      simp
    · exact absurd (le_of_contentLength_ok hcl) (by omega)
  · rw [hcl]
    have hreasons : ((Except.ok len : Except Int Nat) = .error (-1) ∨
        ∃ len', (Except.ok len : Except Int Nat) = .ok len' ∧
          ¬ BodyComes conn buffer (headerEnd + sepLen) timeoutMs len') ↔
        ¬ BodyComes conn buffer (headerEnd + sepLen) timeoutMs len := by
      simp
    rw [hreasons]
    obtain ⟨hfast, hbody⟩ | ⟨hshort, hbody⟩ := hways
    · rw [hbody]
      refine iff_of_false ?_ fun hnot => hnot (.inl hfast)
      show (0 : Int) ≠ -1
      decide
    · have hlen : ((buffer.drop (headerEnd + sepLen)).take
          (buffer.length - (headerEnd + sepLen))).length =
            buffer.length - (headerEnd + sepLen) := by
        rw [List.length_take, List.length_drop, Nat.min_self]
      have hrecv := recvBody_isSome_iff conn.tick (conn.nowMs + timeoutMs) len
        ((buffer.drop (headerEnd + sepLen)).take (buffer.length - (headerEnd + sepLen)))
      rw [hlen] at hrecv
      have hcomes : BodyComes conn buffer (headerEnd + sepLen) timeoutMs len ↔ _ :=
        (or_iff_right (Nat.not_le.mpr hshort)).trans hrecv.symm
      rw [hbody, hcomes]
      cases (recvBody conn.tick (conn.nowMs + timeoutMs) len
        ((buffer.drop (headerEnd + sepLen)).take (buffer.length - (headerEnd + sepLen)))).1 with
      | none => simp
      | some block => simp

/-- A length that is over the limit, or that a body is waited for, was declared
    by a line. -/
theorem exists_declaresLength (hend : endOfHeaders buffer = some (headerEnd, sepLen))
    (h : contentLength buffer headerEnd maxBodySize = .error (-1) ∨
      ∃ len, contentLength buffer headerEnd maxBodySize = .ok len ∧ len ≠ 0) :
    ∃ i n, DeclaresLength buffer headerEnd sepLen i n := by
  have hother : ∀ cl : Except Int Nat, contentLength buffer headerEnd maxBodySize = cl →
      cl ≠ .ok 0 ∧ cl ≠ .error (-2) ∧ cl ≠ .error (-3) ∧ cl ≠ .error (-4) := by
    rintro cl rfl
    obtain hcl | ⟨len, hcl, hne⟩ := h
    · rw [hcl]
      simp
    · rw [hcl]
      simpa using hne
  by_cases hcount : (contentLengthLines buffer headerEnd).length > 1
  · have hcl : contentLength buffer headerEnd maxBodySize = .error (-3) := by
      simp only [contentLength, if_pos hcount]
    exact absurd rfl (hother _ hcl).2.2.1
  by_cases hcodings : transferEncodingLines buffer headerEnd = []
  · rcases hlines : contentLengthLines buffer headerEnd with _ | ⟨i, _ | ⟨j, rest⟩⟩
    · have hcl : contentLength buffer headerEnd maxBodySize = .ok 0 := by
        simp [contentLength, hlines, hcodings]
      exact absurd rfl (hother _ hcl).1
    · obtain ⟨hi, hocc⟩ := of_mem_contentLengthLines (hlines ▸ List.mem_singleton.mpr rfl)
      cases hnumber : lineNumber buffer i with
      | some n => exact ⟨i, n, hend, hlines, hcodings, hnumber⟩
      | none =>
          have hvalue := (contentLengthValue_at hend hi hocc maxBodySize).1
          rw [hnumber] at hvalue
          have hcl : contentLength buffer headerEnd maxBodySize = .error (-2) := by
            simp [contentLength, hlines, hcodings, hvalue]
          exact absurd rfl (hother _ hcl).2.1
    · rw [hlines] at hcount
      exact absurd (by simp) hcount
  · have hcl : contentLength buffer headerEnd maxBodySize = .error (-4) := by
      simp only [contentLength, if_neg hcount, ne_eq, hcodings, not_false_eq_true, if_true]
    exact absurd rfl (hother _ hcl).2.2.2

theorem DeclaresLength.unique {headerEnd' sepLen' i' n' : Nat}
    (h : DeclaresLength buffer headerEnd sepLen i n)
    (h' : DeclaresLength buffer headerEnd' sepLen' i' n') :
    headerEnd' = headerEnd ∧ sepLen' = sepLen ∧ i' = i ∧ n' = n := by
  obtain ⟨rfl, rfl⟩ := Prod.mk.inj (Option.some.inj (h'.head.symm.trans h.head))
  obtain rfl := List.singleton_inj.mp (h'.lengths.symm.trans h.lengths)
  exact ⟨rfl, rfl, rfl, Option.some.inj (h'.number.symm.trans h.number)⟩

-- ============================================================================
-- 413
-- ============================================================================

/-- The request line is accepted, with a method the server supports. -/
def AcceptsLine (buffer : Bytes) : Prop :=
  ∃ method path m, parseRawRequest buffer = (true, method, path) ∧ mnetParseMethod method = some m

/-- The request declares a body larger than the limit. -/
def DeclaresTooLarge (buffer : Bytes) (maxBodySize : Nat) : Prop :=
  AcceptsLine buffer ∧
    ∃ headerEnd sepLen i n, DeclaresLength buffer headerEnd sepLen i n ∧ maxBodySize < n

/-- The request is reported as too large exactly when it declares a body larger
    than the limit. -/
def TooLargeExact (conn : Conn) (buffer : Bytes) (maxBodySize : Nat) (timeoutMs : Int) : Prop :=
  (parseRequest conn buffer buffer.length maxBodySize timeoutMs).1 = .tooLarge ↔
    DeclaresTooLarge buffer maxBodySize

/-- A declared body within the limit comes; of one over the limit the length is
    seen to be over it, or what `size_t` arithmetic leaves of the length does
    not come. -/
def LimitDecides (conn : Conn) (buffer : Bytes) (maxBodySize : Nat) (timeoutMs : Int) : Prop :=
  AcceptsLine buffer → ∀ headerEnd sepLen i n, DeclaresLength buffer headerEnd sepLen i n →
    (n ≤ maxBodySize → BodyComes conn buffer (headerEnd + sepLen) timeoutMs n) ∧
      (maxBodySize < n → SeenOver maxBodySize (lineDigits buffer i) ∨
        ¬ BodyComes conn buffer (headerEnd + sepLen) timeoutMs (n % SIZE_T))

/-- Without a request line to accept nothing is said of the body. -/
theorem acceptsLine_of_tooLarge {received : Nat}
    (h : (parseRequest conn buffer received maxBodySize timeoutMs).1 = .tooLarge) :
    AcceptsLine buffer := by
  unfold parseRequest at h
  rcases hraw : parseRawRequest buffer with ⟨ok, method, path⟩
  rw [hraw] at h
  cases ok with
  | false => simp at h
  | true =>
      cases hm : mnetParseMethod method with
      | none => simp [hm] at h
      | some m => exact ⟨method, path, m, hraw, hm⟩

/-- The code for a declared length. -/
theorem DeclaresLength.code_iff (h : DeclaresLength buffer headerEnd sepLen i n) :
    (readFullBody conn buffer buffer.length maxBodySize timeoutMs).1.code = -1 ↔
      SeenOver maxBodySize (lineDigits buffer i) ∨
        ¬ BodyComes conn buffer (headerEnd + sepLen) timeoutMs (n % SIZE_T) := by
  rw [readFullBody_code_iff h.head, h.contentLength]
  by_cases hseen : SeenOver maxBodySize (lineDigits buffer i)
  · simp [hseen]
  · simp [hseen]

/-- A request is reported as too large exactly when it declares a body larger
    than the limit, under just the condition that the limit decides. -/
theorem tooLargeExact_iff (hmax : maxBodySize < SIZE_T) (conn : Conn) (buffer : Bytes)
    (timeoutMs : Int) :
    TooLargeExact conn buffer maxBodySize timeoutMs ↔
      LimitDecides conn buffer maxBodySize timeoutMs := by
  by_cases hline : AcceptsLine buffer
  · obtain ⟨method, path, m, hraw, hm⟩ := hline
    obtain ⟨headerEnd, sepLen, hend⟩ := endOfHeaders_of_parseRawRequest hraw
    rw [TooLargeExact, parseRequest_tooLarge hraw hm]
    by_cases hdeclared : ∃ i n, DeclaresLength buffer headerEnd sepLen i n
    · obtain ⟨i, n, h⟩ := hdeclared
      have hlarge : DeclaresTooLarge buffer maxBodySize ↔ maxBodySize < n := by
        constructor
        · rintro ⟨-, _, _, _, n', h', hlt⟩
          obtain ⟨-, -, -, rfl⟩ := h.unique h'
          exact hlt
        · exact fun hlt => ⟨⟨method, path, m, hraw, hm⟩, _, _, _, _, h, hlt⟩
      have hdecides : LimitDecides conn buffer maxBodySize timeoutMs ↔
          (n ≤ maxBodySize → BodyComes conn buffer (headerEnd + sepLen) timeoutMs n) ∧
            (maxBodySize < n → SeenOver maxBodySize (lineDigits buffer i) ∨
              ¬ BodyComes conn buffer (headerEnd + sepLen) timeoutMs (n % SIZE_T)) := by
        constructor
        · exact fun hall => hall ⟨method, path, m, hraw, hm⟩ _ _ _ _ h
        · rintro hone - _ _ _ _ h'
          obtain ⟨rfl, rfl, rfl, rfl⟩ := h.unique h'
          exact hone
      rw [hlarge, hdecides, h.code_iff]
      by_cases hlt : maxBodySize < n
      · simp [hlt, Nat.not_le.mpr hlt]
      · -- within the limit the number is not seen over it, and does not wrap
        have hle : n ≤ maxBodySize := Nat.not_lt.mp hlt
        have hvalue := (decimalFrom_lineDigits h.number).1
        have hunseen := not_seenOver_of_le hmax (hvalue.symm ▸ hle)
        rw [Nat.mod_eq_of_lt (Nat.lt_of_le_of_lt hle hmax)]
        simp [hlt, hle, hunseen]
    · refine iff_of_true (iff_of_false ?_ ?_) ?_
      · rw [readFullBody_code_iff hend]
        rintro (hcl | ⟨len, hcl, hnot⟩)
        · exact hdeclared (exists_declaresLength hend (.inl hcl))
        · refine hdeclared (exists_declaresLength hend (.inr ⟨len, hcl, ?_⟩))
          rintro rfl
          exact hnot (.inl (Nat.zero_le _))
      · rintro ⟨-, _, _, i, n, h, -⟩
        obtain ⟨rfl, rfl⟩ := Prod.mk.inj (Option.some.inj (h.head.symm.trans hend))
        exact hdeclared ⟨i, n, h⟩
      · rintro - _ _ i n h
        obtain ⟨rfl, rfl⟩ := Prod.mk.inj (Option.some.inj (h.head.symm.trans hend))
        exact absurd ⟨i, n, h⟩ hdeclared
  · refine iff_of_true (iff_of_false ?_ ?_) ?_
    · exact fun h => hline (acceptsLine_of_tooLarge h)
    · exact fun h => hline h.1
    · exact fun haccepts => absurd haccepts hline

end

/-- A head that declares a body of two bytes. -/
def bodilessPost : Bytes := ascii "POST / HTTP/1.1\r\nContent-Length: 2\r\n\r\n"

theorem declaresLength_bodilessPost : DeclaresLength bodilessPost 34 4 17 2 where
  head := by decide +kernel
  lengths := by decide +kernel
  codings := by decide +kernel
  number := by decide +kernel

/-- The limit decides when the body follows in a segment of its own. -/
theorem tooLargeExact_bodilessPost :
    TooLargeExact (.opened [.segment (ascii "hi")] (fun _ => 0) fun _ => {}) bodilessPost 100
      1000 := by
  refine (tooLargeExact_iff (by decide) _ _ _).mpr fun _ _ _ _ _ h => ?_
  obtain ⟨rfl, rfl, rfl, rfl⟩ := declaresLength_bodilessPost.unique h
  refine ⟨fun _ => .inr ?_, fun hlt => absurd hlt (by decide)⟩
  have hrest : bodilessPost.length - (34 + 4) = 0 := by decide
  rw [hrest]
  exact .turn (by decide) (by decide) (.complete _ _)

/-- A peer that closes before it has sent its body of two bytes is told that
    they are too many. -/
theorem not_tooLargeExact :
    ¬ ∀ (conn : Conn) (buffer : Bytes) (maxBodySize : Nat) (timeoutMs : Int),
      maxBodySize < SIZE_T → TooLargeExact conn buffer maxBodySize timeoutMs := by
  intro h
  have hexact := h .quiet bodilessPost 100 1000 (by decide)
  obtain ⟨-, _, _, _, n, hdeclares, hlt⟩ := hexact.mp (by decide +kernel)
  obtain ⟨-, -, -, rfl⟩ := declaresLength_bodilessPost.unique hdeclares
  exact absurd hlt (by decide)

end Mnet
