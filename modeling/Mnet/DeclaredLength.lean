/-
  Mnet.DeclaredLength

  `read_full_body` on a head that declares a length: too large, or framed by
  just that many bytes, in a block that is longer.

  The memory asked for is read off the heap, which keeps the sizes of all
  requests, those that are refused included.
-/

import Mnet.RequestMemory
import Mnet.TooLarge

namespace Mnet

open Heap (Answer)

-- ============================================================================
-- Lengths that are read exactly
-- ============================================================================

/-- `read_full_body` gives up before it waits for the body. -/
def RefusedUnread (conn : Conn) (buffer : Bytes) (maxBodySize : Nat) (timeoutMs : Int) : Prop :=
  readFullBody conn buffer buffer.length maxBodySize timeoutMs = ({ code := -1 }, conn)

/-- The body handed out is the `n` bytes that stand at `offset`, in the buffer
    and behind it on the connection. -/
structure HandsOut (conn : Conn) (buffer : Bytes) (offset n : Nat) (r : BodyResult) : Prop where
  bodyLen : r.bodyLen = n
  inside : n ≤ (r.body.mem buffer).length
  bytes : (r.body.mem buffer).take n = (buffer.drop offset ++ conn.stream).take n

/-- The declared length `n` is read exactly: the body is too large just when it
    exceeds the limit; else it is handed out if it comes, is never another, and
    whatever is asked of `malloc` for it is longer. -/
structure LengthExact (conn : Conn) (buffer : Bytes) (headerEnd sepLen maxBodySize : Nat)
    (timeoutMs : Int) (n : Nat) : Prop where
  tooLarge : RefusedUnread conn buffer maxBodySize timeoutMs ↔ maxBodySize < n
  received : n ≤ maxBodySize → BodyComes conn buffer (headerEnd + sepLen) timeoutMs n →
    (readFullBody conn buffer buffer.length maxBodySize timeoutMs).1.code = 0
  framed : n ≤ maxBodySize →
    (readFullBody conn buffer buffer.length maxBodySize timeoutMs).1.code = 0 →
    HandsOut conn buffer (headerEnd + sepLen) n
      (readFullBody conn buffer buffer.length maxBodySize timeoutMs).1
  allocated : n ≤ maxBodySize → ∀ (answers : Nat → Answer) (heap : Heap Block), ∃ sizes,
    (readFullBodyMem answers heap conn buffer buffer.length maxBodySize timeoutMs).2.2.2.requests =
      heap.requests ++ sizes ∧ ∀ size ∈ sizes, n < size

section

variable {buffer : Bytes} {headerEnd sepLen i n maxBodySize : Nat}

-- ============================================================================
-- The body of a framing that is accepted
-- ============================================================================

/-- The length alone is refused exactly when the framing says so. -/
theorem refusedUnread_iff (hend : endOfHeaders buffer = some (headerEnd, sepLen)) (conn : Conn)
    (maxBodySize : Nat) (timeoutMs : Int) :
    RefusedUnread conn buffer maxBodySize timeoutMs ↔
      contentLength buffer headerEnd maxBodySize = .error (-1) := by
  unfold RefusedUnread
  obtain ⟨code, hbody, hreason⟩ | ⟨len, hcl, -, ⟨-, hbody⟩ | ⟨-, hbody⟩⟩ :=
    readFullBody_cases conn hend buffer.length maxBodySize timeoutMs
  · obtain hcl | ⟨-, len, hcl, hover⟩ := hreason
    · rw [hbody, hcl]
      simp
    · exact absurd (le_of_contentLength_ok hcl) (by omega)
  · rw [hbody, hcl]
    simp
  · -- whoever waits has read the clock
    obtain ⟨got, hgot, -⟩ := recvBody_received conn.tick (conn.nowMs + timeoutMs) len
      ((buffer.drop (headerEnd + sepLen)).take (buffer.length - (headerEnd + sepLen)))
    have hread : conn.readings + 1 ≤ _ := hgot.readings
    rw [hbody, hcl]
    refine iff_of_false (fun h => ?_) (by simp)
    rw [(Prod.mk.inj h).2] at hread
    omega

/-- An accepted framing leaves two results: the body, and that it did not
    come. -/
theorem readFullBody_code_of_ok (hend : endOfHeaders buffer = some (headerEnd, sepLen))
    (hcl : contentLength buffer headerEnd maxBodySize = .ok n) (conn : Conn) (timeoutMs : Int) :
    (readFullBody conn buffer buffer.length maxBodySize timeoutMs).1.code = 0 ∨
      (readFullBody conn buffer buffer.length maxBodySize timeoutMs).1.code = -1 := by
  obtain ⟨code, hbody, hreason⟩ | ⟨len, -, -, ⟨-, hbody⟩ | ⟨-, hbody⟩⟩ :=
    readFullBody_cases conn hend buffer.length maxBodySize timeoutMs
  · obtain hcl' | ⟨-, len, hcl', hover⟩ := hreason
    · exact absurd (hcl.symm.trans hcl') (by simp)
    · exact absurd (le_of_contentLength_ok hcl') (by omega)
  · rw [hbody]
    exact .inl rfl
  · rw [hbody]
    cases (recvBody conn.tick (conn.nowMs + timeoutMs) len
      ((buffer.drop (headerEnd + sepLen)).take (buffer.length - (headerEnd + sepLen)))).1 with
    | none => exact .inr rfl
    | some block => exact .inl rfl

/-- A body that is handed out is the one that was framed. -/
theorem handsOut_readFullBody (hend : endOfHeaders buffer = some (headerEnd, sepLen))
    (hcl : contentLength buffer headerEnd maxBodySize = .ok n) (conn : Conn) (timeoutMs : Int)
    (hcode : (readFullBody conn buffer buffer.length maxBodySize timeoutMs).1.code = 0) :
    HandsOut conn buffer (headerEnd + sepLen) n
      (readFullBody conn buffer buffer.length maxBodySize timeoutMs).1 := by
  have havail : (buffer.drop (headerEnd + sepLen)).length =
      buffer.length - (headerEnd + sepLen) := List.length_drop ..
  obtain ⟨code, hbody, hreason⟩ | ⟨len, hcl', -, hways⟩ :=
    readFullBody_cases conn hend buffer.length maxBodySize timeoutMs
  · obtain hcl' | ⟨-, len, hcl', hover⟩ := hreason
    · exact absurd (hcl.symm.trans hcl') (by simp)
    · exact absurd (le_of_contentLength_ok hcl') (by omega)
  obtain rfl := Except.ok.inj (hcl.symm.trans hcl')
  obtain ⟨hfast, hbody⟩ | ⟨hshort, hbody⟩ := hways
  · rw [hbody]
    refine ⟨rfl, Nat.le_trans hfast (Nat.le_of_eq havail.symm), ?_⟩
    exact (List.take_append_of_le_length (Nat.le_trans hfast (Nat.le_of_eq havail.symm))).symm
  · -- the rest of the body comes from the socket
    rw [List.take_of_length_le (Nat.le_of_eq havail)] at hbody
    obtain ⟨got, hgot, hblock⟩ := recvBody_received conn.tick (conn.nowMs + timeoutMs) n
      (buffer.drop (headerEnd + sepLen))
    rw [hbody] at hcode ⊢
    rcases hrecv : recvBody conn.tick (conn.nowMs + timeoutMs) n
      (buffer.drop (headerEnd + sepLen)) with ⟨_ | block, conn'⟩
    · rw [hrecv] at hcode
      exact absurd hcode (show (-1 : Int) ≠ 0 by decide)
    · rw [hrecv] at hgot hblock
      obtain ⟨hsplit, hlen⟩ := hblock (by omega) block rfl
      have hstream : conn.stream = got ++ conn'.stream := hgot.stream
      refine ⟨rfl, Nat.le_of_eq hlen.symm, ?_⟩
      rw [hstream, ← List.append_assoc, ← hsplit,
        List.take_append_of_le_length (Nat.le_of_eq hlen.symm)]
      rfl

/-- What `read_full_body` asks of `malloc`: nothing for a body it has, and one
    byte more than the length, in `size_t`, for any other. -/
theorem requests_readFullBodyMem (hend : endOfHeaders buffer = some (headerEnd, sepLen))
    (hcl : contentLength buffer headerEnd maxBodySize = .ok n) (conn : Conn) (timeoutMs : Int)
    (answers : Nat → Answer) (heap : Heap Block) :
    (readFullBodyMem answers heap conn buffer buffer.length maxBodySize
        timeoutMs).2.2.2.requests =
      heap.requests ++ if n ≤ buffer.length - (headerEnd + sepLen) then [] else [(n + 1) % SIZE_T] := by
  have hle := le_of_contentLength_ok hcl
  simp only [readFullBodyMem, hend, hcl]
  cases n with
  | zero => simp
  | succ n =>
      dsimp only
      rw [if_neg (Nat.not_lt.mpr hle)]
      by_cases hhave : n + 1 ≤ buffer.length - (headerEnd + sepLen)
      · rw [if_pos hhave, if_pos hhave, List.append_nil]
      · rw [if_neg hhave, if_neg hhave]
        have hasked := Heap.requests_malloc answers heap ((n + 1 + 1) % SIZE_T)
          (.text ((buffer.drop (headerEnd + sepLen)).take (buffer.length - (headerEnd + sepLen))))
        rcases hmalloc : Heap.malloc answers heap ((n + 1 + 1) % SIZE_T)
          (.text ((buffer.drop (headerEnd + sepLen)).take
            (buffer.length - (headerEnd + sepLen)))) with ⟨_ | fullBody, heap'⟩
        · rw [hmalloc] at hasked
          exact hasked
        · rw [hmalloc] at hasked
          dsimp only
          rcases recvBody conn.tick (conn.nowMs + timeoutMs) (n + 1)
            ((buffer.drop (headerEnd + sepLen)).take
              (buffer.length - (headerEnd + sepLen))) with ⟨_ | block, conn'⟩
          · exact hasked
          · exact hasked

-- ============================================================================
-- When a length is read exactly
-- ============================================================================

/-- A number that is seen to be over the limit when it is, and that the
    allocation has room for when it is not, is read exactly. -/
theorem lengthExact_of_seen (h : DeclaresLength buffer headerEnd sepLen i n)
    (hmax : maxBodySize < SIZE_T)
    (hwithin : n ≤ maxBodySize → n + 1 < SIZE_T ∨ n ≤ buffer.length - (headerEnd + sepLen))
    (hover : maxBodySize < n → SeenOver maxBodySize (lineDigits buffer i)) (conn : Conn)
    (timeoutMs : Int) : LengthExact conn buffer headerEnd sepLen maxBodySize timeoutMs n := by
  obtain ⟨hvalue, -⟩ := decimalFrom_lineDigits h.number
  have hframing := h.contentLength maxBodySize
  have hrefused := refusedUnread_iff h.head conn maxBodySize timeoutMs
  by_cases hle : n ≤ maxBodySize
  · have hunseen := not_seenOver_of_le hmax (hvalue.symm ▸ hle)
    rw [if_neg hunseen, Nat.mod_eq_of_lt (by omega)] at hframing
    constructor
    · refine iff_of_false ?_ (by omega)
      rw [hrefused, hframing]
      simp
    · intro _ hcomes
      refine (readFullBody_code_of_ok h.head hframing conn timeoutMs).resolve_right fun hcode => ?_
      obtain hcl | ⟨len, hcl, hnot⟩ := (readFullBody_code_iff h.head).mp hcode
      · exact absurd (hframing.symm.trans hcl) (by simp)
      · obtain rfl := Except.ok.inj (hframing.symm.trans hcl)
        exact hnot hcomes
    · exact fun _ hcode => handsOut_readFullBody h.head hframing conn timeoutMs hcode
    · intro _ answers heap
      refine ⟨_, requests_readFullBodyMem h.head hframing conn timeoutMs answers heap, ?_⟩
      intro size hsize
      split at hsize
      · cases hsize
      · next hshort =>
        have hlt := (hwithin hle).resolve_right hshort
        rw [List.mem_singleton.mp hsize, Nat.mod_eq_of_lt hlt]
        omega
  · rw [if_pos (hover (by omega))] at hframing
    exact ⟨iff_of_true (hrefused.mpr hframing) (by omega), fun hle' => absurd hle' hle,
      fun hle' => absurd hle' hle, fun hle' => absurd hle' hle⟩

/-- Under a limit of `2 ^ 64 - 7` or less every declared length is read
    exactly. -/
theorem lengthExact_of_limit (h : DeclaresLength buffer headerEnd sepLen i n)
    (hmax : maxBodySize + 6 < SIZE_T) (conn : Conn) (timeoutMs : Int) :
    LengthExact conn buffer headerEnd sepLen maxBodySize timeoutMs n := by
  obtain ⟨hvalue, hdigits⟩ := decimalFrom_lineDigits h.number
  apply lengthExact_of_seen h (by omega)
  · intro hle
    exact .inl (by omega)
  · intro hgt
    exact seenOver_of_lt hmax hdigits (hvalue.symm ▸ hgt)

/-- The declared length is read exactly when, within the limit, it is not the
    largest `size_t` or is received already and, over the limit, is seen to be
    over it. -/
theorem lengthExact_iff (h : DeclaresLength buffer headerEnd sepLen i n)
    (hmax : maxBodySize < SIZE_T) (conn : Conn) (timeoutMs : Int) :
    LengthExact conn buffer headerEnd sepLen maxBodySize timeoutMs n ↔
      (n ≤ maxBodySize → n + 1 < SIZE_T ∨ n ≤ buffer.length - (headerEnd + sepLen)) ∧
        (maxBodySize < n → SeenOver maxBodySize (lineDigits buffer i)) := by
  have hframing := h.contentLength maxBodySize
  constructor
  · intro hexact
    refine ⟨fun hle => ?_, fun hgt => ?_⟩
    · by_contra hnot
      rw [not_or] at hnot
      obtain ⟨hvalue, -⟩ := decimalFrom_lineDigits h.number
      rw [if_neg (not_seenOver_of_le hmax (hvalue.symm ▸ hle)), Nat.mod_eq_of_lt (by omega)]
        at hframing
      obtain ⟨sizes, hsizes, hlonger⟩ :=
        hexact.allocated hle (fun _ => .refused) Heap.empty
      rw [requests_readFullBodyMem h.head hframing, if_neg hnot.2, List.append_cancel_left_eq]
        at hsizes
      have hlt := hlonger _ (hsizes ▸ List.mem_singleton.mpr rfl)
      have hn : n + 1 = SIZE_T := by omega
      rw [hn, Nat.mod_self] at hlt
      omega
    · rw [(refusedUnread_iff h.head conn maxBodySize timeoutMs).mp (hexact.tooLarge.mpr hgt)]
        at hframing
      by_contra hunseen
      rw [if_neg hunseen] at hframing
      exact absurd hframing (by simp)
  · rintro ⟨hwithin, hover⟩
    exact lengthExact_of_seen h hmax hwithin hover conn timeoutMs

end

/-- The length of an ordinary request is read exactly. -/
theorem lengthExact_plainPost :
    LengthExact .quiet plainPost 34 4 100 1000 2 :=
  (lengthExact_iff (i := 17)
    { head := by decide +kernel, lengths := by decide +kernel, codings := by decide +kernel,
      number := by decide +kernel } (by decide) _ _).mpr (by decide +kernel)

/-- A length of `2 ^ 64`. -/
def wrappingPost : Bytes :=
  ascii "POST / HTTP/1.1\r\nContent-Length: 18446744073709551616\r\n\r\n"

/-- Under the largest limit a length of `2 ^ 64` is taken for 0. -/
theorem not_lengthExact :
    ¬ ∀ (conn : Conn) (buffer : Bytes) (headerEnd sepLen i n maxBodySize : Nat) (timeoutMs : Int),
      0 < maxBodySize → maxBodySize < SIZE_T → DeclaresLength buffer headerEnd sepLen i n →
        LengthExact conn buffer headerEnd sepLen maxBodySize timeoutMs n := by
  intro h
  have hdeclares : DeclaresLength wrappingPost 53 4 17 SIZE_T :=
    { head := by decide +kernel, lengths := by decide +kernel, codings := by decide +kernel,
      number := by decide +kernel }
  have hexact := h .quiet _ _ _ _ _ (SIZE_T - 1) 1000 (by decide)
    (by decide) hdeclares
  have hrefused := (refusedUnread_iff hdeclares.head _ _ _).mp (hexact.tooLarge.mpr (by decide))
  rw [hdeclares.contentLength, if_neg (by decide +kernel)] at hrefused
  exact absurd hrefused (by simp)

end Mnet
