/-
  Mnet.BodyTerminator

  The body of a request read as a C string, as handlers do with what
  `MNET_BODY` returns.

  `read_full_body` writes a NUL behind a body it received into a block of its
  own.  Where the body is already in the buffer, or there is none, it returns a
  pointer into the buffer, and what follows the body there follows the string.
-/

import Mnet.FramingAgreement

namespace Mnet

-- ============================================================================
-- The byte behind the body
-- ============================================================================

/-- The byte of the memory at an offset: behind its last byte a block has a
    NUL. -/
def byteAt (mem : Bytes) (i : Nat) : Byte := (mem[i]?).getD 0

/-- The body of a request is a C string of the declared length: a NUL stands
    behind it, and who reads the pointer as a string sees bytes of the body
    only, none of an empty one. -/
structure BodyTerminated (buffer : Bytes) (req : ParsedRequest) : Prop where
  terminator : byteAt (req.body.mem buffer) req.bodyLength = 0
  text : cstr (req.body.mem buffer) <+: req.bodyBytes buffer
  empty : req.bodyLength = 0 → cstr (req.body.mem buffer) = []

/-- The length a head declares, as a `size_t`: 0 without a Content-Length. -/
def declaredLength (buffer : Bytes) (headerEnd : Nat) : Nat :=
  match contentLengthLines buffer headerEnd with
  | [i] => (lineNumber buffer i).getD 0 % SIZE_T
  | _ => 0

/-- Behind the declared body the buffer holds no byte, or a NUL. -/
def NothingBehindBody (buffer : Bytes) : Prop :=
  ∀ sep ∈ endOfHeaders buffer, byteAt buffer (sep.1 + sep.2 + declaredLength buffer sep.1) = 0

instance (buffer : Bytes) : Decidable (NothingBehindBody buffer) :=
  inferInstanceAs (Decidable (∀ sep ∈ endOfHeaders buffer, _))

/-- Up to the first NUL there is nothing but the string. -/
theorem length_cstr_le_of_byteAt {mem : Bytes} {i : Nat} (h : byteAt mem i = 0) :
    (cstr mem).length ≤ i := by
  by_contra hgt
  have hlt : i < (cstr mem).length := by omega
  have hget : mem[i]? = some (cstr mem)[i] := by
    obtain ⟨rest, hrest⟩ := cstr_isPrefix mem
    rw [← List.getElem?_eq_getElem hlt, ← hrest, List.getElem?_append_left hlt, hrest]
  have hzero : (cstr mem)[i] = 0 := by
    rw [byteAt, hget] at h
    exact h
  exact noNul_cstr mem (hzero ▸ List.getElem_mem hlt)

/-- The NUL is all there is to it. -/
theorem bodyTerminated_iff_byteAt {buffer : Bytes} {req : ParsedRequest} :
    BodyTerminated buffer req ↔ byteAt (req.body.mem buffer) req.bodyLength = 0 := by
  constructor
  · exact BodyTerminated.terminator
  · intro h
    have hlen := length_cstr_le_of_byteAt h
    refine ⟨h, ?_, fun hzero => ?_⟩
    · apply List.prefix_of_prefix_length_le (cstr_isPrefix _) (List.take_prefix ..)
      have hle := (cstr_isPrefix (req.body.mem buffer)).length_le
      rw [List.length_take]
      omega
    · rw [hzero] at hlen
      exact List.length_eq_zero_iff.mp (Nat.le_zero.mp hlen)

-- ============================================================================
-- The three exits
-- ============================================================================

/-- The framing is the declared length. -/
theorem eq_declaredLength {buffer : Bytes} {e n len maxBodySize : Nat}
    (hend : endOfHeaders buffer = some (e, n))
    (h : contentLength buffer e maxBodySize = .ok len) : len = declaredLength buffer e := by
  unfold declaredLength
  obtain ⟨-, ⟨hlines, hlen⟩ | ⟨i, hlines, hvalue⟩⟩ := contentLength_ok h
  · rw [hlines]
    exact hlen
  · rw [hlines]
    obtain ⟨hi, hocc⟩ := of_mem_contentLengthLines (hlines ▸ List.mem_singleton.mpr rfl)
    obtain ⟨k, hk, hlen⟩ := lineNumber_of_ok hend hi hocc hvalue
    show len = (lineNumber buffer i).getD 0 % SIZE_T
    rw [hk]
    exact hlen

/-- What follows the body in memory, at each exit: what the buffer holds
    there, or the NUL of the block. -/
theorem readFullBody_byteAt {conn conn' : Conn} {buffer : Bytes} {maxBodySize : Nat}
    {timeoutMs : Int} {r : BodyResult} {e n : Nat} (hend : endOfHeaders buffer = some (e, n))
    (h : readFullBody conn buffer buffer.length maxBodySize timeoutMs = (r, conn'))
    (hcode : r.code ≠ -1 ∧ r.code ≠ -2 ∧ r.code ≠ -3 ∧ r.code ≠ -4) :
    byteAt (r.body.mem buffer) r.bodyLen = byteAt buffer (e + n + r.bodyLen) := by
  have hbuffer : ∀ k, byteAt (buffer.drop (e + n)) k = byteAt buffer (e + n + k) := by
    intro k
    rw [byteAt, byteAt, List.getElem?_drop]
  obtain ⟨code, hbody, hreason⟩ | ⟨len, -, -, ⟨-, hbody⟩ | ⟨hshort, hbody⟩⟩ :=
    readFullBody_cases conn hend buffer.length maxBodySize timeoutMs
  · obtain ⟨rfl, -⟩ := Prod.mk.inj (h.symm.trans hbody)
    obtain hcl | ⟨hone, -⟩ := hreason
    · have hfail := contentLength_error hcl
      simp only [hcode, or_false] at hfail
    · exact absurd hone hcode.1
  · obtain ⟨rfl, -⟩ := Prod.mk.inj (h.symm.trans hbody)
    exact hbuffer len
  · obtain ⟨rfl, -⟩ := Prod.mk.inj (h.symm.trans hbody)
    obtain ⟨got, -, hblock⟩ := recvBody_received conn.tick (conn.nowMs + timeoutMs) len
      ((buffer.drop (e + n)).take (buffer.length - (e + n)))
    cases hrecv : (recvBody conn.tick (conn.nowMs + timeoutMs) len
      ((buffer.drop (e + n)).take (buffer.length - (e + n)))).1 with
    | none =>
        rw [hrecv] at hcode
        exact absurd rfl hcode.1
    | some block =>
        -- the block ends with the body, and the buffer before it
        have hlen : block.length = len :=
          (hblock (by rw [List.length_take]; omega) block hrecv).2
        show byteAt block len = byteAt buffer (e + n + len)
        rw [byteAt, byteAt, List.getElem?_eq_none (by omega), List.getElem?_eq_none (by omega)]

/-- The body of an accepted request is a C string of the declared length exactly
    when nothing stands behind it in the buffer. -/
theorem bodyTerminated_iff {conn conn' : Conn} {buffer : Bytes} {maxBodySize : Nat}
    {timeoutMs : Int} {req : ParsedRequest}
    (hparse : parseRequest conn buffer buffer.length maxBodySize timeoutMs = (.ok, req, conn')) :
    BodyTerminated buffer req ↔ NothingBehindBody buffer := by
  obtain ⟨method, path, m, r, e, n, headers, -, -, hend, hbody, hcode, -, rfl⟩ :=
    parseRequest_ok hparse
  obtain ⟨hcl, -⟩ := readFullBody_ok hend hbody hcode
  rw [bodyTerminated_iff_byteAt, assembled, splitTarget_body, splitTarget_bodyLength]
  show byteAt (r.body.mem buffer) r.bodyLen = 0 ↔ _
  rw [readFullBody_byteAt hend hbody hcode, eq_declaredLength hend hcl, NothingBehindBody, hend]
  simp

/-- The body of an ordinary request is terminated. -/
theorem bodyTerminated_plainPost :
    BodyTerminated plainPost (parseRequest .quiet plainPost
      plainPost.length 100 1000).2.1 :=
  (bodyTerminated_iff (Prod.ext (by decide +kernel) rfl)).mpr (by decide +kernel)

/-- A body of two bytes, and what came with it. -/
def trailedPost : Bytes := plainPost ++ ascii "secret"

/-- An echo of the body as a string sends the bytes that came with it. -/
theorem not_bodyTerminated :
    ¬ ∀ (conn conn' : Conn) (buffer : Bytes) (maxBodySize : Nat) (timeoutMs : Int)
        (req : ParsedRequest),
      parseRequest conn buffer buffer.length maxBodySize timeoutMs = (.ok, req, conn') →
        BodyTerminated buffer req := by
  intro h
  have hend := (h .quiet _ trailedPost 100 1000 _
    (Prod.ext (by decide +kernel) rfl)).terminator
  revert hend
  decide +kernel

end Mnet
