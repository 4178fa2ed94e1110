/-
  Mnet.WireRequest

  Requests as a client means them, and the bytes it sends for them.

  A `WireRequest` carries its well-formedness: a target without blanks, fields
  the server takes, a body of the declared length.  Proofs ask for them by name.  The
  head is rendered line by line (`Mnet.Lines`); the body follows as it is.
-/

import Mnet.FramingAgreement
import Mnet.Lines

namespace Mnet

def renderField (field : Bytes × Bytes) : Bytes := field.1 ++ ascii ": " ++ field.2

/-- A header field that can be sent: a token that is not Transfer-Encoding, a
    value on one line without blanks in front, and a line the server takes. -/
structure WireField (field : Bytes × Bytes) : Prop where
  name : mnetHeaderNameValid field.1 = true
  notTransferEncoding : strcaseeq field.1 (ascii "Transfer-Encoding") = false
  valueNoBreak : CR ∉ field.2 ∧ LF ∉ field.2
  valueNoNul : (0 : Byte) ∉ field.2
  valueNoBlank : ∀ b ∈ field.2.head?, isBlank b = false
  lineLength : (renderField field).length < MNET_MAX_HEADER_LINE

instance (field : Bytes × Bytes) : Decidable (WireField field) :=
  decidable_of_iff
    (mnetHeaderNameValid field.1 = true ∧ strcaseeq field.1 (ascii "Transfer-Encoding") = false ∧
      (CR ∉ field.2 ∧ LF ∉ field.2) ∧ (0 : Byte) ∉ field.2 ∧
      field.2.head?.all (fun b => !isBlank b) = true ∧
      (renderField field).length < MNET_MAX_HEADER_LINE)
    ⟨fun ⟨hname, hte, hbreak, hnul, hblank, hlen⟩ =>
      ⟨hname, hte, hbreak, hnul, by simpa [Option.all_eq_true] using hblank, hlen⟩,
    fun h => ⟨h.name, h.notTransferEncoding, h.valueNoBreak, h.valueNoNul,
      by simpa [Option.all_eq_true] using h.valueNoBlank, h.lineLength⟩⟩

/-- A request with its well-formedness.  `body` is empty when there is none, and
    then there is no Content-Length field, or one that says 0. -/
structure WireRequest where
  method : HttpMethod
  target : Bytes
  headers : List (Bytes × Bytes)
  body : Bytes
  targetLength : 1 ≤ target.length ∧ target.length ≤ 2047
  targetClean : ∀ b ∈ target, isspace b = false ∧ b ≠ 0
  headersCount : 1 ≤ headers.length ∧ headers.length ≤ MNET_MAX_HEADERS
  fields : ∀ field ∈ headers, WireField field
  framing : LengthAgrees
    (headers.filter fun field => strcaseeq field.1 (ascii "Content-Length")) body.length

namespace WireRequest

def requestLine (r : WireRequest) : Bytes :=
  r.method.name ++ ascii " " ++ r.target ++ ascii " HTTP/1.1"

def lines (r : WireRequest) : List Bytes := r.requestLine :: r.headers.map renderField

/-- The head, with the blank line that ends it. -/
def head (r : WireRequest) : Bytes := renderLines r.lines ++ CRLF

def render (r : WireRequest) : Bytes := r.head ++ r.body

/-- The request a handler is given is the one the client sent. -/
structure DecodedAs (r : WireRequest) (buffer : Bytes) (req : ParsedRequest) : Prop where
  method : req.method = r.method.name ∧ req.methodEnum = some r.method
  path : req.path = r.target
  split : (req.queryString = none ∧ 63 ∉ r.target ∧ req.pathOnly = r.target) ∨
    ∃ qs, req.queryString = some qs ∧ 63 ∉ req.pathOnly ∧ r.target = req.pathOnly ++ 63 :: qs
  headers : req.extras.headers = r.headers
  bodyLength : req.bodyLength = r.body.length
  body : req.bodyBytes buffer = r.body
  keepAlive : req.keepAlive = r.headers.any isKeepAlive

-- ============================================================================
-- The lines of a request
-- ============================================================================

theorem name_tokens (m : HttpMethod) : m.name ≠ [] ∧ m.name.all isTokenChar = true ∧
    m.name.length ≤ 7 := by
  cases m <;> decide

/-- Bytes that are neither line end nor NUL. -/
def clean (s : Bytes) : Bool := s.all fun b => b ≠ CR && b ≠ LF && b ≠ 0

theorem clean_append (a b : Bytes) : clean (a ++ b) = (clean a && clean b) := List.all_append

theorem clean_iff {s : Bytes} : clean s = true ↔ CR ∉ s ∧ LF ∉ s ∧ (0 : Byte) ∉ s := by
  simp only [clean, List.all_eq_true, Bool.and_eq_true, decide_eq_true_eq]
  constructor
  · intro h
    exact ⟨fun hm => (h _ hm).1.1 rfl, fun hm => (h _ hm).1.2 rfl, fun hm => (h _ hm).2 rfl⟩
  · rintro ⟨hcr, hlf, h0⟩ b hb
    exact ⟨⟨fun h => hcr (h ▸ hb), fun h => hlf (h ▸ hb)⟩, fun h => h0 (h ▸ hb)⟩

theorem clean_of_tokens {s : Bytes} (h : s.all isTokenChar = true) : clean s = true := by
  rw [clean_iff]
  rw [List.all_eq_true] at h
  refine ⟨fun hm => ?_, fun hm => ?_, fun hm => ?_⟩
  · exact absurd (h _ hm) (by decide)
  · exact absurd (h _ hm) (by decide)
  · exact absurd (h _ hm) (by decide)

theorem tokens_of_nameValid {name : Bytes} (h : mnetHeaderNameValid name = true) :
    name ≠ [] ∧ name.all isTokenChar = true := by
  simpa [mnetHeaderNameValid] using h

theorem clean_target (r : WireRequest) : clean r.target = true := by
  rw [clean_iff]
  refine ⟨fun hm => ?_, fun hm => ?_, fun hm => ?_⟩
  · exact absurd (r.targetClean _ hm).1 (by decide)
  · exact absurd (r.targetClean _ hm).1 (by decide)
  · exact (r.targetClean _ hm).2 rfl

theorem clean_requestLine (r : WireRequest) : clean r.requestLine = true := by
  unfold requestLine
  rw [clean_append, clean_append, clean_append, clean_of_tokens (name_tokens r.method).2.1,
    r.clean_target]
  decide

theorem clean_renderField {field : Bytes × Bytes} (h : WireField field) :
    clean (renderField field) = true := by
  have hvalue : clean field.2 = true := clean_iff.mpr ⟨h.valueNoBreak.1, h.valueNoBreak.2, h.valueNoNul⟩
  unfold renderField
  rw [clean_append, clean_append, clean_of_tokens (tokens_of_nameValid h.name).2, hvalue]
  decide

theorem lines_spec (r : WireRequest) : ∀ line ∈ r.lines, line ≠ [] ∧ clean line = true := by
  intro line hline
  obtain rfl | hline := List.mem_cons.mp hline
  · refine ⟨?_, r.clean_requestLine⟩
    simp [requestLine, (name_tokens r.method).1]
  · obtain ⟨field, hfield, rfl⟩ := List.mem_map.mp hline
    have hf := r.fields field hfield
    refine ⟨?_, clean_renderField hf⟩
    simp [renderField, (tokens_of_nameValid hf.name).1]

theorem plainLines (r : WireRequest) : ∀ line ∈ r.lines, PlainLine line := by
  intro line hline
  obtain ⟨hne, hclean⟩ := r.lines_spec line hline
  obtain ⟨hcr, hlf, -⟩ := clean_iff.mp hclean
  exact ⟨hne, hcr, hlf⟩

theorem noNul_renderLines {lines : List Bytes} (h : ∀ line ∈ lines, (0 : Byte) ∉ line) :
    (0 : Byte) ∉ renderLines lines := by
  intro hm
  obtain ⟨line, hline, hm⟩ := List.mem_flatMap.mp hm
  obtain hm | hm := List.mem_append.mp hm
  · exact h line hline hm
  · exact absurd hm (by decide)

theorem noNul_head (r : WireRequest) : (0 : Byte) ∉ r.head := by
  intro hm
  obtain hm | hm := List.mem_append.mp hm
  · exact noNul_renderLines (fun line hline => (clean_iff.mp (r.lines_spec line hline).2).2.2) hm
  · exact absurd hm (by decide)

-- ============================================================================
-- Where the head ends
-- ============================================================================

/-- The offset of the blank line. -/
def headEnd (r : WireRequest) : Nat := (renderLines r.lines).length - 2

theorem lines_ne_nil (r : WireRequest) : r.lines ≠ [] := List.cons_ne_nil _ _

theorem length_head (r : WireRequest) : r.head.length = r.headEnd + 4 := by
  have h := two_le_length_renderLines r.lines_ne_nil
  rw [head, headEnd, List.length_append, show CRLF.length = 2 from rfl]
  omega

theorem cstr_head (r : WireRequest) (extra : Bytes) :
    cstr (r.head ++ extra) = renderLines r.lines ++ (CRLF ++ cstr extra) := by
  rw [cstr_append_of_noNul r.noNul_head, head, List.append_assoc]

theorem endOfHeaders_head (r : WireRequest) (extra : Bytes) :
    endOfHeaders (r.head ++ extra) = some (r.headEnd, 4) := by
  have hfind : strstr (r.head ++ extra) crlfcrlf = some r.headEnd := by
    rw [strstr, cstr_head, find_crlfcrlf_renderLines r.lines_ne_nil r.plainLines]
    rfl
  simp only [endOfHeaders, hfind]

theorem take_headEnd (r : WireRequest) (extra : Bytes) :
    (r.head ++ extra).take r.headEnd = joinLines r.lines := by
  have h := two_le_length_renderLines r.lines_ne_nil
  rw [head, List.append_assoc, List.take_append_of_le_length (by unfold headEnd; omega)]
  rfl

-- ============================================================================
-- The request line
-- ============================================================================

theorem isspace_of_tokenChar {b : Byte} (h : isTokenChar b = true) : isspace b = false := by
  by_contra hnot
  have hspace : isspace b = true := by simpa using hnot
  simp only [isspace, Bool.or_eq_true, beq_iff_eq, Bool.and_eq_true, decide_eq_true_eq] at hspace
  rcases hspace with rfl | ⟨hlo, hhi⟩
  · exact absurd h (by decide)
  · rw [UInt8.le_iff_toNat_le] at hlo hhi
    have h9 : (9 : UInt8).toNat = 9 := rfl
    have h13 : (13 : UInt8).toNat = 13 := rfl
    have hb : b = UInt8.ofNat b.toNat := by simp
    have hcases : b.toNat = 9 ∨ b.toNat = 10 ∨ b.toNat = 11 ∨ b.toNat = 12 ∨ b.toNat = 13 := by
      omega
    rw [hb] at h
    rcases hcases with h' | h' | h' | h' | h' <;> rw [h'] at h <;> exact absurd h (by decide)

/-- A word that white space follows is read whole, if it fits. -/
theorem scanWord_word {width : Nat} {word rest : Bytes} {c : Byte} (hne : word ≠ [])
    (hword : ∀ b ∈ word, isspace b = false) (hlen : word.length ≤ width)
    (hc : isspace c = true) : scanWord width (word ++ c :: rest) = some (word, c :: rest) := by
  have hdrop : (word ++ c :: rest).dropWhile isspace = word ++ c :: rest := by
    cases word with
    | nil => exact absurd rfl hne
    | cons b word =>
        exact List.dropWhile_cons_of_neg (by simp [hword b (List.mem_cons_self ..)])
  have htake : ((word ++ c :: rest).takeWhile fun b => !isspace b) = word := by
    rw [takeWhile_append_stop (by simp [hc])]
    exact List.takeWhile_eq_self_iff.mpr fun b hb => by simp [hword b hb]
  simp only [scanWord]
  rw [hdrop, htake, List.take_of_length_le hlen, if_neg hne, List.drop_left]

theorem scanWord_blank {width : Nat} {c : Byte} (hc : isspace c = true) (s : Bytes) :
    scanWord width (c :: s) = scanWord width s := by
  simp only [scanWord, List.dropWhile_cons_of_pos hc]

theorem parseRawRequest_head (r : WireRequest) (extra : Bytes) :
    parseRawRequest (r.head ++ extra) = (true, r.method.name, r.target) := by
  obtain ⟨hname, htoken, hlen⟩ := name_tokens r.method
  rw [List.all_eq_true] at htoken
  have hspace : isspace SP = true := by decide
  have htarget : r.target ≠ [] := by
    have h := r.targetLength.1
    intro hnil
    rw [hnil] at h
    simp at h
  obtain ⟨rest, hrest⟩ : ∃ rest, cstr (r.head ++ extra) =
      r.method.name ++ SP :: (r.target ++ SP :: rest) := by
    refine ⟨ascii "HTTP/1.1" ++ (CRLF ++ (renderLines (r.headers.map renderField) ++
      (CRLF ++ cstr extra))), ?_⟩
    have hsp : ascii " " = [SP] := by decide
    have hversion : ascii " HTTP/1.1" = SP :: ascii "HTTP/1.1" := by decide
    rw [cstr_head, lines, renderLines_cons, requestLine, hsp, hversion]
    simp
  have hline : ∃ i, memchr (r.head ++ extra) LF r.headEnd = some i := by
    -- the line end of the request line stands before the last one
    obtain ⟨field, fields, hfields⟩ : ∃ field fields, r.headers = field :: fields := by
      have h := r.headersCount.1
      cases hh : r.headers with
      | nil => simp [hh] at h
      | cons field fields => exact ⟨field, fields, rfl⟩
    have hjoin : joinLines r.lines = r.requestLine ++
        (CRLF ++ joinLines (r.headers.map renderField)) :=
      joinLines_cons (by simp [hfields])
    have hmem : (joinLines r.lines)[r.requestLine.length + 1]? = some LF := by
      rw [hjoin, List.getElem?_append_right (by omega), Nat.add_sub_cancel_left]
      simp [CRLF]
    have hlt := (List.getElem?_eq_some_iff.mp hmem).1
    unfold memchr
    rw [r.take_headEnd]
    obtain ⟨i, -, hi⟩ := Search.exists_find_of_occursAt (Nat.le_of_lt hlt)
      (occursAt_singleton.mpr hmem)
    exact ⟨i, hi⟩
  obtain ⟨i, hi⟩ := hline
  simp only [parseRawRequest, endOfHeaders_head, hi]
  rw [hrest, scanWord_word hname (fun b hb => isspace_of_tokenChar (htoken b hb)) (by omega) hspace]
  dsimp only
  rw [scanWord_blank hspace, scanWord_word htarget (fun b hb => (r.targetClean b hb).1)
    r.targetLength.2 hspace]

theorem mnetParseMethod_name (m : HttpMethod) : mnetParseMethod m.name = some m := by
  cases m <;> decide

-- ============================================================================
-- The header list
-- ============================================================================

/-- A rendered field is read back. -/
theorem headerField_renderField {field : Bytes × Bytes} (h : WireField field) :
    headerField (renderField field) = some field := by
  obtain ⟨hne, htoken⟩ := tokens_of_nameValid h.name
  rw [List.all_eq_true] at htoken
  have hsplit : renderField field = field.1 ++ 58 :: 32 :: field.2 := by
    have hcolon : ascii ": " = [58, 32] := by decide
    rw [renderField, hcolon, List.append_assoc]
    rfl
  have h0 : (0 : Byte) ∉ renderField field := (clean_iff.mp (clean_renderField h)).2.2
  have hchr : strchr (renderField field) 58 = some field.1.length := by
    unfold strchr
    rw [cstr_of_noNul h0, hsplit, Search.find_eq_some_iff]
    refine ⟨by simp, occursAt_singleton.mpr (by simp), fun k hk hocc => ?_⟩
    have hget := occursAt_singleton.mp hocc
    rw [List.getElem?_append_left hk] at hget
    exact absurd (htoken _ (List.mem_of_getElem? hget)) (by decide)
  have htake : (renderField field).take field.1.length = field.1 := by
    rw [hsplit, List.take_left]
  have hdrop : ((renderField field).drop (field.1.length + 1)).dropWhile isBlank = field.2 := by
    have hblank : isBlank 32 = true := by decide
    rw [hsplit, ← List.drop_drop, List.drop_left, List.drop_one, List.tail_cons,
      List.dropWhile_cons_of_pos hblank]
    cases hv : field.2 with
    | nil => rfl
    | cons b v =>
        have hb := h.valueNoBlank b (by simp [hv])
        exact List.dropWhile_cons_of_neg (by simp [hb])
  simp only [headerField, hchr, htake, h.name, if_true, hdrop]

/-- The request line is no field: what stands before its first colon, if any,
    holds a space. -/
theorem headerField_requestLine (r : WireRequest) : headerField r.requestLine = none := by
  have h0 : (0 : Byte) ∉ r.requestLine := (clean_iff.mp r.clean_requestLine).2.2
  obtain ⟨-, htoken, -⟩ := name_tokens r.method
  rw [List.all_eq_true] at htoken
  have hsplit : r.requestLine = r.method.name ++ SP :: (r.target ++ ascii " HTTP/1.1") := by
    have hsp : ascii " " = [SP] := by decide
    rw [requestLine, hsp]
    simp
  cases hchr : strchr r.requestLine 58 with
  | none => simp [headerField, hchr]
  | some colon =>
      have hfind := hchr
      unfold strchr at hfind
      rw [cstr_of_noNul h0] at hfind
      obtain ⟨hle, hocc, -⟩ := Search.find_eq_some_iff.mp hfind
      have hget := occursAt_singleton.mp hocc
      have hgt : r.method.name.length < colon := by
        by_contra hge
        rw [hsplit] at hget
        by_cases hlt : colon < r.method.name.length
        · rw [List.getElem?_append_left hlt] at hget
          exact absurd (htoken _ (List.mem_of_getElem? hget)) (by decide)
        · have heq : colon = r.method.name.length := by omega
          rw [heq, List.getElem?_append_right (Nat.le_refl _), Nat.sub_self,
            List.getElem?_cons_zero] at hget
          exact absurd hget (by decide)
      have hmem : SP ∈ r.requestLine.take colon := by
        refine List.mem_of_getElem? (i := r.method.name.length) ?_
        rw [List.getElem?_take_of_lt hgt, hsplit, List.getElem?_append_right (Nat.le_refl _),
          Nat.sub_self]
        rfl
      have hinvalid : mnetHeaderNameValid (r.requestLine.take colon) = false := by
        by_contra hvalid
        have h := (tokens_of_nameValid (by simpa using hvalid)).2
        rw [List.all_eq_true] at h
        exact absurd (h SP hmem) (by decide)
      simp [headerField, hchr, hinvalid]

theorem parseHeaders_head (r : WireRequest) (extra : Bytes) :
    parseHeaders ((r.head ++ extra).take r.headEnd) = some r.headers := by
  have htok : strtok ((r.head ++ extra).take r.headEnd) CRLF = r.lines := by
    rw [strtok, cstr_take_headEnd (r.endOfHeaders_head extra), r.take_headEnd]
    exact tokens_joinLines r.plainLines
  have hlength : r.requestLine.length < MNET_MAX_HEADER_LINE := by
    have hname := (name_tokens r.method).2.2
    have htarget := r.targetLength.2
    have hascii : (ascii " ").length = 1 ∧ (ascii " HTTP/1.1").length = 9 := by decide
    simp only [requestLine, List.length_append, hascii.1, hascii.2, MNET_MAX_HEADER_LINE]
    omega
  have hcount := r.headersCount.2
  rw [parseHeaders, htok, lines, parseHeaderLines, if_neg (by decide), if_neg (by omega),
    headerField_requestLine]
  dsimp only
  rw [parseHeaderLines_of_limits (by simpa using hcount)]
  · rw [List.nil_append, List.filterMap_map]
    congr 1
    have hfield : ∀ field ∈ r.headers, (headerField ∘ renderField) field = some field :=
      fun field hf => headerField_renderField (r.fields field hf)
    rw [List.filterMap_congr hfield, List.filterMap_some]
  · intro line hline
    obtain ⟨field, hf, rfl⟩ := List.mem_map.mp hline
    exact (r.fields field hf).lineLength

end WireRequest

end Mnet
