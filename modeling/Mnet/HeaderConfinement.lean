/-
  Mnet.HeaderConfinement

  Which bytes of a buffer can become headers, cookies and body of an accepted
  request.

  The parser cuts the head at the first CRLFCRLF and looks at LFLF only when
  there is none.  The blank line a reader of the buffer sees first is the
  earlier of the two; where that is an LFLF with a CRLFCRLF somewhere behind
  it, the text in between is read as headers.
-/

import Mnet.ParseSpec

namespace Mnet

open Search (OccursAt)

/-- A line of the buffer: a maximal run of bytes other than CR and LF. -/
structure LineAt (buffer : Bytes) (i : Nat) (line : Bytes) : Prop where
  start : i ∈ Tokens.starts isBreak buffer
  run : Tokens.runAt isBreak buffer i = line

/-- The first blank line of the buffer: its offset and its length. -/
def firstBlankLine (buffer : Bytes) : Option (Nat × Nat) :=
  match Search.find crlfcrlf buffer, Search.find lflf buffer with
  | some i, some j => if i < j then some (i, 4) else some (j, 2)
  | some i, none => some (i, 4)
  | none, some j => some (j, 2)
  | none, none => none

/-- Headers and cookies come from lines before the first blank line, and the
    body begins right after it. -/
structure HeadersConfined (buffer : Bytes) (req : ParsedRequest) : Prop where
  headers : ∀ field ∈ req.extras.headers, ∃ p n i line, firstBlankLine buffer = some (p, n) ∧
    LineAt buffer i line ∧ i + line.length ≤ p ∧ headerField line = some field
  cookies : ∀ cookie ∈ req.extras.cookies, ∃ p n i line field,
    firstBlankLine buffer = some (p, n) ∧ LineAt buffer i line ∧ i + line.length ≤ p ∧
      headerField line = some field ∧ strcaseeq field.1 (ascii "Cookie") = true ∧
      cookie ∈ parseCookies field.2
  body : ∃ p n, firstBlankLine buffer = some (p, n) ∧ req.body.offset = some (p + n)

/-- No CRLFCRLF stands behind an LFLF. -/
def FirstBlankLineChosen (buffer : Bytes) : Prop :=
  ∀ i ∈ strstr buffer crlfcrlf, ∀ j ∈ strstr buffer lflf, i < j

instance (buffer : Bytes) : Decidable (FirstBlankLineChosen buffer) :=
  inferInstanceAs (Decidable (∀ i ∈ strstr buffer crlfcrlf, ∀ j ∈ strstr buffer lflf, i < j))

-- ============================================================================
-- Lines of the head
-- ============================================================================

/-- The string is the head, a line end, and the rest. -/
theorem cstr_eq_head_append {buffer : Bytes} {e n : Nat}
    (hend : endOfHeaders buffer = some (e, n)) :
    ∃ d rest, cstr buffer = buffer.take e ++ d :: rest ∧ isBreak d = true ∧
      (buffer.take e).length = e := by
  obtain ⟨hle, hsep⟩ := endOfHeaders_spec hend
  have hn : 0 < n := by obtain ⟨rfl, -⟩ | ⟨rfl, -⟩ := endOfHeaders_cases hend <;> omega
  have hlt : e < (cstr buffer).length := by omega
  have hbuf := (cstr_isPrefix buffer).length_le
  refine ⟨(cstr buffer)[e], (cstr buffer).drop (e + 1), ?_, ?_, ?_⟩
  · rw [take_headEnd hend, ← List.drop_eq_getElem_cons hlt, List.take_append_drop]
  · rw [List.getElem?_eq_getElem hlt, Option.some.injEq, Option.some.injEq] at hsep
    obtain h | h := hsep
    · rw [h]
      decide
    · rw [h]
      decide
  · rw [List.length_take]
    omega

/-- The tokens of the head are its runs of bytes other than CR and LF. -/
theorem strtok_head {buffer : Bytes} {e n : Nat} (hend : endOfHeaders buffer = some (e, n)) :
    strtok (buffer.take e) CRLF =
      (Tokens.starts isBreak (buffer.take e)).map (Tokens.runAt isBreak (buffer.take e)) := by
  rw [← Tokens.tokens_eq_map_starts, strtok, cstr_take_headEnd hend]
  rfl

/-- The tokens of the head are lines of the buffer that end before it does. -/
theorem lineAt_of_mem_strtok {buffer : Bytes} {e n : Nat}
    (hend : endOfHeaders buffer = some (e, n)) {line : Bytes}
    (h : line ∈ strtok (buffer.take e) CRLF) :
    ∃ i, LineAt buffer i line ∧ i + line.length ≤ e := by
  obtain ⟨d, rest, hsplit, hbreak, hlen⟩ := cstr_eq_head_append hend
  obtain ⟨t, ht⟩ := cstr_isPrefix buffer
  have hbuf : buffer = buffer.take e ++ (d :: rest ++ t) := by
    rw [← List.append_assoc, ← hsplit, ht]
  have hstop : ∀ c ∈ (d :: rest ++ t).head?, isBreak c = true := by
    intro c hc
    obtain rfl : d = c := by simpa using hc
    exact hbreak
  rw [strtok_head hend] at h
  obtain ⟨i, hi, rfl⟩ := List.mem_map.mp h
  have hlt := Tokens.lt_of_mem_starts hi
  refine ⟨i, ⟨?_, ?_⟩, ?_⟩
  · rw [hbuf]
    exact (Tokens.mem_starts_append hlt).mpr hi
  · conv_lhs => rw [hbuf]
    exact Tokens.runAt_append hstop (by omega)
  · have h := Tokens.length_runAt_le isBreak (Nat.le_of_lt hlt)
    omega

/-- Every stored header is the field of a line of the head. -/
theorem lineAt_of_mem_headers {buffer : Bytes} {e n : Nat}
    (hend : endOfHeaders buffer = some (e, n)) {headers : List (Bytes × Bytes)}
    (hheaders : parseHeaders (buffer.take e) = some headers) {field : Bytes × Bytes}
    (h : field ∈ headers) :
    ∃ i line, LineAt buffer i line ∧ i + line.length ≤ e ∧ headerField line = some field := by
  have hlist := parseHeaderLines_eq_some hheaders
  rw [List.nil_append] at hlist
  rw [hlist, List.mem_filterMap] at h
  obtain ⟨line, hline, hfield⟩ := h
  obtain ⟨i, hat, hle⟩ := lineAt_of_mem_strtok hend hline
  exact ⟨i, line, hat, hle, hfield⟩

-- ============================================================================
-- The first blank line
-- ============================================================================

/-- An offset found in the string is the one found in the block. -/
theorem find_of_strstr {buffer needle : Bytes} {i : Nat} (h : strstr buffer needle = some i) :
    Search.find needle buffer = some i := by
  obtain ⟨t, ht⟩ := cstr_isPrefix buffer
  have happ := Search.find_append_of_some h t
  rwa [ht] at happ

/-- CRLFCRLF and LFLF cannot start at one offset. -/
theorem crlfcrlf_ne_lflf {buffer : Bytes} {i j : Nat}
    (hi : Search.find crlfcrlf buffer = some i) (hj : Search.find lflf buffer = some j) :
    i ≠ j := by
  rintro rfl
  have h1 := Search.occursAt_iff_getElem?.mp (Search.find_eq_some_iff.mp hi).2.1 0 (by decide)
  have h2 := Search.occursAt_iff_getElem?.mp (Search.find_eq_some_iff.mp hj).2.1 0 (by decide)
  rw [h1] at h2
  exact absurd h2 (by decide)

/-- A CRLFCRLF that starts before an LFLF ends before it does. -/
theorem crlfcrlf_before_lflf {buffer : Bytes} {i j : Nat}
    (hi : Search.find crlfcrlf buffer = some i) (hj : Search.find lflf buffer = some j)
    (hlt : i < j) : i + 4 ≤ j + 2 := by
  have h2 := Search.occursAt_iff_getElem?.mp (Search.find_eq_some_iff.mp hi).2.1 2 (by decide)
  have hlf := Search.occursAt_iff_getElem?.mp (Search.find_eq_some_iff.mp hj).2.1
  have hcr : crlfcrlf[2]? = some CR := rfl
  rw [hcr] at h2
  by_contra hgt
  have hj' : j + 0 = i + 2 ∨ j + 1 = i + 2 := by omega
  rcases hj' with h | h
  · have hl := hlf 0 (by decide)
    rw [h, h2] at hl
    exact absurd hl (by decide)
  · have hl := hlf 1 (by decide)
    rw [h, h2] at hl
    exact absurd hl (by decide)

/-- Where no CRLFCRLF stands behind an LFLF, the head ends at the first blank
    line. -/
theorem firstBlankLine_of_chosen {buffer : Bytes} {e n : Nat}
    (hend : endOfHeaders buffer = some (e, n)) (h : FirstBlankLineChosen buffer) :
    firstBlankLine buffer = some (e, n) := by
  obtain ⟨rfl, hcr⟩ | ⟨rfl, hcr, hlf⟩ := endOfHeaders_cases hend
  · have hfind := find_of_strstr hcr
    unfold firstBlankLine
    rw [hfind]
    cases hlf : Search.find lflf buffer with
    | none => rfl
    | some j =>
        dsimp only
        refine if_pos ?_
        by_contra hge
        have hbound := Search.find_le_length hcr
        have hstr : Search.find lflf (cstr buffer) = some j := by
          obtain ⟨t, ht⟩ := cstr_isPrefix buffer
          refine Search.find_of_append (m := t) (by rw [ht]; exact hlf) ?_
          have h4 : crlfcrlf.length = 4 := rfl
          have h2 : lflf.length = 2 := rfl
          omega
        exact hge (h e hcr j hstr)
  · have hfind := find_of_strstr hlf
    unfold firstBlankLine
    rw [hfind]
    cases hcr' : Search.find crlfcrlf buffer with
    | none => rfl
    | some i =>
        dsimp only
        refine if_neg fun hlt => ?_
        obtain ⟨t, ht⟩ := cstr_isPrefix buffer
        have hbound := Search.find_le_length hlf
        have h2 : lflf.length = 2 := rfl
        have hsep := crlfcrlf_before_lflf hcr' hfind hlt
        have h4 : crlfcrlf.length = 4 := rfl
        have hstr : Search.find crlfcrlf (cstr buffer) = some i :=
          Search.find_of_append (m := t) (by rw [ht]; exact hcr') (by omega)
        unfold strstr at hcr
        rw [hstr] at hcr
        simp at hcr

/-- Where one does, the body begins elsewhere. -/
theorem firstBlankLine_of_not_chosen {buffer : Bytes} (h : ¬ FirstBlankLineChosen buffer) :
    ∃ i j, endOfHeaders buffer = some (i, 4) ∧ firstBlankLine buffer = some (j, 2) ∧
      j < i := by
  simp only [FirstBlankLineChosen, not_forall, Option.mem_def] at h
  obtain ⟨i, hcr, j, hlf, hge⟩ := h
  have hi := find_of_strstr hcr
  have hj := find_of_strstr hlf
  have hne := crlfcrlf_ne_lflf hi hj
  refine ⟨i, j, ?_, ?_, by omega⟩
  · simp only [endOfHeaders, hcr]
  · simp only [firstBlankLine, hi, hj, if_neg hge]

-- ============================================================================
-- Confinement
-- ============================================================================

/-- In an accepted request the headers are confined to the text before the
    first blank line, and the body begins right behind it, exactly when no
    CRLFCRLF stands behind an LFLF. -/
theorem headersConfined_iff {conn conn' : Conn} {buffer : Bytes} {received maxBodySize : Nat}
    {timeoutMs : Int} {req : ParsedRequest}
    (h : parseRequest conn buffer received maxBodySize timeoutMs = (.ok, req, conn')) :
    HeadersConfined buffer req ↔ FirstBlankLineChosen buffer := by
  obtain ⟨method, path, m, r, e, n, headers, -, -, hend, hbody, hcode, hheaders, rfl⟩ :=
    parseRequest_ok h
  have hoffset := (readFullBody_ok hend hbody hcode).2
  constructor
  · intro hconf
    by_contra hnot
    obtain ⟨i, j, hend', hblank, hlt⟩ := firstBlankLine_of_not_chosen hnot
    obtain ⟨p, k, hp, hoff⟩ := hconf.body
    rw [hblank] at hp
    rw [hend'] at hend
    obtain ⟨rfl, rfl⟩ : j = p ∧ 2 = k := by simpa using hp
    obtain ⟨rfl, rfl⟩ : i = e ∧ 4 = n := by simpa using hend
    simp only [assembled, splitTarget_body, hoffset, Option.some.injEq] at hoff
    omega
  · intro hchosen
    have hblank := firstBlankLine_of_chosen hend hchosen
    refine ⟨fun field hfield => ?_, fun cookie hcookie => ?_, ⟨e, n, hblank, ?_⟩⟩
    · have hmem : field ∈ headers := by simpa [assembled] using hfield
      obtain ⟨i, line, hat, hle, hf⟩ := lineAt_of_mem_headers hend hheaders hmem
      exact ⟨e, n, i, line, hblank, hat, hle, hf⟩
    · have hmem : cookie ∈ lastCookies headers [] := by simpa [assembled] using hcookie
      obtain hnil | ⟨field, hfield, hname, hcookie⟩ := mem_lastCookies hmem
      · exact absurd hnil (List.not_mem_nil)
      · obtain ⟨i, line, hat, hle, hf⟩ := lineAt_of_mem_headers hend hheaders hfield
        exact ⟨e, n, i, line, field, hblank, hat, hle, hf, hname, hcookie⟩
    · simpa [assembled] using hoffset

/-- A request whose head ends in LFLF and whose body holds no CRLFCRLF. -/
def lfRequest : Bytes := ascii "POST / HTTP/1.1\nContent-Length: 2\n\nhi"

theorem headersConfined_lfRequest :
    HeadersConfined lfRequest
      (parseRequest (.opened [] (fun _ => 0) fun _ => {}) lfRequest 38 100 1000).2.1 :=
  (headersConfined_iff (Prod.ext (by decide +kernel) rfl)).mpr (by decide +kernel)

/-- A request that ends in LFLF, and behind it a line and a CRLFCRLF. -/
def smuggledHeader : Bytes := ascii "GET / HTTP/1.1\nHost: x\n\nX-Admin: true\r\n\r\n"

/-- The line behind the first blank line is taken for a header. -/
theorem not_headersConfined :
    ¬ ∀ (conn conn' : Conn) (buffer : Bytes) (received maxBodySize : Nat) (timeoutMs : Int)
        (req : ParsedRequest),
      parseRequest conn buffer received maxBodySize timeoutMs = (.ok, req, conn') →
        HeadersConfined buffer req := by
  intro h
  obtain ⟨p, n, hblank, hoffset⟩ := (h (.opened [] (fun _ => 0) fun _ => {}) _ smuggledHeader
    smuggledHeader.length 100 1000 _ (Prod.ext (by decide +kernel) rfl)).body
  have hfirst : firstBlankLine smuggledHeader = some (22, 2) := by decide +kernel
  have hbody : (parseRequest (.opened [] (fun _ => 0) fun _ => {}) smuggledHeader
      smuggledHeader.length 100 1000).2.1.body.offset = some 41 := by decide +kernel
  obtain ⟨rfl, rfl⟩ : 22 = p ∧ 2 = n := by simpa [hfirst] using hblank
  rw [hbody] at hoffset
  simp at hoffset

end Mnet
