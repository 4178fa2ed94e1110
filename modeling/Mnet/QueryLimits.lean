/-
  Mnet.QueryLimits

  Over-limit query strings.

  `parse_query_string` fails on a name or value over its cap among the first
  sixteen parameters and looks at no further ones; `parse_request` does not
  look at its result.  A request that is acceptable otherwise is therefore
  accepted, with fewer parameters than it was sent with.
-/

import Mnet.QueryStrings

namespace Mnet

-- ============================================================================
-- The target and its query
-- ============================================================================

/-- The target of the request line as it was sent. -/
def targetSent (buffer : Bytes) : Option Bytes := (words (cstr buffer))[1]?

/-- The text behind the first `?` of the target. -/
def querySent (buffer : Bytes) : Option Bytes :=
  (targetSent buffer).bind fun target =>
    if QUERY_MARK ∈ target then some (splitFirst QUERY_MARK target).2 else none

/-- More than 16 parameters, or one with a name or value over 1024 bytes. -/
def OverLimit (qs : Bytes) : Prop :=
  16 < (queryParams qs).length ∨ ∃ param ∈ queryParams qs, OverCap param

/-- A request nothing but its query may be held against. -/
structure OtherwiseAcceptable (conn : Conn) (buffer : Bytes) (received maxBodySize : Nat)
    (timeoutMs : Int) : Prop where
  requestLine : (parseRawRequest buffer).1 = true
  method : (mnetParseMethod (parseRawRequest buffer).2.1).isSome = true
  body : (readFullBody conn buffer received maxBodySize timeoutMs).1.code = 0
  headers : ∀ sep ∈ endOfHeaders buffer, (parseHeaders (buffer.take sep.1)).isSome = true

theorem length_of_mnetParseMethod {method : Bytes} {m : HttpMethod}
    (h : mnetParseMethod method = some m) : method.length ≤ 7 := by
  unfold mnetParseMethod at h
  repeat' split at h
  all_goals first
    | (next heq => rw [heq]; decide)
    | exact absurd h (by simp)

/-- A short method is a word of its own, and the path is cut from the next. -/
theorem scanned_of_short {ws : List Bytes} {method path : Bytes}
    (h : scanned ws = (true, method, path)) (hshort : method.length < 15) :
    ∃ target more, ws = method :: target :: more ∧ path = target.take 2047 := by
  cases ws with
  | nil => simp [scanned] at h
  | cons word more =>
      simp only [scanned] at h
      split at h
      · cases more with
        | nil => simp at h
        | cons target more =>
            obtain ⟨rfl, rfl⟩ : word = method ∧ target.take 2047 = path := by simpa using h
            exact ⟨target, more, rfl, rfl⟩
      · next hlong =>
        obtain ⟨rfl, -⟩ : word.take 15 = method ∧ _ = path := by simpa using h
        rw [List.length_take] at hshort
        omega

/-- The path read is the target sent, or what the field width leaves of it. -/
theorem path_eq_take_target {buffer method path : Bytes} {m : HttpMethod}
    (hraw : parseRawRequest buffer = (true, method, path)) (hm : mnetParseMethod method = some m) :
    ∃ target, targetSent buffer = some target ∧ path = target.take 2047 := by
  obtain ⟨e, n, hend⟩ := endOfHeaders_of_parseRawRequest hraw
  have hshort := length_of_mnetParseMethod hm
  rw [parseRawRequest_eq hend] at hraw
  split at hraw
  · obtain ⟨target, more, hwords, hpath⟩ := scanned_of_short hraw (by omega)
    exact ⟨target, by rw [targetSent, hwords]; rfl, hpath⟩
  · simp at hraw

-- ============================================================================
-- What is stored of a query
-- ============================================================================

/-- The parameters `parse_query_string` stores where its failure stores none. -/
def storedParams (qs : Bytes) : List (Bytes × Bytes) :=
  if ∃ param ∈ (queryParams qs).take 16, OverCap param then []
  else ((queryParams qs).take 16).map decodedParam

/-- An over-limit query loses parameters. -/
theorem length_storedParams_lt {qs : Bytes} (h : OverLimit qs) :
    (storedParams qs).length < (queryParams qs).length := by
  unfold storedParams
  split
  · next hover =>
    obtain ⟨param, hparam, -⟩ := hover
    exact List.length_pos_of_mem (List.mem_of_mem_take hparam)
  · next hwithin =>
    rw [List.length_map, List.length_take]
    obtain hmany | ⟨param, hparam, hover⟩ := h
    · omega
    · by_contra hall
      have htake : (queryParams qs).take 16 = queryParams qs :=
        List.take_of_length_le (by omega)
      rw [htake] at hwithin
      exact hwithin ⟨param, hparam, hover⟩

theorem assembled_query (method path : Bytes) (m : HttpMethod) (r : BodyResult)
    (headers : List (Bytes × Bytes)) (h0 : (0 : Byte) ∉ path) :
    (assembled method path m r headers).extras.query =
      if QUERY_MARK ∈ path then storedParams (splitFirst QUERY_MARK path).2 else [] := by
  have hquery0 : (0 : Byte) ∉ (splitFirst QUERY_MARK path).2 := fun h =>
    h0 (mem_of_mem_splitFirst (.inr h))
  simp only [assembled, splitTarget]
  rw [splitAtByte_eq h0]
  split
  · next pathOnly qs heq =>
    obtain ⟨-, hqs⟩ := Prod.mk.inj heq
    by_cases hmem : QUERY_MARK ∈ path
    · rw [if_pos hmem] at hqs ⊢
      obtain rfl := Option.some.inj hqs
      show (parseQueryString (splitFirst QUERY_MARK path).2).getD [] = _
      rw [parseQueryString_eq hquery0, storedParams]
      split
      · rfl
      · rfl
    · rw [if_neg hmem] at hqs
      simp at hqs
  · next pathOnly heq =>
    obtain ⟨-, hqs⟩ := Prod.mk.inj heq
    by_cases hmem : QUERY_MARK ∈ path
    · rw [if_pos hmem] at hqs
      simp at hqs
    · rw [if_neg hmem]

theorem noNul_targetSent {buffer target : Bytes} (h : targetSent buffer = some target) :
    (0 : Byte) ∉ target := by
  have hmem := List.mem_of_getElem? h
  unfold words at hmem
  rw [Tokens.tokens_eq_map_starts] at hmem
  obtain ⟨i, -, rfl⟩ := List.mem_map.mp hmem
  intro hzero
  exact noNul_cstr buffer (List.mem_of_mem_drop ((Tokens.runAt_isPrefix _ _ _).subset hzero))

-- ============================================================================
-- Over-limit queries are accepted
-- ============================================================================

/-- A request with nothing but its query against it is accepted, and has of its
    query what is stored. -/
theorem OtherwiseAcceptable.parseRequest_ok {conn : Conn} {buffer : Bytes}
    {received maxBodySize : Nat} {timeoutMs : Int}
    (h : OtherwiseAcceptable conn buffer received maxBodySize timeoutMs) :
    ∃ req conn' target, parseRequest conn buffer received maxBodySize timeoutMs = (.ok, req, conn') ∧
      targetSent buffer = some target ∧
      (target.length ≤ 2047 → ∀ qs ∈ querySent buffer, req.extras.query = storedParams qs) := by
  obtain ⟨hline, hmethod, hbody, hheaders⟩ := h
  rcases hraw : parseRawRequest buffer with ⟨ok, method, path⟩
  rw [hraw] at hline hmethod
  obtain rfl : ok = true := hline
  obtain ⟨m, hm⟩ := Option.isSome_iff_exists.mp hmethod
  obtain ⟨e, n, hend⟩ := endOfHeaders_of_parseRawRequest hraw
  obtain ⟨headers, hhead⟩ := Option.isSome_iff_exists.mp (hheaders (e, n) hend)
  obtain ⟨target, htarget, hpath⟩ := path_eq_take_target hraw hm
  rcases hread : readFullBody conn buffer received maxBodySize timeoutMs with ⟨r, conn'⟩
  rw [hread] at hbody
  have hcode : r.code ≠ -1 ∧ r.code ≠ -2 ∧ r.code ≠ -3 ∧ r.code ≠ -4 := by
    rw [show r.code = 0 from hbody]
    decide
  refine ⟨assembled method path m r headers, conn', target,
    parseRequest_of_steps hraw hm hend hread hcode hhead, htarget, fun hfits qs hqs => ?_⟩
  rw [List.take_of_length_le hfits] at hpath
  subst hpath
  rw [assembled_query _ _ _ _ _ (noNul_targetSent htarget)]
  rw [querySent, htarget, Option.bind_some] at hqs
  split at hqs
  · next hmem =>
    obtain rfl := Option.some.inj hqs
    rw [if_pos hmem]
  · exact absurd hqs (by simp)

/-- Every otherwise acceptable request with an over-limit query is accepted,
    and its handler finds fewer parameters than were sent. -/
theorem parseRequest_overLimit {conn : Conn} {buffer qs : Bytes} {received maxBodySize : Nat}
    {timeoutMs : Int} (hacc : OtherwiseAcceptable conn buffer received maxBodySize timeoutMs)
    (hquery : querySent buffer = some qs) (hover : OverLimit qs) :
    (parseRequest conn buffer received maxBodySize timeoutMs).1 = .ok ∧
      ((∀ target ∈ targetSent buffer, target.length ≤ 2047) →
        (parseRequest conn buffer received maxBodySize timeoutMs).2.1.extras.query.length <
          (queryParams qs).length) := by
  obtain ⟨req, conn', target, hparse, htarget, hstored⟩ := hacc.parseRequest_ok
  rw [hparse]
  refine ⟨rfl, fun hfits => ?_⟩
  show req.extras.query.length < _
  rw [hstored (hfits target htarget) qs hquery]
  exact length_storedParams_lt hover

/-- A request whose query is one name of 1025 bytes. -/
def longNameGet : Bytes :=
  ascii "GET /?" ++ List.replicate 1025 97 ++ ascii " HTTP/1.1\r\nHost: x\r\n\r\n"

theorem otherwiseAcceptable_longNameGet :
    OtherwiseAcceptable .quiet longNameGet longNameGet.length 100 1000 where
  requestLine := by decide +kernel
  method := by decide +kernel
  body := by decide +kernel
  headers := by decide +kernel

theorem querySent_longNameGet : querySent longNameGet = some (List.replicate 1025 97) := by
  decide +kernel

theorem overLimit_longName : OverLimit (List.replicate 1025 97) := by
  refine .inr ⟨(List.replicate 1025 97, []), by decide +kernel, .inl ?_⟩
  show 1024 < (List.replicate 1025 (97 : Byte)).length
  rw [List.length_replicate]
  omega

theorem parseRequest_longNameGet :
    (parseRequest .quiet longNameGet longNameGet.length 100 1000).1 = .ok ∧
      ((∀ target ∈ targetSent longNameGet, target.length ≤ 2047) →
        (parseRequest .quiet longNameGet longNameGet.length 100 1000).2.1.extras.query.length <
          (queryParams (List.replicate 1025 97)).length) :=
  parseRequest_overLimit otherwiseAcceptable_longNameGet querySent_longNameGet overLimit_longName

/-- The request is accepted without its parameter. -/
theorem not_overLimit_refused :
    ¬ ∀ (conn : Conn) (buffer qs : Bytes) (received maxBodySize : Nat) (timeoutMs : Int),
      OtherwiseAcceptable conn buffer received maxBodySize timeoutMs →
      querySent buffer = some qs → OverLimit qs →
      (parseRequest conn buffer received maxBodySize timeoutMs).1 ≠ .ok := by
  intro h
  obtain ⟨req, conn', target, hparse, -⟩ := otherwiseAcceptable_longNameGet.parseRequest_ok
  apply h .quiet longNameGet _ longNameGet.length 100 1000 otherwiseAcceptable_longNameGet
    querySent_longNameGet overLimit_longName
  rw [hparse]

end Mnet
