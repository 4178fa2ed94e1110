/-
  Mnet.ClientRequest

  What `parse_request` makes of the request `mnet_call` builds.

  Path and host are pasted in as the URL splitter left them.  The server gets
  the URL's path and query back exactly when the text pasted in is a request
  target, and the host when it can stand in a header line.
-/

import Mnet.Client
import Mnet.RequestLine
import Mnet.RequestRoundTrip

namespace Mnet

-- ============================================================================
-- What the URL means
-- ============================================================================

/-- What follows host and port: from the first `/`, `?` or `#` behind the
    scheme. -/
def urlRest (url : Bytes) : Bytes := (skipScheme url).dropWhile (· ∉ ascii "/?#")

/-- Path and query of a URL: what follows host and port up to the fragment. -/
def urlTarget (url : Bytes) : Bytes := (urlRest url).takeWhile (· ≠ HASH)

/-- The path to request: `/` for none, and a `/` before a query that follows
    the host. -/
def urlRequestPath (url : Bytes) : Bytes :=
  if (urlTarget url).head? = some URL_SLASH then urlTarget url else URL_SLASH :: urlTarget url

/-- The header fields of the client for a host. -/
def callFields (host : Bytes) : List (Bytes × Bytes) :=
  [(ascii "Host", host), (ascii "User-Agent", ascii "mnet/0.2.5"), (ascii "Accept", ascii "*/*"),
    (ascii "Connection", ascii "close")]

/-- The server accepts the request, and what it reads is what the URL says. -/
def ReadAsMeant (url : Bytes) (conn : Conn) (buffer : Bytes) (maxBodySize : Nat)
    (timeoutMs : Int) : Prop :=
  ∃ req conn', parseRequest conn buffer buffer.length maxBodySize timeoutMs = (.ok, req, conn') ∧
    (req.method = ascii "GET" ∧ req.methodEnum = some .get) ∧
    req.path = urlRequestPath url ∧
    req.extras.headers = callFields (urlHost url)

/-- A host that can stand in a header line and fits the client's buffer. -/
structure PlainHost (host : Bytes) : Prop where
  length : host.length ≤ 1023
  noBreak : CR ∉ host ∧ LF ∉ host
  noBlank : ∀ b ∈ host.head?, isBlank b = false

/-- A URL whose path and query are a request target as they are, that fits the
    client's buffer without its fragment. -/
structure PlainUrl (url : Bytes) : Prop where
  slash : (urlTarget url).head? = some URL_SLASH
  noSpace : ∀ b ∈ urlTarget url, isspace b = false
  length : (urlTarget url).length ≤ 2047
  fragment : HASH ∈ urlRest url → (urlTarget url).length = 2047
  host : PlainHost (urlHost url)

-- ============================================================================
-- The request as lines
-- ============================================================================

theorem wireField_callFields {host : Bytes} (hhost : PlainHost host) (h0 : (0 : Byte) ∉ host) :
    ∀ field ∈ callFields host, WireField field := by
  have hrest : ∀ field ∈ (callFields host).tail, WireField field := by
    show ∀ field ∈ [(ascii "User-Agent", ascii "mnet/0.2.5"), (ascii "Accept", ascii "*/*"),
      (ascii "Connection", ascii "close")], WireField field
    decide
  intro field hfield
  obtain rfl | hfield := List.mem_cons.mp hfield
  · have hlen : (ascii "Host" ++ ascii ": ").length = 6 := by decide
    have hname : mnetHeaderNameValid (ascii "Host") = true ∧
        strcaseeq (ascii "Host") (ascii "Transfer-Encoding") = false := by decide
    refine { name := hname.1, notTransferEncoding := hname.2, valueNoBreak := hhost.noBreak,
             valueNoNul := h0, valueNoBlank := hhost.noBlank, lineLength := ?_ }
    have hhostLen := hhost.length
    rw [renderField, List.length_append, hlen, MNET_MAX_HEADER_LINE]
    show 6 + host.length < _
    omega
  · exact hrest field hfield

/-- The GET request for a target and a host. -/
def wireCall (target host : Bytes) (hlen : 1 ≤ target.length ∧ target.length ≤ 2047)
    (hclean : ∀ b ∈ target, isspace b = false ∧ b ≠ 0) (hhost : PlainHost host)
    (h0 : (0 : Byte) ∉ host) : WireRequest where
  method := .get
  target := target
  headers := callFields host
  body := []
  targetLength := hlen
  targetClean := hclean
  headersCount := by
    show 1 ≤ 4 ∧ 4 ≤ MNET_MAX_HEADERS
    decide
  fields := wireField_callFields hhost h0
  framing := by
    have hnone : (callFields host).filter
        (fun field => strcaseeq field.1 (ascii "Content-Length")) = [] := by
      rw [List.filter_eq_nil_iff, callFields]
      simp only [List.forall_mem_cons]
      decide
    rw [hnone]
    rfl

/-- It is what the client formats. -/
theorem callText_eq_head {target host : Bytes} (hlen : 1 ≤ target.length ∧ target.length ≤ 2047)
    (hclean : ∀ b ∈ target, isspace b = false ∧ b ≠ 0) (hhost : PlainHost host)
    (h0 : (0 : Byte) ∉ host) :
    callText host target = (wireCall target host hlen hclean hhost h0).head := by
  have hget : ascii "GET " = HttpMethod.get.name ++ ascii " " := by decide
  have hhostName : ascii "Host: " = ascii "Host" ++ ascii ": " := by decide
  have hagent : ascii "User-Agent: mnet/0.2.5" =
      ascii "User-Agent" ++ ascii ": " ++ ascii "mnet/0.2.5" := by decide
  have haccept : ascii "Accept: */*" = ascii "Accept" ++ ascii ": " ++ ascii "*/*" := by decide
  have hconn : ascii "Connection: close" =
      ascii "Connection" ++ ascii ": " ++ ascii "close" := by decide
  simp only [callText, WireRequest.head, WireRequest.lines, WireRequest.requestLine, wireCall,
    callFields, List.map_cons, List.map_nil, renderLines_cons, renderLines_nil, renderField, hget,
    hhostName, hagent, haccept, hconn, List.append_assoc, List.append_nil]

-- ============================================================================
-- The path the server reads
-- ============================================================================

theorem exists_callText_eq (host path : Bytes) :
    ∃ rest, callText host path =
      ascii "GET" ++ SP :: (path ++ SP :: (ascii "HTTP/1.1" ++ CR :: rest)) := by
  have hget : ascii "GET " = ascii "GET" ++ [SP] := by decide
  have hversion : ascii " HTTP/1.1" = SP :: ascii "HTTP/1.1" := by decide
  refine ⟨LF :: (ascii "Host: " ++ (host ++ CR :: LF :: (ascii "User-Agent: mnet/0.2.5" ++
    CR :: LF :: (ascii "Accept: */*" ++ CR :: LF :: (ascii "Connection: close" ++
      [CR, LF, CR, LF]))))), ?_⟩
  rw [callText, hget, hversion]
  simp only [CRLF, List.append_assoc, List.cons_append, List.nil_append]

theorem noNul_callText {host path : Bytes} (hhost : (0 : Byte) ∉ host) (hpath : (0 : Byte) ∉ path) :
    (0 : Byte) ∉ callText host path := by
  have hfixed : (0 : Byte) ∉ ascii "GET " ∧ (0 : Byte) ∉ ascii " HTTP/1.1" ∧ (0 : Byte) ∉ CRLF ∧
      (0 : Byte) ∉ ascii "Host: " ∧ (0 : Byte) ∉ ascii "User-Agent: mnet/0.2.5" ∧
      (0 : Byte) ∉ ascii "Accept: */*" ∧ (0 : Byte) ∉ ascii "Connection: close" := by decide
  simp only [callText, List.mem_append, hfixed, hhost, hpath, or_self, not_false_eq_true]

theorem noSpace_of_all {text : Bytes} (h : (text.all fun b => !isspace b) = true) :
    ∀ b ∈ text, isspace b = false := by
  intro b hb
  simpa using List.all_eq_true.mp h b hb

/-- The words of the request from the path on. -/
theorem words_callText (host path : Bytes) :
    ∃ more, words (callText host path) =
      ascii "GET" :: (words path ++ ascii "HTTP/1.1" :: more) := by
  obtain ⟨rest, hrest⟩ := exists_callText_eq host path
  have hspace : isspace SP = true := by decide
  have hsp : ∀ s, ∀ d ∈ (SP :: s).head?, isspace d = true := by
    intro s d hd
    obtain rfl : SP = d := by simpa using hd
    exact hspace
  have hcr : ∀ d ∈ (CR :: rest).head?, isspace d = true := by
    intro d hd
    obtain rfl : CR = d := by simpa using hd
    decide
  have hget : words (ascii "GET" ++ SP :: (path ++ SP :: (ascii "HTTP/1.1" ++ CR :: rest))) =
      ascii "GET" :: words (path ++ SP :: (ascii "HTTP/1.1" ++ CR :: rest)) := by
    rw [words, Tokens.tokens_run_append (by decide) (noSpace_of_all (by decide)) (hsp _),
      Tokens.tokens_cons_delim hspace]
    rfl
  have hversion : words (SP :: (ascii "HTTP/1.1" ++ CR :: rest)) =
      ascii "HTTP/1.1" :: words (CR :: rest) := by
    rw [words, Tokens.tokens_cons_delim hspace,
      Tokens.tokens_run_append (by decide) (noSpace_of_all (by decide)) hcr]
    rfl
  exact ⟨words (CR :: rest), by rw [hrest, hget, words_append (hsp _), hversion]⟩

/-- The server's path is the first word of the path pasted in, if it has
    one. -/
theorem path_of_parseRequest {conn conn' : Conn} {host path : Bytes} {maxBodySize : Nat}
    {timeoutMs : Int} {req : ParsedRequest} (hhost : (0 : Byte) ∉ host) (hpath : (0 : Byte) ∉ path)
    (h : parseRequest conn (callText host path) (callText host path).length maxBodySize timeoutMs =
      (.ok, req, conn')) :
    req.path = ((words path).head?.getD (ascii "HTTP/1.1")).take 2047 := by
  obtain ⟨method, target, m, r, e, n, headers, hraw, -, hend, -, -, -, rfl⟩ := parseRequest_ok h
  rw [parseRawRequest_eq hend, cstr_of_noNul (noNul_callText hhost hpath)] at hraw
  obtain ⟨more, hwords⟩ := words_callText host path
  have hget : (ascii "GET").length ≤ 15 := by decide
  have hscanned : ∀ word more, scanned (ascii "GET" :: word :: more) =
      (true, ascii "GET", word.take 2047) := by
    intro word more
    simp only [scanned, if_pos hget]
  have htarget : target = ((words path).head?.getD (ascii "HTTP/1.1")).take 2047 := by
    rw [hwords] at hraw
    split at hraw
    · cases hpathWords : words path with
      | nil =>
          rw [hpathWords, List.nil_append, hscanned] at hraw
          exact (Prod.mk.inj (Prod.mk.inj hraw).2).2.symm
      | cons word words =>
          rw [hpathWords, List.cons_append, hscanned] at hraw
          exact (Prod.mk.inj (Prod.mk.inj hraw).2).2.symm
    · exact absurd (Prod.mk.inj hraw).1 Bool.false_ne_true
  rw [assembled, splitTarget_path, htarget]

-- ============================================================================
-- The URL
-- ============================================================================

/-- What is pasted in for the path is the target up to the client's limit, and
    possibly the fragment. -/
theorem exists_urlRest (url : Bytes) :
    ∃ rest, urlRest url = urlTarget url ++ rest ∧
      (HASH ∉ urlRest url → rest = []) ∧
      (HASH ∈ urlRest url → ∃ tail, rest = HASH :: tail) := by
  have hsplit : urlTarget url ++ (urlRest url).dropWhile (fun b => b ≠ HASH) =
      urlRest url := List.takeWhile_append_dropWhile
  refine ⟨_, hsplit.symm, fun hnot => ?_, fun hmem => ?_⟩
  · rw [List.dropWhile_eq_nil_iff]
    intro b hb
    simp only [ne_eq, decide_not, Bool.not_eq_true', decide_eq_false_iff_not]
    rintro rfl
    exact hnot hb
  · cases hrest : (urlRest url).dropWhile (fun b => b ≠ HASH) with
    | nil =>
        rw [List.dropWhile_eq_nil_iff] at hrest
        exact absurd (hrest HASH hmem) (by decide)
    | cons b tail =>
        have hb := List.head?_dropWhile_not (fun b => decide (b ≠ HASH)) (urlRest url)
        rw [hrest] at hb
        obtain rfl : b = HASH := by simpa using hb
        exact ⟨tail, rfl⟩

/-- A target that ends where the client's limit or the URL does is what is
    pasted in. -/
theorem clipTo_urlRest {url : Bytes} (hlen : (urlTarget url).length ≤ 2047)
    (hfragment : HASH ∈ urlRest url → (urlTarget url).length = 2047) :
    clipTo 2048 (urlRest url) = urlTarget url := by
  obtain ⟨rest, hsplit, hnone, -⟩ := exists_urlRest url
  rw [clipTo, hsplit]
  by_cases hmem : HASH ∈ urlRest url
  · exact List.take_left' (hfragment hmem)
  · rw [hnone hmem, List.append_nil]
    exact List.take_of_length_le hlen

theorem noNul_skipScheme {url : Bytes} (h0 : (0 : Byte) ∉ url) : (0 : Byte) ∉ skipScheme url := by
  intro h
  unfold skipScheme at h
  split at h
  · exact h0 (List.mem_of_mem_drop h)
  · split at h
    · exact h0 (List.mem_of_mem_drop h)
    · exact h0 h

theorem noNul_urlHost {url : Bytes} (h0 : (0 : Byte) ∉ url) : (0 : Byte) ∉ urlHost url :=
  fun h => noNul_skipScheme h0 ((List.takeWhile_prefix _).subset h)

theorem noNul_urlRest {url : Bytes} (h0 : (0 : Byte) ∉ url) : (0 : Byte) ∉ urlRest url :=
  fun h => noNul_skipScheme h0 ((List.dropWhile_suffix _).subset h)

/-- The parser finds it by two scans, the second one behind a colon. -/
theorem urlPathStart_eq (url : Bytes) : urlPathStart url = urlRest url := by
  have hscan : (fun b => !endsPort b) = (decide <| · ∉ ascii "/?#") := by
    funext b
    rw [Bool.eq_iff_iff, Bool.not_eq_true', ← Bool.not_eq_true, endsPort_iff, decide_eq_true_eq]
  rw [urlPathStart, urlRest, ← hscan]
  generalize skipScheme url = s
  induction s with
  | nil => rfl
  | cons b s ih =>
      by_cases hhost : endsHost b = true
      · obtain rfl | hport := endsHost_iff_endsPort.mp hhost
        · rfl
        · have hcolon : b ≠ URL_COLON := by
            rintro rfl
            exact absurd hport (by decide)
          simp [hhost, hport, hcolon]
      · have hport : ¬ endsPort b = true := fun h => hhost (endsHost_iff_endsPort.mpr (.inr h))
        simp only [List.dropWhile_cons, hhost, hport, Bool.not_false, if_true]
        exact ih

-- ============================================================================
-- What the server reads
-- ============================================================================

/-- It begins with a byte that is no white space. -/
theorem isspace_head?_urlRest (url : Bytes) : ∀ b ∈ (urlRest url).head?, isspace b = false := by
  intro b hb
  have hstop := List.head?_dropWhile_not (· ∉ ascii "/?#") (skipScheme url)
  rw [show (List.dropWhile _ (skipScheme url)).head? = some b from hb] at hstop
  have hends : b ∈ ascii "/?#" := by simpa using hstop
  have hall : ∀ b ∈ ascii "/?#", isspace b = false := by decide +kernel
  exact hall b hends

/-- When the server's path is the URL's, all but the host is plain. -/
theorem target_of_path {url : Bytes}
    (hpath : ((words (clipTo 2048 (urlRest url))).head?.getD (ascii "HTTP/1.1")).take 2047 =
      urlRequestPath url) :
    (urlTarget url).head? = some URL_SLASH ∧ (∀ b ∈ urlTarget url, isspace b = false) ∧
      (urlTarget url).length ≤ 2047 ∧
      (HASH ∈ urlRest url → (urlTarget url).length = 2047) := by
  have hslash : (urlRequestPath url).head? = some URL_SLASH := by
    unfold urlRequestPath
    split
    · next h => exact h
    · rfl
  cases hsent : clipTo 2048 (urlRest url) with
  | nil =>
      rw [hsent, show words [] = [] from Tokens.tokens_nil] at hpath
      rw [← hpath] at hslash
      exact absurd hslash (by decide)
  | cons b sent =>
      obtain ⟨more, hstart⟩ : ∃ more, urlRest url = b :: sent ++ more := by
        have hpre := List.take_prefix 2047 (urlRest url)
        rw [show (urlRest url).take 2047 = b :: sent from hsent] at hpre
        obtain ⟨more, hmore⟩ := hpre
        exact ⟨more, hmore.symm⟩
      have hb : isspace b = false := by
        apply isspace_head?_urlRest url
        rw [hstart]
        rfl
      have hlen : (b :: sent).length ≤ 2047 := by
        rw [← hsent, clipTo, List.length_take]
        omega
      have hword : (words (b :: sent)).head? =
          some ((b :: sent).takeWhile fun c => !isspace c) := by
        rw [words, Tokens.tokens_cons_run hb, List.takeWhile_cons, hb]
        rfl
      have hword_len := (List.takeWhile_prefix (fun c => !isspace c) (l := b :: sent)).length_le
      rw [hsent, hword, Option.getD_some, List.take_of_length_le (by omega)] at hpath
      have htarget : urlRequestPath url = urlTarget url := by
        unfold urlRequestPath
        rw [if_pos]
        rw [← hpath, List.takeWhile_cons, hb] at hslash
        obtain rfl : b = URL_SLASH := Option.some.inj hslash
        rw [urlTarget, hstart, List.cons_append, List.takeWhile_cons]
        rfl
      rw [htarget] at hpath hslash
      have htargetLen : (urlTarget url).length ≤ 2047 := by
        rw [← hpath]
        omega
      have hnoSpace : ∀ c ∈ urlTarget url, isspace c = false := by
        intro c hc
        rw [← hpath] at hc
        simpa using List.mem_takeWhile_imp hc
      refine ⟨hslash, hnoSpace, htargetLen, fun hmem => ?_⟩
      obtain ⟨rest, hsplit, -, hfragment⟩ := exists_urlRest url
      obtain ⟨tail, rfl⟩ := hfragment hmem
      by_contra hshort
      -- the first byte of the fragment would have been read too
      have hclip : b :: sent =
          urlTarget url ++ HASH :: tail.take (2046 - (urlTarget url).length) := by
        have hone : 2047 - (urlTarget url).length = 2046 - (urlTarget url).length + 1 := by omega
        rw [← hsent, clipTo, hsplit, List.take_append, List.take_of_length_le (by omega), hone,
          List.take_succ_cons]
      have hhash : isspace HASH = false := by decide
      rw [hclip, List.takeWhile_append_of_pos (by simpa using hnoSpace), List.takeWhile_cons,
        hhash] at hpath
      have hlens := congrArg List.length hpath
      simp only [Bool.not_false, if_true, List.length_append, List.length_cons] at hlens
      omega

/-- A stored header value is free of line ends and begins with no blank. -/
theorem value_of_mem_headers {buffer : Bytes} {e n : Nat}
    (hend : endOfHeaders buffer = some (e, n)) {headers : List (Bytes × Bytes)}
    (hheaders : parseHeaders (buffer.take e) = some headers) {field : Bytes × Bytes}
    (h : field ∈ headers) :
    (CR ∉ field.2 ∧ LF ∉ field.2) ∧ ∀ b ∈ field.2.head?, isBlank b = false := by
  obtain ⟨i, line, hline, -, hfield⟩ := lineAt_of_mem_headers hend hheaders h
  have hbreak : ∀ b ∈ line, isBreak b = false := by
    intro b hb
    rw [← hline.run] at hb
    exact Tokens.not_delim_of_mem_runAt hb
  unfold headerField at hfield
  cases hchr : strchr line 58 with
  | none => simp [hchr] at hfield
  | some colon =>
      simp only [hchr] at hfield
      split at hfield
      · obtain rfl := Option.some.inj hfield
        have hsub : ∀ b ∈ (line.drop (colon + 1)).dropWhile isBlank, isBreak b = false :=
          fun b hb => hbreak b (List.mem_of_mem_drop ((List.dropWhile_suffix _).subset hb))
        refine ⟨⟨fun hm => ?_, fun hm => ?_⟩, fun b hb => ?_⟩
        · exact absurd (hsub _ hm) (by decide)
        · exact absurd (hsub _ hm) (by decide)
        · have hhead := List.head?_dropWhile_not isBlank (line.drop (colon + 1))
          rw [Option.mem_def.mp hb] at hhead
          simpa using hhead
      · simp at hfield

/-- A request without a body is read as it was sent, whatever the
    connection. -/
theorem WireRequest.parseRequest_of_no_body (r : WireRequest) (hbody : r.body = []) (conn : Conn)
    (maxBodySize : Nat) (timeoutMs : Int) :
    ∃ req conn', parseRequest conn r.head r.head.length maxBodySize timeoutMs = (.ok, req, conn') ∧
      r.DecodedAs r.head req := by
  have hlen : r.body.length = 0 := by rw [hbody, List.length_nil]
  have hmax : r.body.length ≤ maxBodySize := by omega
  have hint : r.body.length < 2 ^ 32 := by omega
  have hexp : conn.NoExpiry (parseRequest conn (r.head ++ []) (r.head ++ []).length maxBodySize
      timeoutMs).2.2 := by
    have hcl := r.contentLength_head [] hmax hint
    rw [hlen] at hcl
    rw [parseRequest_conn (r.parseRawRequest_head []) (WireRequest.mnetParseMethod_name _), readFullBody,
      r.endOfHeaders_head]
    dsimp only
    rw [hcl]
    simp [Conn.NoExpiry]
  have hbytes : [] ++ conn.stream = r.body ++ conn.stream := by rw [hbody]
  have hdel : conn.Delivers (r.body.length - ([] : Bytes).length) := by
    rw [hlen]
    exact delivers_zero _
  obtain ⟨req, conn', hparse, hdecoded, -⟩ := r.parseRequest_render hbytes hmax hint hdel hexp
  rw [List.append_nil] at hparse hdecoded
  exact ⟨req, conn', hparse, hdecoded⟩

/-- The request for a target and a host is read as such. -/
theorem parseRequest_callText {target host : Bytes}
    (hslash : target.head? = some URL_SLASH) (hnoSpace : ∀ b ∈ target, isspace b = false)
    (hlen : target.length ≤ 2047) (htarget0 : (0 : Byte) ∉ target) (hhost : PlainHost host)
    (h0 : (0 : Byte) ∉ host) (conn : Conn) (maxBodySize : Nat) (timeoutMs : Int) :
    ∃ req conn', parseRequest conn (callText host target) (callText host target).length maxBodySize
        timeoutMs = (.ok, req, conn') ∧
      (req.method = ascii "GET" ∧ req.methodEnum = some .get) ∧ req.path = target ∧
      req.extras.headers = callFields host := by
  have hpos : 1 ≤ target.length := by
    cases target with
    | nil => exact absurd hslash (by simp)
    | cons b target => exact Nat.succ_le_succ (Nat.zero_le _)
  have hclean : ∀ b ∈ target, isspace b = false ∧ b ≠ 0 :=
    fun b hb => ⟨hnoSpace b hb, fun h => htarget0 (h ▸ hb)⟩
  let r := wireCall target host ⟨hpos, hlen⟩ hclean hhost h0
  have hhead : callText host target = r.head := callText_eq_head ..
  obtain ⟨req, conn', hparse, hdecoded⟩ := r.parseRequest_of_no_body rfl conn maxBodySize timeoutMs
  rw [← hhead] at hparse
  exact ⟨req, conn', hparse, hdecoded.method, hdecoded.path, hdecoded.headers⟩

/-- A request is read as meant only where the URL is plain. -/
theorem plainUrl_of_readAsMeant {url : Bytes} (h0 : (0 : Byte) ∉ url) {conn : Conn}
    {maxBodySize : Nat} {timeoutMs : Int}
    (h : ReadAsMeant url conn
      (callText (clipTo 1024 (urlHost url)) (clipTo 2048 (urlRest url))) maxBodySize timeoutMs) :
    PlainUrl url := by
  obtain ⟨req, conn', hparse, -, hpath, hheaders⟩ := h
  have hhost0 : (0 : Byte) ∉ clipTo 1024 (urlHost url) :=
    fun h => noNul_urlHost h0 (List.mem_of_mem_take h)
  have hpath0 : (0 : Byte) ∉ clipTo 2048 (urlRest url) :=
    fun h => noNul_urlRest h0 (List.mem_of_mem_take h)
  rw [path_of_parseRequest hhost0 hpath0 hparse] at hpath
  obtain ⟨hslash, hnoSpace, hlen, hfragment⟩ := target_of_path hpath
  obtain ⟨method, target, m, r, e, n, headers, -, -, hend, -, -, hstored, hreq⟩ :=
    parseRequest_ok hparse
  have hlist : headers = callFields (urlHost url) := by
    rw [← hheaders, hreq, assembled, splitTarget_headers]
  -- the whole host is in the list, so it has the form of a value
  have hhost : (ascii "Host", urlHost url) ∈ headers := by
    rw [hlist]
    exact List.mem_cons_self ..
  obtain ⟨hbreak, hblank⟩ := value_of_mem_headers hend hstored hhost
  have hclipped : PlainHost (clipTo 1024 (urlHost url)) :=
    { length := by
        rw [clipTo, List.length_take]
        omega
      noBreak := ⟨fun h => hbreak.1 (List.mem_of_mem_take h),
        fun h => hbreak.2 (List.mem_of_mem_take h)⟩
      noBlank := by
        intro b hb
        apply hblank b
        rw [clipTo, List.head?_take, if_neg (by decide)] at hb
        exact hb }
  -- and what is read for the clipped host is the clipped host
  rw [clipTo_urlRest hlen hfragment] at hparse hpath0
  obtain ⟨req', conn'', hparse', -, -, hheaders'⟩ :=
    parseRequest_callText hslash hnoSpace hlen hpath0 hclipped hhost0 conn maxBodySize timeoutMs
  rw [hparse] at hparse'
  obtain rfl : req = req' := (Prod.mk.inj (Prod.mk.inj hparse').2).1
  rw [hheaders] at hheaders'
  have hsame : urlHost url = clipTo 1024 (urlHost url) :=
    (Prod.mk.inj (List.cons.inj hheaders').1).2
  rw [← hsame] at hclipped
  exact ⟨hslash, hnoSpace, hlen, hfragment, hclipped⟩

/-- The server reads the client's request as the URL means it exactly when the
    URL is plain. -/
theorem callRequest_readAsMeant_iff {url buffer : Bytes} (h0 : (0 : Byte) ∉ url)
    (hcall : callRequest url = some buffer) (conn : Conn) (maxBodySize : Nat) (timeoutMs : Int) :
    ReadAsMeant url conn buffer maxBodySize timeoutMs ↔ PlainUrl url := by
  have hbuffer : buffer =
      callText (clipTo 1024 (urlHost url)) (clipTo 2048 (urlRest url)) := by
    unfold callRequest mnetUrlParse at hcall
    dsimp only at hcall
    split at hcall
    · simp at hcall
    · next parts hparts =>
      split at hparts
      · simp at hparts
      · obtain rfl := Option.some.inj hparts
        dsimp only at hcall
        split at hcall
        · simp at hcall
        · rw [← urlPathStart_eq]
          exact (Option.some.inj hcall).symm
  rw [hbuffer]
  constructor
  · exact plainUrl_of_readAsMeant h0
  · intro hplain
    have htarget0 : (0 : Byte) ∉ urlTarget url :=
      fun h => noNul_urlRest h0 ((List.takeWhile_prefix _).subset h)
    have hhost : clipTo 1024 (urlHost url) = urlHost url :=
      List.take_of_length_le hplain.host.length
    have hpath : urlRequestPath url = urlTarget url := if_pos hplain.slash
    rw [clipTo_urlRest hplain.length hplain.fragment, hhost, ReadAsMeant, hpath]
    exact parseRequest_callText hplain.slash hplain.noSpace hplain.length htarget0 hplain.host
      (noNul_urlHost h0) conn maxBodySize timeoutMs

/-- A URL with every part. -/
def fullUrl : Bytes := ascii "http://example.com:8080/a/b?c=d"

theorem callRequest_readAsMeant_fullUrl :
    ReadAsMeant fullUrl (.opened [] (fun _ => 0) fun _ => {})
      (callText (ascii "example.com") (ascii "/a/b?c=d")) 100 1000 ↔ PlainUrl fullUrl :=
  callRequest_readAsMeant_iff (by decide +kernel) (by decide +kernel) _ 100 1000

/-- A URL without a path. -/
def hostUrl : Bytes := ascii "http://example.com"

/-- No slash is put in for a URL without a path. -/
theorem not_callRequest_readAsMeant :
    ¬ ∀ (url buffer : Bytes), (0 : Byte) ∉ url → callRequest url = some buffer →
      ∀ (conn : Conn) (maxBodySize : Nat) (timeoutMs : Int),
        ReadAsMeant url conn buffer maxBodySize timeoutMs := by
  intro h
  have hmeant := h hostUrl (callText (ascii "example.com") []) (by decide +kernel) (by decide +kernel)
    (.opened [] (fun _ => 0) fun _ => {}) 100 1000
  have hclip : callText (ascii "example.com") [] =
      callText (clipTo 1024 (urlHost hostUrl)) (clipTo 2048 (urlRest hostUrl)) := by
    decide +kernel
  rw [hclip] at hmeant
  have hslash := (plainUrl_of_readAsMeant (by decide +kernel) hmeant).slash
  exact absurd hslash (by decide +kernel)

end Mnet
