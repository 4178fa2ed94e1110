/-
  Mnet.UrlParsing

  `mnet_url_parse` against the parts of the URL.

  It refuses a URL without a host and no other: a host or path that is too long
  for its buffer is cut, and a port text that is no port number counts as none.
-/

import Mnet.Client

namespace Mnet

-- ============================================================================
-- The parts of a URL
-- ============================================================================

/-- The port text as it stands behind the host. -/
def portPart : Option Bytes → Bytes
  | none => []
  | some text => URL_COLON :: text

/-- A URL is an optional scheme, a host up to the first `:`, `/`, `?` or `#`,
    behind a colon the text up to the first `/`, `?` or `#`, and the path. -/
structure UrlText (url host : Bytes) (port : Option Bytes) (path : Bytes) : Prop where
  scheme : ∃ scheme, url = scheme ++ (host ++ (portPart port ++ path)) ∧
    (scheme = ascii "https://" ∨ scheme = ascii "http://" ∨
      (scheme = [] ∧ ¬ ascii "https://" <+: url ∧ ¬ ascii "http://" <+: url))
  host : ∀ b ∈ host, b ∉ ascii ":/?#"
  port : ∀ text ∈ port, ∀ b ∈ text, b ∉ ascii "/?#"
  path : ∀ b ∈ path.head?, b ∈ ascii "/?#"

/-- One to five decimal digits that write a number from 1 to 65535. -/
structure PortNumber (text : Bytes) (n : Nat) : Prop where
  length : 1 ≤ text.length ∧ text.length ≤ 5
  digits : ∀ b ∈ text, isDigit b = true
  value : n = text.foldl (fun n b => n * 10 + digitVal b) 0
  range : 1 ≤ n ∧ n ≤ 65535

/-- 80 where there is no port text, and else the number it writes. -/
def PortGiven (text : Bytes) (n : Nat) : Prop :=
  if text = [] then n = 80 else PortNumber text n

/-- What is stored are the whole host, the port and the whole path. -/
structure StoresParts (host : Bytes) (port : Option Bytes) (path : Bytes)
    (hostSize pathSize : Nat) (parts : UrlParts) : Prop where
  fits : host.length < hostSize ∧ path.length < pathSize
  host : parts.host = host
  path : parts.path = path
  port : PortGiven (port.getD []) parts.port

/-- If `mnet_url_parse` accepts the URL, it stores its parts. -/
def GoesWhereUrlSays (url : Bytes) (hostSize pathSize : Nat) : Prop :=
  ∀ host port path, UrlText url host port path →
    ∀ parts, mnetUrlParse url hostSize pathSize = some parts →
      StoresParts host port path hostSize pathSize parts

/-- The URL has no host, which is refused, or host and path fit their buffers
    and the port text, if any, is a port number. -/
def WellFormedUrl (url : Bytes) (hostSize pathSize : Nat) : Prop :=
  ∀ host port path, UrlText url host port path → host = [] ∨
    ((host.length < hostSize ∧ path.length < pathSize) ∧
      (port.getD [] = [] ∨ ∃ n, PortNumber (port.getD []) n))

theorem UrlText.skipScheme_eq {url host path : Bytes} {port : Option Bytes}
    (h : UrlText url host port path) : skipScheme url = host ++ (portPart port ++ path) := by
  obtain ⟨scheme, hurl, hscheme⟩ := h.scheme
  have hfront : scheme <+: url := ⟨_, hurl.symm⟩
  rw [skipScheme]
  rcases hscheme with rfl | rfl | ⟨rfl, hhttps, hhttp⟩
  · rw [if_pos (List.isPrefixOf_iff_prefix.mpr hfront), hurl]
    rfl
  · -- a URL with one scheme does not begin with the other
    have hnot : ¬ ascii "https://" <+: url := fun hhttps =>
      absurd (List.prefix_of_prefix_length_le hfront hhttps (by decide)) (by decide)
    rw [if_neg (mt List.isPrefixOf_iff_prefix.mp hnot),
      if_pos (List.isPrefixOf_iff_prefix.mpr hfront), hurl]
    rfl
  · rw [if_neg (mt List.isPrefixOf_iff_prefix.mp hhttps),
      if_neg (mt List.isPrefixOf_iff_prefix.mp hhttp)]
    exact hurl

theorem exists_scheme (url : Bytes) : ∃ scheme rest, url = scheme ++ rest ∧
    (scheme = ascii "https://" ∨ scheme = ascii "http://" ∨
      (scheme = [] ∧ ¬ ascii "https://" <+: url ∧ ¬ ascii "http://" <+: url)) := by
  by_cases hhttps : ascii "https://" <+: url
  · obtain ⟨rest, hrest⟩ := hhttps
    exact ⟨_, rest, hrest.symm, .inl rfl⟩
  · by_cases hhttp : ascii "http://" <+: url
    · obtain ⟨rest, hrest⟩ := hhttp
      exact ⟨_, rest, hrest.symm, .inr (.inl rfl)⟩
    · exact ⟨[], url, rfl, .inr (.inr ⟨rfl, hhttps, hhttp⟩)⟩

/-- A text is cut where a scan for a byte of a kind stops. -/
theorem exists_scan (stops : Byte → Bool) (s : Bytes) : ∃ front rest, s = front ++ rest ∧
    (∀ b ∈ front, ¬ stops b = true) ∧ ∀ b ∈ rest.head?, stops b = true := by
  refine ⟨s.takeWhile fun b => !stops b, s.dropWhile fun b => !stops b,
    List.takeWhile_append_dropWhile.symm, ?_, ?_⟩
  · intro b hb
    simpa using List.mem_takeWhile_imp hb
  · intro b hb
    have hstop := List.head?_dropWhile_not (fun b => !stops b) s
    rw [Option.mem_def.mp hb] at hstop
    simpa using hstop

/-- Every URL has parts. -/
theorem exists_urlText (url : Bytes) : ∃ host port path, UrlText url host port path := by
  obtain ⟨scheme, rest, hurl, hscheme⟩ := exists_scheme url
  obtain ⟨host, behind, rfl, hhost, hstop⟩ := exists_scan endsHost rest
  simp only [endsHost_iff] at hhost
  by_cases hcolon : behind.head? = some URL_COLON
  · obtain ⟨tail, rfl⟩ := List.head?_eq_some_iff.mp hcolon
    obtain ⟨text, path, rfl, htext, hpath⟩ := exists_scan endsPort tail
    simp only [endsPort_iff] at htext hpath
    refine ⟨host, some text, path, ⟨scheme, hurl, hscheme⟩, hhost, ?_, hpath⟩
    intro text' htext'
    obtain rfl := Option.some.inj htext'
    exact htext
  · refine ⟨host, none, behind, ⟨scheme, hurl, hscheme⟩, hhost, by simp, ?_⟩
    intro b hb
    have hne : b ≠ URL_COLON := by
      rintro rfl
      exact hcolon hb
    exact (endsPort_iff b).mp ((endsHost_iff_endsPort.mp (hstop b hb)).resolve_left hne)

-- ============================================================================
-- What is stored
-- ============================================================================

/-- The parser on a URL by its parts. -/
theorem UrlText.mnetUrlParse_eq {url host path : Bytes} {port : Option Bytes}
    (h : UrlText url host port path) (hostSize pathSize : Nat) :
    mnetUrlParse url hostSize pathSize =
      if host = [] then none
      else some
        { host := clipTo hostSize host
          port := if port.getD [] = [] then 80 else urlPort (port.getD [])
          path := clipTo pathSize path } := by
  have hhost : host.all (fun b => !endsHost b) = true := by
    rw [List.all_eq_true]
    intro b hb
    rw [Bool.not_eq_true', ← Bool.not_eq_true, endsHost_iff]
    exact h.host b hb
  have hpath : ∀ b ∈ path.head?, (!endsPort b) = false := by
    intro b hb
    rw [(endsPort_iff b).mpr (h.path b hb)]
    rfl
  have hbehind : ∀ b ∈ (portPart port ++ path).head?, (!endsHost b) = false := by
    intro b hb
    cases port with
    | none =>
        rw [endsHost_iff_endsPort.mpr (.inr ((endsPort_iff b).mpr (h.path b hb)))]
        rfl
    | some text =>
        obtain rfl : URL_COLON = b := Option.some.inj hb
        rfl
  obtain ⟨htake, hdrop⟩ := Tokens.takeWhile_dropWhile_append hhost hbehind
  have hrest : (skipScheme url).dropWhile (fun b => !endsHost b) = portPart port ++ path := by
    rw [h.skipScheme_eq, hdrop]
  have hurlHost : urlHost url = host := by
    rw [urlHost, h.skipScheme_eq, htake]
  rw [mnetUrlParse, urlPathStart]
  simp only [hrest, hurlHost]
  -- the second scan runs only behind a colon
  cases port with
  | none =>
      have hcolon : ¬ path.head? = some URL_COLON := by
        intro heq
        exact absurd (h.path _ heq) (by decide)
      simp only [portPart, List.nil_append, hcolon, false_and, if_false, Option.getD_none, if_true]
  | some text =>
      have htext : text.all (fun b => !endsPort b) = true := by
        rw [List.all_eq_true]
        intro b hb
        rw [Bool.not_eq_true', ← Bool.not_eq_true, endsPort_iff]
        exact h.port text rfl b hb
      obtain ⟨htextTake, htextDrop⟩ := Tokens.takeWhile_dropWhile_append htext hpath
      simp only [portPart, List.cons_append, List.head?_cons, List.tail_cons, true_and, if_true,
        htextTake, htextDrop, Option.getD_some, ne_eq, ite_not]

theorem PortNumber.urlPort_eq {text : Bytes} {n : Nat} (h : PortNumber text n) :
    urlPort text = n := by
  have hne : text ≠ [] := List.ne_nil_of_length_pos h.length.1
  have hread := @strtol_digits text [] hne h.digits (by simp)
  have hmin : min LONG_MAX (n : Int) = n := by
    have hrange := h.range
    have hmax : LONG_MAX = 2 ^ 63 - 1 := rfl
    exact Int.min_eq_right (by omega)
  rw [List.append_nil, ← h.value, hmin] at hread
  have hlen := h.length
  have hrange := h.range
  rw [urlPort, hread]
  show (if 0 < text.length ∧ text.length = text.length ∧ (0 : Int) < n ∧ (n : Int) < 65536 then
    (n : Int).toNat else 80) = n
  rw [if_pos ⟨by omega, rfl, by omega, by omega⟩, Int.toNat_natCast]

theorem clipTo_eq_self {size : Nat} {s : Bytes} (h : s.length < size) : clipTo size s = s :=
  List.take_of_length_le (by omega)

/-- `mnet_url_parse` goes where the URL says exactly for URLs without a host
    and well-formed ones. -/
theorem goesWhereUrlSays_iff (url : Bytes) (hostSize pathSize : Nat) :
    GoesWhereUrlSays url hostSize pathSize ↔ WellFormedUrl url hostSize pathSize := by
  constructor
  · intro hgoes host port path hurl
    by_cases hnil : host = []
    · exact .inl hnil
    · right
      have hparse := hurl.mnetUrlParse_eq hostSize pathSize
      rw [if_neg hnil] at hparse
      have hstores := hgoes host port path hurl _ hparse
      refine ⟨hstores.fits, ?_⟩
      have hport := hstores.port
      rw [PortGiven] at hport
      split at hport
      · next htext => exact .inl htext
      · exact .inr ⟨_, hport⟩
  · intro hwell host port path hurl parts hparse
    rw [hurl.mnetUrlParse_eq hostSize pathSize] at hparse
    split at hparse
    · simp at hparse
    · next hnil =>
      obtain rfl := Option.some.inj hparse
      obtain ⟨hfits, hport⟩ := (hwell host port path hurl).resolve_left hnil
      refine ⟨hfits, clipTo_eq_self hfits.1, clipTo_eq_self hfits.2, ?_⟩
      show PortGiven (port.getD []) (if port.getD [] = [] then 80 else urlPort (port.getD []))
      rw [PortGiven]
      split
      · rfl
      · next htext =>
        obtain ⟨n, hn⟩ := hport.resolve_left htext
        rwa [hn.urlPort_eq]

/-- With the buffers of `mnet_call`, a port that is out of range counts as none:
    the client connects to port 80. -/
theorem not_goesWhereUrlSays : ¬ ∀ url : Bytes, GoesWhereUrlSays url 1024 2048 := by
  intro h
  have hurl : UrlText (ascii "http://h:65536/") (ascii "h") (some (ascii "65536")) (ascii "/") :=
    { scheme := ⟨ascii "http://", by decide, .inr (.inl rfl)⟩
      host := by decide +kernel
      port := by
        intro text htext
        obtain rfl := Option.some.inj htext
        decide +kernel
      path := by decide +kernel }
  have hparse : mnetUrlParse (ascii "http://h:65536/") 1024 2048 =
      some ⟨ascii "h", 80, ascii "/"⟩ := by decide +kernel
  have hport := (h _ _ _ _ hurl _ hparse).port
  rw [PortGiven] at hport
  rw [if_neg (by decide)] at hport
  exact absurd hport.value (by decide)

end Mnet
