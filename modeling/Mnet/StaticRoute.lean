/-
  Mnet.StaticRoute

  The route `mnet_static` registers, and the text its handler works on.

  The matcher reads the pattern `url_prefix/*`, in which `:` and `*` are special
  and which is clipped to 2047 bytes; the handler skips `strlen(url_prefix)`
  bytes of the request path, whatever the matcher took for them.  The two agree
  for a prefix that has neither of the special bytes and is not clipped.
-/

import Mnet.RouteMeaning
import Mnet.StaticFiles
import Mnet.UrlDecoding

namespace Mnet

-- ============================================================================
-- Registration
-- ============================================================================

/-- The pattern `snprintf(pattern, 2048, "%s/*", url_prefix)` leaves. -/
def staticPattern (urlPrefix : Bytes) : Bytes := clipTo 2048 (urlPrefix ++ ascii "/*")

/-- The route `mnet_static` stores; it has no array of parameter names. -/
def staticRoute (fs : FileSystem) (urlPrefix fsPath : Bytes) : MnetRoute where
  method := .get
  path := staticPattern urlPrefix
  handler _ req := (staticHandler fs (some ⟨urlPrefix, fsPath⟩) req).response

/-- `mnet_static`. -/
def mnetStatic (fs : FileSystem) (app : MnetApp) (urlPrefix fsPath : Bytes) : MnetApp :=
  { app with routes := app.routes ++ [staticRoute fs urlPrefix fsPath] }

/-- `mnet_route_match` as `mnet_find_route` calls it. -/
def matchRoute (route : MnetRoute) (path : Bytes) : RouteMatch :=
  mnetRouteMatch route path (List.replicate MNET_MAX_PARAMS .null) MNET_MAX_PARAMS

/-- The text captured for the `*` at the end of a pattern: the last one. -/
def starText (route : MnetRoute) (path : Bytes) : Option Bytes :=
  match (matchRoute route path).count with
  | some (n + 1) =>
      match (matchRoute route path).values[n]? with
      | some (.live text) => some text
      | _ => none
  | _ => none

/-- The handler skips no more than there is and works on the text captured for
    the `*`, and every path of the prefix, a slash and something more is
    matched. -/
structure ServesCapture (route : MnetRoute) (urlPrefix : Bytes) : Prop where
  captured : ∀ path, (0 : Byte) ∉ path → (matchRoute route path).count.isSome →
    urlPrefix.length ≤ path.length ∧ starText route path = some (relativePath urlPrefix path)
  matched : ∀ rest, rest ≠ [] → (0 : Byte) ∉ rest →
    (matchRoute route (urlPrefix ++ SLASH :: rest)).count.isSome

-- ============================================================================
-- What is captured
-- ============================================================================

theorem matchRoute_count_isSome (route : MnetRoute) (path : Bytes) :
    (matchRoute route path).count.isSome = (routeCaptures route.path path).2 := by
  rw [matchRoute, mnetRouteMatch_count]
  cases (routeCaptures route.path path).2 <;> rfl

theorem starText_eq_some_iff {route : MnetRoute} {path text : Bytes} :
    starText route path = some text ↔ (routeCaptures route.path path).2 = true ∧
      ∃ front c, (routeCaptures route.path path).1 = front ++ [c] ∧
        front.length < MNET_MAX_PARAMS ∧ c.value = text := by
  rw [starText, matchRoute, mnetRouteMatch_eq]
  rcases hroute : routeCaptures route.path path with ⟨cs, ok⟩
  cases ok with
  | false => simp [routeMismatch]
  | true =>
      rcases List.eq_nil_or_concat cs with rfl | ⟨front, c, rfl⟩
      · simp
      · have hlen : (front.concat c).length = front.length + 1 := List.length_concat
        simp only [if_true, hlen, true_and]
        by_cases hslot : front.length < MNET_MAX_PARAMS
        · have hstored : (storeCaptures MNET_MAX_PARAMS 0
              (List.replicate MNET_MAX_PARAMS .null) (front.concat c))[front.length]? =
              some (.live c.value) := by
            have hc : (front.concat c)[front.length]? = some c := by
              rw [List.concat_eq_append, List.getElem?_concat_length]
            have h := @storeCaptures_getElem? MNET_MAX_PARAMS 0 front.length
              (List.replicate MNET_MAX_PARAMS .null) _ _ hc (by omega)
              (by rw [List.length_replicate]; omega)
            rwa [Nat.zero_add] at h
          rw [hstored]
          simp only [Option.some.injEq, List.concat_eq_append]
          constructor
          · rintro rfl
            exact ⟨front, c, rfl, hslot, rfl⟩
          · rintro ⟨front', c', heq, -, rfl⟩
            obtain ⟨-, hc⟩ := List.append_inj' heq rfl
            rw [List.singleton_inj.mp hc]
        · have hnone : (storeCaptures MNET_MAX_PARAMS 0
              (List.replicate MNET_MAX_PARAMS .null) (front.concat c))[front.length]? = none := by
            rw [storeCaptures_frame _ _ (.inr (Nat.le_of_not_lt hslot)),
              List.getElem?_eq_none (by rw [List.length_replicate]; omega)]
          rw [hnone]
          refine iff_of_false (by simp) ?_
          rintro ⟨front', c', heq, hlt, -⟩
          rw [List.concat_eq_append] at heq
          obtain ⟨rfl, -⟩ := List.append_inj' heq rfl
          exact hslot hlt

theorem routeCaptures_eq {pattern path : Bytes} (hpattern : pattern.head? = some SLASH)
    (hpath : path.head? = some SLASH) : routeCaptures pattern path = captures pattern path :=
  if_neg (by simp [hpattern, hpath])

theorem head?_of_routeCaptures {pattern path : Bytes} (h : (routeCaptures pattern path).2 = true) :
    pattern.head? = some SLASH ∧ path.head? = some SLASH := by
  by_contra hhead
  rw [routeCaptures, if_pos (not_and_or.mp hhead)] at h
  exact Bool.false_ne_true h

-- ============================================================================
-- Plain prefixes
-- ============================================================================

theorem ascii_slash_star : ascii "/*" = [SLASH, STAR] := by decide

theorem staticPattern_of_le {urlPrefix : Bytes} (h : urlPrefix.length ≤ 2045) :
    staticPattern urlPrefix = (urlPrefix ++ [SLASH]) ++ [STAR] := by
  rw [staticPattern, clipTo, ascii_slash_star, List.take_of_length_le, List.append_assoc]
  · rfl
  · rw [List.length_append]
    show urlPrefix.length + 2 ≤ 2047
    omega

/-- A path the route of a plain prefix matches, and its capture. -/
theorem captures_staticPattern {urlPrefix : Bytes} (hplain : ∀ b ∈ urlPrefix, Plain b)
    (hlen : urlPrefix.length ≤ 2045) (path : Bytes) :
    captures (staticPattern urlPrefix) path =
      if urlPrefix ++ [SLASH] <+: path then
        captures [STAR] (path.drop (urlPrefix.length + 1)) else ([], false) := by
  have hplain' : ∀ b ∈ urlPrefix ++ [SLASH], Plain b := by
    intro b hb
    rcases List.mem_append.mp hb with hb | hb
    · exact hplain b hb
    · rw [List.mem_singleton.mp hb]
      decide
  rw [staticPattern_of_le hlen, captures_plain hplain', List.length_append, List.length_singleton]

/-- The wildcard takes what is left, and leaves nothing for a byte behind it. -/
theorem captures_star_ok {rest path : Bytes} (h : (captures (STAR :: rest) path).2 = true) :
    rest = [] ∧ (captures (STAR :: rest) path).1 = [⟨[STAR], path⟩] := by
  have hne : path ≠ [] := by
    rintro rfl
    rw [captures_cons_nil] at h
    exact Bool.false_ne_true h
  rw [captures_star rest hne] at h ⊢
  cases rest with
  | nil => exact ⟨rfl, by rw [captures_nil_nil]⟩
  | cons p ps =>
      rw [captures_cons_nil] at h
      exact absurd h Bool.false_ne_true

theorem captures_star_nil {path : Bytes} (hne : path ≠ []) :
    captures [STAR] path = ([⟨[STAR], path⟩], true) := by
  rw [captures_star [] hne, captures_nil_nil]

theorem relativePath_append {urlPrefix rest : Bytes} (h0 : (0 : Byte) ∉ rest) :
    relativePath urlPrefix (urlPrefix ++ SLASH :: rest) = rest := by
  rw [relativePath, List.drop_left, cstr_of_noNul]
  · rfl
  · rw [List.mem_cons]
    rintro (h | h)
    · exact absurd h (by decide)
    · exact h0 h

theorem servesCapture_of_plain {urlPrefix : Bytes} (hhead : urlPrefix.head? = some SLASH)
    (hplain : ∀ b ∈ urlPrefix, Plain b) (hlen : urlPrefix.length ≤ 2045) (fs : FileSystem)
    (fsPath : Bytes) : ServesCapture (staticRoute fs urlPrefix fsPath) urlPrefix := by
  have hpattern : (staticPattern urlPrefix).head? = some SLASH := by
    rw [staticPattern_of_le hlen, List.append_assoc, List.head?_append, hhead]
    rfl
  have hroute : (staticRoute fs urlPrefix fsPath).path = staticPattern urlPrefix := rfl
  -- every path with the prefix in front is matched, and the rest is captured
  have hfront : ∀ rest : Bytes, rest ≠ [] →
      routeCaptures (staticPattern urlPrefix) (urlPrefix ++ SLASH :: rest) =
        ([⟨[STAR], rest⟩], true) := by
    intro rest hne
    have hpath : (urlPrefix ++ SLASH :: rest).head? = some SLASH := by
      rw [List.head?_append, hhead]
      rfl
    have hpre : urlPrefix ++ [SLASH] <+: urlPrefix ++ SLASH :: rest := ⟨rest, by simp⟩
    have hdrop : (urlPrefix ++ SLASH :: rest).drop (urlPrefix.length + 1) = rest := by
      simp [List.drop_append]
    rw [routeCaptures_eq hpattern hpath, captures_staticPattern hplain hlen, if_pos hpre, hdrop,
      captures_star_nil hne]
  constructor
  · intro path h0 hmatch
    rw [matchRoute_count_isSome, hroute] at hmatch
    obtain ⟨-, hpath⟩ := head?_of_routeCaptures hmatch
    have hok := hmatch
    rw [routeCaptures_eq hpattern hpath, captures_staticPattern hplain hlen] at hok
    obtain ⟨rest, rfl⟩ : urlPrefix ++ [SLASH] <+: path := by
      by_contra hpre
      rw [if_neg hpre] at hok
      exact Bool.false_ne_true hok
    rw [List.append_assoc, List.singleton_append] at h0 hmatch hok ⊢
    have hne : rest ≠ [] := by
      rintro rfl
      rw [if_pos (by simp), List.drop_eq_nil_of_le (by simp), captures_cons_nil] at hok
      exact Bool.false_ne_true hok
    have h0' : (0 : Byte) ∉ rest := fun h =>
      h0 (List.mem_append_right _ (List.mem_cons_of_mem _ h))
    refine ⟨by simp, ?_⟩
    rw [relativePath_append h0', starText_eq_some_iff, hroute, hfront rest hne]
    exact ⟨rfl, [], ⟨[STAR], rest⟩, rfl, by decide, rfl⟩
  · intro rest hne _
    rw [matchRoute_count_isSome, hroute, hfront rest hne]

-- ============================================================================
-- Other prefixes
-- ============================================================================

/-- The pattern up to its first special byte. -/
theorem staticPattern_split (pattern : Bytes) : ∃ text rest : Bytes, pattern = text ++ rest ∧
    (∀ b ∈ text, Plain b) ∧ (rest = [] ∨ ∃ more, rest = STAR :: more ∨ rest = COLON :: more) := by
  refine ⟨pattern.takeWhile (Plain ·), pattern.dropWhile (Plain ·), ?_, ?_, ?_⟩
  · exact (List.takeWhile_append_dropWhile).symm
  · intro b hb
    exact of_decide_eq_true (List.mem_takeWhile_imp (p := (Plain ·)) hb)
  · cases hrest : pattern.dropWhile (Plain ·) with
    | nil => exact .inl rfl
    | cons b more =>
        have hb : ¬ Plain b := by
          have := List.head?_dropWhile_not (fun b => decide (Plain b)) pattern
          rw [hrest] at this
          simpa using this
        refine .inr ⟨more, ?_⟩
        by_cases hcolon : b = COLON
        · exact .inr (by rw [hcolon])
        · by_cases hstar : b = STAR
          · exact .inl (by rw [hstar])
          · exact absurd ⟨hcolon, hstar⟩ hb

theorem staticPattern_isPrefix (urlPrefix : Bytes) :
    staticPattern urlPrefix <+: urlPrefix ++ [SLASH, STAR] :=
  List.take_prefix _ _

/-- A parameter in the pattern is one of the prefix. -/
theorem urlPrefix_of_colon {urlPrefix text more : Bytes}
    (h : staticPattern urlPrefix = text ++ COLON :: more) :
    ∃ rest, urlPrefix = text ++ COLON :: rest := by
  obtain ⟨tail, htail⟩ := staticPattern_isPrefix urlPrefix
  rw [h, List.append_assoc, List.cons_append] at htail
  obtain ⟨mid, hurl, hmid⟩ | ⟨mid, -, hmid⟩ := List.append_eq_append_iff.mp htail
  · cases mid with
    | nil => exact absurd (List.head_eq_of_cons_eq hmid) (by decide)
    | cons b mid =>
        obtain rfl : COLON = b := List.head_eq_of_cons_eq hmid
        exact ⟨mid, hurl⟩
  · have hmem : COLON ∈ [SLASH, STAR] := hmid ▸ List.mem_append_right mid (List.mem_cons_self ..)
    exact absurd hmem (by decide)

/-- The wildcard is that of `mnet_static` where the prefix ends in front of it. -/
theorem urlPrefix_of_star {urlPrefix text more : Bytes} (htext : ∀ b ∈ text, Plain b)
    (h : staticPattern urlPrefix = text ++ STAR :: more)
    (hlen : text.length = urlPrefix.length + 1) :
    (∀ b ∈ urlPrefix, Plain b) ∧ urlPrefix.length ≤ 2045 := by
  obtain ⟨tail, htail⟩ := staticPattern_isPrefix urlPrefix
  have hpre : urlPrefix <+: text := by
    have hurl : urlPrefix <+: urlPrefix ++ [SLASH, STAR] := List.prefix_append _ _
    have htext : text <+: urlPrefix ++ [SLASH, STAR] :=
      ⟨STAR :: (more ++ tail), by rw [← htail, h]; simp⟩
    exact List.prefix_of_prefix_length_le hurl htext (by omega)
  refine ⟨fun b hb => htext b (hpre.subset hb), ?_⟩
  have hclip : (staticPattern urlPrefix).length ≤ 2047 := List.length_take_le _ _
  rw [h, List.length_append, List.length_cons] at hclip
  omega

theorem captures_nil_fst (path : Bytes) : (captures [] path).1 = [] := by
  cases path with
  | nil => rw [captures_nil_nil]
  | cons r rs => rw [captures_nil_cons]

/-- What a parameter captures is up to the path; the captures behind it are not
    touched by its text. -/
theorem captures_colon_segment (more : Bytes) {seg tail : Bytes} (hslash : SLASH ∉ seg)
    (htail : EndsOrSlash tail) (hne : seg ≠ []) :
    captures (COLON :: more) (seg ++ tail) =
      (⟨COLON :: more, seg⟩ ::
          (captures (skipSlash (more.dropWhile (· ≠ SLASH))) (skipSlash tail)).1,
        (captures (skipSlash (more.dropWhile (· ≠ SLASH))) (skipSlash tail)).2) := by
  rw [captures_colon _ (fun h => hne (List.append_eq_nil_iff.mp h).1),
    (takeWhile_dropWhile_slash hslash htail).1, (takeWhile_dropWhile_slash hslash htail).2]

theorem routeCaptures_colon {text : Bytes} (htext : ∀ b ∈ text, Plain b) {more : Bytes}
    (hhead : (text ++ COLON :: more).head? = some SLASH) {seg tail : Bytes} (hslash : SLASH ∉ seg)
    (htail : EndsOrSlash tail) (hne : seg ≠ []) :
    routeCaptures (text ++ COLON :: more) (text ++ (seg ++ tail)) =
      (⟨COLON :: more, seg⟩ ::
          (captures (skipSlash (more.dropWhile (· ≠ SLASH))) (skipSlash tail)).1,
        (captures (skipSlash (more.dropWhile (· ≠ SLASH))) (skipSlash tail)).2) := by
  -- the pattern begins with a slash, hence not with the parameter
  have hpath : (text ++ (seg ++ tail)).head? = some SLASH := by
    cases text with
    | nil => exact absurd (Option.some.inj hhead) (by decide)
    | cons b text => exact hhead
  rw [routeCaptures_eq hhead hpath, captures_plain htext, if_pos (List.prefix_append ..),
    List.drop_left, captures_colon_segment more hslash htail hne]

/-- The text of a parameter that begins with a colon does so decoded, too. -/
theorem decodeSegment_colon_ne (seg : Bytes) : decodeSegment (COLON :: seg) [] ≠ [120] := by
  have hdecode : decodeSegment (COLON :: seg) [] = decodeSegment seg [COLON] := by
    rw [decodeSegment.eq_def]
    rfl
  have hpre := isPrefix_decodeSegment seg [COLON]
  rw [hdecode]
  intro h
  rw [h] at hpre
  exact absurd hpre (by decide)

theorem relativePath_longer (text rest tail : Bytes) :
    relativePath (text ++ COLON :: rest)
      (text ++ (List.replicate (rest.length + 2) 97 ++ tail)) = 97 :: cstr tail := by
  have hpath : text ++ (List.replicate (rest.length + 2) 97 ++ tail) =
      (text ++ List.replicate (rest.length + 1) 97) ++ 97 :: tail := by
    rw [List.replicate_succ', List.append_assoc, List.append_assoc]
    rfl
  have hdrop : (text ++ (List.replicate (rest.length + 2) 97 ++ tail)).drop
      (text ++ COLON :: rest).length = 97 :: tail := by
    rw [hpath]
    apply List.drop_left'
    simp
  rw [relativePath, hdrop]
  rfl

/-- The path that has one byte more than the prefix and a slash. -/
theorem ServesCapture.shortest {fs : FileSystem} {urlPrefix fsPath : Bytes}
    (h : ServesCapture (staticRoute fs urlPrefix fsPath) urlPrefix) (h0 : (0 : Byte) ∉ urlPrefix) :
    (routeCaptures (staticPattern urlPrefix) (urlPrefix ++ [SLASH, 120])).2 = true ∧
      ∃ front c, (routeCaptures (staticPattern urlPrefix) (urlPrefix ++ [SLASH, 120])).1 =
        front ++ [c] ∧ front.length < MNET_MAX_PARAMS ∧ c.value = [120] := by
  have hmatch := h.matched [120] (by simp) (by decide)
  have h0' : (0 : Byte) ∉ urlPrefix ++ [SLASH, 120] := List.not_mem_append h0 (by decide)
  obtain ⟨-, hstar⟩ := h.captured _ h0' hmatch
  rwa [relativePath_append (by decide), starText_eq_some_iff] at hstar

/-- A path with a longer text for the parameter has the same text for the `*`,
    and more behind as many bytes as the prefix has. -/
theorem not_servesCapture_of_colon {fs : FileSystem} {text rest more fsPath : Bytes}
    (htext : ∀ b ∈ text, Plain b) (h0 : (0 : Byte) ∉ text ++ COLON :: rest)
    (hsplit : staticPattern (text ++ COLON :: rest) = text ++ COLON :: more) :
    ¬ ServesCapture (staticRoute fs (text ++ COLON :: rest) fsPath) (text ++ COLON :: rest) := by
  intro h
  obtain ⟨hok, front, c, hcaptures, hslot, hvalue⟩ := h.shortest h0
  obtain ⟨hpattern, hpath⟩ := head?_of_routeCaptures hok
  obtain ⟨seg, tail, hseg, hslash, htail⟩ := exists_segment_append (rest ++ [SLASH, 120])
  have hpath_eq : text ++ COLON :: rest ++ [SLASH, 120] = text ++ (COLON :: seg ++ tail) := by
    rw [List.append_assoc, List.cons_append, hseg, List.cons_append]
  have hcolon : SLASH ∉ COLON :: seg := by
    rw [List.mem_cons]
    rintro (hmem | hmem)
    · exact absurd hmem (by decide)
    · exact hslash hmem
  rw [hsplit] at hpattern
  rw [hsplit, hpath_eq, routeCaptures_colon htext hpattern hcolon htail nofun] at hok hcaptures
  cases front with
  | nil =>
      -- the parameter is all that is captured
      obtain rfl := (List.cons.inj hcaptures).1
      exact decodeSegment_colon_ne seg hvalue
  | cons c₀ front =>
      have hlater := (List.cons.inj hcaptures).2
      have hlong : SLASH ∉ List.replicate (rest.length + 2) (97 : Byte) := fun hmem =>
        absurd (List.eq_of_mem_replicate hmem) (by decide)
      have htail0 : (0 : Byte) ∉ tail := by
        have hrest0 : (0 : Byte) ∉ rest ++ [SLASH, 120] :=
          List.not_mem_append (fun hmem => h0 (List.mem_append_right text
            (List.mem_cons_of_mem COLON hmem))) (by decide)
        rw [hseg] at hrest0
        exact fun hmem => hrest0 (List.mem_append_right seg hmem)
      have hpath0 : (0 : Byte) ∉ text ++ (List.replicate (rest.length + 2) 97 ++ tail) :=
        List.not_mem_append (fun hmem => h0 (List.mem_append_left _ hmem))
          (List.not_mem_append (fun hmem => absurd (List.eq_of_mem_replicate hmem) (by decide))
            htail0)
      have hroute := routeCaptures_colon htext hpattern hlong htail (by simp)
      rw [← hsplit] at hroute
      have hmatch : (matchRoute (staticRoute fs (text ++ COLON :: rest) fsPath)
          (text ++ (List.replicate (rest.length + 2) 97 ++ tail))).count.isSome := by
        rw [matchRoute_count_isSome]
        show (routeCaptures (staticPattern (text ++ COLON :: rest)) _).2 = true
        rw [hroute]
        exact hok
      obtain ⟨-, hstar⟩ := h.captured _ hpath0 hmatch
      rw [relativePath_longer] at hstar
      obtain ⟨-, front', c', hcaptures', -, hvalue'⟩ := starText_eq_some_iff.mp hstar
      change (routeCaptures (staticPattern (text ++ COLON :: rest)) _).1 = _ at hcaptures'
      rw [hroute, hlater] at hcaptures'
      change _ :: (front ++ [c]) = front' ++ [c'] at hcaptures'
      rw [← List.cons_append] at hcaptures'
      obtain ⟨-, hc⟩ := List.append_inj' hcaptures' rfl
      rw [← List.singleton_inj.mp hc, hvalue] at hvalue'
      exact absurd (List.head_eq_of_cons_eq hvalue') (by decide)

/-- A route whose handler works on the text of the `*` has nothing else special
    in its pattern, and its `*` has not been clipped. -/
theorem plain_of_servesCapture {fs : FileSystem} {urlPrefix fsPath : Bytes}
    (h0 : (0 : Byte) ∉ urlPrefix)
    (h : ServesCapture (staticRoute fs urlPrefix fsPath) urlPrefix) :
    (∀ b ∈ urlPrefix, Plain b) ∧ urlPrefix.length ≤ 2045 := by
  obtain ⟨hok, front, c, hcaptures, hslot, hvalue⟩ := h.shortest h0
  obtain ⟨hpattern, hpath⟩ := head?_of_routeCaptures hok
  rw [routeCaptures_eq hpattern hpath] at hok hcaptures
  obtain ⟨text, rest, hsplit, htext, hrest⟩ := staticPattern_split (staticPattern urlPrefix)
  rw [hsplit, captures_plain htext] at hok hcaptures
  have hpre : text <+: urlPrefix ++ [SLASH, 120] := by
    by_contra hpre
    rw [if_neg hpre] at hok
    exact Bool.false_ne_true hok
  rw [if_pos hpre] at hok hcaptures
  obtain rfl | ⟨more, rfl | rfl⟩ := hrest
  · -- without a special byte nothing is captured
    rw [captures_nil_fst] at hcaptures
    exact absurd hcaptures.symm (by simp)
  · -- the wildcard has the one byte behind the prefix
    obtain ⟨rfl, hone⟩ := captures_star_ok hok
    rw [hone] at hcaptures
    rw [← List.nil_append [_]] at hcaptures
    obtain ⟨-, hc⟩ := List.append_inj' hcaptures rfl
    obtain rfl := List.singleton_inj.mp hc
    have hlen : (urlPrefix ++ [SLASH, 120]).length - text.length = 1 := by
      rw [← List.length_drop]
      exact congrArg List.length hvalue
    rw [List.length_append, List.length_cons, List.length_singleton] at hlen
    exact urlPrefix_of_star htext hsplit (by omega)
  · obtain ⟨rest, rfl⟩ := urlPrefix_of_colon hsplit
    exact absurd h (not_servesCapture_of_colon htext h0 hsplit)

-- ============================================================================
-- All prefixes
-- ============================================================================

/-- Exactly the prefixes without `:` and `*` of at most 2045 bytes have a route
    whose handler works on the text its `*` captured. -/
theorem servesCapture_iff {urlPrefix : Bytes} (hhead : urlPrefix.head? = some SLASH)
    (h0 : (0 : Byte) ∉ urlPrefix) (fs : FileSystem) (fsPath : Bytes) :
    ServesCapture (staticRoute fs urlPrefix fsPath) urlPrefix ↔
      (∀ b ∈ urlPrefix, Plain b) ∧ urlPrefix.length ≤ 2045 :=
  ⟨plain_of_servesCapture h0,
    fun h => servesCapture_of_plain hhead h.1 h.2 fs fsPath⟩

/-- Taken for `/static`. -/
theorem servesCapture_iff_static :
    ServesCapture (staticRoute ⟨fun _ => none, fun _ => none, fun _ => true⟩
      (ascii "/static") (ascii "./public")) (ascii "/static") ↔
      (∀ b ∈ ascii "/static", Plain b) ∧ (ascii "/static").length ≤ 2045 :=
  servesCapture_iff (by decide) (by decide) _ _

/-- The prefix `/u/:user` is longer than the path `/u/a/f`, which its route
    matches. -/
theorem not_servesCapture_userFiles :
    ¬ ServesCapture (staticRoute ⟨fun _ => none, fun _ => none, fun _ => true⟩
      (ascii "/u/:user") (ascii "./home")) (ascii "/u/:user") := by
  intro h
  have hmatch : (matchRoute (staticRoute ⟨fun _ => none, fun _ => none, fun _ => true⟩
      (ascii "/u/:user") (ascii "./home")) (ascii "/u/a/f")).count.isSome := by
    decide +kernel
  obtain ⟨hlen, -⟩ := h.captured (ascii "/u/a/f") (by decide) hmatch
  exact absurd hlen (by decide)

end Mnet
