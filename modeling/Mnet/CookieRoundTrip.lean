/-
  Mnet.CookieRoundTrip

  Cookies written into a Cookie header and read back.

  The header is cut at every `;`, and each piece, without the blanks in front
  of it, at its first `=`.  A cookie has no `;`, and no `=` in its name, so the
  pieces are the cookies (`parseCookies_cookieHeader`).
-/

import Mnet.QueryStrings

namespace Mnet

abbrev SEMICOLON : Byte := 59

/-- A name and a value a Cookie header can carry: the name may be empty, and
    the value may hold further `=`. -/
structure Cookie where
  name : Bytes
  value : Bytes
  noNul : (0 : Byte) ∉ name ∧ (0 : Byte) ∉ value
  plainName : EQUALS ∉ name ∧ SEMICOLON ∉ name
  plainValue : SEMICOLON ∉ value
  nameStart : name.head? ≠ some SP
  valueStart : value.head? ≠ some SP

def Cookie.pair (cookie : Cookie) : Bytes × Bytes := (cookie.name, cookie.value)

def Cookie.text (cookie : Cookie) : Bytes := cookie.name ++ EQUALS :: cookie.value

/-- `n1=v1; n2=v2; ...` -/
def cookieHeader (cookies : List Cookie) : Bytes :=
  (ascii "; ").intercalate (cookies.map Cookie.text)

-- ============================================================================
-- One cookie
-- ============================================================================

theorem dropWhile_blank {text : Bytes} (h : text.head? ≠ some SP) :
    text.dropWhile (· == SP) = text := by
  cases text with
  | nil => rfl
  | cons b text =>
      apply List.dropWhile_cons_of_neg
      rw [beq_iff_eq]
      exact fun hb => h (congrArg some hb)

namespace Cookie

variable (cookie : Cookie)

theorem text_ne_nil : cookie.text ≠ [] := by
  rw [text]
  simp

theorem head?_text : cookie.text.head? ≠ some SP := by
  have hname := cookie.nameStart
  rw [text]
  cases hn : cookie.name with
  | nil => exact fun h => absurd (Option.some.inj h) (by decide)
  | cons b name =>
      rw [hn] at hname
      exact hname

theorem plain_text {b : Byte} (hb : b ∈ cookie.text) : b ≠ SEMICOLON ∧ b ≠ 0 := by
  rcases List.mem_append.mp hb with hb | hb
  · exact ⟨fun h => cookie.plainName.2 (h ▸ hb), fun h => cookie.noNul.1 (h ▸ hb)⟩
  · rcases List.mem_cons.mp hb with rfl | hb
    · decide
    · exact ⟨fun h => cookie.plainValue (h ▸ hb), fun h => cookie.noNul.2 (h ▸ hb)⟩

/-- The text is cut at its first `=`, which ends the name. -/
theorem cookiePair_text : cookiePair cookie.text = cookie.pair := by
  have h0 : (0 : Byte) ∉ cookie.text := fun h => (cookie.plain_text h).2 rfl
  have hmem : EQUALS ∈ cookie.text := List.mem_append_right _ (List.mem_cons_self ..)
  have hcut : splitFirst EQUALS cookie.text = (cookie.name, cookie.value) :=
    splitFirst_append cookie.plainName.1 cookie.value
  rw [cookiePair, dropWhile_blank cookie.head?_text, splitAtByte_eq h0, if_pos hmem, hcut]
  show (cookie.name, cookie.value.dropWhile (· == SP)) = cookie.pair
  rw [dropWhile_blank cookie.valueStart]
  rfl

theorem cookiePair_blank_text : cookiePair (SP :: cookie.text) = cookie.pair := by
  rw [← cookiePair_text]
  unfold cookiePair
  rw [List.dropWhile_cons_of_pos (by decide)]

end Cookie

-- ============================================================================
-- The header
-- ============================================================================

/-- The header's pieces: the cookies' texts, with a blank before all but the
    first. -/
def cookieTokens : List Cookie → List Bytes
  | [] => []
  | cookie :: cookies => cookie.text :: cookies.map fun c => SP :: c.text

/-- The blank of a separator goes to the text behind it. -/
theorem intercalate_blank (text : Bytes) (texts : List Bytes) :
    (ascii "; ").intercalate (text :: texts) =
      [SEMICOLON].intercalate (text :: texts.map (SP :: ·)) := by
  have hsep : ascii "; " = [SEMICOLON, SP] := by decide
  induction texts generalizing text with
  | nil => rw [List.map_nil, List.intercalate_singleton, List.intercalate_singleton]
  | cons next texts ih =>
      have hnext : (ascii "; ").intercalate ((SP :: next) :: texts) =
          SP :: (ascii "; ").intercalate (next :: texts) := by
        cases texts with
        | nil => rw [List.intercalate_singleton, List.intercalate_singleton]
        | cons t ts => rw [List.intercalate_cons_cons, List.intercalate_cons_cons]; rfl
      rw [List.map_cons, List.intercalate_cons_cons, List.intercalate_cons_cons, ← ih, hnext, hsep,
        List.append_assoc, List.append_assoc]
      rfl

theorem cookieHeader_eq (cookies : List Cookie) :
    cookieHeader cookies = [SEMICOLON].intercalate (cookieTokens cookies) := by
  cases cookies with
  | nil => rfl
  | cons cookie cookies =>
      rw [cookieHeader, List.map_cons, intercalate_blank, List.map_map]
      rfl

theorem cookieTokens_cases {cookies : List Cookie} {t : Bytes} (ht : t ∈ cookieTokens cookies) :
    ∃ cookie : Cookie, t = cookie.text ∨ t = SP :: cookie.text := by
  cases cookies with
  | nil => exact absurd ht List.not_mem_nil
  | cons cookie cookies =>
      rcases List.mem_cons.mp ht with rfl | ht
      · exact ⟨cookie, .inl rfl⟩
      · obtain ⟨c, -, rfl⟩ := List.mem_map.mp ht
        exact ⟨c, .inr rfl⟩

theorem plain_cookieTokens {cookies : List Cookie} {t : Bytes} (ht : t ∈ cookieTokens cookies) :
    t ≠ [] ∧ ∀ b ∈ t, b ≠ SEMICOLON ∧ b ≠ 0 := by
  obtain ⟨cookie, rfl | rfl⟩ := cookieTokens_cases ht
  · exact ⟨cookie.text_ne_nil, fun b hb => cookie.plain_text hb⟩
  · refine ⟨List.cons_ne_nil _ _, fun b hb => ?_⟩
    rcases List.mem_cons.mp hb with rfl | hb
    · decide
    · exact cookie.plain_text hb

theorem map_cookiePair_cookieTokens (cookies : List Cookie) :
    (cookieTokens cookies).map cookiePair = cookies.map Cookie.pair := by
  cases cookies with
  | nil => rfl
  | cons cookie cookies =>
      rw [cookieTokens, List.map_cons, List.map_map, cookie.cookiePair_text, List.map_cons]
      congr 1
      exact List.map_congr_left fun c _ => c.cookiePair_blank_text

/-- The parser finds the pieces; its slots, one more than there are `;`, are
    enough for them. -/
theorem strtok_cookieHeader (cookies : List Cookie) :
    (strtok (cookieHeader cookies) (ascii ";")).take (1 + (cookieHeader cookies).count 59) =
      cookieTokens cookies := by
  have h0 : (0 : Byte) ∉ cookieHeader cookies := by
    rw [cookieHeader_eq]
    intro h
    obtain hsep | ⟨t, ht, hmem⟩ := mem_intercalate h
    · exact absurd hsep (by decide)
    · exact ((plain_cookieTokens ht).2 _ hmem).2 rfl
  have hdelim : (fun b : Byte => (ascii ";").contains b) = (· == SEMICOLON) := by
    funext b
    have hone : ascii ";" = [SEMICOLON] := by decide
    rw [hone, Bool.eq_iff_iff, List.contains_iff_mem, List.mem_singleton, beq_iff_eq]
  have htokens : strtok (cookieHeader cookies) (ascii ";") = cookieTokens cookies := by
    rw [strtok, cstr_of_noNul h0, hdelim, cookieHeader_eq]
    apply Tokens.tokens_intercalate (by decide)
    intro t ht
    exact ⟨(plain_cookieTokens ht).1, fun b hb =>
      beq_false_of_ne ((plain_cookieTokens ht).2 b hb).1⟩
  have hlen := @Tokens.length_tokens_le Byte (· == SEMICOLON) (cookieHeader cookies)
  rw [strtok, cstr_of_noNul h0, hdelim] at htokens
  rw [htokens] at hlen
  rw [strtok, cstr_of_noNul h0, hdelim, htokens]
  exact List.take_of_length_le hlen

/-- Cookies come back from the header they are written into, in order, and a
    name looked up is given the value of the first cookie of that name. -/
theorem parseCookies_cookieHeader (cookies : List Cookie) :
    parseCookies (cookieHeader cookies) = cookies.map Cookie.pair ∧
      ∀ (request : MnetRequest) (name : Bytes),
        mnetRequestCookie { request with cookies := parseCookies (cookieHeader cookies) } name =
          (cookies.find? (·.name == name)).map Cookie.value := by
  have hparse : parseCookies (cookieHeader cookies) = cookies.map Cookie.pair := by
    rw [parseCookies]
    split
    · next hnil =>
      rw [cookieHeader_eq] at hnil
      cases cookies with
      | nil => rfl
      | cons cookie cookies =>
          exact absurd hnil (by cases cookies <;> simp [cookieTokens, cookie.text_ne_nil])
    · show ((strtok (cookieHeader cookies) (ascii ";")).take _).map cookiePair = _
      rw [strtok_cookieHeader, map_cookiePair_cookieTokens]
  refine ⟨hparse, fun request name => ?_⟩
  rw [mnetRequestCookie, hparse, lookupName_eq_find?, List.find?_map, Option.map_map]
  rfl

end Mnet
