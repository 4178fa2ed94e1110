/-
  Mnet.QueryStrings

  `parse_query_string` on any query string, and what `parse_request` makes of
  its result.

  `parseQueryString_eq` says it on the parameters as they are written: the
  first sixteen of them are decoded, unless one of these is over its length
  cap.  A form-encoded list therefore comes back as it was; an over-limit query
  is dropped or cut, and `parse_request` accepts the request all the same.
-/

import Mnet.RequestLine
import Mnet.RequestRoundTrip
import Mnet.RequestAccess
import Mnet.UrlDecoding

namespace Mnet

abbrev AMPERSAND : Byte := 38
abbrev EQUALS : Byte := 61
abbrev QUERY_MARK : Byte := 63

-- ============================================================================
-- Parameters as they are written
-- ============================================================================

/-- The text before a byte and the text behind it. -/
def splitFirst (sep : Byte) (text : Bytes) : Bytes × Bytes :=
  (text.takeWhile (· ≠ sep), (text.dropWhile (· ≠ sep)).drop 1)

/-- The parameters of a query string: the non-empty texts between `&`, each cut
    at its first `=`. -/
def queryParams (qs : Bytes) : List (Bytes × Bytes) :=
  (Tokens.tokens (· == AMPERSAND) qs).map (splitFirst EQUALS)

/-- A name or value longer than 1024 bytes. -/
def OverCap (param : Bytes × Bytes) : Prop := 1024 < param.1.length ∨ 1024 < param.2.length

instance (param : Bytes × Bytes) : Decidable (OverCap param) := inferInstanceAs (Decidable (_ ∨ _))

/-- Name and value as a handler reads them. -/
def decodedParam (param : Bytes × Bytes) : Bytes × Bytes :=
  ((Percent.decode plusToSpace param.1).getD [], (Percent.decode plusToSpace param.2).getD [])

theorem splitFirst_append {sep : Byte} {before : Bytes} (h : sep ∉ before) (after : Bytes) :
    splitFirst sep (before ++ sep :: after) = (before, after) := by
  have hclean : ∀ b ∈ before, decide (b ≠ sep) = true := by
    intro b hb
    have hne : b ≠ sep := fun heq => h (heq ▸ hb)
    exact decide_eq_true hne
  rw [splitFirst, List.takeWhile_append_of_pos hclean, List.dropWhile_append_of_pos hclean,
    List.takeWhile_cons_of_neg (by simp), List.dropWhile_cons_of_neg (by simp), List.append_nil]
  rfl

/-- The split the parser makes at a byte. -/
theorem splitAtByte_eq {sep : Byte} {token : Bytes} (h0 : (0 : Byte) ∉ token) :
    splitAtByte sep token =
      ((splitFirst sep token).1, if sep ∈ token then some (splitFirst sep token).2 else none) := by
  obtain ⟨hsplit, hnot⟩ | ⟨before, after, hsplit, hbefore, rfl⟩ :=
    WireRequest.splitAtByte_cases sep h0
  · have hall : ∀ b ∈ token, decide (b ≠ sep) = true := by
      intro b hb
      have hne : b ≠ sep := fun heq => hnot (heq ▸ hb)
      exact decide_eq_true hne
    rw [hsplit, if_neg hnot, splitFirst, List.takeWhile_eq_self_iff.mpr hall]
  · rw [hsplit, splitFirst_append hbefore, if_pos (by simp)]

theorem mem_of_mem_splitFirst {sep b : Byte} {text : Bytes}
    (h : b ∈ (splitFirst sep text).1 ∨ b ∈ (splitFirst sep text).2) : b ∈ text :=
  h.elim (fun h => (List.takeWhile_sublist _).subset h)
    fun h => (List.dropWhile_sublist _).subset (List.mem_of_mem_drop h)

-- ============================================================================
-- The parser
-- ============================================================================

/-- The loop stores the decoded parameters, and fails at the first one over its
    cap. -/
theorem queryPairs_eq {tokens : List Bytes} (h0 : ∀ token ∈ tokens, (0 : Byte) ∉ token)
    (pairs : List (Bytes × Bytes)) :
    queryPairs tokens pairs =
      if ∃ param ∈ tokens.map (splitFirst EQUALS), OverCap param then none
      else some (pairs ++ (tokens.map (splitFirst EQUALS)).map decodedParam) := by
  induction tokens generalizing pairs with
  | nil => simp [queryPairs]
  | cons token tokens ih =>
      have htoken := h0 token (List.mem_cons_self ..)
      have ih := ih fun t ht => h0 t (List.mem_cons_of_mem token ht)
      have hvalue : (if EQUALS ∈ token then some (splitFirst EQUALS token).2 else none).getD [] =
          (splitFirst EQUALS token).2 := by
        split
        · rfl
        · next hnot =>
          have hall : ∀ b ∈ token, decide (b ≠ EQUALS) = true := by
            intro b hb
            have hne : b ≠ EQUALS := fun heq => hnot (heq ▸ hb)
            exact decide_eq_true hne
          rw [splitFirst, List.dropWhile_eq_nil_iff.mpr hall]
          rfl
      have hname0 : (0 : Byte) ∉ (splitFirst EQUALS token).1 := fun h =>
        htoken (mem_of_mem_splitFirst (.inl h))
      have hvalue0 : (0 : Byte) ∉ (splitFirst EQUALS token).2 :=
        fun h => htoken (mem_of_mem_splitFirst (.inr h))
      rw [queryPairs, splitAtByte_eq htoken]
      simp only [hvalue, Bool.or_eq_true, decide_eq_true_eq, List.map_cons,
        List.exists_mem_cons_iff]
      by_cases hover : OverCap (splitFirst EQUALS token)
      · rw [if_pos (Or.inl hover)]
        exact if_pos hover
      · simp only [hover, false_or]
        rw [mnetUrlDecode_eq hname0 (Nat.lt_succ_self _), mnetUrlDecode_eq hvalue0 (Nat.lt_succ_self _),
          ih, List.append_assoc]
        exact if_neg hover

/-- What `parse_query_string` stores: the first sixteen parameters. -/
theorem parseQueryString_eq {qs : Bytes} (h0 : (0 : Byte) ∉ qs) :
    parseQueryString qs =
      if ∃ param ∈ (queryParams qs).take 16, OverCap param then none
      else some (((queryParams qs).take 16).map decodedParam) := by
  have hdelim : (fun b => (ascii "&").contains b) = fun b : Byte => b == AMPERSAND := by
    have hamp : ascii "&" = [AMPERSAND] := by decide
    funext b
    rw [hamp, List.contains_cons, List.contains_nil, Bool.or_false]
  have htokens : strtok qs (ascii "&") = Tokens.tokens (· == AMPERSAND) qs := by
    rw [strtok, hdelim, cstr_of_noNul h0]
  have htake : parseQueryString qs =
      queryPairs ((Tokens.tokens (· == AMPERSAND) qs).take MNET_MAX_QUERY) [] := by
    unfold parseQueryString
    split
    · next hnil => rw [hnil, Tokens.tokens_nil]; rfl
    · have hle : (Tokens.tokens (· == AMPERSAND) qs).length ≤ 1 + qs.count AMPERSAND :=
        Tokens.length_tokens_le qs
      simp only [htokens]
      by_cases hmany : 1 + qs.count AMPERSAND > MNET_MAX_QUERY
      · rw [if_pos hmany]
      · rw [if_neg hmany, List.take_of_length_le hle, List.take_of_length_le (by omega)]
  have hclean : ∀ token ∈ (Tokens.tokens (· == AMPERSAND) qs).take MNET_MAX_QUERY,
      (0 : Byte) ∉ token := by
    intro token htoken hzero
    have hmem := List.mem_of_mem_take htoken
    rw [Tokens.tokens_eq_map_starts] at hmem
    obtain ⟨i, -, rfl⟩ := List.mem_map.mp hmem
    exact h0 (List.mem_of_mem_drop ((Tokens.runAt_isPrefix _ _ _).subset hzero))
  rw [htake, queryPairs_eq hclean, List.map_take, List.nil_append]
  rfl

-- ============================================================================
-- Round trip
-- ============================================================================

/-- A byte written as itself: `A-Z a-z 0-9 - . _ ~`. -/
def isUnreserved (b : Byte) : Bool :=
  isUpper b || isLower b || isDigit b || (ascii "-._~").contains b

/-- How a form writes a byte: an unreserved one as itself, others as `%XX`, and
    a space as `+` as well. -/
def formUnit (b : Byte) (piece : Bytes) : Prop :=
  if isUnreserved b then piece = [b]
  else Percent.IsEscape b piece ∨ (b = SP ∧ piece = [PLUS])

/-- `name=value`, each of at most 1024 bytes as it is written. -/
def RendersParam (pair : Bytes × Bytes) (text : Bytes) : Prop :=
  ∃ name value, Percent.Writes formUnit pair.1 name ∧ Percent.Writes formUnit pair.2 value ∧
    name.length ≤ 1024 ∧ value.length ≤ 1024 ∧ text = name ++ EQUALS :: value

/-- The pairs in order, joined by `&`. -/
def RendersQuery (pairs : List (Bytes × Bytes)) (text : Bytes) : Prop :=
  ∃ texts, List.Forall₂ RendersParam pairs texts ∧ text = [AMPERSAND].intercalate texts

theorem unreserved_plain (b : Byte) : isUnreserved b = true →
    (b ≠ AMPERSAND ∧ b ≠ EQUALS ∧ b ≠ 0) ∧ b ≠ 37 ∧ plusToSpace b = b := by
  revert b
  apply forall_byte
  decide +kernel

theorem hexDigit_plain (b : Byte) : (Percent.hexDigit? b).isSome = true →
    b ≠ AMPERSAND ∧ b ≠ EQUALS ∧ b ≠ 0 := by
  revert b
  apply forall_byte
  decide +kernel

/-- A form text holds no separator and no NUL. -/
theorem formUnit_plain (b : Byte) (piece : Bytes) (h : formUnit b piece) :
    ∀ c ∈ piece, c ≠ AMPERSAND ∧ c ≠ EQUALS ∧ c ≠ 0 := by
  unfold formUnit at h
  intro c hc
  split at h
  · next hb =>
    obtain rfl : c = b := by simpa [h] using hc
    exact (unreserved_plain c hb).1
  · obtain ⟨hi, lo, rfl, hhi, hlo⟩ | ⟨-, rfl⟩ := h
    · simp only [List.mem_cons, List.not_mem_nil, or_false] at hc
      obtain rfl | rfl | rfl := hc
      · decide
      · exact hexDigit_plain c (by rw [hhi]; rfl)
      · exact hexDigit_plain c (by rw [hlo]; rfl)
    · obtain rfl : c = PLUS := by simpa using hc
      decide

/-- Each piece of a form text is read back. -/
theorem formUnit_read (b : Byte) (piece : Bytes) (h : formUnit b piece) :
    Percent.IsEscape b piece ∨ ∃ c, c ≠ 37 ∧ piece = [c] ∧ plusToSpace c = b := by
  unfold formUnit at h
  split at h
  · next hb =>
    obtain ⟨-, hne, hraw⟩ := unreserved_plain b hb
    exact .inr ⟨b, hne, h, hraw⟩
  · obtain hescape | ⟨rfl, hpiece⟩ := h
    · exact .inl hescape
    · exact .inr ⟨PLUS, by decide, hpiece, by decide⟩

/-- A rendered pair is a token of the query string, within the caps, and is
    decoded to the pair. -/
theorem rendersParam_spec {pair : Bytes × Bytes} {text : Bytes} (hname0 : (0 : Byte) ∉ pair.1)
    (hvalue0 : (0 : Byte) ∉ pair.2) (h : RendersParam pair text) :
    text ≠ [] ∧ (∀ b ∈ text, b ≠ AMPERSAND ∧ b ≠ 0) ∧ ¬ OverCap (splitFirst EQUALS text) ∧
      decodedParam (splitFirst EQUALS text) = pair := by
  obtain ⟨name, value, hname, hvalue, hnameLen, hvalueLen, rfl⟩ := h
  have hnamePlain := hname.forall_mem formUnit_plain
  have hvaluePlain := hvalue.forall_mem formUnit_plain
  have hcut : splitFirst EQUALS (name ++ EQUALS :: value) = (name, value) :=
    splitFirst_append (fun hmem => (hnamePlain _ hmem).2.1 rfl) value
  refine ⟨by simp, fun b hb => ?_, ?_, ?_⟩
  · rcases List.mem_append.mp hb with hb | hb
    · exact ⟨(hnamePlain b hb).1, (hnamePlain b hb).2.2⟩
    · rcases List.mem_cons.mp hb with rfl | hb
      · decide
      · exact ⟨(hvaluePlain b hb).1, (hvaluePlain b hb).2.2⟩
  · rw [hcut]
    rintro (h | h)
    · exact absurd hnameLen (Nat.not_le_of_lt h)
    · exact absurd hvalueLen (Nat.not_le_of_lt h)
  · rw [hcut, decodedParam, hname.decode_eq formUnit_read hname0,
      hvalue.decode_eq formUnit_read hvalue0]
    rfl

theorem mem_intercalate {sep b : Byte} {texts : List Bytes} (h : b ∈ [sep].intercalate texts) :
    b = sep ∨ ∃ text ∈ texts, b ∈ text := by
  induction texts with
  | nil => exact absurd h List.not_mem_nil
  | cons text texts ih =>
      by_cases hlast : texts = []
      · rw [hlast, List.intercalate_singleton] at h
        exact .inr ⟨text, List.mem_cons_self .., h⟩
      · rw [List.intercalate_cons_of_ne_nil hlast, List.append_assoc, List.mem_append,
          List.mem_append, List.mem_singleton] at h
        obtain h | h | h := h
        · exact .inr ⟨text, List.mem_cons_self .., h⟩
        · exact .inl h
        · exact (ih h).imp_right fun ⟨t, ht, hb⟩ => ⟨t, List.mem_cons_of_mem text ht, hb⟩

/-- The parameters of a rendered query string are within the caps, and decoded
    to the pairs. -/
theorem queryParams_render {pairs : List (Bytes × Bytes)} {text : Bytes}
    (h0 : ∀ pair ∈ pairs, (0 : Byte) ∉ pair.1 ∧ (0 : Byte) ∉ pair.2)
    (h : RendersQuery pairs text) :
    (0 : Byte) ∉ text ∧ (∀ param ∈ queryParams text, ¬ OverCap param) ∧
      (queryParams text).map decodedParam = pairs := by
  obtain ⟨texts, hall, rfl⟩ := h
  -- each text is a token, and its parameter the pair
  have hspec : (∀ t ∈ texts, t ≠ [] ∧ (∀ b ∈ t, b ≠ AMPERSAND ∧ b ≠ 0) ∧
      ¬ OverCap (splitFirst EQUALS t)) ∧ (texts.map (splitFirst EQUALS)).map decodedParam = pairs := by
    induction hall with
    | nil => simp
    | @cons pair t pairs texts hpair _ ih =>
        obtain ⟨hname0, hvalue0⟩ := h0 pair (List.mem_cons_self ..)
        obtain ⟨hne, hplain, hcap, hdecoded⟩ := rendersParam_spec hname0 hvalue0 hpair
        obtain ⟨htexts, hpairs⟩ := ih fun p hp => h0 p (List.mem_cons_of_mem pair hp)
        refine ⟨List.forall_mem_cons.mpr ⟨⟨hne, hplain, hcap⟩, htexts⟩, ?_⟩
        rw [List.map_cons, List.map_cons, hdecoded, hpairs]
  obtain ⟨htexts, hpairs⟩ := hspec
  have htokens : ∀ t ∈ texts, t ≠ [] ∧ ∀ b ∈ t, (b == AMPERSAND) = false := fun t ht =>
    ⟨(htexts t ht).1, fun b hb => beq_false_of_ne ((htexts t ht).2.1 b hb).1⟩
  have hparams : queryParams ([AMPERSAND].intercalate texts) = texts.map (splitFirst EQUALS) := by
    rw [queryParams, Tokens.tokens_intercalate (by decide) htokens]
  rw [hparams]
  refine ⟨fun hzero => ?_, fun param hparam => ?_, hpairs⟩
  · obtain hzero | ⟨t, ht, hb⟩ := mem_intercalate hzero
    · exact absurd hzero (by decide)
    · exact ((htexts t ht).2.1 0 hb).2 rfl
  · obtain ⟨t, ht, rfl⟩ := List.mem_map.mp hparam
    exact (htexts t ht).2.2

/-- One to sixteen pairs, written as a form writes them, are parsed to the same
    list, and each name is looked up as its first value. -/
theorem parseQueryString_render {pairs : List (Bytes × Bytes)} {text : Bytes}
    (hcount : 1 ≤ pairs.length ∧ pairs.length ≤ 16)
    (h0 : ∀ pair ∈ pairs, (0 : Byte) ∉ pair.1 ∧ (0 : Byte) ∉ pair.2)
    (h : RendersQuery pairs text) :
    parseQueryString text = some pairs ∧
      ∀ (request : MnetRequest) (name : Bytes), request.query = pairs →
        mnetRequestQuery request name =
          (pairs.find? fun pair => pair.1 == name).map Prod.snd := by
  obtain ⟨htext0, hcaps, hpairs⟩ := queryParams_render h0 h
  have hlen : (queryParams text).length ≤ 16 := by
    have h := congrArg List.length hpairs
    rw [List.length_map] at h
    omega
  refine ⟨?_, fun request name hquery => ?_⟩
  · rw [parseQueryString_eq htext0, List.take_of_length_le hlen, hpairs, if_neg]
    rintro ⟨param, hparam, hover⟩
    exact hcaps param hparam hover
  · rw [mnetRequestQuery, lookupName_eq_find?, hquery]

/-- Two pairs whose bytes are written in all three ways, and a pair of empty
    strings. -/
theorem rendersQuery_search :
    RendersQuery [(ascii "q", ascii " &"), ([], [])] (ascii "q=+%26&=") := by
  have hself : formUnit 113 [113] := by
    unfold formUnit
    rw [if_pos (by decide)]
  have hamp : formUnit AMPERSAND (ascii "%26") := by
    unfold formUnit
    rw [if_neg (by decide)]
    exact .inl ⟨50, 54, by decide, by decide, by decide⟩
  have hspace : formUnit SP [PLUS] := by
    unfold formUnit
    rw [if_neg (by decide)]
    exact .inr ⟨rfl, rfl⟩
  have hname : Percent.Writes formUnit (ascii "q") (ascii "q") := .cons hself .nil
  have hvalue : Percent.Writes formUnit (ascii " &") (ascii "+%26") :=
    .cons hspace (.cons hamp .nil)
  exact ⟨[ascii "q=+%26", ascii "="],
    .cons ⟨ascii "q", ascii "+%26", hname, hvalue, by decide, by decide, by decide⟩
      (.cons ⟨[], [], .nil, .nil, by decide, by decide, by decide⟩ .nil), by decide⟩

theorem parseQueryString_render_search :
    parseQueryString (ascii "q=+%26&=") = some [(ascii "q", ascii " &"), ([], [])] ∧
      ∀ (request : MnetRequest) (name : Bytes),
        request.query = [(ascii "q", ascii " &"), ([], [])] →
        mnetRequestQuery request name =
          ([(ascii "q", ascii " &"), ([], [])].find? fun pair => pair.1 == name).map Prod.snd :=
  parseQueryString_render (by decide) (by decide) rendersQuery_search

end Mnet
