/-
  Mnet.HeaderScan

  The two readings of a head: the text scan of `read_full_body` and the
  tokenizer of `parse_headers`, both as lists of offsets.

  `lineInitialMatches_eq` says which offsets the scan counts, and
  `filter_headers` at which offsets the tokenizer finds the fields of a name.
  The first asks for a line feed before the match, the second for any line end,
  so they differ by the fields that stand behind a bare carriage return
  (`bareCRLines`).
-/

import Mnet.HeaderConfinement

namespace Mnet

open Search (OccursAt)

-- ============================================================================
-- The text scan
-- ============================================================================

/-- The text a case-insensitive search compares with. -/
def lower (s : Bytes) : Bytes := s.map tolower

/-- The needle stands at offset `i` of the string, at the start of a line as
    `read_full_body` sees lines. -/
def lineInitial (buffer needle : Bytes) (i : Nat) : Bool :=
  decide (OccursAt needle (lower (cstr buffer)) i) && (i == 0 || buffer[i - 1]? == some LF)

/-- What the scans rely on in a needle. -/
structure ScanNeedle (needle : Bytes) : Prop where
  nonempty : needle ≠ []
  isLower : needle.map tolower = needle
  noOverlap : ∀ k < needle.length, 0 < k → ¬ needle.drop k <+: needle

theorem cstr_drop {buffer : Bytes} {n : Nat} (hn : n ≤ (cstr buffer).length) :
    cstr (buffer.drop n) = (cstr buffer).drop n := by
  have hsplit : buffer = (cstr buffer).take n ++ buffer.drop n := by
    rw [take_cstr hn, List.take_append_drop]
  have hno : (0 : Byte) ∉ (cstr buffer).take n := fun h =>
    noNul_cstr buffer (List.mem_of_mem_take h)
  have happ := cstr_append_of_noNul hno (buffer.drop n)
  rw [← hsplit] at happ
  exact List.append_cancel_left (happ.symm.trans (List.take_append_drop n _).symm)

/-- The needle does not occur behind the end of the string. -/
theorem not_occursAt_of_length_lt {needle s : Bytes} (hne : needle ≠ []) {i : Nat}
    (hi : s.length ≤ i) : ¬ OccursAt needle s i := by
  intro h
  unfold OccursAt at h
  rw [List.drop_of_length_le hi, List.prefix_nil] at h
  exact hne h

theorem filter_range'_eq_nil {p : Nat → Bool} {a n : Nat}
    (h : ∀ i, a ≤ i → i < a + n → p i = false) : (List.range' a n).filter p = [] := by
  rw [List.filter_eq_nil_iff]
  intro i hi
  obtain ⟨k, hk, rfl⟩ := List.mem_range'.mp hi
  rw [h (a + 1 * k) (by omega) (by omega)]
  exact Bool.false_ne_true

/-- A filtered interval of which only one point before `c` can count. -/
theorem filter_range'_jump {p : Nat → Bool} {a b c stop : Nat} (hab : a ≤ b) (hb : b < stop)
    (hbc : b < c) (hbefore : ∀ i, a ≤ i → i < b → p i = false)
    (hbehind : ∀ i, b < i → i < c → p i = false) :
    (List.range' a (stop - a)).filter p =
      (if p b then [b] else []) ++ (List.range' c (stop - c)).filter p := by
  have hsplit : List.range' a (stop - a) =
      List.range' a (b - a) ++ b :: List.range' (b + 1) (stop - b - 1) := by
    have h1 : stop - a = (b - a) + (stop - b) := by omega
    have h2 : stop - b = (stop - b - 1) + 1 := by omega
    rw [h1, ← List.range'_append_1, Nat.add_sub_cancel' hab, h2, List.range'_succ,
      Nat.add_sub_cancel]
  have htail : (List.range' (b + 1) (stop - b - 1)).filter p =
      (List.range' c (stop - c)).filter p := by
    by_cases hc : c ≤ stop
    · have h1 : stop - b - 1 = (c - b - 1) + (stop - c) := by omega
      have h2 : b + 1 + (c - b - 1) = c := by omega
      rw [h1, ← List.range'_append_1, List.filter_append, h2,
        filter_range'_eq_nil fun i hi hlt => hbehind i (by omega) (by omega), List.nil_append]
    · rw [filter_range'_eq_nil fun i hi hlt => hbehind i (by omega) (by omega),
        filter_range'_eq_nil fun i hi hlt => by omega]
  rw [hsplit, List.filter_append,
    filter_range'_eq_nil fun i hi hlt => hbefore i hi (by omega), List.nil_append,
    List.filter_cons, htail]
  split <;> rfl

/-- The scan counts every line-initial occurrence from `search` on: the jump
    behind a match skips nothing, since the needle does not overlap itself. -/
theorem lineInitialMatches_eq {buffer needle : Bytes} (hn : ScanNeedle needle)
    {headerEnd search : Nat} (hs : search ≤ (cstr buffer).length) :
    lineInitialMatches buffer needle headerEnd search =
      (List.range' search (headerEnd - search)).filter (lineInitial buffer needle) := by
  have hsearch : ∀ search ≤ (cstr buffer).length, strcasestr (buffer.drop search) needle =
      Search.find needle ((lower (cstr buffer)).drop search) := by
    intro search hs
    unfold strcasestr lower
    rw [cstr_drop hs, hn.isLower, List.map_drop]
  have hocc : ∀ search i, OccursAt needle ((lower (cstr buffer)).drop search) i ↔
      OccursAt needle (lower (cstr buffer)) (search + i) := by
    intro search i
    unfold OccursAt
    rw [List.drop_drop]
  have hpos : 0 < needle.length := List.length_pos_iff.mpr hn.nonempty
  have hlower : (lower (cstr buffer)).length = (cstr buffer).length := List.length_map _
  have hnot : ∀ {i}, ¬ OccursAt needle (lower (cstr buffer)) i →
      lineInitial buffer needle i = false := by
    intro i hi
    simp [lineInitial, hi]
  -- a match of the search: nothing counts before it, nor up to its end
  have hmatch : ∀ search ≤ (cstr buffer).length, ∀ k,
      strcasestr (buffer.drop search) needle = some k →
      search + k + needle.length ≤ (cstr buffer).length ∧
      (∀ i, search ≤ i → i < search + k → lineInitial buffer needle i = false) ∧
      OccursAt needle (lower (cstr buffer)) (search + k) ∧
      ∀ i, search + k < i → i < search + k + needle.length →
        lineInitial buffer needle i = false := by
    intro search hs k hfind
    rw [hsearch search hs] at hfind
    obtain ⟨hle, hat, hmin⟩ := Search.find_eq_some_iff.mp hfind
    have hbound := Search.find_le_length hfind
    rw [List.length_drop, hlower] at hbound
    rw [hocc] at hat
    refine ⟨by omega, fun i hi hlt => hnot fun hi' => ?_, hat, fun i hi hlt => hnot fun hi' => ?_⟩
    · refine hmin (i - search) (by omega) ?_
      rw [hocc, Nat.add_sub_cancel' hi]
      exact hi'
    · have hdis := hat.disjoint hi' hi hn.noOverlap
      omega
  fun_induction lineInitialMatches buffer needle headerEnd search with
  | case1 search hnone =>
      rw [hsearch search hs, Search.find_eq_none_iff] at hnone
      refine (filter_range'_eq_nil fun i hi _ => hnot fun hat => ?_).symm
      by_cases hlt : i < (cstr buffer).length
      · refine hnone (i - search) (by rw [List.length_drop]; omega) ?_
        rw [hocc, Nat.add_sub_cancel' hi]
        exact hat
      · exact not_occursAt_of_length_lt hn.nonempty (by omega) hat
  | case2 search k hfind found hge =>
      obtain ⟨-, hbefore, -, -⟩ := hmatch search hs k hfind
      exact (filter_range'_eq_nil fun i hi hlt => hbefore i hi (by omega)).symm
  | case3 search k hfind found hlt rest hinit ih =>
      obtain ⟨hbound, hbefore, hat, hbehind⟩ := hmatch search hs k hfind
      have hfound : OccursAt needle (lower (cstr buffer)) found := hat
      have hcount : lineInitial buffer needle found = true := by
        simpa [lineInitial, hfound] using hinit
      rw [filter_range'_jump (c := found + max needle.length 1) (by omega) (by omega) (by omega)
        hbefore fun i hi hc => hbehind i hi (by omega), if_pos hcount, ← ih (by omega)]
      rfl
  | case4 search k hfind found hlt rest hinit ih =>
      obtain ⟨hbound, hbefore, hat, hbehind⟩ := hmatch search hs k hfind
      have hfound : OccursAt needle (lower (cstr buffer)) found := hat
      have hcount : ¬ lineInitial buffer needle found = true := by
        simpa [lineInitial, hfound] using hinit
      rw [filter_range'_jump (c := found + max needle.length 1) (by omega) (by omega) (by omega)
        hbefore fun i hi hc => hbehind i hi (by omega), if_neg hcount, ← ih (by omega)]
      rfl

-- ============================================================================
-- Fields of a name
-- ============================================================================

theorem isTokenChar_of_tolower {b : Byte} (h : isTokenChar (tolower b) = true) :
    isTokenChar b = true := by
  unfold tolower at h
  split at h
  · next hup => simp [isTokenChar, hup]
  · exact h

theorem eq_of_tolower_eq {b c : Byte} (hc : isLower c = false) (h : tolower b = c) : b = c := by
  unfold tolower at h
  split at h
  · next hup =>
    subst h
    simp only [isUpper, isLower, Bool.and_eq_true, Bool.and_eq_false_iff, decide_eq_true_eq,
      decide_eq_false_iff_not, UInt8.le_iff_toNat_le, UInt8.toNat_add] at hup hc
    have h65 : (65 : UInt8).toNat = 65 := rfl
    have h90 : (90 : UInt8).toNat = 90 := rfl
    have h97 : (97 : UInt8).toNat = 97 := rfl
    have h122 : (122 : UInt8).toNat = 122 := rfl
    have h32 : (32 : UInt8).toNat = 32 := rfl
    omega
  · exact h

/-- A lower-case header name: a token, whose text with the colon is fit for the
    scans. -/
structure FieldName (name : Bytes) : Prop where
  token : name.all isTokenChar = true
  nonempty : name ≠ []
  scan : ScanNeedle (name ++ [58])

theorem fieldName_contentLength : FieldName (ascii "content-length") where
  token := by decide
  nonempty := by decide
  scan := ⟨by simp, by decide, by decide +kernel⟩

theorem fieldName_transferEncoding : FieldName (ascii "transfer-encoding") where
  token := by decide
  nonempty := by decide
  scan := ⟨by simp, by decide, by decide +kernel⟩

/-- The field in a line whose name has `n` bytes. -/
def fieldAt (n : Nat) (line : Bytes) : Bytes × Bytes :=
  (line.take n, (line.drop (n + 1)).dropWhile isBlank)

/-- A line whose text starts with a name and a colon, in any case, is a field. -/
theorem headerField_of_prefix {name text : Bytes} (hname : FieldName name)
    (h0 : (0 : Byte) ∉ text) (h : name ++ [58] <+: lower text) :
    headerField text = some (fieldAt name.length text) := by
  have hlen : name.length + 1 ≤ text.length := by
    have hle := h.length_le
    simpa [lower] using hle
  have hget := List.prefix_iff_getElem?.mp h
  have hcolon : text[name.length]? = some 58 := by
    have hc := hget name.length (by simp)
    have hb : tolower text[name.length] = 58 := by
      simpa [lower, List.getElem?_eq_getElem (show name.length < text.length by omega)] using hc
    rw [List.getElem?_eq_getElem (by omega), eq_of_tolower_eq (by decide) hb]
  have hbefore : ∀ k < name.length, ∃ b, text[k]? = some b ∧ isTokenChar b = true := by
    intro k hk
    have hc := hget k (by rw [List.length_append]; omega)
    have hb : tolower text[k] = name[k] := by
      simpa [lower, List.getElem?_eq_getElem (show k < text.length by omega),
        List.getElem_append_left hk] using hc
    refine ⟨text[k], List.getElem?_eq_getElem (by omega), isTokenChar_of_tolower ?_⟩
    rw [hb]
    exact List.all_eq_true.mp hname.token _ (List.getElem_mem hk)
  have hchr : strchr text 58 = some name.length := by
    unfold strchr
    rw [cstr_of_noNul h0, Search.find_eq_some_iff]
    refine ⟨by omega, occursAt_singleton.mpr hcolon, fun k hk hocc => ?_⟩
    obtain ⟨b, hb, htok⟩ := hbefore k hk
    have heq := occursAt_singleton.mp hocc
    rw [hb] at heq
    obtain rfl : b = 58 := by simpa using heq
    exact absurd htok (by decide)
  have hvalid : mnetHeaderNameValid (text.take name.length) = true := by
    have hne : text.take name.length ≠ [] := by
      rw [ne_eq, List.take_eq_nil_iff]
      rintro (h | h)
      · exact hname.nonempty (List.length_eq_zero_iff.mp h)
      · simp [h] at hlen
    simp only [mnetHeaderNameValid, hne, ne_eq, not_false_eq_true, decide_true, Bool.true_and,
      List.all_eq_true]
    intro b hb
    obtain ⟨k, hk⟩ := List.getElem?_of_mem hb
    have hlt : k < name.length := by
      by_contra hge
      rw [List.getElem?_take_eq_none (by omega)] at hk
      simp at hk
    rw [List.getElem?_take_of_lt hlt] at hk
    obtain ⟨b', hb', htok⟩ := hbefore k hlt
    rw [hk] at hb'
    obtain rfl : b = b' := by simpa using hb'
    exact htok
  simp only [headerField, hchr, hvalid, if_true, fieldAt]

/-- A field's name and the colon behind it start its line. -/
theorem prefix_of_headerField {line : Bytes} (h0 : (0 : Byte) ∉ line) {field : Bytes × Bytes}
    (h : headerField line = some field) : lower field.1 ++ [58] <+: lower line := by
  unfold headerField at h
  cases hchr : strchr line 58 with
  | none => simp [hchr] at h
  | some colon =>
      rw [hchr] at h
      dsimp only at h
      split at h
      · obtain rfl := Option.some.inj h
        unfold strchr at hchr
        rw [cstr_of_noNul h0] at hchr
        obtain ⟨hle, hocc, -⟩ := Search.find_eq_some_iff.mp hchr
        obtain ⟨hlt, hget⟩ := List.getElem?_eq_some_iff.mp (occursAt_singleton.mp hocc)
        refine ⟨lower (line.drop (colon + 1)), ?_⟩
        have hline : line = line.take colon ++ 58 :: line.drop (colon + 1) := by
          rw [← hget, ← List.drop_eq_getElem_cons hlt, List.take_append_drop]
        have hcolon : tolower 58 = 58 := by decide
        conv_rhs => rw [hline]
        simp [lower, hcolon]
      · simp at h

/-- The line starts with the name and a colon, in any case. -/
def startsWithName (name line : Bytes) : Bool := (name ++ [58]).isPrefixOf (lower line)

/-- The fields of a name, among those of some lines, are the fields of the
    lines that start with it. -/
theorem filter_filterMap_headerField {name : Bytes} (hname : FieldName name) {lines : List Bytes}
    (h0 : ∀ line ∈ lines, (0 : Byte) ∉ line) :
    (lines.filterMap headerField).filter (fun field => lower field.1 == name) =
      (lines.filter (startsWithName name)).map (fieldAt name.length) := by
  induction lines with
  | nil => rfl
  | cons line lines ih =>
      have h0' := h0 line (List.mem_cons_self ..)
      have ih := ih fun l hl => h0 l (List.mem_cons_of_mem _ hl)
      by_cases hp : name ++ [58] <+: lower line
      · have hfield := headerField_of_prefix hname h0' hp
        have hlow : lower (fieldAt name.length line).1 = name := by
          obtain ⟨t, ht⟩ := hp
          have htake : lower (line.take name.length) = (lower line).take name.length :=
            List.map_take
          simp only [fieldAt]
          rw [htake, ← ht]
          simp
        have hstart : startsWithName name line = true := List.isPrefixOf_iff_prefix.mpr hp
        rw [List.filterMap_cons_some hfield, List.filter_cons_of_pos (by simp [hlow]),
          List.filter_cons_of_pos hstart, List.map_cons, ih]
      · have hstart : ¬ startsWithName name line = true := mt List.isPrefixOf_iff_prefix.mp hp
        rw [List.filter_cons_of_neg hstart]
        cases hfield : headerField line with
        | none => rw [List.filterMap_cons_none hfield, ih]
        | some field =>
            rw [List.filterMap_cons_some hfield, List.filter_cons_of_neg, ih]
            intro hlow
            have hlow' : lower field.1 = name := by simpa using hlow
            exact hp (hlow' ▸ prefix_of_headerField h0' hfield)

-- ============================================================================
-- The tokenizer, by offsets
-- ============================================================================

/-- The needle stands at offset `i` of the string, right behind a CR. -/
def bareCR (buffer needle : Bytes) (i : Nat) : Bool :=
  decide (OccursAt needle (lower (cstr buffer)) i) && (i != 0 && buffer[i - 1]? == some CR)

/-- The lines before `headerEnd` that start with the needle behind a CR: lines
    of the tokenizer, not of the text scan. -/
def bareCRLines (buffer needle : Bytes) (headerEnd : Nat) : List Nat :=
  (List.range headerEnd).filter (bareCR buffer needle)

theorem lineInitialMatches_zero {buffer needle : Bytes} (hn : ScanNeedle needle)
    (headerEnd : Nat) :
    lineInitialMatches buffer needle headerEnd 0 =
      (List.range headerEnd).filter (lineInitial buffer needle) := by
  rw [lineInitialMatches_eq hn (Nat.zero_le _), Nat.sub_zero, List.range_eq_range']

theorem tolower_ne_break {b : Byte} (h : isBreak b = true) : isTokenChar (tolower b) = false := by
  have hb : b = CR ∨ b = LF := by simpa [isBreak, CRLF] using h
  rcases hb with rfl | rfl
  · decide
  · decide

/-- No needle holds a line end. -/
theorem needle_ne_tolower_break {name : Bytes} (hname : FieldName name) {b : Byte}
    (h : isBreak b = true) : tolower b ∉ name ++ [58] := by
  intro hmem
  obtain hmem | hmem := List.mem_append.mp hmem
  · have htok := List.all_eq_true.mp hname.token _ hmem
    rw [tolower_ne_break h] at htok
    exact absurd htok (by decide)
  · have hb : b = CR ∨ b = LF := by simpa [isBreak, CRLF] using h
    rcases hb with rfl | rfl
    · exact absurd hmem (by decide)
    · exact absurd hmem (by decide)

/-- An occurrence in the string that starts in the head lies in the head. -/
theorem occursAt_head_iff {name : Bytes} (hname : FieldName name) {head rest : Bytes} {d : Byte}
    (hd : isBreak d = true) {i : Nat} (hi : i < head.length) :
    OccursAt (name ++ [58]) (lower (head ++ d :: rest)) i ↔
      OccursAt (name ++ [58]) (lower head) i := by
  have happ : lower (head ++ d :: rest) = lower head ++ lower (d :: rest) := List.map_append
  have hlen : (lower head).length = head.length := List.length_map _
  rw [happ]
  constructor
  · intro h
    refine h.of_append ?_
    by_contra hgt
    have hget := Search.occursAt_iff_getElem?.mp h (head.length - i) (by omega)
    rw [Nat.add_sub_cancel' (Nat.le_of_lt hi), ← hlen, List.getElem?_append_right (Nat.le_refl _), Nat.sub_self] at hget
    refine needle_ne_tolower_break hname hd (List.mem_of_getElem? (i := head.length - i) ?_)
    rw [hlen] at hget
    rw [← hget]
    rfl
  · intro h
    exact h.append (by omega) _

/-- The run at a start begins with the needle exactly when the needle occurs
    there. -/
theorem startsWithName_runAt {name head : Bytes} (hname : FieldName name) {i : Nat} :
    startsWithName name (Tokens.runAt isBreak head i) = true ↔
      OccursAt (name ++ [58]) (lower head) i := by
  have hdrop : (lower head).drop i = lower (head.drop i) := List.map_drop.symm
  unfold startsWithName OccursAt
  rw [List.isPrefixOf_iff_prefix, hdrop]
  constructor
  · intro h
    refine h.trans ?_
    obtain ⟨t, ht⟩ := Tokens.runAt_isPrefix isBreak head i
    exact ⟨lower t, by rw [← ht]; exact List.map_append.symm⟩
  · intro h
    have hget := List.prefix_iff_getElem?.mp h
    have hle := h.length_le
    have hlow : (lower (head.drop i)).length = (head.drop i).length := List.length_map _
    rw [hlow] at hle
    have hclean : ∀ b ∈ (head.drop i).take (name ++ [58]).length, (!isBreak b) = true := by
      intro b hb
      by_contra hbreak
      obtain ⟨k, hk⟩ := List.getElem?_of_mem hb
      have hlt : k < (name ++ [58]).length := by
        by_contra hge
        rw [List.getElem?_take_eq_none (by omega)] at hk
        simp at hk
      rw [List.getElem?_take_of_lt hlt] at hk
      have hk' := hget k hlt
      have hlower : (lower (head.drop i))[k]? = some (tolower b) := by
        simp only [lower, List.getElem?_map, hk, Option.map_some]
      rw [hlower] at hk'
      refine needle_ne_tolower_break hname (b := b) (by simpa using hbreak) ?_
      exact (Option.some.inj hk') ▸ List.getElem_mem hlt
    have hrun : (head.drop i).take (name ++ [58]).length <+: Tokens.runAt isBreak head i := by
      unfold Tokens.runAt
      conv_rhs => rw [← List.take_append_drop (name ++ [58]).length (head.drop i)]
      rw [List.takeWhile_append_of_pos hclean]
      exact List.prefix_append _ _
    have hlen := hrun.length_le
    rw [List.length_take, Nat.min_eq_left hle] at hlen
    obtain ⟨t, ht⟩ := Tokens.runAt_isPrefix isBreak head i
    have hlow' : lower (Tokens.runAt isBreak head i) <+: lower (head.drop i) :=
      ⟨lower t, by rw [← ht]; exact List.map_append.symm⟩
    exact List.prefix_of_prefix_length_le h hlow' (by simpa [lower] using hlen)

/-- At the starts of tokens, the needle is found by the text scan or stands
    behind a CR. -/
theorem filter_starts {buffer name : Bytes} (hname : FieldName name) {e n : Nat}
    (hend : endOfHeaders buffer = some (e, n)) :
    (Tokens.starts isBreak (buffer.take e)).filter
        (fun i => startsWithName name (Tokens.runAt isBreak (buffer.take e) i)) =
      (List.range e).filter fun i =>
        lineInitial buffer (name ++ [58]) i || bareCR buffer (name ++ [58]) i := by
  obtain ⟨d, rest, hsplit, hbreak, hlen⟩ := cstr_eq_head_append hend
  unfold Tokens.starts Tokens.startsFrom
  rw [hlen, List.filter_filter]
  refine List.filter_congr fun i hi => ?_
  have hi' : i < e := List.mem_range.mp hi
  have hprev : buffer[i - 1]? = (buffer.take e)[i - 1]? := by
    rw [List.getElem?_take_of_lt (by omega)]
  have hocc : startsWithName name (Tokens.runAt isBreak (buffer.take e) i) = true ↔
      OccursAt (name ++ [58]) (lower (cstr buffer)) i := by
    rw [startsWithName_runAt hname, hsplit, occursAt_head_iff hname hbreak (by omega)]
  have hstart : Tokens.isStart isBreak true (buffer.take e) i = true ↔
      i ∈ Tokens.starts isBreak (buffer.take e) := by
    unfold Tokens.starts Tokens.startsFrom
    rw [List.mem_filter, List.mem_range, hlen]
    exact ⟨fun h => ⟨hi', h⟩, fun h => h.2⟩
  rw [Bool.eq_iff_iff, Bool.and_eq_true, Bool.or_eq_true, hocc, hstart, lineInitial, bareCR,
    hprev, Tokens.mem_starts]
  simp only [Bool.and_eq_true, Bool.or_eq_true, decide_eq_true_eq, beq_iff_eq, bne_iff_ne]
  constructor
  · rintro ⟨hat, b, hb, hnot, hprev⟩
    obtain rfl | ⟨p, hp, hpbreak⟩ := hprev
    · exact .inl ⟨hat, .inl rfl⟩
    · have hp' : p = CR ∨ p = LF := by simpa [isBreak, CRLF] using hpbreak
      rcases hp' with rfl | rfl
      · by_cases h0 : i = 0
        · exact .inl ⟨hat, .inl h0⟩
        · exact .inr ⟨hat, h0, hp⟩
      · exact .inl ⟨hat, .inr hp⟩
  · intro h
    have hat : OccursAt (name ++ [58]) (lower (cstr buffer)) i := by
      obtain ⟨hat, -⟩ | ⟨hat, -⟩ := h
      · exact hat
      · exact hat
    obtain ⟨b, hb⟩ : ∃ b, (buffer.take e)[i]? = some b :=
      ⟨_, List.getElem?_eq_getElem (by omega)⟩
    refine ⟨hat, b, hb, ?_, ?_⟩
    · -- a line end is no first byte of a needle
      rw [hsplit, occursAt_head_iff hname hbreak (by omega)] at hat
      have hget := Search.occursAt_iff_getElem?.mp hat 0 (by simp)
      rw [Nat.add_zero, lower, List.getElem?_map, hb, Option.map_some] at hget
      by_contra hnot
      have hbreak' : isBreak b = true := by simpa using hnot
      exact needle_ne_tolower_break hname hbreak' (List.mem_of_getElem? hget.symm)
    · obtain ⟨-, rfl | hlf⟩ | ⟨-, -, hcr⟩ := h
      · exact .inl rfl
      · exact .inr ⟨LF, hlf, by decide⟩
      · exact .inr ⟨CR, hcr, by decide⟩

/-- The stored fields of a name are those at the offsets of the text scan, and
    those behind a CR. -/
theorem filter_headers {buffer name : Bytes} (hname : FieldName name) {e n : Nat}
    (hend : endOfHeaders buffer = some (e, n)) {headers : List (Bytes × Bytes)}
    (hheaders : parseHeaders (buffer.take e) = some headers) :
    headers.filter (fun field => lower field.1 == name) =
      ((List.range e).filter fun i =>
        lineInitial buffer (name ++ [58]) i || bareCR buffer (name ++ [58]) i).map
        fun i => fieldAt name.length (Tokens.runAt isBreak (buffer.take e) i) := by
  have hlist := parseHeaderLines_eq_some hheaders
  rw [List.nil_append, strtok_head hend] at hlist
  have h0 : ∀ line ∈ (Tokens.starts isBreak (buffer.take e)).map
      (Tokens.runAt isBreak (buffer.take e)), (0 : Byte) ∉ line := by
    intro line hline hmem
    obtain ⟨i, -, rfl⟩ := List.mem_map.mp hline
    have hmem' := List.mem_of_mem_drop ((Tokens.runAt_isPrefix _ _ _).subset hmem)
    rw [← cstr_take_headEnd hend] at hmem'
    exact noNul_cstr _ hmem'
  rw [hlist, filter_filterMap_headerField hname h0, List.filter_map, List.map_map,
    ← filter_starts hname hend]
  rfl

end Mnet
