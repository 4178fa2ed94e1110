/-
  Mnet.UrlDecoding

  The two URL decoders against the strict reading of percent-coded text.

  `mnet_url_decode` is that reading, with `+` for a space and the empty string
  for a text it refuses.  `mnet_route_match` decodes its segments by itself: it
  keeps the `%` of a malformed escape and stores the NUL of a `%00`.
-/

import Mnet.RouteParams
import Mnet.Lib.Percent

namespace Mnet

abbrev PLUS : Byte := 43

-- ============================================================================
-- mnet_url_decode
-- ============================================================================

/-- What a byte of a query string stands for outside an escape. -/
def plusToSpace (c : Byte) : Byte := if c = PLUS then SP else c

theorem hexValue_eq (c : Byte) : hexValue c = Percent.hexDigit? c := by
  revert c
  apply forall_byte
  decide +kernel

theorem plusToSpace_ne_zero {c : Byte} (h : c ≠ 0) : plusToSpace c ≠ 0 := by
  rw [plusToSpace]
  split
  · decide
  · exact h

/-- The text stands for the string, which holds no NUL and fits the room. -/
structure Decodes (room : Nat) (p t : Bytes) : Prop where
  reads : Percent.Reads plusToSpace p t
  noNul : (0 : Byte) ∉ t
  fits : t.length ≤ room

/-- The longest front part of the source that decodes. -/
structure DecodedFront (room : Nat) (src p t : Bytes) : Prop where
  front : p <+: src
  decodes : Decodes room p t
  longest : ∀ p' t', p' <+: src → Decodes room p' t' → p' <+: p ∧ t' <+: t

theorem Decodes.nil (room : Nat) : Decodes room [] [] :=
  ⟨.nil, List.not_mem_nil, Nat.zero_le room⟩

theorem Decodes.cons {room : Nat} {p t : Bytes} {out : Byte} (h : Decodes (room - 1) p t)
    (hroom : 0 < room) (hout : out ≠ 0) {piece : Bytes}
    (hreads : Percent.Reads plusToSpace piece (out :: t)) : Decodes room piece (out :: t) where
  reads := hreads
  noNul := List.not_mem_cons_of_ne_of_not_mem (Ne.symm hout) h.noNul
  fits := by
    have hfits := h.fits
    rw [List.length_cons]
    omega

/-- What follows the first byte decodes into the room that is left. -/
theorem Decodes.tail {room : Nat} {piece p t : Bytes} {out : Byte}
    (h : Decodes room piece (out :: t)) (hreads : Percent.Reads plusToSpace p t) :
    0 < room ∧ out ≠ 0 ∧ Decodes (room - 1) p t := by
  have hfits := h.fits
  rw [List.length_cons] at hfits
  obtain ⟨hne, hnot⟩ := not_or.mp (mt List.mem_cons.mpr h.noNul)
  exact ⟨by omega, Ne.symm hne, hreads, hnot, by omega⟩

/-- Nothing but the empty front part decodes. -/
theorem DecodedFront.stuck {room : Nat} {src : Bytes}
    (h : ∀ p t, p <+: src → Decodes room p t → p = [] ∧ t = []) : DecodedFront room src [] [] where
  front := List.nil_prefix
  decodes := .nil room
  longest p' t' hp' ht' := by
    obtain ⟨rfl, rfl⟩ := h p' t' hp' ht'
    exact ⟨List.prefix_refl _, List.prefix_refl _⟩

theorem DecodedFront.escape {room h l : Nat} {hi lo : Byte} {src p t : Bytes} (hroom : 0 < room)
    (hhi : Percent.hexDigit? hi = some h) (hlo : Percent.hexDigit? lo = some l)
    (hout : UInt8.ofNat (h * 16 + l) ≠ 0) (hrest : DecodedFront (room - 1) src p t) :
    DecodedFront room (37 :: hi :: lo :: src) (37 :: hi :: lo :: p)
      (UInt8.ofNat (h * 16 + l) :: t) where
  front := by simpa only [List.cons_prefix_cons, true_and] using hrest.front
  decodes := hrest.decodes.cons hroom hout (.escape hhi hlo hrest.decodes.reads)
  longest p' t' hp' ht' := by
    obtain ⟨rfl, rfl⟩ | ⟨p'', t'', rfl, rfl, hp'', hreads⟩ :=
      ht'.reads.front_escape_of_hexDigit hhi hlo hp'
    · exact ⟨List.nil_prefix, List.nil_prefix⟩
    · obtain ⟨hpp, htt⟩ := hrest.longest p'' t'' hp'' (ht'.tail hreads).2.2
      simp only [List.cons_prefix_cons, true_and]
      exact ⟨hpp, htt⟩

theorem DecodedFront.raw {room : Nat} {c : Byte} {src p t : Bytes} (hroom : 0 < room)
    (hc : c ≠ 37) (hout : plusToSpace c ≠ 0) (hrest : DecodedFront (room - 1) src p t) :
    DecodedFront room (c :: src) (c :: p) (plusToSpace c :: t) where
  front := by simpa only [List.cons_prefix_cons, true_and] using hrest.front
  decodes := hrest.decodes.cons hroom hout (.raw hc hrest.decodes.reads)
  longest p' t' hp' ht' := by
    obtain ⟨rfl, rfl⟩ | ⟨p'', t'', rfl, rfl, hp'', hreads⟩ := ht'.reads.front_raw hc hp'
    · exact ⟨List.nil_prefix, List.nil_prefix⟩
    · obtain ⟨hpp, htt⟩ := hrest.longest p'' t'' hp'' (ht'.tail hreads).2.2
      simp only [List.cons_prefix_cons, true_and]
      exact ⟨hpp, htt⟩

theorem storeDecoded_eq_some {dstSize : Nat} {stored stored' : Bytes} {out : Byte}
    (h : storeDecoded dstSize stored out = some stored') :
    out ≠ 0 ∧ stored.length + 1 < dstSize ∧ stored' = stored ++ [out] := by
  rw [storeDecoded] at h
  split at h
  · simp at h
  · next hout =>
    split at h
    · simp at h
    · next hfull => exact ⟨hout, by omega, (Option.some.inj h).symm⟩

theorem storeDecoded_eq_none {dstSize : Nat} {stored : Bytes} {out : Byte}
    (h : storeDecoded dstSize stored out = none) : out = 0 ∨ dstSize ≤ stored.length + 1 := by
  rw [storeDecoded] at h
  split at h
  · next hout => exact .inl hout
  · split at h
    · next hfull => exact .inr hfull
    · simp at h

/-- The loop collects what the longest front part that decodes stands for, and
    succeeds when that is the whole source. -/
theorem urlDecodeLoop_front {dstSize : Nat} (src stored : Bytes) (hroom : stored.length < dstSize) :
    ∃ p t, DecodedFront (dstSize - 1 - stored.length) src p t ∧
      (urlDecodeLoop dstSize src stored).2 = stored ++ t ∧
      ((urlDecodeLoop dstSize src stored).1 = true ↔ p = src) := by
  -- where the loop stops, no front part of what is left but the empty one decodes
  fun_induction urlDecodeLoop dstSize src stored with
  | case1 stored =>
      refine ⟨[], [], ?_, (List.append_nil _).symm, iff_of_true rfl rfl⟩
      apply DecodedFront.stuck
      intro p t hp ht
      obtain rfl := List.prefix_nil.mp hp
      exact ⟨rfl, ht.reads.nil_inversion⟩
  | case2 hi lo src stored h l hlo hhi stored' hstore ih =>
      rw [hexValue_eq] at hlo hhi
      obtain ⟨hout, hlt, rfl⟩ := storeDecoded_eq_some hstore
      have hlen : (stored ++ [UInt8.ofNat (h * 16 + l)]).length = stored.length + 1 :=
        List.length_append
      obtain ⟨p, t, hfront, hstored, hok⟩ := ih (by omega)
      rw [hlen, Nat.sub_add_eq] at hfront
      refine ⟨_, _, hfront.escape (by omega) hhi hlo hout, ?_, ?_⟩
      · rw [hstored, List.append_assoc, List.singleton_append]
      · rw [hok]
        simp
  | case3 hi lo src stored h l hlo hhi hstore =>
      rw [hexValue_eq] at hlo hhi
      refine ⟨[], [], ?_, (List.append_nil _).symm, iff_of_false Bool.false_ne_true (by simp)⟩
      apply DecodedFront.stuck
      intro p t hp ht
      obtain hnil | ⟨p', t', rfl, rfl, -, hreads⟩ :=
        ht.reads.front_escape_of_hexDigit hhi hlo hp
      · exact hnil
      · obtain ⟨hpos, hout, -⟩ := ht.tail hreads
        rcases storeDecoded_eq_none hstore with hzero | hfull
        · exact absurd hzero hout
        · omega
  | case4 hi lo src stored hbad =>
      simp only [hexValue_eq] at hbad
      refine ⟨[], [], ?_, (List.append_nil _).symm, iff_of_false Bool.false_ne_true (by simp)⟩
      apply DecodedFront.stuck
      intro p t hp ht
      obtain hnil | ⟨hi', lo', x, y, p', s', t', hs, rfl, rfl, -, hx, hy, hreads⟩ :=
        ht.reads.front_escape hp
      · exact hnil
      · obtain ⟨rfl, rfl, rfl⟩ : hi = hi' ∧ lo = lo' ∧ src = s' := by simpa using hs
        exact absurd hy (hbad x y hx)
  | case5 src stored hshort =>
      refine ⟨[], [], ?_, (List.append_nil _).symm, iff_of_false Bool.false_ne_true (by simp)⟩
      apply DecodedFront.stuck
      intro p t hp ht
      obtain hnil | ⟨hi', lo', x, y, p', s', t', hs, -⟩ := ht.reads.front_escape hp
      · exact hnil
      · exact (hshort hi' lo' s' rfl hs).elim
  | case6 c src stored hshort hc stored' hstore ih =>
      obtain ⟨hout, hlt, rfl⟩ := storeDecoded_eq_some hstore
      have hlen : (stored ++ [plusToSpace c]).length = stored.length + 1 := List.length_append
      obtain ⟨p, t, hfront, hstored, hok⟩ := ih (by rw [← plusToSpace]; omega)
      rw [← plusToSpace, hlen, Nat.sub_add_eq] at hfront
      refine ⟨_, _, hfront.raw (by omega) hc hout, ?_, ?_⟩
      · rw [hstored, List.append_assoc, List.singleton_append]
        rfl
      · rw [hok]
        simp
  | case7 c src stored hshort hc hstore =>
      refine ⟨[], [], ?_, (List.append_nil _).symm, iff_of_false Bool.false_ne_true (by simp)⟩
      apply DecodedFront.stuck
      intro p t hp ht
      obtain hnil | ⟨p', t', rfl, rfl, -, hreads⟩ := ht.reads.front_raw hc hp
      · exact hnil
      · obtain ⟨hpos, hout, -⟩ := ht.tail hreads
        rcases storeDecoded_eq_none hstore with hzero | hfull
        · exact absurd hzero hout
        · omega

/-- A source that can all be decoded is. -/
theorem DecodedFront.eq_of_decodes {room : Nat} {src p t t' : Bytes}
    (hfront : DecodedFront room src p t) (h : Decodes room src t') : p = src ∧ t = t' := by
  obtain ⟨hsrc, -⟩ := hfront.longest src t' (List.prefix_refl src) h
  obtain rfl := hfront.front.eq_of_length_le hsrc.length_le
  exact ⟨rfl, hfront.decodes.reads.unique h.reads⟩

/-- `mnet_url_decode` with room for the whole text: what it stands for, or the
    empty string. -/
theorem mnetUrlDecode_eq {outSize : Nat} {s : Bytes} (h0 : (0 : Byte) ∉ s)
    (hfits : s.length < outSize) :
    mnetUrlDecode outSize s = (Percent.decode plusToSpace s).getD [] := by
  have hraw : ∀ c ∈ s, plusToSpace c ≠ 0 := fun c hc =>
    plusToSpace_ne_zero fun hzero => h0 (hzero ▸ hc)
  have hpos : outSize ≠ 0 := by omega
  obtain ⟨p, t, hfront, hstored, hok⟩ := @urlDecodeLoop_front outSize s [] (by simpa using by omega)
  rw [List.nil_append] at hstored
  simp only [mnetUrlDecode, mnetUrlDecodeEx, if_neg hpos, hstored]
  cases hread : Percent.decode plusToSpace s with
  | none =>
      have hrefused : ¬ p = s := by
        rintro rfl
        have hsome := hfront.decodes.reads.decode_eq hfront.decodes.noNul
        rw [hread] at hsome
        simp at hsome
      rw [if_neg (mt hok.mp hrefused)]
      rfl
  | some t' =>
      have hreads := Percent.reads_of_decode hread
      have hnul := Percent.zero_not_mem_decode hraw hread
      have hlen := hreads.length_le
      have hroom : t'.length ≤ outSize - 1 - ([] : Bytes).length := by
        rw [List.length_nil]
        omega
      obtain ⟨hp, rfl⟩ := hfront.eq_of_decodes ⟨hreads, hnul, hroom⟩
      rw [if_pos (hok.mpr hp)]
      rfl

-- ============================================================================
-- The decoder of mnet_route_match
-- ============================================================================

/-- What is stored stays in front. -/
theorem isPrefix_decodeSegment (seg decoded : Bytes) : decoded <+: decodeSegment seg decoded := by
  fun_induction decodeSegment seg decoded with
  | case1 => exact List.prefix_refl _
  | case2 _ _ _ _ _ _ _ _ _ ih => exact (List.prefix_append _ _).trans ih
  | case3 _ _ _ _ _ _ ih => exact (List.prefix_append _ _).trans ih
  | case4 => exact List.prefix_refl _
  | case5 _ _ _ _ _ ih => exact (List.prefix_append _ _).trans ih
  | case6 => exact List.prefix_refl _

/-- A segment that can be read is decoded as it reads. -/
theorem decodeSegment_of_decode {seg decoded t : Bytes} (h : Percent.decode id seg = some t)
    (hfits : decoded.length + seg.length ≤ 4095) : decodeSegment seg decoded = decoded ++ t := by
  fun_induction decodeSegment seg decoded generalizing t with
  | case1 decoded =>
      obtain rfl : [] = t := Option.some.inj h
      exact (List.append_nil _).symm
  | case2 hi lo seg decoded hroom x y hlo hhi ih =>
      rw [hexValue_eq] at hlo hhi
      simp only [List.length_cons] at hfits
      by_cases hzero : UInt8.ofNat (x * 16 + y) = 0
      · rw [Percent.decode_zero hhi hlo hzero] at h
        simp at h
      · rw [Percent.decode_escape hhi hlo hzero] at h
        obtain ⟨t', ht', rfl⟩ := Option.map_eq_some_iff.mp h
        rw [ih ht' (by rw [List.length_append, List.length_singleton]; omega), List.append_assoc,
          List.singleton_append]
  | case3 hi lo seg decoded hroom hbad =>
      simp only [hexValue_eq] at hbad
      rw [Percent.decode_malformed hbad] at h
      simp at h
  | case4 hi lo seg decoded hfull =>
      simp only [List.length_cons] at hfits
      omega
  | case5 c seg decoded hshort hroom ih =>
      rw [List.length_cons] at hfits
      by_cases hc : c = 37
      · subst hc
        rw [Percent.decode_truncated fun hi lo s => hshort hi lo s rfl] at h
        simp at h
      · rw [Percent.decode_raw hc] at h
        obtain ⟨t', ht', rfl⟩ := Option.map_eq_some_iff.mp h
        rw [ih ht' (by rw [List.length_append, List.length_singleton]; omega), List.append_assoc,
          List.singleton_append]
        rfl
  | case6 c seg decoded _ hfull =>
      rw [List.length_cons] at hfits
      omega

/-- The escape of the byte 0. -/
def nulEscape : Bytes := ascii "%00"

theorem hexDigit?_eq_zero_iff (c : Byte) : Percent.hexDigit? c = some 0 ↔ c = 48 := by
  revert c
  apply forall_byte
  decide +kernel

theorem hexDigit?_lt (c : Byte) : ∀ n ∈ Percent.hexDigit? c, n < 16 := by
  revert c
  apply forall_byte
  decide +kernel

theorem ofNat_hex_eq_zero_iff {h l : Nat} (hh : h < 16) (hl : l < 16) :
    UInt8.ofNat (h * 16 + l) = 0 ↔ h = 0 ∧ l = 0 := by
  rw [← UInt8.toNat_inj, UInt8.toNat_ofNat', UInt8.toNat_zero]
  omega

/-- The decoded segment is the empty string in C when the segment is empty or
    starts with the escape of the byte 0. -/
theorem cstr_decodeSegment_eq_nil_iff {seg : Bytes} (h0 : (0 : Byte) ∉ seg) :
    cstr (decodeSegment seg []) = [] ↔ seg = [] ∨ nulEscape <+: seg := by
  have hnil : ∀ {b : Byte} {rest : Bytes}, cstr (decodeSegment rest ([] ++ [b])) = [] ↔ b = 0 := by
    intro b rest
    obtain ⟨t, ht⟩ := isPrefix_decodeSegment rest ([] ++ [b])
    rw [← ht]
    by_cases hb : b = 0
    · simp [cstr, hb]
    · simp [cstr, hb]
  have hescape : nulEscape = [37, 48, 48] := by decide
  rw [hescape]
  unfold decodeSegment
  split
  · simp [cstr]
  · next hi lo seg =>
    rw [if_pos (by simp)]
    split
    · next x y hhi hlo =>
      rw [hexValue_eq] at hhi hlo
      rw [hnil, ofNat_hex_eq_zero_iff (hexDigit?_lt _ _ hhi)
        (hexDigit?_lt _ _ hlo)]
      have hhi0 := hexDigit?_eq_zero_iff hi
      have hlo0 := hexDigit?_eq_zero_iff lo
      rw [hhi, Option.some.injEq] at hhi0
      rw [hlo, Option.some.injEq] at hlo0
      rw [hhi0, hlo0, List.cons_prefix_cons, List.cons_prefix_cons, List.cons_prefix_cons]
      simp only [List.nil_prefix, and_true, true_and, reduceCtorEq, false_or]
      exact and_congr eq_comm eq_comm
    · next hbad =>
      simp only [hexValue_eq] at hbad
      rw [hnil]
      refine iff_of_false (by decide) ?_
      rintro (h | h)
      · simp at h
      · obtain ⟨rfl, rfl⟩ : 48 = hi ∧ 48 = lo := by simpa [List.cons_prefix_cons] using h
        exact hbad 0 0 (by decide) (by decide)
  · next c seg hshort =>
    rw [if_pos (by simp), hnil]
    refine iff_of_false (fun hc => h0 (hc ▸ List.mem_cons_self ..)) ?_
    rintro (h | h)
    · simp at h
    · obtain ⟨t, ht⟩ := h
      obtain ⟨rfl, rfl⟩ := List.cons.inj ht
      exact hshort 48 48 t rfl rfl

-- ============================================================================
-- Strict path parameters
-- ============================================================================

/-- The value of a path parameter is what its segment stands for, `+` for
    itself, or the empty string when the segment cannot be read; and
    `mnet_url_decode` agrees where the segment holds no `+`. -/
structure DecodedStrictly (seg value : Bytes) : Prop where
  strict : value = (Percent.decode id seg).getD []
  agrees : PLUS ∉ seg → ∀ outSize, seg.length < outSize → value = mnetUrlDecode outSize seg

/-- A segment is decoded strictly when it can be read, and else only when it
    starts with the escape of the byte 0. -/
theorem decodedStrictly_iff {seg : Bytes} (h0 : (0 : Byte) ∉ seg) (hlen : seg.length ≤ 2047) :
    DecodedStrictly seg (cstr (decodeSegment seg [])) ↔
      (Percent.decode id seg).isSome = true ∨ nulEscape <+: seg := by
  have hnil := cstr_decodeSegment_eq_nil_iff h0
  have hagrees : ∀ {value : Bytes}, value = (Percent.decode id seg).getD [] → PLUS ∉ seg →
      ∀ outSize, seg.length < outSize → value = mnetUrlDecode outSize seg := by
    intro value hvalue hplus outSize hout
    have hraw : ∀ c ∈ seg, id c = plusToSpace c := by
      intro c hc
      have hne : c ≠ PLUS := by
        rintro rfl
        exact hplus hc
      rw [plusToSpace, if_neg hne]
      rfl
    rw [hvalue, mnetUrlDecode_eq h0 hout, Percent.decode_congr hraw]
  constructor
  · rintro ⟨hstrict, -⟩
    cases hread : Percent.decode id seg with
    | some t => exact .inl rfl
    | none =>
        rw [hread] at hstrict
        obtain rfl | hescape := hnil.mp hstrict
        · simp [Percent.decode] at hread
        · exact .inr hescape
  · rintro (hsome | hescape)
    · obtain ⟨t, hread⟩ := Option.isSome_iff_exists.mp hsome
      have ht0 : (0 : Byte) ∉ t :=
        Percent.zero_not_mem_decode (fun c hc hzero => h0 (hzero ▸ hc)) hread
      have hstrict : cstr (decodeSegment seg []) = (Percent.decode id seg).getD [] := by
        rw [decodeSegment_of_decode hread (by simp only [List.length_nil]; omega), List.nil_append,
          cstr_of_noNul ht0, hread, Option.getD_some]
      exact ⟨hstrict, hagrees hstrict⟩
    · have hread : Percent.decode id seg = none := by
        obtain ⟨rest, rfl⟩ := hescape
        exact @Percent.decode_zero id 48 48 0 0 (by decide) (by decide) (by decide) rest
      have hstrict : cstr (decodeSegment seg []) = (Percent.decode id seg).getD [] := by
        rw [hread, hnil.mpr (.inr hescape), Option.getD_none]
      exact ⟨hstrict, hagrees hstrict⟩

theorem routeCaptures_text_subset {pattern path : Bytes} {c : Capture}
    (hc : c ∈ (routeCaptures pattern path).1) : c.text ⊆ path := by
  rw [routeCaptures] at hc
  split at hc
  · exact absurd hc List.not_mem_nil
  · exact captures_text_subset hc

/-- The value `mnet_route_match` delivers for a named segment is decoded
    strictly exactly when the segment can be read or starts with the escape of
    the byte 0. -/
theorem pathParam_decodedStrictly_iff {route : MnetRoute} {path : Bytes} {values : List ParamSlot}
    {maxValues n k : Nat} {c : Capture} (h0 : (0 : Byte) ∉ path)
    (hroom : maxValues ≤ values.length)
    (hmatch : (mnetRouteMatch route path values maxValues).count = some n)
    (hc : (routeCaptures route.path path).1[k]? = some c) (hk : k < maxValues)
    (hsite : c.site.head? = some COLON) (hlen : c.text.length ≤ 2047) :
    ∃ value, (mnetRouteMatch route path values maxValues).values[k]? = some (.live value) ∧
      (DecodedStrictly c.text (cstr value) ↔
        (Percent.decode id c.text).isSome = true ∨ nulEscape <+: c.text) := by
  have hok : (routeCaptures route.path path).2 = true := by
    rw [mnetRouteMatch_count] at hmatch
    by_contra hnot
    rw [if_neg hnot] at hmatch
    simp at hmatch
  have hvalue : c.value = decodeSegment c.text [] := by
    rw [Capture.value, hsite, if_neg (by decide)]
  have hslot : (storeCaptures maxValues 0 values (routeCaptures route.path path).1)[0 + k]? =
      some (.live c.value) :=
    storeCaptures_getElem? hc (by omega) (by omega)
  refine ⟨decodeSegment c.text [], ?_, decodedStrictly_iff ?_ hlen⟩
  · rw [mnetRouteMatch_eq, if_pos hok, ← hvalue, ← hslot, Nat.zero_add]
  · exact fun hzero => h0 (routeCaptures_text_subset (List.mem_of_getElem? hc) hzero)

/-- A route with one parameter. -/
def userRoute : MnetRoute := registeredRoute .get (ascii "/users/:id") fun _ _ => {}

theorem pathParam_decodedStrictly_userRoute :
    ∃ value, (mnetRouteMatch userRoute (ascii "/users/a%20b") (List.replicate 16 .null) 16).values[0]? =
        some (.live value) ∧
      (DecodedStrictly (ascii "a%20b") (cstr value) ↔
        (Percent.decode id (ascii "a%20b")).isSome = true ∨ nulEscape <+: ascii "a%20b") :=
  pathParam_decodedStrictly_iff (n := 1) (c := ⟨ascii ":id", ascii "a%20b"⟩) (by decide) (by decide)
    (by decide +kernel) (by decide +kernel) (by decide) (by decide) (by decide)

/-- A percent sign at the end of a segment is delivered as it stands, where the
    empty string is due. -/
theorem not_pathParam_decodedStrictly :
    ¬ ∀ (route : MnetRoute) (path : Bytes) (values : List ParamSlot) (maxValues n k : Nat)
        (c : Capture), (0 : Byte) ∉ path → maxValues ≤ values.length →
      (mnetRouteMatch route path values maxValues).count = some n →
      (routeCaptures route.path path).1[k]? = some c → k < maxValues →
      c.site.head? = some COLON → c.text.length ≤ 2047 →
      ∃ value, (mnetRouteMatch route path values maxValues).values[k]? = some (.live value) ∧
        DecodedStrictly c.text (cstr value) := by
  intro h
  obtain ⟨value, hvalue, hdecoded⟩ := h userRoute (ascii "/users/100%") (List.replicate 16 .null)
    16 1 0 ⟨ascii ":id", ascii "100%"⟩ (by decide) (by decide) (by decide +kernel)
    (by decide +kernel) (by decide) (by decide) (by decide)
  have hslot : (mnetRouteMatch userRoute (ascii "/users/100%") (List.replicate 16 .null)
      16).values[0]? = some (.live (ascii "100%")) := by decide +kernel
  rw [hslot] at hvalue
  obtain rfl := ParamSlot.live.inj (Option.some.inj hvalue)
  exact absurd hdecoded.strict (by decide)

end Mnet
