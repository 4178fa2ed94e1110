/-
  Mnet.UrlDecodeBuffer

  The URL decoder on the memory it writes.

  `mnet_url_decode_ex` stores byte by byte and checks one byte at a time, so
  that at a refusal the bytes decoded so far are in the destination.  What it
  accepts, and what it returns and stores then, is the grammar of
  percent-coded text; nothing is ever stored at `dst_size` or behind it.
-/

import Mnet.Lib.Memory
import Mnet.UrlDecoding

namespace Mnet

-- ============================================================================
-- The decoder on memory
-- ============================================================================

/-- `(int)pos` for a `size_t`. -/
def intOfSize (pos : Nat) : Int := (pos : Int).bmod (2 ^ 32)

/-- Store one decoded byte at `dst[pos]`, unless it is NUL or would not fit. -/
def writeDecoded (dstSize pos : Nat) (dst : Memory Byte) (out : Byte) : Option (Memory Byte) :=
  if out = 0 then none
  else if pos + 1 ≥ dstSize then none
  else some (Function.update dst pos out)

/-- The loop of `mnet_url_decode_ex` from the source bytes that are left, with
    `pos` bytes stored: the value returned and the memory behind `dst`, which
    the source is no part of. -/
def urlDecodeWrites (dstSize : Nat) : Bytes → Nat → Memory Byte → Int × Memory Byte
  | [], pos, dst => (intOfSize pos, Function.update dst pos 0)
  | 37 :: hi :: lo :: src, pos, dst =>
      match hexValue hi, hexValue lo with
      | some h, some l =>
          match writeDecoded dstSize pos dst (UInt8.ofNat (h * 16 + l)) with
          | some dst' => urlDecodeWrites dstSize src (pos + 1) dst'
          | none => (-1, dst)
      | _, _ => (-1, dst)
  | c :: src, pos, dst =>
      -- a '%' that reaches this case is a truncated escape
      if c = 37 then (-1, dst)
      else
        match writeDecoded dstSize pos dst (if c = 43 then SP else c) with
        | some dst' => urlDecodeWrites dstSize src (pos + 1) dst'
        | none => (-1, dst)

/-- `mnet_url_decode_ex(src, src_len, dst, dst_size)` on the `src_len` bytes of
    `src`. -/
def urlDecodeEx (src : Bytes) (dst : Memory Byte) (dstSize : Nat) : Int × Memory Byte :=
  if dstSize = 0 then (-1, dst) else urlDecodeWrites dstSize src 0 dst

/-- `mnet_url_decode_safe(src, dst, dst_size)`. -/
def mnetUrlDecodeSafe (src : Bytes) (dst : Memory Byte) (dstSize : Nat) : Int × Memory Byte :=
  urlDecodeEx (cstr src) dst dstSize

/-- `mnet_url_decode(out, out_size, s)`; the `size_t` returned is never
    negative. -/
def urlDecode (out : Memory Byte) (outSize : Nat) (s : Bytes) : Int × Memory Byte :=
  if outSize = 0 then (0, out)
  else
    let r := urlDecodeEx (cstr s) out outSize
    if r.1 < 0 then (0, Function.update r.2 0 0) else r

theorem writeDecoded_store (dstSize : Nat) (dst : Memory Byte) (stored : Bytes) (out : Byte) :
    writeDecoded dstSize stored.length (dst.store stored) out =
      (storeDecoded dstSize stored out).map dst.store := by
  rw [writeDecoded, storeDecoded, Memory.update_store]
  split
  · rfl
  · split
    · rfl
    · rfl

theorem length_storeDecoded {dstSize : Nat} {stored stored' : Bytes} {out : Byte}
    (h : storeDecoded dstSize stored out = some stored') : stored'.length = stored.length + 1 := by
  obtain ⟨-, -, rfl⟩ := storeDecoded_eq_some h
  exact List.length_append

/-- The value returned and the memory, from what the loop on lists ends with. -/
def decodeOutcome (dst : Memory Byte) (r : Bool × Bytes) : Int × Memory Byte :=
  if r.1 then (intOfSize r.2.length, dst.store (r.2 ++ [0])) else (-1, dst.store r.2)

/-- The loop on memory stores what the loop on lists collects, and a NUL behind
    it when it succeeds. -/
theorem urlDecodeWrites_eq (dstSize : Nat) (src stored : Bytes) (dst : Memory Byte) :
    urlDecodeWrites dstSize src stored.length (dst.store stored) =
      decodeOutcome dst (urlDecodeLoop dstSize src stored) := by
  -- `stored` are the bytes in memory so far, so both loops take the same branch
  fun_induction urlDecodeLoop dstSize src stored with
  | case1 stored =>
      rw [urlDecodeWrites, Memory.update_store]
      rfl
  | case2 hi lo src stored h l hlo hhi stored' hstore ih =>
      rw [urlDecodeWrites]
      simp only [hhi, hlo, writeDecoded_store, hstore, Option.map_some]
      rw [← length_storeDecoded hstore]
      exact ih
  | case3 hi lo src stored h l hlo hhi hstore =>
      rw [urlDecodeWrites]
      simp only [hhi, hlo, writeDecoded_store, hstore, Option.map_none]
      rfl
  | case4 hi lo src stored hbad =>
      rw [urlDecodeWrites]
      split
      · next h l hhi hlo => exact absurd hlo (hbad h l hhi)
      · rfl
  | case5 src stored hshort =>
      rw [urlDecodeWrites]
      · exact if_pos rfl
      · exact fun hi lo s _ => hshort hi lo s rfl
  | case6 c src stored hshort hc stored' hstore ih =>
      rw [urlDecodeWrites, if_neg hc]
      · simp only [writeDecoded_store, hstore, Option.map_some]
        rw [← length_storeDecoded hstore]
        exact ih
      · exact hshort
  | case7 c src stored hshort hc hstore =>
      rw [urlDecodeWrites, if_neg hc]
      · simp only [writeDecoded_store, hstore, Option.map_none]
        rfl
      · exact hshort

theorem urlDecodeEx_eq (src : Bytes) (dst : Memory Byte) (dstSize : Nat) :
    urlDecodeEx src dst dstSize = decodeOutcome dst (mnetUrlDecodeEx src dstSize) := by
  rw [urlDecodeEx, mnetUrlDecodeEx]
  split
  · rw [decodeOutcome, if_neg Bool.false_ne_true, Memory.store_nil]
  · have h := urlDecodeWrites_eq dstSize src [] dst
    rwa [Memory.store_nil] at h

-- ============================================================================
-- What is accepted
-- ============================================================================

/-- The source is in the grammar, names no NUL, and is decoded into the room
    there is. -/
structure Accepted (src : Bytes) (dstSize : Nat) : Prop where
  hasRoom : 0 < dstSize
  escapes : Percent.EscapesComplete src
  noNul : (0 : Byte) ∉ src ∧ ¬ nulEscape <:+: src
  fits : ∃ t, Percent.Reads plusToSpace src t ∧ t.length + 1 ≤ dstSize

/-- The string is returned: its length, its bytes and a NUL behind them. -/
structure Delivers (r : Int × Memory Byte) (t : Bytes) : Prop where
  length : r.1 = t.length
  bytes : r.2.Holds t
  terminated : r.2 t.length = 0

/-- The ways to write a byte: its escape, in either case, `+` for a space, and
    the byte itself. -/
def EncodedByte (b : Byte) (piece : Bytes) : Prop :=
  Percent.IsEscape b piece ∨ (b = SP ∧ piece = [PLUS]) ∨ (b ≠ 37 ∧ b ≠ PLUS ∧ piece = [b])

/-- `mnet_url_decode_ex` accepts the sources of the grammar, delivers the one
    string such a source stands for, and stores nothing at `dst_size` or behind
    it; and it gives back the string a source was written from. -/
structure DecodesExactly (src : Bytes) (dst : Memory Byte) (dstSize : Nat) : Prop where
  accepts : 0 ≤ (urlDecodeEx src dst dstSize).1 ↔ Accepted src dstSize
  refuses : ¬ Accepted src dstSize → (urlDecodeEx src dst dstSize).1 = -1
  delivers : Accepted src dstSize → ∃ t, (∀ t', Percent.Reads plusToSpace src t' ↔ t' = t) ∧
    Delivers (urlDecodeEx src dst dstSize) t
  bounded : ∀ i, dstSize ≤ i → (urlDecodeEx src dst dstSize).2 i = dst i
  roundTrip : ∀ s, (0 : Byte) ∉ s → Percent.Writes EncodedByte s src → s.length + 1 ≤ dstSize →
    Delivers (urlDecodeEx src dst dstSize) s ∧ Delivers (urlDecode dst dstSize src) s

/-- The string a source stands for holds a NUL when the source does, or an
    escape for it. -/
theorem zero_mem_reads_iff {src t : Bytes} (h : Percent.Reads plusToSpace src t) :
    0 ∈ t ↔ 0 ∈ src ∨ nulEscape <:+: src := by
  have hescape : nulEscape = [37, 48, 48] := by decide
  rw [hescape]
  induction h with
  | nil => simp
  | @escape hi lo h l s t hhi hlo _ ih =>
      have hhi' : (Percent.hexDigit? hi).isSome = true := by rw [hhi]; rfl
      have hlo' : (Percent.hexDigit? lo).isSome = true := by rw [hlo]; rfl
      have hhi37 := Percent.ne_percent_of_hexDigit hhi'
      have hlo37 := Percent.ne_percent_of_hexDigit hlo'
      have hhi0 : hi ≠ 0 := by rintro rfl; exact absurd hhi' (by decide)
      have hlo0 : lo ≠ 0 := by rintro rfl; exact absurd hlo' (by decide)
      have hzero : UInt8.ofNat (h * 16 + l) = 0 ↔ hi = 48 ∧ lo = 48 := by
        rw [ofNat_hex_eq_zero_iff (hexDigit?_lt _ _ hhi) (hexDigit?_lt _ _ hlo),
          ← hexDigit?_eq_zero_iff hi, ← hexDigit?_eq_zero_iff lo, hhi, hlo, Option.some.injEq,
          Option.some.injEq]
      have hmem : (0 : Byte) ∈ 37 :: hi :: lo :: s ↔ 0 ∈ s := by
        simp [hhi0.symm, hlo0.symm]
      have hoccurs : [37, 48, 48] <:+: 37 :: hi :: lo :: s ↔
          (hi = 48 ∧ lo = 48) ∨ [37, 48, 48] <:+: s := by
        simp [List.infix_cons_iff, List.cons_prefix_cons, hhi37.symm, hlo37.symm, eq_comm]
      rw [hmem, hoccurs, List.mem_cons, eq_comm (a := (0 : Byte)), hzero]
      exact (or_congr_right ih).trans or_left_comm
  | @raw c s t hc _ ih =>
      have hzero : plusToSpace c = 0 ↔ c = 0 :=
        ⟨fun h => by_contra fun hne => plusToSpace_ne_zero hne h, fun h => by rw [h]; rfl⟩
      have hoccurs : [37, 48, 48] <:+: c :: s ↔ [37, 48, 48] <:+: s := by
        simp [List.infix_cons_iff, List.cons_prefix_cons, hc.symm]
      rw [hoccurs, List.mem_cons, List.mem_cons, eq_comm (a := (0 : Byte)), hzero,
        eq_comm (a := (0 : Byte))]
      exact (or_congr_right ih).trans or_assoc.symm

theorem accepted_iff {src : Bytes} {dstSize : Nat} :
    Accepted src dstSize ↔ 0 < dstSize ∧ ∃ t, Decodes (dstSize - 1) src t := by
  constructor
  · rintro ⟨hpos, -, hnul, t, ht, hfits⟩
    have hnot : (0 : Byte) ∉ t := fun h => not_or.mpr hnul ((zero_mem_reads_iff ht).mp h)
    exact ⟨hpos, t, ht, hnot, by omega⟩
  · rintro ⟨hpos, t, ht, hnot, hfits⟩
    have hnul := mt (zero_mem_reads_iff ht).mpr hnot
    exact ⟨hpos, (Percent.exists_reads_iff plusToSpace).mp ⟨t, ht⟩, not_or.mp hnul, t, ht,
      by omega⟩

/-- What a source stands for is stored when it can all be decoded, else what its
    longest front part that decodes stands for. -/
theorem urlDecodeEx_cases (src : Bytes) (dst : Memory Byte) (dstSize : Nat) :
    (dstSize = 0 ∧ urlDecodeEx src dst dstSize = (-1, dst)) ∨
    (∃ t, 0 < dstSize ∧ DecodedFront (dstSize - 1) src src t ∧
      urlDecodeEx src dst dstSize = (intOfSize t.length, dst.store (t ++ [0]))) ∨
    (∃ p t, 0 < dstSize ∧ p ≠ src ∧ DecodedFront (dstSize - 1) src p t ∧
      urlDecodeEx src dst dstSize = (-1, dst.store t)) := by
  rcases Nat.eq_zero_or_pos dstSize with hzero | hpos
  · exact .inl ⟨hzero, if_pos hzero⟩
  · right
    obtain ⟨p, t, hfront, hstored, hok⟩ := urlDecodeLoop_front src [] hpos
    rw [List.length_nil, Nat.sub_zero] at hfront
    rw [List.nil_append] at hstored
    rw [urlDecodeEx_eq, mnetUrlDecodeEx, if_neg (Nat.ne_of_gt hpos), decodeOutcome, hstored]
    by_cases hp : p = src
    · rw [if_pos (hok.mpr hp)]
      subst hp
      exact .inl ⟨t, hpos, hfront, rfl⟩
    · rw [if_neg (mt hok.mp hp)]
      exact .inr ⟨p, t, hpos, hp, hfront, rfl⟩

/-- Only a source that can all be decoded is accepted. -/
theorem DecodedFront.eq_of_accepted {src p t : Bytes} {dstSize : Nat}
    (hfront : DecodedFront (dstSize - 1) src p t) (h : Accepted src dstSize) : p = src := by
  obtain ⟨-, t', ht'⟩ := accepted_iff.mp h
  exact (hfront.eq_of_decodes ht').1

theorem intOfSize_eq {pos : Nat} (h : pos ≤ INT_MAX) : intOfSize pos = pos := by
  have hint : INT_MAX = 2 ^ 31 - 1 := rfl
  exact Int.bmod_eq_of_le (by omega) (by omega)

theorem delivers_store {dst : Memory Byte} {t : Bytes} {n : Int} (h : n = t.length) :
    Delivers (n, dst.store (t ++ [0])) t where
  length := h
  bytes := (Memory.holds_store dst (t ++ [0])).of_isPrefix (List.prefix_append t [0])
  terminated := by
    show dst.store (t ++ [0]) t.length = 0
    rw [← Memory.update_store, Function.update_self]

theorem encodedByte_cases (b : Byte) (piece : Bytes) (h : EncodedByte b piece) :
    Percent.IsEscape b piece ∨ ∃ c, c ≠ 37 ∧ piece = [c] ∧ plusToSpace c = b := by
  rcases h with h | ⟨rfl, rfl⟩ | ⟨h37, hplus, rfl⟩
  · exact .inl h
  · exact .inr ⟨PLUS, by decide, rfl, rfl⟩
  · exact .inr ⟨b, h37, rfl, if_neg hplus⟩

/-- The decoder delivers what the source stands for. -/
theorem urlDecodeEx_delivers {src t : Bytes} {dst : Memory Byte} {dstSize : Nat}
    (hlen : src.length ≤ INT_MAX) (ht : Percent.Reads plusToSpace src t) (h0 : (0 : Byte) ∉ t)
    (hfits : t.length + 1 ≤ dstSize) : Delivers (urlDecodeEx src dst dstSize) t := by
  have haccepted : Accepted src dstSize := accepted_iff.mpr ⟨by omega, t, ht, h0, by omega⟩
  rcases urlDecodeEx_cases src dst dstSize with ⟨rfl, -⟩ | ⟨t', -, hfront, heq⟩ |
    ⟨p, t', -, hne, hfront, -⟩
  · omega
  · obtain rfl := ht.unique hfront.decodes.reads
    rw [heq]
    exact delivers_store (intOfSize_eq (Nat.le_trans ht.length_le hlen))
  · exact absurd (hfront.eq_of_accepted haccepted) hne

/-- A source written from a string without NUL holds none. -/
theorem zero_not_mem_of_writes {s src : Bytes} (h0 : (0 : Byte) ∉ s)
    (h : Percent.Writes EncodedByte s src) : (0 : Byte) ∉ src := fun hmem =>
  h0 ((zero_mem_reads_iff (h.reads encodedByte_cases)).mpr (.inl hmem))

theorem urlDecodeEx_refuses {src : Bytes} {dst : Memory Byte} {dstSize : Nat}
    (hnot : ¬ Accepted src dstSize) : (urlDecodeEx src dst dstSize).1 = -1 := by
  rcases urlDecodeEx_cases src dst dstSize with ⟨-, heq⟩ | ⟨t, hpos, hfront, -⟩ |
    ⟨p, t, -, -, -, heq⟩
  · rw [heq]
  · exact absurd (accepted_iff.mpr ⟨hpos, t, hfront.decodes⟩) hnot
  · rw [heq]

/-- Nothing is stored at `dst_size` or behind it. -/
theorem urlDecodeEx_bounded (src : Bytes) (dst : Memory Byte) {dstSize i : Nat} (hi : dstSize ≤ i) :
    (urlDecodeEx src dst dstSize).2 i = dst i := by
  rcases urlDecodeEx_cases src dst dstSize with ⟨-, heq⟩ | ⟨t, hpos, hfront, heq⟩ |
    ⟨p, t, hpos, -, hfront, heq⟩
  · rw [heq]
  · have hfits := hfront.decodes.fits
    rw [heq]
    apply Memory.store_of_le
    rw [List.length_append, List.length_singleton]
    omega
  · have hfits := hfront.decodes.fits
    rw [heq]
    apply Memory.store_of_le
    omega

/-- `mnet_url_decode` passes on what is delivered. -/
theorem urlDecode_delivers {src t : Bytes} {dst : Memory Byte} {dstSize : Nat}
    (hpos : 0 < dstSize) (h0 : (0 : Byte) ∉ src) (h : Delivers (urlDecodeEx src dst dstSize) t) :
    Delivers (urlDecode dst dstSize src) t := by
  have hnonneg : ¬ (urlDecodeEx src dst dstSize).1 < 0 := by
    rw [h.length]
    omega
  rw [urlDecode, if_neg (Nat.ne_of_gt hpos), cstr_of_noNul h0]
  simp only [if_neg hnonneg]
  exact h

/-- What `mnet_url_decode` leaves in memory is the string of the list model, with
    a NUL behind it. -/
theorem urlDecode_holds {s : Bytes} (hlen : s.length ≤ INT_MAX) (out : Memory Byte) {outSize : Nat}
    (hpos : 0 < outSize) :
    (urlDecode out outSize s).2.Holds (mnetUrlDecode outSize (cstr s) ++ [0]) := by
  obtain ⟨p, t, hfront, hstored, hok⟩ := urlDecodeLoop_front (cstr s) [] hpos
  rw [List.nil_append] at hstored
  simp only [urlDecode, mnetUrlDecode, urlDecodeEx_eq, mnetUrlDecodeEx, if_neg (Nat.ne_of_gt hpos),
    decodeOutcome, hstored]
  by_cases hp : p = cstr s
  · rw [hp] at hfront
    have hshort : t.length ≤ INT_MAX :=
      Nat.le_trans hfront.decodes.reads.length_le
        (Nat.le_trans (List.takeWhile_sublist _).length_le hlen)
    have hnonneg : ¬ intOfSize t.length < 0 := by
      rw [intOfSize_eq hshort]
      omega
    simp only [if_pos (hok.mpr hp), if_neg hnonneg]
    exact Memory.holds_store out (t ++ [0])
  · have hneg : (-1 : Int) < 0 := by decide
    simp only [if_neg (mt hok.mp hp), if_pos hneg, List.nil_append]
    intro i hi
    obtain rfl : i = 0 := Nat.lt_one_iff.mp hi
    exact Function.update_self ..

/-- The decoder accepts its grammar, and delivers what a source of it stands
    for. -/
theorem urlDecodeEx_decodesExactly {src : Bytes} (hlen : src.length ≤ INT_MAX) (dst : Memory Byte)
    (dstSize : Nat) : DecodesExactly src dst dstSize where
  accepts := by
    constructor
    · intro hret
      by_contra hnot
      rw [urlDecodeEx_refuses hnot] at hret
      omega
    · intro h
      obtain ⟨hpos, t, ht, h0, hfits⟩ := accepted_iff.mp h
      rw [(urlDecodeEx_delivers hlen ht h0 (by omega)).length]
      exact Int.natCast_nonneg _
  refuses := urlDecodeEx_refuses
  delivers := by
    intro h
    obtain ⟨hpos, t, ht, h0, hfits⟩ := accepted_iff.mp h
    refine ⟨t, fun t' => ⟨fun ht' => ht'.unique ht, ?_⟩,
      urlDecodeEx_delivers hlen ht h0 (by omega)⟩
    rintro rfl
    exact ht
  bounded := fun _ hi => urlDecodeEx_bounded src dst hi
  roundTrip := by
    intro s h0 hwrites hfits
    have hex := @urlDecodeEx_delivers src s dst dstSize hlen (hwrites.reads encodedByte_cases) h0
      hfits
    exact ⟨hex, urlDecode_delivers (by omega) (zero_not_mem_of_writes h0 hwrites) hex⟩

/-- A buffer of four bytes just holds `a b` and its NUL. -/
theorem urlDecodeEx_decodesExactly_percent20 :
    (ascii "a%20b").length ≤ INT_MAX ∧ DecodesExactly (ascii "a%20b") (fun _ => 88) 4 :=
  ⟨by decide, urlDecodeEx_decodesExactly (by decide) _ 4⟩

-- ============================================================================
-- Failed decodes
-- ============================================================================

/-- If `mnet_url_decode_safe` returns -1, every byte of the destination is what
    it was. -/
def FailsCleanly (src : Bytes) (dst : Memory Byte) (dstSize : Nat) : Prop :=
  (mnetUrlDecodeSafe src dst dstSize).1 = -1 →
    ∀ i, (mnetUrlDecodeSafe src dst dstSize).2 i = dst i

/-- The whole source decodes and fits, and the `int` of the length is none that
    stands for a failure. -/
def DecodesWhole (src : Bytes) (dstSize : Nat) : Prop :=
  ∃ t, 0 < dstSize ∧ Decodes (dstSize - 1) src t ∧ intOfSize t.length ≠ -1

/-- The bytes that come to be stored: what a front part of the source stands
    for, if it holds no NUL and fits, and the NUL behind the whole source's. -/
def Stores (src : Bytes) (dstSize : Nat) (out : Bytes) : Prop :=
  ∃ p t, p <+: src ∧ 0 < dstSize ∧ Decodes (dstSize - 1) p t ∧
    (out = t ∨ p = src ∧ out = t ++ [0])

/-- A failed decode changes nothing exactly where the destination holds already
    what is stored. -/
theorem failsCleanly_iff (src : Bytes) (dst : Memory Byte) (dstSize : Nat) :
    FailsCleanly src dst dstSize ↔
      DecodesWhole (cstr src) dstSize ∨ ∀ out, Stores (cstr src) dstSize out → dst.Holds out := by
  rw [FailsCleanly, mnetUrlDecodeSafe]
  rcases urlDecodeEx_cases (cstr src) dst dstSize with ⟨rfl, heq⟩ | ⟨t, hpos, hfront, heq⟩ |
    ⟨p, t, hpos, hne, hfront, heq⟩
  · -- no room at all: nothing is stored
    rw [heq]
    refine iff_of_true (fun _ _ => rfl) (.inr ?_)
    rintro out ⟨p, t, -, hpos, -⟩
    exact absurd hpos (Nat.lt_irrefl 0)
  · -- the whole source is decoded, but the `int` of its length may be -1
    rw [heq]
    dsimp only
    by_cases hret : intOfSize t.length = -1
    · have hwhole : ¬ DecodesWhole (cstr src) dstSize := by
        rintro ⟨t', -, ht', hne⟩
        obtain rfl := ht'.reads.unique hfront.decodes.reads
        exact hne hret
      have hstored : dst.Holds (t ++ [0]) ↔
          ∀ out, Stores (cstr src) dstSize out → dst.Holds out := by
        constructor
        · rintro h out ⟨p', t', hp', -, ht', rfl | ⟨rfl, rfl⟩⟩
          · have htt := (hfront.longest p' _ hp' ht').2
            exact h.of_isPrefix (htt.trans (List.prefix_append t [0]))
          · obtain rfl := ht'.reads.unique hfront.decodes.reads
            exact h
        · intro h
          exact h _ ⟨cstr src, t, List.prefix_refl _, hpos, hfront.decodes, .inr ⟨rfl, rfl⟩⟩
      rw [or_iff_right hwhole, ← hstored, ← Memory.forall_store_eq_iff]
      exact ⟨fun h => h hret, fun h _ => h⟩
    · exact iff_of_true (fun h => absurd h hret) (.inl ⟨t, hpos, hfront.decodes, hret⟩)
  · -- the source is refused behind the front part `p`
    rw [heq]
    have hrefused : ∀ t', ¬ Decodes (dstSize - 1) (cstr src) t' := fun t' ht' =>
      hne (hfront.eq_of_accepted (accepted_iff.mpr ⟨hpos, t', ht'⟩))
    have hwhole : ¬ DecodesWhole (cstr src) dstSize := by
      rintro ⟨t', -, ht', -⟩
      exact hrefused t' ht'
    have hstored : dst.Holds t ↔ ∀ out, Stores (cstr src) dstSize out → dst.Holds out := by
      constructor
      · rintro h out ⟨p', t', hp', -, ht', rfl | ⟨rfl, rfl⟩⟩
        · exact h.of_isPrefix (hfront.longest p' _ hp' ht').2
        · exact absurd ht' (hrefused t')
      · intro h
        exact h t ⟨p, t, hfront.front, hpos, hfront.decodes, .inl rfl⟩
    rw [or_iff_right hwhole, ← hstored, ← Memory.forall_store_eq_iff]
    exact ⟨fun h => h rfl, fun h _ => h⟩

/-- The byte in front of a malformed escape is stored. -/
theorem not_failsCleanly :
    ¬ ∀ (src : Bytes) (dst : Memory Byte) (dstSize : Nat), FailsCleanly src dst dstSize := by
  intro h
  have hkept := h (ascii "a%zz") (fun _ => 0) 16 (by decide) 0
  exact absurd hkept (by decide)

end Mnet
