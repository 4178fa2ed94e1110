/-
  Mnet.UrlDecodeInPlace

  The URL decoder with source and destination in one memory.

  `parse_query_string` has `mnet_url_decode` write its output over its input.
  `urlDecodeLoopAt` reads and writes one memory, so that a byte stored too early
  would be read back as input; its log says what was read and written, in order.
  Where the destination starts no later than the source, or behind its end, the
  decoder on one memory is the one on two.
-/

import Mnet.UrlDecodeBuffer

namespace Mnet

-- ============================================================================
-- The decoder on one memory
-- ============================================================================

inductive Access
  | read (a : Nat)
  | write (a : Nat)
deriving DecidableEq, Repr

/-- The memory, and what the loop has read and written so far. -/
structure Traced where
  mem : Memory Byte
  log : List Access := []

def Traced.read (st : Traced) (a : Nat) : Byte × Traced :=
  (st.mem a, { st with log := st.log ++ [.read a] })

def Traced.write (st : Traced) (a : Nat) (b : Byte) : Traced :=
  { mem := Function.update st.mem a b, log := st.log ++ [.write a] }

/-- Store one decoded byte at `dst[pos]`, unless it is NUL or would not fit. -/
def Traced.writeDecoded (st : Traced) (dst dstSize pos : Nat) (out : Byte) : Option Traced :=
  if out = 0 then none
  else if pos + 1 ≥ dstSize then none
  else some (st.write (dst + pos) out)

/-- The loop of `mnet_url_decode_ex` from `src[i]` on, with `pos` bytes stored
    at `dst`. -/
def urlDecodeLoopAt (src srcLen dst dstSize i pos : Nat) (st : Traced) : Int × Traced :=
  if i < srcLen then
    let (c, st) := st.read (src + i)
    if c = 37 then
      if i + 2 ≥ srcLen then (-1, st)
      else
        let (hi, st) := st.read (src + (i + 1))
        let (lo, st) := st.read (src + (i + 2))
        match hexValue hi, hexValue lo with
        | some h, some l =>
            match st.writeDecoded dst dstSize pos (UInt8.ofNat (h * 16 + l)) with
            | some st' => urlDecodeLoopAt src srcLen dst dstSize (i + 3) (pos + 1) st'
            | none => (-1, st)
        | _, _ => (-1, st)
    else
      match st.writeDecoded dst dstSize pos (plusToSpace c) with
      | some st' => urlDecodeLoopAt src srcLen dst dstSize (i + 1) (pos + 1) st'
      | none => (-1, st)
  else (intOfSize pos, st.write (dst + pos) 0)
termination_by srcLen - i

/-- `mnet_url_decode_ex(src, src_len, dst, dst_size)`. -/
def urlDecodeExAt (mem : Memory Byte) (src srcLen dst dstSize : Nat) : Int × Traced :=
  if dstSize = 0 then (-1, { mem := mem })
  else urlDecodeLoopAt src srcLen dst dstSize 0 0 { mem := mem }

/-- `strlen(s)`, for an `s` that is NUL-terminated. -/
def strlen (mem : Memory Byte) (s : Nat) (h : ∃ n, mem (s + n) = 0) : Nat := Nat.find h

/-- `mnet_url_decode(out, out_size, s)`. -/
def urlDecodeAt (mem : Memory Byte) (out outSize s : Nat) (h : ∃ n, mem (s + n) = 0) :
    Int × Traced :=
  if outSize = 0 then (0, { mem := mem })
  else
    let r := urlDecodeExAt mem s (strlen mem s h) out outSize
    if r.1 < 0 then (0, r.2.write out 0) else r

/-- The C string at `s`: its bytes, none of them NUL, and a NUL behind them. -/
def StringAt (mem : Memory Byte) (s : Nat) (t : Bytes) : Prop :=
  (0 : Byte) ∉ t ∧ (mem.tail s).Holds (t ++ [0])

/-- No byte is read again once it is written. -/
def ReadsFirst (log : List Access) : Prop :=
  log.Pairwise fun first next => ∀ a, first = .write a → next ≠ .read a

-- ============================================================================
-- One memory is as good as two
-- ============================================================================

/-- The destination starts no later than the source, or behind its end. -/
def Clear (src srcLen dst : Nat) : Prop := dst ≤ src ∨ src + srcLen ≤ dst

/-- The source is in memory from `src[i]` on. -/
def Intact (mem : Memory Byte) (src : Nat) (s : Bytes) (i : Nat) : Prop :=
  ∀ (j : Nat) (h : j < s.length), i ≤ j → mem (src + j) = s[j]

/-- A byte stored no further on than the loop has read spares the rest of the
    source. -/
theorem Intact.update {mem : Memory Byte} {src dst i i' pos : Nat} {s : Bytes}
    (h : Intact mem src s i) (hclear : Clear src s.length dst) (hpos : pos ≤ i) (hi : i < i')
    (out : Byte) : Intact (Function.update mem (dst + pos) out) src s i' := by
  intro j hj hij
  have hne : src + j ≠ dst + pos := by
    rcases hclear with hle | hle
    · omega
    · omega
  rw [Function.update_of_ne hne]
  exact h j hj (by omega)

theorem writeDecoded_tail (st : Traced) (dst dstSize pos : Nat) (out : Byte) :
    writeDecoded dstSize pos (st.mem.tail dst) out =
      (st.writeDecoded dst dstSize pos out).map fun st' => st'.mem.tail dst := by
  rw [writeDecoded, Traced.writeDecoded]
  split
  · rfl
  · split
    · rfl
    · rw [Option.map_some, Traced.write, Memory.tail_update]

theorem writeDecoded_eq_some {st st' : Traced} {dst dstSize pos : Nat} {out : Byte}
    (h : st.writeDecoded dst dstSize pos out = some st') : st' = st.write (dst + pos) out := by
  rw [Traced.writeDecoded] at h
  split at h
  · simp at h
  · split at h
    · simp at h
    · exact (Option.some.inj h).symm

theorem Traced.read_eq {st st' : Traced} {a : Nat} {c : Byte} (h : st.read a = (c, st')) :
    st.mem a = c ∧ st'.mem = st.mem ∧ st'.log = st.log ++ [.read a] := by
  obtain ⟨rfl, rfl⟩ := Prod.mk.inj h
  exact ⟨rfl, rfl, rfl⟩

/-- What is left of an intact source begins with the byte in memory. -/
theorem Intact.drop_eq {mem : Memory Byte} {src i : Nat} {s : Bytes} {c : Byte}
    (h : Intact mem src s i) {j : Nat} (hij : i ≤ j) (hj : j < s.length) (hc : mem (src + j) = c) :
    s.drop j = c :: s.drop (j + 1) := by
  rw [List.drop_eq_getElem_cons hj, ← h j hj hij, hc]

/-- The three bytes of an escape are read before anything is stored. -/
theorem Intact.drop_escape {st st₁ st₂ st₃ : Traced} {src i : Nat} {s : Bytes} {c hi lo : Byte}
    (h : Intact st.mem src s i) (hlong : i + 2 < s.length) (hread : st.read (src + i) = (c, st₁))
    (hread₁ : st₁.read (src + (i + 1)) = (hi, st₂))
    (hread₂ : st₂.read (src + (i + 2)) = (lo, st₃)) :
    s.drop i = c :: hi :: lo :: s.drop (i + 3) ∧ st₃.mem = st.mem := by
  obtain ⟨hc, hmem, -⟩ := Traced.read_eq hread
  obtain ⟨hc₁, hmem₁, -⟩ := Traced.read_eq hread₁
  obtain ⟨hc₂, hmem₂, -⟩ := Traced.read_eq hread₂
  rw [hmem] at hc₁
  rw [hmem₁, hmem] at hc₂
  constructor
  · rw [h.drop_eq (Nat.le_refl i) (by omega) hc, h.drop_eq (by omega) (by omega) hc₁,
      h.drop_eq (by omega) hlong hc₂]
  · rw [hmem₂, hmem₁, hmem]

/-- The loop on one memory returns what the loop on two does, and leaves the
    same at the destination. -/
theorem urlDecodeLoopAt_eq {src dst dstSize i pos : Nat} {s : Bytes} {st : Traced}
    (hclear : Clear src s.length dst) (hpos : pos ≤ i) (hsrc : Intact st.mem src s i) :
    ((urlDecodeLoopAt src s.length dst dstSize i pos st).1,
      (urlDecodeLoopAt src s.length dst dstSize i pos st).2.mem.tail dst) =
      urlDecodeWrites dstSize (s.drop i) pos (st.mem.tail dst) := by
  -- `pos ≤ i` keeps the writes behind the reads
  fun_induction urlDecodeLoopAt src s.length dst dstSize i pos st with
  | case1 i pos st hlt st₁ hshort hread =>
      obtain ⟨hc, hmem, -⟩ := Traced.read_eq hread
      rw [hsrc.drop_eq (Nat.le_refl i) hlt hc, urlDecodeWrites, if_pos rfl, hmem]
      intro hi lo rest _ hrest
      have hlen := congrArg List.length hrest
      simp only [List.length_drop, List.length_cons] at hlen
      omega
  | case2 i pos st hlt st₁ hlong hi st₂ hread₁ lo st₃ hread₂ h l hlo hhi st' hstore hread ih =>
      obtain ⟨hdrop, hmem⟩ := hsrc.drop_escape (by omega) hread hread₁ hread₂
      rw [hdrop, urlDecodeWrites]
      have htail := writeDecoded_tail st₃ dst dstSize pos (UInt8.ofNat (h * 16 + l))
      rw [hstore, hmem, Option.map_some] at htail
      simp only [hhi, hlo, htail]
      apply ih (by omega)
      rw [writeDecoded_eq_some hstore, Traced.write, hmem]
      exact hsrc.update hclear hpos (by omega) _
  | case3 i pos st hlt st₁ hlong hi st₂ hread₁ lo st₃ hread₂ h l hlo hhi hstore hread =>
      obtain ⟨hdrop, hmem⟩ := hsrc.drop_escape (by omega) hread hread₁ hread₂
      rw [hdrop, urlDecodeWrites]
      have htail := writeDecoded_tail st₃ dst dstSize pos (UInt8.ofNat (h * 16 + l))
      rw [hstore, hmem, Option.map_none] at htail
      simp only [hhi, hlo, htail, hmem]
  | case4 i pos st hlt st₁ hlong hi st₂ hread₁ lo st₃ hread₂ hbad hread =>
      obtain ⟨hdrop, hmem⟩ := hsrc.drop_escape (by omega) hread hread₁ hread₂
      rw [hdrop, urlDecodeWrites]
      split
      · next h l hhi hlo => exact absurd hlo (hbad h l hhi)
      · rw [hmem]
  | case5 i pos st hlt c st₁ hread hne st' hstore ih =>
      obtain ⟨hc, hmem, -⟩ := Traced.read_eq hread
      rw [hsrc.drop_eq (Nat.le_refl i) hlt hc, urlDecodeWrites, if_neg hne]
      · have htail := writeDecoded_tail st₁ dst dstSize pos (plusToSpace c)
        rw [hstore, hmem, Option.map_some] at htail
        rw [plusToSpace] at htail
        simp only [htail]
        apply ih (by omega)
        rw [writeDecoded_eq_some hstore, Traced.write, hmem]
        exact hsrc.update hclear hpos (by omega) _
      · exact fun hi lo rest h37 => absurd h37 hne
  | case6 i pos st hlt c st₁ hread hne hstore =>
      obtain ⟨hc, hmem, -⟩ := Traced.read_eq hread
      rw [hsrc.drop_eq (Nat.le_refl i) hlt hc, urlDecodeWrites, if_neg hne]
      · have htail := writeDecoded_tail st₁ dst dstSize pos (plusToSpace c)
        rw [hstore, hmem, Option.map_none] at htail
        rw [plusToSpace] at htail
        simp only [htail, hmem]
      · exact fun hi lo rest h37 => absurd h37 hne
  | case7 i pos st hge =>
      rw [List.drop_of_length_le (by omega), urlDecodeWrites, Traced.write, Memory.tail_update]

-- ============================================================================
-- Nothing is overwritten unread
-- ============================================================================

/-- What the loop reads and writes from `src[i]` on. -/
structure LoopAccesses (src srcLen i : Nat) (es : List Access) : Prop where
  readsFirst : ReadsFirst es
  reads : ∀ a, .read a ∈ es → src + i ≤ a ∧ a < src + srcLen

namespace LoopAccesses

variable {src srcLen dst i j pos : Nat} {es : List Access}

theorem nil : LoopAccesses src srcLen i [] where
  readsFirst := .nil
  reads a h := by simp at h

theorem mono (h : LoopAccesses src srcLen j es) (hij : i ≤ j) : LoopAccesses src srcLen i es where
  readsFirst := h.readsFirst
  reads a ha := by
    have hreads := h.reads a ha
    omega

theorem read (h : LoopAccesses src srcLen j es) (hij : i ≤ j) (hi : i < srcLen) :
    LoopAccesses src srcLen i (.read (src + i) :: es) where
  readsFirst := by
    apply List.Pairwise.cons _ h.readsFirst
    intro e _ a hwrite
    simp at hwrite
  reads a ha := by
    rcases List.mem_cons.mp ha with heq | hmem
    · obtain rfl := Access.read.inj heq
      omega
    · have hreads := h.reads a hmem
      omega

theorem escape (h : LoopAccesses src srcLen (i + 3) es) (hi : i + 2 < srcLen) :
    LoopAccesses src srcLen i
      (.read (src + i) :: .read (src + (i + 1)) :: .read (src + (i + 2)) :: es) := by
  have hlo := h.read (Nat.le_succ (i + 2)) hi
  have hhi := hlo.read (Nat.le_succ (i + 1)) (by omega)
  exact hhi.read (Nat.le_succ i) (by omega)

/-- The byte stored is read already, or none of the source. -/
theorem write (h : LoopAccesses src srcLen j es) (hclear : Clear src srcLen dst) (hpos : pos < j) :
    LoopAccesses src srcLen j (.write (dst + pos) :: es) where
  readsFirst := by
    apply List.Pairwise.cons _ h.readsFirst
    intro e he a hwrite hread
    obtain rfl := Access.write.inj hwrite
    have hreads := h.reads _ (hread ▸ he)
    rcases hclear with hle | hle
    · omega
    · omega
  reads a ha := by
    rcases List.mem_cons.mp ha with heq | hmem
    · simp at heq
    · exact h.reads a hmem

end LoopAccesses

theorem Traced.read_escape_log {st st₁ st₂ st₃ : Traced} {a₁ a₂ a₃ : Nat} {c hi lo : Byte}
    (hread : st.read a₁ = (c, st₁)) (hread₁ : st₁.read a₂ = (hi, st₂))
    (hread₂ : st₂.read a₃ = (lo, st₃)) :
    st₃.log = st.log ++ [.read a₁, .read a₂, .read a₃] := by
  obtain ⟨-, -, hlog⟩ := Traced.read_eq hread
  obtain ⟨-, -, hlog₁⟩ := Traced.read_eq hread₁
  obtain ⟨-, -, hlog₂⟩ := Traced.read_eq hread₂
  rw [hlog₂, hlog₁, hlog, List.append_assoc, List.append_assoc]
  rfl

theorem urlDecodeLoopAt_accesses {src srcLen dst dstSize i pos : Nat} {st : Traced}
    (hclear : Clear src srcLen dst) (hpos : pos ≤ i) :
    ∃ es, (urlDecodeLoopAt src srcLen dst dstSize i pos st).2.log = st.log ++ es ∧
      LoopAccesses src srcLen i es := by
  fun_induction urlDecodeLoopAt src srcLen dst dstSize i pos st with
  | case1 i pos st hlt st₁ hshort hread =>
      obtain ⟨-, -, hlog⟩ := Traced.read_eq hread
      exact ⟨_, hlog, LoopAccesses.nil.read (Nat.le_refl i) hlt⟩
  | case2 i pos st hlt st₁ hlong hi st₂ hread₁ lo st₃ hread₂ h l hlo hhi st' hstore hread ih =>
      have hlog := Traced.read_escape_log hread hread₁ hread₂
      obtain ⟨es, hes, haccesses⟩ := ih (by omega)
      have hwrite : LoopAccesses src srcLen (i + 3) (.write (dst + pos) :: es) :=
        haccesses.write hclear (by omega)
      refine ⟨_, ?_, hwrite.escape (by omega)⟩
      rw [hes, writeDecoded_eq_some hstore, Traced.write, hlog]
      simp
  | case3 i pos st hlt st₁ hlong hi st₂ hread₁ lo st₃ hread₂ h l hlo hhi hstore hread =>
      have hlog := Traced.read_escape_log hread hread₁ hread₂
      exact ⟨_, hlog, LoopAccesses.nil.escape (by omega)⟩
  | case4 i pos st hlt st₁ hlong hi st₂ hread₁ lo st₃ hread₂ hbad hread =>
      have hlog := Traced.read_escape_log hread hread₁ hread₂
      exact ⟨_, hlog, LoopAccesses.nil.escape (by omega)⟩
  | case5 i pos st hlt c st₁ hread hne st' hstore ih =>
      obtain ⟨-, -, hlog⟩ := Traced.read_eq hread
      obtain ⟨es, hes, haccesses⟩ := ih (by omega)
      have hwrite : LoopAccesses src srcLen (i + 1) (.write (dst + pos) :: es) :=
        haccesses.write hclear (by omega)
      refine ⟨_, ?_, hwrite.read (Nat.le_succ i) hlt⟩
      rw [hes, writeDecoded_eq_some hstore, Traced.write, hlog]
      simp
  | case6 i pos st hlt c st₁ hread hne hstore =>
      obtain ⟨-, -, hlog⟩ := Traced.read_eq hread
      exact ⟨_, hlog, LoopAccesses.nil.read (Nat.le_refl i) hlt⟩
  | case7 i pos st hge =>
      have hnil : LoopAccesses src srcLen (i + 1) [] := .nil
      exact ⟨_, rfl, (hnil.write hclear (by omega)).mono (Nat.le_succ i)⟩

-- ============================================================================
-- Decoding in place
-- ============================================================================

/-- `mnet_url_decode(s, strlen(s) + 1, s)` returns and leaves what the decode
    into a buffer of that size at `out` does, reads every byte before it is
    overwritten, and leaves the empty string where the decode fails. -/
structure InPlaceSafe (mem : Memory Byte) (s : Nat) (h : ∃ n, mem (s + n) = 0) (out : Nat) :
    Prop where
  returns : (urlDecodeAt mem s (strlen mem s h + 1) s h).1 =
    (urlDecodeAt mem out (strlen mem s h + 1) s h).1
  leaves : ∃ t, StringAt (urlDecodeAt mem s (strlen mem s h + 1) s h).2.mem s t ∧
    StringAt (urlDecodeAt mem out (strlen mem s h + 1) s h).2.mem out t
  readsFirst : ReadsFirst (urlDecodeAt mem s (strlen mem s h + 1) s h).2.log
  fails : (urlDecodeExAt mem s (strlen mem s h) s (strlen mem s h + 1)).1 < 0 →
    (urlDecodeAt mem s (strlen mem s h + 1) s h).1 = 0 ∧
    StringAt (urlDecodeAt mem s (strlen mem s h + 1) s h).2.mem s []

theorem StringAt.intact {mem : Memory Byte} {s : Nat} {t : Bytes} (ht : StringAt mem s t) :
    Intact mem s t 0 := by
  intro j hj _
  exact (ht.2.of_isPrefix (List.prefix_append t [0])) j hj

theorem StringAt.terminated {mem : Memory Byte} {s : Nat} {t : Bytes} (ht : StringAt mem s t) :
    mem (s + t.length) = 0 := by
  have hlast := ht.2 t.length (by rw [List.length_append, List.length_singleton]; omega)
  rwa [List.getElem_concat_length rfl] at hlast

/-- The first NUL is the one behind the string. -/
theorem StringAt.strlen_eq {mem : Memory Byte} {s : Nat} {t : Bytes} (ht : StringAt mem s t)
    (h : ∃ n, mem (s + n) = 0) : strlen mem s h = t.length := by
  rw [strlen, Nat.find_eq_iff]
  refine ⟨ht.terminated, fun j hj hzero => ?_⟩
  rw [ht.intact j hj (Nat.zero_le j)] at hzero
  exact ht.1 (hzero ▸ List.getElem_mem hj)

theorem exists_stringAt {mem : Memory Byte} {s : Nat} (h : ∃ n, mem (s + n) = 0) :
    ∃ t, StringAt mem s t := by
  refine ⟨(List.range (Nat.find h)).map fun i => mem (s + i), ?_, ?_⟩
  · intro hmem
    obtain ⟨i, hi, hzero⟩ := List.mem_map.mp hmem
    exact Nat.find_min h (List.mem_range.mp hi) hzero
  · intro i hi
    simp only [List.length_append, List.length_map, List.length_range, List.length_singleton] at hi
    rcases Nat.lt_or_ge i (Nat.find h) with hlt | hge
    · rw [List.getElem_append_left (by simpa using hlt), List.getElem_map, List.getElem_range]
      rfl
    · obtain rfl : i = Nat.find h := by omega
      rw [List.getElem_concat_length (by simp)]
      exact Nat.find_spec h

theorem urlDecodeExAt_eq {mem : Memory Byte} {src dst : Nat} {t : Bytes}
    (ht : StringAt mem src t) (hclear : Clear src t.length dst) (dstSize : Nat) :
    (urlDecodeExAt mem src t.length dst dstSize).1 = (urlDecodeEx t (mem.tail dst) dstSize).1 ∧
      (urlDecodeExAt mem src t.length dst dstSize).2.mem.tail dst =
        (urlDecodeEx t (mem.tail dst) dstSize).2 := by
  rw [urlDecodeExAt, urlDecodeEx]
  split
  · exact ⟨rfl, rfl⟩
  · exact Prod.ext_iff.mp (urlDecodeLoopAt_eq hclear (Nat.le_refl 0) ht.intact)

/-- Decoding in one memory is decoding in two, where the layout is clear. -/
theorem urlDecodeAt_eq {mem : Memory Byte} {out s : Nat} {t : Bytes} (ht : StringAt mem s t)
    (h : ∃ n, mem (s + n) = 0) (hclear : Clear s t.length out) (outSize : Nat) :
    (urlDecodeAt mem out outSize s h).1 = (urlDecode (mem.tail out) outSize t).1 ∧
      (urlDecodeAt mem out outSize s h).2.mem.tail out =
        (urlDecode (mem.tail out) outSize t).2 := by
  obtain ⟨hret, hmem⟩ := urlDecodeExAt_eq ht hclear outSize
  rw [urlDecodeAt, urlDecode, cstr_of_noNul ht.1, ht.strlen_eq h]
  split
  · exact ⟨rfl, rfl⟩
  · simp only [← hret]
    split
    · rw [Traced.write, ← hmem]
      exact ⟨rfl, Memory.tail_update _ out 0 0⟩
    · exact ⟨hret, hmem⟩

theorem urlDecodeAt_readsFirst {mem : Memory Byte} {out outSize s : Nat}
    (h : ∃ n, mem (s + n) = 0) (hclear : Clear s (strlen mem s h) out) :
    ReadsFirst (urlDecodeAt mem out outSize s h).2.log := by
  have hex : ReadsFirst (urlDecodeExAt mem s (strlen mem s h) out outSize).2.log := by
    rw [urlDecodeExAt]
    split
    · exact .nil
    · obtain ⟨es, hes, haccesses⟩ := @urlDecodeLoopAt_accesses s (strlen mem s h) out outSize 0 0
        { mem := mem } hclear (Nat.le_refl 0)
      rw [hes, List.nil_append]
      exact haccesses.readsFirst
  rw [urlDecodeAt]
  split
  · exact .nil
  · dsimp only
    split
    · -- the NUL of the empty string is stored last
      apply List.pairwise_append.mpr
      refine ⟨hex, List.pairwise_singleton _ _, ?_⟩
      intro first _ next hnext a _
      rw [List.mem_singleton.mp hnext]
      simp
    · exact hex

/-- What is returned, and the string left at the destination, are the source's
    alone; the string is empty where the source is refused. -/
theorem urlDecode_string {dstSize : Nat} (hpos : 0 < dstSize) {src : Bytes}
    (h0 : (0 : Byte) ∉ src) :
    ∃ n t, (0 : Byte) ∉ t ∧ ∀ dst, (urlDecode dst dstSize src).1 = n ∧
      (urlDecode dst dstSize src).2.Holds (t ++ [0]) ∧
      ((urlDecodeEx src dst dstSize).1 < 0 → n = 0 ∧ t = []) := by
  have hempty : ∀ dst : Memory Byte, Memory.Holds (Function.update dst 0 0) ([] ++ [0]) := by
    intro dst i hi
    obtain rfl : i = 0 := Nat.lt_one_iff.mp hi
    exact Function.update_self ..
  obtain ⟨p, t, hfront, hstored, hok⟩ := urlDecodeLoop_front src [] hpos
  rw [List.nil_append] at hstored
  simp only [urlDecode, cstr_of_noNul h0, urlDecodeEx_eq, mnetUrlDecodeEx,
    if_neg (Nat.ne_of_gt hpos), decodeOutcome, hstored]
  by_cases hp : p = src
  · simp only [if_pos (hok.mpr hp)]
    by_cases hneg : intOfSize t.length < 0
    · simp only [if_pos hneg]
      exact ⟨0, [], List.not_mem_nil, fun dst => ⟨rfl, hempty _, fun _ => ⟨rfl, rfl⟩⟩⟩
    · simp only [if_neg hneg]
      exact ⟨_, t, hfront.decodes.noNul, fun dst =>
        ⟨rfl, Memory.holds_store dst (t ++ [0]), fun h => absurd h hneg⟩⟩
  · have hneg : (-1 : Int) < 0 := by decide
    simp only [if_neg (mt hok.mp hp), if_pos hneg]
    exact ⟨0, [], List.not_mem_nil, fun dst => ⟨rfl, hempty _, fun _ => ⟨rfl, rfl⟩⟩⟩

/-- The string `parse_query_string` is left with when it has a name or a value
    decoded over itself. -/
theorem urlDecodeAt_stringAt {mem : Memory Byte} {s : Nat} {t : Bytes} (ht : StringAt mem s t)
    (h : ∃ n, mem (s + n) = 0) (hlen : t.length ≤ INT_MAX) :
    StringAt (urlDecodeAt mem s (t.length + 1) s h).2.mem s (mnetUrlDecode (t.length + 1) t) := by
  obtain ⟨-, hmem⟩ := urlDecodeAt_eq ht h (.inl (Nat.le_refl s)) (t.length + 1)
  constructor
  · rw [mnetUrlDecode_eq ht.1 (Nat.lt_succ_self _)]
    cases hread : Percent.decode plusToSpace t with
    | none => exact List.not_mem_nil
    | some t' =>
        refine Percent.zero_not_mem_decode (fun c hc => plusToSpace_ne_zero ?_) hread
        rintro rfl
        exact ht.1 hc
  · have hholds := urlDecode_holds hlen (mem.tail s) (Nat.succ_pos t.length)
    rw [cstr_of_noNul ht.1] at hholds
    rw [hmem]
    exact hholds

/-- Decoding over the source is decoding beside it. -/
theorem urlDecodeAt_inPlaceSafe (mem : Memory Byte) (s : Nat) (h : ∃ n, mem (s + n) = 0)
    (out : Nat) (hapart : out + (strlen mem s h + 1) ≤ s ∨ s + (strlen mem s h + 1) ≤ out) :
    InPlaceSafe mem s h out := by
  obtain ⟨text, htext⟩ := exists_stringAt h
  have hlen := htext.strlen_eq h
  have hhere : Clear s text.length s := .inl (Nat.le_refl s)
  have hthere : Clear s text.length out := by
    rcases hapart with hle | hle
    · exact .inl (by omega)
    · exact .inr (by omega)
  obtain ⟨n, t, h0, hstring⟩ := urlDecode_string (Nat.succ_pos text.length) htext.1
  obtain ⟨hret, hmem⟩ := urlDecodeAt_eq htext h hhere (text.length + 1)
  obtain ⟨hret', hmem'⟩ := urlDecodeAt_eq htext h hthere (text.length + 1)
  obtain ⟨hex, -⟩ := urlDecodeExAt_eq htext hhere (text.length + 1)
  obtain ⟨hn, hholds, hneg⟩ := hstring (mem.tail s)
  obtain ⟨hn', hholds', -⟩ := hstring (mem.tail out)
  have hleft : StringAt (urlDecodeAt mem s (text.length + 1) s h).2.mem s t :=
    ⟨h0, by rw [hmem]; exact hholds⟩
  have hleft' : StringAt (urlDecodeAt mem out (text.length + 1) s h).2.mem out t :=
    ⟨h0, by rw [hmem']; exact hholds'⟩
  refine { returns := ?_, leaves := ?_, readsFirst := ?_, fails := ?_ }
  · rw [hlen, hret, hret', hn, hn']
  · rw [hlen]
    exact ⟨t, hleft, hleft'⟩
  · apply urlDecodeAt_readsFirst
    rw [hlen]
    exact hhere
  · rw [hlen, hret]
    intro hfail
    obtain ⟨hzero, rfl⟩ := hneg (by rw [← hex]; exact hfail)
    exact ⟨hn.trans hzero, hleft⟩

/-- `a%20b+` over itself, and beside itself from byte 8 on. -/
theorem urlDecodeAt_inPlaceSafe_percent20 :
    ∃ h, 0 + (strlen (Memory.store (fun _ => 0) (ascii "a%20b+")) 0 h + 1) ≤ 8 ∧
      InPlaceSafe (Memory.store (fun _ => 0) (ascii "a%20b+")) 0 h 8 := by
  have h : ∃ n, Memory.store (fun _ => 0) (ascii "a%20b+") (0 + n) = 0 := ⟨6, by decide⟩
  have hle : 0 + (strlen (Memory.store (fun _ => 0) (ascii "a%20b+")) 0 h + 1) ≤ 8 := by
    have hmin : strlen (Memory.store (fun _ => 0) (ascii "a%20b+")) 0 h ≤ 6 :=
      Nat.find_min' h (by decide)
    omega
  exact ⟨h, hle, urlDecodeAt_inPlaceSafe _ 0 h 8 (.inr hle)⟩

end Mnet
