/-
  Mnet.JsonfMemory

  `mnet_jsonfv` on the heap: the buffer, which `realloc` may move, the escaped
  copy of a string argument, and the block for a number too long for 64 bytes.

  The formatter on the heap follows the one of `Mnet.Jsonf` until a request for
  memory fails, and then answers with the 500 response (`jsonfSound`).  The
  precision of a string is the one place where it loses a block.
-/

import Mnet.ConnectionMemory
import Mnet.Jsonf

namespace Mnet

open Heap (Answer malloc realloc Owns Short)

-- ============================================================================
-- The buffer
-- ============================================================================

/-- `buf`, `pos`, `cap` and `args`. -/
structure JsonfMem (A : Type) where
  buf : Nat
  pos : Nat := 0
  cap : Nat := 256
  args : A

/-- What a piece leads to.  `refuse` has freed the buffer. -/
inductive JsonfMemStep (A : Type) where
  | go (m : JsonfMem A)
  | refuse
  | overrun

/-- `memcpy` behind what the block holds; a NUL at its end is left out, as it is
    for any string. -/
def copyBehind (heap : Heap Block) (p : Nat) (text : Bytes) : Heap Block :=
  heap.modify p fun
    | .text s => .text (s ++ text)
    | b => b

/-- The test at the top of the loop, and its `cap *= 2`, which cannot wrap: there
    is a block of `cap` bytes. -/
def roomMem {A : Type} (answers : Nat → Answer) (m : JsonfMem A) (heap : Heap Block) :
    JsonfMemStep A × Heap Block :=
  if m.pos + 1 ≥ m.cap then
    match realloc answers heap (some m.buf) (m.cap * 2)
        ((heap.blocks m.buf).getD (.text [])) with
    | (none, heap) => (.refuse, heap.release m.buf)
    | (some nb, heap) => (.go { m with buf := nb, cap := m.cap * 2 }, heap)
  else (.go m, heap)

/-- The loop before a copy of `len` bytes: whether there is room for them.  `cap` is
    never 0. -/
def growMem {A : Type} (answers : Nat → Answer) (len : Nat) (m : JsonfMem A)
    (heap : Heap Block) : Bool × JsonfMem A × Heap Block :=
  if 0 < m.cap ∧ m.pos + len + 1 ≥ m.cap then
    match realloc answers heap (some m.buf) (m.cap * 2)
        ((heap.blocks m.buf).getD (.text [])) with
    | (none, heap) => (false, m, heap)
    | (some nb, heap) => growMem answers len { m with buf := nb, cap := m.cap * 2 } heap
  else (true, m, heap)
termination_by m.pos + len + 2 - m.cap
decreasing_by omega

/-- Grow, copy a text behind and free the block `val` it stands in, if any. -/
def addMem {A : Type} (answers : Nat → Answer) (m : JsonfMem A) (val : Option Nat) (text : Bytes)
    (heap : Heap Block) : JsonfMemStep A × Heap Block :=
  match growMem answers text.length m heap with
  | (false, m, heap) => (.refuse, (heap.free val).release m.buf)
  | (true, m, heap) =>
      (.go { m with pos := m.pos + text.length }, (copyBehind heap m.buf text).free val)

-- ============================================================================
-- One conversion
-- ============================================================================

/-- `%s`. -/
def stringMem {A : Type} (answers : Nat → Answer) (m : JsonfMem A) (s : Bytes)
    (heap : Heap Block) : JsonfMemStep A × Heap Block :=
  match malloc answers heap (s.length * 6 + 1) (.text (escapedString s)) with
  | (none, heap) => (.refuse, heap.release m.buf)
  | (some escaped, heap) => addMem answers m (some escaped) (escapedString s) heap

/-- `%.<digits>s`, where `s` is left of the string. -/
def cutStringMem {A : Type} (answers : Nat → Answer) (m : JsonfMem A) (s : Bytes)
    (heap : Heap Block) : JsonfMemStep A × Heap Block :=
  match malloc answers heap (s.length * 6 + 1) (.text (escapedString s)) with
  | (none, heap) => (.refuse, heap.release m.buf)
  | (some escaped, heap) =>
      match malloc answers heap (s.length + 1) (.text s) with
      -- `escaped` is not freed
      | (none, heap) => (.refuse, heap.release m.buf)
      | (some truncated, heap) =>
          addMem answers m (some escaped) (escapedString s) (heap.release truncated)

/-- A number: `need` bytes and a NUL in `stack_val`, or in a block where they do
    not fit, of which `text` is copied. -/
def numberMem {A : Type} (answers : Nat → Answer) (m : JsonfMem A) (need : Nat) (text : Bytes)
    (heap : Heap Block) : JsonfMemStep A × Heap Block :=
  if need + 1 > 64 then
    match malloc answers heap (need + 1) (.text text) with
    | (none, heap) => (.refuse, heap.release m.buf)
    | (some val, heap) => addMem answers m (some val) text heap
  else if need = 0 then (.go m, heap)
  else addMem answers m none text heap

def specMem {A D : Type} (answers : Nat → Answer) (env : JsonfEnv A D) (mid : Bytes) (conv : Byte)
    (m : JsonfMem A) (heap : Heap Block) : JsonfMemStep A × Heap Block :=
  match specFate mid conv with
  | .passedOver => (.go m, heap)
  | .refused => (.refuse, heap.release m.buf)
  | .overrun => (.overrun, heap)
  | .float long spec =>
      let (x, args) := env.real long m.args
      let text := (env.snprintf spec (.real x)).getD []
      numberMem answers { m with args := args } text.length (nullIfNotFinite text) heap
  | .integer nspec =>
      let (v, args) := readInteger env (PERCENT :: mid ++ [conv]) conv m.args
      let text := (env.snprintf nspec (.int v)).getD []
      numberMem answers { m with args := args } text.length text heap

def jsonfStepMem {A D : Type} (answers : Nat → Answer) (env : JsonfEnv A D) (m : JsonfMem A)
    (heap : Heap Block) : JsonfPiece → JsonfMemStep A × Heap Block
  | .byte b => (.go { m with pos := m.pos + 1 }, copyBehind heap m.buf [b])
  | .malformed => (.refuse, heap.release m.buf)
  | .cutString digits =>
      let (s, args) := env.string m.args
      cutStringMem answers { m with args := args }
        (cutString (cutPrecision digits) (s.getD (ascii "(null)"))) heap
  | .string =>
      let (s, args) := env.string m.args
      stringMem answers { m with args := args } (s.getD (ascii "(null)")) heap
  | .char =>
      let (c, args) := env.integer .int m.args
      addMem answers { m with args := args } none (charText c) heap
  | .spec mid conv => specMem answers env mid conv m heap

-- ============================================================================
-- The whole format
-- ============================================================================

/-- The loop of `mnet_jsonfv`. -/
def jsonfLoopMem {A D : Type} (answers : Nat → Answer) (env : JsonfEnv A D) (f : Bytes)
    (m : JsonfMem A) (heap : Heap Block) : JsonfMemStep A × Heap Block :=
  match _h : nextPiece f with
  | none => (.go m, heap)
  | some (piece, rest) =>
      match roomMem answers m heap with
      | (.go m, heap) =>
          match jsonfStepMem answers env m heap piece with
          | (.go m, heap) => jsonfLoopMem answers env rest m heap
          | ended => ended
      | ended => ended
termination_by f.length
decreasing_by exact length_nextPiece _h

/-- The 500 response; its length is that of `null` also where there is no memory
    for it. -/
def jsonfNullMem (answers : Nat → Answer) (heap : Heap Block) : MemReply × Heap Block :=
  match strdup answers heap (ascii "null") with
  | (none, heap) => ({ response := { jsonfNull with body := none } }, heap)
  | (some copy, heap) => ({ response := jsonfNull, body := some copy }, heap)

/-- `mnet_jsonfv`: none where it writes out of bounds. -/
def mnetJsonfvMem {A D : Type} (answers : Nat → Answer) (env : JsonfEnv A D)
    (format : Option Bytes) (args : A) (heap : Heap Block) : Option (MemReply × Heap Block) :=
  match malloc answers heap 256 (.text []) with
  | (none, heap) => some (jsonfNullMem answers heap)
  | (some buf, heap) =>
      match format with
      | none => some (jsonfNullMem answers (heap.release buf))
      | some f =>
          match jsonfLoopMem answers env f { buf, args } heap with
          | (.refuse, heap) => some (jsonfNullMem answers heap)
          | (.overrun, _) => none
          | (.go m, heap) =>
              let response : MnetResponse :=
                { status := 200, contentType := some (ascii "application/json")
                  body := (readText heap m.buf).map (· ++ [0]), bodyLength := m.pos }
              some ({ response, body := some m.buf }, heap)

-- ============================================================================
-- The buffer on the heap
-- ============================================================================

section Buffer

variable {A : Type} {answers : Nat → Answer} {h heap : Heap Block} {own : List Nat}
  {m : JsonfMem A} {st : JsonfState A} {s : Bytes}

/-- The block holds what the buffer does. -/
structure Tracks (heap : Heap Block) (m : JsonfMem A) (st : JsonfState A) : Prop where
  content : heap.blocks m.buf = some (.text st.buf.bytes)
  pos : m.pos = st.buf.bytes.length
  cap : m.cap = st.buf.cap
  args : m.args = st.args

theorem Tracks.cap_pos (ht : Tracks heap m st) : 0 < m.cap := by
  have hfits := st.buf.fits
  rw [ht.cap]
  omega

/-- How a stretch of the formatter that ends in `step` ends on the heap: as it
    does on lists, or without memory.  Where it `cuts` a string a block can be
    lost then. -/
inductive JsonfOutcome (h : Heap Block) (answers : Nat → Answer) (limit : Nat) (cuts : Prop) :
    JsonfStep A → JsonfMemStep A × Heap Block → Prop where
  | go {m : JsonfMem A} {st : JsonfState A} {heap : Heap Block} (ho : Owns h heap [m.buf])
      (ht : Tracks heap m st) : JsonfOutcome h answers limit cuts (.go st) (.go m, heap)
  | refuse {heap : Heap Block} (ho : Owns h heap []) :
      JsonfOutcome h answers limit cuts .refuse (.refuse, heap)
  | overrun {heap : Heap Block} : JsonfOutcome h answers limit cuts .overrun (.overrun, heap)
  | short {step : JsonfStep A} {heap : Heap Block} {lost : List Nat} (ho : Owns h heap lost)
      (hlost : lost = [] ∨ lost.length = 1 ∧ cuts) (hshort : Short answers h heap limit) :
      JsonfOutcome h answers limit cuts step (.refuse, heap)

theorem JsonfOutcome.mono {limit limit' : Nat} {cuts cuts' : Prop} {step : JsonfStep A}
    {result : JsonfMemStep A × Heap Block} (ho : JsonfOutcome h answers limit cuts step result)
    (hle : limit ≤ limit') (hcuts : cuts → cuts') :
    JsonfOutcome h answers limit' cuts' step result := by
  cases ho with
  | go ho ht => exact .go ho ht
  | refuse ho => exact .refuse ho
  | overrun => exact .overrun
  | short ho hlost hshort =>
      exact .short ho (hlost.imp_right fun hone => ⟨hone.1, hcuts hone.2⟩) (hshort.mono hle)

theorem double_cases (answers : Nat → Answer) (ho : Owns h heap (m.buf :: own))
    (hs : heap.blocks m.buf = some (.text s)) (size : Nat) :
    (∃ heap', realloc answers heap (some m.buf) size ((heap.blocks m.buf).getD (.text [])) =
        (none, heap') ∧ Owns h heap' (m.buf :: own) ∧ Short answers h heap' size) ∨
      ∃ nb heap', realloc answers heap (some m.buf) size ((heap.blocks m.buf).getD (.text [])) =
        (some nb, heap') ∧ Owns h heap' (nb :: own) ∧ heap'.blocks nb = some (.text s) := by
  rw [hs, Option.getD_some]
  have hbuf : Owns h heap ((some m.buf).toList ++ own) := ho
  exact hbuf.realloc answers size (.text s)

/-- The top of the loop makes room for one more byte. -/
theorem roomMem_outcome (answers : Nat → Answer) (ho : Owns h heap [m.buf])
    (ht : Tracks heap m st) :
    JsonfOutcome h answers st.buf.room.cap False (.go { st with buf := st.buf.room })
      (roomMem answers m heap) := by
  have hcap : st.buf.room.cap =
      if st.buf.bytes.length + 1 ≥ st.buf.cap then st.buf.cap * 2 else st.buf.cap := rfl
  rw [← ht.pos, ← ht.cap] at hcap
  rw [roomMem]
  by_cases hfull : m.pos + 1 ≥ m.cap
  · rw [if_pos hfull] at hcap ⊢
    obtain ⟨heap', heq, ho', hshort⟩ | ⟨nb, heap', heq, ho', hs⟩ :=
      double_cases answers ho ht.content (m.cap * 2)
    · rw [heq]
      exact .short ho'.release (.inl rfl) (hcap ▸ hshort)
    · rw [heq]
      exact .go ho' ⟨hs, ht.pos, hcap.symm, ht.args⟩
  · rw [if_neg hfull] at hcap ⊢
    exact .go ho ⟨ht.content, ht.pos, hcap.symm, ht.args⟩

theorem self_le_growCap (ncap need : Nat) : ncap ≤ growCap ncap need := by
  fun_induction growCap ncap need with
  | case1 ncap hlt ih => omega
  | case2 ncap hge => exact Nat.le_refl _

theorem growMem_cases (answers : Nat → Answer) (len : Nat) (ho : Owns h heap (m.buf :: own))
    (hs : heap.blocks m.buf = some (.text s)) (hpos : 0 < m.cap) :
    (∃ m' heap', growMem answers len m heap = (false, m', heap') ∧ Owns h heap' (m'.buf :: own) ∧
        Short answers h heap' (growCap m.cap (m.pos + len + 2))) ∨
      ∃ nb heap', growMem answers len m heap =
          (true, { m with buf := nb, cap := growCap m.cap (m.pos + len + 2) }, heap') ∧
        Owns h heap' (nb :: own) ∧ heap'.blocks nb = some (.text s) := by
  induction hleft : m.pos + len + 2 - m.cap using Nat.strongRecOn generalizing m heap with
  | ind n ih =>
      rw [growMem, growCap]
      by_cases hfull : m.pos + len + 1 ≥ m.cap
      · rw [if_pos ⟨hpos, hfull⟩, if_pos ⟨hpos, Nat.lt_succ_of_le hfull⟩]
        obtain ⟨heap', heq, ho', hshort⟩ | ⟨nb, heap', heq, ho', hs'⟩ :=
          double_cases answers ho hs (m.cap * 2)
        · rw [heq]
          -- the capacity the loop is on its way to is larger still
          exact .inl ⟨m, heap', rfl, ho', hshort.mono (self_le_growCap _ _)⟩
        · rw [heq]
          subst hleft
          refine ih _ ?_ ho' hs' (Nat.mul_pos hpos Nat.two_pos) rfl
          show m.pos + len + 2 - m.cap * 2 < m.pos + len + 2 - m.cap
          omega
      · rw [if_neg fun hc => hfull hc.2, if_neg fun hc => hfull (Nat.le_of_lt_succ hc.2)]
        exact .inr ⟨m.buf, heap, rfl, ho, hs⟩

/-- Grow, copy and free what was copied from. -/
theorem addMem_outcome (answers : Nat → Answer) {m : JsonfMem A} (st : JsonfState A)
    (val : Option Nat) (text : Bytes)
    (ho : Owns h heap (m.buf :: val.toList)) (ht : Tracks heap m { st with buf := st.buf.room }) :
    JsonfOutcome h answers (st.buf.append text).cap False
      (.go { st with buf := st.buf.append text }) (addMem answers m val text heap) := by
  have hcap : (st.buf.append text).cap = growCap m.cap (m.pos + text.length + 2) := by
    rw [ht.cap, ht.pos]
    rfl
  rw [addMem, hcap]
  obtain ⟨m', heap', heq, ho', hshort⟩ | ⟨nb, heap', heq, ho', hs⟩ :=
    growMem_cases answers text.length ho ht.content ht.cap_pos
  · rw [heq]
    have hval : Owns h heap' (val.toList ++ [m'.buf]) :=
      ho'.perm (List.perm_append_singleton _ _).symm
    have hasked := Heap.asked_free heap' val
    exact .short hval.free.release (.inl rfl) (hshort.within (Nat.le_refl _) (Nat.le_of_eq hasked.symm))
  · rw [heq]
    have hcopied := ho'.modify (List.mem_cons_self ..) fun
      | .text s => .text (s ++ text)
      | b => b
    have hval := hcopied.perm (List.perm_append_singleton nb val.toList).symm
    refine .go hval.free ⟨?_, ?_, hcap.symm, ht.args⟩
    · rw [copyBehind]
      show ((heap'.modify nb _).free val).blocks nb = _
      rw [hval.free_blocks (List.mem_cons_self ..), Heap.modify_self, hs]
      rfl
    · show m.pos + text.length = (st.buf.room.bytes ++ text).length
      rw [ht.pos, List.length_append]

end Buffer

-- ============================================================================
-- One piece
-- ============================================================================

section Piece

variable {A D : Type} {answers : Nat → Answer} {h heap : Heap Block} {m : JsonfMem A}
  {st : JsonfState A} {env : JsonfEnv A D}

/-- The largest block a piece asks for beside the buffer. -/
def pieceRequest (env : JsonfEnv A D) (args : A) : JsonfPiece → Nat
  | .cutString digits =>
      (cutString (cutPrecision digits) ((env.string args).1.getD (ascii "(null)"))).length * 6 + 1
  | .string => ((env.string args).1.getD (ascii "(null)")).length * 6 + 1
  | .spec mid conv =>
      match specFate mid conv with
      | .float long spec =>
          ((env.snprintf spec (.real (env.real long args).1)).getD []).length + 1
      | .integer nspec =>
          ((env.snprintf nspec
            (.int (readInteger env (PERCENT :: mid ++ [conv]) conv args).1)).getD []).length + 1
      | _ => 0
  | _ => 0

/-- What the buffer has come to behind a piece. -/
def JsonfStep.cap : JsonfStep A → Nat
  | .go st => st.buf.cap
  | _ => 0

/-- A string, whose escaped copy is not there, or is copied and freed. -/
theorem stringMem_outcome (answers : Nat → Answer) {m : JsonfMem A} (st : JsonfState A)
    (s : Bytes) (ho : Owns h heap [m.buf])
    (ht : Tracks heap m { st with buf := st.buf.room }) :
    JsonfOutcome h answers (max (s.length * 6 + 1) (st.buf.append (escapedString s)).cap) False
      (.go { st with buf := st.buf.append (escapedString s) }) (stringMem answers m s heap) := by
  rw [stringMem]
  obtain ⟨escaped, heap', heq, ho', -, hkeep⟩ :=
    ho.malloc answers (s.length * 6 + 1) (.text (escapedString s))
  rw [heq]
  cases escaped with
  | none =>
      exact .short ho'.release (.inl rfl)
        ((ho.earlier (Heap.short_of_malloc heq)).mono (Nat.le_max_left ..))
  | some escaped =>
      have hadd := addMem_outcome answers st (some escaped) (escapedString s)
        (ho'.perm (List.Perm.swap _ _ _))
        ⟨hkeep _ _ ht.content, ht.pos, ht.cap, ht.args⟩
      exact hadd.mono (Nat.le_max_right ..) id

/-- A string with a precision; without memory for the part that is left, the
    escaped copy is lost. -/
theorem cutStringMem_outcome (answers : Nat → Answer) {m : JsonfMem A} (st : JsonfState A)
    (s : Bytes) (ho : Owns h heap [m.buf])
    (ht : Tracks heap m { st with buf := st.buf.room }) :
    JsonfOutcome h answers (max (s.length * 6 + 1) (st.buf.append (escapedString s)).cap) True
      (.go { st with buf := st.buf.append (escapedString s) }) (cutStringMem answers m s heap) := by
  rw [cutStringMem]
  obtain ⟨escaped, heap₁, heq, ho₁, -, hkeep₁⟩ :=
    ho.malloc answers (s.length * 6 + 1) (.text (escapedString s))
  rw [heq]
  cases escaped with
  | none =>
      exact .short ho₁.release (.inl rfl)
        ((ho.earlier (Heap.short_of_malloc heq)).mono (Nat.le_max_left ..))
  | some escaped =>
      dsimp only
      obtain ⟨truncated, heap₂, heq', ho₂, -, hkeep₂⟩ :=
        ho₁.malloc answers (s.length + 1) (.text s)
      rw [heq']
      cases truncated with
      | none =>
          have hlost : Owns h (heap₂.release m.buf) [escaped] :=
            (ho₂.perm (List.Perm.swap _ _ _)).release
          refine .short hlost (.inr ⟨rfl, trivial⟩)
            ((ho₁.earlier (Heap.short_of_malloc heq')).mono ?_)
          exact Nat.le_trans (by omega) (Nat.le_max_left ..)
      | some truncated =>
          have hne : m.buf ≠ truncated := by
            rintro rfl
            exact (List.nodup_cons.mp ho₂.nodup).1 (by simp)
          have hadd := addMem_outcome answers st (some escaped) (escapedString s)
            (ho₂.release.perm (List.Perm.swap _ _ _))
            ⟨(Heap.release_of_ne _ hne).trans (hkeep₂ _ _ (hkeep₁ _ _ ht.content)), ht.pos, ht.cap,
              ht.args⟩
          exact hadd.mono (Nat.le_max_right ..) fun hfalse => hfalse.elim

/-- A number, on the stack or in a block of its own. -/
theorem numberMem_outcome (answers : Nat → Answer) {m : JsonfMem A} (st : JsonfState A)
    (need : Nat) (text : Bytes) (hneed : need = 0 ↔ text = []) (ho : Owns h heap [m.buf])
    (ht : Tracks heap m { st with buf := st.buf.room }) :
    JsonfOutcome h answers (max (need + 1) (st.addFormatted (some text)).buf.cap) False
      (.go (st.addFormatted (some text))) (numberMem answers m need text heap) := by
  rw [numberMem]
  by_cases hempty : text = []
  · have hzero := hneed.mpr hempty
    rw [hempty, hzero, if_neg (by decide), if_pos rfl]
    exact .go ho ht
  · have hadds : st.addFormatted (some text) = { st with buf := st.buf.append text } := by
      cases text with
      | nil => exact absurd rfl hempty
      | cons b text => rfl
    rw [hadds]
    by_cases hlong : need + 1 > 64
    · rw [if_pos hlong]
      obtain ⟨val, heap', heq, ho', -, hkeep⟩ := ho.malloc answers (need + 1) (.text text)
      rw [heq]
      cases val with
      | none =>
          exact .short ho'.release (.inl rfl)
            ((ho.earlier (Heap.short_of_malloc heq)).mono (Nat.le_max_left ..))
      | some val =>
          have hadd := addMem_outcome answers st (some val) text
            (ho'.perm (List.Perm.swap _ _ _))
            ⟨hkeep _ _ ht.content, ht.pos, ht.cap, ht.args⟩
          exact hadd.mono (Nat.le_max_right ..) id
    · rw [if_neg hlong, if_neg (mt hneed.mp hempty)]
      exact (addMem_outcome answers st none text ho ht).mono (Nat.le_max_right ..) id

theorem nullIfNotFinite_eq_nil (text : Bytes) : text.length = 0 ↔ nullIfNotFinite text = [] := by
  rw [nullIfNotFinite, List.length_eq_zero_iff]
  split
  · next hfound =>
    refine iff_of_false ?_ (by decide)
    rintro rfl
    exact absurd hfound (by decide)
  · exact Iff.rfl

theorem addFormatted_eq (st : JsonfState A) (text : Option Bytes) :
    st.addFormatted text = st.addFormatted (some (text.getD [])) := by
  cases text with
  | none => rfl
  | some text => rfl

/-- One pass of the loop, behind the test at its top. -/
theorem jsonfStepMem_outcome (answers : Nat → Answer) (env : JsonfEnv A D) (piece : JsonfPiece)
    (ho : Owns h heap [m.buf]) (ht : Tracks heap m { st with buf := st.buf.room }) :
    JsonfOutcome h answers (max (pieceRequest env st.args piece) (jsonfStep env st piece).cap)
      (∃ digits, piece = .cutString digits) (jsonfStep env st piece)
      (jsonfStepMem answers env m heap piece) := by
  have hargs : m.args = st.args := ht.args
  -- an argument is taken off the list
  have hwith : ∀ (args : A) (specs : List Bytes), Tracks heap { m with args := args }
      { st with buf := st.buf.room, args := args, specs := specs } :=
    fun _ _ => ⟨ht.content, ht.pos, ht.cap, rfl⟩
  cases piece with
  | byte b =>
      refine .go (ho.modify (List.mem_cons_self ..) _) ⟨?_, ?_, ht.cap, ht.args⟩
      · show (heap.modify m.buf _).blocks m.buf = _
        rw [Heap.modify_self, ht.content]
        rfl
      · show m.pos + 1 = (st.buf.room.bytes ++ [b]).length
        rw [ht.pos, List.length_append]
        rfl
  | malformed => exact .refuse ho.release
  | cutString digits =>
      simp only [jsonfStepMem, hargs]
      have hcut := cutStringMem_outcome answers { st with args := (env.string st.args).2 }
        (cutString (cutPrecision digits) ((env.string st.args).1.getD (ascii "(null)")))
        (m := { m with args := (env.string st.args).2 }) ho (hwith _ st.specs)
      exact hcut.mono (Nat.le_refl _) fun _ => ⟨digits, rfl⟩
  | string =>
      simp only [jsonfStepMem, hargs]
      have hstring := stringMem_outcome answers { st with args := (env.string st.args).2 }
        ((env.string st.args).1.getD (ascii "(null)"))
        (m := { m with args := (env.string st.args).2 }) ho (hwith _ st.specs)
      exact hstring.mono (Nat.le_refl _) fun hfalse => hfalse.elim
  | char =>
      simp only [jsonfStepMem, hargs]
      have hchar := addMem_outcome answers { st with args := (env.integer .int st.args).2 } none
        (charText (env.integer .int st.args).1)
        (m := { m with args := (env.integer .int st.args).2 }) ho (hwith _ st.specs)
      exact hchar.mono (Nat.le_max_right ..) fun hfalse => hfalse.elim
  | spec mid conv =>
      simp only [jsonfStepMem, jsonfStep, specMem, specStep, pieceRequest, hargs]
      cases specFate mid conv with
      | passedOver => exact .go ho ht
      | refused => exact .refuse ho.release
      | overrun => exact .overrun
      | float long spec =>
          dsimp only
          generalize env.snprintf spec (.real (env.real long st.args).1) = text
          have hformatted :
              (text.map fun text => if text = [] then [] else nullIfNotFinite text).getD [] =
                nullIfNotFinite (text.getD []) := by
            cases text with
            | none => rfl
            | some text =>
                by_cases hempty : text = []
                · rw [hempty]
                  rfl
                · exact if_neg hempty
          rw [addFormatted_eq, hformatted]
          have hnumber := numberMem_outcome answers
            { st with args := (env.real long st.args).2, specs := st.specs ++ [spec] }
            (text.getD []).length (nullIfNotFinite (text.getD [])) (nullIfNotFinite_eq_nil _)
            (m := { m with args := (env.real long st.args).2 }) ho (hwith _ _)
          exact hnumber.mono (Nat.le_refl _) fun hfalse => hfalse.elim
      | integer nspec =>
          dsimp only
          generalize readInteger env (PERCENT :: mid ++ [conv]) conv st.args = read
          rw [addFormatted_eq]
          have hnumber := numberMem_outcome answers
            { st with args := read.2, specs := st.specs ++ [nspec] } _
            ((env.snprintf nspec (.int read.1)).getD []) List.length_eq_zero_iff
            (m := { m with args := read.2 }) ho (hwith _ _)
          exact hnumber.mono (Nat.le_refl _) fun hfalse => hfalse.elim

end Piece

-- ============================================================================
-- The loop
-- ============================================================================

section Loop

variable {A D : Type} {answers : Nat → Answer} {h heap : Heap Block} {m : JsonfMem A}
  {st : JsonfState A}

/-- The largest block the loop asks for. -/
def jsonfPeak (env : JsonfEnv A D) (f : Bytes) (st : JsonfState A) : Nat :=
  match _h : nextPiece f with
  | none => st.buf.cap
  | some (piece, rest) =>
      max (max st.buf.room.cap (pieceRequest env st.args piece))
        (match jsonfStep env st piece with
        | .go st' => jsonfPeak env rest st'
        | _ => 0)
termination_by f.length
decreasing_by exact length_nextPiece _h

theorem jsonfPeak_nil (env : JsonfEnv A D) (st : JsonfState A) :
    jsonfPeak env [] st = st.buf.cap := by
  rw [jsonfPeak]
  rfl

theorem jsonfPeak_of_next {env : JsonfEnv A D} {f rest : Bytes} {piece : JsonfPiece}
    (hnext : nextPiece f = some (piece, rest)) (st : JsonfState A) :
    jsonfPeak env f st =
      max (max st.buf.room.cap (pieceRequest env st.args piece))
        (match jsonfStep env st piece with
        | .go st' => jsonfPeak env rest st'
        | _ => 0) := by
  rw [jsonfPeak]
  split
  · next hnone => simp [hnext] at hnone
  · next piece' rest' hsome =>
    rw [hnext] at hsome
    obtain ⟨rfl, rfl⟩ := Prod.mk.inj (Option.some.inj hsome)
    rfl

theorem cap_le_room (buf : JsonBuf) : buf.cap ≤ buf.room.cap := by
  show buf.cap ≤ if buf.bytes.length + 1 ≥ buf.cap then buf.cap * 2 else buf.cap
  split <;> omega

theorem cap_le_jsonfPeak (env : JsonfEnv A D) (f : Bytes) (st : JsonfState A) :
    st.buf.cap ≤ jsonfPeak env f st := by
  cases hnext : nextPiece f with
  | none =>
      rw [eq_nil_of_nextPiece hnext, jsonfPeak_nil]
  | some next =>
      have hroom := cap_le_room st.buf
      rw [jsonfPeak_of_next hnext]
      omega

theorem jsonfLoopMem_nil (env : JsonfEnv A D) (m : JsonfMem A) (heap : Heap Block) :
    jsonfLoopMem answers env [] m heap = (.go m, heap) := by
  rw [jsonfLoopMem]
  rfl

theorem jsonfLoopMem_of_next {env : JsonfEnv A D} {f rest : Bytes} {piece : JsonfPiece}
    (hnext : nextPiece f = some (piece, rest)) (m : JsonfMem A) (heap : Heap Block) :
    jsonfLoopMem answers env f m heap =
      match roomMem answers m heap with
      | (.go m, heap) =>
          match jsonfStepMem answers env m heap piece with
          | (.go m, heap) => jsonfLoopMem answers env rest m heap
          | ended => ended
      | ended => ended := by
  rw [jsonfLoopMem]
  split
  · next hnone => simp [hnext] at hnone
  · next piece' rest' hsome =>
    rw [hnext] at hsome
    obtain ⟨rfl, rfl⟩ := Prod.mk.inj (Option.some.inj hsome)
    rfl

/-- What the loop on lists has come to. -/
def JsonfVerdict.ends : JsonfVerdict × JsonfState A → JsonfStep A
  | (.finished, st) => .go st
  | (.refused, _) => .refuse
  | (.overrun, _) => .overrun

/-- The pieces the loop cuts a format into. -/
def jsonfPieces (f : Bytes) : List JsonfPiece :=
  match _h : nextPiece f with
  | none => []
  | some (piece, rest) => piece :: jsonfPieces rest
termination_by f.length
decreasing_by exact length_nextPiece _h

theorem jsonfPieces_of_next {f rest : Bytes} {piece : JsonfPiece}
    (h : nextPiece f = some (piece, rest)) : jsonfPieces f = piece :: jsonfPieces rest := by
  rw [jsonfPieces]
  split
  · next hnone => simp [h] at hnone
  · next piece' rest' hsome =>
    rw [h] at hsome
    obtain ⟨rfl, rfl⟩ := Prod.mk.inj (Option.some.inj hsome)
    rfl

/-- The formatter cuts a string somewhere. -/
def CutsString (f : Bytes) : Prop := ∃ digits, JsonfPiece.cutString digits ∈ jsonfPieces f

/-- The loop on the heap follows the one on lists. -/
theorem jsonfLoopMem_outcome (answers : Nat → Answer) (env : JsonfEnv A D) (f : Bytes)
    (ho : Owns h heap [m.buf]) (ht : Tracks heap m st) :
    JsonfOutcome h answers (jsonfPeak env f st) (CutsString f)
      (JsonfVerdict.ends (jsonfLoop env f st)) (jsonfLoopMem answers env f m heap) := by
  induction hlen : f.length using Nat.strongRecOn generalizing f m st heap with
  | ind n ih =>
      cases hnext : nextPiece f with
      | none =>
          rw [eq_nil_of_nextPiece hnext, jsonfLoop_nil, jsonfLoopMem_nil]
          exact .go ho ht
      | some next =>
          obtain ⟨piece, rest⟩ := next
          have hlt := length_nextPiece hnext
          have hpieces := jsonfPieces_of_next hnext
          rw [jsonfLoop_of_next hnext, jsonfLoopMem_of_next hnext, jsonfPeak_of_next hnext]
          have hroom := roomMem_outcome answers ho ht
          generalize roomMem answers m heap = room at hroom
          cases hroom with
          | short ho hlost hshort =>
              refine .short ho (hlost.imp_right fun hone => hone.2.elim) (hshort.mono ?_)
              exact Nat.le_trans (Nat.le_max_left ..) (Nat.le_max_left ..)
          | @go m _ heap ho ht =>
              have hstep := jsonfStepMem_outcome answers env piece ho ht
              dsimp only
              generalize jsonfStepMem answers env m heap piece = result at hstep ⊢
              generalize jsonfStep env st piece = step at hstep ⊢
              cases hstep with
              | refuse ho => exact .refuse ho
              | overrun => exact .overrun
              | short ho hlost hshort =>
                  refine .short ho (hlost.imp_right ?_) (hshort.mono ?_)
                  · rintro ⟨hone, digits, rfl⟩
                    exact ⟨hone, digits, by rw [hpieces]; exact List.mem_cons_self ..⟩
                  · refine Nat.max_le.mpr ⟨?_, ?_⟩
                    · exact Nat.le_trans (Nat.le_max_right ..) (Nat.le_max_left ..)
                    · refine Nat.le_trans ?_ (Nat.le_max_right ..)
                      cases step with
                      | go st' => exact cap_le_jsonfPeak env rest st'
                      | refuse => exact Nat.le_refl _
                      | overrun => exact Nat.le_refl _
              | go ho ht =>
                  refine (ih rest.length (by omega) rest ho ht rfl).mono (Nat.le_max_right ..) ?_
                  rintro ⟨digits, hmem⟩
                  exact ⟨digits, by rw [hpieces]; exact List.mem_cons_of_mem _ hmem⟩

end Loop

-- ============================================================================
-- The response
-- ============================================================================

section Response

variable {A D : Type} {answers : Nat → Answer} {h heap : Heap Block}

/-- The largest block `mnet_jsonfv` asks for. -/
def requestPeak (env : JsonfEnv A D) (format : Option Bytes) (args : A) : Nat :=
  match format with
  | none => 256
  | some f => jsonfPeak env f { args := args }

/-- What a call leaves: of its blocks only the body, which is the text of the
    response, and where a string was cut one more.  The response is the one with
    memory, or the 500 response because a request for memory has failed. -/
structure JsonfSound (answers : Nat → Answer) (env : JsonfEnv A D) (format : Option Bytes)
    (args : A) (h : Heap Block) (reply : MemReply) (h' : Heap Block) : Prop where
  memory : ∃ lost, Owns h h' (reply.body.toList ++ lost) ∧
    (lost = [] ∨ lost.length = 1 ∧ reply.response.status = 500 ∧ (∃ f ∈ format, CutsString f) ∧
      Short answers h h' (requestPeak env format args))
  body : reply.response.body = reply.body.bind fun q => (readText h' q).map (· ++ [0])
  response : mnetJsonfv env format args = some reply.response ∨
    (reply.response = jsonfNull ∨ reply.response = { jsonfNull with body := none }) ∧
      Short answers h h' (requestPeak env format args)

/-- `null` in a block of its own, or NULL. -/
theorem jsonfNullMem_sound {env : JsonfEnv A D} {format : Option Bytes} {args : A}
    {lost : List Nat} (ho : Owns h heap lost)
    (hlost : lost = [] ∨ lost.length = 1 ∧ (∃ f ∈ format, CutsString f) ∧
      Short answers h heap (requestPeak env format args))
    (hpeak : 256 ≤ requestPeak env format args)
    (hwhy : mnetJsonfv env format args = some jsonfNull ∨
      Short answers h heap (requestPeak env format args)) :
    JsonfSound answers env format args h (jsonfNullMem answers heap).1
      (jsonfNullMem answers heap).2 := by
  obtain ⟨copy, heap', heq, ho', hcontent, -⟩ :=
    ho.malloc answers ((ascii "null").length + 1) (.text (ascii "null"))
  have hasked : heap.asked ≤ heap'.asked := by
    have hle := Heap.asked_le_malloc answers heap ((ascii "null").length + 1) (.text (ascii "null"))
    rwa [heq] at hle
  have hlater : Short answers h heap (requestPeak env format args) →
      Short answers h heap' (requestPeak env format args) := fun hs => hs.within (Nat.le_refl _) hasked
  rw [jsonfNullMem, strdup, heq]
  cases copy with
  | none =>
      have hshort := (ho.earlier (Heap.short_of_malloc heq)).mono
        (show (ascii "null").length + 1 ≤ _ from Nat.le_trans (by decide) hpeak)
      refine ⟨⟨lost, ho', ?_⟩, rfl, .inr ⟨.inr rfl, hshort⟩⟩
      exact hlost.imp_right fun h => ⟨h.1, rfl, h.2.1, hlater h.2.2⟩
  | some copy =>
      refine ⟨⟨lost, ho', hlost.imp_right fun h => ⟨h.1, rfl, h.2.1, hlater h.2.2⟩⟩, ?_, ?_⟩
      · show jsonfNull.body = (readText heap' copy).map (· ++ [0])
        rw [readText, hcontent copy rfl]
        rfl
      · exact hwhy.imp_right fun hshort => ⟨.inl rfl, hlater hshort⟩

theorem mnetJsonfvMem_sound (answers : Nat → Answer) (env : JsonfEnv A D)
    (format : Option Bytes) (args : A) (heap : Heap Block) :
    match mnetJsonfvMem answers env format args heap with
    | none => mnetJsonfv env format args = none
    | some (reply, heap') => JsonfSound answers env format args heap reply heap' := by
  have hpeak : 256 ≤ requestPeak env format args := by
    cases format with
    | none => exact Nat.le_refl _
    | some f => exact cap_le_jsonfPeak env f { args := args }
  obtain ⟨buf, heap₁, heq, ho, hcontent, -⟩ := (Owns.refl heap).malloc answers 256 (.text [])
  rw [mnetJsonfvMem, heq]
  cases buf with
  | none =>
      exact jsonfNullMem_sound ho (.inl rfl) hpeak
        (.inr ((Heap.short_of_malloc heq).mono hpeak))
  | some buf =>
      cases format with
      | none => exact jsonfNullMem_sound ho.release (.inl rfl) hpeak (.inl rfl)
      | some f =>
          have htracks :
              Tracks heap₁ { buf := buf, args := args } ({ args := args } : JsonfState A) :=
            ⟨hcontent buf rfl, rfl, rfl, rfl⟩
          have hloop := jsonfLoopMem_outcome answers env f ho htracks
          dsimp only
          generalize jsonfLoopMem answers env f { buf := buf, args := args } heap₁ = result
            at hloop ⊢
          rcases hplain : jsonfLoop env f { args := args } with ⟨verdict, st⟩
          rw [hplain] at hloop
          -- however the loop on lists ends, without memory the buffer is gone
          have hstarved : ∀ {heap' : Heap Block} {lost : List Nat}, Owns heap heap' lost →
              (lost = [] ∨ lost.length = 1 ∧ CutsString f) →
              Short answers heap heap' (jsonfPeak env f { args := args }) →
              JsonfSound answers env (some f) args heap (jsonfNullMem answers heap').1
                (jsonfNullMem answers heap').2 := by
            intro heap' lost ho hlost hshort
            exact jsonfNullMem_sound ho
              (hlost.imp_right fun hone => ⟨hone.1, ⟨f, rfl, hone.2⟩, hshort⟩) hpeak (.inr hshort)
          cases verdict with
          | finished =>
              have hv : mnetJsonfv env (some f) args = some (jsonfResponse st.buf) := by
                rw [mnetJsonfv, hplain]
              cases hloop with
              | short ho hlost hshort => exact hstarved ho hlost hshort
              | @go m _ heap' ho ht =>
                  have hbody : readText heap' m.buf = some st.buf.bytes := by
                    rw [readText, ht.content]
                  refine ⟨⟨[], ho, .inl rfl⟩, rfl, .inl ?_⟩
                  rw [hv, hbody, ht.pos]
                  rfl
          | refused =>
              have hv : mnetJsonfv env (some f) args = some jsonfNull := by
                rw [mnetJsonfv, hplain]
              cases hloop with
              | short ho hlost hshort => exact hstarved ho hlost hshort
              | refuse ho => exact jsonfNullMem_sound ho (.inl rfl) hpeak (.inl hv)
          | overrun =>
              have hv : mnetJsonfv env (some f) args = none := by
                rw [mnetJsonfv, hplain]
              cases hloop with
              | short ho hlost hshort => exact hstarved ho hlost hshort
              | overrun => exact hv

theorem mnetJsonfv_plain {env : JsonfEnv A D} {format : Option Bytes} {args : A}
    {response : MnetResponse} (hresponse : mnetJsonfv env format args = some response) :
    response.status ≠ 0 ∧ response.chunked = false := by
  have hnull : jsonfNull.status ≠ 0 ∧ jsonfNull.chunked = false := ⟨by decide, rfl⟩
  cases format with
  | none =>
      rw [← Option.some.inj hresponse]
      exact hnull
  | some f =>
      rw [mnetJsonfv] at hresponse
      rcases hloop : jsonfLoop env f { args := args } with ⟨verdict, st⟩
      rw [hloop] at hresponse
      cases verdict with
      | finished =>
          rw [← Option.some.inj hresponse]
          exact ⟨show (200 : Int) ≠ 0 by decide, rfl⟩
      | refused =>
          rw [← Option.some.inj hresponse]
          exact hnull
      | overrun => exact absurd hresponse.symm (Option.some_ne_none _)

/-- Where no string is cut, a handler may return it. -/
theorem JsonfSound.settled {env : JsonfEnv A D} {format : Option Bytes} {args : A}
    {reply : MemReply} {heap' : Heap Block}
    (hsound : JsonfSound answers env format args heap reply heap')
    (hcuts : ∀ f ∈ format, ¬ CutsString f) (unsent : Bool) :
    Settled unsent heap (reply, heap') := by
  obtain ⟨lost, howns, hlost⟩ := hsound.memory
  have hplain : reply.response.status ≠ 0 ∧ reply.response.chunked = false := by
    obtain hresponse | ⟨hresponse | hresponse, -⟩ := hsound.response
    · exact mnetJsonfv_plain hresponse
    · rw [hresponse]
      exact ⟨by decide, rfl⟩
    · rw [hresponse]
      exact ⟨show (500 : Int) ≠ 0 by decide, rfl⟩
  refine ⟨?_, fun hchunked => ?_, fun _ hzero => absurd hzero hplain.1⟩
  · obtain rfl : lost = [] := hlost.resolve_right fun hone => by
      obtain ⟨-, -, ⟨f, hf, hcut⟩, -⟩ := hone
      exact hcuts f hf hcut
    rwa [List.append_nil] at howns
  · rw [hplain.2] at hchunked
    exact absurd hchunked Bool.false_ne_true

/-- Whatever the system refuses, `mnet_jsonfv` owes nothing but the body it
    returns, except where it cuts a string, and its response is the one with
    memory or the 500 response.  It writes out of bounds only where it does so
    with memory. -/
theorem jsonfSound (answers : Nat → Answer) (env : JsonfEnv A D) (format : Option Bytes) (args : A)
    (heap : Heap Block) :
    match mnetJsonfvMem answers env format args heap with
    | none => mnetJsonfv env format args = none
    | some (reply, heap') =>
        JsonfSound answers env format args heap reply heap' ∧
          ((∀ f ∈ format, ¬ CutsString f) → ∀ unsent, Settled unsent heap (reply, heap')) := by
  have hsound := mnetJsonfvMem_sound answers env format args heap
  rcases hresult : mnetJsonfvMem answers env format args heap with _ | ⟨reply, heap'⟩
  · rw [hresult] at hsound
    exact hsound
  · rw [hresult] at hsound
    exact ⟨hsound, fun hcuts unsent => hsound.settled hcuts unsent⟩

end Response

-- Three requests: the buffer, `escaped`, `truncated`.  Without memory for the
-- third `escaped` stays behind, beside the `null` that is returned.
example :
    let env : JsonfEnv Bytes Unit :=
      { string := fun s => (some s, s), integer := fun _ s => (0, s), real := fun _ s => ((), s)
        snprintf := fun _ _ => none }
    let answers : Nat → Answer := fun n => if n = 2 then .refused else .moved
    (mnetJsonfvMem answers env (some (ascii "%.1s")) (ascii "ab") Heap.empty).map
      (fun r => (r.1.body, (r.2.blocks 1).isSome)) = some (some 2, true) := by
  decide +kernel

end Mnet
