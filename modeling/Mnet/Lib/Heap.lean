/-
  Mnet.Lib.Heap

  The allocator of C over typed blocks.  An address is given out once; the heap
  counts how often each was passed to `free`, or given up by `realloc`.  Which
  requests are met is the system's choice, one answer for each request.

  A heap is `Sound` when everything given out is live or was released exactly
  once.  `malloc_cases` and `realloc_cases` say what a request can come to.
-/

import Mathlib.Algebra.Group.Nat.Defs
import Mathlib.Logic.Function.Basic

/-- Blocks by address, the first address not given out yet, how often each was
    released, and the sizes asked for so far. -/
structure Heap (β : Type) where
  blocks : Nat → Option β
  next : Nat
  releases : Nat → Nat
  requests : List Nat
  beyond : ∀ p, next ≤ p → blocks p = none

namespace Heap

/-- What the system makes of a request.  Only `realloc` has a block to leave in
    its place. -/
inductive Answer where
  | refused
  | moved
  | inPlace
deriving DecidableEq, Repr

/-- No object is larger. -/
def PTRDIFF_MAX : Nat := 2 ^ 63 - 1

variable {β : Type}

-- ============================================================================
-- Operations
-- ============================================================================

def empty : Heap β := ⟨fun _ => none, 0, fun _ => 0, [], fun _ _ => rfl⟩

/-- How many requests there were. -/
def asked (h : Heap β) : Nat := h.requests.length

/-- A request for `size` bytes, as it changes no block. -/
def ask (h : Heap β) (size : Nat) : Heap β := { h with requests := h.requests ++ [size] }

def alloc (h : Heap β) (b : β) : Heap β where
  blocks := Function.update h.blocks h.next (some b)
  next := h.next + 1
  releases := h.releases
  requests := h.requests
  beyond p hp := by
    rw [Function.update_of_ne (Nat.ne_of_gt hp)]
    exact h.beyond p (Nat.le_of_succ_le hp)

def release (h : Heap β) (p : Nat) : Heap β where
  blocks := Function.update h.blocks p none
  next := h.next
  releases := Function.update h.releases p (h.releases p + 1)
  requests := h.requests
  beyond q hq := by
    by_cases hqp : q = p
    · rw [hqp, Function.update_self]
    · rw [Function.update_of_ne hqp]
      exact h.beyond q hq

def modify (h : Heap β) (p : Nat) (f : β → β) : Heap β where
  blocks := Function.update h.blocks p ((h.blocks p).map f)
  next := h.next
  releases := h.releases
  requests := h.requests
  beyond q hq := by
    by_cases hqp : q = p
    · rw [hqp, Function.update_self, h.beyond p (hqp ▸ hq)]
      rfl
    · rw [Function.update_of_ne hqp]
      exact h.beyond q hq

/-- `free(p)`; NULL is nothing to free. -/
def free (h : Heap β) : Option Nat → Heap β
  | none => h
  | some p => h.release p

/-- The answer to a request for `size` bytes. -/
def answer (answers : Nat → Answer) (h : Heap β) (size : Nat) : Answer :=
  if size ≤ PTRDIFF_MAX then answers h.asked else .refused

/-- `malloc(size)`, and `b` written to the block. -/
def malloc (answers : Nat → Answer) (h : Heap β) (size : Nat) (b : β) : Option Nat × Heap β :=
  match answer answers h size with
  | .refused => (none, h.ask size)
  | _ => (some h.next, (h.ask size).alloc b)

/-- `realloc(old, size)`, where `b` is what the block of that size holds of the
    old one. -/
def realloc (answers : Nat → Answer) (h : Heap β) (old : Option Nat) (size : Nat) (b : β) :
    Option Nat × Heap β :=
  match answer answers h size, old with
  | .refused, _ => (none, h.ask size)
  | .inPlace, some p => (some p, (h.ask size).modify p fun _ => b)
  | _, _ => (some h.next, ((h.ask size).alloc b).free old)

-- ============================================================================
-- Blocks
-- ============================================================================

theorem alloc_next (h : Heap β) (b : β) : (h.alloc b).blocks h.next = some b :=
  Function.update_self ..

theorem alloc_of_ne (h : Heap β) (b : β) {p : Nat} (hp : p ≠ h.next) :
    (h.alloc b).blocks p = h.blocks p :=
  Function.update_of_ne hp ..

theorem release_self (h : Heap β) (p : Nat) : (h.release p).blocks p = none :=
  Function.update_self ..

theorem release_of_ne (h : Heap β) {p q : Nat} (hq : q ≠ p) :
    (h.release p).blocks q = h.blocks q :=
  Function.update_of_ne hq ..

theorem modify_self (h : Heap β) (p : Nat) (f : β → β) :
    (h.modify p f).blocks p = (h.blocks p).map f :=
  Function.update_self ..

theorem modify_of_ne (h : Heap β) {p q : Nat} (f : β → β) (hq : q ≠ p) :
    (h.modify p f).blocks q = h.blocks q :=
  Function.update_of_ne hq ..

theorem lt_next (h : Heap β) {p : Nat} {b : β} (hp : h.blocks p = some b) : p < h.next := by
  by_contra hle
  rw [h.beyond p (Nat.le_of_not_lt hle)] at hp
  exact Option.some_ne_none b hp.symm

theorem ne_next (h : Heap β) {p : Nat} {b : β} (hp : h.blocks p = some b) : p ≠ h.next :=
  Nat.ne_of_lt (h.lt_next hp)

/-- What is live stays where it is. -/
theorem alloc_of_some (h : Heap β) (b : β) {p : Nat} {b' : β} (hp : h.blocks p = some b') :
    (h.alloc b).blocks p = some b' :=
  (alloc_of_ne h b (h.ne_next hp)).trans hp

-- ============================================================================
-- Every block is released at most once
-- ============================================================================

/-- What was given out is live or was released exactly once; nothing else was
    released. -/
def Sound (h : Heap β) : Prop :=
  ∀ p, h.releases p = if p < h.next ∧ (h.blocks p).isNone then 1 else 0

theorem sound_empty : (empty : Heap β).Sound := fun _ =>
  (if_neg fun h => absurd h.1 (Nat.not_lt_zero _)).symm

theorem Sound.ask {h : Heap β} (hs : h.Sound) (size : Nat) : (h.ask size).Sound := hs

theorem Sound.alloc {h : Heap β} (hs : h.Sound) (b : β) : (h.alloc b).Sound := by
  intro p
  show h.releases p = if p < h.next + 1 ∧ ((h.alloc b).blocks p).isNone then 1 else 0
  rw [hs p]
  by_cases hp : p = h.next
  · rw [hp, alloc_next, if_neg (fun hc => absurd hc.1 (Nat.lt_irrefl _)),
      if_neg (fun hc => absurd hc.2 Bool.false_ne_true)]
  · rw [alloc_of_ne h b hp]
    have hlt : p < h.next ↔ p < h.next + 1 := by omega
    simp only [hlt]

/-- Only what is live may be released. -/
theorem Sound.release {h : Heap β} (hs : h.Sound) {p : Nat} {b : β} (hp : h.blocks p = some b) :
    (h.release p).Sound := by
  intro q
  show Function.update h.releases p (h.releases p + 1) q =
    if q < h.next ∧ ((h.release p).blocks q).isNone then 1 else 0
  by_cases hq : q = p
  · rw [hq, Function.update_self, release_self, if_pos ⟨h.lt_next hp, rfl⟩, hs p, hp,
      if_neg (fun hc => absurd hc.2 Bool.false_ne_true)]
  · rw [Function.update_of_ne hq, release_of_ne h hq]
    exact hs q

theorem Sound.modify {h : Heap β} (hs : h.Sound) (p : Nat) (f : β → β) :
    (h.modify p f).Sound := by
  intro q
  show h.releases q = if q < h.next ∧ ((h.modify p f).blocks q).isNone then 1 else 0
  by_cases hq : q = p
  · rw [hq, modify_self, Option.isNone_map]
    exact hs p
  · rw [modify_of_ne h f hq]
    exact hs q

theorem Sound.releases_eq_one {h : Heap β} (hs : h.Sound) {p : Nat} (hlt : p < h.next)
    (hp : h.blocks p = none) : h.releases p = 1 := by
  rw [hs p, hp, if_pos ⟨hlt, rfl⟩]

-- ============================================================================
-- One block after the other
-- ============================================================================

/-- `free` of each of the blocks. -/
def releaseAll (h : Heap β) (ps : List Nat) : Heap β := ps.foldl release h

@[simp] theorem releaseAll_nil (h : Heap β) : h.releaseAll [] = h := rfl

theorem releaseAll_cons (h : Heap β) (p : Nat) (ps : List Nat) :
    h.releaseAll (p :: ps) = (h.release p).releaseAll ps := rfl

theorem releaseAll_append (h : Heap β) (ps qs : List Nat) :
    h.releaseAll (ps ++ qs) = (h.releaseAll ps).releaseAll qs := List.foldl_append

theorem releaseAll_next (h : Heap β) (ps : List Nat) : (h.releaseAll ps).next = h.next := by
  induction ps generalizing h with
  | nil => rfl
  | cons p ps ih => exact ih (h.release p)

theorem releaseAll_of_not_mem (h : Heap β) {ps : List Nat} {p : Nat} (hp : p ∉ ps) :
    (h.releaseAll ps).blocks p = h.blocks p := by
  induction ps generalizing h with
  | nil => rfl
  | cons q ps ih =>
      rw [List.mem_cons, not_or] at hp
      rw [releaseAll_cons, ih _ hp.2, release_of_ne h hp.1]

theorem releaseAll_of_mem (h : Heap β) {ps : List Nat} {p : Nat} (hp : p ∈ ps) :
    (h.releaseAll ps).blocks p = none := by
  induction ps generalizing h with
  | nil => cases hp
  | cons q ps ih =>
      by_cases hmem : p ∈ ps
      · exact ih _ hmem
      · obtain rfl : p = q := (List.mem_cons.mp hp).resolve_right hmem
        rw [releaseAll_cons, releaseAll_of_not_mem _ hmem, release_self]

/-- Live blocks, each of them once. -/
theorem Sound.releaseAll {h : Heap β} (hs : h.Sound) {ps : List Nat} (hnodup : ps.Nodup)
    (hlive : ∀ p ∈ ps, (h.blocks p).isSome) : (h.releaseAll ps).Sound := by
  induction ps generalizing h with
  | nil => exact hs
  | cons p ps ih =>
      obtain ⟨hout, hnodup⟩ := List.nodup_cons.mp hnodup
      obtain ⟨b, hb⟩ := Option.isSome_iff_exists.mp (hlive p (List.mem_cons_self ..))
      refine ih (hs.release hb) hnodup fun q hq => ?_
      have hne : q ≠ p := fun heq => hout (heq ▸ hq)
      rw [release_of_ne h hne]
      exact hlive q (List.mem_cons_of_mem p hq)

-- ============================================================================
-- Requests
-- ============================================================================

theorem malloc_cases (answers : Nat → Answer) (h : Heap β) (size : Nat) (b : β) :
    malloc answers h size b = (none, h.ask size) ∨
      malloc answers h size b = (some h.next, (h.ask size).alloc b) ∧ size ≤ PTRDIFF_MAX := by
  rw [malloc, answer]
  by_cases hsize : size ≤ PTRDIFF_MAX
  · rw [if_pos hsize]
    cases answers h.asked with
    | refused => exact .inl rfl
    | moved => exact .inr ⟨rfl, hsize⟩
    | inPlace => exact .inr ⟨rfl, hsize⟩
  · rw [if_neg hsize]
    exact .inl rfl

theorem requests_malloc (answers : Nat → Answer) (h : Heap β) (size : Nat) (b : β) :
    (malloc answers h size b).2.requests = h.requests ++ [size] := by
  obtain hno | ⟨hyes, -⟩ := malloc_cases answers h size b
  · rw [hno]
    rfl
  · rw [hyes]
    rfl

theorem asked_le_malloc (answers : Nat → Answer) (h : Heap β) (size : Nat) (b : β) :
    h.asked ≤ (malloc answers h size b).2.asked := by
  rw [asked, asked, requests_malloc, List.length_append]
  exact Nat.le_add_right ..

/-- Why one of the requests between `h` and `h'`, each for at most `limit` bytes,
    can have failed: it was refused, or no object is as large as that. -/
def Short (answers : Nat → Answer) (h h' : Heap β) (limit : Nat) : Prop :=
  (∃ n, h.asked ≤ n ∧ n < h'.asked ∧ answers n = .refused) ∨ PTRDIFF_MAX < limit

theorem Short.mono {answers : Nat → Answer} {h h' : Heap β} {limit limit' : Nat}
    (hs : Short answers h h' limit) (hle : limit ≤ limit') : Short answers h h' limit' :=
  hs.imp_right fun hlt => Nat.lt_of_lt_of_le hlt hle

/-- A longer stretch has the requests of a shorter one. -/
theorem Short.within {answers : Nat → Answer} {h₀ h h' h'' : Heap β} {limit : Nat}
    (hs : Short answers h h' limit) (hle : h₀.asked ≤ h.asked) (hle' : h'.asked ≤ h''.asked) :
    Short answers h₀ h'' limit :=
  hs.imp_left fun ⟨n, hn, hn', hanswer⟩ =>
    ⟨n, Nat.le_trans hle hn, Nat.lt_of_lt_of_le hn' hle', hanswer⟩

theorem asked_ask (h : Heap β) (size : Nat) : (h.ask size).asked = h.asked + 1 :=
  List.length_append

theorem asked_free (h : Heap β) (p : Option Nat) : (h.free p).asked = h.asked := by
  cases p with
  | none => rfl
  | some p => rfl

/-- A request that is answered with nothing was refused itself. -/
theorem short_of_answer {answers : Nat → Answer} {h : Heap β} {size : Nat}
    (hanswer : answer answers h size = .refused) : Short answers h (h.ask size) size := by
  rw [answer] at hanswer
  by_cases hsize : size ≤ PTRDIFF_MAX
  · rw [if_pos hsize] at hanswer
    exact .inl ⟨h.asked, Nat.le_refl _, by rw [asked_ask]; exact Nat.lt_succ_self _, hanswer⟩
  · exact .inr (Nat.lt_of_not_le hsize)

theorem short_of_malloc {answers : Nat → Answer} {h h' : Heap β} {size : Nat} {b : β}
    (heq : malloc answers h size b = (none, h')) : Short answers h h' size := by
  rw [malloc] at heq
  cases hanswer : answer answers h size with
  | refused =>
      rw [hanswer] at heq
      rw [← (Prod.mk.inj heq).2]
      exact short_of_answer hanswer
  | moved => simp [hanswer] at heq
  | inPlace => simp [hanswer] at heq

/-- The heap behind a `realloc` that succeeded. -/
structure Resized (h : Heap β) (old : Option Nat) (b : β) (q : Nat) (h' : Heap β) : Prop where
  content : h'.blocks q = some b
  place : old = some q ∨ h.next ≤ q
  gone : ∀ o, old = some o → o ≠ q → h'.blocks o = none
  frame : ∀ p, p ≠ q → old ≠ some p → h'.blocks p = h.blocks p
  next_le : h.next ≤ h'.next
  requests : h.requests <+: h'.requests
  sound : h.Sound → h'.Sound

theorem resized_alloc (h : Heap β) (b : β) : Resized h none b h.next (h.alloc b) where
  content := alloc_next h b
  place := .inr (Nat.le_refl _)
  gone := nofun
  frame _ hp _ := alloc_of_ne h b hp
  next_le := Nat.le_succ _
  requests := List.prefix_rfl
  sound hs := hs.alloc b

theorem resized_moved (h : Heap β) (b : β) {o : Nat} {b₀ : β} (ho : h.blocks o = some b₀) :
    Resized h (some o) b h.next ((h.alloc b).release o) := by
  have hne : o ≠ h.next := h.ne_next ho
  have hlive : (h.alloc b).blocks o = some b₀ := alloc_of_some h b ho
  constructor
  · rw [release_of_ne _ hne.symm, alloc_next]
  · exact .inr (Nat.le_refl _)
  · intro p hp _
    rw [← Option.some.inj hp, release_self]
  · intro p hp hold
    rw [release_of_ne _ (fun heq => hold (congrArg some heq.symm)), alloc_of_ne h b hp]
  · exact Nat.le_succ _
  · exact List.prefix_rfl
  · exact fun hs => (hs.alloc b).release hlive

theorem resized_inPlace (h : Heap β) (b : β) {o : Nat} {b₀ : β} (ho : h.blocks o = some b₀) :
    Resized h (some o) b o (h.modify o fun _ => b) := by
  constructor
  · rw [modify_self]
    show (h.blocks o).map _ = some b
    rw [ho]
    rfl
  · exact .inl rfl
  · intro p hp hne
    exact absurd (Option.some.inj hp).symm hne
  · intro p hp _
    exact modify_of_ne _ _ hp
  · exact Nat.le_refl _
  · exact List.prefix_rfl
  · exact fun hs => hs.modify o _

/-- The request itself changes no block. -/
theorem Resized.of_ask {h h' : Heap β} {size : Nat} {old : Option Nat} {b : β} {q : Nat}
    (hr : Resized (h.ask size) old b q h') : Resized h old b q h' :=
  ⟨hr.content, hr.place, hr.gone, hr.frame, hr.next_le,
    (List.prefix_append ..).trans hr.requests, hr.sound⟩

/-- A request to resize a live block, or none, leaves everything as it was or
    succeeds. -/
theorem realloc_cases (answers : Nat → Answer) (h : Heap β) {old : Option Nat} (size : Nat)
    (b : β) (hold : ∀ o, old = some o → ∃ b₀, h.blocks o = some b₀) :
    realloc answers h old size b = (none, h.ask size) ∨
      ∃ q h', realloc answers h old size b = (some q, h') ∧ Resized h old b q h' ∧
        size ≤ PTRDIFF_MAX := by
  simp only [realloc, answer]
  by_cases hsize : size ≤ PTRDIFF_MAX
  · rw [if_pos hsize]
    cases old with
    | none =>
        cases answers h.asked with
        | refused => exact .inl rfl
        | moved => exact .inr ⟨_, _, rfl, (resized_alloc (h.ask size) b).of_ask, hsize⟩
        | inPlace => exact .inr ⟨_, _, rfl, (resized_alloc (h.ask size) b).of_ask, hsize⟩
    | some o =>
        obtain ⟨b₀, ho⟩ := hold o rfl
        cases answers h.asked with
        | refused => exact .inl rfl
        | moved => exact .inr ⟨_, _, rfl, (resized_moved (h.ask size) b ho).of_ask, hsize⟩
        | inPlace => exact .inr ⟨_, _, rfl, (resized_inPlace (h.ask size) b ho).of_ask, hsize⟩
  · rw [if_neg hsize]
    exact .inl rfl

theorem short_of_realloc {answers : Nat → Answer} {h h' : Heap β} {old : Option Nat}
    {size : Nat} {b : β} (heq : realloc answers h old size b = (none, h')) :
    Short answers h h' size := by
  simp only [realloc] at heq
  cases hanswer : answer answers h size with
  | refused =>
      rw [hanswer] at heq
      rw [← (Prod.mk.inj heq).2]
      exact short_of_answer hanswer
  | moved => simp [hanswer] at heq
  | inPlace => cases old <;> simp [hanswer] at heq

end Heap
