/-
  Mnet.Lib.Ownership

  Who has to release what.  `Owns h₀ h own` says that since `h₀` everything
  allocated is gone again but for the blocks `own`, and that nothing else has
  been touched.

  Code that allocates and releases moves from one `own` to the next: a block
  joins it when it is allocated (`Owns.alloc`) and leaves it when it is released
  (`Owns.release`).  Code that owes nothing ends where it began, with `own`
  empty: `Owns.balanced`.
-/

import Mathlib.Data.List.Perm.Basic
import Mnet.Lib.Heap

namespace Heap

variable {β : Type} {h₀ h : Heap β} {own own' : List Nat} {p : Nat} {b : β}

structure Owns (h₀ h : Heap β) (own : List Nat) : Prop where
  frame : ∀ p < h₀.next, h.blocks p = h₀.blocks p
  next_le : h₀.next ≤ h.next
  requests : h₀.requests <+: h.requests
  left : ∀ p, h₀.next ≤ p → p ∉ own → h.blocks p = none
  new : ∀ p ∈ own, h₀.next ≤ p
  live : ∀ p ∈ own, (h.blocks p).isSome
  nodup : own.Nodup
  sound : h₀.Sound → h.Sound

/-- Nothing is left of what came since: each block was released once, and what
    was there before is as it was. -/
structure Balanced (h₀ h : Heap β) : Prop where
  frame : ∀ p < h₀.next, h.blocks p = h₀.blocks p
  gone : ∀ p, h₀.next ≤ p → h.blocks p = none
  released : h₀.Sound → ∀ p, h₀.next ≤ p → p < h.next → h.releases p = 1

namespace Owns

theorem refl (h : Heap β) : Owns h h [] where
  frame _ _ := rfl
  next_le := Nat.le_refl _
  requests := List.prefix_rfl
  left p hp _ := h.beyond p hp
  new := nofun
  live := nofun
  nodup := List.nodup_nil
  sound hs := hs

theorem perm (ho : Owns h₀ h own) (hperm : own.Perm own') : Owns h₀ h own' where
  frame := ho.frame
  next_le := ho.next_le
  requests := ho.requests
  left p hp hout := ho.left p hp fun hmem => hout (hperm.subset hmem)
  new p hp := ho.new p (hperm.symm.subset hp)
  live p hp := ho.live p (hperm.symm.subset hp)
  nodup := hperm.nodup_iff.mp ho.nodup
  sound := ho.sound

theorem ask (ho : Owns h₀ h own) (size : Nat) : Owns h₀ (h.ask size) own :=
  ⟨ho.frame, ho.next_le, ho.requests.trans (List.prefix_append ..), ho.left, ho.new, ho.live,
    ho.nodup, ho.sound⟩

theorem asked_le (ho : Owns h₀ h own) : h₀.asked ≤ h.asked := ho.requests.length_le

/-- What fails behind a stretch of code fails behind its beginning. -/
theorem earlier {answers : Nat → Answer} {h' : Heap β} {limit : Nat} (ho : Owns h₀ h own)
    (hs : Short answers h h' limit) : Short answers h₀ h' limit :=
  hs.within ho.asked_le (Nat.le_refl _)

/-- What has failed before a stretch of code has failed before its end. -/
theorem later {answers : Nat → Answer} {h' : Heap β} {limit : Nat} (ho : Owns h h' own)
    (hs : Short answers h₀ h limit) : Short answers h₀ h' limit :=
  hs.within (Nat.le_refl _) ho.asked_le

theorem exists_block (ho : Owns h₀ h own) (hp : p ∈ own) : ∃ b, h.blocks p = some b :=
  Option.isSome_iff_exists.mp (ho.live p hp)

theorem lt_next (ho : Owns h₀ h own) (hp : p ∈ own) : p < h.next :=
  let ⟨_, hb⟩ := ho.exists_block hp
  h.lt_next hb

theorem alloc (ho : Owns h₀ h own) (b : β) : Owns h₀ (h.alloc b) (h.next :: own) where
  frame p hp :=
    (alloc_of_ne h b (Nat.ne_of_lt (Nat.lt_of_lt_of_le hp ho.next_le))).trans (ho.frame p hp)
  next_le := Nat.le_succ_of_le ho.next_le
  requests := ho.requests
  left p hp hout := by
    rw [List.mem_cons, not_or] at hout
    rw [alloc_of_ne h b hout.1]
    exact ho.left p hp hout.2
  new p hp := by
    obtain rfl | hp := List.mem_cons.mp hp
    · exact ho.next_le
    · exact ho.new p hp
  live p hp := by
    obtain rfl | hp := List.mem_cons.mp hp
    · rw [alloc_next]
      rfl
    · rw [alloc_of_ne h b (Nat.ne_of_lt (ho.lt_next hp))]
      exact ho.live p hp
  nodup := List.nodup_cons.mpr ⟨fun hmem => absurd (ho.lt_next hmem) (Nat.lt_irrefl _), ho.nodup⟩
  sound hs := (ho.sound hs).alloc b

theorem release (ho : Owns h₀ h (p :: own)) : Owns h₀ (h.release p) own := by
  obtain ⟨hout, hnodup⟩ := List.nodup_cons.mp ho.nodup
  obtain ⟨b, hb⟩ := ho.exists_block (List.mem_cons_self ..)
  have hne : ∀ q ∈ own, q ≠ p := fun q hq heq => hout (heq ▸ hq)
  constructor
  · intro q hq
    have hge := ho.new p (List.mem_cons_self ..)
    rw [release_of_ne h (Nat.ne_of_lt (Nat.lt_of_lt_of_le hq hge))]
    exact ho.frame q hq
  · exact ho.next_le
  · exact ho.requests
  · intro q hq hmem
    by_cases hqp : q = p
    · rw [hqp, release_self]
    · rw [release_of_ne h hqp]
      exact ho.left q hq (by simp [hqp, hmem])
  · exact fun q hq => ho.new q (List.mem_cons_of_mem p hq)
  · intro q hq
    rw [release_of_ne h (hne q hq)]
    exact ho.live q (List.mem_cons_of_mem p hq)
  · exact hnodup
  · exact fun hs => (ho.sound hs).release hb

/-- `free` of what a request for memory came to. -/
theorem free {q : Option Nat} (ho : Owns h₀ h (q.toList ++ own)) : Owns h₀ (h.free q) own := by
  cases q with
  | none => exact ho
  | some q => exact ho.release

/-- The rest stays as it is. -/
theorem free_blocks {q : Option Nat} (ho : Owns h₀ h (q.toList ++ own)) (hp : p ∈ own) :
    (h.free q).blocks p = h.blocks p := by
  cases q with
  | none => rfl
  | some q =>
      have hout := (List.nodup_cons.mp ho.nodup).1
      exact release_of_ne h fun heq => hout (heq ▸ hp)

theorem releaseAll {ps : List Nat} (ho : Owns h₀ h (ps ++ own)) :
    Owns h₀ (h.releaseAll ps) own := by
  induction ps generalizing h with
  | nil => exact ho
  | cons p ps ih => exact ih ho.release

theorem modify (ho : Owns h₀ h own) (hp : p ∈ own) (f : β → β) : Owns h₀ (h.modify p f) own := by
  constructor
  · intro q hq
    have hge := ho.new p hp
    rw [modify_of_ne h f (Nat.ne_of_lt (Nat.lt_of_lt_of_le hq hge))]
    exact ho.frame q hq
  · exact ho.next_le
  · exact ho.requests
  · intro q hq hout
    have hne : q ≠ p := fun heq => hout (heq ▸ hp)
    rw [modify_of_ne h f hne]
    exact ho.left q hq hout
  · exact ho.new
  · intro q hq
    by_cases hqp : q = p
    · rw [hqp, modify_self, Option.isSome_map]
      exact ho.live p hp
    · rw [modify_of_ne h f hqp]
      exact ho.live q hq
  · exact ho.nodup
  · exact fun hs => (ho.sound hs).modify p f

/-- A request for memory is met with a new block, or with none. -/
theorem malloc (ho : Owns h₀ h own) (answers : Nat → Answer) (size : Nat) (b : β) :
    ∃ q h', Heap.malloc answers h size b = (q, h') ∧ Owns h₀ h' (q.toList ++ own) ∧
      (∀ p, q = some p → h'.blocks p = some b) ∧
      (∀ p b', h.blocks p = some b' → h'.blocks p = some b') := by
  obtain hno | ⟨hyes, -⟩ := malloc_cases answers h size b
  · exact ⟨none, _, hno, ho.ask size, nofun, fun _ _ hp => hp⟩
  · refine ⟨some h.next, _, hyes, (ho.ask size).alloc b, ?_,
      fun p b' hp => alloc_of_some (h.ask size) b hp⟩
    rintro p ⟨⟩
    exact alloc_next (h.ask size) b

theorem resized {old : Option Nat} {q : Nat} {h' : Heap β} (ho : Owns h₀ h (old.toList ++ own))
    (hr : Resized h old b q h') : Owns h₀ h' (q :: own) := by
  have hold : ∀ o, old = some o → o ∈ old.toList ++ own := by
    rintro o rfl
    exact List.mem_cons_self ..
  have hmem : ∀ p ∈ own, p ∈ old.toList ++ own := fun p hp => List.mem_append_right _ hp
  have hqnew : h₀.next ≤ q := by
    obtain heq | hle := hr.place
    · exact ho.new q (hold q heq)
    · exact Nat.le_trans ho.next_le hle
  have hout : ∀ p ∈ own, p ≠ q ∧ old ≠ some p := by
    intro p hp
    have hnot : old ≠ some p := by
      rintro rfl
      exact (List.nodup_cons.mp ho.nodup).1 hp
    refine ⟨?_, hnot⟩
    rintro rfl
    obtain heq | hle := hr.place
    · exact hnot heq
    · exact absurd (ho.lt_next (hmem p hp)) (Nat.not_lt.mpr hle)
  constructor
  · intro p hp
    have hne : p ≠ q := Nat.ne_of_lt (Nat.lt_of_lt_of_le hp hqnew)
    have hnot : old ≠ some p := fun heq => absurd (ho.new p (hold p heq)) (Nat.not_le.mpr hp)
    rw [hr.frame p hne hnot]
    exact ho.frame p hp
  · exact Nat.le_trans ho.next_le hr.next_le
  · exact ho.requests.trans hr.requests
  · intro p hp hnot
    rw [List.mem_cons, not_or] at hnot
    by_cases heq : old = some p
    · exact hr.gone p heq hnot.1
    · rw [hr.frame p hnot.1 heq]
      refine ho.left p hp fun hin => ?_
      obtain hin | hin := List.mem_append.mp hin
      · exact heq (Option.mem_toList.mp hin)
      · exact hnot.2 hin
  · intro p hp
    obtain rfl | hp := List.mem_cons.mp hp
    · exact hqnew
    · exact ho.new p (hmem p hp)
  · intro p hp
    obtain rfl | hp := List.mem_cons.mp hp
    · rw [hr.content]
      rfl
    · obtain ⟨hne, hnot⟩ := hout p hp
      rw [hr.frame p hne hnot]
      exact ho.live p (hmem p hp)
  · refine List.nodup_cons.mpr ⟨fun hq => (hout q hq).1 rfl, ?_⟩
    exact (List.nodup_append.mp ho.nodup).2.1
  · exact fun hs => hr.sound (ho.sound hs)

/-- A request to resize what is owned, or nothing, fails for a reason or is
    met. -/
theorem realloc {old : Option Nat} (ho : Owns h₀ h (old.toList ++ own))
    (answers : Nat → Answer) (size : Nat) (b : β) :
    (∃ h', Heap.realloc answers h old size b = (none, h') ∧ Owns h₀ h' (old.toList ++ own) ∧
        Short answers h₀ h' size) ∨
      ∃ q h', Heap.realloc answers h old size b = (some q, h') ∧ Owns h₀ h' (q :: own) ∧
        h'.blocks q = some b := by
  have hlive : ∀ o, old = some o → ∃ b₀, h.blocks o = some b₀ := by
    rintro o rfl
    exact ho.exists_block (List.mem_cons_self ..)
  obtain hno | ⟨q, h', hyes, hr, -⟩ := realloc_cases answers h size b hlive
  · exact .inl ⟨_, hno, ho.ask size, ho.earlier (short_of_realloc hno)⟩
  · exact .inr ⟨q, h', hyes, ho.resized hr, hr.content⟩

/-- One stretch of code behind another: what the first has left stays. -/
theorem trans {h' : Heap β} (ho : Owns h₀ h own) (ho' : Owns h h' own') :
    Owns h₀ h' (own' ++ own) where
  frame p hp := (ho'.frame p (Nat.lt_of_lt_of_le hp ho.next_le)).trans (ho.frame p hp)
  next_le := Nat.le_trans ho.next_le ho'.next_le
  requests := ho.requests.trans ho'.requests
  left p hp hout := by
    rw [List.mem_append, not_or] at hout
    by_cases hlt : p < h.next
    · rw [ho'.frame p hlt]
      exact ho.left p hp hout.2
    · exact ho'.left p (Nat.le_of_not_lt hlt) hout.1
  new p hp := by
    obtain hp | hp := List.mem_append.mp hp
    · exact Nat.le_trans ho.next_le (ho'.new p hp)
    · exact ho.new p hp
  live p hp := by
    obtain hp | hp := List.mem_append.mp hp
    · exact ho'.live p hp
    · rw [ho'.frame p (ho.lt_next hp)]
      exact ho.live p hp
  nodup := by
    refine List.nodup_append.mpr ⟨ho'.nodup, ho.nodup, ?_⟩
    rintro p hp q hq rfl
    exact absurd (ho.lt_next hq) (Nat.not_lt.mpr (ho'.new p hp))
  sound hs := ho'.sound (ho.sound hs)

/-- Behind code that owns nothing any more. -/
theorem balanced (ho : Owns h₀ h []) : Balanced h₀ h where
  frame := ho.frame
  gone p hp := ho.left p hp nofun
  released hs p hp hlt := (ho.sound hs).releases_eq_one hlt (ho.left p hp nofun)

end Owns

end Heap
