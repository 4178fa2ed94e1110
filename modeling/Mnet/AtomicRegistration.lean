/-
  Mnet.AtomicRegistration

  Registering a route is atomic: in every sequence of calls, whatever requests
  for memory fail, the table holds the routes of the calls that succeeded, and a
  call that fails leaves nothing but a larger table.

  `Grown` is what making room does.  From there on a call works beside the
  entries: `Working` says what is its own, namely the slot behind the last entry
  and the blocks it has allocated, and that nothing else has changed.
  `Collected` adds the names found so far.
-/

import Mnet.Registration

namespace Mnet

open Heap (Answer malloc realloc PTRDIFF_MAX malloc_cases realloc_cases)

-- ============================================================================
-- Reading and other blocks
-- ============================================================================

/-- What is not a table is as it was. -/
def Extends (h h' : Heap Block) : Prop :=
  ∀ p b, h.blocks p = some b → (∀ slots, b ≠ .table slots) → h'.blocks p = some b

theorem Extends.trans {h₁ h₂ h₃ : Heap Block} (h : Extends h₁ h₂) (h' : Extends h₂ h₃) :
    Extends h₁ h₃ :=
  fun p b hp hb => h' p b (h p b hp hb) hb

variable {h h' : Heap Block}

theorem readText_eq_some {p : Nat} {s : Bytes} :
    readText h p = some s ↔ h.blocks p = some (.text s) := by
  rw [readText]
  split
  · next s' heq => rw [heq, Option.some.injEq, Option.some.injEq, Block.text.injEq]
  · next hne => exact iff_of_false (by simp) (hne s)

theorem Extends.readText (hx : Extends h h') {p : Nat} {s : Bytes}
    (hp : readText h p = some s) : readText h' p = some s :=
  readText_eq_some.mpr (hx p _ (readText_eq_some.mp hp) nofun)

theorem Extends.readCells (hx : Extends h h') {cells : List NameCell} {names : List Bytes}
    (hcells : readCells h cells = some names) : readCells h' cells = some names := by
  induction cells generalizing names with
  | nil => exact hcells
  | cons c cells ih =>
      cases c with
      | unset => exact hcells
      | null => exact hcells
      | name p =>
          rw [Mnet.readCells] at hcells ⊢
          split at hcells
          · next name rest hname hrest =>
              rw [hx.readText hname, ih hrest]
              exact hcells
          · exact absurd hcells nofun

theorem Extends.readNames (hx : Extends h h') {p : Option Nat} {names : List Bytes}
    (hp : readNames h p = some names) : readNames h' p = some names := by
  cases p with
  | none => exact hp
  | some q =>
      rw [Mnet.readNames] at hp ⊢
      split at hp
      · next cells hq =>
          rw [hx q _ hq nofun]
          exact hx.readCells hp
      · exact absurd hp nofun

theorem Extends.readPath (hx : Extends h h') {path : PathRef} {s : Bytes}
    (hp : readPath h path = some s) : readPath h' path = some s := by
  cases path with
  | caller text => exact hp
  | copy p => exact hx.readText hp

theorem Extends.readConfig (hx : Extends h h') {userData : Option Nat} {cfg : StaticConfig}
    (hp : readConfig h userData = some cfg) : readConfig h' userData = some cfg := by
  cases userData with
  | none => exact hp
  | some p =>
      rw [Mnet.readConfig, Option.bind_some] at hp ⊢
      split at hp
      · next u f hcfg =>
          split at hp
          · next hu hf =>
              simp only [hx p _ hcfg nofun, hx.readText hu, hx.readText hf]
              exact hp
          · exact absurd hp nofun
      · exact absurd hp nofun

theorem Extends.readHandler (hx : Extends h h') {fs : FileSystem} {r : RouteEntry}
    {handler : MnetHandler} (hr : readHandler fs h r = some handler) :
    readHandler fs h' r = some handler := by
  rw [Mnet.readHandler] at hr ⊢
  cases hhandler : r.handler with
  | user f =>
      rw [hhandler] at hr
      exact hr
  | staticHandler =>
      rw [hhandler] at hr
      obtain ⟨cfg, hcfg, heq⟩ := Option.map_eq_some_iff.mp hr
      exact Option.map_eq_some_iff.mpr ⟨cfg, hx.readConfig hcfg, heq⟩

theorem Extends.readRoute (hx : Extends h h') {fs : FileSystem} {r : RouteEntry}
    {route : MnetRoute} (hr : readRoute fs h r = some route) : readRoute fs h' r = some route := by
  rw [Mnet.readRoute] at hr ⊢
  split at hr
  · next path handler names hpath hhandler hnames =>
      rw [hx.readPath hpath, hx.readHandler hhandler, hx.readNames hnames]
      exact hr
  · exact absurd hr nofun

-- ============================================================================
-- The table
-- ============================================================================

/-- The table holds as many slots as it should, and more than it counts. -/
structure TableOk (s : Registry) : Prop where
  sound : s.heap.Sound
  table : ∀ t, s.routes = some t → s.heap.blocks t = some (.table s.slots)
  length : s.slots.length = s.routeCapacity
  fits : s.routeCapacity * ROUTE_SIZE ≤ PTRDIFF_MAX
  count_le : s.routeCount ≤ s.routeCapacity

theorem slots_of_table {s : Registry} {t : Nat} {slots : List (Option RouteEntry)}
    (hroutes : s.routes = some t) (ht : s.heap.blocks t = some (.table slots)) :
    s.slots = slots := by
  simp only [Registry.slots, hroutes, ht]

/-- The table before the first route. -/
theorem tableOk_empty : TableOk {} where
  sound := Heap.sound_empty
  table := nofun
  length := rfl
  fits := Nat.zero_le _
  count_le := Nat.le_refl _

/-- A request that fails changes nothing. -/
theorem TableOk.ask {s : Registry} (h : TableOk s) (size : Nat) :
    TableOk { s with heap := s.heap.ask size } :=
  ⟨h.sound, h.table, h.length, h.fits, h.count_le⟩

/-- The table with room for one more route. -/
structure Grown (s s₁ : Registry) : Prop where
  ok : TableOk s₁
  count : s₁.routeCount = s.routeCount
  lt : s₁.routeCount < s₁.routeCapacity
  entries : KeepsEntries s s₁
  keeps : Extends s.heap s₁.heap
  next_le : s.heap.next ≤ s₁.heap.next
  left : ∀ p, s.heap.next ≤ p → s₁.routes ≠ some p → s₁.heap.blocks p = none

theorem sizeMul_of_lt {a b : Nat} (h : a * b < 2 ^ 64) : sizeMul a b = a * b :=
  Nat.mod_eq_of_lt h

/-- The new capacity does not overflow, and neither does its size. -/
theorem grow_sizes {capacity : Nat} (h : capacity * ROUTE_SIZE ≤ PTRDIFF_MAX) :
    ∃ nc, (if capacity = 0 then 8 else sizeMul capacity 2) = nc ∧ capacity < nc ∧
      sizeMul nc ROUTE_SIZE = nc * ROUTE_SIZE := by
  have hsize : ROUTE_SIZE = 48 := rfl
  have hmax : PTRDIFF_MAX = 2 ^ 63 - 1 := rfl
  rw [hsize, hmax] at h
  by_cases hzero : capacity = 0
  · rw [if_pos hzero]
    exact ⟨8, rfl, by omega, sizeMul_of_lt (by decide)⟩
  · rw [if_neg hzero, sizeMul_of_lt (by omega)]
    exact ⟨capacity * 2, rfl, by omega, sizeMul_of_lt (by rw [hsize]; omega)⟩

theorem resizeSlots_eq {slots : List (Option RouteEntry)} {nc : Nat} (h : slots.length ≤ nc) :
    Registry.resizeSlots slots (nc * ROUTE_SIZE) =
      slots ++ List.replicate (nc - slots.length) none := by
  have hdiv : nc * ROUTE_SIZE / ROUTE_SIZE = nc := Nat.mul_div_cancel nc (by decide)
  rw [Registry.resizeSlots, hdiv, List.take_of_length_le h]

/-- The table has been resized, where it was or elsewhere. -/
theorem grown_of_resized {s : Registry} (h : TableOk s) (hfull : s.routeCount = s.routeCapacity)
    {nc t : Nat} {heap : Heap Block} (hlt : s.routeCapacity < nc)
    (hresized : Heap.Resized s.heap s.routes
      (.table (s.slots ++ List.replicate (nc - s.slots.length) none)) t heap)
    (hfits : nc * ROUTE_SIZE ≤ PTRDIFF_MAX) :
    Grown s { s with routes := some t, routeCapacity := nc, heap := heap } := by
  have hslots : Registry.slots { s with routes := some t, routeCapacity := nc, heap := heap } =
      s.slots ++ List.replicate (nc - s.slots.length) none :=
    slots_of_table rfl hresized.content
  have hlive : ∀ p, s.routes = some p → p < s.heap.next := fun p hp => s.heap.lt_next (h.table p hp)
  refine ⟨⟨hresized.sound h.sound, ?_, ?_, hfits, ?_⟩, rfl, hfull ▸ hlt, ?_, ?_,
    hresized.next_le, ?_⟩
  · intro t' ht'
    rw [hslots, ← Option.some.inj ht']
    exact hresized.content
  · have hlen := h.length
    rw [hslots, List.length_append, List.length_replicate]
    show s.slots.length + (nc - s.slots.length) = nc
    omega
  · exact Nat.le_of_lt (hfull ▸ hlt)
  · intro i hi
    have hi' : i < s.slots.length := by rw [h.length, ← hfull]; exact hi
    rw [Registry.entry, Registry.entry, hslots, List.getElem?_append_left hi']
  · intro p b hp hb
    have htable : s.routes ≠ some p := fun hroutes =>
      hb _ (Option.some.inj (hp.symm.trans (h.table p hroutes)))
    have hne : p ≠ t := by
      rintro rfl
      rcases hresized.place with hplace | hplace
      · exact htable hplace
      · exact absurd (s.heap.lt_next hp) (Nat.not_lt.mpr hplace)
    exact (hresized.frame p hne htable).trans hp
  · intro p hp hne
    have htable : s.routes ≠ some p := fun hroutes =>
      absurd (hlive p hroutes) (Nat.not_lt.mpr hp)
    have hne' : p ≠ t := fun heq => hne (congrArg some heq.symm)
    exact (hresized.frame p hne' htable).trans (s.heap.beyond p hp)

theorem grow_cases (answers : Nat → Answer) {s : Registry} (h : TableOk s) :
    (∃ size, s.grow answers = (false, { s with heap := s.heap.ask size })) ∨
      ∃ s₁, s.grow answers = (true, s₁) ∧ Grown s s₁ := by
  by_cases hfull : s.routeCount = s.routeCapacity
  · obtain ⟨nc, hnc, hlt, hsize⟩ := grow_sizes h.fits
    have hslots := resizeSlots_eq (Nat.le_of_lt (h.length.trans_lt hlt))
    have hold : ∀ o, s.routes = some o → ∃ b₀, s.heap.blocks o = some b₀ :=
      fun o ho => ⟨_, h.table o ho⟩
    rw [Registry.grow, if_pos hfull]
    simp only [hnc, hsize, hslots]
    obtain hno | ⟨t, heap, hyes, hresized, hfits⟩ :=
      realloc_cases answers s.heap (nc * ROUTE_SIZE)
        (.table (s.slots ++ List.replicate (nc - s.slots.length) none)) hold
    · rw [hno]
      exact .inl ⟨_, rfl⟩
    · rw [hyes]
      exact .inr ⟨_, rfl, grown_of_resized h hfull hlt hresized hfits⟩
  · rw [Registry.grow, if_neg hfull]
    refine .inr ⟨s, rfl, h, rfl, ?_, fun _ _ => rfl, fun _ _ hp _ => hp, Nat.le_refl _, ?_⟩
    · exact Nat.lt_of_le_of_ne h.count_le hfull
    · exact fun p hp _ => s.heap.beyond p hp

-- ============================================================================
-- Beside the entries
-- ============================================================================

/-- A call that has made room works with the slot behind the last entry and with
    blocks of its own; the rest is as it was then. -/
structure Working (s₁ s : Registry) (slot : Option RouteEntry) (own : List Nat) : Prop where
  ok : TableOk s₁
  routes : s.routes = s₁.routes
  count : s.routeCount = s₁.routeCount
  capacity : s.routeCapacity = s₁.routeCapacity
  sound : s.heap.Sound
  table : ∀ t, s₁.routes = some t →
    s.heap.blocks t = some (.table (s₁.slots.set s₁.routeCount slot))
  frame : ∀ p, p < s₁.heap.next → s₁.routes ≠ some p → s.heap.blocks p = s₁.heap.blocks p
  next_le : s₁.heap.next ≤ s.heap.next
  left : ∀ p, s₁.heap.next ≤ p → p ∉ own → s.heap.blocks p = none
  new : ∀ p ∈ own, s₁.heap.next ≤ p

namespace Working

variable {s₁ s : Registry} {slot : Option RouteEntry} {own : List Nat}

theorem start (hok : TableOk s₁) (hlt : s₁.routeCount < s₁.routeCapacity) :
    ∃ slot, Working s₁ s₁ slot [] := by
  have hlen : s₁.routeCount < s₁.slots.length := hok.length.symm ▸ hlt
  refine ⟨s₁.slots[s₁.routeCount], hok, rfl, rfl, rfl, hok.sound, ?_, fun _ _ _ => rfl,
    Nat.le_refl _, fun p hp _ => s₁.heap.beyond p hp, nofun⟩
  rw [List.set_getElem_self]
  exact hok.table

theorem table_lt (h : Working s₁ s slot own) {t : Nat} (ht : s₁.routes = some t) :
    t < s₁.heap.next :=
  s₁.heap.lt_next (h.ok.table t ht)

theorem slots (h : Working s₁ s slot own) : s.slots = s₁.slots.set s₁.routeCount slot := by
  cases hroutes : s₁.routes with
  | none =>
      have hnil : s₁.slots = [] := by rw [Registry.slots, hroutes]
      rw [hnil, Registry.slots, h.routes, hroutes]
      rfl
  | some t => exact slots_of_table (h.routes.trans hroutes) (h.table t hroutes)

/-- Only blocks of the call have changed. -/
theorem withHeap (h : Working s₁ s slot own) {heap : Heap Block} {own' : List Nat}
    (hsound : heap.Sound) (hnext : s.heap.next ≤ heap.next)
    (hframe : ∀ p, p < s₁.heap.next → heap.blocks p = s.heap.blocks p)
    (hleft : ∀ p, s₁.heap.next ≤ p → p ∉ own' → heap.blocks p = none)
    (hnew : ∀ p ∈ own', s₁.heap.next ≤ p) :
    Working s₁ { s with heap := heap } slot own' where
  ok := h.ok
  routes := h.routes
  count := h.count
  capacity := h.capacity
  sound := hsound
  table t ht := (hframe t (h.table_lt ht)).trans (h.table t ht)
  frame p hp hne := (hframe p hp).trans (h.frame p hp hne)
  next_le := h.next_le.trans hnext
  left := hleft
  new := hnew

theorem ask (h : Working s₁ s slot own) (size : Nat) :
    Working s₁ { s with heap := s.heap.ask size } slot own :=
  h.withHeap h.sound (Nat.le_refl _) (fun _ _ => rfl) h.left h.new

theorem alloc (h : Working s₁ s slot own) (b : Block) :
    Working s₁ { s with heap := s.heap.alloc b } slot (s.heap.next :: own) := by
  refine h.withHeap (h.sound.alloc b) (Nat.le_succ _) ?_ ?_ ?_
  · intro p hp
    exact Heap.alloc_of_ne s.heap b (Nat.ne_of_lt (hp.trans_le h.next_le))
  · intro p hp hown
    rw [List.mem_cons, not_or] at hown
    rw [Heap.alloc_of_ne s.heap b hown.1]
    exact h.left p hp hown.2
  · intro p hp
    rcases List.mem_cons.mp hp with rfl | hp
    · exact h.next_le
    · exact h.new p hp

theorem release (h : Working s₁ s slot own) {p : Nat} {b : Block} (hp : p ∈ own)
    (hb : s.heap.blocks p = some b) {own' : List Nat} (hown : ∀ q ∈ own, q ≠ p → q ∈ own')
    (hsub : own' ⊆ own) : Working s₁ { s with heap := s.heap.release p } slot own' := by
  refine h.withHeap (h.sound.release hb) (Nat.le_refl _) ?_ ?_ (fun q hq => h.new q (hsub hq))
  · intro q hq
    exact Heap.release_of_ne _ (Nat.ne_of_lt (hq.trans_le (h.new p hp)))
  · intro q hq hown'
    by_cases hqp : q = p
    · rw [hqp, Heap.release_self]
    · rw [Heap.release_of_ne _ hqp]
      exact h.left q hq fun hmem => hown' (hown q hmem hqp)

theorem modify (h : Working s₁ s slot own) {p : Nat} (hp : p ∈ own) (f : Block → Block) :
    Working s₁ { s with heap := s.heap.modify p f } slot own := by
  refine h.withHeap (h.sound.modify p f) (Nat.le_refl _) ?_ ?_ h.new
  · intro q hq
    exact Heap.modify_of_ne _ _ (Nat.ne_of_lt (hq.trans_le (h.new p hp)))
  · intro q hq hown
    have hne : q ≠ p := by
      rintro rfl
      exact hown hp
    rw [Heap.modify_of_ne _ _ hne]
    exact h.left q hq hown

/-- `*r = ...` -/
theorem write (h : Working s₁ s slot own) (r : RouteEntry) :
    Working s₁ (s.write r) (some r) own := by
  cases hroutes : s₁.routes with
  | none =>
      have hwrite : s.write r = s := by rw [Registry.write, h.routes, hroutes]
      rw [hwrite]
      exact ⟨h.ok, h.routes, h.count, h.capacity, h.sound,
        fun t ht => absurd (hroutes.symm.trans ht) nofun, h.frame, h.next_le, h.left, h.new⟩
  | some t =>
      have hwrite : s.write r =
          { s with heap := s.heap.modify t (Registry.writeSlot s.routeCount r) } := by
        rw [Registry.write, h.routes, hroutes]
      have hlt := h.table_lt hroutes
      rw [hwrite]
      refine ⟨h.ok, h.routes, h.count, h.capacity, h.sound.modify t _, ?_, ?_, h.next_le, ?_, h.new⟩
      · intro t' ht'
        obtain rfl : t = t' := Option.some.inj (hroutes.symm.trans ht')
        show (s.heap.modify t _).blocks t = _
        rw [Heap.modify_self, h.table t hroutes, h.count]
        show some (Block.table ((s₁.slots.set s₁.routeCount slot).set s₁.routeCount (some r))) = _
        rw [List.set_set]
      · intro p hp hne
        show (s.heap.modify t _).blocks p = _
        rw [Heap.modify_of_ne _ _ (fun heq => hne (by rw [heq, hroutes]))]
        exact h.frame p hp hne
      · intro p hp hown
        show (s.heap.modify t _).blocks p = none
        rw [Heap.modify_of_ne _ _ (Nat.ne_of_gt (hlt.trans_le hp))]
        exact h.left p hp hown

/-- The block `realloc` has resized is the call's own, as the one before was. -/
theorem resized (h : Working s₁ s slot own) {old : Option Nat} {b : Block} {q : Nat}
    {heap : Heap Block} (hresized : Heap.Resized s.heap old b q heap)
    (hold : ∀ o, old = some o → o ∈ own) {own' : List Nat}
    (hown : ∀ p ∈ own, old ≠ some p → p ∈ own') (hsub : ∀ p ∈ own', p = q ∨ p ∈ own)
    (hq : q ∈ own') :
    Working s₁ { s with heap := heap } slot own' := by
  have hqnew : s₁.heap.next ≤ q := by
    rcases hresized.place with hplace | hplace
    · exact h.new q (hold q hplace)
    · exact h.next_le.trans hplace
  refine h.withHeap (hresized.sound h.sound) hresized.next_le ?_ ?_ ?_
  · intro p hp
    apply hresized.frame p (Nat.ne_of_lt (hp.trans_le hqnew))
    intro hold'
    exact absurd (h.new p (hold p hold')) (Nat.not_le.mpr hp)
  · intro p hp hown'
    have hpq : p ≠ q := fun heq => hown' (heq ▸ hq)
    by_cases hpold : old = some p
    · exact hresized.gone p hpold hpq
    · rw [hresized.frame p hpq hpold]
      exact h.left p hp fun hmem => hown' (hown p hmem hpold)
  · intro p hp
    rcases hsub p hp with rfl | hmem
    · exact hqnew
    · exact h.new p hmem

end Working

-- ============================================================================
-- The end of a call
-- ============================================================================

theorem entry_eq_of_slots {s : Registry} {i : Nat} {r : Option RouteEntry}
    (h : s.slots[i]? = some r) : s.entry i = r := by
  rw [Registry.entry, h]
  rfl

section EndOfCall

variable {s₀ s₁ s : Registry} {slot : Option RouteEntry} {own : List Nat}

theorem Working.keepsEntries (h : Working s₁ s slot own) (hg : Grown s₀ s₁) :
    KeepsEntries s₀ s := by
  intro i hi
  have hne : s₁.routeCount ≠ i := by
    rw [hg.count]
    exact Nat.ne_of_gt hi
  rw [← hg.entries i hi, Registry.entry, Registry.entry, h.slots, List.getElem?_set_ne hne]

theorem Working.keeps (h : Working s₁ s slot own) (hg : Grown s₀ s₁) :
    Extends s₀.heap s.heap := by
  apply hg.keeps.trans
  intro p b hp hb
  have hne : s₁.routes ≠ some p := fun hroutes =>
    hb _ (Option.some.inj (hp.symm.trans (h.ok.table p hroutes)))
  exact (h.frame p (s₁.heap.lt_next hp) hne).trans hp

theorem Working.tableOk (h : Working s₁ s slot own) : TableOk s where
  sound := h.sound
  table t ht := by
    rw [h.slots]
    exact h.table t (h.routes ▸ ht)
  length := by
    rw [h.slots, List.length_set, h.capacity]
    exact h.ok.length
  fits := by
    rw [h.capacity]
    exact h.ok.fits
  count_le := by
    rw [h.count, h.capacity]
    exact h.ok.count_le

/-- With no block of its own left the call is undone. -/
theorem Working.undone (h : Working s₁ s slot []) (hg : Grown s₀ s₁) : Undone s₀ s where
  count := h.count.trans hg.count
  released p hp hlt hroutes := by
    have hnone : s.heap.blocks p = none := by
      by_cases hp₁ : p < s₁.heap.next
      · have hroutes₁ : s₁.routes ≠ some p := h.routes ▸ hroutes
        rw [h.frame p hp₁ hroutes₁]
        exact hg.left p hp hroutes₁
      · exact h.left p (Nat.le_of_not_lt hp₁) nofun
    exact ⟨hnone, h.sound.releases_eq_one hlt hnone⟩

theorem Working.entry_count {r : RouteEntry} (h : Working s₁ s (some r) own)
    (hlt : s₁.routeCount < s₁.routeCapacity) : s.entry s.routeCount = some r := by
  apply entry_eq_of_slots
  rw [h.slots, h.count, List.getElem?_set_self (h.ok.length.symm ▸ hlt)]

end EndOfCall

-- ============================================================================
-- What is read
-- ============================================================================

theorem mapM_of_imp {α β : Type} {f g : α → Option β} {l : List α} {bs : List β}
    (h : ∀ a ∈ l, ∀ b, f a = some b → g a = some b) (hf : l.mapM f = some bs) :
    l.mapM g = some bs := by
  induction l generalizing bs with
  | nil => exact hf
  | cons a l ih =>
      rw [List.mapM_cons] at hf ⊢
      obtain ⟨b, hb, hrest⟩ := Option.bind_eq_some_iff.mp hf
      obtain ⟨bs', hbs', hcons⟩ := Option.bind_eq_some_iff.mp hrest
      have hl := ih (fun a' ha' => h a' (List.mem_cons_of_mem a ha')) hbs'
      have ha := h a (List.mem_cons_self ..) b hb
      rw [ha, hl]
      exact hcons

/-- What is in the table is read as before. -/
theorem read_of_keeps {fs : FileSystem} {s s' : Registry} {routes : List MnetRoute}
    (hentries : KeepsEntries s s') (hx : Extends s.heap s'.heap)
    (hcount : s'.routeCount = s.routeCount) (hread : s.read fs = some routes) :
    s'.read fs = some routes := by
  rw [Registry.read, hcount]
  refine mapM_of_imp (fun i hi route hi' => ?_) hread
  obtain ⟨r, hr, hroute⟩ := Option.bind_eq_some_iff.mp hi'
  rw [hentries i (List.mem_range.mp hi), hr]
  exact hx.readRoute hroute

/-- The slot behind the last entry is a route as soon as it counts. -/
theorem read_succ {fs : FileSystem} {s : Registry} {routes : List MnetRoute} {r : RouteEntry}
    {route : MnetRoute} (hread : s.read fs = some routes)
    (hentry : s.entry s.routeCount = some r) (hroute : readRoute fs s.heap r = some route) :
    Registry.read fs { s with routeCount := s.routeCount + 1 } = some (routes ++ [route]) := by
  have hlast : (s.entry s.routeCount).bind (readRoute fs s.heap) = some route := by
    rw [hentry]
    exact hroute
  show (List.range (s.routeCount + 1)).mapM (fun i => (s.entry i).bind (readRoute fs s.heap)) = _
  rw [Registry.read] at hread
  rw [List.range_succ, List.mapM_append, hread, List.mapM_cons, List.mapM_nil, hlast]
  rfl

/-- The invariant of an application. -/
structure Consistent (fs : FileSystem) (s : Registry) (app : MnetApp) : Prop where
  ok : TableOk s
  read : s.read fs = some app.routes

/-- A call is undone, or has added its route. -/
structure Atomic (fs : FileSystem) (s : Registry) (app : MnetApp) (registered : MnetApp)
    (result : Bool × Registry) : Prop where
  entries : KeepsEntries s result.2
  failed : result.1 = false → Consistent fs result.2 app ∧ Undone s result.2
  succeeded : result.1 = true → Consistent fs result.2 registered

section

variable {fs : FileSystem} {s s₁ s' : Registry} {app : MnetApp} {slot : Option RouteEntry}
  {own : List Nat}

theorem Consistent.ask (h : Consistent fs s app) (registered : MnetApp) (size : Nat) :
    Atomic fs s app registered (false, { s with heap := s.heap.ask size }) where
  entries _ _ := rfl
  failed _ := by
    have hread := @read_of_keeps fs s { s with heap := s.heap.ask size } _ (fun _ _ => rfl)
      (fun _ _ hp _ => hp) rfl h.read
    refine ⟨⟨h.ok.ask size, hread⟩, rfl, ?_⟩
    intro p hp hlt _
    exact absurd hlt (Nat.not_lt.mpr hp)
  succeeded := nofun

theorem Consistent.invalid (h : Consistent fs s app) (registered : MnetApp) :
    Atomic fs s app registered (false, s) where
  entries _ _ := rfl
  failed _ := ⟨h, rfl, fun _ hp hlt _ => absurd hlt (Nat.not_lt.mpr hp)⟩
  succeeded := nofun

theorem Consistent.failed (h : Consistent fs s app) (hg : Grown s s₁)
    (hw : Working s₁ s' slot []) (registered : MnetApp) :
    Atomic fs s app registered (false, s') where
  entries := hw.keepsEntries hg
  failed _ := ⟨⟨hw.tableOk, read_of_keeps (hw.keepsEntries hg) (hw.keeps hg)
    (hw.count.trans hg.count) h.read⟩, hw.undone hg⟩
  succeeded := nofun

theorem Consistent.succeeded (h : Consistent fs s app) (hg : Grown s s₁) {r : RouteEntry}
    (hw : Working s₁ s' (some r) own) {route : MnetRoute}
    (hroute : readRoute fs s'.heap r = some route) {registered : MnetApp}
    (hregistered : registered.routes = app.routes ++ [route]) :
    Atomic fs s app registered (true, { s' with routeCount := s'.routeCount + 1 }) where
  entries := hw.keepsEntries hg
  failed := nofun
  succeeded _ := by
    have hread := read_of_keeps (hw.keepsEntries hg) (hw.keeps hg) (hw.count.trans hg.count) h.read
    have hok := hw.tableOk
    have hlt : s'.routeCount < s'.routeCapacity := by
      rw [hw.count, hw.capacity]
      exact hg.lt
    refine ⟨⟨hok.sound, hok.table, hok.length, hok.fits, hlt⟩, ?_⟩
    rw [hregistered]
    exact read_succ hread (hw.entry_count hg.lt) hroute

end

-- ============================================================================
-- The names of a pattern
-- ============================================================================

/-- The array `param_names` points at, if any: the names and NULL behind them. -/
def ArrayAt (heap : Heap Block) (ptrs : List Nat) : Option Nat → Prop
  | none => ptrs = []
  | some q => heap.blocks q = some (.names (ptrs.map .name ++ [.null]))

/-- The names found so far, each in a block of its own. -/
structure Collected (s₁ : Registry) (r₀ : RouteEntry) (s : Registry) (r : RouteEntry)
    (ptrs : List Nat) (names : List Bytes) : Prop where
  working : Working s₁ s (some r) (r.paramNames.toList ++ ptrs)
  same : r = { r₀ with paramNames := r.paramNames }
  array : ArrayAt s.heap ptrs r.paramNames
  texts : List.Forall₂ (fun p name => s.heap.blocks p = some (.text name)) ptrs names
  nodup : ptrs.Nodup
  fits : (ptrs.length + 1) * POINTER_SIZE ≤ PTRDIFF_MAX

theorem readCells_of_texts {heap : Heap Block} {ptrs : List Nat} {names : List Bytes}
    (h : List.Forall₂ (fun p name => heap.blocks p = some (.text name)) ptrs names) :
    readCells heap (ptrs.map .name ++ [.null]) = some names := by
  induction h with
  | nil => rfl
  | cons hp _ ih =>
      rw [List.map_cons, List.cons_append, readCells, readText_eq_some.mpr hp, ih]

theorem exists_text {heap : Heap Block} {ptrs : List Nat} {names : List Bytes}
    (h : List.Forall₂ (fun p name => heap.blocks p = some (.text name)) ptrs names) {p : Nat}
    (hp : p ∈ ptrs) : ∃ name, heap.blocks p = some (.text name) := by
  induction h with
  | nil => exact absurd hp List.not_mem_nil
  | cons hq _ ih =>
      rcases List.mem_cons.mp hp with rfl | hp
      · exact ⟨_, hq⟩
      · exact ih hp

theorem Collected.readNames {s₁ s : Registry} {r₀ r : RouteEntry} {ptrs : List Nat}
    {names : List Bytes} (h : Collected s₁ r₀ s r ptrs names) :
    readNames s.heap r.paramNames = some names := by
  have harray := h.array
  cases hp : r.paramNames with
  | none =>
      rw [hp] at harray
      obtain rfl : ptrs = [] := harray
      cases h.texts
      rfl
  | some q =>
      rw [hp] at harray
      have hq : s.heap.blocks q = some (.names (ptrs.map .name ++ [.null])) := harray
      rw [Mnet.readNames, hq]
      exact readCells_of_texts h.texts

/-- The names found are the caller's: `*r` has nothing else to read. -/
theorem Collected.readRoute {s₁ s : Registry} {r : RouteEntry} {ptrs : List Nat}
    {names : List Bytes} {method : HttpMethod} {path : Bytes} {handler : MnetHandler}
    (h : Collected s₁ { method := method, path := .caller path, handler := .user handler } s r
      ptrs names) (fs : FileSystem) :
    readRoute fs s.heap r =
      some { method := method, path := path, handler := handler, paramNames := names } := by
  have hnames := h.readNames
  rw [h.same, Mnet.readRoute, hnames]
  rfl

/-- The cells of an array with room for one more name. -/
theorem resizeCells_eq {cells : List NameCell} {n : Nat} (h : cells.length ≤ n) :
    resizeCells cells (n * POINTER_SIZE) =
      cells ++ List.replicate (n - cells.length) .unset := by
  have hdiv : n * POINTER_SIZE / POINTER_SIZE = n := Nat.mul_div_cancel n (by decide)
  rw [resizeCells, hdiv, List.take_of_length_le h]

/-- A name and NULL written behind the names there are. -/
theorem setCell_pair (ptrs : List Nat) (p : Nat) {last : List NameCell} (hlast : last.length = 2) :
    ((ptrs.map NameCell.name ++ last).set ptrs.length (.name p)).set (ptrs.length + 1) .null =
      (ptrs ++ [p]).map .name ++ [.null] := by
  obtain ⟨a, b, rfl⟩ := List.length_eq_two.mp hlast
  have hlen : (ptrs.map NameCell.name).length = ptrs.length := List.length_map _
  rw [List.set_append_right _ _ (Nat.le_of_eq hlen), List.set_append_right _ _ (by omega), hlen,
    Nat.sub_self, Nat.add_sub_cancel_left, List.map_append, List.append_assoc]
  rfl

theorem ArrayAt.imp {heap heap' : Heap Block} {ptrs : List Nat} {q : Option Nat}
    (h : ArrayAt heap ptrs q) (hblocks : ∀ p b, heap.blocks p = some b → heap'.blocks p = some b) :
    ArrayAt heap' ptrs q := by
  cases q with
  | none => exact h
  | some q => exact hblocks q _ h

theorem ArrayAt.isLive {heap : Heap Block} {ptrs : List Nat} {q : Option Nat}
    (h : ArrayAt heap ptrs q) : ∀ o, q = some o → ∃ b, heap.blocks o = some b := by
  rintro o rfl
  exact ⟨_, h⟩

/-- The size of the array does not overflow where the one before fits. -/
theorem arraySize_eq {n : Nat} (h : (n + 1) * POINTER_SIZE ≤ PTRDIFF_MAX) :
    sizeMul (n + 2) POINTER_SIZE = (n + 2) * POINTER_SIZE := by
  have hpointer : POINTER_SIZE = 8 := rfl
  have hmax : PTRDIFF_MAX = 2 ^ 63 - 1 := rfl
  rw [hpointer, hmax] at h
  exact sizeMul_of_lt (by rw [hpointer]; omega)

/-- The array of the names so far, with two cells more to write. -/
theorem ArrayAt.resizedCells {heap : Heap Block} {ptrs : List Nat} {q : Option Nat}
    (h : ArrayAt heap ptrs q) (hfits : (ptrs.length + 1) * POINTER_SIZE ≤ PTRDIFF_MAX) :
    ∃ last : List NameCell, last.length = 2 ∧
      resizeCells (nameCells heap q) (sizeMul (ptrs.length + 2) POINTER_SIZE) =
        ptrs.map .name ++ last := by
  rw [arraySize_eq hfits]
  cases q with
  | none =>
      obtain rfl : ptrs = [] := h
      exact ⟨[.unset, .unset], rfl, rfl⟩
  | some q =>
      have hq : heap.blocks q = some (.names (ptrs.map .name ++ [.null])) := h
      have hcells : nameCells heap (some q) = ptrs.map .name ++ [.null] := by
        rw [nameCells, hq]
      have hlen : (ptrs.map NameCell.name ++ [NameCell.null]).length = ptrs.length + 1 := by simp
      refine ⟨[.null, .unset], rfl, ?_⟩
      rw [hcells, resizeCells_eq (by omega), hlen, Nat.add_sub_add_left, List.append_assoc]
      rfl

section

variable {s₁ s : Registry} {r₀ r : RouteEntry} {ptrs : List Nat} {names : List Bytes}

/-- Blocks of the call do not go by being written to elsewhere. -/
theorem Collected.withHeap (h : Collected s₁ r₀ s r ptrs names) {heap : Heap Block}
    (hw : Working s₁ { s with heap := heap } (some r) (r.paramNames.toList ++ ptrs))
    (hblocks : ∀ p b, s.heap.blocks p = some b → heap.blocks p = some b) :
    Collected s₁ r₀ { s with heap := heap } r ptrs names where
  working := hw
  same := h.same
  array := h.array.imp hblocks
  texts := h.texts.imp fun p _ hp => hblocks p _ hp
  nodup := h.nodup
  fits := h.fits

/-- A write to the slot leaves the other blocks alone. -/
theorem Working.write_blocks {slot : Option RouteEntry} {own : List Nat}
    (h : Working s₁ s slot own) (r : RouteEntry) {p : Nat} (hp : s₁.routes ≠ some p) :
    (s.write r).heap.blocks p = s.heap.blocks p := by
  cases hroutes : s₁.routes with
  | none => rw [Registry.write, h.routes, hroutes]
  | some t =>
      rw [Registry.write, h.routes, hroutes]
      exact Heap.modify_of_ne _ _ (fun heq => hp (by rw [heq, hroutes]))

theorem Working.ne_table {slot : Option RouteEntry} {own : List Nat}
    (h : Working s₁ s slot own) {p : Nat} (hp : p ∈ own) : s₁.routes ≠ some p := fun hroutes =>
  absurd (h.table_lt hroutes) (Nat.not_lt.mpr (h.new p hp))

theorem Working.block_ne_table {slot : Option RouteEntry} {own : List Nat}
    (h : Working s₁ s slot own) {p : Nat} {b : Block} (hp : s.heap.blocks p = some b)
    (hb : ∀ slots, b ≠ .table slots) : s₁.routes ≠ some p := fun hroutes =>
  hb _ (Option.some.inj (hp.symm.trans (h.table p hroutes)))

theorem Working.write_extends {slot : Option RouteEntry} {own : List Nat}
    (h : Working s₁ s slot own) (r : RouteEntry) : Extends s.heap (s.write r).heap :=
  fun _ _ hp hb => (h.write_blocks r (h.block_ne_table hp hb)).trans hp

/-- A text is neither the array that is resized nor the one that comes of it. -/
theorem ArrayAt.text_resized {heap heap' : Heap Block} {q : Option Nat} (h : ArrayAt heap ptrs q)
    {b : Block} {tmp : Nat} (hresized : Heap.Resized heap q b tmp heap') {p : Nat} {name : Bytes}
    (hp : heap.blocks p = some (.text name)) :
    heap'.blocks p = some (.text name) ∧ p ≠ tmp := by
  have hold : q ≠ some p := by
    rintro rfl
    exact absurd (Option.some.inj (hp.symm.trans h)) nofun
  have hne : p ≠ tmp := by
    rintro rfl
    rcases hresized.place with hplace | hplace
    · exact hold hplace
    · exact absurd (heap.lt_next hp) (Nat.not_lt.mpr hplace)
  exact ⟨(hresized.frame p hne hold).trans hp, hne⟩

/-- With the name and the array resized these are the blocks of the call. -/
theorem Working.named (h : Working s₁ s (some r) (r.paramNames.toList ++ ptrs)) {name : Bytes}
    {b : Block} {tmp : Nat} {heap : Heap Block}
    (hresized : Heap.Resized (s.heap.alloc (.text name)) r.paramNames b tmp heap) :
    Working s₁ { s with heap := heap } (some r) (tmp :: (ptrs ++ [s.heap.next])) := by
  refine (h.alloc (.text name)).resized hresized ?_ ?_ ?_ (List.mem_cons_self ..)
  · intro o ho
    simp [ho]
  · intro p hp hold
    simp only [List.mem_cons, List.mem_append, Option.mem_toList] at hp ⊢
    rcases hp with rfl | hp | hp
    · exact .inr (.inr (.inl rfl))
    · exact absurd hp hold
    · exact .inr (.inl hp)
  · intro p hp
    simp only [List.mem_cons, List.mem_append, List.not_mem_nil, or_false] at hp ⊢
    rcases hp with rfl | hp | rfl
    · exact .inl rfl
    · exact .inr (.inr (.inr hp))
    · exact .inr (.inl rfl)

/-- The name is in the array, behind the others. -/
theorem Collected.add (h : Collected s₁ r₀ s r ptrs names) (name : Bytes) {last : List NameCell}
    (hlast : last.length = 2) {tmp : Nat} {heap : Heap Block}
    (hresized : Heap.Resized (s.heap.alloc (.text name)) r.paramNames
      (.names (ptrs.map .name ++ last)) tmp heap)
    (hfits : (ptrs.length + 2) * POINTER_SIZE ≤ PTRDIFF_MAX) :
    Collected s₁ r₀
      (Registry.write
        { s with
          heap := (heap.modify tmp (setCell ptrs.length (.name s.heap.next))).modify tmp
            (setCell (ptrs.length + 1) .null) }
        { r with paramNames := some tmp })
      { r with paramNames := some tmp } (ptrs ++ [s.heap.next]) (names ++ [name]) := by
  have harray := h.array.imp fun _ _ hp => Heap.alloc_of_some s.heap (.text name) hp
  have hworking := h.working.named hresized
  have htmp : tmp ∈ tmp :: (ptrs ++ [s.heap.next]) := List.mem_cons_self ..
  have hset := (hworking.modify htmp (setCell ptrs.length (.name s.heap.next))).modify htmp
    (setCell (ptrs.length + 1) .null)
  have hwrite := hset.write_blocks { r with paramNames := some tmp } (hset.ne_table htmp)
  -- so what was written last leaves the texts alone
  have htext' : ∀ p b, (s.heap.alloc (.text name)).blocks p = some (.text b) →
      (Registry.write
        { s with
          heap := (heap.modify tmp (setCell ptrs.length (.name s.heap.next))).modify tmp
            (setCell (ptrs.length + 1) .null) }
        { r with paramNames := some tmp }).heap.blocks p = some (.text b) := by
    intro p b hp
    obtain ⟨hp', hne⟩ := harray.text_resized hresized hp
    rw [hset.write_blocks _ (hworking.block_ne_table hp' nofun), Heap.modify_of_ne _ _ hne,
      Heap.modify_of_ne _ _ hne, hp']
  constructor
  · exact hset.write _
  · rw [h.same]
  · show (Registry.write _ _).heap.blocks tmp = some _
    rw [hwrite, Heap.modify_self, Heap.modify_self, hresized.content]
    show some (Block.names _) = _
    rw [setCell_pair ptrs _ hlast]
  · have hold := h.texts.imp fun p b hp => htext' p b (Heap.alloc_of_some _ _ hp)
    have hnew := htext' s.heap.next name (Heap.alloc_next _ _)
    exact List.rel_append hold (.cons hnew .nil)
  · have hfresh : s.heap.next ∉ ptrs := by
      intro hmem
      obtain ⟨b, hb⟩ := exists_text h.texts hmem
      exact s.heap.ne_next hb rfl
    rw [List.nodup_append]
    refine ⟨h.nodup, List.nodup_singleton _, ?_⟩
    rintro p hp q hq rfl
    exact hfresh (List.mem_singleton.mp hq ▸ hp)
  · rw [List.length_append]
    exact hfits

theorem addName_cases (answers : Nat → Answer) (h : Collected s₁ r₀ s r ptrs names) (size : Nat)
    (name : Bytes) :
    (∃ s', addName answers s r ptrs.length size name = (false, s', r) ∧
      Collected s₁ r₀ s' r ptrs names) ∨
    ∃ s' r' p, addName answers s r ptrs.length size name = (true, s', r') ∧
      Collected s₁ r₀ s' r' (ptrs ++ [p]) (names ++ [name]) := by
  obtain hno | ⟨hyes, -⟩ := malloc_cases answers s.heap size (.text name)
  · rw [addName, hno]
    exact .inl ⟨_, rfl, h.withHeap (h.working.ask size) fun _ _ hp => hp⟩
  · have h : Collected s₁ r₀ { s with heap := s.heap.ask size } r ptrs names :=
      h.withHeap (h.working.ask size) fun _ _ hp => hp
    have harray := h.array.imp fun _ _ hp =>
      Heap.alloc_of_some (s.heap.ask size) (.text name) hp
    obtain ⟨last, hlast, hcells⟩ := harray.resizedCells h.fits
    rw [addName, hyes]
    simp only [hcells]
    obtain hno | ⟨tmp, heap, hyes', hresized, hfits⟩ :=
      realloc_cases answers ((s.heap.ask size).alloc (.text name))
        (sizeMul (ptrs.length + 2) POINTER_SIZE) (.names (ptrs.map .name ++ last)) harray.isLive
    · -- the name is released again
      rw [hno]
      refine .inl ⟨_, rfl, h.withHeap ?_ ?_⟩
      · refine ((h.working.alloc (.text name)).ask _).release (List.mem_cons_self ..)
          (Heap.alloc_next (s.heap.ask size) _) ?_ (List.subset_cons_self _ _)
        intro q hq hne
        exact (List.mem_cons.mp hq).resolve_left hne
      · intro p b hp
        show (((s.heap.ask size).alloc (.text name)).release s.heap.next).blocks p = some b
        rw [Heap.release_of_ne _ (s.heap.ne_next hp)]
        exact Heap.alloc_of_some _ _ hp
    · rw [hyes']
      rw [arraySize_eq h.fits] at hfits
      exact .inr ⟨_, _, _, rfl, h.add name hlast hresized hfits⟩

/-- The loop comes to the end of the pattern with all its names, or a request
    fails on the way. -/
theorem addNames_cases (answers : Nat → Answer) (p : Bytes) {k : Nat} (hk : k = ptrs.length)
    (h : Collected s₁ r₀ s r ptrs names) :
    (∃ s' r' ptrs' names', addNames answers s r p k = (false, ptrs'.length, s', r') ∧
      Collected s₁ r₀ s' r' ptrs' names') ∨
    ∃ k' s' r' ptrs', addNames answers s r p k = (true, k', s', r') ∧
      Collected s₁ r₀ s' r' ptrs' (names ++ paramNamesLoop p k) := by
  induction p, k using paramNamesLoop.induct generalizing s r ptrs names with
  | case1 k =>
      rw [addNames, paramNamesLoop, List.append_nil]
      exact .inr ⟨k, s, r, ptrs, rfl, h⟩
  | case2 p k ih =>
      subst hk
      rw [addNames, if_pos rfl, paramNamesLoop, if_pos rfl]
      obtain ⟨s', hno, h'⟩ | ⟨s', r', q, hyes, h'⟩ := addName_cases answers h
        (if p.takeWhile isNameByte = [] then 16 else (p.takeWhile isNameByte).length + 1)
        (paramName ptrs.length (p.takeWhile isNameByte))
      · simp only [hno]
        exact .inl ⟨s', r, ptrs, names, rfl, h'⟩
      · simp only [hyes]
        have hlen : ptrs.length + 1 = (ptrs ++ [q]).length := by rw [List.length_append]; rfl
        obtain hfail | ⟨k', s'', r'', ptrs'', heq, h''⟩ := ih hlen h'
        · exact .inl hfail
        · refine .inr ⟨k', s'', r'', ptrs'', heq, ?_⟩
          rw [List.append_assoc] at h''
          exact h''
  | case3 p k hne =>
      subst hk
      rw [addNames, if_neg (by decide), if_pos rfl, paramNamesLoop, if_neg (by decide), if_pos rfl]
      obtain ⟨s', hno, h'⟩ | ⟨s', r', q, hyes, h'⟩ := addName_cases answers h 2 [STAR]
      · simp only [hno]
        exact .inl ⟨s', r, ptrs, names, rfl, h'⟩
      · simp only [hyes]
        exact .inr ⟨_, s', r', _, rfl, h'⟩
  | case4 c p k hcolon hstar ih =>
      rw [addNames, if_neg hcolon, if_neg hstar, paramNamesLoop, if_neg hcolon, if_neg hstar]
      exact ih hk h

-- ============================================================================
-- mnet_route
-- ============================================================================

/-- The names are released one after the other, and nothing else. -/
theorem Working.freeNames {slot : Option RouteEntry} {rest : List Nat}
    (h : Working s₁ s slot (rest ++ ptrs)) (hlive : ∀ p ∈ ptrs, ∃ b, s.heap.blocks p = some b)
    (hnodup : ptrs.Nodup) :
    Working s₁ { s with heap := freeNames s.heap (ptrs.map .name) } slot rest ∧
      ∀ p, p ∉ ptrs → (freeNames s.heap (ptrs.map .name)).blocks p = s.heap.blocks p := by
  induction ptrs generalizing s with
  | nil =>
      rw [List.append_nil] at h
      exact ⟨h, fun _ _ => rfl⟩
  | cons p ptrs ih =>
      obtain ⟨b, hb⟩ := hlive p (List.mem_cons_self ..)
      obtain ⟨hp, hnodup⟩ := List.nodup_cons.mp hnodup
      have hreleased : Working s₁ { s with heap := s.heap.release p } slot (rest ++ ptrs) := by
        apply h.release (by simp) hb
        · intro q hq hne
          simpa [hne] using hq
        · intro q hq
          rcases List.mem_append.mp hq with hq | hq
          · exact List.mem_append_left _ hq
          · exact List.mem_append_right _ (List.mem_cons_of_mem p hq)
      have hlive' : ∀ q ∈ ptrs, ∃ b, (s.heap.release p).blocks q = some b := by
        intro q hq
        have hne : q ≠ p := by
          rintro rfl
          exact hp hq
        obtain ⟨c, hc⟩ := hlive q (List.mem_cons_of_mem p hq)
        exact ⟨c, (Heap.release_of_ne _ hne).trans hc⟩
      obtain ⟨hw, hframe⟩ := ih hreleased hlive' hnodup
      refine ⟨hw, fun q hq => ?_⟩
      rw [List.mem_cons, not_or] at hq
      exact (hframe q hq.2).trans (Heap.release_of_ne _ hq.1)

/-- Behind the label `fail` the call has no block left. -/
theorem Collected.undo (h : Collected s₁ r₀ s r ptrs names) :
    ∃ slot, Working s₁ (undoNames s r ptrs.length) slot [] := by
  have hw := h.working
  have harray := h.array
  cases hp : r.paramNames with
  | none =>
      rw [hp] at hw harray
      obtain rfl : ptrs = [] := harray
      rw [undoNames, hp]
      exact ⟨_, hw⟩
  | some q =>
      rw [hp] at hw harray
      have hq : s.heap.blocks q = some (.names (ptrs.map .name ++ [.null])) := harray
      have hcells : (nameCells s.heap (some q)).take ptrs.length = ptrs.map .name := by
        rw [nameCells, hq]
        exact List.take_left' (List.length_map _)
      have hlive : ∀ p ∈ ptrs, ∃ b, s.heap.blocks p = some b := fun p hp =>
        let ⟨_, hb⟩ := exists_text h.texts hp
        ⟨_, hb⟩
      have hne : q ∉ ptrs := by
        intro hmem
        obtain ⟨b, hb⟩ := exists_text h.texts hmem
        exact absurd (Option.some.inj (hq.symm.trans hb)) nofun
      obtain ⟨hfreed, hframe⟩ := hw.freeNames hlive h.nodup
      have hreleased : Working s₁
          { s with heap := (freeNames s.heap (ptrs.map .name)).release q } (some r) [] := by
        apply hfreed.release (List.mem_singleton_self q) ((hframe q hne).trans hq) _
          (List.nil_subset _)
        intro p hp hne
        exact absurd (List.mem_singleton.mp hp) hne
      rw [undoNames, hp]
      simp only [hcells]
      exact ⟨_, hreleased.write _⟩

/-- `r->param_names = NULL`, before the pattern is read. -/
theorem Collected.start {slot : Option RouteEntry} (h : Working s₁ s slot [])
    (hr : r.paramNames = none) : Collected s₁ r (s.write r) r [] [] where
  working := by
    rw [hr]
    exact h.write r
  same := rfl
  array := by
    rw [hr]
    rfl
  texts := .nil
  nodup := List.nodup_nil
  fits := by decide

end

variable {fs : FileSystem} {s : Registry} {app : MnetApp}

/-- The outcome of `mnet_route` as a call of a sequence. -/
theorem perform_route (answers : Nat → Answer) (method : HttpMethod) (path : Option Bytes)
    (handler : Option MnetHandler) :
    (RouteCall.route method path handler).perform answers s =
      ((mnetAddRouteAt answers s method path handler).1.isOk,
        (mnetAddRouteAt answers s method path handler).2) := by
  rw [RouteCall.perform]
  split
  · next heq => rw [heq]; rfl
  · next heq => rw [heq]; rfl

theorem route_atomic (answers : Nat → Answer) (h : Consistent fs s app) (method : HttpMethod)
    (path handler) :
    Atomic fs s app ((RouteCall.route method path handler).register fs app)
      ((RouteCall.route method path handler).perform answers s) := by
  rw [perform_route]
  cases path with
  | none => exact h.invalid _
  | some path =>
      cases handler with
      | none => exact h.invalid _
      | some handler =>
          rw [mnetAddRouteAt]
          obtain ⟨size, hno⟩ | ⟨s₁, hyes, hg⟩ := grow_cases answers h.ok
          · simp only [hno]
            exact h.ask _ _
          · simp only [hyes]
            obtain ⟨slot, hstart⟩ := Working.start hg.ok hg.lt
            let r : RouteEntry :=
              { method := method, path := .caller path, handler := .user handler }
            have hcollected : Collected s₁ r (s₁.write r) r [] [] := .start hstart rfl
            obtain ⟨s', r', ptrs, names, heq, h'⟩ | ⟨k, s', r', ptrs, heq, h'⟩ :=
              addNames_cases (k := 0) answers path rfl hcollected
            · rw [heq]
              obtain ⟨slot', hundone⟩ := h'.undo
              exact h.failed hg hundone _
            · rw [heq]
              exact h.succeeded hg h'.working (h'.readRoute fs) rfl

-- ============================================================================
-- mnet_static
-- ============================================================================

/-- What `strdup` leaves: a new block with the text, unless the request failed. -/
structure Copied (heap : Heap Block) (s : Bytes) (copy : Option Nat) (heap' : Heap Block) :
    Prop where
  text : ∀ p, copy = some p → heap'.blocks p = some (.text s)
  fresh : ∀ p, copy = some p → heap.next ≤ p
  keeps : ∀ p b, heap.blocks p = some b → heap'.blocks p = some b

section

variable {s₁ : Registry} {slot : Option RouteEntry} {own : List Nat}

theorem Working.strdup (h : Working s₁ s slot own) (answers : Nat → Answer) (text : Bytes) :
    ∃ copy heap, Mnet.strdup answers s.heap text = (copy, heap) ∧ Copied s.heap text copy heap ∧
      Working s₁ { s with heap := heap } slot (copy.toList ++ own) := by
  rw [Mnet.strdup]
  obtain hno | ⟨hyes, -⟩ := malloc_cases answers s.heap (text.length + 1) (.text text)
  · exact ⟨none, _, hno, ⟨nofun, nofun, fun _ _ hp => hp⟩, h.ask _⟩
  · refine ⟨some s.heap.next, _, hyes, ⟨?_, ?_, ?_⟩, (h.ask (text.length + 1)).alloc _⟩
    · rintro p ⟨⟩
      exact Heap.alloc_next (s.heap.ask (text.length + 1)) _
    · rintro p ⟨⟩
      exact Nat.le_refl _
    · exact fun p b hp => Heap.alloc_of_some (s.heap.ask (text.length + 1)) _ hp

/-- `free` of a block of the call, or of NULL. -/
theorem Working.free (h : Working s₁ s slot own) {copy : Option Nat} {own' : List Nat}
    (hmem : ∀ p, copy = some p → p ∈ own)
    (hlive : ∀ p, copy = some p → ∃ b, s.heap.blocks p = some b)
    (hown : ∀ q ∈ own, copy ≠ some q → q ∈ own') (hsub : own' ⊆ own) :
    Working s₁ { s with heap := s.heap.free copy } slot own' := by
  cases copy with
  | none =>
      exact h.withHeap h.sound (Nat.le_refl _) (fun _ _ => rfl)
        (fun p hp hp' => h.left p hp fun hmem' => hp' (hown p hmem' nofun))
        (fun p hp => h.new p (hsub hp))
  | some p =>
      obtain ⟨b, hb⟩ := hlive p rfl
      refine h.release (hmem p rfl) hb (fun q hq hne => hown q hq ?_) hsub
      rintro ⟨⟩
      exact hne rfl

theorem free_of_ne {heap : Heap Block} {copy : Option Nat} {p : Nat} (h : copy ≠ some p) :
    (heap.free copy).blocks p = heap.blocks p := by
  cases copy with
  | none => rfl
  | some q =>
      apply Heap.release_of_ne
      rintro rfl
      exact h rfl

/-- The configuration and its copies, as far as they could be made. -/
structure ConfigAt (heap : Heap Block) (cfg : Nat) (urlPrefix fsPath : Bytes)
    (prefixCopy fsCopy : Option Nat) : Prop where
  config : heap.blocks cfg = some (.config prefixCopy fsCopy)
  prefixText : ∀ p, prefixCopy = some p → heap.blocks p = some (.text urlPrefix)
  fsText : ∀ p, fsCopy = some p → heap.blocks p = some (.text fsPath)
  ne : ∀ p, prefixCopy = some p → fsCopy ≠ some p

variable {cfg : Nat} {urlPrefix fsPath : Bytes} {prefixCopy fsCopy : Option Nat}

theorem ConfigAt.imp {heap heap' : Heap Block}
    (h : ConfigAt heap cfg urlPrefix fsPath prefixCopy fsCopy)
    (hblocks : ∀ p b, heap.blocks p = some b → heap'.blocks p = some b) :
    ConfigAt heap' cfg urlPrefix fsPath prefixCopy fsCopy where
  config := hblocks _ _ h.config
  prefixText p hp := hblocks _ _ (h.prefixText p hp)
  fsText p hp := hblocks _ _ (h.fsText p hp)
  ne := h.ne

/-- What `mnet_static` does where a copy fails: all of it goes. -/
theorem Working.freeConfig
    (h : Working s₁ s slot (fsCopy.toList ++ (prefixCopy.toList ++ [cfg])))
    (hconfig : ConfigAt s.heap cfg urlPrefix fsPath prefixCopy fsCopy) :
    Working s₁ { s with heap := ((s.heap.free prefixCopy).free fsCopy).release cfg } slot [] := by
  have hcfg_prefix : prefixCopy ≠ some cfg := fun heq =>
    absurd (Option.some.inj (hconfig.config.symm.trans (hconfig.prefixText cfg heq))) nofun
  have hcfg_fs : fsCopy ≠ some cfg := fun heq =>
    absurd (Option.some.inj (hconfig.config.symm.trans (hconfig.fsText cfg heq))) nofun
  have hurl : Working s₁ { s with heap := s.heap.free prefixCopy } slot
      (fsCopy.toList ++ [cfg]) := by
    apply h.free
    · intro p hp
      simp [hp]
    · exact fun p hp => ⟨_, hconfig.prefixText p hp⟩
    · intro q hq hne
      simp only [List.mem_append, Option.mem_toList, List.mem_singleton] at hq ⊢
      rcases hq with hq | hq | hq
      · exact .inl hq
      · exact absurd hq hne
      · exact .inr hq
    · intro q hq
      simp only [List.mem_append, Option.mem_toList, List.mem_singleton] at hq ⊢
      exact hq.imp_right .inr
  have hfs : Working s₁ { s with heap := (s.heap.free prefixCopy).free fsCopy } slot [cfg] := by
    apply hurl.free
    · intro p hp
      simp [hp]
    · intro p hp
      have hne : prefixCopy ≠ some p := fun heq => hconfig.ne p heq hp
      exact ⟨_, (free_of_ne hne).trans (hconfig.fsText p hp)⟩
    · intro q hq hne
      simp only [List.mem_append, Option.mem_toList, List.mem_singleton] at hq ⊢
      exact hq.resolve_left hne
    · intro q hq
      exact List.mem_append_right _ hq
  have hlive : ((s.heap.free prefixCopy).free fsCopy).blocks cfg =
      some (.config prefixCopy fsCopy) := by
    rw [free_of_ne hcfg_fs, free_of_ne hcfg_prefix, hconfig.config]
  apply hfs.release (List.mem_singleton_self cfg) hlive _ (List.nil_subset _)
  intro q hq hne
  exact absurd (List.mem_singleton.mp hq) hne

/-- The configuration is filled in with what the two calls of `strdup` came to. -/
theorem configAt_copied {h₁ h₂ h₃ : Heap Block} (hcfg : h₁.blocks cfg = some (.config none none))
    (hurl : Copied h₁ urlPrefix prefixCopy h₂) (hfs : Copied h₂ fsPath fsCopy h₃) :
    ConfigAt (h₃.modify cfg fun _ => .config prefixCopy fsCopy) cfg urlPrefix fsPath prefixCopy
      fsCopy := by
  have hcfg₃ : h₃.blocks cfg = some (.config none none) := hfs.keeps _ _ (hurl.keeps _ _ hcfg)
  have htext : ∀ p s, h₃.blocks p = some (.text s) →
      (h₃.modify cfg fun _ => .config prefixCopy fsCopy).blocks p = some (.text s) := by
    intro p s hp
    have hne : p ≠ cfg := by
      rintro rfl
      exact absurd (Option.some.inj (hp.symm.trans hcfg₃)) nofun
    rw [Heap.modify_of_ne _ _ hne, hp]
  constructor
  · rw [Heap.modify_self, hcfg₃]
    rfl
  · exact fun p hp => htext p _ (hfs.keeps _ _ (hurl.text p hp))
  · exact fun p hp => htext p _ (hfs.text p hp)
  · intro p hp hp'
    exact absurd (h₂.lt_next (hurl.text p hp)) (Nat.not_lt.mpr (hfs.fresh p hp'))

/-- The entry of a static route as requests find it. -/
theorem readRoute_static (fs : FileSystem) {heap : Heap Block} {pathCopy u f : Nat}
    (hconfig : ConfigAt heap cfg urlPrefix fsPath (some u) (some f))
    (hpath : heap.blocks pathCopy = some (.text (staticPattern urlPrefix))) :
    readRoute fs heap
        { method := .get, path := .copy pathCopy, handler := .staticHandler,
          userData := some cfg, pathAllocated := true } =
      some (staticRoute fs urlPrefix fsPath) := by
  have hread : readConfig heap (some cfg) = some ⟨urlPrefix, fsPath⟩ := by
    rw [readConfig, Option.bind_some, hconfig.config]
    simp only [readText_eq_some.mpr (hconfig.prefixText u rfl),
      readText_eq_some.mpr (hconfig.fsText f rfl)]
  have hhandler : readHandler fs heap
      { method := .get, path := .copy pathCopy, handler := .staticHandler,
        userData := some cfg, pathAllocated := true } =
      some fun _ req => (staticHandler fs (some ⟨urlPrefix, fsPath⟩) req).response := by
    rw [readHandler]
    exact congrArg (Option.map _) hread
  have hpath' : readPath heap (.copy pathCopy) = some (staticPattern urlPrefix) :=
    readText_eq_some.mpr hpath
  rw [readRoute, hhandler, hpath']
  rfl

end

theorem static_atomic (answers : Nat → Answer) (h : Consistent fs s app) (urlPrefix fsPath) :
    Atomic fs s app ((RouteCall.static urlPrefix fsPath).register fs app)
      ((RouteCall.static urlPrefix fsPath).perform answers s) := by
  rw [RouteCall.perform]
  cases urlPrefix with
  | none => exact h.invalid _
  | some urlPrefix =>
      cases fsPath with
      | none => exact h.invalid _
      | some fsPath =>
          rw [mnetStaticAt]
          obtain ⟨size, hno⟩ | ⟨s₁, hyes, hg⟩ := grow_cases answers h.ok
          · simp only [hno]
            exact h.ask _ _
          simp only [hyes]
          obtain ⟨slot, hstart⟩ := Working.start hg.ok hg.lt
          obtain hno | ⟨hyes, -⟩ := malloc_cases answers s₁.heap CONFIG_SIZE (.config none none)
          · simp only [hno]
            exact h.failed hg (hstart.ask _) _
          simp only [hyes]
          have hcfg := Heap.alloc_next (s₁.heap.ask CONFIG_SIZE) (.config none none)
          obtain ⟨u, h₂, hu, hucopied, hw₂⟩ :=
            ((hstart.ask CONFIG_SIZE).alloc (.config none none)).strdup answers urlPrefix
          obtain ⟨f, h₃, hf, hfcopied, hw₃⟩ := hw₂.strdup answers fsPath
          simp only at hu hf
          simp only [hu, hf]
          have hconfig := configAt_copied hcfg hucopied hfcopied
          have hmem : s₁.heap.next ∈ f.toList ++ (u.toList ++ [s₁.heap.next]) := by simp
          have hw := hw₃.modify hmem fun _ => .config u f
          by_cases hnull : u = none ∨ f = none
          · rw [if_pos hnull]
            exact h.failed hg (hw.freeConfig hconfig) _
          rw [if_neg hnull]
          rw [not_or] at hnull
          obtain ⟨u, rfl⟩ := Option.ne_none_iff_exists'.mp hnull.1
          obtain ⟨f, rfl⟩ := Option.ne_none_iff_exists'.mp hnull.2
          obtain ⟨path, h₄, hpath, hpcopied, hw₄⟩ := hw.strdup answers (staticPattern urlPrefix)
          simp only at hpath
          simp only [hpath]
          have hconfig₄ := hconfig.imp hpcopied.keeps
          cases path with
          | none => exact h.failed hg (hw₄.freeConfig hconfig₄) _
          | some path =>
              have hread := readRoute_static fs hconfig₄ (hpcopied.text path rfl)
              exact h.succeeded hg (hw₄.write _) ((hw₄.write_extends _).readRoute hread) rfl

-- ============================================================================
-- Every sequence of calls
-- ============================================================================

theorem perform_atomic (answers : Nat → Answer) (h : Consistent fs s app) (call : RouteCall) :
    Atomic fs s app (call.register fs app) (call.perform answers s) := by
  cases call with
  | route method path handler => exact route_atomic answers h method path handler
  | static urlPrefix fsPath => exact static_atomic answers h urlPrefix fsPath

theorem consistent_empty (fs : FileSystem) : Consistent fs {} {} := ⟨tableOk_empty, rfl⟩

theorem registerAll_consistent (answers : Nat → Answer) (calls : List RouteCall)
    (h : Consistent fs s app) :
    Consistent fs (registerAll answers fs calls (s, app)).1
      (registerAll answers fs calls (s, app)).2 := by
  induction calls generalizing s app with
  | nil => exact h
  | cons call calls ih =>
      have hcall := perform_atomic answers h call
      rw [registerAll]
      split
      · next s' heq =>
          rw [heq] at hcall
          exact ih (hcall.succeeded rfl)
      · next s' heq =>
          rw [heq] at hcall
          exact ih (hcall.failed rfl).1

/-- Whatever requests for memory fail: behind every sequence of calls the table
    holds the routes of those that succeeded, in order, and one more call leaves
    them as they are; if it fails, nothing else has been left behind. -/
theorem registration_atomic (answers : Nat → Answer) (fs : FileSystem) (calls : List RouteCall) :
    HoldsRoutes fs (registerAll answers fs calls ({}, {})).1
        (registerAll answers fs calls ({}, {})).2 ∧
      ∀ call : RouteCall,
        KeepsEntries (registerAll answers fs calls ({}, {})).1
            (call.perform answers (registerAll answers fs calls ({}, {})).1).2 ∧
          ((call.perform answers (registerAll answers fs calls ({}, {})).1).1 = false →
            Undone (registerAll answers fs calls ({}, {})).1
              (call.perform answers (registerAll answers fs calls ({}, {})).1).2) := by
  have h := registerAll_consistent answers calls (consistent_empty fs)
  refine ⟨⟨h.ok.count_le, h.read⟩, fun call => ?_⟩
  have hcall := perform_atomic answers h call
  exact ⟨hcall.entries, fun hno => (hcall.failed hno).2⟩

/-- The array has no room for the second name of `/:a/:b` because the system
    refuses the fifth request. -/
theorem registration_atomic_secondName :
    let answers : Nat → Answer := fun n => if n = 4 then .refused else .moved
    let fs : FileSystem := ⟨fun _ => none, fun _ => none, fun _ => true⟩
    let home : RouteCall := .route .get (some (ascii "/")) (some fun _ _ => {})
    let s := (registerAll answers fs [home] ({}, {})).1
    let call : RouteCall := .route .get (some (ascii "/:a/:b")) (some fun _ _ => {})
    Undone s (call.perform answers s).2 := by
  intro answers fs home s call
  exact ((registration_atomic answers fs _).2 call).2 (by decide +kernel)

end Mnet
