/-
  Mnet.AppLifetime

  The memory of an application from `mnet_create` to `mnet_destroy`: behind any
  registrations, whatever requests for memory were refused among them, destroying
  the application releases every block it was ever given, each of them once.

  The invariant is who owns what (`Tended`): a live block is the table, or
  belongs to exactly one route, which will pass it to `free` (`routeBlocks`).
-/

import Mnet.AtomicRegistration

namespace Mnet

open Heap (Answer malloc realloc malloc_cases realloc_cases)

-- ============================================================================
-- mnet_destroy
-- ============================================================================

/-- The loop of `free_route` over `param_names`. -/
def freeParamNames (heap : Heap Block) : List NameCell → Heap Block
  | .name p :: cells => freeParamNames (heap.release p) cells
  | _ => heap

/-- `free` of a path that was allocated. -/
def freePath (heap : Heap Block) : PathRef → Heap Block
  | .copy p => heap.release p
  | .caller _ => heap

/-- `free` of a configuration and its strings. -/
def freeConfig (heap : Heap Block) (cfg : Nat) : Heap Block :=
  match heap.blocks cfg with
  | some (.config urlPrefix fsPath) => ((heap.free urlPrefix).free fsPath).release cfg
  | _ => heap

/-- `free_route`. -/
def freeRoute (heap : Heap Block) (r : RouteEntry) : Heap Block :=
  let heap :=
    match r.paramNames with
    | none => heap
    | some q => (freeParamNames heap (nameCells heap (some q))).release q
  let heap := if r.pathAllocated then freePath heap r.path else heap
  match r.userData with
  | none => heap
  | some cfg => freeConfig heap cfg

/-- The loop of `mnet_destroy`, on the routes from number `i` on. -/
def freeRoutes (s : Registry) (i : Nat) : Nat → Registry
  | 0 => s
  | n + 1 =>
      match s.entry i with
      | some r => freeRoutes { s with heap := freeRoute s.heap r } (i + 1) n
      | none => freeRoutes s (i + 1) n

/-- `mnet_destroy`. -/
def mnetDestroy (s : Registry) : Heap Block :=
  (freeRoutes s 0 s.routeCount).heap.free s.routes

-- ============================================================================
-- The blocks of a route
-- ============================================================================

/-- The names in an array, up to its NULL. -/
def cellBlocks (heap : Heap Block) : List NameCell → Option (List Nat)
  | .null :: _ => some []
  | .name p :: cells =>
      match readText heap p, cellBlocks heap cells with
      | some _, some ps => some (p :: ps)
      | _, _ => none
  | _ => none

def nameBlocks (heap : Heap Block) : Option Nat → Option (List Nat)
  | none => some []
  | some q =>
      match heap.blocks q with
      | some (.names cells) => (cellBlocks heap cells).map (· ++ [q])
      | _ => none

def pathBlocks (heap : Heap Block) (allocated : Bool) : PathRef → Option (List Nat)
  | .caller _ => if allocated then none else some []
  | .copy p => if allocated then (readText heap p).map fun _ => [p] else none

def configBlocks (heap : Heap Block) : Option Nat → Option (List Nat)
  | none => some []
  | some cfg =>
      match heap.blocks cfg with
      | some (.config (some u) (some f)) =>
          match readText heap u, readText heap f with
          | some _, some _ => some [u, f, cfg]
          | _, _ => none
      | _ => none

/-- What `free_route` has to pass to `free`, in its order. -/
def routeBlocks (heap : Heap Block) (r : RouteEntry) : Option (List Nat) :=
  match nameBlocks heap r.paramNames, pathBlocks heap r.pathAllocated r.path,
      configBlocks heap r.userData with
  | some names, some path, some config => some (names ++ path ++ config)
  | _, _, _ => none

section Blocks

variable {heap heap' : Heap Block} {r : RouteEntry} {ps : List Nat}

theorem routeBlocks_eq_some (h : routeBlocks heap r = some ps) :
    ∃ names path config, nameBlocks heap r.paramNames = some names ∧
      pathBlocks heap r.pathAllocated r.path = some path ∧
      configBlocks heap r.userData = some config ∧ ps = names ++ path ++ config := by
  unfold routeBlocks at h
  split at h
  · next names path config hnames hpath hconfig =>
    exact ⟨names, path, config, hnames, hpath, hconfig, (Option.some.inj h).symm⟩
  · cases h

/-- A block that is there and no table. -/
def OwnedIn (heap : Heap Block) (p : Nat) : Prop :=
  ∃ b, heap.blocks p = some b ∧ ∀ slots, b ≠ .table slots

theorem ownedIn_text {p : Nat} {s : Bytes} (h : readText heap p = some s) : OwnedIn heap p :=
  ⟨_, readText_eq_some.mp h, nofun⟩

theorem cellBlocks_owned {cells : List NameCell} (h : cellBlocks heap cells = some ps) :
    ∀ p ∈ ps, OwnedIn heap p := by
  induction cells generalizing ps with
  | nil => cases h
  | cons c cells ih =>
      cases c with
      | unset => cases h
      | null =>
          cases h
          intro p hp
          cases hp
      | name q =>
          unfold cellBlocks at h
          split at h
          · next s ps' hs hps =>
            obtain rfl := Option.some.inj h
            intro p hp
            obtain rfl | hp := List.mem_cons.mp hp
            · exact ownedIn_text hs
            · exact ih hps p hp
          · cases h

theorem nameBlocks_owned {q : Option Nat} (h : nameBlocks heap q = some ps) :
    ∀ p ∈ ps, OwnedIn heap p := by
  cases q with
  | none =>
      cases h
      intro p hp
      cases hp
  | some q =>
      rw [nameBlocks] at h
      split at h
      · next cells hq =>
        obtain ⟨ps', hps', rfl⟩ := Option.map_eq_some_iff.mp h
        intro p hp
        obtain hp | hp := List.mem_append.mp hp
        · exact cellBlocks_owned hps' p hp
        · obtain rfl := List.mem_singleton.mp hp
          exact ⟨_, hq, nofun⟩
      · cases h

theorem pathBlocks_owned {allocated : Bool} {path : PathRef}
    (h : pathBlocks heap allocated path = some ps) : ∀ p ∈ ps, OwnedIn heap p := by
  cases path with
  | caller text =>
      cases allocated <;> cases h
      intro p hp
      cases hp
  | copy q =>
      cases allocated with
      | false => cases h
      | true =>
          obtain ⟨s, hs, rfl⟩ := Option.map_eq_some_iff.mp h
          intro p hp
          obtain rfl := List.mem_singleton.mp hp
          exact ownedIn_text hs

theorem configBlocks_eq_some {cfg : Nat} (h : configBlocks heap (some cfg) = some ps) :
    ∃ u f s s', heap.blocks cfg = some (.config (some u) (some f)) ∧
      readText heap u = some s ∧ readText heap f = some s' ∧ ps = [u, f, cfg] := by
  rw [configBlocks] at h
  split at h
  · next u f hcfg =>
    split at h
    · next s s' hu hf => exact ⟨u, f, s, s', hcfg, hu, hf, (Option.some.inj h).symm⟩
    · cases h
  · cases h

theorem configBlocks_owned {cfg : Option Nat} (h : configBlocks heap cfg = some ps) :
    ∀ p ∈ ps, OwnedIn heap p := by
  cases cfg with
  | none =>
      cases h
      intro p hp
      cases hp
  | some cfg =>
      obtain ⟨u, f, s, s', hcfg, hu, hf, rfl⟩ := configBlocks_eq_some h
      intro p hp
      simp only [List.mem_cons, List.not_mem_nil, or_false] at hp
      obtain rfl | rfl | rfl := hp
      · exact ownedIn_text hu
      · exact ownedIn_text hf
      · exact ⟨_, hcfg, nofun⟩

theorem routeBlocks_owned (h : routeBlocks heap r = some ps) : ∀ p ∈ ps, OwnedIn heap p := by
  obtain ⟨names, path, config, hnames, hpath, hconfig, rfl⟩ := routeBlocks_eq_some h
  intro p hp
  obtain hp | hp := List.mem_append.mp hp
  · obtain hp | hp := List.mem_append.mp hp
    · exact nameBlocks_owned hnames p hp
    · exact pathBlocks_owned hpath p hp
  · exact configBlocks_owned hconfig p hp

/-- Nothing else is read to find the blocks of a route than these blocks. -/
theorem cellBlocks_congr {cells : List NameCell} (h : cellBlocks heap cells = some ps)
    (hagree : ∀ p ∈ ps, heap'.blocks p = heap.blocks p) : cellBlocks heap' cells = some ps := by
  induction cells generalizing ps with
  | nil => cases h
  | cons c cells ih =>
      cases c with
      | unset => cases h
      | null => exact h
      | name q =>
          unfold cellBlocks at h ⊢
          split at h
          · next s ps' hs hps =>
            obtain rfl := Option.some.inj h
            have hq : readText heap' q = some s := by
              rw [readText, hagree q (List.mem_cons_self ..), ← readText, hs]
            rw [hq, ih hps fun p hp => hagree p (List.mem_cons_of_mem q hp)]
          · cases h

theorem nameBlocks_congr {q : Option Nat} (h : nameBlocks heap q = some ps)
    (hagree : ∀ p ∈ ps, heap'.blocks p = heap.blocks p) : nameBlocks heap' q = some ps := by
  cases q with
  | none => exact h
  | some q =>
      rw [nameBlocks] at h ⊢
      split at h
      · next cells hq =>
        obtain ⟨ps', hps', rfl⟩ := Option.map_eq_some_iff.mp h
        rw [hagree q (by simp), hq]
        have hcells := cellBlocks_congr hps' fun p hp => hagree p (List.mem_append_left _ hp)
        exact Option.map_eq_some_iff.mpr ⟨ps', hcells, rfl⟩
      · cases h

theorem pathBlocks_congr {allocated : Bool} {path : PathRef}
    (h : pathBlocks heap allocated path = some ps)
    (hagree : ∀ p ∈ ps, heap'.blocks p = heap.blocks p) :
    pathBlocks heap' allocated path = some ps := by
  cases path with
  | caller text => exact h
  | copy q =>
      cases allocated with
      | false => cases h
      | true =>
          obtain ⟨s, hs, rfl⟩ := Option.map_eq_some_iff.mp h
          refine Option.map_eq_some_iff.mpr ⟨s, ?_, rfl⟩
          rw [readText, hagree q (List.mem_singleton_self q), ← readText, hs]

theorem configBlocks_congr {cfg : Option Nat} (h : configBlocks heap cfg = some ps)
    (hagree : ∀ p ∈ ps, heap'.blocks p = heap.blocks p) : configBlocks heap' cfg = some ps := by
  cases cfg with
  | none => exact h
  | some cfg =>
      obtain ⟨u, f, s, s', hcfg, hu, hf, rfl⟩ := configBlocks_eq_some h
      simp only [configBlocks, hagree cfg (by simp), hcfg]
      rw [readText] at hu hf ⊢
      rw [readText, hagree u (by simp), hagree f (by simp), hu, hf]

theorem routeBlocks_congr (h : routeBlocks heap r = some ps)
    (hagree : ∀ p ∈ ps, heap'.blocks p = heap.blocks p) : routeBlocks heap' r = some ps := by
  obtain ⟨names, path, config, hnames, hpath, hconfig, rfl⟩ := routeBlocks_eq_some h
  have hnames' := nameBlocks_congr hnames fun p hp => hagree p (by simp [hp])
  have hpath' := pathBlocks_congr hpath fun p hp => hagree p (by simp [hp])
  have hconfig' := configBlocks_congr hconfig fun p hp => hagree p (by simp [hp])
  simp only [routeBlocks, hnames', hpath', hconfig']

theorem Extends.routeBlocks (hx : Extends heap heap') (h : routeBlocks heap r = some ps) :
    Mnet.routeBlocks heap' r = some ps := by
  apply routeBlocks_congr h
  intro p hp
  obtain ⟨b, hb, hne⟩ := routeBlocks_owned h p hp
  exact (hx p b hb hne).trans hb.symm

end Blocks

-- ============================================================================
-- Releasing a route
-- ============================================================================

section Release

variable {heap : Heap Block} {r : RouteEntry} {ps : List Nat}

theorem freeParamNames_eq {cells : List NameCell} (h : cellBlocks heap cells = some ps)
    (heap' : Heap Block) : freeParamNames heap' cells = heap'.releaseAll ps := by
  induction cells generalizing ps heap' with
  | nil => cases h
  | cons c cells ih =>
      cases c with
      | unset => cases h
      | null =>
          cases h
          rfl
      | name q =>
          unfold cellBlocks at h
          split at h
          · next s ps' hs hps =>
            obtain rfl := Option.some.inj h
            exact ih hps _
          · cases h

theorem freeConfig_eq {cfg : Nat} (h : configBlocks heap (some cfg) = some ps)
    {heap' : Heap Block} (hcfg : heap'.blocks cfg = heap.blocks cfg) :
    freeConfig heap' cfg = heap'.releaseAll ps := by
  obtain ⟨u, f, s, s', hconfig, -, -, rfl⟩ := configBlocks_eq_some h
  rw [freeConfig, hcfg, hconfig]
  rfl

/-- `free_route` finds everything it has to release, in spite of what it has
    released before. -/
theorem freeRoute_eq (h : routeBlocks heap r = some ps) (hnodup : ps.Nodup) :
    freeRoute heap r = heap.releaseAll ps := by
  obtain ⟨names, path, config, hnames, hpath, hconfig, rfl⟩ := routeBlocks_eq_some h
  have hfreeNames : (match r.paramNames with
      | none => heap
      | some q => (freeParamNames heap (nameCells heap (some q))).release q) =
        heap.releaseAll names := by
    cases hq : r.paramNames with
    | none =>
        rw [hq] at hnames
        cases hnames
        rfl
    | some q =>
        rw [hq, nameBlocks] at hnames
        split at hnames
        · next cells hcells =>
          obtain ⟨ps', hps', rfl⟩ := Option.map_eq_some_iff.mp hnames
          rw [Heap.releaseAll_append, ← freeParamNames_eq hps']
          simp only [nameCells, hcells]
          rfl
        · cases hnames
  have hfreePath : ∀ heap' : Heap Block,
      (if r.pathAllocated then freePath heap' r.path else heap') = heap'.releaseAll path := by
    intro heap'
    cases hallocated : r.pathAllocated <;> cases hr : r.path <;> rw [hallocated, hr] at hpath
    · cases hpath
      rfl
    · cases hpath
    · cases hpath
    · obtain ⟨s, hs, rfl⟩ := Option.map_eq_some_iff.mp hpath
      rfl
  unfold freeRoute
  simp only [hfreeNames, hfreePath]
  rw [← Heap.releaseAll_append]
  cases hcfg : r.userData with
  | none =>
      rw [hcfg] at hconfig
      cases hconfig
      rw [List.append_nil]
  | some cfg =>
      rw [hcfg] at hconfig
      rw [Heap.releaseAll_append heap (names ++ path)]
      refine freeConfig_eq hconfig (Heap.releaseAll_of_not_mem _ fun hmem => ?_)
      obtain ⟨u, f, s, s', -, -, -, rfl⟩ := configBlocks_eq_some hconfig
      exact (List.nodup_append.mp hnodup).2.2 cfg hmem cfg (by simp) rfl

end Release

-- ============================================================================
-- Who owns what
-- ============================================================================

/-- Every live block is the table or belongs to one of the routes, once. -/
structure Tended (s : Registry) (owned : List (List Nat)) : Prop where
  ok : TableOk s
  length : owned.length = s.routeCount
  entries : ∀ i ps, owned[i]? = some ps →
    ∃ r, s.entry i = some r ∧ routeBlocks s.heap r = some ps
  nodup : owned.flatten.Nodup
  live : ∀ p b, s.heap.blocks p = some b → s.routes = some p ∨ p ∈ owned.flatten

/-- What a call to register a route can come to. -/
inductive Performed (answers : Nat → Answer) (s : Registry) : Bool × Registry → Prop
  | idle (heap : Heap Block) (hheap : heap = s.heap ∨ ∃ size, heap = s.heap.ask size) :
      Performed answers s (false, { s with heap := heap })
  | failed {s₁ s' : Registry} {slot : Option RouteEntry}
      (hgrow : s.grow answers = (true, s₁)) (hg : Grown s s₁) (hw : Working s₁ s' slot []) :
      Performed answers s (false, s')
  | added {s₁ s' : Registry} {r : RouteEntry} {ps own : List Nat}
      (hgrow : s.grow answers = (true, s₁)) (hg : Grown s s₁) (hw : Working s₁ s' (some r) own)
      (hblocks : routeBlocks s'.heap r = some ps) (hnodup : ps.Nodup) (hsub : ps ⊆ own)
      (hown : own ⊆ ps) :
      Performed answers s (true, { s' with routeCount := s'.routeCount + 1 })

/-- With the table grown, the one before is gone. -/
theorem grow_live (answers : Nat → Answer) {s s₁ : Registry} (h : TableOk s)
    (hgrow : s.grow answers = (true, s₁)) {p : Nat} {b : Block}
    (hp : s₁.heap.blocks p = some b) :
    s₁.routes = some p ∨ (s.heap.blocks p = some b ∧ s.routes ≠ some p) := by
  by_cases hfull : s.routeCount = s.routeCapacity
  · rw [Registry.grow, if_pos hfull] at hgrow
    simp only at hgrow
    have hold : ∀ o, s.routes = some o → ∃ b₀, s.heap.blocks o = some b₀ :=
      fun o ho => ⟨_, h.table o ho⟩
    split at hgrow
    · cases hgrow
    · next t heap heq =>
      obtain hno | ⟨q, heap', hyes, hresized, -⟩ := realloc_cases answers s.heap _ _ hold
      · rw [hno] at heq
        cases heq
      · rw [hyes] at heq
        cases heq
        cases hgrow
        by_cases ht : p = t
        · exact .inl (congrArg some ht.symm)
        · refine .inr ?_
          have hne : s.routes ≠ some p := by
            intro hroutes
            rw [show heap.blocks p = none from hresized.gone p hroutes ht] at hp
            cases hp
          exact ⟨(hresized.frame p ht hne).symm.trans hp, hne⟩
  · rw [Registry.grow, if_neg hfull] at hgrow
    cases hgrow
    by_cases hroutes : s.routes = some p
    · exact .inl hroutes
    · exact .inr ⟨hp, hroutes⟩

/-- A call has touched the table, its own blocks and nothing else. -/
theorem Working.live {s₁ s : Registry} {slot : Option RouteEntry} {own : List Nat}
    (h : Working s₁ s slot own) {p : Nat} {b : Block} (hp : s.heap.blocks p = some b) :
    s₁.routes = some p ∨ p ∈ own ∨ s₁.heap.blocks p = some b := by
  by_cases hroutes : s₁.routes = some p
  · exact .inl hroutes
  · by_cases hlt : p < s₁.heap.next
    · exact .inr (.inr ((h.frame p hlt hroutes).symm.trans hp))
    · by_cases hown : p ∈ own
      · exact .inr (.inl hown)
      · rw [h.left p (Nat.le_of_not_lt hlt) hown] at hp
        cases hp

namespace Tended

variable {answers : Nat → Answer} {s s₁ s' : Registry} {owned : List (List Nat)}

theorem empty : Tended {} [] where
  ok := tableOk_empty
  length := rfl
  entries := nofun
  nodup := List.nodup_nil
  live := nofun

theorem ownedIn (h : Tended s owned) {p : Nat} (hp : p ∈ owned.flatten) : OwnedIn s.heap p := by
  obtain ⟨ps, hps, hp⟩ := List.mem_flatten.mp hp
  obtain ⟨i, hi⟩ := List.getElem?_of_mem hps
  obtain ⟨r, -, hblocks⟩ := h.entries i ps hi
  exact routeBlocks_owned hblocks p hp

theorem lt_count (h : Tended s owned) {i : Nat} {ps : List Nat} (hi : owned[i]? = some ps) :
    i < s.routeCount := by
  rw [← h.length]
  exact (List.getElem?_eq_some_iff.mp hi).1

/-- Entries and blocks are where they were, and nothing else has come. -/
theorem keep (h : Tended s owned) (hok : TableOk s') (hcount : s'.routeCount = s.routeCount)
    (hentries : KeepsEntries s s') (hx : Extends s.heap s'.heap)
    (hlive : ∀ p b, s'.heap.blocks p = some b → s'.routes = some p ∨ p ∈ owned.flatten) :
    Tended s' owned where
  ok := hok
  length := h.length.trans hcount.symm
  entries i ps hi := by
    obtain ⟨r, hr, hblocks⟩ := h.entries i ps hi
    exact ⟨r, (hentries i (h.lt_count hi)).trans hr, hx.routeBlocks hblocks⟩
  nodup := h.nodup
  live := hlive

/-- The blocks behind a call: the table, its own, and those of the routes. -/
theorem live_working (h : Tended s owned) (hgrow : s.grow answers = (true, s₁))
    {slot : Option RouteEntry} {own : List Nat} (hw : Working s₁ s' slot own) {p : Nat} {b : Block}
    (hp : s'.heap.blocks p = some b) :
    s'.routes = some p ∨ p ∈ own ∨ p ∈ owned.flatten := by
  obtain hroutes | hown | hp₁ := hw.live hp
  · exact .inl (hw.routes.trans hroutes)
  · exact .inr (.inl hown)
  · obtain hroutes | ⟨hp₀, hne⟩ := grow_live answers h.ok hgrow hp₁
    · exact .inl (hw.routes.trans hroutes)
    · exact .inr (.inr ((h.live p b hp₀).resolve_left hne))

theorem failed (h : Tended s owned) (hgrow : s.grow answers = (true, s₁)) (hg : Grown s s₁)
    {slot : Option RouteEntry} (hw : Working s₁ s' slot []) : Tended s' owned := by
  refine h.keep hw.tableOk (hw.count.trans hg.count) (hw.keepsEntries hg) (hw.keeps hg) ?_
  intro p b hp
  obtain hroutes | hown | howned := h.live_working hgrow hw hp
  · exact .inl hroutes
  · cases hown
  · exact .inr howned

/-- A route that was added owns the blocks of its call, which are all new. -/
theorem added (h : Tended s owned) (hgrow : s.grow answers = (true, s₁)) (hg : Grown s s₁)
    {r : RouteEntry} {ps own : List Nat} (hw : Working s₁ s' (some r) own)
    (hblocks : routeBlocks s'.heap r = some ps) (hnodup : ps.Nodup) (hsub : ps ⊆ own)
    (hown : own ⊆ ps) :
    Tended { s' with routeCount := s'.routeCount + 1 } (owned ++ [ps]) := by
  have hcount : s'.routeCount = s.routeCount := hw.count.trans hg.count
  have hflatten : (owned ++ [ps]).flatten = owned.flatten ++ ps := by simp
  have hok := hw.tableOk
  constructor
  · have hlt : s'.routeCount + 1 ≤ s'.routeCapacity := by
      rw [hw.count, hw.capacity]
      exact hg.lt
    exact ⟨hok.sound, hok.table, hok.length, hok.fits, hlt⟩
  · rw [List.length_append, h.length, hcount]
    rfl
  · intro i qs hi
    by_cases hlt : i < owned.length
    · rw [List.getElem?_append_left hlt] at hi
      obtain ⟨r', hr', hblocks'⟩ := h.entries i qs hi
      exact ⟨r', (hw.keepsEntries hg i (h.lt_count hi)).trans hr',
        (hw.keeps hg).routeBlocks hblocks'⟩
    · have heq : i = owned.length ∧ qs = ps := by
        rw [List.getElem?_append_right (Nat.le_of_not_lt hlt)] at hi
        obtain ⟨hlt', hget⟩ := List.getElem?_eq_some_iff.mp hi
        simp only [List.length_singleton] at hlt'
        simp only [List.getElem_singleton] at hget
        exact ⟨by omega, hget.symm⟩
      obtain ⟨rfl, rfl⟩ := heq
      refine ⟨r, ?_, hblocks⟩
      rw [h.length, ← hcount]
      exact hw.entry_count hg.lt
  · rw [hflatten, List.nodup_append]
    refine ⟨h.nodup, hnodup, ?_⟩
    rintro p hp q hq rfl
    obtain ⟨b, hb, -⟩ := h.ownedIn hp
    have hlt := s.heap.lt_next hb
    have hge := hw.new p (hsub hq)
    have hle := hg.next_le
    omega
  · intro p b hp
    rw [hflatten, List.mem_append]
    obtain hroutes | hown' | howned := h.live_working hgrow hw hp
    · exact .inl hroutes
    · exact .inr (.inr (hown hown'))
    · exact .inr (.inl howned)

theorem performed (h : Tended s owned) {result : Bool × Registry}
    (hp : Performed answers s result) : ∃ owned', Tended result.2 owned' := by
  cases hp with
  | idle heap hheap =>
      refine ⟨owned, ?_⟩
      obtain rfl | ⟨size, rfl⟩ := hheap
      · exact h
      · exact h.keep (h.ok.ask size) rfl (fun _ _ => rfl) (fun _ _ hp _ => hp) h.live
  | failed hgrow hg hw => exact ⟨_, h.failed hgrow hg hw⟩
  | added hgrow hg hw hblocks hnodup hsub hown =>
      exact ⟨_, h.added hgrow hg hw hblocks hnodup hsub hown⟩

end Tended

-- ============================================================================
-- The two calls
-- ============================================================================

section Calls

variable {answers : Nat → Answer} {fs : FileSystem} {s : Registry}

theorem cellBlocks_of_texts {heap : Heap Block} {ptrs : List Nat} {names : List Bytes}
    (h : List.Forall₂ (fun p name => heap.blocks p = some (.text name)) ptrs names) :
    cellBlocks heap (ptrs.map .name ++ [.null]) = some ptrs := by
  induction h with
  | nil => rfl
  | cons hp _ ih =>
      rw [List.map_cons, List.cons_append, cellBlocks, readText_eq_some.mpr hp, ih]

/-- The blocks of a route of `mnet_route`: its names and their array. -/
theorem Collected.routeBlocks {s₁ s : Registry} {r : RouteEntry} {ptrs : List Nat}
    {names : List Bytes} {method : HttpMethod} {path : Bytes} {handler : MnetHandler}
    (h : Collected s₁ { method := method, path := .caller path, handler := .user handler } s r
      ptrs names) :
    routeBlocks s.heap r = some (ptrs ++ r.paramNames.toList) ∧
      (ptrs ++ r.paramNames.toList).Nodup := by
  have harray := h.array
  have hnames : nameBlocks s.heap r.paramNames = some (ptrs ++ r.paramNames.toList) ∧
      (ptrs ++ r.paramNames.toList).Nodup := by
    cases hq : r.paramNames with
    | none =>
        rw [hq] at harray
        obtain rfl : ptrs = [] := harray
        exact ⟨rfl, List.nodup_nil⟩
    | some q =>
        rw [hq] at harray
        have hcells : s.heap.blocks q = some (.names (ptrs.map .name ++ [.null])) := harray
        have hout : q ∉ ptrs := by
          intro hmem
          obtain ⟨name, hname⟩ := exists_text h.texts hmem
          exact absurd (Option.some.inj (hcells.symm.trans hname)) nofun
        constructor
        · rw [nameBlocks, hcells]
          exact congrArg (Option.map _) (cellBlocks_of_texts h.texts)
        · rw [Option.toList_some, List.nodup_append]
          refine ⟨h.nodup, List.nodup_singleton q, ?_⟩
          rintro p hp p' hp' rfl
          exact hout (List.mem_singleton.mp hp' ▸ hp)
  refine ⟨?_, hnames.2⟩
  rw [Mnet.routeBlocks, hnames.1, h.same]
  simp only [pathBlocks, configBlocks]
  simp

theorem route_performed (h : TableOk s) (method : HttpMethod) (path : Option Bytes)
    (handler : Option MnetHandler) :
    Performed answers s ((RouteCall.route method path handler).perform answers s) := by
  rw [perform_route]
  cases path with
  | none => exact .idle _ (.inl rfl)
  | some path =>
      cases handler with
      | none => exact .idle _ (.inl rfl)
      | some handler =>
          rw [mnetAddRouteAt]
          obtain ⟨size, hno⟩ | ⟨s₁, hgrow, hg⟩ := grow_cases answers h
          · simp only [hno]
            exact .idle _ (.inr ⟨size, rfl⟩)
          · simp only [hgrow]
            obtain ⟨slot, hstart⟩ := Working.start hg.ok hg.lt
            let r : RouteEntry :=
              { method := method, path := .caller path, handler := .user handler }
            have hcollected : Collected s₁ r (s₁.write r) r [] [] := .start hstart rfl
            obtain ⟨s', r', ptrs, names, heq, h'⟩ | ⟨k, s', r', ptrs, heq, h'⟩ :=
              addNames_cases (k := 0) answers path rfl hcollected
            · rw [heq]
              obtain ⟨slot', hundone⟩ := h'.undo
              exact .failed hgrow hg hundone
            · rw [heq]
              obtain ⟨hblocks, hnodup⟩ := h'.routeBlocks
              refine .added hgrow hg h'.working hblocks hnodup ?_ ?_
              · intro p hp
                exact List.mem_append.mpr (List.mem_append.mp hp).symm
              · intro p hp
                exact List.mem_append.mpr (List.mem_append.mp hp).symm

/-- The blocks of a route of `mnet_static`: the pattern, the two strings and the
    configuration. -/
theorem routeBlocks_static {heap : Heap Block} {cfg pathCopy u f : Nat} {urlPrefix fsPath : Bytes}
    (hconfig : ConfigAt heap cfg urlPrefix fsPath (some u) (some f))
    (hpath : heap.blocks pathCopy = some (.text (staticPattern urlPrefix))) :
    routeBlocks heap
        { method := .get, path := .copy pathCopy, handler := .staticHandler,
          userData := some cfg, pathAllocated := true } = some [pathCopy, u, f, cfg] := by
  have hblocks : configBlocks heap (some cfg) = some [u, f, cfg] := by
    rw [configBlocks, hconfig.config]
    simp only [readText_eq_some.mpr (hconfig.prefixText u rfl),
      readText_eq_some.mpr (hconfig.fsText f rfl)]
  have hpathBlocks : pathBlocks heap true (.copy pathCopy) = some [pathCopy] := by
    rw [pathBlocks, if_pos rfl, readText_eq_some.mpr hpath]
    rfl
  simp only [routeBlocks, nameBlocks, hpathBlocks, hblocks]
  rfl

/-- They are four blocks: the pattern was copied last. -/
theorem nodup_static {heap : Heap Block} {cfg pathCopy u f : Nat} {urlPrefix fsPath : Bytes}
    (hconfig : ConfigAt heap cfg urlPrefix fsPath (some u) (some f))
    (hpath : heap.next ≤ pathCopy) :
    [pathCopy, u, f, cfg].Nodup := by
  have hu := hconfig.prefixText u rfl
  have hf := hconfig.fsText f rfl
  have hne : u ≠ f := fun heq => hconfig.ne u rfl (congrArg some heq.symm)
  have hu_cfg : u ≠ cfg := by
    rintro rfl
    exact absurd (Option.some.inj (hconfig.config.symm.trans hu)) nofun
  have hf_cfg : f ≠ cfg := by
    rintro rfl
    exact absurd (Option.some.inj (hconfig.config.symm.trans hf)) nofun
  have hlt := heap.lt_next hu
  have hlt' := heap.lt_next hf
  have hlt'' := heap.lt_next hconfig.config
  simp only [List.nodup_cons, List.mem_cons, List.not_mem_nil, or_false, not_or]
  refine ⟨⟨?_, ?_, ?_⟩, ⟨hne, hu_cfg⟩, hf_cfg, not_false, List.nodup_nil⟩ <;> omega

theorem static_performed (h : TableOk s) (urlPrefix fsPath : Option Bytes) :
    Performed answers s ((RouteCall.static urlPrefix fsPath).perform answers s) := by
  rw [RouteCall.perform]
  cases urlPrefix with
  | none => exact .idle _ (.inl rfl)
  | some urlPrefix =>
      cases fsPath with
      | none => exact .idle _ (.inl rfl)
      | some fsPath =>
          rw [mnetStaticAt]
          obtain ⟨size, hno⟩ | ⟨s₁, hgrow, hg⟩ := grow_cases answers h
          · simp only [hno]
            exact .idle _ (.inr ⟨size, rfl⟩)
          simp only [hgrow]
          obtain ⟨slot, hstart⟩ := Working.start hg.ok hg.lt
          obtain hno | ⟨hyes, -⟩ := malloc_cases answers s₁.heap CONFIG_SIZE (.config none none)
          · simp only [hno]
            exact .failed hgrow hg (hstart.ask CONFIG_SIZE)
          simp only [hyes]
          have hcfg := Heap.alloc_next (s₁.heap.ask CONFIG_SIZE) (.config none none)
          obtain ⟨u, h₂, hu, hucopied, hw₂⟩ :=
            ((hstart.ask CONFIG_SIZE).alloc (.config none none)).strdup answers urlPrefix
          obtain ⟨f, h₃, hf, hfcopied, hw₃⟩ := hw₂.strdup answers fsPath
          simp only at hu hf
          simp only [hu, hf]
          have hconfig := configAt_copied hcfg hucopied hfcopied
          have hmem : s₁.heap.next ∈ f.toList ++ (u.toList ++ [s₁.heap.next]) := by simp
          have hw := hw₃.modify hmem fun _ => .config u f
          by_cases hnull : u = none ∨ f = none
          · rw [if_pos hnull]
            exact .failed hgrow hg (hw.freeConfig hconfig)
          rw [if_neg hnull]
          rw [not_or] at hnull
          obtain ⟨u, rfl⟩ := Option.ne_none_iff_exists'.mp hnull.1
          obtain ⟨f, rfl⟩ := Option.ne_none_iff_exists'.mp hnull.2
          obtain ⟨path, h₄, hpath, hpcopied, hw₄⟩ := hw.strdup answers (staticPattern urlPrefix)
          simp only at hpath
          simp only [hpath]
          have hconfig₄ := hconfig.imp hpcopied.keeps
          cases path with
          | none => exact .failed hgrow hg (hw₄.freeConfig hconfig₄)
          | some path =>
              have hblocks := routeBlocks_static hconfig₄ (hpcopied.text path rfl)
              refine .added hgrow hg (hw₄.write _) ((hw₄.write_extends _).routeBlocks hblocks)
                ?_ ?_ ?_
              · exact nodup_static hconfig (hpcopied.fresh path rfl)
              · intro p hp
                simp only [List.mem_cons, List.not_mem_nil, or_false, Option.toList_some,
                  List.cons_append, List.nil_append] at hp ⊢
                omega
              · intro p hp
                simp only [List.mem_cons, List.not_mem_nil, or_false, Option.toList_some,
                  List.cons_append, List.nil_append] at hp ⊢
                omega

theorem perform_performed (answers : Nat → Answer) (h : TableOk s) (call : RouteCall) :
    Performed answers s (call.perform answers s) := by
  cases call with
  | route method path handler => exact route_performed h method path handler
  | static urlPrefix fsPath => exact static_performed h urlPrefix fsPath

theorem registerAll_tended (answers : Nat → Answer) (fs : FileSystem) (calls : List RouteCall)
    {app : MnetApp} {owned : List (List Nat)}
    (h : Tended s owned) :
    ∃ owned', Tended (registerAll answers fs calls (s, app)).1 owned' := by
  induction calls generalizing s app owned with
  | nil => exact ⟨owned, h⟩
  | cons call calls ih =>
      obtain ⟨owned', h'⟩ := h.performed (perform_performed answers h.ok call)
      rw [registerAll]
      split
      · next s' heq =>
          rw [heq] at h'
          exact ih h'
      · next s' heq =>
          rw [heq] at h'
          exact ih h'

end Calls

-- ============================================================================
-- The end of an application
-- ============================================================================

section Destroy

variable {s s' : Registry} {owned : List (List Nat)}

/-- The table is not among the blocks of the routes. -/
theorem Tended.routes_not_owned (h : Tended s owned) {t : Nat} (ht : s.routes = some t) :
    t ∉ owned.flatten := by
  intro hmem
  obtain ⟨b, hb, hne⟩ := h.ownedIn hmem
  exact hne _ (Option.some.inj (hb.symm.trans (h.ok.table t ht)))

/-- So it is read as before while they go. -/
theorem Tended.entry_releaseAll (h : Tended s owned) {ps : List Nat} (hps : ps ⊆ owned.flatten)
    (i : Nat) : Registry.entry { s with heap := s.heap.releaseAll ps } i = s.entry i := by
  have hslots : Registry.slots { s with heap := s.heap.releaseAll ps } = s.slots := by
    cases ht : s.routes with
    | none => simp only [Registry.slots, ht]
    | some t =>
        have hout : t ∉ ps := fun hmem => h.routes_not_owned ht (hps hmem)
        simp only [Registry.slots, ht, Heap.releaseAll_of_not_mem _ hout]
  rw [Registry.entry, Registry.entry, hslots]

/-- With the blocks of the first routes gone the loop releases those of the
    rest. -/
theorem freeRoutes_eq (h : Tended s owned) (done rest : List (List Nat))
    (howned : owned = done ++ rest) :
    freeRoutes { s with heap := s.heap.releaseAll done.flatten } done.length rest.length =
      { s with heap := s.heap.releaseAll owned.flatten } := by
  induction rest generalizing done with
  | nil =>
      rw [howned, List.append_nil]
      rfl
  | cons ps rest ih =>
      have hget : owned[done.length]? = some ps := by simp [howned]
      obtain ⟨r, hr, hblocks⟩ := h.entries _ _ hget
      have hflatten : owned.flatten = done.flatten ++ (ps ++ rest.flatten) := by simp [howned]
      have hnodup := h.nodup
      rw [hflatten, List.nodup_append] at hnodup
      obtain ⟨-, hnodup, hdisjoint⟩ := hnodup
      have hsub : done.flatten ⊆ owned.flatten := by
        rw [hflatten]
        exact List.subset_append_left _ _
      have hentry := (h.entry_releaseAll hsub done.length).trans hr
      have hblocks' : routeBlocks (s.heap.releaseAll done.flatten) r = some ps := by
        apply routeBlocks_congr hblocks
        intro p hp
        apply Heap.releaseAll_of_not_mem
        exact fun hmem => hdisjoint p hmem p (List.mem_append_left _ hp) rfl
      have hfree := freeRoute_eq hblocks' (List.nodup_append.mp hnodup).1
      have hnext := ih (done ++ [ps]) (by simp [howned])
      simp only [List.flatten_append, List.flatten_singleton, Heap.releaseAll_append,
        List.length_append, List.length_singleton] at hnext
      rw [List.length_cons, freeRoutes, hentry]
      simp only [hfree]
      exact hnext

theorem mnetDestroy_eq (h : Tended s owned) :
    mnetDestroy s = s.heap.releaseAll (owned.flatten ++ s.routes.toList) := by
  have hfree := freeRoutes_eq h [] owned rfl
  simp only [List.flatten_nil, Heap.releaseAll_nil, List.length_nil, h.length] at hfree
  rw [mnetDestroy, hfree, Heap.releaseAll_append]
  cases s.routes <;> rfl

/-- Behind `mnet_destroy` nothing is left, and nothing was released twice. -/
theorem Tended.destroyed (h : Tended s owned) :
    (∀ p, (mnetDestroy s).blocks p = none) ∧ (mnetDestroy s).Sound := by
  rw [mnetDestroy_eq h]
  constructor
  · intro p
    by_cases hp : p ∈ owned.flatten ++ s.routes.toList
    · exact Heap.releaseAll_of_mem _ hp
    · rw [Heap.releaseAll_of_not_mem _ hp]
      cases hb : s.heap.blocks p with
      | none => rfl
      | some b =>
          rw [List.mem_append, Option.mem_toList, not_or] at hp
          exact ((h.live p b hb).elim hp.2 hp.1).elim
  · apply h.ok.sound.releaseAll
    · rw [List.nodup_append]
      refine ⟨h.nodup, ?_, ?_⟩
      · cases s.routes <;> simp
      · rintro p hp t ht rfl
        exact h.routes_not_owned (Option.mem_toList.mp ht) hp
    · intro p hp
      obtain hp | ht := List.mem_append.mp hp
      · obtain ⟨b, hb, -⟩ := h.ownedIn hp
        rw [hb]
        rfl
      · rw [h.ok.table p (Option.mem_toList.mp ht)]
        rfl

end Destroy

/-- Whatever routes are registered and whatever requests for memory fail among
    them: with the application destroyed, every block it was given has been
    released, exactly once. -/
theorem mnetDestroy_releases (answers : Nat → Answer) (fs : FileSystem) (calls : List RouteCall) :
    (∀ p, (mnetDestroy (registerAll answers fs calls ({}, {})).1).blocks p = none) ∧
      ∀ p < (registerAll answers fs calls ({}, {})).1.heap.next,
        (mnetDestroy (registerAll answers fs calls ({}, {})).1).releases p = 1 := by
  obtain ⟨owned, h⟩ : ∃ owned, Tended (registerAll answers fs calls ({}, {})).1 owned :=
    registerAll_tended answers fs calls Tended.empty
  obtain ⟨hnone, hsound⟩ := h.destroyed
  refine ⟨hnone, fun p hp => hsound.releases_eq_one ?_ (hnone p)⟩
  rw [mnetDestroy_eq h, Heap.releaseAll_next]
  exact hp

end Mnet
