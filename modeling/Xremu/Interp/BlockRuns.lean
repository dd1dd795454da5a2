import Xremu.Interp.BlockLinks

/-!
# Every run of block cache operations

A new block takes a free record, for which blocks in use may have to be reclaimed. None
of the operations finds a free list empty that it relies on, so every run goes on, and
the invariant holds at every state it reaches.
-/

namespace Xremu

open Lists

namespace XrIblockCache

variable {c c' : XrIblockCache} {i j : Nat} {hazard : Option Nat} {pc asid : Word}
  {f : XrFetched} {tbmiss : Bool}

/-! ## Lookup -/

theorem lookup_some (h : Indexed c) (hlook : c.xrLookupIblock pc asid = some i) :
    c.Active i ∧ (c.iblocks i).pc = pc ∧ (c.iblocks i).asid = asid := by
  unfold xrLookupIblock at hlook
  have hmem := List.mem_of_find?_eq_some hlook
  have hkey := List.find?_some hlook
  rw [Bool.and_eq_true, beq_iff_eq, beq_iff_eq] at hkey
  exact ⟨((h.hash.mem _ i).mp hmem).1, hkey⟩

theorem lookup_none (h : Indexed c) (hlook : c.xrLookupIblock pc asid = none) (hj : c.Active j)
    (hpc : (c.iblocks j).pc = pc) : (c.iblocks j).asid ≠ asid := by
  intro hasid
  unfold xrLookupIblock at hlook
  have hmem : j ∈ c.iblockHashBuckets (xrIblockHash pc) :=
    (h.hash.mem _ j).mpr ⟨hj, congrArg xrIblockHash hpc⟩
  refine List.find?_eq_none.mp hlook j hmem ?_
  rw [Bool.and_eq_true, beq_iff_eq, beq_iff_eq]
  exact ⟨hpc, hasid⟩

/-! ## A free record -/

/-- Reclaiming leaves the hazard alone and frees at least one block. -/
theorem xrPopulateIblockList_ok (h : Inv c) (hazard : Option Nat) (hempty : c.iblockFreeList = []) :
    ∃ c' gone, c.xrPopulateIblockList hazard = some c' ∧ Inv c' ∧ Shrunk c gone c' ∧
      (∀ j, gone j → hazard ≠ some j) ∧ c'.iblockFreeList ≠ [] := by
  have hall : ∀ j, j ∈ xrIblockRecords ↔ c.Active j := by
    intro j
    rw [h.pool.mem, hempty]
    simp
  have hnodup : c.iblockLruList.reverse.Nodup := List.nodup_reverse.mpr h.indexed.lru
  have htail : ∀ j ∈ c.iblockLruList.reverse.take xrIblockReclaim, c.Active j :=
    fun j hj => List.mem_reverse.mp (List.mem_of_mem_take hj)
  obtain ⟨c', hrun, hinv, hshrunk⟩ :=
    reclaim_ok hazard (c.iblockLruList.reverse.take xrIblockReclaim) h hnodup.take htail
  refine ⟨c', _, hrun, hinv, hshrunk, fun j hj => hj.2, ?_⟩
  -- Of the last two blocks of the list, one is not the hazard.
  have hlength : xrIblockCount ≤ c.iblockLruList.length := by
    have hsub : xrIblockRecords ⊆ c.iblockLruList.toFinset := by
      intro j hj
      exact List.mem_toFinset.mpr ((hall j).mp hj)
    have hcard := Finset.card_le_card hsub
    rw [List.toFinset_card_of_nodup h.indexed.lru] at hcard
    exact (Finset.card_range xrIblockCount).symm.le.trans hcard
  obtain ⟨j, hj, hne⟩ : ∃ j, j ∈ c.iblockLruList.reverse.take xrIblockReclaim ∧
      hazard ≠ some j := by
    cases hlist : c.iblockLruList.reverse with
    | nil =>
        rw [List.reverse_eq_nil_iff.mp hlist] at hlength
        exact absurd hlength (by decide)
    | cons a rest =>
        cases rest with
        | nil =>
            have hone : c.iblockLruList.length = 1 := by
              rw [← List.length_reverse, hlist]
              rfl
            rw [hone] at hlength
            exact absurd hlength (by decide)
        | cons b rest =>
            by_cases ha : hazard = some a
            · refine ⟨b, by simp, ?_⟩
              rw [hlist] at hnodup
              rintro hb
              have hab : a = b := Option.some.inj (ha.symm.trans hb)
              exact (List.nodup_cons.mp hnodup).1 (hab ▸ List.mem_cons_self)
            · exact ⟨a, by simp, ha⟩
  have hgone : ¬c'.Active j := fun hact => ((hshrunk.active j).mp hact).2 ⟨hj, hne⟩
  have hfree := ((hinv.pool.mem j).mp ((hall j).mpr (htail j hj))).resolve_right hgone
  exact List.ne_nil_of_mem hfree

/-- What `XrAllocateIblock` does: the free list of a cache with fewer blocks loses its head. -/
theorem xrAllocateIblock_ok (h : Inv c) (hazard : Option Nat) :
    ∃ i rest c' gone, c.xrAllocateIblock hazard = some (i, { c' with iblockFreeList := rest }) ∧
      Inv c' ∧ c'.iblockFreeList = i :: rest ∧ Shrunk c gone c' ∧
      ∀ j, gone j → hazard ≠ some j := by
  unfold xrAllocateIblock
  by_cases hempty : c.iblockFreeList = []
  · obtain ⟨c', gone, hrun, hinv, hshrunk, hhazard, hne⟩ := xrPopulateIblockList_ok h hazard hempty
    obtain ⟨i, rest, hfree⟩ := List.exists_cons_of_ne_nil hne
    refine ⟨i, rest, c', gone, ?_, hinv, hfree, hshrunk, hhazard⟩
    rw [if_pos hempty, hrun]
    simp only [Option.bind_eq_bind, Option.bind_some, hfree]
  · obtain ⟨i, rest, hfree⟩ := List.exists_cons_of_ne_nil hempty
    refine ⟨i, rest, c, fun _ => False, ?_, h, hfree, Shrunk.refl c, fun _ => False.elim⟩
    rw [if_neg hempty]
    simp only [Option.bind_eq_bind, Option.bind_some, hfree]

/-! ## A new block -/

theorem Entered.keeps {v : Nat} {b : XrIblock} (hn : ¬c.Active i) (h : Entered c i b v c')
    (hnull : ∀ path, b.cachedPaths path = .null) {s : XrSlot} (hlive : c'.Live s)
    (hs : c'.slot s = .iblock j) :
    c.Live s ∧ c.slot s = .iblock j ∧ c'.standsFor s = c.standsFor s := by
  have hslot : c.slot s = .iblock j := by
    rcases h.slot hnull s with hnone | hsame
    · rw [hnone] at hs
      cases hs
    · exact hsame.symm.trans hs
  cases s with
  | path k path =>
      have hk : k ≠ i := by
        rintro rfl
        have hnone : c'.slot (.path k path) = .null := by
          show (c'.iblocks k).cachedPaths path = .null
          rw [h.iblock]
          exact hnull path
        rw [hnone] at hs
        cases hs
      refine ⟨((h.active k).mp hlive).resolve_right hk, hslot, ?_⟩
      show (c'.iblocks k).leadsTo path = _
      rw [h.iblock_ne hk]
      rfl
  | table t k =>
      refine ⟨⟨hlive.1, (h.owned hn hnull t).mp hlive.2⟩, hslot, ?_⟩
      show (c'.ptables t).pcs k = _
      rw [h.ptables]
      rfl

theorem PointersOk.enter {v : Nat} {b : XrIblock} (hp : PointersOk c) (hn : ¬c.Active i)
    (h : Entered c i b v c') (hnull : ∀ path, b.cachedPaths path = .null) : PointersOk c' := by
  have hne : ∀ j, c.Active j → j ≠ i := by
    rintro j hj rfl
    exact hn hj
  intro s j hlive hs
  obtain ⟨hlive, hs, hstands⟩ := h.keeps hn hnull hlive hs
  obtain ⟨hactive, hknown, hpc⟩ := hp s j hlive hs
  refine ⟨(h.active j).mpr (.inl hactive), ?_, ?_⟩
  · rw [h.iblock_ne (hne j hactive)]
    exact hknown
  · rw [h.iblock_ne (hne j hactive), hstands]
    exact hpc

/-- Block `i` was decoded. Blocks other than the hazard may have been reclaimed for it, and
the slots that pointed to them are null. -/
structure Decoded (c : XrIblockCache) (hazard : Option Nat) (pc asid : Word) (f : XrFetched)
    (tbmiss : Bool) (i : Nat) (c' : XrIblockCache) : Prop where
  inv : Inv c'
  active : c'.Active i
  iblock : ∃ v, c'.iblocks i = newIblock pc asid f tbmiss v
  hazard : ∀ j, hazard = some j → c.Active j → c'.Active j ∧ j ≠ i
  old : ∀ j, c'.Active j → j ≠ i → c.Active j ∧
    c'.iblocks j = { c.iblocks j with cachedPaths := (c'.iblocks j).cachedPaths }
  ptable : ∀ j path t, j ≠ i → (c'.slot (.path j path) = .ptable t ↔
    c.slot (.path j path) = .ptable t)
  pointers : PointersCome c c'

/-- Decoding always finds the records it needs. -/
theorem decodeFetched_ok (h : Inv c) (hazard : Option Nat) (f : XrFetched) (tbmiss : Bool)
    (miss : c.xrLookupIblock pc asid = none) :
    ∃ i c', c.decodeFetched hazard pc asid f tbmiss = some (i, c') ∧
      Decoded c hazard pc asid f tbmiss i c' := by
  obtain ⟨i, rest, c₁, gone, hrun, h₁, hfree, hshrunk, hgone⟩ := xrAllocateIblock_ok h hazard
  let c₂ : XrIblockCache := { c₁ with iblockFreeList := rest }
  have hpool := h₁.pool
  rw [hfree] at hpool
  have hn : ¬c₂.Active i := hpool.disjoint i List.mem_cons_self
  have hrecord : i ∈ xrIblockRecords := (hpool.mem i).mpr (.inl List.mem_cons_self)
  have hindexed : Indexed c₂ :=
    h₁.indexed.of_same ⟨rfl, rfl, rfl, rfl, rfl, fun _ => rfl, fun _ => rfl, fun _ => rfl⟩
  have htables : TablesOk c₂ := ⟨h₁.tables.owner, h₁.tables.plain, h₁.tables.jalr, h₁.tables.unique,
    h₁.tables.entries, h₁.tables.free⟩
  have hpointers : PointersOk c₂ := by
    intro s j hlive hs
    obtain ⟨hactive, hknown, hpc⟩ := h₁.pointers s j
      (by cases s <;> exact hlive) (by cases s <;> exact hs)
    exact ⟨hactive, hknown, hpc.trans (by cases s <;> rfl)⟩
  let b := newIblock pc asid f tbmiss (c₂.iblocks i).vpage
  obtain ⟨c', hins⟩ := hindexed.exists_entered (fun j hj => h₁.pool.used_mem hj) hn hrecord b
  obtain ⟨v, hentered⟩ := entered_insert hins
  -- No block in use has the new one's key.
  have hnew : ∀ j, c₂.Active j → (c₂.iblocks j).pc = b.pc → (c₂.iblocks j).asid ≠ b.asid := by
    intro j hj hpc
    have hj' := ((hshrunk.active j).mp hj).1
    have hpc' : (c.iblocks j).pc = pc := by
      have heq : (c₁.iblocks j).pc = pc := hpc
      rw [hshrunk.iblock j] at heq
      exact heq
    have hasid := lookup_none h.indexed miss hj' hpc'
    show (c₁.iblocks j).asid ≠ asid
    rw [hshrunk.iblock j]
    exact hasid
  have hnull : ∀ path, b.cachedPaths path = .null := fun _ => rfl
  refine ⟨i, c', ?_, ?_⟩
  · unfold decodeFetched
    rw [hrun]
    simp only [Option.bind_eq_bind, Option.bind_some]
    have hins' : ((c₂.setIblock i b).linkIblock i pc).xrInsertIblockInVpage i pc = some c' := hins
    rw [hins']
    rfl
  constructor
  case inv =>
    refine ⟨⟨?_, hindexed.enter hn hnew hentered, htables.enter hn hentered rfl hnull⟩,
      hpointers.enter hn hentered hnull⟩
    rw [hentered.iblockFree]
    exact hpool.take.congr hentered.active
  case active => exact (hentered.active i).mpr (.inr rfl)
  case iblock => exact ⟨v, hentered.iblock⟩
  case hazard =>
    intro j hj hactive
    have hactive₁ : c₂.Active j := (hshrunk.active j).mpr ⟨hactive, fun hg => hgone j hg hj⟩
    refine ⟨(hentered.active j).mpr (.inl hactive₁), ?_⟩
    rintro rfl
    exact hn hactive₁
  case old =>
    intro j hj hne
    have hactive₁ : c₁.Active j := ((hentered.active j).mp hj).resolve_right hne
    refine ⟨((hshrunk.active j).mp hactive₁).1, ?_⟩
    rw [hentered.iblock_ne hne]
    exact hshrunk.iblock j
  case ptable =>
    intro j path t hne
    rw [← hshrunk.ptable]
    show (c'.iblocks j).cachedPaths path = _ ↔ _
    rw [hentered.iblock_ne hne]
    exact Iff.rfl
  case pointers =>
    intro s j hlive hs
    obtain ⟨hlive, hs, _⟩ := hentered.keeps hn hnull hlive hs
    exact hshrunk.pointers s j (by cases s <;> exact hlive) (by cases s <;> exact hs)

/-! ## Runs -/

theorem inv_initial (h : Initial c) : Inv c := by
  have hnone : ∀ i, ¬c.Active i := by
    intro i
    unfold Active
    rw [h.lru]
    exact List.not_mem_nil
  have hunused : ∀ v, ¬c.VpageUsed v := by
    rintro v ⟨hash, hv⟩
    rw [h.vpageHash] at hv
    cases hv
  have hunowned : ∀ t, ¬c.Owned t := by
    rintro t ⟨i, hi, _⟩
    exact hnone i hi
  have hnodup : (List.range xrIblockCount).reverse.Nodup :=
    List.nodup_reverse.mpr List.nodup_range
  have hall : ∀ a, a ∈ xrIblockRecords ↔ a ∈ (List.range xrIblockCount).reverse := by
    intro a
    rw [List.mem_reverse, List.mem_range]
    exact Finset.mem_range
  refine ⟨⟨?_, ?_, ?_⟩, ?_⟩
  · rw [h.iblockFree]
    exact Pool.full hnodup hall hnone
  · constructor
    case lru =>
      rw [h.lru]
      exact List.nodup_nil
    case hash => exact Buckets.empty h.hash hnone
    case unique => exact fun i j hi => absurd hi (hnone i)
    case pages => exact Buckets.empty h.pages hnone
    case page => exact fun i hi => absurd hi (hnone i)
    case vpages => exact Buckets.empty h.vpageHash hunused
    case vpagePool =>
      rw [h.vpageFree]
      exact Pool.full hnodup hall hunused
    case vpns => exact fun v w hv => absurd hv (hunused v)
    case references => exact fun v hv => absurd hv (hunused v)
  · constructor
    case owner => exact fun i hi => absurd hi (hnone i)
    case plain => exact fun i path t hi => absurd hi (hnone i)
    case jalr => exact fun i path j hi => absurd hi (hnone i)
    case unique => exact fun i j t hi => absurd hi (hnone i)
    case entries => exact fun t k u ht => absurd ht (hunowned t)
    case free =>
      exact ⟨_, h.ptableFree, Pool.full hnodup hall hunowned⟩
  · intro s j hlive
    cases s with
    | path i path => exact absurd hlive (hnone i)
    | table t k => exact absurd hlive.2 (hunowned t)

/-- Every step of a run keeps the invariant. -/
theorem inv_reach (h : Reach c) : Inv c := by
  induction h with
  | start h => exact inv_initial h
  | decode hazard pc asid f tbmiss i _ miss done ih =>
      obtain ⟨j, c₁, hrun, hdecoded⟩ := decodeFetched_ok ih hazard f tbmiss miss
      rw [done] at hrun
      cases hrun
      exact hdecoded.inv
  | ptable i _ active jalr null done ih =>
      obtain ⟨t, hgiven⟩ := given_givePtable done
      exact inv_given ih active jalr null hgiven
  | link i j path _ active other target hpc ih =>
      refine inv_link ih.toIblocksOk (fun s k _ => ih.pointers s k) active target hpc ?_
      rintro _ _ ⟨⟩
      exact other
  | predict i j t _ active _ table target ih => exact inv_predict ih active table target
  | flush _ done ih =>
      obtain ⟨c₁, hrun, hinv, _⟩ := xrInvalidateIblockCache_ok ih
      rw [done] at hrun
      cases hrun
      exact hinv
  | flushVpn vpn _ done ih =>
      obtain ⟨c₁, hrun, hinv, _⟩ := xrInvalidateIblockCacheByVpn_ok ih vpn
      rw [done] at hrun
      cases hrun
      exact hinv

/-! ## The invariant in the terms of the structures -/

/-- What blocks in use and their prediction tables point to. -/
structure PointersRight (c : XrIblockCache) : Prop where
  /-- A slot of a block is null, or holds a block in use at the address that the path leads
  to; only the first slot of a block that ends in JALR can hold a prediction table. -/
  path : ∀ i path, c.Active i → (c.iblocks i).cachedPaths path = .null ∨
    (¬(c.iblocks i).Jalr ∧ ∃ j, (c.iblocks i).cachedPaths path = .iblock j ∧ c.Active j ∧
      (c.iblocks j).pc = (c.iblocks i).leadsTo path) ∨
    ((c.iblocks i).Jalr ∧ path = .true ∧ ∃ t, (c.iblocks i).cachedPaths path = .ptable t)
  /-- An entry of such a table is null, or a block in use at the predicted address. -/
  entry : ∀ i t k, c.Active i → (c.iblocks i).cachedPaths .true = .ptable t → k < 8 →
    (c.ptables t).iblocks k = .null ∨
    ∃ j, (c.ptables t).iblocks k = .iblock j ∧ c.Active j ∧ (c.iblocks j).pc = (c.ptables t).pcs k
  /-- Two blocks have two tables. -/
  owner : ∀ i j t, c.Active i → c.Active j → (c.iblocks i).cachedPaths .true = .ptable t →
    (c.iblocks j).cachedPaths .true = .ptable t → i = j
  /-- The chain of free tables has each table that no block in use has, once. -/
  free : ∃ free : List Nat, Chain c.ptables c.ptableFreeList free ∧ free.Nodup ∧
    ∀ t, t ∈ free ↔ t < xrIblockCount ∧
      ∀ i, c.Active i → (c.iblocks i).cachedPaths .true ≠ .ptable t

/-- The table in the first slot of a block in use is its own. -/
theorem TablesOk.owns {t : Nat} (h : TablesOk c) (hi : c.Active i)
    (hs : (c.iblocks i).cachedPaths .true = .ptable t) : c.Owns i t :=
  ⟨(h.plain i .true t hi hs).2, hs⟩

theorem Inv.pointersRight (h : Inv c) : c.PointersRight := by
  have hnull_or : ∀ s : XrSlot, c.Live s →
      c.slot s = .null ∨ (∃ j, c.slot s = .iblock j ∧ c.Active j ∧
        (c.iblocks j).pc = c.standsFor s) ∨ ∃ t, c.slot s = .ptable t := by
    intro s hlive
    cases hs : c.slot s with
    | null => exact Or.inl rfl
    | iblock j =>
        obtain ⟨hactive, -, hpc⟩ := h.pointers s j hlive hs
        exact Or.inr (Or.inl ⟨j, rfl, hactive, hpc⟩)
    | ptable t => exact Or.inr (Or.inr ⟨t, rfl⟩)
  constructor
  case path =>
    intro i path hi
    rcases hnull_or (.path i path) hi with hs | ⟨j, hs, hactive, hpc⟩ | ⟨t, hs⟩
    · exact Or.inl hs
    · exact Or.inr (Or.inl ⟨fun hjalr => h.tables.jalr i path j hi hjalr hs, j, hs, hactive, hpc⟩)
    · obtain ⟨hpath, hhas⟩ := h.tables.plain i path t hi hs
      exact Or.inr (Or.inr ⟨(h.tables.owner i hi hhas).1, hpath, t, hs⟩)
  case entry =>
    intro i t k hi ht hk
    have howned : c.Owned t := ⟨i, hi, h.tables.owns hi ht⟩
    rcases hnull_or (.table t k) ⟨hk, howned⟩ with hs | hs | ⟨u, hs⟩
    · exact Or.inl hs
    · exact Or.inr hs
    · exact absurd hs (h.tables.entries t k u howned hk)
  case owner =>
    exact fun i j t hi hj hs hs' =>
      h.tables.unique i j t hi hj (h.tables.owns hi hs) (h.tables.owns hj hs')
  case free =>
    obtain ⟨free, hchain, hpool⟩ := h.tables.free
    refine ⟨free, hchain, hpool.nodup, fun t => ⟨fun ht => ?_, ?_⟩⟩
    · refine ⟨Finset.mem_range.mp ((hpool.mem t).mpr (Or.inl ht)), fun i hi hs => ?_⟩
      exact hpool.disjoint t ht ⟨i, hi, h.tables.owns hi hs⟩
    · rintro ⟨hlt, hnone⟩
      rcases (hpool.mem t).mp (Finset.mem_range.mpr hlt) with ht | ⟨i, hi, howns⟩
      · exact ht
      · exact absurd howns.2 (hnone i hi)

/-- A block in use that has no table can be given one. -/
theorem Inv.givePtable_ok (h : Inv c) (hi : c.Active i)
    (hnull : (c.iblocks i).cachedPaths .true = .null) : ∃ c', c.givePtable i = some c' := by
  refine exists_givePtable h.toIblocksOk hi ?_
  by_contra hp
  rw [Bool.not_eq_false] at hp
  obtain ⟨_, t, ht⟩ := h.tables.owner i hi hp
  have hnull' : c.slot (.path i .true) = .null := hnull
  rw [hnull'] at ht
  cases ht

/-- At every point of every run, the lists hold what they should and every pointer in use
is to a block in use at its program counter; nothing that can come next finds a free
list empty that it relies on, nor frees the block it was told not to. -/
theorem block_cache_invariant {c : XrIblockCache} (h : Reach c) :
    -- Blocks and their lists.
    (∀ i, i < xrIblockCount → (i ∈ c.iblockFreeList ↔ ¬c.Active i)) ∧
    (∀ i, c.Active i →
      (∀ hash, (c.iblockHashBuckets hash).count i =
        if hash = xrIblockHash (c.iblocks i).pc then 1 else 0) ∧
      ∃ v, c.VpageUsed v ∧ (c.vpages v).vpn = pageOf (c.iblocks i).pc ∧
        ∀ w, (c.vpages w).iblockVpnList.count i = if w = v then 1 else 0) ∧
    (∀ i j, c.Active i → c.Active j → (c.iblocks i).pc = (c.iblocks j).pc →
      (c.iblocks i).asid = (c.iblocks j).asid → i = j) ∧
    (∀ v, c.VpageUsed v →
      (c.vpages v).references = (c.vpages v).iblockVpnList.length ∧ 0 < (c.vpages v).references) ∧
    -- Pointers.
    c.PointersRight ∧
    -- Reclaiming and allocating.
    (∀ hazard, c.iblockFreeList = [] → ∃ c', c.xrPopulateIblockList hazard = some c' ∧
      c'.iblockFreeList ≠ [] ∧ ∀ i, hazard = some i → c.Active i → c'.Active i) ∧
    (∀ hazard pc asid f tbmiss, c.xrLookupIblock pc asid = none →
      ∃ i c', c.decodeFetched hazard pc asid f tbmiss = some (i, c') ∧
        ∀ j, hazard = some j → c.Active j → c'.Active j) ∧
    (∀ i, c.Active i → (c.iblocks i).cachedPaths .true = .null → ∃ c', c.givePtable i = some c') ∧
    (∃ c', c.xrInvalidateIblockCache = some c') ∧
    (∀ vpn, ∃ c', c.xrInvalidateIblockCacheByVpn vpn = some c') := by
  have hinv := inv_reach h
  refine ⟨?_, ?_, hinv.indexed.unique, hinv.indexed.references, hinv.pointersRight, ?_, ?_, ?_,
    ?_, ?_⟩
  · intro i hi
    constructor
    · exact hinv.pool.disjoint i
    · intro hno
      exact ((hinv.pool.mem i).mp (Finset.mem_range.mpr hi)).resolve_right hno
  · intro i hi
    obtain ⟨hused, hvpn⟩ := hinv.indexed.page i hi
    exact ⟨hinv.indexed.hash.count hi, _, hused, hvpn, hinv.indexed.pages.count hi⟩
  · intro hazard hempty
    obtain ⟨c', gone, hrun, _, hshrunk, hgone, hne⟩ := xrPopulateIblockList_ok hinv hazard hempty
    refine ⟨c', hrun, hne, fun i hz hi => ?_⟩
    exact (hshrunk.active i).mpr ⟨hi, fun hg => hgone i hg hz⟩
  · intro hazard pc asid f tbmiss miss
    obtain ⟨i, c', hrun, hdecoded⟩ := decodeFetched_ok hinv hazard f tbmiss miss
    exact ⟨i, c', hrun, fun j hz hj => (hdecoded.hazard j hz hj).1⟩
  · exact fun i hi hnull => hinv.givePtable_ok hi hnull
  · obtain ⟨c', hrun, _⟩ := xrInvalidateIblockCache_ok hinv
    exact ⟨c', hrun⟩
  · intro vpn
    obtain ⟨c', hrun, _⟩ := xrInvalidateIblockCacheByVpn_ok hinv vpn
    exact ⟨c', hrun⟩

/-- An initial cache in memory that `malloc` returned zeroed. -/
def initialBlockCache : XrIblockCache where
  iblocks _ := ⟨0, 0, 0, [], false, 0, false, fun _ => .null, fun _ => none, 0⟩
  ptables t := ⟨fun k => if k = 0 ∧ t ≠ 0 then .ptable (t - 1) else .null, fun _ => 0⟩
  vpages _ := ⟨0, 0, []⟩
  iblockFreeList := (List.range xrIblockCount).reverse
  ptableFreeList := .ptable (xrIblockCount - 1)
  vpageFreeList := (List.range xrIblockCount).reverse
  iblockLruList := []
  iblockHashBuckets _ := []
  vpageHashBuckets _ := []

theorem initial_initialBlockCache : Initial initialBlockCache := by
  have hchain : ∀ n, Chain initialBlockCache.ptables
      (if n = 0 then .null else .ptable (n - 1)) (List.range n).reverse := by
    intro n
    induction n with
    | zero => exact .nil
    | succ n ih =>
        rw [List.range_succ, List.reverse_append, List.reverse_singleton, if_neg n.succ_ne_zero]
        have hlink : (initialBlockCache.ptables n).iblocks 0 =
            if n = 0 then .null else .ptable (n - 1) := by
          show (if 0 = 0 ∧ n ≠ 0 then XrPointer.ptable (n - 1) else .null) = _
          by_cases hn : n = 0
          · simp [hn]
          · simp [hn]
        rw [← hlink] at ih
        exact .cons ih
  have hhead : initialBlockCache.ptableFreeList =
      if xrIblockCount = 0 then .null else .ptable (xrIblockCount - 1) := rfl
  refine ⟨?_, ?_, ?_, rfl, fun _ => rfl, fun _ => rfl, fun _ => rfl⟩
  · rw [initialBlockCache]
  · rw [hhead]
    generalize xrIblockCount = n
    exact hchain n
  · rw [initialBlockCache]

/-! ## A run -/

/-- A block of these words is decoded, under the address space 0. -/
def afterDecode (c : XrIblockCache) (hazard : Option Nat) (pc : Word) (words : List Word) :
    XrIblockCache :=
  ((c.decodeFetched hazard pc 0 ⟨words, 0⟩ false).map (·.2)).getD c

theorem Reach.afterDecode (h : Reach c) (hazard : Option Nat) (pc : Word) (words : List Word)
    (miss : c.xrLookupIblock pc 0 = none) : Reach (c.afterDecode hazard pc words) := by
  obtain ⟨i, c', hrun, -⟩ := decodeFetched_ok (inv_reach h) hazard ⟨words, 0⟩ false miss
  unfold XrIblockCache.afterDecode
  rw [hrun]
  exact .decode hazard pc 0 ⟨words, 0⟩ false i h miss hrun

/-- The block is given a prediction table. -/
def afterTable (c : XrIblockCache) (i : Nat) : XrIblockCache := (c.givePtable i).getD c

theorem Reach.afterTable (h : Reach c) (active : c.Active i) (jalr : (c.iblocks i).Jalr)
    (null : (c.iblocks i).cachedPaths .true = .null) : Reach (c.afterTable i) := by
  obtain ⟨c', hrun⟩ := (inv_reach h).givePtable_ok active null
  unfold XrIblockCache.afterTable
  rw [hrun]
  exact .ptable i h active jalr null hrun

/-- The page is invalidated. -/
def afterInvalidation (c : XrIblockCache) (vpn : Word) : XrIblockCache :=
  (c.xrInvalidateIblockCacheByVpn vpn).getD c

theorem Reach.afterInvalidation (h : Reach c) (vpn : Word) : Reach (c.afterInvalidation vpn) := by
  obtain ⟨c', hrun, -⟩ := xrInvalidateIblockCacheByVpn_ok (inv_reach h) vpn
  unfold XrIblockCache.afterInvalidation
  rw [hrun]
  exact .flushVpn vpn h hrun

/-- A block that ends in JALR and has a table, and one that jumps to it. -/
def twoBlocks : XrIblockCache :=
  ((initialBlockCache.afterDecode none 0x1000 [0x38]).afterDecode (some 2047) 0x2000
    [0x2006]).afterTable 2047

/-- The JALR has led to the other block, and the jump to the first one. -/
def linkedBlocks : XrIblockCache :=
  (twoBlocks.predict 2047 2046 (twoBlocks.iblocks 2046).pc).xrCreateCachedPointerToBlock 2047
    (.path 2046 .true)

/-- Then the page of the second block is invalidated, and its record decoded into again. -/
def recycledBlock : XrIblockCache :=
  (linkedBlocks.afterInvalidation 0x2000).afterDecode (some 2047) 0x3000 [0x2006]

instance (c : XrIblockCache) (i : Nat) : Decidable (c.Active i) :=
  inferInstanceAs (Decidable (i ∈ c.iblockLruList))

instance (b : XrIblock) : Decidable b.Jalr :=
  inferInstanceAs (Decidable (b.code.last.func.kind = .jalr))

theorem twoBlocks_reach : Reach twoBlocks := by
  have hstart : Reach initialBlockCache := .start initial_initialBlockCache
  have hdecoded := (hstart.afterDecode none 0x1000 [0x38] (by decide +kernel)).afterDecode
    (some 2047) 0x2000 [0x2006] (by decide +kernel)
  exact hdecoded.afterTable (by decide +kernel) (by decide +kernel) (by decide +kernel)

theorem linkedBlocks_reach : Reach linkedBlocks := by
  have hpredicted := Reach.predict 2047 2046 2047 twoBlocks_reach (by decide +kernel)
    (by decide +kernel) (by decide +kernel) (by decide +kernel)
  exact .link 2046 2047 .true hpredicted (by decide +kernel) (by decide +kernel)
    (by decide +kernel) (by decide +kernel)

theorem recycledBlock_reach : Reach recycledBlock :=
  (linkedBlocks_reach.afterInvalidation 0x2000).afterDecode (some 2047) 0x3000 [0x2006]
    (by decide +kernel)

set_option maxRecDepth 20000 in
/-- The JALR block points to the other one, and this one to it; when the record of the other
one has become another block, the prediction is null. -/
theorem block_cache_invariant_recycled :
    ((linkedBlocks.ptables 2047).iblocks 0 = .iblock 2046 ∧
      (linkedBlocks.iblocks 2046).cachedPaths .true = .iblock 2047 ∧
      linkedBlocks.PointersRight) ∧
    ((recycledBlock.iblocks 2046).pc = 0x3000 ∧
      (recycledBlock.ptables 2047).iblocks 0 = .null ∧
      recycledBlock.PointersRight) := by
  have hlinked := (block_cache_invariant linkedBlocks_reach).2.2.2.2.1
  have hrecycled := (block_cache_invariant recycledBlock_reach).2.2.2.2.1
  refine ⟨⟨?_, ?_, hlinked⟩, ?_, ?_, hrecycled⟩
  · decide +kernel
  · decide +kernel
  · decide +kernel
  · decide +kernel

end XrIblockCache

end Xremu
