import Xremu.Interp.BlockTables

/-!
# Pointers between blocks

A slot in use that holds a block holds one in use, at the program counter the slot is
for, and the block knows the slot: that is what lets a block be freed. A block knows at
most four slots; the fifth pointer to it costs it the oldest.
-/

namespace Xremu

open Lists

namespace XrIblockCache

/-- Slots that are looked at: of blocks in use, and of their prediction tables. -/
def Live (c : XrIblockCache) : XrSlot → Prop
  | .path i _ => c.Active i
  | .table t k => k < 8 ∧ c.Owned t

/-- The program counter a slot is for. -/
def standsFor (c : XrIblockCache) : XrSlot → Word
  | .path i path => (c.iblocks i).leadsTo path
  | .table t k => (c.ptables t).pcs k

/-- What is right about slot `s` holding block `j`. -/
structure PointsTo (c : XrIblockCache) (s : XrSlot) (j : Nat) : Prop where
  active : c.Active j
  known : ∃ k, k < 4 ∧ (c.iblocks j).cachedBy k = some s
  pc : (c.iblocks j).pc = c.standsFor s

def PointersOk (c : XrIblockCache) : Prop :=
  ∀ s j, c.Live s → c.slot s = .iblock j → c.PointsTo s j

/-- The invariant of the block cache. -/
structure Inv (c : XrIblockCache) : Prop extends IblocksOk c where
  pointers : PointersOk c

/-- Every pointer of `c'` was there in `c`. -/
def PointersCome (c c' : XrIblockCache) : Prop :=
  ∀ s j, c'.Live s → c'.slot s = .iblock j → c.Live s ∧ c.slot s = .iblock j

section

variable {c c' c'' : XrIblockCache} {i j : Nat}

theorem PointersCome.refl (c : XrIblockCache) : PointersCome c c := fun _ _ hlive hs => ⟨hlive, hs⟩

theorem PointersCome.trans (h : PointersCome c c') (h' : PointersCome c' c'') :
    PointersCome c c'' := by
  intro s j hlive hs
  obtain ⟨hlive, hs⟩ := h' s j hlive hs
  exact h s j hlive hs

/-! ## Clearing slots -/

/-- Some slots that held block `i` are null now. -/
structure Clears (i : Nat) (c c' : XrIblockCache) : Prop where
  lru : c'.iblockLruList = c.iblockLruList
  hash : c'.iblockHashBuckets = c.iblockHashBuckets
  vpages : c'.vpages = c.vpages
  vpageHash : c'.vpageHashBuckets = c.vpageHashBuckets
  vpageFree : c'.vpageFreeList = c.vpageFreeList
  iblockFree : c'.iblockFreeList = c.iblockFreeList
  ptableFree : c'.ptableFreeList = c.ptableFreeList
  iblocks : ∀ j, c'.iblocks j = { c.iblocks j with cachedPaths := (c'.iblocks j).cachedPaths }
  pcs : ∀ t, (c'.ptables t).pcs = (c.ptables t).pcs
  slot : ∀ s, c'.slot s = c.slot s ∨ (c.slot s = .iblock i ∧ c'.slot s = .null)

theorem Clears.refl (c : XrIblockCache) : Clears i c c :=
  ⟨rfl, rfl, rfl, rfl, rfl, rfl, rfl, fun _ => rfl, fun _ => rfl, fun _ => .inl rfl⟩

theorem Clears.trans (h : Clears i c c') (h' : Clears i c' c'') : Clears i c c'' where
  lru := h'.lru.trans h.lru
  hash := h'.hash.trans h.hash
  vpages := h'.vpages.trans h.vpages
  vpageHash := h'.vpageHash.trans h.vpageHash
  vpageFree := h'.vpageFree.trans h.vpageFree
  iblockFree := h'.iblockFree.trans h.iblockFree
  ptableFree := h'.ptableFree.trans h.ptableFree
  iblocks j := by
    rw [h'.iblocks j, h.iblocks j]
  pcs t := (h'.pcs t).trans (h.pcs t)
  slot s := by
    rcases h'.slot s with hs' | ⟨hi, hnull⟩
    · rw [hs']
      exact h.slot s
    · rcases h.slot s with hs | ⟨_, hnull'⟩
      · exact .inr ⟨hs.symm.trans hi, hnull⟩
      · exact absurd (hi.symm.trans hnull') (by simp)

theorem Clears.pc (h : Clears i c c') (j : Nat) : (c'.iblocks j).pc = (c.iblocks j).pc := by
  rw [h.iblocks j]

theorem Clears.cachedBy (h : Clears i c c') (j : Nat) :
    (c'.iblocks j).cachedBy = (c.iblocks j).cachedBy := by
  rw [h.iblocks j]

theorem Clears.leadsTo (h : Clears i c c') (j : Nat) (path : XrPath) :
    (c'.iblocks j).leadsTo path = (c.iblocks j).leadsTo path := by
  rw [h.iblocks j]
  rfl

theorem Clears.keeps (h : Clears i c c') {s : XrSlot} (hs : c'.slot s = .iblock j) :
    c.slot s = .iblock j := by
  rcases h.slot s with heq | ⟨_, hnull⟩
  · rw [← heq]
    exact hs
  · exact absurd (hs.symm.trans hnull) (by simp)

theorem Clears.slotsOnly (h : Clears i c c') : SlotsOnly c c' where
  lists := ⟨h.lru, h.hash, h.vpages, h.vpageHash, h.vpageFree, h.pc,
    fun j => by rw [h.iblocks j], fun j => by rw [h.iblocks j]⟩
  iblockFree := h.iblockFree
  ptableFree := h.ptableFree
  hasPtable j := by rw [h.iblocks j]
  jalr j := by
    rw [h.iblocks j]
    exact Iff.rfl
  ptable s t := by
    rcases h.slot s with heq | ⟨hi, hnull⟩
    · rw [heq]
    · rw [hi, hnull]
      simp
  kept _ _ _ _ _ hs := h.keeps hs
  link t _ hne := by
    rcases h.slot (.table t 0) with heq | ⟨hi, _⟩
    · exact heq
    · exact absurd hi (hne i)

theorem Clears.live (h : Clears i c c') (s : XrSlot) : c'.Live s ↔ c.Live s := by
  cases s with
  | path j path => exact h.slotsOnly.lists.active j
  | table t k => exact and_congr_right fun _ => h.slotsOnly.owned t

theorem Clears.standsFor (h : Clears i c c') (s : XrSlot) : c'.standsFor s = c.standsFor s := by
  cases s with
  | path j path => exact h.leadsTo j path
  | table t k => exact congrFun (h.pcs t) k

theorem Clears.pointers (h : Clears i c c') : PointersCome c c' :=
  fun s _ hlive hs => ⟨(h.live s).mp hlive, h.keeps hs⟩

theorem PointersOk.of_clears (hp : PointersOk c) (h : Clears i c c') : PointersOk c' := by
  intro s j hlive hs
  obtain ⟨hactive, hknown, hpc⟩ := hp s j ((h.live s).mp hlive) (h.keeps hs)
  refine ⟨(h.slotsOnly.lists.active j).mpr hactive, ?_, ?_⟩
  · rw [h.cachedBy]
    exact hknown
  · rw [h.pc, h.standsFor]
    exact hpc

theorem clears_clearSlot (c : XrIblockCache) (i : Nat) (s : Option XrSlot) :
    Clears i c (c.clearSlot i s) ∧
      ∀ slot, s = some slot → (c.clearSlot i s).slot slot ≠ .iblock i := by
  cases s with
  | none =>
      refine ⟨.refl c, ?_⟩
      intro slot h
      cases h
  | some slot =>
      unfold clearSlot
      by_cases hs : c.slot slot = .iblock i
      · simp only [if_pos hs]
        refine ⟨⟨?_, ?_, ?_, ?_, ?_, ?_, ?_, iblocks_setSlot c slot .null, pcs_setSlot c slot .null,
          fun s => ?_⟩, ?_⟩
        all_goals try (cases slot <;> rfl)
        · rw [slot_setSlot]
          by_cases heq : s = slot
          · subst heq
            rw [if_pos rfl]
            exact .inr ⟨hs, rfl⟩
          · rw [if_neg heq]
            exact .inl rfl
        · rintro _ ⟨⟩
          rw [slot_setSlot, if_pos rfl]
          intro heq
          cases heq
      · simp only [if_neg hs]
        refine ⟨.refl c, ?_⟩
        rintro _ ⟨⟩
        exact hs

theorem clears_invalidate (c : XrIblockCache) (i : Nat) :
    Clears i c (c.xrInvalidateIblockPointers i) ∧
      ∀ k s, k < 4 → (c.iblocks i).cachedBy k = some s →
        (c.xrInvalidateIblockPointers i).slot s ≠ .iblock i := by
  have hfold : ∀ (ks : List Nat) (c : XrIblockCache),
      Clears i c (ks.foldl (fun c k => c.clearSlot i ((c.iblocks i).cachedBy k)) c) ∧
      ∀ k s, k ∈ ks → (c.iblocks i).cachedBy k = some s →
        (ks.foldl (fun c k => c.clearSlot i ((c.iblocks i).cachedBy k)) c).slot s ≠ .iblock i := by
    intro ks
    induction ks with
    | nil =>
        intro c
        refine ⟨.refl c, ?_⟩
        intro k s hk
        cases hk
    | cons k ks ih =>
        intro c
        obtain ⟨hclear, hgone⟩ := clears_clearSlot c i ((c.iblocks i).cachedBy k)
        obtain ⟨hclears, hall⟩ := ih (c.clearSlot i ((c.iblocks i).cachedBy k))
        refine ⟨hclear.trans hclears, ?_⟩
        intro l s hl hs heq
        rcases List.mem_cons.mp hl with rfl | hl
        · exact hgone s hs (hclears.keeps heq)
        · refine hall l s hl ?_ heq
          rw [hclear.cachedBy]
          exact hs
  refine ⟨(hfold [0, 1, 2, 3] c).1, ?_⟩
  intro k s hk hs
  refine (hfold [0, 1, 2, 3] c).2 k s ?_ hs
  simp only [List.mem_cons, List.not_mem_nil, or_false]
  omega

/-- No slot in use still holds a block whose pointers were invalidated. -/
theorem PointersOk.invalidated (hp : PointersOk c) (i : Nat) {s : XrSlot}
    (hlive : (c.xrInvalidateIblockPointers i).Live s) :
    (c.xrInvalidateIblockPointers i).slot s ≠ .iblock i := by
  obtain ⟨hclear, hgone⟩ := clears_invalidate c i
  intro hs
  obtain ⟨_, ⟨k, hk, hknown⟩, _⟩ := hp s i ((hclear.live s).mp hlive) (hclear.keeps hs)
  exact hgone k s hk hknown hs

/-! ## Freeing blocks -/

/-- The slots that are left are what they were. -/
theorem Freed.keeps (h : Freed c i c') (hno : ∀ t, c'.Owned t → ¬c.Owns i t) {s : XrSlot}
    (hlive : c'.Live s) :
    c.Live s ∧ c'.slot s = c.slot s ∧ c'.standsFor s = c.standsFor s := by
  cases s with
  | path k path =>
      refine ⟨((h.active k).mp hlive).1, ?_, ?_⟩
      · show (c'.iblocks k).cachedPaths path = _
        rw [h.iblocks]
        rfl
      · show (c'.iblocks k).leadsTo path = _
        rw [h.iblocks]
        rfl
  | table t k =>
      have hsame := h.ptables t (hno t hlive.2)
      obtain ⟨l, hl, ho⟩ := hlive.2
      refine ⟨⟨hlive.1, l, ((h.active l).mp hl).1, (h.owns l t).mp ho⟩, ?_, ?_⟩
      · show (c'.ptables t).iblocks k = _
        rw [hsame]
        rfl
      · show (c'.ptables t).pcs k = _
        rw [hsame]
        rfl

theorem Freed.pointers (h : Freed c i c') (hno : ∀ t, c'.Owned t → ¬c.Owns i t) :
    PointersCome c c' := by
  intro s j hlive hs
  obtain ⟨hlive', hslot, _⟩ := h.keeps hno hlive
  exact ⟨hlive', hslot.symm.trans hs⟩

/-- A block no slot holds may be freed. -/
theorem PointersOk.freed (hp : PointersOk c) (h : Freed c i c')
    (hgone : ∀ s, c.Live s → c.slot s ≠ .iblock i)
    (hno : ∀ t, c'.Owned t → ¬c.Owns i t) : PointersOk c' := by
  intro s j hlive hs
  obtain ⟨hlive, hslot, hstands⟩ := h.keeps hno hlive
  rw [hslot] at hs
  obtain ⟨hactive, hknown, hpc⟩ := hp s j hlive hs
  refine ⟨(h.active j).mpr ⟨hactive, ?_⟩, ?_, ?_⟩
  · rintro rfl
    exact hgone s hlive hs
  · rw [h.iblocks]
    exact hknown
  · rw [h.iblocks, hstands]
    exact hpc

/-- What reclaiming these blocks leaves of the cache: only slots that pointed to one of
them are different. -/
structure Shrunk (c : XrIblockCache) (gone : Nat → Prop) (c' : XrIblockCache) : Prop where
  active : ∀ j, c'.Active j ↔ c.Active j ∧ ¬gone j
  iblock : ∀ j, c'.iblocks j = { c.iblocks j with cachedPaths := (c'.iblocks j).cachedPaths }
  ptable : ∀ j path t, c'.slot (.path j path) = .ptable t ↔ c.slot (.path j path) = .ptable t
  pointers : PointersCome c c'

theorem Shrunk.refl (c : XrIblockCache) : Shrunk c (fun _ => False) c :=
  ⟨fun _ => by simp, fun _ => rfl, fun _ _ _ => Iff.rfl, .refl c⟩

theorem Shrunk.congr {gone gone' : Nat → Prop} (h : Shrunk c gone c')
    (hgone : ∀ j, c.Active j → (gone' j ↔ gone j)) : Shrunk c gone' c' := by
  refine ⟨fun j => ?_, h.iblock, h.ptable, h.pointers⟩
  rw [h.active]
  exact and_congr_right fun hj => not_congr (hgone j hj).symm

theorem Shrunk.trans {gone gone' : Nat → Prop} (h : Shrunk c gone c') (h' : Shrunk c' gone' c'') :
    Shrunk c (fun j => gone j ∨ gone' j) c'' := by
  refine ⟨fun j => ?_, fun j => ?_, fun j path t => (h'.ptable j path t).trans (h.ptable j path t),
    h.pointers.trans h'.pointers⟩
  · rw [h'.active, h.active, not_or, and_assoc]
  · rw [h'.iblock j, h.iblock j]

/-- One block is reclaimed. -/
theorem reclaim_one (h : Inv c) (ha : c.Active i) :
    ∃ c', (c.xrInvalidateIblockPointers i).xrFreeIblock i = some c' ∧ Inv c' ∧
      Shrunk c (· = i) c' := by
  obtain ⟨hclear, _⟩ := clears_invalidate c i
  have hok := h.toIblocksOk.of_slots hclear.slotsOnly
  have ha' := (hclear.slotsOnly.lists.active i).mpr ha
  obtain ⟨c', hfree, hok', hfreed⟩ := xrFreeIblock_ok hok ha'
  have hno : ∀ t, c'.Owned t → ¬(c.xrInvalidateIblockPointers i).Owns i t := by
    rintro t ⟨j, hj, hjo⟩ hio
    obtain ⟨hj, hne⟩ := (hfreed.active j).mp hj
    exact hne (hok.tables.unique j i t hj ha' ((hfreed.owns j t).mp hjo) hio)
  refine ⟨c', hfree, ⟨hok', ?_⟩, fun j => ?_, fun j => ?_, fun j path t => ?_,
    hclear.pointers.trans (hfreed.pointers hno)⟩
  · exact (h.pointers.of_clears hclear).freed hfreed (fun s hs => h.pointers.invalidated i hs) hno
  · rw [hfreed.active, hclear.slotsOnly.lists.active]
  · rw [hfreed.iblocks]
    exact hclear.iblocks j
  · rw [← hclear.slotsOnly.ptable]
    unfold slot
    rw [hfreed.iblocks]

theorem reclaim_ok (hazard : Option Nat) (is : List Nat) (h : Inv c) (hnodup : is.Nodup)
    (hall : ∀ i ∈ is, c.Active i) :
    ∃ c', reclaim hazard c is = some c' ∧ Inv c' ∧
      Shrunk c (fun j => j ∈ is ∧ hazard ≠ some j) c' := by
  induction is generalizing c with
  | nil => exact ⟨c, rfl, h, (Shrunk.refl c).congr fun j _ => by simp⟩
  | cons i is ih =>
      obtain ⟨hnotin, hnodup⟩ := List.nodup_cons.mp hnodup
      by_cases hz : hazard = some i
      · obtain ⟨c', hrun, hinv, hshrunk⟩ :=
          ih h hnodup fun j hj => hall j (List.mem_cons_of_mem i hj)
        refine ⟨c', ?_, hinv, hshrunk.congr fun j _ => ?_⟩
        · rw [reclaim, if_pos hz]
          exact hrun
        · rw [List.mem_cons]
          constructor
          · rintro ⟨rfl | hj, hne⟩
            · exact absurd hz hne
            · exact ⟨hj, hne⟩
          · rintro ⟨hj, hne⟩
            exact ⟨.inr hj, hne⟩
      · obtain ⟨c₁, hfree, hinv₁, hshrunk₁⟩ := reclaim_one h (hall i List.mem_cons_self)
        have hall₁ : ∀ j ∈ is, c₁.Active j := by
          intro j hj
          refine (hshrunk₁.active j).mpr ⟨hall j (List.mem_cons_of_mem i hj), ?_⟩
          rintro rfl
          exact hnotin hj
        obtain ⟨c', hrun, hinv, hshrunk⟩ := ih hinv₁ hnodup hall₁
        refine ⟨c', ?_, hinv, (hshrunk₁.trans hshrunk).congr fun j _ => ?_⟩
        · rw [reclaim, if_neg hz, hfree]
          exact hrun
        · rw [List.mem_cons]
          constructor
          · rintro ⟨rfl | hj, hne⟩
            · exact .inl rfl
            · exact .inr ⟨hj, hne⟩
          · rintro (rfl | ⟨hj, hne⟩)
            · exact ⟨.inl rfl, hz⟩
            · exact ⟨.inr hj, hne⟩

theorem freeAll_ok (is : List Nat) (h : IblocksOk c) (hnodup : is.Nodup)
    (hall : ∀ i ∈ is, c.Active i) :
    ∃ c', freeAll c is = some c' ∧ IblocksOk c' ∧ ∀ j, c'.Active j ↔ c.Active j ∧ j ∉ is := by
  induction is generalizing c with
  | nil => exact ⟨c, rfl, h, fun j => by simp⟩
  | cons i is ih =>
      obtain ⟨hnotin, hnodup⟩ := List.nodup_cons.mp hnodup
      obtain ⟨c₁, hfree, hok₁, hfreed⟩ := xrFreeIblock_ok h (hall i List.mem_cons_self)
      have hall₁ : ∀ j ∈ is, c₁.Active j := by
        intro j hj
        refine (hfreed.active j).mpr ⟨hall j (List.mem_cons_of_mem i hj), ?_⟩
        rintro rfl
        exact hnotin hj
      obtain ⟨c', hrun, hok, hactive⟩ := ih hok₁ hnodup hall₁
      refine ⟨c', ?_, hok, fun j => ?_⟩
      · rw [freeAll, hfree]
        exact hrun
      · rw [hactive, hfreed.active, List.mem_cons, not_or, and_assoc]

/-- The whole cache is dropped; no pointer was cleared, and none is in use. -/
theorem xrInvalidateIblockCache_ok (h : Inv c) :
    ∃ c', c.xrInvalidateIblockCache = some c' ∧ Inv c' ∧ ∀ j, ¬c'.Active j := by
  obtain ⟨c', hrun, hok, hactive⟩ := freeAll_ok c.iblockLruList h.toIblocksOk h.indexed.lru
    fun i hi => hi
  have hnone : ∀ j, ¬c'.Active j := by
    intro j hj
    obtain ⟨ha, hnot⟩ := (hactive j).mp hj
    exact hnot ha
  refine ⟨c', hrun, ⟨hok, ?_⟩, hnone⟩
  intro s j hlive _
  cases s with
  | path i path => exact absurd hlive (hnone i)
  | table t k =>
      obtain ⟨_, i, hi, _⟩ := hlive
      exact absurd hi (hnone i)

/-- The blocks of one page are dropped. -/
theorem xrInvalidateIblockCacheByVpn_ok (h : Inv c) (vpn : Word) :
    ∃ c', c.xrInvalidateIblockCacheByVpn vpn = some c' ∧ Inv c' ∧
      Shrunk c (fun j => pageOf (c.iblocks j).pc = vpn) c' := by
  unfold xrInvalidateIblockCacheByVpn
  cases hfind : c.findVpage vpn with
  | none =>
      refine ⟨c, rfl, h, (Shrunk.refl c).congr fun j hj => ?_⟩
      obtain ⟨hused, hvpn⟩ := h.indexed.page j hj
      rw [iff_false]
      exact fun heq => findVpage_none h.indexed hfind hused (hvpn.trans heq)
  | some v =>
      obtain ⟨hused, hvpn⟩ := findVpage_some h.indexed hfind
      have hpages := h.indexed.pages.mem v
      obtain ⟨c', hrun, hinv, hshrunk⟩ := reclaim_ok none (c.vpages v).iblockVpnList h
        (h.indexed.pages.nodup v) fun i hi => ((hpages i).mp hi).1
      refine ⟨c', hrun, hinv, hshrunk.congr fun j hj => ?_⟩
      obtain ⟨hjused, hjvpn⟩ := h.indexed.page j hj
      constructor
      · intro heq
        refine ⟨(hpages j).mpr ⟨hj, ?_⟩, by simp⟩
        exact h.indexed.vpns _ _ hjused hused ((hjvpn.trans heq).trans hvpn.symm)
      · rintro ⟨hmem, _⟩
        rw [← hjvpn, ((hpages j).mp hmem).2]
        exact hvpn

end

end XrIblockCache

end Xremu
