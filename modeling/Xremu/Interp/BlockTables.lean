import Xremu.Interp.BlockIndex

/-!
# Prediction tables and the slots of blocks

A block that ends in JALR has its prediction table in its first slot once JALR has been
executed; every other slot in use is null or points to a block. Tables that no block in
use owns are on the free list, which runs through their first slots: an operation on
slots must not mistake such a link for a slot (`TablesOk`).
-/

namespace Xremu

open Lists

namespace XrIblockCache

/-- The prediction table of block `i`. -/
def Owns (c : XrIblockCache) (i t : Nat) : Prop :=
  (c.iblocks i).hasPtable = true ∧ c.slot (.path i .true) = .ptable t

/-- Some block in use has this table. -/
def Owned (c : XrIblockCache) (t : Nat) : Prop := ∃ i, c.Active i ∧ c.Owns i t

structure TablesOk (c : XrIblockCache) : Prop where
  owner : ∀ i, c.Active i → (c.iblocks i).hasPtable = true →
    (c.iblocks i).Jalr ∧ ∃ t, c.slot (.path i .true) = .ptable t
  plain : ∀ i path t, c.Active i → c.slot (.path i path) = .ptable t →
    path = .true ∧ (c.iblocks i).hasPtable = true
  jalr : ∀ i path j, c.Active i → (c.iblocks i).Jalr → c.slot (.path i path) ≠ .iblock j
  unique : ∀ i j t, c.Active i → c.Active j → c.Owns i t → c.Owns j t → i = j
  entries : ∀ t k u, c.Owned t → k < 8 → c.slot (.table t k) ≠ .ptable u
  free : ∃ free, Chain c.ptables c.ptableFreeList free ∧ Pool xrIblockRecords free c.Owned

/-! ## Slots -/

theorem slot_setSlot (c : XrIblockCache) (s s' : XrSlot) (p : XrPointer) :
    (c.setSlot s p).slot s' = if s' = s then p else c.slot s' := by
  cases s with
  | path i path =>
      cases s' with
      | table t k => rfl
      | path j path' =>
          by_cases hj : j = i
          · subst hj
            by_cases hp : path' = path
            · subst hp
              simp [setSlot, slot, setIblock]
            · simp [setSlot, slot, setIblock, hp]
          · simp [setSlot, slot, setIblock, hj]
  | table t k =>
      cases s' with
      | path i path => rfl
      | table u l =>
          by_cases hu : u = t
          · subst hu
            by_cases hl : l = k
            · subst hl
              simp [setSlot, slot, setPtable]
            · simp [setSlot, slot, setPtable, hl]
          · simp [setSlot, slot, setPtable, hu]

/-- Writing a slot leaves the rest of its block alone. -/
theorem iblocks_setSlot (c : XrIblockCache) (s : XrSlot) (p : XrPointer) (j : Nat) :
    (c.setSlot s p).iblocks j =
      { c.iblocks j with cachedPaths := ((c.setSlot s p).iblocks j).cachedPaths } := by
  cases s with
  | path i path =>
      by_cases hj : j = i
      · subst hj
        simp [setSlot, setIblock]
      · simp [setSlot, setIblock, hj]
  | table t k => rfl

theorem pcs_setSlot (c : XrIblockCache) (s : XrSlot) (p : XrPointer) (t : Nat) :
    ((c.setSlot s p).ptables t).pcs = (c.ptables t).pcs := by
  cases s with
  | path i path => rfl
  | table u k =>
      by_cases ht : t = u
      · subst ht
        simp [setSlot, setPtable]
      · simp [setSlot, setPtable, ht]

/-! ## Operations on slots -/

section

variable {c c' c'' : XrIblockCache} {i j : Nat}

/-- Only slots, prediction tables' program counters and what blocks know of slots that
point to them have changed, and no slot became or ceased to be a table. -/
structure SlotsOnly (c c' : XrIblockCache) : Prop where
  lists : SameLists c c'
  iblockFree : c'.iblockFreeList = c.iblockFreeList
  ptableFree : c'.ptableFreeList = c.ptableFreeList
  hasPtable : ∀ i, (c'.iblocks i).hasPtable = (c.iblocks i).hasPtable
  jalr : ∀ i, (c'.iblocks i).Jalr ↔ (c.iblocks i).Jalr
  ptable : ∀ s t, c'.slot s = .ptable t ↔ c.slot s = .ptable t
  kept : ∀ i path k, c.Active i → (c.iblocks i).Jalr → c'.slot (.path i path) = .iblock k →
    c.slot (.path i path) = .iblock k
  link : ∀ t, ¬c.Owned t → (∀ k, c.slot (.table t 0) ≠ .iblock k) →
    c'.slot (.table t 0) = c.slot (.table t 0)

theorem SlotsOnly.owns (h : SlotsOnly c c') (i t : Nat) : c'.Owns i t ↔ c.Owns i t := by
  unfold Owns
  rw [h.hasPtable, h.ptable]

theorem SlotsOnly.owned (h : SlotsOnly c c') (t : Nat) : c'.Owned t ↔ c.Owned t := by
  unfold Owned
  simp only [h.lists.active, h.owns]

/-- The links of free tables are tables or null. -/
theorem Chain.link {ptables : Nat → XrJalrPredictionTable} {p : XrPointer} {free : List Nat}
    (h : Chain ptables p free) {t : Nat} (ht : t ∈ free) (k : Nat) :
    (ptables t).iblocks 0 ≠ .iblock k := by
  induction h with
  | nil => cases ht
  | @cons u us hrest ih =>
      rcases List.mem_cons.mp ht with rfl | ht
      · intro heq
        rw [heq] at hrest
        cases hrest
      · exact ih ht

theorem Chain.congr {ptables ptables' : Nat → XrJalrPredictionTable} {p : XrPointer}
    {free : List Nat} (h : Chain ptables p free)
    (heq : ∀ t ∈ free, (ptables' t).iblocks 0 = (ptables t).iblocks 0) : Chain ptables' p free := by
  induction h with
  | nil => exact .nil
  | @cons t ts hrest ih =>
      refine .cons ?_
      rw [heq t List.mem_cons_self]
      exact ih fun u hu => heq u (List.mem_cons_of_mem t hu)

theorem Chain.head {ptables : Nat → XrJalrPredictionTable} {p : XrPointer} {t : Nat}
    {free : List Nat} (h : Chain ptables p (t :: free)) :
    p = .ptable t ∧ Chain ptables ((ptables t).iblocks 0) free := by
  cases h with
  | cons hrest => exact ⟨rfl, hrest⟩

theorem TablesOk.of_slots (ht : TablesOk c) (h : SlotsOnly c c') : TablesOk c' where
  owner i ha hp := by
    rw [h.hasPtable] at hp
    obtain ⟨hj, t, hslot⟩ := ht.owner i ((h.lists.active i).mp ha) hp
    exact ⟨(h.jalr i).mpr hj, t, (h.ptable _ t).mpr hslot⟩
  plain i path t ha hslot := by
    rw [h.hasPtable]
    exact ht.plain i path t ((h.lists.active i).mp ha) ((h.ptable _ t).mp hslot)
  jalr i path k ha hj hslot := by
    have ha := (h.lists.active i).mp ha
    have hj := (h.jalr i).mp hj
    exact ht.jalr i path k ha hj (h.kept i path k ha hj hslot)
  unique i j t hi hj hio hjo :=
    ht.unique i j t ((h.lists.active i).mp hi) ((h.lists.active j).mp hj) ((h.owns i t).mp hio)
      ((h.owns j t).mp hjo)
  entries t k u ho hk hslot :=
    ht.entries t k u ((h.owned t).mp ho) hk ((h.ptable _ u).mp hslot)
  free := by
    obtain ⟨free, hchain, hpool⟩ := ht.free
    refine ⟨free, ?_, hpool.congr h.owned⟩
    rw [h.ptableFree]
    exact hchain.congr fun t hmem => h.link t (hpool.disjoint t hmem) (hchain.link hmem)

/-! ## Freeing a block -/

/-- Everything but the pointers between blocks. -/
structure IblocksOk (c : XrIblockCache) : Prop where
  pool : Pool xrIblockRecords c.iblockFreeList c.Active
  indexed : Indexed c
  tables : TablesOk c

theorem IblocksOk.of_slots (h : IblocksOk c) (hs : SlotsOnly c c') : IblocksOk c' where
  pool := by
    rw [hs.iblockFree]
    exact h.pool.congr hs.lists.active
  indexed := h.indexed.of_same hs.lists
  tables := h.tables.of_slots hs

/-- Block `i` was freed: it has left the lists, and its table is free. -/
structure Freed (c : XrIblockCache) (i : Nat) (c' : XrIblockCache) : Prop where
  active : ∀ j, c'.Active j ↔ c.Active j ∧ j ≠ i
  iblocks : c'.iblocks = c.iblocks
  ptables : ∀ t, ¬c.Owns i t → c'.ptables t = c.ptables t

theorem Freed.owns (h : Freed c i c') (j t : Nat) : c'.Owns j t ↔ c.Owns j t := by
  unfold Owns slot
  rw [h.iblocks]

/-- What a block's table being freed leaves of the tables. -/
theorem TablesOk.free_block (ht : TablesOk c) (ha : c.Active i) (h : Freed c i c')
    (hfree : ∃ free, Chain c'.ptables c'.ptableFreeList free ∧
      Pool xrIblockRecords free fun t => c.Owned t ∧ ¬c.Owns i t) : TablesOk c' := by
  have howned : ∀ t, c'.Owned t ↔ c.Owned t ∧ ¬c.Owns i t := by
    intro t
    constructor
    · rintro ⟨j, hj, ho⟩
      obtain ⟨hj, hne⟩ := (h.active j).mp hj
      have ho := (h.owns j t).mp ho
      exact ⟨⟨j, hj, ho⟩, fun hio => hne (ht.unique j i t hj ha ho hio)⟩
    · rintro ⟨⟨j, hj, ho⟩, hno⟩
      refine ⟨j, (h.active j).mpr ⟨hj, ?_⟩, (h.owns j t).mpr ho⟩
      rintro rfl
      exact hno ho
  have hslot : ∀ j path, c'.slot (.path j path) = c.slot (.path j path) := by
    intro j path
    unfold slot
    rw [h.iblocks]
  constructor
  case owner =>
    intro j hj hp
    rw [h.iblocks] at hp ⊢
    rw [hslot]
    exact ht.owner j ((h.active j).mp hj).1 hp
  case plain =>
    intro j path t hj hs
    rw [hslot] at hs
    rw [h.iblocks]
    exact ht.plain j path t ((h.active j).mp hj).1 hs
  case jalr =>
    intro j path k hj hjalr
    rw [h.iblocks] at hjalr
    rw [hslot]
    exact ht.jalr j path k ((h.active j).mp hj).1 hjalr
  case unique =>
    intro j k t hj hk hjo hko
    exact ht.unique j k t ((h.active j).mp hj).1 ((h.active k).mp hk).1 ((h.owns j t).mp hjo)
      ((h.owns k t).mp hko)
  case entries =>
    intro t k u ho hk
    obtain ⟨ho, hno⟩ := (howned t).mp ho
    have hsame : c'.slot (.table t k) = c.slot (.table t k) := by
      show (c'.ptables t).iblocks k = _
      rw [h.ptables t hno]
      rfl
    rw [hsame]
    exact ht.entries t k u ho hk
  case free =>
    obtain ⟨free, hchain, hpool⟩ := hfree
    exact ⟨free, hchain, hpool.congr howned⟩

theorem xrFreeIblock_ok (h : IblocksOk c) (ha : c.Active i) :
    ∃ c', c.xrFreeIblock i = some c' ∧ IblocksOk c' ∧ Freed c i c' := by
  have hleft := left_leaveVpage c i
  have hptables : ((c.unlinkIblock i).leaveVpage i).ptables = c.ptables ∧
      ((c.unlinkIblock i).leaveVpage i).ptableFreeList = c.ptableFreeList ∧
      ((c.unlinkIblock i).leaveVpage i).iblockFreeList = c.iblockFreeList := by
    unfold leaveVpage
    extract_lets v vpage hash c₁
    split
    · exact ⟨rfl, rfl, rfl⟩
    · exact ⟨rfl, rfl, rfl⟩
  generalize hc₁ : (c.unlinkIblock i).leaveVpage i = c₁ at hleft hptables
  obtain ⟨hpt, hpf, hif⟩ := hptables
  have hactive := hleft.active h.indexed
  have hindexed := h.indexed.leave ha hleft
  have hpool := (h.pool.give ha).congr hactive
  obtain ⟨free, hchain, hfree⟩ := h.tables.free
  unfold xrFreeIblock
  rw [hc₁]
  unfold dropPtable
  rw [hleft.iblocks]
  by_cases hp : (c.iblocks i).hasPtable = true
  · obtain ⟨-, t, ht⟩ := h.tables.owner i ha hp
    have ht' : (c.iblocks i).cachedPaths .true = .ptable t := ht
    have ho : c.Owns i t := ⟨hp, ht⟩
    let c₂ : XrIblockCache := { c₁.setSlot (.table t 0) c₁.ptableFreeList with
      ptableFreeList := .ptable t, iblockFreeList := i :: c₁.iblockFreeList }
    have hfreed : Freed c i c₂ := by
      refine ⟨hactive, hleft.iblocks, fun u hu => ?_⟩
      have hne : u ≠ t := by
        rintro rfl
        exact hu ho
      show Function.update c₁.ptables t _ u = c.ptables u
      rw [Function.update_of_ne hne, hpt]
    refine ⟨c₂, ?_, ⟨?_, ?_, ?_⟩, hfreed⟩
    · simp only [hp, if_true, ht', xrFreePtable, Option.bind_eq_bind, Option.bind_some]
      rfl
    · show Pool xrIblockRecords (i :: c₁.iblockFreeList) c₁.Active
      rw [hif]
      exact hpool
    · exact hindexed.of_same ⟨rfl, rfl, rfl, rfl, rfl, fun _ => rfl, fun _ => rfl, fun _ => rfl⟩
    · refine h.tables.free_block ha hfreed ⟨t :: free, .cons ?_, ?_⟩
      · -- The table is put before the chain; nothing of the chain was in use.
        have hhead : (c₂.ptables t).iblocks 0 = c.ptableFreeList := by
          show (Function.update c₁.ptables t _ t).iblocks 0 = _
          rw [Function.update_self]
          show Function.update (c₁.ptables t).iblocks 0 c₁.ptableFreeList 0 = _
          rw [Function.update_self, hpf]
        rw [hhead]
        refine hchain.congr fun u hu => ?_
        have hne : u ≠ t := by
          rintro rfl
          exact hfree.disjoint u hu ⟨i, ha, ho⟩
        show (Function.update c₁.ptables t _ u).iblocks 0 = _
        rw [Function.update_of_ne hne, hpt]
      · refine (hfree.give ⟨i, ha, ho⟩).congr fun u => ?_
        constructor
        · rintro ⟨hu, hno⟩
          refine ⟨hu, ?_⟩
          rintro rfl
          exact hno ho
        · rintro ⟨hu, hne⟩
          refine ⟨hu, fun hio => hne ?_⟩
          have heq := hio.2.symm.trans ht
          exact XrPointer.ptable.inj heq
  · let c₂ : XrIblockCache := { c₁ with iblockFreeList := i :: c₁.iblockFreeList }
    have hfreed : Freed c i c₂ :=
      ⟨hactive, hleft.iblocks, fun u _ => congrFun hpt u⟩
    refine ⟨c₂, ?_, ⟨?_, ?_, ?_⟩, hfreed⟩
    · simp only [hp]
      rfl
    · show Pool xrIblockRecords (i :: c₁.iblockFreeList) c₁.Active
      rw [hif]
      exact hpool
    · exact hindexed.of_same ⟨rfl, rfl, rfl, rfl, rfl, fun _ => rfl, fun _ => rfl, fun _ => rfl⟩
    · refine h.tables.free_block ha hfreed ⟨free, ?_, hfree.congr fun u => ?_⟩
      · show Chain c₁.ptables c₁.ptableFreeList free
        rw [hpt, hpf]
        exact hchain
      · constructor
        · exact And.left
        · exact fun hu => ⟨hu, fun hio => hp hio.1⟩

/-! ## Entering a block -/

section

variable {v : Nat} {b : XrIblock}

/-- The slots of a new block are null; the others are what they were. -/
theorem Entered.slot (h : Entered c i b v c') (hnull : ∀ path, b.cachedPaths path = .null)
    (s : XrSlot) : c'.slot s = .null ∨ c'.slot s = c.slot s := by
  cases s with
  | path j path =>
      by_cases hj : j = i
      · subst hj
        left
        show (c'.iblocks j).cachedPaths path = .null
        rw [h.iblock]
        exact hnull path
      · right
        show (c'.iblocks j).cachedPaths path = _
        rw [h.iblock_ne hj]
        rfl
  | table t k =>
      right
      show (c'.ptables t).iblocks k = _
      rw [h.ptables]
      rfl

theorem Entered.owns (h : Entered c i b v c') (hn : ¬c.Active i)
    (hnull : ∀ path, b.cachedPaths path = .null) (j t : Nat) :
    c'.Active j ∧ c'.Owns j t ↔ c.Active j ∧ c.Owns j t := by
  have hslot : ∀ k, c.Active k → c'.iblocks k = c.iblocks k := by
    intro k hk
    refine h.iblock_ne ?_
    rintro rfl
    exact hn hk
  constructor
  · rintro ⟨hj, hjp, hjs⟩
    rcases (h.active j).mp hj with hj | rfl
    · refine ⟨hj, ?_, ?_⟩
      · rw [← hslot j hj]
        exact hjp
      · show (c.iblocks j).cachedPaths .true = _
        rw [← hslot j hj]
        exact hjs
    · have hnone : c'.slot (.path j .true) = .null := by
        show (c'.iblocks j).cachedPaths .true = .null
        rw [h.iblock]
        exact hnull .true
      rw [hnone] at hjs
      cases hjs
  · rintro ⟨hj, hjp, hjs⟩
    refine ⟨(h.active j).mpr (.inl hj), ?_, ?_⟩
    · rw [hslot j hj]
      exact hjp
    · show (c'.iblocks j).cachedPaths .true = _
      rw [hslot j hj]
      exact hjs

theorem Entered.owned (h : Entered c i b v c') (hn : ¬c.Active i)
    (hnull : ∀ path, b.cachedPaths path = .null) (t : Nat) : c'.Owned t ↔ c.Owned t :=
  exists_congr fun j => h.owns hn hnull j t

theorem TablesOk.enter (ht : TablesOk c) (hn : ¬c.Active i) (h : Entered c i b v c')
    (hp : b.hasPtable = false) (hnull : ∀ path, b.cachedPaths path = .null) : TablesOk c' := by
  have hne : ∀ j, c.Active j → j ≠ i := by
    rintro j hj rfl
    exact hn hj
  have hslot : ∀ path, c'.slot (.path i path) = .null := by
    intro path
    show (c'.iblocks i).cachedPaths path = .null
    rw [h.iblock]
    exact hnull path
  have hslot_ne : ∀ j path, j ≠ i → c'.slot (.path j path) = c.slot (.path j path) := by
    intro j path hj
    show (c'.iblocks j).cachedPaths path = _
    rw [h.iblock_ne hj]
    rfl
  have htable : ∀ t k, c'.slot (.table t k) = c.slot (.table t k) := by
    intro t k
    show (c'.ptables t).iblocks k = _
    rw [h.ptables]
    rfl
  have howns : ∀ j t, c'.Active j → c'.Owns j t → c.Active j ∧ c.Owns j t :=
    fun j t hj ho => (h.owns hn hnull j t).mp ⟨hj, ho⟩
  have howned := h.owned hn hnull
  constructor
  case owner =>
    intro j hj hjp
    rcases (h.active j).mp hj with hj | rfl
    · rw [h.iblock_ne (hne j hj)] at hjp ⊢
      rw [hslot_ne j _ (hne j hj)]
      exact ht.owner j hj hjp
    · rw [h.iblock] at hjp
      exact absurd (hp.symm.trans hjp) (by decide)
  case plain =>
    intro j path t hj hs
    rcases (h.active j).mp hj with hj | rfl
    · rw [hslot_ne j _ (hne j hj)] at hs
      rw [h.iblock_ne (hne j hj)]
      exact ht.plain j path t hj hs
    · rw [hslot] at hs
      cases hs
  case jalr =>
    intro j path k hj hjalr hs
    rcases (h.active j).mp hj with hj | rfl
    · rw [hslot_ne j _ (hne j hj)] at hs
      rw [h.iblock_ne (hne j hj)] at hjalr
      exact ht.jalr j path k hj hjalr hs
    · rw [hslot] at hs
      cases hs
  case unique =>
    intro j k t hj hk hjo hko
    obtain ⟨hj, hjo⟩ := howns j t hj hjo
    obtain ⟨hk, hko⟩ := howns k t hk hko
    exact ht.unique j k t hj hk hjo hko
  case entries =>
    intro t k u ho hk
    rw [htable]
    exact ht.entries t k u ((howned t).mp ho) hk
  case free =>
    obtain ⟨free, hchain, hpool⟩ := ht.free
    refine ⟨free, ?_, hpool.congr howned⟩
    rw [h.ptables, h.ptableFree]
    exact hchain

end

/-! ## A new prediction table -/

/-- Block `i` has got table `t`. -/
structure Given (c : XrIblockCache) (i t : Nat) (c' : XrIblockCache) : Prop where
  lists : SameLists c c'
  iblockFree : c'.iblockFreeList = c.iblockFreeList
  iblock : c'.iblocks i =
    { c.iblocks i with
      cachedPaths := Function.update (c.iblocks i).cachedPaths .true (.ptable t)
      hasPtable := true }
  iblock_ne : ∀ j, j ≠ i → c'.iblocks j = c.iblocks j
  head : c.ptableFreeList = .ptable t
  rest : c'.ptableFreeList = (c.ptables t).iblocks 0
  entries : ∀ k, k < 8 → (c'.ptables t).iblocks k = .null
  pcs : ∀ u, (c'.ptables u).pcs = (c.ptables u).pcs
  ptables : ∀ u, u ≠ t → c'.ptables u = c.ptables u

theorem given_givePtable (h : c.givePtable i = some c') : ∃ t, Given c i t c' := by
  unfold givePtable xrAllocatePtable at h
  cases hp : c.ptableFreeList with
  | null =>
      rw [hp] at h
      cases h
  | iblock j =>
      rw [hp] at h
      cases h
  | ptable t =>
      rw [hp] at h
      cases h
      refine ⟨t, ⟨rfl, rfl, rfl, rfl, rfl, fun j => ?_, fun j => ?_, fun j => ?_⟩, rfl, ?_, ?_, hp, rfl, ?_,
        ?_, ?_⟩
      · by_cases hj : j = i
        · subst hj
          simp [setIblock, setPtable]
        · simp [setIblock, setPtable, hj]
      · by_cases hj : j = i
        · subst hj
          simp [setIblock, setPtable]
        · simp [setIblock, setPtable, hj]
      · by_cases hj : j = i
        · subst hj
          simp [setIblock, setPtable]
        · simp [setIblock, setPtable, hj]
      · simp [setIblock, setPtable]
      · intro j hj
        simp [setIblock, setPtable, hj]
      · intro k hk
        simp [setIblock, setPtable, hk]
      · intro u
        by_cases hu : u = t
        · subst hu
          simp [setIblock, setPtable]
        · simp [setIblock, setPtable, hu]
      · intro u hu
        simp [setIblock, setPtable, hu]

/-- A block without a table leaves a table over. -/
theorem exists_givePtable (h : IblocksOk c) (ha : c.Active i)
    (hp : (c.iblocks i).hasPtable = false) : ∃ c', c.givePtable i = some c' := by
  obtain ⟨free, hchain, hpool⟩ := h.tables.free
  -- Each table in use is named by its owner.
  have hne : free ≠ [] := by
    classical
    refine hpool.free_ne_nil (fun t => if ht : c.Owned t then ht.choose else 0)
      (xrIblockRecords.erase i) ?_ ?_ ?_
    · intro t ht
      rw [dif_pos ht]
      obtain ⟨hact, howns⟩ := ht.choose_spec
      refine Finset.mem_erase.mpr ⟨fun heq => ?_, h.pool.used_mem hact⟩
      rw [heq] at howns
      exact absurd (hp.symm.trans howns.1) (by decide)
    · intro t u ht hu heq
      rw [dif_pos ht, dif_pos hu] at heq
      have hto := ht.choose_spec.2.2
      have huo := hu.choose_spec.2.2
      rw [heq] at hto
      exact XrPointer.ptable.inj (hto.symm.trans huo)
    · rw [Finset.card_erase_of_mem (h.pool.used_mem ha)]
      exact Nat.sub_lt (Finset.card_pos.mpr ⟨i, h.pool.used_mem ha⟩) Nat.one_pos
  cases free with
  | nil => exact absurd rfl hne
  | cons t ts =>
      unfold givePtable xrAllocatePtable
      rw [hchain.head.1]
      exact ⟨_, rfl⟩

theorem IblocksOk.given {t : Nat} (h : IblocksOk c) (ha : c.Active i) (hj : (c.iblocks i).Jalr)
    (hnull : c.slot (.path i .true) = .null) (hg : Given c i t c') : IblocksOk c' := by
  have hp : (c.iblocks i).hasPtable ≠ true := by
    intro hp
    obtain ⟨_, u, hu⟩ := h.tables.owner i ha hp
    rw [hnull] at hu
    cases hu
  have hslot : c'.slot (.path i .true) = .ptable t := by
    show (c'.iblocks i).cachedPaths .true = _
    rw [hg.iblock]
    exact Function.update_self XrPath.true (XrPointer.ptable t) (c.iblocks i).cachedPaths
  have hslot_ne : ∀ j path, (j ≠ i ∨ path ≠ .true) →
      c'.slot (.path j path) = c.slot (.path j path) := by
    intro j path hne
    show (c'.iblocks j).cachedPaths path = _
    by_cases hji : j = i
    · subst hji
      rw [hg.iblock]
      have hpath : path ≠ .true := hne.resolve_left fun hne => hne rfl
      exact Function.update_of_ne hpath (XrPointer.ptable t) (c.iblocks j).cachedPaths
    · rw [hg.iblock_ne j hji]
      rfl
  have htable : ∀ u k, u ≠ t → c'.slot (.table u k) = c.slot (.table u k) := by
    intro u k hu
    show (c'.ptables u).iblocks k = _
    rw [hg.ptables u hu]
    rfl
  obtain ⟨free, hchain, hpool⟩ := h.tables.free
  have hhead : ∃ rest, free = t :: rest := by
    cases free with
    | nil =>
        have hhead := hg.head
        generalize c.ptableFreeList = p at hchain hhead
        cases hchain
        cases hhead
    | cons u rest =>
        have heq := hg.head.symm.trans hchain.head.1
        exact ⟨rest, by rw [XrPointer.ptable.inj heq]⟩
  obtain ⟨rest, rfl⟩ := hhead
  have hfresh : ¬c.Owned t := hpool.disjoint t List.mem_cons_self
  have howns_ne : ∀ j u, j ≠ i → (c'.Owns j u ↔ c.Owns j u) := by
    intro j u hji
    unfold Owns
    rw [hslot_ne j _ (.inl hji), hg.iblock_ne j hji]
  have howns : ∀ u, c'.Owns i u ↔ u = t := by
    intro u
    unfold Owns
    rw [hslot, hg.iblock]
    constructor
    · rintro ⟨-, heq⟩
      exact (XrPointer.ptable.inj heq).symm
    · rintro rfl
      exact ⟨rfl, rfl⟩
  have howned : ∀ u, c'.Owned u ↔ c.Owned u ∨ u = t := by
    intro u
    constructor
    · rintro ⟨j, hja, hjo⟩
      by_cases hji : j = i
      · subst hji
        exact .inr ((howns u).mp hjo)
      · exact .inl ⟨j, (hg.lists.active j).mp hja, (howns_ne j u hji).mp hjo⟩
    · rintro (⟨j, hja, hjo⟩ | rfl)
      · have hji : j ≠ i := by
          rintro rfl
          exact hp hjo.1
        exact ⟨j, (hg.lists.active j).mpr hja, (howns_ne j u hji).mpr hjo⟩
      · exact ⟨i, (hg.lists.active i).mpr ha, (howns u).mpr rfl⟩
  refine ⟨?_, h.indexed.of_same hg.lists, ?_⟩
  · rw [hg.iblockFree]
    exact h.pool.congr hg.lists.active
  constructor
  case owner =>
    intro j hja hjp
    have hja := (hg.lists.active j).mp hja
    by_cases hji : j = i
    · subst hji
      refine ⟨?_, t, hslot⟩
      rw [hg.iblock]
      exact hj
    · rw [hg.iblock_ne j hji] at hjp ⊢
      rw [hslot_ne j _ (.inl hji)]
      exact h.tables.owner j hja hjp
  case plain =>
    intro j path u hja hs
    have hja := (hg.lists.active j).mp hja
    by_cases hji : j = i
    · subst hji
      by_cases hpath : path = .true
      · subst hpath
        refine ⟨rfl, ?_⟩
        rw [hg.iblock]
      · rw [hslot_ne j path (.inr hpath)] at hs
        exact absurd (h.tables.plain j path u hja hs).1 hpath
    · rw [hslot_ne j path (.inl hji)] at hs
      rw [hg.iblock_ne j hji]
      exact h.tables.plain j path u hja hs
  case jalr =>
    intro j path k hja hjalr hs
    have hja := (hg.lists.active j).mp hja
    by_cases hji : j = i
    · subst hji
      by_cases hpath : path = .true
      · subst hpath
        rw [hslot] at hs
        cases hs
      · rw [hslot_ne j path (.inr hpath)] at hs
        exact h.tables.jalr j path k hja hj hs
    · rw [hslot_ne j path (.inl hji)] at hs
      rw [hg.iblock_ne j hji] at hjalr
      exact h.tables.jalr j path k hja hjalr hs
  case unique =>
    intro j k u hja hka hjo hko
    have hja := (hg.lists.active j).mp hja
    have hka := (hg.lists.active k).mp hka
    by_cases hji : j = i
    · subst hji
      obtain rfl := (howns u).mp hjo
      by_cases hki : k = j
      · exact hki.symm
      · exact absurd ⟨k, hka, (howns_ne k u hki).mp hko⟩ hfresh
    · by_cases hki : k = i
      · subst hki
        obtain rfl := (howns u).mp hko
        exact absurd ⟨j, hja, (howns_ne j u hji).mp hjo⟩ hfresh
      · exact h.tables.unique j k u hja hka ((howns_ne j u hji).mp hjo) ((howns_ne k u hki).mp hko)
  case entries =>
    intro u k w hu hk
    by_cases hut : u = t
    · subst hut
      show (c'.ptables u).iblocks k ≠ _
      rw [hg.entries k hk]
      intro heq
      cases heq
    · rw [htable u k hut]
      exact h.tables.entries u k w (((howned u).mp hu).resolve_right hut) hk
  case free =>
    refine ⟨rest, ?_, hpool.take.congr howned⟩
    rw [hg.rest]
    refine hchain.head.2.congr fun u hu => ?_
    have hut : u ≠ t := by
      rintro rfl
      exact (List.nodup_cons.mp hpool.nodup).1 hu
    rw [hg.ptables u hut]

end

end XrIblockCache

end Xremu
