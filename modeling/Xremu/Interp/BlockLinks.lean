import Xremu.Interp.BlockPointers

/-!
# New pointers and prediction tables

A new pointer to a block, a new prediction table and a new prediction keep the invariant
of the block cache.
-/

namespace Xremu

open Lists

namespace XrIblockCache

variable {c c' : XrIblockCache} {i j : Nat}

/-! ## A new pointer -/

/-- The pointers of the other slots are right. -/
def PointersBut (s₀ : XrSlot) (c : XrIblockCache) : Prop :=
  ∀ s j, s ≠ s₀ → c.Live s → c.slot s = .iblock j → c.PointsTo s j

/-- A pointer to block `j` was made in slot `s`. -/
structure Linked (c : XrIblockCache) (j : Nat) (s : XrSlot) (c' : XrIblockCache) : Prop where
  lists : SameLists c c'
  iblockFree : c'.iblockFreeList = c.iblockFreeList
  ptableFree : c'.ptableFreeList = c.ptableFreeList
  iblock : ∀ i, c'.iblocks i = { c.iblocks i with
    cachedPaths := (c'.iblocks i).cachedPaths
    cachedBy := (c'.iblocks i).cachedBy
    cachedByFifoIndex := (c'.iblocks i).cachedByFifoIndex }
  cachedBy_ne : ∀ i, i ≠ j → (c'.iblocks i).cachedBy = (c.iblocks i).cachedBy
  pcs : ∀ t, (c'.ptables t).pcs = (c.ptables t).pcs
  slot_self : c'.slot s = .iblock j
  slot : ∀ s', s' ≠ s → c'.slot s' = c.slot s' ∨ (c.slot s' = .iblock j ∧ c'.slot s' = .null)
  known_self : ∃ k, k < 4 ∧ (c'.iblocks j).cachedBy k = some s
  known : ∀ s' k, s' ≠ s → k < 4 → (c.iblocks j).cachedBy k = some s' →
    c'.slot s' = .iblock j → (c'.iblocks j).cachedBy k = some s'

/-- Changing what a block knows of slots that point to it. -/
theorem slot_setIblock (c : XrIblockCache) (j : Nat) (b : XrIblock)
    (h : b.cachedPaths = (c.iblocks j).cachedPaths) (s : XrSlot) :
    (c.setIblock j b).slot s = c.slot s := by
  cases s with
  | path i path =>
      show (Function.update c.iblocks j b i).cachedPaths path = (c.iblocks i).cachedPaths path
      by_cases hi : i = j
      · subst hi
        rw [Function.update_self, h]
      · rw [Function.update_of_ne hi]
  | table t k => rfl

theorem sameLists_setIblock (c : XrIblockCache) (j : Nat) (b : XrIblock)
    (hpc : b.pc = (c.iblocks j).pc) (hasid : b.asid = (c.iblocks j).asid)
    (hvpage : b.vpage = (c.iblocks j).vpage) : SameLists c (c.setIblock j b) := by
  refine ⟨rfl, rfl, rfl, rfl, rfl, fun i => ?_, fun i => ?_, fun i => ?_⟩
  all_goals
    by_cases hi : i = j
    · subst hi
      simp [setIblock, hpc, hasid, hvpage]
    · simp [setIblock, hi]

theorem sameLists_setSlot (c : XrIblockCache) (s : XrSlot) (p : XrPointer) :
    SameLists c (c.setSlot s p) := by
  refine ⟨?_, ?_, ?_, ?_, ?_, fun i => ?_, fun i => ?_, fun i => ?_⟩
  · cases s <;> rfl
  · cases s <;> rfl
  · cases s <;> rfl
  · cases s <;> rfl
  · cases s <;> rfl
  · rw [iblocks_setSlot]
  · rw [iblocks_setSlot]
  · rw [iblocks_setSlot]

theorem linked_create (c : XrIblockCache) (j : Nat) (s : XrSlot) :
    Linked c j s (c.xrCreateCachedPointerToBlock j s) := by
  unfold xrCreateCachedPointerToBlock
  extract_lets b index c₁ c₂ b₂
  have hindex : index < 4 := Nat.mod_lt _ (by decide)
  have hlists₁ : SameLists c c₁ := sameLists_setIblock c j _ rfl rfl rfl
  obtain ⟨hclear, hgone⟩ := clears_clearSlot c₁ j (b.cachedBy index)
  have hlists₂ : SameLists c c₂ :=
    (hlists₁.trans hclear.slotsOnly.lists).trans (sameLists_setSlot _ s _)
  have hslot₁ : ∀ s', c₁.slot s' = c.slot s' := slot_setIblock c j _ rfl
  have hslot₂ : ∀ s', c₂.slot s' = if s' = s then .iblock j else
      (c₁.clearSlot j (b.cachedBy index)).slot s' := fun s' => slot_setSlot _ s s' _
  have hcachedBy₁ : ∀ i, (c₁.iblocks i).cachedBy = (c.iblocks i).cachedBy := by
    intro i
    by_cases hi : i = j
    · subst hi
      simp [c₁, setIblock, b]
    · simp [c₁, setIblock, hi]
  have hcachedBy₂ : ∀ i, (c₂.iblocks i).cachedBy = (c.iblocks i).cachedBy := by
    intro i
    show ((setSlot _ s _).iblocks i).cachedBy = _
    rw [iblocks_setSlot, hclear.cachedBy]
    exact hcachedBy₁ i
  have hlists : SameLists c₂ (c₂.setIblock j
      { b₂ with cachedBy := Function.update b₂.cachedBy index (some s) }) :=
    sameLists_setIblock c₂ j _ rfl rfl rfl
  have hslot : ∀ s', (c₂.setIblock j
      { b₂ with cachedBy := Function.update b₂.cachedBy index (some s) }).slot s' = c₂.slot s' :=
    slot_setIblock c₂ j _ rfl
  have hself : ((c₂.setIblock j
      { b₂ with cachedBy := Function.update b₂.cachedBy index (some s) }).iblocks j).cachedBy =
        Function.update b₂.cachedBy index (some s) := by
    simp [setIblock]
  constructor
  case lists => exact hlists₂.trans hlists
  case iblockFree =>
    show (setSlot _ s _).iblockFreeList = _
    cases s with
    | path i path => exact hclear.iblockFree
    | table t k => exact hclear.iblockFree
  case ptableFree =>
    show (setSlot _ s _).ptableFreeList = _
    cases s with
    | path i path => exact hclear.ptableFree
    | table t k => exact hclear.ptableFree
  case iblock =>
    have hpre : ∀ i, c₂.iblocks i = { c.iblocks i with
        cachedPaths := (c₂.iblocks i).cachedPaths
        cachedBy := (c₂.iblocks i).cachedBy
        cachedByFifoIndex := (c₂.iblocks i).cachedByFifoIndex } := by
      intro i
      have h₂ : c₂.iblocks i = { c₁.iblocks i with cachedPaths := (c₂.iblocks i).cachedPaths } := by
        have hset := iblocks_setSlot (c₁.clearSlot j (b.cachedBy index)) s (.iblock j) i
        rw [hclear.iblocks i] at hset
        exact hset
      have h₁ : c₁.iblocks i = { c.iblocks i with
          cachedByFifoIndex := (c₁.iblocks i).cachedByFifoIndex } := by
        by_cases hi : i = j
        · subst hi
          simp [c₁, setIblock, b]
        · simp [c₁, setIblock, hi]
      rw [h₂, h₁]
    intro i
    by_cases hi : i = j
    · subst hi
      have hb : b₂ = { c.iblocks i with
          cachedPaths := b₂.cachedPaths
          cachedBy := b₂.cachedBy
          cachedByFifoIndex := b₂.cachedByFifoIndex } := hpre i
      simp only [setIblock, Function.update_self]
      rw [hb]
    · simp only [setIblock, Function.update_of_ne hi]
      exact hpre i
  case cachedBy_ne =>
    intro i hi
    simp only [setIblock, Function.update_of_ne hi]
    exact hcachedBy₂ i
  case pcs =>
    intro t
    show ((setSlot _ s _).ptables t).pcs = _
    rw [pcs_setSlot, hclear.pcs]
    rfl
  case slot_self => rw [hslot, hslot₂, if_pos rfl]
  case slot =>
    intro s' hne
    rw [hslot, hslot₂, if_neg hne]
    rcases hclear.slot s' with heq | ⟨hj, hnull⟩
    · left
      rw [heq, hslot₁]
    · right
      exact ⟨(hslot₁ s').symm.trans hj, hnull⟩
  case known_self =>
    refine ⟨index, hindex, ?_⟩
    rw [hself, Function.update_self]
  case known =>
    intro s' k hne hk hknown hs'
    rw [hself]
    -- The slot that was forgotten does not point to the block any more.
    have hki : k ≠ index := by
      rintro rfl
      rw [hslot, hslot₂, if_neg hne] at hs'
      exact hgone s' hknown hs'
    rw [Function.update_of_ne hki]
    exact (congrFun (hcachedBy₂ j) k).trans hknown

theorem Linked.slotsOnly {s : XrSlot} (h : Linked c j s c') (ht : TablesOk c) (hlive : c.Live s)
    (hjalr : ∀ i path, s = .path i path → ¬(c.iblocks i).Jalr) : SlotsOnly c c' := by
  have hold : ∀ t, c.slot s ≠ .ptable t := by
    intro t hs
    cases s with
    | path i path =>
        obtain ⟨_, hp⟩ := ht.plain i path t hlive hs
        exact hjalr i path rfl (ht.owner i hlive hp).1
    | table u k => exact ht.entries u k t hlive.2 hlive.1 hs
  constructor
  case lists => exact h.lists
  case iblockFree => exact h.iblockFree
  case ptableFree => exact h.ptableFree
  case hasPtable =>
    intro i
    rw [h.iblock i]
  case jalr =>
    intro i
    rw [h.iblock i]
    exact Iff.rfl
  case ptable =>
    intro s' t
    by_cases hs : s' = s
    · subst hs
      rw [h.slot_self]
      constructor
      · intro heq
        cases heq
      · intro heq
        exact absurd heq (hold t)
    · rcases h.slot s' hs with heq | ⟨hj, hnull⟩
      · rw [heq]
      · rw [hj, hnull]
        simp
  case kept =>
    intro i path k hi hj hs
    have hne : XrSlot.path i path ≠ s := by
      rintro rfl
      exact hjalr i path rfl hj
    rcases h.slot _ hne with heq | ⟨_, hnull⟩
    · rw [← heq]
      exact hs
    · exact absurd (hs.symm.trans hnull) (by simp)
  case link =>
    intro t hno hlink
    have hne : XrSlot.table t 0 ≠ s := by
      rintro rfl
      exact hno hlive.2
    rcases h.slot _ hne with heq | ⟨hj, _⟩
    · exact heq
    · exact absurd hj (hlink j)

/-- Every pointer of `c'` was there in `c`, but for the one to block `j` in slot `s`. -/
def PointersBesides (s : XrSlot) (j : Nat) (c c' : XrIblockCache) : Prop :=
  ∀ s' l, c'.Live s' → c'.slot s' = .iblock l →
    (s' = s ∧ l = j) ∨ (s' ≠ s ∧ c.Live s' ∧ c.slot s' = .iblock l)

theorem SlotsOnly.live (h : SlotsOnly c c') {s : XrSlot} (hlive : c'.Live s) : c.Live s := by
  cases s with
  | path i path => exact (h.lists.active i).mp hlive
  | table t k => exact ⟨hlive.1, (h.owned t).mp hlive.2⟩

theorem Linked.pointers {s : XrSlot} (h : Linked c j s c') (hslots : SlotsOnly c c') :
    PointersBesides s j c c' := by
  intro s' l hlive hs'
  by_cases hs : s' = s
  · subst hs
    exact .inl ⟨rfl, (XrPointer.iblock.inj (h.slot_self.symm.trans hs')).symm⟩
  · right
    rcases h.slot s' hs with heq | ⟨_, hnull⟩
    · exact ⟨hs, hslots.live hlive, heq.symm.trans hs'⟩
    · exact absurd (hs'.symm.trans hnull) (by simp)

/-- A pointer to a block in use may be made in a slot for its program counter. -/
theorem inv_link {s : XrSlot} (h : IblocksOk c) (hp : PointersBut s c) (hlive : c.Live s)
    (hj : c.Active j) (hpc : (c.iblocks j).pc = c.standsFor s)
    (hjalr : ∀ i path, s = .path i path → ¬(c.iblocks i).Jalr) :
    Inv (c.xrCreateCachedPointerToBlock j s) := by
  have hlinked := linked_create c j s
  generalize c.xrCreateCachedPointerToBlock j s = c' at hlinked
  have hslots := hlinked.slotsOnly h.tables hlive hjalr
  have hstands : ∀ s', c'.standsFor s' = c.standsFor s' := by
    intro s'
    cases s' with
    | path i path =>
        show (c'.iblocks i).leadsTo path = _
        rw [hlinked.iblock i]
        rfl
    | table t k => exact congrFun (hlinked.pcs t) k
  refine ⟨h.of_slots hslots, ?_⟩
  intro s' k hs' hslot
  by_cases hs : s' = s
  · subst hs
    have hkj : j = k := XrPointer.iblock.inj (hlinked.slot_self.symm.trans hslot)
    subst hkj
    refine ⟨(hslots.lists.active j).mpr hj, hlinked.known_self, ?_⟩
    rw [hstands, hlinked.lists.pc]
    exact hpc
  · obtain ⟨_, hlive', hold⟩ := (hlinked.pointers hslots s' k hs' hslot).resolve_left fun h => hs h.1
    obtain ⟨hactive, ⟨l, hl, hknown⟩, hpc'⟩ := hp s' k hs hlive' hold
    refine ⟨(hslots.lists.active k).mpr hactive, ⟨l, hl, ?_⟩, ?_⟩
    · by_cases hkj : k = j
      · subst hkj
        exact hlinked.known s' l hs hl hknown hslot
      · rw [hlinked.cachedBy_ne k hkj]
        exact hknown
    · rw [hstands, hlinked.lists.pc]
      exact hpc'

/-! ## Prediction tables -/

theorem slot_setPcs (c : XrIblockCache) (t : Nat) (pcs : Nat → Word) (s : XrSlot) :
    (c.setPtable t { c.ptables t with pcs := pcs }).slot s = c.slot s := by
  cases s with
  | path l path => rfl
  | table u l =>
      show (Function.update c.ptables t _ u).iblocks l = (c.ptables u).iblocks l
      by_cases hu : u = t
      · subst hu
        rw [Function.update_self]
      · rw [Function.update_of_ne hu]

theorem slotsOnly_setPcs (c : XrIblockCache) (t : Nat) (pcs : Nat → Word) :
    SlotsOnly c (c.setPtable t { c.ptables t with pcs := pcs }) := by
  have hslot := slot_setPcs c t pcs
  exact ⟨⟨rfl, rfl, rfl, rfl, rfl, fun _ => rfl, fun _ => rfl, fun _ => rfl⟩, rfl, rfl, fun _ => rfl,
    fun _ => Iff.rfl, fun s u => by rw [hslot], fun l path m _ _ hs => by rwa [hslot] at hs,
    fun u _ _ => hslot _⟩

theorem predict_pointers {t : Nat} (h : TablesOk c) (hi : c.Active i) (howns : c.Owns i t)
    (pc : Word) : PointersBesides (.table t (jalrIndex pc)) j c (c.predict t j pc) := by
  unfold predict
  extract_lets ptable k c₁
  have hslots : SlotsOnly c c₁ := slotsOnly_setPcs c t _
  have hk : k < 8 := by
    show ((_ : Word) &&& 7).toNat < 8
    rw [BitVec.toNat_and]
    exact Nat.lt_of_le_of_lt Nat.and_le_right (by decide)
  have hlinked := linked_create c₁ j (.table t k)
  have hjalr : ∀ i path, XrSlot.table t k = .path i path → ¬(c₁.iblocks i).Jalr := by
    intro l path heq
    cases heq
  have hlive : c₁.Live (.table t k) := ⟨hk, (hslots.owned t).mpr ⟨i, hi, howns⟩⟩
  intro s l hs hl
  rcases hlinked.pointers (hlinked.slotsOnly (h.of_slots hslots) hlive hjalr) s l hs hl with
    hnew | ⟨hne, hold, hheld⟩
  · exact .inl hnew
  · exact .inr ⟨hne, hslots.live hold, (slot_setPcs c t _ s).symm.trans hheld⟩

theorem inv_predict {t : Nat} (h : Inv c) (hi : c.Active i) (ht : c.slot (.path i .true) = .ptable t) (hj : c.Active j) :
    Inv (c.predict t j (c.iblocks j).pc) := by
  unfold predict
  extract_lets ptable k c₁
  have howns : c.Owns i t := ⟨(h.tables.plain i .true t hi ht).2, ht⟩
  -- Only the program counter of one entry has changed; its pointer is about to.
  have hslot : ∀ s, c₁.slot s = c.slot s := slot_setPcs c t _
  have hslots : SlotsOnly c c₁ := slotsOnly_setPcs c t _
  have hk : k < 8 := by
    show ((_ : Word) &&& 7).toNat < 8
    rw [BitVec.toNat_and]
    exact Nat.lt_of_le_of_lt Nat.and_le_right (by decide)
  refine inv_link (h.toIblocksOk.of_slots hslots) ?_ ⟨hk, (hslots.owned t).mpr ⟨i, hi, howns⟩⟩ hj ?_ ?_
  · intro s l hne hs hl
    rw [hslot] at hl
    obtain ⟨hactive, hknown, hpc⟩ := h.pointers s l (hslots.live hs) hl
    refine ⟨hactive, hknown, ?_⟩
    cases s with
    | path m path => exact hpc
    | table u m =>
        show (c.iblocks l).pc = (Function.update c.ptables t _ u).pcs m
        by_cases hu : u = t
        · subst hu
          have hm : m ≠ k := by
            rintro rfl
            exact hne rfl
          rw [Function.update_self]
          show _ = Function.update (c.ptables u).pcs k _ m
          rw [Function.update_of_ne hm]
          exact hpc
        · rw [Function.update_of_ne hu]
          exact hpc
  · show (c.iblocks j).pc = (Function.update c.ptables t _ t).pcs k
    rw [Function.update_self]
    show _ = Function.update ptable.pcs k _ k
    rw [Function.update_self]
  · intro l path heq
    cases heq

/-- A slot that holds a block is one that held it before. -/
theorem Given.keeps {t k : Nat} {s : XrSlot} (hok : IblocksOk c') (hj : (c.iblocks i).Jalr)
    (hg : Given c i t c') (hs : c'.Live s) (hslot : c'.slot s = .iblock k) :
    c.Live s ∧ c.slot s = .iblock k ∧ c'.standsFor s = c.standsFor s := by
  cases s with
  | path l path =>
      have hl := (hg.lists.active l).mp hs
      by_cases hli : l = i
      · subst hli
        refine absurd hslot (hok.tables.jalr l path k hs ?_)
        rw [hg.iblock]
        exact hj
      · have heq : c'.slot (.path l path) = c.slot (.path l path) := by
          show (c'.iblocks l).cachedPaths path = _
          rw [hg.iblock_ne l hli]
          rfl
        refine ⟨hl, heq.symm.trans hslot, ?_⟩
        show (c'.iblocks l).leadsTo path = _
        rw [hg.iblock_ne l hli]
        rfl
  | table u l =>
      have hu : u ≠ t := by
        rintro rfl
        have hnone : c'.slot (.table u l) = .null := hg.entries l hs.1
        rw [hnone] at hslot
        cases hslot
      have heq : c'.ptables u = c.ptables u := hg.ptables u hu
      obtain ⟨hl8, m, hm, hmo⟩ := hs
      have hmi : m ≠ i := by
        rintro rfl
        have hmt := hmo.2
        have htrue : c'.slot (.path m .true) = .ptable t := by
          show (c'.iblocks m).cachedPaths .true = _
          rw [hg.iblock]
          exact Function.update_self XrPath.true (XrPointer.ptable t) (c.iblocks m).cachedPaths
        exact hu (XrPointer.ptable.inj (hmt.symm.trans htrue))
      have howns : c.Owns m u := by
        obtain ⟨hmp, hms⟩ := hmo
        have hms' : (c'.iblocks m).cachedPaths .true = .ptable u := hms
        rw [hg.iblock_ne m hmi] at hmp hms'
        exact ⟨hmp, hms'⟩
      refine ⟨⟨hl8, m, (hg.lists.active m).mp hm, howns⟩, ?_, ?_⟩
      · have hslot' : (c'.ptables u).iblocks l = .iblock k := hslot
        rw [heq] at hslot'
        exact hslot'
      · show (c'.ptables u).pcs l = _
        rw [heq]
        rfl

theorem Given.pointers {t : Nat} (hok : IblocksOk c') (hj : (c.iblocks i).Jalr)
    (hg : Given c i t c') : PointersCome c c' := by
  intro s k hs hslot
  obtain ⟨hlive, hold, _⟩ := hg.keeps hok hj hs hslot
  exact ⟨hlive, hold⟩

theorem inv_given {t : Nat} (h : Inv c) (hi : c.Active i) (hj : (c.iblocks i).Jalr)
    (hnull : c.slot (.path i .true) = .null) (hg : Given c i t c') : Inv c' := by
  have hok := h.toIblocksOk.given hi hj hnull hg
  refine ⟨hok, ?_⟩
  intro s k hs hslot
  obtain ⟨hlive, hslot, hstands⟩ := hg.keeps hok hj hs hslot
  obtain ⟨hactive, hknown, hpc⟩ := h.pointers s k hlive hslot
  refine ⟨(hg.lists.active k).mpr hactive, ?_, ?_⟩
  · by_cases hki : k = i
    · subst hki
      rw [hg.iblock]
      exact hknown
    · rw [hg.iblock_ne k hki]
      exact hknown
  · rw [hg.lists.pc, hstands]
    exact hpc

end XrIblockCache

end Xremu
