import Xremu.Interp.Blocks
import Xremu.Lists.Buckets

/-!
# The lists of the block cache

Blocks in use are those on the LRU list, pages in use those in a bucket. `Indexed` says
that every list holds exactly what it should; `xrFreeIblock` takes a block out of all of
them and `decodeFetched` enters one into all of them.
-/

namespace Xremu

open Lists

/-- The records of each kind. -/
def xrIblockRecords : Finset Nat := Finset.range xrIblockCount

namespace XrIblockCache

/-- Page tracker `v` is in use. -/
def VpageUsed (c : XrIblockCache) (v : Nat) : Prop := ∃ hash, v ∈ c.vpageHashBuckets hash

/-- Every list holds what it should. -/
structure Indexed (c : XrIblockCache) : Prop where
  lru : c.iblockLruList.Nodup
  hash : Buckets c.iblockHashBuckets c.Active fun i => xrIblockHash (c.iblocks i).pc
  unique : ∀ i j, c.Active i → c.Active j → (c.iblocks i).pc = (c.iblocks j).pc →
    (c.iblocks i).asid = (c.iblocks j).asid → i = j
  pages : Buckets (fun v => (c.vpages v).iblockVpnList) c.Active fun i => (c.iblocks i).vpage
  page : ∀ i, c.Active i → c.VpageUsed (c.iblocks i).vpage ∧
    (c.vpages (c.iblocks i).vpage).vpn = pageOf (c.iblocks i).pc
  vpages : Buckets c.vpageHashBuckets c.VpageUsed fun v => xrVpnBucketIndex (c.vpages v).vpn
  vpagePool : Pool xrIblockRecords c.vpageFreeList c.VpageUsed
  vpns : ∀ v w, c.VpageUsed v → c.VpageUsed w → (c.vpages v).vpn = (c.vpages w).vpn → v = w
  references : ∀ v, c.VpageUsed v →
    (c.vpages v).references = (c.vpages v).iblockVpnList.length ∧ 0 < (c.vpages v).references

/-- The two caches have the same lists of the same blocks. -/
structure SameLists (c c' : XrIblockCache) : Prop where
  lru : c'.iblockLruList = c.iblockLruList
  hash : c'.iblockHashBuckets = c.iblockHashBuckets
  vpages : c'.vpages = c.vpages
  vpageHash : c'.vpageHashBuckets = c.vpageHashBuckets
  vpageFree : c'.vpageFreeList = c.vpageFreeList
  pc : ∀ i, (c'.iblocks i).pc = (c.iblocks i).pc
  asid : ∀ i, (c'.iblocks i).asid = (c.iblocks i).asid
  vpage : ∀ i, (c'.iblocks i).vpage = (c.iblocks i).vpage

section

variable {c c' c'' : XrIblockCache}

theorem SameLists.refl (c : XrIblockCache) : SameLists c c :=
  ⟨rfl, rfl, rfl, rfl, rfl, fun _ => rfl, fun _ => rfl, fun _ => rfl⟩

theorem SameLists.trans (h : SameLists c c') (h' : SameLists c' c'') : SameLists c c'' where
  lru := h'.lru.trans h.lru
  hash := h'.hash.trans h.hash
  vpages := h'.vpages.trans h.vpages
  vpageHash := h'.vpageHash.trans h.vpageHash
  vpageFree := h'.vpageFree.trans h.vpageFree
  pc i := (h'.pc i).trans (h.pc i)
  asid i := (h'.asid i).trans (h.asid i)
  vpage i := (h'.vpage i).trans (h.vpage i)

theorem SameLists.active (h : SameLists c c') (i : Nat) : c'.Active i ↔ c.Active i := by
  unfold Active
  rw [h.lru]

theorem SameLists.vpageUsed (h : SameLists c c') (v : Nat) : c'.VpageUsed v ↔ c.VpageUsed v := by
  unfold VpageUsed
  rw [h.vpageHash]

theorem Indexed.of_same (hi : Indexed c) (h : SameLists c c') : Indexed c' where
  lru := by
    rw [h.lru]
    exact hi.lru
  hash := by
    rw [h.hash]
    exact hi.hash.congr h.active fun i _ => congrArg xrIblockHash (h.pc i)
  unique i j hai haj hpc hasid := by
    rw [h.pc, h.pc] at hpc
    rw [h.asid, h.asid] at hasid
    exact hi.unique i j ((h.active i).mp hai) ((h.active j).mp haj) hpc hasid
  pages := by
    rw [h.vpages]
    exact hi.pages.congr h.active fun i _ => h.vpage i
  page i ha := by
    rw [h.vpage, h.vpages, h.pc, h.vpageUsed]
    exact hi.page i ((h.active i).mp ha)
  vpages := by
    rw [h.vpageHash, h.vpages]
    exact hi.vpages.congr h.vpageUsed fun _ _ => rfl
  vpagePool := by
    rw [h.vpageFree]
    exact hi.vpagePool.congr h.vpageUsed
  vpns v w hv hw := by
    rw [h.vpages]
    exact hi.vpns v w ((h.vpageUsed v).mp hv) ((h.vpageUsed w).mp hw)
  references v hv := by
    rw [h.vpages]
    exact hi.references v ((h.vpageUsed v).mp hv)

/-! ## One page tracker is written -/

/-- The lists of all pages. -/
theorem lists_update (vpages : Nat → XrVirtualPage) (v : Nat) (vpage : XrVirtualPage) :
    (fun w => (Function.update vpages v vpage w).iblockVpnList) =
      Function.update (fun w => (vpages w).iblockVpnList) v vpage.iblockVpnList := by
  funext w
  by_cases hw : w = v
  · subst hw
    rw [Function.update_self, Function.update_self]
  · rw [Function.update_of_ne hw, Function.update_of_ne hw]

theorem vpn_update {vpages : Nat → XrVirtualPage} {v : Nat} {vpage : XrVirtualPage}
    (h : vpage.vpn = (vpages v).vpn) (w : Nat) :
    (Function.update vpages v vpage w).vpn = (vpages w).vpn := by
  by_cases hw : w = v
  · subst hw
    rw [Function.update_self, h]
  · rw [Function.update_of_ne hw]

/-! ## Taking a block out -/

/-- Block `i` has left the lists; with the last block its page goes. -/
structure Left (c : XrIblockCache) (i : Nat) (c' : XrIblockCache) : Prop where
  lru : c'.iblockLruList = c.iblockLruList.erase i
  hash : c'.iblockHashBuckets = Function.update c.iblockHashBuckets
    (xrIblockHash (c.iblocks i).pc)
    ((c.iblockHashBuckets (xrIblockHash (c.iblocks i).pc)).erase i)
  iblocks : c'.iblocks = c.iblocks
  vpages : c'.vpages = Function.update c.vpages (c.iblocks i).vpage
    { c.vpages (c.iblocks i).vpage with
      iblockVpnList := (c.vpages (c.iblocks i).vpage).iblockVpnList.erase i
      references := (c.vpages (c.iblocks i).vpage).references - 1 }
  tracked :
    ((c.vpages (c.iblocks i).vpage).references - 1 = 0 ∧
      c'.vpageFreeList = (c.iblocks i).vpage :: c.vpageFreeList ∧
      c'.vpageHashBuckets = Function.update c.vpageHashBuckets
        (xrVpnBucketIndex (c.vpages (c.iblocks i).vpage).vpn)
        ((c.vpageHashBuckets (xrVpnBucketIndex (c.vpages (c.iblocks i).vpage).vpn)).erase
          (c.iblocks i).vpage)) ∨
    ((c.vpages (c.iblocks i).vpage).references - 1 ≠ 0 ∧
      c'.vpageFreeList = c.vpageFreeList ∧ c'.vpageHashBuckets = c.vpageHashBuckets)

theorem left_leaveVpage (c : XrIblockCache) (i : Nat) :
    Left c i ((c.unlinkIblock i).leaveVpage i) := by
  unfold leaveVpage
  extract_lets v vpage hash c₁
  split
  · next hlast => exact ⟨rfl, rfl, rfl, rfl, .inl ⟨hlast, rfl, rfl⟩⟩
  · next hmore => exact ⟨rfl, rfl, rfl, rfl, .inr ⟨hmore, rfl, rfl⟩⟩

section

variable {i : Nat}

theorem Left.active (h : Left c i c') (hi : Indexed c) (j : Nat) :
    c'.Active j ↔ c.Active j ∧ j ≠ i := by
  unfold Active
  rw [h.lru, hi.lru.mem_erase_iff]
  exact And.comm

/-- The pages still tracked. -/
theorem Left.vpageUsed (h : Left c i c') (hi : Indexed c) :
    Buckets c'.vpageHashBuckets
      (fun w => c.VpageUsed w ∧ ((c.vpages (c.iblocks i).vpage).references - 1 = 0 →
        w ≠ (c.iblocks i).vpage))
      fun w => xrVpnBucketIndex (c.vpages w).vpn := by
  rcases h.tracked with ⟨hlast, _, hbuckets⟩ | ⟨hmore, _, hbuckets⟩
  · rw [hbuckets]
    refine (hi.vpages.remove (c.iblocks i).vpage).congr (fun w => ?_) fun _ _ => rfl
    simp only [hlast, forall_const]
  · rw [hbuckets]
    refine hi.vpages.congr (fun w => ?_) fun _ _ => rfl
    simp only [hmore, false_implies, and_true]

/-- A page with another block stays. -/
theorem Indexed.page_stays (hi : Indexed c) (ha : c.Active i) {j : Nat} (hj : c.Active j)
    (hne : j ≠ i) (hv : (c.iblocks j).vpage = (c.iblocks i).vpage) :
    (c.vpages (c.iblocks i).vpage).references - 1 ≠ 0 := by
  have hmem : i ∈ (c.vpages (c.iblocks i).vpage).iblockVpnList := (hi.pages.mem _ i).mpr ⟨ha, rfl⟩
  have hmem' : j ∈ (c.vpages (c.iblocks i).vpage).iblockVpnList := (hi.pages.mem _ j).mpr ⟨hj, hv⟩
  have hin := ((hi.pages.nodup (c.iblocks i).vpage).mem_erase_iff).mpr ⟨hne, hmem'⟩
  have hpos := List.length_pos_of_mem hin
  rw [List.length_erase_of_mem hmem] at hpos
  rw [(hi.references _ (hi.page i ha).1).1]
  exact Nat.ne_of_gt hpos

theorem Indexed.leave (hi : Indexed c) (ha : c.Active i) (h : Left c i c') : Indexed c' := by
  have hactive := h.active hi
  have hbuckets := h.vpageUsed hi
  have hused : ∀ w, c'.VpageUsed w ↔ c.VpageUsed w ∧
      ((c.vpages (c.iblocks i).vpage).references - 1 = 0 → w ≠ (c.iblocks i).vpage) :=
    fun w => hbuckets.used_iff w
  have hvpn : ∀ w, (c'.vpages w).vpn = (c.vpages w).vpn := by
    intro w
    rw [h.vpages]
    refine vpn_update ?_ w
    rfl
  constructor
  case lru =>
    rw [h.lru]
    exact hi.lru.erase i
  case hash =>
    rw [h.hash, h.iblocks]
    exact (hi.hash.remove i).congr hactive fun _ _ => rfl
  case unique =>
    intro j k hj hk hpc hasid
    rw [h.iblocks] at hpc hasid
    exact hi.unique j k ((hactive j).mp hj).1 ((hactive k).mp hk).1 hpc hasid
  case pages =>
    rw [h.vpages, h.iblocks, lists_update]
    exact (hi.pages.remove i).congr hactive fun _ _ => rfl
  case page =>
    intro j hj
    obtain ⟨hj, hne⟩ := (hactive j).mp hj
    obtain ⟨hu, hpage⟩ := hi.page j hj
    rw [h.iblocks, hvpn, hused]
    refine ⟨⟨hu, fun hlast hv => ?_⟩, hpage⟩
    exact hi.page_stays ha hj hne hv hlast
  case vpages => exact hbuckets.congr hused fun w _ => congrArg xrVpnBucketIndex (hvpn w)
  case vpagePool =>
    rcases h.tracked with ⟨hlast, hfree, _⟩ | ⟨hmore, hfree, _⟩
    · rw [hfree]
      refine (hi.vpagePool.give (hi.page i ha).1).congr fun w => ?_
      rw [hused]
      simp only [hlast, forall_const]
    · rw [hfree]
      refine hi.vpagePool.congr fun w => ?_
      rw [hused]
      simp only [hmore, false_implies, and_true]
  case vpns =>
    intro w x hw hx heq
    rw [hvpn, hvpn] at heq
    exact hi.vpns w x ((hused w).mp hw).1 ((hused x).mp hx).1 heq
  case references =>
    intro w hw
    obtain ⟨hu, hstays⟩ := (hused w).mp hw
    rw [h.vpages]
    by_cases hwv : w = (c.iblocks i).vpage
    · subst hwv
      have hmem : i ∈ (c.vpages (c.iblocks i).vpage).iblockVpnList :=
        (hi.pages.mem _ i).mpr ⟨ha, rfl⟩
      rw [Function.update_self, List.length_erase_of_mem hmem, ← (hi.references _ hu).1]
      refine ⟨rfl, Nat.pos_of_ne_zero fun hlast => hstays hlast rfl⟩
    · rw [Function.update_of_ne hwv]
      exact hi.references w hu

end

/-! ## Entering a block -/

/-- Block `i` is entered under `pc`; the page is tracked from now on by `v`. -/
structure Entered (c : XrIblockCache) (i : Nat) (b : XrIblock) (v : Nat) (c' : XrIblockCache) :
    Prop where
  lru : c'.iblockLruList = i :: c.iblockLruList
  hash : c'.iblockHashBuckets = Function.update c.iblockHashBuckets (xrIblockHash b.pc)
    (i :: c.iblockHashBuckets (xrIblockHash b.pc))
  iblocks : c'.iblocks = Function.update c.iblocks i { b with vpage := v }
  ptables : c'.ptables = c.ptables
  ptableFree : c'.ptableFreeList = c.ptableFreeList
  iblockFree : c'.iblockFreeList = c.iblockFreeList
  tracked :
    (c.findVpage (pageOf b.pc) = some v ∧ c'.vpageFreeList = c.vpageFreeList ∧
      c'.vpageHashBuckets = c.vpageHashBuckets ∧
      c'.vpages = Function.update c.vpages v
        ⟨pageOf b.pc, (c.vpages v).references + 1, i :: (c.vpages v).iblockVpnList⟩) ∨
    (c.findVpage (pageOf b.pc) = none ∧ c.vpageFreeList = v :: c'.vpageFreeList ∧
      c'.vpageHashBuckets = Function.update c.vpageHashBuckets
        (xrVpnBucketIndex (pageOf b.pc))
        (v :: c.vpageHashBuckets (xrVpnBucketIndex (pageOf b.pc))) ∧
      c'.vpages = Function.update c.vpages v
        ⟨pageOf b.pc, 1, i :: (c.vpages v).iblockVpnList⟩)

theorem entered_insert {i : Nat} {b : XrIblock}
    (h : ((c.setIblock i b).linkIblock i b.pc).xrInsertIblockInVpage i b.pc = some c') :
    ∃ v, Entered c i b v c' := by
  have hupdate : ∀ v, Function.update (Function.update c.iblocks i b) i
      { Function.update c.iblocks i b i with vpage := v } =
        Function.update c.iblocks i { b with vpage := v } := by
    intro v
    rw [Function.update_idem, Function.update_self]
  unfold xrInsertIblockInVpage at h
  extract_lets vpn hash at h
  have hfind : ((c.setIblock i b).linkIblock i b.pc).findVpage vpn = c.findVpage vpn := rfl
  rw [hfind] at h
  cases hf : c.findVpage vpn with
  | some v =>
      rw [hf] at h
      cases h
      exact ⟨v, rfl, rfl, hupdate v, rfl, rfl, rfl, .inl ⟨hf, rfl, rfl, rfl⟩⟩
  | none =>
      rw [hf] at h
      cases hfree : c.vpageFreeList with
      | nil =>
          simp only [xrAllocateVpage, linkIblock, setIblock, hfree] at h
          cases h
      | cons v rest =>
          simp only [xrAllocateVpage, linkIblock, setIblock, hfree] at h
          cases h
          exact ⟨v, rfl, rfl, hupdate v, rfl, rfl, rfl, .inr ⟨hf, hfree, rfl, rfl⟩⟩

theorem findVpage_some {vpn : Word} {v : Nat} (hi : Indexed c) (h : c.findVpage vpn = some v) :
    c.VpageUsed v ∧ (c.vpages v).vpn = vpn := by
  unfold findVpage at h
  refine ⟨(hi.vpages.used_iff v).mp ⟨_, List.mem_of_find?_eq_some h⟩, ?_⟩
  have hv := List.find?_some h
  exact beq_iff_eq.mp hv

theorem findVpage_none {vpn : Word} (hi : Indexed c) (h : c.findVpage vpn = none) {w : Nat}
    (hw : c.VpageUsed w) : (c.vpages w).vpn ≠ vpn := by
  intro hvpn
  unfold findVpage at h
  have hmem : w ∈ c.vpageHashBuckets (xrVpnBucketIndex vpn) :=
    (hi.vpages.mem _ w).mpr ⟨hw, congrArg xrVpnBucketIndex hvpn⟩
  exact List.find?_eq_none.mp h w hmem (beq_iff_eq.mpr hvpn)

/-- A page that is not tracked has no blocks. -/
theorem Indexed.untracked (hi : Indexed c) {v : Nat} (hv : ¬c.VpageUsed v) :
    (c.vpages v).iblockVpnList = [] := by
  rw [List.eq_nil_iff_forall_not_mem]
  intro j hj
  obtain ⟨ha, rfl⟩ := (hi.pages.mem v j).mp hj
  exact hv (hi.page j ha).1

section

variable {i v : Nat} {b : XrIblock}

theorem Entered.active (h : Entered c i b v c') (j : Nat) : c'.Active j ↔ c.Active j ∨ j = i := by
  unfold Active
  rw [h.lru, List.mem_cons]
  exact Or.comm

theorem Entered.iblock (h : Entered c i b v c') : c'.iblocks i = { b with vpage := v } := by
  rw [h.iblocks, Function.update_self]

theorem Entered.iblock_ne (h : Entered c i b v c') {j : Nat} (hj : j ≠ i) :
    c'.iblocks j = c.iblocks j := by
  rw [h.iblocks, Function.update_of_ne hj]

/-- The pages tracked now, and their page numbers. -/
theorem Entered.vpageUsed (h : Entered c i b v c') (hi : Indexed c) :
    Buckets c'.vpageHashBuckets (fun w => c.VpageUsed w ∨ w = v)
      (fun w => xrVpnBucketIndex (c'.vpages w).vpn) ∧
    (c'.vpages v).vpn = pageOf b.pc ∧ (∀ w, c.VpageUsed w → (c'.vpages w).vpn = (c.vpages w).vpn) := by
  rcases h.tracked with ⟨hfind, _, hbuckets, hvpages⟩ | ⟨hfind, hfree, hbuckets, hvpages⟩
  · obtain ⟨hused, hvpn⟩ := findVpage_some hi hfind
    have hsame : ∀ w, (c'.vpages w).vpn = (c.vpages w).vpn := by
      intro w
      rw [hvpages]
      exact vpn_update hvpn.symm w
    refine ⟨?_, (hsame v).trans hvpn, fun w _ => hsame w⟩
    rw [hbuckets]
    refine hi.vpages.congr (fun w => ?_) fun w _ => congrArg xrVpnBucketIndex (hsame w)
    constructor
    · rintro (hu | rfl)
      · exact hu
      · exact hused
    · exact .inl
  · have hunused : ¬c.VpageUsed v := by
      have hdisj := hi.vpagePool.disjoint
      rw [hfree] at hdisj
      exact hdisj v List.mem_cons_self
    have hv : (c'.vpages v).vpn = pageOf b.pc := by
      rw [hvpages, Function.update_self]
    have hsame : ∀ w, c.VpageUsed w → (c'.vpages w).vpn = (c.vpages w).vpn := by
      intro w hw
      have hne : w ≠ v := by
        rintro rfl
        exact hunused hw
      rw [hvpages, Function.update_of_ne hne]
    refine ⟨?_, hv, hsame⟩
    have hins := (hi.vpages.congr (fun _ => Iff.rfl)
      fun w hw => congrArg xrVpnBucketIndex (hsame w hw)).insert hunused
    rw [hv] at hins
    rw [hbuckets]
    exact hins

theorem Indexed.enter (hi : Indexed c) (hn : ¬c.Active i)
    (hnew : ∀ j, c.Active j → (c.iblocks j).pc = b.pc → (c.iblocks j).asid ≠ b.asid)
    (h : Entered c i b v c') : Indexed c' := by
  have hactive := h.active
  obtain ⟨hbuckets, hvpn, hvpns⟩ := h.vpageUsed hi
  have hused : ∀ w, c'.VpageUsed w ↔ c.VpageUsed w ∨ w = v := fun w => hbuckets.used_iff w
  have hne : ∀ j, c.Active j → j ≠ i := by
    rintro j hj rfl
    exact hn hj
  have hlists : (fun w => (c'.vpages w).iblockVpnList) = Function.update
      (fun w => (c.vpages w).iblockVpnList) v (i :: (c.vpages v).iblockVpnList) := by
    rcases h.tracked with ⟨_, _, _, hvpages⟩ | ⟨_, _, _, hvpages⟩
    · rw [hvpages, lists_update]
    · rw [hvpages, lists_update]
  constructor
  case lru =>
    rw [h.lru, List.nodup_cons]
    exact ⟨hn, hi.lru⟩
  case hash =>
    have hins := (hi.hash.congr (fun _ => Iff.rfl) fun j hj =>
      congrArg xrIblockHash (congrArg XrIblock.pc (h.iblock_ne (hne j hj)))).insert hn
    rw [h.iblock] at hins
    rw [h.hash]
    exact hins.congr hactive fun _ _ => rfl
  case unique =>
    intro j k hj hk hpc hasid
    rcases (hactive j).mp hj with hj | rfl
    · rcases (hactive k).mp hk with hk | rfl
      · rw [h.iblock_ne (hne j hj), h.iblock_ne (hne k hk)] at hpc hasid
        exact hi.unique j k hj hk hpc hasid
      · rw [h.iblock_ne (hne j hj), h.iblock] at hpc hasid
        exact absurd hasid (hnew j hj hpc)
    · rcases (hactive k).mp hk with hk | rfl
      · rw [h.iblock_ne (hne k hk), h.iblock] at hpc hasid
        exact absurd hasid.symm (hnew k hk hpc.symm)
      · rfl
  case pages =>
    have hins := (hi.pages.congr (fun _ => Iff.rfl) fun j hj =>
      congrArg XrIblock.vpage (h.iblock_ne (hne j hj))).insert hn
    rw [h.iblock] at hins
    rw [hlists]
    exact hins.congr hactive fun _ _ => rfl
  case page =>
    intro j hj
    rw [hused]
    rcases (hactive j).mp hj with hj | rfl
    · obtain ⟨hu, hpage⟩ := hi.page j hj
      rw [h.iblock_ne (hne j hj), hvpns _ hu]
      exact ⟨.inl hu, hpage⟩
    · rw [h.iblock]
      exact ⟨.inr rfl, hvpn⟩
  case vpages => exact hbuckets.congr hused fun _ _ => rfl
  case vpagePool =>
    rcases h.tracked with ⟨hfind, hfree, _, _⟩ | ⟨_, hfree, _, _⟩
    · rw [hfree]
      refine hi.vpagePool.congr fun w => ?_
      rw [hused]
      constructor
      · rintro (hu | rfl)
        · exact hu
        · exact (findVpage_some hi hfind).1
      · exact .inl
    · have hpool := hi.vpagePool
      rw [hfree] at hpool
      exact hpool.take.congr hused
  case vpns =>
    -- No other page has the page number of the new block.
    have hfresh : ∀ w, c.VpageUsed w → (c.vpages w).vpn = pageOf b.pc → w = v := by
      intro w hw heq
      rcases h.tracked with ⟨hfind, _, _, _⟩ | ⟨hfind, _, _, _⟩
      · obtain ⟨hvu, hveq⟩ := findVpage_some hi hfind
        exact hi.vpns w v hw hvu (heq.trans hveq.symm)
      · exact absurd heq (findVpage_none hi hfind hw)
    intro w x hw hx heq
    rcases (hused w).mp hw with hw | rfl
    · rcases (hused x).mp hx with hx | rfl
      · rw [hvpns w hw, hvpns x hx] at heq
        exact hi.vpns w x hw hx heq
      · rw [hvpns w hw, hvpn] at heq
        exact hfresh w hw heq
    · rcases (hused x).mp hx with hx | rfl
      · rw [hvpns x hx, hvpn] at heq
        exact (hfresh x hx heq.symm).symm
      · rfl
  case references =>
    intro w hw
    by_cases hwv : w = v
    · subst hwv
      rcases h.tracked with ⟨hfind, _, _, hvpages⟩ | ⟨hfind, hfree, _, hvpages⟩
      · obtain ⟨hlen, hpos⟩ := hi.references w (findVpage_some hi hfind).1
        rw [hvpages, Function.update_self]
        exact ⟨congrArg (· + 1) hlen, Nat.succ_pos _⟩
      · have hunused : ¬c.VpageUsed w := by
          have hdisj := hi.vpagePool.disjoint
          rw [hfree] at hdisj
          exact hdisj w List.mem_cons_self
        rw [hvpages, Function.update_self, hi.untracked hunused]
        exact ⟨rfl, Nat.one_pos⟩
    · have hu : c.VpageUsed w := ((hused w).mp hw).resolve_right hwv
      rcases h.tracked with ⟨_, _, _, hvpages⟩ | ⟨_, _, _, hvpages⟩
      · rw [hvpages, Function.update_of_ne hwv]
        exact hi.references w hu
      · rw [hvpages, Function.update_of_ne hwv]
        exact hi.references w hu

/-- There is a page tracker for the page of a block that is not on a page yet. -/
theorem Indexed.exists_entered (hi : Indexed c)
    (hrecords : ∀ j, c.Active j → j ∈ xrIblockRecords) (hn : ¬c.Active i) (hrecord : i ∈ xrIblockRecords) (b : XrIblock) :
    ∃ c', ((c.setIblock i b).linkIblock i b.pc).xrInsertIblockInVpage i b.pc = some c' := by
  unfold xrInsertIblockInVpage
  extract_lets vpn hash
  have hfind : ((c.setIblock i b).linkIblock i b.pc).findVpage vpn = c.findVpage vpn := rfl
  rw [hfind]
  cases c.findVpage vpn with
  | some v => exact ⟨_, rfl⟩
  | none =>
      -- Each page in use is named by its first block.
      have hne : c.vpageFreeList ≠ [] := by
        refine hi.vpagePool.free_ne_nil (fun v => ((c.vpages v).iblockVpnList.head?).getD 0)
          (xrIblockRecords.erase i) ?_ ?_ ?_
        · intro v hv
          obtain ⟨hlen, hpos⟩ := hi.references v hv
          cases hlist : (c.vpages v).iblockVpnList with
          | nil =>
              rw [hlen, hlist] at hpos
              exact absurd hpos (Nat.lt_irrefl 0)
          | cons j rest =>
              have hj : j ∈ (c.vpages v).iblockVpnList := by
                rw [hlist]
                exact List.mem_cons_self
              have ha := ((hi.pages.mem v j).mp hj).1
              refine Finset.mem_erase.mpr ⟨?_, hrecords j ha⟩
              rintro rfl
              exact hn ha
        · intro v w hv hw heq
          obtain ⟨hlen, hpos⟩ := hi.references v hv
          obtain ⟨hlen', hpos'⟩ := hi.references w hw
          cases hlist : (c.vpages v).iblockVpnList with
          | nil =>
              rw [hlen, hlist] at hpos
              exact absurd hpos (Nat.lt_irrefl 0)
          | cons j rest =>
              cases hlist' : (c.vpages w).iblockVpnList with
              | nil =>
                  rw [hlen', hlist'] at hpos'
                  exact absurd hpos' (Nat.lt_irrefl 0)
              | cons k rest' =>
                  simp only [hlist, hlist', List.head?_cons, Option.getD_some] at heq
                  have hj : j ∈ (c.vpages v).iblockVpnList := by
                    rw [hlist]
                    exact List.mem_cons_self
                  have hk : k ∈ (c.vpages w).iblockVpnList := by
                    rw [hlist']
                    exact List.mem_cons_self
                  rw [← ((hi.pages.mem v j).mp hj).2, ← ((hi.pages.mem w k).mp hk).2, heq]
        · rw [Finset.card_erase_of_mem hrecord]
          exact Nat.sub_lt (Finset.card_pos.mpr ⟨i, hrecord⟩) Nat.one_pos
      cases hfree : c.vpageFreeList with
      | nil => exact absurd hfree hne
      | cons v rest =>
          simp only [xrAllocateVpage, linkIblock, setIblock, hfree]
          exact ⟨_, rfl⟩

end

end

end XrIblockCache

end Xremu
