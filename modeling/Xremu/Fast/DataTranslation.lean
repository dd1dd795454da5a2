import Xremu.Fast.LoadLinked
import Xremu.Machine.ControlRegs

/-!
# Data translation of the fast build

With the MMU on, an access stands for a scan of the DTB: the first entry that
matches is checked and gives the page (`scanTranslate`). `XrAccessRead` and
`XrAccessWrite` get there by three shortcuts, the load and store caches of the
block and the lookup hint, and each of them checks only part of what the scan
checks again. What is remembered is always a valid page with the right host
memory (`DataInv`, whatever was written to the DTB since); whether the scan would
come to the same is the condition `Trusted` on the state before the access. A slot
that was never filled may have the tag that an access looks for, and then its pointer
is followed though nobody has assigned it (`SlotAssigned`).
-/

namespace Xremu

open XrFastMem

/-! ## The translation that is meant -/

/-- Scan the DTB from index 0 and check the entry found. -/
def scanTranslate {M : Type} [ResetMem M] (m : Machine M) (virtual : Word) (writing : Bool) :
    Option Word × Machine M :=
  match xrLookupDtb m virtual writing with
  | (none, m) => (none, m)
  | (some i, m) =>
      match tbeFault m.proc (m.proc.dtb i) writing with
      | some f => (none, f.take m virtual writing)
      | none => (some (frameOf (m.proc.dtb i) ||| (virtual &&& 0xFFF)), m)

section

variable {β : Type}

/-- Nothing has changed but what is remembered of pages. -/
structure OnlyRemembers (m m' : Machine (XrFastMem β)) : Prop where
  proc : m'.proc = { m.proc with dtbLastVpn := m'.proc.dtbLastVpn }
  bus : m'.mem.bus = m.mem.bus
  claims : SameClaims m.mem m'.mem

/-- The slot of the running block that an access looks at. -/
def Machine.dataSlot (m : Machine (XrFastMem β)) (block : Nat) (virtual : Word)
    (writing : Bool) : XrIblockDtbEntry :=
  (m.mem.fast m.proc.id).slot block (dtbCacheIndex virtual) writing

/-- If it has the tag of the access, it has a pointer to follow. -/
def Machine.SlotAssigned (m : Machine (XrFastMem β)) (block : Nat) (virtual : Word)
    (writing : Bool) : Prop :=
  (m.dataSlot block virtual writing).matchingDtbe >>> 32 =
      (tbMatching (m.proc.cr crDtbtag) virtual).setWidth 64 →
    (m.dataSlot block virtual writing).dtbePointer ≠ none

/-- The address of an access is aligned to its length. -/
def XrMemReq.aligned (r : XrMemReq) : Bool := r.address &&& (BitVec.ofNat 32 r.length - 1) == 0

variable [EBusHost β]

/-- `XrAccessRead` or `XrAccessWrite`. -/
def xrDataAccess (m : Machine (XrFastMem β)) (block : Nat) (r : XrMemReq) :
    XrResult × Machine (XrFastMem β) :=
  if r.read then xrAccessRead m block r else xrAccessWrite m block r

/-- A load or store of the page of an entry. -/
def accessTarget (m : Machine (XrFastMem β)) (e : XrIblockDtbEntry) (r : XrMemReq) :
    XrResult × Machine (XrFastMem β) :=
  if r.read then readTarget m e r else writeTarget m e r

/-- The access does what the scan says: the same exception, or an access to the same
physical address (`goes`, and `phys` for the claim of an LL or SC). An unaligned
access is not translated. -/
inductive SameOutcome (m : Machine (XrFastMem β)) (block : Nat) (r : XrMemReq) : Prop
  | unaligned (odd : r.aligned = false)
      (access : xrDataAccess m block r = ((.fault, none), unaligned m r.address))
  | fault (m' : Machine (XrFastMem β)) (assigned : m.SlotAssigned block r.address (!r.read))
      (scan : scanTranslate m r.address (!r.read) = (none, m'))
      (target : dataTarget m block r.address (!r.read) = (none, m'))
      (access : xrDataAccess m block r = ((.fault, none), m'))
  | page (e : XrIblockDtbEntry) (m' : Machine (XrFastMem β))
      (assigned : m.SlotAssigned block r.address (!r.read))
      (scan : (scanTranslate m r.address (!r.read)).1 = some (e.goes r.address))
      (phys : e.phys r.address = e.goes r.address)
      (only : OnlyRemembers m m')
      (target : dataTarget m block r.address (!r.read) = (some e, m'))
      (access : xrDataAccess m block r = accessTarget m' e r)

end

/-! ## When a shortcut may be trusted -/

/-- The first DTB entry that matches lets the access into this page. -/
def FirstGives (p : XrProcessor) (virtual : Word) (writing : Bool) (frame : Word) : Prop :=
  ∃ i, tbScan p.dtb (tbMatching (p.cr crDtbtag) virtual) = some i ∧
    tbeFault p (p.dtb i) writing = none ∧ frameOf (p.dtb i) = frame

/-- It refuses the access, for the same reason. Outside of the miss handlers both reasons
make one exception. -/
def FirstRefuses (p : XrProcessor) (virtual : Word) (writing : Bool) (f : XrTbeFault) : Prop :=
  ∃ i f', tbScan p.dtb (tbMatching (p.cr crDtbtag) virtual) = some i ∧
    tbeFault p (p.dtb i) writing = some f' ∧ (f' = f ∨ p.rs &&& rsTbmiss = 0)

/-- A slot is not checked again: the first entry has to pass, and the access to go to the page
of the slot's entry. -/
structure SlotTrusted (p : XrProcessor) (e : XrIblockDtbEntry) (virtual : Word)
    (writing : Bool) : Prop where
  goes : e.goes virtual = e.phys virtual
  gives : FirstGives p virtual writing (frameOf e.matchingDtbe)

/-- The entry behind the hint is checked. -/
structure HintTrusted (p : XrProcessor) (e : XrIblockDtbEntry) (virtual : Word)
    (writing : Bool) : Prop where
  gives : tbeFault p e.matchingDtbe writing = none →
    FirstGives p virtual writing (frameOf e.matchingDtbe)
  refuses : ∀ f, tbeFault p e.matchingDtbe writing = some f → FirstRefuses p virtual writing f

/-- The slots of a block are emptied when it is decoded; what they pointed to stays. -/
def XrIblockDtbEntry.emptied (e : XrIblockDtbEntry) : XrIblockDtbEntry :=
  { e with matchingDtbe := tbInvalidMatching }

/-- The page and the checks that the block remembers are not worth more than what the DTB
says, or else those that the lookup hint remembers are not. Unaligned accesses do not come
that far. -/
def Trusted {β : Type} (m : Machine (XrFastMem β)) (block : Nat) (r : XrMemReq) : Prop :=
  r.aligned = true →
    m.SlotAssigned block r.address (!r.read) ∧
    if slotValid m.proc (m.dataSlot block r.address (!r.read)) r.address (!r.read) then
      SlotTrusted m.proc (m.dataSlot block r.address (!r.read)) r.address (!r.read)
    else
      vpnOf r.address = m.proc.dtbLastVpn →
        HintTrusted m.proc (m.mem.fast m.proc.id).dtbLastEntry r.address (!r.read)

/-! ## What is remembered -/

/-- A page that was translated: its entry was valid, and the host pointer is to its
memory. -/
structure Filled (e : XrIblockDtbEntry) : Prop where
  valid : e.matchingDtbe &&& pteValid ≠ 0
  host : ∀ page, e.hostPointer = some page → page = frameOf e.matchingDtbe

/-- A slot of a block: never used, emptied when the block was decoded, or filled. -/
def SlotOk (e : XrIblockDtbEntry) : Prop :=
  e.dtbePointer = none ∨ e.matchingDtbe = tbInvalidMatching ∨ Filled e

structure DataInv {β : Type} (m : Machine (XrFastMem β)) : Prop where
  last : m.proc.dtbLastVpn ≠ -1 → Filled (m.mem.fast m.proc.id).dtbLastEntry
  slots : ∀ block index writing, SlotOk ((m.mem.fast m.proc.id).slot block index writing)

/-- The entry behind the hint and those in the slots have these properties. -/
structure Remembers {β : Type} (Last Slot : XrIblockDtbEntry → Prop)
    (m : Machine (XrFastMem β)) : Prop where
  last : m.proc.dtbLastVpn ≠ -1 → Last (m.mem.fast m.proc.id).dtbLastEntry
  slots : ∀ block index writing, Slot ((m.mem.fast m.proc.id).slot block index writing)

/-- What is found in the DTB has them, and decoding a block does not take them away. -/
structure RememberLaw (Last Slot : XrIblockDtbEntry → Prop) : Prop where
  found : ∀ {β : Type} [EBusHost β] (bus : β) {p : XrProcessor} {i : Nat} {writing : Bool},
    i < xrTbSize → tbeFault p (p.dtb i) writing = none →
    Last ⟨eBusTranslate bus (frameOf (p.dtb i)), p.dtb i, some i⟩
  slot : ∀ {e}, Last e → Slot e
  emptied : ∀ {e}, Slot e → Slot e.emptied

/-- What is remembered of pages is as it was; the hint may be forgotten. -/
structure SamePages {β : Type} (m m' : Machine (XrFastMem β)) : Prop where
  id : m'.proc.id = m.proc.id
  last : (m'.mem.fast m.proc.id).dtbLastEntry = (m.mem.fast m.proc.id).dtbLastEntry
  slots : ∀ block index writing, (m'.mem.fast m.proc.id).slot block index writing =
    (m.mem.fast m.proc.id).slot block index writing
  hint : m'.proc.dtbLastVpn = m.proc.dtbLastVpn ∨ m'.proc.dtbLastVpn = -1

section

variable {β : Type}

theorem SamePages.refl (m : Machine (XrFastMem β)) : SamePages m m :=
  ⟨rfl, rfl, fun _ _ _ => rfl, Or.inl rfl⟩

theorem SamePages.trans {m m' m'' : Machine (XrFastMem β)} (h : SamePages m m')
    (h' : SamePages m' m'') : SamePages m m'' := by
  obtain ⟨hid, hlast, hslots, hhint⟩ := h
  obtain ⟨hid', hlast', hslots', hhint'⟩ := h'
  rw [hid] at hid' hlast' hslots'
  refine ⟨hid', hlast'.trans hlast, fun b i w => (hslots' b i w).trans (hslots b i w), ?_⟩
  rcases hhint' with hh | hh
  · rwa [hh]
  · exact Or.inr hh

/-- An exception remembers nothing and resets no page. -/
theorem Excepted.samePages {m m' : Machine (XrFastMem β)} (h : Excepted m m') :
    SamePages m m' := by
  have hmem : m'.mem = m.mem := h.mem.elim (fun hm => hm) fun hm => hm
  exact ⟨h.id, by rw [hmem], fun _ _ _ => by rw [hmem], h.dtbHint⟩

theorem Remembers.of_same {Last Slot : XrIblockDtbEntry → Prop} {m m' : Machine (XrFastMem β)}
    (h : Remembers Last Slot m) (hs : SamePages m m') : Remembers Last Slot m' := by
  constructor
  · intro hne
    rw [hs.id, hs.last]
    rcases hs.hint with hh | hh
    · exact h.last (hh ▸ hne)
    · exact absurd hh hne
  · intro block index writing
    rw [hs.id, hs.slots]
    exact h.slots block index writing

/-! ### The claim programs -/

/-- The pages remembered in `m'` are those of `m`. -/
def SameEntries (m m' : XrFastMem β) : Prop :=
  ∀ q, (m'.fast q).dtbLastEntry = (m.fast q).dtbLastEntry ∧
    (m'.fast q).dtbLoadCache = (m.fast q).dtbLoadCache ∧
    (m'.fast q).dtbStoreCache = (m.fast q).dtbStoreCache

theorem SameEntries.trans {m m' m'' : XrFastMem β} (h : SameEntries m m')
    (h' : SameEntries m' m'') : SameEntries m m'' := by
  intro q
  obtain ⟨hlast, hload, hstore⟩ := h q
  obtain ⟨hlast', hload', hstore'⟩ := h' q
  exact ⟨hlast'.trans hlast, hload'.trans hload, hstore'.trans hstore⟩

theorem sameEntries_of_fast {m m' : XrFastMem β} (h : m'.fast = m.fast) : SameEntries m m' := by
  intro q
  rw [h]
  exact ⟨rfl, rfl, rfl⟩

theorem sameEntries_setL1 (m : XrFastMem β) (p i : Nat) (other : Option Nat) :
    SameEntries m (m.setL1 p i other) := by
  intro q
  by_cases hq : q = p
  · subst hq
    simp [setL1, setFast]
  · simp [setL1, setFast, hq]

theorem sameEntries_dropClaim (p i : Nat) (m : XrFastMem β) :
    SameEntries m (dropClaim p i m) := by
  unfold dropClaim
  split
  · exact sameEntries_of_fast rfl
  · next k _ => exact sameEntries_setL1 (m.setL2 k none) p i none

theorem sameEntries_invalidateRemote (j : Nat) (m : XrFastMem β) :
    SameEntries m ((invalidateRemote j).run m).2 := by
  simp only [invalidateRemote, Concurrency.Prog.run_bind, Concurrency.Prog.run_get]
  split
  · exact sameEntries_of_fast rfl
  · next remote _ =>
      simp only [Concurrency.Prog.run_bind, Concurrency.Prog.run_acquire,
        Concurrency.Prog.run_modify, Concurrency.Prog.run_release]
      split
      · exact sameEntries_of_fast rfl
      · exact sameEntries_setL1 m remote.1 remote.2 none

theorem sameEntries_claimAddress [EBusHost β] (m : XrFastMem β) (p : Nat) (phyaddr : Word)
    (address : Nat) : SameEntries m ((xrClaimAddress p phyaddr address).run m).2 := by
  simp only [xrClaimAddress, Concurrency.Prog.run_bind, Concurrency.Prog.run_acquire,
    Concurrency.Prog.run_get]
  by_cases hj : m.l1 p (xrL1ClaimIndex phyaddr) = some (xrL2ClaimIndex phyaddr)
  · simp only [hj, if_true]
    exact sameEntries_of_fast rfl
  · simp only [hj, if_false]
    simp only [claimEntry, Concurrency.Prog.run_bind, Concurrency.Prog.run_modify,
      Concurrency.Prog.run_release, Concurrency.Prog.run_acquire, Concurrency.Prog.run_get,
      Concurrency.Prog.run_pure]
    have hdrop := sameEntries_dropClaim p (xrL1ClaimIndex phyaddr) m
    have hremote := sameEntries_invalidateRemote (xrL2ClaimIndex phyaddr)
      (dropClaim p (xrL1ClaimIndex phyaddr) m)
    exact (hdrop.trans hremote).trans (sameEntries_setL1 (setL2 _ _ _) _ _ _)

/-- Memory operations that keep the entries, on one processor. -/
theorem SameEntries.samePages {m : Machine (XrFastMem β)} {mem : XrFastMem β}
    (h : SameEntries m.mem mem) : SamePages m { m with mem := mem } := by
  obtain ⟨hlast, hload, hstore⟩ := h m.proc.id
  refine ⟨rfl, hlast, fun block index writing => ?_, Or.inl rfl⟩
  simp only [XrFast.slot, hload, hstore]

theorem samePages_busReply {α : Type} (m : Machine (XrFastMem β)) (r : EBusReply β α) :
    SamePages m (busReply m r) :=
  ⟨rfl, rfl, fun _ _ _ => rfl, Or.inl rfl⟩

theorem samePages_directBusError (m : Machine (XrFastMem β)) (address : Word) :
    SamePages m (directBusError m address) := by
  refine Excepted.samePages (excepted_basic ?_ ?_ ?_ _ _)
  · simp
  · simp
  · simp

theorem samePages_unaligned (m : Machine (XrFastMem β)) (address : Word) :
    SamePages m (unaligned m address) := by
  refine Excepted.samePages (excepted_basic ?_ ?_ ?_ _ _)
  · simp
  · simp
  · simp

/-! ### One slot -/

/-- The slots after one of them was written. -/
theorem slot_setSlot (m : XrFastMem β) (p block index : Nat) (writing : Bool)
    (e : XrIblockDtbEntry) (block' index' : Nat) (writing' : Bool) :
    ((m.setSlot p block index writing e).fast p).slot block' index' writing' = e ∨
      ((m.setSlot p block index writing e).fast p).slot block' index' writing' =
        (m.fast p).slot block' index' writing' := by
  by_cases hb : block' = block
  · subst hb
    by_cases hi : index' = index
    · subst hi
      cases writing <;> cases writing' <;> simp [setSlot, XrFast.slot, setFast]
    · cases writing <;> cases writing' <;> simp [setSlot, XrFast.slot, setFast, hi]
  · cases writing <;> cases writing' <;> simp [setSlot, XrFast.slot, setFast, hb]

theorem Remembers.setSlot {Last Slot : XrIblockDtbEntry → Prop} {m : Machine (XrFastMem β)}
    (h : Remembers Last Slot m) (block index : Nat) (writing : Bool) {e : XrIblockDtbEntry}
    (he : Slot e) :
    Remembers Last Slot { m with mem := m.mem.setSlot m.proc.id block index writing e } := by
  constructor
  · intro hne
    have hlast := h.last hne
    cases writing <;> simpa [XrFastMem.setSlot, setFast] using hlast
  · intro block' index' writing'
    rcases slot_setSlot m.mem m.proc.id block index writing e block' index' writing' with hs | hs
    · simp only [hs]
      exact he
    · simp only [hs]
      exact h.slots block' index' writing'

theorem onlyRemembers_setSlot {m m' : Machine (XrFastMem β)} (h : OnlyRemembers m m')
    (p block index : Nat) (writing : Bool) (e : XrIblockDtbEntry) :
    OnlyRemembers m { m' with mem := m'.mem.setSlot p block index writing e } := by
  refine ⟨h.proc, ?_, h.claims.trans (sameClaims_setSlot m'.mem p block index writing e)⟩
  rw [← h.bus]
  cases writing <;> rfl

end

/-! ## The translation -/

theorem vpnOf_ne_hint (virtual : Word) : vpnOf virtual ≠ -1 := by
  intro h
  have hn := congrArg BitVec.toNat h
  have hlt : virtual.toNat >>> 12 < 2 ^ 20 := by
    rw [Nat.shiftRight_eq_div_pow]
    omega
  simp only [vpnOf, BitVec.toNat_ushiftRight] at hn
  rw [hn] at hlt
  exact absurd hlt (by decide)

section

variable {β : Type}

/-- An access through a filled entry goes to the page of its DTB entry. -/
theorem Filled.goes {e : XrIblockDtbEntry} (h : Filled e) (address : Word) :
    e.goes address = e.phys address := by
  unfold XrIblockDtbEntry.goes
  split
  · next page hpage => rw [h.host page hpage, XrIblockDtbEntry.phys]
  · rfl

theorem onlyRemembers_refl (m : Machine (XrFastMem β)) : OnlyRemembers m m :=
  ⟨rfl, rfl, .refl m.mem⟩

/-- A page has no offset of its own. -/
theorem frameOf_or_inj {tbe tbe' : BitVec 64} {virtual : Word}
    (h : frameOf tbe ||| (virtual &&& 0xFFF) = frameOf tbe' ||| (virtual &&& 0xFFF)) :
    frameOf tbe = frameOf tbe' := by
  have hpage : ∀ t : BitVec 64, (frameOf t ||| (virtual &&& 0xFFF)) >>> 12 <<< 12 = frameOf t := by
    intro t
    apply BitVec.eq_of_getLsbD_eq
    intro i hi
    rw [BitVec.getLsbD_shiftLeft, BitVec.getLsbD_ushiftRight, BitVec.getLsbD_or, BitVec.getLsbD_and]
    unfold frameOf
    by_cases h12 : i < 12
    · simp [h12]
    · have hback : 12 + (i - 12) = i := by omega
      have hoff : (0xFFF : Word).getLsbD i = false := by
        revert i
        decide
      rw [hback, hoff]
      simp [h12, hi]
  rw [← hpage tbe, h, hpage]

theorem scanTranslate_gives {m : Machine (XrFastMem β)} {e : XrIblockDtbEntry} {virtual : Word}
    {writing : Bool} (h : FirstGives m.proc virtual writing (frameOf e.matchingDtbe)) :
    scanTranslate m virtual writing = (some (e.phys virtual), m) := by
  obtain ⟨i, hscan, hok, hframe⟩ := h
  simp only [scanTranslate, xrLookupDtb, hscan, hok, hframe, XrIblockDtbEntry.phys]

theorem scanTranslate_some {m : Machine (XrFastMem β)} {e : XrIblockDtbEntry} {virtual : Word}
    {writing : Bool} (h : (scanTranslate m virtual writing).1 = some (e.phys virtual)) :
    FirstGives m.proc virtual writing (frameOf e.matchingDtbe) := by
  unfold scanTranslate xrLookupDtb at h
  cases hscan : tbScan m.proc.dtb (tbMatching (m.proc.cr crDtbtag) virtual) with
  | none =>
      rw [hscan] at h
      cases h
  | some i =>
      simp only [hscan] at h
      cases hf : tbeFault m.proc (m.proc.dtb i) writing with
      | some f =>
          simp only [hf] at h
          cases h
      | none =>
          simp only [hf] at h
          exact ⟨i, hscan, hf, frameOf_or_inj (Option.some.inj h)⟩

/-- Outside of the miss handlers, the entry that is not valid and the one that forbids the
access make the same exception. -/
theorem take_unmissed {m : Machine (XrFastMem β)} (h : m.proc.rs &&& rsTbmiss = 0)
    (f f' : XrTbeFault) (virtual : Word) (writing : Bool) :
    f.take m virtual writing = f'.take m virtual writing := by
  have hsame : xrPageFault m virtual writing = xrProtectionFault m virtual writing := by
    unfold xrPageFault xrProtectionFault xrBasicException
    rw [if_neg (not_not.mpr h)]
  cases f <;> cases f' <;> first | rfl | exact hsame | exact hsame.symm

theorem scanTranslate_refuses {m : Machine (XrFastMem β)} {virtual : Word} {writing : Bool}
    {f : XrTbeFault} (h : FirstRefuses m.proc virtual writing f) :
    scanTranslate m virtual writing = (none, f.take m virtual writing) := by
  obtain ⟨i, f', hscan, hfault, hsame⟩ := h
  have htake : f'.take m virtual writing = f.take m virtual writing := by
    rcases hsame with rfl | hrs
    · rfl
    · exact take_unmissed hrs f' f virtual writing
  simp only [scanTranslate, xrLookupDtb, hscan, hfault, htake]

variable [EBusHost β]

theorem filled_new (bus : β) {p : XrProcessor} {tbe : BitVec 64} {writing : Bool} (i : Nat)
    (h : tbeFault p tbe writing = none) :
    Filled ⟨eBusTranslate bus (frameOf tbe), tbe, some i⟩ := by
  refine ⟨(tbeFault_none h).1, fun page hpage => ?_⟩
  simp only [eBusTranslate] at hpage
  split at hpage
  · exact (Option.some.inj hpage).symm
  · cases hpage

theorem tbScan_lt {tb : Nat → BitVec 64} {matching : Word} {i : Nat}
    (h : tbScan tb matching = some i) : i < xrTbSize := by
  unfold tbScan at h
  exact List.mem_range.mp (List.mem_of_find?_eq_some h)

theorem filled_law : RememberLaw Filled SlotOk where
  found := by
    intro _ _ bus p i writing _ hnone
    exact filled_new bus i hnone
  slot hfill := Or.inr (Or.inr hfill)
  emptied _ := Or.inr (Or.inl rfl)

section

variable {Last Slot : XrIblockDtbEntry → Prop} {m : Machine (XrFastMem β)}

omit [EBusHost β] in
theorem Remembers.hint (h : Remembers Last Slot m) {virtual : Word}
    (hint : vpnOf virtual = m.proc.dtbLastVpn) : Last (m.mem.fast m.proc.id).dtbLastEntry :=
  h.last (hint ▸ vpnOf_ne_hint virtual)

/-- What `XrTranslateDstream` leaves. -/
theorem Remembers.translateDstream (law : RememberLaw Last Slot) (h : Remembers Last Slot m)
    {m' : Machine (XrFastMem β)} {virtual : Word} {writing : Bool}
    {out : Option XrIblockDtbEntry} (hout : xrTranslateDstream m virtual writing = (out, m')) :
    Remembers Last Slot m' ∧ ∀ e, out = some e → Last e := by
  have hexcept : ∀ {m'}, Excepted m m' →
      Remembers Last Slot m' ∧ ∀ e, (none : Option XrIblockDtbEntry) = some e → Last e := by
    intro m' hm
    refine ⟨h.of_same hm.samePages, ?_⟩
    rintro e ⟨⟩
  cases translatesDstream hout with
  | refused hint fault => exact hexcept (excepted_take _ m virtual writing)
  | missed other scan => exact hexcept (excepted_tbMiss _ _ _ virtual writing m)
  | denied other scan fault => exact hexcept (excepted_take _ m virtual writing)
  | remembered hint ok =>
      refine ⟨h, ?_⟩
      rintro e ⟨⟩
      exact h.hint hint
  | found other scan ok =>
      have hfound := law.found m.mem.bus (tbScan_lt scan) ok
      refine ⟨⟨fun _ => ?_, fun block index w => ?_⟩, ?_⟩
      · simpa [setDtbLast, setFast] using hfound
      · have hslot := h.slots block index w
        simpa [setDtbLast, setFast, XrFast.slot] using hslot
      · rintro e ⟨⟩
        exact hfound

theorem Remembers.dataTarget (law : RememberLaw Last Slot) (h : Remembers Last Slot m)
    {m' : Machine (XrFastMem β)} {block : Nat} {virtual : Word} {writing : Bool}
    {out : Option XrIblockDtbEntry} (hout : dataTarget m block virtual writing = (out, m')) :
    Remembers Last Slot m' ∧ ∀ e, out = some e → Slot e := by
  cases findsTarget hout with
  | slot valid =>
      refine ⟨h, ?_⟩
      rintro e ⟨⟩
      exact h.slots block _ writing
  | faulted translate =>
      refine ⟨(h.translateDstream law translate).1, ?_⟩
      rintro e ⟨⟩
  | translated translate =>
      obtain ⟨hinv, hlast⟩ := h.translateDstream law translate
      have hslot := law.slot (hlast _ rfl)
      refine ⟨hinv.setSlot block _ writing hslot, ?_⟩
      rintro e ⟨⟩
      exact hslot

end

/-! ## Accesses keep the invariant -/

theorem samePages_directWrite (m : Machine (XrFastMem β)) (address : Word) (r : XrMemReq) :
    SamePages m (directWrite m address r).2 := by
  unfold directWrite
  simp only
  split
  · exact samePages_busReply m _
  · exact (samePages_busReply m _).trans (samePages_directBusError _ address)

theorem samePages_directRead (m : Machine (XrFastMem β)) (address : Word) (r : XrMemReq) :
    SamePages m (directRead m address r).2 := by
  unfold directRead
  simp only
  split
  · exact samePages_busReply m _
  · exact (samePages_busReply m _).trans (samePages_directBusError _ address)

theorem samePages_accessTarget (m : Machine (XrFastMem β)) (e : XrIblockDtbEntry)
    (r : XrMemReq) : SamePages m (accessTarget m e r).2 := by
  unfold accessTarget
  split
  · unfold readTarget
    split
    · exact samePages_directRead m _ r
    · simp only
      split
      · exact (sameEntries_claimAddress m.mem _ _ _).samePages
      · exact .refl m
  · unfold writeTarget
    split
    · exact samePages_directWrite m _ r
    · simp only
      split
      · have hrun := run_xrStoreIfClaimed m.mem m.proc.id (e.phys r.address)
          (e.goes r.address).toNat r.srcvalue
        exact (sameEntries_of_fast hrun.2.1).samePages
      · have hwrite : SameEntries m.mem { m.mem with
            bus := EBusHost.hostWrite m.mem.bus (e.goes r.address).toNat (byteOf r.srcvalue)
              r.length } := sameEntries_of_fast rfl
        exact hwrite.samePages

/-- Both accesses, with the order of their checks. -/
theorem xrDataAccess_eq (m : Machine (XrFastMem β)) (block : Nat) (r : XrMemReq) :
    xrDataAccess m block r =
      if r.aligned = false then ((.fault, none), unaligned m r.address)
      else if m.proc.rs &&& rsMmu ≠ 0 then
        match dataTarget m block r.address (!r.read) with
        | (none, m) => ((.fault, none), m)
        | (some e, m) => accessTarget m e r
      else if r.read then directRead m r.address r
      else directWrite m r.address r := by
  have halign : r.aligned = false ↔ r.address &&& (BitVec.ofNat 32 r.length - 1) ≠ 0 := by
    simp [XrMemReq.aligned]
  unfold xrDataAccess accessTarget
  simp only [halign]
  cases hread : r.read with
  | true =>
      rw [Bool.not_true]
      unfold xrAccessRead
      generalize dataTarget m block r.address false = out
      obtain ⟨e, m'⟩ := out
      cases e <;> rfl
  | false =>
      rw [Bool.not_false]
      unfold xrAccessWrite
      generalize dataTarget m block r.address true = out
      obtain ⟨e, m'⟩ := out
      cases e <;> rfl

/-- One access. -/
theorem Remembers.access {Last Slot : XrIblockDtbEntry → Prop} {m : Machine (XrFastMem β)}
    (law : RememberLaw Last Slot) (h : Remembers Last Slot m) (block : Nat) (r : XrMemReq) :
    Remembers Last Slot (xrDataAccess m block r).2 := by
  rw [xrDataAccess_eq]
  split
  · exact h.of_same (samePages_unaligned m r.address)
  · split
    · rcases hout : Xremu.dataTarget m block r.address (!r.read) with ⟨_ | e, m'⟩
      · exact (h.dataTarget law hout).1
      · exact (h.dataTarget law hout).1.of_same (samePages_accessTarget m' e r)
    · split
      · exact h.of_same (samePages_directRead m r.address r)
      · exact h.of_same (samePages_directWrite m r.address r)

/-! ## What the shortcuts leave out -/

/-- `XrTranslateDstream` does what the scan says where the hint may be trusted. -/
theorem translateDstream_agrees {m : Machine (XrFastMem β)} (h : DataInv m) (virtual : Word)
    (writing : Bool) (ht : vpnOf virtual = m.proc.dtbLastVpn →
      HintTrusted m.proc (m.mem.fast m.proc.id).dtbLastEntry virtual writing) :
    (∃ m', scanTranslate m virtual writing = (none, m') ∧
        xrTranslateDstream m virtual writing = (none, m')) ∨
      ∃ e m', (scanTranslate m virtual writing).1 = some (e.phys virtual) ∧
        xrTranslateDstream m virtual writing = (some e, m') ∧ Filled e ∧ OnlyRemembers m m' := by
  rcases hout : xrTranslateDstream m virtual writing with ⟨out, m'⟩
  cases translatesDstream hout with
  | remembered hint ok =>
      have hfill := h.last (hint ▸ vpnOf_ne_hint virtual)
      refine Or.inr ⟨_, m, ?_, rfl, hfill, onlyRemembers_refl m⟩
      rw [scanTranslate_gives ((ht hint).gives ok)]
  | @refused f hint fault =>
      exact Or.inl ⟨f.take m virtual writing, scanTranslate_refuses ((ht hint).refuses f fault),
        rfl⟩
  | missed other scan =>
      refine Or.inl ⟨tbMiss crDtbtag crDtbaddr excDtb virtual writing m, ?_, rfl⟩
      simp only [scanTranslate, xrLookupDtb, scan]
  | @denied i f other scan fault =>
      refine Or.inl ⟨f.take m virtual writing, ?_, rfl⟩
      simp only [scanTranslate, xrLookupDtb, scan, fault]
  | @found i other scan ok =>
      refine Or.inr ⟨_, _, ?_, rfl, filled_new m.mem.bus i ok, ?_⟩
      · simp only [scanTranslate, xrLookupDtb, scan, ok, XrIblockDtbEntry.phys]
      · exact ⟨rfl, rfl, sameClaims_setFast m.mem m.proc.id _ rfl⟩

/-- An entry in a slot that passes the checks was filled by a translation. -/
theorem SlotOk.filled {p : XrProcessor} {e : XrIblockDtbEntry} {virtual : Word} {writing : Bool}
    (h : SlotOk e) (hvalid : slotValid p e virtual writing = true)
    (hnone : tbeFault p e.matchingDtbe writing = none) : Filled e := by
  rcases h with hnull | hempty | hfill
  · simp [slotValid, hnull] at hvalid
  · have hv := (tbeFault_none hnone).1
    rw [hempty] at hv
    exact absurd (by decide) hv
  · exact hfill

/-- An access that may trust its shortcuts. -/
theorem sameOutcome_of_trusted {m : Machine (XrFastMem β)} (h : DataInv m)
    (hmmu : m.proc.rs &&& rsMmu ≠ 0) (block : Nat) (r : XrMemReq) (ht : Trusted m block r) :
    SameOutcome m block r := by
  have heq := xrDataAccess_eq m block r
  cases halign : r.aligned with
  | false =>
      rw [halign, if_pos rfl] at heq
      exact .unaligned halign heq
  | true =>
      rw [halign, if_neg (by simp), if_pos hmmu] at heq
      obtain ⟨hassigned, ht⟩ := ht halign
      unfold Machine.dataSlot at ht
      by_cases hvalid : slotValid m.proc
          ((m.mem.fast m.proc.id).slot block (dtbCacheIndex r.address) (!r.read)) r.address
          (!r.read) = true
      · rw [if_pos hvalid] at ht
        have htarget : dataTarget m block r.address (!r.read) =
            (some ((m.mem.fast m.proc.id).slot block (dtbCacheIndex r.address) (!r.read)), m) := by
          simp only [dataTarget, hvalid, if_true]
        rw [htarget] at heq
        refine .page _ m hassigned ?_ ht.goes.symm (onlyRemembers_refl m) htarget heq
        rw [scanTranslate_gives ht.gives, ht.goes]
      · rw [if_neg hvalid] at ht
        rcases translateDstream_agrees h r.address (!r.read) ht with
          ⟨m', hscan, hd⟩ | ⟨e, m', hscan, hd, hfill, honly⟩
        · have htarget : dataTarget m block r.address (!r.read) = (none, m') := by
            simp only [dataTarget, hvalid, Bool.false_eq_true, if_false, hd]
          rw [htarget] at heq
          exact .fault m' hassigned hscan htarget heq
        · have htarget : dataTarget m block r.address (!r.read) = (some e, ⟨m'.proc,
              m'.mem.setSlot m'.proc.id block (dtbCacheIndex r.address) (!r.read) e⟩) := by
            simp only [dataTarget, hvalid, Bool.false_eq_true, if_false, hd]
          rw [htarget] at heq
          refine .page e _ hassigned ?_ (hfill.goes r.address).symm
            (onlyRemembers_setSlot honly m'.proc.id block _ (!r.read) e) htarget heq
          rw [hscan, hfill.goes]

/-- Nothing that is remembered of the page stops the access. -/
def ShortcutPasses (m : Machine (XrFastMem β)) (block : Nat) (r : XrMemReq) : Prop :=
  slotValid m.proc (m.dataSlot block r.address (!r.read)) r.address (!r.read) = false →
    vpnOf r.address = m.proc.dtbLastVpn →
      tbeFault m.proc (m.mem.fast m.proc.id).dtbLastEntry.matchingDtbe (!r.read) = none

theorem SameOutcome.assigned {m : Machine (XrFastMem β)} {block : Nat} {r : XrMemReq}
    (h : SameOutcome m block r) (haligned : r.aligned = true) :
    m.SlotAssigned block r.address (!r.read) := by
  cases h with
  | unaligned odd => rw [haligned] at odd; cases odd
  | fault m' assigned => exact assigned
  | page e m' assigned => exact assigned

/-- An access that goes by an entry and does what the scan says: the first entry of the DTB gives
the page of that entry. -/
theorem SameOutcome.gives {m : Machine (XrFastMem β)} {block : Nat} {r : XrMemReq}
    (h : SameOutcome m block r) (haligned : r.aligned = true) {e : XrIblockDtbEntry}
    (htarget : (dataTarget m block r.address (!r.read)).1 = some e) :
    SlotTrusted m.proc e r.address (!r.read) := by
  cases h with
  | unaligned odd => rw [haligned] at odd; cases odd
  | fault m' _ _ target => rw [target] at htarget; cases htarget
  | page e' m' _ scan phys _ target =>
      rw [target] at htarget
      obtain rfl := Option.some.inj htarget
      rw [← phys] at scan
      exact ⟨phys.symm, scanTranslate_some scan⟩

/-- Where no remembered entry refuses the access, what the shortcuts leave out is needed. -/
theorem trusted_of_sameOutcome {m : Machine (XrFastMem β)} {block : Nat} {r : XrMemReq}
    (hpasses : ShortcutPasses m block r) (h : SameOutcome m block r) : Trusted m block r := by
  intro haligned
  refine ⟨h.assigned haligned, ?_⟩
  cases hvalid : slotValid m.proc (m.dataSlot block r.address (!r.read)) r.address (!r.read) with
  | true =>
      rw [if_pos rfl]
      apply h.gives haligned
      unfold Machine.dataSlot at hvalid
      simp only [dataTarget, hvalid, if_true]
      rfl
  | false =>
      rw [if_neg Bool.false_ne_true]
      intro hint
      have hok := hpasses hvalid hint
      have htrusted := h.gives haligned (e := (m.mem.fast m.proc.id).dtbLastEntry) (by
        unfold Machine.dataSlot at hvalid
        simp only [dataTarget, hvalid, Bool.false_eq_true, if_false, xrTranslateDstream, hint,
          if_true, hok])
      refine ⟨fun _ => htrusted.gives, fun f hf => ?_⟩
      rw [hok] at hf
      cases hf

/-! ## Every run -/

/-- The states a processor reaches: accesses in its blocks, writes to its control
registers, decoding of blocks, and anything else that happens to its registers (mode
changes, exceptions, a reset) or to the rest of the memory system. -/
inductive DataRun (m₀ : Machine (XrFastMem β)) : Machine (XrFastMem β) → Prop where
  | start : DataRun m₀ m₀
  | access {m} (block : Nat) (r : XrMemReq) : DataRun m₀ m → DataRun m₀ (xrDataAccess m block r).2
  | mtcr {m} (rb : Nat) (value : Word) : DataRun m₀ m →
      DataRun m₀ ⟨xrMtcr m.proc rb value, m.mem⟩
  | decode {m} (block index : Nat) (writing : Bool) : DataRun m₀ m →
      DataRun m₀ ⟨m.proc, m.mem.setSlot m.proc.id block index writing
        ((m.mem.fast m.proc.id).slot block index writing).emptied⟩
  | other {m m'} : DataRun m₀ m → SamePages m m' → DataRun m₀ m'

/-- Nothing is remembered after `XrInitializeProcessor` and `XrReset`. -/
structure DataStart {β : Type} (m : Machine (XrFastMem β)) : Prop where
  hint : m.proc.dtbLastVpn = -1
  slots : ∀ block index writing,
    ((m.mem.fast m.proc.id).slot block index writing).dtbePointer = none

theorem DataRun.remembers {Last Slot : XrIblockDtbEntry → Prop} (law : RememberLaw Last Slot)
    {m₀ m : Machine (XrFastMem β)} (h₀ : Remembers Last Slot m₀) (h : DataRun m₀ m) :
    Remembers Last Slot m := by
  induction h with
  | start => exact h₀
  | access block r _ ih => exact ih.access law block r
  | @mtcr m rb value _ ih =>
      have hw := xrMtcr_written m.proc rb value
      exact ih.of_same ⟨hw.id, rfl, fun _ _ _ => rfl, hw.dtbHint⟩
  | decode block index writing _ ih =>
      exact ih.setSlot block index writing (law.emptied (ih.slots block index writing))
  | other _ hs ih => exact ih.of_same hs

theorem DataRun.inv {m₀ m : Machine (XrFastMem β)} (h₀ : DataStart m₀) (h : DataRun m₀ m) :
    DataInv m := by
  have hstart : Remembers Filled SlotOk m₀ :=
    ⟨fun hne => absurd h₀.hint hne, fun b i w => Or.inl (h₀.slots b i w)⟩
  obtain ⟨hlast, hslots⟩ := h.remembers filled_law hstart
  exact ⟨hlast, hslots⟩

/-- In every state reached, an access with the MMU on does what the scan of the DTB says if it
may trust its shortcuts, and only then where no remembered entry refuses it. -/
theorem dataTranslation_agrees {m₀ m : Machine (XrFastMem β)} (h₀ : DataStart m₀)
    (h : DataRun m₀ m) (hmmu : m.proc.rs &&& rsMmu ≠ 0) (block : Nat) (r : XrMemReq) :
    (Trusted m block r → SameOutcome m block r) ∧
      (ShortcutPasses m block r → SameOutcome m block r → Trusted m block r) :=
  ⟨sameOutcome_of_trusted (h.inv h₀) hmmu block r, trusted_of_sameOutcome⟩

end

/-! ## Two runs -/

/-- A processor of the fast build just reset. -/
def resetData : Machine (XrFastMem LineRam) :=
  ⟨(XrProcessor.zeroed 0).reset, ⟨fun _ => .zeroed, fun _ => none, .zeroed⟩⟩

/-- MTCR of a list of values to control registers. -/
def mtcrAll (m : Machine (XrFastMem LineRam)) (l : List (Nat × Word)) :
    Machine (XrFastMem LineRam) :=
  ⟨l.foldl (fun p w => xrMtcr p w.1 w.2) m.proc, m.mem⟩

/-- A load of the long at 0x1000. -/
def loadPage : XrMemReq := ⟨0x1000, true, 0, 4, false⟩

/-- The kernel maps page 1 for itself, turns the MMU on and reads the page in block 0. -/
def kernelRead : Machine (XrFastMem LineRam) :=
  (xrDataAccess (mtcrAll resetData
    [(crDtbtag, 1), (crDtbindex, 4), (crDtbpte, 0x47), (crRs, rsMmu)]) 0 loadPage).2

/-- The same processor in user mode. -/
def userAfterKernelRead : Machine (XrFastMem LineRam) :=
  mtcrAll kernelRead [(crRs, rsMmu ||| rsUser)]

theorem DataRun.mtcrAll {m₀ m : Machine (XrFastMem LineRam)} (h : DataRun m₀ m)
    (l : List (Nat × Word)) : DataRun m₀ (mtcrAll m l) := by
  induction l generalizing m with
  | nil => exact h
  | cons w l ih => exact ih (h.mtcr w.1 w.2)

theorem dataStart_resetData : DataStart resetData := by
  refine ⟨rfl, fun block index writing => ?_⟩
  cases writing <;> rfl

theorem dataRun_kernelRead : DataRun resetData kernelRead :=
  ((DataRun.start).mtcrAll _).access 0 loadPage

/-- In kernel mode the block's own entry serves, and rightly. -/
theorem dataTranslation_agrees_kernelRead : SameOutcome kernelRead 0 loadPage := by
  refine (dataTranslation_agrees dataStart_resetData dataRun_kernelRead ?_ 0 loadPage).1 ?_
  · decide
  · have hvalid : slotValid kernelRead.proc (kernelRead.dataSlot 0 loadPage.address
        (!loadPage.read)) loadPage.address (!loadPage.read) = true := by decide
    refine fun _ => ⟨fun _ => by decide, ?_⟩
    rw [if_pos hvalid]
    refine ⟨by decide, 4, ?_, ?_, ?_⟩
    · decide
    · decide
    · decide

/-- In user mode it serves as well: the load goes through to a page of the kernel, and
the scan takes a page fault. -/
theorem userRead_of_kernel_page :
    ¬∀ m₀ m : Machine (XrFastMem LineRam), DataStart m₀ → DataRun m₀ m →
      m.proc.rs &&& rsMmu ≠ 0 → ∀ block r, SameOutcome m block r := by
  intro hall
  have hmmu : userAfterKernelRead.proc.rs &&& rsMmu ≠ 0 := by decide
  have htarget : (dataTarget userAfterKernelRead 0 loadPage.address
      (!loadPage.read)).1.isSome = true := by decide
  have hscan : (scanTranslate userAfterKernelRead loadPage.address (!loadPage.read)).1 = none := by
    decide
  cases hall resetData userAfterKernelRead dataStart_resetData
    (dataRun_kernelRead.mtcrAll _) hmmu 0 loadPage with
  | unaligned odd => exact absurd odd (by decide)
  | fault m' _ _ target => rw [target] at htarget; cases htarget
  | page e m' _ scan => rw [hscan] at scan; cases scan

end Xremu
