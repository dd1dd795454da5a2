import Xremu.Devices.HostPath
import Xremu.Fast.TbFlush
import Xremu.Interp.Related

/-!
# The pages that a processor reaches

With the MMU on, the fast build loads and stores in the pages of the DTB entries that pass
its checks, and in the page behind the lookup hint; it fetches in those of the ITB. So two
memories that agree there answer an access and a fetch alike, as long as what a block
remembers of a page passes the checks too (`Guarded`). They are related by `FastAlike`, over
a relation of the two buses that the bus operations on these pages keep (`BusesAlike`).
-/

namespace Xremu

open XrFastMem Concurrency

/-- The start of the page of an address. -/
def pageStart (address : Nat) : Nat := address / 4096 * 4096

section

variable {β : Type}

/-- An entry of the DTB, or the one behind the lookup hint. -/
def DtbKnows (m : Machine (XrFastMem β)) (tbe : BitVec 64) : Prop :=
  (∃ i, i < xrTbSize ∧ m.proc.dtb i = tbe) ∨
    (m.proc.dtbLastVpn ≠ -1 ∧ (m.mem.fast m.proc.id).dtbLastEntry.matchingDtbe = tbe)

def ItbKnows (m : Machine (XrFastMem β)) (tbe : BitVec 64) : Prop :=
  (∃ i, i < xrTbSize ∧ m.proc.itb i = tbe) ∨
    (m.proc.itbLastVpn ≠ -1 ∧ m.proc.itbLastResult = tbe)

/-- A page that may be loaded from, or stored to. -/
def DataPage (m : Machine (XrFastMem β)) (writing : Bool) (page : Nat) : Prop :=
  ∃ tbe, DtbKnows m tbe ∧ tbeFault m.proc tbe writing = none ∧ (frameOf tbe).toNat = page

def CodePage (m : Machine (XrFastMem β)) (page : Nat) : Prop :=
  ∃ tbe, ItbKnows m tbe ∧ tbeFault m.proc tbe false = none ∧ (frameOf tbe).toNat = page

/-- A page whose bytes count. -/
def SeenPage (m : Machine (XrFastMem β)) (page : Nat) : Prop :=
  DataPage m false page ∨ CodePage m page

/-- What may be stored to may be loaded. -/
theorem tbeFault_load {p : XrProcessor} {tbe : BitVec 64} {writing : Bool}
    (h : tbeFault p tbe writing = none) : tbeFault p tbe false = none := by
  obtain ⟨hvalid, hkernel⟩ := tbeFault_none h
  unfold tbeFault
  rw [if_neg hvalid, if_neg hkernel, if_neg (by simp)]

theorem DataPage.seen {m : Machine (XrFastMem β)} {writing : Bool} {page : Nat}
    (h : DataPage m writing page) : SeenPage m page := by
  obtain ⟨tbe, hknows, hok, hpage⟩ := h
  exact .inl ⟨tbe, hknows, tbeFault_load hok, hpage⟩

/-- The processor has the translations and the mode that it had. -/
structure SameSpace (p₀ p : XrProcessor) : Prop where
  id : p.id = p₀.id
  itb : p.itb = p₀.itb
  dtb : p.dtb = p₀.dtb
  cr : p.cr = p₀.cr

theorem SameSpace.tbeFault {p₀ p : XrProcessor} (h : SameSpace p₀ p) (tbe : BitVec 64)
    (writing : Bool) : tbeFault p tbe writing = tbeFault p₀ tbe writing := by
  have hrs : p.rs = p₀.rs := congrFun h.cr crRs
  unfold Xremu.tbeFault
  rw [hrs]

/-! ## The buses -/

/-- The same reply, and buses that are related. -/
structure RepliesAlike {α : Type} (Q : β → β → Prop) (x y : EBusReply β α) : Prop where
  bus : Q x.bus y.bus
  progress : y.progress = x.progress
  reply : y.reply = x.reply

/-- Accesses to these pages are answered alike. -/
structure BusesAlike [EBusHost β] (sees : Nat → Prop) (data : Bool → Nat → Prop)
    (Q : β → β → Prop) : Prop where
  translate : ∀ {a b}, Q a b → ∀ page, EBusHost.translate b page = EBusHost.translate a page
  hostRead : ∀ {a b}, Q a b → ∀ {address k}, address < 0x100000000 → sees (pageStart address) →
    address % 4096 + k < 4096 → EBusHost.hostRead b address k = EBusHost.hostRead a address k
  hostWrite : ∀ {a b}, Q a b → ∀ {address length}, address < 0x100000000 →
    data true (pageStart address) → address % 4096 + length ≤ 4096 → ∀ src,
    Q (EBusHost.hostWrite a address src length) (EBusHost.hostWrite b address src length)
  read : ∀ {a b}, Q a b → ∀ {address length}, address < 0x100000000 →
    data false (pageStart address) → address % 4096 + length ≤ 4096 → ∀ p,
    RepliesAlike Q (EBus.read a p address length) (EBus.read b p address length)
  write : ∀ {a b}, Q a b → ∀ {address length}, address < 0x100000000 →
    data true (pageStart address) → address % 4096 + length ≤ 4096 → ∀ p src,
    RepliesAlike Q (EBus.write a p address src length) (EBus.write b p address src length)

/-- Memories that differ in their buses only, and remember what `m₀` knows of pages. -/
structure FastAlike (Q : β → β → Prop) (m₀ : Machine (XrFastMem β)) (h : XrHints)
    (a b : XrFastMem β) : Prop where
  fast : b.fast = a.fast
  l2 : b.l2ClaimTable = a.l2ClaimTable
  bus : Q a.bus b.bus
  dtb : h.dtbLastVpn ≠ -1 → DtbKnows m₀ (a.fast m₀.proc.id).dtbLastEntry.matchingDtbe
  itb : h.itbLastVpn ≠ -1 → ItbKnows m₀ h.itbLastResult

variable {Q : β → β → Prop} {m₀ m n : Machine (XrFastMem β)} {sees : Nat → Prop}
  {data : Bool → Nat → Prop}

/-- Bus operations that are related, on memories that are. -/
theorem FastAlike.withBus {h : XrHints} {a b : XrFastMem β} (hmem : FastAlike Q m₀ h a b)
    {x y : β} (hbus : Q x y) : FastAlike Q m₀ h { a with bus := x } { b with bus := y } :=
  ⟨hmem.fast, hmem.l2, hbus, hmem.dtb, hmem.itb⟩

theorem fast_buildsAlike [EBusHost β] : BuildsAlike (FastAlike Q m₀) where
  forgetItb h := ⟨h.fast, h.l2, h.bus, h.dtb, fun hne => absurd rfl hne⟩
  forgetDtb h := ⟨h.fast, h.l2, h.bus, fun hne => absurd rfl hne, h.itb⟩
  reset h := h
  flushWriteBuffer h := h
  icachectrl _ h := h
  dcachectrl _ h := h
  drain h := h
  emptyDtbCache {m n} block h := by
    obtain ⟨p, a⟩ := m
    obtain ⟨q, b⟩ := n
    obtain ⟨hproc, hmem⟩ := h
    obtain rfl : q = p := hproc
    have hsame : b.fast = a.fast := hmem.fast
    refine ⟨rfl, ?_, hmem.l2, hmem.bus, ?_, hmem.itb⟩
    · show (b.setFast q.id _).fast = (a.setFast q.id _).fast
      simp only [setFast, hsame]
    · intro hne
      have hknows := hmem.dtb hne
      show DtbKnows m₀ ((a.setFast q.id _).fast m₀.proc.id).dtbLastEntry.matchingDtbe
      by_cases hid : m₀.proc.id = q.id
      · rw [hid] at hknows ⊢
        simpa [setFast, XrFast.emptyDtbCache] using hknows
      · simpa [setFast, hid] using hknows

/-! ## Data translation -/

variable [EBusHost β]

theorem eBusTranslate_alike (hbus : BusesAlike sees data Q) {a b : β} (h : Q a b) (page : Word) :
    eBusTranslate b page = eBusTranslate a page := by
  unfold eBusTranslate
  rw [hbus.translate h]

theorem translateDstream_alike (hbus : BusesAlike sees data Q)
    (h : m.Related (FastAlike Q m₀) n) (hspace : SameSpace m₀.proc m.proc) (virtual : Word)
    (writing : Bool) :
    AnswersAlike (FastAlike Q m₀) (xrTranslateDstream m virtual writing)
      (xrTranslateDstream n virtual writing) := by
  obtain ⟨p, a⟩ := m
  obtain ⟨q, b⟩ := n
  have hproc := h.proc
  obtain rfl : q = p := hproc
  have hmem : FastAlike Q m₀ q.hints a b := h.mem
  unfold xrTranslateDstream
  refine alike_ite rfl (fun hint => ?_) fun hother => ?_
  · have hlast : (b.fast q.id).dtbLastEntry = (a.fast q.id).dtbLastEntry := by rw [hmem.fast]
    dsimp only
    rw [hlast]
    cases tbeFault q (a.fast q.id).dtbLastEntry.matchingDtbe writing with
    | some f => exact ⟨rfl, related_take fast_buildsAlike h f virtual writing⟩
    | none => exact ⟨rfl, h⟩
  · unfold xrLookupDtb
    dsimp only
    cases hscan : tbScan q.dtb (tbMatching (q.cr crDtbtag) virtual) with
    | none => exact ⟨rfl, related_tbMiss fast_buildsAlike h _ _ _ virtual writing⟩
    | some i =>
        dsimp only
        cases tbeFault q (q.dtb i) writing with
        | some f => exact ⟨rfl, related_take fast_buildsAlike h f virtual writing⟩
        | none =>
            dsimp only
            rw [eBusTranslate_alike hbus hmem.bus]
            refine ⟨rfl, rfl, ?_, hmem.l2, hmem.bus, fun _ => .inl ?_, hmem.itb⟩
            · simp only [setDtbLast, setFast, hmem.fast]
            · refine ⟨i, tbScan_lt hscan, ?_⟩
              have hid : m₀.proc.id = q.id := hspace.id.symm
              have hdtb : m₀.proc.dtb = q.dtb := hspace.dtb.symm
              rw [hid, hdtb]
              simp [setDtbLast, setFast]

theorem dataTarget_alike (hbus : BusesAlike sees data Q) (h : m.Related (FastAlike Q m₀) n)
    (hspace : SameSpace m₀.proc m.proc) (block : Nat) (virtual : Word) (writing : Bool) :
    AnswersAlike (FastAlike Q m₀) (dataTarget m block virtual writing)
      (dataTarget n block virtual writing) := by
  have htranslate := translateDstream_alike hbus h hspace virtual writing
  have hfast : n.mem.fast n.proc.id = m.mem.fast m.proc.id := by rw [h.mem.fast, h.proc]
  unfold dataTarget
  rw [hfast, h.proc]
  refine alike_ite rfl (fun _ => ⟨rfl, h⟩) fun _ => ?_
  generalize xrTranslateDstream m virtual writing = x at htranslate ⊢
  generalize xrTranslateDstream n virtual writing = y at htranslate ⊢
  obtain ⟨e, m₁⟩ := x
  obtain ⟨e', n₁⟩ := y
  obtain ⟨he, hm₁⟩ := htranslate
  obtain rfl : e' = e := he
  cases e' with
  | none => exact ⟨rfl, hm₁⟩
  | some e =>
      obtain ⟨p, a⟩ := m₁
      obtain ⟨q, b⟩ := n₁
      obtain ⟨hproc, hmem⟩ := hm₁
      obtain rfl : q = p := hproc
      have hsame : b.fast = a.fast := hmem.fast
      have hlast : ∀ id,
          ((a.setSlot q.id block (dtbCacheIndex virtual) writing e).fast id).dtbLastEntry =
            (a.fast id).dtbLastEntry := by
        intro id
        by_cases hid : id = q.id
        · subst hid
          cases writing <;> simp [setSlot, setFast]
        · cases writing <;> simp [setSlot, setFast, hid]
      refine ⟨rfl, rfl, ?_, ?_, ?_, ?_, hmem.itb⟩
      · cases writing <;> simp [setSlot, setFast, hsame]
      · cases writing <;> exact hmem.l2
      · cases writing <;> exact hmem.bus
      · intro hne
        show DtbKnows m₀
          ((a.setSlot q.id block _ writing e).fast m₀.proc.id).dtbLastEntry.matchingDtbe
        rw [hlast]
        exact hmem.dtb hne

/-! ## The page of an access -/

/-- What a block remembers of a page is there, and passes the checks that a scan would make. -/
structure Guarded (m : Machine (XrFastMem β)) (block : Nat) (virtual : Word)
    (writing : Bool) : Prop where
  assigned : m.SlotAssigned block virtual writing
  passes : slotValid m.proc (m.dataSlot block virtual writing) virtual writing = true →
    tbeFault m.proc (m.dataSlot block virtual writing).matchingDtbe writing = none

/-- A page that was reachable in `m₀`, with the right host memory. -/
structure Reaches (m₀ : Machine (XrFastMem β)) (writing : Bool) (e : XrIblockDtbEntry) : Prop where
  filled : Filled e
  page : DataPage m₀ writing (frameOf e.matchingDtbe).toNat

/-- What is remembered of pages, and where it comes from. -/
structure PagesKnown (m₀ m : Machine (XrFastMem β)) : Prop where
  filled : Remembers Filled SlotOk m
  inDtb : Remembers InDtb InDtb m
  space : SameSpace m₀.proc m.proc
  hint : m.proc.dtbLastVpn ≠ -1 → DtbKnows m₀ (m.mem.fast m₀.proc.id).dtbLastEntry.matchingDtbe

omit [EBusHost β] in
theorem PagesKnown.dtb (h : PagesKnown m₀ m) {i : Nat} (hi : i < xrTbSize) :
    DtbKnows m₀ (m.proc.dtb i) :=
  .inl ⟨i, hi, (congrFun h.space.dtb i).symm⟩

theorem PagesKnown.translated {m' : Machine (XrFastMem β)} (h : PagesKnown m₀ m) {virtual : Word}
    {writing : Bool} {e : XrIblockDtbEntry}
    (hout : xrTranslateDstream m virtual writing = (some e, m')) : Reaches m₀ writing e := by
  refine ⟨(h.filled.translateDstream filled_law hout).2 e rfl, ?_⟩
  cases translatesDstream hout with
  | remembered hint ok =>
      have hknows := h.hint (hint ▸ vpnOf_ne_hint virtual)
      rw [← h.space.id] at hknows
      exact ⟨_, hknows, h.space.tbeFault _ _ ▸ ok, rfl⟩
  | @found i other scan ok => exact ⟨_, h.dtb (tbScan_lt scan), h.space.tbeFault _ _ ▸ ok, rfl⟩

theorem PagesKnown.target {m' : Machine (XrFastMem β)} (h : PagesKnown m₀ m) {block : Nat}
    {virtual : Word} {writing : Bool} {e : XrIblockDtbEntry}
    (hguard : Guarded m block virtual writing)
    (hout : dataTarget m block virtual writing = (some e, m')) : Reaches m₀ writing e := by
  cases findsTarget hout with
  | slot valid =>
      have hok := hguard.passes valid
      obtain ⟨i, hi, hdtb⟩ := h.inDtb.slot_inDtb valid
      have hfilled := (h.filled.slots block _ writing).filled valid hok
      refine ⟨hfilled, _, ?_, h.space.tbeFault _ _ ▸ hok, rfl⟩
      rw [← hdtb]
      exact h.dtb hi
  | translated translate => exact h.translated translate

/-! ## Claims -/

omit [EBusHost β] in
theorem dropClaim_bus (p i : Nat) (a : XrFastMem β) (c : β) :
    dropClaim p i { a with bus := c } = { dropClaim p i a with bus := c } := by
  have hl1 : XrFastMem.l1 { a with bus := c } p i = a.l1 p i := rfl
  unfold dropClaim
  rw [hl1]
  cases a.l1 p i with
  | none => rfl
  | some k => rfl

omit [EBusHost β] in
theorem invalidateRemote_bus (j : Nat) (a : XrFastMem β) (c : β) :
    ((invalidateRemote j).run { a with bus := c }).2 =
      { ((invalidateRemote j).run a).2 with bus := c } := by
  simp only [invalidateRemote, Prog.run_bind, Prog.run_get]
  cases hl2 : a.l2ClaimTable j with
  | none => rfl
  | some remote =>
      simp only [Prog.run_bind, Prog.run_acquire, Prog.run_modify, Prog.run_release, hl2]
      rfl

/-- A claim does not touch the bus, but for the value that it returns. -/
theorem claimAddress_bus (p : Nat) (phyaddr : Word) (address : Nat) (a : XrFastMem β) (c : β) :
    (xrClaimAddress p phyaddr address).run { a with bus := c } =
      (zext (EBusHost.hostRead c address) 4,
        { ((xrClaimAddress p phyaddr address).run a).2 with bus := c }) := by
  have hl1 : XrFastMem.l1 { a with bus := c } p (xrL1ClaimIndex phyaddr) =
      a.l1 p (xrL1ClaimIndex phyaddr) := rfl
  simp only [xrClaimAddress, Prog.run_bind, Prog.run_acquire, Prog.run_get, hl1]
  by_cases hj : a.l1 p (xrL1ClaimIndex phyaddr) = some (xrL2ClaimIndex phyaddr)
  · simp only [hj, if_true]
    rfl
  · simp only [hj, if_false]
    simp only [claimEntry, Prog.run_bind, Prog.run_modify, Prog.run_release, Prog.run_acquire,
      Prog.run_get, Prog.run_pure, dropClaim_bus, invalidateRemote_bus]
    rfl

theorem claimAddress_same (p : Nat) (phyaddr : Word) (address : Nat) (a : XrFastMem β) :
    ((xrClaimAddress p phyaddr address).run a).1 = zext (EBusHost.hostRead a.bus address) 4 ∧
      ((xrClaimAddress p phyaddr address).run a).2.bus = a.bus := by
  have hrun := claimAddress_bus p phyaddr address a a.bus
  exact ⟨congrArg Prod.fst hrun, congrArg (fun out => out.2.bus) hrun⟩

omit [EBusHost β] in
theorem FastAlike.onlyBus {h : XrHints} {a b : XrFastMem β} (hmem : FastAlike Q m₀ h a b) :
    b = { a with bus := b.bus } := by
  obtain ⟨hfast, hl2, -⟩ := hmem
  cases a
  cases b
  cases hfast
  cases hl2
  rfl

theorem claimAddress_alike {h : XrHints} {a b : XrFastMem β} (hmem : FastAlike Q m₀ h a b) (p : Nat)
    (phyaddr : Word) (address : Nat) :
    FastAlike Q m₀ h ((xrClaimAddress p phyaddr address).run a).2
      ((xrClaimAddress p phyaddr address).run b).2 := by
  have hrun : ((xrClaimAddress p phyaddr address).run b).2 =
      { ((xrClaimAddress p phyaddr address).run a).2 with bus := b.bus } := by
    have hb := hmem.onlyBus
    generalize b.bus = c at hb ⊢
    subst hb
    exact congrArg Prod.snd (claimAddress_bus p phyaddr address a c)
  rw [hrun]
  refine ⟨rfl, rfl, ?_, fun hne => ?_, hmem.itb⟩
  · rw [(claimAddress_same p phyaddr address a).2]
    exact hmem.bus
  · rw [(sameEntries_claimAddress a p phyaddr address m₀.proc.id).1]
    exact hmem.dtb hne

theorem storeIfClaimed_alike {h : XrHints} {a b : XrFastMem β} (hmem : FastAlike Q m₀ h a b)
    (p : Nat) (phyaddr : Word) (address : Nat) (val : Word)
    (hstore : Q (EBusHost.hostWrite a.bus address (byteOf val) 4)
      (EBusHost.hostWrite b.bus address (byteOf val) 4)) :
    ((xrStoreIfClaimed p phyaddr address val).run b).1 =
        ((xrStoreIfClaimed p phyaddr address val).run a).1 ∧
      FastAlike Q m₀ h ((xrStoreIfClaimed p phyaddr address val).run a).2
        ((xrStoreIfClaimed p phyaddr address val).run b).2 := by
  have hl1 : b.l1 p (xrL1ClaimIndex phyaddr) = a.l1 p (xrL1ClaimIndex phyaddr) := by
    unfold XrFastMem.l1
    rw [hmem.fast]
  simp only [xrStoreIfClaimed, Prog.run_bind, Prog.run_acquire, Prog.run_get, hl1]
  by_cases hj : a.l1 p (xrL1ClaimIndex phyaddr) = some (xrL2ClaimIndex phyaddr)
  · simp only [hj, ne_eq, not_true_eq_false, if_false]
    exact ⟨rfl, hmem.withBus hstore⟩
  · simp only [hj, ne_eq, not_false_eq_true, if_true]
    exact ⟨rfl, hmem⟩

/-! ## The access -/

/-- The bytes of an access are in the page of its entry. -/
theorem phys_start (e : XrIblockDtbEntry) (address : Word) :
    pageStart (e.phys address).toNat = (frameOf e.matchingDtbe).toNat := phys_page e address

/-- The processor requests of instructions. -/
structure XrMemReq.Fits (r : XrMemReq) : Prop where
  length : r.length = 1 ∨ r.length = 2 ∨ r.length = 4
  long : r.sc = true → r.length = 4

/-- An aligned access is in one page. -/
theorem XrMemReq.Fits.page {r : XrMemReq} (h : r.Fits) (haligned : r.aligned = true)
    (e : XrIblockDtbEntry) : (e.phys r.address).toNat % 4096 + r.length ≤ 4096 := by
  have hmod : r.address.toNat % r.length = 0 := 
    aligned_of_mask h.length (by simpa [XrMemReq.aligned] using haligned)
  rw [phys_offset]
  exact page_end h.length hmod

/-- An exception with a bad address. -/
theorem address_alike (h : m.Related (FastAlike Q m₀) n) (address exc : Word) :
    (xrBasicException (m.setCr crEbadaddr address) exc m.proc.pc).Related (FastAlike Q m₀)
      (xrBasicException (n.setCr crEbadaddr address) exc n.proc.pc) := by
  rw [h.proc]
  exact related_basic fast_buildsAlike
    (h.update (fun p => p.setCr crEbadaddr address) rfl) exc m.proc.pc

omit [EBusHost β] in
theorem busReply_alike (h : m.Related (FastAlike Q m₀) n) {α : Type} {x y : EBusReply β α}
    (hreply : RepliesAlike Q x y) :
    (busReply m x).Related (FastAlike Q m₀) (busReply n y) := by
  obtain ⟨p, a⟩ := m
  obtain ⟨q, b⟩ := n
  have hproc := h.proc
  obtain rfl : q = p := hproc
  unfold busReply
  rw [hreply.progress]
  exact ⟨rfl, h.mem.withBus hreply.bus⟩

theorem directRead_alike (h : m.Related (FastAlike Q m₀) n) {address : Word} {r : XrMemReq}
    (hreply : RepliesAlike Q (EBus.read m.mem.bus m.proc address.toNat r.length)
      (EBus.read n.mem.bus n.proc address.toNat r.length)) :
    AnswersAlike (FastAlike Q m₀) (directRead m address r) (directRead n address r) := by
  unfold directRead
  dsimp only
  rw [hreply.reply]
  cases (EBus.read m.mem.bus m.proc address.toNat r.length).reply with
  | some bytes => exact ⟨rfl, busReply_alike h hreply⟩
  | none => exact ⟨rfl, address_alike (busReply_alike h hreply) address excBus⟩

theorem directWrite_alike (h : m.Related (FastAlike Q m₀) n) {address : Word} {r : XrMemReq}
    (hreply : RepliesAlike Q
      (EBus.write m.mem.bus m.proc address.toNat (byteOf r.srcvalue) r.length)
      (EBus.write n.mem.bus n.proc address.toNat (byteOf r.srcvalue) r.length)) :
    AnswersAlike (FastAlike Q m₀) (directWrite m address r) (directWrite n address r) := by
  unfold directWrite
  dsimp only
  rw [hreply.reply]
  refine alike_ite rfl (fun _ => ?_) fun _ => ?_
  · exact ⟨rfl, busReply_alike h hreply⟩
  · exact ⟨rfl, address_alike (busReply_alike h hreply) address excBus⟩

variable {e : XrIblockDtbEntry} {r : XrMemReq}

theorem readTarget_alike (hbus : BusesAlike (SeenPage m₀) (DataPage m₀) Q)
    (h : m.Related (FastAlike Q m₀) n) (he : Reaches m₀ false e) (hr : r.Fits)
    (haligned : r.aligned = true) :
    AnswersAlike (FastAlike Q m₀) (readTarget m e r) (readTarget n e r) := by
  have hmem := h.mem
  have hlt : (e.phys r.address).toNat < 0x100000000 := (e.phys r.address).isLt
  have hpage : DataPage m₀ false (pageStart (e.phys r.address).toNat) := by
    rw [phys_start]
    exact he.page
  have hend := hr.page haligned e
  have hbytes : ∀ k, k < r.length → EBusHost.hostRead n.mem.bus (e.phys r.address).toNat k =
      EBusHost.hostRead m.mem.bus (e.phys r.address).toNat k :=
    fun k hk => hbus.hostRead hmem.bus hlt hpage.seen (by omega)
  unfold readTarget
  rw [he.filled.goes]
  cases e.hostPointer with
  | none =>
      refine directRead_alike h ?_
      rw [h.proc]
      exact hbus.read hmem.bus hlt hpage hend m.proc
  | some page =>
      dsimp only
      refine alike_ite rfl (fun hsc => ?_) fun _ => ?_
      · rw [hr.long hsc] at hbytes
        refine ⟨?_, h.proc, ?_⟩
        · dsimp only
          rw [(claimAddress_same _ _ _ n.mem).1, (claimAddress_same _ _ _ m.mem).1,
            zext_congr hbytes]
        · rw [h.proc]
          exact claimAddress_alike hmem _ _ _
      · rw [zext_congr hbytes]
        exact ⟨rfl, h⟩

theorem writeTarget_alike (hbus : BusesAlike (SeenPage m₀) (DataPage m₀) Q)
    (h : m.Related (FastAlike Q m₀) n) (he : Reaches m₀ true e) (hr : r.Fits)
    (haligned : r.aligned = true) :
    AnswersAlike (FastAlike Q m₀) (writeTarget m e r) (writeTarget n e r) := by
  have hmem := h.mem
  have hlt : (e.phys r.address).toNat < 0x100000000 := (e.phys r.address).isLt
  have hpage : DataPage m₀ true (pageStart (e.phys r.address).toNat) := by
    rw [phys_start]
    exact he.page
  have hend := hr.page haligned e
  unfold writeTarget
  rw [he.filled.goes]
  cases e.hostPointer with
  | none =>
      refine directWrite_alike h ?_
      rw [h.proc]
      exact hbus.write hmem.bus hlt hpage hend m.proc _
  | some page =>
      dsimp only
      refine alike_ite rfl (fun hsc => ?_) fun _ => ?_
      · rw [hr.long hsc] at hend
        obtain ⟨hstored, halike⟩ := storeIfClaimed_alike hmem m.proc.id (e.phys r.address)
          (e.phys r.address).toNat r.srcvalue (hbus.hostWrite hmem.bus hlt hpage hend _)
        rw [h.proc]
        refine ⟨?_, rfl, halike⟩
        dsimp only
        rw [hstored]
      · exact ⟨rfl, h.proc, hmem.withBus (hbus.hostWrite hmem.bus hlt hpage hend _)⟩

theorem accessTarget_alike (hbus : BusesAlike (SeenPage m₀) (DataPage m₀) Q)
    (h : m.Related (FastAlike Q m₀) n) (he : Reaches m₀ (!r.read) e) (hr : r.Fits)
    (haligned : r.aligned = true) :
    AnswersAlike (FastAlike Q m₀) (accessTarget m e r) (accessTarget n e r) := by
  unfold accessTarget
  refine alike_ite rfl (fun hread => ?_) fun hread => ?_
  · rw [hread] at he
    exact readTarget_alike hbus h he hr haligned
  · rw [Bool.eq_false_of_not_eq_true hread] at he
    exact writeTarget_alike hbus h he hr haligned

/-- An access with the MMU on. -/
theorem dataAccess_alike (hbus : BusesAlike (SeenPage m₀) (DataPage m₀) Q)
    (h : m.Related (FastAlike Q m₀) n) (hknown : PagesKnown m₀ m) (hmmu : m.proc.rs &&& rsMmu ≠ 0)
    (hr : r.Fits) {block : Nat} (hguard : Guarded m block r.address (!r.read)) :
    AnswersAlike (FastAlike Q m₀) (xrDataAccess m block r) (xrDataAccess n block r) := by
  have hmmu' : n.proc.rs &&& rsMmu ≠ 0 := by rwa [h.proc]
  rw [xrDataAccess_eq, xrDataAccess_eq]
  refine alike_ite rfl (fun _ => ⟨rfl, address_alike h r.address excUna⟩) fun haligned => ?_
  rw [if_pos hmmu, if_pos hmmu']
  have htarget := dataTarget_alike hbus h hknown.space block r.address (!r.read)
  cases hout : dataTarget m block r.address (!r.read) with
  | mk out m₁ =>
      rw [hout] at htarget
      generalize dataTarget n block r.address (!r.read) = y at htarget ⊢
      obtain ⟨out', n₁⟩ := y
      obtain ⟨he, hm₁⟩ := htarget
      obtain rfl : out' = out := he
      cases out' with
      | none => exact ⟨rfl, hm₁⟩
      | some e =>
          have hreaches := hknown.target hguard hout
          exact accessTarget_alike hbus hm₁ hreaches hr (by simpa using haligned)

/-! ## Fetching -/

theorem mask_frame : ∀ i, i < 32 → (0x1FFFFE0 : BitVec 64).getLsbD i = decide (5 ≤ i ∧ i < 25) := by
  decide

/-- The frame of a page as the instruction fetch computes it. -/
theorem frameOf_mask (tbe : BitVec 64) :
    frameOf tbe = (((tbe &&& 0x1FFFFE0) <<< 7).setWidth 32 : Word) := by
  apply BitVec.eq_of_getLsbD_eq
  intro i hi
  unfold frameOf
  simp only [BitVec.getLsbD_setWidth, BitVec.getLsbD_shiftLeft, BitVec.getLsbD_ushiftRight,
    BitVec.getLsbD_and, hi]
  rw [mask_frame (i - 7) (by omega)]
  by_cases h12 : i < 12
  · have hlow : ¬(5 ≤ i - 7 ∧ i - 7 < 25) := by omega
    simp [h12, hlow]
  · have hhigh : 5 ≤ i - 7 ∧ i - 7 < 25 := by omega
    have hbit : 5 + (i - 12) = i - 7 := by omega
    have h7 : ¬i < 7 := by omega
    simp [h12, hhigh, hbit, h7]

theorem physOf_start (tbe : BitVec 64) (virtual : Word) :
    pageStart (physOf tbe virtual).toNat = (frameOf tbe).toNat := by
  have hframe : (frameOf tbe).toNat = ((tbe &&& 0x1FFFFE0) <<< 7).toNat % 4294967296 := by
    rw [frameOf_mask]
    rfl
  have hmod := frameOf_mod tbe
  have hlt := (frameOf tbe).isLt
  unfold pageStart
  rw [physOf_toNat]
  omega

theorem istreamLookup_alike (h : m.Related (FastAlike Q m₀) n) (virtual : Word) :
    AnswersAlike (FastAlike Q m₀) (istreamLookup m virtual) (istreamLookup n virtual) := by
  obtain ⟨p, a⟩ := m
  obtain ⟨q, b⟩ := n
  have hproc := h.proc
  obtain rfl : q = p := hproc
  unfold istreamLookup xrLookupItb
  refine alike_ite rfl (fun _ => ⟨rfl, h⟩) fun _ => ?_
  dsimp only
  cases tbScan q.itb (tbMatching (q.cr crItbtag) virtual) with
  | none => exact ⟨rfl, related_tbMiss fast_buildsAlike h _ _ _ virtual false⟩
  | some i => exact ⟨rfl, h⟩

/-- What a fetch translates to, if it does. -/
def FetchedFrom (m₀ m : Machine (XrFastMem β))
    (x : Option (Word × BitVec 64) × Machine (XrFastMem β)) (virtual : Word) : Prop :=
  ∀ fetchpc flags, x.1 = some (fetchpc, flags) →
    fetchpc.toNat % 4096 = virtual.toNat % 4096 ∧ CodePage m₀ (pageStart fetchpc.toNat) ∧
      x.2.proc.pc = m.proc.pc

omit [EBusHost β] in
theorem istreamLookup_knows {m' : Machine (XrFastMem β)} {virtual : Word} {tbe : BitVec 64}
    (hspace : SameSpace m₀.proc m.proc)
    (hhint : m.proc.itbLastVpn ≠ -1 → ItbKnows m₀ m.proc.itbLastResult)
    (h : istreamLookup m virtual = (some tbe, m')) : ItbKnows m₀ tbe ∧ m' = m := by
  unfold istreamLookup xrLookupItb at h
  split at h
  · next hlast =>
      cases h
      exact ⟨hhint (hlast ▸ vpnOf_ne_hint virtual), rfl⟩
  · cases hscan : tbScan m.proc.itb (tbMatching (m.proc.cr crItbtag) virtual) with
    | none =>
        rw [hscan] at h
        cases h
    | some i =>
        rw [hscan] at h
        cases h
        exact ⟨.inl ⟨i, tbScan_lt hscan, (congrFun hspace.itb i).symm⟩, rfl⟩

theorem translateIstream_alike (h : m.Related (FastAlike Q m₀) n)
    (hspace : SameSpace m₀.proc m.proc) (virtual : Word) :
    AnswersAlike (FastAlike Q m₀) (xrTranslateIstream m virtual) (xrTranslateIstream n virtual) ∧
      FetchedFrom m₀ m (xrTranslateIstream m virtual) virtual := by
  have hlookup := istreamLookup_alike h virtual
  unfold xrTranslateIstream
  cases hout : istreamLookup m virtual with
  | mk out m₁ =>
      rw [hout] at hlookup
      generalize istreamLookup n virtual = y at hlookup ⊢
      obtain ⟨out', n₁⟩ := y
      obtain ⟨he, hm₁⟩ := hlookup
      obtain rfl : out' = out := he
      cases out' with
      | none =>
          refine ⟨⟨rfl, hm₁⟩, ?_⟩
          rintro fetchpc flags ⟨⟩
      | some tbe =>
          obtain ⟨hknows, rfl⟩ := istreamLookup_knows hspace h.mem.itb hout
          have hproc : n₁.proc = m₁.proc := hm₁.proc
          dsimp only
          rw [hproc]
          cases hfault : tbeFault m₁.proc tbe false with
          | some f =>
              refine ⟨⟨rfl, related_take fast_buildsAlike hm₁ f virtual false⟩, ?_⟩
              rintro fetchpc flags ⟨⟩
          | none =>
              refine ⟨⟨rfl, rfl, ?_⟩, ?_⟩
              · have hmem := hm₁.mem
                exact ⟨hmem.fast, hmem.l2, hmem.bus, hmem.dtb, fun _ => hknows⟩
              · rintro fetchpc flags ⟨⟩
                have hstart := (physOf_start tbe virtual).symm
                refine ⟨physOf_offset tbe virtual, ⟨tbe, hknows, ?_, hstart⟩, rfl⟩
                rw [← hspace.tbeFault]
                exact hfault

omit [EBusHost β] in
theorem instCount_page {pc fetchpc : Word} (hoff : fetchpc.toNat % 4096 = pc.toNat % 4096) {k : Nat}
    (hk : k < xrInstCount pc pc) : fetchpc.toNat % 4096 + 4 * k + 4 ≤ 4096 := by
  rw [xrInstCount_eq rfl] at hk
  omega

/-- The words of a block, in one page. -/
theorem fetchHost_alike (hbus : BusesAlike (SeenPage m₀) (DataPage m₀) Q)
    (h : m.Related (FastAlike Q m₀) n) {fetchpc : Word}
    (hoff : fetchpc.toNat % 4096 = m.proc.pc.toNat % 4096)
    (hpage : CodePage m₀ (pageStart fetchpc.toNat)) (flags : BitVec 64) :
    AnswersAlike (FastAlike Q m₀) (fetchHost m m.proc.pc fetchpc flags)
      (fetchHost n n.proc.pc fetchpc flags) := by
  have herror := address_alike h m.proc.pc excBus
  rw [h.proc] at herror ⊢
  unfold fetchHost
  rw [eBusTranslate_alike hbus h.mem.bus]
  cases hir : eBusTranslate m.mem.bus fetchpc with
  | none =>
      refine ⟨rfl, ?_⟩
      unfold directBusError
      dsimp only
      rw [Machine.setCr_proc, Machine.setCr_proc, h.proc]
      exact herror
  | some ir =>
      obtain rfl : ir = fetchpc := by
        unfold eBusTranslate at hir
        split at hir
        · exact (Option.some.inj hir).symm
        · cases hir
      have hwords : hostWords n.mem.bus ir (xrInstCount m.proc.pc m.proc.pc) =
          hostWords m.mem.bus ir (xrInstCount m.proc.pc m.proc.pc) := by
        refine List.map_congr_left fun k hk => ?_
        have hend := instCount_page hoff (List.mem_range.mp hk)
        have hlt := ir.isLt
        have hseen : SeenPage m₀ (pageStart (ir.toNat + 4 * k)) := by
          have hstart : pageStart (ir.toNat + 4 * k) = pageStart ir.toNat := by
            unfold pageStart
            omega
          rw [hstart]
          exact .inr hpage
        refine zext_congr fun b hb => ?_
        exact hbus.hostRead h.mem.bus (by omega) hseen (by omega)
      dsimp only
      rw [hwords]
      exact ⟨rfl, h⟩

/-- A fetch with the MMU on. -/
theorem fetch_alike (hbus : BusesAlike (SeenPage m₀) (DataPage m₀) Q)
    (h : m.Related (FastAlike Q m₀) n) (hspace : SameSpace m₀.proc m.proc)
    (hmmu : m.proc.rs &&& rsMmu ≠ 0) :
    AnswersAlike (FastAlike Q m₀) (fastFetch m) (fastFetch n) := by
  have hmmu' : n.proc.rs &&& rsMmu ≠ 0 := by rwa [h.proc]
  obtain ⟨htranslate, hfrom⟩ := translateIstream_alike h hspace m.proc.pc
  unfold fastFetch
  rw [if_pos hmmu, if_pos hmmu', h.proc]
  generalize xrTranslateIstream m m.proc.pc = x at htranslate hfrom ⊢
  generalize xrTranslateIstream n m.proc.pc = y at htranslate ⊢
  obtain ⟨out, m₁⟩ := x
  obtain ⟨out', n₁⟩ := y
  obtain ⟨he, hm₁⟩ := htranslate
  obtain rfl : out' = out := he
  cases out' with
  | none => exact ⟨rfl, hm₁⟩
  | some place =>
      obtain ⟨fetchpc, flags⟩ := place
      obtain ⟨hoff, hpage, hpc⟩ := hfrom fetchpc flags rfl
      have hpc₁ : m₁.proc.pc = m.proc.pc := hpc
      rw [← hpc₁] at hoff
      exact fetchHost_alike hbus hm₁ hoff hpage flags

end

end Xremu
