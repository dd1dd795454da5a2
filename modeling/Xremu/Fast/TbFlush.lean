import Xremu.Cached.Build
import Xremu.Fast.Build
import Xremu.Interp.TbFlush

/-!
# What decides after a flush

`Interp/TbFlush.lean` in either build. The cached build remembers nothing else of a
page. In the fast build the blocks have slots with DTB entries of their own, and a flush
leaves them alone: a slot is only used while the entry it points to is still the one it
remembers. So whatever is found next of a page that was flushed is in the translation
buffer now.
-/

namespace Xremu

open XrIblockCache XrTb

/-! ## Slots that point into the DTB -/

/-- The pointer is null, or to one of the entries. -/
def InDtb (e : XrIblockDtbEntry) : Prop := ∀ i, e.dtbePointer = some i → i < xrTbSize

theorem inDtb_law : RememberLaw InDtb InDtb where
  found := by
    rintro _ _ bus p i writing hi _ j ⟨⟩
    exact hi
  slot h := h
  emptied h := h

section

variable {β : Type} {m m' : Machine (XrFastMem β)}

theorem DataStart.remembers (h : DataStart m) : Remembers InDtb InDtb m := by
  constructor
  · intro hne
    exact absurd h.hint hne
  · intro block index writing i hi
    rw [h.slots] at hi
    cases hi

/-- A slot that passes the checks holds an entry of the DTB. -/
theorem Remembers.slot_inDtb (h : Remembers InDtb InDtb m) {block index : Nat}
    {writing writing' : Bool} {virtual : Word}
    (hvalid : slotValid m.proc ((m.mem.fast m.proc.id).slot block index writing) virtual
      writing' = true) :
    ∃ i, i < xrTbSize ∧
      m.proc.dtb i = ((m.mem.fast m.proc.id).slot block index writing).matchingDtbe := by
  simp only [slotValid, Bool.and_eq_true, beq_iff_eq] at hvalid
  obtain ⟨i, hi, hdtb⟩ := Option.map_eq_some_iff.mp hvalid.1.2
  exact ⟨i, h.slots block index writing i hi, hdtb⟩

theorem remembers_emptyDtbCache {Last Slot : XrIblockDtbEntry → Prop}
    (law : RememberLaw Last Slot) (h : Remembers Last Slot m) (block : Nat) :
    Remembers Last Slot
      { m with mem := m.mem.setFast m.proc.id ((m.mem.fast m.proc.id).emptyDtbCache block) } := by
  constructor
  · intro hne
    have hlast := h.last hne
    simpa [XrFastMem.setFast, XrFast.emptyDtbCache] using hlast
  · intro block' index writing
    have hslot := h.slots block' index writing
    by_cases hblock : block' = block
    · subst hblock
      have hempty := law.emptied hslot
      cases writing <;>
        simpa [XrFastMem.setFast, XrFast.emptyDtbCache, XrFast.slot] using hempty
    · cases writing <;>
        simpa [XrFastMem.setFast, XrFast.emptyDtbCache, XrFast.slot, hblock] using hslot

variable [EBusHost β]

/-! ### The build keeps them -/

omit [EBusHost β] in
theorem samePages_istream (m : Machine (XrFastMem β)) (virtual : Word) :
    SamePages m (xrTranslateIstream m virtual).2 := by
  have hlookup : SamePages m (istreamLookup m virtual).2 := by
    unfold istreamLookup xrLookupItb
    split
    · exact .refl m
    · cases tbScan m.proc.itb (tbMatching (m.proc.cr crItbtag) virtual) with
      | none => exact (excepted_tbMiss _ _ _ virtual false m).samePages
      | some i => exact .refl m
  unfold xrTranslateIstream
  generalize istreamLookup m virtual = out at hlookup
  obtain ⟨tbe, m₁⟩ := out
  cases tbe with
  | none => exact hlookup
  | some tbe =>
      dsimp only
      split
      · exact hlookup.trans (excepted_take _ m₁ virtual false).samePages
      · exact hlookup.trans ⟨rfl, rfl, fun _ _ _ => rfl, Or.inl rfl⟩

theorem samePages_fetchHost (m : Machine (XrFastMem β)) (pc fetchpc : Word) (flags : BitVec 64) :
    SamePages m (fetchHost m pc fetchpc flags).2 := by
  unfold fetchHost
  split
  · exact samePages_directBusError m pc
  · exact .refl m

theorem samePages_fastFetch (m : Machine (XrFastMem β)) : SamePages m (fastFetch m).2 := by
  unfold fastFetch
  split
  · have htranslate := samePages_istream m m.proc.pc
    generalize xrTranslateIstream m m.proc.pc = out at htranslate
    obtain ⟨place, m₁⟩ := out
    cases place with
    | none => exact htranslate
    | some place => exact htranslate.trans (samePages_fetchHost m₁ _ _ _)
  · exact samePages_fetchHost m _ _ _

theorem remembers_kept {Last Slot : XrIblockDtbEntry → Prop} (law : RememberLaw Last Slot) :
    KeptByBuild (Remembers Last Slot : Machine (XrFastMem β) → Prop) where
  core h hmem hid hhint := h.of_same ⟨hid, by rw [hmem], fun _ _ _ => by rw [hmem], hhint⟩
  reset h := h.of_same ⟨rfl, rfl, fun _ _ _ => rfl, Or.inr rfl⟩
  fetch {m m' f} h hfetch := by
    have hpages := samePages_fastFetch m
    have hout : fastFetch m = (f, m') := Option.some.inj hfetch
    rw [hout] at hpages
    exact h.of_same hpages
  emptyDtbCache block h := remembers_emptyDtbCache law h block
  access {m m' block r res} h _ hacc := by
    have hkept := h.access law block r
    have hout : xrDataAccess m block r = (res, m') := Option.some.inj hacc
    rw [hout] at hkept
    exact hkept
  flushWriteBuffer h := h
  icachectrl _ h := h
  dcachectrl _ h := h
  drain h := h

end

/-! ## The next access -/

section

variable {M : Type}

/-- The entry that a scan of the ITB finds. -/
def scanItb [ResetMem M] (m : Machine M) (virtual : Word) : Option (BitVec 64) × Machine M :=
  ((xrLookupItb m virtual).1.map m.proc.itb, (xrLookupItb m virtual).2)

def scanDtb [ResetMem M] (m : Machine M) (virtual : Word) (writing : Bool) :
    Option (BitVec 64) × Machine M :=
  ((xrLookupDtb m virtual writing).1.map m.proc.dtb, (xrLookupDtb m virtual writing).2)

/-- After MTCR of `value` to ITBCTRL in a build that looks instructions up by `lookup`: the
next one of a named page is not found decoded, and is looked up by a scan. -/
structure ItbDecides [XrBuild M] (lookup : Machine M → Word → Option (BitVec 64) × Machine M)
    (value : Word) (s : XrInterp M) : Prop extends ItbFlushed value s where
  undecoded : ∀ virtual, TbctrlNames value virtual →
    ∀ asid, s.cache.xrLookupIblock virtual asid = none
  scanned : ∀ virtual, TbctrlNames value virtual →
    lookup s.machine virtual = scanItb s.machine virtual

end

/-- The instruction lookup of the cached build. -/
def cachedIstreamLookup {β : Type} (m : Machine (XrCachedMem β)) (virtual : Word) :
    Option (BitVec 64) × Machine (XrCachedMem β) := translateLookup m virtual false true

/-- After MTCR of `value` to DTBCTRL in the cached build. -/
structure CachedDtbDecides (value : Word) (s : XrInterp (XrCachedMem LineRam)) : Prop extends
    DtbFlushed value s where
  scanned : ∀ virtual writing, TbctrlNames value virtual →
    translateLookup s.machine virtual writing false = scanDtb s.machine virtual writing

section

variable {β : Type} [EBusHost β]

/-- After MTCR of `value` to DTBCTRL in the fast build. -/
structure FastDtbDecides (value : Word) (s : XrInterp (XrFastMem β)) : Prop extends
    DtbFlushed value s where
  slots : ∀ block index writing writing' virtual,
    slotValid s.machine.proc ((s.machine.mem.fast s.machine.proc.id).slot block index writing)
      virtual writing' = true →
    ∃ i, i < xrTbSize ∧ s.machine.proc.dtb i =
      ((s.machine.mem.fast s.machine.proc.id).slot block index writing).matchingDtbe
  /-- An access that goes through uses an entry of the DTB. -/
  goes : ∀ block virtual writing e m', TbctrlNames value virtual →
    dataTarget s.machine block virtual writing = (some e, m') →
    ∃ i, i < xrTbSize ∧ s.machine.proc.dtb i = e.matchingDtbe
  /-- And one that does not, takes the exception that a scan says. -/
  faults : ∀ block virtual writing m', TbctrlNames value virtual →
    dataTarget s.machine block virtual writing = (none, m') →
    scanTranslate s.machine virtual writing = (none, m')

/-- Without the hint, the entry is in the DTB or the scan takes an exception. -/
theorem dataTarget_unhinted {m m' : Machine (XrFastMem β)} (h : Remembers InDtb InDtb m)
    {block : Nat} {virtual : Word} {writing : Bool} {out : Option XrIblockDtbEntry}
    (hint : m.proc.dtbLastVpn ≠ vpnOf virtual)
    (hout : dataTarget m block virtual writing = (out, m')) :
    (∀ e, out = some e → ∃ i, i < xrTbSize ∧ m.proc.dtb i = e.matchingDtbe) ∧
      (out = none → scanTranslate m virtual writing = (none, m')) := by
  cases findsTarget hout with
  | slot valid =>
      refine ⟨?_, fun hnone => by cases hnone⟩
      rintro e ⟨⟩
      exact h.slot_inDtb valid
  | faulted translate =>
      refine ⟨fun e hsome => (by cases hsome), fun _ => ?_⟩
      cases translatesDstream translate with
      | refused last fault => exact absurd last.symm hint
      | missed other scan => simp only [scanTranslate, xrLookupDtb, scan]
      | denied other scan fault => simp only [scanTranslate, xrLookupDtb, scan, fault]
  | translated translate =>
      refine ⟨?_, fun hnone => by cases hnone⟩
      rintro e ⟨⟩
      cases translatesDstream translate with
      | remembered last ok => exact absurd last.symm hint
      | found other scan ok => exact ⟨_, tbScan_lt scan, rfl⟩

end

/-! ## Every run -/

/-- What the fast build allows between two steps: signals, and anything in the memory but
to the pages that the processor remembers. -/
structure FastOutside {β : Type} (m m' : Machine (XrFastMem β)) : Prop where
  outside : Outside m m'
  pages : SamePages m m'

/-- MTCR of `value` to either control register is executed, and leaves `Itb` or `Dtb`. -/
structure Flushes {M : Type} [XrBuild M] (value : Word) (pending : Bool)
    (Itb Dtb : XrInterp M → Prop) (s : XrInterp M) : Prop where
  itb : s.AtMtcr crItbctrl value → ∃ s', s.step pending = some s' ∧ Itb s'
  dtb : s.AtMtcr crDtbctrl value → ∃ s', s.step pending = some s' ∧ Dtb s'

theorem ItbFlushed.undecoded {M : Type} {value : Word} {s : XrInterp M} (h : ItbFlushed value s)
    (hs : s.Placed) {virtual : Word} (hnames : TbctrlNames value virtual) (asid : Word) :
    s.cache.xrLookupIblock virtual asid = none := by
  cases hfound : s.cache.xrLookupIblock virtual asid with
  | none => rfl
  | some j =>
      obtain ⟨-, hpc, -⟩ := lookup_some (inv_reach hs.reach).indexed hfound
      refine absurd ?_ (h.blocks j (.lookup virtual asid hfound))
      rw [hpc]
      exact hnames

/-- The block cache and the buffer decide in either build. -/
theorem itbctrl_decides {M : Type} [XrBuild M]
    {lookup : Machine M → Word → Option (BitVec 64) × Machine M} {value : Word} {s : XrInterp M}
    (hlookup : ∀ m virtual, m.proc.itbLastVpn ≠ vpnOf virtual →
      lookup m virtual = scanItb m virtual)
    (hs : s.Placed) (h : s.AtMtcr crItbctrl value) (pending : Bool) :
    ∃ s', s.step pending = some s' ∧ ItbDecides lookup value s' := by
  obtain ⟨s', hstep, hflushed⟩ := step_itbctrl hs h pending
  refine ⟨s', hstep, hflushed, ?_, ?_⟩
  · intro virtual hnames asid
    exact hflushed.undecoded (hs.step hstep) hnames asid
  · intro virtual hnames
    exact hlookup _ virtual (hflushed.buffer.hint virtual hnames)

/-- In every run of either build. Of a page that MTCR to ITBCTRL or DTBCTRL names nothing is
left but what is in the buffer; a single page has left none there either, but for an invalid
entry. -/
theorem tb_flush_complete (β : Type) [EBusHost β] (value : Word) (pending : Bool) :
    (∀ (m₀ : Machine (XrCachedMem LineRam)) (s : XrInterp (XrCachedMem LineRam)),
      XrInterp.RunsIn Outside m₀ s →
      Flushes value pending (ItbDecides cachedIstreamLookup value) (CachedDtbDecides value) s) ∧
    ∀ (m₀ : Machine (XrFastMem β)) (s : XrInterp (XrFastMem β)), DataStart m₀ →
      XrInterp.RunsIn FastOutside m₀ s →
      Flushes value pending (ItbDecides istreamLookup value) (FastDtbDecides value) s := by
  constructor
  · intro m₀ s hrun
    have hplaced := hrun.placed fun hm => hm
    constructor
    · intro h
      exact itbctrl_decides (fun m virtual hne => if_neg hne) hplaced h pending
    · intro h
      obtain ⟨s', hstep, hflushed⟩ := step_dtbctrl h pending
      refine ⟨s', hstep, hflushed, ?_⟩
      intro virtual writing hnames
      exact if_neg (hflushed.buffer.hint virtual hnames)
  · intro m₀ s hstart hrun
    have hplaced := hrun.placed FastOutside.outside
    have hkept := hrun.keeps (remembers_kept inDtb_law) (fun hm acts => hm.of_same acts.pages)
      hstart.remembers
    constructor
    · intro h
      exact itbctrl_decides (fun m virtual hne => istreamLookup_scan hne) hplaced h pending
    · intro h
      obtain ⟨s', hstep, hflushed⟩ := step_dtbctrl h pending
      have hkept' := (remembers_kept inDtb_law).step hkept hstep
      refine ⟨s', hstep, hflushed, ?_, ?_, ?_⟩
      · intro block index writing writing' virtual hvalid
        exact hkept'.slot_inDtb hvalid
      · intro block virtual writing e m' hnames hout
        exact (dataTarget_unhinted hkept' (hflushed.buffer.hint virtual hnames) hout).1 e rfl
      · intro block virtual writing m' hnames hout
        exact (dataTarget_unhinted hkept' (hflushed.buffer.hint virtual hnames) hout).2 rfl

/-! ## Page 0 -/

/-- The first call of `XrExecuteFast`, with this many steps after it. -/
def ramCall {M : Type} [XrBuild M] (m : Machine M) : Nat → XrInterp M
  | 0 => ⟨(xrExecuteFast false 100 m).1, initialBlockCache, (xrExecuteFast false 100 m).2⟩
  | n + 1 => ((ramCall m n).step false).getD (ramCall m n)

theorem ramCall_runs {M : Type} [XrBuild M] {E : Machine M → Machine M → Prop} (m : Machine M)
    (n : Nat) : XrInterp.RunsIn E m (ramCall m n) := by
  induction n with
  | zero => exact .call false 100 (.start initial_initialBlockCache) rfl
  | succ n ih =>
      show XrInterp.RunsIn E m (((ramCall m n).step false).getD (ramCall m n))
      cases hstep : (ramCall m n).step false with
      | none => exact ih
      | some s => exact .step false ih hstep

/-- RAM with this word everywhere. -/
def ramFull (word : Word) : LineRam := ⟨fun _ => true, fun k => byteOf word (k % 4)⟩

def startedProc : XrProcessor :=
  { (XrProcessor.zeroed 0).reset with running := true, progress := 1, dispatches := 1 }

/-- `mtcr itbctrl, zero` in the cached build. -/
def flushesItb : Machine (XrCachedMem LineRam) :=
  ⟨startedProc, (XrCachedSys.cold 1 (ramFull 0xE0130029)).mem⟩

set_option maxRecDepth 20000 in
theorem atMtcr_flushesItb : (ramCall flushesItb 2).AtMtcr crItbctrl 0 :=
  ⟨rfl, 2047, 0, _, rfl, rfl, rfl, rfl, rfl⟩

set_option maxRecDepth 20000 in
theorem step_flushesItb : (ramCall flushesItb 2).step false = some (ramCall flushesItb 3) := by
  show _ = some (((ramCall flushesItb 2).step false).getD (ramCall flushesItb 2))
  obtain ⟨s', hstep, -⟩ := step_itbctrl
    ((ramCall_runs (E := Outside) flushesItb 2).placed fun hm => hm) atMtcr_flushesItb false
  rw [hstep]
  rfl

set_option maxRecDepth 20000 in
/-- An invalid entry is one of page 0: in address space 4095 the page is found. -/
theorem entry_of_page_zero :
    (¬∀ (m₀ : Machine (XrCachedMem LineRam)) (s s' : XrInterp (XrCachedMem LineRam))
        (value : Word),
      XrInterp.RunsIn Outside m₀ s → s.AtMtcr crItbctrl value → value &&& 3 = 0 →
      s.step false = some s' →
      ∀ i, i < xrTbSize → vpnField (s'.machine.proc.itb i) ≠ value >>> 12) ∧
    tbScan (ramCall flushesItb 3).machine.proc.itb (tbMatching 0xFFF00000 0) = some 0 := by
  refine ⟨fun hall => ?_, rfl⟩
  exact hall _ _ _ 0 (ramCall_runs flushesItb 2) atMtcr_flushesItb rfl step_flushesItb 0
    (by decide) rfl

/-! ## A page that is mapped and in use -/

/-- The MMU is on, page 5 is in both translation buffers, and the processor is in it. -/
def pageFiveProc : XrProcessor :=
  { startedProc with
    cr := fun i => if i = crRs then rsMmu else 0
    pc := 0x5000
    reg := fun i => if i = 1 then 0x5000 else 0
    itb := fun i => if i = 0 then 0x5000000A1 else 0
    dtb := fun i => if i = 0 then 0x5000000A1 else 0 }

/-- RAM with these two words by turns. -/
def ramPair (even odd : Word) : LineRam :=
  ⟨fun _ => true, fun k => byteOf (if k / 4 % 2 = 0 then even else odd) (k % 4)⟩

/-- `mtcr itbctrl, r1` in the cached build. -/
def flushesCode : Machine (XrCachedMem LineRam) :=
  ⟨pageFiveProc, (XrCachedSys.cold 1 (ramFull 0xE0130829)).mem⟩

/-- `mov r2, long [r1]` and `mtcr dtbctrl, r1` in the fast build. -/
def flushesData : Machine (XrFastMem LineRam) :=
  ⟨pageFiveProc, ⟨fun _ => .zeroed, fun _ => none, ramPair 0x8AB 0xE01B0829⟩⟩

theorem dataStart_flushesData : DataStart flushesData := by
  refine ⟨rfl, fun block index writing => ?_⟩
  cases writing <;> rfl

set_option maxRecDepth 20000 in
theorem atMtcr_flushesCode : (ramCall flushesCode 2).AtMtcr crItbctrl 0x5000 :=
  ⟨rfl, 2047, 0, _, rfl, rfl, rfl, rfl, rfl⟩

set_option maxRecDepth 20000 in
theorem atMtcr_flushesData : (ramCall flushesData 3).AtMtcr crDtbctrl 0x5000 :=
  ⟨rfl, 2047, 1, _, rfl, rfl, rfl, rfl, rfl⟩

set_option maxRecDepth 20000 in
/-- Page 5 is flushed: from the ITB while it is the last page that was looked up and its block
is running, from the DTB while it is the last one and a block has it in a slot. -/
theorem tb_flush_complete_mapped :
    (ramCall flushesCode 2).machine.proc.itbLastVpn = 5 ∧
      (ramCall flushesCode 2).cache.xrLookupIblock 0x5000 0 = some 2047 ∧
      (∃ s', (ramCall flushesCode 2).step false = some s' ∧
        ItbDecides cachedIstreamLookup 0x5000 s') ∧
      (ramCall flushesData 3).machine.proc.dtbLastVpn = 5 ∧
      ((ramCall flushesData 3).machine.mem.fast 0).dtbLoadCache 2047 1 =
        ⟨some 0x5000, 0x5000000A1, some 0⟩ ∧
      ∃ s', (ramCall flushesData 3).step false = some s' ∧ FastDtbDecides 0x5000 s' :=
  ⟨rfl, rfl, ((tb_flush_complete LineRam 0x5000 false).1 _ _ (ramCall_runs flushesCode 2)).itb
      atMtcr_flushesCode, rfl, rfl,
    ((tb_flush_complete LineRam 0x5000 false).2 _ _ dataStart_flushesData
      (ramCall_runs flushesData 3)).dtb atMtcr_flushesData⟩

end Xremu
