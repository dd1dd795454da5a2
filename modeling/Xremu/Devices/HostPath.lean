import Xremu.Devices.EBus

/-!
# The bus and the way around it

The fast build loads and stores through the host pointer of a page (`readTarget`,
`writeTarget`) and leaves the bus out. Here the two are compared for the bus of the
station, for every page that has a pointer: `HostFits` is when they agree. It fails
for what lies behind the end of a RAM slot in the slot's last page, and for a store
that would change the boot ROM.
-/

namespace Xremu

section

variable {D : Type}

/-- The host memory from a pointer on. -/
def XrStation.hostBytes (s : XrStation D) (q : HostPointer) (k : Nat) : Byte :=
  match q with
  | .ram slot offset => s.ram.bytes slot (offset + k)
  | .rom offset => s.bootRom (offset + k)

/-- `CopyWithLength(pointer + off, src, length)`. -/
def XrStation.hostStore (s : XrStation D) (q : HostPointer) (off : Nat) (src : Nat → Byte)
    (length : Nat) : XrStation D :=
  match q with
  | .ram slot offset =>
      { s with ram := { s.ram with
          bytes := Function.update s.ram.bytes slot
            (copyBytes (s.ram.bytes slot) (offset + off) src length) } }
  | .rom offset => { s with bootRom := copyBytes s.bootRom (offset + off) src length }

/-! ## Addresses -/

theorem frameOf_mod (tbe : BitVec 64) : (frameOf tbe).toNat % 4096 = 0 := by
  simp only [frameOf, BitVec.toNat_setWidth, BitVec.toNat_shiftLeft, Nat.shiftLeft_eq]
  omega

/-- A page and an offset into it. -/
theorem phys_toNat (e : XrIblockDtbEntry) (address : Word) :
    (e.phys address).toNat = (frameOf e.matchingDtbe).toNat + address.toNat % 4096 := by
  have hoff : (address &&& 0xFFF).toNat = address.toNat % 2 ^ 12 := by
    rw [BitVec.toNat_and]
    exact Nat.and_two_pow_sub_one_eq_mod address.toNat 12
  have hlt : address.toNat % 2 ^ 12 < 2 ^ 12 := Nat.mod_lt _ (by decide)
  have hframe := frameOf_mod e.matchingDtbe
  have hmul : (frameOf e.matchingDtbe).toNat = 2 ^ 12 * ((frameOf e.matchingDtbe).toNat / 4096) := by
    omega
  rw [XrIblockDtbEntry.phys, BitVec.toNat_or, hoff, hmul]
  exact (Nat.two_pow_add_eq_or_of_lt hlt _).symm

theorem phys_page (e : XrIblockDtbEntry) (address : Word) :
    (e.phys address).toNat / 4096 * 4096 = (frameOf e.matchingDtbe).toNat := by
  have hframe := frameOf_mod e.matchingDtbe
  rw [phys_toNat]
  omega

theorem phys_offset (e : XrIblockDtbEntry) (address : Word) :
    (e.phys address).toNat % 4096 = address.toNat % 4096 := by
  have hframe := frameOf_mod e.matchingDtbe
  rw [phys_toNat]
  omega

/-- An aligned access stays in its page. -/
theorem page_end {address length : Nat} (hlen : length = 1 ∨ length = 2 ∨ length = 4)
    (h : address % length = 0) : address % 4096 + length ≤ 4096 := by
  rcases hlen with rfl | rfl | rfl
  · omega
  · omega
  · omega

/-- The two kinds of page that have a pointer. -/
theorem pointer_page {s : XrStation D} {q : HostPointer} {a : Nat}
    (hq : s.pointer (a / 4096 * 4096) = some q) (ha : a < 0x100000000) :
    (a < ramMaximum ∧ q = .ram (ramSlotOf a) (ramOffsetOf a - a % 4096) ∧
      a % 4096 ≤ ramOffsetOf a) ∨
    (romBase ≤ a ∧ q = .rom (a - romBase - a % 4096) ∧ a % 4096 ≤ a - romBase) := by
  obtain ⟨hbranch, hmax, hslot, hrom, hsize⟩ := memoryMap
  rcases XrStation.pointer_cases hq (by omega) with ⟨hlt, _, rfl⟩ | ⟨hge, rfl⟩
  · left
    have hs : ramSlotOf (a / 4096 * 4096) = ramSlotOf a := by
      unfold ramSlotOf
      omega
    have ho : ramOffsetOf (a / 4096 * 4096) = ramOffsetOf a - a % 4096 := by
      unfold ramOffsetOf
      omega
    have hle : a % 4096 ≤ ramOffsetOf a := by
      unfold ramOffsetOf
      omega
    rw [hs, ho]
    exact ⟨by omega, rfl, hle⟩
  · right
    have ho : a / 4096 * 4096 - romBase = a - romBase - a % 4096 := by omega
    rw [ho]
    exact ⟨by omega, rfl, by omega⟩

/-- The page of an address that can be pointed at can be pointed at. -/
theorem pointer_pageStart {s : XrStation D} {q : HostPointer} {a : Nat}
    (hq : s.pointer a = some q) (ha : a < 0x100000000) :
    ∃ q', s.pointer (a / 4096 * 4096) = some q' := by
  obtain ⟨hbranch, hmax, hslot, hrom, hsize⟩ := memoryMap
  rcases XrStation.pointer_cases hq ha with ⟨hlt, hoff, _⟩ | ⟨hge, _⟩
  · refine ⟨_, XrStation.pointer_ram (by omega) ?_⟩
    have hs : ramSlotOf (a / 4096 * 4096) = ramSlotOf a := by
      unfold ramSlotOf
      omega
    have hle : ramOffsetOf (a / 4096 * 4096) ≤ ramOffsetOf a := by
      unfold ramOffsetOf
      omega
    rw [hs]
    exact Nat.lt_of_le_of_lt hle hoff
  · exact ⟨_, XrStation.pointer_rom (by omega) (by omega)⟩

/-! ## The two ways -/

variable [EBusDevices D]

/-- The host address of an access is its physical one; what it reaches is found from
the pointer of its page. The destination of a read is all zero before, and still is after a
read past the end of NVRAM. -/
instance : EBusHost (XrStation D) where
  read s p address length := eBusRead s p address (fun _ => 0) length
  write s p address src length := eBusWrite s p address src length
  translate s page := (s.pointer page.toNat).isSome
  hostRead s address k :=
    match s.pointer (address / 4096 * 4096) with
    | some q => s.hostBytes q (address % 4096 + k)
    | none => 0
  hostWrite s address src length :=
    match s.pointer (address / 4096 * 4096) with
    | some q => s.hostStore q (address % 4096) src length
    | none => s

/-- A load or a store, through the pointer. -/
def hostAccess (m : Machine (XrFastMem (XrStation D))) (e : XrIblockDtbEntry) (r : XrMemReq) :
    XrResult × Machine (XrFastMem (XrStation D)) :=
  if r.read then readTarget m e r else writeTarget m e r

/-- The same access through the bus. -/
def busAccess (m : Machine (XrFastMem (XrStation D))) (e : XrIblockDtbEntry) (r : XrMemReq) :
    XrResult × Machine (XrFastMem (XrStation D)) :=
  if r.read then directRead m (e.phys r.address) r else directWrite m (e.phys r.address) r

/-- An access that ends within its RAM slot, or leaves the boot ROM as it is. -/
def HostFits (s : XrStation D) (address : Nat) (r : XrMemReq) : Prop :=
  (address < ramMaximum →
    ramOffsetOf address + r.length ≤ s.ram.size (ramSlotOf address)) ∧
  (romBase ≤ address → r.read = false →
    ∀ k, k < r.length → byteOf r.srcvalue k = s.bootRom (address - romBase + k))

/-! ## One access -/

variable {s : XrStation D} {q : HostPointer} {a length : Nat}

theorem hostRead_eq (hq : s.pointer (a / 4096 * 4096) = some q) (k : Nat) :
    EBusHost.hostRead s a k = s.hostBytes q (a % 4096 + k) := by
  simp only [EBusHost.hostRead, hq]

theorem hostWrite_eq (hq : s.pointer (a / 4096 * 4096) = some q) (src : Nat → Byte) :
    EBusHost.hostWrite s a src length = s.hostStore q (a % 4096) src length := by
  simp only [EBusHost.hostWrite, hq]

/-- A load of RAM that fits, on the bus. -/
theorem busRead_ram (p : XrProcessor) (h : a < ramMaximum)
    (hfits : ramOffsetOf a + length ≤ s.ram.size (ramSlotOf a)) :
    EBus.read s p a length =
      ⟨s, p.progress, some (copyFrom (fun _ => 0) (s.ram.bytes (ramSlotOf a)) (ramOffsetOf a) length)⟩ := by
  have hread : EBus.read s p a length = eBusRead s p a (fun _ => 0) length := rfl
  rw [hread, eBusRead_ram s p h]
  unfold ramRead
  rw [if_neg (Nat.not_lt_of_le hfits)]
  rfl

theorem busRead_ram_error (p : XrProcessor) (h : a < ramMaximum)
    (hfits : ¬ramOffsetOf a + length ≤ s.ram.size (ramSlotOf a)) :
    EBus.read s p a length = ⟨s, p.progress, none⟩ := by
  have hread : EBus.read s p a length = eBusRead s p a (fun _ => 0) length := rfl
  rw [hread, eBusRead_ram s p h]
  unfold ramRead
  rw [if_pos (Nat.lt_of_not_le hfits)]

theorem busWrite_ram (p : XrProcessor) (h : a < ramMaximum) (src : Nat → Byte)
    (hfits : ramOffsetOf a + length ≤ s.ram.size (ramSlotOf a)) :
    EBus.write s p a src length =
      ⟨s.hostStore (.ram (ramSlotOf a) 0) (ramOffsetOf a) src length, p.progress, true⟩ := by
  have hwrite : EBus.write s p a src length = eBusWrite s p a src length := rfl
  rw [hwrite, eBusWrite_ram s p h]
  unfold ramWrite
  rw [if_neg (Nat.not_lt_of_le hfits)]
  simp only [XrStation.hostStore, Nat.zero_add]

theorem busWrite_ram_error (p : XrProcessor) (h : a < ramMaximum) (src : Nat → Byte)
    (hfits : ¬ramOffsetOf a + length ≤ s.ram.size (ramSlotOf a)) :
    EBus.write s p a src length = ⟨s, p.progress, false⟩ := by
  have hwrite : EBus.write s p a src length = eBusWrite s p a src length := rfl
  rw [hwrite, eBusWrite_ram s p h]
  unfold ramWrite
  rw [if_pos (Nat.lt_of_not_le hfits)]

theorem busRead_rom (p : XrProcessor) (h : romBase ≤ a) (hend : a + length ≤ 0x100000000)
    (hpos : 0 < length) :
    EBus.read s p a length =
      ⟨s, p.progress, some (copyFrom (fun _ => 0) s.bootRom (a - romBase) length)⟩ := by
  have hread : EBus.read s p a length = eBusRead s p a (fun _ => 0) length := rfl
  rw [hread, eBusRead_rom s p h hend hpos]

theorem busWrite_rom (p : XrProcessor) (h : romBase ≤ a) (hlt : a < 0x100000000) (src : Nat → Byte) :
    EBus.write s p a src length = ⟨s, p.progress, true⟩ := by
  have hwrite : EBus.write s p a src length = eBusWrite s p a src length := rfl
  rw [hwrite, eBusWrite_rom s p h hlt]

/-- What the bus reads of a page with a pointer, where it reads, is what is behind the pointer. -/
theorem busRead_host (hq : s.pointer (a / 4096 * 4096) = some q) (ha : a < 0x100000000)
    (hpos : 0 < length) (hend : a % 4096 + length ≤ 4096)
    (hfits : a < ramMaximum → ramOffsetOf a + length ≤ s.ram.size (ramSlotOf a))
    (p : XrProcessor) :
    ∃ bytes, EBus.read s p a length = ⟨s, p.progress, some bytes⟩ ∧
      zext (EBusHost.hostRead s a) length = zext bytes length := by
  rcases pointer_page hq ha with ⟨hram, hqr, hoff⟩ | ⟨hrom, hqr, hoff⟩
  · refine ⟨_, busRead_ram p hram (hfits hram), zext_congr fun k hk => ?_⟩
    rw [copyFrom_of_lt hk, hostRead_eq hq, hqr, XrStation.hostBytes]
    congr 1
    omega
  · refine ⟨_, busRead_rom p hrom (by omega) hpos, zext_congr fun k hk => ?_⟩
    have hsub : a - romBase - a % 4096 + (a % 4096 + k) = a - romBase + k := by omega
    rw [copyFrom_of_lt hk, hostRead_eq hq, hqr, XrStation.hostBytes, hsub]

/-! ## The comparison -/

variable {m : Machine (XrFastMem (XrStation D))} {e : XrIblockDtbEntry} {r : XrMemReq}

theorem readTarget_host {page : Word} (he : e.hostPointer = some page) (hsc : r.sc = false) :
    readTarget m e r =
      ((.done, some (zext (EBusHost.hostRead m.mem.bus (e.goes r.address).toNat) r.length)), m) := by
  simp [readTarget, he, hsc]

theorem writeTarget_host {page : Word} (he : e.hostPointer = some page) (hsc : r.sc = false) :
    writeTarget m e r =
      ((.done, none), { m with mem := { m.mem with
        bus := EBusHost.hostWrite m.mem.bus (e.goes r.address).toNat (byteOf r.srcvalue) r.length } }) := by
  simp [writeTarget, he, hsc]

/-- A bus that answers and stays as it is. -/
theorem directRead_done {address : Word} {bytes : Nat → Byte}
    (h : EBus.read m.mem.bus m.proc address.toNat r.length =
      ⟨m.mem.bus, m.proc.progress, some bytes⟩) :
    directRead m address r = ((.done, some (zext bytes r.length)), m) := by
  simp only [directRead, h]
  rfl

theorem directRead_error {address : Word}
    (h : EBus.read m.mem.bus m.proc address.toNat r.length = ⟨m.mem.bus, m.proc.progress, none⟩) :
    (directRead m address r).1 = (.fault, none) := by
  simp only [directRead, h]

theorem directWrite_done {address : Word} {bus : XrStation D}
    (h : EBus.write m.mem.bus m.proc address.toNat (byteOf r.srcvalue) r.length =
      ⟨bus, m.proc.progress, true⟩) :
    directWrite m address r = ((.done, none), { m with mem := { m.mem with bus := bus } }) := by
  simp only [directWrite, h, if_true]
  rfl

theorem directWrite_error {address : Word}
    (h : EBus.write m.mem.bus m.proc address.toNat (byteOf r.srcvalue) r.length =
      ⟨m.mem.bus, m.proc.progress, false⟩) :
    (directWrite m address r).1 = (.fault, none) := by
  simp only [directWrite, h, Bool.false_eq_true, if_false]

theorem hostRead_eq_iff (page : Word) (he : e.hostPointer = some page)
    (hgoes : e.goes r.address = e.phys r.address) (hsc : r.sc = false)
    (hq : m.mem.bus.pointer ((e.phys r.address).toNat / 4096 * 4096) = some q)
    (hpos : 0 < r.length) (hend : (e.phys r.address).toNat % 4096 + r.length ≤ 4096) :
    readTarget m e r = directRead m (e.phys r.address) r ↔
      ((e.phys r.address).toNat < ramMaximum →
        ramOffsetOf (e.phys r.address).toNat + r.length ≤
          m.mem.bus.ram.size (ramSlotOf (e.phys r.address).toNat)) := by
  have hlt : (e.phys r.address).toNat < 0x100000000 := (e.phys r.address).isLt
  rw [readTarget_host he hsc, hgoes]
  generalize hphys : e.phys r.address = phys at *
  constructor
  · -- A read that does not fit is refused by the bus only.
    intro heq hram
    by_contra hfits
    have hstatus := congrArg Prod.fst heq
    rw [directRead_error (busRead_ram_error m.proc hram hfits)] at hstatus
    cases hstatus
  · intro hfits
    obtain ⟨bytes, hread, hsame⟩ := busRead_host hq hlt hpos hend hfits m.proc
    rw [directRead_done hread, hsame]

theorem hostWrite_eq_iff (page : Word) (he : e.hostPointer = some page)
    (hgoes : e.goes r.address = e.phys r.address) (hsc : r.sc = false)
    (hq : m.mem.bus.pointer ((e.phys r.address).toNat / 4096 * 4096) = some q) :
    writeTarget m e r = directWrite m (e.phys r.address) r ↔
      ((e.phys r.address).toNat < ramMaximum →
        ramOffsetOf (e.phys r.address).toNat + r.length ≤
          m.mem.bus.ram.size (ramSlotOf (e.phys r.address).toNat)) ∧
      (romBase ≤ (e.phys r.address).toNat → ∀ k, k < r.length →
        byteOf r.srcvalue k = m.mem.bus.bootRom ((e.phys r.address).toNat - romBase + k)) := by
  have hlt : (e.phys r.address).toNat < 0x100000000 := (e.phys r.address).isLt
  rw [writeTarget_host he hsc, hgoes]
  generalize hphys : e.phys r.address = phys at *
  obtain ⟨hbranch, hmax, hslot, hbase, hsize⟩ := memoryMap
  rw [hostWrite_eq hq]
  rcases pointer_page hq hlt with ⟨hram, hqr, hoff⟩ | ⟨hrom, hqr, hoff⟩
  · by_cases hfits : ramOffsetOf phys.toNat + r.length ≤ m.mem.bus.ram.size (ramSlotOf phys.toNat)
    · rw [directWrite_done (busWrite_ram m.proc hram _ hfits), hqr]
      have hsub : ramOffsetOf phys.toNat - phys.toNat % 4096 + phys.toNat % 4096 =
          0 + ramOffsetOf phys.toNat := by omega
      simp only [XrStation.hostStore, hsub]
      constructor
      · intro _
        exact ⟨fun _ => hfits, fun hrom => absurd hrom (by omega)⟩
      · intro _
        trivial
    · constructor
      · intro heq
        have hstatus := congrArg Prod.fst heq
        rw [directWrite_error (busWrite_ram_error m.proc hram _ hfits)] at hstatus
        cases hstatus
      · intro h
        exact absurd (h.1 hram) hfits
  · rw [directWrite_done (busWrite_rom m.proc hrom hlt _), hqr]
    have hsub : phys.toNat - romBase - phys.toNat % 4096 + phys.toNat % 4096 =
        phys.toNat - romBase := by omega
    simp only [XrStation.hostStore, hsub]
    have hnot : ¬phys.toNat < ramMaximum := by omega
    generalize phys.toNat - romBase = off
    constructor
    · intro heq
      refine ⟨fun hram => absurd hram hnot, fun _ => ?_⟩
      have hbus : copyBytes m.mem.bus.bootRom off (byteOf r.srcvalue) r.length =
          m.mem.bus.bootRom := congrArg (fun o => o.2.mem.bus.bootRom) heq
      exact copyBytes_eq_self_iff.mp hbus
    · intro h
      have hself := copyBytes_eq_self_iff.mpr (h.2 hrom)
      rw [hself]

/-- Through the host pointer of a page and through the bus: the same status, value and
memory exactly when the access fits. -/
theorem hostAccess_eq_bus_iff
    (hptr : e.hostPointer = eBusTranslate m.mem.bus (frameOf e.matchingDtbe))
    (hsome : e.hostPointer ≠ none) (hsc : r.sc = false)
    (hlen : r.length = 1 ∨ r.length = 2 ∨ r.length = 4)
    (halign : r.address &&& (BitVec.ofNat 32 r.length - 1) = 0) :
    hostAccess m e r = busAccess m e r ↔ HostFits m.mem.bus (e.phys r.address).toNat r := by
  obtain ⟨page, he⟩ := Option.ne_none_iff_exists'.mp hsome
  rw [he] at hptr
  unfold eBusTranslate at hptr
  split at hptr
  · rename_i htr
    have hpage : page = frameOf e.matchingDtbe := Option.some.inj hptr
    have hgoes : e.goes r.address = e.phys r.address := by
      simp [XrIblockDtbEntry.goes, XrIblockDtbEntry.phys, he, hpage]
    obtain ⟨q, hq⟩ := Option.isSome_iff_exists.mp htr
    rw [← phys_page e r.address] at hq
    have hend := page_end hlen (aligned_of_mask hlen halign)
    rw [← phys_offset e r.address] at hend
    unfold hostAccess busAccess HostFits
    cases hread : r.read with
    | true =>
        simp only [if_true]
        rw [hostRead_eq_iff page he hgoes hsc hq (by omega) hend]
        constructor
        · intro h
          refine ⟨h, ?_⟩
          intro _ hfalse
          cases hfalse
        · intro h
          exact h.1
    | false =>
        simp only [Bool.false_eq_true, if_false]
        rw [hostWrite_eq_iff page he hgoes hsc hq]
        constructor
        · intro h
          exact ⟨h.1, fun hrom _ => h.2 hrom⟩
        · intro h
          exact ⟨h.1, fun hrom => h.2 hrom trivial⟩
  · cases hptr

end

/-! ## Two accesses that differ -/

/-- Nothing plugged in. -/
instance : EBusDevices Unit where
  present _ _ := false
  readPort _ p _ _ := ⟨(), p.progress, none⟩
  writePort _ p _ _ _ := ⟨(), p.progress, false⟩
  readBranch _ p _ _ _ := ⟨(), p.progress, none⟩
  writeBranch _ p _ _ _ := ⟨(), p.progress, false⟩
  reset d := d

/-- A station of one processor as `main` starts it with this `-ramsize`, all memory zero. -/
def stationOf (ramsize : Nat) : XrStation Unit where
  ram := ⟨ramInit ((mainRam ⟨1, ramsize, []⟩).getD fun _ => 0), fun _ _ => 0⟩
  bootRom _ := 0
  nvram _ := 0
  nvramDirty := false
  registers _ := 0
  lsic _ := Lsic.zeroed
  processors id := decide (id = 0)
  devices := ()

def stationMachine (ramsize : Nat) : Machine (XrFastMem (XrStation Unit)) :=
  ⟨XrProcessor.zeroed 0, ⟨fun _ => .zeroed, fun _ => none, stationOf ramsize⟩⟩

/-- The DTB entry of a writable page that has a host pointer. -/
def pageEntry (page : Word) : XrIblockDtbEntry := ⟨some page, page.setWidth 64 >>> 7 ||| 3, some 4⟩

theorem hostAccess_eq_bus_lastWord :
    hostAccess (stationMachine 0x400000) (pageEntry 0x3FF000) ⟨0xFFC, true, 0, 4, false⟩ =
      busAccess (stationMachine 0x400000) (pageEntry 0x3FF000) ⟨0xFFC, true, 0, 4, false⟩ := by
  apply (hostAccess_eq_bus_iff (by decide) (by decide) rfl (by decide) (by decide)).mpr
  constructor
  · intro _
    decide
  · intro _ hread
    cases hread

/-- A RAM of one byte more than 4 MB, of which a word is loaded; and a store to the boot
ROM, which it changes. -/
theorem hostAccess_past_the_end :
    (mainRam ⟨1, 0x400001, []⟩).isSome = true ∧
    (pageEntry 0x400000).hostPointer =
      eBusTranslate (stationOf 0x400001) (frameOf (pageEntry 0x400000).matchingDtbe) ∧
    hostAccess (stationMachine 0x400001) (pageEntry 0x400000) ⟨0, true, 0, 4, false⟩ ≠
      busAccess (stationMachine 0x400001) (pageEntry 0x400000) ⟨0, true, 0, 4, false⟩ ∧
    (pageEntry 0xFFFE0000).hostPointer =
      eBusTranslate (stationOf 0x400001) (frameOf (pageEntry 0xFFFE0000).matchingDtbe) ∧
    hostAccess (stationMachine 0x400001) (pageEntry 0xFFFE0000) ⟨0, false, 0xFF, 1, false⟩ ≠
      busAccess (stationMachine 0x400001) (pageEntry 0xFFFE0000) ⟨0, false, 0xFF, 1, false⟩ := by
  refine ⟨by decide, by decide, ?_, by decide, ?_⟩
  · intro h
    have hstatus := congrArg (fun o => o.1.1) h
    revert hstatus
    decide
  · intro h
    have hrom := congrArg (fun o => o.2.mem.bus.bootRom 0) h
    revert hrom
    decide

end Xremu
