import Xremu.Fast.ClaimTable
import Xremu.Machine.MemAccess

/-!
# Data accesses of the fast build

`XrTranslateDstream`, `XrAccessWrite` and `XrAccessRead`. Both accesses first look
for the page in the running block's own cache of DTB entries (`dataTarget`) and
then go to the host memory or to the bus (`writeTarget`, `readTarget`).
-/

namespace Xremu

open Concurrency

/-- The physical page of a DTB entry: `(tbe >> 5) << 12`. -/
def frameOf (tbe : BitVec 64) : Word := ((tbe >>> 5) <<< 12).setWidth 32

/-- `XR_IBLOCK_DTB_CACHE_INDEX(address)`. -/
def dtbCacheIndex (address : Word) : Nat := (address >>> 12).toNat % 4

/-- `((entry->MatchingDtbe >> 5) << 12) | (address & 0xFFF)`. -/
def XrIblockDtbEntry.phys (e : XrIblockDtbEntry) (address : Word) : Word :=
  frameOf e.matchingDtbe ||| (address &&& 0xFFF)

/-- Where the access really goes: through the host pointer if there is one. -/
def XrIblockDtbEntry.goes (e : XrIblockDtbEntry) (address : Word) : Word :=
  match e.hostPointer with
  | some page => page ||| (address &&& 0xFFF)
  | none => e.phys address

section

variable {β : Type}

/-! ## Translation -/

/-- The fast build's fields of the running processor. -/
def XrFastMem.setDtbLast (m : XrFastMem β) (p : Nat) (e : XrIblockDtbEntry) : XrFastMem β :=
  m.setFast p { m.fast p with dtbLastEntry := e }

/-- Write slot `index` of the block's load or store cache. -/
def XrFastMem.setSlot (m : XrFastMem β) (p block index : Nat) (writing : Bool)
    (e : XrIblockDtbEntry) : XrFastMem β :=
  if writing then
    m.setFast p { m.fast p with
      dtbStoreCache := Function.update (m.fast p).dtbStoreCache block
        (Function.update ((m.fast p).dtbStoreCache block) index e) }
  else
    m.setFast p { m.fast p with
      dtbLoadCache := Function.update (m.fast p).dtbLoadCache block
        (Function.update ((m.fast p).dtbLoadCache block) index e) }

/-- Slot `index` of the block's load or store cache. -/
def XrFast.slot (f : XrFast) (block index : Nat) (writing : Bool) : XrIblockDtbEntry :=
  if writing then f.dtbStoreCache block index else f.dtbLoadCache block index

/-- Does a slot of the block's cache still hold for this access? A store also wants
the page writable; nobody looks at `PTE_KERNEL`. A pointer that was never assigned holds for
nothing here; the source follows it if the tag fits. -/
def slotValid (p : XrProcessor) (e : XrIblockDtbEntry) (virtual : Word) (writing : Bool) : Bool :=
  e.matchingDtbe >>> 32 == (tbMatching (p.cr crDtbtag) virtual).setWidth 64 &&
    e.dtbePointer.map p.dtb == some e.matchingDtbe &&
    (!writing || e.matchingDtbe &&& pteWritable != 0)

variable [EBusHost β]

/-- The result is what is left in `*entry`. -/
def xrTranslateDstream (m : Machine (XrFastMem β)) (virtual : Word) (writing : Bool) :
    Option XrIblockDtbEntry × Machine (XrFastMem β) :=
  if vpnOf virtual = m.proc.dtbLastVpn then
    let last := (m.mem.fast m.proc.id).dtbLastEntry
    match tbeFault m.proc last.matchingDtbe writing with
    | some f => (none, f.take m virtual writing)
    | none => (some last, m)
  else
    match xrLookupDtb m virtual writing with
    | (none, m) => (none, m)
    | (some i, m) =>
        let tbe := m.proc.dtb i
        match tbeFault m.proc tbe writing with
        | some f => (none, f.take m virtual writing)
        | none =>
            let entry : XrIblockDtbEntry :=
              ⟨eBusTranslate m.mem.bus (frameOf tbe), tbe, some i⟩
            (some entry,
              ⟨{ m.proc with dtbLastVpn := vpnOf virtual }, m.mem.setDtbLast m.proc.id entry⟩)

/-- The entry an access uses: the block's own if it still holds, otherwise what
`XrTranslateDstream` leaves there. -/
def dataTarget (m : Machine (XrFastMem β)) (block : Nat) (virtual : Word) (writing : Bool) :
    Option XrIblockDtbEntry × Machine (XrFastMem β) :=
  let index := dtbCacheIndex virtual
  let entry := (m.mem.fast m.proc.id).slot block index writing
  if slotValid m.proc entry virtual writing then (some entry, m)
  else
    match xrTranslateDstream m virtual writing with
    | (none, m) => (none, m)
    | (some e, m) => (some e, { m with mem := m.mem.setSlot m.proc.id block index writing e })

/-! ## Accesses -/

/-- The bus error at the end of both accesses. -/
def directBusError (m : Machine (XrFastMem β)) (address : Word) : Machine (XrFastMem β) :=
  let m := m.setCr crEbadaddr address
  xrBasicException m excBus m.proc.pc

/-- What a bus access leaves behind. -/
def busReply {α : Type} (m : Machine (XrFastMem β)) (r : EBusReply β α) : Machine (XrFastMem β) :=
  ⟨{ m.proc with progress := r.progress }, { m.mem with bus := r.bus }⟩

/-- `XrDirectEBusWrite` and the exception. -/
def directWrite (m : Machine (XrFastMem β)) (address : Word) (r : XrMemReq) :
    XrResult × Machine (XrFastMem β) :=
  let reply := EBus.write m.mem.bus m.proc address.toNat (byteOf r.srcvalue) r.length
  if reply.reply then ((.done, none), busReply m reply)
  else ((.fault, none), directBusError (busReply m reply) address)

/-- `XrDirectEBusRead` and the exception. -/
def directRead (m : Machine (XrFastMem β)) (address : Word) (r : XrMemReq) :
    XrResult × Machine (XrFastMem β) :=
  let reply := EBus.read m.mem.bus m.proc address.toNat r.length
  match reply.reply with
  | some bytes => ((.done, some (zext bytes r.length)), busReply m reply)
  | none => ((.fault, none), directBusError (busReply m reply) address)

/-- A store to the page of an entry. -/
def writeTarget (m : Machine (XrFastMem β)) (e : XrIblockDtbEntry) (r : XrMemReq) :
    XrResult × Machine (XrFastMem β) :=
  match e.hostPointer with
  | none => directWrite m (e.phys r.address) r
  | some _ =>
      let host := (e.goes r.address).toNat
      if r.sc then
        let stored := (xrStoreIfClaimed m.proc.id (e.phys r.address) host r.srcvalue).run m.mem
        (if stored.1 then (.done, none) else (.scFailed, none), { m with mem := stored.2 })
      else
        ((.done, none),
          { m with mem := { m.mem with
              bus := EBusHost.hostWrite m.mem.bus host (byteOf r.srcvalue) r.length } })

/-- A load from the page of an entry. -/
def readTarget (m : Machine (XrFastMem β)) (e : XrIblockDtbEntry) (r : XrMemReq) :
    XrResult × Machine (XrFastMem β) :=
  match e.hostPointer with
  | none => directRead m (e.phys r.address) r
  | some _ =>
      let host := (e.goes r.address).toNat
      if r.sc then
        let loaded := (xrClaimAddress m.proc.id (e.phys r.address) host).run m.mem
        ((.done, some loaded.1), { m with mem := loaded.2 })
      else
        ((.done, some (zext (EBusHost.hostRead m.mem.bus host) r.length)), m)

/-- The exception of an unaligned access. -/
def unaligned (m : Machine (XrFastMem β)) (address : Word) : Machine (XrFastMem β) :=
  let m := m.setCr crEbadaddr address
  xrBasicException m excUna m.proc.pc

def xrAccessWrite (m : Machine (XrFastMem β)) (block : Nat) (r : XrMemReq) :
    XrResult × Machine (XrFastMem β) :=
  if r.address &&& (BitVec.ofNat 32 r.length - 1) ≠ 0 then
    ((.fault, none), unaligned m r.address)
  else if m.proc.rs &&& rsMmu ≠ 0 then
    match dataTarget m block r.address true with
    | (none, m) => ((.fault, none), m)
    | (some e, m) => writeTarget m e r
  else
    directWrite m r.address r

def xrAccessRead (m : Machine (XrFastMem β)) (block : Nat) (r : XrMemReq) :
    XrResult × Machine (XrFastMem β) :=
  if r.address &&& (BitVec.ofNat 32 r.length - 1) ≠ 0 then
    ((.fault, none), unaligned m r.address)
  else if m.proc.rs &&& rsMmu ≠ 0 then
    match dataTarget m block r.address false with
    | (none, m) => ((.fault, none), m)
    | (some e, m) => readTarget m e r
  else
    directRead m r.address r

/-! ## How a translation ends -/

inductive TranslatesDstream (m : Machine (XrFastMem β)) (virtual : Word) (writing : Bool) :
    Option XrIblockDtbEntry → Machine (XrFastMem β) → Prop
  | remembered (hint : vpnOf virtual = m.proc.dtbLastVpn)
      (ok : tbeFault m.proc (m.mem.fast m.proc.id).dtbLastEntry.matchingDtbe writing = none) :
      TranslatesDstream m virtual writing (some (m.mem.fast m.proc.id).dtbLastEntry) m
  | refused {f} (hint : vpnOf virtual = m.proc.dtbLastVpn)
      (fault : tbeFault m.proc (m.mem.fast m.proc.id).dtbLastEntry.matchingDtbe writing =
        some f) :
      TranslatesDstream m virtual writing none (f.take m virtual writing)
  | missed (other : vpnOf virtual ≠ m.proc.dtbLastVpn)
      (scan : tbScan m.proc.dtb (tbMatching (m.proc.cr crDtbtag) virtual) = none) :
      TranslatesDstream m virtual writing none
        (tbMiss crDtbtag crDtbaddr excDtb virtual writing m)
  | denied {i f} (other : vpnOf virtual ≠ m.proc.dtbLastVpn)
      (scan : tbScan m.proc.dtb (tbMatching (m.proc.cr crDtbtag) virtual) = some i)
      (fault : tbeFault m.proc (m.proc.dtb i) writing = some f) :
      TranslatesDstream m virtual writing none (f.take m virtual writing)
  | found {i} (other : vpnOf virtual ≠ m.proc.dtbLastVpn)
      (scan : tbScan m.proc.dtb (tbMatching (m.proc.cr crDtbtag) virtual) = some i)
      (ok : tbeFault m.proc (m.proc.dtb i) writing = none) :
      TranslatesDstream m virtual writing
        (some ⟨eBusTranslate m.mem.bus (frameOf (m.proc.dtb i)), m.proc.dtb i, some i⟩)
        ⟨{ m.proc with dtbLastVpn := vpnOf virtual }, m.mem.setDtbLast m.proc.id
          ⟨eBusTranslate m.mem.bus (frameOf (m.proc.dtb i)), m.proc.dtb i, some i⟩⟩

theorem translatesDstream {m m' : Machine (XrFastMem β)} {virtual : Word} {writing : Bool}
    {out : Option XrIblockDtbEntry} (h : xrTranslateDstream m virtual writing = (out, m')) :
    TranslatesDstream m virtual writing out m' := by
  unfold xrTranslateDstream xrLookupDtb at h
  split at h
  · next hint =>
      extract_lets last at h
      cases hf : tbeFault m.proc last.matchingDtbe writing with
      | some f =>
          simp only [hf] at h
          cases h
          exact .refused hint hf
      | none =>
          simp only [hf] at h
          cases h
          exact .remembered hint hf
  · next hother =>
      cases hscan : tbScan m.proc.dtb (tbMatching (m.proc.cr crDtbtag) virtual) with
      | none =>
          rw [hscan] at h
          cases h
          exact .missed hother hscan
      | some i =>
          simp only [hscan] at h
          cases hf : tbeFault m.proc (m.proc.dtb i) writing with
          | some f =>
              simp only [hf] at h
              cases h
              exact .denied hother hscan hf
          | none =>
              simp only [hf] at h
              cases h
              exact .found hother hscan hf

inductive FindsTarget (m : Machine (XrFastMem β)) (block : Nat) (virtual : Word)
    (writing : Bool) : Option XrIblockDtbEntry → Machine (XrFastMem β) → Prop
  | slot (valid : slotValid m.proc ((m.mem.fast m.proc.id).slot block (dtbCacheIndex virtual)
        writing) virtual writing = true) :
      FindsTarget m block virtual writing
        (some ((m.mem.fast m.proc.id).slot block (dtbCacheIndex virtual) writing)) m
  | faulted {m'} (translate : xrTranslateDstream m virtual writing = (none, m')) :
      FindsTarget m block virtual writing none m'
  | translated {e m'} (translate : xrTranslateDstream m virtual writing = (some e, m')) :
      FindsTarget m block virtual writing (some e)
        { m' with mem := m'.mem.setSlot m'.proc.id block (dtbCacheIndex virtual) writing e }

theorem findsTarget {m m' : Machine (XrFastMem β)} {block : Nat} {virtual : Word}
    {writing : Bool} {out : Option XrIblockDtbEntry}
    (h : dataTarget m block virtual writing = (out, m')) :
    FindsTarget m block virtual writing out m' := by
  unfold dataTarget at h
  extract_lets index entry at h
  split at h
  · next hvalid =>
      cases h
      exact .slot hvalid
  · rcases ht : xrTranslateDstream m virtual writing with ⟨_ | e, m₁⟩
    · rw [ht] at h
      cases h
      exact .faulted ht
    · rw [ht] at h
      cases h
      exact .translated ht

end

end Xremu
