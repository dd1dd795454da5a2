import Xremu.Machine.Bus
import Xremu.Machine.Translate

/-!
# The fast build: state

With FASTMEMORY there are no caches. A data page is remembered with a pointer to
the host memory behind it, once in the processor (`DtbLastEntry`) and once for
every basic block, separately for loads and stores. LL and SC go through two
levels of claim tables, one table per processor and one for all.

A host pointer is the physical address of the page it was made for, a pointer to
a DTB entry is its index, and the `OtherEntry` of a claim table entry is the
index of the entry it points to; `none` is the null pointer. Basic blocks are
numbered.
-/

namespace Xremu

/-- A bus whose memory can be pointed into. -/
class EBusHost (β : Type) extends EBus β where
  translate : β → Word → Bool   -- is `EBusTranslate` of this page not null?
  hostRead : β → (address : Nat) → Nat → Byte
  hostWrite : β → (address : Nat) → (Nat → Byte) → (length : Nat) → β

/-- `EBusTranslate` of the page at this address. -/
def eBusTranslate {β : Type} [EBusHost β] (bus : β) (page : Word) : Option Word :=
  if EBusHost.translate bus page then some page else none

/-- RAM can be pointed into where it answers. -/
instance : EBusHost LineRam where
  translate r page := r.populated (xrLineTag page.toNat)
  hostRead r address k := r.bytes (address + k)
  hostWrite r address src length := { r with bytes := copyBytes r.bytes address src length }

structure XrIblockDtbEntry where
  hostPointer : Option Word
  matchingDtbe : BitVec 64
  dtbePointer : Option Nat
deriving DecidableEq

/-- The fields of a processor that only the fast build has, its blocks' among them. -/
structure XrFast where
  dtbLastEntry : XrIblockDtbEntry
  dtbLoadCache : Nat → Nat → XrIblockDtbEntry    -- by block and page slot
  dtbStoreCache : Nat → Nat → XrIblockDtbEntry
  l1ClaimTable : Nat → Option Nat

/-- The memory system of the fast build. -/
structure XrFastMem (β : Type) where
  fast : Nat → XrFast
  l2ClaimTable : Nat → Option (Nat × Nat)   -- processor and index of the L1 entry
  bus : β

/-- All processors of the fast build. -/
structure XrFastSys (β : Type) where
  procs : Nat → XrProcessor
  mem : XrFastMem β

/-- `XrReset` has nothing to do for the fast build. -/
instance {β : Type} : ResetMem (XrFastMem β) where
  resetMem _ m := m

/-- A table entry of zeros. -/
def XrIblockDtbEntry.zeroed : XrIblockDtbEntry := ⟨none, 0, none⟩

def XrFast.zeroed : XrFast where
  dtbLastEntry := .zeroed
  dtbLoadCache _ _ := .zeroed
  dtbStoreCache _ _ := .zeroed
  l1ClaimTable _ := none

namespace XrFastMem

variable {β : Type}

def setFast (m : XrFastMem β) (p : Nat) (f : XrFast) : XrFastMem β :=
  { m with fast := Function.update m.fast p f }

/-- The L1 claim table entry `i` of processor `p`. -/
def l1 (m : XrFastMem β) (p i : Nat) : Option Nat := (m.fast p).l1ClaimTable i

def setL1 (m : XrFastMem β) (p i : Nat) (other : Option Nat) : XrFastMem β :=
  m.setFast p
    { m.fast p with l1ClaimTable := Function.update (m.fast p).l1ClaimTable i other }

def setL2 (m : XrFastMem β) (j : Nat) (other : Option (Nat × Nat)) : XrFastMem β :=
  { m with l2ClaimTable := Function.update m.l2ClaimTable j other }

@[simp] theorem l1_setL1 (m : XrFastMem β) (p i q k : Nat) (other : Option Nat) :
    (m.setL1 p i other).l1 q k = if q = p ∧ k = i then other else m.l1 q k := by
  by_cases hq : q = p
  · subst hq
    simp [l1, setL1, setFast, Function.update_apply]
  · simp [l1, setL1, setFast, hq]

@[simp] theorem l1_setL2 (m : XrFastMem β) (j q k : Nat) (other : Option (Nat × Nat)) :
    (m.setL2 j other).l1 q k = m.l1 q k := rfl
@[simp] theorem l2_setL1 (m : XrFastMem β) (p i : Nat) (other : Option Nat) :
    (m.setL1 p i other).l2ClaimTable = m.l2ClaimTable := rfl
@[simp] theorem l2_setL2 (m : XrFastMem β) (j : Nat) (other : Option (Nat × Nat)) :
    (m.setL2 j other).l2ClaimTable = Function.update m.l2ClaimTable j other := rfl

end XrFastMem

namespace XrFastSys

variable {β : Type}

/-- A system just started: no entry is claimed, no page remembered. -/
def cold (bus : β) : XrFastSys β := ⟨XrProcessor.zeroed, ⟨fun _ => .zeroed, fun _ => none, bus⟩⟩

def machine (s : XrFastSys β) (p : Nat) : Machine (XrFastMem β) := ⟨s.procs p, s.mem⟩

def setMachine (s : XrFastSys β) (p : Nat) (m : Machine (XrFastMem β)) : XrFastSys β :=
  ⟨Function.update s.procs p m.proc, m.mem⟩

end XrFastSys

end Xremu
