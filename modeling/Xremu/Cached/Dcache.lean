import Xremu.Cached.State
import Xremu.Machine.MemAccess

/-!
# `XrDcacheAccess` and what it calls, as lock programs

The functions of `xraccess.inc.c` that take cache mutexes, in the order of the
source. Each is the source's text with the local code between two mutex
operations as one state update from `State.lean`. `goto restart` is
`Sum.inl freewbindex`: the variable keeps its value across the jump.

`XrDcacheAccess` is split at the points where the source first holds another
set of locks: the write-buffer search, the lookup, the upgrade of a shared line,
and the miss.
-/

namespace Xremu

open Concurrency XrCachedSys

/-- The cache mutexes of each processor and the Scache mutexes. -/
inductive XrLock where
  | cache (p m : Nat)
  | scache (m : Nat)
deriving DecidableEq

/-- The arguments of `XrDcacheAccess`; `read` is `dest != 0`. -/
structure XrAccessReq where
  address : Nat
  read : Bool
  srcvalue : Word
  length : Nat
  sc : Bool
deriving DecidableEq

namespace XrAccessReq

def tag (a : XrAccessReq) : Nat := xrLineTag a.address
def lineoffset (a : XrAccessReq) : Nat := a.address % 16

/-- Exclusive for a write, shared for a read. -/
def newstate (a : XrAccessReq) : XrLine := if a.read then .shared else .exclusive

end XrAccessReq

variable {β : Type} [EBus β]

abbrev XrCode (β α : Type) := Prog (XrCachedSys β) XrLock α

def xrLockCache (p tag : Nat) : XrCode β Unit := Prog.acquire (.cache p (xrMutexIndex tag))
def xrUnlockCache (p tag : Nat) : XrCode β Unit := Prog.release (.cache p (xrMutexIndex tag))
def xrLockScache (tag : Nat) : XrCode β Unit := Prog.acquire (.scache (xrMutexIndex tag))
def xrUnlockScache (tag : Nat) : XrCode β Unit := Prog.release (.scache (xrMutexIndex tag))

/-! ## Write buffer flush -/

/-- `XrFlushWriteBuffer` from the write buffer entries still to visit. -/
def flushEntries (p : Nat) : List Nat → XrCode β Unit
  | [] => pure ()
  | i :: is => do
      let s ← Prog.get
      match (s.cache p).wbIndices i with
      | none => flushEntries p is
      | some index =>
          let tag := (s.cache p).dcTags index
          xrLockCache p tag
          let s ← Prog.get
          if (s.cache p).wbIndices i = none then   -- it was flushed meanwhile
            xrUnlockCache p tag
            flushEntries p is
          else
            Prog.modify fun s => onCache p (·.clearWb i index) (writeLine p tag index s)
            xrUnlockCache p tag
            flushEntries p is

def xrFlushWriteBuffer (p : Nat) : XrCode β Unit := flushEntries p xrWbEntries

/-! ## Downgrades and the Scache -/

def xrDowngradeLine (p tag : Nat) (newstate : XrLine) : XrCode β Unit := do
  xrLockCache p tag
  Prog.modify (downgrade p tag newstate)
  xrUnlockCache p tag

/-- `XrDowngradeAll` from the processors still to visit; `thisproc` is skipped. -/
def downgradeProcs (thisproc : Option Nat) (tag : Nat) (newstate : XrLine) :
    List Nat → XrCode β Unit
  | [] => pure ()
  | i :: is => do
      let s ← Prog.get
      if s.mem.present i = false ∨ thisproc = some i then
        downgradeProcs thisproc tag newstate is
      else
        xrDowngradeLine i tag newstate
        downgradeProcs thisproc tag newstate is

def xrDowngradeAll (thisproc : Option Nat) (tag : Nat) (newstate : XrLine) : XrCode β Unit :=
  downgradeProcs thisproc tag newstate (List.range xrProcMax)

def xrFindInScache (sc : XrScache) (tag : Nat) : Option Nat :=
  let index := xrScSetNumber tag
  if sc.flags index ≠ .invalid ∧ sc.tags index = tag then some index else none

/-- Empty the Scache entry `index`: remove its line from every Dcache. -/
def stealScacheEntry (index : Nat) : XrCode β Unit := do
  let s ← Prog.get
  let oldtag := s.mem.scache.tags index
  match s.mem.scache.flags index with
  | .invalid => pure ()
  | .shared => xrDowngradeAll none oldtag .invalid
  | .exclusive => xrDowngradeLine (s.mem.scache.exclusiveIds index) oldtag .invalid

/-- Give the Scache entry `index` to the line of `tag`. -/
def XrScache.fill (index tag p : Nat) (newstate : XrLine) (sc : XrScache) : XrScache :=
  { sc with
    flags := Function.update sc.flags index newstate
    tags := Function.update sc.tags index tag
    exclusiveIds := Function.update sc.exclusiveIds index p }

/-- Change the state of the Scache entry `index`, keeping its line. -/
def XrScache.setState (index p : Nat) (newstate : XrLine) (sc : XrScache) : XrScache :=
  { sc with
    flags := Function.update sc.flags index newstate
    exclusiveIds := Function.update sc.exclusiveIds index p }

/-- The result is the index and `created`. -/
def xrFindOrReplaceInScache (p tag : Nat) (newstate : XrLine) : XrCode β (Nat × Bool) := do
  let s ← Prog.get
  match xrFindInScache s.mem.scache tag with
  | some index => pure (index, false)
  | none =>
      -- One way: `XrScacheReplacementIndex & (XR_SC_WAYS - 1)` is 0.
      let index := xrScSetNumber tag
      Prog.modify nextScReplacement
      stealScacheEntry index
      Prog.modify (onScache (XrScache.fill index tag p newstate))
      pure (index, true)

/-! ## The access -/

/-- A write to an exclusive line: enter it in the write buffer and merge the data. -/
def storeToLine (p freewbindex index : Nat) (a : XrAccessReq) (s : XrCachedSys β) : XrCachedSys β :=
  onCache p (fun c =>
    (c.insertWb freewbindex index).mergeData index a.lineoffset (byteOf a.srcvalue) a.length) s

/-- The value a read takes out of line `index`. -/
def loadFromLine (s : XrCachedSys β) (p index : Nat) (a : XrAccessReq) : Word :=
  zext (fun k => (s.cache p).dc index (a.lineoffset + k)) a.length

/-- After a miss on a line the Scache already has: take it from the Dcaches
that hold it in a state the access cannot share. -/
def downgradeHolders (index : Nat) (a : XrAccessReq) : XrCode β Unit := do
  let s ← Prog.get
  match s.mem.scache.flags index with
  | .exclusive =>
      xrDowngradeLine (s.mem.scache.exclusiveIds index) a.tag (if a.read then .shared else .invalid)
  | .shared => if a.read then pure () else xrDowngradeAll none a.tag .invalid
  | .invalid => pure ()

/-- `XrDcacheAccess` after a miss, from the Scache lock held to the line in the
desired state in the Scache. The result is the Scache index. -/
def claimScacheEntry (p : Nat) (a : XrAccessReq) : XrCode β Nat := do
  let found ← xrFindOrReplaceInScache p a.tag a.newstate
  if found.2 then   -- created
    pure found.1
  else
    downgradeHolders found.1 a
    Prog.modify (onScache (XrScache.setState found.1 p a.newstate))
    pure found.1

/-- The Dcache line a miss replaces. -/
def replacedLine (s : XrCachedSys β) (p : Nat) (a : XrAccessReq) : Nat :=
  2 * xrDcSetNumber a.address + (s.cache p).dcReplacementIndex % 2

/-- `proc->DcReplacementIndex++`. -/
def nextReplacement (p : Nat) (s : XrCachedSys β) : XrCachedSys β :=
  onCache p (fun c => { c with dcReplacementIndex := c.dcReplacementIndex + 1 }) s

/-- Choose the Dcache line to replace and throw its contents out. -/
def makeRoom (p : Nat) (a : XrAccessReq) (s : XrCachedSys β) : XrCachedSys β :=
  evictLine p (replacedLine s p a) (nextReplacement p s)

/-- Reuse a Dcache line for the missing one. The result is the index and whether
the bus answered. -/
def replaceLine (p : Nat) (a : XrAccessReq) (s : XrCachedSys β) : (Nat × Bool) × XrCachedSys β :=
  let index := replacedLine s p a
  let r := fillLine p index a.tag a.newstate (makeRoom p a s)
  ((index, r.1), r.2)

/-- `XrDcacheAccess` after a miss, Scache lock held and the line claimed. -/
def dcacheFill (p freewbindex scacheindex : Nat) (a : XrAccessReq) :
    XrCode β (Option Nat ⊕ XrResult) := do
  xrLockCache p a.tag
  let line ← Prog.modifyGet (replaceLine p a)
  if line.2 = false then   -- bus error
    Prog.modify (backOut p line.1 scacheindex)
    xrUnlockCache p a.tag
    xrUnlockScache a.tag
    Prog.modify (busError p a.address)
    pure (.inr (.fault, none))
  else
    xrUnlockScache a.tag
    if a.read then
      let s ← Prog.get
      xrUnlockCache p a.tag
      pure (.inr (.done, some (loadFromLine s p line.1 a)))
    else
      Prog.modify (storeToLine p freewbindex line.1 a)
      xrUnlockCache p a.tag
      pure (.inr (.done, none))

/-- `XrDcacheAccess` after a miss, cache unlocked. -/
def dcacheMiss (p freewbindex : Nat) (a : XrAccessReq) : XrCode β (Option Nat ⊕ XrResult) := do
  xrLockScache a.tag
  let scacheindex ← claimScacheEntry p a
  dcacheFill p freewbindex scacheindex a

/-- On the upgrade of a shared line: remove it from every other Dcache. -/
def downgradeOthers (p scacheindex : Nat) (a : XrAccessReq) : XrCode β Unit := do
  let s ← Prog.get
  match s.mem.scache.flags scacheindex with
  | .shared => xrDowngradeAll (some p) a.tag .invalid
  | .exclusive => xrDowngradeLine (s.mem.scache.exclusiveIds scacheindex) a.tag .invalid
  | .invalid => pure ()

/-- "Set the new cache states" of an upgrade. -/
def makeExclusive (p index scacheindex : Nat) (s : XrCachedSys β) : XrCachedSys β :=
  onCache p (·.setFlag index .exclusive) (onScache (XrScache.setState scacheindex p .exclusive) s)

/-- `XrDcacheAccess` on a write hit to a shared line, cache unlocked: the line
becomes exclusive. -/
def dcacheUpgrade (p freewbindex index : Nat) (a : XrAccessReq) :
    XrCode β (Option Nat ⊕ XrResult) := do
  xrLockScache a.tag
  let s ← Prog.get
  if (s.cache p).dcFlags index = .invalid then   -- invalidated while no lock was held
    xrUnlockScache a.tag
    pure (.inl (some freewbindex))
  else
    match xrFindInScache s.mem.scache a.tag with
    | none =>
        Prog.modify abort
        pure (.inr (.fault, none))
    | some scacheindex =>
        downgradeOthers p scacheindex a
        Prog.modify fun s => storeToLine p freewbindex index a (makeExclusive p index scacheindex s)
        xrUnlockScache a.tag
        pure (.inr (.done, none))

/-- `XrDcacheAccess` after the lookup failed; a write holds its cache lock. -/
def dcacheMissed (p freewbindex : Nat) (a : XrAccessReq) : XrCode β (Option Nat ⊕ XrResult) :=
  if a.sc then
    pure (.inr (.scFailed, none))
  else
    dcacheMiss p freewbindex a

/-- `XrDcacheAccess` from the lookup of the line; a write holds its cache lock. -/
def dcacheLookup (p freewbindex : Nat) (a : XrAccessReq) : XrCode β (Option Nat ⊕ XrResult) := do
  let s ← Prog.get
  match (s.cache p).findLine a.tag with
  | some index =>
      if a.read then
        pure (.inr (.done, some (loadFromLine s p index a)))
      else if (s.cache p).dcFlags index = .exclusive then
        Prog.modify (storeToLine p freewbindex index a)
        xrUnlockCache p a.tag
        pure (.inr (.done, none))
      else
        xrUnlockCache p a.tag
        dcacheUpgrade p freewbindex index a
  | none =>
      if a.read then
        dcacheMissed p freewbindex a
      else
        xrUnlockCache p a.tag
        dcacheMissed p freewbindex a

/-- `XrDcacheAccess` from the label `restart`. A read has no use for
`freewbindex`. -/
def xrDcacheAccess (p : Nat) (a : XrAccessReq) (freewbindex : Option Nat) :
    XrCode β (Option Nat ⊕ XrResult) := do
  if a.read then
    dcacheLookup p 0 a
  else
    xrLockCache p a.tag
    let s ← Prog.get
    match searchWb (s.cache p) a.tag xrWbEntries freewbindex with
    | .hit index =>
        Prog.modify (onCache p (·.mergeData index a.lineoffset (byteOf a.srcvalue) a.length))
        xrUnlockCache p a.tag
        pure (.inr (.done, none))
    | .miss none =>
        xrUnlockCache p a.tag
        xrFlushWriteBuffer p
        pure (.inl none)
    | .miss (some freewbindex) =>
        Prog.modify (onCache p fun c => { c with wbCycles := if c.wbCycles = 0 then 3 else c.wbCycles })
        dcacheLookup p freewbindex a

/-! ## Invalidation by the guest -/

/-- The Dcache lines that a write of `value` to DCACHECTRL invalidates: with 3 in
the low bits all of them, with 2 those of one page frame. -/
def dcachectrlLines (value : Word) (c : XrCache) (i : Nat) : Bool :=
  if value &&& 3 = 3 then i < 2048
  else if value &&& 3 = 2 then
    let phys := value &&& 0xFFFFF000
    let lowindex := 2 * xrDcSetNumber phys.toNat
    let highindex := 2 * xrDcSetNumber (phys + 4096).toNat
    lowindex ≤ i && i < highindex && c.dcTags i / 4096 * 4096 == phys.toNat
  else false

def XrCache.invalidate (lines : Nat → Bool) (c : XrCache) : XrCache :=
  { c with dcFlags := fun i => if lines i then .invalid else c.dcFlags i }

/-- The case `DCACHECTRL` of `XrExecuteMtcr`. -/
def mtcrDcachectrl (p : Nat) (value : Word) : XrCode β Unit := do
  xrFlushWriteBuffer p
  Prog.modify (onCache p fun c => c.invalidate (dcachectrlLines value c))

end Xremu
