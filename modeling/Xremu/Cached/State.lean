import Xremu.Concurrency.Prog
import Xremu.Machine.Bus

/-!
# The simulated caches: state and single-stretch operations

The cached build gives every processor an Icache, a 2-way write-back Dcache of
16-byte lines with a 4-entry write buffer, and all processors one direct-mapped
Scache that tracks which lines are cached where (it holds no data).

This file has the state and the operations that touch it between two mutex
operations; `Dcache.lean` strings them together with the locks. A cache line is
indexed as in the source, `way` included; its data is a function of the offset
in the line. `none` in `wbIndices` is `XR_CACHE_INDEX_INVALID`, `none` in
`dcIndexToWbIndex` is `XR_WB_INDEX_INVALID`. `abort()` sets `aborted`.
-/

namespace Xremu

/-- `XR_LINE_INVALID`, `XR_LINE_SHARED`, `XR_LINE_EXCLUSIVE`. -/
inductive XrLine where
  | invalid
  | shared
  | exclusive
deriving DecidableEq

/-- The numeric value the source compares line states by. -/
def XrLine.rank : XrLine → Nat
  | .invalid => 0
  | .shared => 1
  | .exclusive => 2

/-- The fields of `struct _XrProcessor` that only the cached build has. -/
structure XrCache where
  icTags : Nat → Nat
  icFlags : Nat → XrLine
  ic : Nat → Nat → Byte
  icReplacementIndex : Nat
  dcTags : Nat → Nat
  dcFlags : Nat → XrLine
  dc : Nat → Nat → Byte
  dcReplacementIndex : Nat
  wbIndices : Nat → Option Nat
  dcIndexToWbIndex : Nat → Option Nat
  wbCycles : Nat
  wbWriteIndex : Nat
  wbFillIndex : Nat
  dtbLastResult : Word

/-- `XrScacheTags`, `XrScacheFlags`, `XrScacheExclusiveIds`. -/
structure XrScache where
  tags : Nat → Nat
  flags : Nat → XrLine
  exclusiveIds : Nat → Nat
  replacementIndex : Nat

/-- The memory system of the cached build. `present` says which entries of
`XrProcessorTable` are not null. -/
structure XrCachedMem (β : Type) where
  caches : Nat → XrCache
  scache : XrScache
  bus : β
  present : Nat → Bool
  aborted : Bool

/-- An empty cache. -/
def XrCache.cold : XrCache where
  icTags _ := 0
  icFlags _ := .invalid
  ic _ _ := 0
  icReplacementIndex := 0
  dcTags _ := 0
  dcFlags _ := .invalid
  dc _ _ := 0
  dcReplacementIndex := 0
  wbIndices _ := none
  dcIndexToWbIndex _ := none
  wbCycles := 0
  wbWriteIndex := 0
  wbFillIndex := 0
  dtbLastResult := 0

/-- All processors of the cached build. -/
structure XrCachedSys (β : Type) where
  procs : Nat → XrProcessor
  mem : XrCachedMem β

/-! ## Indices

`XR_DC_SETS = 1024`, `XR_DC_WAYS = 2`, `XR_SC_SETS = 8192`, `XR_SC_WAYS = 1`,
`XR_WB_DEPTH = 4`, `XR_CACHE_MUTEXES = 256`, `XR_PROC_MAX = 16`. -/

/-- `XR_DC_SET_NUMBER(address)`. -/
def xrDcSetNumber (address : Nat) : Nat := address / 16 % 1024

/-- The Dcache indices of both ways of the set of this address. -/
def xrDcWays (address : Nat) : List Nat := [2 * xrDcSetNumber address, 2 * xrDcSetNumber address + 1]

/-- `XR_SC_SET_NUMBER(tag)`, which with one way is the Scache index. -/
def xrScSetNumber (tag : Nat) : Nat := tag / 16 % 8192

/-- `XR_MUTEX_INDEX(tag)`. -/
def xrMutexIndex (tag : Nat) : Nat := tag % 256

def xrWbEntries : List Nat := [0, 1, 2, 3]
def xrProcMax : Nat := 16

/-! ## One processor's cache -/

namespace XrCache

/-- `DcFlags[index] && DcTags[index] == tag`. -/
def holds (c : XrCache) (tag index : Nat) : Bool :=
  c.dcFlags index != .invalid && c.dcTags index == tag

/-- The way of its set that holds the line, in search order. -/
def findLine (c : XrCache) (tag : Nat) : Option Nat := (xrDcWays tag).find? (c.holds tag)

def setFlag (c : XrCache) (index : Nat) (f : XrLine) : XrCache :=
  { c with dcFlags := Function.update c.dcFlags index f }

/-- Make line `index` the line of `tag`, its contents still to come. -/
def setLine (c : XrCache) (index : Nat) (f : XrLine) (tag : Nat) : XrCache :=
  { c with
    dcFlags := Function.update c.dcFlags index f
    dcTags := Function.update c.dcTags index tag }

/-- Record that write buffer entry `wbindex` stands for line `index`. -/
def insertWb (c : XrCache) (wbindex index : Nat) : XrCache :=
  { c with
    wbIndices := Function.update c.wbIndices wbindex (some index)
    dcIndexToWbIndex := Function.update c.dcIndexToWbIndex index (some wbindex) }

/-- Invalidate write buffer entry `wbindex` of line `index`. -/
def clearWb (c : XrCache) (wbindex index : Nat) : XrCache :=
  { c with
    wbIndices := Function.update c.wbIndices wbindex none
    dcIndexToWbIndex := Function.update c.dcIndexToWbIndex index none }

def setData (c : XrCache) (index : Nat) (bytes : Nat → Byte) : XrCache :=
  { c with dc := Function.update c.dc index bytes }

/-- Copy bytes into a line. -/
def mergeData (c : XrCache) (index off : Nat) (src : Nat → Byte) (length : Nat) : XrCache :=
  c.setData index (copyBytes (c.dc index) off src length)

/-- The cached build's part of `XrReset`: the write buffer is forgotten. -/
def reset (c : XrCache) : XrCache :=
  { c with
    icReplacementIndex := 0
    dcReplacementIndex := 0
    wbWriteIndex := 0
    wbCycles := 0
    wbFillIndex := 0
    wbIndices := fun _ => none
    dcIndexToWbIndex := fun _ => none }

end XrCache

/-- The write-buffer search of a write: `freewbindex` is left at the last free
entry seen, and the search stops at an entry that already stands for the line. -/
inductive XrWbSearch where
  | hit (index : Nat)
  | miss (freewbindex : Option Nat)

def searchWb (c : XrCache) (tag : Nat) : List Nat → Option Nat → XrWbSearch
  | [], freewbindex => .miss freewbindex
  | i :: is, freewbindex =>
      match c.wbIndices i with
      | none => searchWb c tag is (some i)
      | some index => if c.dcTags index = tag then .hit index else searchWb c tag is freewbindex

/-! ## The whole memory system -/

namespace XrCachedMem

variable {β : Type}

def setCache (m : XrCachedMem β) (p : Nat) (c : XrCache) : XrCachedMem β :=
  { m with caches := Function.update m.caches p c }

@[simp] theorem setCache_caches (m : XrCachedMem β) (p : Nat) (c : XrCache) :
    (m.setCache p c).caches = Function.update m.caches p c := rfl
@[simp] theorem setCache_scache (m : XrCachedMem β) (p : Nat) (c : XrCache) :
    (m.setCache p c).scache = m.scache := rfl
@[simp] theorem setCache_bus (m : XrCachedMem β) (p : Nat) (c : XrCache) :
    (m.setCache p c).bus = m.bus := rfl
@[simp] theorem setCache_present (m : XrCachedMem β) (p : Nat) (c : XrCache) :
    (m.setCache p c).present = m.present := rfl
@[simp] theorem setCache_aborted (m : XrCachedMem β) (p : Nat) (c : XrCache) :
    (m.setCache p c).aborted = m.aborted := rfl

end XrCachedMem

instance {β : Type} : ResetMem (XrCachedMem β) where
  resetMem p m := m.setCache p (m.caches p).reset

namespace XrCachedSys

variable {β : Type}

/-- The first `n` processors exist, and every cache is empty. -/
def cold (n : Nat) (bus : β) : XrCachedSys β where
  procs := XrProcessor.zeroed
  mem :=
    { caches := fun _ => .cold
      scache := ⟨fun _ => 0, fun _ => .invalid, fun _ => 0, 0⟩
      bus := bus
      present := fun p => p < n
      aborted := false }

def machine (s : XrCachedSys β) (p : Nat) : Machine (XrCachedMem β) := ⟨s.procs p, s.mem⟩

def setMachine (s : XrCachedSys β) (p : Nat) (m : Machine (XrCachedMem β)) : XrCachedSys β :=
  ⟨Function.update s.procs p m.proc, m.mem⟩

def cache (s : XrCachedSys β) (p : Nat) : XrCache := s.mem.caches p

/-- Local code that only touches processor `p`'s cache. -/
def onCache (p : Nat) (f : XrCache → XrCache) (s : XrCachedSys β) : XrCachedSys β :=
  { s with mem := s.mem.setCache p (f (s.mem.caches p)) }

/-- Local code that only touches the Scache. -/
def onScache (f : XrScache → XrScache) (s : XrCachedSys β) : XrCachedSys β :=
  { s with mem := { s.mem with scache := f s.mem.scache } }

/-- `XrScacheReplacementIndex += 1`. -/
def nextScReplacement (s : XrCachedSys β) : XrCachedSys β :=
  onScache (fun sc => { sc with replacementIndex := sc.replacementIndex + 1 }) s

/-- `abort()`. -/
def abort (s : XrCachedSys β) : XrCachedSys β := { s with mem := { s.mem with aborted := true } }

/-- What a bus access of processor `p` leaves behind. -/
def busDone {α : Type} (p : Nat) (r : EBusReply β α) (s : XrCachedSys β) : XrCachedSys β :=
  ⟨Function.update s.procs p { s.procs p with progress := r.progress }, { s.mem with bus := r.bus }⟩

variable [EBus β]

/-- `EBusWrite(tag, &proc->Dc[index << XR_DC_LINE_SIZE_LOG], XR_DC_LINE_SIZE, proc)`; the status
is not looked at. -/
def writeLine (p tag index : Nat) (s : XrCachedSys β) : XrCachedSys β :=
  busDone p (EBus.write s.mem.bus (s.procs p) tag ((s.cache p).dc index) 16) s

/-- Write line `index` out if it is in the write buffer, and take it out of it. -/
def forceWriteOut (p tag index : Nat) (s : XrCachedSys β) : XrCachedSys β :=
  match (s.cache p).dcIndexToWbIndex index with
  | none => s
  | some wbindex => onCache p (·.clearWb wbindex index) (writeLine p tag index s)

/-- The body of `XrDowngradeLine` under the cache lock. -/
def downgrade (p tag : Nat) (newstate : XrLine) (s : XrCachedSys β) : XrCachedSys β :=
  match (xrDcWays tag).find? fun index =>
      newstate.rank < ((s.cache p).dcFlags index).rank && (s.cache p).dcTags index == tag with
  | none => s
  | some index => onCache p (·.setFlag index newstate) (forceWriteOut p tag index s)

/-- Throw line `index` out of the Dcache of `p` before it is reused. -/
def evictLine (p index : Nat) (s : XrCachedSys β) : XrCachedSys β :=
  if (s.cache p).dcFlags index = .invalid then s
  else onCache p (·.setFlag index .invalid) (forceWriteOut p ((s.cache p).dcTags index) index s)

/-- `EBusRead(tag, &proc->Dc[index << XR_DC_LINE_SIZE_LOG], XR_DC_LINE_SIZE, proc)`. The Boolean
is whether the bus answered. -/
def readLine (p tag index : Nat) (s : XrCachedSys β) : Bool × XrCachedSys β :=
  let r := EBus.read s.mem.bus (s.procs p) tag 16
  match r.reply with
  | none => (false, busDone p r s)
  | some bytes => (true, onCache p (·.setData index bytes) (busDone p r s))

/-- Make line `index` the line of `tag` and read it in. -/
def fillLine (p index tag : Nat) (newstate : XrLine) (s : XrCachedSys β) : Bool × XrCachedSys β :=
  readLine p tag index (onCache p (·.setLine index newstate tag) s)

/-- Take line `index` and its Scache entry back after a bus error. -/
def backOut (p index scacheindex : Nat) (s : XrCachedSys β) : XrCachedSys β :=
  onCache p (·.setFlag index .invalid)
    (onScache (fun sc => { sc with flags := Function.update sc.flags scacheindex .invalid }) s)

/-- `proc->Cr[EBADADDR] = address; XrBasicException(proc, XR_EXC_BUS, proc->Pc)`. -/
def busError (p address : Nat) (s : XrCachedSys β) : XrCachedSys β :=
  let m := (s.machine p).setCr crEbadaddr (BitVec.ofNat 32 address)
  s.setMachine p (xrBasicException m excBus m.proc.pc)

end XrCachedSys

end Xremu
