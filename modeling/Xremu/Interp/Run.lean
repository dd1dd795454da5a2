import Xremu.Interp.BlockRuns
import Xremu.Interp.SingleStep

/-!
# The interpreter

`XrExecuteFast` in small steps: from the start of `XrCheckConditions` to its label, from
there to the call of a block, and from one cached instruction to the next. What follows
the tail call at the end of a block is part of the step of its last instruction.

Between two steps other threads and devices may change what they share with the
processor (`XrInput`). A step that has no result is `abort()`, or a null pointer
dereferenced.
-/

namespace Xremu

/-- `XR_CURRENT_ASID()`. -/
def XrProcessor.xrCurrentAsid (p : XrProcessor) : Word :=
  if p.rs &&& rsMmu ≠ 0 then p.cr crItbtag &&& 0xFFF00000 else 0xFFFFFFFF

/-- Where the interpreter is: at the start of `XrCheckConditions`, at its label, about to
call instruction `k` of block `i`, or not in the loop of `XrExecuteFast`. -/
inductive XrPoint where
  | check
  | retry
  | inst (i k : Nat)
  | noMore
deriving DecidableEq

structure XrInterp (M : Type) where
  machine : Machine M
  cache : XrIblockCache
  point : XrPoint

section

variable {M : Type}

/-- Add to `CyclesDone`. -/
def Machine.charge (m : Machine M) (cycles : Nat) : Machine M :=
  { m with proc := { m.proc with cyclesDone := m.proc.cyclesDone + BitVec.ofNat 32 cycles } }

/-- `XR_DISPATCH(nextblock)` in block `i`. -/
def xrDispatch (m : Machine M) (c : XrIblockCache) (i next : Nat) : XrInterp M :=
  let m := m.charge (c.iblocks i).code.cycles
  let dispatches := m.proc.dispatches
  let m : Machine M := { m with proc := { m.proc with dispatches := dispatches + 1 } }
  ⟨m, c, if dispatches &&& 31 = 0 then .check else .inst next 0⟩

/-- What a prediction table has for a program counter. -/
def XrIblockCache.predicted (c : XrIblockCache) (t : Nat) (pc : Word) : XrPointer :=
  if (c.ptables t).pcs (jalrIndex pc) = pc then (c.ptables t).iblocks (jalrIndex pc) else .null

/-- The cached pointer that block `i` is left by, at this program counter. -/
def XrIblockCache.cachedNext (c : XrIblockCache) (i : Nat) (pc : Word) : XrExit → XrPointer
  | .follow path => (c.iblocks i).cachedPaths path
  | .predict =>
      match (c.iblocks i).cachedPaths .true with
      | .ptable t => c.predicted t pc
      | _ => .null
  | _ => .null

variable [XrBuild M]

/-! ## Decoding at the program counter -/

/-- The block at the program counter, or `none` after an exception. -/
def xrDecodeInstructions (m : Machine M) (c : XrIblockCache) (hazard : Option Nat) :
    Option (Option Nat × Machine M × XrIblockCache) :=
  let pc := m.proc.pc
  let asid := m.proc.xrCurrentAsid
  match c.xrLookupIblock pc asid with
  | some i =>
      if (c.iblocks i).pteFlags &&& pteKernel ≠ 0 ∧ m.proc.rs &&& rsUser ≠ 0 then
        some (none, xrBasicException (m.setCr crEbadaddr pc) excPgf pc, c)
      else some (some i, m, c)
  | none =>
      match XrBuild.fetch m with
      | none => none
      | some (none, m) => some (none, m, c)
      | some (some f, m) =>
          match c.decodeFetched hazard pc asid f m.tbmiss with
          | none => none
          | some (i, c) => some (some i, XrBuild.emptyDtbCache i m, c)

/-! ## The steps -/

/-- After a branch, a jump or the linkage instruction, which is instruction `k` of block `i`. -/
def xrFollow (m : Machine M) (c : XrIblockCache) (i k : Nat) (path : XrPath) :
    Option (XrInterp M) :=
  match (c.iblocks i).cachedPaths path with
  | .iblock j => some (xrDispatch m c i j)
  | .ptable _ => none
  | .null =>
      match xrDecodeInstructions m c (some i) with
      | none => none
      | some (none, m, c) => some ⟨m.charge k, c, .check⟩
      | some (some j, m, c) =>
          some (xrDispatch m (c.xrCreateCachedPointerToBlock j (.path i path)) i j)

/-- JALR, once the block has prediction table `t`. -/
def xrPredictBy (m : Machine M) (c : XrIblockCache) (i k t : Nat) : Option (XrInterp M) :=
  match c.predicted t m.proc.pc with
  | .iblock j => some (xrDispatch m c i j)
  | .ptable _ => none
  | .null =>
      match xrDecodeInstructions m c (some i) with
      | none => none
      | some (none, m, c) => some ⟨m.charge k, c, .check⟩
      | some (some j, m, c) => some (xrDispatch m (c.predict t j m.proc.pc) i j)

/-- After JALR, which is instruction `k` of block `i`. -/
def xrPredict (m : Machine M) (c : XrIblockCache) (i k : Nat) : Option (XrInterp M) :=
  match if (c.iblocks i).cachedPaths .true = .null then c.givePtable i else some c with
  | none => none
  | some c =>
      match (c.iblocks i).cachedPaths .true with
      | .null | .iblock _ => none
      | .ptable t => xrPredictBy m c i k t

/-- What MTCR drops. -/
def XrIblockCache.drop (c : XrIblockCache) : Option Word → Option XrIblockCache
  | none => c.xrInvalidateIblockCache
  | some vpn => c.xrInvalidateIblockCacheByVpn vpn

/-- The end of instruction `k` of block `i`. -/
def xrLeave (m : Machine M) (c : XrIblockCache) (i k : Nat) : XrExit → Option (XrInterp M)
  | .next => some ⟨m, c, .inst i (k + 1)⟩
  | .early => some ⟨m.charge k, c, .check⟩
  | .flush vpn => (c.drop vpn).map fun c => ⟨m.charge k, c, .check⟩
  | .trivial => some ⟨m.charge (c.iblocks i).code.cycles, c, .check⟩
  | .follow path => xrFollow m c i k path
  | .predict => xrPredict m c i k

/-- Instruction `k` of block `i`. -/
def xrInst (m : Machine M) (c : XrIblockCache) (i k : Nat) : Option (XrInterp M) :=
  match (c.iblocks i).code.insts[k]? with
  | none => none
  | some inst =>
      match inst.exec m i with
      | none => none
      | some (m, exit) => xrLeave m c i k exit

def Machine.countNmiMask (m : Machine M) : Machine M :=
  if m.proc.nmiMaskCounter ≠ 0 then
    { m with proc := { m.proc with nmiMaskCounter := m.proc.nmiMaskCounter - 1 } }
  else m

/-- The interrupt at a block boundary; `pending` is `lsic->InterruptPending`. -/
def takeInterrupt (pending : Bool) (m : Machine M) : Machine M :=
  if pending ∧ m.proc.rs &&& rsInt ≠ 0 then
    let m := xrBasicException m excInt m.proc.pc
    { m with proc := { m.proc with progress := xrPollMax } }
  else m

/-- `XrCheckConditions` stops the execution. -/
def XrProcessor.Stops (p : XrProcessor) : Prop :=
  p.cyclesGoal ≤ p.cyclesDone ∨ p.halted = true ∨ xrPauseMax ≤ p.pauseCalls

instance (p : XrProcessor) : Decidable p.Stops := inferInstanceAs (Decidable (_ ∨ _ ∨ _))

/-- `XrCheckConditions` from its label on. -/
def xrRetry (pending : Bool) (m : Machine M) (c : XrIblockCache) : Option (XrInterp M) :=
  if m.proc.Stops then some ⟨{ m with proc := { m.proc with noMore := true } }, c, .noMore⟩
  else
    match xrDecodeInstructions (takeInterrupt pending m.countNmiMask) c none with
    | none => none
    | some (none, m, c) => some ⟨m.charge xrIblockInsts, c, .retry⟩
    | some (some i, m, c) => some ⟨m, c, .inst i 0⟩

def XrInterp.step (pending : Bool) (s : XrInterp M) : Option (XrInterp M) :=
  match s.point with
  | .check => some { s with machine := XrBuild.drain s.machine, point := .retry }
  | .retry => xrRetry pending s.machine s.cache
  | .inst i k => xrInst s.machine s.cache i k
  | .noMore => none

/-! ## Runs -/

/-- `XrExecuteFast` up to its loop, or up to a return without it. -/
def xrExecuteFast (pending : Bool) (cycles : Word) (m : Machine M) : Machine M × XrPoint :=
  if m.proc.running = false then (m, .noMore)
  else if m.proc.halted = true ∧ ¬(pending ∧ m.proc.rs &&& rsInt ≠ 0) then
    ({ m with proc := { m.proc with nmiMaskCounter := 0 } }, .noMore)
  else
    let m : Machine M :=
      if m.proc.halted then
        { m with proc := { m.proc with nmiMaskCounter := 0, halted := false } }
      else m
    let m : Machine M := { m with proc := { m.proc with cyclesGoal := cycles, cyclesDone := 0 } }
    let m : Machine M :=
      if m.proc.userBreak = true ∧ m.proc.nmiMaskCounter = 0 then
        let m := xrBasicException m excNmi m.proc.pc
        { m with proc := { m.proc with userBreak := false, halted := false } }
      else m
    if m.proc.progress ≤ 0 then (m, .noMore)
    else ({ m with proc := { m.proc with pauseCalls := 0, noMore := false } }, .check)

/-- What other threads and devices may change: the memory system, `UserBreak`, `Running`
and, by a command to a disk, `PauseCalls`. -/
def Outside (m m' : Machine M) : Prop :=
  m'.proc = { m.proc with
    userBreak := m'.proc.userBreak
    running := m'.proc.running
    pauseCalls := m'.proc.pauseCalls }

/-- What comes from outside before a step. -/
structure XrInput (M : Type) where
  outside : Machine M → Machine M
  pending : Bool
  outside_ok : ∀ m, Outside m (outside m)

namespace XrInterp

/-- After what came from outside. -/
def meets (s : XrInterp M) (input : XrInput M) : XrInterp M :=
  { s with machine := input.outside s.machine }

def next (s : XrInterp M) (input : XrInput M) : Option (XrInterp M) :=
  (s.meets input).step input.pending

/-- `XrExecuteFast` is called. -/
def call (s : XrInterp M) (input : XrInput M) (cycles : Word) : XrInterp M :=
  let (m, point) := xrExecuteFast input.pending cycles (s.meets input).machine
  ⟨m, s.cache, point⟩

/-- `XrProcessorStartTimeslice`. -/
def timeslice (s : XrInterp M) : XrInterp M :=
  { s with
    machine :=
      { s.machine with proc := { s.machine.proc with progress := xrPollMax, pauseCalls := 0 } } }

/-- The states of the runs each of whose steps is from a state with `P`. A run starts
with an empty block cache, whatever is in the processor and in memory. -/
inductive Reach (P : XrInterp M → Prop) : XrInterp M → Prop
  | start (m : Machine M) {c : XrIblockCache} (h : c.Initial) : Reach P ⟨m, c, .noMore⟩
  | timeslice {s : XrInterp M} (h : Reach P s) (idle : s.point = .noMore) : Reach P s.timeslice
  | call {s : XrInterp M} (input : XrInput M) (cycles : Word) (h : Reach P s)
      (idle : s.point = .noMore) : Reach P (s.call input cycles)
  | next {s s' : XrInterp M} (input : XrInput M) (h : Reach P s) (ok : P (s.meets input))
      (step : s.next input = some s') : Reach P s'

end XrInterp

end

end Xremu
