import Xremu.Interp.Block

/-!
# The block cache: state and operations

Every processor has 2048 basic blocks, as many JALR prediction tables and as many
trackers of virtual pages. A block in use is on the LRU list, in a hash bucket and in
the list of its page; blocks remember the next block in slots, and each block knows a
few of the slots that point to it.

Records are indices and the linked lists are lists of them, head first. Removing a
record from a list leaves its own links alone, so the loops that free what they walk
over walk over the list as it was. The link of a free prediction table is kept where the
source keeps it, in slot 0 of the table: a slot can hold a table as well as a block. What
is decoded into a block never changes, so the block has what it was decoded from.

`none` is a null pointer, or a block taken for a table, dereferenced.
-/

namespace Xremu

/-! ## State -/

/-- What a slot can hold. -/
inductive XrPointer where
  | null
  | iblock (i : Nat)
  | ptable (t : Nat)
deriving DecidableEq

/-- Where a pointer to a block can be: `&block->CachedPaths[path]`, `&ptable->Iblocks[k]`. -/
inductive XrSlot where
  | path (i : Nat) (path : XrPath)
  | table (t k : Nat)
deriving DecidableEq

/-- `words` and `tbmiss` are what the block was decoded from. -/
structure XrIblock where
  pc : Word
  asid : Word
  pteFlags : BitVec 64
  words : List Word
  tbmiss : Bool
  cachedByFifoIndex : Nat
  hasPtable : Bool
  cachedPaths : XrPath → XrPointer
  cachedBy : Nat → Option XrSlot
  vpage : Nat

/-- `Insts` and `Cycles`. -/
def XrIblock.code (b : XrIblock) : XrBlockCode := xrDecodeBlock b.tbmiss b.words b.pc

/-- Where the block that a path leads to starts. -/
def XrIblock.leadsTo (b : XrIblock) (path : XrPath) : Word :=
  b.code.last.target (advance b.code.body b.pc) path

/-- Does the block end in JALR, so that it has a prediction table for its next blocks? -/
def XrIblock.Jalr (b : XrIblock) : Prop := b.code.last.func.kind = .jalr

structure XrJalrPredictionTable where
  iblocks : Nat → XrPointer
  pcs : Nat → Word

structure XrVirtualPage where
  vpn : Word
  references : Nat
  iblockVpnList : List Nat

/-- The fields of a processor that hold the block cache. -/
structure XrIblockCache where
  iblocks : Nat → XrIblock
  ptables : Nat → XrJalrPredictionTable
  vpages : Nat → XrVirtualPage
  iblockFreeList : List Nat
  ptableFreeList : XrPointer
  vpageFreeList : List Nat
  iblockLruList : List Nat
  iblockHashBuckets : Nat → List Nat
  vpageHashBuckets : Nat → List Nat

/-- `XR_IBLOCK_COUNT`. -/
abbrev xrIblockCount : Nat := 2048

/-- `XR_IBLOCK_RECLAIM`. -/
abbrev xrIblockReclaim : Nat := 32

/-- `XR_IBLOCK_HASH(pc)`. -/
def xrIblockHash (pc : Word) : Nat := ((pc >>> 2) &&& 255).toNat

/-- `XR_VPN_BUCKET_INDEX(vpn)`. -/
def xrVpnBucketIndex (vpn : Word) : Nat := ((vpn >>> 12) &&& 31).toNat

/-- `pc & ~0xFFF`. -/
def pageOf (pc : Word) : Word := pc &&& 0xFFFFF000

/-- The index of a program counter in a prediction table. -/
def jalrIndex (pc : Word) : Nat := ((pc >>> 2) &&& 7).toNat

namespace XrIblockCache

/-! ## Slots -/

/-- `*slot`. -/
def slot (c : XrIblockCache) : XrSlot → XrPointer
  | .path i path => (c.iblocks i).cachedPaths path
  | .table t k => (c.ptables t).iblocks k

def setIblock (c : XrIblockCache) (i : Nat) (b : XrIblock) : XrIblockCache :=
  { c with iblocks := Function.update c.iblocks i b }

def setPtable (c : XrIblockCache) (t : Nat) (ptable : XrJalrPredictionTable) : XrIblockCache :=
  { c with ptables := Function.update c.ptables t ptable }

def setVpage (c : XrIblockCache) (v : Nat) (vpage : XrVirtualPage) : XrIblockCache :=
  { c with vpages := Function.update c.vpages v vpage }

/-- `*slot = pointer`. -/
def setSlot (c : XrIblockCache) (slot : XrSlot) (pointer : XrPointer) : XrIblockCache :=
  match slot with
  | .path i path =>
      let b := c.iblocks i
      c.setIblock i { b with cachedPaths := Function.update b.cachedPaths path pointer }
  | .table t k =>
      let ptable := c.ptables t
      c.setPtable t { ptable with iblocks := Function.update ptable.iblocks k pointer }

/-- Zero a slot that block `i` is cached by, if it still points to the block. -/
def clearSlot (c : XrIblockCache) (i : Nat) : Option XrSlot → XrIblockCache
  | none => c
  | some slot => if c.slot slot = .iblock i then c.setSlot slot .null else c

def xrInvalidateIblockPointers (c : XrIblockCache) (i : Nat) : XrIblockCache :=
  [0, 1, 2, 3].foldl (fun c k => c.clearSlot i ((c.iblocks i).cachedBy k)) c

/-- The index is a byte; four divides its range. -/
def xrCreateCachedPointerToBlock (c : XrIblockCache) (i : Nat) (slot : XrSlot) : XrIblockCache :=
  let b := c.iblocks i
  let index := b.cachedByFifoIndex % 4
  let c := c.setIblock i { b with cachedByFifoIndex := b.cachedByFifoIndex + 1 }
  let c := (c.clearSlot i (b.cachedBy index)).setSlot slot (.iblock i)
  let b := c.iblocks i
  c.setIblock i { b with cachedBy := Function.update b.cachedBy index (some slot) }

/-! ## Prediction tables and virtual pages -/

def xrAllocatePtable (c : XrIblockCache) : Option (Nat × XrIblockCache) :=
  match c.ptableFreeList with
  | .ptable t =>
      let ptable := c.ptables t
      let iblocks := fun k => if k < 8 then .null else ptable.iblocks k
      some (t, { c with ptableFreeList := ptable.iblocks 0 }.setPtable t
        { ptable with iblocks := iblocks })
  | _ => none

/-- The table is what `CachedPaths[0]` of a block holds. -/
def xrFreePtable (c : XrIblockCache) : XrPointer → Option XrIblockCache
  | .ptable t =>
      some { c.setSlot (.table t 0) c.ptableFreeList with ptableFreeList := .ptable t }
  | _ => none

def xrAllocateVpage (c : XrIblockCache) : Option (Nat × XrIblockCache) :=
  match c.vpageFreeList with
  | v :: rest => some (v, { c with vpageFreeList := rest })
  | [] => none

def xrFreeVpage (c : XrIblockCache) (v : Nat) : XrIblockCache :=
  { c with vpageFreeList := v :: c.vpageFreeList }

/-! ## Freeing blocks -/

/-- Off the LRU list and out of the hash table. -/
def unlinkIblock (c : XrIblockCache) (i : Nat) : XrIblockCache :=
  let hash := xrIblockHash (c.iblocks i).pc
  { c with
    iblockLruList := c.iblockLruList.erase i
    iblockHashBuckets :=
      Function.update c.iblockHashBuckets hash ((c.iblockHashBuckets hash).erase i) }

/-- Out of the list of its page, which is deleted when this was its last block. -/
def leaveVpage (c : XrIblockCache) (i : Nat) : XrIblockCache :=
  let v := (c.iblocks i).vpage
  let vpage := c.vpages v
  let hash := xrVpnBucketIndex vpage.vpn
  let c := c.setVpage v
    { vpage with
      iblockVpnList := vpage.iblockVpnList.erase i
      references := vpage.references - 1 }
  if vpage.references - 1 = 0 then
    { c with
      vpageHashBuckets :=
        Function.update c.vpageHashBuckets hash ((c.vpageHashBuckets hash).erase v) }.xrFreeVpage v
  else c

/-- Free the block's prediction table, if it has one. -/
def dropPtable (c : XrIblockCache) (i : Nat) : Option XrIblockCache :=
  let b := c.iblocks i
  if b.hasPtable then c.xrFreePtable (b.cachedPaths .true) else some c

def xrFreeIblock (c : XrIblockCache) (i : Nat) : Option XrIblockCache := do
  let c ← ((c.unlinkIblock i).leaveVpage i).dropPtable i
  some { c with iblockFreeList := i :: c.iblockFreeList }

/-- Free these blocks, and first zero the slots they know to point to them. -/
def reclaim (hazard : Option Nat) : XrIblockCache → List Nat → Option XrIblockCache
  | c, [] => some c
  | c, i :: is =>
      if hazard = some i then reclaim hazard c is
      else do
        let c ← (c.xrInvalidateIblockPointers i).xrFreeIblock i
        reclaim hazard c is

/-- From the tail of the LRU list. -/
def xrPopulateIblockList (c : XrIblockCache) (hazard : Option Nat) : Option XrIblockCache :=
  reclaim hazard c (c.iblockLruList.reverse.take xrIblockReclaim)

def freeAll : XrIblockCache → List Nat → Option XrIblockCache
  | c, [] => some c
  | c, i :: is => do
      let c ← c.xrFreeIblock i
      freeAll c is

def xrInvalidateIblockCache (c : XrIblockCache) : Option XrIblockCache :=
  freeAll c c.iblockLruList

def xrInvalidateVpage (c : XrIblockCache) (v : Nat) : Option XrIblockCache :=
  reclaim none c (c.vpages v).iblockVpnList

/-- The tracker of a virtual page. -/
def findVpage (c : XrIblockCache) (vpn : Word) : Option Nat :=
  (c.vpageHashBuckets (xrVpnBucketIndex vpn)).find? fun v => (c.vpages v).vpn == vpn

def xrInvalidateIblockCacheByVpn (c : XrIblockCache) (vpn : Word) : Option XrIblockCache :=
  match c.findVpage vpn with
  | some v => c.xrInvalidateVpage v
  | none => some c

/-! ## Making blocks -/

/-- Enter block `i` in the list of a page that is tracked. -/
def joinVpage (c : XrIblockCache) (i v : Nat) (references : Nat) (vpn : Word) : XrIblockCache :=
  let c := c.setIblock i { c.iblocks i with vpage := v }
  c.setVpage v ⟨vpn, references, i :: (c.vpages v).iblockVpnList⟩

def xrInsertIblockInVpage (c : XrIblockCache) (i : Nat) (pc : Word) : Option XrIblockCache :=
  let vpn := pageOf pc
  let hash := xrVpnBucketIndex vpn
  match c.findVpage vpn with
  | some v => some (c.joinVpage i v ((c.vpages v).references + 1) vpn)
  | none => do
      let (v, c) ← c.xrAllocateVpage
      let c : XrIblockCache :=
        { c with
          vpageHashBuckets :=
            Function.update c.vpageHashBuckets hash (v :: c.vpageHashBuckets hash) }
      some (c.joinVpage i v 1 vpn)

def xrAllocateIblock (c : XrIblockCache) (hazard : Option Nat) : Option (Nat × XrIblockCache) := do
  let c ← if c.iblockFreeList = [] then c.xrPopulateIblockList hazard else some c
  match c.iblockFreeList with
  | i :: rest => some (i, { c with iblockFreeList := rest })
  | [] => none

def xrLookupIblock (c : XrIblockCache) (pc asid : Word) : Option Nat :=
  (c.iblockHashBuckets (xrIblockHash pc)).find? fun i =>
    (c.iblocks i).pc == pc && (c.iblocks i).asid == asid

/-- Into the hash table and at the head of the LRU list. -/
def linkIblock (c : XrIblockCache) (i : Nat) (pc : Word) : XrIblockCache :=
  let hash := xrIblockHash pc
  { c with
    iblockHashBuckets := Function.update c.iblockHashBuckets hash (i :: c.iblockHashBuckets hash)
    iblockLruList := i :: c.iblockLruList }

/-- A block with these words; `tbmiss` is what decoding sees of RS. -/
def newIblock (pc asid : Word) (f : XrFetched) (tbmiss : Bool) (vpage : Nat) : XrIblock where
  pc := pc
  asid := asid
  pteFlags := f.flags
  words := f.words
  tbmiss := tbmiss
  cachedByFifoIndex := 0
  hasPtable := false
  cachedPaths _ := .null
  cachedBy _ := none
  vpage := vpage

/-- The rest of `XrDecodeInstructions` after the fetch. -/
def decodeFetched (c : XrIblockCache) (hazard : Option Nat) (pc asid : Word) (f : XrFetched)
    (tbmiss : Bool) : Option (Nat × XrIblockCache) := do
  let (i, c) ← c.xrAllocateIblock hazard
  let c := c.setIblock i (newIblock pc asid f tbmiss (c.iblocks i).vpage)
  let c ← (c.linkIblock i pc).xrInsertIblockInVpage i pc
  some (i, c)

/-! ## What JALR adds -/

/-- Give block `i` a prediction table. -/
def givePtable (c : XrIblockCache) (i : Nat) : Option XrIblockCache := do
  let (t, c) ← c.xrAllocatePtable
  let b := c.iblocks i
  some (c.setIblock i
    { b with
      cachedPaths := Function.update b.cachedPaths .true (.ptable t)
      hasPtable := true })

/-- Enter block `j` in the prediction table `t`. -/
def predict (c : XrIblockCache) (t j : Nat) (pc : Word) : XrIblockCache :=
  let ptable := c.ptables t
  let k := jalrIndex pc
  let c := c.setPtable t { ptable with pcs := Function.update ptable.pcs k pc }
  c.xrCreateCachedPointerToBlock j (.table t k)

/-! ## Runs -/

/-- A chain of free prediction tables, linked through their first slots. -/
inductive Chain (ptables : Nat → XrJalrPredictionTable) : XrPointer → List Nat → Prop
  | nil : Chain ptables .null []
  | cons {t : Nat} {ts : List Nat} (rest : Chain ptables ((ptables t).iblocks 0) ts) :
      Chain ptables (.ptable t) (t :: ts)

/-- After `XrInitializeProcessor`: everything is free. The contents of the records are
whatever `malloc` returned. -/
structure Initial (c : XrIblockCache) : Prop where
  iblockFree : c.iblockFreeList = (List.range xrIblockCount).reverse
  ptableFree : Chain c.ptables c.ptableFreeList (List.range xrIblockCount).reverse
  vpageFree : c.vpageFreeList = (List.range xrIblockCount).reverse
  lru : c.iblockLruList = []
  hash : ∀ hash, c.iblockHashBuckets hash = []
  vpageHash : ∀ hash, c.vpageHashBuckets hash = []
  pages : ∀ v, (c.vpages v).iblockVpnList = []

/-- Block `i` is in use. -/
def Active (c : XrIblockCache) (i : Nat) : Prop := i ∈ c.iblockLruList

/-- The states the operations reach, in any order and with any arguments the callers can
have: only a block in use is executed, and a pointer is made to the block that was looked
up or decoded at the program counter that the slot is for. -/
inductive Reach : XrIblockCache → Prop
  | start {c} (h : Initial c) : Reach c
  | decode {c c'} (hazard : Option Nat) (pc asid : Word) (f : XrFetched) (tbmiss : Bool) (i : Nat)
      (h : Reach c) (miss : c.xrLookupIblock pc asid = none)
      (done : c.decodeFetched hazard pc asid f tbmiss = some (i, c')) : Reach c'
  | ptable {c c'} (i : Nat) (h : Reach c) (active : c.Active i) (jalr : (c.iblocks i).Jalr)
      (null : (c.iblocks i).cachedPaths .true = .null) (done : c.givePtable i = some c') : Reach c'
  | link {c} (i j : Nat) (path : XrPath) (h : Reach c) (active : c.Active i)
      (other : ¬(c.iblocks i).Jalr) (target : c.Active j)
      (pc : (c.iblocks j).pc = (c.iblocks i).leadsTo path) :
      Reach (c.xrCreateCachedPointerToBlock j (.path i path))
  | predict {c} (i j t : Nat) (h : Reach c) (active : c.Active i) (jalr : (c.iblocks i).Jalr)
      (table : (c.iblocks i).cachedPaths .true = .ptable t) (target : c.Active j) :
      Reach (c.predict t j (c.iblocks j).pc)
  | flush {c c'} (h : Reach c) (done : c.xrInvalidateIblockCache = some c') : Reach c'
  | flushVpn {c c'} (vpn : Word) (h : Reach c)
      (done : c.xrInvalidateIblockCacheByVpn vpn = some c') : Reach c'

end XrIblockCache

end Xremu
