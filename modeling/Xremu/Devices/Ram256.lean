import Xremu.Machine.Bus

/-!
# RAM slots

RAM is in eight slots of 32 MB of the physical address space, each populated from
its start up to a size of its own. Slots 0 to 3 are bus branch 0, slots 4 to 7
branch 1, whose handlers are those of branch 0 at an address one branch further.

`RAMInit` spreads the RAM of a node over its two slots, and `mainRam` is what the
command line makes the RAM of each node. Neither rounds to pages.
-/

namespace Xremu

abbrev ebusBranchSize : Nat := 128 * 1024 * 1024
abbrev ramSlotSize : Nat := 32 * 1024 * 1024
abbrev ramSlotCount : Nat := 8
abbrev ramMaximum : Nat := ramSlotSize * ramSlotCount
abbrev xrNodeMax : Nat := 4
abbrev xrProcPerNodeMax : Nat := 4
abbrev slotsPerNode : Nat := ramSlotCount / xrNodeMax
abbrev ramPerNode : Nat := slotsPerNode * ramSlotSize

/-- `RAMSlotSizes` and `RAMSlots`, by slot; `bytes` is the host memory behind a slot. -/
structure RamSlots where
  size : Nat → Nat
  bytes : Nat → Nat → Byte

/-- A pointer into the memory of the host. -/
inductive HostPointer where
  | ram (slot offset : Nat)
  | rom (offset : Nat)
deriving DecidableEq

/-! ## The handlers -/

def ramSlotOf (address : Nat) : Nat := address / 0x2000000

/-- `address & (RAMSLOTSIZE - 1)`. -/
def ramOffsetOf (address : Nat) : Nat := address % 0x2000000

/-- `RAMWrite`; `none` is `EBUSERROR`. -/
def ramWrite (ram : RamSlots) (address : Nat) (src : Nat → Byte) (length : Nat) : Option RamSlots :=
  let slot := ramSlotOf address
  let offset := ramOffsetOf address
  if offset + length > ram.size slot then none
  else
    some { ram with
      bytes := Function.update ram.bytes slot (copyBytes (ram.bytes slot) offset src length) }

/-- `RAMRead`: what is in `*dest` afterwards. -/
def ramRead (ram : RamSlots) (address : Nat) (dest : Nat → Byte) (length : Nat) :
    Option (Nat → Byte) :=
  let slot := ramSlotOf address
  let offset := ramOffsetOf address
  if offset + length > ram.size slot then none
  else some (copyBytes dest 0 (fun k => ram.bytes slot (offset + k)) length)

/-- `RAMTranslate`, which looks at the address alone. -/
def ramTranslate (ram : RamSlots) (address : Nat) : Option HostPointer :=
  let slot := ramSlotOf address
  let offset := ramOffsetOf address
  if offset ≥ ram.size slot then none else some (.ram slot offset)

def ramWriteExt (ram : RamSlots) (address : Nat) (src : Nat → Byte) (length : Nat) :
    Option RamSlots :=
  ramWrite ram (address + ebusBranchSize) src length

def ramReadExt (ram : RamSlots) (address : Nat) (dest : Nat → Byte) (length : Nat) :
    Option (Nat → Byte) :=
  ramRead ram (address + ebusBranchSize) dest length

def ramTranslateExt (ram : RamSlots) (address : Nat) : Option HostPointer :=
  ramTranslate ram (address + ebusBranchSize)

/-! ## The sizes -/

/-- The loop of `RAMInit` over one node: units of 4 MB, stacked into the node's slots in
turn from its first. -/
def ramStack (first : Nat) : (units i : Nat) → (Nat → Nat) → Nat → Nat
  | 0, _, sizes => sizes
  | units + 1, i, sizes =>
      let i := if i ≥ slotsPerNode then 0 else i
      ramStack first units (i + 1)
        (Function.update sizes (first + i) (sizes (first + i) + 0x400000))

/-- `RAMInit` for one node. The remainder goes to its first slot. -/
def ramInitNode (nodeRam : Nat → Nat) (sizes : Nat → Nat) (nodeid : Nat) : Nat → Nat :=
  let first := nodeid * slotsPerNode
  let sizes := ramStack first (nodeRam nodeid / 0x400000) 0 sizes
  Function.update sizes first (sizes first + nodeRam nodeid % 0x400000)

def ramInit (nodeRam : Nat → Nat) : Nat → Nat :=
  (List.range xrNodeMax).foldl (ramInitNode nodeRam) fun _ => 0

/-- The options of `main` that say how much RAM there is: `-cpus` and `-ramsize`, and
every `-node` with its id, processors and RAM. -/
structure RamOptions where
  cpus : Int
  ramsize : Nat
  nodes : List (Nat × Int × Int)

/-- One `-node` option; `none` is the exit of `main`. The RAM is converted to unsigned. -/
def ramOfNode (rams : Nat → Nat) (node : Nat × Int × Int) : Option (Nat → Nat) :=
  let (nodeid, nodeprocs, noderam) := node
  if nodeid ≥ xrNodeMax then none
  else if nodeprocs > xrProcPerNodeMax then none
  else if noderam > ramPerNode then none
  else some (Function.update rams nodeid (noderam % 0x100000000).toNat)

/-- The RAM of each node without `-node`: the same for every node with processors, up to
what fits, and what is left for the others. -/
def ramOfCpus (cpus ramsize : Nat) : Nat → Nat :=
  let nodecount := cpus / xrProcPerNodeMax + if cpus % xrProcPerNodeMax = 0 then 0 else 1
  let pernoderam := min (ramsize / nodecount) ramPerNode
  let left := nodecount * (ramsize / nodecount) - nodecount * pernoderam
  fun nodeid =>
    if nodeid < nodecount then pernoderam
    else min (left - (nodeid - nodecount) * ramPerNode) ramPerNode

/-- The RAM of each node `main` starts the bus with. -/
def mainRam (o : RamOptions) : Option (Nat → Nat) :=
  if o.nodes = [] then
    if o.cpus ≤ 0 ∨ o.cpus > xrNodeMax * xrProcPerNodeMax then none
    else if o.ramsize > ramMaximum then none
    else some (ramOfCpus o.cpus.toNat o.ramsize)
  else o.nodes.foldlM ramOfNode fun _ => 0

end Xremu
