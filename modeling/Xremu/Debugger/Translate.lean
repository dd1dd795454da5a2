import Xremu.Debugger.Format
import Xremu.Devices.HostPath

/-!
# Address translation in the debugger

`DbgTranslateVirtual` looks an address up in a translation buffer and then walks the
page tables as the guest's own miss handlers would: it wants the page table in the DTB,
or else the page directory. What it says on the way is part of the result.

`physpdeaddr` is only assigned when the DTB has an entry for the page directory, and `pde`
and `pte` only when the read of the bus puts something there, which a read that answers
`EBUSSUCCESS` need not do: past the end of NVRAM the platform board does nothing. The values
that these variables have before are an argument here, and `none` makes every use of them
undefined; `dbgTranslate_iff` says for which addresses none is used.
-/

namespace Xremu

abbrev dbgTranslatePhysical : Word := 1
abbrev dbgTranslateBypassTb : Word := 2
abbrev dbgTranslateBypassPt : Word := 4
abbrev dbgTranslatePrint : Word := 8
abbrev dbgTranslateIstream : Word := 16
abbrev dbgTranslateFigureItOut : Word := 32
abbrev dbgTranslateBypassTbForPgtb : Word := 64

/-! ## What a read delivers -/

/-- What a read of a word comes to: an error, or success with the destination as it was, or
with this word in it. -/
inductive DbgAnswer where
  | error
  | kept
  | read (word : Word)
deriving DecidableEq

/-- A bus that says what becomes of the destination of a read. -/
class DbgBus (β : Type) [EBus β] where
  answer : β → XrProcessor → (address : Word) → DbgAnswer

instance : DbgBus LineRam where
  answer r p address :=
    match (EBus.read r p address.toNat 4).reply with
    | none => .error
    | some bytes => .read (zext bytes 4)

/-- Two destinations tell whether a read fills them. -/
instance {D : Type} [EBusDevices D] : DbgBus (XrStation D) where
  answer s p address :=
    match (eBusRead s p address.toNat (fun _ => 0) 4).reply,
        (eBusRead s p address.toNat (fun _ => 0xFF) 4).reply with
    | some bytes, some bytes' =>
        if zext bytes 4 = zext bytes' 4 then .read (zext bytes 4) else .kept
    | _, _ => .error

/-- The platform board answers for NVRAM past its end, and delivers nothing. -/
theorem dbgAnswer_nvram {D : Type} [EBusDevices D] (s : XrStation D) (p : XrProcessor)
    {address : Word} (hlow : 0xF8001FFD ≤ address.toNat) (hhigh : address.toNat < 0xF8011000) :
    DbgBus.answer s p address = .kept := by
  have hread : ∀ dest, eBusRead s p address.toNat dest 4 = ⟨s, p.progress, some dest⟩ := by
    intro dest
    unfold eBusRead
    extract_lets branch offset
    have hoffset : offset = address.toNat - 0xF8000000 := by omega
    rw [if_neg (by omega), if_neg (by omega), if_pos (by omega), pBoardRead, if_neg (by omega),
      if_neg (by omega), if_pos (by omega), if_pos]
    unfold nvramSize
    omega
  have hne : zext (fun _ => 0) 4 ≠ zext (fun _ => 0xFF) 4 := by decide
  show (match (eBusRead s p address.toNat (fun _ => 0) 4).reply,
    (eBusRead s p address.toNat (fun _ => 0xFF) 4).reply with
    | some bytes, some bytes' =>
        if zext bytes 4 = zext bytes' 4 then DbgAnswer.read (zext bytes 4) else .kept
    | _, _ => .error) = .kept
  rw [hread, hread]
  exact if_neg hne

/-! ## The lookup -/

/-- `DbgTranslateAddressTb`: the index of the entry. -/
def dbgTranslateAddressTb (tb : Nat → BitVec 64) (addr asid : Word) : Option Nat :=
  let matching := asid <<< 20 ||| vpnOf addr
  (List.range xrTbSize).find? fun i =>
    let mask : Word := if tb i &&& 16 ≠ 0 then 0xFFFFF else 0xFFFFFFFF
    tb i >>> 32 &&& mask.setWidth 64 == (matching &&& mask).setWidth 64

/-- The debugger finds the entry that the processor finds. -/
theorem dbgTranslateAddressTb_eq (tb : Nat → BitVec 64) (addr tag : Word) :
    dbgTranslateAddressTb tb addr (tag >>> 20) = tbScan tb (tbMatching tag addr) := by
  have hmatching : tag >>> 20 <<< 20 ||| vpnOf addr = tbMatching tag addr := by
    apply BitVec.eq_of_getLsbD_eq
    intro i hi
    unfold tbMatching
    rw [BitVec.getLsbD_or, BitVec.getLsbD_or, BitVec.getLsbD_and, mask_asid i hi,
      BitVec.getLsbD_shiftLeft, BitVec.getLsbD_ushiftRight]
    by_cases h20 : 20 ≤ i
    · have hback : 20 + (i - 20) = i := by omega
      simp [h20, Nat.not_lt.mpr h20, hi, hback]
    · simp [h20, Nat.lt_of_not_le h20]
  unfold dbgTranslateAddressTb tbScan
  rw [hmatching]
  apply congrArg (fun p => (List.range xrTbSize).find? p)
  funext i
  have hmask : (if tb i &&& 16 ≠ 0 then (0xFFFFF : Word) else 0xFFFFFFFF).setWidth 64 =
      if tb i &&& pteGlobal != 0 then 0xFFFFF else 0xFFFFFFFF := by
    by_cases hglobal : tb i &&& 16 = 0
    · have hplain : ¬(tb i &&& pteGlobal != 0) = true := by simpa using hglobal
      rw [if_neg (not_not.mpr hglobal), if_neg hplain]
      rfl
    · have hset : (tb i &&& pteGlobal != 0) = true := bne_iff_ne.mpr hglobal
      rw [if_pos hglobal, if_pos hset]
      rfl
  unfold tbMatches
  dsimp only
  rw [BitVec.setWidth_and, hmask]

/-! ## The walk -/

/-- What the debugger prints: text that is formatted into `printbuf` first, or a string of
its own. -/
inductive DbgPrint where
  | formatted (text : Text)
  | plain (text : Text)
deriving DecidableEq

/-- The processor and the bus as a walk goes on, and what it has printed. -/
structure DbgWalk (β : Type) where
  proc : XrProcessor
  bus : β
  prints : List DbgPrint

section

variable {β : Type}

/-- With `DBG_TRANSLATE_PRINT`. -/
def DbgWalk.print (w : DbgWalk β) (flags : Word) (p : DbgPrint) : DbgWalk β :=
  if flags &&& dbgTranslatePrint ≠ 0 then { w with prints := w.prints ++ [p] } else w

/-- "`name`[`index`]=`tbe` ". -/
def dbgTbePrint (name : String) (index : Nat) (tbe : BitVec 64) : DbgPrint :=
  .formatted (name.toList ++ "[".toList ++ decimalField index ++ "]=".toList ++
    hexFieldUpper 16 tbe.toNat ++ " ".toList)

/-- "`name`@Phys[`address`]=`entry` ". -/
def dbgPtePrint (name : String) (address entry : Word) : DbgPrint :=
  .formatted (name.toList ++ "@Phys[".toList ++ hexFieldUpper 8 address.toNat ++ "]=".toList ++
    hexFieldUpper 8 entry.toNat ++ " ".toList)

/-- "`name`BusError@Phys[`address`] ". -/
def dbgBusErrorPrint (name : String) (address : Word) : DbgPrint :=
  .formatted (name.toList ++ "BusError@Phys[".toList ++ hexField 8 address.toNat ++ "] ".toList)

/-- `((tbe >> 5) << 12) | (addr & 0xFFF)`. -/
def dbgTbePhys (tbe : BitVec 64) (addr : Word) : Word :=
  (tbe >>> 5 <<< 12 ||| (addr &&& 0xFFF).setWidth 64).setWidth 32

/-- The same of a page table entry. -/
def dbgPtePhys (pte addr : Word) : Word := pte >>> 5 <<< 12 ||| (addr &&& 0xFFF)

/-- What the variables hold that are declared without a value: `physpdeaddr`, `pde` and `pte`
here, and `value` in `DbgCommandPeek`. -/
structure DbgUnassigned where
  physpdeaddr : Word
  pde : Word
  pte : Word
  value : Word

/-- What is done with an entry for `addr` at `physaddr`. The result is where it puts the
address, or `none` for the return of 0. -/
def dbgUseEntry (name : String) (flags addr physaddr : Word) (w : DbgWalk β) (entry : Word) :
    Option Word × DbgWalk β :=
  (if entry &&& 1 = 0 then none else some (dbgPtePhys entry addr),
    w.print flags (dbgPtePrint name physaddr entry))

variable [EBus β]

/-- `EBusRead` of a word. -/
def DbgWalk.read (w : DbgWalk β) (address : Word) : DbgWalk β :=
  let reply := EBus.read w.bus w.proc address.toNat 4
  { w with proc := { w.proc with progress := reply.progress }, bus := reply.bus }

variable [DbgBus β]

/-- Load the entry for `addr` from `physaddr` into a variable. -/
def dbgLoadEntry (variable_ : Option Word) (name : String) (flags addr physaddr : Word)
    (w : DbgWalk β) : Option (Option Word × DbgWalk β) :=
  match DbgBus.answer w.bus w.proc physaddr with
  | .error => some (none, (w.read physaddr).print flags (dbgBusErrorPrint name physaddr))
  | .kept => variable_.map (dbgUseEntry name flags addr physaddr (w.read physaddr))
  | .read entry => some (dbgUseEntry name flags addr physaddr (w.read physaddr) entry)

/-- "Load the PTE." -/
def dbgLoadPte (unassigned : Option DbgUnassigned) (flags addr physpteaddr : Word)
    (w : DbgWalk β) : Option (Option Word × DbgWalk β) :=
  dbgLoadEntry (unassigned.map (·.pte)) "Pte" flags addr physpteaddr w

/-- "Load the PDE." The result is the physical address of the PTE. -/
def dbgLoadPde (unassigned : Option DbgUnassigned) (flags ptevaddr physpdeaddr : Word)
    (w : DbgWalk β) : Option (Option Word × DbgWalk β) :=
  dbgLoadEntry (unassigned.map (·.pde)) "Pde" flags ptevaddr physpdeaddr w

/-- "We need to find the page directory inside the DTB." -/
def dbgWalkDirectory (unassigned : Option DbgUnassigned) (flags asid pgtb ptevaddr : Word)
    (w : DbgWalk β) : Option (Option Word × DbgWalk β) :=
  let pdevaddr := pgtb + vpnOf ptevaddr <<< 2
  match dbgTranslateAddressTb w.proc.dtb pdevaddr asid with
  | some index =>
      let pdtbe := w.proc.dtb index
      let w := w.print flags (dbgTbePrint "PdTbe@DTB" index pdtbe)
      if pdtbe &&& 1 = 0 then some (none, w)
      else dbgLoadPde unassigned flags ptevaddr (dbgTbePhys pdtbe pdevaddr) w
  | none => unassigned.bind fun u => dbgLoadPde unassigned flags ptevaddr u.physpdeaddr w

/-- "Look up the page tables." -/
def dbgWalkTables (unassigned : Option DbgUnassigned) (flags addr asid pgtb : Word)
    (w : DbgWalk β) : Option (Option Word × DbgWalk β) :=
  if pgtb = 0 then some (none, w.print flags (.plain "NoPageTable ".toList))
  else
    let ptevaddr := pgtb + vpnOf addr <<< 2
    match if flags &&& dbgTranslateBypassTbForPgtb = 0 then
      dbgTranslateAddressTb w.proc.dtb ptevaddr asid else none with
    | some index =>
        let pttbe := w.proc.dtb index
        let w := w.print flags (dbgTbePrint "Pde@DTB" index pttbe)
        if pttbe &&& 1 = 0 then some (none, w)
        else dbgLoadPte unassigned flags addr (dbgTbePhys pttbe ptevaddr) w
    | none =>
        if addr &&& 0xFFC00000 = pgtb then
          some (none, w.print flags (.plain "NoPageDirTbe ".toList))
        else
          (dbgWalkDirectory unassigned flags asid pgtb ptevaddr w).bind fun r =>
            match r.1 with
            | none => some r
            | some physpteaddr => dbgLoadPte unassigned flags addr physpteaddr r.2

/-- The translation buffer that the flags ask for. -/
def dbgTb (flags : Word) (p : XrProcessor) : Nat → BitVec 64 :=
  if flags &&& dbgTranslateIstream ≠ 0 then p.itb else p.dtb

def dbgTag (flags : Word) (p : XrProcessor) : Word :=
  p.cr (if flags &&& dbgTranslateIstream ≠ 0 then crItbtag else crDtbtag)

/-- `pgtb`. -/
def dbgPageTables (flags : Word) (p : XrProcessor) : Word :=
  p.cr (if flags &&& dbgTranslateIstream ≠ 0 then crItbaddr else crDtbaddr) &&& 0xFFC00000

/-- `DbgTranslateVirtual`: the physical address with 1, or `none` with 0. -/
def dbgTranslateVirtual (unassigned : Option DbgUnassigned) (flags addr : Word)
    (w : DbgWalk β) : Option (Option Word × DbgWalk β) :=
  let tbname := if flags &&& dbgTranslateIstream ≠ 0 then "ITB" else "DTB"
  let tb := dbgTb flags w.proc
  let asid := dbgTag flags w.proc >>> 20
  match if flags &&& dbgTranslateBypassTb = 0 then dbgTranslateAddressTb tb addr asid
    else none with
  | some index =>
      let w := w.print flags (dbgTbePrint tbname index (tb index))
      some (if tb index &&& 1 ≠ 0 then some (dbgTbePhys (tb index) addr) else none, w)
  | none =>
      if flags &&& dbgTranslateBypassPt = 0 then
        dbgWalkTables unassigned flags addr asid (dbgPageTables flags w.proc) w
      else some (none, w)

/-! ## What there is to find -/

/-- The virtual address of the page table entry. -/
def dbgPteVaddr (flags addr : Word) (p : XrProcessor) : Word :=
  dbgPageTables flags p + vpnOf addr <<< 2

/-- The virtual address of the page directory entry. -/
def dbgPdeVaddr (flags addr : Word) (p : XrProcessor) : Word :=
  dbgPageTables flags p + vpnOf (dbgPteVaddr flags addr p) <<< 2

/-- The entry of the DTB for an address. -/
def dbgDtbEntry (flags virtual : Word) (p : XrProcessor) : Option Nat :=
  tbScan p.dtb (tbMatching (dbgTag flags p) virtual)

/-- The DTB maps the address with a valid entry. -/
def DbgMaps (flags virtual : Word) (p : XrProcessor) (phys : Word) : Prop :=
  ∃ i, dbgDtbEntry flags virtual p = some i ∧ p.dtb i &&& pteValid ≠ 0 ∧
    phys = physOf (p.dtb i) virtual

/-- Where the page table entry is: in a page table that the DTB maps, or in one of a valid
entry in a page directory that it maps. The last two are the processor and the bus afterwards. -/
inductive DbgPteAt (flags addr : Word) (p : XrProcessor) (bus : β) :
    (physpteaddr : Word) → XrProcessor → β → Prop
  | table {phys} (allowed : flags &&& dbgTranslateBypassTbForPgtb = 0)
      (maps : DbgMaps flags (dbgPteVaddr flags addr p) p phys) :
      DbgPteAt flags addr p bus phys p bus
  | directory {phys pde} (outside : addr &&& 0xFFC00000 ≠ dbgPageTables flags p)
      (maps : DbgMaps flags (dbgPdeVaddr flags addr p) p phys)
      (word : DbgBus.answer bus p phys = .read pde) (valid : pde &&& 1 ≠ 0) :
      DbgPteAt flags addr p bus (dbgPtePhys pde (dbgPteVaddr flags addr p))
        { p with progress := (EBus.read bus p phys.toNat 4).progress }
        (EBus.read bus p phys.toNat 4).bus

/-- The page tables have a valid, mapped page directory and a valid entry for the
address. -/
def DbgTablesMap (flags addr : Word) (p : XrProcessor) (bus : β) (phys : Word) : Prop :=
  dbgPageTables flags p ≠ 0 ∧
  ∃ physpteaddr p' bus' pte, DbgPteAt flags addr p bus physpteaddr p' bus' ∧
    DbgBus.answer bus' p' physpteaddr = .read pte ∧ pte &&& 1 ≠ 0 ∧ phys = dbgPtePhys pte addr

/-- What a translation is expected to be. -/
structure DbgTranslates (flags addr : Word) (w : DbgWalk β) : Prop where
  /-- No value is used before it is assigned. -/
  assigned : (dbgTranslateVirtual none flags addr w).isSome = true
  determined : ∀ value, dbgTranslateVirtual (some value) flags addr w =
    dbgTranslateVirtual none flags addr w
  unmapped : ∀ value r, dbgTranslateVirtual (some value) flags addr w = some r →
    flags &&& dbgTranslateBypassTb ≠ 0 ∨
      tbScan (dbgTb flags w.proc) (tbMatching (dbgTag flags w.proc) addr) = none →
    (∀ phys, ¬DbgTablesMap flags addr w.proc w.bus phys) → r.1 = none
  /-- The address is the one that `XrTranslate` has for the entry. -/
  hit : ∀ value r i, dbgTranslateVirtual (some value) flags addr w = some r →
    flags &&& dbgTranslateBypassTb = 0 →
    tbScan (dbgTb flags w.proc) (tbMatching (dbgTag flags w.proc) addr) = some i →
    dbgTb flags w.proc i &&& pteValid ≠ 0 → r.1 = some (physOf (dbgTb flags w.proc i) addr)

/-- The walk of the page tables begins. -/
structure DbgWalksTables (flags addr : Word) (p : XrProcessor) : Prop where
  noTbe : flags &&& dbgTranslateBypassTb = 0 →
    tbScan (dbgTb flags p) (tbMatching (dbgTag flags p) addr) = none
  walks : flags &&& dbgTranslateBypassPt = 0
  tables : dbgPageTables flags p ≠ 0

/-- The walk comes to the page directory. -/
structure DbgWalksDirectory (flags addr : Word) (p : XrProcessor) : Prop
    extends DbgWalksTables flags addr p where
  noPage : flags &&& dbgTranslateBypassTbForPgtb = 0 →
    dbgDtbEntry flags (dbgPteVaddr flags addr p) p = none
  outside : addr &&& 0xFFC00000 ≠ dbgPageTables flags p

/-- And the DTB has no entry for it. -/
structure DbgDirectoryMissed (flags addr : Word) (p : XrProcessor) : Prop
    extends DbgWalksDirectory flags addr p where
  noDirectory : dbgDtbEntry flags (dbgPdeVaddr flags addr p) p = none

/-- The walk reads an entry that the bus does not deliver: the one of the page directory, or
that of a page table, to which it comes by the DTB or by the page directory. -/
inductive DbgUndelivered (flags addr : Word) (p : XrProcessor) (bus : β) : Prop
  | pde {phys} (walks : DbgWalksDirectory flags addr p)
      (maps : DbgMaps flags (dbgPdeVaddr flags addr p) p phys)
      (kept : DbgBus.answer bus p phys = .kept)
  | table {phys} (walks : DbgWalksTables flags addr p)
      (allowed : flags &&& dbgTranslateBypassTbForPgtb = 0)
      (maps : DbgMaps flags (dbgPteVaddr flags addr p) p phys)
      (kept : DbgBus.answer bus p phys = .kept)
  | directory {phys pde} (walks : DbgWalksDirectory flags addr p)
      (maps : DbgMaps flags (dbgPdeVaddr flags addr p) p phys)
      (word : DbgBus.answer bus p phys = .read pde) (valid : pde &&& 1 ≠ 0)
      (kept : DbgBus.answer (EBus.read bus p phys.toNat 4).bus
        { p with progress := (EBus.read bus p phys.toNat 4).progress }
        (dbgPtePhys pde (dbgPteVaddr flags addr p)) = .kept)

/-! ## What is found -/

omit [EBus β] [DbgBus β] in
@[simp] theorem DbgWalk.print_proc (w : DbgWalk β) (flags : Word) (p : DbgPrint) :
    (w.print flags p).proc = w.proc := by
  unfold DbgWalk.print
  split <;> rfl

omit [EBus β] [DbgBus β] in
@[simp] theorem DbgWalk.print_bus (w : DbgWalk β) (flags : Word) (p : DbgPrint) :
    (w.print flags p).bus = w.bus := by
  unfold DbgWalk.print
  split <;> rfl

/-- Two ways to put a page and an offset together. -/
theorem dbgTbePhys_eq (tbe : BitVec 64) (addr : Word) : dbgTbePhys tbe addr = physOf tbe addr := by
  have hlow : ∀ i, (0xFFF : Word).getLsbD i = decide (i < 12) := by
    intro i
    by_cases hi : i < 32
    · revert i
      decide
    · rw [BitVec.getLsbD_of_ge _ i (by omega)]
      exact (decide_eq_false (by omega)).symm
  have hpage : ∀ i, i < 32 → (0x1FFFFE0 : BitVec 64).getLsbD i = decide (5 ≤ i ∧ i < 25) := by
    decide
  have hdisjoint : ((tbe &&& 0x1FFFFE0) <<< 7) &&& (addr &&& 0xFFF).setWidth 64 = 0 := by
    apply BitVec.eq_of_getLsbD_eq
    intro i hi
    rw [BitVec.getLsbD_and, BitVec.getLsbD_shiftLeft, BitVec.getLsbD_and, BitVec.getLsbD_setWidth,
      BitVec.getLsbD_and, hlow]
    by_cases h12 : i < 12
    · rw [hpage (i - 7) (by omega)]
      have hout : ¬(5 ≤ i - 7 ∧ i - 7 < 25) := by omega
      simp [hout]
    · simp [h12]
  unfold dbgTbePhys physOf
  rw [BitVec.add_eq_or_of_and_eq_zero _ _ hdisjoint]
  apply BitVec.eq_of_getLsbD_eq
  intro i hi
  simp only [BitVec.getLsbD_setWidth, BitVec.getLsbD_or, BitVec.getLsbD_shiftLeft,
    BitVec.getLsbD_ushiftRight, BitVec.getLsbD_and]
  by_cases h12 : i < 12
  · have h7 : i < 7 ∨ ¬(5 ≤ i - 7 ∧ i - 7 < 25) := by omega
    rw [hpage (i - 7) (by omega)]
    rcases h7 with h7 | h7
    · simp [h12, h7]
    · simp [h12, h7]
  · have hshift : 5 + (i - 12) = i - 7 := by omega
    have hin : 5 ≤ i - 7 ∧ i - 7 < 25 := by omega
    rw [hpage (i - 7) (by omega), hshift]
    have h7 : ¬i < 7 := by omega
    simp [h12, hin, h7, hi]

/-! ### The steps of the walk -/

variable {flags addr phys : Word} {w : DbgWalk β} {unassigned : Option DbgUnassigned}

omit [EBus β] [DbgBus β] in
/-- What the flags allow to be looked up. -/
theorem dbgLookup_eq (tb : Nat → BitVec 64) (p : XrProcessor) (allowed : Prop) [Decidable allowed] :
    (if allowed then dbgTranslateAddressTb tb addr (dbgTag flags p >>> 20) else none) =
      if allowed then tbScan tb (tbMatching (dbgTag flags p) addr) else none := by
  rw [dbgTranslateAddressTb_eq]

theorem DbgWalksTables.translate (h : DbgWalksTables flags addr w.proc) :
    dbgTranslateVirtual unassigned flags addr w =
      dbgWalkTables unassigned flags addr (dbgTag flags w.proc >>> 20)
        (dbgPageTables flags w.proc) w := by
  have htb : (if flags &&& dbgTranslateBypassTb = 0 then
      tbScan (dbgTb flags w.proc) (tbMatching (dbgTag flags w.proc) addr) else none) = none := by
    split
    · next hlooked => exact h.noTbe hlooked
    · rfl
  unfold dbgTranslateVirtual
  extract_lets tbname tb asid
  rw [dbgLookup_eq, htb]
  exact if_pos h.walks

theorem DbgWalksTables.table (h : DbgWalksTables flags addr w.proc)
    (allowed : flags &&& dbgTranslateBypassTbForPgtb = 0)
    (maps : DbgMaps flags (dbgPteVaddr flags addr w.proc) w.proc phys) : ∃ print,
    ∀ unassigned, dbgTranslateVirtual unassigned flags addr w =
      dbgLoadPte unassigned flags addr phys (w.print flags print) := by
  obtain ⟨i, hentry, hvalid, rfl⟩ := maps
  refine ⟨dbgTbePrint "Pde@DTB" i (w.proc.dtb i), fun unassigned => ?_⟩
  rw [h.translate, dbgWalkTables, if_neg h.tables]
  extract_lets ptevaddr
  rw [dbgLookup_eq, if_pos allowed]
  have hscan : tbScan w.proc.dtb (tbMatching (dbgTag flags w.proc) ptevaddr) = some i := hentry
  rw [hscan, ← dbgTbePhys_eq]
  exact if_neg hvalid

theorem DbgWalksDirectory.translate (h : DbgWalksDirectory flags addr w.proc) :
    dbgTranslateVirtual unassigned flags addr w =
      (dbgWalkDirectory unassigned flags (dbgTag flags w.proc >>> 20) (dbgPageTables flags w.proc)
        (dbgPteVaddr flags addr w.proc) w).bind fun r =>
          match r.1 with
          | none => some r
          | some physpteaddr => dbgLoadPte unassigned flags addr physpteaddr r.2 := by
  have hpage : (if flags &&& dbgTranslateBypassTbForPgtb = 0 then
      tbScan w.proc.dtb (tbMatching (dbgTag flags w.proc) (dbgPteVaddr flags addr w.proc))
    else none) = none := by
    split
    · next hallowed => exact h.noPage hallowed
    · rfl
  rw [h.toDbgWalksTables.translate, dbgWalkTables, if_neg h.tables]
  extract_lets ptevaddr
  have hptevaddr : ptevaddr = dbgPteVaddr flags addr w.proc := rfl
  rw [dbgLookup_eq, hptevaddr, hpage]
  exact if_neg h.outside

/-- With a valid entry for the page directory. -/
theorem dbgWalkDirectory_maps
    (maps : DbgMaps flags (dbgPdeVaddr flags addr w.proc) w.proc phys) : ∃ print,
    ∀ unassigned, dbgWalkDirectory unassigned flags (dbgTag flags w.proc >>> 20)
      (dbgPageTables flags w.proc) (dbgPteVaddr flags addr w.proc) w =
        dbgLoadPde unassigned flags (dbgPteVaddr flags addr w.proc) phys (w.print flags print) := by
  obtain ⟨i, hentry, hvalid, rfl⟩ := maps
  refine ⟨dbgTbePrint "PdTbe@DTB" i (w.proc.dtb i), fun unassigned => ?_⟩
  unfold dbgWalkDirectory
  extract_lets pdevaddr
  have hscan : tbScan w.proc.dtb (tbMatching (dbgTag flags w.proc) pdevaddr) = some i := hentry
  rw [dbgTranslateAddressTb_eq, hscan, ← dbgTbePhys_eq]
  exact if_neg hvalid

/-! ### Entries -/

variable {name : String} {physaddr : Word}

theorem dbgLoadEntry_kept (h : DbgBus.answer w.bus w.proc physaddr = .kept) :
    dbgLoadEntry none name flags addr physaddr w = none := by
  unfold dbgLoadEntry
  rw [h]
  rfl

theorem dbgLoadEntry_read {entry : Word} (h : DbgBus.answer w.bus w.proc physaddr = .read entry)
    (variable_ : Option Word) : dbgLoadEntry variable_ name flags addr physaddr w =
      some (dbgUseEntry name flags addr physaddr (w.read physaddr) entry) := by
  unfold dbgLoadEntry
  rw [h]

/-- What is found in a walk that uses nothing unassigned. -/
def DbgFinds (walk : Option DbgUnassigned → Option (Option Word × DbgWalk β))
    (P : (Option Word × DbgWalk β) → Word → Prop) : Prop :=
  ∃ r, (∀ unassigned, walk unassigned = some r) ∧ ∀ phys, r.1 = some phys → P r phys

omit [EBus β] [DbgBus β] in
/-- A walk that ends with 0 has nothing to show for it. -/
theorem dbgFinds_none {walk : Option DbgUnassigned → Option (Option Word × DbgWalk β)}
    {P : (Option Word × DbgWalk β) → Word → Prop} (w : DbgWalk β)
    (h : ∀ unassigned, walk unassigned = some (none, w)) : DbgFinds walk P :=
  ⟨_, h, fun _ hsome => nomatch hsome⟩

/-- An entry that the bus delivers or refuses, of whichever variable. -/
theorem dbgFinds_entry (name : String) (flags addr : Word)
    (variable_ : Option DbgUnassigned → Option Word)
    (h : DbgBus.answer w.bus w.proc physaddr ≠ .kept) :
    DbgFinds (fun u => dbgLoadEntry (variable_ u) name flags addr physaddr w) fun r phys =>
      r.2.proc = { w.proc with progress := (EBus.read w.bus w.proc physaddr.toNat 4).progress } ∧
      r.2.bus = (EBus.read w.bus w.proc physaddr.toNat 4).bus ∧
      ∃ entry, DbgBus.answer w.bus w.proc physaddr = .read entry ∧ entry &&& 1 ≠ 0 ∧
        phys = dbgPtePhys entry addr := by
  cases hanswer : DbgBus.answer w.bus w.proc physaddr with
  | kept => exact absurd hanswer h
  | error =>
      refine dbgFinds_none ((w.read physaddr).print flags (dbgBusErrorPrint name physaddr)) ?_
      intro unassigned
      unfold dbgLoadEntry
      rw [hanswer]
  | read entry =>
      refine ⟨_, fun unassigned => dbgLoadEntry_read hanswer _, fun phys hphys => ?_⟩
      unfold dbgUseEntry at hphys ⊢
      dsimp only at hphys ⊢
      rw [DbgWalk.print_proc, DbgWalk.print_bus]
      refine ⟨rfl, rfl, entry, rfl, ?_⟩
      by_cases hvalid : entry &&& 1 = 0
      · rw [if_pos hvalid] at hphys
        cases hphys
      · rw [if_neg hvalid] at hphys
        exact ⟨hvalid, (Option.some.inj hphys).symm⟩

/-! ### Walks -/

/-- With an entry for the page directory that the bus delivers, nothing unassigned is used. -/
theorem dbgWalkDirectory_finds (hwalks : DbgWalksDirectory flags addr w.proc)
    (hmissed : ¬DbgDirectoryMissed flags addr w.proc)
    (hdelivered : ¬DbgUndelivered flags addr w.proc w.bus) :
    DbgFinds (fun u => dbgWalkDirectory u flags (dbgTag flags w.proc >>> 20)
        (dbgPageTables flags w.proc) (dbgPteVaddr flags addr w.proc) w) fun r physpteaddr =>
      DbgPteAt flags addr w.proc w.bus physpteaddr r.2.proc r.2.bus ∧
      DbgBus.answer r.2.bus r.2.proc physpteaddr ≠ .kept := by
  cases hentry : dbgDtbEntry flags (dbgPdeVaddr flags addr w.proc) w.proc with
  | none => exact absurd ⟨hwalks, hentry⟩ hmissed
  | some i =>
      by_cases hvalid : w.proc.dtb i &&& 1 = 0
      · refine dbgFinds_none (w.print flags (dbgTbePrint "PdTbe@DTB" i (w.proc.dtb i))) ?_
        intro unassigned
        unfold dbgWalkDirectory
        extract_lets pdevaddr
        have hscan : tbScan w.proc.dtb (tbMatching (dbgTag flags w.proc) pdevaddr) = some i := hentry
        rw [dbgTranslateAddressTb_eq, hscan]
        exact if_pos hvalid
      · have hmaps : DbgMaps flags (dbgPdeVaddr flags addr w.proc) w.proc
            (physOf (w.proc.dtb i) (dbgPdeVaddr flags addr w.proc)) := ⟨i, hentry, hvalid, rfl⟩
        obtain ⟨print, heq⟩ := dbgWalkDirectory_maps hmaps
        simp only [heq]
        have hanswer : DbgBus.answer (w.print flags print).bus (w.print flags print).proc
            (physOf (w.proc.dtb i) (dbgPdeVaddr flags addr w.proc)) ≠ .kept := by
          rw [DbgWalk.print_bus, DbgWalk.print_proc]
          exact fun hkept => hdelivered (.pde hwalks hmaps hkept)
        obtain ⟨r, hr, hfound⟩ := dbgFinds_entry "Pde" flags (dbgPteVaddr flags addr w.proc)
          (fun u => u.map (·.pde)) hanswer
        refine ⟨r, hr, fun physpteaddr hphys => ?_⟩
        obtain ⟨hproc, hbus, pde, hword, hpde, rfl⟩ := hfound physpteaddr hphys
        rw [DbgWalk.print_bus, DbgWalk.print_proc] at hproc hbus hword
        rw [hproc, hbus]
        exact ⟨.directory hwalks.outside hmaps hword hpde,
          fun hkept => hdelivered (.directory hwalks hmaps hword hpde hkept)⟩

/-- The page table entry, from where it is. -/
theorem dbgLoadPte_finds {p : XrProcessor} {bus : β} {physpteaddr : Word}
    (htables : dbgPageTables flags p ≠ 0)
    (hat : DbgPteAt flags addr p bus physpteaddr w.proc w.bus)
    (hdelivered : DbgBus.answer w.bus w.proc physpteaddr ≠ .kept) :
    DbgFinds (fun u => dbgLoadPte u flags addr physpteaddr w) fun _ phys =>
      DbgTablesMap flags addr p bus phys := by
  obtain ⟨r, hr, hfound⟩ := dbgFinds_entry "Pte" flags addr (fun u => u.map (·.pte)) hdelivered
  refine ⟨r, hr, fun phys hphys => ?_⟩
  obtain ⟨-, -, pte, hword, hvalid, rfl⟩ := hfound phys hphys
  exact ⟨htables, physpteaddr, w.proc, w.bus, pte, hat, hword, hvalid, rfl⟩

theorem dbgWalkTables_finds (hwalks : DbgWalksTables flags addr w.proc)
    (hmissed : ¬DbgDirectoryMissed flags addr w.proc)
    (hdelivered : ¬DbgUndelivered flags addr w.proc w.bus) :
    DbgFinds (fun u => dbgTranslateVirtual u flags addr w) fun _ phys =>
      DbgTablesMap flags addr w.proc w.bus phys := by
  by_cases hpage : flags &&& dbgTranslateBypassTbForPgtb = 0 ∧
      dbgDtbEntry flags (dbgPteVaddr flags addr w.proc) w.proc ≠ none
  · -- The page table is in the DTB.
    obtain ⟨hallowed, hentry⟩ := hpage
    obtain ⟨i, hi⟩ := Option.ne_none_iff_exists'.mp hentry
    by_cases hvalid : w.proc.dtb i &&& 1 = 0
    · refine dbgFinds_none (w.print flags (dbgTbePrint "Pde@DTB" i (w.proc.dtb i))) ?_
      intro unassigned
      rw [hwalks.translate, dbgWalkTables, if_neg hwalks.tables]
      extract_lets ptevaddr
      have hscan : tbScan w.proc.dtb (tbMatching (dbgTag flags w.proc) ptevaddr) = some i := hi
      rw [dbgLookup_eq, if_pos hallowed, hscan]
      exact if_pos hvalid
    · have hmaps : DbgMaps flags (dbgPteVaddr flags addr w.proc) w.proc
          (physOf (w.proc.dtb i) (dbgPteVaddr flags addr w.proc)) := ⟨i, hi, hvalid, rfl⟩
      obtain ⟨print, heq⟩ := hwalks.table hallowed hmaps
      simp only [heq]
      refine dbgLoadPte_finds hwalks.tables ?_ ?_
      · rw [DbgWalk.print_bus, DbgWalk.print_proc]
        exact .table hallowed hmaps
      · rw [DbgWalk.print_bus, DbgWalk.print_proc]
        exact fun hkept => hdelivered (.table hwalks hallowed hmaps hkept)
  · have hnoPage : flags &&& dbgTranslateBypassTbForPgtb = 0 →
        dbgDtbEntry flags (dbgPteVaddr flags addr w.proc) w.proc = none := by
      intro hallowed
      by_contra hentry
      exact hpage ⟨hallowed, hentry⟩
    by_cases hinside : addr &&& 0xFFC00000 = dbgPageTables flags w.proc
    · refine dbgFinds_none (w.print flags (.plain "NoPageDirTbe ".toList)) ?_
      intro unassigned
      have hnone : (if flags &&& dbgTranslateBypassTbForPgtb = 0 then
          tbScan w.proc.dtb (tbMatching (dbgTag flags w.proc) (dbgPteVaddr flags addr w.proc))
        else none) = none := by
        split
        · next hallowed => exact hnoPage hallowed
        · rfl
      rw [hwalks.translate, dbgWalkTables, if_neg hwalks.tables]
      extract_lets ptevaddr
      have hptevaddr : ptevaddr = dbgPteVaddr flags addr w.proc := rfl
      rw [dbgLookup_eq, hptevaddr, hnone]
      exact if_pos hinside
    · have hdirectory : DbgWalksDirectory flags addr w.proc := ⟨hwalks, hnoPage, hinside⟩
      obtain ⟨r, hr, hfound⟩ := dbgWalkDirectory_finds hdirectory hmissed hdelivered
      simp only [hdirectory.translate, hr, Option.bind_some]
      cases hpte : r.1 with
      | none => exact ⟨r, fun _ => rfl, fun phys hsome => by rw [hpte] at hsome; cases hsome⟩
      | some physpteaddr =>
          obtain ⟨hat, hnotKept⟩ := hfound physpteaddr hpte
          exact dbgLoadPte_finds hwalks.tables hat hnotKept

/-- The translation, whatever the unassigned variables hold. -/
theorem dbgTranslateVirtual_cases (hmissed : ¬DbgDirectoryMissed flags addr w.proc)
    (hdelivered : ¬DbgUndelivered flags addr w.proc w.bus) : ∃ r,
    (∀ unassigned, dbgTranslateVirtual unassigned flags addr w = some r) ∧
    (flags &&& dbgTranslateBypassTb ≠ 0 ∨
      tbScan (dbgTb flags w.proc) (tbMatching (dbgTag flags w.proc) addr) = none →
      ∀ phys, r.1 = some phys → DbgTablesMap flags addr w.proc w.bus phys) ∧
    ∀ i, flags &&& dbgTranslateBypassTb = 0 →
      tbScan (dbgTb flags w.proc) (tbMatching (dbgTag flags w.proc) addr) = some i →
      r.1 = if dbgTb flags w.proc i &&& 1 ≠ 0 then some (physOf (dbgTb flags w.proc i) addr)
        else none := by
  cases htbe : (if flags &&& dbgTranslateBypassTb = 0 then
      tbScan (dbgTb flags w.proc) (tbMatching (dbgTag flags w.proc) addr) else none) with
  | some i =>
      have hlooked : flags &&& dbgTranslateBypassTb = 0 := by
        by_contra hbypass
        rw [if_neg hbypass] at htbe
        cases htbe
      have htr : ∀ unassigned, dbgTranslateVirtual unassigned flags addr w = some
          (if dbgTb flags w.proc i &&& 1 ≠ 0 then some (dbgTbePhys (dbgTb flags w.proc i) addr)
            else none, w.print flags (dbgTbePrint
              (if flags &&& dbgTranslateIstream ≠ 0 then "ITB" else "DTB") i
              (dbgTb flags w.proc i))) := by
        intro unassigned
        unfold dbgTranslateVirtual
        extract_lets tbname tb asid
        rw [dbgLookup_eq, htbe]
      rw [if_pos hlooked] at htbe
      refine ⟨_, htr, ?_, ?_⟩
      · rintro (hbypass | hnone)
        · exact absurd hlooked hbypass
        · rw [hnone] at htbe
          cases htbe
      · intro j _ hj
        obtain rfl : i = j := Option.some.inj (htbe.symm.trans hj)
        dsimp only
        rw [dbgTbePhys_eq]
  | none =>
      have hnoTbe : flags &&& dbgTranslateBypassTb = 0 →
          tbScan (dbgTb flags w.proc) (tbMatching (dbgTag flags w.proc) addr) = none := by
        intro hlooked
        rw [if_pos hlooked] at htbe
        exact htbe
      have hno : ∀ i, flags &&& dbgTranslateBypassTb = 0 →
          tbScan (dbgTb flags w.proc) (tbMatching (dbgTag flags w.proc) addr) ≠ some i := by
        intro i hlooked hsome
        rw [hnoTbe hlooked] at hsome
        cases hsome
      have hfinds : DbgFinds (fun u => dbgTranslateVirtual u flags addr w) fun _ phys =>
          DbgTablesMap flags addr w.proc w.bus phys := by
        by_cases hwalks : flags &&& dbgTranslateBypassPt = 0
        · by_cases htables : dbgPageTables flags w.proc = 0
          · refine dbgFinds_none (w.print flags (.plain "NoPageTable ".toList)) ?_
            intro unassigned
            unfold dbgTranslateVirtual
            extract_lets tbname tb asid
            rw [dbgLookup_eq, htbe]
            dsimp only
            rw [if_pos hwalks, dbgWalkTables, if_pos htables]
          · exact dbgWalkTables_finds ⟨hnoTbe, hwalks, htables⟩ hmissed hdelivered
        · refine dbgFinds_none w ?_
          intro unassigned
          unfold dbgTranslateVirtual
          extract_lets tbname tb asid
          rw [dbgLookup_eq, htbe]
          exact if_neg hwalks
      obtain ⟨r, hr, hfound⟩ := hfinds
      exact ⟨r, hr, fun _ => hfound, fun i hlooked hsome => absurd hsome (hno i hlooked)⟩

/-- And when they do not hold anything. -/
theorem dbgTranslateVirtual_missed (h : DbgDirectoryMissed flags addr w.proc) :
    dbgTranslateVirtual none flags addr w = none := by
  have hnone : dbgWalkDirectory none flags (dbgTag flags w.proc >>> 20)
      (dbgPageTables flags w.proc) (dbgPteVaddr flags addr w.proc) w = none := by
    unfold dbgWalkDirectory
    extract_lets pdevaddr
    have hscan : tbScan w.proc.dtb (tbMatching (dbgTag flags w.proc) pdevaddr) = none :=
      h.noDirectory
    rw [dbgTranslateAddressTb_eq, hscan]
    rfl
  rw [h.toDbgWalksDirectory.translate, hnone]
  rfl

theorem dbgTranslateVirtual_undelivered (h : DbgUndelivered flags addr w.proc w.bus) :
    dbgTranslateVirtual none flags addr w = none := by
  cases h with
  | pde walks maps kept =>
      obtain ⟨print, heq⟩ := dbgWalkDirectory_maps maps
      rw [walks.translate, heq, dbgLoadPde, Option.map_none, dbgLoadEntry_kept]
      · rfl
      · rw [DbgWalk.print_bus, DbgWalk.print_proc]
        exact kept
  | table walks allowed maps kept =>
      obtain ⟨print, heq⟩ := walks.table allowed maps
      rw [heq, dbgLoadPte, Option.map_none, dbgLoadEntry_kept]
      rw [DbgWalk.print_bus, DbgWalk.print_proc]
      exact kept
  | @directory phys pde walks maps word valid kept =>
      obtain ⟨print, heq⟩ := dbgWalkDirectory_maps maps
      have hread : DbgBus.answer (w.print flags print).bus (w.print flags print).proc phys =
          .read pde := by
        rw [DbgWalk.print_bus, DbgWalk.print_proc]
        exact word
      rw [walks.translate, heq, dbgLoadPde, dbgLoadEntry_read hread]
      simp only [Option.bind_some, dbgUseEntry, if_neg valid]
      rw [dbgLoadPte, Option.map_none, dbgLoadEntry_kept]
      simp only [DbgWalk.print_bus, DbgWalk.print_proc, DbgWalk.read]
      exact kept

end

/-! ## Values that are not assigned -/

/-- Page tables at 0xC0000000, and nothing in the DTB. In memory there is a word at 0x100
that looks like an entry for a page table at 0x1000, and in that one for page 2. -/
def missedDirectory : DbgWalk LineRam where
  proc := { (XrProcessor.zeroed 0).setCr crDtbaddr 0xC0000000 with dtb := fun _ => tbInvalidEntry }
  bus := ⟨fun _ => true, fun a => if a = 0x100 then 0x21 else if a = 0x1004 then 0x41 else 0⟩
  prints := []

/-- The same with the first page table in the DTB, at 0xF8003000, where the platform board
has no NVRAM. -/
def undeliveredTable : DbgWalk (XrStation Unit) where
  proc := { (XrProcessor.zeroed 0).setCr crDtbaddr 0xC0000000 with
    dtb := Function.update (fun _ => tbInvalidEntry) 4 0xC000001F00061 }
  bus := stationOf 0x400000
  prints := []

end Xremu
