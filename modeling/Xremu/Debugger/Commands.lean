import Xremu.Debugger.Translate
import Xremu.Devices.Lsic

/-!
# The debugger's command line

`DbgInput` edits `cmdline`, `DbgProcessInput` takes the tokens of a line apart into
`tokenbuf`, and the commands format what they show in `printbuf`. The three buffers have
`CMD_MAX` characters: a write behind one of them, a string that does not fit with its
terminator, or a scan that leaves `cmdline` ends the run with the buffer's name.

The processors, the LSICs and the bus are a `DbgWorld`. What goes to the debugger's
terminal is collected in `out`.
-/

namespace Xremu

abbrev cmdMax : Nat := 256

inductive DbgBuffer where
  | cmdline
  | tokenbuf
  | printbuf
deriving DecidableEq

/-- What the commands look at. -/
structure DbgWorld (β : Type) where
  /-- Is the entry of `XrProcessorTable` not null? -/
  present : Int → Bool
  procs : Int → XrProcessor
  lsics : Int → Lsic
  bus : β
  /-- What the variables hold that are not assigned. -/
  unassigned : DbgUnassigned

structure Dbg (β : Type) where
  cmdline : Nat → Char
  cmdindex : Nat
  cmdnexttoken : Option Nat
  tokenbuf : Nat → Char
  selectedCpu : Int
  world : DbgWorld β
  out : Text

abbrev DbgM (β : Type) := StateT (Dbg β) (Except DbgBuffer)

def nul : Char := '\x00'

/-! ## Strings -/

/-- The string at a place in a buffer, with `left` characters to the end of it. -/
def cString (buffer : Nat → Char) : (left index : Nat) → Text
  | 0, _ => []
  | left + 1, index =>
      if buffer index = nul then [] else buffer index :: cString buffer left (index + 1)

/-- The value of a digit of `strtol`. -/
def digitValue (c : Char) : Option Nat :=
  if '0' ≤ c ∧ c ≤ '9' then some (c.toNat - 48)
  else if 'a' ≤ c ∧ c ≤ 'z' then some (c.toNat - 87)
  else if 'A' ≤ c ∧ c ≤ 'Z' then some (c.toNat - 55)
  else none

def digitsValue (base : Nat) : Text → (value : Nat) → Nat
  | [], value => value
  | c :: text, value =>
      match digitValue c with
      | none => value
      | some digit => if digit < base then digitsValue base text (base * value + digit) else value

def isSpace (c : Char) : Bool := c = ' ' || ('\t' ≤ c && c ≤ '\r')

/-- `strtol` with a 64-bit `long`. -/
def strtol (text : Text) (base : Nat) : Int :=
  let text := text.dropWhile isSpace
  let negative := text.head? = some '-'
  let text := if negative || text.head? = some '+' then text.tail else text
  let digits := text.drop 2
  let hex := base = 16 && text.head? = some '0' && text.tail.head?.map Char.toLower = some 'x' &&
    ((digits.head?.bind digitValue).any (· < 16))
  let value := digitsValue base (if hex then digits else text) 0
  if negative then max (-(value : Int)) (-0x8000000000000000) else min value 0x7FFFFFFFFFFFFFFF

def dbgParseAddress (addr : Text) : Word :=
  BitVec.ofInt 32 <|
    if addr.head? = some '0' then
      if addr.tail.head? = some 'x' then strtol addr 16 else strtol addr 8
    else strtol addr 10

/-! ## The tokenizer -/

/-- `while (*buffer == delimiter) buffer++`, with `left` characters to the end of `cmdline`. -/
def skipDelimiters (cmdline : Nat → Char) (delimiter : Char) :
    (left buffer : Nat) → Except DbgBuffer Nat
  | 0, _ => .error .cmdline
  | left + 1, buffer =>
      if cmdline buffer = delimiter then skipDelimiters cmdline delimiter left (buffer + 1)
      else .ok buffer

def storeToken (tokenbuf : Nat → Char) (index : Nat) (c : Char) : Except DbgBuffer (Nat → Char) :=
  if index < cmdMax then .ok (Function.update tokenbuf index c) else .error .tokenbuf

/-- The copying loop, `while (bufsize - 1)`, and the terminator after it. -/
def copyToken (cmdline : Nat → Char) (delimiter : Char) : (left buffer index : Nat) →
    (tokenbuf : Nat → Char) → Except DbgBuffer (Nat × (Nat → Char))
  | 0, buffer, index, tokenbuf => (storeToken tokenbuf index nul).map (buffer, ·)
  | left + 1, buffer, index, tokenbuf =>
      if cmdMax ≤ buffer then .error .cmdline
      else if cmdline buffer = delimiter ∨ cmdline buffer = nul then
        (storeToken tokenbuf index nul).map (buffer, ·)
      else
        (storeToken tokenbuf index (cmdline buffer)).bind
          (copyToken cmdline delimiter left (buffer + 1) (index + 1))

/-- `RtlTokenize` of `cmdline`; the first component is what it returns. -/
def rtlTokenize (cmdline : Nat → Char) (buffer : Nat) (tokenbuf : Nat → Char) (bufsize : Nat)
    (delimiter : Char) : Except DbgBuffer (Option Nat × (Nat → Char)) :=
  (skipDelimiters cmdline delimiter (cmdMax - buffer) buffer).bind fun buffer =>
    if cmdline buffer = nul then .ok (none, tokenbuf)
    else (copyToken cmdline delimiter (bufsize - 1) buffer 0 tokenbuf).map fun r => (some r.1, r.2)

section

variable {β : Type}

/-- `DbgNextToken`. -/
def dbgNextToken : DbgM β Bool := do
  let s ← get
  match s.cmdnexttoken with
  | none => pure false
  | some buffer =>
      let (next, tokenbuf) ← rtlTokenize s.cmdline buffer s.tokenbuf cmdMax ' '
      set { s with cmdnexttoken := next, tokenbuf := tokenbuf }
      pure next.isSome

/-- What is in `tokenbuf`. -/
def dbgToken : DbgM β Text := do
  let s ← get
  pure (cString s.tokenbuf cmdMax 0)

/-! ## Output -/

/-- What `DbgPutString` makes of a string. -/
def crLf (text : Text) : Text := text.flatMap fun c => if c = '\n' then ['\r', '\n'] else [c]

def dbgPutString (text : Text) : DbgM β Unit := modify fun s => { s with out := s.out ++ crLf text }

/-- `sprintf` into `printbuf`, and `DbgPutString` of it. -/
def dbgPrintf (text : Text) : DbgM β Unit :=
  if text.length < cmdMax then dbgPutString text else throw .printbuf

def dbgPrompt : DbgM β Unit := dbgPutString "emu>> ".toList

def dbgHeader : DbgM β Unit := dbgPutString "Emulator Level Debugger\n".toList

/-! ## Commands -/

def dbgProc : DbgM β XrProcessor := do
  let s ← get
  pure (s.world.procs s.selectedCpu)

def dbgSetProc (p : XrProcessor) : DbgM β Unit := modify fun s =>
  { s with world := { s.world with procs := Function.update s.world.procs s.selectedCpu p } }

def dbgSetBus (bus : β) : DbgM β Unit := modify fun s =>
  { s with world := { s.world with bus := bus } }

inductive DbgCommand where
  | help
  | clear
  | reg
  | lsic
  | cr
  | tb
  | pause
  | resume
  | cpu
  | translate
  | poke
  | peek
deriving DecidableEq

/-- `DbgCommands`. -/
def dbgCommands : List DbgCommand :=
  [.help, .clear, .reg, .lsic, .cr, .tb, .pause, .resume, .cpu, .translate, .poke, .peek]

def DbgCommand.name : DbgCommand → String
  | .help => "help"
  | .clear => "clear"
  | .reg => "reg"
  | .lsic => "lsic"
  | .cr => "cr"
  | .tb => "tb"
  | .pause => "pause"
  | .resume => "resume"
  | .cpu => "cpu"
  | .translate => "translate"
  | .poke => "poke"
  | .peek => "peek"

def DbgCommand.helpText : DbgCommand → String
  | .help => "Display this help text."
  | .clear => "Clear the console."
  | .reg => "Dump register contents."
  | .lsic => "Dump LSIC state for the CPU."
  | .cr => "Dump control register contents."
  | .tb => "Dump translation buffer contents"
  | .pause => "Pause CPU execution."
  | .resume => "Resume CPU execution."
  | .cpu => "Switch to examining the specified CPU's context."
  | .translate => "Translate a virtual address from the perspective of the current CPU."
  | .poke => "Poke a new value into the given address."
  | .peek => "Peek the value at the given address."

/-- `DbgCommandHelp`. -/
def dbgCommandHelp : DbgM β Unit :=
  dbgCommands.forM fun c =>
    dbgPrintf (" ".toList ++ padRight 10 c.name.toList ++ c.helpText.toList ++ "\n".toList)

def dbgCommandClear : DbgM β Unit := do
  dbgPutString "\x1B[0m\x1B[1;1H\x1B[2J".toList
  dbgHeader

def dbgRegNames : List String :=
  ["zero", "t0", "t1", "t2", "t3", "t4", "t5", "a0", "a1", "a2", "a3", "s0", "s1", "s2", "s3",
    "s4", "s5", "s6", "s7", "s8", "s9", "s10", "s11", "s12", "s13", "s14", "s15", "s16", "s17",
    "tp", "sp", "lr"]

/-- "`name`=`value` ", the name in a field. -/
def registerText (width : Nat) (name : String) (value : Word) : Text :=
  padLeft ' ' width name.toList ++ "=".toList ++ hexField 8 value.toNat ++ " ".toList

def dbgCommandReg : DbgM β Unit := do
  let proc ← dbgProc
  (dbgRegNames.zipIdx.drop 1).forM fun (name, i) => do
    if 1 < i ∧ (i - 1) % 8 = 0 then dbgPutString "\n".toList
    dbgPrintf (registerText 3 name (proc.reg i))
  dbgPrintf (" pc=".toList ++ hexField 8 proc.pc.toNat ++ "\n".toList)

def lsicText (lsic : Lsic) : Text :=
  "PEND0=".toList ++ hexField 8 (lsic.registers lsicPending0).toNat ++
  " PEND1=".toList ++ hexField 8 (lsic.registers lsicPending1).toNat ++
  " MASK0=".toList ++ hexField 8 (lsic.registers lsicMask0).toNat ++
  " MASK1=".toList ++ hexField 8 (lsic.registers lsicMask1).toNat ++
  " IPL=".toList ++ hexField 8 (lsic.registers lsicIpl).toNat ++
  " LOMASK=".toList ++ hexField 8 lsic.lowIplMask.toNat ++
  " HIMASK=".toList ++ hexField 8 lsic.highIplMask.toNat ++ "\n".toList

def dbgCommandLsic : DbgM β Unit := do
  let s ← get
  dbgPrintf (lsicText (s.world.lsics s.selectedCpu))

/-- `DbgCrNames`. The numbers that are left out have no name. -/
def dbgCrNames : List (Nat × String) :=
  [(0, "rs"), (1, "whami"), (5, "eb"), (6, "epc"), (7, "ebadaddr"), (9, "tbmissaddr"),
    (10, "tbpc"), (11, "scratch0"), (12, "scratch1"), (13, "scratch2"), (14, "scratch3"),
    (15, "scratch4"), (16, "itbpte"), (17, "itbtag"), (18, "itbindex"), (19, "itbctrl"),
    (20, "icachectrl"), (21, "itbaddr"), (24, "dtbpte"), (25, "dtbtag"), (26, "dtbindex"),
    (27, "dtbctrl"), (28, "dcachectrl"), (29, "dtbaddr")]

def dbgCommandCr : DbgM β Unit := do
  let proc ← dbgProc
  dbgCrNames.zipIdx.forM fun ((i, name), printed) => do
    if printed ≠ 0 ∧ printed % 5 = 0 then dbgPutString "\n".toList
    dbgPrintf (registerText 10 name (proc.cr i))
  dbgPutString "\n".toList

def dbgCommandCpu : DbgM β Unit := do
  if ← dbgNextToken then
    let cpunum := strtol (← dbgToken) 10
    let s ← get
    -- The table has `XR_PROC_MAX` entries; a negative number is in front of it.
    if cpunum ≥ 16 ∨ s.world.present cpunum = false then
      dbgPutString "No such processor\n".toList
    else modify fun s => { s with selectedCpu := (BitVec.ofInt 32 cpunum).toInt }
  else dbgPutString "Usage: cpu [num]\n".toList

def dbgTbFlags : List String := ["V", "W", "K", "N", "G"]

/-- "VirPN PhyPN ASN " of an entry. -/
def tbeText (tbe : BitVec 64) : Text :=
  hexFieldUpper 5 (tbe >>> 32 &&& 0xFFFFF).toNat ++ " ".toList ++
  hexFieldUpper 5 (tbe >>> 5 &&& 0xFFFFF).toNat ++ " ".toList ++
  hexFieldUpper 3 (tbe >>> 52 &&& 0xFFF).toNat ++ " ".toList

def dbgDumpTb (tb : Nat → BitVec 64) (size : Nat) : DbgM β Unit := do
  (List.range 4).forM fun _ => dbgPutString "VirPN PhyPN ASN FLAG  ".toList
  (List.range size).forM fun i => do
    if i % 4 = 0 then dbgPutString "\n".toList
    dbgPrintf (tbeText (tb i))
    dbgTbFlags.zipIdx.forM fun (name, j) =>
      dbgPutString (if (tb i).getLsbD j then name else " ").toList
    dbgPutString " ".toList
  dbgPutString "\n".toList

def dbgCommandTb : DbgM β Unit := do
  let proc ← dbgProc
  dbgPutString "ITB Contents\n".toList
  dbgDumpTb proc.itb xrTbSize
  dbgPutString "\nDTB Contents\n".toList
  dbgDumpTb proc.dtb xrTbSize

def dbgCommandPause : DbgM β Unit := do
  let proc ← dbgProc
  if proc.running then
    dbgSetProc { proc with running := false }
    dbgPutString "Paused\n".toList
  else dbgPutString "Already paused\n".toList

def dbgCommandResume : DbgM β Unit := do
  let proc ← dbgProc
  if proc.running then dbgPutString "Already resumed\n".toList
  else
    dbgSetProc { proc with running := true }
    dbgPutString "Resumed\n".toList

/-- `DbgDecodeTranslateFlags`. -/
def dbgDecodeTranslateFlags (flags : Text) (oldflags : Word) : Word :=
  flags.tail.foldl (fun flag c =>
    if c = 'p' then (flag ||| dbgTranslatePhysical) &&& ~~~dbgTranslateFigureItOut
    else if c = 'v' then flag &&& ~~~dbgTranslatePhysical &&& ~~~dbgTranslateFigureItOut
    else if c = 'i' then flag ||| dbgTranslateIstream
    else if c = 't' then flag ||| dbgTranslateBypassTb
    else if c = 'g' then flag ||| dbgTranslateBypassTbForPgtb
    else if c = 'z' then flag ||| dbgTranslatePrint
    else flag) oldflags

/-- The flags of a command, if there are any. -/
def dbgFlags (flags : Word) : DbgM β Word := do
  if ← dbgNextToken then
    let token ← dbgToken
    pure (if token.head? = some '-' then dbgDecodeTranslateFlags token flags else flags)
  else pure flags

def dbgPrint : DbgPrint → DbgM β Unit
  | .formatted text => dbgPrintf text
  | .plain text => dbgPutString text

variable [EBus β] [DbgBus β]

/-- `DbgTranslateAddress`; `none` is 0. -/
def dbgTranslateAddress (addr flags : Word) : DbgM β (Option Word) := do
  let s ← get
  let proc ← dbgProc
  let flags :=
    if flags &&& dbgTranslateFigureItOut ≠ 0 then
      (flags &&& dbgTranslatePrint) ||| if proc.cr crRs &&& 4 = 0 then dbgTranslatePhysical else 0
    else flags
  let walk : DbgWalk β := ⟨proc, s.world.bus, []⟩
  let (phys, walk) :=
    if flags &&& dbgTranslatePhysical = 0 then
      (dbgTranslateVirtual (some s.world.unassigned) flags addr walk).getD (none, walk)
    else (some addr, walk)
  walk.prints.forM dbgPrint
  dbgSetProc walk.proc
  dbgSetBus walk.bus
  if flags &&& dbgTranslatePrint ≠ 0 then
    match phys with
    | some phys => dbgPrintf ("PHYS=".toList ++ hexField 8 phys.toNat ++ "\n".toList)
    | none => dbgPutString "PHYS=Invalid\n".toList
  pure phys

def dbgCommandTranslate : DbgM β Unit := do
  if ← dbgNextToken then
    let addr := dbgParseAddress (← dbgToken)
    let flags ← dbgFlags dbgTranslatePrint
    let _ ← dbgTranslateAddress addr flags
  else dbgPutString "Usage: translate [addr] (-giptvz)\n".toList

/-- The translation of `poke` and `peek`. -/
def dbgLocate (addr flags : Word) : DbgM β (Option Word) := do
  let phys ← dbgTranslateAddress addr flags
  if phys = none ∧ flags &&& dbgTranslatePrint = 0 then
    dbgPutString "Failed to translate address, use -z for more info\n".toList
  pure phys

def dbgCommandPoke : DbgM β Unit := do
  if ← dbgNextToken then
    let addr := dbgParseAddress (← dbgToken)
    if ← dbgNextToken then
      let value := dbgParseAddress (← dbgToken)
      if addr &&& 3 ≠ 0 then dbgPutString "Unaligned address\n".toList
      else
        let flags ← dbgFlags 0
        match ← dbgLocate addr flags with
        | none => pure ()
        | some phys =>
            dbgPrintf ("Phys[".toList ++ hexField 8 phys.toNat ++ "]=".toList ++
              hexField 8 value.toNat ++ " ".toList)
            let proc ← dbgProc
            let s ← get
            let reply := EBus.write s.world.bus proc phys.toNat (byteOf value) 4
            dbgSetProc { proc with progress := reply.progress }
            dbgSetBus reply.bus
            if !reply.reply then dbgPutString "Bus error on write".toList
            dbgPutString "\n".toList
    else dbgPutString "Usage: poke [addr] [value] (-giptvz)\n".toList
  else dbgPutString "Usage: poke [addr] [value] (-giptvz)\n".toList

def dbgCommandPeek : DbgM β Unit := do
  if ← dbgNextToken then
    let addr := dbgParseAddress (← dbgToken)
    if addr &&& 3 ≠ 0 then dbgPutString "Unaligned address\n".toList
    else
      let flags ← dbgFlags 0
      match ← dbgLocate addr flags with
      | none => pure ()
      | some phys =>
          dbgPrintf ("Phys[".toList ++ hexField 8 phys.toNat ++ "]=".toList)
          let proc ← dbgProc
          let s ← get
          let walk := (DbgWalk.mk proc s.world.bus []).read phys
          dbgSetProc walk.proc
          dbgSetBus walk.bus
          match DbgBus.answer s.world.bus proc phys with
          | .error => dbgPutString "Bus error on read\n".toList
          | .kept => dbgPrintf (hexField 8 s.world.unassigned.value.toNat ++ "\n".toList)
          | .read value => dbgPrintf (hexField 8 value.toNat ++ "\n".toList)
  else dbgPutString "Usage: peek [addr] (-giptvz)\n".toList

def DbgCommand.run : DbgCommand → DbgM β Unit
  | .help => dbgCommandHelp
  | .clear => dbgCommandClear
  | .reg => dbgCommandReg
  | .lsic => dbgCommandLsic
  | .cr => dbgCommandCr
  | .tb => dbgCommandTb
  | .pause => dbgCommandPause
  | .resume => dbgCommandResume
  | .cpu => dbgCommandCpu
  | .translate => dbgCommandTranslate
  | .poke => dbgCommandPoke
  | .peek => dbgCommandPeek

/-! ## Input -/

/-- The answer to a command that is not in the table. -/
def unrecognizedText (token : Text) : Text := token ++ " is not a recognized command.\n".toList

/-- `DbgProcessInput`. -/
def dbgProcessInput : DbgM β Unit := do
  modify fun s => { s with cmdnexttoken := some 0 }
  if ← dbgNextToken then
    let token ← dbgToken
    match dbgCommands.find? fun c => c.name.toList = token with
    | none => dbgPrintf (unrecognizedText token)
    | some c => c.run
  dbgPrompt

/-- `(char) c`. -/
def charOf (c : BitVec 16) : Char := Char.ofNat (c.toNat % 256)

def storeLine (c : Char) : DbgM β Unit := do
  let s ← get
  if s.cmdindex < cmdMax then
    set { s with cmdline := Function.update s.cmdline s.cmdindex c }
  else throw .cmdline

/-- `TTYPutCharacter`. -/
def ttyPut (text : Text) : DbgM β Unit := modify fun s => { s with out := s.out ++ text }

/-- `DbgInput`. -/
def dbgInput (c : BitVec 16) : DbgM β Unit := do
  if c = 13 then
    ttyPut ['\r', '\n']
    storeLine nul
    modify fun s => { s with cmdindex := 0 }
    dbgProcessInput
  else if c = 8 then
    if (← get).cmdindex ≠ 0 then
      ttyPut ['\x08', ' ', '\x08']
      modify fun s => { s with cmdindex := s.cmdindex - 1 }
  else if (← get).cmdindex < cmdMax - 1 then
    storeLine (charOf c)
    ttyPut [charOf c]
    modify fun s => { s with cmdindex := s.cmdindex + 1 }

end

end Xremu
