import Xremu.Devices.PBoardMemory

/-!
# The real time clock and what is left of it after a restart

The clock of the platform board is the host's, shifted by an offset that the guest's
command 4 puts into four bytes of NVRAM. NVRAM goes to a file when the emulator ends, if it
is marked dirty, and comes from there when the emulator is started again.

So a time that was set is kept in the file: `nvram_survives` is about every byte of NVRAM,
`clock_runs_on` about the clock. What is asked of a run between setting the clock and
reading it is that nothing else is stored in the four bytes.
-/

namespace Xremu

abbrev nvramRtcOffset : Nat := 124

/-- The host's `struct timeval`. -/
structure Timeval where
  tvSec : Int
  tvUsec : Nat

/-- `RTCCurrentTime`, `RTCIntervalMS` and `RTCPortA`. -/
structure Rtc where
  currentTime : Timeval
  intervalMs : Word
  portA : Word

/-- The station with the clock and the contents of `nvramfile`. -/
structure XrBoard (D : Type) where
  station : XrStation D
  rtc : Rtc
  nvramFile : Option (List Byte)

/-- `NVRAM_GET_RTCOFFSET()`. -/
def nvramGetRtcOffset (nvram : Nat → Byte) : Word := zext (fun k => nvram (nvramRtcOffset + k)) 4

/-- `NVRAM_SET_RTCOFFSET(off)`, but for the mark. -/
def nvramSetRtcOffset (nvram : Nat → Byte) (off : Word) : Nat → Byte :=
  copyBytes nvram nvramRtcOffset (byteOf off) 4

/-- The citron ports of the clock, in branch 31. -/
inductive RtcPort where
  | cmd
  | portA
deriving DecidableEq

/-- Where the ports are on the bus. -/
def RtcPort.address : RtcPort → Nat
  | .cmd => 31 * 0x8000000 + 4 * 0x20
  | .portA => 31 * 0x8000000 + 4 * 0x21

/-- The port of the clock at an address; the bytes of a word are one port. -/
def rtcPort (address : Nat) : Option RtcPort :=
  if address / 4 = RtcPort.cmd.address / 4 then some .cmd
  else if address / 4 = RtcPort.portA.address / 4 then some .portA
  else none

section

variable {D : Type}

/-- The seconds of the host. -/
def Rtc.seconds (rtc : Rtc) : Word := BitVec.ofInt 32 rtc.currentTime.tvSec

/-- `RTCWriteCMD`, and whether it is `EBUSSUCCESS`. -/
def rtcWriteCmd (b : XrBoard D) (value : Word) : XrBoard D × Bool :=
  if value = 1 then ({ b with rtc := { b.rtc with intervalMs := b.rtc.portA } }, true)
  else if value = 2 then
    ({ b with
        rtc := { b.rtc with portA := b.rtc.seconds + nvramGetRtcOffset b.station.nvram } }, true)
  else if value = 3 then
    ({ b with
        rtc := { b.rtc with portA := BitVec.ofNat 32 (b.rtc.currentTime.tvUsec / 1000) } }, true)
  else if value = 4 then
    ({ b with
        station :=
          { b.station with
            nvram := nvramSetRtcOffset b.station.nvram (b.rtc.portA - b.rtc.seconds)
            nvramDirty := true } }, true)
  else if value = 5 then (b, true)
  else (b, false)

/-- `RTCWritePortA`. -/
def rtcWritePortA (b : XrBoard D) (value : Word) : XrBoard D :=
  { b with rtc := { b.rtc with portA := value } }

/-- `RTCReset`. -/
def rtcReset (b : XrBoard D) : XrBoard D :=
  { b with rtc := { b.rtc with intervalMs := 0, portA := 0 } }

variable [EBusDevices D]

/-- `EBusWrite` with the clock in its ports; `PBoardReset` resets the clock too. -/
def boardWrite (b : XrBoard D) (p : XrProcessor) (address : Nat) (src : Nat → Byte)
    (length : Nat) : EBusReply (XrBoard D) Bool :=
  match rtcPort address with
  | some .cmd =>
      let r := rtcWriteCmd b (wordOf src)
      ⟨r.1, p.progress, r.2⟩
  | some .portA => ⟨rtcWritePortA b (wordOf src), p.progress, true⟩
  | none =>
      let r := eBusWrite b.station p address src length
      let b := { b with station := r.bus }
      if address = 31 * 0x8000000 + 0x800000 ∧ length = 4 ∧ wordOf src = resetMagic then
        ⟨rtcReset b, r.progress, r.reply⟩
      else ⟨b, r.progress, r.reply⟩

/-- `EBusRead` with the clock in its ports. -/
def boardRead (b : XrBoard D) (p : XrProcessor) (address : Nat) (dest : Nat → Byte)
    (length : Nat) : EBusReply (XrBoard D) (Option (Nat → Byte)) :=
  match rtcPort address with
  | some .cmd => ⟨b, p.progress, some (copyBytes dest 0 (byteOf 0) 4)⟩
  | some .portA => ⟨b, p.progress, some (copyBytes dest 0 (byteOf b.rtc.portA) 4)⟩
  | none =>
      let r := eBusRead b.station p address dest length
      ⟨{ b with station := r.bus }, r.progress, r.reply⟩

/-! ## The file -/

/-- What `NVRAMLoadFile` makes of NVRAM: a short file is continued with zeros. -/
def nvramLoadFile (file : List Byte) : Nat → Byte := fun k =>
  if k < nvramSize then file.getD k 0 else 0

/-- `NVRAMSave`; it writes over the start of the file. -/
def nvramSave (b : XrBoard D) : XrBoard D :=
  match b.nvramFile with
  | none => b
  | some file =>
      if b.station.nvramDirty then
        { b with
          station := { b.station with nvramDirty := false }
          nvramFile := some ((List.range nvramSize).map b.station.nvram ++ file.drop nvramSize) }
      else b

/-- The emulator is started with this file: `NVRAMLoadFile`, then `RTCInit`. -/
def boardStart (station : XrStation D) (now : Timeval) (file : List Byte) : XrBoard D where
  station := { station with nvram := nvramLoadFile file, nvramDirty := false }
  rtc := ⟨now, 0, 0⟩
  nvramFile := some file

/-! ## Runs -/

/-- What happens to the board: accesses, `RTCUpdateRealTime`, the end of the emulator and a
new start of it with the same file, and everything that has nothing to do with NVRAM. -/
inductive XrBoardOp (D : Type) where
  | write (p : XrProcessor) (address : Nat) (src : Nat → Byte) (length : Nat)
  | read (p : XrProcessor) (address : Nat) (dest : Nat → Byte) (length : Nat)
  | updateRealTime (now : Timeval)
  | restart (station : XrStation D) (now : Timeval)
  | others (station : XrStation D)

inductive XrBoardStep : XrBoard D → XrBoardOp D → XrBoard D → Prop
  | write (b : XrBoard D) (p : XrProcessor) (address : Nat) (src : Nat → Byte) (length : Nat) :
      XrBoardStep b (.write p address src length) (boardWrite b p address src length).bus
  | read (b : XrBoard D) (p : XrProcessor) (address : Nat) (dest : Nat → Byte) (length : Nat) :
      XrBoardStep b (.read p address dest length) (boardRead b p address dest length).bus
  | updateRealTime (b : XrBoard D) (now : Timeval) :
      XrBoardStep b (.updateRealTime now) { b with rtc := { b.rtc with currentTime := now } }
  | restart (b : XrBoard D) (station : XrStation D) (now : Timeval) (file : List Byte)
      (saved : (nvramSave b).nvramFile = some file) :
      XrBoardStep b (.restart station now) (boardStart station now file)
  | others (b : XrBoard D) (station : XrStation D) (nvram : station.nvram = b.station.nvram)
      (dirty : station.nvramDirty = b.station.nvramDirty) :
      XrBoardStep b (.others station) { b with station := station }

inductive XrBoardReach : XrBoard D → Prop
  | start (station : XrStation D) (now : Timeval) (file : List Byte) :
      XrBoardReach (boardStart station now file)
  | step {b b' : XrBoard D} {op : XrBoardOp D} (h : XrBoardReach b) (step : XrBoardStep b op b') :
      XrBoardReach b'

/-- The steps from one state to another, each with `K`. -/
inductive XrBoardRun (K : XrBoardOp D → Prop) : XrBoard D → XrBoard D → Prop
  | refl (b : XrBoard D) : XrBoardRun K b b
  | step {b b' b'' : XrBoard D} {op : XrBoardOp D} (h : XrBoardRun K b b') (keeps : K op)
      (step : XrBoardStep b' op b'') : XrBoardRun K b b''

/-- The operation stores a byte of NVRAM: on the bus, or by setting the clock. -/
def XrBoardOp.Stores (k : Nat) : XrBoardOp D → Prop
  | .write _ address src length =>
      (address / 0x8000000 = 31 ∧ 0x1000 ≤ address % 0x8000000 ∧
        address % 0x8000000 - 0x1000 + length ≤ nvramSize ∧ address % 0x8000000 - 0x1000 ≤ k ∧
        k < address % 0x8000000 - 0x1000 + length) ∨
      (rtcPort address = some .cmd ∧ wordOf src = 4 ∧ nvramRtcOffset ≤ k ∧ k < nvramRtcOffset + 4)
  | _ => False

end

/-! ## The offset in NVRAM -/

variable {D : Type}

theorem nvramGet_set (nvram : Nat → Byte) (off : Word) :
    nvramGetRtcOffset (nvramSetRtcOffset nvram off) = off := by
  unfold nvramGetRtcOffset
  have hbytes : ∀ k, k < 4 → nvramSetRtcOffset nvram off (nvramRtcOffset + k) = byteOf off k :=
    fun k hk => copyBytes_of_lt hk
  rw [zext_congr hbytes, zext_byteOf]

/-! ## NVRAM and its file -/

/-- NVRAM is as it was, and if it was marked it still is. -/
def NvramSame {D : Type} (s s' : XrStation D) : Prop :=
  s'.nvram = s.nvram ∧ (s'.nvramDirty = s.nvramDirty ∨ s'.nvramDirty = true)

/-- These bytes were stored at an offset of the platform board. -/
structure NvramStored {D : Type} (s : XrStation D) (offset : Nat) (src : Nat → Byte) (length : Nat)
    (s' : XrStation D) : Prop where
  starts : 0x1000 ≤ offset
  fits : offset - 0x1000 + length ≤ nvramSize
  nvram : s'.nvram = copyBytes s.nvram (offset - 0x1000) src length
  dirty : s'.nvramDirty = true

theorem pBoardWrite_nvram [EBusDevices D] (s : XrStation D) (p : XrProcessor) (offset : Nat)
    (src : Nat → Byte) (length : Nat) :
    NvramSame s (pBoardWrite s p offset src length).bus ∨
      NvramStored s offset src length (pBoardWrite s p offset src length).bus := by
  have hsame : ∀ s' : XrStation D, s'.nvram = s.nvram → s'.nvramDirty = s.nvramDirty →
      NvramSame s s' := fun s' hn hd => ⟨hn, .inl hd⟩
  unfold pBoardWrite
  split
  · split
    · exact .inl (hsame _ rfl rfl)
    · exact .inl (hsame _ rfl rfl)
  split
  · exact .inl (hsame _ rfl rfl)
  split
  · next hwindow =>
      by_cases hout : offset - 0x1000 + length > nvramSize
      · simp only [if_pos hout]
        exact .inl ⟨rfl, .inr rfl⟩
      · simp only [if_neg hout]
        refine .inr ⟨hwindow.1, ?_, ?_, ?_⟩
        · exact Nat.le_of_not_lt hout
        · dsimp only
        · rfl
  split
  · repeat' split
    all_goals exact .inl (hsame _ rfl rfl)
  split
  · split
    · rcases s.lsicReply_write p ((offset - 0x30000) / 4) (wordOf src) with h | ⟨lsic, h⟩
      · rw [h]
        exact .inl (hsame _ rfl rfl)
      · rw [h]
        exact .inl (hsame _ rfl rfl)
    · exact .inl (hsame _ rfl rfl)
  · repeat' split
    all_goals exact .inl (hsame _ rfl rfl)

/-- What a write on the bus does to NVRAM. -/
theorem eBusWrite_nvram [EBusDevices D] (s : XrStation D) (p : XrProcessor) (address : Nat)
    (src : Nat → Byte) (length : Nat) :
    NvramSame s (eBusWrite s p address src length).bus ∨
      (address / 0x8000000 = 31 ∧ NvramStored s (address % 0x8000000) src length
        (eBusWrite s p address src length).bus) := by
  unfold eBusWrite
  extract_lets branch offset
  split
  · split
    · exact .inl ⟨rfl, .inl rfl⟩
    · exact .inl ⟨rfl, .inl rfl⟩
  split
  · split
    · exact .inl ⟨rfl, .inl rfl⟩
    · exact .inl ⟨rfl, .inl rfl⟩
  split
  · next h31 => exact (pBoardWrite_nvram s p offset src length).imp_right fun h => ⟨h31, h⟩
  · exact .inl ⟨rfl, .inl rfl⟩

theorem eBusRead_nvram [EBusDevices D] (s : XrStation D) (p : XrProcessor) (address : Nat)
    (dest : Nat → Byte) (length : Nat) :
    NvramSame s (eBusRead s p address dest length).bus := by
  unfold eBusRead pBoardRead
  extract_lets branch offset
  repeat' split
  all_goals exact ⟨rfl, .inl rfl⟩

/-- What a step other than a restart does to NVRAM. -/
structure NvramStep {D : Type} (b : XrBoard D) (op : XrBoardOp D) (b' : XrBoard D) : Prop where
  file : b'.nvramFile = b.nvramFile
  kept : ∀ k, ¬op.Stores k → b'.station.nvram k = b.station.nvram k
  marked : b'.station.nvramDirty = true ∨
    b'.station.nvram = b.station.nvram ∧ b'.station.nvramDirty = b.station.nvramDirty

theorem NvramSame.step {b b' : XrBoard D} {op : XrBoardOp D}
    (h : NvramSame b.station b'.station) (file : b'.nvramFile = b.nvramFile) :
    NvramStep b op b' := by
  obtain ⟨hnvram, hdirty⟩ := h
  refine ⟨file, fun k _ => congrFun hnvram k, ?_⟩
  rcases hdirty with hdirty | hdirty
  · exact .inr ⟨hnvram, hdirty⟩
  · exact .inl hdirty

theorem NvramSame.refl (s : XrStation D) : NvramSame s s := ⟨rfl, .inl rfl⟩

/-- Only command 4 changes NVRAM. -/
theorem rtcWriteCmd_nvram (b : XrBoard D) (value : Word) :
    (rtcWriteCmd b value).1.nvramFile = b.nvramFile ∧
      (NvramSame b.station (rtcWriteCmd b value).1.station ∨
        value = 4 ∧ (rtcWriteCmd b value).1.station.nvramDirty = true ∧
          (rtcWriteCmd b value).1.station.nvram =
            nvramSetRtcOffset b.station.nvram (b.rtc.portA - b.rtc.seconds)) := by
  unfold rtcWriteCmd
  split
  · exact ⟨rfl, .inl (.refl _)⟩
  split
  · exact ⟨rfl, .inl (.refl _)⟩
  split
  · exact ⟨rfl, .inl (.refl _)⟩
  split
  · next h4 => exact ⟨rfl, .inr ⟨h4, rfl, rfl⟩⟩
  split
  · exact ⟨rfl, .inl (.refl _)⟩
  · exact ⟨rfl, .inl (.refl _)⟩

section

variable [EBusDevices D] {b b' : XrBoard D} {op : XrBoardOp D}

theorem boardWrite_nvram (b : XrBoard D) (p : XrProcessor) (address : Nat) (src : Nat → Byte)
    (length : Nat) :
    NvramStep b (.write p address src length) (boardWrite b p address src length).bus := by
  unfold boardWrite
  cases hport : rtcPort address with
  | none =>
      have hwrite := eBusWrite_nvram b.station p address src length
      have hstep : NvramStep b (.write p address src length)
          { b with station := (eBusWrite b.station p address src length).bus } := by
        rcases hwrite with hsame | ⟨h31, hstored⟩
        · exact hsame.step rfl
        · refine ⟨rfl, fun k hk => ?_, .inl hstored.dirty⟩
          have hnot : ¬(address % 0x8000000 - 0x1000 ≤ k ∧
              k < address % 0x8000000 - 0x1000 + length) := fun hin =>
            hk (.inl ⟨h31, hstored.starts, hstored.fits, hin⟩)
          exact (congrFun hstored.nvram k).trans (copyBytes_of_not hnot)
      dsimp only
      split
      · exact ⟨hstep.file, hstep.kept, hstep.marked⟩
      · exact hstep
  | some port =>
      cases port with
      | cmd =>
          obtain ⟨hfile, hsame | ⟨h4, hdirty, hnvram⟩⟩ := rtcWriteCmd_nvram b (wordOf src)
          · exact hsame.step hfile
          · refine ⟨hfile, fun k hk => ?_, .inl hdirty⟩
            have hnot : ¬(nvramRtcOffset ≤ k ∧ k < nvramRtcOffset + 4) := fun hin =>
              hk (.inr ⟨hport, h4, hin⟩)
            exact (congrFun hnvram k).trans (copyBytes_of_not hnot)
      | portA => exact NvramSame.step (NvramSame.refl b.station) rfl

theorem boardRead_nvram (b : XrBoard D) (p : XrProcessor) (address : Nat) (dest : Nat → Byte)
    (length : Nat) :
    NvramStep b (.read p address dest length) (boardRead b p address dest length).bus := by
  unfold boardRead
  split
  · exact (NvramSame.refl b.station).step rfl
  · exact (NvramSame.refl b.station).step rfl
  · exact (eBusRead_nvram b.station p address dest length).step rfl

/-- A step stores what it is said to store, or it starts the emulator again. -/
theorem XrBoardStep.nvram (h : XrBoardStep b op b') :
    NvramStep b op b' ∨
      ∃ station now file, b' = boardStart station now file ∧
        (nvramSave b).nvramFile = some file := by
  cases h with
  | write p address src length => exact .inl (boardWrite_nvram b p address src length)
  | read p address dest length => exact .inl (boardRead_nvram b p address dest length)
  | updateRealTime now => exact .inl (NvramSame.step (NvramSame.refl b.station) rfl)
  | restart station now file saved => exact .inr ⟨station, now, file, rfl, saved⟩
  | others station nvram dirty => exact .inl (NvramSame.step ⟨nvram, .inl dirty⟩ rfl)

/-- Unless it is marked, NVRAM is what a start would make of the file. -/
def XrBoard.Saved (b : XrBoard D) : Prop :=
  ∃ file, b.nvramFile = some file ∧
    (b.station.nvramDirty = false →
      ∀ k, k < nvramSize → b.station.nvram k = nvramLoadFile file k)

omit [EBusDevices D] in
/-- What is saved now is what is loaded at the next start. -/
theorem nvramSave_load {file : List Byte} (h : b.Saved)
    (hsaved : (nvramSave b).nvramFile = some file) {k : Nat} (hk : k < nvramSize) :
    nvramLoadFile file k = b.station.nvram k := by
  obtain ⟨old, hold, hclean⟩ := h
  unfold nvramSave at hsaved
  rw [hold] at hsaved
  by_cases hdirty : b.station.nvramDirty = true
  · simp only [hdirty, if_true] at hsaved
    obtain rfl := Option.some.inj hsaved
    unfold nvramLoadFile
    have hlength : k < ((List.range nvramSize).map b.station.nvram).length := by
      rw [List.length_map, List.length_range]
      exact hk
    rw [if_pos hk, List.getD_eq_getElem?_getD, List.getElem?_append_left hlength]
    simp [hk]
  · simp only [hdirty, if_false, Bool.false_eq_true] at hsaved
    obtain rfl := Option.some.inj (hold.symm.trans hsaved)
    exact (hclean (Bool.eq_false_of_not_eq_true hdirty) k hk).symm

omit [EBusDevices D] in
theorem boardStart_saved (station : XrStation D) (now : Timeval) (file : List Byte) :
    (boardStart station now file).Saved :=
  ⟨file, rfl, fun _ _ _ => rfl⟩

theorem XrBoard.Saved.step (h : b.Saved) (hstep : XrBoardStep b op b') : b'.Saved := by
  rcases hstep.nvram with hn | ⟨station, now, file, rfl, -⟩
  · obtain ⟨file, hfile, hclean⟩ := h
    refine ⟨file, hn.file.trans hfile, fun hdirty k hk => ?_⟩
    rcases hn.marked with hmarked | ⟨hnvram, hsame⟩
    · rw [hmarked] at hdirty
      cases hdirty
    · rw [hnvram]
      exact hclean (hsame ▸ hdirty) k hk
  · exact boardStart_saved station now file

theorem XrBoardReach.saved (h : XrBoardReach b) : b.Saved := by
  induction h with
  | start station now file => exact boardStart_saved station now file
  | step h step ih => exact ih.step step

/-- A byte of NVRAM that a step does not store is as it was, after a restart too. -/
theorem XrBoardStep.kept (h : XrBoardStep b op b') (hsaved : b.Saved) {k : Nat}
    (hk : k < nvramSize) (hop : ¬op.Stores k) : b'.station.nvram k = b.station.nvram k := by
  rcases h.nvram with hn | ⟨station, now, file, rfl, hfile⟩
  · exact hn.kept k hop
  · exact nvramSave_load hsaved hfile hk

/-- NVRAM stays saved, and a byte that is not stored is as it was. -/
theorem XrBoardRun.nvram {k : Nat} (hk : k < nvramSize) (hsaved : b.Saved)
    (h : XrBoardRun (fun op => ¬op.Stores k) b b') :
    b'.Saved ∧ b'.station.nvram k = b.station.nvram k := by
  induction h with
  | refl => exact ⟨hsaved, rfl⟩
  | step h keeps step ih =>
      obtain ⟨hsaved', hsame⟩ := ih
      exact ⟨hsaved'.step step, (step.kept hsaved' hk keeps).trans hsame⟩

/-- NVRAM survives: in every run, through any number of restarts, a byte is what was last
stored in it. -/
theorem nvram_survives {k : Nat} (hk : k < nvramSize) (hreach : XrBoardReach b)
    (h : XrBoardRun (fun op => ¬op.Stores k) b b') : b'.station.nvram k = b.station.nvram k :=
  (h.nvram hk hreach.saved).2

/-- A byte that is stored in NVRAM is there after a restart. -/
theorem nvram_survives_restart :
    let b : XrBoard Unit := boardStart (stationOf 0x400000) ⟨50, 0⟩ []
    let b' := (boardWrite b (XrProcessor.zeroed 0) 0xF8001010 (byteOf 0xAA) 1).bus
    ∃ file, (nvramSave b').nvramFile = some file ∧
      (boardStart (stationOf 0x400000) ⟨70, 0⟩ file).station.nvram 0x10 = 0xAA := by
  intro b b'
  have hreach : XrBoardReach b' := XrBoardReach.step (.start (stationOf 0x400000) ⟨50, 0⟩ [])
    (.write b (XrProcessor.zeroed 0) 0xF8001010 (byteOf 0xAA) 1)
  obtain ⟨file, hfile⟩ : ∃ file, (nvramSave b').nvramFile = some file := ⟨_, rfl⟩
  refine ⟨file, hfile, ?_⟩
  have hrun : XrBoardRun (fun op => ¬op.Stores 0x10) b'
      (boardStart (stationOf 0x400000) ⟨70, 0⟩ file) :=
    .step (.refl _) id (.restart b' (stationOf 0x400000) ⟨70, 0⟩ file hfile)
  exact (nvram_survives (by decide) hreach hrun).trans (by decide)

/-! ## The clock -/

/-- What the guest reads after command 2. -/
def XrBoard.epoch (b : XrBoard D) : Word := b.rtc.seconds + nvramGetRtcOffset b.station.nvram

theorem rtcPort_address (port : RtcPort) : rtcPort port.address = some port := by
  cases port <;> rfl

/-- The guest reads the clock: command 2, then port A. -/
def readEpoch (b : XrBoard D) (p : XrProcessor) : Option Word :=
  let b := (boardWrite b p RtcPort.cmd.address (byteOf 2) 4).bus
  (boardRead b p RtcPort.portA.address (fun _ => 0) 4).reply.map wordOf

/-- The guest sets the clock: port A, then command 4. -/
def setEpoch (b : XrBoard D) (p : XrProcessor) (epoch : Word) : XrBoard D :=
  let b := (boardWrite b p RtcPort.portA.address (byteOf epoch) 4).bus
  (boardWrite b p RtcPort.cmd.address (byteOf 4) 4).bus

/-- A word that a read leaves in a register. -/
theorem wordOf_copyBytes (dest : Nat → Byte) (v : Word) :
    wordOf (copyBytes dest 0 (byteOf v) 4) = v := by
  have hbytes : ∀ k, k < 4 → copyBytes dest 0 (byteOf v) 4 k = byteOf v k := by
    intro k hk
    have hat := @copyBytes_of_lt dest (byteOf v) 0 4 k hk
    rwa [Nat.zero_add] at hat
  unfold wordOf
  rw [zext_congr hbytes, zext_byteOf]

theorem readEpoch_eq (b : XrBoard D) (p : XrProcessor) : readEpoch b p = some b.epoch := by
  have hcmd : wordOf (byteOf 2) = 2 := zext_byteOf 2
  simp only [readEpoch, boardWrite, boardRead, rtcPort_address, hcmd, rtcWriteCmd]
  exact congrArg some (wordOf_copyBytes _ b.epoch)

theorem setEpoch_epoch (b : XrBoard D) (p : XrProcessor) (epoch : Word) :
    (setEpoch b p epoch).epoch = epoch ∧ (setEpoch b p epoch).rtc.seconds = b.rtc.seconds := by
  have hport : wordOf (byteOf epoch) = epoch := zext_byteOf epoch
  have hcmd : wordOf (byteOf 4) = 4 := zext_byteOf 4
  simp only [setEpoch, boardWrite, rtcPort_address, hport, hcmd, rtcWritePortA, rtcWriteCmd]
  refine ⟨?_, rfl⟩
  simp only [XrBoard.epoch]
  rw [if_neg (by decide), if_neg (by decide), if_neg (by decide), if_pos trivial]
  dsimp only
  rw [nvramGet_set, BitVec.add_comm]
  exact BitVec.sub_add_cancel _ _

theorem setEpoch_reach (hreach : XrBoardReach b) (p : XrProcessor) (epoch : Word) :
    XrBoardReach (setEpoch b p epoch) := by
  have hport := hreach.step (.write b p RtcPort.portA.address (byteOf epoch) 4)
  exact hport.step (.write _ p RtcPort.cmd.address (byteOf 4) 4)

/-- A step that leaves alone the bytes where the offset is. -/
def XrBoardOp.SparesClock (op : XrBoardOp D) : Prop :=
  ∀ k, nvramRtcOffset ≤ k → k < nvramRtcOffset + 4 → ¬op.Stores k

theorem XrBoardRun.mono {K K' : XrBoardOp D → Prop} (hK : ∀ op, K op → K' op)
    (h : XrBoardRun K b b') : XrBoardRun K' b b' := by
  induction h with
  | refl => exact .refl _
  | step h keeps step ih => exact .step ih (hK _ keeps) step

theorem XrBoardRun.offset (hreach : XrBoardReach b) (h : XrBoardRun XrBoardOp.SparesClock b b') :
    nvramGetRtcOffset b'.station.nvram = nvramGetRtcOffset b.station.nvram := by
  refine zext_congr fun k hk => ?_
  have hsize : nvramRtcOffset + k < nvramSize :=
    Nat.lt_trans (Nat.add_lt_add_left hk nvramRtcOffset) (by decide)
  have hbyte : XrBoardRun (fun op => ¬op.Stores (nvramRtcOffset + k)) b b' :=
    h.mono fun op hop => hop _ (Nat.le_add_right _ _) (Nat.add_lt_add_left hk _)
  exact (hbyte.nvram hsize hreach.saved).2

/-- The clock runs on: whenever the guest has set it and nothing is stored over the offset,
the guest reads the time it has set and what has passed on the host, modulo 2^32, whatever
else is done on the bus and however often the emulator is restarted. -/
theorem clock_runs_on (p p' : XrProcessor) (epoch : Word) (hreach : XrBoardReach b)
    (h : XrBoardRun XrBoardOp.SparesClock (setEpoch b p epoch) b') :
    readEpoch b' p' = some (epoch + (b'.rtc.seconds - b.rtc.seconds)) := by
  obtain ⟨hset, hseconds⟩ := setEpoch_epoch b p epoch
  have hoffset := h.offset (setEpoch_reach hreach p epoch)
  have hwas : ∀ off, b.rtc.seconds + off = epoch → off = epoch - b.rtc.seconds := by
    intro off hoff
    rw [← hoff, BitVec.add_comm, BitVec.add_sub_cancel]
  rw [XrBoard.epoch, hseconds] at hset
  rw [readEpoch_eq]
  unfold XrBoard.epoch
  rw [hoffset, hwas _ hset]
  congr 1
  rw [BitVec.sub_eq_add_neg, BitVec.sub_eq_add_neg]
  ac_rfl

end

/-- A clock that is set to 1000 at the host's 50, and read at 70 after a restart. -/
theorem clock_runs_on_restart :
    let b : XrBoard Unit := boardStart (stationOf 0x400000) ⟨50, 0⟩ []
    let b' : XrBoard Unit := setEpoch b (XrProcessor.zeroed 0) 1000
    ∃ file, (nvramSave b').nvramFile = some file ∧
      readEpoch (boardStart (stationOf 0x400000) ⟨70, 0⟩ file) (XrProcessor.zeroed 0) =
        some 1020 := by
  intro b b'
  have hreach : XrBoardReach b := .start (stationOf 0x400000) ⟨50, 0⟩ []
  obtain ⟨file, hfile⟩ : ∃ file, (nvramSave b').nvramFile = some file := ⟨_, rfl⟩
  refine ⟨file, hfile, ?_⟩
  have hrun : XrBoardRun XrBoardOp.SparesClock b' (boardStart (stationOf 0x400000) ⟨70, 0⟩ file) :=
    .step (.refl _) (fun k _ _ => id) (.restart b' (stationOf 0x400000) ⟨70, 0⟩ file hfile)
  have hpassed : (1000 : Word) + (BitVec.ofInt 32 70 - BitVec.ofInt 32 50) = 1020 := by decide
  exact (clock_runs_on (XrProcessor.zeroed 0) (XrProcessor.zeroed 0) 1000 hreach hrun).trans
    (congrArg some hpassed)

end Xremu
