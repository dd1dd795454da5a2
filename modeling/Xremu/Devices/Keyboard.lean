import Mathlib.Data.Fintype.Card
import Mathlib.Data.List.FinRange
import Xremu.Lists.Log

/-!
# The keyboard

`KeyboardPressed` and `KeyboardReleased` note an event of a key in one of two arrays, and
the guest takes the events one at a time with command 1 of `KeyboardAction`. Two events of
a key that are not taken are not kept in their order: a pop that finds a release discards
the press.

What the guest will have seen of a key once it has popped everything, `owed`, is fixed at
the time of the last event. It is the state of the key unless that event was a press made
over a release that was still outstanding.
-/

namespace Xremu

/-- The scancodes that `KeyMap` lists; every other one is `other`. -/
inductive SdlScancode where
  | a | b | c | d | e | f | g | h | i | j | k | l | m
  | n | o | p | q | r | s | t | u | v | w | x | y | z
  | d0 | d1 | d2 | d3 | d4 | d5 | d6 | d7 | d8 | d9
  | semicolon | space | tab
  | minus | equals | leftBracket | rightBracket | backslash | nonUsHash
  | slash | period | apostrophe | comma | grave
  | return | backspace | capsLock | escape
  | left | right | down | up
  | lCtrl | rCtrl | lShift | rShift | lAlt | rAlt
  | kpDivide | kpMinus | kpEnter
  | kp0 | kp1 | kp2 | kp3 | kp4 | kp5 | kp6 | kp7 | kp8 | kp9 | kpPeriod
  | other
deriving DecidableEq

/-- `KeyMap[scancode].code`. -/
def keyMap : SdlScancode → Nat
  | .a => 0x01 | .b => 0x02 | .c => 0x03 | .d => 0x04 | .e => 0x05 | .f => 0x06
  | .g => 0x07 | .h => 0x08 | .i => 0x09 | .j => 0x0A | .k => 0x0B | .l => 0x0C
  | .m => 0x0D | .n => 0x0E | .o => 0x0F | .p => 0x10 | .q => 0x11 | .r => 0x12
  | .s => 0x13 | .t => 0x14 | .u => 0x15 | .v => 0x16 | .w => 0x17 | .x => 0x18
  | .y => 0x19 | .z => 0x1A
  | .d0 => 0x1B | .d1 => 0x1C | .d2 => 0x1D | .d3 => 0x1E | .d4 => 0x1F
  | .d5 => 0x20 | .d6 => 0x21 | .d7 => 0x22 | .d8 => 0x23 | .d9 => 0x24
  | .semicolon => 0x25 | .space => 0x26 | .tab => 0x27
  | .minus => 0x28 | .equals => 0x29 | .leftBracket => 0x2A | .rightBracket => 0x2B
  | .backslash => 0x2C | .nonUsHash => 0x2C
  | .slash => 0x2E | .period => 0x2F | .apostrophe => 0x30 | .comma => 0x31
  | .grave => 0x32
  | .return => 0x33 | .backspace => 0x34 | .capsLock => 0x35 | .escape => 0x36
  | .left => 0x37 | .right => 0x38 | .down => 0x39 | .up => 0x3A
  | .lCtrl => 0x51 | .rCtrl => 0x52 | .lShift => 0x53 | .rShift => 0x54
  | .lAlt => 0x55 | .rAlt => 0x56
  | .kpDivide => 0x2E | .kpMinus => 0x28 | .kpEnter => 0x33
  | .kp0 => 0x1B | .kp1 => 0x1C | .kp2 => 0x1D | .kp3 => 0x1E | .kp4 => 0x1F
  | .kp5 => 0x20 | .kp6 => 0x21 | .kp7 => 0x22 | .kp8 => 0x23 | .kp9 => 0x24
  | .kpPeriod => 0x2F
  | .other => 0

/-- An index of the arrays of `KEYBDMAXCODE + 1` keys. -/
abbrev KeyCode := Fin 86

/-- Every code of the table fits the arrays. -/
theorem keyMap_le (scancode : SdlScancode) : keyMap scancode ≤ 86 := by
  cases scancode <;> decide

/-- The key of a scancode, `code - 1`, if it has one. -/
def keyIndex (scancode : SdlScancode) : Option KeyCode :=
  if h : keyMap scancode = 0 then none
  else some ⟨keyMap scancode - 1, by have hle := keyMap_le scancode; omega⟩

/-- The keyboard's `AmtsuDevice` and its arrays. -/
structure Keyboard where
  portAValue : BitVec 32
  interruptNumber : Nat
  outstandingPressed : KeyCode → Bool
  outstandingReleased : KeyCode → Bool
  pressed : KeyCode → Bool

def keyboardReset (dev : Keyboard) : Keyboard :=
  { dev with
    portAValue := 0xFFFF
    outstandingPressed := fun _ => false
    outstandingReleased := fun _ => false
    pressed := fun _ => false }

/-- The scancode that a pop returns for a press. -/
def pressEvent (key : KeyCode) : BitVec 32 := BitVec.ofNat 32 key.val

def releaseEvent (key : KeyCode) : BitVec 32 := BitVec.ofNat 32 key.val ||| 0x8000

/-- The loop of the pop command over the keys that are left, and whether it calls
`XrDecrementProgress`. -/
def keyboardPop : List KeyCode → Keyboard → Keyboard × Bool
  | [], dev => ({ dev with portAValue := 0xFFFF }, true)
  | key :: keys, dev =>
      if dev.outstandingReleased key then
        ({ dev with
            portAValue := releaseEvent key
            outstandingReleased := Function.update dev.outstandingReleased key false
            outstandingPressed := Function.update dev.outstandingPressed key false }, false)
      else if dev.outstandingPressed key then
        ({ dev with
            portAValue := pressEvent key
            outstandingPressed := Function.update dev.outstandingPressed key false }, false)
      else keyboardPop keys dev

/-- `KeyboardAction`, and whether it calls `XrDecrementProgress`. -/
def keyboardAction (dev : Keyboard) (value : BitVec 32) : Keyboard × Bool :=
  if value = 1 then keyboardPop (List.finRange 86) dev
  else if value = 2 then (keyboardReset dev, false)
  else if value = 3 then
    if h : dev.portAValue.toNat ≤ 85 then
      if dev.pressed ⟨dev.portAValue.toNat, by omega⟩ then
        ({ dev with portAValue := 1 }, false)
      else ({ dev with portAValue := 0 }, true)
    else ({ dev with portAValue := 0 }, false)
  else (dev, false)

/-- `KeyboardPressed`, and the interrupt it raises. -/
def keyboardPressed (scancode : SdlScancode) (dev : Keyboard) : Keyboard × Option Nat :=
  match keyIndex scancode with
  | none => (dev, none)
  | some key =>
      ({ dev with
          outstandingPressed := Function.update dev.outstandingPressed key true
          pressed := Function.update dev.pressed key true },
        if dev.interruptNumber = 0 then none else some dev.interruptNumber)

/-- `KeyboardReleased`, and the interrupt it raises. -/
def keyboardReleased (scancode : SdlScancode) (dev : Keyboard) : Keyboard × Option Nat :=
  match keyIndex scancode with
  | none => (dev, none)
  | some key =>
      ({ dev with
          outstandingReleased := Function.update dev.outstandingReleased key true
          pressed := Function.update dev.pressed key false },
        if dev.interruptNumber = 0 then none else some dev.interruptNumber)

/-! ## What one pop does -/

/-- A pop reports a release, reports a press of a key that has no release outstanding, or
finds no event. -/
inductive Popped (dev : Keyboard) : Keyboard × Bool → Prop
  | released (key : KeyCode) (out : dev.outstandingReleased key = true) :
      Popped dev
        ({ dev with
            portAValue := releaseEvent key
            outstandingReleased := Function.update dev.outstandingReleased key false
            outstandingPressed := Function.update dev.outstandingPressed key false }, false)
  | pressed (key : KeyCode) (kept : dev.outstandingReleased key = false)
      (out : dev.outstandingPressed key = true) :
      Popped dev
        ({ dev with
            portAValue := pressEvent key
            outstandingPressed := Function.update dev.outstandingPressed key false }, false)
  | empty (none : ∀ key, dev.outstandingReleased key = false ∧
        dev.outstandingPressed key = false) :
      Popped dev ({ dev with portAValue := 0xFFFF }, true)

theorem keyboardPop_popped {dev : Keyboard} (keys : List KeyCode)
    (hrest : ∀ key, key ∉ keys →
      dev.outstandingReleased key = false ∧ dev.outstandingPressed key = false) :
    Popped dev (keyboardPop keys dev) := by
  induction keys with
  | nil => exact .empty fun key => hrest key (List.not_mem_nil)
  | cons key keys ih =>
      unfold keyboardPop
      by_cases hreleased : dev.outstandingReleased key = true
      · rw [if_pos hreleased]
        exact .released key hreleased
      · rw [if_neg hreleased]
        rw [Bool.not_eq_true] at hreleased
        by_cases hpressed : dev.outstandingPressed key = true
        · rw [if_pos hpressed]
          exact .pressed key hreleased hpressed
        · rw [if_neg hpressed]
          rw [Bool.not_eq_true] at hpressed
          refine ih fun other hother => ?_
          by_cases hkey : other = key
          · rw [hkey]
            exact ⟨hreleased, hpressed⟩
          · exact hrest other (by simp [hkey, hother])

theorem keyboardAction_pop (dev : Keyboard) : Popped dev (keyboardAction dev 1) :=
  keyboardPop_popped _ fun key hkey => absurd (List.mem_finRange key) hkey

theorem releaseEvent_toNat (key : KeyCode) : (releaseEvent key).toNat = key.val + 32768 := by
  revert key
  decide

theorem pressEvent_toNat (key : KeyCode) : (pressEvent key).toNat = key.val := by
  revert key
  decide

/-! ## Runs and what the guest sees -/

inductive KeyboardOp where
  | pressed (scancode : SdlScancode)
  | released (scancode : SdlScancode)
  | pop

/-- The key an event is about. -/
def KeyboardOp.key : KeyboardOp → Option KeyCode
  | .pressed scancode => keyIndex scancode
  | .released scancode => keyIndex scancode
  | .pop => none

/-- The device, and what the pops have returned so far. -/
structure KeyboardRun where
  device : Keyboard
  given : List (BitVec 32)

def KeyboardRun.step (r : KeyboardRun) : KeyboardOp → KeyboardRun
  | .pressed scancode => { r with device := (keyboardPressed scancode r.device).1 }
  | .released scancode => { r with device := (keyboardReleased scancode r.device).1 }
  | .pop =>
      let device := (keyboardAction r.device 1).1
      ⟨device, r.given ++ [device.portAValue]⟩

/-- The run of `ops` after a reset. -/
def keyboardRun (dev : Keyboard) (ops : List KeyboardOp) : KeyboardRun :=
  ops.foldl KeyboardRun.step ⟨keyboardReset dev, []⟩

/-- The guest takes the key to be down or up by the last event it was given for it. -/
def seeEvent (key : KeyCode) (down : Bool) (event : BitVec 32) : Bool :=
  if event = pressEvent key then true
  else if event = releaseEvent key then false
  else down

/-- Does the guest take the key to be down? -/
def seenDown (given : List (BitVec 32)) (key : KeyCode) : Bool :=
  given.foldl (seeEvent key) false

theorem keyboardRun_snoc (dev : Keyboard) (ops : List KeyboardOp) (op : KeyboardOp) :
    keyboardRun dev (ops ++ [op]) = (keyboardRun dev ops).step op := by
  simp [keyboardRun]

theorem seenDown_snoc (given : List (BitVec 32)) (event : BitVec 32) (key : KeyCode) :
    seenDown (given ++ [event]) key = seeEvent key (seenDown given key) event := by
  simp [seenDown]

theorem seeEvent_press (key other : KeyCode) (down : Bool) :
    seeEvent key down (pressEvent other) = if other = key then true else down := by
  have hval : pressEvent other = pressEvent key ↔ other = key := by
    rw [← BitVec.toNat_inj, pressEvent_toNat, pressEvent_toNat, Fin.ext_iff]
  have hkind : pressEvent other ≠ releaseEvent key := by
    rw [ne_eq, ← BitVec.toNat_inj, pressEvent_toNat, releaseEvent_toNat]
    omega
  simp [seeEvent, hval, hkind]

theorem seeEvent_release (key other : KeyCode) (down : Bool) :
    seeEvent key down (releaseEvent other) = if other = key then false else down := by
  have hval : releaseEvent other = releaseEvent key ↔ other = key := by
    rw [← BitVec.toNat_inj, releaseEvent_toNat, releaseEvent_toNat, Fin.ext_iff]
    omega
  have hkind : releaseEvent other ≠ pressEvent key := by
    rw [ne_eq, ← BitVec.toNat_inj, pressEvent_toNat, releaseEvent_toNat]
    omega
  simp [seeEvent, hval, hkind]

theorem seeEvent_empty (key : KeyCode) (down : Bool) : seeEvent key down 65535#32 = down := by
  have hpress : 65535#32 ≠ pressEvent key := by
    rw [ne_eq, ← BitVec.toNat_inj, pressEvent_toNat]
    simp
    omega
  have hrelease : 65535#32 ≠ releaseEvent key := by
    rw [ne_eq, ← BitVec.toNat_inj, releaseEvent_toNat]
    simp
    omega
  unfold seeEvent
  rw [if_neg hpress, if_neg hrelease]

/-- What the guest will take the key to be once it has popped every event. -/
def KeyboardRun.owed (r : KeyboardRun) (key : KeyCode) : Bool :=
  if r.device.outstandingReleased key then false
  else if r.device.outstandingPressed key then true
  else seenDown r.given key

/-- Popping does not change what is owed: it only hands it over. -/
theorem KeyboardRun.owed_pop (r : KeyboardRun) (key : KeyCode) :
    (r.step .pop).owed key = r.owed key := by
  have hpop := keyboardAction_pop r.device
  simp only [KeyboardRun.owed, KeyboardRun.step, seenDown_snoc]
  generalize keyboardAction r.device 1 = out at hpop
  cases hpop with
  | released other out =>
      by_cases hkey : key = other
      · subst hkey
        simp [seeEvent_release, out]
      · simp [seeEvent_release, Function.update_of_ne hkey, Ne.symm hkey]
  | pressed other kept out =>
      by_cases hkey : key = other
      · subst hkey
        simp [seeEvent_press, kept, out]
      · simp [seeEvent_press, Function.update_of_ne hkey, Ne.symm hkey]
  | empty none => simp [seeEvent_empty, (none key).1, (none key).2]

theorem KeyboardRun.owed_pressed (r : KeyboardRun) {scancode : SdlScancode} {key : KeyCode}
    (hkey : keyIndex scancode = some key) :
    (r.step (.pressed scancode)).owed key = !r.device.outstandingReleased key := by
  cases hout : r.device.outstandingReleased key <;>
    simp [KeyboardRun.owed, KeyboardRun.step, keyboardPressed, hkey, hout]

theorem KeyboardRun.owed_released (r : KeyboardRun) {scancode : SdlScancode} {key : KeyCode}
    (hkey : keyIndex scancode = some key) :
    (r.step (.released scancode)).owed key = false := by
  simp [KeyboardRun.owed, KeyboardRun.step, keyboardReleased, hkey]

/-- An event of another key, or a pop, leaves what is owed and the state of the key. -/
theorem KeyboardRun.step_other (r : KeyboardRun) {op : KeyboardOp} {key : KeyCode}
    (hkey : op.key ≠ some key) :
    (r.step op).owed key = r.owed key ∧
      (r.step op).device.pressed key = r.device.pressed key := by
  cases op with
  | pressed scancode =>
      cases hcode : keyIndex scancode with
      | none => simp [KeyboardRun.owed, KeyboardRun.step, keyboardPressed, hcode]
      | some other =>
          have hne : key ≠ other := fun h => hkey (by rw [h]; exact hcode)
          simp [KeyboardRun.owed, KeyboardRun.step, keyboardPressed, hcode, hne]
  | released scancode =>
      cases hcode : keyIndex scancode with
      | none => simp [KeyboardRun.owed, KeyboardRun.step, keyboardReleased, hcode]
      | some other =>
          have hne : key ≠ other := fun h => hkey (by rw [h]; exact hcode)
          simp [KeyboardRun.owed, KeyboardRun.step, keyboardReleased, hcode, hne]
  | pop =>
      refine ⟨r.owed_pop key, ?_⟩
      have hpop := keyboardAction_pop r.device
      simp only [KeyboardRun.step]
      generalize keyboardAction r.device 1 = out at hpop
      cases hpop <;> rfl

/-! ## The last event of a key -/

/-- The last event of the key is a press made while its release was outstanding. -/
def PressedOverRelease (dev : Keyboard) (ops : List KeyboardOp) (key : KeyCode) : Prop :=
  ∃ before scancode after, ops = before ++ .pressed scancode :: after ∧
    keyIndex scancode = some key ∧
    (keyboardRun dev before).device.outstandingReleased key = true ∧
    ∀ op ∈ after, KeyboardOp.key op ≠ some key

theorem pressedOverRelease_snoc_other {dev : Keyboard} {ops : List KeyboardOp}
    {op : KeyboardOp} {key : KeyCode} (hkey : op.key ≠ some key) :
    PressedOverRelease dev (ops ++ [op]) key ↔ PressedOverRelease dev ops key := by
  constructor
  · rintro ⟨before, scancode, after, heq, hcode, hout, hafter⟩
    rcases Lists.snoc_split heq with ⟨-, rfl, -⟩ | ⟨rest, rfl, hrest⟩
    · exact absurd hcode hkey
    · exact ⟨before, scancode, rest, hrest, hcode, hout,
        fun op hop => hafter op (List.mem_append_left _ hop)⟩
  · rintro ⟨before, scancode, after, rfl, hcode, hout, hafter⟩
    refine ⟨before, scancode, after ++ [op], by simp, hcode, hout, ?_⟩
    intro x hx
    rw [List.mem_append, List.mem_singleton] at hx
    rcases hx with hx | rfl
    · exact hafter x hx
    · exact hkey

theorem pressedOverRelease_snoc {dev : Keyboard} {ops : List KeyboardOp} {op : KeyboardOp}
    {key : KeyCode} (hkey : op.key = some key) :
    PressedOverRelease dev (ops ++ [op]) key ↔
      (∃ scancode, op = .pressed scancode) ∧
        (keyboardRun dev ops).device.outstandingReleased key = true := by
  constructor
  · rintro ⟨before, scancode, after, heq, hcode, hout, hafter⟩
    rcases Lists.snoc_split heq with ⟨rfl, hlast, -⟩ | ⟨rest, rfl, -⟩
    · exact ⟨⟨scancode, hlast⟩, hout⟩
    · exact absurd hkey (hafter op (List.mem_append_right _ (List.mem_singleton_self op)))
  · rintro ⟨⟨scancode, rfl⟩, hout⟩
    exact ⟨ops, scancode, [], rfl, hkey, hout, by simp⟩

/-- What the guest is owed of a key is its state, unless its last event was a press over an
outstanding release. -/
theorem owed_eq_pressed_iff (dev : Keyboard) (ops : List KeyboardOp) (key : KeyCode) :
    (keyboardRun dev ops).owed key = (keyboardRun dev ops).device.pressed key ↔
      ¬ PressedOverRelease dev ops key := by
  induction ops using List.reverseRecOn with
  | nil =>
      simp [keyboardRun, keyboardReset, KeyboardRun.owed, seenDown, PressedOverRelease]
  | append_singleton ops op ih =>
      rw [keyboardRun_snoc]
      by_cases hkey : op.key = some key
      · rw [pressedOverRelease_snoc hkey]
        cases op with
        | pressed scancode =>
            rw [KeyboardRun.owed_pressed _ hkey]
            have hpressed : ((keyboardRun dev ops).step (.pressed scancode)).device.pressed key
                = true := by
              simp [KeyboardRun.step, keyboardPressed, show keyIndex scancode = some key from hkey]
            simp [hpressed]
        | released scancode =>
            rw [KeyboardRun.owed_released _ hkey]
            have hreleased :
                ((keyboardRun dev ops).step (.released scancode)).device.pressed key
                  = false := by
              simp [KeyboardRun.step, keyboardReleased,
                show keyIndex scancode = some key from hkey]
            simp [hreleased]
        | pop => exact absurd hkey (by simp [KeyboardOp.key])
      · obtain ⟨howed, hpressed⟩ := (keyboardRun dev ops).step_other hkey
        rw [howed, hpressed, pressedOverRelease_snoc_other hkey]
        exact ih

/-! ## Popping until there is nothing left -/

/-- The keys that have an event outstanding. -/
def Keyboard.outstanding (dev : Keyboard) : Finset KeyCode :=
  Finset.univ.filter fun key => dev.outstandingReleased key || dev.outstandingPressed key

/-- A pop that returns a scancode takes its key off the outstanding ones. -/
theorem keyboardPop_outstanding (dev : Keyboard) :
    (keyboardAction dev 1).1.portAValue = 65535#32 ∨
      (keyboardAction dev 1).1.outstanding.card < dev.outstanding.card := by
  have hpop := keyboardAction_pop dev
  generalize keyboardAction dev 1 = out at hpop
  cases hpop with
  | released key out =>
      right
      refine Finset.card_lt_card ⟨?_, ?_⟩
      · intro other hother
        by_cases hkey : other = key
        · simp [Keyboard.outstanding, hkey] at hother
        · simpa [Keyboard.outstanding, hkey] using hother
      · intro hsub
        have hkey := hsub (show key ∈ dev.outstanding by simp [Keyboard.outstanding, out])
        simp [Keyboard.outstanding] at hkey
  | pressed key kept out =>
      right
      refine Finset.card_lt_card ⟨?_, ?_⟩
      · intro other hother
        by_cases hkey : other = key
        · simp [Keyboard.outstanding, hkey, kept] at hother
        · simpa [Keyboard.outstanding, hkey] using hother
      · intro hsub
        have hkey := hsub (show key ∈ dev.outstanding by simp [Keyboard.outstanding, out])
        simp [Keyboard.outstanding, kept] at hkey
  | empty none => exact Or.inl rfl

/-- A pop that finds nothing leaves nothing outstanding. -/
theorem keyboardPop_drained {dev : Keyboard}
    (h : (keyboardAction dev 1).1.portAValue = 65535#32) (key : KeyCode) :
    (keyboardAction dev 1).1.outstandingReleased key = false ∧
      (keyboardAction dev 1).1.outstandingPressed key = false := by
  have hpop := keyboardAction_pop dev
  generalize keyboardAction dev 1 = out at hpop h
  cases hpop with
  | released other out =>
      have hval := congrArg BitVec.toNat h
      rw [releaseEvent_toNat] at hval
      simp at hval
      omega
  | pressed other kept out =>
      have hval := congrArg BitVec.toNat h
      rw [pressEvent_toNat] at hval
      simp at hval
      omega
  | empty none => exact none key

/-- The run of `ops`, and then `n + 1` pops. -/
def keyboardDrain (dev : Keyboard) (ops : List KeyboardOp) (n : Nat) : KeyboardRun :=
  keyboardRun dev (ops ++ List.replicate (n + 1) .pop)

theorem keyboardDrain_succ (dev : Keyboard) (ops : List KeyboardOp) (n : Nat) :
    keyboardDrain dev ops (n + 1) = keyboardDrain dev (ops ++ [.pop]) n := by
  simp [keyboardDrain, List.replicate_succ]

theorem keyboardDrain_last (dev : Keyboard) (ops : List KeyboardOp) (n : Nat) :
    keyboardDrain dev ops n =
      (keyboardRun dev (ops ++ List.replicate n .pop)).step .pop := by
  rw [keyboardDrain, List.replicate_succ', ← List.append_assoc, keyboardRun_snoc]

/-- The guest that pops often enough reads `0xFFFF`. -/
theorem keyboardDrain_ends (dev : Keyboard) (ops : List KeyboardOp) :
    ∃ n, (keyboardDrain dev ops n).device.portAValue = 65535#32 := by
  induction hcard : (keyboardRun dev ops).device.outstanding.card using Nat.strongRecOn
    generalizing ops with
  | ind card ih =>
      have hlast : keyboardDrain dev ops 0 = (keyboardRun dev ops).step .pop :=
        keyboardRun_snoc dev ops .pop
      rcases keyboardPop_outstanding (keyboardRun dev ops).device with hend | hless
      · refine ⟨0, ?_⟩
        rw [hlast]
        exact hend
      · rw [hcard] at hless
        obtain ⟨n, hn⟩ := ih _ hless (ops ++ [.pop]) (by rw [keyboardRun_snoc]; rfl)
        exact ⟨n + 1, (keyboardDrain_succ dev ops n).symm ▸ hn⟩

theorem keyboardDrain_owed (dev : Keyboard) (ops : List KeyboardOp) (n : Nat)
    (key : KeyCode) :
    (keyboardDrain dev ops n).owed key = (keyboardRun dev ops).owed key := by
  induction n generalizing ops with
  | zero =>
      show (keyboardRun dev (ops ++ [.pop])).owed key = _
      rw [keyboardRun_snoc]
      exact KeyboardRun.owed_pop _ key
  | succ n ih =>
      rw [keyboardDrain_succ, ih, keyboardRun_snoc]
      exact KeyboardRun.owed_pop _ key

theorem keyboardDrain_pressed (dev : Keyboard) (ops : List KeyboardOp) (n : Nat)
    (key : KeyCode) :
    (keyboardDrain dev ops n).device.pressed key =
      (keyboardRun dev ops).device.pressed key := by
  have hstep := fun r : KeyboardRun =>
    (@KeyboardRun.step_other r .pop key (by simp [KeyboardOp.key])).2
  induction n generalizing ops with
  | zero =>
      show (keyboardRun dev (ops ++ [.pop])).device.pressed key = _
      rw [keyboardRun_snoc]
      exact hstep _
  | succ n ih =>
      rw [keyboardDrain_succ, ih, keyboardRun_snoc]
      exact hstep _

/-- Once the pops have come to `0xFFFF`, the guest has seen all it was owed. -/
theorem seenDown_drained {dev : Keyboard} {ops : List KeyboardOp} {n : Nat}
    (h : (keyboardDrain dev ops n).device.portAValue = 65535#32) (key : KeyCode) :
    seenDown (keyboardDrain dev ops n).given key = (keyboardRun dev ops).owed key := by
  rw [← keyboardDrain_owed dev ops n key]
  rw [keyboardDrain_last] at h ⊢
  obtain ⟨hreleased, hpressed⟩ := keyboardPop_drained h key
  have hout : ∀ r : KeyboardRun, r.device.outstandingReleased key = false →
      r.device.outstandingPressed key = false → r.owed key = seenDown r.given key := by
    intro r hr hp
    simp [KeyboardRun.owed, hr, hp]
  exact (hout _ hreleased hpressed).symm

/-- After a reset and any presses, releases and pops, the guest that pops until it reads
`0xFFFF` gets there, and then it has the state of every key right exactly when no key's
last event was a press over an outstanding release. -/
theorem keyboard_seen_iff (dev : Keyboard) (ops : List KeyboardOp) :
    (∃ n, (keyboardDrain dev ops n).device.portAValue = 65535#32) ∧
      ∀ n, (keyboardDrain dev ops n).device.portAValue = 65535#32 →
        ((∀ key, seenDown (keyboardDrain dev ops n).given key =
            (keyboardDrain dev ops n).device.pressed key) ↔
          ∀ key, ¬ PressedOverRelease dev ops key) := by
  refine ⟨keyboardDrain_ends dev ops, fun n hn => forall_congr' fun key => ?_⟩
  rw [seenDown_drained hn key, keyboardDrain_pressed]
  exact owed_eq_pressed_iff dev ops key

/-- Press, release and press again before the guest looks: it sees the release only. -/
theorem keyboard_loses_press :
    ¬ ∀ (dev : Keyboard) (ops : List KeyboardOp) (n : Nat),
      (keyboardDrain dev ops n).device.portAValue = 65535#32 →
        ∀ key, seenDown (keyboardDrain dev ops n).given key =
          (keyboardDrain dev ops n).device.pressed key := by
  intro h
  have hfalse := h ⟨0, 0, fun _ => false, fun _ => false, fun _ => false⟩
    [.pressed .a, .released .a, .pressed .a] 1 (by decide) 0
  revert hfalse
  decide

end Xremu
