import Mathlib.Algebra.Group.Prod
import Mathlib.Data.BitVec

/-!
# The mouse

`MouseMoved` adds to two accumulators and packs their low halves into one word, which is
both what command 1 of `MouseAction` reports and the flag that there is something to
report. A report clears all three. `MouseReset` clears the accumulators and leaves the
word: until the mouse is moved again, what was to be reported before the reset still is.

So motion is conserved as long as the guest resets the mouse only when no motion is
waiting (`motion_conserved_iff`).
-/

namespace Xremu

/-- The mouse's `AmtsuDevice` and its variables. -/
structure Mouse where
  portAValue : BitVec 32
  portBValue : BitVec 32
  interruptNumber : Nat
  mousePressedButton : Int
  mouseReleasedButton : Int
  mouseMovedV : BitVec 32
  mouseDX : BitVec 32
  mouseDY : BitVec 32

def mouseReset (dev : Mouse) : Mouse :=
  { dev with
    portAValue := 0
    portBValue := 0
    mousePressedButton := 0
    mouseReleasedButton := 0
    mouseDX := 0
    mouseDY := 0 }

/-- `MouseAction`, and whether it calls `XrDecrementProgress`. -/
def mouseAction (dev : Mouse) (value : BitVec 32) : Mouse × Bool :=
  if value = 1 then
    if dev.mousePressedButton ≠ 0 then
      ({ dev with
          portAValue := 1
          portBValue := BitVec.ofInt 32 dev.mousePressedButton
          mousePressedButton := 0 }, false)
    else if dev.mouseReleasedButton ≠ 0 then
      ({ dev with
          portAValue := 2
          portBValue := BitVec.ofInt 32 dev.mouseReleasedButton
          mouseReleasedButton := 0 }, false)
    else if dev.mouseMovedV ≠ 0 then
      ({ dev with
          portAValue := 3
          portBValue := dev.mouseMovedV
          mouseDX := 0
          mouseDY := 0
          mouseMovedV := 0 }, false)
    else ({ dev with portAValue := 0 }, true)
  else if value = 2 then (mouseReset dev, false)
  else (dev, false)

/-- The interrupt that an event raises. -/
def Mouse.interrupt (dev : Mouse) : Option Nat :=
  if dev.interruptNumber = 0 then none else some dev.interruptNumber

/-- The guest's number of a button: the host's 2 and 3 are exchanged. -/
def mouseButton (button : Int) : Int :=
  if button = 3 then 2 else if button = 2 then 3 else button

/-- `MousePressed`, and the interrupt it raises. -/
def mousePressed (button : Int) (dev : Mouse) : Mouse × Option Nat :=
  if 1 ≤ button ∧ button ≤ 3 then
    ({ dev with mousePressedButton := mouseButton button }, dev.interrupt)
  else (dev, none)

/-- `MouseReleased`, and the interrupt it raises. -/
def mouseReleased (button : Int) (dev : Mouse) : Mouse × Option Nat :=
  if 1 ≤ button ∧ button ≤ 3 then
    ({ dev with mouseReleasedButton := mouseButton button }, dev.interrupt)
  else (dev, none)

/-- `((MouseDX&0xFFFF)<<16)|(MouseDY&0xFFFF)`. -/
def mousePacked (dx dy : BitVec 32) : BitVec 32 := ((dx &&& 0xFFFF) <<< 16) ||| (dy &&& 0xFFFF)

/-- `MouseMoved`, and the interrupt it raises. -/
def mouseMoved (dx dy : Int) (dev : Mouse) : Mouse × Option Nat :=
  let mouseDX := dev.mouseDX + BitVec.ofInt 32 dx
  let mouseDY := dev.mouseDY + BitVec.ofInt 32 dy
  ({ dev with
      mouseDX := mouseDX
      mouseDY := mouseDY
      mouseMovedV := mousePacked mouseDX mouseDY }, dev.interrupt)

/-! ## Runs and what the guest is told -/

/-- `enable` and `reset` are the controller's: it sets the interrupt number of a device, and when
it resets all devices it clears it. -/
inductive MouseOp where
  | moved (dx dy : Int)
  | pressed (button : Int)
  | released (button : Int)
  | action (value : BitVec 32)
  | enable (interruptNumber : Nat)
  | reset

/-- Motion modulo 2^16 in each axis. -/
abbrev Motion := BitVec 16 × BitVec 16

/-- The two halves of a report. -/
def motionOf (report : BitVec 32) : Motion := ((report >>> 16).setWidth 16, report.setWidth 16)

/-- The mouse, the motions since the last reset, and the deltas reported since. -/
structure MouseRun where
  device : Mouse
  moved : Motion
  reported : Motion

namespace MouseRun

/-- Nothing has moved or been told since. -/
def afterReset (device : Mouse) : MouseRun := ⟨device, 0, 0⟩

/-- Command 1. Motion is reported with 3 in port A. -/
def read (r : MouseRun) : MouseRun :=
  let device := (mouseAction r.device 1).1
  ⟨device, r.moved,
    if device.portAValue = 3 then r.reported + motionOf device.portBValue else r.reported⟩

def step (r : MouseRun) : MouseOp → MouseRun
  | .moved dx dy =>
      ⟨(mouseMoved dx dy r.device).1, r.moved + (BitVec.ofInt 16 dx, BitVec.ofInt 16 dy), r.reported⟩
  | .pressed button => { r with device := (mousePressed button r.device).1 }
  | .released button => { r with device := (mouseReleased button r.device).1 }
  | .action value =>
      if value = 1 then r.read
      else if value = 2 then afterReset (mouseAction r.device 2).1
      else { r with device := (mouseAction r.device value).1 }
  | .enable number => { r with device := { r.device with interruptNumber := number } }
  | .reset => afterReset { mouseReset r.device with interruptNumber := 0 }

def run (r : MouseRun) (ops : List MouseOp) : MouseRun := ops.foldl step r

/-- The guest reads this often. -/
def reads (r : MouseRun) : Nat → MouseRun
  | 0 => r
  | n + 1 => (r.reads n).read

end MouseRun

/-- There is an event for the guest. -/
def Mouse.Pending (dev : Mouse) : Prop :=
  dev.mousePressedButton ≠ 0 ∨ dev.mouseReleasedButton ≠ 0 ∨ dev.mouseMovedV ≠ 0

/-- `MouseReset` is called. -/
def MouseOp.Resets : MouseOp → Prop
  | .action value => value = 2
  | .reset => True
  | _ => False

/-- Once the guest has read every event, it has been told of all motion since the last reset and
no other; and so it has with every report of motion on the way. -/
structure Conserved (r : MouseRun) : Prop where
  drained : ∀ n, ¬(r.reads n).device.Pending → (r.reads n).reported = (r.reads n).moved
  fresh : ∀ n, (r.reads (n + 1)).device.portAValue = 3 →
    (r.reads (n + 1)).reported = (r.reads (n + 1)).moved

/-- After `MouseInit`. -/
def mouseInit : Mouse := ⟨0, 0, 0, 0, 0, 0, 0, 0⟩

def mouseRun (ops : List MouseOp) : MouseRun := (MouseRun.afterReset mouseInit).run ops

theorem mouseRun_snoc (ops : List MouseOp) (op : MouseOp) :
    mouseRun (ops ++ [op]) = (mouseRun ops).step op := by
  simp [mouseRun, MouseRun.run]

/-! ## The packed word -/

theorem mask_half : ∀ i, i < 32 → (0xFFFF : BitVec 32).getLsbD i = decide (i < 16) := by
  decide

/-- The word has the low halves of the accumulators. -/
theorem motionOf_mousePacked (dx dy : BitVec 32) :
    motionOf (mousePacked dx dy) = (dx.setWidth 16, dy.setWidth 16) := by
  unfold motionOf mousePacked
  apply Prod.ext
  · apply BitVec.eq_of_getLsbD_eq
    intro i hi
    have hhigh : 16 + i < 32 := by omega
    have hsub : 16 + i - 16 = i := by omega
    have hwide : ¬16 + i < 16 := by omega
    simp only [BitVec.getLsbD_setWidth, BitVec.getLsbD_ushiftRight, BitVec.getLsbD_or,
      BitVec.getLsbD_shiftLeft, BitVec.getLsbD_and, mask_half (16 + i) hhigh, hsub,
      mask_half i (by omega), hi]
    simp [hhigh, hwide]
  · apply BitVec.eq_of_getLsbD_eq
    intro i hi
    simp only [BitVec.getLsbD_setWidth, BitVec.getLsbD_or, BitVec.getLsbD_shiftLeft,
      BitVec.getLsbD_and, mask_half i (by omega), hi]
    simp

theorem mousePacked_zero : mousePacked 0 0 = 0 := by decide

/-- The low half of a motion. -/
theorem setWidth_ofInt (d : Int) : (BitVec.ofInt 32 d).setWidth 16 = BitVec.ofInt 16 d := by
  apply BitVec.eq_of_toNat_eq
  rw [BitVec.toNat_setWidth, BitVec.toNat_ofInt, BitVec.toNat_ofInt]
  omega

/-- Only the word 0 reports no motion. -/
theorem eq_zero_of_motionOf {v : BitVec 32} (h : motionOf v = 0) : v = 0 := by
  obtain ⟨hx, hy⟩ := Prod.mk.inj h
  apply BitVec.eq_of_getLsbD_eq
  intro i hi
  by_cases hlow : i < 16
  · have hbit := congrArg (fun w : BitVec 16 => w.getLsbD i) hy
    simpa [hlow] using hbit
  · have hbit := congrArg (fun w : BitVec 16 => w.getLsbD (i - 16)) hx
    have hback : 16 + (i - 16) = i := by omega
    have hwidth : i - 16 < 16 := by omega
    simpa [hback, hwidth] using hbit

/-! ## The copies in step -/

/-- The word is what the accumulators say, and they have the motion that is not reported yet. -/
structure InStep (r : MouseRun) : Prop where
  packed : r.device.mouseMovedV = mousePacked r.device.mouseDX r.device.mouseDY
  owed : r.reported + (r.device.mouseDX.setWidth 16, r.device.mouseDY.setWidth 16) = r.moved

variable {r : MouseRun}

/-- Nothing is owed when the word is 0. -/
theorem InStep.reported (h : InStep r) (hzero : r.device.mouseMovedV = 0) :
    r.reported = r.moved := by
  have hnone : motionOf (mousePacked r.device.mouseDX r.device.mouseDY) = 0 := by
    rw [← h.packed, hzero]
    rfl
  rw [motionOf_mousePacked] at hnone
  have howed := h.owed
  rw [hnone, add_zero] at howed
  exact howed

theorem InStep.moved (h : InStep r) (dx dy : Int) : InStep (r.step (.moved dx dy)) where
  packed := rfl
  owed := by
    have hadd : ∀ (sum : BitVec 32) (d : Int),
        (sum + BitVec.ofInt 32 d).setWidth 16 = sum.setWidth 16 + BitVec.ofInt 16 d := by
      intro sum d
      rw [BitVec.setWidth_add _ _ (by decide), setWidth_ofInt]
    show r.reported + ((r.device.mouseDX + BitVec.ofInt 32 dx).setWidth 16,
      (r.device.mouseDY + BitVec.ofInt 32 dy).setWidth 16) =
        r.moved + (BitVec.ofInt 16 dx, BitVec.ofInt 16 dy)
    rw [hadd, hadd, ← h.owed, add_assoc]
    rfl

/-- A report of motion is of all that is owed. -/
theorem InStep.read (h : InStep r) :
    InStep r.read ∧ (r.read.device.portAValue = 3 → r.read.reported = r.read.moved) := by
  unfold MouseRun.read mouseAction
  rw [if_pos rfl]
  by_cases hpressed : r.device.mousePressedButton ≠ 0
  · rw [if_pos hpressed]
    exact ⟨⟨h.packed, h.owed⟩, fun hreport => by cases hreport⟩
  rw [if_neg hpressed]
  by_cases hreleased : r.device.mouseReleasedButton ≠ 0
  · rw [if_pos hreleased]
    exact ⟨⟨h.packed, h.owed⟩, fun hreport => by cases hreport⟩
  rw [if_neg hreleased]
  by_cases hmoved : r.device.mouseMovedV ≠ 0
  · rw [if_pos hmoved]
    have hall : r.reported + motionOf r.device.mouseMovedV = r.moved := by
      rw [h.packed, motionOf_mousePacked]
      exact h.owed
    refine ⟨⟨mousePacked_zero.symm, ?_⟩, fun _ => hall⟩
    show r.reported + motionOf r.device.mouseMovedV + 0 = r.moved
    rw [add_zero]
    exact hall
  · rw [if_neg hmoved]
    exact ⟨⟨h.packed, h.owed⟩, fun hreport => by cases hreport⟩

theorem InStep.reads (h : InStep r) (n : Nat) : InStep (r.reads n) := by
  induction n with
  | zero => exact h
  | succ n ih => exact ih.read.1

theorem InStep.conserved (h : InStep r) : Conserved r where
  drained := by
    intro n hdone
    have hnone : (r.reads n).device.mouseMovedV = 0 := by
      by_contra hv
      exact hdone (.inr (.inr hv))
    exact (h.reads n).reported hnone
  fresh n := (h.reads n).read.2

/-- A reset keeps the copies in step if no motion is waiting. -/
theorem InStep.afterReset {device : Mouse} (hzero : device.mouseMovedV = 0) :
    InStep (.afterReset (mouseReset device)) where
  packed := hzero.trans mousePacked_zero.symm
  owed := rfl

theorem InStep.step (h : InStep r) {op : MouseOp} (hop : op.Resets → r.device.mouseMovedV = 0) :
    InStep (r.step op) := by
  cases op with
  | moved dx dy => exact h.moved dx dy
  | pressed button =>
      show InStep { r with device := (mousePressed button r.device).1 }
      unfold mousePressed
      split
      · exact ⟨h.packed, h.owed⟩
      · exact h
  | released button =>
      show InStep { r with device := (mouseReleased button r.device).1 }
      unfold mouseReleased
      split
      · exact ⟨h.packed, h.owed⟩
      · exact h
  | action value =>
      show InStep (if value = 1 then r.read else if value = 2 then _ else _)
      by_cases hread : value = 1
      · rw [if_pos hread]
        exact h.read.1
      by_cases hreset : value = 2
      · rw [if_neg hread, if_pos hreset]
        exact .afterReset (hop hreset)
      · rw [if_neg hread, if_neg hreset]
        unfold mouseAction
        rw [if_neg hread, if_neg hreset]
        exact h
  | enable number => exact ⟨h.packed, h.owed⟩
  | reset =>
      have hkept := InStep.afterReset (hop trivial)
      exact ⟨hkept.packed, hkept.owed⟩

/-! ## What a reset forgets -/

theorem mouseAction_motion {dev : Mouse} (hpressed : dev.mousePressedButton = 0)
    (hreleased : dev.mouseReleasedButton = 0) (hmoved : dev.mouseMovedV ≠ 0) :
    mouseAction dev 1 =
      ({ dev with
          portAValue := 3
          portBValue := dev.mouseMovedV
          mouseDX := 0
          mouseDY := 0
          mouseMovedV := 0 }, false) := by
  unfold mouseAction
  rw [if_pos rfl, if_neg (not_not_intro hpressed), if_neg (not_not_intro hreleased), if_pos hmoved]

/-- A reset with motion waiting is followed by a report of it. -/
theorem Conserved.reset {op : MouseOp} (hop : op.Resets) (h : Conserved (r.step op)) :
    r.device.mouseMovedV = 0 := by
  by_contra hv
  have hafter : ∃ device : Mouse, r.step op = .afterReset device ∧ device.mousePressedButton = 0 ∧
      device.mouseReleasedButton = 0 ∧ device.mouseMovedV = r.device.mouseMovedV := by
    cases op with
    | action value =>
        obtain rfl : value = 2 := hop
        exact ⟨mouseReset r.device, rfl, rfl, rfl, rfl⟩
    | reset => exact ⟨{ mouseReset r.device with interruptNumber := 0 }, rfl, rfl, rfl, rfl⟩
    | moved dx dy => exact absurd hop id
    | pressed button => exact absurd hop id
    | released button => exact absurd hop id
    | enable number => exact absurd hop id
  obtain ⟨device, hstep, hpressed, hreleased, hmoved⟩ := hafter
  rw [hstep] at h
  have hread : (MouseRun.afterReset device).read =
      ⟨{ device with
          portAValue := 3
          portBValue := device.mouseMovedV
          mouseDX := 0
          mouseDY := 0
          mouseMovedV := 0 }, 0, 0 + motionOf device.mouseMovedV⟩ := by
    have haction := mouseAction_motion hpressed hreleased (hmoved ▸ hv)
    unfold MouseRun.read
    extract_lets device'
    have hdevice : device' = _ := congrArg Prod.fst haction
    rw [hdevice]
    rfl
  have hfresh := h.fresh 0
  have hone : (MouseRun.afterReset device).reads (0 + 1) = (MouseRun.afterReset device).read := rfl
  rw [hone, hread] at hfresh
  have hsum : 0 + motionOf device.mouseMovedV = 0 := hfresh rfl
  rw [zero_add] at hsum
  exact hv (hmoved ▸ eq_zero_of_motionOf hsum)

/-! ## Every run -/

theorem mouseRun_inStep {ops : List MouseOp} (hops : ∀ pre op, pre ++ [op] <+: ops → op.Resets →
    (mouseRun pre).device.mouseMovedV = 0) : InStep (mouseRun ops) := by
  induction ops using List.reverseRecOn with
  | nil => exact ⟨rfl, rfl⟩
  | append_singleton ops op ih =>
      rw [mouseRun_snoc]
      refine (ih fun pre op' hpre => ?_).step (hops ops op (List.prefix_refl _))
      exact hops pre op' (hpre.trans (List.prefix_append ops [op]))

/-- Motion is conserved throughout a run exactly if the mouse is reset only when no motion is
waiting to be read. -/
theorem motion_conserved_iff (ops : List MouseOp) :
    (∀ pre, pre <+: ops → Conserved (mouseRun pre)) ↔
      ∀ pre op, pre ++ [op] <+: ops → op.Resets → (mouseRun pre).device.mouseMovedV = 0 := by
  constructor
  · intro hall pre op hpre hop
    have hafter := hall (pre ++ [op]) hpre
    rw [mouseRun_snoc] at hafter
    exact hafter.reset hop
  · intro hops pre hpre
    have hinStep : InStep (mouseRun pre) :=
      mouseRun_inStep fun pre' op hpre' => hops pre' op (hpre'.trans hpre)
    exact hinStep.conserved

/-- The mouse is moved and reset, and then the guest reads of the motion. -/
theorem motion_reported_after_reset : ¬∀ ops, Conserved (mouseRun ops) := by
  intro hall
  have hdone : ¬((mouseRun [.moved 1 0, .action 2]).reads 1).device.Pending := by
    rintro (hpressed | hreleased | hmoved)
    · exact hpressed rfl
    · exact hreleased rfl
    · exact hmoved rfl
  exact absurd ((hall [.moved 1 0, .action 2]).drained 1 hdone) (by decide)

end Xremu
