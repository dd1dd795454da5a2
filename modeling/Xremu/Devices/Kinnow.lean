import Mathlib.Data.List.Induction
import Mathlib.Logic.Function.Basic
import Xremu.Machine.Bus

/-!
# The framebuffer

`KinnowWrite` stores pixels, palette entries and registers, and widens the rectangle that
`KinnowDraw` draws again. A write widens it by its first and its last pixel. If it runs over
the end of a row, which a disk transfer can do, the columns between these two are not the
ones it has written.

`kinnowCovered_iff` says for which writes since the last draw the rectangle is right.
-/

namespace Xremu

abbrev kinnowWidth : Nat := 1024

abbrev kinnowHeight : Nat := 768

/-- `FBSize`. -/
abbrev kinnowFbSize : Nat := 0xC0000

/-- The sizes as numbers. -/
theorem kinnowSizes : kinnowWidth = 1024 ∧ kinnowHeight = 768 ∧
    kinnowFbSize = kinnowWidth * kinnowHeight :=
  ⟨rfl, rfl, rfl⟩

/-- The variables `DirtyRectX1` and so on, which are `uint32_t`. -/
structure KinnowRect where
  x1 : Nat
  x2 : Nat
  y1 : Nat
  y2 : Nat
deriving DecidableEq

/-- What they are when nothing is dirty: -1 and 0. -/
def KinnowRect.clean : KinnowRect := ⟨0xFFFFFFFF, 0, 0xFFFFFFFF, 0⟩

structure Kinnow where
  fb : Nat → Byte
  registers : Nat → Word
  palette : Nat → Word
  rect : KinnowRect
  isDirty : Bool

/-- `KinnowInit`. -/
def kinnowInit : Kinnow where
  fb := fun _ => 0
  registers := fun i =>
    if i = 0 then 768 <<< 12 ||| 1024 else if i = 1 then 0xC0000 else if i = 8 then 1 else 0
  palette := fun _ => 0
  rect := .clean
  isDirty := false

/-- `KinnowWrite`; `none` is `EBUSERROR`. -/
def kinnowWrite (s : Kinnow) (address : Nat) (src : Nat → Byte) (length : Nat) : Option Kinnow :=
  if address ≥ 0x3000 ∧ address < 0x3100 then
    some { s with registers := Function.update s.registers ((address - 0x3000) / 4) (zext src 4) }
  else if address ≥ 0x4000 ∧ address < 0x4400 then
    some { s with
      palette := Function.update s.palette ((address - 0x4000) / 4) (zext src 4)
      isDirty := true
      rect := ⟨0, kinnowWidth - 1, 0, kinnowHeight - 1⟩ }
  else if address ≥ 0x100000 then
    let address := address - 0x100000
    if address + length > kinnowFbSize then none
    else
      let x := address % kinnowWidth
      let y := address / kinnowWidth
      let pix1 := address + length - 1
      let x1 := pix1 % kinnowWidth
      let y1 := pix1 / kinnowWidth
      some { s with
        isDirty := true
        rect :=
          { x1 := if x < s.rect.x1 then x else s.rect.x1
            y1 := if y < s.rect.y1 then y else s.rect.y1
            x2 := if x1 > s.rect.x2 then x1 else s.rect.x2
            y2 := if y1 > s.rect.y2 then y1 else s.rect.y2 }
        fb := copyBytes s.fb address src length }
  else none

/-- What `KinnowDraw` puts on the screen. -/
structure KinnowPicture where
  x : Int
  y : Int
  width : Int
  height : Int
  pixel : (x y : Nat) → Word

/-- `KinnowDraw`. -/
def kinnowDraw (s : Kinnow) : Kinnow × Option KinnowPicture :=
  if !s.isDirty then (s, none)
  else
    let captured (n : Nat) : Int := (BitVec.ofNat 32 n).toInt
    let dirtyaddr := captured s.rect.y1 * kinnowWidth + captured s.rect.x1
    ({ s with rect := .clean, isDirty := false },
      some {
        x := captured s.rect.x1
        y := captured s.rect.y1
        width := captured s.rect.x2 - captured s.rect.x1 + 1
        height := captured s.rect.y2 - captured s.rect.y1 + 1
        pixel := fun x y => s.palette (s.fb (dirtyaddr + y * kinnowWidth + x).toNat).toNat })

/-! ## Accesses -/

/-- An access as the bus makes them: of the processor, or of the disk controller. -/
structure KinnowAccess where
  address : Nat
  src : Nat → Byte
  length : Nat
  inBranch : address < 0x8000000
  shape : (length = 1 ∨ length = 2 ∨ length = 4 ∨ length = 16) ∧ address % length = 0 ∨
    address % 512 = 0 ∧ ∃ k, 1 ≤ k ∧ k ≤ 8 ∧ length = 512 * k

namespace KinnowAccess

variable (a : KinnowAccess)

/-- It writes an entry of the palette. -/
def Palette : Prop := 0x4000 ≤ a.address ∧ a.address < 0x4400

/-- It writes pixels, and all of them are there. -/
def Framed : Prop := 0x100000 ≤ a.address ∧ a.address - 0x100000 + a.length ≤ kinnowFbSize

def first : Nat := a.address - 0x100000

def last : Nat := a.first + a.length - 1

/-- The bytes of the framebuffer that it writes. -/
def Writes (p : Nat) : Prop := a.Framed ∧ a.first ≤ p ∧ p < a.first + a.length

instance : Decidable a.Palette := inferInstanceAs (Decidable (_ ∧ _))

instance : Decidable a.Framed := inferInstanceAs (Decidable (_ ∧ _))

theorem length_pos : 0 < a.length := by
  rcases a.shape with ⟨hlength, -⟩ | ⟨-, k, hk, -, hlength⟩
  · omega
  · omega

end KinnowAccess

/-- The writes one after the other; one that is refused changes nothing. -/
def kinnowRun (s : Kinnow) (writes : List KinnowAccess) : Kinnow :=
  writes.foldl (fun s a => (kinnowWrite s a.address a.src a.length).getD s) s

theorem kinnowRun_snoc (s : Kinnow) (writes : List KinnowAccess) (a : KinnowAccess) :
    kinnowRun s (writes ++ [a]) =
      (kinnowWrite (kinnowRun s writes) a.address a.src a.length).getD (kinnowRun s writes) := by
  unfold kinnowRun
  rw [List.foldl_append]
  rfl

inductive KinnowReach : Kinnow → Prop
  | init : KinnowReach kinnowInit
  | write {s s' : Kinnow} (h : KinnowReach s) (a : KinnowAccess)
      (step : kinnowWrite s a.address a.src a.length = some s') : KinnowReach s'
  | draw {s : Kinnow} (h : KinnowReach s) : KinnowReach (kinnowDraw s).1

/-- The bytes of the framebuffer that can change are those that are written. -/
theorem kinnowWrite_fb {s s' : Kinnow} {a : KinnowAccess}
    (h : kinnowWrite s a.address a.src a.length = some s') (p : Nat) :
    s'.fb p = s.fb p ∨ a.Writes p := by
  unfold kinnowWrite at h
  split at h
  · obtain rfl := Option.some.inj h
    exact Or.inl rfl
  split at h
  · obtain rfl := Option.some.inj h
    exact Or.inl rfl
  split at h
  · rename_i haddress
    dsimp only at h
    split at h
    · cases h
    · rename_i hfits
      obtain rfl := Option.some.inj h
      by_cases hp : a.first ≤ p ∧ p < a.first + a.length
      · exact Or.inr ⟨⟨haddress, Nat.le_of_not_lt hfits⟩, hp⟩
      · left
        dsimp only
        exact copyBytes_of_not hp
  · cases h

/-! ## The rectangle of a list of writes -/

/-- The smallest rectangle around two others. -/
def KinnowRect.extend (r b : KinnowRect) : KinnowRect :=
  ⟨min r.x1 b.x1, max r.x2 b.x2, min r.y1 b.y1, max r.y2 b.y2⟩

/-- What a write widens the rectangle by. -/
def KinnowAccess.box (a : KinnowAccess) : Option KinnowRect :=
  if a.Palette then some ⟨0, kinnowWidth - 1, 0, kinnowHeight - 1⟩
  else if a.Framed then
    some ⟨a.first % kinnowWidth, a.last % kinnowWidth, a.first / kinnowWidth,
      a.last / kinnowWidth⟩
  else none

/-- A box lies on the screen, except that its columns may be in the wrong order. -/
theorem KinnowAccess.box_on_screen {a : KinnowAccess} {b : KinnowRect} (h : a.box = some b) :
    b.x1 < kinnowWidth ∧ b.x2 < kinnowWidth ∧ b.y1 ≤ b.y2 ∧ b.y2 < kinnowHeight := by
  have hpos := a.length_pos
  unfold box at h
  split at h
  · obtain rfl := Option.some.inj h
    exact ⟨by decide, by decide, by decide, by decide⟩
  · split at h
    · rename_i hframed
      obtain ⟨-, hfits⟩ := hframed
      obtain rfl := Option.some.inj h
      have hlast : a.last < kinnowHeight * kinnowWidth := by
        unfold last first
        simp only [kinnowFbSize, kinnowWidth, kinnowHeight] at hfits ⊢
        omega
      have hle : a.first ≤ a.last := by
        unfold last
        omega
      exact ⟨Nat.mod_lt _ (by decide), Nat.mod_lt _ (by decide), Nat.div_le_div_right hle,
        Nat.div_lt_of_lt_mul (Nat.mul_comm kinnowHeight _ ▸ hlast)⟩
    · cases h

theorem ite_lt_eq_min (a r : Nat) : (if a < r then a else r) = min r a := by
  split <;> omega

theorem ite_gt_eq_max (a r : Nat) : (if a > r then a else r) = max r a := by
  split <;> omega

/-- One write: the rectangle is widened by its box. -/
theorem kinnowWrite_rect {s : Kinnow} (a : KinnowAccess) (hx : s.rect.x2 < kinnowWidth)
    (hy : s.rect.y2 < kinnowHeight) :
    match a.box with
    | none => ((kinnowWrite s a.address a.src a.length).getD s).rect = s.rect ∧
        ((kinnowWrite s a.address a.src a.length).getD s).isDirty = s.isDirty
    | some b => ((kinnowWrite s a.address a.src a.length).getD s).rect = s.rect.extend b ∧
        ((kinnowWrite s a.address a.src a.length).getD s).isDirty = true := by
  unfold KinnowAccess.box kinnowWrite
  by_cases hpalette : a.Palette
  · obtain ⟨hmin, hmax⟩ := hpalette
    rw [if_pos ⟨hmin, hmax⟩, if_neg (by omega), if_pos ⟨hmin, hmax⟩]
    refine ⟨?_, rfl⟩
    show KinnowRect.mk _ _ _ _ = KinnowRect.mk _ _ _ _
    congr 1
    · exact (Nat.min_eq_right (Nat.zero_le _)).symm
    · exact (Nat.max_eq_right (Nat.le_sub_one_of_lt hx)).symm
    · exact (Nat.min_eq_right (Nat.zero_le _)).symm
    · exact (Nat.max_eq_right (Nat.le_sub_one_of_lt hy)).symm
  have hnot : ¬(a.address ≥ 0x4000 ∧ a.address < 0x4400) := hpalette
  rw [if_neg hpalette, if_neg hnot]
  by_cases hregister : a.address ≥ 0x3000 ∧ a.address < 0x3100
  · have hframe : ¬a.Framed := by
      rintro ⟨hmin, -⟩
      omega
    rw [if_neg hframe, if_pos hregister]
    exact ⟨rfl, rfl⟩
  rw [if_neg hregister]
  by_cases hframed : a.Framed
  · obtain ⟨hmin, hfits⟩ := hframed
    rw [if_pos ⟨hmin, hfits⟩, if_pos hmin]
    dsimp only
    rw [if_neg (Nat.not_lt_of_le hfits)]
    refine ⟨?_, rfl⟩
    show KinnowRect.mk _ _ _ _ = KinnowRect.mk _ _ _ _
    congr 1
    · exact ite_lt_eq_min (a.first % kinnowWidth) s.rect.x1
    · exact ite_gt_eq_max (a.last % kinnowWidth) s.rect.x2
    · exact ite_lt_eq_min (a.first / kinnowWidth) s.rect.y1
    · exact ite_gt_eq_max (a.last / kinnowWidth) s.rect.y2
  · rw [if_neg hframed]
    by_cases hmin : a.address ≥ 0x100000
    · have hout : a.address - 0x100000 + a.length > kinnowFbSize := by
        by_contra hin
        exact hframed ⟨hmin, Nat.le_of_not_lt hin⟩
      rw [if_pos hmin]
      dsimp only
      rw [if_pos hout]
      exact ⟨rfl, rfl⟩
    · rw [if_neg hmin]
      exact ⟨rfl, rfl⟩

/-! ### Boxes -/

variable {r : KinnowRect} {boxes : List KinnowRect}

/-- What a rectangle has if one of two in it does, that around a list has if one of the
list does. -/
theorem foldl_extend_iff {P : KinnowRect → Prop} (hP : ∀ r b : KinnowRect, P (r.extend b) ↔ P r ∨ P b) :
    P (boxes.foldl .extend r) ↔ P r ∨ ∃ b ∈ boxes, P b := by
  induction boxes generalizing r with
  | nil => simp
  | cons b boxes ih =>
      rw [List.foldl_cons, ih, hP, or_assoc]
      simp only [List.mem_cons, exists_eq_or_imp]

theorem foldl_extend_x1_le (v : Nat) :
    (boxes.foldl .extend r).x1 ≤ v ↔ r.x1 ≤ v ∨ ∃ b ∈ boxes, b.x1 ≤ v := by
  refine foldl_extend_iff (P := fun r => r.x1 ≤ v) fun r b => ?_
  show min r.x1 b.x1 ≤ v ↔ _
  omega

theorem foldl_extend_y1_le (v : Nat) :
    (boxes.foldl .extend r).y1 ≤ v ↔ r.y1 ≤ v ∨ ∃ b ∈ boxes, b.y1 ≤ v := by
  refine foldl_extend_iff (P := fun r => r.y1 ≤ v) fun r b => ?_
  show min r.y1 b.y1 ≤ v ↔ _
  omega

theorem le_foldl_extend_x2 (v : Nat) :
    v ≤ (boxes.foldl .extend r).x2 ↔ v ≤ r.x2 ∨ ∃ b ∈ boxes, v ≤ b.x2 := by
  refine foldl_extend_iff (P := fun r => v ≤ r.x2) fun r b => ?_
  show v ≤ max r.x2 b.x2 ↔ _
  omega

theorem le_foldl_extend_y2 (v : Nat) :
    v ≤ (boxes.foldl .extend r).y2 ↔ v ≤ r.y2 ∨ ∃ b ∈ boxes, v ≤ b.y2 := by
  refine foldl_extend_iff (P := fun r => v ≤ r.y2) fun r b => ?_
  show v ≤ max r.y2 b.y2 ↔ _
  omega

/-- The rectangle after any writes to a clean framebuffer. -/
theorem kinnowRun_rect {s : Kinnow} (hclean : s.isDirty = false ∧ s.rect = .clean)
    (writes : List KinnowAccess) :
    (kinnowRun s writes).rect = (writes.filterMap KinnowAccess.box).foldl .extend .clean ∧
    ((kinnowRun s writes).isDirty = true ↔ writes.filterMap KinnowAccess.box ≠ []) ∧
    (kinnowRun s writes).rect.x2 < kinnowWidth ∧ (kinnowRun s writes).rect.y2 < kinnowHeight := by
  induction writes using List.reverseRecOn with
  | nil =>
      obtain ⟨hdirty, hrect⟩ := hclean
      have hstart : kinnowRun s [] = s := rfl
      rw [hstart, hrect, hdirty]
      exact ⟨rfl, by simp, by decide, by decide⟩
  | append_singleton writes a ih =>
      obtain ⟨hrect, hdirty, hx, hy⟩ := ih
      have hstep := kinnowWrite_rect a hx hy
      rw [kinnowRun_snoc, List.filterMap_append, List.foldl_append, ← hrect]
      cases hbox : a.box with
      | none =>
          rw [hbox] at hstep
          obtain ⟨hrect', hdirty'⟩ := hstep
          rw [hrect', hdirty', List.filterMap_cons_none hbox, List.filterMap_nil, List.append_nil]
          exact ⟨rfl, hdirty, hx, hy⟩
      | some b =>
          rw [hbox] at hstep
          obtain ⟨hrect', hdirty'⟩ := hstep
          obtain ⟨-, hx2, -, hy2⟩ := KinnowAccess.box_on_screen hbox
          rw [hrect', hdirty', List.filterMap_cons_some hbox, List.filterMap_nil]
          exact ⟨rfl, by simp, Nat.max_lt.mpr ⟨hx, hx2⟩, Nat.max_lt.mpr ⟨hy, hy2⟩⟩

/-- Nothing is dirty but what has been written since the last draw. -/
theorem KinnowReach.clean {s : Kinnow} (h : KinnowReach s) :
    (s.isDirty = false → s.rect = .clean) ∧ s.rect.x2 < kinnowWidth ∧
      s.rect.y2 < kinnowHeight := by
  induction h with
  | init => exact ⟨fun _ => rfl, by decide, by decide⟩
  | write hreach a hstep ih =>
      obtain ⟨hclean, hx, hy⟩ := ih
      have hrect := kinnowWrite_rect a hx hy
      rw [hstep] at hrect
      cases hbox : a.box with
      | none =>
          rw [hbox] at hrect
          obtain ⟨hrect, hdirty⟩ := hrect
          rw [Option.getD_some] at hrect hdirty
          rw [hrect, hdirty]
          exact ⟨hclean, hx, hy⟩
      | some b =>
          rw [hbox] at hrect
          obtain ⟨hrect, hdirty⟩ := hrect
          rw [Option.getD_some] at hrect hdirty
          obtain ⟨-, hx2, -, hy2⟩ := KinnowAccess.box_on_screen hbox
          rw [hrect, hdirty]
          exact ⟨fun hnot => absurd hnot (by decide), Nat.max_lt.mpr ⟨hx, hx2⟩, Nat.max_lt.mpr ⟨hy, hy2⟩⟩
  | @draw s hreach ih =>
      unfold kinnowDraw
      cases hdirty : s.isDirty with
      | false => exact ih
      | true =>
          have hclean : KinnowRect.clean.x2 < kinnowWidth ∧ KinnowRect.clean.y2 < kinnowHeight := by
            decide
          exact ⟨fun _ => rfl, hclean⟩

/-- `KinnowDraw` leaves a clean framebuffer. -/
theorem kinnowDraw_clean {s : Kinnow} (h : KinnowReach s) :
    (kinnowDraw s).1.isDirty = false ∧ (kinnowDraw s).1.rect = .clean := by
  unfold kinnowDraw
  cases hdirty : s.isDirty with
  | false => exact ⟨hdirty, h.clean.1 hdirty⟩
  | true => exact ⟨rfl, rfl⟩

/-! ## The rectangle covers what is written -/

/-- The pixel of byte `p` of the framebuffer is in the rectangle. -/
structure KinnowRect.Has (r : KinnowRect) (p : Nat) : Prop where
  left : r.x1 ≤ p % kinnowWidth
  right : p % kinnowWidth ≤ r.x2
  top : r.y1 ≤ p / kinnowWidth
  bottom : p / kinnowWidth ≤ r.y2

/-- The rectangle of `s` is on the screen and has all the pixels that `writes` wrote. -/
structure KinnowCovered (s : Kinnow) (writes : List KinnowAccess) : Prop where
  dirty : (∃ a ∈ writes, a.Palette ∨ ∃ p, a.Writes p) → s.isDirty = true ∧
    s.rect.x1 ≤ s.rect.x2 ∧ s.rect.x2 < kinnowWidth ∧
    s.rect.y1 ≤ s.rect.y2 ∧ s.rect.y2 < kinnowHeight
  pixels : ∀ a ∈ writes, ∀ p, a.Writes p → s.rect.Has p

/-- The writes reach the first and the last column. -/
structure KinnowWide (writes : List KinnowAccess) : Prop where
  left : ∃ a ∈ writes, a.Palette ∨ (a.Framed ∧ a.first % kinnowWidth = 0)
  right : ∃ a ∈ writes, a.Palette ∨ (a.Framed ∧ a.last % kinnowWidth = kinnowWidth - 1)

theorem KinnowAccess.box_palette {a : KinnowAccess} (h : a.Palette) :
    a.box = some ⟨0, kinnowWidth - 1, 0, kinnowHeight - 1⟩ := if_pos h

theorem KinnowAccess.box_framed {a : KinnowAccess} (h : a.Framed) :
    a.box = some ⟨a.first % kinnowWidth, a.last % kinnowWidth, a.first / kinnowWidth,
      a.last / kinnowWidth⟩ := by
  have hpalette : ¬a.Palette := by
    rintro ⟨-, hmax⟩
    have hmin := h.1
    omega
  unfold box
  rw [if_neg hpalette, if_pos h]

theorem KinnowAccess.box_cases {a : KinnowAccess} {b : KinnowRect} (h : a.box = some b) :
    (a.Palette ∧ b = ⟨0, kinnowWidth - 1, 0, kinnowHeight - 1⟩) ∨
    (a.Framed ∧ b = ⟨a.first % kinnowWidth, a.last % kinnowWidth, a.first / kinnowWidth,
      a.last / kinnowWidth⟩) := by
  unfold box at h
  split at h
  · rename_i hpalette
    exact Or.inl ⟨hpalette, (Option.some.inj h).symm⟩
  · split at h
    · rename_i hframed
      exact Or.inr ⟨hframed, (Option.some.inj h).symm⟩
    · cases h

section

variable {s : Kinnow} {writes : List KinnowAccess}

/-- The rectangle is the one around the boxes of the writes. -/
structure KinnowBoxed (s : Kinnow) (writes : List KinnowAccess) : Prop where
  rect : s.rect = (writes.filterMap KinnowAccess.box).foldl .extend .clean
  dirty : s.isDirty = true ↔ writes.filterMap KinnowAccess.box ≠ []
  right : s.rect.x2 < kinnowWidth
  bottom : s.rect.y2 < kinnowHeight

theorem KinnowBoxed.box (h : KinnowBoxed s writes) {a : KinnowAccess} (ha : a ∈ writes)
    {b : KinnowRect} (hb : a.box = some b) :
    s.isDirty = true ∧ s.rect.x1 ≤ b.x1 ∧ b.x2 ≤ s.rect.x2 ∧ s.rect.y1 ≤ b.y1 ∧
      b.y2 ≤ s.rect.y2 := by
  have hmem : b ∈ writes.filterMap KinnowAccess.box := List.mem_filterMap.mpr ⟨a, ha, hb⟩
  rw [h.dirty, h.rect]
  refine ⟨List.ne_nil_of_mem hmem, ?_, ?_, ?_, ?_⟩
  · exact (foldl_extend_x1_le b.x1).mpr (Or.inr ⟨b, hmem, Nat.le_refl _⟩)
  · exact (le_foldl_extend_x2 b.x2).mpr (Or.inr ⟨b, hmem, Nat.le_refl _⟩)
  · exact (foldl_extend_y1_le b.y1).mpr (Or.inr ⟨b, hmem, Nat.le_refl _⟩)
  · exact (le_foldl_extend_y2 b.y2).mpr (Or.inr ⟨b, hmem, Nat.le_refl _⟩)

/-- The rectangle reaches both edges exactly if the writes do. -/
theorem KinnowBoxed.wide_iff (h : KinnowBoxed s writes) :
    (s.rect.x1 = 0 ∧ s.rect.x2 = kinnowWidth - 1) ↔ KinnowWide writes := by
  constructor
  · rintro ⟨hleft, hright⟩
    constructor
    · rw [h.rect] at hleft
      rcases (foldl_extend_x1_le 0).mp (Nat.le_of_eq hleft) with hclean | ⟨b, hb, hzero⟩
      · exact absurd hclean (by decide)
      · obtain ⟨a, ha, hbox⟩ := List.mem_filterMap.mp hb
        refine ⟨a, ha, ?_⟩
        rcases KinnowAccess.box_cases hbox with ⟨hpalette, -⟩ | ⟨hframed, rfl⟩
        · exact Or.inl hpalette
        · exact Or.inr ⟨hframed, Nat.le_zero.mp hzero⟩
    · rw [h.rect] at hright
      rcases (le_foldl_extend_x2 (kinnowWidth - 1)).mp (Nat.le_of_eq hright.symm) with
        hclean | ⟨b, hb, hedge⟩
      · exact absurd hclean (by decide)
      · obtain ⟨a, ha, hbox⟩ := List.mem_filterMap.mp hb
        refine ⟨a, ha, ?_⟩
        rcases KinnowAccess.box_cases hbox with ⟨hpalette, -⟩ | ⟨hframed, rfl⟩
        · exact Or.inl hpalette
        · have hlt : a.last % kinnowWidth < kinnowWidth := Nat.mod_lt _ (by decide)
          exact Or.inr ⟨hframed, Nat.le_antisymm (Nat.le_sub_one_of_lt hlt) hedge⟩
  · rintro ⟨⟨a, ha, hleft⟩, ⟨c, hc, hright⟩⟩
    constructor
    · rcases hleft with hpalette | ⟨hframed, hzero⟩
      · have hbox := h.box ha (KinnowAccess.box_palette hpalette)
        exact Nat.le_zero.mp hbox.2.1
      · have hbox := h.box ha (KinnowAccess.box_framed hframed)
        exact Nat.le_zero.mp (hzero ▸ hbox.2.1)
    · apply Nat.le_antisymm (Nat.le_sub_one_of_lt h.right)
      rcases hright with hpalette | ⟨hframed, hedge⟩
      · exact (h.box hc (KinnowAccess.box_palette hpalette)).2.2.1
      · have hbox := (h.box hc (KinnowAccess.box_framed hframed)).2.2.1
        rwa [hedge] at hbox

/-- The rows of a write are those between its first and its last pixel. -/
theorem KinnowAccess.rows {a : KinnowAccess} {p : Nat} (h : a.Writes p) :
    a.first / kinnowWidth ≤ p / kinnowWidth ∧ p / kinnowWidth ≤ a.last / kinnowWidth := by
  obtain ⟨-, hmin, hmax⟩ := h
  have hlast : p ≤ a.last := by
    unfold last
    omega
  exact ⟨Nat.div_le_div_right hmin, Nat.div_le_div_right hlast⟩

/-- In a single row the columns are as well. -/
theorem KinnowAccess.columns {a : KinnowAccess} {p : Nat} (h : a.Writes p)
    (hrow : a.first / kinnowWidth = a.last / kinnowWidth) :
    a.first % kinnowWidth ≤ p % kinnowWidth ∧ p % kinnowWidth ≤ a.last % kinnowWidth := by
  obtain ⟨hleft, hright⟩ := KinnowAccess.rows h
  obtain ⟨-, hmin, hmax⟩ := h
  have hlast : p ≤ a.last := by
    unfold last
    omega
  have hp := Nat.div_add_mod p kinnowWidth
  have hf := Nat.div_add_mod a.first kinnowWidth
  have hl := Nat.div_add_mod a.last kinnowWidth
  have hsame : p / kinnowWidth = a.first / kinnowWidth := by omega
  rw [hsame] at hp
  rw [← hrow] at hl
  omega

/-- The pixels of a write are all in the rectangle if the write stays in one row, or if the
rectangle has all the columns. -/
theorem KinnowBoxed.has (h : KinnowBoxed s writes) {a : KinnowAccess} (ha : a ∈ writes) {p : Nat}
    (hp : a.Writes p)
    (hok : a.first / kinnowWidth = a.last / kinnowWidth ∨
      (s.rect.x1 = 0 ∧ s.rect.x2 = kinnowWidth - 1)) : s.rect.Has p := by
  obtain ⟨-, hx1, hx2, hy1, hy2⟩ := h.box ha (KinnowAccess.box_framed hp.1)
  obtain ⟨htop, hbottom⟩ := KinnowAccess.rows hp
  have hlt : p % kinnowWidth < kinnowWidth := Nat.mod_lt _ (by decide)
  refine ⟨?_, ?_, Nat.le_trans hy1 htop, Nat.le_trans hbottom hy2⟩
  · rcases hok with hrow | ⟨hzero, -⟩
    · exact Nat.le_trans hx1 (KinnowAccess.columns hp hrow).1
    · rw [hzero]
      exact Nat.zero_le _
  · rcases hok with hrow | ⟨-, hedge⟩
    · exact Nat.le_trans (KinnowAccess.columns hp hrow).2 hx2
    · rw [hedge]
      exact Nat.le_sub_one_of_lt hlt

/-- A write over the end of a row has pixels at both edges of the screen. -/
theorem KinnowAccess.edges {a : KinnowAccess} (hframed : a.Framed)
    (hrows : a.first / kinnowWidth ≠ a.last / kinnowWidth) :
    ∃ p q, a.Writes p ∧ a.Writes q ∧ p % kinnowWidth = 0 ∧ q % kinnowWidth = kinnowWidth - 1 := by
  have hpos := a.length_pos
  have hmod : a.first % kinnowWidth < kinnowWidth := Nat.mod_lt _ (by decide)
  have hfirst := Nat.div_add_mod a.first kinnowWidth
  have hlast := Nat.div_add_mod a.last kinnowWidth
  have hle : a.first ≤ a.last := by
    unfold last
    omega
  have hlt : a.first / kinnowWidth < a.last / kinnowWidth :=
    Nat.lt_of_le_of_ne (Nat.div_le_div_right hle) hrows
  have hrow : kinnowWidth * (a.first / kinnowWidth + 1) ≤ kinnowWidth * (a.last / kinnowWidth) :=
    Nat.mul_le_mul_left _ hlt
  have hend : a.last + 1 = a.first + a.length := by
    unfold last
    omega
  rw [Nat.mul_succ] at hrow
  refine ⟨kinnowWidth * (a.first / kinnowWidth) + kinnowWidth,
    kinnowWidth * (a.first / kinnowWidth) + (kinnowWidth - 1), ⟨hframed, ?_, ?_⟩,
    ⟨hframed, ?_, ?_⟩, ?_, ?_⟩
  · omega
  · omega
  · omega
  · omega
  · rw [← Nat.mul_succ]
    exact Nat.mul_mod_right _ _
  · rw [Nat.mul_add_mod]
    exact Nat.mod_eq_of_lt (by decide)

theorem KinnowBoxed.covered_iff (h : KinnowBoxed s writes) :
    KinnowCovered s writes ↔
      (∀ a ∈ writes, a.Framed → a.first / kinnowWidth = a.last / kinnowWidth) ∨
      KinnowWide writes := by
  constructor
  · rintro ⟨-, hpixels⟩
    by_cases hrows : ∀ a ∈ writes, a.Framed → a.first / kinnowWidth = a.last / kinnowWidth
    · exact Or.inl hrows
    · right
      push Not at hrows
      obtain ⟨a, ha, hframed, hne⟩ := hrows
      obtain ⟨p, q, hp, hq, hzero, hedge⟩ := KinnowAccess.edges hframed hne
      have hleft := (hpixels a ha p hp).left
      have hright := (hpixels a ha q hq).right
      rw [hzero] at hleft
      rw [hedge] at hright
      exact h.wide_iff.mp ⟨Nat.le_zero.mp hleft,
        Nat.le_antisymm (Nat.le_sub_one_of_lt h.right) hright⟩
  · intro hok
    have hpixels : ∀ a ∈ writes, ∀ p, a.Writes p → s.rect.Has p := by
      intro a ha p hp
      apply h.has ha hp
      rcases hok with hrows | hwide
      · exact Or.inl (hrows a ha hp.1)
      · exact Or.inr (h.wide_iff.mpr hwide)
    refine ⟨?_, hpixels⟩
    rintro ⟨a, ha, hpalette | ⟨p, hp⟩⟩
    · obtain ⟨hdirty, hx1, hx2, hy1, hy2⟩ := h.box ha (KinnowAccess.box_palette hpalette)
      dsimp only at hx1 hx2 hy1 hy2
      exact ⟨hdirty, by omega, h.right, by omega, h.bottom⟩
    · have hdirty := (h.box ha (KinnowAccess.box_framed hp.1)).1
      have hhas := hpixels a ha p hp
      exact ⟨hdirty, Nat.le_trans hhas.left hhas.right, h.right,
        Nat.le_trans hhas.top hhas.bottom, h.bottom⟩

end

/-- Any writes since the last draw of a framebuffer in use. The rectangle is right if no
write runs over the end of a row, or if the writes happen to reach both edges. -/
theorem kinnowCovered_iff {s : Kinnow} (hreach : KinnowReach s) (writes : List KinnowAccess) :
    KinnowCovered (kinnowRun (kinnowDraw s).1 writes) writes ↔
      (∀ a ∈ writes, a.Framed → a.first / kinnowWidth = a.last / kinnowWidth) ∨
      KinnowWide writes := by
  obtain ⟨hrect, hdirty, hright, hbottom⟩ := kinnowRun_rect (kinnowDraw_clean hreach) writes
  exact KinnowBoxed.covered_iff ⟨hrect, hdirty, hright, hbottom⟩

/-- A disk transfer of this many sectors to an offset in the framebuffer. -/
def kinnowDma (sector count : Nat) (hsector : sector < 1536) (hcount : 1 ≤ count ∧ count ≤ 8) :
    KinnowAccess where
  address := 0x100000 + 512 * sector
  src := fun _ => 0xFF
  length := 512 * count
  inBranch := by omega
  shape := Or.inr ⟨by omega, count, hcount.1, hcount.2, rfl⟩

/-- Two rows from the left edge. -/
theorem kinnowCovered_twoRows :
    KinnowCovered (kinnowRun (kinnowDraw kinnowInit).1 [kinnowDma 0 4 (by decide) (by decide)])
      [kinnowDma 0 4 (by decide) (by decide)] := by
  refine (kinnowCovered_iff .init _).mpr (Or.inr ⟨?_, ?_⟩)
  · exact ⟨_, List.mem_singleton_self _, Or.inr ⟨by decide, rfl⟩⟩
  · exact ⟨_, List.mem_singleton_self _, Or.inr ⟨by decide, rfl⟩⟩

/-- The second half of a row and the first half of the next: the rectangle has no column. -/
theorem kinnow_misses_columns :
    KinnowReach kinnowInit ∧
    (kinnowRun (kinnowDraw kinnowInit).1 [kinnowDma 1 2 (by decide) (by decide)]).rect =
      ⟨512, 511, 0, 1⟩ ∧
    ¬KinnowCovered (kinnowRun (kinnowDraw kinnowInit).1 [kinnowDma 1 2 (by decide) (by decide)])
      [kinnowDma 1 2 (by decide) (by decide)] := by
  have hrect : (kinnowRun (kinnowDraw kinnowInit).1
      [kinnowDma 1 2 (by decide) (by decide)]).rect = ⟨512, 511, 0, 1⟩ := by
    decide +kernel
  refine ⟨.init, hrect, ?_⟩
  rintro ⟨hdirty, -⟩
  have horder := (hdirty ⟨_, List.mem_singleton_self _, Or.inr ⟨512, ⟨by decide, ?_, ?_⟩⟩⟩).2.1
  · rw [hrect] at horder
    revert horder
    decide
  · decide
  · decide

end Xremu
