import Xremu.Devices.Tty

/-!
# The terminal stays inside its screen

`Tty.Inv` says where the cursor, the margins and the parameter index can be. Under it every
conversion between `int` and `uint32_t` keeps its number and every access of the buffer is
to one of its cells, so each function has a result and the result has the invariant again.

What a function does to the buffer is stated as an equation that leaves the new contents
open inside the rows it is about.
-/

namespace Xremu

/-! ## Conversions -/

theorem u32_of_nonneg {x : Int} (h : 0 ≤ x) (hlt : x < 4294967296) : u32 x = x.toNat := by
  rw [u32, Int.emod_eq_of_lt h hlt]

theorem u32_natCast {n : Nat} (h : n < 4294967296) : u32 (n : Int) = n := by
  rw [u32_of_nonneg (Int.natCast_nonneg n) (by omega), Int.toNat_natCast]

theorem i32_of_lt {n : Nat} (h : n < 2147483648) : i32 n = n := by
  rw [i32, if_pos h]

/-- A negative `int` is a large `uint32_t`. -/
theorem le_u32_of_neg {x : Int} (h : x < 0) (hge : -2147483648 ≤ x) :
    2147483648 ≤ u32 x := by
  unfold u32
  omega

namespace TtySize

variable (d : TtySize)

theorem width_le : d.width ≤ d.width * d.height :=
  Nat.le_mul_of_pos_right _ d.height_pos

theorem height_le : d.height ≤ d.width * d.height :=
  Nat.le_mul_of_pos_left _ d.width_pos

theorem width_lt : d.width < 1073741824 := by
  have hle := d.width_le
  have hsmall := d.small
  omega

theorem height_lt : d.height < 1073741824 := by
  have hle := d.height_le
  have hsmall := d.small
  omega

/-- The rows before row `y` fit the buffer. -/
theorem rows_le {y : Nat} (h : y ≤ d.height) : y * d.width ≤ d.width * d.height := by
  rw [Nat.mul_comm d.width]
  exact Nat.mul_le_mul_right _ h

end TtySize

/-- What the invariant speaks of is the same in both states. -/
structure Tty.Keeps (t t' : Tty) : Prop where
  cursorX : t'.cursorX = t.cursorX
  cursorY : t'.cursorY = t.cursorY
  top : t'.scrollWindowTop = t.scrollWindowTop
  bottom : t'.scrollWindowBottom = t.scrollWindowBottom
  isEscape : t'.isEscape = t.isEscape
  escapeIndex : t'.escapeIndex = t.escapeIndex

/-- The terminal with other contents. -/
def Tty.withText (t : Tty) (text : Nat → BitVec 16) : Tty := { t with textBuffer := text }

theorem Tty.keeps_withText (t : Tty) (text : Nat → BitVec 16) : t.Keeps (t.withText text) :=
  ⟨rfl, rfl, rfl, rfl, rfl, rfl⟩

section

variable {d : TtySize}

theorem ttyMakeDirty_keeps (x1 y1 x2 y2 : Nat) (t : Tty) :
    t.Keeps (ttyMakeDirty d x1 y1 x2 y2 t) := by
  unfold ttyMakeDirty
  extract_lets left top right bottom
  split <;> exact ⟨rfl, rfl, rfl, rfl, rfl, rfl⟩

variable (d) in
structure Tty.Inv (t : Tty) : Prop where
  cursorX : 0 ≤ t.cursorX ∧ t.cursorX ≤ d.width
  cursorY : 0 ≤ t.cursorY ∧ t.cursorY < d.height
  margins : t.scrollWindowTop ≤ t.scrollWindowBottom ∧ t.scrollWindowBottom < d.height
  escape : t.isEscape ≠ 0 → t.escapeIndex < ttyParamCount

theorem Tty.Inv.keeps {t t' : Tty} (h : t.Inv d) (hk : t.Keeps t') : t'.Inv d := by
  constructor
  · rw [hk.cursorX]
    exact h.cursorX
  · rw [hk.cursorY]
    exact h.cursorY
  · rw [hk.top, hk.bottom]
    exact h.margins
  · rw [hk.isEscape, hk.escapeIndex]
    exact h.escape

/-- The cursor can go anywhere on the screen, and to the column after the last. -/
theorem Tty.Inv.moved {t : Tty} (h : t.Inv d) {x y : Int} (hx : 0 ≤ x ∧ x ≤ d.width)
    (hy : 0 ≤ y ∧ y < d.height) : (t.moved x y).Inv d :=
  ⟨hx, hy, h.margins, h.escape⟩

/-! ## Accesses of the buffer -/

theorem ttyStore_eq {t : Tty} {i : Nat} (h : i < d.width * d.height) (cell : BitVec 16) :
    ttyStore d t i cell = some (t.withText (Function.update t.textBuffer i cell)) := by
  rw [ttyStore, if_pos ⟨Int.natCast_nonneg i, by omega⟩]
  rfl

theorem ttyClear_eq (t : Tty) (count i : Nat) (h : i + count ≤ d.width * d.height) :
    ∃ text, ttyClear d count i t = some (t.withText text) ∧
      ∀ k, k < i ∨ i + count ≤ k → text k = t.textBuffer k := by
  induction count generalizing t i with
  | zero => exact ⟨t.textBuffer, rfl, fun k _ => rfl⟩
  | succ count ih =>
      obtain ⟨text, heq, hother⟩ :=
        ih (t.withText (Function.update t.textBuffer i ttyBlank)) (i + 1) (by omega)
      refine ⟨text, ?_, ?_⟩
      · rw [ttyClear, ttyStore_eq (by omega)]
        exact heq
      · intro k hk
        rw [hother k (by omega)]
        exact Function.update_of_ne (by omega) _ _

theorem ttyMove_eq (t : Tty) (dst src count : Nat) (hdst : dst + count ≤ d.width * d.height)
    (hsrc : src + count ≤ d.width * d.height) :
    ∃ text, ttyMove d t dst src count = some (t.withText text) ∧
      ∀ k, k < dst ∨ dst + count ≤ k → text k = t.textBuffer k := by
  refine ⟨_, by rw [ttyMove, if_pos ⟨hdst, hsrc⟩]; rfl, ?_⟩
  intro k hk
  exact if_neg (by omega)

/-! ## Scrolling -/

/-- What a scroll computes, in numbers: the window and the cells that stay in it. -/
theorem Tty.Inv.window {t : Tty} (h : t.Inv d) :
    t.window d = t.scrollWindowTop * d.width ∧
    u32 ((t.scrollWindowBottom - t.scrollWindowTop) * d.width) =
      (t.scrollWindowBottom - t.scrollWindowTop) * d.width ∧
    t.scrolled d = (t.scrollWindowBottom - t.scrollWindowTop) * d.width ∧
    t.scrollWindowTop * d.width + (t.scrollWindowBottom - t.scrollWindowTop) * d.width +
      d.width ≤ d.width * d.height := by
  obtain ⟨hle, hlt⟩ := h.margins
  have hfit := d.rows_le (y := t.scrollWindowBottom + 1) hlt
  have hsmall := d.small
  have hsplit : t.scrollWindowTop * d.width +
      (t.scrollWindowBottom - t.scrollWindowTop) * d.width + d.width =
        (t.scrollWindowBottom + 1) * d.width := by
    rw [← Nat.add_mul, Nat.add_sub_cancel' hle, Nat.succ_mul]
  have hcast : ((t.scrollWindowBottom - t.scrollWindowTop) * d.width : Int) =
      ((t.scrollWindowBottom - t.scrollWindowTop) * d.width : Nat) := by
    rw [Int.natCast_mul, Int.ofNat_sub hle]
  refine ⟨?_, ?_, ?_, by omega⟩
  · rw [Tty.window, ← Int.natCast_mul]
    exact u32_natCast (by omega)
  · rw [hcast]
    exact u32_natCast (by omega)
  · have htwo : ((t.scrollWindowBottom - t.scrollWindowTop) * d.width * 2 : Int) =
        ((t.scrollWindowBottom - t.scrollWindowTop) * d.width * 2 : Nat) := by
      rw [hcast, Int.natCast_mul _ 2]
      rfl
    rw [Tty.scrolled, htwo, u32_natCast (by omega)]
    omega

/-- The contents are the same outside the cells from `first` to `last`. -/
def Tty.SameOutside (t : Tty) (first last : Nat) (text : Nat → BitVec 16) : Prop :=
  ∀ k, k < first ∨ last ≤ k → text k = t.textBuffer k

theorem Tty.Inv.window_end {t : Tty} (h : t.Inv d) :
    t.scrollWindowTop * d.width + (t.scrollWindowBottom - t.scrollWindowTop) * d.width +
      d.width = (t.scrollWindowBottom + 1) * d.width := by
  rw [← Nat.add_mul, Nat.add_sub_cancel' h.margins.1, Nat.succ_mul]

theorem ttyScrollUp_eq {t : Tty} (h : t.Inv d) :
    ∃ text, ttyScrollUp d t = some (ttyMakeDirty d 0 t.scrollWindowTop (d.width - 1)
        t.scrollWindowBottom (t.withText text)) ∧
      t.SameOutside (t.scrollWindowTop * d.width) ((t.scrollWindowBottom + 1) * d.width) text := by
  obtain ⟨hwindow, hrows, hscrolled, hfit⟩ := h.window
  have hend := h.window_end
  obtain ⟨moved, hmove, hmoved⟩ := ttyMove_eq (d := d) t (t.window d) (t.window d + d.width)
    (t.scrolled d) (by omega) (by omega)
  obtain ⟨text, hclear, htext⟩ := ttyClear_eq (d := d) (t.withText moved) d.width
    (t.window d + u32 ((t.scrollWindowBottom - t.scrollWindowTop) * d.width)) (by omega)
  refine ⟨text, ?_, ?_⟩
  · rw [ttyScrollUp, hmove, Option.bind_some]
    rw [Int.natCast_add] at hclear
    rw [hclear]
    rfl
  · intro k hk
    rw [htext k (by omega)]
    exact hmoved k (by omega)

theorem ttyScrollDown_eq {t : Tty} (h : t.Inv d) :
    ∃ text, ttyScrollDown d t = some (ttyMakeDirty d 0 t.scrollWindowTop (d.width - 1)
        t.scrollWindowBottom (t.withText text)) ∧
      t.SameOutside (t.scrollWindowTop * d.width) ((t.scrollWindowBottom + 1) * d.width) text := by
  obtain ⟨hwindow, hrows, hscrolled, hfit⟩ := h.window
  have hend := h.window_end
  obtain ⟨moved, hmove, hmoved⟩ := ttyMove_eq (d := d) t (t.window d + d.width) (t.window d)
    (t.scrolled d) (by omega) (by omega)
  obtain ⟨text, hclear, htext⟩ := ttyClear_eq (d := d) (t.withText moved) d.width
    (t.window d) (by omega)
  refine ⟨text, ?_, ?_⟩
  · rw [ttyScrollDown, hmove, Option.bind_some, hclear]
    rfl
  · intro k hk
    rw [htext k (by omega)]
    exact hmoved k (by omega)

/-! ## What each function does -/

theorem Tty.Inv.u32X {t : Tty} (h : t.Inv d) : u32 t.cursorX = t.cursorX.toNat := by
  have hx := h.cursorX
  have hlt := d.width_lt
  exact u32_of_nonneg hx.1 (by omega)

theorem Tty.Inv.u32Y {t : Tty} (h : t.Inv d) : u32 t.cursorY = t.cursorY.toNat := by
  have hy := h.cursorY
  have hlt := d.height_lt
  exact u32_of_nonneg hy.1 (by omega)

theorem Tty.Inv.edge_iff {t : Tty} (h : t.Inv d) :
    u32 t.cursorX ≥ d.width ↔ t.cursorX = d.width := by
  have hx := h.cursorX
  rw [h.u32X]
  omega

theorem ttyMakeDirty_withText (x1 y1 x2 y2 : Nat) (t : Tty) (text : Nat → BitVec 16) :
    ttyMakeDirty d x1 y1 x2 y2 (t.withText text) =
      (ttyMakeDirty d x1 y1 x2 y2 t).withText text := by
  cases hdirty : t.isDirty <;> simp [ttyMakeDirty, Tty.withText, hdirty]

/-- The terminal after the first part of `TTYNewline`: the cursor may be below the screen. -/
def ttyNextRow (d : TtySize) (t : Tty) : Tty :=
  ttyMakeDirty d t.cursorX.toNat t.cursorY.toNat 0 (t.cursorY.toNat + 1)
    (t.moved t.cursorX (t.cursorY + 1))

theorem ttyNextRow_keeps (t : Tty) :
    (t.moved t.cursorX (t.cursorY + 1)).Keeps (ttyNextRow d t) :=
  ttyMakeDirty_keeps _ _ _ _ _

theorem ttyNewline_eq {t : Tty} (h : t.Inv d) :
    ttyNewline d t =
      if t.cursorY + 1 > t.scrollWindowBottom then
        ttyScrollUp d ((ttyNextRow d t).moved t.cursorX t.scrollWindowBottom)
      else some (ttyNextRow d t) := by
  have hy := h.cursorY
  have hbottom := h.margins.2
  have hheight := d.height_lt
  obtain ⟨hkx, hky, -, hkb, -, -⟩ := ttyNextRow_keeps (d := d) t
  have hnext : u32 (t.cursorY + 1) = t.cursorY.toNat + 1 := by
    rw [u32_of_nonneg (by omega) (by omega)]
    omega
  have hdirty : ttyMakeDirty d (u32 (t.moved t.cursorX (t.cursorY + 1)).cursorX)
      (u32 ((t.moved t.cursorX (t.cursorY + 1)).cursorY - 1)) 0
      (u32 (t.moved t.cursorX (t.cursorY + 1)).cursorY)
      (t.moved t.cursorX (t.cursorY + 1)) = ttyNextRow d t := by
    show ttyMakeDirty d (u32 t.cursorX) (u32 (t.cursorY + 1 - 1)) 0 (u32 (t.cursorY + 1)) _ = _
    rw [h.u32X, hnext, Int.add_sub_cancel, h.u32Y]
    rfl
  unfold ttyNewline
  extract_lets t₁ t₂
  have ht₂ : t₂ = ttyNextRow d t := hdirty
  have hcond : u32 t₂.cursorY > t₂.scrollWindowBottom ↔
      t.cursorY + 1 > t.scrollWindowBottom := by
    rw [ht₂, hky, hkb]
    show u32 (t.cursorY + 1) > t.scrollWindowBottom ↔ _
    omega
  have hmargin : i32 t₂.scrollWindowBottom = t.scrollWindowBottom := by
    rw [ht₂, hkb]
    exact i32_of_lt (by show t.scrollWindowBottom < _; omega)
  rw [hmargin, ht₂, hkx] at *
  by_cases hbelow : t.cursorY + 1 > t.scrollWindowBottom
  · rw [if_pos (hcond.mpr hbelow), if_pos hbelow]
    rfl
  · rw [if_neg (fun hc => hbelow (hcond.mp hc)), if_neg hbelow]

/-- A newline above the bottom margin moves the cursor; any other one puts it on the margin
and scrolls. -/
theorem ttyNewline_cases {t : Tty} (h : t.Inv d) :
    (t.cursorY + 1 ≤ t.scrollWindowBottom ∧ ttyNewline d t = some (ttyNextRow d t)) ∨
    ∃ text, ttyNewline d t = some (ttyMakeDirty d 0 t.scrollWindowTop (d.width - 1)
        t.scrollWindowBottom
        (((ttyNextRow d t).moved t.cursorX t.scrollWindowBottom).withText text)) ∧
      (ttyNextRow d t).SameOutside (t.scrollWindowTop * d.width)
        ((t.scrollWindowBottom + 1) * d.width) text := by
  have hbottom := h.margins.2
  obtain ⟨hkx, hky, hkt, hkb, hke, hki⟩ := ttyNextRow_keeps (d := d) t
  rw [ttyNewline_eq h]
  by_cases hbelow : t.cursorY + 1 > t.scrollWindowBottom
  · right
    rw [if_pos hbelow]
    have hinv : ((ttyNextRow d t).moved t.cursorX t.scrollWindowBottom).Inv d := by
      have hthere := h.moved (y := t.scrollWindowBottom) h.cursorX ⟨by omega, by omega⟩
      exact hthere.keeps ⟨rfl, rfl, hkt, hkb, hke, hki⟩
    obtain ⟨text, heq, hsame⟩ := ttyScrollUp_eq hinv
    refine ⟨text, ?_, ?_⟩
    · rw [heq]
      show some (ttyMakeDirty d 0 (ttyNextRow d t).scrollWindowTop (d.width - 1)
        (ttyNextRow d t).scrollWindowBottom _) = _
      rw [hkt, hkb]
      rfl
    · intro k hk
      refine hsame k ?_
      show k < (ttyNextRow d t).scrollWindowTop * _ ∨
        ((ttyNextRow d t).scrollWindowBottom + 1) * _ ≤ k
      rw [hkt, hkb]
      exact hk
  · left
    rw [if_neg hbelow]
    exact ⟨by omega, rfl⟩

theorem ttyNewline_inv {t : Tty} (h : t.Inv d) :
    ∃ t', ttyNewline d t = some t' ∧ t'.Inv d ∧ t'.cursorX = t.cursorX := by
  have hk := ttyNextRow_keeps (d := d) t
  obtain ⟨hle, hbottom⟩ := h.margins
  have hy := h.cursorY
  rcases ttyNewline_cases h with ⟨hrow, heq⟩ | ⟨text, heq, -⟩
  · refine ⟨_, heq, Tty.Inv.keeps ?_ hk, hk.cursorX⟩
    exact h.moved h.cursorX ⟨by omega, by omega⟩
  · have hd := ttyMakeDirty_keeps (d := d) 0 t.scrollWindowTop (d.width - 1)
      t.scrollWindowBottom
      (((ttyNextRow d t).moved t.cursorX t.scrollWindowBottom).withText text)
    refine ⟨_, heq, Tty.Inv.keeps ?_ hd, hd.cursorX⟩
    have hthere := h.moved (y := t.scrollWindowBottom) h.cursorX ⟨by omega, by omega⟩
    exact hthere.keeps ⟨rfl, rfl, hk.top, hk.bottom, hk.isEscape, hk.escapeIndex⟩

theorem Tty.Inv.backspaced {t : Tty} (h : t.Inv d) :
    (0 ≤ (t.backspaced d).1 ∧ (t.backspaced d).1 ≤ d.width) ∧
      0 ≤ (t.backspaced d).2 ∧ (t.backspaced d).2 < d.height := by
  have hx := h.cursorX
  have hy := h.cursorY
  have hpos := d.width_pos
  unfold Tty.backspaced
  split
  · split
    · dsimp only
      omega
    · dsimp only
      omega
  · dsimp only
    omega

theorem Tty.Inv.tabbed {t : Tty} (h : t.Inv d) :
    0 ≤ t.tabbed d ∧ t.tabbed d < d.width := by
  have hx := h.cursorX
  have hpos := d.width_pos
  have hlt := d.width_lt
  unfold Tty.tabbed
  dsimp only
  have hu : u32 ((t.cursorX + 1 + 7) / 8 * 8) = ((t.cursorX + 1 + 7) / 8 * 8).toNat :=
    u32_of_nonneg (by omega) (by omega)
  rw [hu]
  split <;> omega

theorem ttyClamp_range {size : Nat} (hpos : 0 < size) {x : Int} (hx : x < 2147483648) :
    0 ≤ ttyClamp size x ∧ ttyClamp size x < size := by
  unfold ttyClamp
  dsimp only
  by_cases hge : u32 x ≥ size
  · rw [if_pos hge]
    split <;> omega
  · rw [if_neg hge]
    unfold u32 at hge
    split <;> omega

/-- `TTYMoveCursor` ends on the screen, whatever it is asked for. -/
theorem ttyMoveCursor_inv {t : Tty} (h : t.Inv d) {x y : Int} (hx : x < 2147483648)
    (hy : y < 2147483648) : (ttyMoveCursor d x y t).Inv d := by
  obtain ⟨hx, hxlt⟩ := ttyClamp_range d.width_pos hx
  obtain ⟨hy, hylt⟩ := ttyClamp_range d.height_pos hy
  have hk := ttyMakeDirty_keeps (d := d) (u32 t.cursorX) (u32 t.cursorY)
    (u32 (ttyClamp d.width x)) (u32 (ttyClamp d.height y)) t
  exact (h.keeps hk).moved ⟨hx, Int.le_of_lt hxlt⟩ ⟨hy, hylt⟩

/-! ## Escape sequences -/

theorem ttyEscClear_cases (t : Tty) :
    ttyEscClear d t = some t ∨
    ∃ text, ttyEscClear d t = some (ttyMakeDirty d 0 0 (d.width - 1) (d.height - 1)
      (Tty.withText
        { t with
          isCursorHidden := false, scrollWindowTop := 0
          scrollWindowBottom := d.height - 1 } text)) := by
  unfold ttyEscClear
  by_cases hparam : t.escapeParams 0 = 2
  · rw [if_pos hparam]
    obtain ⟨text, heq, -⟩ := ttyClear_eq (d := d) t (d.width * d.height) 0 (by omega)
    right
    refine ⟨text, ?_⟩
    rw [Int.natCast_zero] at heq
    rw [heq]
    rfl
  · rw [if_neg hparam]
    exact Or.inl rfl

/-- The columns that `TTYEscClearLine` clears start at the cursor or at the left edge. -/
theorem ttyEscClearLine_cases {t : Tty} (h : t.Inv d) :
    ttyEscClearLine d t = some t ∨
    ∃ first text, (first = t.cursorX.toNat ∨ first = 0) ∧
      ttyEscClearLine d t = some (Tty.withText
        (ttyMakeDirty d first t.cursorY.toNat (d.width - 1) t.cursorY.toNat t) text) ∧
      t.SameOutside (t.cursorY.toNat * d.width + first) ((t.cursorY.toNat + 1) * d.width)
        text := by
  obtain ⟨hx, hxle⟩ := h.cursorX
  obtain ⟨hy, hylt⟩ := h.cursorY
  have hw := d.width_lt
  have hsmall := d.small
  have hrow := d.rows_le (y := t.cursorY.toNat + 1) (by omega)
  rw [Nat.add_mul, Nat.one_mul] at hrow
  have hline : u32 (t.cursorY * d.width) = t.cursorY.toNat * d.width := by
    have hcast : t.cursorY * d.width = (t.cursorY.toNat * d.width : Nat) := by
      rw [Int.natCast_mul, Int.toNat_of_nonneg hy]
    rw [hcast]
    exact u32_natCast (by omega)
  have htext : ∀ x1 y1 x2 y2, (ttyMakeDirty d x1 y1 x2 y2 t).textBuffer = t.textBuffer := by
    intro x1 y1 x2 y2
    unfold ttyMakeDirty
    extract_lets
    split <;> rfl
  unfold ttyEscClearLine
  dsimp only
  rw [hline, h.u32X, h.u32Y]
  by_cases hend : t.escapeParams 0 = 0
  · rw [if_pos hend]
    have hcount : (i32 (u32 (d.width - t.cursorX))).toNat = d.width - t.cursorX.toNat := by
      rw [u32_of_nonneg (by omega) (by omega), i32_of_lt (by omega)]
      omega
    have hstart : ((t.cursorY.toNat * d.width : Nat) : Int) + t.cursorX =
        (t.cursorY.toNat * d.width + t.cursorX.toNat : Nat) := by
      rw [Int.natCast_add, Int.toNat_of_nonneg hx]
    obtain ⟨text, heq, hsame⟩ := ttyClear_eq (d := d)
      (ttyMakeDirty d t.cursorX.toNat t.cursorY.toNat (d.width - 1) t.cursorY.toNat t)
      (d.width - t.cursorX.toNat) (t.cursorY.toNat * d.width + t.cursorX.toNat) (by omega)
    right
    refine ⟨t.cursorX.toNat, text, Or.inl rfl, ?_, ?_⟩
    · rw [hcount, hstart]
      exact heq
    · intro k hk
      rw [Nat.add_mul, Nat.one_mul] at hk
      rw [hsame k (by omega), htext]
  rw [if_neg hend]
  by_cases hall : t.escapeParams 0 = 2
  · rw [if_pos hall]
    obtain ⟨text, heq, hsame⟩ := ttyClear_eq (d := d)
      (ttyMakeDirty d 0 t.cursorY.toNat (d.width - 1) t.cursorY.toNat t) d.width
      (t.cursorY.toNat * d.width) (by omega)
    right
    refine ⟨0, text, Or.inr rfl, heq, ?_⟩
    intro k hk
    rw [Nat.add_mul, Nat.one_mul] at hk
    rw [hsame k (by omega), htext]
  · rw [if_neg hall]
    exact Or.inl rfl

theorem ttyMargin_lt (param : Word) {absent outside : Nat} (habsent : absent < d.height)
    (houtside : outside < d.height) : ttyMargin d param absent outside < d.height := by
  unfold ttyMargin
  split
  · exact habsent
  · split
    · exact houtside
    · omega

theorem ttyEscSetScrollMargins_inv {t : Tty} (h : t.Inv d) :
    (ttyEscSetScrollMargins d t).Inv d := by
  have hpos := d.height_pos
  have htop := ttyMargin_lt (d := d) (t.escapeParams 0) hpos hpos
  have hbottom : ttyMargin d (t.escapeParams 1) (d.height - 1) 0 < d.height :=
    ttyMargin_lt _ (by omega) hpos
  refine ⟨h.cursorX, h.cursorY, ?_, h.escape⟩
  unfold ttyEscSetScrollMargins
  dsimp only
  split <;> omega

theorem ttySetHidden_keeps (hidden : Bool) (t : Tty) : t.Keeps (ttySetHidden d hidden t) := by
  unfold ttySetHidden
  split
  · exact ⟨rfl, rfl, rfl, rfl, rfl, rfl⟩
  · obtain ⟨hx, hy, ht, hb, he, hi⟩ := ttyMakeDirty_keeps (d := d) (u32 t.cursorX)
      (u32 t.cursorY) (u32 t.cursorX) (u32 t.cursorY) t
    exact ⟨hx, hy, ht, hb, he, hi⟩

/-! ## Characters -/

theorem ttyScroll_inv {t : Tty} (h : t.Inv d) (x1 y1 x2 y2 : Nat)
    (text : Nat → BitVec 16) : (ttyMakeDirty d x1 y1 x2 y2 (t.withText text)).Inv d :=
  (h.keeps (t.keeps_withText text)).keeps (ttyMakeDirty_keeps _ _ _ _ _)

theorem ttyEscClear_inv {t : Tty} (h : t.Inv d) :
    ∃ t', ttyEscClear d t = some t' ∧ t'.Inv d := by
  have hpos := d.height_pos
  rcases ttyEscClear_cases (d := d) t with heq | ⟨text, heq⟩
  · exact ⟨t, heq, h⟩
  · refine ⟨_, heq, ttyScroll_inv ?_ _ _ _ _ _⟩
    exact ⟨h.cursorX, h.cursorY, ⟨Nat.zero_le _, by show d.height - 1 < d.height; omega⟩,
      h.escape⟩

theorem ttyEscClearLine_inv {t : Tty} (h : t.Inv d) :
    ∃ t', ttyEscClearLine d t = some t' ∧ t'.Inv d := by
  rcases ttyEscClearLine_cases h with heq | ⟨first, text, -, heq, -⟩
  · exact ⟨t, heq, h⟩
  · exact ⟨_, heq, (h.keeps (ttyMakeDirty_keeps _ _ _ _ _)).keeps (Tty.keeps_withText _ _)⟩

theorem toInt_lt (param : Word) : param.toInt < 2147483648 := by
  have hlt := BitVec.toInt_lt (x := param)
  omega

theorem ttyEscapeCommand_inv {t : Tty} (h : t.Inv d) (hindex : t.escapeIndex < ttyParamCount)
    (c : Int) : ∃ t', ttyEscapeCommand d t c = some t' ∧ t'.Inv d := by
  unfold ttyEscapeCommand
  by_cases hm : c = chr 'm'
  · rw [if_pos hm]
    exact ⟨_, rfl, h.keeps ⟨rfl, rfl, rfl, rfl, rfl, rfl⟩⟩
  rw [if_neg hm]
  by_cases hH : c = chr 'H'
  · rw [if_pos hH]
    exact ⟨_, rfl, ttyMoveCursor_inv h (toInt_lt _) (toInt_lt _)⟩
  rw [if_neg hH]
  by_cases hJ : c = chr 'J'
  · rw [if_pos hJ]
    exact ttyEscClear_inv h
  rw [if_neg hJ]
  by_cases hK : c = chr 'K'
  · rw [if_pos hK]
    exact ttyEscClearLine_inv h
  rw [if_neg hK]
  by_cases hq : c = chr '?'
  · rw [if_pos hq]
    exact ⟨_, rfl, h.cursorX, h.cursorY, h.margins, fun _ => hindex⟩
  rw [if_neg hq]
  by_cases hr : c = chr 'r'
  · rw [if_pos hr]
    exact ⟨_, rfl, ttyEscSetScrollMargins_inv h⟩
  rw [if_neg hr]
  by_cases hS : c = chr 'S'
  · rw [if_pos hS]
    obtain ⟨text, heq, -⟩ := ttyScrollUp_eq h
    exact ⟨_, heq, ttyScroll_inv h _ _ _ _ _⟩
  rw [if_neg hS]
  by_cases hT : c = chr 'T'
  · rw [if_pos hT]
    obtain ⟨text, heq, -⟩ := ttyScrollDown_eq h
    exact ⟨_, heq, ttyScroll_inv h _ _ _ _ _⟩
  rw [if_neg hT]
  by_cases hn : c = chr 'n'
  · rw [if_pos hn]
    exact ⟨_, rfl, h.keeps ⟨rfl, rfl, rfl, rfl, rfl, rfl⟩⟩
  · rw [if_neg hn]
    exact ⟨t, rfl, h⟩

theorem ttyParseEscape_inv {t : Tty} (h : t.Inv d) (hescape : t.isEscape ≠ 0) (c : Int) :
    ∃ t', ttyParseEscape d t c = some t' ∧ t'.Inv d := by
  have hindex := h.escape hescape
  have hleft : Tty.Inv d { t with isEscape := 0 } :=
    ⟨h.cursorX, h.cursorY, h.margins, fun hne => absurd rfl hne⟩
  unfold ttyParseEscape
  by_cases hdigit : chr '0' ≤ c ∧ c ≤ chr '9'
  · rw [if_pos hdigit]
    exact ⟨_, rfl, h.keeps ⟨rfl, rfl, rfl, rfl, rfl, rfl⟩⟩
  rw [if_neg hdigit]
  by_cases hone : t.isEscape = 1
  · rw [if_pos hone]
    by_cases hbracket : c = chr '['
    · rw [if_pos hbracket]
      exact ⟨t, rfl, h⟩
    rw [if_neg hbracket]
    by_cases hnext : c = chr ';'
    · rw [if_pos hnext]
      refine ⟨_, rfl, h.cursorX, h.cursorY, h.margins, fun _ => ?_⟩
      dsimp only
      split <;> omega
    · rw [if_neg hnext]
      exact ttyEscapeCommand_inv hleft hindex c
  rw [if_neg hone]
  by_cases htwo : t.isEscape = 2
  · rw [if_pos htwo]
    by_cases hcursor : t.escapeParams 0 = 25
    · dsimp only
      rw [if_pos hcursor]
      by_cases hshow : c = chr 'h'
      · rw [if_pos hshow]
        exact ⟨_, rfl, hleft.keeps (ttySetHidden_keeps _ _)⟩
      rw [if_neg hshow]
      by_cases hhide : c = chr 'l'
      · rw [if_pos hhide]
        exact ⟨_, rfl, hleft.keeps (ttySetHidden_keeps _ _)⟩
      · rw [if_neg hhide]
        exact ⟨_, rfl, hleft⟩
    · dsimp only
      rw [if_neg hcursor]
      exact ⟨_, rfl, hleft⟩
  · rw [if_neg htwo]
    exact ⟨t, rfl, h⟩

/-- Where a character that is shown goes, and the terminal that it is shown on. -/
theorem ttyShow_cases {t : Tty} (h : t.Inv d) (c : Int) :
    ∃ u, ((t.cursorX < d.width ∧ u = t) ∨
        (t.cursorX = d.width ∧ ttyNewline d (t.moved 0 t.cursorY) = some u)) ∧
      u.Inv d ∧ u.cursorX < d.width ∧
      ttyShow d t c = some (ttyMakeDirty d t.cursorX.toNat t.cursorY.toNat
        (u.cursorX + 1).toNat u.cursorY.toNat
        ((u.moved (u.cursorX + 1) u.cursorY).withText
          (Function.update u.textBuffer (u.cursorY.toNat * d.width + u.cursorX.toNat)
            (u.cell c)))) := by
  have hw := d.width_lt
  have hpos := d.width_pos
  -- The store and the last steps, which are the same from both states.
  have hput : ∀ u : Tty, u.Inv d → u.cursorX < d.width →
      (ttyStore d u (u32 (u.cursorY * d.width + u.cursorX)) (u.cell c)).map (fun u =>
        ttyMakeDirty d (u32 t.cursorX) (u32 t.cursorY) (u32 (u.cursorX + 1)) (u32 u.cursorY)
          (u.moved (u.cursorX + 1) u.cursorY)) =
      some (ttyMakeDirty d t.cursorX.toNat t.cursorY.toNat
        (u.cursorX + 1).toNat u.cursorY.toNat
        ((u.moved (u.cursorX + 1) u.cursorY).withText
          (Function.update u.textBuffer (u.cursorY.toNat * d.width + u.cursorX.toNat)
            (u.cell c)))) := by
    intro u hu hlt
    obtain ⟨hx, -⟩ := hu.cursorX
    obtain ⟨hy, hylt⟩ := hu.cursorY
    have hrow := d.rows_le (y := u.cursorY.toNat + 1) (by omega)
    rw [Nat.add_mul, Nat.one_mul] at hrow
    have hsmall := d.small
    have hcast : u.cursorY * d.width + u.cursorX =
        (u.cursorY.toNat * d.width + u.cursorX.toNat : Nat) := by
      rw [Int.natCast_add, Int.natCast_mul, Int.toNat_of_nonneg hy, Int.toNat_of_nonneg hx]
    rw [hcast, u32_natCast (by omega), ttyStore_eq (by omega), Option.map_some]
    show some (ttyMakeDirty d (u32 t.cursorX) (u32 t.cursorY) (u32 (u.cursorX + 1))
      (u32 u.cursorY) _) = _
    rw [h.u32X, h.u32Y, hu.u32Y, u32_of_nonneg (by omega) (by omega)]
    rfl
  have hx := h.cursorX
  unfold ttyShow
  by_cases hedge : u32 t.cursorX ≥ d.width
  · have hwrap := h.edge_iff.mp hedge
    obtain ⟨u, heq, hu, hux⟩ := ttyNewline_inv (h.moved (x := 0) ⟨Int.le_refl _, by omega⟩
      h.cursorY)
    have hux : u.cursorX = 0 := hux
    rw [if_pos hedge, heq, Option.bind_some]
    exact ⟨u, Or.inr ⟨hwrap, rfl⟩, hu, by omega, hput u hu (by omega)⟩
  · have hne : t.cursorX < d.width := by
      have hnot : t.cursorX ≠ d.width := fun heq => hedge (h.edge_iff.mpr heq)
      omega
    rw [if_neg hedge, Option.bind_some]
    exact ⟨t, Or.inl ⟨hne, rfl⟩, h, hne, hput t h hne⟩

theorem ttyShow_inv {t : Tty} (h : t.Inv d) (c : Int) :
    ∃ t', ttyShow d t c = some t' ∧ t'.Inv d := by
  obtain ⟨u, -, hu, hlt, heq⟩ := ttyShow_cases h c
  refine ⟨_, heq, ttyScroll_inv (hu.moved ?_ hu.cursorY) _ _ _ _ _⟩
  have hx := hu.cursorX
  omega

/-- No byte leads the terminal out of its invariant or out of its buffer. -/
theorem ttyPutCharacter_inv {t : Tty} (h : t.Inv d) (c : Int) :
    ∃ t', ttyPutCharacter d t c = some t' ∧ t'.Inv d := by
  have hpos := d.width_pos
  unfold ttyPutCharacter
  by_cases hhigh : c > 0x7F
  · rw [if_pos hhigh]
    exact ⟨t, rfl, h⟩
  rw [if_neg hhigh]
  by_cases hzero : c = 0
  · rw [if_pos hzero]
    exact ⟨t, rfl, h⟩
  rw [if_neg hzero]
  by_cases hescape : t.isEscape ≠ 0
  · rw [if_pos hescape]
    exact ttyParseEscape_inv h hescape c
  rw [if_neg hescape]
  by_cases hnewline : c = chr '\n'
  · rw [if_pos hnewline]
    obtain ⟨t', heq, hinv, -⟩ := ttyNewline_inv h
    exact ⟨t', heq, hinv⟩
  rw [if_neg hnewline]
  by_cases hback : c = chr '\x08'
  · rw [if_pos hback]
    obtain ⟨hx, hy⟩ := h.backspaced
    exact ⟨_, rfl, (h.moved hx hy).keeps (ttyMakeDirty_keeps _ _ _ _ _)⟩
  rw [if_neg hback]
  by_cases hreturn : c = chr '\r'
  · rw [if_pos hreturn]
    exact ⟨_, rfl, (h.moved ⟨Int.le_refl _, by omega⟩ h.cursorY).keeps
      (ttyMakeDirty_keeps _ _ _ _ _)⟩
  rw [if_neg hreturn]
  by_cases htab : c = chr '\t'
  · rw [if_pos htab]
    obtain ⟨hx, hlt⟩ := h.tabbed
    exact ⟨_, rfl, (h.moved ⟨hx, Int.le_of_lt hlt⟩ h.cursorY).keeps
      (ttyMakeDirty_keeps _ _ _ _ _)⟩
  rw [if_neg htab]
  by_cases hstart : c = chr '\x1B'
  · rw [if_pos hstart]
    have hindex : (0 : Nat) < ttyParamCount := by decide
    exact ⟨_, rfl, h.cursorX, h.cursorY, h.margins, fun _ => hindex⟩
  · rw [if_neg hstart]
    exact ttyShow_inv h c

theorem ttyRun_inv {t : Tty} (h : t.Inv d) (chars : List Int) :
    ∃ t', ttyRun d chars t = some t' ∧ t'.Inv d := by
  induction chars generalizing t with
  | nil => exact ⟨t, rfl, h⟩
  | cons c chars ih =>
      obtain ⟨t', heq, hinv⟩ := ttyPutCharacter_inv h c
      rw [ttyRun, heq]
      exact ih hinv

end

theorem ttyFresh_inv (d : TtySize) (index : Nat) (params : Nat → Word) :
    (ttyFresh d index params).Inv d := by
  have hw := d.width_pos
  have hh := d.height_pos
  refine ⟨⟨Int.le_refl _, Int.natCast_nonneg _⟩, ⟨Int.le_refl _, ?_⟩,
    ⟨Nat.zero_le _, ?_⟩, fun hne => absurd rfl hne⟩
  · show (0 : Int) < d.height
    omega
  · show d.height - 1 < d.height
    omega

/-- What `TTYCreate` makes of a size that fits. -/
theorem ttyCreate_fits {width height : Int} (hwidth : 1 ≤ width) (hheight : 1 ≤ height)
    (hfits : TtyFits width height) (index : Nat) (params : Nat → Word) :
    ∃ d : TtySize, ttyCreate width height index params = some (d, ttyFresh d index params) ∧
      (d.width : Int) = width ∧ (d.height : Int) = height := by
  have hcond : (0 < width ∧ 0 < height) ∧ TtyFits width height := ⟨⟨hwidth, hheight⟩, hfits⟩
  let d : TtySize :=
    ⟨width.toNat, height.toNat, Int.lt_toNat.2 hwidth, Int.lt_toNat.2 hheight,
      ttySize_small hwidth hheight hfits.buffer⟩
  refine ⟨d, dif_pos hcond, ?_, ?_⟩
  · exact Int.toNat_of_nonneg (Int.le_of_lt hwidth)
  · exact Int.toNat_of_nonneg (Int.le_of_lt hheight)

/-- A terminal of any size that fits can be made, and from the state that `TTYCreate` makes
every sequence of bytes is taken without an access outside the buffer, and ends with the
cursor, the margins and the parameter index in their places. -/
theorem tty_stays_inside {width height : Int} (hwidth : 1 ≤ width) (hheight : 1 ≤ height)
    (hfits : TtyFits width height) (index : Nat) (params : Nat → Word) (signed : Bool) :
    ∃ (d : TtySize) (t : Tty), ttyCreate width height index params = some (d, t) ∧
      (d.width : Int) = width ∧ (d.height : Int) = height ∧
      ∀ bytes : List Byte,
        ∃ t', ttyRun d (bytes.map (ttyChar signed)) t = some t' ∧ t'.Inv d := by
  obtain ⟨d, hcreate, hw, hh⟩ := ttyCreate_fits hwidth hheight hfits index params
  refine ⟨d, ttyFresh d index params, hcreate, hw, hh, fun bytes => ?_⟩
  exact ttyRun_inv (ttyFresh_inv d index params) _

/-- The screen of a serial port. -/
def ttySize80 : TtySize := ⟨80, 24, by decide, by decide, by decide⟩

/-- The terminals of `serial.c` and of the debugger. -/
theorem tty_stays_inside_80 :
    ∃ (d : TtySize) (t : Tty), ttyCreate 80 24 0 (fun _ => 0) = some (d, t) ∧
      (d.width : Int) = 80 ∧ (d.height : Int) = 24 ∧
      ∀ bytes : List Byte, ∃ t', ttyRun d (bytes.map (ttyChar true)) t = some t' ∧ t'.Inv d :=
  tty_stays_inside (by decide) (by decide) (by decide) 0 (fun _ => 0) true

/-- The buffer of 65536 by 65536 cells overflows, and the window of 2^29 columns, whose buffer
does not: `TTYCreate` makes no state from which anything could be said. -/
theorem ttyCreate_overflows :
    (¬∀ width height : Int, 1 ≤ width → 1 ≤ height →
      ∃ (d : TtySize) (t : Tty), ttyCreate width height 0 (fun _ => 0) = some (d, t) ∧
        ∀ bytes : List Byte,
          ∃ t', ttyRun d (bytes.map (ttyChar true)) t = some t' ∧ t'.Inv d) ∧
    (536870912 * 1 * 2 : Int) < 2147483648 ∧
      ttyCreate 536870912 1 0 (fun _ => 0) = none := by
  refine ⟨fun hall => ?_, by decide, dif_neg (by decide)⟩
  obtain ⟨d, t, hcreate, -⟩ := hall 65536 65536 (by decide) (by decide)
  have hnone : ttyCreate 65536 65536 0 (fun _ => 0) = none := dif_neg (by decide)
  rw [hnone] at hcreate
  cases hcreate

end Xremu
