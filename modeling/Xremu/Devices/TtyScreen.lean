import Xremu.Devices.Screen
import Xremu.Devices.TtyDirty

/-!
# What the terminal's screen shows

`TTYDraw` paints the cells of the dirty rectangle into `PixelBufferTty`, character by character
with `TextBlitCharacter`, and puts that part into the texture. `tty_redraws` says that this is
as good as painting the whole screen again, pixel by pixel, in every run in which no character
blinks the cursor at the edge, and `ttyDraw_inside` that the buffer of 1024 by 768 pixels is
large enough for the terminals there are.

Characters and draws come one after another here. `TTYDraw` reads the rectangle again after it
has unlocked the terminal, for the texture, so a character between the two is left out.
-/

namespace Xremu

/-! ## Fonts -/

/-- `FontWidth`, `FontHeight` and `FontBMP`. -/
structure TtyFont where
  width : Nat
  height : Nat
  bmp : Nat → Byte

/-- `FONTWIDTH_80COL` and so on; the bitmap is 10 rows of two bytes a character. -/
def ttyFont80 (bmp : Nat → Byte) : TtyFont := ⟨10, 20, bmp⟩

/-- The bitmap is 10 rows of one byte a character. -/
def ttyFont132 (bmp : Nat → Byte) : TtyFont := ⟨6, 20, bmp⟩

/-- The font of a terminal, `TextFont80COL` or `TextFont132COL`. -/
def ttyFontOf (d : TtySize) (font80 font132 : Nat → Byte) : TtyFont :=
  if d.width < 132 then ttyFont80 font80 else ttyFont132 font132

section

variable (font : TtyFont)

/-- `fontpitch`. -/
def TtyFont.pitch : Nat := (font.width + 7) / 8

/-- The bit of a row of the bitmap. -/
def TtyFont.bit (row cx : Nat) : Bool := (font.bmp (row + cx / 8)).getLsbD (7 - cx % 8)

/-- The loop over `cx`, of a row of pixels from `at_` on. -/
def textRow (colour : Nat → Word) (at_ : Nat) (buffer : Nat → Word) : Nat → Word :=
  fun i => if at_ ≤ i ∧ i < at_ + font.width then colour (i - at_) else buffer i

/-- The colours of a row of the bitmap. -/
def TtyFont.row (fg bg : Word) (row cx : Nat) : Word := if font.bit row cx then fg else bg

/-- The loop of `TextBlitCharacter` that doubles the rows: the rows that are left, `fontbmp`,
`thisrow` and `pixelbuffer`. -/
def textDoubled (destwidth : Nat) (fg bg : Word) :
    (fontheight fontbmp thisrow pixel : Nat) → (Nat → Word) → Nat → Word
  | 0, _, _, _, buffer => buffer
  | fontheight + 1, fontbmp, thisrow, pixel, buffer =>
      let row := if (fontheight + 1) % 2 = 1 then thisrow else fontbmp
      textDoubled destwidth fg bg fontheight (row + font.pitch) row (pixel + destwidth)
        (textRow font (font.row fg bg row) pixel buffer)

/-- The loop with scanlines. -/
def textScanlines (destwidth : Nat) (fg bg : Word) :
    (fontheight fontbmp pixel : Nat) → (Nat → Word) → Nat → Word
  | 0, _, _, buffer => buffer
  | fontheight + 1, fontbmp, pixel, buffer =>
      if (fontheight + 1) % 2 = 1 then
        textScanlines destwidth fg bg fontheight fontbmp (pixel + destwidth)
          (textRow font (fun _ => 0) pixel buffer)
      else
        textScanlines destwidth fg bg fontheight (fontbmp + font.pitch) (pixel + destwidth)
          (textRow font (font.row fg bg fontbmp) pixel buffer)

/-- `TextBlitCharacter`. -/
def textBlitCharacter (c x y destwidth : Nat) (fg bg : Word) (buffer : Nat → Word) : Nat → Word :=
  let pixel := y * destwidth + x
  let fontbmp := c * font.pitch * (font.height / 2)
  if font.width < 8 then
    textDoubled font destwidth fg bg font.height fontbmp fontbmp pixel buffer
  else textScanlines font destwidth fg bg font.height fontbmp pixel buffer

/-! ## `TTYDraw` -/

/-- `TTYPalette`. -/
def ttyPalette : List Word :=
  [0x000000, 0xFF0000, 0x007300, 0xFFFF00, 0x8373EE, 0xFF00FF, 0x00FFFF, 0xB4B4B4, 0x393939,
    0xF68373, 0x7BFFBD, 0xFFFFB4, 0xB4D5FF, 0xFF7BFF, 0xB4FFFF, 0xFFFFFF]

/-- The colour of a nibble of a cell. -/
def ttyColour (cell : BitVec 16) (shift : Nat) : Word :=
  ttyPalette.getD ((cell >>> shift) &&& 15).toNat 0

/-- The two colours of a cell, exchanged where the cursor is. -/
def ttyColours (shown : BitVec 16 × Bool) : Word × Word :=
  if shown.2 then (ttyColour shown.1 12, ttyColour shown.1 8)
  else (ttyColour shown.1 8, ttyColour shown.1 12)

/-- The body of the loops of `TTYDraw`: the cell `x` and `y` of the rectangle. -/
def ttyBlit (shown : BitVec 16 × Bool) (width x y : Nat) (buffer : Nat → Word) : Nat → Word :=
  textBlitCharacter font (shown.1 &&& 0x7F).toNat (x * font.width) (y * font.height)
    (width * font.width) (ttyColours shown).1 (ttyColours shown).2 buffer

end

abbrev ttyMarginCharTop : Nat := 1
abbrev ttyMarginCharSide : Nat := 2

/-- The terminal, `PixelBufferTty` and the texture. -/
structure TtyScreen where
  tty : Tty
  pixelBuffer : Nat → Word
  texture : SdlTexture

section

variable (d : TtySize) (font : TtyFont)

/-- What the loops of `TTYDraw` look up for a cell of the rectangle. -/
def ttyLookUp (t : Tty) (x y : Nat) : BitVec 16 × Bool :=
  let dirtyaddr := (u32 (t.dirtyY1 * d.width + t.dirtyX1) + y * d.width) % 4294967296
  (t.textBuffer ((dirtyaddr + x) % 4294967296),
    decide (t.dirtyX1 + x = t.shownX d ∧ t.dirtyY1 + y = t.cursorY) && !t.isCursorHidden)

/-- The loops of `TTYDraw` over the rows and cells of the rectangle. -/
def ttyPaint (t : Tty) (width height : Nat) (buffer : Nat → Word) : Nat → Word :=
  (List.range height).foldl (fun buffer y =>
    (List.range width).foldl (fun buffer x => ttyBlit font (ttyLookUp d t x y) width x y buffer)
      buffer) buffer

/-- `TTYDraw`. -/
def ttyDrawScreen (s : TtyScreen) : TtyScreen :=
  if !s.tty.isDirty then s
  else
    let width := s.tty.dirtyX2 - s.tty.dirtyX1 + 1
    let height := s.tty.dirtyY2 - s.tty.dirtyY1 + 1
    let buffer := ttyPaint d font s.tty width.toNat height.toNat s.pixelBuffer
    { tty := ttyDraw s.tty
      pixelBuffer := buffer
      texture := s.texture.update ((s.tty.dirtyX1 + ttyMarginCharSide) * font.width)
        ((s.tty.dirtyY1 + ttyMarginCharTop) * font.height) (width * font.width)
        (height * font.height) fun x y => buffer (y * (width.toNat * font.width) + x) }

end

/-! ## One character -/

/-- The pixel of a character: each row of the bitmap makes two rows, the second of which is
black if there are scanlines. -/
def TtyFont.pixel (font : TtyFont) (c : Nat) (fg bg : Word) (i j : Nat) : Word :=
  let row := c * font.pitch * (font.height / 2) + j / 2 * font.pitch
  if font.width < 8 then font.row fg bg row i
  else if j % 2 = 1 then 0 else font.row fg bg row i

variable {font : TtyFont} {destwidth : Nat} {fg bg : Word}

theorem textRow_inside (colour buffer : Nat → Word) {at_ i : Nat} (hi : i < font.width) :
    textRow font colour at_ buffer (at_ + i) = colour i := by
  unfold textRow
  rw [if_pos (by omega), Nat.add_sub_cancel_left]

theorem textRow_outside (colour buffer : Nat → Word) {at_ p : Nat}
    (h : ∀ i, i < font.width → p ≠ at_ + i) : textRow font colour at_ buffer p = buffer p := by
  unfold textRow
  rw [if_neg]
  rintro ⟨hle, hlt⟩
  exact h (p - at_) (by omega) (by omega)

/-- Rows of the bitmap that make two rows each, the second of them with other colours. -/
def textPairs (font : TtyFont) (destwidth : Nat) (first second : Nat → Nat → Word) :
    (pairs fontbmp pixel : Nat) → (Nat → Word) → Nat → Word
  | 0, _, _, buffer => buffer
  | pairs + 1, fontbmp, pixel, buffer =>
      textPairs font destwidth first second pairs (fontbmp + font.pitch) (pixel + 2 * destwidth)
        (textRow font (second fontbmp) (pixel + destwidth)
          (textRow font (first fontbmp) pixel buffer))

theorem textDoubled_pairs (pairs fontbmp thisrow pixel : Nat) (buffer : Nat → Word) :
    textDoubled font destwidth fg bg (2 * pairs) fontbmp thisrow pixel buffer =
      textPairs font destwidth (font.row fg bg) (font.row fg bg) pairs fontbmp pixel buffer := by
  induction pairs generalizing fontbmp thisrow pixel buffer with
  | zero => rfl
  | succ pairs ih =>
      rw [Nat.mul_succ, textDoubled, textDoubled, textPairs]
      have heven : ¬(2 * pairs + 1 + 1) % 2 = 1 := by omega
      have hodd : (2 * pairs + 1) % 2 = 1 := by omega
      have hpixel : pixel + destwidth + destwidth = pixel + 2 * destwidth := by omega
      simp only [heven, hodd, if_true, if_false, hpixel]
      exact ih _ _ _ _

theorem textScanlines_pairs (pairs fontbmp pixel : Nat) (buffer : Nat → Word) :
    textScanlines font destwidth fg bg (2 * pairs) fontbmp pixel buffer =
      textPairs font destwidth (font.row fg bg) (fun _ _ => 0) pairs fontbmp pixel buffer := by
  induction pairs generalizing fontbmp pixel buffer with
  | zero => rfl
  | succ pairs ih =>
      rw [Nat.mul_succ, textScanlines, textPairs]
      have heven : ¬(2 * pairs + 1 + 1) % 2 = 1 := by omega
      have hodd : (2 * pairs + 1) % 2 = 1 := by omega
      have hpixel : pixel + destwidth + destwidth = pixel + 2 * destwidth := by omega
      rw [if_neg heven, textScanlines, if_pos hodd, hpixel]
      exact ih _ _ _

section

variable {first second : Nat → Nat → Word}

theorem textPairs_outside {pairs fontbmp pixel p : Nat} (buffer : Nat → Word)
    (h : ∀ i j, i < font.width → j < 2 * pairs → p ≠ pixel + j * destwidth + i) :
    textPairs font destwidth first second pairs fontbmp pixel buffer p = buffer p := by
  induction pairs generalizing fontbmp pixel buffer with
  | zero => rfl
  | succ pairs ih =>
      rw [textPairs, ih, textRow_outside, textRow_outside]
      · intro i hi
        have hp := h i 0 hi (by omega)
        omega
      · intro i hi
        have hp := h i 1 hi (by omega)
        omega
      · intro i j hi hj
        have hp := h i (j + 2) hi (by omega)
        rw [Nat.add_mul] at hp
        omega

theorem textPairs_inside (hdest : font.width ≤ destwidth) {pairs i j : Nat} (hi : i < font.width)
    (hj : j < 2 * pairs) (fontbmp pixel : Nat) (buffer : Nat → Word) :
    textPairs font destwidth first second pairs fontbmp pixel buffer (pixel + j * destwidth + i) =
      if j % 2 = 1 then second (fontbmp + j / 2 * font.pitch) i
      else first (fontbmp + j / 2 * font.pitch) i := by
  induction pairs generalizing j fontbmp pixel buffer with
  | zero => omega
  | succ pairs ih =>
      rw [textPairs]
      -- The first two rows are not painted again.
      have hrest : ∀ k, k < 2 → ∀ a b, a < font.width → b < 2 * pairs →
          pixel + k * destwidth + i ≠ pixel + 2 * destwidth + b * destwidth + a := by
        intro k hk a b _ _ heq
        have hk' : k * destwidth ≤ destwidth := by
          rcases Nat.lt_succ_iff_lt_or_eq.mp hk with hzero | hone
          · obtain rfl := Nat.lt_one_iff.mp hzero
            omega
          · subst hone
            omega
        have hb : 0 ≤ b * destwidth := Nat.zero_le _
        omega
      rcases j with - | - | j
      · rw [textPairs_outside _ (hrest 0 (by omega)), textRow_outside]
        · have hplace : pixel + 0 * destwidth + i = pixel + i := by omega
          rw [hplace, textRow_inside _ _ hi]
          simp
        · intro a ha
          omega
      · rw [textPairs_outside _ (hrest 1 (by omega))]
        have hplace : pixel + (0 + 1) * destwidth + i = pixel + destwidth + i := by omega
        rw [hplace, textRow_inside _ _ hi]
        simp
      · have hplace : pixel + (j + 1 + 1) * destwidth + i =
            pixel + 2 * destwidth + j * destwidth + i := by
          rw [Nat.succ_mul, Nat.succ_mul]
          omega
        have hrow : fontbmp + font.pitch + j / 2 * font.pitch =
            fontbmp + (j + 1 + 1) / 2 * font.pitch := by
          rw [Nat.add_div_right j (z := 2) (by decide), Nat.succ_mul]
          omega
        have hparity : (j + 1 + 1) % 2 = j % 2 := Nat.add_mod_right j 2
        rw [hplace, ih (by omega), hrow, hparity]

end

/-- `TextBlitCharacter` paints pairs of rows. -/
theorem textBlitCharacter_pairs (heven : font.height % 2 = 0) (c x y : Nat) (buffer : Nat → Word) :
    textBlitCharacter font c x y destwidth fg bg buffer =
      textPairs font destwidth (font.row fg bg)
        (if font.width < 8 then font.row fg bg else fun _ _ => 0) (font.height / 2)
        (c * font.pitch * (font.height / 2)) (y * destwidth + x) buffer := by
  obtain ⟨pairs, hpairs⟩ := Nat.dvd_of_mod_eq_zero heven
  have hhalf : 2 * pairs / 2 = pairs := by omega
  unfold textBlitCharacter
  rw [hpairs, hhalf]
  by_cases hnarrow : font.width < 8
  · rw [if_pos hnarrow, if_pos hnarrow, textDoubled_pairs]
  · rw [if_neg hnarrow, if_neg hnarrow, textScanlines_pairs]

/-- A character is painted where it belongs. -/
theorem textBlitCharacter_inside (heven : font.height % 2 = 0) {c x y i j : Nat}
    (hdest : font.width ≤ destwidth) (hi : i < font.width) (hj : j < font.height)
    (buffer : Nat → Word) :
    textBlitCharacter font c x y destwidth fg bg buffer (y * destwidth + x + j * destwidth + i) =
      font.pixel c fg bg i j := by
  rw [textBlitCharacter_pairs heven, textPairs_inside hdest hi (by omega)]
  unfold TtyFont.pixel
  by_cases hnarrow : font.width < 8
  · rw [if_pos hnarrow, if_pos hnarrow, ite_self]
  · rw [if_neg hnarrow, if_neg hnarrow]

/-- Nothing else is painted. -/
theorem textBlitCharacter_outside (heven : font.height % 2 = 0) {c x y p : Nat}
    (h : ∀ i j, i < font.width → j < font.height → p ≠ y * destwidth + x + j * destwidth + i)
    (buffer : Nat → Word) : textBlitCharacter font c x y destwidth fg bg buffer p = buffer p := by
  rw [textBlitCharacter_pairs heven, textPairs_outside _ fun i j hi hj => h i j hi (by omega)]

/-! ## One rectangle -/

theorem place_unique {w y x y' x' : Nat} (hx : x < w) (hx' : x' < w)
    (h : y * w + x = y' * w + x') : y = y' ∧ x = x' := by
  have hle : y ≤ y' := row_le hx' (by omega)
  have hge : y' ≤ y := row_le hx (by omega)
  obtain rfl := Nat.le_antisymm hle hge
  exact ⟨rfl, by omega⟩

/-- The pixel of a cell. -/
def TtyFont.cell (font : TtyFont) (shown : BitVec 16 × Bool) (i j : Nat) : Word :=
  font.pixel (shown.1 &&& 0x7F).toNat (ttyColours shown).1 (ttyColours shown).2 i j

theorem column_lt {n x w i : Nat} (hx : x < w) (hi : i < n) : x * n + i < w * n := by
  have hle := Nat.mul_le_mul_right n (Nat.succ_le_of_lt hx)
  rw [Nat.succ_mul] at hle
  omega

theorem ttyBlit_inside (heven : font.height % 2 = 0) (shown : BitVec 16 × Bool) {w x i j : Nat}
    (hx : x < w) (hi : i < font.width) (hj : j < font.height) (y : Nat) (buffer : Nat → Word) :
    ttyBlit font shown w x y buffer
        ((y * font.height + j) * (w * font.width) + (x * font.width + i)) =
      font.cell shown i j := by
  have hdest : font.width ≤ w * font.width := Nat.le_mul_of_pos_left _ (by omega)
  have hplace : (y * font.height + j) * (w * font.width) + (x * font.width + i) =
      y * font.height * (w * font.width) + x * font.width + j * (w * font.width) + i := by
    rw [Nat.add_mul]
    omega
  rw [hplace]
  exact textBlitCharacter_inside heven hdest hi hj buffer

theorem ttyBlit_outside (heven : font.height % 2 = 0) (shown : BitVec 16 × Bool)
    {w x y p : Nat}
    (h : ∀ i j, i < font.width → j < font.height →
      p ≠ (y * font.height + j) * (w * font.width) + (x * font.width + i))
    (buffer : Nat → Word) : ttyBlit font shown w x y buffer p = buffer p := by
  refine textBlitCharacter_outside heven (fun i j hi hj => ?_) buffer
  have hne := h i j hi hj
  rw [Nat.add_mul] at hne
  omega

section

variable {d : TtySize} {t : Tty} {w h : Nat}

/-- Every pixel of the rectangle is that of its cell. -/
theorem ttyPaint_inside (heven : font.height % 2 = 0) {x y i j : Nat} (hx : x < w) (hy : y < h)
    (hi : i < font.width) (hj : j < font.height) (buffer : Nat → Word) :
    ttyPaint d font t w h buffer
        ((y * font.height + j) * (w * font.width) + (x * font.width + i)) =
      font.cell (ttyLookUp d t x y) i j := by
  -- Only its own cell paints it.
  have hother : ∀ x' y', x' < w → (x' ≠ x ∨ y' ≠ y) → ∀ buffer : Nat → Word,
      ttyBlit font (ttyLookUp d t x' y') w x' y' buffer
          ((y * font.height + j) * (w * font.width) + (x * font.width + i)) =
        buffer ((y * font.height + j) * (w * font.width) + (x * font.width + i)) := by
    intro x' y' hx' hne
    refine ttyBlit_outside heven _ fun i' j' hi' hj' heq => ?_
    obtain ⟨hrow, hcolumn⟩ := place_unique (column_lt hx hi) (column_lt hx' hi') heq
    have hy' := (place_unique hj hj' hrow).1
    have hx' := (place_unique hi hi' hcolumn).1
    exact hne.elim (fun hne => hne hx'.symm) fun hne => hne hy'.symm
  refine foldl_paint (k := y) (List.mem_range.mpr hy) (fun buffer => ?_) ?_ buffer
  · refine foldl_paint (k := x) (List.mem_range.mpr hx) (ttyBlit_inside heven _ hx hi hj y) ?_
      buffer
    intro x' hx' hne
    exact hother x' y (List.mem_range.mp hx') (.inl hne)
  · intro y' _ hne buffer
    refine foldl_paint_outside (fun x' hx' => ?_) buffer
    exact hother x' y' (List.mem_range.mp hx') (.inr hne)

/-- What is past the rectangle is not touched. -/
theorem ttyPaint_outside (heven : font.height % 2 = 0) {p : Nat}
    (hp : h * font.height * (w * font.width) ≤ p) (buffer : Nat → Word) :
    ttyPaint d font t w h buffer p = buffer p := by
  refine foldl_paint_outside (fun y hy buffer => ?_) buffer
  refine foldl_paint_outside (fun x hx => ?_) buffer
  refine ttyBlit_outside heven _ fun i j hi hj => ?_
  have hcolumn := column_lt (List.mem_range.mp hx) hi
  have hrow := column_lt (List.mem_range.mp hy) hj
  have hlt := column_lt hrow hcolumn
  omega

/-- In a rectangle on the screen, the cells are looked up where they are. -/
theorem ttyLookUp_shown {x1 y1 x y : Nat} (hx1 : t.dirtyX1 = x1) (hy1 : t.dirtyY1 = y1)
    (hx : x1 + x < d.width) (hy : y1 + y < d.height) :
    ttyLookUp d t x y = t.shown d (x1 + x) (y1 + y) := by
  have hlt : (y1 + y) * d.width + (x1 + x) < d.height * d.width := column_lt hy hx
  have hsmall := d.small
  rw [Nat.mul_comm d.width] at hsmall
  rw [Nat.add_mul] at hlt
  have haddr : u32 (t.dirtyY1 * d.width + t.dirtyX1) = y1 * d.width + x1 := by
    rw [hx1, hy1, ← Int.natCast_mul, ← Int.natCast_add]
    exact u32_natCast (by omega)
  unfold ttyLookUp Tty.shown
  rw [haddr, hx1, hy1]
  have hplace : ((y1 * d.width + x1 + y * d.width) % 4294967296 + x) % 4294967296 =
      (y1 + y) * d.width + (x1 + x) := by
    rw [Nat.add_mul]
    omega
  simp only [hplace, Int.natCast_add]

end

/-! ## One draw -/

section

variable {d : TtySize} {t : Tty}

/-- A rectangle on the screen, with its width and height. -/
theorem Tty.RectOk.sizes (hok : t.RectOk d) :
    ∃ x1 y1 w h : Nat, t.dirtyX1 = x1 ∧ t.dirtyY1 = y1 ∧
      t.dirtyX2 = x1 + w - 1 ∧ t.dirtyY2 = y1 + h - 1 ∧ x1 + w ≤ d.width ∧ y1 + h ≤ d.height := by
  obtain ⟨⟨hx0, hxo, hxb⟩, hy0, hyo, hyb⟩ := hok
  refine ⟨t.dirtyX1.toNat, t.dirtyY1.toNat, (t.dirtyX2 - t.dirtyX1 + 1).toNat,
    (t.dirtyY2 - t.dirtyY1 + 1).toNat, ?_, ?_, ?_, ?_, ?_, ?_⟩ <;> omega

/-- `TTYDraw` of a rectangle on the screen. -/
theorem ttyDrawScreen_dirty (hdirty : t.isDirty = true) {x1 y1 w h : Nat}
    (hx1 : t.dirtyX1 = x1) (hy1 : t.dirtyY1 = y1) (hx2 : t.dirtyX2 = x1 + w - 1)
    (hy2 : t.dirtyY2 = y1 + h - 1) (buffer : Nat → Word) (texture : SdlTexture) :
    ttyDrawScreen d font ⟨t, buffer, texture⟩ =
      ⟨ttyDraw t, ttyPaint d font t w h buffer,
        texture.update ((x1 + ttyMarginCharSide) * font.width : Nat)
          ((y1 + ttyMarginCharTop) * font.height : Nat) (w * font.width : Nat)
          (h * font.height : Nat)
          fun x y => ttyPaint d font t w h buffer (y * (w * font.width) + x)⟩ := by
  have hw : t.dirtyX2 - x1 + 1 = w := by omega
  have hh : t.dirtyY2 - y1 + 1 = h := by omega
  unfold ttyDrawScreen
  simp only [hdirty, Bool.not_true, Bool.false_eq_true, if_false, hx1, hy1, hw, hh,
    Int.toNat_natCast, Int.natCast_mul, Int.natCast_add]

theorem ttyDrawScreen_clean (hclean : t.isDirty = false) (buffer : Nat → Word)
    (texture : SdlTexture) :
    ttyDrawScreen d font ⟨t, buffer, texture⟩ = ⟨t, buffer, texture⟩ := by
  unfold ttyDrawScreen
  rw [hclean]
  rfl

/-- The cells of the rectangle are painted. -/
theorem ttyDrawScreen_inside (heven : font.height % 2 = 0) (hok : t.RectOk d) {x y i j : Nat}
    (hin : t.InRect x y) (hi : i < font.width) (hj : j < font.height) (buffer : Nat → Word)
    (texture : SdlTexture) :
    (ttyDrawScreen d font ⟨t, buffer, texture⟩).texture
        ((x + ttyMarginCharSide) * font.width + i) ((y + ttyMarginCharTop) * font.height + j) =
      font.cell (t.shown d x y) i j := by
  obtain ⟨x1, y1, w, h, hx1, hy1, hx2, hy2, hwidth, hheight⟩ := hok.sizes
  obtain ⟨hdirty, hleft, hright, htop, hbottom⟩ := hin
  obtain ⟨x, rfl⟩ := Nat.exists_eq_add_of_le (show x1 ≤ x by omega)
  obtain ⟨y, rfl⟩ := Nat.exists_eq_add_of_le (show y1 ≤ y by omega)
  have hx : x < w := by omega
  have hy : y < h := by omega
  have hcolumn := column_lt hx hi
  have hrow := column_lt hy hj
  have hxplace : (x1 + x + ttyMarginCharSide) * font.width =
      (x1 + ttyMarginCharSide) * font.width + x * font.width := by
    rw [Nat.add_right_comm, Nat.add_mul]
  have hyplace : (y1 + y + ttyMarginCharTop) * font.height =
      (y1 + ttyMarginCharTop) * font.height + y * font.height := by
    rw [Nat.add_right_comm, Nat.add_mul]
  rw [ttyDrawScreen_dirty hdirty hx1 hy1 hx2 hy2]
  dsimp only
  rw [SdlTexture.update_inside (i := x * font.width + i) (j := y * font.height + j) _ _ (by omega)
    (by omega) (by omega) (by omega), ttyPaint_inside heven hx hy hi hj,
    ttyLookUp_shown hx1 hy1 (by omega) (by omega)]

/-- The rest of the texture stays. -/
theorem ttyDrawScreen_outside (hok : t.isDirty = true → t.RectOk d) {px py : Nat}
    (hout : ∀ x1 y1 w h : Nat, t.isDirty = true → t.dirtyX1 = x1 → t.dirtyY1 = y1 →
      t.dirtyX2 = x1 + w - 1 → t.dirtyY2 = y1 + h - 1 → x1 + w ≤ d.width → y1 + h ≤ d.height →
      (x1 + ttyMarginCharSide) * font.width ≤ px →
      px < (x1 + ttyMarginCharSide + w) * font.width →
      (y1 + ttyMarginCharTop) * font.height ≤ py →
      py < (y1 + ttyMarginCharTop + h) * font.height → False)
    (buffer : Nat → Word) (texture : SdlTexture) :
    (ttyDrawScreen d font ⟨t, buffer, texture⟩).texture px py = texture px py := by
  cases hdirty : t.isDirty with
  | false => rw [ttyDrawScreen_clean hdirty]
  | true =>
      obtain ⟨x1, y1, w, h, hx1, hy1, hx2, hy2, hwidth, hheight⟩ := (hok hdirty).sizes
      rw [ttyDrawScreen_dirty hdirty hx1 hy1 hx2 hy2]
      dsimp only
      refine SdlTexture.update_outside _ _ ?_
      rintro ⟨hleft, hright, htop, hbottom⟩
      refine hout x1 y1 w h hdirty hx1 hy1 hx2 hy2 hwidth hheight ?_ ?_ ?_ ?_
      · omega
      · rw [Nat.add_mul]
        omega
      · omega
      · rw [Nat.add_mul]
        omega

/-- The margins of the texture, around the cells. -/
def TtyMargin (d : TtySize) (font : TtyFont) (px py : Nat) : Prop :=
  px < ttyMarginCharSide * font.width ∨ (d.width + ttyMarginCharSide) * font.width ≤ px ∨
    py < ttyMarginCharTop * font.height ∨ (d.height + ttyMarginCharTop) * font.height ≤ py

theorem ttyDrawScreen_margin (hok : t.isDirty = true → t.RectOk d) {px py : Nat}
    (hmargin : TtyMargin d font px py) (buffer : Nat → Word) (texture : SdlTexture) :
    (ttyDrawScreen d font ⟨t, buffer, texture⟩).texture px py = texture px py := by
  refine ttyDrawScreen_outside hok ?_ buffer texture
  intro x1 y1 w h _ _ _ _ _ hwidth hheight hleft hright htop hbottom
  have hleft' := Nat.mul_le_mul_right font.width (Nat.le_add_left ttyMarginCharSide x1)
  have hright' : (x1 + ttyMarginCharSide + w) * font.width ≤
      (d.width + ttyMarginCharSide) * font.width := Nat.mul_le_mul_right _ (by omega)
  have htop' := Nat.mul_le_mul_right font.height (Nat.le_add_left ttyMarginCharTop y1)
  have hbottom' : (y1 + ttyMarginCharTop + h) * font.height ≤
      (d.height + ttyMarginCharTop) * font.height := Nat.mul_le_mul_right _ (by omega)
  rcases hmargin with hmargin | hmargin | hmargin | hmargin <;> omega

/-- A cell that is not in the rectangle keeps its pixels. -/
theorem ttyDrawScreen_other (hok : t.isDirty = true → t.RectOk d) {x y i j : Nat}
    (hin : ¬t.InRect x y) (hi : i < font.width) (hj : j < font.height) (buffer : Nat → Word)
    (texture : SdlTexture) :
    (ttyDrawScreen d font ⟨t, buffer, texture⟩).texture
        ((x + ttyMarginCharSide) * font.width + i) ((y + ttyMarginCharTop) * font.height + j) =
      texture ((x + ttyMarginCharSide) * font.width + i)
        ((y + ttyMarginCharTop) * font.height + j) := by
  refine ttyDrawScreen_outside hok ?_ buffer texture
  intro x1 y1 w h hdirty hx1 hy1 hx2 hy2 _ _ hleft hright htop hbottom
  have hx := row_le hi hleft
  have hx' := row_lt hright
  have hy := row_le hj htop
  have hy' := row_lt hbottom
  exact hin ⟨hdirty, by omega, by omega, by omega, by omega⟩

/-- The buffer is large enough for the rectangle. -/
theorem ttyDraw_inside (heven : font.height % 2 = 0)
    (hsize : d.height * font.height * (d.width * font.width) ≤ 1024 * 768)
    (hok : t.isDirty = true → t.RectOk d) {p : Nat} (hp : 1024 * 768 ≤ p)
    (buffer : Nat → Word) (texture : SdlTexture) :
    (ttyDrawScreen d font ⟨t, buffer, texture⟩).pixelBuffer p = buffer p := by
  cases hdirty : t.isDirty with
  | false => rw [ttyDrawScreen_clean hdirty]
  | true =>
      obtain ⟨x1, y1, w, h, hx1, hy1, hx2, hy2, hwidth, hheight⟩ := (hok hdirty).sizes
      rw [ttyDrawScreen_dirty hdirty hx1 hy1 hx2 hy2]
      refine ttyPaint_outside heven ?_ buffer
      have hrows : h * font.height ≤ d.height * font.height :=
        Nat.mul_le_mul_right _ (by omega)
      have hcolumns : w * font.width ≤ d.width * font.width := Nat.mul_le_mul_right _ (by omega)
      exact Nat.le_trans (Nat.mul_le_mul hrows hcolumns) (Nat.le_trans hsize hp)

end

/-! ## Every run of draws -/

section

variable (d : TtySize) (font80 font132 : Nat → Byte) (blank : SdlTexture)

/-- The screens after each draw, when no character blinks the cursor at the edge. The buffer of
pixels is that of all the terminals, so that it holds anything when a draw begins. -/
inductive TtyShown : TtyScreen → Prop
  | first (index : Nat) (params : Nat → Word) {t : Tty}
      (run : TtyAfter d (fun t c => ¬t.BlinksAtEdge d c) (ttyFresh d index params) t)
      (buffer : Nat → Word) :
      TtyShown (ttyDrawScreen d (ttyFontOf d font80 font132) ⟨t, buffer, blank⟩)
  | frame {s : TtyScreen} (h : TtyShown s) {t : Tty}
      (run : TtyAfter d (fun t c => ¬t.BlinksAtEdge d c) s.tty t) (buffer : Nat → Word) :
      TtyShown (ttyDrawScreen d (ttyFontOf d font80 font132) ⟨t, buffer, s.texture⟩)

/-- The texture is that of a full redraw, and its margins are those of the start. -/
structure TtyScreen.Right (s : TtyScreen) : Prop where
  cells : ∀ x y i j, x < d.width → y < d.height → i < (ttyFontOf d font80 font132).width →
    j < (ttyFontOf d font80 font132).height →
    s.texture ((x + ttyMarginCharSide) * (ttyFontOf d font80 font132).width + i)
        ((y + ttyMarginCharTop) * (ttyFontOf d font80 font132).height + j) =
      (ttyFontOf d font80 font132).cell (s.tty.shown d x y) i j
  margins : ∀ px py, TtyMargin d (ttyFontOf d font80 font132) px py →
    s.texture px py = blank px py

end

section

variable {d : TtySize} {font80 font132 : Nat → Byte} {blank : SdlTexture}

theorem ttyFontOf_even : (ttyFontOf d font80 font132).height % 2 = 0 := by
  unfold ttyFontOf
  split
  · simp [ttyFont80]
  · simp [ttyFont132]

theorem ttyDrawScreen_shown (s : TtyScreen) :
    (ttyDrawScreen d font s).tty.shown d = s.tty.shown d := by
  unfold ttyDrawScreen
  split <;> rfl

theorem ttyDrawScreen_inv {s : TtyScreen} (h : s.tty.Inv d) :
    (ttyDrawScreen d font s).tty.Inv d := by
  refine h.keeps ?_
  unfold ttyDrawScreen
  split <;> exact ⟨rfl, rfl, rfl, rfl, rfl, rfl⟩

theorem ttyDrawScreen_drawn (s : TtyScreen) : (ttyDrawScreen d font s).tty.isDirty = false := by
  unfold ttyDrawScreen
  split
  · rename_i hclean
    simpa using hclean
  · rfl

/-- A draw makes the screen right if what is not in the rectangle is right already. -/
theorem ttyDrawScreen_right {t : Tty} (hok : t.isDirty = true → t.RectOk d)
    {texture : SdlTexture}
    (hcells : ∀ x y i j, x < d.width → y < d.height → ¬t.InRect x y →
      i < (ttyFontOf d font80 font132).width → j < (ttyFontOf d font80 font132).height →
      texture ((x + ttyMarginCharSide) * (ttyFontOf d font80 font132).width + i)
          ((y + ttyMarginCharTop) * (ttyFontOf d font80 font132).height + j) =
        (ttyFontOf d font80 font132).cell (t.shown d x y) i j)
    (hmargins : ∀ px py, TtyMargin d (ttyFontOf d font80 font132) px py →
      texture px py = blank px py) (buffer : Nat → Word) :
    (ttyDrawScreen d (ttyFontOf d font80 font132) ⟨t, buffer, texture⟩).Right d font80 font132
      blank := by
  constructor
  · intro x y i j hx hy hi hj
    rw [ttyDrawScreen_shown]
    by_cases hin : t.InRect x y
    · exact ttyDrawScreen_inside ttyFontOf_even (hok hin.dirty) hin hi hj buffer texture
    · rw [ttyDrawScreen_other hok hin hi hj]
      exact hcells x y i j hx hy hin hi hj
  · intro px py hmargin
    rw [ttyDrawScreen_margin hok hmargin]
    exact hmargins px py hmargin

theorem ttyFresh_rect (d : TtySize) (index : Nat) (params : Nat → Word) :
    (ttyFresh d index params).RectOk d := by
  have hw := d.width_pos
  have hh := d.height_pos
  refine ⟨⟨Int.le_refl 0, ?_, ?_⟩, Int.le_refl 0, ?_, ?_⟩ <;> dsimp only [ttyFresh] <;> omega

/-- What is true of the screen after each draw. -/
structure TtyScreen.Drawn (d : TtySize) (font80 font132 : Nat → Byte) (blank : SdlTexture)
    (s : TtyScreen) : Prop where
  inv : s.tty.Inv d
  clean : s.tty.isDirty = false
  right : s.Right d font80 font132 blank

theorem TtyShown.drawn {s : TtyScreen} (h : TtyShown d font80 font132 blank s) :
    s.Drawn d font80 font132 blank := by
  induction h with
  | first index params run buffer =>
      -- The first rectangle is the whole screen, and it never shrinks.
      obtain ⟨hinv, hcovers⟩ := run.covers (ttyFresh_inv d index params)
        fun _ => ttyFresh_rect d index params
      refine ⟨ttyDrawScreen_inv hinv, ttyDrawScreen_drawn _,
        ttyDrawScreen_right hcovers.rect ?_ (fun _ _ _ => rfl) buffer⟩
      intro x y _ _ hx hy hin
      refine absurd (hcovers.grows x y ⟨rfl, ?_, ?_, ?_, ?_⟩) hin <;> dsimp only [ttyFresh] <;>
        omega
  | @frame s _ t run buffer ih =>
      obtain ⟨hinv, hclean, hright⟩ := ih
      obtain ⟨hinv', hcovers⟩ := run.covers hinv fun hdirty => by
        rw [hclean] at hdirty
        cases hdirty
      refine ⟨ttyDrawScreen_inv hinv', ttyDrawScreen_drawn _,
        ttyDrawScreen_right hcovers.rect ?_ hright.margins buffer⟩
      intro x y i j hx hy hin hi hj
      have hsame : t.shown d x y = s.tty.shown d x y := by
        by_contra hne
        exact hin (hcovers.cells x y hx hy hne)
      rw [hsame]
      exact hright.cells x y i j hx hy hi hj

/-- After every draw the texture shows all the cells as they are, and the margins are as they
were. -/
theorem tty_redraws {s : TtyScreen} (h : TtyShown d font80 font132 blank s) :
    s.Right d font80 font132 blank := h.drawn.right

end

/-- Two draws of a terminal of 80 columns, with one character between them. -/
theorem tty_redraws_character :
    ∃ t, ttyPutCharacter ttySize80
        (ttyDrawScreen ttySize80 (ttyFontOf ttySize80 (fun _ => 3) fun _ => 5)
          ⟨ttyFresh ttySize80 0 fun _ => 0, fun _ => 0, fun _ _ => 9⟩).tty (chr 'A') = some t ∧
      (ttyDrawScreen ttySize80 (ttyFontOf ttySize80 (fun _ => 3) fun _ => 5)
        ⟨t, fun _ => 1, (ttyDrawScreen ttySize80 (ttyFontOf ttySize80 (fun _ => 3) fun _ => 5)
          ⟨ttyFresh ttySize80 0 fun _ => 0, fun _ => 0, fun _ _ => 9⟩).texture⟩).Right ttySize80
        (fun _ => 3) (fun _ => 5) fun _ _ => 9 := by
  have hfirst : TtyShown ttySize80 (fun _ => 3) (fun _ => 5) (fun _ _ => 9)
      (ttyDrawScreen ttySize80 (ttyFontOf ttySize80 (fun _ => 3) fun _ => 5)
        ⟨ttyFresh ttySize80 0 fun _ => 0, fun _ => 0, fun _ _ => 9⟩) :=
    .first 0 (fun _ => 0) .refl fun _ => 0
  obtain ⟨t, heq, -⟩ := ttyPutCharacter_inv hfirst.drawn.inv (chr 'A')
  refine ⟨t, heq, tty_redraws (hfirst.frame (.put .refl _ ?_ heq) fun _ => 1)⟩
  intro hblinks
  exact absurd hblinks.escape (by decide)

end Xremu
