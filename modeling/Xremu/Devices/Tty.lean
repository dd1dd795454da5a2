import Xremu.Machine.Processor

/-!
# The terminal

`TTYPutCharacter` on a screen of `Width` by `Height` cells: control characters, escape
sequences, scrolling, the cursor and the rectangle of cells that have to be drawn again.

A `Tty` is changed by a byte or, where an access of `TextBuffer` would leave its cells, not
at all: the functions that touch the buffer return an `Option`. The fields that C has as
`int` are integers and those it has as `uint32_t` are numbers, and where the two meet in a
comparison or an index the conversion is written: `u32` and `i32`.
-/

namespace Xremu

/-- The conversion to `uint32_t`. -/
def u32 (x : Int) : Nat := (x % 4294967296).toNat

/-- The conversion of a `uint32_t` to `int`. -/
def i32 (n : Nat) : Int := if n < 2147483648 then n else n - 4294967296

/-- The width and height of a terminal. `TTYCreate` computes the bytes of its buffer in an
`int`. -/
structure TtySize where
  width : Nat
  height : Nat
  width_pos : 0 < width
  height_pos : 0 < height
  small : width * height * 2 < 2147483648

abbrev ttyParamCount : Nat := 4

/-- An empty cell, `TTYDEFAULTATTR << 8`. -/
def ttyBlank : BitVec 16 := 0x0F00

/-- The `TTY`, with what its `Input` was called with. `IsEscape` is 0, 1 or 2. -/
structure Tty where
  textBuffer : Nat → BitVec 16
  cursorX : Int
  cursorY : Int
  dirtyX1 : Int
  dirtyY1 : Int
  dirtyX2 : Int
  dirtyY2 : Int
  isDirty : Bool
  isEscape : Nat
  isCursorHidden : Bool
  escapeIndex : Nat
  escapeParams : Nat → Word
  scrollWindowTop : Nat
  scrollWindowBottom : Nat
  currentAttributes : Word
  input : List Char

/-- The terminal with the cursor elsewhere. -/
def Tty.moved (t : Tty) (x y : Int) : Tty := { t with cursorX := x, cursorY := y }

section

variable (d : TtySize)

/-! ## The text buffer -/

/-- `TextBuffer[i] = cell`. -/
def ttyStore (t : Tty) (i : Int) (cell : BitVec 16) : Option Tty :=
  if 0 ≤ i ∧ i < d.width * d.height then
    some { t with textBuffer := Function.update t.textBuffer i.toNat cell }
  else none

/-- The loops that clear `count` cells from `i` on. -/
def ttyClear : Nat → Int → Tty → Option Tty
  | 0, _, t => some t
  | count + 1, i, t => (ttyStore d t i ttyBlank).bind (ttyClear count (i + 1))

/-- `memmove` of `count` cells. -/
def ttyMove (t : Tty) (dst src count : Nat) : Option Tty :=
  if dst + count ≤ d.width * d.height ∧ src + count ≤ d.width * d.height then
    some { t with
      textBuffer := fun i =>
        if dst ≤ i ∧ i < dst + count then t.textBuffer (src + (i - dst)) else t.textBuffer i }
  else none

/-! ## The dirty rectangle and the cursor -/

/-- The far one of two coordinates, which `TTYMakeDirty` clamps. -/
def ttyFar (size a b : Nat) : Nat := if max a b ≥ size then size - 1 else max a b

/-- `TTYMakeDirty`. -/
def ttyMakeDirty (x1 y1 x2 y2 : Nat) (t : Tty) : Tty :=
  let left := min x1 x2
  let top := min y1 y2
  let right := ttyFar d.width x1 x2
  let bottom := ttyFar d.height y1 y2
  if !t.isDirty then
    { t with
      dirtyX1 := i32 left, dirtyY1 := i32 top, dirtyX2 := i32 right, dirtyY2 := i32 bottom
      isDirty := true }
  else
    { t with
      dirtyX1 := if left < u32 t.dirtyX1 then i32 left else t.dirtyX1
      dirtyY1 := if top < u32 t.dirtyY1 then i32 top else t.dirtyY1
      dirtyX2 := if right > u32 t.dirtyX2 then i32 right else t.dirtyX2
      dirtyY2 := if bottom > u32 t.dirtyY2 then i32 bottom else t.dirtyY2 }

/-- How `TTYMoveCursor` keeps a coordinate below `size`: the first comparison is one of
`uint32_t`. -/
def ttyClamp (size : Nat) (x : Int) : Int :=
  let x := if u32 x ≥ size then (size - 1 : Int) else x
  if x < 0 then 0 else x

/-- `TTYMoveCursor`. -/
def ttyMoveCursor (x y : Int) (t : Tty) : Tty :=
  let x := ttyClamp d.width x
  let y := ttyClamp d.height y
  (ttyMakeDirty d (u32 t.cursorX) (u32 t.cursorY) (u32 x) (u32 y) t).moved x y

/-- `TTYDraw`, as far as the terminal is concerned. -/
def ttyDraw (t : Tty) : Tty := { t with isDirty := false }

/-! ## Scrolling, newline and backspace -/

/-- The cells that a scroll moves: the bytes given to `memmove` are twice as many. -/
def Tty.scrolled (t : Tty) : Nat :=
  u32 ((t.scrollWindowBottom - t.scrollWindowTop) * d.width * 2) / 2

/-- The first cell of the scroll window. -/
def Tty.window (t : Tty) : Nat := u32 (t.scrollWindowTop * d.width)

/-- `TTYScrollUp`. -/
def ttyScrollUp (t : Tty) : Option Tty :=
  ((ttyMove d t (t.window d) (t.window d + d.width) (t.scrolled d)).bind
    (ttyClear d d.width
      (t.window d + u32 ((t.scrollWindowBottom - t.scrollWindowTop) * d.width)))).map
    (ttyMakeDirty d 0 t.scrollWindowTop (d.width - 1) t.scrollWindowBottom)

/-- `TTYScrollDown`. -/
def ttyScrollDown (t : Tty) : Option Tty :=
  ((ttyMove d t (t.window d + d.width) (t.window d) (t.scrolled d)).bind
    (ttyClear d d.width (t.window d))).map
    (ttyMakeDirty d 0 t.scrollWindowTop (d.width - 1) t.scrollWindowBottom)

/-- `TTYNewline`. -/
def ttyNewline (t : Tty) : Option Tty :=
  let t := t.moved t.cursorX (t.cursorY + 1)
  let t := ttyMakeDirty d (u32 t.cursorX) (u32 (t.cursorY - 1)) 0 (u32 t.cursorY) t
  if u32 t.cursorY > t.scrollWindowBottom then
    ttyScrollUp d (t.moved t.cursorX (i32 t.scrollWindowBottom))
  else some t

/-- The cursor after `TTYBackspace`. -/
def Tty.backspaced (t : Tty) : Int × Int :=
  if t.cursorX - 1 = -1 then
    if t.cursorY - 1 = -1 then (0, 0) else (d.width - 1, t.cursorY - 1)
  else (t.cursorX - 1, t.cursorY)

/-- `TTYBackspace`. -/
def ttyBackspace (t : Tty) : Tty :=
  let cursor := t.backspaced d
  ttyMakeDirty d (u32 t.cursorX) (u32 t.cursorY) (u32 cursor.1) (u32 cursor.2)
    (t.moved cursor.1 cursor.2)

/-! ## Escape sequences -/

/-- The attributes after `TTYEscSetColor`. -/
def ttyEscSetColor (t : Tty) : Tty :=
  let param := t.escapeParams 0
  let attr := t.currentAttributes
  let attr : Word :=
    if param = 0 then 0x0F
    else if param = 7 then attr.sshiftRight 4 ||| attr <<< 4
    else if param = 39 then attr &&& 0xF0 ||| 0x0F
    else if param = 49 then attr &&& 0x0F
    else if 30 ≤ param.toInt ∧ param.toInt ≤ 37 then attr &&& 0xF0 ||| (param - 30)
    else if 40 ≤ param.toInt ∧ param.toInt ≤ 47 then attr &&& 0x0F ||| (param - 40) <<< 4
    else if 90 ≤ param.toInt ∧ param.toInt ≤ 97 then attr &&& 0xF0 ||| (param - 90 + 8)
    else if 100 ≤ param.toInt ∧ param.toInt ≤ 107 then
      attr &&& 0x0F ||| (param - 100 + 8) <<< 4
    else attr
  { t with currentAttributes := attr }

/-- `TTYEscClear`. -/
def ttyEscClear (t : Tty) : Option Tty :=
  if t.escapeParams 0 = 2 then
    (ttyClear d (d.width * d.height) 0 t).map fun t =>
      ttyMakeDirty d 0 0 (d.width - 1) (d.height - 1)
        { t with
          isCursorHidden := false, scrollWindowTop := 0, scrollWindowBottom := d.height - 1 }
  else some t

/-- `TTYEscClearLine`. -/
def ttyEscClearLine (t : Tty) : Option Tty :=
  let line := u32 (t.cursorY * d.width)
  if t.escapeParams 0 = 0 then
    ttyClear d (i32 (u32 (d.width - t.cursorX))).toNat (line + t.cursorX)
      (ttyMakeDirty d (u32 t.cursorX) (u32 t.cursorY) (d.width - 1) (u32 t.cursorY) t)
  else if t.escapeParams 0 = 2 then
    ttyClear d d.width line
      (ttyMakeDirty d 0 (u32 t.cursorY) (d.width - 1) (u32 t.cursorY) t)
  else some t

/-- A margin of the scroll window from its parameter: `0`, and a row that does not exist,
stand for a default. -/
def ttyMargin (param : Word) (absent outside : Nat) : Nat :=
  if param = 0 then absent
  else if (param - 1).toNat ≥ d.height then outside
  else (param - 1).toNat

/-- `TTYEscSetScrollMargins`. -/
def ttyEscSetScrollMargins (t : Tty) : Tty :=
  let top := ttyMargin d (t.escapeParams 0) 0 0
  let bottom := ttyMargin d (t.escapeParams 1) (d.height - 1) 0
  { t with
    scrollWindowTop := top
    scrollWindowBottom := if bottom < top then top else bottom }

/-- The answer to the query of the cursor position. -/
def ttyReport (t : Tty) : Tty :=
  { t with
    input := t.input ++ ('\x1B' :: ("[" ++ toString (t.cursorY + 1) ++ ";" ++
      toString (t.cursorX + 1) ++ "R").toList) }

/-- The show and hide commands. -/
def ttySetHidden (hidden : Bool) (t : Tty) : Tty :=
  { (if t.isCursorHidden = hidden then t
      else ttyMakeDirty d (u32 t.cursorX) (u32 t.cursorY) (u32 t.cursorX) (u32 t.cursorY) t) with
    isCursorHidden := hidden }

/-- A `char` of C, as a number. -/
def chr (c : Char) : Int := c.toNat

/-- The last character of an escape sequence. -/
def ttyEscapeCommand (t : Tty) (c : Int) : Option Tty :=
  if c = chr 'm' then some (ttyEscSetColor t)
  else if c = chr 'H' then
    some (ttyMoveCursor d (t.escapeParams 1 - 1).toInt (t.escapeParams 0 - 1).toInt t)
  else if c = chr 'J' then ttyEscClear d t
  else if c = chr 'K' then ttyEscClearLine d t
  else if c = chr '?' then some { t with isEscape := 2 }
  else if c = chr 'r' then some (ttyEscSetScrollMargins d t)
  else if c = chr 'S' then ttyScrollUp d t
  else if c = chr 'T' then ttyScrollDown d t
  else if c = chr 'n' then some (ttyReport t)
  else some t

/-- `TTYParseEscape`. -/
def ttyParseEscape (t : Tty) (c : Int) : Option Tty :=
  if chr '0' ≤ c ∧ c ≤ chr '9' then
    some { t with
      escapeParams := Function.update t.escapeParams t.escapeIndex
        (t.escapeParams t.escapeIndex * 10 + BitVec.ofInt 32 (c - chr '0')) }
  else if t.isEscape = 1 then
    if c = chr '[' then some t
    else if c = chr ';' then
      some { t with
        escapeIndex := if t.escapeIndex + 1 ≥ ttyParamCount then 0 else t.escapeIndex + 1 }
    else ttyEscapeCommand d { t with isEscape := 0 } c
  else if t.isEscape = 2 then
    let t := { t with isEscape := 0 }
    if t.escapeParams 0 = 25 then
      if c = chr 'h' then some (ttySetHidden d false t)
      else if c = chr 'l' then some (ttySetHidden d true t)
      else some t
    else some t
  else some t

/-! ## Characters -/

/-- The tab stop after the cursor, `(CursorX + 1 + 7) & ~7`, or the last column. -/
def Tty.tabbed (t : Tty) : Int :=
  let x := (t.cursorX + 1 + 7) / 8 * 8
  if u32 x ≥ d.width then d.width - 1 else x

/-- The cell that shows `c`. -/
def Tty.cell (t : Tty) (c : Int) : BitVec 16 :=
  (t.currentAttributes <<< 8 ||| BitVec.ofInt 32 c).setWidth 16

/-- A character that is shown: a cursor past the last column goes to the next line first. -/
def ttyShow (t : Tty) (c : Int) : Option Tty :=
  ((if u32 t.cursorX ≥ d.width then ttyNewline d (t.moved 0 t.cursorY) else some t).bind
    fun u => ttyStore d u (u32 (u.cursorY * d.width + u.cursorX)) (u.cell c)).map fun u =>
      ttyMakeDirty d (u32 t.cursorX) (u32 t.cursorY) (u32 (u.cursorX + 1)) (u32 u.cursorY)
        (u.moved (u.cursorX + 1) u.cursorY)

/-- `TTYPutCharacter`. -/
def ttyPutCharacter (t : Tty) (c : Int) : Option Tty :=
  if c > 0x7F then some t
  else if c = 0 then some t
  else if t.isEscape ≠ 0 then ttyParseEscape d t c
  else if c = chr '\n' then ttyNewline d t
  else if c = chr '\x08' then some (ttyBackspace d t)
  else if c = chr '\r' then
    some (ttyMakeDirty d (u32 t.cursorX) (u32 t.cursorY) 0 (u32 t.cursorY)
      (t.moved 0 t.cursorY))
  else if c = chr '\t' then
    some (ttyMakeDirty d (u32 t.cursorX) (u32 t.cursorY) (u32 (t.tabbed d)) (u32 t.cursorY)
      (t.moved (t.tabbed d) t.cursorY))
  else if c = chr '\x1B' then
    some { t with
      isEscape := 1, escapeIndex := 0
      escapeParams := fun i => if i < ttyParamCount then 0 else t.escapeParams i }
  else ttyShow d t c

/-- The `char` that a byte is, where it is signed and where it is not. -/
def ttyChar (signed : Bool) (b : Byte) : Int := if signed then b.toInt else b.toNat

end

/-- The terminal that `TTYCreate` makes. The parameters of the escape sequences are not
initialised. -/
def ttyFresh (d : TtySize) (index : Nat) (params : Nat → Word) : Tty where
  textBuffer := fun _ => ttyBlank
  cursorX := 0
  cursorY := 0
  dirtyX1 := 0
  dirtyY1 := 0
  dirtyX2 := d.width - 1
  dirtyY2 := d.height - 1
  isDirty := true
  isEscape := 0
  isCursorHidden := false
  escapeIndex := index
  escapeParams := params
  scrollWindowTop := 0
  scrollWindowBottom := d.height - 1
  currentAttributes := 0x0F
  input := []

theorem ttySize_small {width height : Int} (hw : 0 < width) (hh : 0 < height)
    (hsmall : width * height * 2 < 2147483648) :
    width.toNat * height.toNat * 2 < 2147483648 := by
  have hcast : ((width.toNat * height.toNat * 2 : Nat) : Int) = width * height * 2 := by
    rw [Int.natCast_mul, Int.natCast_mul, Int.toNat_of_nonneg (by omega),
      Int.toNat_of_nonneg (by omega)]
    rfl
  omega

/-- `FontWidth`: `FONTWIDTH_80COL` or `FONTWIDTH_132COL`. -/
def ttyFontWidth (width : Int) : Int := if width < 132 then 10 else 6

/-- No product that `TTYCreate` computes in an `int` overflows: the bytes of the buffer, and the
width and height of the window, which has the margins around the cells. -/
structure TtyFits (width height : Int) : Prop where
  buffer : width * height * 2 < 2147483648
  windowWidth : (width + 4) * ttyFontWidth width < 2147483648
  windowHeight : (height + 2) * 20 < 2147483648

instance (width height : Int) : Decidable (TtyFits width height) :=
  decidable_of_iff
    (width * height * 2 < 2147483648 ∧ (width + 4) * ttyFontWidth width < 2147483648 ∧
      (height + 2) * 20 < 2147483648)
    ⟨fun h => ⟨h.1, h.2.1, h.2.2⟩, fun h => ⟨h.buffer, h.windowWidth, h.windowHeight⟩⟩

/-- `TTYCreate`; none where one of its products overflows, which C does not define. -/
def ttyCreate (width height : Int) (index : Nat) (params : Nat → Word) :
    Option (TtySize × Tty) :=
  if h : (0 < width ∧ 0 < height) ∧ TtyFits width height then
    let d : TtySize :=
      ⟨width.toNat, height.toNat, Int.lt_toNat.2 h.1.1, Int.lt_toNat.2 h.1.2,
        ttySize_small h.1.1 h.1.2 h.2.buffer⟩
    some (d, ttyFresh d index params)
  else none

/-- The run of `chars`. -/
def ttyRun (d : TtySize) : List Int → Tty → Option Tty
  | [], t => some t
  | c :: chars, t => (ttyPutCharacter d t c).bind (ttyRun d chars)

end Xremu
