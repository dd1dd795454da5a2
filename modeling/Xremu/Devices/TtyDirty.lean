import Xremu.Devices.TtyInvariant

/-!
# The dirty rectangle

What `TTYDraw` shows of a cell is its contents and whether the cursor is on it. A step
`Covers` its changes when every cell that looks different after it is in the rectangle, and
the rectangle never loses a cell; both compose along a run.

Every function covers its changes except the two commands that show and hide the cursor:
with the cursor past the last column and a clean terminal they make a rectangle that is
empty.
-/

namespace Xremu

/-- `checkcurx` of `TTYDraw`: the column that the cursor is drawn in. -/
def Tty.shownX (d : TtySize) (t : Tty) : Int :=
  if u32 t.cursorX < d.width then t.cursorX else d.width - 1

/-- What is drawn of a cell: its contents, and whether it is inverted for the cursor. -/
def Tty.shown (d : TtySize) (t : Tty) (x y : Nat) : BitVec 16 × Bool :=
  (t.textBuffer (y * d.width + x),
    decide ((x : Int) = t.shownX d ∧ (y : Int) = t.cursorY) && !t.isCursorHidden)

/-- A range of coordinates below `size` that is not empty. -/
structure TtyRange (size : Nat) (low high : Int) : Prop where
  nonneg : 0 ≤ low
  order : low ≤ high
  below : high < size

structure Tty.RectOk (d : TtySize) (t : Tty) : Prop where
  columns : TtyRange d.width t.dirtyX1 t.dirtyX2
  rows : TtyRange d.height t.dirtyY1 t.dirtyY2

/-- The cell is in the rectangle that the next `TTYDraw` draws. -/
structure Tty.InRect (t : Tty) (x y : Nat) : Prop where
  dirty : t.isDirty = true
  left : t.dirtyX1 ≤ x
  right : x ≤ t.dirtyX2
  top : t.dirtyY1 ≤ y
  bottom : y ≤ t.dirtyY2

/-- The same rectangle in both states. -/
structure Tty.SameRect (t t' : Tty) : Prop where
  isDirty : t'.isDirty = t.isDirty
  x1 : t'.dirtyX1 = t.dirtyX1
  y1 : t'.dirtyY1 = t.dirtyY1
  x2 : t'.dirtyX2 = t.dirtyX2
  y2 : t'.dirtyY2 = t.dirtyY2

theorem Tty.SameRect.inRect {t t' : Tty} (h : t.SameRect t') {x y : Nat}
    (hin : t.InRect x y) : t'.InRect x y := by
  obtain ⟨hd, hl, hr, ht, hb⟩ := hin
  exact ⟨h.isDirty.trans hd, h.x1 ▸ hl, h.x2 ▸ hr, h.y1 ▸ ht, h.y2 ▸ hb⟩

theorem Tty.SameRect.rectOk {d : TtySize} {t t' : Tty} (h : t.SameRect t')
    (hok : t.RectOk d) : t'.RectOk d := by
  constructor
  · rw [h.x1, h.x2]
    exact hok.columns
  · rw [h.y1, h.y2]
    exact hok.rows

/-! ## `TTYMakeDirty` -/

theorem ttyFar_eq (size a b : Nat) : ttyFar size a b = min (max a b) (size - 1) := by
  unfold ttyFar
  split <;> omega

/-- The new range of one coordinate on a clean terminal. -/
theorem ttyRange_new {size a b : Nat} (hlt : size < 1073741824) (hin : min a b < size) :
    TtyRange size (i32 (min a b)) (i32 (ttyFar size a b)) ∧
      ∀ x : Nat, x < size → x ≤ max a b → min (min a b) (size - 1) ≤ x →
        i32 (min a b) ≤ x ∧ x ≤ i32 (ttyFar size a b) := by
  rw [ttyFar_eq, i32_of_lt (by omega), i32_of_lt (by omega)]
  refine ⟨⟨by omega, by omega, by omega⟩, ?_⟩
  intro x hx hhigh hlow
  omega

/-- The range of one coordinate on a terminal that is dirty already. -/
theorem ttyRange_widen {size a b : Nat} {low high : Int} (hpos : 0 < size)
    (hlt : size < 1073741824) (h : TtyRange size low high) :
    TtyRange size (if min a b < u32 low then i32 (min a b) else low)
        (if ttyFar size a b > u32 high then i32 (ttyFar size a b) else high) ∧
      (if min a b < u32 low then i32 (min a b) else low) ≤ low ∧
      high ≤ (if ttyFar size a b > u32 high then i32 (ttyFar size a b) else high) ∧
      ∀ x : Nat, x < size → x ≤ max a b → min (min a b) (size - 1) ≤ x →
        (if min a b < u32 low then i32 (min a b) else low) ≤ x ∧
          x ≤ (if ttyFar size a b > u32 high then i32 (ttyFar size a b) else high) := by
  obtain ⟨hl, ho, hh⟩ := h
  have hlow : (if min a b < u32 low then i32 (min a b) else low) =
      min ((min a b : Nat) : Int) low := by
    rw [u32_of_nonneg hl (by omega)]
    split
    · rw [i32_of_lt (by omega)]
      omega
    · omega
  have hhigh : (if ttyFar size a b > u32 high then i32 (ttyFar size a b) else high) =
      max (ttyFar size a b : Int) high := by
    rw [u32_of_nonneg (by omega) (by omega), ttyFar_eq]
    split
    · rw [i32_of_lt (by omega)]
      omega
    · omega
  rw [hlow, hhigh, ttyFar_eq]
  refine ⟨⟨by omega, by omega, by omega⟩, by omega, by omega, ?_⟩
  intro x hx hle hge
  omega

section

variable {d : TtySize}

/-- What the rectangle is after `TTYMakeDirty`, from what it was before. -/
structure TtyMarked (d : TtySize) (t : Tty) (x1 y1 x2 y2 : Nat) (t' : Tty) : Prop where
  dirty : t'.isDirty = true
  rect : t'.RectOk d
  grows : ∀ x y, t.InRect x y → t'.InRect x y
  box : ∀ x y, x < d.width → y < d.height →
    min (min x1 x2) (d.width - 1) ≤ x ∧ x ≤ max x1 x2 →
    min (min y1 y2) (d.height - 1) ≤ y ∧ y ≤ max y1 y2 → t'.InRect x y

theorem ttyMakeDirty_marked {t : Tty} (x1 y1 x2 y2 : Nat)
    (hok : t.isDirty = true → t.RectOk d)
    (hbox : t.isDirty = false → min x1 x2 < d.width ∧ min y1 y2 < d.height) :
    TtyMarked d t x1 y1 x2 y2 (ttyMakeDirty d x1 y1 x2 y2 t) := by
  unfold ttyMakeDirty
  by_cases hdirty : t.isDirty = true
  · -- The rectangle is widened.
    obtain ⟨hcolumns, hrows⟩ := hok hdirty
    obtain ⟨hx, hx1, hx2, hxin⟩ := ttyRange_widen (a := x1) (b := x2) d.width_pos d.width_lt
      hcolumns
    obtain ⟨hy, hy1, hy2, hyin⟩ := ttyRange_widen (a := y1) (b := y2) d.height_pos
      d.height_lt hrows
    rw [if_neg (by rw [hdirty]; decide)]
    refine ⟨hdirty, ⟨hx, hy⟩, ?_, ?_⟩
    · intro x y hin
      exact ⟨hdirty, Int.le_trans hx1 hin.left, Int.le_trans hin.right hx2,
        Int.le_trans hy1 hin.top, Int.le_trans hin.bottom hy2⟩
    · intro x y hxlt hylt hxbox hybox
      obtain ⟨hl, hr⟩ := hxin x hxlt hxbox.2 hxbox.1
      obtain ⟨ht, hb⟩ := hyin y hylt hybox.2 hybox.1
      exact ⟨hdirty, hl, hr, ht, hb⟩
  · -- The rectangle is a new one.
    rw [Bool.not_eq_true] at hdirty
    obtain ⟨hxlow, hylow⟩ := hbox hdirty
    obtain ⟨hx, hxin⟩ := ttyRange_new d.width_lt hxlow
    obtain ⟨hy, hyin⟩ := ttyRange_new d.height_lt hylow
    rw [if_pos (by rw [hdirty]; decide)]
    refine ⟨rfl, ⟨hx, hy⟩, ?_, ?_⟩
    · intro x y hin
      have hwas := hin.dirty
      rw [hdirty] at hwas
      exact absurd hwas (by decide)
    · intro x y hxlt hylt hxbox hybox
      obtain ⟨hl, hr⟩ := hxin x hxlt hxbox.2 hxbox.1
      obtain ⟨ht, hb⟩ := hyin y hylt hybox.2 hybox.1
      exact ⟨rfl, hl, hr, ht, hb⟩

/-! ## Changes that are covered -/

/-- What has changed from `t` to `t'` is in the rectangle of `t'`, with what was in the
rectangle of `t`. -/
structure Tty.Covers (d : TtySize) (t t' : Tty) : Prop where
  rect : t'.isDirty = true → t'.RectOk d
  dirty : t.isDirty = true → t'.isDirty = true
  grows : ∀ x y, t.InRect x y → t'.InRect x y
  cells : ∀ x y, x < d.width → y < d.height → t'.shown d x y ≠ t.shown d x y →
    t'.InRect x y
  cursor : t'.shownX d ≠ t.shownX d ∨ t'.cursorY ≠ t.cursorY ∨
    t'.isCursorHidden ≠ t.isCursorHidden → t'.isDirty = true

theorem Tty.Covers.trans {t u v : Tty} (h : t.Covers d u) (h' : u.Covers d v) :
    t.Covers d v := by
  refine ⟨h'.rect, fun hd => h'.dirty (h.dirty hd), fun x y hin => h'.grows x y (h.grows x y hin),
    ?_, ?_⟩
  · intro x y hx hy hne
    by_cases hlast : v.shown d x y = u.shown d x y
    · rw [hlast] at hne
      exact h'.grows x y (h.cells x y hx hy hne)
    · exact h'.cells x y hx hy hlast
  · intro hne
    by_cases hlast : v.shownX d ≠ u.shownX d ∨ v.cursorY ≠ u.cursorY ∨
        v.isCursorHidden ≠ u.isCursorHidden
    · exact h'.cursor hlast
    · rw [not_or, not_or] at hlast
      obtain ⟨hx, hy, hhidden⟩ := hlast
      rw [not_ne_iff.mp hx, not_ne_iff.mp hy, not_ne_iff.mp hhidden] at hne
      exact h'.dirty (h.cursor hne)

/-- A step on what is neither drawn nor part of the rectangle. -/
theorem Tty.covers_of_same {t t' : Tty} (hok : t.isDirty = true → t.RectOk d)
    (hrect : t.SameRect t') (htext : t'.textBuffer = t.textBuffer)
    (hx : t'.cursorX = t.cursorX) (hy : t'.cursorY = t.cursorY)
    (hhidden : t'.isCursorHidden = t.isCursorHidden) : t.Covers d t' := by
  have hshownX : t'.shownX d = t.shownX d := by rw [Tty.shownX, hx, Tty.shownX]
  refine ⟨?_, ?_, fun x y hin => hrect.inRect hin, ?_, ?_⟩
  · intro hd
    exact hrect.rectOk (hok (hrect.isDirty ▸ hd))
  · intro hd
    exact hrect.isDirty.trans hd
  · intro x y _ _ hne
    refine absurd ?_ hne
    rw [Tty.shown, Tty.shown, htext, hshownX, hy, hhidden]
  · rintro (hne | hne | hne)
    · exact absurd hshownX hne
    · exact absurd hy hne
    · exact absurd hhidden hne

/-- What is drawn is not changed by `TTYMakeDirty`. -/
theorem ttyMakeDirty_drawn (x1 y1 x2 y2 : Nat) (t : Tty) :
    (ttyMakeDirty d x1 y1 x2 y2 t).textBuffer = t.textBuffer ∧
      (ttyMakeDirty d x1 y1 x2 y2 t).isCursorHidden = t.isCursorHidden ∧
      (ttyMakeDirty d x1 y1 x2 y2 t).cursorX = t.cursorX ∧
      (ttyMakeDirty d x1 y1 x2 y2 t).cursorY = t.cursorY := by
  unfold ttyMakeDirty
  extract_lets
  split <;> exact ⟨rfl, rfl, rfl, rfl⟩

theorem ttyMakeDirty_shown (x1 y1 x2 y2 : Nat) (t : Tty) (x y : Nat) :
    (ttyMakeDirty d x1 y1 x2 y2 t).shown d x y = t.shown d x y := by
  obtain ⟨htext, hhidden, hx, hy⟩ := ttyMakeDirty_drawn (d := d) x1 y1 x2 y2 t
  rw [Tty.shown, Tty.shown, Tty.shownX, Tty.shownX, htext, hhidden, hx, hy]

/-- A cell looks different only when its contents or the cursor have changed. -/
theorem Tty.shown_ne {t u : Tty} {x y : Nat} (h : u.shown d x y ≠ t.shown d x y) :
    u.textBuffer (y * d.width + x) ≠ t.textBuffer (y * d.width + x) ∨
      ((x : Int) = t.shownX d ∧ (y : Int) = t.cursorY) ∨
      ((x : Int) = u.shownX d ∧ (y : Int) = u.cursorY) := by
  by_cases htext : u.textBuffer (y * d.width + x) = t.textBuffer (y * d.width + x)
  · by_cases hold : (x : Int) = t.shownX d ∧ (y : Int) = t.cursorY
    · exact Or.inr (Or.inl hold)
    · by_cases hnew : (x : Int) = u.shownX d ∧ (y : Int) = u.cursorY
      · exact Or.inr (Or.inr hnew)
      · refine absurd ?_ h
        rw [Tty.shown, Tty.shown, htext, decide_eq_false hold, decide_eq_false hnew]
        rfl
  · exact Or.inl htext

/-- A change of the state `t` to `u` that is then reported to `TTYMakeDirty`: every cell
that looks different is in the box, or in the rectangle already. -/
theorem Tty.covers_of_box {t u : Tty} {x1 y1 x2 y2 : Nat}
    (hok : t.isDirty = true → t.RectOk d) (hrect : t.SameRect u)
    (hbox : t.isDirty = false → min x1 x2 < d.width ∧ min y1 y2 < d.height)
    (hcells : ∀ x y, x < d.width → y < d.height → u.shown d x y ≠ t.shown d x y →
      ((min (min x1 x2) (d.width - 1) ≤ x ∧ x ≤ max x1 x2) ∧
        min (min y1 y2) (d.height - 1) ≤ y ∧ y ≤ max y1 y2) ∨ t.InRect x y) :
    t.Covers d (ttyMakeDirty d x1 y1 x2 y2 u) := by
  obtain ⟨hdirty, hrectok, hgrows, hin⟩ :=
    ttyMakeDirty_marked (d := d) (t := u) x1 y1 x2 y2
      (fun hd => hrect.rectOk (hok (hrect.isDirty ▸ hd)))
      (fun hd => hbox (hrect.isDirty ▸ hd))
  refine ⟨fun _ => hrectok, fun _ => hdirty, ?_, ?_, fun _ => hdirty⟩
  · intro x y hold
    exact hgrows x y (hrect.inRect hold)
  · intro x y hx hy hne
    rw [ttyMakeDirty_shown] at hne
    rcases hcells x y hx hy hne with ⟨hxbox, hybox⟩ | hold
    · exact hin x y hx hy hxbox hybox
    · exact hgrows x y (hrect.inRect hold)

/-! ## Rows of the buffer -/

theorem row_le {r y x w : Nat} (hx : x < w) (h : r * w ≤ y * w + x) : r ≤ y := by
  by_contra hlt
  have hle := Nat.mul_le_mul_right w (Nat.succ_le_of_lt (Nat.lt_of_not_le hlt))
  rw [Nat.succ_mul] at hle
  omega

theorem row_lt {r y x w : Nat} (h : y * w + x < r * w) : y < r := by
  by_contra hge
  have hle := Nat.mul_le_mul_right w (Nat.le_of_not_lt hge)
  omega

/-- A cell that differs lies in the rows that were written. -/
theorem Tty.SameOutside.row {t : Tty} {top bottom : Nat} {text : Nat → BitVec 16}
    (h : t.SameOutside (top * d.width) ((bottom + 1) * d.width) text) {x y : Nat}
    (hx : x < d.width) (hne : text (y * d.width + x) ≠ t.textBuffer (y * d.width + x)) :
    top ≤ y ∧ y ≤ bottom := by
  by_contra hout
  refine hne (h _ ?_)
  by_contra hin
  rw [not_or] at hin
  have htop := row_le hx (Nat.le_of_not_lt hin.1)
  have hbottom := row_lt (Nat.lt_of_not_le hin.2)
  omega

/-- Where the cursor is drawn. -/
theorem Tty.Inv.shownX {t : Tty} (h : t.Inv d) :
    t.shownX d = min t.cursorX.toNat (d.width - 1) := by
  have hx := h.cursorX
  have hpos := d.width_pos
  unfold Tty.shownX
  rw [h.u32X]
  split <;> omega

/-! ## Moving the cursor -/

theorem Tty.sameRect_moved (t : Tty) (x y : Int) : t.SameRect (t.moved x y) :=
  ⟨rfl, rfl, rfl, rfl, rfl⟩

/-- The cursor goes from its cell to another one, and both are the corners of the box. -/
theorem ttyMoved_covers {t : Tty} (h : t.Inv d) (hok : t.isDirty = true → t.RectOk d)
    {x' y' : Int} (hx' : 0 ≤ x' ∧ x' ≤ d.width) (hy' : 0 ≤ y' ∧ y' < d.height)
    (hin : t.cursorX < d.width ∨ x' < d.width) :
    t.Covers d (ttyMakeDirty d t.cursorX.toNat t.cursorY.toNat x'.toNat y'.toNat
      (t.moved x' y')) := by
  have hold := h.shownX
  have hnew : (t.moved x' y').shownX d = min x'.toNat (d.width - 1) :=
    (h.moved hx' hy').shownX
  obtain ⟨hxpos, -⟩ := h.cursorX
  obtain ⟨hypos, hylt⟩ := h.cursorY
  refine Tty.covers_of_box hok (t.sameRect_moved x' y') (fun _ => by omega) ?_
  intro x y hx hy hne
  left
  rcases Tty.shown_ne hne with htext | ⟨hxeq, hyeq⟩ | ⟨hxeq, hyeq⟩
  · exact absurd rfl htext
  · rw [hold] at hxeq
    omega
  · have hyeq : (y : Int) = y' := hyeq
    rw [hnew] at hxeq
    omega

theorem ttyMoveCursor_covers {t : Tty} (h : t.Inv d) (hok : t.isDirty = true → t.RectOk d)
    {x y : Int} (hx : x < 2147483648) (hy : y < 2147483648) :
    t.Covers d (ttyMoveCursor d x y t) := by
  obtain ⟨hx, hxlt⟩ := ttyClamp_range d.width_pos hx
  obtain ⟨hy, hylt⟩ := ttyClamp_range d.height_pos hy
  have hw := d.width_lt
  have hh := d.height_lt
  have hcovers := ttyMoved_covers h hok ⟨hx, Int.le_of_lt hxlt⟩ ⟨hy, hylt⟩ (Or.inr hxlt)
  rw [← h.u32X, ← h.u32Y, ← u32_of_nonneg hx (by omega), ← u32_of_nonneg hy (by omega)]
    at hcovers
  have hcomm : ∀ (x1 y1 x2 y2 : Nat) (x y : Int), ttyMakeDirty d x1 y1 x2 y2 (t.moved x y) =
      (ttyMakeDirty d x1 y1 x2 y2 t).moved x y := by
    intro x1 y1 x2 y2 x y
    cases hdirty : t.isDirty <;> simp [ttyMakeDirty, Tty.moved, hdirty]
  rw [hcomm] at hcovers
  exact hcovers

theorem ttyBackspace_covers {t : Tty} (h : t.Inv d) (hok : t.isDirty = true → t.RectOk d) :
    t.Covers d (ttyBackspace d t) := by
  obtain ⟨hx, hy⟩ := h.backspaced
  have hw := d.width_lt
  have hh := d.height_lt
  have hpos := d.width_pos
  have hlt : (t.backspaced d).1 < d.width := by
    have hcx := h.cursorX
    unfold Tty.backspaced
    split
    · split
      · dsimp only
        omega
      · dsimp only
        omega
    · dsimp only
      omega
  have hcovers := ttyMoved_covers h hok hx hy (Or.inr hlt)
  rw [← h.u32X, ← h.u32Y, ← u32_of_nonneg hx.1 (by omega), ← u32_of_nonneg hy.1 (by omega)]
    at hcovers
  exact hcovers

/-- Carriage return and tab stay in the row. -/
theorem ttySameRow_covers {t : Tty} (h : t.Inv d) (hok : t.isDirty = true → t.RectOk d)
    {x : Int} (hx : 0 ≤ x ∧ x < d.width) :
    t.Covers d (ttyMakeDirty d (u32 t.cursorX) (u32 t.cursorY) (u32 x) (u32 t.cursorY)
      (t.moved x t.cursorY)) := by
  have hw := d.width_lt
  have hcovers := ttyMoved_covers h hok ⟨hx.1, Int.le_of_lt hx.2⟩ h.cursorY (Or.inr hx.2)
  rw [← h.u32X, ← h.u32Y, ← u32_of_nonneg hx.1 (by omega)] at hcovers
  exact hcovers

/-! ## Newline and scrolling -/

/-- The two rows that the first part of a newline marks. -/
theorem ttyNextRow_marked {t : Tty} (h : t.Inv d) (hok : t.isDirty = true → t.RectOk d) :
    TtyMarked d (t.moved t.cursorX (t.cursorY + 1)) t.cursorX.toNat t.cursorY.toNat 0
      (t.cursorY.toNat + 1) (ttyNextRow d t) := by
  have hpos := d.width_pos
  have hy := h.cursorY
  exact ttyMakeDirty_marked _ _ _ _ (fun hd => (t.sameRect_moved _ _).rectOk (hok hd))
    fun _ => by omega

theorem ttyNextRow_inRect {t : Tty} (h : t.Inv d) (hok : t.isDirty = true → t.RectOk d)
    {x y : Nat} (hx : x < d.width) (hy : y < d.height) (hcolumn : (x : Int) ≤ t.cursorX)
    (hrow : t.cursorY ≤ y ∧ y ≤ t.cursorY + 1) : (ttyNextRow d t).InRect x y := by
  have hcy := h.cursorY
  exact (ttyNextRow_marked h hok).box x y hx hy (by omega) (by omega)

theorem ttyNextRow_covers {t : Tty} (h : t.Inv d) (hok : t.isDirty = true → t.RectOk d) :
    t.Covers d (ttyNextRow d t) := by
  have hold := h.shownX
  have hpos := d.width_pos
  obtain ⟨hxpos, -⟩ := h.cursorX
  obtain ⟨hypos, hylt⟩ := h.cursorY
  refine Tty.covers_of_box hok (t.sameRect_moved _ _) (fun _ => by omega) ?_
  intro x y hx hy hne
  left
  rcases Tty.shown_ne hne with htext | ⟨hxeq, hyeq⟩ | ⟨hxeq, hyeq⟩
  · exact absurd rfl htext
  · rw [hold] at hxeq
    omega
  · have hxeq : (x : Int) = t.shownX d := hxeq
    have hyeq : (y : Int) = t.cursorY + 1 := hyeq
    rw [hold] at hxeq
    omega

/-- A scroll marks its rows. Before it the cursor may have been put on the bottom one, from
a cell that is marked already. -/
theorem ttyScroll_covers {t u : Tty} (hok : t.isDirty = true → t.RectOk d) {top bottom : Nat}
    (hbottom : top ≤ bottom ∧ bottom < d.height) {text : Nat → BitVec 16}
    (hrect : t.SameRect (u.withText text)) (hx : u.cursorX = t.cursorX)
    (hhidden : u.isCursorHidden = t.isCursorHidden)
    (hsame : t.SameOutside (top * d.width) ((bottom + 1) * d.width) text)
    (hcursor : u.cursorY = t.cursorY ∨ (u.cursorY = bottom ∧
      ∀ x y : Nat, x < d.width → y < d.height → (x : Int) = t.shownX d →
        (y : Int) = t.cursorY → t.InRect x y)) :
    t.Covers d (ttyMakeDirty d 0 top (d.width - 1) bottom (u.withText text)) := by
  have hpos := d.width_pos
  refine Tty.covers_of_box hok hrect (fun _ => by omega) ?_
  intro x y hxlt hylt hne
  have hshownX : (u.withText text).shownX d = t.shownX d := by
    show (if u32 u.cursorX < d.width then u.cursorX else d.width - 1) = _
    rw [hx]
    rfl
  rcases hcursor with hsamey | ⟨hmoved, hmarked⟩
  · -- The cursor stays, so the contents are different.
    left
    by_cases htext : text (y * d.width + x) = t.textBuffer (y * d.width + x)
    · refine absurd ?_ hne
      have hy : (u.withText text).cursorY = t.cursorY := hsamey
      have hh : (u.withText text).isCursorHidden = t.isCursorHidden := hhidden
      have ht : (u.withText text).textBuffer (y * d.width + x) =
          t.textBuffer (y * d.width + x) := htext
      rw [Tty.shown, Tty.shown, hshownX, hy, hh, ht]
    · have hrow := hsame.row hxlt htext
      omega
  · rcases Tty.shown_ne hne with htext | ⟨hxeq, hyeq⟩ | ⟨hxeq, hyeq⟩
    · have hrow := hsame.row hxlt htext
      left
      omega
    · exact Or.inr (hmarked x y hxlt hylt hxeq hyeq)
    · have hyeq : (y : Int) = u.cursorY := hyeq
      left
      omega

theorem ttyNewline_covers {t t' : Tty} (h : t.Inv d) (hok : t.isDirty = true → t.RectOk d)
    (heq : ttyNewline d t = some t') : t.Covers d t' := by
  have hnext := ttyNextRow_covers h hok
  have hdrawn := ttyMakeDirty_drawn (d := d) t.cursorX.toNat t.cursorY.toNat 0
    (t.cursorY.toNat + 1) (t.moved t.cursorX (t.cursorY + 1))
  obtain ⟨-, -, hx, hy⟩ := hdrawn
  rcases ttyNewline_cases h with ⟨-, hrow⟩ | ⟨text, hscroll, hsame⟩
  · rw [heq] at hrow
    rw [Option.some.inj hrow]
    exact hnext
  · rw [heq] at hscroll
    rw [Option.some.inj hscroll]
    refine hnext.trans (ttyScroll_covers hnext.rect h.margins
      (Tty.SameRect.mk rfl rfl rfl rfl rfl) hx.symm rfl hsame (Or.inr ⟨rfl, ?_⟩))
    intro x y hxlt hylt hxeq hyeq
    have hshown : (ttyNextRow d t).shownX d = t.shownX d := by
      unfold Tty.shownX
      rw [show (ttyNextRow d t).cursorX = t.cursorX from hx]
    rw [hshown, h.shownX] at hxeq
    rw [show (ttyNextRow d t).cursorY = t.cursorY + 1 from hy] at hyeq
    have hcx := h.cursorX
    exact ttyNextRow_inRect h hok hxlt hylt (by omega) (by omega)

/-- After a newline from the first column the rectangle has the first cell of the old row
and of the new one. -/
theorem ttyNewline_inRect {t t' : Tty} (h : t.Inv d) (hok : t.isDirty = true → t.RectOk d)
    (hx : t.cursorX = 0) (heq : ttyNewline d t = some t') :
    t'.InRect 0 t.cursorY.toNat ∧ t'.InRect 0 t'.cursorY.toNat := by
  have hpos := d.width_pos
  have hnext := ttyNextRow_covers h hok
  obtain ⟨hypos, hylt⟩ := h.cursorY
  obtain ⟨hle, hbottom⟩ := h.margins
  have hrow : (ttyNextRow d t).InRect 0 t.cursorY.toNat :=
    ttyNextRow_inRect h hok hpos (by omega) (by omega) (by omega)
  rcases ttyNewline_cases h with ⟨hinside, hcase⟩ | ⟨text, hcase, -⟩
  · rw [heq] at hcase
    rw [Option.some.inj hcase]
    have hy : (ttyNextRow d t).cursorY = t.cursorY + 1 := (ttyNextRow_keeps t).cursorY
    refine ⟨hrow, ?_⟩
    rw [hy]
    exact ttyNextRow_inRect h hok hpos (by omega) (by omega) (by omega)
  · rw [heq] at hcase
    rw [Option.some.inj hcase]
    have hsame : (ttyNextRow d t).SameRect
        (((ttyNextRow d t).moved t.cursorX t.scrollWindowBottom).withText text) :=
      ⟨rfl, rfl, rfl, rfl, rfl⟩
    have hmarked := ttyMakeDirty_marked (d := d) 0 t.scrollWindowTop (d.width - 1)
      t.scrollWindowBottom
      (fun hd => hsame.rectOk (hnext.rect (hsame.isDirty ▸ hd))) (fun _ => by omega)
    have hy : (ttyMakeDirty d 0 t.scrollWindowTop (d.width - 1) t.scrollWindowBottom
        (((ttyNextRow d t).moved t.cursorX t.scrollWindowBottom).withText text)).cursorY =
        t.scrollWindowBottom := (ttyMakeDirty_keeps _ _ _ _ _).cursorY
    refine ⟨hmarked.grows 0 _ (hsame.inRect hrow), ?_⟩
    rw [hy, Int.toNat_natCast]
    exact hmarked.box 0 _ hpos hbottom (by omega) (by omega)

/-! ## Clearing -/

theorem ttyEscClear_covers {t t' : Tty} (hok : t.isDirty = true → t.RectOk d)
    (heq : ttyEscClear d t = some t') : t.Covers d t' := by
  have hw := d.width_pos
  have hh := d.height_pos
  rcases ttyEscClear_cases (d := d) t with hcase | ⟨text, hcase⟩
  · rw [heq] at hcase
    rw [Option.some.inj hcase]
    exact Tty.covers_of_same hok ⟨rfl, rfl, rfl, rfl, rfl⟩ rfl rfl rfl rfl
  · rw [heq] at hcase
    rw [Option.some.inj hcase]
    refine Tty.covers_of_box hok ⟨rfl, rfl, rfl, rfl, rfl⟩ (fun _ => by omega) ?_
    intro x y hx hy _
    left
    omega

theorem ttyEscClearLine_covers {t t' : Tty} (h : t.Inv d)
    (hok : t.isDirty = true → t.RectOk d) (heq : ttyEscClearLine d t = some t') :
    t.Covers d t' := by
  have hpos := d.width_pos
  obtain ⟨hxpos, hxle⟩ := h.cursorX
  obtain ⟨hypos, hylt⟩ := h.cursorY
  rcases ttyEscClearLine_cases h with hcase | ⟨first, text, hfirst, hcase, hsame⟩
  · rw [heq] at hcase
    rw [Option.some.inj hcase]
    exact Tty.covers_of_same hok ⟨rfl, rfl, rfl, rfl, rfl⟩ rfl rfl rfl rfl
  · rw [heq] at hcase
    rw [Option.some.inj hcase, ← ttyMakeDirty_withText]
    refine Tty.covers_of_box hok ⟨rfl, rfl, rfl, rfl, rfl⟩ (fun _ => by omega) ?_
    intro x y hx hy hne
    left
    -- Only the contents change, and only from the first column on.
    by_cases htext : text (y * d.width + x) = t.textBuffer (y * d.width + x)
    · refine absurd ?_ hne
      show ((text (y * d.width + x), _) : BitVec 16 × Bool) = (t.textBuffer _, _)
      rw [htext]
      rfl
    · have hout : ¬ (y * d.width + x < t.cursorY.toNat * d.width + first ∨
          (t.cursorY.toNat + 1) * d.width ≤ y * d.width + x) :=
        fun hk => htext (hsame _ hk)
      rw [not_or] at hout
      have hlow : t.cursorY.toNat ≤ y := row_le hx (by omega)
      have hhigh : y < t.cursorY.toNat + 1 := row_lt (Nat.lt_of_not_le hout.2)
      have hrow : y = t.cursorY.toNat := by omega
      rw [hrow] at hout
      omega

/-! ## Showing and hiding the cursor -/

theorem ttySetHidden_covers {t : Tty} (h : t.Inv d) (hok : t.isDirty = true → t.RectOk d)
    {hidden : Bool} (hedge : t.isCursorHidden ≠ hidden → t.isDirty = false →
      t.cursorX ≠ d.width) : t.Covers d (ttySetHidden d hidden t) := by
  have hold := h.shownX
  have hpos := d.width_pos
  obtain ⟨hxpos, hxle⟩ := h.cursorX
  obtain ⟨hypos, hylt⟩ := h.cursorY
  unfold ttySetHidden
  by_cases hflip : t.isCursorHidden = hidden
  · rw [if_pos hflip]
    exact Tty.covers_of_same hok ⟨rfl, rfl, rfl, rfl, rfl⟩ rfl rfl rfl hflip.symm
  · rw [if_neg hflip, h.u32X, h.u32Y]
    have hcomm : ∀ x1 y1 x2 y2 : Nat,
        { ttyMakeDirty d x1 y1 x2 y2 t with isCursorHidden := hidden } =
          ttyMakeDirty d x1 y1 x2 y2 { t with isCursorHidden := hidden } := by
      intro x1 y1 x2 y2
      cases hdirty : t.isDirty <;> simp [ttyMakeDirty, hdirty]
    rw [hcomm]
    refine Tty.covers_of_box hok ⟨rfl, rfl, rfl, rfl, rfl⟩ ?_ ?_
    · intro hclean
      have hinside := hedge hflip hclean
      omega
    · intro x y hx hy hne
      left
      rcases Tty.shown_ne hne with htext | ⟨hxeq, hyeq⟩ | ⟨hxeq, hyeq⟩
      · exact absurd rfl htext
      · rw [hold] at hxeq
        omega
      · have hxeq : (x : Int) = t.shownX d := hxeq
        have hyeq : (y : Int) = t.cursorY := hyeq
        rw [hold] at hxeq
        omega

/-! ## Characters -/

/-- A character that is shown from the last column on: the newline marks the first cells of
the two rows, and the box after it the other ones. -/
theorem ttyShow_wrap_covers {t u v : Tty} (h : t.Inv d) (hok : t.isDirty = true → t.RectOk d)
    (hedge : t.cursorX = d.width) (hline : ttyNewline d (t.moved 0 t.cursorY) = some u)
    (hu : u.Inv d) (hux : u.cursorX = 0) {cell : BitVec 16}
    (hv : v = (u.moved (u.cursorX + 1) u.cursorY).withText
      (Function.update u.textBuffer (u.cursorY.toNat * d.width + u.cursorX.toNat) cell)) :
    t.Covers d (ttyMakeDirty d t.cursorX.toNat t.cursorY.toNat (u.cursorX + 1).toNat
      u.cursorY.toNat v) := by
  have hpos := d.width_pos
  obtain ⟨hypos, hylt⟩ := h.cursorY
  obtain ⟨hvpos, hvlt⟩ := hu.cursorY
  have h₀ : (t.moved 0 t.cursorY).Inv d := h.moved ⟨Int.le_refl _, by omega⟩ h.cursorY
  have hrect : t.SameRect (t.moved 0 t.cursorY) := t.sameRect_moved _ _
  have hok₀ : (t.moved 0 t.cursorY).isDirty = true → (t.moved 0 t.cursorY).RectOk d :=
    fun hd => hrect.rectOk (hok hd)
  have hcovers := ttyNewline_covers h₀ hok₀ hline
  obtain ⟨hfirst, hlast⟩ := ttyNewline_inRect h₀ hok₀ rfl hline
  have hsame : u.SameRect v := by
    rw [hv]
    exact ⟨rfl, rfl, rfl, rfl, rfl⟩
  obtain ⟨hdirty, hrectok, hgrows, hbox⟩ := ttyMakeDirty_marked (d := d) (t := v)
    t.cursorX.toNat t.cursorY.toNat (u.cursorX + 1).toNat u.cursorY.toNat (fun hd => hsame.rectOk (hcovers.rect (hsame.isDirty ▸ hd)))
    (fun hd => absurd (hsame.inRect hfirst).dirty (by rw [hd]; decide))
  have hkeep : ∀ x y, u.InRect x y → (ttyMakeDirty d t.cursorX.toNat t.cursorY.toNat
      (u.cursorX + 1).toNat u.cursorY.toNat v).InRect x y :=
    fun x y hin => hgrows x y (hsame.inRect hin)
  -- The box has every column but the first, which the newline has marked.
  have hold : ∀ x : Nat, x < d.width → (ttyMakeDirty d t.cursorX.toNat t.cursorY.toNat
      (u.cursorX + 1).toNat u.cursorY.toNat v).InRect x t.cursorY.toNat := by
    intro x hx
    by_cases hzero : x = 0
    · rw [hzero]
      exact hkeep 0 _ hfirst
    · exact hbox x _ hx (by omega) (by omega) (by omega)
  have hnew : ∀ x : Nat, x < d.width → (ttyMakeDirty d t.cursorX.toNat t.cursorY.toNat
      (u.cursorX + 1).toNat u.cursorY.toNat v).InRect x u.cursorY.toNat := by
    intro x hx
    by_cases hzero : x = 0
    · rw [hzero]
      exact hkeep 0 _ hlast
    · exact hbox x _ hx (by omega) (by omega) (by omega)
  refine ⟨fun _ => hrectok, fun _ => hdirty, ?_, ?_, fun _ => hdirty⟩
  · intro x y hin
    exact hkeep x y (hcovers.grows x y (hrect.inRect hin))
  intro x y hx hy hne
  rw [ttyMakeDirty_shown] at hne
  by_cases hstore : v.shown d x y = u.shown d x y
  · rw [hstore] at hne
    by_cases hmove : u.shown d x y = (t.moved 0 t.cursorY).shown d x y
    · -- The cursor has left the last column.
      rw [hmove] at hne
      have hrow : (y : Int) = t.cursorY := by
        rcases Tty.shown_ne hne with htext | ⟨-, hyeq⟩ | ⟨-, hyeq⟩
        · exact absurd rfl htext
        · exact hyeq
        · exact hyeq
      have hy : y = t.cursorY.toNat := by omega
      rw [hy]
      exact hold x hx
    · exact hkeep x y (hcovers.cells x y hx hy hmove)
  · -- The character, and the cursor after it.
    have hrow : (y : Int) = u.cursorY := by
      rw [hv] at hstore
      rcases Tty.shown_ne hstore with htext | ⟨-, hyeq⟩ | ⟨-, hyeq⟩
      · by_contra hother
        refine htext (Function.update_of_ne ?_ _ _)
        intro hindex
        rw [hux] at hindex
        have hlow : u.cursorY.toNat ≤ y := row_le hx (by omega)
        have hhigh : y ≤ u.cursorY.toNat := row_le hpos (by omega)
        omega
      · exact hyeq
      · exact hyeq
    have hy : y = u.cursorY.toNat := by omega
    rw [hy]
    exact hnew x hx

theorem ttyShow_covers {t t' : Tty} (h : t.Inv d) (hok : t.isDirty = true → t.RectOk d)
    {c : Int} (heq : ttyShow d t c = some t') : t.Covers d t' := by
  have hpos := d.width_pos
  obtain ⟨u, hcase, hu, hlt, hshow⟩ := ttyShow_cases h c
  rw [heq] at hshow
  rw [Option.some.inj hshow]
  rcases hcase with ⟨hinside, rfl⟩ | ⟨hedge, hline⟩
  · have hold := h.shownX
    obtain ⟨hxpos, -⟩ := h.cursorX
    obtain ⟨hypos, hylt⟩ := h.cursorY
    have hnew : (u.moved (u.cursorX + 1) u.cursorY).shownX d =
        min (u.cursorX + 1).toNat (d.width - 1) :=
      (h.moved ⟨by omega, by omega⟩ h.cursorY).shownX
    refine Tty.covers_of_box hok ⟨rfl, rfl, rfl, rfl, rfl⟩ (fun _ => by omega) ?_
    intro x y hx hy hne
    left
    rcases Tty.shown_ne hne with htext | ⟨hxeq, hyeq⟩ | ⟨hxeq, hyeq⟩
    · -- The cell that was written is the cursor's.
      have hindex : y * d.width + x = u.cursorY.toNat * d.width + u.cursorX.toNat := by
        by_contra hother
        exact htext (Function.update_of_ne hother _ _)
      have hlow : u.cursorY.toNat ≤ y := row_le hx (by omega)
      have hhigh : y ≤ u.cursorY.toNat :=
        row_le (show u.cursorX.toNat < d.width by omega) (by omega)
      have hrow : y = u.cursorY.toNat := by omega
      rw [hrow] at hindex
      omega
    · rw [hold] at hxeq
      omega
    · have hyeq : (y : Int) = u.cursorY := hyeq
      have hxeq : (x : Int) = (u.moved (u.cursorX + 1) u.cursorY).shownX d := hxeq
      rw [hnew] at hxeq
      omega
  · have hux : u.cursorX = 0 := by
      obtain ⟨u', hline', -, hux⟩ := ttyNewline_inv
        (h.moved (x := 0) ⟨Int.le_refl _, by omega⟩ h.cursorY)
      rw [hline] at hline'
      rw [Option.some.inj hline']
      exact hux
    exact ttyShow_wrap_covers h hok hedge hline hu hux rfl

variable (d) in
/-- The character completes a command that shows or hides the cursor, with the cursor past
the last column of a clean terminal. -/
structure Tty.BlinksAtEdge (t : Tty) (c : Int) : Prop where
  escape : t.isEscape = 2
  param : t.escapeParams 0 = 25
  flips : (c = chr 'h' ∧ t.isCursorHidden = true) ∨ (c = chr 'l' ∧ t.isCursorHidden = false)
  edge : t.cursorX = d.width
  clean : t.isDirty = false

theorem ttyEscapeCommand_covers {t t' : Tty} (h : t.Inv d)
    (hok : t.isDirty = true → t.RectOk d) {c : Int} (heq : ttyEscapeCommand d t c = some t') :
    t.Covers d t' := by
  unfold ttyEscapeCommand at heq
  by_cases hm : c = chr 'm'
  · rw [if_pos hm] at heq
    cases heq
    exact Tty.covers_of_same hok ⟨rfl, rfl, rfl, rfl, rfl⟩ rfl rfl rfl rfl
  rw [if_neg hm] at heq
  by_cases hH : c = chr 'H'
  · rw [if_pos hH] at heq
    cases heq
    exact ttyMoveCursor_covers h hok (toInt_lt _) (toInt_lt _)
  rw [if_neg hH] at heq
  by_cases hJ : c = chr 'J'
  · rw [if_pos hJ] at heq
    exact ttyEscClear_covers hok heq
  rw [if_neg hJ] at heq
  by_cases hK : c = chr 'K'
  · rw [if_pos hK] at heq
    exact ttyEscClearLine_covers h hok heq
  rw [if_neg hK] at heq
  by_cases hq : c = chr '?'
  · rw [if_pos hq] at heq
    cases heq
    exact Tty.covers_of_same hok ⟨rfl, rfl, rfl, rfl, rfl⟩ rfl rfl rfl rfl
  rw [if_neg hq] at heq
  by_cases hr : c = chr 'r'
  · rw [if_pos hr] at heq
    cases heq
    exact Tty.covers_of_same hok ⟨rfl, rfl, rfl, rfl, rfl⟩ rfl rfl rfl rfl
  rw [if_neg hr] at heq
  by_cases hS : c = chr 'S'
  · rw [if_pos hS] at heq
    obtain ⟨text, hscroll, hsame⟩ := ttyScrollUp_eq h
    rw [heq] at hscroll
    rw [Option.some.inj hscroll]
    exact ttyScroll_covers hok h.margins ⟨rfl, rfl, rfl, rfl, rfl⟩ rfl rfl hsame (Or.inl rfl)
  rw [if_neg hS] at heq
  by_cases hT : c = chr 'T'
  · rw [if_pos hT] at heq
    obtain ⟨text, hscroll, hsame⟩ := ttyScrollDown_eq h
    rw [heq] at hscroll
    rw [Option.some.inj hscroll]
    exact ttyScroll_covers hok h.margins ⟨rfl, rfl, rfl, rfl, rfl⟩ rfl rfl hsame (Or.inl rfl)
  rw [if_neg hT] at heq
  by_cases hn : c = chr 'n'
  · rw [if_pos hn] at heq
    cases heq
    exact Tty.covers_of_same hok ⟨rfl, rfl, rfl, rfl, rfl⟩ rfl rfl rfl rfl
  · rw [if_neg hn] at heq
    cases heq
    exact Tty.covers_of_same hok ⟨rfl, rfl, rfl, rfl, rfl⟩ rfl rfl rfl rfl

theorem ttyParseEscape_covers {t t' : Tty} (h : t.Inv d)
    (hok : t.isDirty = true → t.RectOk d) {c : Int} (hedge : ¬ t.BlinksAtEdge d c)
    (heq : ttyParseEscape d t c = some t') : t.Covers d t' := by
  have hleft : Tty.Inv d { t with isEscape := 0 } :=
    ⟨h.cursorX, h.cursorY, h.margins, fun hne => absurd rfl hne⟩
  have hsame : t.SameRect { t with isEscape := 0 } := ⟨rfl, rfl, rfl, rfl, rfl⟩
  have hleftOk : ({ t with isEscape := 0 } : Tty).isDirty = true →
      Tty.RectOk d { t with isEscape := 0 } := fun hd => hsame.rectOk (hok hd)
  have hstep : t.Covers d { t with isEscape := 0 } :=
    Tty.covers_of_same hok hsame rfl rfl rfl rfl
  unfold ttyParseEscape at heq
  by_cases hdigit : chr '0' ≤ c ∧ c ≤ chr '9'
  · rw [if_pos hdigit] at heq
    cases heq
    exact Tty.covers_of_same hok ⟨rfl, rfl, rfl, rfl, rfl⟩ rfl rfl rfl rfl
  rw [if_neg hdigit] at heq
  by_cases hone : t.isEscape = 1
  · rw [if_pos hone] at heq
    by_cases hbracket : c = chr '['
    · rw [if_pos hbracket] at heq
      cases heq
      exact Tty.covers_of_same hok ⟨rfl, rfl, rfl, rfl, rfl⟩ rfl rfl rfl rfl
    rw [if_neg hbracket] at heq
    by_cases hnext : c = chr ';'
    · rw [if_pos hnext] at heq
      cases heq
      exact Tty.covers_of_same hok ⟨rfl, rfl, rfl, rfl, rfl⟩ rfl rfl rfl rfl
    · rw [if_neg hnext] at heq
      exact hstep.trans (ttyEscapeCommand_covers hleft hleftOk heq)
  rw [if_neg hone] at heq
  by_cases htwo : t.isEscape = 2
  · rw [if_pos htwo] at heq
    by_cases hcursor : t.escapeParams 0 = 25
    · dsimp only at heq
      rw [if_pos hcursor] at heq
      by_cases hshow : c = chr 'h'
      · rw [if_pos hshow] at heq
        cases heq
        refine hstep.trans (ttySetHidden_covers hleft hleftOk fun hflip hclean hx => ?_)
        exact hedge ⟨htwo, hcursor, Or.inl ⟨hshow, by simpa using hflip⟩, hx, hclean⟩
      rw [if_neg hshow] at heq
      by_cases hhide : c = chr 'l'
      · rw [if_pos hhide] at heq
        cases heq
        refine hstep.trans (ttySetHidden_covers hleft hleftOk fun hflip hclean hx => ?_)
        exact hedge ⟨htwo, hcursor, Or.inr ⟨hhide, by simpa using hflip⟩, hx, hclean⟩
      · rw [if_neg hhide] at heq
        cases heq
        exact hstep
    · dsimp only at heq
      rw [if_neg hcursor] at heq
      cases heq
      exact hstep
  · rw [if_neg htwo] at heq
    cases heq
    exact Tty.covers_of_same hok ⟨rfl, rfl, rfl, rfl, rfl⟩ rfl rfl rfl rfl

/-- Every character covers what it changes, unless it blinks the cursor at the edge. -/
theorem ttyPutCharacter_covers {t t' : Tty} (h : t.Inv d)
    (hok : t.isDirty = true → t.RectOk d) {c : Int} (hedge : ¬ t.BlinksAtEdge d c)
    (heq : ttyPutCharacter d t c = some t') : t.Covers d t' := by
  have hpos := d.width_pos
  unfold ttyPutCharacter at heq
  by_cases hhigh : c > 0x7F
  · rw [if_pos hhigh] at heq
    cases heq
    exact Tty.covers_of_same hok ⟨rfl, rfl, rfl, rfl, rfl⟩ rfl rfl rfl rfl
  rw [if_neg hhigh] at heq
  by_cases hzero : c = 0
  · rw [if_pos hzero] at heq
    cases heq
    exact Tty.covers_of_same hok ⟨rfl, rfl, rfl, rfl, rfl⟩ rfl rfl rfl rfl
  rw [if_neg hzero] at heq
  by_cases hescape : t.isEscape ≠ 0
  · rw [if_pos hescape] at heq
    exact ttyParseEscape_covers h hok hedge heq
  rw [if_neg hescape] at heq
  by_cases hnewline : c = chr '\n'
  · rw [if_pos hnewline] at heq
    exact ttyNewline_covers h hok heq
  rw [if_neg hnewline] at heq
  by_cases hback : c = chr '\x08'
  · rw [if_pos hback] at heq
    cases heq
    exact ttyBackspace_covers h hok
  rw [if_neg hback] at heq
  by_cases hreturn : c = chr '\r'
  · rw [if_pos hreturn] at heq
    cases heq
    exact ttySameRow_covers h hok ⟨Int.le_refl _, by omega⟩
  rw [if_neg hreturn] at heq
  by_cases htab : c = chr '\t'
  · rw [if_pos htab] at heq
    cases heq
    exact ttySameRow_covers h hok h.tabbed
  rw [if_neg htab] at heq
  by_cases hstart : c = chr '\x1B'
  · rw [if_pos hstart] at heq
    cases heq
    exact Tty.covers_of_same hok ⟨rfl, rfl, rfl, rfl, rfl⟩ rfl rfl rfl rfl
  · rw [if_neg hstart] at heq
    exact ttyShow_covers h hok heq

/-! ## Runs -/

variable (d) in
/-- The states of a terminal that is created, given characters and drawn. -/
inductive TtyReach : Tty → Prop
  | create (index : Nat) (params : Nat → Word) : TtyReach (ttyFresh d index params)
  | put {t t' : Tty} (h : TtyReach t) (c : Int) (step : ttyPutCharacter d t c = some t') :
      TtyReach t'
  | draw {t : Tty} (h : TtyReach t) : TtyReach (ttyDraw t)

variable (d) in
/-- The states after `t` when every character meets `P`. -/
inductive TtyAfter (P : Tty → Int → Prop) (t : Tty) : Tty → Prop
  | refl : TtyAfter P t t
  | put {u u' : Tty} (h : TtyAfter P t u) (c : Int) (meets : P u c)
      (step : ttyPutCharacter d u c = some u') : TtyAfter P t u'

theorem TtyReach.inv {t : Tty} (h : TtyReach d t) : t.Inv d := by
  induction h with
  | create index params => exact ttyFresh_inv d index params
  | put _ c step ih =>
      obtain ⟨t', heq, hinv⟩ := ttyPutCharacter_inv ih c
      rw [heq] at step
      exact Option.some.inj step ▸ hinv
  | draw _ ih => exact ih.keeps ⟨rfl, rfl, rfl, rfl, rfl, rfl⟩

/-- A run covers everything that it changes. -/
theorem TtyAfter.covers {t u : Tty} (h : TtyAfter d (fun t c => ¬ t.BlinksAtEdge d c) t u)
    (hinv : t.Inv d) (hok : t.isDirty = true → t.RectOk d) : u.Inv d ∧ t.Covers d u := by
  induction h with
  | refl => exact ⟨hinv, Tty.covers_of_same hok ⟨rfl, rfl, rfl, rfl, rfl⟩ rfl rfl rfl rfl⟩
  | put _ c meets step ih =>
      obtain ⟨huinv, hcovers⟩ := ih
      obtain ⟨u', heq, hinv'⟩ := ttyPutCharacter_inv huinv c
      have hnext := ttyPutCharacter_covers huinv hcovers.rect meets step
      rw [heq] at step
      exact ⟨Option.some.inj step ▸ hinv', hcovers.trans hnext⟩

/-- Something that is drawn differs: a cell, the cell of the cursor, or its hidden flag. -/
def Tty.Changed (d : TtySize) (t u : Tty) : Prop :=
  (∃ x y, x < d.width ∧ y < d.height ∧
    u.textBuffer (y * d.width + x) ≠ t.textBuffer (y * d.width + x)) ∨
  u.shownX d ≠ t.shownX d ∨ u.cursorY ≠ t.cursorY ∨ u.isCursorHidden ≠ t.isCursorHidden

/-- What was changed from `t` to `u` is still to be drawn in `v`. -/
structure Tty.Awaits (d : TtySize) (t u v : Tty) : Prop where
  dirty : t.Changed d u → v.isDirty = true ∧ v.RectOk d
  cells : ∀ x y, x < d.width → y < d.height → u.shown d x y ≠ t.shown d x y → v.InRect x y

/-- After a clean state, in a run in which no character blinks the cursor at the edge,
whatever has changed is in a rectangle of the screen that the next draw draws. -/
theorem tty_changes_await {t u v : Tty} (hreach : TtyReach d t) (hclean : t.isDirty = false)
    (hrun : TtyAfter d (fun t c => ¬ t.BlinksAtEdge d c) t u)
    (hrest : TtyAfter d (fun t c => ¬ t.BlinksAtEdge d c) u v) : t.Awaits d u v := by
  have hnone : t.isDirty = true → t.RectOk d := by
    intro hd
    rw [hclean] at hd
    cases hd
  obtain ⟨hinv, hcovers⟩ := hrun.covers hreach.inv hnone
  obtain ⟨-, hafter⟩ := hrest.covers hinv hcovers.rect
  constructor
  · intro hchanged
    have hdirty : u.isDirty = true := by
      rcases hchanged with ⟨x, y, hx, hy, hne⟩ | hcursor
      · refine (hcovers.cells x y hx hy ?_).dirty
        exact fun hshown => hne (congrArg Prod.fst hshown)
      · exact hcovers.cursor hcursor
    exact ⟨hafter.dirty hdirty, hafter.rect (hafter.dirty hdirty)⟩
  · intro x y hx hy hne
    exact hafter.grows x y (hcovers.cells x y hx hy hne)

theorem TtyReach.run {t t' : Tty} (h : TtyReach d t) {chars : List Int}
    (heq : ttyRun d chars t = some t') : TtyReach d t' := by
  induction chars generalizing t with
  | nil => exact Option.some.inj heq ▸ h
  | cons c chars ih =>
      rw [ttyRun, Option.bind_eq_some_iff] at heq
      obtain ⟨u, hput, hrest⟩ := heq
      exact ih (h.put c hput) hrest

theorem TtyAfter.run {t u u' : Tty} (h : TtyAfter d (fun _ _ => True) t u) {chars : List Int}
    (heq : ttyRun d chars u = some u') : TtyAfter d (fun _ _ => True) t u' := by
  induction chars generalizing u with
  | nil => exact Option.some.inj heq ▸ h
  | cons c chars ih =>
      rw [ttyRun, Option.bind_eq_some_iff] at heq
      obtain ⟨v, hput, hrest⟩ := heq
      exact ih (h.put c trivial hput) hrest

end

theorem tty_changes_await_first :
    ∃ u, ttyPutCharacter ttySize80 (ttyDraw (ttyFresh ttySize80 0 fun _ => 0)) (chr 'A') =
        some u ∧
      (ttyDraw (ttyFresh ttySize80 0 fun _ => 0)).Awaits ttySize80 u u := by
  have hreach : TtyReach ttySize80 (ttyDraw (ttyFresh ttySize80 0 fun _ => 0)) :=
    .draw (.create 0 fun _ => 0)
  obtain ⟨u, heq, -⟩ := ttyPutCharacter_inv hreach.inv (chr 'A')
  refine ⟨u, heq, tty_changes_await hreach rfl (.put .refl _ ?_ heq) .refl⟩
  intro hblinks
  exact absurd hblinks.escape (by decide)

/-- Text up to the last column: `ESC [ 1 ; 8 0 H A`. -/
def ttyToEdge : List Int :=
  [chr '\x1B', chr '[', chr '1', chr ';', chr '8', chr '0', chr 'H', chr 'A']

/-- The command that hides the cursor, `ESC [ ? 2 5 l`. -/
def ttyHideCursor : List Int :=
  [chr '\x1B', chr '[', chr '?', chr '2', chr '5', chr 'l']

/-- Hiding the cursor past the last column of a clean terminal makes an empty rectangle. -/
theorem ttyHideCursor_rect :
    ((((ttyRun ttySize80 ttyToEdge (ttyFresh ttySize80 0 fun _ => 0)).map ttyDraw).bind
      fun t => (ttyRun ttySize80 ttyHideCursor t).map fun u =>
        (t.isCursorHidden, u.isCursorHidden, u.dirtyX1, u.dirtyX2)) =
      some (false, true, 80, 79)) := by
  decide

theorem tty_cursor_not_awaited :
    ¬ ∀ (d : TtySize) (t u : Tty), TtyReach d t → t.isDirty = false →
      TtyAfter d (fun _ _ => True) t u → t.Awaits d u u := by
  intro h
  have hrect := ttyHideCursor_rect
  rw [Option.bind_eq_some_iff] at hrect
  obtain ⟨t, hdraw, hhide⟩ := hrect
  rw [Option.map_eq_some_iff] at hdraw hhide
  obtain ⟨t₀, hedge, rfl⟩ := hdraw
  obtain ⟨u, hrun, hfields⟩ := hhide
  simp only [Prod.mk.injEq] at hfields
  obtain ⟨hshown, hhidden, hx1, hx2⟩ := hfields
  have hreach : TtyReach ttySize80 (ttyDraw t₀) :=
    .draw (TtyReach.run (.create 0 fun _ => 0) hedge)
  have hafter : TtyAfter ttySize80 (fun _ _ => True) (ttyDraw t₀) u := TtyAfter.run .refl hrun
  have hchanged : (ttyDraw t₀).Changed ttySize80 u := by
    refine Or.inr (Or.inr (Or.inr ?_))
    rw [hshown, hhidden]
    decide
  have horder := ((h ttySize80 _ u hreach rfl hafter).dirty hchanged).2.columns.order
  rw [hx1, hx2] at horder
  exact absurd horder (by decide)

end Xremu
