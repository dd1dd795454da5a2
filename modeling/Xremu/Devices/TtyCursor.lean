import Mathlib.Logic.Function.Iterate
import Xremu.Devices.TtyDirty

/-!
# Cursor addressing

`ESC [ row ; col H` accumulates its parameters in `uint32_t`, subtracts one and hands them
to `TTYMoveCursor` as integers. There a coordinate is compared with the unsigned size
before it is checked for being negative, so that a negative one, which a parameter of zero
leads to, is on the far side of the screen and not on the near one.

In the middle of an escape sequence the `ESC` only ends that sequence, and the rest is
shown as text.
-/

namespace Xremu

/-- A coordinate between zero and the last one. -/
def clampTo (size : Nat) (x : Int) : Int := max 0 (min x (size - 1))

/-- The coordinate that a parameter stands for, which counts from one. -/
def oneBased (size param : Nat) : Int := min (max param 1) size - 1

theorem ttyClamp_of_nonneg {size : Nat} {x : Int} (hx : 0 ≤ x) (hlt : x < 2147483648)
    (hpos : 0 < size) : ttyClamp size x = clampTo size x := by
  have hu : u32 x = x.toNat := u32_of_nonneg hx (by omega)
  unfold ttyClamp clampTo
  dsimp only
  rw [hu]
  by_cases hge : x.toNat ≥ size
  · rw [if_pos hge, if_neg (by omega)]
    omega
  · rw [if_neg hge, if_neg (by omega)]
    omega

/-- As a `uint32_t` it is larger than any screen. -/
theorem ttyClamp_of_neg {size : Nat} {x : Int} (hx : x < 0) (hge : -2147483648 ≤ x)
    (hpos : 0 < size) (hsize : size < 1073741824) : ttyClamp size x = size - 1 := by
  have hu := le_u32_of_neg hx hge
  have hfar : u32 x ≥ size := by omega
  unfold ttyClamp
  dsimp only
  rw [if_pos hfar, if_neg (by omega)]

theorem ttyClamp_eq_iff {size : Nat} {x : Int} (hge : -2147483648 ≤ x) (hlt : x < 2147483648)
    (hpos : 0 < size) (hsize : size < 1073741824) :
    ttyClamp size x = clampTo size x ↔ 0 ≤ x ∨ size = 1 := by
  by_cases hx : 0 ≤ x
  · rw [ttyClamp_of_nonneg hx hlt hpos]
    exact ⟨fun _ => Or.inl hx, fun _ => rfl⟩
  · rw [ttyClamp_of_neg (by omega) hge hpos hsize]
    unfold clampTo
    constructor
    · intro heq
      right
      omega
    · rintro (hpos | hone)
      · exact absurd hpos hx
      · omega

/-! ## The sequence -/

/-- The number that decimal digits stand for. -/
def decimal (digits : List (Fin 10)) : Nat := digits.foldl (fun v n => v * 10 + n.val) 0

def ttyDigit (n : Fin 10) : Int := chr '0' + n.val

/-- The text between `ESC` and the end of the sequence. -/
def ttyAddressText (row col : List (Fin 10)) : List Int :=
  chr '[' :: (row.map ttyDigit ++ chr ';' :: (col.map ttyDigit ++ [chr 'H']))

/-- `ESC [ row ; col H`. -/
def ttyAddress (row col : List (Fin 10)) : List Int := chr '\x1B' :: ttyAddressText row col

section

variable {d : TtySize} {t : Tty}

theorem ttyRun_append (chars rest : List Int) (t : Tty) :
    ttyRun d (chars ++ rest) t = (ttyRun d chars t).bind (ttyRun d rest) := by
  induction chars generalizing t with
  | nil => rfl
  | cons c chars ih =>
      rw [List.cons_append, ttyRun, ttyRun, Option.bind_assoc]
      congr 1
      funext u
      exact ih u

theorem ttyRun_cons (c : Int) (rest : List Int) (t : Tty) :
    ttyRun d (c :: rest) t = (ttyPutCharacter d t c).bind (ttyRun d rest) := rfl

/-- The terminal with another value of the parameter that is being read. -/
def Tty.withParam (t : Tty) (v : Word) : Tty :=
  { t with escapeParams := Function.update t.escapeParams t.escapeIndex v }

theorem ttyPutCharacter_digit (hescape : t.isEscape ≠ 0) (n : Fin 10) :
    ttyPutCharacter d t (ttyDigit n) =
      some (t.withParam (t.escapeParams t.escapeIndex * 10 + BitVec.ofNat 32 n.val)) := by
  have hzero : chr '0' = 48 := rfl
  have hnine : chr '9' = 57 := rfl
  have hn := n.isLt
  unfold ttyPutCharacter ttyParseEscape ttyDigit
  have hdiff : chr '0' + (n.val : Int) - chr '0' = n.val := by omega
  rw [if_neg (by omega), if_neg (by omega), if_pos hescape, if_pos (by omega), hdiff,
    BitVec.ofInt_natCast]
  rfl

/-- Digits are accumulated as a `uint32_t`. -/
theorem ttyRun_digits (digits : List (Fin 10)) (v : Nat) (hescape : t.isEscape ≠ 0)
    (hparam : t.escapeParams t.escapeIndex = BitVec.ofNat 32 v) :
    ttyRun d (digits.map ttyDigit) t =
      some (t.withParam (BitVec.ofNat 32 (digits.foldl (fun v n => v * 10 + n.val) v))) := by
  induction digits generalizing t v with
  | nil =>
      show some t = _
      rw [List.foldl_nil, ← hparam]
      unfold Tty.withParam
      rw [Function.update_eq_self]
  | cons n digits ih =>
      have hnext : t.escapeParams t.escapeIndex * 10 + BitVec.ofNat 32 n.val =
          BitVec.ofNat 32 (v * 10 + n.val) := by
        rw [hparam, BitVec.ofNat_add, BitVec.ofNat_mul]
        rfl
      rw [List.map_cons, ttyRun_cons, ttyPutCharacter_digit hescape, hnext, Option.bind_some,
        List.foldl_cons]
      rw [ih (t := t.withParam (BitVec.ofNat 32 (v * 10 + n.val))) (v * 10 + n.val) hescape]
      · unfold Tty.withParam
        dsimp only
        rw [Function.update_idem]
      · exact Function.update_self _ _ _

/-- What `TTYMoveCursor` is called with. -/
theorem param_toInt {v : Nat} (hv : v < 0x80000000) :
    (BitVec.ofNat 32 v - 1 : Word).toInt = (v : Int) - 1 := by
  have hone : (1 : Word).toNat = 1 := rfl
  cases v with
  | zero => rfl
  | succ v =>
      have hnat : (BitVec.ofNat 32 (v + 1) - 1 : Word).toNat = v := by
        rw [BitVec.toNat_sub, BitVec.toNat_ofNat, hone]
        omega
      rw [BitVec.toInt_eq_toNat_of_lt (by omega), hnat]
      omega

theorem clampTo_param {size v : Nat} (hpos : 0 < size) :
    clampTo size ((v : Int) - 1) = oneBased size v := by
  unfold clampTo oneBased
  omega

theorem ttyPutCharacter_parse {c : Int} (hescape : t.isEscape = 1) (hascii : ¬c > 0x7F)
    (hc : ¬c = 0) : ttyPutCharacter d t c = ttyParseEscape d t c := by
  have hne : t.isEscape ≠ 0 := by
    rw [hescape]
    decide
  rw [ttyPutCharacter, if_neg hascii, if_neg hc, if_pos hne]

theorem ttyPutCharacter_bracket (hescape : t.isEscape = 1) :
    ttyPutCharacter d t (chr '[') = some t := by
  rw [ttyPutCharacter_parse hescape (by decide) (by decide), ttyParseEscape,
    if_neg (by decide), if_pos hescape, if_pos rfl]

theorem ttyPutCharacter_semicolon (hescape : t.isEscape = 1) :
    ttyPutCharacter d t (chr ';') =
      some { t with
        escapeIndex := if t.escapeIndex + 1 ≥ ttyParamCount then 0 else t.escapeIndex + 1 } := by
  rw [ttyPutCharacter_parse hescape (by decide) (by decide), ttyParseEscape,
    if_neg (by decide), if_pos hescape, if_neg (by decide), if_pos rfl]

theorem ttyPutCharacter_address (hescape : t.isEscape = 1) :
    ttyPutCharacter d t (chr 'H') =
      some (ttyMoveCursor d (t.escapeParams 1 - 1).toInt (t.escapeParams 0 - 1).toInt
        { t with isEscape := 0 }) := by
  rw [ttyPutCharacter_parse hescape (by decide) (by decide), ttyParseEscape,
    if_neg (by decide), if_pos hescape, if_neg (by decide), if_neg (by decide),
    ttyEscapeCommand, if_neg (by decide), if_pos rfl]

/-- The parameters of the sequence, from a terminal that is not in an escape sequence. -/
theorem ttyRun_address (hescape : t.isEscape = 0) (row col : List (Fin 10)) :
    ∃ u, (u.cursorX = t.cursorX ∧ u.cursorY = t.cursorY) ∧
      ttyRun d (ttyAddress row col) t =
        some (ttyMoveCursor d (BitVec.ofNat 32 (decimal col) - 1 : Word).toInt
          (BitVec.ofNat 32 (decimal row) - 1 : Word).toInt u) := by
  let started : Tty := { t with
    isEscape := 1, escapeIndex := 0
    escapeParams := fun i => if i < ttyParamCount then 0 else t.escapeParams i }
  let rows := started.withParam (BitVec.ofNat 32 (decimal row))
  let cols := { rows with escapeIndex := 1 }.withParam (BitVec.ofNat 32 (decimal col))
  have hstart : ttyPutCharacter d t (chr '\x1B') = some started := by
    unfold ttyPutCharacter
    rw [if_neg (by decide), if_neg (by decide), if_neg (not_not_intro hescape),
      if_neg (by decide), if_neg (by decide), if_neg (by decide), if_neg (by decide),
      if_pos rfl]
  have hone : started.isEscape = 1 := rfl
  have hnonzero : started.isEscape ≠ 0 := by
    rw [hone]
    decide
  have hrow : ttyRun d (row.map ttyDigit) started = some rows :=
    ttyRun_digits row 0 hnonzero rfl
  have hnext : ttyPutCharacter d rows (chr ';') = some { rows with escapeIndex := 1 } :=
    ttyPutCharacter_semicolon hone
  have hcol : ttyRun d (col.map ttyDigit) { rows with escapeIndex := 1 } = some cols :=
    ttyRun_digits col 0 hnonzero rfl
  have hend : ttyPutCharacter d cols (chr 'H') =
      some (ttyMoveCursor d (BitVec.ofNat 32 (decimal col) - 1 : Word).toInt
        (BitVec.ofNat 32 (decimal row) - 1 : Word).toInt { cols with isEscape := 0 }) :=
    ttyPutCharacter_address hone
  refine ⟨{ cols with isEscape := 0 }, ⟨rfl, rfl⟩, ?_⟩
  unfold ttyAddress ttyAddressText
  rw [ttyRun_cons, hstart, Option.bind_some, ttyRun_cons,
    ttyPutCharacter_bracket hone, Option.bind_some,
    ttyRun_append, hrow, Option.bind_some, ttyRun_cons, hnext, Option.bind_some, ttyRun_append,
    hcol, Option.bind_some, ttyRun_cons, hend, Option.bind_some]
  rfl

/-! ## In the middle of another sequence -/

/-- The cursor after one more character of text. -/
def textCursor (width : Nat) (bottom : Int) (cursor : Int × Int) : Int × Int :=
  if cursor.1 = width then
    (1, if cursor.2 + 1 > bottom then bottom else cursor.2 + 1)
  else (cursor.1 + 1, cursor.2)

/-- A character that is shown moves the cursor, and nothing else that matters to the next. -/
structure TtyTexted (d : TtySize) (t : Tty) (cursor : Int × Int) (t' : Tty) : Prop where
  inv : t'.Inv d
  escape : t'.isEscape = t.isEscape
  bottom : t'.scrollWindowBottom = t.scrollWindowBottom
  cursor : (t'.cursorX, t'.cursorY) = cursor

theorem ttyNewline_texted {t : Tty} (h : t.Inv d) :
    ∃ t', ttyNewline d t = some t' ∧ TtyTexted d t
      (t.cursorX, if t.cursorY + 1 > t.scrollWindowBottom then (t.scrollWindowBottom : Int)
        else t.cursorY + 1) t' := by
  obtain ⟨t', heq, hinv, hx⟩ := ttyNewline_inv h
  have hk := ttyNextRow_keeps (d := d) t
  refine ⟨t', heq, ?_⟩
  by_cases hbelow : t.cursorY + 1 > t.scrollWindowBottom
  · rw [if_pos hbelow]
    rcases ttyNewline_cases h with ⟨hrow, -⟩ | ⟨text, hscroll, -⟩
    · omega
    · rw [heq] at hscroll
      obtain rfl := Option.some.inj hscroll
      have hd := ttyMakeDirty_keeps (d := d) 0 t.scrollWindowTop (d.width - 1)
        t.scrollWindowBottom
        (((ttyNextRow d t).moved t.cursorX t.scrollWindowBottom).withText text)
      exact ⟨hinv, hd.isEscape.trans hk.isEscape, hd.bottom.trans hk.bottom,
        Prod.ext hd.cursorX hd.cursorY⟩
  · rw [if_neg hbelow]
    rw [ttyNewline_eq h, if_neg hbelow] at heq
    obtain rfl := Option.some.inj heq
    exact ⟨hinv, hk.isEscape, hk.bottom, Prod.ext hk.cursorX hk.cursorY⟩

theorem ttyShow_texted {t : Tty} (h : t.Inv d) (c : Int) :
    ∃ t', ttyShow d t c = some t' ∧
      TtyTexted d t (textCursor d.width t.scrollWindowBottom (t.cursorX, t.cursorY)) t' := by
  obtain ⟨u, hfrom, hu, hlt, heq⟩ := ttyShow_cases h c
  obtain ⟨t', heq', hinv⟩ := ttyShow_inv h c
  rw [heq] at heq'
  obtain rfl := Option.some.inj heq'
  have hk := ttyMakeDirty_keeps (d := d) t.cursorX.toNat t.cursorY.toNat (u.cursorX + 1).toNat
    u.cursorY.toNat ((u.moved (u.cursorX + 1) u.cursorY).withText
      (Function.update u.textBuffer (u.cursorY.toNat * d.width + u.cursorX.toNat) (u.cell c)))
  refine ⟨_, heq, ?_⟩
  unfold textCursor
  dsimp only
  rcases hfrom with ⟨hinside, rfl⟩ | ⟨hedge, hnewline⟩
  · rw [if_neg (Int.ne_of_lt hinside)]
    exact ⟨hinv, hk.isEscape, hk.bottom, Prod.ext hk.cursorX hk.cursorY⟩
  · have hmoved : (t.moved 0 t.cursorY).Inv d :=
      h.moved ⟨Int.le_refl _, Int.natCast_nonneg _⟩ h.cursorY
    obtain ⟨v, hv, htexted⟩ := ttyNewline_texted hmoved
    rw [hnewline] at hv
    obtain rfl := Option.some.inj hv
    obtain ⟨hx, hy⟩ := Prod.mk.inj htexted.cursor
    rw [if_pos hedge]
    refine ⟨hinv, hk.isEscape.trans htexted.escape, hk.bottom.trans htexted.bottom, ?_⟩
    apply Prod.ext
    · show _ = (1 : Int)
      rw [hk.cursorX]
      show u.cursorX + 1 = 1
      rw [hx]
      rfl
    · show _ = if t.cursorY + 1 > t.scrollWindowBottom then _ else _
      rw [hk.cursorY]
      exact hy

/-- A character that is neither ignored nor a control character. -/
def TtyText (c : Int) : Prop := 0x20 ≤ c ∧ c ≤ 0x7F

theorem ttyPutCharacter_text {t : Tty} {c : Int} (hescape : t.isEscape = 0) (hc : TtyText c) :
    ttyPutCharacter d t c = ttyShow d t c := by
  obtain ⟨hmin, hmax⟩ := hc
  have hn : chr '\n' = 10 := rfl
  have hb : chr '\x08' = 8 := rfl
  have hr : chr '\r' = 13 := rfl
  have ht : chr '\t' = 9 := rfl
  have he : chr '\x1B' = 27 := rfl
  unfold ttyPutCharacter
  rw [if_neg (by omega), if_neg (by omega), if_neg (not_not_intro hescape), if_neg (by omega),
    if_neg (by omega), if_neg (by omega), if_neg (by omega), if_neg (by omega)]

theorem ttyRun_text {t : Tty} (h : t.Inv d) (hescape : t.isEscape = 0) (chars : List Int)
    (htext : ∀ c ∈ chars, TtyText c) :
    ∃ t', ttyRun d chars t = some t' ∧
      (t'.cursorX, t'.cursorY) =
        (textCursor d.width t.scrollWindowBottom)^[chars.length] (t.cursorX, t.cursorY) := by
  induction chars generalizing t with
  | nil => exact ⟨t, rfl, rfl⟩
  | cons c chars ih =>
      obtain ⟨u, hshow, hu⟩ := ttyShow_texted h c
      obtain ⟨t', hrun, hcursor⟩ := ih hu.inv (hu.escape.trans hescape) fun b hb =>
        htext b (List.mem_cons_of_mem c hb)
      refine ⟨t', ?_, ?_⟩
      · rw [ttyRun_cons, ttyPutCharacter_text hescape (htext c List.mem_cons_self), hshow,
          Option.bind_some]
        exact hrun
      · rw [hcursor, hu.bottom, hu.cursor, List.length_cons, Function.iterate_succ_apply]

theorem ttyAddressText_text (row col : List (Fin 10)) : ∀ c ∈ ttyAddressText row col, TtyText c := by
  have hdigit : ∀ n : Fin 10, TtyText (ttyDigit n) := by
    intro n
    have hn := n.isLt
    have hzero : chr '0' = 48 := rfl
    unfold TtyText ttyDigit
    omega
  intro c hc
  unfold ttyAddressText at hc
  simp only [List.mem_cons, List.mem_append, List.mem_map, List.not_mem_nil, or_false] at hc
  rcases hc with rfl | ⟨n, -, rfl⟩ | rfl | ⟨n, -, rfl⟩ | rfl
  · exact ⟨by decide, by decide⟩
  · exact hdigit n
  · exact ⟨by decide, by decide⟩
  · exact hdigit n
  · exact ⟨by decide, by decide⟩

/-- `ESC` in the middle of a sequence. -/
theorem ttyPutCharacter_interrupt {t : Tty} (hescape : t.isEscape = 1 ∨ t.isEscape = 2) :
    ttyPutCharacter d t (chr '\x1B') = some { t with isEscape := 0 } := by
  have hne : t.isEscape ≠ 0 := by omega
  unfold ttyPutCharacter
  rw [if_neg (by decide), if_neg (by decide), if_pos hne]
  unfold ttyParseEscape
  rw [if_neg (by decide)]
  rcases hescape with hone | htwo
  · rw [if_pos hone, if_neg (by decide), if_neg (by decide)]
    rfl
  · have hnot : ¬t.isEscape = 1 := by omega
    rw [if_neg hnot, if_pos htwo]
    dsimp only
    split
    · rw [if_neg (by decide), if_neg (by decide)]
    · rfl

/-! ## Addressing the cursor -/

/-- `IsEscape` is set to the numbers 0, 1 and 2 only. -/
theorem ttyEscapeCommand_escape {t t' : Tty} {c : Int} (h : t.Inv d)
    (hcommand : ttyEscapeCommand d t c = some t') :
    t'.isEscape = t.isEscape ∨ t'.isEscape = 2 := by
  unfold ttyEscapeCommand at hcommand
  by_cases hm : c = chr 'm'
  · rw [if_pos hm] at hcommand
    obtain rfl := Option.some.inj hcommand
    exact Or.inl rfl
  rw [if_neg hm] at hcommand
  by_cases hH : c = chr 'H'
  · rw [if_pos hH] at hcommand
    obtain rfl := Option.some.inj hcommand
    exact Or.inl (ttyMakeDirty_keeps _ _ _ _ t).isEscape
  rw [if_neg hH] at hcommand
  by_cases hJ : c = chr 'J'
  · rw [if_pos hJ] at hcommand
    rcases ttyEscClear_cases (d := d) t with heq | ⟨text, heq⟩
    · rw [heq] at hcommand
      obtain rfl := Option.some.inj hcommand
      exact Or.inl rfl
    · rw [heq] at hcommand
      obtain rfl := Option.some.inj hcommand
      exact Or.inl (ttyMakeDirty_keeps _ _ _ _ _).isEscape
  rw [if_neg hJ] at hcommand
  by_cases hK : c = chr 'K'
  · rw [if_pos hK] at hcommand
    rcases ttyEscClearLine_cases h with heq | ⟨first, text, -, heq, -⟩
    · rw [heq] at hcommand
      obtain rfl := Option.some.inj hcommand
      exact Or.inl rfl
    · rw [heq] at hcommand
      obtain rfl := Option.some.inj hcommand
      exact Or.inl (ttyMakeDirty_keeps _ _ _ _ t).isEscape
  rw [if_neg hK] at hcommand
  by_cases hq : c = chr '?'
  · rw [if_pos hq] at hcommand
    obtain rfl := Option.some.inj hcommand
    exact Or.inr rfl
  rw [if_neg hq] at hcommand
  by_cases hr : c = chr 'r'
  · rw [if_pos hr] at hcommand
    obtain rfl := Option.some.inj hcommand
    exact Or.inl rfl
  rw [if_neg hr] at hcommand
  by_cases hS : c = chr 'S'
  · rw [if_pos hS] at hcommand
    obtain ⟨text, heq, -⟩ := ttyScrollUp_eq h
    rw [heq] at hcommand
    obtain rfl := Option.some.inj hcommand
    exact Or.inl (ttyMakeDirty_keeps _ _ _ _ _).isEscape
  rw [if_neg hS] at hcommand
  by_cases hT : c = chr 'T'
  · rw [if_pos hT] at hcommand
    obtain ⟨text, heq, -⟩ := ttyScrollDown_eq h
    rw [heq] at hcommand
    obtain rfl := Option.some.inj hcommand
    exact Or.inl (ttyMakeDirty_keeps _ _ _ _ _).isEscape
  rw [if_neg hT] at hcommand
  split at hcommand
  · obtain rfl := Option.some.inj hcommand
    exact Or.inl rfl
  · obtain rfl := Option.some.inj hcommand
    exact Or.inl rfl

theorem ttyParseEscape_escape {t t' : Tty} {c : Int} (h : t.Inv d)
    (hparse : ttyParseEscape d t c = some t') :
    t'.isEscape = t.isEscape ∨ t'.isEscape = 0 ∨ t'.isEscape = 2 := by
  have hleft : Tty.Inv d { t with isEscape := 0 } :=
    ⟨h.cursorX, h.cursorY, h.margins, fun hne => absurd rfl hne⟩
  unfold ttyParseEscape at hparse
  by_cases hdigit : chr '0' ≤ c ∧ c ≤ chr '9'
  · rw [if_pos hdigit] at hparse
    obtain rfl := Option.some.inj hparse
    exact Or.inl rfl
  rw [if_neg hdigit] at hparse
  by_cases hone : t.isEscape = 1
  · rw [if_pos hone] at hparse
    by_cases hbracket : c = chr '['
    · rw [if_pos hbracket] at hparse
      obtain rfl := Option.some.inj hparse
      exact Or.inl rfl
    rw [if_neg hbracket] at hparse
    by_cases hnext : c = chr ';'
    · rw [if_pos hnext] at hparse
      obtain rfl := Option.some.inj hparse
      exact Or.inl rfl
    · rw [if_neg hnext] at hparse
      exact Or.inr (ttyEscapeCommand_escape hleft hparse)
  rw [if_neg hone] at hparse
  by_cases htwo : t.isEscape = 2
  · rw [if_pos htwo] at hparse
    dsimp only at hparse
    right
    left
    split at hparse
    · split at hparse
      · obtain rfl := Option.some.inj hparse
        exact (ttySetHidden_keeps _ _).isEscape
      · split at hparse
        · obtain rfl := Option.some.inj hparse
          exact (ttySetHidden_keeps _ _).isEscape
        · obtain rfl := Option.some.inj hparse
          rfl
    · obtain rfl := Option.some.inj hparse
      rfl
  · rw [if_neg htwo] at hparse
    obtain rfl := Option.some.inj hparse
    exact Or.inl rfl

theorem ttyPutCharacter_escape {t t' : Tty} {c : Int} (h : t.Inv d)
    (hput : ttyPutCharacter d t c = some t') :
    t'.isEscape = t.isEscape ∨ t'.isEscape ≤ 2 := by
  unfold ttyPutCharacter at hput
  by_cases hhigh : c > 0x7F
  · rw [if_pos hhigh] at hput
    obtain rfl := Option.some.inj hput
    exact Or.inl rfl
  rw [if_neg hhigh] at hput
  by_cases hzero : c = 0
  · rw [if_pos hzero] at hput
    obtain rfl := Option.some.inj hput
    exact Or.inl rfl
  rw [if_neg hzero] at hput
  by_cases hescape : t.isEscape ≠ 0
  · rw [if_pos hescape] at hput
    rcases ttyParseEscape_escape h hput with hsame | hended | htwo
    · exact Or.inl hsame
    · exact Or.inr (by omega)
    · exact Or.inr (by omega)
  rw [if_neg hescape] at hput
  by_cases hnewline : c = chr '\n'
  · rw [if_pos hnewline] at hput
    obtain ⟨u, heq, htexted⟩ := ttyNewline_texted h
    rw [heq] at hput
    exact Or.inl (Option.some.inj hput ▸ htexted.escape)
  rw [if_neg hnewline] at hput
  by_cases hback : c = chr '\x08'
  · rw [if_pos hback] at hput
    obtain rfl := Option.some.inj hput
    exact Or.inl (ttyMakeDirty_keeps _ _ _ _ _).isEscape
  rw [if_neg hback] at hput
  by_cases hreturn : c = chr '\r'
  · rw [if_pos hreturn] at hput
    obtain rfl := Option.some.inj hput
    exact Or.inl (ttyMakeDirty_keeps _ _ _ _ _).isEscape
  rw [if_neg hreturn] at hput
  by_cases htab : c = chr '\t'
  · rw [if_pos htab] at hput
    obtain rfl := Option.some.inj hput
    exact Or.inl (ttyMakeDirty_keeps _ _ _ _ _).isEscape
  rw [if_neg htab] at hput
  by_cases hstart : c = chr '\x1B'
  · rw [if_pos hstart] at hput
    obtain rfl := Option.some.inj hput
    exact Or.inr (by show 1 ≤ 2; decide)
  · rw [if_neg hstart] at hput
    obtain ⟨u, heq, htexted⟩ := ttyShow_texted h c
    rw [heq] at hput
    exact Or.inl (Option.some.inj hput ▸ htexted.escape)

theorem TtyReach.escape_le (h : TtyReach d t) : t.isEscape ≤ 2 := by
  induction h with
  | create index params => exact Nat.zero_le _
  | put hreach c hput ih =>
      rcases ttyPutCharacter_escape hreach.inv hput with hsame | hle
      · rw [hsame]
        exact ih
      · exact hle
  | draw _ ih => exact ih

/-- The sequence puts the cursor where it says. -/
def TtyAddressed (d : TtySize) (t : Tty) (row col : List (Fin 10)) : Prop :=
  ∃ t', ttyRun d (ttyAddress row col) t = some t' ∧
    t'.cursorY = oneBased d.height (decimal row) ∧ t'.cursorX = oneBased d.width (decimal col)

/-- `TTYMoveCursor` puts it as near as it can be. -/
def TtyClamps (d : TtySize) (t : Tty) (x y : Int) : Prop :=
  (ttyMoveCursor d x y t).cursorX = clampTo d.width x ∧
    (ttyMoveCursor d x y t).cursorY = clampTo d.height y

theorem ttyClamps_iff {x y : Int} (hx : -2147483648 ≤ x ∧ x < 2147483648)
    (hy : -2147483648 ≤ y ∧ y < 2147483648) :
    TtyClamps d t x y ↔ (0 ≤ x ∨ d.width = 1) ∧ (0 ≤ y ∨ d.height = 1) := by
  have hiffX := ttyClamp_eq_iff hx.1 hx.2 d.width_pos d.width_lt
  have hiffY := ttyClamp_eq_iff hy.1 hy.2 d.height_pos d.height_lt
  rw [← hiffX, ← hiffY]
  rfl

theorem ttyAddressed_start {row col : List (Fin 10)} (hescape : t.isEscape = 0)
    (hrow : decimal row < 0x80000000) (hcol : decimal col < 0x80000000) :
    TtyAddressed d t row col ↔
      (1 ≤ decimal row ∨ d.height = 1) ∧ (1 ≤ decimal col ∨ d.width = 1) := by
  obtain ⟨u, -, hrun⟩ := ttyRun_address (d := d) hescape row col
  rw [param_toInt hrow, param_toInt hcol] at hrun
  have hclamps := ttyClamps_iff (d := d) (t := u) (x := (decimal col : Int) - 1)
    (y := (decimal row : Int) - 1) ⟨by omega, by omega⟩ ⟨by omega, by omega⟩
  unfold TtyClamps at hclamps
  rw [clampTo_param d.width_pos, clampTo_param d.height_pos] at hclamps
  unfold TtyAddressed
  rw [hrun]
  constructor
  · rintro ⟨t', heq, hy, hx⟩
    obtain rfl := Option.some.inj heq
    obtain ⟨hwidth, hheight⟩ := hclamps.mp ⟨hx, hy⟩
    exact ⟨by omega, by omega⟩
  · rintro ⟨hheight, hwidth⟩
    obtain ⟨hx, hy⟩ := hclamps.mpr ⟨by omega, by omega⟩
    exact ⟨_, rfl, hy, hx⟩

theorem ttyAddressed_middle {row col : List (Fin 10)} (h : t.Inv d)
    (hescape : t.isEscape = 1 ∨ t.isEscape = 2) :
    TtyAddressed d t row col ↔
      (textCursor d.width t.scrollWindowBottom)^[(ttyAddressText row col).length]
          (t.cursorX, t.cursorY) =
        (oneBased d.width (decimal col), oneBased d.height (decimal row)) := by
  have hleft : Tty.Inv d { t with isEscape := 0 } :=
    ⟨h.cursorX, h.cursorY, h.margins, fun hne => absurd rfl hne⟩
  obtain ⟨t', hrun, hcursor⟩ := ttyRun_text hleft rfl _ (ttyAddressText_text row col)
  unfold TtyAddressed ttyAddress
  rw [ttyRun_cons, ttyPutCharacter_interrupt hescape, Option.bind_some, hrun]
  have hsame : ((textCursor d.width t.scrollWindowBottom)^[(ttyAddressText row col).length]
      (t.cursorX, t.cursorY)) = (t'.cursorX, t'.cursorY) := hcursor.symm
  rw [hsame]
  constructor
  · rintro ⟨u, heq, hy, hx⟩
    obtain rfl := Option.some.inj heq
    rw [hy, hx]
  · intro heq
    obtain ⟨hx, hy⟩ := Prod.mk.inj heq
    exact ⟨t', rfl, hy, hx⟩

/-- In every state of a terminal. The sequence works with parameters of at least one. Inside
another sequence it is text, and the cursor is where it says only if the text happens to end
there. -/
theorem ttyAddressed_iff (hreach : TtyReach d t) (row col : List (Fin 10))
    (hrow : decimal row < 0x80000000) (hcol : decimal col < 0x80000000) :
    (TtyAddressed d t row col ↔
      if t.isEscape = 0 then
        (1 ≤ decimal row ∨ d.height = 1) ∧ (1 ≤ decimal col ∨ d.width = 1)
      else
        (textCursor d.width t.scrollWindowBottom)^[(ttyAddressText row col).length]
            (t.cursorX, t.cursorY) =
          (oneBased d.width (decimal col), oneBased d.height (decimal row))) ∧
    ∀ x y : Int, (-2147483648 ≤ x ∧ x < 2147483648) → (-2147483648 ≤ y ∧ y < 2147483648) →
      (TtyClamps d t x y ↔ (0 ≤ x ∨ d.width = 1) ∧ (0 ≤ y ∨ d.height = 1)) := by
  constructor
  · by_cases hescape : t.isEscape = 0
    · rw [if_pos hescape]
      exact ttyAddressed_start hescape hrow hcol
    · rw [if_neg hescape]
      have hle := hreach.escape_le
      exact ttyAddressed_middle hreach.inv (by omega)
  · intro x y hx hy
    exact ttyClamps_iff hx hy

end

/-- `ESC [ 5 ; 1 0 H` on a new terminal. -/
theorem ttyAddressed_new :
    TtyAddressed ttySize80 (ttyFresh ttySize80 0 fun _ => 0) [⟨5, by decide⟩]
      [⟨1, by decide⟩, ⟨0, by decide⟩] :=
  (ttyAddressed_iff (.create 0 fun _ => 0) [⟨5, by decide⟩] [⟨1, by decide⟩, ⟨0, by decide⟩]
    (by decide) (by decide)).1.mpr (by decide)

/-- `ESC [ ; H` should go to the first cell, and goes to the last one. -/
theorem ttyHome_goes_to_end :
    TtyReach ttySize80 (ttyFresh ttySize80 0 fun _ => 0) ∧
    ((ttyRun ttySize80 (ttyAddress [] []) (ttyFresh ttySize80 0 fun _ => 0)).map fun t =>
      (t.cursorX, t.cursorY)) = some (79, 23) ∧
    ¬TtyAddressed ttySize80 (ttyFresh ttySize80 0 fun _ => 0) [] [] := by
  refine ⟨.create 0 fun _ => 0, by decide, ?_⟩
  intro haddressed
  have hparams := (ttyAddressed_start (by decide) (by decide) (by decide)).mp haddressed
  revert hparams
  decide

end Xremu
