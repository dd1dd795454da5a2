import Mathlib.Data.List.Induction
import Xremu.Devices.TtyCursor

/-!
# Bytes that are not ASCII

`TTYPutCharacter` means to ignore what is not ASCII: its first check is `c > 0x7F`. Where
`char` is signed the bytes from 0x80 on are negative and get past it. Outside an escape
sequence such a byte is shown as a character, with the attributes that its sign leaves, and
inside one it ends the sequence.
-/

namespace Xremu

/-- The bytes of a stream that are ASCII and not zero. -/
def ttyAscii (bytes : List Byte) : List Byte :=
  bytes.filter fun b => decide (b ≠ 0) && decide (b.toNat < 0x80)

/-- The contents of the screen, the cursor, the escape parser and the margins are the same. -/
structure TtySame (t t' : Tty) : Prop where
  textBuffer : t'.textBuffer = t.textBuffer
  currentAttributes : t'.currentAttributes = t.currentAttributes
  cursorX : t'.cursorX = t.cursorX
  cursorY : t'.cursorY = t.cursorY
  isEscape : t'.isEscape = t.isEscape
  escapeIndex : t'.escapeIndex = t.escapeIndex
  escapeParams : t'.escapeParams = t.escapeParams
  top : t'.scrollWindowTop = t.scrollWindowTop
  bottom : t'.scrollWindowBottom = t.scrollWindowBottom

theorem TtySame.refl (t : Tty) : TtySame t t :=
  ⟨rfl, rfl, rfl, rfl, rfl, rfl, rfl, rfl, rfl⟩

/-- The stream has the effect that its ASCII bytes have. -/
def TtyIgnores (d : TtySize) (t : Tty) (bytes : List Byte) : Prop :=
  ∃ u v, ttyRun d (bytes.map (ttyChar true)) t = some u ∧
    ttyRun d ((ttyAscii bytes).map (ttyChar true)) t = some v ∧ TtySame v u

section

variable {d : TtySize} {t : Tty}

/-- The bytes that are left out of a stream of low bytes are the zeros. -/
theorem ttyRun_ascii {bytes : List Byte} (hlow : ∀ b ∈ bytes, b.toNat < 0x80) :
    ttyRun d ((ttyAscii bytes).map (ttyChar true)) t = ttyRun d (bytes.map (ttyChar true)) t := by
  induction bytes generalizing t with
  | nil => rfl
  | cons b bytes ih =>
      have hb := hlow b List.mem_cons_self
      have hrest : ∀ c ∈ bytes, c.toNat < 0x80 := fun c hc => hlow c (List.mem_cons_of_mem b hc)
      rw [List.map_cons, ttyRun_cons]
      by_cases hzero : b = 0
      · have hdrop : ttyAscii (b :: bytes) = ttyAscii bytes := by
          unfold ttyAscii
          rw [hzero]
          rfl
        have hput : ttyPutCharacter d t (ttyChar true b) = some t := by
          rw [hzero]
          rfl
        rw [hdrop, hput, Option.bind_some]
        exact ih hrest
      · have hkeep : ttyAscii (b :: bytes) = b :: ttyAscii bytes := by
          unfold ttyAscii
          rw [List.filter_cons_of_pos]
          rw [decide_eq_true hzero, decide_eq_true hb]
          rfl
        rw [hkeep, List.map_cons, ttyRun_cons]
        congr 1
        funext u
        exact ih hrest

/-- As a signed `char` a high byte is negative. -/
theorem ttyChar_high {b : Byte} (hhigh : 0x80 ≤ b.toNat) : ttyChar true b < 0 := by
  show b.toInt < 0
  rw [BitVec.toInt_eq_toNat_cond]
  have hlt := b.isLt
  rw [if_neg (by omega)]
  omega

theorem ne_chr_of_negative {c : Int} (hc : c < 0) (a : Char) : ¬c = chr a := by
  intro heq
  have hnat : 0 ≤ chr a := Int.natCast_nonneg _
  omega

/-- A negative character ends an escape sequence. -/
theorem ttyPutCharacter_negative {c : Int} (hc : c < 0) (hescape : t.isEscape = 1 ∨ t.isEscape = 2) :
    ttyPutCharacter d t c = some { t with isEscape := 0 } := by
  have hpos := ne_chr_of_negative hc
  have hdigit : ¬(chr '0' ≤ c ∧ c ≤ chr '9') := by
    rintro ⟨hzero, -⟩
    have hnat : 0 ≤ chr '0' := Int.natCast_nonneg _
    omega
  have hne : t.isEscape ≠ 0 := by omega
  unfold ttyPutCharacter
  rw [if_neg (by omega), if_neg (by omega), if_pos hne]
  unfold ttyParseEscape
  rw [if_neg hdigit]
  rcases hescape with hone | htwo
  · rw [if_pos hone, if_neg (hpos _), if_neg (hpos _)]
    unfold ttyEscapeCommand
    rw [if_neg (hpos _), if_neg (hpos _), if_neg (hpos _), if_neg (hpos _), if_neg (hpos _),
      if_neg (hpos _), if_neg (hpos _), if_neg (hpos _), if_neg (hpos _)]
  · have hnot : ¬t.isEscape = 1 := by omega
    rw [if_neg hnot, if_pos htwo]
    dsimp only
    split
    · rw [if_neg (hpos _), if_neg (hpos _)]
    · rfl

/-- Outside a sequence it is shown. -/
theorem ttyPutCharacter_negative_shown {c : Int} (hc : c < 0) (hescape : t.isEscape = 0) :
    ttyPutCharacter d t c = ttyShow d t c := by
  have hpos := ne_chr_of_negative hc
  unfold ttyPutCharacter
  rw [if_neg (by omega), if_neg (by omega), if_neg (not_not_intro hescape), if_neg (hpos _),
    if_neg (hpos _), if_neg (hpos _), if_neg (hpos _), if_neg (hpos _)]

/-- No high byte leaves the terminal as it was. -/
theorem ttyPutCharacter_changes {t' : Tty} {c : Int} (hreach : TtyReach d t)
    (hwidth : 1 < d.width) (hc : c < 0) (hput : ttyPutCharacter d t c = some t') :
    ¬TtySame t t' := by
  intro hsame
  by_cases hescape : t.isEscape = 0
  · rw [ttyPutCharacter_negative_shown hc hescape] at hput
    obtain ⟨u, hshow, htexted⟩ := ttyShow_texted hreach.inv c
    rw [hput] at hshow
    obtain rfl := Option.some.inj hshow
    have hx := congrArg Prod.fst htexted.cursor
    dsimp only at hx
    rw [hsame.cursorX] at hx
    unfold textCursor at hx
    dsimp only at hx
    split at hx
    · rename_i hedge
      dsimp only at hx
      omega
    · dsimp only at hx
      omega
  · have hle := hreach.escape_le
    rw [ttyPutCharacter_negative hc (by omega)] at hput
    obtain rfl := Option.some.inj hput
    have hended : 0 = t.isEscape := hsame.isEscape
    omega

theorem ttyAscii_append (head rest : List Byte) :
    ttyAscii (head ++ rest) = ttyAscii head ++ ttyAscii rest :=
  List.filter_append ..

/-- In every state of a terminal, for streams of any length: without high bytes a stream has
the effect of its ASCII bytes, and with one it has another effect from then on. -/
theorem ttyIgnores_iff (hreach : TtyReach d t) (bytes : List Byte) :
    ((∀ b ∈ bytes, b.toNat < 0x80) → TtyIgnores d t bytes) ∧
    (1 < d.width →
      ((∀ head, head <+: bytes → TtyIgnores d t head) ↔ ∀ b ∈ bytes, b.toNat < 0x80)) := by
  have hsufficient : ∀ head : List Byte, (∀ b ∈ head, b.toNat < 0x80) → TtyIgnores d t head := by
    intro head hlow
    obtain ⟨u, hrun, -⟩ := ttyRun_inv hreach.inv (head.map (ttyChar true))
    exact ⟨u, u, hrun, (ttyRun_ascii hlow).trans hrun, TtySame.refl u⟩
  refine ⟨hsufficient bytes, fun hwidth => ⟨?_, ?_⟩⟩
  · induction bytes using List.reverseRecOn with
    | nil =>
        intro _ b hb
        cases hb
    | append_singleton bytes b ih =>
        intro hheads
        have hlow := ih fun head hhead => hheads head (hhead.trans (List.prefix_append bytes [b]))
        have hb : b.toNat < 0x80 := by
          by_contra hhigh
          -- The stream so far is right, and the byte changes what it has led to.
          obtain ⟨u, v, hrun, hascii, hsame⟩ := hheads _ List.prefix_rfl
          have hnone : ttyAscii [b] = [] := by
            unfold ttyAscii
            rw [List.filter_cons_of_neg, List.filter_nil]
            simp [hhigh]
          rw [ttyAscii_append, hnone, List.append_nil, ttyRun_ascii hlow] at hascii
          rw [List.map_append, ttyRun_append, hascii, Option.bind_some, List.map_singleton,
            ttyRun_cons] at hrun
          obtain ⟨w, hput, hlast⟩ := Option.bind_eq_some_iff.mp hrun
          obtain rfl := Option.some.inj hlast
          exact ttyPutCharacter_changes (hreach.run hascii) hwidth
            (ttyChar_high (Nat.le_of_not_lt hhigh)) hput hsame
        intro c hc
        rcases List.mem_append.mp hc with hold | hnew
        · exact hlow c hold
        · rw [List.mem_singleton.mp hnew]
          exact hb
  · intro hlow head hhead
    exact hsufficient head fun b hb => hlow b (hhead.subset hb)

end

/-- `A`, a zero byte and `B`. -/
theorem ttyIgnores_zero : TtyIgnores ttySize80 (ttyFresh ttySize80 0 fun _ => 0) [0x41, 0, 0x42] :=
  (ttyIgnores_iff (.create 0 fun _ => 0) [0x41, 0, 0x42]).1 (by decide)

/-- A new terminal shows the byte 0xE9, which has all the attribute bits set. -/
theorem tty_shows_high_byte :
    TtyReach ttySize80 (ttyFresh ttySize80 0 fun _ => 0) ∧
    ((ttyRun ttySize80 [ttyChar true 0xE9] (ttyFresh ttySize80 0 fun _ => 0)).map fun t =>
      (t.textBuffer 0, t.cursorX)) = some (0xFFE9, 1) ∧
    ¬TtyIgnores ttySize80 (ttyFresh ttySize80 0 fun _ => 0) [0xE9] := by
  refine ⟨.create 0 fun _ => 0, by decide, ?_⟩
  rintro ⟨u, v, hrun, hascii, hsame⟩
  obtain rfl := Option.some.inj hascii
  obtain ⟨w, hput, hlast⟩ := Option.bind_eq_some_iff.mp hrun
  obtain rfl := Option.some.inj hlast
  exact ttyPutCharacter_changes (.create 0 fun _ => 0) (by decide) (by decide) hput hsame

end Xremu
