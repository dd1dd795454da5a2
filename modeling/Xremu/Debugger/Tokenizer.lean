import Xremu.Debugger.Commands

/-!
# Strings in the debugger's buffers

`StringAt` is a string with its terminator inside a buffer, by the place it begins at.
Along one, `RtlTokenize` stays in `cmdline` and takes the first word, and the word fits
into `tokenbuf` because the line did.
-/

namespace Xremu

/-! ## Strings in buffers -/

/-- The buffer has this string here, with its terminator. -/
inductive StringAt (buffer : Nat → Char) : Nat → Text → Prop
  | nil {index} (inside : index < cmdMax) (terminator : buffer index = nul) : StringAt buffer index []
  | cons {index c text} (inside : index < cmdMax) (char : buffer index = c) (notNul : c ≠ nul)
      (rest : StringAt buffer (index + 1) text) : StringAt buffer index (c :: text)

namespace StringAt

variable {buffer : Nat → Char} {index : Nat} {text : Text}

theorem length (h : StringAt buffer index text) : index + text.length < cmdMax := by
  induction h with
  | nil inside => exact inside
  | cons _ _ _ _ ih =>
      rw [List.length_cons]
      omega

theorem inside (h : StringAt buffer index text) : index < cmdMax :=
  Nat.lt_of_le_of_lt (Nat.le_add_right _ _) h.length

theorem cString (h : StringAt buffer index text) : cString buffer (cmdMax - index) index = text := by
  induction h with
  | @nil index inside terminator =>
      obtain ⟨left, hleft⟩ := Nat.exists_eq_add_of_lt inside
      have hsub : cmdMax - index = left + 1 := by omega
      rw [hsub, Xremu.cString, if_pos terminator]
  | @cons index c text inside char notNul _ ih =>
      have hsub : cmdMax - index = cmdMax - (index + 1) + 1 := by omega
      rw [hsub, Xremu.cString, char, if_neg notNul, ih]

/-- What follows the blanks. -/
theorem skip (h : StringAt buffer index text) : ∃ next,
    skipDelimiters buffer ' ' (cmdMax - index) index = .ok next ∧
    StringAt buffer next (text.dropWhile (· = ' ')) := by
  induction h with
  | @nil index inside terminator =>
      have hsub : cmdMax - index = cmdMax - (index + 1) + 1 := by omega
      refine ⟨index, ?_, .nil inside terminator⟩
      rw [hsub, skipDelimiters, terminator, if_neg (by decide)]
  | @cons index c text inside char notNul rest ih =>
      have hsub : cmdMax - index = cmdMax - (index + 1) + 1 := by omega
      rw [hsub, skipDelimiters, char]
      by_cases hblank : c = ' '
      · rw [if_pos hblank, List.dropWhile_cons_of_pos (by simpa using hblank)]
        exact ih
      · rw [if_neg hblank, List.dropWhile_cons_of_neg (by simpa using hblank)]
        exact ⟨index, rfl, .cons inside char notNul rest⟩

end StringAt

theorem storeToken_ok {index : Nat} (h : index < cmdMax) (tokenbuf : Nat → Char) (c : Char) :
    storeToken tokenbuf index c = .ok (Function.update tokenbuf index c) := if_pos h

/-- The terminator behind a token. -/
theorem endToken {index : Nat} (hindex : index < cmdMax) (next : Nat) (tokenbuf : Nat → Char) :
    ∃ tokenbuf', (storeToken tokenbuf index nul).map (next, ·) = .ok (next, tokenbuf') ∧
      StringAt tokenbuf' index [] ∧ ∀ k, k < index → tokenbuf' k = tokenbuf k := by
  refine ⟨Function.update tokenbuf index nul, ?_, ?_, ?_⟩
  · rw [storeToken_ok hindex]
    rfl
  · exact .nil hindex (Function.update_self _ _ _)
  · intro k hk
    exact Function.update_of_ne (Nat.ne_of_lt hk) _ _

/-- A token that fits is copied whole, and the rest of the line remains. -/
theorem copyToken_ok {cmdline : Nat → Char} {buffer : Nat} {text : Text}
    (h : StringAt cmdline buffer text) {left index : Nat} (hroom : index + left < cmdMax)
    (hfits : (text.takeWhile (· ≠ ' ')).length ≤ left) (tokenbuf : Nat → Char) :
    ∃ next tokenbuf', copyToken cmdline ' ' left buffer index tokenbuf = .ok (next, tokenbuf') ∧
      StringAt cmdline next (text.dropWhile (· ≠ ' ')) ∧
      StringAt tokenbuf' index (text.takeWhile (· ≠ ' ')) ∧
      ∀ k, k < index → tokenbuf' k = tokenbuf k := by
  induction h generalizing left index tokenbuf with
  | @nil buffer inside terminator =>
      obtain ⟨tokenbuf', hstore, htoken, hkept⟩ := @endToken index (by omega) buffer tokenbuf
      refine ⟨buffer, tokenbuf', ?_, .nil inside terminator, htoken, hkept⟩
      cases left with
      | zero => exact hstore
      | succ left =>
          rw [copyToken, if_neg (by omega), if_pos (Or.inr terminator)]
          exact hstore
  | @cons buffer c text inside char notNul rest ih =>
      by_cases hblank : c = ' '
      · rw [List.takeWhile_cons_of_neg (by simpa using hblank),
          List.dropWhile_cons_of_neg (by simpa using hblank)]
        obtain ⟨tokenbuf', hstore, htoken, hkept⟩ := @endToken index (by omega) buffer tokenbuf
        refine ⟨buffer, tokenbuf', ?_, .cons inside char notNul rest, htoken, hkept⟩
        cases left with
        | zero => exact hstore
        | succ left =>
            rw [copyToken, if_neg (by omega), if_pos (Or.inl (char.trans hblank))]
            exact hstore
      · rw [List.takeWhile_cons_of_pos (by simpa using hblank)] at hfits ⊢
        rw [List.dropWhile_cons_of_pos (by simpa using hblank)]
        cases left with
        | zero => simp at hfits
        | succ left =>
            rw [List.length_cons] at hfits
            have hgoes : ¬(cmdline buffer = ' ' ∨ cmdline buffer = nul) := by
              rw [char, not_or]
              exact ⟨hblank, notNul⟩
            rw [copyToken, if_neg (by omega), if_neg hgoes, storeToken_ok (by omega)]
            obtain ⟨next, tokenbuf', hcopy, hnext, htoken, hkept⟩ :=
              @ih left (index + 1) (by omega) (by omega)
                (Function.update tokenbuf index (cmdline buffer))
            refine ⟨next, tokenbuf', hcopy, hnext, .cons (by omega) ?_ notNul htoken, ?_⟩
            · rw [hkept index (Nat.lt_succ_self _), Function.update_self]
              exact char
            · intro k hk
              rw [hkept k (by omega)]
              exact Function.update_of_ne (by omega) _ _

/-- The first word of a string. -/
def firstToken (text : Text) : Text := (text.dropWhile (· = ' ')).takeWhile (· ≠ ' ')

theorem rtlTokenize_ok {cmdline : Nat → Char} {buffer : Nat} {text : Text}
    (h : StringAt cmdline buffer text) (tokenbuf : Nat → Char) : ∃ next tokenbuf',
    rtlTokenize cmdline buffer tokenbuf cmdMax ' ' = .ok (next, tokenbuf') ∧
    (∀ index, next = some index → ∃ rest, StringAt cmdline index rest) ∧
    (next = none ↔ firstToken text = []) ∧
    (next.isSome = true → cString tokenbuf' cmdMax 0 = firstToken text) := by
  obtain ⟨start, hskip, hstart⟩ := h.skip
  unfold rtlTokenize firstToken
  rw [hskip]
  dsimp only [Except.bind]
  cases hwords : text.dropWhile (· = ' ') with
  | nil =>
      rw [hwords] at hstart
      cases hstart with
      | nil _ terminator =>
      rw [if_pos terminator]
      refine ⟨none, tokenbuf, rfl, ?_, iff_of_true rfl rfl, ?_⟩
      · intro index hnone
        cases hnone
      · intro hnone
        cases hnone
  | cons c words =>
      have hblank : c ≠ ' ' := by
        have hne : text.dropWhile (· = ' ') ≠ [] := by simp [hwords]
        have hhead := List.head_dropWhile_not (· = ' ') hne
        simpa [hwords] using hhead
      rw [hwords] at hstart
      have hlength := hstart.length
      have hnotNul : cmdline start ≠ nul := by
        cases hstart with
        | cons _ char notNul _ => rwa [char]
      have hfits : ((c :: words).takeWhile (· ≠ ' ')).length ≤ cmdMax - 1 := by
        have hle := (List.takeWhile_sublist (l := c :: words) (· ≠ ' ')).length_le
        omega
      obtain ⟨next, tokenbuf', hcopy, hnext, htoken, -⟩ :=
        @copyToken_ok _ _ _ hstart (cmdMax - 1) 0 (by decide) hfits tokenbuf
      rw [if_neg hnotNul, hcopy]
      refine ⟨some next, tokenbuf', rfl, ?_, ?_, ?_⟩
      · intro index hindex
        obtain rfl := Option.some.inj hindex
        exact ⟨_, hnext⟩
      · rw [List.takeWhile_cons_of_pos (by simpa using hblank)]
        exact iff_of_false (Option.some_ne_none _) (List.cons_ne_nil _ _)
      · intro _
        exact htoken.cString

end Xremu
