import Mathlib.Data.List.Induction
import Xremu.Machine.Processor

/-!
# Textures and painting

A screen has an `SDL_Texture`, of which `SDL_UpdateTexture` replaces a rectangle. The pixels of
the rectangle are painted before into a buffer of the host, one part after the other; a pixel
is what the one part that has it makes of it, `foldl_paint`.
-/

namespace Xremu

abbrev SdlTexture : Type := (x y : Nat) → Word

/-- `SDL_UpdateTexture`: the rectangle from `x` and `y` on, with the pixels of the buffer. -/
def SdlTexture.update (texture : SdlTexture) (x y width height : Int) (pixel : (x y : Nat) → Word) :
    SdlTexture :=
  fun px py =>
    if x ≤ px ∧ px < x + width ∧ y ≤ py ∧ py < y + height then
      pixel (px - x).toNat (py - y).toNat
    else texture px py

theorem SdlTexture.update_inside (texture : SdlTexture) {x y width height : Int}
    (pixel : (x y : Nat) → Word) {px py i j : Nat} (hx : (px : Int) = x + i) (hy : (py : Int) = y + j)
    (hi : (i : Int) < width) (hj : (j : Int) < height) :
    texture.update x y width height pixel px py = pixel i j := by
  unfold update
  have hxi : ((px : Int) - x).toNat = i := by omega
  have hyj : ((py : Int) - y).toNat = j := by omega
  rw [if_pos (by omega), hxi, hyj]

theorem SdlTexture.update_outside (texture : SdlTexture) {x y width height : Int}
    (pixel : (x y : Nat) → Word) {px py : Nat}
    (h : ¬(x ≤ px ∧ px < x + width ∧ y ≤ py ∧ py < y + height)) :
    texture.update x y width height pixel px py = texture px py := if_neg h

/-- Parts of a picture that are painted one after the other. What is at `p` is what the part
`k` paints there, if no other one paints there. -/
theorem foldl_paint {ι π γ : Type} [DecidableEq ι] {parts : List ι} {paint : (π → γ) → ι → π → γ}
    {k : ι} {p : π} {c : γ} (hk : k ∈ parts) (hin : ∀ buffer, paint buffer k p = c)
    (hout : ∀ i ∈ parts, i ≠ k → ∀ buffer, paint buffer i p = buffer p) (buffer : π → γ) :
    parts.foldl paint buffer p = c := by
  induction parts using List.reverseRecOn with
  | nil => cases hk
  | append_singleton parts i ih =>
      rw [List.foldl_append, List.foldl_cons, List.foldl_nil]
      by_cases hi : i = k
      · rw [hi, hin]
      · rw [hout i (by simp) hi]
        refine ih ?_ fun j hj => hout j (by simp [hj])
        rcases List.mem_append.mp hk with hold | hnew
        · exact hold
        · exact absurd (List.mem_singleton.mp hnew).symm hi

/-- What no part paints stays. -/
theorem foldl_paint_outside {ι π γ : Type} {parts : List ι} {paint : (π → γ) → ι → π → γ} {p : π}
    (hout : ∀ i ∈ parts, ∀ buffer, paint buffer i p = buffer p) (buffer : π → γ) :
    parts.foldl paint buffer p = buffer p := by
  induction parts using List.reverseRecOn with
  | nil => rfl
  | append_singleton parts i ih =>
      rw [List.foldl_append, List.foldl_cons, List.foldl_nil, hout i (by simp)]
      exact ih fun j hj => hout j (by simp [hj])

end Xremu
