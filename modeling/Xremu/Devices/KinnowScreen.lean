import Xremu.Devices.Kinnow
import Xremu.Devices.Screen

/-!
# What the framebuffer's screen shows

`KinnowDraw` puts only the dirty rectangle into the texture and leaves the rest of it. That is
as good as putting the whole framebuffer there, `kinnow_redraws`, as long as every list of
writes between two draws is one for which `kinnowCovered_iff` says that the rectangle is right.
The texture may hold anything at first: the palette is black until the guest writes it, and
with that the whole screen is dirty.
-/

namespace Xremu

/-- `SDL_UpdateTexture` with a picture as it stands in `PixelBuffer`. -/
def KinnowPicture.onto (picture : KinnowPicture) (texture : SdlTexture) : SdlTexture :=
  texture.update picture.x picture.y picture.width picture.height picture.pixel

/-- The whole framebuffer in the colours of the palette. -/
def Kinnow.shown (s : Kinnow) : SdlTexture :=
  fun x y => s.palette (s.fb (y * kinnowWidth + x)).toNat

/-- The framebuffer and its texture. -/
structure KinnowScreen where
  kinnow : Kinnow
  texture : SdlTexture

/-- The writes between two draws, and the draw. -/
def KinnowScreen.frame (s : KinnowScreen) (writes : List KinnowAccess) : KinnowScreen :=
  let drawn := kinnowDraw (kinnowRun s.kinnow writes)
  ⟨drawn.1, match drawn.2 with
    | some picture => picture.onto s.texture
    | none => s.texture⟩

def KinnowScreen.run (s : KinnowScreen) (frames : List (List KinnowAccess)) : KinnowScreen :=
  frames.foldl KinnowScreen.frame s

/-- The rectangle is right after these writes. -/
def KinnowFits (writes : List KinnowAccess) : Prop :=
  (∀ a ∈ writes, a.Framed → a.first / kinnowWidth = a.last / kinnowWidth) ∨ KinnowWide writes

/-! ## What a list of writes changes -/

variable {s : Kinnow} {writes : List KinnowAccess}

theorem kinnowWrite_palette {s' : Kinnow} {a : KinnowAccess}
    (h : kinnowWrite s a.address a.src a.length = some s') : s'.palette = s.palette ∨ a.Palette := by
  unfold kinnowWrite at h
  split at h
  · obtain rfl := Option.some.inj h
    exact .inl rfl
  split at h
  · rename_i hpalette
    exact .inr hpalette
  split at h
  · dsimp only at h
    split at h
    · cases h
    · obtain rfl := Option.some.inj h
      exact .inl rfl
  · cases h

/-- A pixel that nobody wrote, with a palette that nobody wrote. -/
theorem kinnowRun_same (hpalette : ∀ a ∈ writes, ¬a.Palette) {p : Nat}
    (hp : ∀ a ∈ writes, ¬a.Writes p) :
    (kinnowRun s writes).palette = s.palette ∧ (kinnowRun s writes).fb p = s.fb p := by
  induction writes using List.reverseRecOn with
  | nil => exact ⟨rfl, rfl⟩
  | append_singleton writes a ih =>
      obtain ⟨hpal, hfb⟩ := ih (fun b hb => hpalette b (by simp [hb])) fun b hb => hp b (by simp [hb])
      rw [kinnowRun_snoc]
      cases hwrite : kinnowWrite (kinnowRun s writes) a.address a.src a.length with
      | none => exact ⟨hpal, hfb⟩
      | some s' =>
          rw [Option.getD_some]
          constructor
          · rcases kinnowWrite_palette hwrite with hsame | hbad
            · rw [hsame, hpal]
            · exact absurd hbad (hpalette a (by simp))
          · rcases kinnowWrite_fb hwrite p with hsame | hbad
            · rw [hsame, hfb]
            · exact absurd hbad (hp a (by simp))

/-! ## One draw -/

/-- The pixel at a place of the screen. -/
theorem kinnow_place {x y : Nat} (hx : x < kinnowWidth) :
    (y * kinnowWidth + x) % kinnowWidth = x ∧ (y * kinnowWidth + x) / kinnowWidth = y := by
  rw [Nat.add_comm, Nat.add_mul_mod_self_right, Nat.add_mul_div_right _ _ (by decide),
    Nat.mod_eq_of_lt hx, Nat.div_eq_of_lt hx, Nat.zero_add]
  exact ⟨rfl, rfl⟩

/-- The variables of a rectangle on the screen are what `int` makes of them. -/
theorem kinnow_captured {n : Nat} (h : n < 0x80000000) : (BitVec.ofNat 32 n).toInt = n := by
  have hval : (BitVec.ofNat 32 n).toNat = n := by
    rw [BitVec.toNat_ofNat]
    exact Nat.mod_eq_of_lt (by omega)
  rw [BitVec.toInt_eq_toNat_of_lt (by rw [hval]; omega), hval]

instance (r : KinnowRect) (p : Nat) : Decidable (r.Has p) :=
  decidable_of_iff (r.x1 ≤ p % kinnowWidth ∧ p % kinnowWidth ≤ r.x2 ∧ r.y1 ≤ p / kinnowWidth ∧
    p / kinnowWidth ≤ r.y2)
    ⟨fun h => ⟨h.1, h.2.1, h.2.2.1, h.2.2.2⟩, fun h => ⟨h.left, h.right, h.top, h.bottom⟩⟩

/-- A draw of a rectangle on the screen: the pixels in it are those of the framebuffer now. -/
theorem kinnowDraw_texture (hdirty : s.isDirty = true) (hx1 : s.rect.x1 ≤ s.rect.x2)
    (hx : s.rect.x2 < kinnowWidth) (hy1 : s.rect.y1 ≤ s.rect.y2) (hy : s.rect.y2 < kinnowHeight)
    (texture : SdlTexture) {x y : Nat} (hxw : x < kinnowWidth) :
    (KinnowScreen.frame ⟨s, texture⟩ []).texture x y =
      if s.rect.Has (y * kinnowWidth + x) then s.shown x y else texture x y := by
  obtain ⟨hmod, hdiv⟩ := kinnow_place (y := y) hxw
  obtain ⟨hwidth, hheight, -⟩ := kinnowSizes
  have hrun : kinnowRun s [] = s := rfl
  have hcx1 := kinnow_captured (n := s.rect.x1) (by omega)
  have hcx2 := kinnow_captured (n := s.rect.x2) (by omega)
  have hcy1 := kinnow_captured (n := s.rect.y1) (by omega)
  have hcy2 := kinnow_captured (n := s.rect.y2) (by omega)
  unfold KinnowScreen.frame kinnowDraw
  rw [hrun]
  simp only [hdirty, Bool.not_true, Bool.false_eq_true, if_false, KinnowPicture.onto, hcx1, hcx2,
    hcy1, hcy2]
  by_cases hhas : s.rect.Has (y * kinnowWidth + x)
  · rw [if_pos hhas]
    obtain ⟨hleft, hright, htop, hbottom⟩ := hhas
    rw [hmod] at hleft hright
    rw [hdiv] at htop hbottom
    obtain ⟨i, rfl⟩ := Nat.exists_eq_add_of_le hleft
    obtain ⟨j, rfl⟩ := Nat.exists_eq_add_of_le htop
    rw [SdlTexture.update_inside (i := i) (j := j) _ _ (by omega) (by omega) (by omega) (by omega)]
    have hplace : ((s.rect.y1 : Int) * kinnowWidth + s.rect.x1 + j * kinnowWidth + i).toNat =
        (s.rect.y1 + j) * kinnowWidth + (s.rect.x1 + i) := by
      rw [hwidth]
      omega
    rw [hplace]
    rfl
  · rw [if_neg hhas]
    refine SdlTexture.update_outside _ _ ?_
    rintro ⟨hleft, hright, htop, hbottom⟩
    refine hhas ⟨?_, ?_, ?_, ?_⟩
    · rw [hmod]
      omega
    · rw [hmod]
      omega
    · rw [hdiv]
      omega
    · rw [hdiv]
      omega

theorem kinnowDraw_shown (s : Kinnow) : (kinnowDraw s).1.shown = s.shown := by
  unfold kinnowDraw
  split <;> rfl

/-- The texture is that of a full redraw. -/
def KinnowScreen.Right (s : KinnowScreen) : Prop :=
  ∀ x y, x < kinnowWidth → y < kinnowHeight → s.texture x y = s.kinnow.shown x y

/-- One frame: what was right stays right, and a new palette makes everything right. -/
theorem KinnowScreen.Right.frame {s : KinnowScreen} (hreach : KinnowReach s.kinnow)
    (hclean : s.kinnow.isDirty = false) {writes : List KinnowAccess} (hfits : KinnowFits writes)
    (hright : s.Right ∨ ∃ a ∈ writes, a.Palette) : (s.frame writes).Right := by
  obtain ⟨hrect, hdirty, hx2, hy2⟩ :=
    kinnowRun_rect ⟨hclean, hreach.clean.1 hclean⟩ writes
  have hboxed : KinnowBoxed (kinnowRun s.kinnow writes) writes := ⟨hrect, hdirty, hx2, hy2⟩
  have hcovered := hboxed.covered_iff.mpr hfits
  intro x y hx hy
  have hshown : (s.frame writes).kinnow.shown = (kinnowRun s.kinnow writes).shown :=
    kinnowDraw_shown _
  rw [hshown]
  by_cases hwritten : (kinnowRun s.kinnow writes).isDirty = true
  · have hsome : ∃ a ∈ writes, a.Palette ∨ ∃ p, a.Writes p := by
      obtain ⟨b, hb⟩ := List.exists_mem_of_ne_nil _ (hdirty.mp hwritten)
      obtain ⟨a, ha, hbox⟩ := List.mem_filterMap.mp hb
      refine ⟨a, ha, ?_⟩
      rcases KinnowAccess.box_cases hbox with ⟨hpalette, -⟩ | ⟨hframed, -⟩
      · exact .inl hpalette
      · exact .inr ⟨a.first, hframed, Nat.le_refl _, Nat.lt_add_of_pos_right a.length_pos⟩
    obtain ⟨-, hx1, -, hy1, -⟩ := hcovered.dirty hsome
    have hdraw := kinnowDraw_texture hwritten hx1 hx2 hy1 hy2 s.texture (y := y) hx
    refine hdraw.trans ?_
    by_cases hhas : (kinnowRun s.kinnow writes).rect.Has (y * kinnowWidth + x)
    · rw [if_pos hhas]
    · rw [if_neg hhas]
      obtain ⟨hmod, hdiv⟩ := kinnow_place (y := y) hx
      have hpalette : ∀ a ∈ writes, ¬a.Palette := by
        intro a ha hpal
        obtain ⟨-, hl, hr, ht, hb⟩ := hboxed.box ha (KinnowAccess.box_palette hpal)
        dsimp only at hl hr ht hb
        refine hhas ⟨?_, ?_, ?_, ?_⟩ <;> omega
      have hpixels : ∀ a ∈ writes, ¬a.Writes (y * kinnowWidth + x) :=
        fun a ha hw => hhas (hcovered.pixels a ha _ hw)
      obtain ⟨hpal, hfb⟩ := kinnowRun_same (s := s.kinnow) hpalette hpixels
      rcases hright with hold | ⟨a, ha, hbad⟩
      · rw [hold x y hx hy]
        unfold Kinnow.shown
        rw [hpal, hfb]
      · exact absurd hbad (hpalette a ha)
  · have hnone : writes.filterMap KinnowAccess.box = [] := by
      by_contra hne
      exact hwritten (hdirty.mpr hne)
    have hbox : ∀ a ∈ writes, a.box = none := List.filterMap_eq_nil_iff.mp hnone
    have hpalette : ∀ a ∈ writes, ¬a.Palette := by
      intro a ha hpal
      have hb := hbox a ha
      rw [KinnowAccess.box_palette hpal] at hb
      cases hb
    have hpixels : ∀ a ∈ writes, ¬a.Writes (y * kinnowWidth + x) := by
      intro a ha hw
      have hb := hbox a ha
      rw [KinnowAccess.box_framed hw.1] at hb
      cases hb
    obtain ⟨hpal, hfb⟩ := kinnowRun_same (s := s.kinnow) hpalette hpixels
    have htexture : (s.frame writes).texture = s.texture := by
      unfold KinnowScreen.frame kinnowDraw
      simp [hwritten]
    rcases hright with hold | ⟨a, ha, hbad⟩
    · rw [htexture, hold x y hx hy]
      unfold Kinnow.shown
      rw [hpal, hfb]
    · exact absurd hbad (hpalette a ha)

/-! ## Every run of frames -/

theorem kinnowRun_reach {s : Kinnow} (h : KinnowReach s) (writes : List KinnowAccess) :
    KinnowReach (kinnowRun s writes) := by
  induction writes using List.reverseRecOn with
  | nil => exact h
  | append_singleton writes a ih =>
      rw [kinnowRun_snoc]
      cases hwrite : kinnowWrite (kinnowRun s writes) a.address a.src a.length with
      | none => exact ih
      | some s' => exact .write ih a hwrite

/-- The frames from a fresh framebuffer, whose texture holds anything. -/
def KinnowScreen.start (texture : SdlTexture) : KinnowScreen := ⟨kinnowInit, texture⟩

theorem KinnowScreen.run_drawn (texture : SdlTexture) (frames : List (List KinnowAccess)) :
    KinnowReach ((KinnowScreen.start texture).run frames).kinnow ∧
      ((KinnowScreen.start texture).run frames).kinnow.isDirty = false := by
  induction frames using List.reverseRecOn with
  | nil => exact ⟨.init, rfl⟩
  | append_singleton frames writes ih =>
      unfold KinnowScreen.run
      rw [List.foldl_append]
      have hreach := kinnowRun_reach ih.1 writes
      exact ⟨.draw hreach, (kinnowDraw_clean hreach).1⟩

/-- After every draw from the first palette on, the screen shows the whole framebuffer in the
palette's colours. -/
theorem kinnow_redraws (texture : SdlTexture) {frames : List (List KinnowAccess)}
    (hfits : ∀ writes ∈ frames, KinnowFits writes)
    (hpalette : ∃ writes ∈ frames, ∃ a ∈ writes, a.Palette) :
    ((KinnowScreen.start texture).run frames).Right := by
  induction frames using List.reverseRecOn with
  | nil =>
      obtain ⟨writes, hmem, -⟩ := hpalette
      cases hmem
  | append_singleton frames writes ih =>
      obtain ⟨hreach, hclean⟩ := KinnowScreen.run_drawn texture frames
      have hlast : (KinnowScreen.start texture).run (frames ++ [writes]) =
          ((KinnowScreen.start texture).run frames).frame writes := by
        unfold KinnowScreen.run
        rw [List.foldl_append]
        rfl
      rw [hlast]
      refine KinnowScreen.Right.frame hreach hclean (hfits writes (by simp)) ?_
      obtain ⟨writes', hmem, ha⟩ := hpalette
      rcases List.mem_append.mp hmem with hold | hnew
      · exact .inl (ih (fun w hw => hfits w (by simp [hw])) ⟨writes', hold, ha⟩)
      · obtain rfl := List.mem_singleton.mp hnew
        exact .inr ha

/-- An entry of the palette. -/
def kinnowColour (entry : Nat) (hentry : entry < 256) (src : Nat → Byte) : KinnowAccess where
  address := 0x4000 + 4 * entry
  src := src
  length := 4
  inBranch := by omega
  shape := .inl ⟨by omega, by omega⟩

/-- Two colours, then two rows from the left edge. -/
theorem kinnow_redraws_twoRows :
    ((KinnowScreen.start fun _ _ => 7).run
      [[kinnowColour 0 (by decide) fun _ => 1, kinnowColour 255 (by decide) fun _ => 2],
        [kinnowDma 0 4 (by decide) (by decide)]]).Right := by
  refine kinnow_redraws _ ?_ ⟨_, List.mem_cons_self, _, List.mem_cons_self, ?_⟩
  · intro writes hmem
    rcases List.mem_cons.mp hmem with rfl | hmem
    · exact .inr ⟨⟨_, List.mem_cons_self, .inl (by decide)⟩, ⟨_, List.mem_cons_self, .inl (by decide)⟩⟩
    · obtain rfl := List.mem_singleton.mp hmem
      exact .inr ⟨⟨_, List.mem_singleton_self _, .inr ⟨by decide, rfl⟩⟩,
        ⟨_, List.mem_singleton_self _, .inr ⟨by decide, rfl⟩⟩⟩
  · decide

end Xremu
