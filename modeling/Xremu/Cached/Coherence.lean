import Xremu.Cached.State

/-!
# The coherence invariant

The Scache is a directory: it knows which lines are cached and whether one
processor has a line to itself. `Coherent` is what the lock programs keep true
of the directory and the Dcaches; it holds at every point where a stretch of
local code ends, also inside a miss. It does not speak of the contents of the
lines, so it is stated on `LineView`, the states and tags alone.

The one arithmetic fact the locking rests on is `xrMutexIndex_of_set`: all lines
that compete for a place, in a Dcache set or in the Scache, share one mutex.
-/

namespace Xremu

/-- States and tags of all Dcache lines, the write buffers, and the Scache. -/
structure LineView where
  flags : Nat → Nat → XrLine
  tags : Nat → Nat → Nat
  wb : Nat → Nat → Option Nat
  wbOf : Nat → Nat → Option Nat
  scFlags : Nat → XrLine
  scTags : Nat → Nat
  scIds : Nat → Nat

namespace LineView

/-- Line `i` of processor `p` is valid and is the line of `t`. -/
def Has (v : LineView) (p i t : Nat) : Prop := v.flags p i ≠ .invalid ∧ v.tags p i = t

def setLine (v : LineView) (p i : Nat) (f : XrLine) (t : Nat) : LineView :=
  { v with
    flags := Function.update v.flags p (Function.update (v.flags p) i f)
    tags := Function.update v.tags p (Function.update (v.tags p) i t) }

def setSc (v : LineView) (j : Nat) (f : XrLine) (t id : Nat) : LineView :=
  { v with
    scFlags := Function.update v.scFlags j f
    scTags := Function.update v.scTags j t
    scIds := Function.update v.scIds j id }

theorem setLine_flags (v : LineView) (p i : Nat) (f : XrLine) (t q j : Nat) :
    (v.setLine p i f t).flags q j = if q = p ∧ j = i then f else v.flags q j := by
  by_cases hq : q = p
  · subst hq
    simp [setLine, Function.update_apply]
  · simp [setLine, hq]

theorem setLine_tags (v : LineView) (p i : Nat) (f : XrLine) (t q j : Nat) :
    (v.setLine p i f t).tags q j = if q = p ∧ j = i then t else v.tags q j := by
  by_cases hq : q = p
  · subst hq
    simp [setLine, Function.update_apply]
  · simp [setLine, hq]

/-- Setting a line twice sets it once, whatever happens to the Scache in between. -/
theorem setLine_setSc_setLine (v : LineView) (p i j : Nat) (f f' g : XrLine) (t t' u id : Nat) :
    ((v.setLine p i f t).setSc j g u id).setLine p i f' t' =
      (v.setSc j g u id).setLine p i f' t' := by
  simp [setLine, setSc]

/-- Every line of the new view is the new one or an old one. -/
theorem has_setLine {v : LineView} {p i : Nat} {f : XrLine} {t q j u : Nat}
    (h : (v.setLine p i f t).Has q j u) :
    (q = p ∧ j = i ∧ t = u ∧ f ≠ .invalid) ∨ (¬(q = p ∧ j = i) ∧ v.Has q j u) := by
  unfold Has at h
  rw [setLine_flags, setLine_tags] at h
  by_cases hqj : q = p ∧ j = i
  · rw [if_pos hqj, if_pos hqj] at h
    exact Or.inl ⟨hqj.1, hqj.2, h.2, h.1⟩
  · rw [if_neg hqj, if_neg hqj] at h
    exact Or.inr ⟨hqj, h⟩

def insertWb (v : LineView) (p w i : Nat) : LineView :=
  { v with
    wb := Function.update v.wb p (Function.update (v.wb p) w (some i))
    wbOf := Function.update v.wbOf p (Function.update (v.wbOf p) i (some w)) }

end LineView

/-- The invariant of the Dcaches and the Scache. -/
structure Coherent (present populated : Nat → Bool) (v : LineView) : Prop where
  placed : ∀ {p i t}, v.Has p i t → xrDcSetNumber t = i / 2 ∧ t % 16 = 0
  populated : ∀ {p i t}, v.Has p i t → populated t = true
  present : ∀ {p i t}, v.Has p i t → present p = true ∧ p < xrProcMax
  directory : ∀ {j}, v.scFlags j ≠ .invalid → xrScSetNumber (v.scTags j) = j ∧ v.scTags j % 16 = 0
  included : ∀ {p i t}, v.Has p i t →
    v.scFlags (xrScSetNumber t) ≠ .invalid ∧ v.scTags (xrScSetNumber t) = t
  owned : ∀ {p i}, v.flags p i = .exclusive →
    v.scFlags (xrScSetNumber (v.tags p i)) = .exclusive
  alone : ∀ {p i t}, v.Has p i t → v.scFlags (xrScSetNumber t) = .exclusive →
    v.scIds (xrScSetNumber t) = p
  unique : ∀ {p i j t}, v.Has p i t → v.Has p j t → i = j
  inverse : ∀ {p w i}, v.wb p w = some i ↔ v.wbOf p i = some w
  depth : ∀ {p w i}, v.wb p w = some i → w < 4
  buffered : ∀ {p w i}, v.wb p w = some i → v.flags p i = .exclusive

/-! ## Mutexes and sets -/

/-- The mutex that guards line `i` of a Dcache. -/
def dcMutex (i : Nat) : Nat := 16 * (i / 2 % 16)

/-- The mutex that guards entry `j` of the Scache. -/
def scMutex (j : Nat) : Nat := 16 * (j % 16)

theorem xrMutexIndex_of_set {t i : Nat} (ha : t % 16 = 0) (hs : xrDcSetNumber t = i / 2) :
    xrMutexIndex t = dcMutex i := by
  simp only [xrDcSetNumber, xrMutexIndex, dcMutex] at *
  omega

theorem xrMutexIndex_of_scSet {t : Nat} (ha : t % 16 = 0) :
    xrMutexIndex t = scMutex (xrScSetNumber t) := by
  simp only [xrScSetNumber, xrMutexIndex, scMutex] at *
  omega

theorem xrLineTag_aligned (a : Nat) : xrLineTag a % 16 = 0 := by
  simp only [xrLineTag]
  omega

theorem xrDcSetNumber_lineTag (a : Nat) : xrDcSetNumber (xrLineTag a) = xrDcSetNumber a := by
  simp only [xrDcSetNumber, xrLineTag]
  omega

theorem mem_xrDcWays {t i : Nat} : i ∈ xrDcWays t ↔ xrDcSetNumber t = i / 2 := by
  simp only [xrDcWays, List.mem_cons, List.not_mem_nil, or_false]
  omega

theorem XrLine.rank_eq_zero {f : XrLine} : f.rank = 0 ↔ f = .invalid := by
  cases f <;> simp [XrLine.rank]

theorem XrLine.rank_eq_two {f : XrLine} : f.rank = 2 ↔ f = .exclusive := by
  cases f <;> simp [XrLine.rank]

theorem XrLine.rank_le_two (f : XrLine) : f.rank ≤ 2 := by
  cases f <;> simp [XrLine.rank]

/-! ## What keeps the invariant -/

/-- Lines only lose rights and write buffer entries are only given back. -/
structure Falls (v v' : LineView) : Prop where
  scFlags : v'.scFlags = v.scFlags
  scTags : v'.scTags = v.scTags
  scIds : v'.scIds = v.scIds
  tags : v'.tags = v.tags
  flags : ∀ p i, (v'.flags p i).rank ≤ (v.flags p i).rank
  wb : ∀ {p w i}, v'.wb p w = some i → v.wb p w = some i ∧ v'.flags p i = v.flags p i
  inverse : ∀ {p w i}, v'.wb p w = some i ↔ v'.wbOf p i = some w

theorem Falls.has {v v' : LineView} (h : Falls v v') {p i t : Nat} (hi : v'.Has p i t) :
    v.Has p i t := by
  refine ⟨fun h0 => hi.1 ?_, by rw [← h.tags]; exact hi.2⟩
  have hr := h.flags p i
  rw [h0] at hr
  exact XrLine.rank_eq_zero.mp (Nat.le_zero.mp hr)

theorem Falls.exclusive {v v' : LineView} (h : Falls v v') {p i : Nat}
    (hi : v'.flags p i = .exclusive) : v.flags p i = .exclusive := by
  have hr := h.flags p i
  rw [hi] at hr
  exact XrLine.rank_eq_two.mp (Nat.le_antisymm (XrLine.rank_le_two _) hr)

theorem Falls.trans {u v w : LineView} (h : Falls u v) (h' : Falls v w) : Falls u w where
  scFlags := h'.scFlags.trans h.scFlags
  scTags := h'.scTags.trans h.scTags
  scIds := h'.scIds.trans h.scIds
  tags := h'.tags.trans h.tags
  flags p i := Nat.le_trans (h'.flags p i) (h.flags p i)
  wb hw := ⟨(h.wb (h'.wb hw).1).1, (h'.wb hw).2.trans (h.wb (h'.wb hw).1).2⟩
  inverse := h'.inverse

/-- Processor `p` finds its lines with the same tags and at most the rights they
had, and its write buffer with at most the entries it had. -/
structure OwnFalls (p : Nat) (v v' : LineView) : Prop where
  tags : v'.tags p = v.tags p
  flags : ∀ i, (v'.flags p i).rank ≤ (v.flags p i).rank
  wb : ∀ {w i}, v'.wb p w = some i → v.wb p w = some i

theorem OwnFalls.refl (p : Nat) (v : LineView) : OwnFalls p v v :=
  ⟨rfl, fun _ => Nat.le_refl _, id⟩

theorem OwnFalls.trans {p : Nat} {u v w : LineView} (h : OwnFalls p u v) (h' : OwnFalls p v w) :
    OwnFalls p u w :=
  ⟨h'.tags.trans h.tags, fun i => Nat.le_trans (h'.flags i) (h.flags i), fun hw => h.wb (h'.wb hw)⟩

theorem OwnFalls.has {p : Nat} {v v' : LineView} (h : OwnFalls p v v') {i t : Nat}
    (hi : v'.Has p i t) : v.Has p i t := by
  refine ⟨fun h0 => hi.1 ?_, by rw [← h.tags]; exact hi.2⟩
  have hr := h.flags i
  rw [h0] at hr
  exact XrLine.rank_eq_zero.mp (Nat.le_zero.mp hr)

theorem OwnFalls.not_exclusive {p : Nat} {v v' : LineView} (h : OwnFalls p v v') {i : Nat}
    (hi : v.flags p i ≠ .exclusive) : v'.flags p i ≠ .exclusive := by
  intro hx
  have hr := h.flags i
  rw [hx] at hr
  exact hi (XrLine.rank_eq_two.mp (Nat.le_antisymm (XrLine.rank_le_two _) hr))

theorem OwnFalls.wb_none {p : Nat} {v v' : LineView} (h : OwnFalls p v v') {w : Nat}
    (hw : v.wb p w = none) : v'.wb p w = none := by
  cases hb : v'.wb p w with
  | none => rfl
  | some i =>
      rw [h.wb hb] at hw
      cases hw

theorem Falls.own {v v' : LineView} (h : Falls v v') (p : Nat) : OwnFalls p v v' :=
  ⟨by rw [h.tags], h.flags p, fun hw => (h.wb hw).1⟩

namespace Coherent

variable {present populated : Nat → Bool} {v v' : LineView}

theorem falls (h : Coherent present populated v) (hf : Falls v v') :
    Coherent present populated v' where
  placed hi := h.placed (hf.has hi)
  populated hi := h.populated (hf.has hi)
  present hi := h.present (hf.has hi)
  directory hj := by
    rw [hf.scFlags] at hj
    rw [hf.scTags]
    exact h.directory hj
  included hi := by
    rw [hf.scFlags, hf.scTags]
    exact h.included (hf.has hi)
  owned hi := by
    rw [hf.scFlags, hf.tags]
    exact h.owned (hf.exclusive hi)
  alone hi hx := by
    rw [hf.scFlags] at hx
    rw [hf.scIds]
    exact h.alone (hf.has hi) hx
  unique hi hj := h.unique (hf.has hi) (hf.has hj)
  inverse := hf.inverse
  depth hw := h.depth (hf.wb hw).1
  buffered hw := (hf.wb hw).2.trans (h.buffered (hf.wb hw).1)

theorem refl_falls (h : Coherent present populated v) : Falls v v :=
  ⟨rfl, rfl, rfl, rfl, fun _ _ => Nat.le_refl _, fun hw => ⟨hw, rfl⟩, h.inverse⟩

/-- An invalid line is not in the write buffer. -/
theorem not_buffered (h : Coherent present populated v) {p i : Nat}
    (hi : v.flags p i ≠ .exclusive) : v.wbOf p i = none := by
  cases hw : v.wbOf p i with
  | none => rfl
  | some w => exact absurd (h.buffered (h.inverse.mpr hw)) hi

/-- A Scache entry whose line is in no Dcache may be given to any line. -/
theorem setSc (h : Coherent present populated v) {j : Nat} {f : XrLine} {t id : Nat}
    (hfree : ∀ p i u, v.Has p i u → xrScSetNumber u ≠ j)
    (ht : f ≠ .invalid → xrScSetNumber t = j ∧ t % 16 = 0) :
    Coherent present populated (v.setSc j f t id) where
  placed := h.placed
  populated := h.populated
  present := h.present
  directory {k} hk := by
    by_cases hkj : k = j
    · subst hkj
      simpa [LineView.setSc] using ht (by simpa [LineView.setSc] using hk)
    · simpa [LineView.setSc, hkj] using h.directory (by simpa [LineView.setSc, hkj] using hk)
  included {p i u} hi := by
    have hne := hfree p i u hi
    simpa [LineView.setSc, hne] using h.included hi
  owned {p i} hi := by
    have hne := hfree p i (v.tags p i) ⟨by rw [show v.flags p i = .exclusive from hi]; simp, rfl⟩
    simpa [LineView.setSc, hne] using h.owned hi
  alone {p i u} hi := by
    have hne := hfree p i u hi
    simpa [LineView.setSc, hne] using h.alone hi
  unique := h.unique
  inverse := h.inverse
  depth := h.depth
  buffered := h.buffered

/-- A Scache entry may change its state to the one its line has in the Dcaches. -/
theorem setScState (h : Coherent present populated v) {j : Nat} {f : XrLine} {id : Nat}
    (hj : v.scFlags j ≠ .invalid) (hf : f ≠ .invalid)
    (hx : f = .exclusive → ∀ p i u, v.Has p i u → xrScSetNumber u = j → p = id)
    (hs : f = .shared → ∀ p i, v.flags p i = .exclusive → xrScSetNumber (v.tags p i) ≠ j) :
    Coherent present populated (v.setSc j f (v.scTags j) id) where
  placed := h.placed
  populated := h.populated
  present := h.present
  directory {k} hk := by
    by_cases hkj : k = j
    · subst hkj
      simpa [LineView.setSc] using h.directory hj
    · simpa [LineView.setSc, hkj] using h.directory (by simpa [LineView.setSc, hkj] using hk)
  included {p i u} hi := by
    by_cases hj : xrScSetNumber u = j
    · subst hj
      simpa [LineView.setSc] using ⟨hf, (h.included hi).2⟩
    · simpa [LineView.setSc, hj] using h.included hi
  owned {p i} hi := by
    by_cases hj : xrScSetNumber (v.tags p i) = j
    · have hne : f ≠ .shared := fun hf => hs hf p i hi hj
      cases f with
      | invalid => exact absurd rfl hf
      | shared => exact absurd rfl hne
      | exclusive => simp [LineView.setSc, hj]
    · simpa [LineView.setSc, hj] using h.owned hi
  alone {p i u} hi := by
    by_cases hj : xrScSetNumber u = j
    · subst hj
      simpa [LineView.setSc] using fun hf => (hx hf p i u hi rfl).symm
    · simpa [LineView.setSc, hj] using h.alone hi
  unique := h.unique
  inverse := h.inverse
  depth := h.depth
  buffered := h.buffered

/-- Changing a line that is not in the write buffer does not touch the lines that are. -/
theorem buffered_setLine (h : Coherent present populated v) {p i : Nat} {f : XrLine} {t : Nat}
    (hw : v.wbOf p i = none) {q w j : Nat} (hb : (v.setLine p i f t).wb q w = some j) :
    (v.setLine p i f t).flags q j = .exclusive := by
  have hb' : v.wb q w = some j := hb
  have hne : ¬(q = p ∧ j = i) := by
    rintro ⟨rfl, rfl⟩
    rw [h.inverse.mp hb'] at hw
    cases hw
  rw [LineView.setLine_flags, if_neg hne]
  exact h.buffered hb'

/-- A Dcache line may take a line that the Scache has in that state for this
processor and that the processor does not have yet. -/
theorem setLine (h : Coherent present populated v) {p i : Nat} {f : XrLine} {t : Nat}
    (hw : v.wbOf p i = none) (hplace : xrDcSetNumber t = i / 2) (halign : t % 16 = 0)
    (hpop : populated t = true) (hp : present p = true ∧ p < xrProcMax)
    (hsc : v.scFlags (xrScSetNumber t) = f ∧ v.scTags (xrScSetNumber t) = t)
    (hid : f = .exclusive → v.scIds (xrScSetNumber t) = p)
    (hnew : ∀ j, j ≠ i → ¬v.Has p j t) :
    Coherent present populated (v.setLine p i f t) where
  placed hu := by
    rcases LineView.has_setLine hu with ⟨rfl, rfl, rfl, -⟩ | ⟨-, hu⟩
    · exact ⟨hplace, halign⟩
    · exact h.placed hu
  populated hu := by
    rcases LineView.has_setLine hu with ⟨rfl, rfl, rfl, -⟩ | ⟨-, hu⟩
    · exact hpop
    · exact h.populated hu
  present hu := by
    rcases LineView.has_setLine hu with ⟨rfl, rfl, rfl, -⟩ | ⟨-, hu⟩
    · exact hp
    · exact h.present hu
  directory := h.directory
  included hu := by
    rcases LineView.has_setLine hu with ⟨rfl, rfl, rfl, hf⟩ | ⟨-, hu⟩
    · exact ⟨fun h0 => hf (hsc.1.symm.trans h0), hsc.2⟩
    · exact h.included hu
  owned {q j} hx := by
    rw [LineView.setLine_flags] at hx
    rw [LineView.setLine_tags]
    by_cases hqj : q = p ∧ j = i
    · rw [if_pos hqj] at hx ⊢
      exact hsc.1.trans hx
    · rw [if_neg hqj] at hx ⊢
      exact h.owned hx
  alone hu hx := by
    rcases LineView.has_setLine hu with ⟨rfl, rfl, rfl, -⟩ | ⟨-, hu⟩
    · exact hid (hsc.1.symm.trans hx)
    · exact h.alone hu hx
  unique {q j k u} hj hk := by
    rcases LineView.has_setLine hj with ⟨rfl, rfl, rfl, -⟩ | ⟨hjne, hjold⟩
    · rcases LineView.has_setLine hk with ⟨-, hki, -, -⟩ | ⟨hkne, hkold⟩
      · exact hki.symm
      · exact absurd hkold (hnew k fun hki => hkne ⟨rfl, hki⟩)
    · rcases LineView.has_setLine hk with ⟨rfl, rfl, rfl, -⟩ | ⟨-, hkold⟩
      · exact absurd hjold (hnew j fun hji => hjne ⟨rfl, hji⟩)
      · exact h.unique hjold hkold
  inverse := h.inverse
  depth := h.depth
  buffered := h.buffered_setLine hw

/-- A line that is marked invalid may get any tag. -/
theorem setInvalid (h : Coherent present populated v) {p i t : Nat} (hw : v.wbOf p i = none) :
    Coherent present populated (v.setLine p i .invalid t) := by
  have hold : ∀ {q j u}, (v.setLine p i .invalid t).Has q j u → v.Has q j u := by
    intro q j u hu
    rcases LineView.has_setLine hu with ⟨-, -, -, hf⟩ | ⟨-, hu⟩
    · exact absurd rfl hf
    · exact hu
  refine ⟨fun hu => h.placed (hold hu), fun hu => h.populated (hold hu),
    fun hu => h.present (hold hu), h.directory, fun hu => h.included (hold hu), ?_,
    fun hu hx => h.alone (hold hu) hx, fun hj hk => h.unique (hold hj) (hold hk),
    h.inverse, h.depth, h.buffered_setLine hw⟩
  intro q j hx
  rw [LineView.setLine_flags] at hx
  rw [LineView.setLine_tags]
  by_cases hqj : q = p ∧ j = i
  · rw [if_pos hqj] at hx
    cases hx
  · rw [if_neg hqj] at hx ⊢
    exact h.owned hx

/-- A free write buffer entry may take an exclusive line that has none. -/
theorem insertWb (h : Coherent present populated v) {p w i : Nat} (hw : v.wb p w = none)
    (hi : v.wbOf p i = none) (hlt : w < 4) (hx : v.flags p i = .exclusive) :
    Coherent present populated (v.insertWb p w i) := by
  have hcases : ∀ {q x j}, (v.insertWb p w i).wb q x = some j →
      (q = p ∧ x = w ∧ j = i) ∨ v.wb q x = some j := by
    intro q x j hb
    by_cases hq : q = p
    · subst hq
      by_cases hx : x = w
      · subst hx
        left
        simpa [LineView.insertWb, eq_comm] using hb
      · right
        simpa [LineView.insertWb, hx] using hb
    · right
      simpa [LineView.insertWb, hq] using hb
  refine ⟨h.placed, h.populated, h.present, h.directory, h.included, h.owned, h.alone, h.unique, ?_, ?_, ?_⟩
  · intro q x j
    by_cases hq : q = p
    · subst hq
      by_cases hxw : x = w
      · subst hxw
        by_cases hj : j = i
        · subst hj
          simp [LineView.insertWb]
        · have hb : v.wbOf q j ≠ some x := fun hb => by
            rw [h.inverse.mpr hb] at hw
            cases hw
          simpa [LineView.insertWb, hj, Ne.symm hj] using hb
      · by_cases hj : j = i
        · subst hj
          have hb : v.wb q x ≠ some j := fun hb => by
            rw [h.inverse.mp hb] at hi
            cases hi
          simpa [LineView.insertWb, hxw, Ne.symm hxw] using hb
        · simpa [LineView.insertWb, hxw, hj] using h.inverse
    · simpa [LineView.insertWb, hq] using h.inverse
  · intro q x j hb
    rcases hcases hb with ⟨-, rfl, -⟩ | hb
    · exact hlt
    · exact h.depth hb
  · intro q x j hb
    rcases hcases hb with ⟨rfl, -, rfl⟩ | hb
    · exact hx
    · exact h.buffered hb

end Coherent

end Xremu
