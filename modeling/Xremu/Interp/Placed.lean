import Xremu.Interp.RunInvariant

/-!
# A run stands where its program counter says

At every point of a run the block cache is one that its operations reach. About to call
an instruction, the processor is inside a block in use, and its program counter is that
of the instruction: a block is entered at its own program counter, and what its last
instruction finds in a slot is a block at the program counter the slot is for.
-/

namespace Xremu

open XrIblockCache

/-! ## The invariant -/

section

variable {M : Type}

/-- About to call instruction `k` of block `i`. -/
structure StandsAt (m : Machine M) (c : XrIblockCache) (i k : Nat) : Prop where
  active : c.Active i
  room : k < (c.iblocks i).code.insts.length
  pc : m.proc.pc = advance ((c.iblocks i).code.insts.take k) (c.iblocks i).pc

structure XrInterp.Placed (s : XrInterp M) : Prop where
  reach : s.cache.Reach
  stands : ∀ i k, s.point = .inst i k → StandsAt s.machine s.cache i k

theorem standsAt_entry {m : Machine M} {c : XrIblockCache} {j : Nat} (hj : c.Active j)
    (hpc : (c.iblocks j).pc = m.proc.pc) : StandsAt m c j 0 := by
  refine ⟨hj, List.length_pos_iff.mpr (XrBlockCode.ne_nil _), ?_⟩
  rw [hpc]
  rfl

/-- Outside of the blocks. -/
theorem placed_outside {s : XrInterp M} (h : s.cache.Reach)
    (outside : ∀ i k, s.point ≠ .inst i k) : s.Placed :=
  ⟨h, fun i k hp => absurd hp (outside i k)⟩

theorem placed_dispatch {m : Machine M} {c : XrIblockCache} {i j : Nat} (h : c.Reach)
    (hj : c.Active j) (hpc : (c.iblocks j).pc = m.proc.pc) : (xrDispatch m c i j).Placed := by
  refine ⟨h, ?_⟩
  intro i' k hpoint
  unfold xrDispatch at hpoint
  extract_lets m₁ dispatches m₂ at hpoint
  by_cases hlook : dispatches &&& 31 = 0
  · have hcheck := (if_pos hlook).symm.trans hpoint
    cases hcheck
  · have hinst := (if_neg hlook).symm.trans hpoint
    cases hinst
    exact standsAt_entry hj hpc

/-- Nothing from outside moves the program counter. -/
theorem XrInterp.Placed.outside {s : XrInterp M} {m : Machine M} (h : s.Placed)
    (hm : Outside s.machine m) : XrInterp.Placed { s with machine := m } := by
  refine ⟨h.reach, ?_⟩
  intro i k hpoint
  obtain ⟨hactive, hroom, hpc⟩ := h.stands i k hpoint
  have hsame : m.proc.pc = s.machine.proc.pc := by rw [hm]
  exact ⟨hactive, hroom, hsame.trans hpc⟩

theorem XrInterp.Placed.meets {s : XrInterp M} (h : s.Placed) (input : XrInput M) :
    (s.meets input).Placed :=
  h.outside (input.outside_ok s.machine)

end

/-! ## Slots lead where they should -/

section

variable {c c' : XrIblockCache} {i j t : Nat}

/-- The new pointer changes no program counter and frees no block. -/
theorem create_entry (c : XrIblockCache) (j : Nat) (s : XrSlot) (l : Nat) :
    ((c.xrCreateCachedPointerToBlock j s).Active l ↔ c.Active l) ∧
      ((c.xrCreateCachedPointerToBlock j s).iblocks l).pc = (c.iblocks l).pc := by
  have hlists := (linked_create c j s).lists
  exact ⟨hlists.active l, hlists.pc l⟩

theorem predict_entry (c : XrIblockCache) (t j : Nat) (pc : Word) (l : Nat) :
    ((c.predict t j pc).Active l ↔ c.Active l) ∧
      ((c.predict t j pc).iblocks l).pc = (c.iblocks l).pc := by
  unfold predict
  extract_lets ptable k c₁
  exact create_entry c₁ j (.table t k) l

theorem Survives.jalr (h : Survives c i c') : (c'.iblocks i).Jalr ↔ (c.iblocks i).Jalr := by
  rw [h.iblock]
  exact Iff.rfl

theorem Survives.leadsTo (h : Survives c i c') (path : XrPath) :
    (c'.iblocks i).leadsTo path = (c.iblocks i).leadsTo path := by
  rw [h.iblock]
  rfl

/-- What a prediction table gives is a block at this program counter. -/
theorem predicted_entry (h : c.Reach) (hi : c.Active i)
    (ht : (c.iblocks i).cachedPaths .true = .ptable t) {pc : Word}
    (hit : c.predicted t pc = .iblock j) : c.Active j ∧ (c.iblocks j).pc = pc := by
  have hinv := inv_reach h
  unfold predicted at hit
  by_cases hkey : (c.ptables t).pcs (jalrIndex pc) = pc
  · rw [if_pos hkey] at hit
    have howns : c.Owns i t := ⟨(hinv.tables.plain i .true t hi ht).2, ht⟩
    have hlive : c.Live (.table t (jalrIndex pc)) := ⟨jalrIndex_lt pc, i, hi, howns⟩
    obtain ⟨hactive, _, hpc⟩ := hinv.pointers (.table t (jalrIndex pc)) j hlive hit
    exact ⟨hactive, hpc.trans hkey⟩
  · rw [if_neg hkey] at hit
    cases hit

/-- The block has its table, if need be a new one. -/
theorem Tabled.reach (htable : Tabled c i t c') (h : c.Reach) (hi : c.Active i)
    (hj : (c.iblocks i).Jalr) :
    c'.Reach ∧ c'.Active i ∧ (c'.iblocks i).Jalr ∧
      (c'.iblocks i).cachedPaths .true = .ptable t := by
  cases htable with
  | old table => exact ⟨h, hi, hj, table⟩
  | new null given table =>
      obtain ⟨u, hgiven⟩ := given_givePtable given
      refine ⟨.ptable i h hi hj null given, (hgiven.lists.active i).mpr hi, ?_, table⟩
      rw [hgiven.iblock]
      exact hj

/-- A block that survives may be given a pointer to the block its path leads to. -/
theorem reach_link {path : XrPath} (h : c'.Reach) (hsurvives : Survives c i c')
    (hother : ¬(c.iblocks i).Jalr) (hj : c'.Active j)
    (hpc : (c'.iblocks j).pc = (c.iblocks i).leadsTo path) :
    (c'.xrCreateCachedPointerToBlock j (.path i path)).Reach := by
  refine .link i j path h hsurvives.active ?_ hj ?_
  · rw [hsurvives.jalr]
    exact hother
  · rw [hsurvives.leadsTo]
    exact hpc

theorem reach_drop {vpn : Option Word} (h : c.Reach) (hdrop : c.drop vpn = some c') : c'.Reach := by
  cases vpn with
  | none => exact .flush h hdrop
  | some vpn => exact .flushVpn vpn h hdrop

end

/-! ## The step of an instruction -/

section

variable {M : Type} [XrBuild M] {m m' : Machine M} {c : XrIblockCache} {i k : Nat}

theorem StandsAt.next {inst : XrCachedInst} (h : StandsAt m c i k)
    (hinst : (c.iblocks i).code.insts[k]? = some inst) (hran : Ran m inst m' .next) :
    StandsAt m' c i (k + 1) := by
  obtain ⟨hgoes, hpc⟩ := hran.next_pc
  refine ⟨h.active, ?_, ?_⟩
  · rcases (c.iblocks i).code.inst_cases hinst with ⟨_, hlt⟩ | ⟨hlast, _⟩
    · exact hlt
    · rw [hlast, (c.iblocks i).code.last_ends] at hgoes
      cases hgoes
  · rw [hpc, advance_take hinst, h.pc]

/-- The last instruction leads where the slots of its block stand for. -/
theorem StandsAt.leadsTo {inst : XrCachedInst} {path : XrPath} (h : StandsAt m c i k)
    (hinst : (c.iblocks i).code.insts[k]? = some inst) (hran : Ran m inst m' (.follow path)) :
    m'.proc.pc = (c.iblocks i).leadsTo path ∧ ¬(c.iblocks i).Jalr := by
  obtain ⟨hkind, _, hpc⟩ := hran.follow_pc
  rcases (c.iblocks i).code.inst_cases hinst with ⟨hgoes, _⟩ | ⟨hlast, hbody⟩
  · rw [hkind.ends] at hgoes
    cases hgoes
  · subst hlast
    refine ⟨?_, hkind.ne_jalr⟩
    rw [hpc, h.pc, hbody]
    rfl

theorem StandsAt.jalr {inst : XrCachedInst} (hinst : (c.iblocks i).code.insts[k]? = some inst)
    (hran : Ran m inst m' .predict) : (c.iblocks i).Jalr := by
  have hkind := hran.predict_kind.1
  rcases (c.iblocks i).code.inst_cases hinst with ⟨hgoes, _⟩ | ⟨hlast, _⟩
  · rw [hkind] at hgoes
    cases hgoes
  · subst hlast
    exact hkind

/-- A slot that holds a block holds one at the program counter. -/
theorem StandsAt.cached {inst : XrCachedInst} {exit : XrExit} {j : Nat} (h : StandsAt m c i k)
    (hreach : c.Reach) (hinst : (c.iblocks i).code.insts[k]? = some inst)
    (hran : Ran m inst m' exit) (hit : c.cachedNext i m'.proc.pc exit = .iblock j) :
    c.Active j ∧ (c.iblocks j).pc = m'.proc.pc := by
  cases exit with
  | follow path =>
      obtain ⟨hactive, _, hpc⟩ := (inv_reach hreach).pointers (.path i path) j h.active hit
      exact ⟨hactive, hpc.trans (h.leadsTo hinst hran).1.symm⟩
  | predict =>
      unfold cachedNext at hit
      cases hslot : (c.iblocks i).cachedPaths .true with
      | null =>
          simp only [hslot] at hit
          cases hit
      | iblock l =>
          simp only [hslot] at hit
          cases hit
      | ptable t =>
          simp only [hslot] at hit
          exact predicted_entry hreach h.active hslot hit
  | next => cases hit
  | early => cases hit
  | trivial => cases hit
  | flush vpn => cases hit

theorem placed_leaves {inst : XrCachedInst} {exit : XrExit} {s : XrInterp M}
    (h : StandsAt m c i k) (hreach : c.Reach) (hinst : (c.iblocks i).code.insts[k]? = some inst)
    (hran : Ran m inst m' exit) (hleaves : Leaves m' c i k exit s) : s.Placed := by
  cases hleaves with
  | next =>
      refine ⟨hreach, ?_⟩
      rintro _ _ ⟨⟩
      exact h.next hinst hran
  | early => exact placed_outside hreach fun _ _ => XrPoint.noConfusion
  | trivial => exact placed_outside hreach fun _ _ => XrPoint.noConfusion
  | flush drop => exact placed_outside (reach_drop hreach drop) fun _ _ => XrPoint.noConfusion
  | cached hit =>
      obtain ⟨hactive, hpc⟩ := h.cached hreach hinst hran hit
      exact placed_dispatch hreach hactive hpc
  | @decoded path j m₂ c₂ null decode =>
      have hfound := decode_found hreach decode
      obtain ⟨hleads, hother⟩ := h.leadsTo hinst hran
      have hsurvives := hfound.hazard i rfl h.active
      obtain ⟨hactive, hpc⟩ := create_entry c₂ j (.path i path) j
      refine placed_dispatch ?_ (hactive.mpr hfound.active) ?_
      · exact reach_link hfound.reach hsurvives hother hfound.active (hfound.pc.trans hleads)
      · rw [hpc, hfound.pc, hfound.touched.pc]
  | @predicted t j c₁ m₂ c₂ table miss decode =>
      obtain ⟨hreach₁, hi₁, hjalr₁, hslot₁⟩ := table.reach hreach h.active (StandsAt.jalr hinst hran)
      have hfound := decode_found hreach₁ decode
      have hsurvives := hfound.hazard i rfl hi₁
      have hpc₂ : (c₂.iblocks j).pc = m₂.proc.pc := by
        rw [hfound.pc, hfound.touched.pc]
      obtain ⟨hactive, hpc⟩ := predict_entry c₂ t j m₂.proc.pc j
      refine placed_dispatch ?_ (hactive.mpr hfound.active) (hpc.trans hpc₂)
      rw [← hpc₂]
      exact .predict i j t hfound.reach hsurvives.active (hsurvives.jalr.mpr hjalr₁)
        ((hsurvives.ptable .true t).mpr hslot₁) hfound.active
  | faulted null decode =>
      obtain ⟨_, rfl⟩ := decode_fault decode
      exact placed_outside hreach fun _ _ => XrPoint.noConfusion
  | unpredicted table miss decode =>
      obtain ⟨_, rfl⟩ := decode_fault decode
      exact placed_outside (table.reach hreach h.active (StandsAt.jalr hinst hran)).1
        fun _ _ => XrPoint.noConfusion

/-! ## Runs -/

theorem placed_retry {pending : Bool} {s : XrInterp M} (hreach : c.Reach)
    (h : xrRetry pending m c = some s) : s.Placed := by
  cases retries h with
  | stopped stops => exact placed_outside hreach fun _ _ => XrPoint.noConfusion
  | faulted goes decode =>
      obtain ⟨_, rfl⟩ := decode_fault decode
      exact placed_outside hreach fun _ _ => XrPoint.noConfusion
  | enters goes decode =>
      have hfound := decode_found hreach decode
      refine ⟨hfound.reach, ?_⟩
      rintro _ _ ⟨⟩
      refine standsAt_entry hfound.active ?_
      rw [hfound.pc, hfound.touched.pc]

theorem xrExecuteFast_point (pending : Bool) (cycles : Word) (m : Machine M) (i k : Nat) :
    (xrExecuteFast pending cycles m).2 ≠ .inst i k := by
  unfold xrExecuteFast
  split
  · exact XrPoint.noConfusion
  split
  · exact XrPoint.noConfusion
  extract_lets p₁ m₁ p₂ m₂ raised p₃ m₃ p₄
  split
  · exact XrPoint.noConfusion
  · exact XrPoint.noConfusion

namespace XrInterp

variable {s s' : XrInterp M}

theorem Placed.call (h : s.Placed) (input : XrInput M) (cycles : Word) :
    (s.call input cycles).Placed :=
  placed_outside h.reach (xrExecuteFast_point input.pending cycles _)

theorem Placed.step {pending : Bool} (h : s.Placed) (hstep : s.step pending = some s') :
    s'.Placed := by
  obtain ⟨m, c, point⟩ := s
  cases point with
  | check =>
      cases hstep
      exact placed_outside h.reach fun _ _ => XrPoint.noConfusion
  | retry => exact placed_retry h.reach hstep
  | inst i k =>
      obtain ⟨inst, m₁, exit, hinst, hexec, hleaves⟩ := inst_step hstep
      exact placed_leaves (h.stands i k rfl) h.reach hinst (exec_ran hexec) hleaves
  | noMore => cases hstep

theorem Placed.next (h : s.Placed) {input : XrInput M} (hstep : s.next input = some s') :
    s'.Placed :=
  (h.meets input).step hstep

/-- Every run keeps its place, whatever is asked of its steps. -/
theorem Reach.placed {P : XrInterp M → Prop} (h : Reach P s) : s.Placed := by
  induction h with
  | start m h => exact placed_outside (.start h) fun _ _ => XrPoint.noConfusion
  | timeslice h idle ih =>
      refine placed_outside ih.reach ?_
      intro i k hpoint
      exact XrPoint.noConfusion (idle.symm.trans hpoint)
  | call input cycles h idle ih => exact ih.call input cycles
  | next input h ok step ih => exact ih.next step

end XrInterp

end

end Xremu
