import Xremu.Devices.Lsic

/-!
# No lost and no unraisable interrupt

What a sequence of calls does to one source: it becomes pending when it is raised,
by a device or by a write to its PENDING register, and stays pending until it is
completed or its PENDING register is written with zero. `LsicWrite` clears bit 0
of every value written to a PENDING register, in both registers; in PENDING_0 that
is source 0, which nobody may raise, and in PENDING_1 it is source 32.
-/

namespace Xremu

variable (present : Nat → Bool)

/-- The call raises source `src` of processor `id`. -/
def LsicOp.Raises (id src : Nat) : LsicOp → Prop
  | .interruptTargeted id' src' => id' = id ∧ src' = src
  | .interrupt src' => lsicExists present id = true ∧ src' = src
  | .write reg value => lsicExists present id = true ∧ reg / 8 = id ∧
      reg % 8 = lsicPending0 + src / 32 ∧ value.getLsbD (src % 32) = true
  | .read _ => False

/-- The call completes the source, or writes zero to its PENDING register. -/
def LsicOp.Clears (id src : Nat) : LsicOp → Prop
  | .write reg value => reg / 8 = id ∧
      ((reg % 8 = lsicClaimComplete ∧ value.toNat = src) ∨
        (reg % 8 = lsicPending0 + src / 32 ∧ value = 0))
  | _ => False

/-- Raised sources become pending and stay so, source 0 never does. -/
structure NoLostInterrupt (ops : List LsicOp) : Prop where
  raised : ∀ before op after id src, ops = before ++ op :: after → 1 ≤ src → src < 64 →
    op.Raises present id src → (lsicRun present (before ++ [op]) id).Pending src
  zero : ∀ before after id, ops = before ++ after → ¬(lsicRun present before id).Pending 0
  kept : ∀ before middle after id src, ops = before ++ middle ++ after → src < 64 →
    (lsicRun present before id).Pending src → (∀ op ∈ middle, ¬op.Clears id src) →
    (lsicRun present (before ++ middle) id).Pending src

/-- No write to PENDING_1 has bit 0 set while source 32 of that processor is not
pending. -/
def SparesSource32 (ops : List LsicOp) : Prop :=
  ∀ before op after id, ops = before ++ op :: after → op.Raises present id 32 →
    (∃ reg value, op = .write reg value) → (lsicRun present before id).Pending 32

section

variable {present : Nat → Bool}

theorem lsicRun_snoc (ops : List LsicOp) (op : LsicOp) :
    lsicRun present (ops ++ [op]) = op.step present (lsicRun present ops) := by
  unfold lsicRun
  rw [List.foldl_append]
  rfl

/-! ## One call -/

/-- A broadcast raises the source on every processor of the list that exists. -/
theorem interrupt_pending (src' : Nat) (ids : List Nat) (s : LsicTable) (id src : Nat) :
    (ids.foldl (fun s id => if present id then lsicInterruptTargeted s id src' else s) s id).Pending
        src ↔ (s id).Pending src ∨ (id ∈ ids ∧ present id = true ∧ src = src') := by
  induction ids generalizing s with
  | nil => simp
  | cons i ids ih =>
      rw [List.foldl_cons, ih, List.mem_cons]
      by_cases hi : present i = true
      · rw [if_pos hi]
        by_cases heq : id = i
        · subst heq
          simp only [lsicInterruptTargeted, Function.update_self, Lsic.refresh_pending,
            Lsic.raise_pending, hi, true_and, true_or]
          constructor
          · rintro ((hp | hs) | ⟨_, hs⟩)
            · exact Or.inl hp
            · exact Or.inr hs
            · exact Or.inr hs
          · rintro (hp | hs)
            · exact Or.inl (Or.inl hp)
            · exact Or.inl (Or.inr hs)
        · simp only [lsicInterruptTargeted, Function.update_of_ne heq, heq, false_or]
      · rw [if_neg hi]
        constructor
        · rintro (hp | ⟨hmem, hpr, hs⟩)
          · exact Or.inl hp
          · exact Or.inr ⟨Or.inr hmem, hpr, hs⟩
        · rintro (hp | ⟨rfl | hmem, hpr, hs⟩)
          · exact Or.inl hp
          · exact absurd hpr hi
          · exact Or.inr ⟨hmem, hpr, hs⟩

/-- An accepted write to the registers of one controller. -/
theorem writeRegister_pending {l l' : Lsic} {reg : Nat} {value : Word}
    (hw : l.writeRegister reg value = ⟨l', true⟩) {src : Nat} (hsrc : src < 64) :
    l'.Pending src ↔
      if reg = lsicPending0 + src / 32 then
        value ≠ 0 ∧ (l.Pending src ∨ (value.getLsbD (src % 32) = true ∧ src % 32 ≠ 0))
      else if reg = lsicClaimComplete then l.Pending src ∧ value.toNat ≠ src
      else l.Pending src := by
  have hdiv : src / 32 < 2 := by omega
  unfold Lsic.writeRegister at hw
  split at hw
  -- The masks.
  · obtain ⟨rfl, -⟩ := LsicReply.mk.inj hw
    rw [Lsic.setRegister_pending]
    split
    · next h => simp only [lsicPending0] at h; omega
    · rw [if_neg (by decide)]
  · obtain ⟨rfl, -⟩ := LsicReply.mk.inj hw
    rw [Lsic.setRegister_pending]
    split
    · next h => simp only [lsicPending0] at h; omega
    · rw [if_neg (by decide)]
  -- The PENDING registers.
  · obtain ⟨rfl, -⟩ := LsicReply.mk.inj hw
    rw [Lsic.writePending_pending]
    split
    · rfl
    · rw [if_neg (by decide)]
  · obtain ⟨rfl, -⟩ := LsicReply.mk.inj hw
    rw [Lsic.writePending_pending]
    split
    · rfl
    · rw [if_neg (by decide)]
  -- CLAIM_COMPLETE and IPL.
  · rw [Lsic.complete_pending hw src hsrc]
    split
    · next h => simp only [lsicPending0] at h; omega
    · simp
  · have hpend : l'.Pending src ↔ l.Pending src := by
      unfold Lsic.writeIpl at hw
      have hset : (l.setRegister lsicIpl value).Pending src ↔ l.Pending src := by
        rw [Lsic.setRegister_pending, if_neg]
        simp only [lsicIpl, lsicPending0]
        omega
      split at hw
      · cases hw
      · split at hw
        · obtain ⟨rfl, -⟩ := LsicReply.mk.inj hw
          exact hset
        · obtain ⟨rfl, -⟩ := LsicReply.mk.inj hw
          exact hset
    rw [hpend]
    split
    · next h => simp only [lsicPending0] at h; omega
    · simp
  · cases hw

/-- A call that does not clear the source keeps it pending. -/
theorem pending_step {s : LsicTable} {op : LsicOp} {id src : Nat} (hsrc : src < 64)
    (hp : (s id).Pending src) (hop : ¬op.Clears id src) : (op.step present s id).Pending src := by
  cases op with
  | interruptTargeted id' src' =>
      simp only [LsicOp.step, lsicInterruptTargeted]
      by_cases heq : id = id'
      · subst heq
        rw [Function.update_self, Lsic.refresh_pending, Lsic.raise_pending]
        exact Or.inl hp
      · rwa [Function.update_of_ne heq]
  | interrupt src' => exact (interrupt_pending src' _ s id src).mpr (Or.inl hp)
  | read reg => exact hp
  | write reg value =>
      simp only [LsicOp.step]
      rcases lsicWrite_cases s reg value with hfails | ⟨l, -, hw, hdone⟩
      · rwa [hfails]
      rw [hdone]
      by_cases heq : id = reg / 8
      · subst heq
        simp only [Function.update_self]
        rw [Lsic.refresh_pending, writeRegister_pending hw hsrc]
        split
        · next hreg => exact ⟨fun hz => hop ⟨rfl, Or.inr ⟨hreg, hz⟩⟩, Or.inl hp⟩
        · split
          · next hreg => exact ⟨hp, fun hv => hop ⟨rfl, Or.inl ⟨hreg, hv⟩⟩⟩
          · exact hp
      · simpa [Function.update_of_ne heq] using hp

/-- A raised source is pending afterwards, unless it is source 32 and was raised by a
write: then it is only if it was. -/
theorem pending_of_raises {s : LsicTable} {op : LsicOp} {id src : Nat} (h1 : 1 ≤ src)
    (hsrc : src < 64) (hop : op.Raises present id src) :
    (op.step present s id).Pending src ↔
      ((∃ reg value, op = .write reg value) → src = 32 → (s id).Pending 32) := by
  cases op with
  | interruptTargeted id' src' =>
      obtain ⟨rfl, rfl⟩ := hop
      simp [LsicOp.step, lsicInterruptTargeted, Lsic.refresh_pending, Lsic.raise_pending]
  | interrupt src' =>
      obtain ⟨hex, rfl⟩ := hop
      obtain ⟨hid, hpr⟩ := Bool.and_eq_true_iff.mp hex
      have hp := (@interrupt_pending present src' (List.range 16) s id src').mpr
        (Or.inr ⟨List.mem_range.mpr (of_decide_eq_true hid), hpr, rfl⟩)
      constructor
      · rintro - ⟨_, _, hw⟩
        cases hw
      · exact fun _ => hp
  | read reg => cases hop
  | write reg value =>
      obtain ⟨hex, rfl, hreg, hbit⟩ := hop
      have hv : value ≠ 0 := by
        rintro rfl
        simp at hbit
      -- The write is accepted, and its value has the bit of the source.
      have hsome : ∃ l, (s (reg / 8)).writeRegister (reg % 8) value = ⟨l, true⟩ := by
        have hdiv : src / 32 = 0 ∨ src / 32 = 1 := by omega
        rcases hdiv with hd | hd
        · exact ⟨_, by rw [hreg, hd]; rfl⟩
        · exact ⟨_, by rw [hreg, hd]; rfl⟩
      obtain ⟨l, hw⟩ := hsome
      simp only [LsicOp.step, lsicWrite, hex, if_true, hw, Function.update_self]
      rw [Lsic.refresh_pending, writeRegister_pending hw hsrc, if_pos hreg]
      constructor
      · rintro ⟨_, hp | ⟨_, hne⟩⟩ - rfl
        · exact hp
        · exact absurd rfl hne
      · intro h32
        refine ⟨hv, ?_⟩
        by_cases hmod : src % 32 = 0
        · have h := h32 ⟨reg, value, rfl⟩ (by omega)
          have hsrc32 : src = 32 := by omega
          rw [hsrc32]
          exact Or.inl h
        · exact Or.inr ⟨hbit, hmod⟩

/-! ## Every run -/

/-- A source stays pending along calls that do not clear it. -/
theorem pending_run {before : List LsicOp} {id src : Nat} (hsrc : src < 64)
    (hp : (lsicRun present before id).Pending src) (middle : List LsicOp)
    (hops : ∀ op ∈ middle, ¬op.Clears id src) :
    (lsicRun present (before ++ middle) id).Pending src := by
  induction middle using List.reverseRecOn with
  | nil => rwa [List.append_nil]
  | append_singleton middle op ih =>
      have hm := ih fun x hx => hops x (List.mem_append_left _ hx)
      rw [← List.append_assoc, lsicRun_snoc]
      exact pending_step hsrc hm (hops op (by simp))

/-- No interrupt is lost exactly in the runs that never raise source 32 by a write. -/
theorem noLostInterrupt_iff {ops : List LsicOp} (hops : ∀ op ∈ ops, op.Legal present) :
    NoLostInterrupt present ops ↔ SparesSource32 present ops := by
  constructor
  · intro h before op after id hsplit hraise hwrite
    have hp := h.raised before op after id 32 hsplit (by decide) (by decide) hraise
    rw [lsicRun_snoc, pending_of_raises (by decide) (by decide) hraise] at hp
    exact hp hwrite rfl
  · intro h
    constructor
    · intro before op after id src hsplit h1 hsrc hraise
      rw [lsicRun_snoc, pending_of_raises h1 hsrc hraise]
      rintro hwrite rfl
      exact h before op after id hsplit hraise hwrite
    · intro before after id hsplit
      have hlegal : ∀ op ∈ before, op.Legal present := by
        intro op hmem
        exact hops op (by rw [hsplit]; exact List.mem_append_left _ hmem)
      exact (lsicInv_run hlegal id).zero
    · intro before middle after id src _ hsrc hp hclear
      exact pending_run hsrc hp middle hclear

end

/-- Source 33 raised by a write, on the only processor. -/
theorem noLostInterrupt_source33 :
    NoLostInterrupt (fun id => id == 0) [.write lsicPending1 2] ↔
      SparesSource32 (fun id => id == 0) [.write lsicPending1 2] :=
  noLostInterrupt_iff fun op hop => by
    obtain rfl := List.mem_singleton.mp hop
    trivial

/-- A write of 1 to PENDING_1 of processor 0 does not raise source 32. -/
theorem write_loses_source32 :
    ¬∀ (present : Nat → Bool) (ops : List LsicOp), (∀ op ∈ ops, op.Legal present) →
      NoLostInterrupt present ops := by
  intro hall
  have h := hall (fun id => id == 0) [.write lsicPending1 1] (fun op hop => by
    obtain rfl := List.mem_singleton.mp hop
    trivial)
  have hp := h.raised [] (.write lsicPending1 1) [] 0 32 rfl (by decide) (by decide)
    ⟨by decide, by decide, by decide, by decide⟩
  revert hp
  unfold Lsic.Pending
  decide

end Xremu
