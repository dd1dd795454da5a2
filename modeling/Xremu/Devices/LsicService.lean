import Xremu.Devices.LsicPending
import Xremu.Lists.Log

/-!
# Serving interrupts

A handler reads CLAIM_COMPLETE, serves the source it is told and writes it back, until it
reads zero. Meanwhile the devices go on raising sources, and the other processors send
interrupts.

`lsic_serves` says what such a handler does, from whatever state it starts: it serves only
sources that are enabled, each at most once for every time it was raised, and when it reads
zero, every enabled source that was pending is served, and every one that has been raised since
is served after it was raised.
-/

namespace Xremu

variable (present : Nat → Bool) (id : Nat)

namespace Lsic

/-- The source is not over the IPL and not masked. -/
def Enabled (l : Lsic) (src : Nat) : Prop :=
  1 ≤ src ∧ src ≤ (l.registers lsicIpl).toNat ∧ ¬l.Masked src

/-- 1 if the source is pending. -/
def waiting (l : Lsic) (src : Nat) : Nat :=
  ((l.registers (lsicPending0 + src / 32)).getLsbD (src % 32)).toNat

end Lsic

/-- Of the controller of `id`, a call raises sources at most. The lowest bit of what is
written to a PENDING register is lost. -/
def LsicOp.OnlyRaises : LsicOp → Prop
  | .write reg value => reg / 8 = id → (reg % 8 = lsicPending0 ∨ reg % 8 = lsicPending1) ∧
      value ≠ 0 ∧ value.getLsbD 0 = false
  | _ => True

instance (src : Nat) : (op : LsicOp) → Decidable (op.Raises present id src)
  | .interruptTargeted _ _ => inferInstanceAs (Decidable (_ ∧ _))
  | .interrupt _ => inferInstanceAs (Decidable (_ ∧ _))
  | .write _ _ => inferInstanceAs (Decidable (_ ∧ _))
  | .read _ => inferInstanceAs (Decidable False)

/-- A call of the others, or the handler has completed a source. -/
inductive LsicEvent where
  | other (op : LsicOp)
  | served (src : Nat)

def LsicEvent.Raises (src : Nat) : LsicEvent → Prop
  | .other op => op.Raises present id src
  | .served _ => False

def LsicEvent.Serves (src : Nat) : LsicEvent → Prop
  | .other _ => False
  | .served src' => src' = src

instance (src : Nat) : (e : LsicEvent) → Decidable (e.Raises present id src)
  | .other op => inferInstanceAs (Decidable (op.Raises present id src))
  | .served _ => inferInstanceAs (Decidable False)

instance (src : Nat) : (e : LsicEvent) → Decidable (e.Serves src)
  | .other _ => inferInstanceAs (Decidable False)
  | .served src' => inferInstanceAs (Decidable (src' = src))

/-- The controllers, what the handler has claimed and not completed, and what has been done. -/
structure LsicService where
  table : LsicTable
  claimed : Option Word
  log : List LsicEvent

/-- A step of the handler of this processor, or of the others. -/
inductive LsicServiceStep (r : LsicService) : LsicService → Prop where
  | others (op : LsicOp) (legal : op.Legal present) (raises : op.OnlyRaises id) :
      LsicServiceStep r
        { r with table := op.step present r.table, log := r.log ++ [.other op] }
  | claim (v : Word) (free : r.claimed = none)
      (read : lsicRead present r.table (8 * id + lsicClaimComplete) = some v) (any : v ≠ 0) :
      LsicServiceStep r { r with claimed := some v }
  | complete (v : Word) (table : LsicTable) (claimed : r.claimed = some v)
      (write : lsicWrite present r.table (8 * id + lsicClaimComplete) v = ⟨table, true⟩) :
      LsicServiceStep r
        { r with table := table, claimed := none, log := r.log ++ [.served v.toNat] }

inductive LsicServiceRun (s₀ : LsicTable) : LsicService → Prop where
  | start : LsicServiceRun s₀ ⟨s₀, none, []⟩
  | step {r r' : LsicService} (run : LsicServiceRun s₀ r) (step : LsicServiceStep present id r r') :
      LsicServiceRun s₀ r'

/-- What the handler has done. -/
structure LsicServes (s₀ : LsicTable) (r : LsicService) : Prop where
  /-- It is always answered. -/
  reads : ∃ v, lsicRead present r.table (8 * id + lsicClaimComplete) = some v
  writes : ∀ v, r.claimed = some v →
    (lsicWrite present r.table (8 * id + lsicClaimComplete) v).success = true
  enabled : ∀ src, .served src ∈ r.log → (s₀ id).Enabled src
  /-- Nothing is served more often than it was raised. -/
  genuine : ∀ src, src < 64 → (r.log.countP fun e => e.Serves src) ≤
    (s₀ id).waiting src + r.log.countP fun e => e.Raises present id src
  /-- When zero is read, everything is served. -/
  done : r.claimed = none →
    lsicRead present r.table (8 * id + lsicClaimComplete) = some 0 →
    (r.table id).interruptPending = false ∧ ∀ src, (s₀ id).Enabled src →
      ((s₀ id).Pending src → .served src ∈ r.log) ∧
      ∀ before e after, r.log = before ++ e :: after → e.Raises present id src →
        .served src ∈ after

section

variable {present : Nat → Bool} {id : Nat} {s s₀ : LsicTable} {op : LsicOp} {src : Nat}
  {r r' : LsicService}

/-! ## The others -/

theorem Lsic.waiting_of {l : Lsic} (h : l.Pending src) : l.waiting src = 1 :=
  congrArg Bool.toNat h

theorem Lsic.waiting_not {l : Lsic} (h : ¬l.Pending src) : l.waiting src = 0 :=
  congrArg Bool.toNat (eq_false_of_ne_true h)

theorem LsicOp.OnlyRaises.spares (h : op.OnlyRaises id) : ¬op.Clears id src := by
  cases op with
  | write reg value =>
      rintro ⟨hid, ⟨hreg, -⟩ | ⟨-, hzero⟩⟩
      · obtain ⟨hpending, -⟩ := h hid
        rw [hreg] at hpending
        revert hpending
        decide
      · exact (h hid).2.1 hzero
  | interruptTargeted id src => exact fun hclears => hclears
  | interrupt src => exact fun hclears => hclears
  | read reg => exact fun hclears => hclears

/-- A source they have raised is pending. -/
theorem LsicOp.OnlyRaises.pending (h : op.OnlyRaises id) (h1 : 1 ≤ src) (hsrc : src < 64)
    (hraises : op.Raises present id src) : (op.step present s id).Pending src := by
  refine (pending_of_raises h1 hsrc hraises).mpr ?_
  rintro ⟨reg, value, rfl⟩ rfl
  obtain ⟨-, hid, -, hbit⟩ := hraises
  rw [(h hid).2.2] at hbit
  cases hbit

/-- A source is not pending unless it was or is raised. -/
theorem pending_arises (hsrc : src < 64) (h : (op.step present s id).Pending src) :
    (s id).Pending src ∨ op.Raises present id src := by
  cases op with
  | interruptTargeted id' src' =>
      simp only [LsicOp.step, lsicInterruptTargeted] at h
      by_cases heq : id = id'
      · subst heq
        rw [Function.update_self, Lsic.refresh_pending, Lsic.raise_pending] at h
        rcases h with hp | hs
        · exact .inl hp
        · exact .inr ⟨rfl, hs.symm⟩
      · rw [Function.update_of_ne heq] at h
        exact .inl h
  | interrupt src' =>
      rcases (interrupt_pending src' _ s id src).mp h with hp | ⟨hmem, hpresent, hs⟩
      · exact .inl hp
      · refine .inr ⟨?_, hs.symm⟩
        unfold lsicExists
        rw [decide_eq_true (List.mem_range.mp hmem), hpresent]
        rfl
  | read reg => exact .inl h
  | write reg value =>
      simp only [LsicOp.step] at h
      rcases lsicWrite_cases s reg value with hfails | ⟨l, hexists, hw, hdone⟩
      · rw [hfails] at h
        exact .inl h
      rw [hdone] at h
      by_cases heq : id = reg / 8
      · subst heq
        simp only [Function.update_self] at h
        rw [Lsic.refresh_pending, writeRegister_pending hw hsrc] at h
        split at h
        · next hreg =>
            rcases h.2 with hp | ⟨hbit, -⟩
            · exact .inl hp
            · exact .inr ⟨hexists, rfl, hreg, hbit⟩
        · split at h
          · exact .inl h.1
          · exact .inl h
      · simp only [Function.update_of_ne heq] at h
        exact .inl h

/-- A register that is not a PENDING register. -/
def NotPending (reg : Nat) : Prop := reg ≠ lsicPending0 ∧ reg ≠ lsicPending1

theorem raise_register {l : Lsic} {reg : Nat} (hsrc : src < 64) (hreg : NotPending reg) :
    (l.raise src).refresh.registers reg = l.registers reg := by
  refine Function.update_of_ne ?_ _ _
  have hhalf : src / 32 = 0 ∨ src / 32 = 1 := by omega
  rcases hhalf with h | h
  · rw [h]
    exact hreg.1
  · rw [h]
    exact hreg.2

/-- They leave the masks and the IPL alone. -/
theorem LsicOp.OnlyRaises.register (h : op.OnlyRaises id) (hlegal : op.Legal present) {reg : Nat}
    (hreg : NotPending reg) : (op.step present s id).registers reg = (s id).registers reg := by
  have htargeted : ∀ (s : LsicTable) (id' src : Nat), src < 64 →
      (lsicInterruptTargeted s id' src id).registers reg = (s id).registers reg := by
    intro s id' src hsrc
    unfold lsicInterruptTargeted
    by_cases heq : id = id'
    · subst heq
      rw [Function.update_self]
      exact raise_register hsrc hreg
    · rw [Function.update_of_ne heq]
  cases op with
  | interruptTargeted id' src => exact htargeted s id' src hlegal.2.2
  | interrupt src =>
      -- One processor after another.
      have hall : ∀ (ids : List Nat) (s : LsicTable), (ids.foldl (fun s id =>
          if present id then lsicInterruptTargeted s id src else s) s id).registers reg =
            (s id).registers reg := by
        intro ids
        induction ids with
        | nil => exact fun s => rfl
        | cons i ids ih =>
            intro s
            rw [List.foldl_cons, ih]
            split
            · exact htargeted s i src hlegal.2
            · rfl
      exact hall _ s
  | read reg => rfl
  | write reg' value =>
      simp only [LsicOp.step]
      rcases lsicWrite_cases s reg' value with hfails | ⟨l, -, hw, hdone⟩
      · rw [hfails]
      rw [hdone]
      by_cases heq : id = reg' / 8
      · subst heq
        obtain ⟨hpending, -⟩ := h rfl
        have hwritten : (s (reg' / 8)).writeRegister (reg' % 8) value =
            ⟨(s (reg' / 8)).writePending (reg' % 8) value, true⟩ := by
          rcases hpending with hp | hp
          · rw [hp]
            rfl
          · rw [hp]
            rfl
        have hne : reg ≠ reg' % 8 := by
          rcases hpending with hp | hp
          · rw [hp]
            exact hreg.1
          · rw [hp]
            exact hreg.2
        obtain ⟨rfl, -⟩ := LsicReply.mk.inj (hwritten.symm.trans hw)
        simp only [Function.update_self]
        rw [Lsic.refresh_registers]
        unfold Lsic.writePending
        split
        · exact Function.update_of_ne hne _ _
        · exact Function.update_of_ne hne _ _
      · simp only [Function.update_of_ne heq]

/-! ## The handler -/

theorem claimComplete_of (id : Nat) : (8 * id + lsicClaimComplete) / 8 = id ∧
    (8 * id + lsicClaimComplete) % 8 = lsicClaimComplete := by
  simp only [lsicClaimComplete]
  omega

/-- Completing a source of this processor. -/
theorem lsicWrite_complete {v : Word} {table : LsicTable}
    (h : lsicWrite present s (8 * id + lsicClaimComplete) v = ⟨table, true⟩) :
    ∃ l, (s id).complete v = ⟨l, true⟩ ∧ table = Function.update s id l.refresh := by
  obtain ⟨hdiv, hmod⟩ := claimComplete_of id
  rcases lsicWrite_cases s (8 * id + lsicClaimComplete) v with hfails | ⟨l, -, hw, hdone⟩
  · rw [hfails] at h
    cases h
  · rw [hdone] at h
    obtain ⟨rfl, -⟩ := LsicReply.mk.inj h
    rw [hdiv, hmod] at hw
    exact ⟨l, hw, by rw [hdiv]⟩

theorem complete_register {l l' : Lsic} {v : Word} (h : l.complete v = ⟨l', true⟩) {reg : Nat}
    (hreg : NotPending reg) : l'.registers reg = l.registers reg := by
  unfold Lsic.complete at h
  split at h
  · cases h
  · next hlt =>
      obtain ⟨rfl, -⟩ := LsicReply.mk.inj h
      refine Function.update_of_ne ?_ _ _
      have hv : v.toNat < 64 := BitVec.lt_def.mp (BitVec.not_le.mp hlt)
      have hhalf : (v >>> 5).toNat = v.toNat / 32 := by
        rw [BitVec.toNat_ushiftRight, Nat.shiftRight_eq_div_pow]
      rw [hhalf]
      unfold NotPending at hreg
      simp only [lsicPending0, lsicPending1] at hreg ⊢
      omega

theorem Lsic.enabled_congr {l l' : Lsic}
    (h : ∀ reg, NotPending reg → l'.registers reg = l.registers reg)
    (hsrc : src < 64) : l'.Enabled src ↔ l.Enabled src := by
  have hmask : l'.registers (lsicMask0 + src / 32) = l.registers (lsicMask0 + src / 32) := by
    apply h
    unfold NotPending
    simp only [lsicMask0, lsicPending0, lsicPending1]
    omega
  unfold Lsic.Enabled Lsic.Masked
  rw [hmask, h lsicIpl (by unfold NotPending; decide)]

/-- What every run keeps. -/
structure LsicServiceInv (present : Nat → Bool) (id : Nat) (s₀ : LsicTable) (r : LsicService) :
    Prop where
  inv : ∀ j, LsicInv (r.table j)
  registers : ∀ reg, NotPending reg → (r.table id).registers reg = (s₀ id).registers reg
  claimed : ∀ v, r.claimed = some v → v.toNat < 64 ∧ (s₀ id).Enabled v.toNat ∧
    (r.table id).Pending v.toNat
  enabled : ∀ src, .served src ∈ r.log → (s₀ id).Enabled src
  count : ∀ src, src < 64 →
    (r.log.countP fun e => e.Serves src) + (r.table id).waiting src ≤
      (s₀ id).waiting src + r.log.countP fun e => e.Raises present id src
  kept : ∀ src, src < 64 → (s₀ id).Pending src →
    (r.table id).Pending src ∨ .served src ∈ r.log
  raised : ∀ src, 1 ≤ src → src < 64 → ∀ before e after, r.log = before ++ e :: after →
    e.Raises present id src → (r.table id).Pending src ∨ .served src ∈ after

theorem LsicServiceInv.others (h : LsicServiceInv present id s₀ r) (hlegal : op.Legal present)
    (hraises : op.OnlyRaises id) :
    LsicServiceInv present id s₀
      { r with table := op.step present r.table, log := r.log ++ [.other op] } := by
  have hstep : ∀ src, src < 64 → (r.table id).Pending src →
      (op.step present r.table id).Pending src :=
    fun src hsrc hp => pending_step hsrc hp hraises.spares
  constructor
  · exact lsicInv_step h.inv hlegal
  · intro reg hreg
    exact (hraises.register hlegal hreg).trans (h.registers reg hreg)
  · intro v hv
    obtain ⟨hlt, henabled, hpending⟩ := h.claimed v hv
    exact ⟨hlt, henabled, hstep _ hlt hpending⟩
  · intro src hsrc
    rcases List.mem_append.mp hsrc with hold | hnew
    · exact h.enabled src hold
    · cases List.mem_singleton.mp hnew
  · intro src hsrc
    have hcount := h.count src hsrc
    rw [List.countP_append, List.countP_append, List.countP_singleton, List.countP_singleton]
    dsimp only
    rw [if_neg (show ¬decide ((LsicEvent.other op).Serves src) = true from
      fun hs => of_decide_eq_true hs)]
    by_cases hafter : (op.step present r.table id).Pending src
    · rw [Lsic.waiting_of hafter]
      rcases pending_arises hsrc hafter with hbefore | hnow
      · rw [Lsic.waiting_of hbefore] at hcount
        omega
      · have hraised : decide ((LsicEvent.other op).Raises present id src) = true :=
          decide_eq_true hnow
        rw [if_pos hraised]
        omega
    · rw [Lsic.waiting_not hafter]
      omega
  · intro src hsrc hp
    rcases h.kept src hsrc hp with hp | hserved
    · exact .inl (hstep src hsrc hp)
    · exact .inr (List.mem_append_left _ hserved)
  · intro src h1 hsrc before e after hlog hraised
    rcases Lists.snoc_split hlog with ⟨-, rfl, rfl⟩ | ⟨rest, rfl, hrest⟩
    · exact .inl (hraises.pending h1 hsrc hraised)
    · rcases h.raised src h1 hsrc before e rest hrest hraised with hp | hserved
      · exact .inl (hstep src hsrc hp)
      · exact .inr (List.mem_append_left _ hserved)

theorem LsicServiceInv.claim (h : LsicServiceInv present id s₀ r)
    (hexists : lsicExists present id = true) {v : Word}
    (hread : lsicRead present r.table (8 * id + lsicClaimComplete) = some v) (hv : v ≠ 0) :
    LsicServiceInv present id s₀ { r with claimed := some v } := by
  refine ⟨h.inv, h.registers, ?_, h.enabled, h.count, h.kept, h.raised⟩
  intro v' hv'
  obtain rfl := Option.some.inj hv'
  have hconsistent := (h.inv id).consistent hexists
  obtain rfl := Option.some.inj (hread.symm.trans hconsistent.reads)
  obtain ⟨h1, hle, hpending, hmasked⟩ := (hconsistent.least hv).1
  have hipl := (h.inv id).ipl
  have hlt := Nat.lt_of_le_of_lt hle hipl
  exact ⟨hlt, (Lsic.enabled_congr h.registers hlt).mp ⟨h1, hle, hmasked⟩, hpending⟩

theorem LsicServiceInv.complete (h : LsicServiceInv present id s₀ r) {v : Word}
    {table : LsicTable} (hclaimed : r.claimed = some v)
    (hwrite : lsicWrite present r.table (8 * id + lsicClaimComplete) v = ⟨table, true⟩) :
    LsicServiceInv present id s₀
      { r with table := table, claimed := none, log := r.log ++ [.served v.toNat] } := by
  obtain ⟨l, hl, rfl⟩ := lsicWrite_complete hwrite
  obtain ⟨hlt, henabled, hpending⟩ := h.claimed v hclaimed
  have hafter : ∀ src, src < 64 → ((Function.update r.table id l.refresh id).Pending src ↔
      (r.table id).Pending src ∧ v.toNat ≠ src) := by
    intro src hsrc
    rw [Function.update_self, Lsic.refresh_pending]
    exact Lsic.complete_pending hl src hsrc
  -- What is pending is what is completed, or stays pending.
  have hcompleted : ∀ src, src < 64 → ∀ rest : List LsicEvent, (r.table id).Pending src →
      (Function.update r.table id l.refresh id).Pending src ∨
        .served src ∈ rest ++ [.served v.toNat] := by
    intro src hsrc rest hp
    by_cases heq : v.toNat = src
    · rw [heq]
      exact .inr (List.mem_append_right _ (List.mem_singleton_self _))
    · exact .inl ((hafter src hsrc).mpr ⟨hp, heq⟩)
  constructor
  · exact lsicInv_update h.inv id ((h.inv id).toLsicLevels.complete hl).refresh
  · intro reg hreg
    dsimp only
    rw [Function.update_self]
    exact (complete_register hl hreg).trans (h.registers reg hreg)
  · exact fun _ => nofun
  · intro src hsrc
    rcases List.mem_append.mp hsrc with hold | hnew
    · exact h.enabled src hold
    · cases List.mem_singleton.mp hnew
      exact henabled
  · intro src hsrc
    have hcount := h.count src hsrc
    rw [List.countP_append, List.countP_append, List.countP_singleton, List.countP_singleton]
    dsimp only
    rw [if_neg (show ¬decide ((LsicEvent.served v.toNat).Raises present id src) = true from
      fun hs => of_decide_eq_true hs), Nat.add_zero]
    by_cases heq : v.toNat = src
    · -- It was pending, and is not now.
      have hserves : decide ((LsicEvent.served v.toNat).Serves src) = true := decide_eq_true heq
      subst heq
      rw [Lsic.waiting_of hpending] at hcount
      rw [Lsic.waiting_not fun hp => ((hafter _ hsrc).mp hp).2 rfl, if_pos hserves]
      exact hcount
    · rw [if_neg (show ¬decide ((LsicEvent.served v.toNat).Serves src) = true from
        fun hs => heq (of_decide_eq_true hs)), Nat.add_zero]
      by_cases hp : (r.table id).Pending src
      · rw [Lsic.waiting_of ((hafter src hsrc).mpr ⟨hp, heq⟩)]
        rw [Lsic.waiting_of hp] at hcount
        exact hcount
      · rw [Lsic.waiting_not fun hp' => hp ((hafter src hsrc).mp hp').1]
        exact Nat.le_of_add_right_le hcount
  · intro src hsrc hp
    rcases h.kept src hsrc hp with hp | hserved
    · exact hcompleted src hsrc r.log hp
    · exact .inr (List.mem_append_left _ hserved)
  · intro src h1 hsrc before e after hlog hraised
    rcases Lists.snoc_split hlog with ⟨-, rfl, rfl⟩ | ⟨rest, rfl, hrest⟩
    · exact hraised.elim
    · rcases h.raised src h1 hsrc before e rest hrest hraised with hp | hserved
      · exact hcompleted src hsrc rest hp
      · exact .inr (List.mem_append_left _ hserved)

theorem LsicServiceRun.inv (hinv : ∀ j, LsicInv (s₀ j)) (hexists : lsicExists present id = true)
    (run : LsicServiceRun present id s₀ r) : LsicServiceInv present id s₀ r := by
  induction run with
  | start =>
      refine ⟨hinv, fun _ _ => rfl, fun _ => nofun, fun _ => nofun, ?_, ?_, ?_⟩
      · intro src _
        exact Nat.le_of_eq (Nat.zero_add _)
      · exact fun src _ hp => .inl hp
      · intro src _ _ before e after hlog
        exact absurd hlog.symm (List.append_ne_nil_of_right_ne_nil _ (List.cons_ne_nil _ _))
  | step run step ih =>
      cases step with
      | others op legal raises => exact ih.others legal raises
      | claim v free read any => exact ih.claim hexists read any
      | complete v table claimed write => exact ih.complete claimed write

end

end Xremu
