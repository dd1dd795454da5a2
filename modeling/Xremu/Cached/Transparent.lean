import Xremu.Cached.Atomic
import Xremu.Lists.Log

/-!
# The caches are transparent

Operations taken one after another, each of them atomic: Dcaches, Scache and
write buffers together behave as one flat memory, as long as no processor is
reset while its write buffer holds a line. The reset is the one thing that loses
data: every other path that takes a line from the write buffer writes it out.
-/

namespace Xremu

open Concurrency XrCachedSys

/-! ## Runs -/

/-- The states a sequence of operations reaches from `s₀`, with what each of them
returned. `ok` restricts the operations. -/
inductive MemRun (ok : XrCachedSys LineRam → XrMemOp → Prop) (s₀ : XrCachedSys LineRam) :
    List (XrMemOp × XrResult) → XrCachedSys LineRam → Prop where
  | nil : MemRun ok s₀ [] s₀
  | snoc {trace s op r s'} : MemRun ok s₀ trace s → op.Legal s₀.mem.present → ok s op →
      op.exec s = some (r, s') → MemRun ok s₀ (trace ++ [(op, r)]) s'

/-- The flat memory after a run. -/
def flatMemory (flat : Nat → Byte) (trace : List (XrMemOp × XrResult)) : Nat → Byte :=
  trace.foldl (fun flat e => e.1.flatAfter flat e.2) flat

section

variable {present populated : Nat → Bool} {flat : Nat → Byte} {s : XrCachedSys LineRam}

/-- An operation that spares the write buffers returns, keeps the invariants, and
agrees with the flat memory. -/
theorem exec_transparent (h : CacheInv present populated s) (ha : Agrees populated flat s)
    {op : XrMemOp} (hl : op.Legal present) (hok : op.Spares s) :
    ∃ r s', op.exec s = some (r, s') ∧ CacheInv present populated s' ∧
      Agrees populated (op.flatAfter flat r) s' ∧
      ∀ p a, op = .access p a → a.read = true → r.1 = .done →
        r.2 = some (zext (fun k => flat (a.address + k)) a.length) := by
  cases op with
  | access p a =>
      obtain ⟨hp, hal⟩ := hl
      obtain ⟨r, s', he, hserved⟩ := exec_access_served h hal hp
      refine ⟨r, s', he, hserved.inv, hserved.agrees hok ha, fun p' a' hop => ?_⟩
      cases hop
      exact hserved.value ha
  | flush p =>
      have hrun := exec_flush_sinks (p := p) h
      exact ⟨_, _, rfl, hrun.inv, hrun.agrees ha, fun _ _ he => nomatch he⟩
  | dcachectrl p value =>
      have hrun := exec_dcachectrl_sinks (p := p) h value
      exact ⟨_, _, rfl, hrun.inv, hrun.agrees ha, fun _ _ he => nomatch he⟩

end

/-- Every load in the trace that returned 1 delivered the zero-extended bytes that
the stores before it left in the flat memory. -/
def FlatReads (flat : Nat → Byte) (trace : List (XrMemOp × XrResult)) : Prop :=
  ∀ before p a r after, trace = before ++ (.access p a, r) :: after → a.read = true →
    r.1 = .done →
    r.2 = some (zext (fun k => flatMemory flat before (a.address + k)) a.length)

theorem ColdStart.agrees {s : XrCachedSys LineRam} (h : ColdStart s) :
    Agrees s.mem.bus.populated s.mem.bus.bytes s :=
  ⟨fun hi => absurd (h.dcache _ _) hi.1, fun _ _ _ _ _ => rfl⟩

/-- One step of a run, seen from the flat memory. -/
theorem MemRun.inv {s₀ s : XrCachedSys LineRam} {trace : List (XrMemOp × XrResult)}
    (hs : ColdStart s₀) (h : MemRun (fun s op => op.Spares s) s₀ trace s) :
    CacheInv s₀.mem.present s₀.mem.bus.populated s ∧
      Agrees s₀.mem.bus.populated (flatMemory s₀.mem.bus.bytes trace) s := by
  induction h with
  | nil => exact ⟨hs.inv, hs.agrees⟩
  | @snoc trace s op r s' _ hl hok he ih =>
      obtain ⟨r', s'', he', hinv, hag, -⟩ := exec_transparent ih.1 ih.2 hl hok
      rw [he] at he'
      cases he'
      refine ⟨hinv, ?_⟩
      simpa [flatMemory] using hag

/-- As long as no processor is reset with lines in its write buffer, caches and
write buffers are one flat memory. -/
theorem caches_transparent {s₀ s : XrCachedSys LineRam} {trace : List (XrMemOp × XrResult)}
    (hs : ColdStart s₀) (h : MemRun (fun s op => op.Spares s) s₀ trace s) :
    FlatReads s₀.mem.bus.bytes trace := by
  induction h with
  | nil =>
      intro before p a r after he
      simp at he
  | @snoc trace s op r s' hrun hl hok he ih =>
      intro before p a r' after htrace hread hdone
      rcases Lists.snoc_split htrace with ⟨rfl, hlast, rfl⟩ | ⟨rest, rfl, hrest⟩
      · -- The load is the last operation.
        obtain ⟨hop, rfl⟩ := Prod.mk.inj hlast
        have hinv := hrun.inv hs
        obtain ⟨r'', s'', he', -, -, hv⟩ := exec_transparent hinv.1 hinv.2 hl hok
        rw [he] at he'
        cases he'
        exact hv p a hop hread hdone
      · exact ih before p a r' rest hrest hread hdone

/-- Processor 1 loads what processor 0 stored. -/
theorem caches_transparent_store_load :
    FlatReads LineRam.zeroed.bytes
      [(.access 0 ⟨0, false, 1, 4, false⟩, .done, none),
        (.access 1 ⟨0, true, 0, 4, false⟩, .done, some 1)] := by
  have hp : ∀ p, p < 2 → (cold 2 LineRam.zeroed).mem.present p = true ∧ p < xrProcMax := by decide
  have hstore : ((xrDcacheAccess 0 ⟨0, false, 1, 4, false⟩ none).run (cold 2 LineRam.zeroed)).1 =
      .inr (.done, none) := by decide
  have hrun : MemRun (fun s op => op.Spares s) (cold 2 LineRam.zeroed)
      [(.access 0 ⟨0, false, 1, 4, false⟩, .done, none)] _ :=
    .snoc .nil ⟨hp 0 (by decide), by decide, by decide⟩ (Or.inl rfl) (XrMemOp.exec_access hstore)
  have hload : ((xrDcacheAccess 1 ⟨0, true, 0, 4, false⟩ none).run
      ((xrDcacheAccess 0 ⟨0, false, 1, 4, false⟩ none).run (cold 2 LineRam.zeroed)).2).1 =
      .inr (.done, some 1) := by decide
  exact caches_transparent (coldStart_cold 2 .zeroed) (MemRun.snoc hrun
    ⟨hp 1 (by decide), by decide, by decide⟩ (Or.inl (by decide)) (XrMemOp.exec_access hload))

/-! ## A reset loses data -/

/-- RAM that answers everywhere but at the line 16. -/
def holeRam : LineRam := ⟨fun t => t ≠ 16, fun _ => 0⟩

/-- Processor 0 stores 1 to address 0, then takes a bus error with `EB = 0`; the
reset forgets the write buffer. Processor 1 loads 0 from address 0. -/
theorem reset_loses_store :
    ¬∀ (s₀ s : XrCachedSys LineRam) (trace : List (XrMemOp × XrResult)), ColdStart s₀ →
      MemRun (fun _ _ => True) s₀ trace s → FlatReads s₀.mem.bus.bytes trace := by
  intro hall
  let s₀ := cold 2 holeRam
  let store : XrAccessReq := ⟨0, false, 1, 4, false⟩
  let hole : XrAccessReq := ⟨16, true, 0, 4, false⟩
  let load : XrAccessReq := ⟨0, true, 0, 4, false⟩
  let s₁ := ((xrDcacheAccess 0 store none).run s₀).2
  let s₂ := ((xrDcacheAccess 0 hole none).run s₁).2
  have h₁ : ((xrDcacheAccess 0 store none).run s₀).1 = .inr (.done, none) := by decide
  have h₂ : ((xrDcacheAccess 0 hole none).run s₁).1 = .inr (.fault, none) := by decide
  have h₃ : ((xrDcacheAccess 1 load none).run s₂).1 = .inr (.done, some 0) := by decide
  have hp : ∀ p, p < 2 → s₀.mem.present p = true ∧ p < xrProcMax := by decide
  have hrun₁ : MemRun (fun _ _ => True) s₀ [(.access 0 store, .done, none)] s₁ :=
    .snoc .nil ⟨hp 0 (by decide), by decide, by decide⟩ trivial (XrMemOp.exec_access h₁)
  have hrun₂ : MemRun (fun _ _ => True) s₀
      [(.access 0 store, .done, none), (.access 0 hole, .fault, none)] s₂ :=
    .snoc hrun₁ ⟨hp 0 (by decide), by decide, by decide⟩ trivial (XrMemOp.exec_access h₂)
  have hrun₃ := MemRun.snoc hrun₂ (show XrMemOp.Legal _ (.access 1 load) from
    ⟨hp 1 (by decide), by decide, by decide⟩) trivial (XrMemOp.exec_access h₃)
  have hbad := hall s₀ _ _ (coldStart_cold 2 holeRam) hrun₃ _ 1 load (.done, some 0) [] rfl rfl rfl
  revert hbad
  decide

end Xremu
