import Xremu.Cached.Access
import Xremu.Lists.Log

/-!
# Load-linked and store-conditional on the caches

An SC needs `Locked`, which only a return from exception clears, and its line
valid in the Dcache. What breaks the reservation is therefore the invalidation
of the line by the store of another processor, and what mends it again is any
access of the processor's own that brings the line back. The run lemma below is
that a processor has a line only if it fetched it after the last store of
another processor to that line; the law of LL/SC follows for every run in which
no SC is executed on a line fetched back in between.
-/

namespace Xremu

open Concurrency XrCachedSys

/-! ## Runs of loads, stores, LL and SC -/

inductive XrLlScOp where
  | load (p : Nat) (address : Word) (length : Nat)
  | store (p : Nat) (address value : Word) (length : Nat)
  | ll (p : Nat) (address : Word)
  | sc (p : Nat) (address value : Word)

namespace XrLlScOp

def proc : XrLlScOp → Nat
  | .load p _ _ | .store p _ _ _ | .ll p _ | .sc p _ _ => p

def kind : XrLlScOp → XrMemKind
  | .load .. => .load
  | .store .. => .store
  | .ll .. => .ll
  | .sc .. => .sc

/-- The access the operation makes. -/
def req : XrLlScOp → XrMemReq
  | .load _ address length => ⟨address, true, 0, length, false⟩
  | .store _ address value length => ⟨address, false, value, length, false⟩
  | .ll _ address => ⟨address, true, 0, 4, false⟩
  | .sc _ address value => ⟨address, false, value, 4, true⟩

def exec : XrLlScOp → XrCachedSys LineRam → Option (XrResult × XrCachedSys LineRam)
  | .load p address length, s => xrAccess p ⟨address, true, 0, length, false⟩ s
  | .store p address value length, s => xrAccess p ⟨address, false, value, length, false⟩ s
  | .ll p address, s => xrExecuteLL p address s
  | .sc p address value, s => xrExecuteSC p address value s

/-- Where the access goes, if it gets an address. -/
def target (op : XrLlScOp) (s : XrCachedSys LineRam) : Option (Word × BitVec 64) :=
  (accessAddress (s.machine op.proc) op.req).1

/-- The physical address of the access. -/
def physAddress (op : XrLlScOp) (s : XrCachedSys LineRam) : Nat :=
  match op.target s with
  | some (address, _) => address.toNat
  | none => 0

/-- By a processor that exists, on cached memory, of a length the instructions have. -/
structure Legal (present : Nat → Bool) (s : XrCachedSys LineRam) (op : XrLlScOp) : Prop where
  proc : present op.proc = true ∧ op.proc < xrProcMax
  length : op.req.length = 1 ∨ op.req.length = 2 ∨ op.req.length = 4
  cached : ∀ address flags, op.target s = some (address, flags) → flags &&& pteNoncached = 0

end XrLlScOp

def XrLlScOp.event (op : XrLlScOp) (s : XrCachedSys LineRam) (r : XrResult) : XrMemEvent :=
  ⟨op.proc, op.kind, op.physAddress s, r.1⟩

/-- The states an interleaving reaches, with what was executed. Between its accesses
a processor may do anything to its registers, `Locked` included. -/
inductive LlScRun (ok : List XrMemEvent → XrCachedSys LineRam → XrLlScOp → Prop)
    (s₀ : XrCachedSys LineRam) : List XrMemEvent → XrCachedSys LineRam → Prop where
  | nil : LlScRun ok s₀ [] s₀
  | core {trace s} (p : Nat) (proc : XrProcessor) : LlScRun ok s₀ trace s → proc.id = p →
      LlScRun ok s₀ trace { s with procs := Function.update s.procs p proc }
  | access {trace s op r s'} : LlScRun ok s₀ trace s → op.Legal s₀.mem.present s →
      ok trace s op → op.exec s = some (r, s') → LlScRun ok s₀ (trace ++ [op.event s r]) s'

/-! ## What the cached build keeps -/

/-- An access of `p` that leaves the line in its Dcache. -/
def XrMemEvent.Fetches (e : XrMemEvent) (p line : Nat) : Prop :=
  e.proc = p ∧ e.kind ≠ .sc ∧ e.status = .done ∧ e.address / 16 = line

/-- `p` has fetched the line since the last store of another processor into it. -/
def Fetched (trace : List XrMemEvent) (p line : Nat) : Prop :=
  ∃ before e after, trace = before ++ e :: after ∧ e.Fetches p line ∧
    ∀ x ∈ after, x.Stores → x.address / 16 = line → x.proc = p

/-- An SC on a word that another processor has stored into since the LL: its
processor has not fetched the line again, or has lost it or its lock meanwhile. -/
def SparesLl (trace : List XrMemEvent) (s : XrCachedSys LineRam) (op : XrLlScOp) : Prop :=
  op.kind = .sc → op.target s ≠ none → StoredSinceLl trace op.proc (op.physAddress s / 4) →
    Fetched trace op.proc (op.physAddress s / 16) →
    (s.procs op.proc).locked = false ∨
      ∀ i, ¬s.lines.Has op.proc i (xrLineTag (op.physAddress s))

/-! ## One access -/

section

variable {present populated : Nat → Bool} {s : XrCachedSys LineRam} {p : Nat} {r : XrMemReq}

/-- An access of `p` that found the physical address `out` (or none) and took `s` to
`s'`. -/
structure Accessed (present populated : Nat → Bool) (p : Nat) (r : XrMemReq)
    (target : Option (Word × BitVec 64)) (out : XrResult) (s s' : XrCachedSys LineRam) : Prop where
  inv : CacheInv present populated s'
  found : out.1 = .done → target ≠ none
  fetched : ∀ {q i t}, s'.lines.Has q i t → (∃ j, s.lines.Has q j t) ∨
    (out.1 = .done ∧ q = p ∧ r.sc = false ∧ ∃ a f, target = some (a, f) ∧ t = xrLineTag a.toNat)
  alone : r.read = false → out.1 = .done → ∀ {a f q i}, target = some (a, f) →
    s'.lines.Has q i (xrLineTag a.toNat) → q = p
  sc : r.sc = true → ∀ {a f}, target = some (a, f) →
    (out.1 = .done ↔ ∃ i, s.lines.Has p i (xrLineTag a.toNat))

theorem xrAccess_accessed (h : CacheInv present populated s)
    (hp : present p = true ∧ p < xrProcMax)
    (hlen : r.length = 1 ∨ r.length = 2 ∨ r.length = 4)
    (hcached : ∀ address flags, (accessAddress (s.machine p) r).1 = some (address, flags) →
      flags &&& pteNoncached = 0) {out : XrResult} {s' : XrCachedSys LineRam}
    (he : xrAccess p r s = some (out, s')) :
    Accessed present populated p r (accessAddress (s.machine p) r).1 out s s' := by
  unfold xrAccess at he
  cases hm : accessAddress (s.machine p) r with
  | mk target m =>
      rw [hm] at he hcached
      cases target with
      | none =>
          obtain ⟨rfl, rfl⟩ := Prod.mk.inj (Option.some.inj he)
          obtain ⟨hinv, hfalls⟩ := accessAddress_none h hm
          refine ⟨hinv, by simp, fun {q i t} hi => Or.inl ⟨i, hfalls.has hi⟩, by simp, ?_⟩
          intro hsc a f hnone
          cases hnone
      | some t =>
          obtain ⟨address, flags⟩ := t
          have hflags := hcached address flags rfl
          simp only [hflags, ne_eq, not_true_eq_false, if_false] at he
          obtain ⟨hinv, hlines, hal⟩ := accessAddress_some h hlen hm
          obtain ⟨out', s'', he', hs⟩ := exec_access_served hinv hal hp
          rw [he] at he'
          obtain ⟨rfl, rfl⟩ := Prod.mk.inj (Option.some.inj he')
          refine ⟨hs.inv, by simp, fun {q i t} hi => ?_, ?_, ?_⟩
          · rcases hs.fetched hi with ⟨j, hj⟩ | ⟨hd, hq, ht, hsc⟩
            · rw [hlines] at hj
              exact Or.inl ⟨j, hj⟩
            · exact Or.inr ⟨hd, hq, hsc, address, flags, rfl, ht⟩
          · intro hread hd a f q i ha hi
            cases ha
            exact hs.alone hread hd hi
          · intro hsc a f ha
            cases ha
            have hiff := hs.sc hsc
            rwa [hlines] at hiff

end

/-- What an operation of a run does, in terms of its event. -/
structure Executed (present populated : Nat → Bool) (op : XrLlScOp) (r : XrResult)
    (s s' : XrCachedSys LineRam) : Prop where
  inv : CacheInv present populated s'
  fetched : ∀ {q i t}, s'.lines.Has q i t →
    (∃ j, s.lines.Has q j t) ∨ (op.event s r).Fetches q (t / 16)
  alone : (op.event s r).Stores → ∀ {q i t}, s'.lines.Has q i t →
    t / 16 = (op.event s r).address / 16 → q = op.proc
  sc : op.kind = .sc → (r.1 = .done ↔ op.target s ≠ none ∧ (s.procs op.proc).locked = true ∧
    ∃ i, s.lines.Has op.proc i (xrLineTag (op.physAddress s)))

theorem XrLlScOp.kind_sc (op : XrLlScOp) : op.kind = .sc ↔ op.req.sc = true := by
  cases op <;> simp [XrLlScOp.kind, XrLlScOp.req]

theorem XrLlScOp.read_of_stores (op : XrLlScOp) (h : op.kind = .store ∨ op.kind = .sc) :
    op.req.read = false := by
  cases op <;> simp [XrLlScOp.kind, XrLlScOp.req] at h ⊢

section

variable {present populated : Nat → Bool} {s s' : XrCachedSys LineRam} {op : XrLlScOp}
  {r : XrResult}

/-- The access of an operation, seen from the run. -/
theorem Accessed.executed
    (ha : Accessed present populated op.proc op.req (op.target s) r s s')
    (hlocked : op.kind = .sc → (s.procs op.proc).locked = true) :
    Executed present populated op r s s' := by
  have hphys : ∀ {a f}, op.target s = some (a, f) → op.physAddress s = a.toNat := by
    intro a f ht
    simp [XrLlScOp.physAddress, ht]
  have htag : ∀ a : Nat, xrLineTag a / 16 = a / 16 := by
    intro a
    simp only [xrLineTag]
    omega
  refine ⟨ha.inv, fun {q i t} hi => ?_, fun hst {q i t} hi ht => ?_, fun hsc => ?_⟩
  · rcases ha.fetched hi with hold | ⟨hd, rfl, hsc, a, f, ht, rfl⟩
    · exact Or.inl hold
    · refine Or.inr ⟨rfl, ?_, hd, ?_⟩
      · intro hk
        rw [op.kind_sc.mp hk] at hsc
        cases hsc
      · rw [htag]
        exact congrArg (· / 16) (hphys ht)
  · have hread := op.read_of_stores hst.1
    obtain ⟨⟨a, f⟩, hta⟩ := Option.ne_none_iff_exists'.mp (ha.found hst.2)
    refine ha.alone hread hst.2 hta (i := i) ?_
    -- Lines of the same number are one line.
    have hal := (ha.inv.lines.placed hi).2
    have hline : t / 16 = a.toNat / 16 := by
      rw [ht]
      exact congrArg (· / 16) (hphys hta)
    have : t = xrLineTag a.toNat := by
      simp only [xrLineTag]
      omega
    rwa [← this]
  · constructor
    · intro hd
      have hne := ha.found hd
      obtain ⟨⟨a, f⟩, hta⟩ := Option.ne_none_iff_exists'.mp hne
      refine ⟨hne, hlocked hsc, ?_⟩
      rw [hphys hta]
      exact (ha.sc (op.kind_sc.mp hsc) hta).mp hd
    · rintro ⟨hne, -, hi⟩
      obtain ⟨⟨a, f⟩, hta⟩ := Option.ne_none_iff_exists'.mp hne
      rw [hphys hta] at hi
      exact (ha.sc (op.kind_sc.mp hsc) hta).mpr hi

/-- Setting `Locked` is no memory access. -/
theorem Executed.setLocked (h : Executed present populated op r s s') (p : Nat) :
    Executed present populated op r s (setLocked p s') := by
  have hl : (Xremu.setLocked p s').lines = s'.lines := lines_of_mem rfl
  refine ⟨h.inv.of_mem (fun q => ?_) rfl, fun hi => ?_, fun hst {q i t} hi => ?_, h.sc⟩
  · by_cases hq : q = p
    · subst hq
      simpa [Xremu.setLocked] using h.inv.plant.ids q
    · simpa [Xremu.setLocked, hq] using h.inv.plant.ids q
  · rw [hl] at hi
    exact h.fetched hi
  · rw [hl] at hi
    exact h.alone hst hi

theorem exec_executed (h : CacheInv present populated s) (hl : op.Legal present s)
    (he : op.exec s = some (r, s')) : Executed present populated op r s s' := by
  have hacc : ∀ {out s''}, xrAccess op.proc op.req s = some (out, s'') →
      Accessed present populated op.proc op.req (op.target s) out s s'' :=
    fun hx => xrAccess_accessed h hl.proc hl.length hl.cached hx
  cases op with
  | load p address length => exact (hacc he).executed (by simp [XrLlScOp.kind])
  | store p address value length => exact (hacc he).executed (by simp [XrLlScOp.kind])
  | ll p address =>
      simp only [XrLlScOp.exec, xrExecuteLL] at he
      split at he
      · next value s₁ hx =>
          obtain ⟨rfl, rfl⟩ := Prod.mk.inj (Option.some.inj he)
          exact ((hacc hx).executed (by simp [XrLlScOp.kind])).setLocked p
      · exact (hacc he).executed (by simp [XrLlScOp.kind])
  | sc p address value =>
      simp only [XrLlScOp.exec, xrExecuteSC] at he
      split at he
      · next hlocked => exact (hacc he).executed fun _ => hlocked
      · obtain ⟨rfl, rfl⟩ := Prod.mk.inj (Option.some.inj he)
        next hlocked =>
        refine ⟨h, fun {_ i _} hi => Or.inl ⟨i, hi⟩, fun hst => ?_, fun _ => ⟨fun hd => ?_, ?_⟩⟩
        · cases hst.2
        · cases hd
        · rintro ⟨-, hl', -⟩
          exact absurd hl' hlocked

end

/-! ## Every run -/

section

variable {ok : List XrMemEvent → XrCachedSys LineRam → XrLlScOp → Prop}
  {s₀ s : XrCachedSys LineRam} {trace : List XrMemEvent}

/-- What was fetched stays fetched, unless another processor stores into the line. -/
theorem Fetched.snoc {p line : Nat} (h : Fetched trace p line) {e : XrMemEvent}
    (he : e.Stores → e.address / 16 = line → e.proc = p) : Fetched (trace ++ [e]) p line := by
  obtain ⟨before, x, after, rfl, hx, hafter⟩ := h
  refine ⟨before, x, after ++ [e], by simp, hx, fun y hy => ?_⟩
  rcases List.mem_append.mp hy with hy | hy
  · exact hafter y hy
  · obtain rfl := List.mem_singleton.mp hy
    exact he

/-- A processor has only lines that it has fetched since the last store of another
processor into them. -/
theorem LlScRun.fetched (hs : ColdStart s₀) (h : LlScRun ok s₀ trace s) :
    CacheInv s₀.mem.present s₀.mem.bus.populated s ∧
      ∀ q i t, s.lines.Has q i t → Fetched trace q (t / 16) := by
  induction h with
  | nil => exact ⟨hs.inv, fun q i t hi => absurd (hs.dcache q i) hi.1⟩
  | @core trace s p proc _ hid ih =>
      refine ⟨ih.1.of_mem (fun q => ?_) rfl, ih.2⟩
      by_cases hq : q = p
      · subst hq
        simpa using hid
      · simpa [hq] using ih.1.plant.ids q
  | @access trace s op r s' _ hl _ he ih =>
      obtain ⟨hinv, hold⟩ := ih
      have hex := exec_executed hinv hl he
      refine ⟨hex.inv, fun q i t hi => ?_⟩
      rcases hex.fetched hi with ⟨j, hj⟩ | hnew
      · exact (hold q j t hj).snoc fun hst hline => (hex.alone hst hi hline.symm).symm
      · exact ⟨trace, op.event s r, [], rfl, hnew, by simp⟩

/-- An SC that another processor's store should have broken succeeds exactly when its
line was fetched back. -/
theorem sc_lawful_iff (hs : ColdStart s₀) (h : LlScRun ok s₀ trace s) {op : XrLlScOp}
    {r : XrResult} {s' : XrCachedSys LineRam} (hl : op.Legal s₀.mem.present s)
    (hk : op.kind = .sc) (he : op.exec s = some (r, s')) :
    (r.1 = .done → ¬StoredSinceLl trace op.proc (op.physAddress s / 4)) ↔
      SparesLl trace s op := by
  obtain ⟨hinv, hfetched⟩ := h.fetched hs
  have hsc := (exec_executed hinv hl he).sc hk
  constructor
  · intro hlaw _ htarget hst _
    by_contra hbad
    obtain ⟨hlocked, hi⟩ := not_or.mp hbad
    exact hlaw (hsc.mpr ⟨htarget, by simpa using hlocked, by simpa using hi⟩) hst
  · intro hspares hd hst
    obtain ⟨htarget, hlocked, i, hi⟩ := hsc.mp hd
    have hf := hfetched _ i _ hi
    have hline : xrLineTag (op.physAddress s) / 16 = op.physAddress s / 16 := by
      simp only [xrLineTag]
      omega
    rw [hline] at hf
    rcases hspares hk htarget hst hf with hfree | hlost
    · rw [hlocked] at hfree
      cases hfree
    · exact hlost i hi

/-- Load-linked and store-conditional keep their law in every run in which no SC is
executed on a line that was fetched back after the store of another processor. -/
theorem llSc_law (hs : ColdStart s₀) (h : LlScRun SparesLl s₀ trace s) : LlScLaw trace := by
  induction h with
  | nil =>
      intro before e after he
      simp at he
  | core _ _ _ _ ih => exact ih
  | @access trace s op r s' hrun hl hok he ih =>
      intro before e after htrace hk hd
      rcases Lists.snoc_split htrace with ⟨rfl, rfl, rfl⟩ | ⟨rest, rfl, hrest⟩
      · -- The SC is the last operation.
        exact (sc_lawful_iff hs hrun hl hk he).mpr hok hd
      · exact ih before e rest hrest hk hd

end

/-! ## The reservation that was mended -/

/-- An access with the MMU off, below the noncached addresses. -/
theorem xrAccess_direct {p : Nat} {r : XrMemReq} {s : XrCachedSys LineRam} {out : XrResult}
    (hal : r.address &&& (BitVec.ofNat 32 r.length - 1) = 0)
    (hmmu : (s.machine p).proc.rs &&& rsMmu = 0) (hlow : ¬xrNoncachedPhysBase ≤ r.address)
    (hrun : ((xrDcacheAccess p (r.at r.address) none).run s).1 = .inr out) :
    (accessAddress (s.machine p) r).1 = some (r.address, 0) ∧
      xrAccess p r s = some (out, ((xrDcacheAccess p (r.at r.address) none).run s).2) := by
  have haddr : accessAddress (s.machine p) r = (some (r.address, 0), s.machine p) := by
    rw [accessAddress, if_neg (not_not.mpr hal), if_neg (not_not.mpr hmmu), if_neg hlow]
  refine ⟨by rw [haddr], ?_⟩
  simp only [xrAccess, haddr, setMachine_self]
  rw [if_neg (by simp)]
  exact XrMemOp.exec_access hrun

/-- One step of a run with the MMU off. -/
theorem LlScRun.direct {ok : List XrMemEvent → XrCachedSys LineRam → XrLlScOp → Prop}
    {s₀ s : XrCachedSys LineRam} {trace : List XrMemEvent} (op : XrLlScOp) (out : XrResult)
    (h : LlScRun ok s₀ trace s) (hp : s₀.mem.present op.proc = true ∧ op.proc < xrProcMax)
    (hlen : op.req.length = 1 ∨ op.req.length = 2 ∨ op.req.length = 4) (hok : ok trace s op)
    (hal : op.req.address &&& (BitVec.ofNat 32 op.req.length - 1) = 0)
    (hmmu : (s.machine op.proc).proc.rs &&& rsMmu = 0)
    (hlow : ¬xrNoncachedPhysBase ≤ op.req.address)
    (hrun : ((xrDcacheAccess op.proc (op.req.at op.req.address) none).run s).1 = .inr (.done, out.2))
    (hlocked : op.kind = .sc → (s.procs op.proc).locked = true) :
    LlScRun ok s₀ (trace ++ [⟨op.proc, op.kind, op.req.address.toNat, .done⟩])
      (if op.kind = .ll then
        setLocked op.proc ((xrDcacheAccess op.proc (op.req.at op.req.address) none).run s).2
      else ((xrDcacheAccess op.proc (op.req.at op.req.address) none).run s).2) := by
  obtain ⟨htarget, hacc⟩ := xrAccess_direct hal hmmu hlow hrun
  have hlegal : op.Legal s₀.mem.present s := by
    refine ⟨hp, hlen, fun a f ht => ?_⟩
    rw [XrLlScOp.target, htarget] at ht
    cases ht
    rfl
  have hphys : op.physAddress s = op.req.address.toNat := by
    rw [XrLlScOp.physAddress, XrLlScOp.target, htarget]
  have hevent : op.event s (.done, out.2) = ⟨op.proc, op.kind, op.req.address.toNat, .done⟩ := by
    rw [XrLlScOp.event, hphys]
  rw [← hevent]
  refine LlScRun.access h hlegal hok ?_
  cases op with
  | load p address length => exact hacc
  | store p address value length => exact hacc
  | ll p address =>
      simp only [XrLlScOp.proc, XrLlScOp.req, XrLlScOp.kind, if_true] at hacc ⊢
      simp only [XrLlScOp.exec, xrExecuteLL, hacc]
  | sc p address value =>
      have hl : (s.procs p).locked = true := hlocked rfl
      simp only [XrLlScOp.exec, xrExecuteSC]
      rw [if_pos hl]
      exact hacc

/-- An LL and an SC with nobody in between. -/
theorem llSc_law_pair : LlScLaw [⟨0, .ll, 0, .done⟩, ⟨0, .sc, 0, .done⟩] := by
  let s₀ := cold 2 LineRam.zeroed
  let s₁ := setLocked 0 ((xrDcacheAccess 0 ⟨0, true, 0, 4, false⟩ none).run s₀).2
  have hp : s₀.mem.present 0 = true ∧ 0 < xrProcMax := by decide
  have h₁ : LlScRun SparesLl s₀ [⟨0, .ll, 0, .done⟩] s₁ :=
    LlScRun.direct (.ll 0 0) (.done, some 0) .nil hp (by decide)
      (fun hk => absurd hk (by decide)) (by decide) (by decide) (by decide) (by decide)
      (by decide)
  have hok : SparesLl [⟨0, .ll, 0, .done⟩] s₁ (.sc 0 0 1) := by
    rintro - - ⟨before, l, after, htrace, -, -, x, hx, hq, -⟩ -
    -- There is only the processor's own LL.
    have hmem : x ∈ [(⟨0, .ll, 0, .done⟩ : XrMemEvent)] := by
      rw [htrace]
      simp [hx]
    obtain rfl := List.mem_singleton.mp hmem
    exact absurd rfl hq
  exact llSc_law (coldStart_cold 2 .zeroed) (LlScRun.direct (.sc 0 0 1) (.done, none) h₁ hp
    (by decide) hok (by decide) (by decide) (by decide) (by decide)
    (fun _ => by decide))

/-- Processor 0 has loaded word 0 again after processor 1 stored into it; its SC
succeeds all the same. -/
theorem refetch_mends_reservation :
    ¬∀ (s₀ s : XrCachedSys LineRam) (trace : List XrMemEvent), ColdStart s₀ →
      LlScRun (fun _ _ _ => True) s₀ trace s → LlScLaw trace := by
  intro hall
  let s₀ := cold 2 LineRam.zeroed
  let s₁ := setLocked 0 ((xrDcacheAccess 0 ⟨0, true, 0, 4, false⟩ none).run s₀).2
  let s₂ := ((xrDcacheAccess 1 ⟨0, false, 7, 4, false⟩ none).run s₁).2
  let s₃ := ((xrDcacheAccess 0 ⟨0, true, 0, 4, false⟩ none).run s₂).2
  have hp : ∀ p, p < 2 → s₀.mem.present p = true ∧ p < xrProcMax := by decide
  have h₁ : LlScRun (fun _ _ _ => True) s₀ [⟨0, .ll, 0, .done⟩] s₁ :=
    LlScRun.direct (.ll 0 0) (.done, some 0) .nil (hp 0 (by decide)) (by decide)
      trivial (by decide) (by decide) (by decide) (by decide) (by decide)
  have h₂ : LlScRun (fun _ _ _ => True) s₀ [⟨0, .ll, 0, .done⟩, ⟨1, .store, 0, .done⟩] s₂ :=
    LlScRun.direct (.store 1 0 7 4) (.done, none) h₁ (hp 1 (by decide)) (by decide)
      trivial (by decide) (by decide) (by decide) (by decide) (by decide)
  have h₃ : LlScRun (fun _ _ _ => True) s₀
      [⟨0, .ll, 0, .done⟩, ⟨1, .store, 0, .done⟩, ⟨0, .load, 0, .done⟩] s₃ :=
    LlScRun.direct (.load 0 0 4) (.done, some 7) h₂ (hp 0 (by decide)) (by decide)
      trivial (by decide) (by decide) (by decide) (by decide) (by decide)
  have h₄ := LlScRun.direct (.sc 0 0 1) (.done, none) h₃ (hp 0 (by decide))
    (by decide) trivial (by decide) (by decide) (by decide) (by decide)
    (fun _ => by decide)
  refine hall s₀ _ _ (coldStart_cold 2 .zeroed) h₄ _ ⟨0, .sc, 0, .done⟩ [] rfl rfl rfl ?_
  refine ⟨[], ⟨0, .ll, 0, .done⟩, [⟨1, .store, 0, .done⟩, ⟨0, .load, 0, .done⟩], rfl, ?_, ?_, ?_⟩
  · exact ⟨rfl, rfl, rfl, rfl⟩
  · intro x hx hll
    simp only [List.mem_cons, List.not_mem_nil, or_false] at hx
    rcases hx with rfl | rfl
    · exact absurd hll.2.1 (by decide)
    · exact absurd hll.2.1 (by decide)
  · exact ⟨⟨1, .store, 0, .done⟩, by simp, by decide, ⟨Or.inl rfl, rfl⟩, rfl⟩

end Xremu
