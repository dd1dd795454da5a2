import Mathlib.Logic.Relation
import Xremu.Cached.Build
import Xremu.Cached.WriteOut

/-!
# Runs of the caches

A run takes the caches through everything that touches them: accesses, flushes and
the two invalidation registers, instruction fetch, resets, RAM that changes under the
caches (devices and noncached stores), and whatever the processors do to their own
registers. In every state reached the Dcaches are coherent, and every valid line of an
Icache sits in the set that its address names (`CacheRunInv`).
-/

namespace Xremu

open Concurrency XrCachedSys

/-! ## Runs -/

/-- One thing that happens to the caches. -/
inductive CacheStep (s : XrCachedSys LineRam) : XrCachedSys LineRam → Prop
  | op {o : XrMemOp} {r s'} (legal : o.Legal s.mem.present) (exec : o.exec s = some (r, s')) :
      CacheStep s s'
  | fetch (p : Nat) (address : Word) :
      CacheStep s (s.setMachine p (xrIcacheAccess address (s.machine p)).2)
  | icachectrl (p : Nat) (value : Word) :
      CacheStep s (s.setMachine p (mtcrIcachectrl value (s.machine p)))
  | reset (p : Nat) : CacheStep s (s.setMachine p (xrReset (s.machine p)))
  -- A device writes RAM, or a processor does past its Dcache.
  | ram (bytes : Nat → Byte) :
      CacheStep s { s with mem := { s.mem with bus := { s.mem.bus with bytes := bytes } } }
  -- A processor runs on; `DtbLastResult` and the countdown of its write buffer go with it.
  | core (p : Nat) (upd : XrProcessor → XrProcessor) (hint : Word) (cycles : Nat)
      (id : ∀ x, (upd x).id = x.id) :
      CacheStep s ((onCache p (fun c => { c with dtbLastResult := hint, wbCycles := cycles }) s).setMachine
        p ⟨upd (s.procs p), (onCache p (fun c =>
          { c with dtbLastResult := hint, wbCycles := cycles }) s).mem⟩)

/-- The states that runs reach. -/
abbrev CacheReach (s₀ s : XrCachedSys LineRam) : Prop := Relation.ReflTransGen CacheStep s₀ s

/-! ## The Icaches are left alone -/

section

variable {β : Type}

/-- States and tags of all Icache lines. -/
def icLines (s : XrCachedSys β) (q : Nat) : (Nat → XrLine) × (Nat → Nat) :=
  ((s.cache q).icFlags, (s.cache q).icTags)

/-- No Icache has a line more or less. -/
def IcSame (s s' : XrCachedSys β) : Prop := icLines s' = icLines s

namespace IcSame

variable {s s' s'' : XrCachedSys β}

theorem refl (s : XrCachedSys β) : IcSame s s := rfl

theorem trans (h : IcSame s s') (h' : IcSame s' s'') : IcSame s s'' := Eq.trans h' h

theorem onCache (p : Nat) (f : XrCache → XrCache) (s : XrCachedSys β)
    (hf : ((f (s.cache p)).icFlags, (f (s.cache p)).icTags) = icLines s p) :
    IcSame s (onCache p f s) := by
  funext q
  simp only [icLines, cache_onCache]
  by_cases hq : q = p
  · subst hq
    rw [if_pos rfl]
    exact hf
  · rw [if_neg hq]

/-- An exception may reset the processor, which forgets its write buffer only. -/
theorem of_excepted {p : Nat} {m : Machine (XrCachedMem β)} (h : Excepted (s.machine p) m) :
    IcSame s (s.setMachine p m) := by
  rcases h.mem with hmem | hmem
  · funext q
    simp only [icLines, cache, setMachine, hmem]
    rfl
  · have hreset : IcSame s (XrCachedSys.onCache (s.procs p).id XrCache.reset s) :=
      onCache _ _ s rfl
    rw [IcSame, ← hreset]
    funext q
    simp only [icLines, cache, setMachine, hmem]
    rfl

theorem busError (p address : Nat) (s : XrCachedSys β) : IcSame s (busError p address s) := by
  refine of_excepted (excepted_basic ?_ ?_ ?_ _ _)
  · simp
  · simp
  · simp

variable [EBus β]

theorem clearWb (p tag index wbindex : Nat) (s : XrCachedSys β) :
    IcSame s (XrCachedSys.onCache p (·.clearWb wbindex index) (writeLine p tag index s)) :=
  onCache p _ (writeLine p tag index s) rfl

theorem lower (p tag index : Nat) (f : XrLine) (s : XrCachedSys β) :
    IcSame s (XrCachedSys.onCache p (·.setFlag index f) (forceWriteOut p tag index s)) := by
  have hout : IcSame s (forceWriteOut p tag index s) := by
    unfold XrCachedSys.forceWriteOut
    split
    · exact refl s
    · exact clearWb p tag index _ s
  exact hout.trans (onCache p _ _ rfl)

theorem downgrade (p tag : Nat) (newstate : XrLine) (s : XrCachedSys β) :
    IcSame s (downgrade p tag newstate s) := by
  unfold XrCachedSys.downgrade
  split
  · exact refl s
  · exact lower p tag _ newstate s

theorem replaceLine (p : Nat) (a : XrAccessReq) (s : XrCachedSys β) :
    IcSame s (replaceLine p a s).2 := by
  have hevict : ∀ (t : XrCachedSys β) (index : Nat), IcSame t (evictLine p index t) := by
    intro t index
    unfold evictLine
    split
    · exact refl t
    · exact lower p _ index .invalid t
  have hread : ∀ (t : XrCachedSys β) (tag index : Nat), IcSame t (readLine p tag index t).2 := by
    intro t tag index
    unfold readLine
    extract_lets r
    split
    · rfl
    · exact onCache p _ (busDone p r t) rfl
  have hnext : IcSame s (nextReplacement p s) := onCache p _ s rfl
  have hroom : IcSame s (makeRoom p a s) := hnext.trans (hevict _ _)
  have hset : IcSame s _ := hroom.trans
    (onCache p (·.setLine (replacedLine s p a) a.newstate a.tag) _ rfl)
  exact hset.trans (hread _ _ _)

/-! ### The programs -/

theorem allowsDowngrades : AllowsDowngrades (IcSame : XrCachedSys β → XrCachedSys β → Prop) where
  refl := refl
  downgrade q tag newstate s := downgrade q tag newstate s

theorem flushEntries (p : Nat) (entries : List Nat) :
    (flushEntries p entries : XrCode β Unit).Keeps IcSame := by
  induction entries with
  | nil => exact Prog.keeps_pure ()
  | cons i is ih =>
      refine Prog.keeps_bind (Prog.keeps_get refl) fun s => ?_
      split
      · exact ih
      · refine Prog.keeps_bind (Prog.keeps_acquire _) fun _ => ?_
        refine Prog.keeps_bind (Prog.keeps_get refl) fun s => ?_
        split
        · exact Prog.keeps_bind (Prog.keeps_release _) fun _ => ih
        · refine Prog.keeps_bind (Prog.keeps_modify fun s => ?_) fun _ => ?_
          · exact clearWb p _ _ _ s
          · exact Prog.keeps_bind (Prog.keeps_release _) fun _ => ih

theorem claimScacheEntry (p : Nat) (a : XrAccessReq) :
    (claimScacheEntry p a : XrCode β Nat).Keeps IcSame := by
  refine Prog.keeps_bind ?_ fun found => ?_
  · refine Prog.keeps_bind (Prog.keeps_get refl) fun s => ?_
    split
    · exact Prog.keeps_pure _
    · refine Prog.keeps_bind (Prog.keeps_modify fun s => rfl) fun _ => ?_
      refine Prog.keeps_bind (allowsDowngrades.stealScacheEntry _) fun _ => ?_
      exact Prog.keeps_bind (Prog.keeps_modify fun s => rfl) fun _ => Prog.keeps_pure _
  · split
    · exact Prog.keeps_pure _
    · refine Prog.keeps_bind (allowsDowngrades.downgradeHolders _ a) fun _ => ?_
      exact Prog.keeps_bind (Prog.keeps_modify fun s => rfl) fun _ => Prog.keeps_pure _

theorem dcacheMissed (p freewbindex : Nat) (a : XrAccessReq) :
    (dcacheMissed p freewbindex a : XrCode β (Option Nat ⊕ XrResult)).Keeps IcSame := by
  unfold Xremu.dcacheMissed
  split
  · exact Prog.keeps_pure _
  refine Prog.keeps_bind (Prog.keeps_acquire _) fun _ => ?_
  refine Prog.keeps_bind (claimScacheEntry p a) fun scacheindex => ?_
  refine Prog.keeps_bind (Prog.keeps_acquire _) fun _ => ?_
  refine Prog.keeps_bind (fun s => ⟨replaceLine p a s, trivial⟩) fun line => ?_
  split
  · refine Prog.keeps_bind (Prog.keeps_modify fun s => ?_) fun _ => ?_
    · exact onCache p _ (onScache _ s) rfl
    refine Prog.keeps_bind (Prog.keeps_release _) fun _ => ?_
    refine Prog.keeps_bind (Prog.keeps_release _) fun _ => ?_
    exact Prog.keeps_bind (Prog.keeps_modify (busError p a.address)) fun _ => Prog.keeps_pure _
  · refine Prog.keeps_bind (Prog.keeps_release _) fun _ => ?_
    split
    · refine Prog.keeps_bind (Prog.keeps_get refl) fun s => ?_
      exact Prog.keeps_bind (Prog.keeps_release _) fun _ => Prog.keeps_pure _
    · refine Prog.keeps_bind (Prog.keeps_modify fun s => ?_) fun _ => ?_
      · exact onCache p _ s rfl
      · exact Prog.keeps_bind (Prog.keeps_release _) fun _ => Prog.keeps_pure _

theorem dcacheUpgrade (p freewbindex index : Nat) (a : XrAccessReq) :
    (dcacheUpgrade p freewbindex index a : XrCode β (Option Nat ⊕ XrResult)).Keeps IcSame := by
  refine Prog.keeps_bind (Prog.keeps_acquire _) fun _ => ?_
  refine Prog.keeps_bind (Prog.keeps_get refl) fun s => ?_
  split
  · exact Prog.keeps_bind (Prog.keeps_release _) fun _ => Prog.keeps_pure _
  · split
    · exact Prog.keeps_bind (Prog.keeps_modify fun s => rfl) fun _ => Prog.keeps_pure _
    · refine Prog.keeps_bind (allowsDowngrades.downgradeOthers p _ a) fun _ => ?_
      refine Prog.keeps_bind (Prog.keeps_modify fun s => ?_) fun _ => ?_
      · have hmade : ∀ j, IcSame s (makeExclusive p index j s) :=
          fun j => onCache p _ (onScache (XrScache.setState j p .exclusive) s) rfl
        exact (hmade _).trans (onCache p _ _ rfl)
      · exact Prog.keeps_bind (Prog.keeps_release _) fun _ => Prog.keeps_pure _

theorem dcacheLookup (p freewbindex : Nat) (a : XrAccessReq) :
    (dcacheLookup p freewbindex a : XrCode β (Option Nat ⊕ XrResult)).Keeps IcSame := by
  refine Prog.keeps_bind (Prog.keeps_get refl) fun s => ?_
  split
  · split
    · exact Prog.keeps_pure _
    · split
      · refine Prog.keeps_bind (Prog.keeps_modify fun s => ?_) fun _ => ?_
        · exact onCache p _ s rfl
        · exact Prog.keeps_bind (Prog.keeps_release _) fun _ => Prog.keeps_pure _
      · exact Prog.keeps_bind (Prog.keeps_release _) fun _ => dcacheUpgrade p freewbindex _ a
  · split
    · exact dcacheMissed p freewbindex a
    · exact Prog.keeps_bind (Prog.keeps_release _) fun _ => dcacheMissed p freewbindex a

/-- Nothing that `XrDcacheAccess` does reaches an Icache. -/
theorem xrDcacheAccess (p : Nat) (a : XrAccessReq) (freewbindex : Option Nat) :
    (xrDcacheAccess p a freewbindex : XrCode β (Option Nat ⊕ XrResult)).Keeps IcSame := by
  unfold Xremu.xrDcacheAccess
  split
  · exact dcacheLookup p 0 a
  refine Prog.keeps_bind (Prog.keeps_acquire _) fun _ => ?_
  refine Prog.keeps_bind (Prog.keeps_get refl) fun s => ?_
  split
  · refine Prog.keeps_bind (Prog.keeps_modify fun s => ?_) fun _ => ?_
    · exact onCache p _ s rfl
    · exact Prog.keeps_bind (Prog.keeps_release _) fun _ => Prog.keeps_pure _
  · refine Prog.keeps_bind (Prog.keeps_release _) fun _ => ?_
    exact Prog.keeps_bind (flushEntries p xrWbEntries) fun _ => Prog.keeps_pure _
  · refine Prog.keeps_bind (Prog.keeps_modify fun s => ?_) fun _ => ?_
    · exact onCache p _ s rfl
    · exact dcacheLookup p _ a

omit [EBus β] in
theorem run {α : Type} {x : XrCode β α} (h : x.Keeps IcSame) (s : XrCachedSys β) :
    IcSame s (x.run s).2 :=
  h.run refl (fun _ _ _ => trans) s

end IcSame

end

/-! ## What holds in every state of a run -/

/-- Every valid line of an Icache sits in the set that its address names. -/
def IcPlaced (s : XrCachedSys LineRam) : Prop :=
  ∀ p i, (s.cache p).icFlags i ≠ .invalid → (s.cache p).icTags i / 16 % 1024 = i / 2

/-- The invariant of a run. -/
structure CacheRunInv (s : XrCachedSys LineRam) : Prop where
  inv : CacheInv s.mem.present s.mem.bus.populated s
  icache : IcPlaced s

section

variable {s s' : XrCachedSys LineRam} {p : Nat}

theorem IcSame.placed (h : IcSame s s') (hs : IcPlaced s) : IcPlaced s' := by
  intro p i hi
  have hp := congrFun h p
  have hflags : (s'.cache p).icFlags = (s.cache p).icFlags := congrArg Prod.fst hp
  have htags : (s'.cache p).icTags = (s.cache p).icTags := congrArg Prod.snd hp
  rw [hflags] at hi
  rw [htags]
  exact hs p i hi

theorem CacheInv.self {present populated : Nat → Bool} (h : CacheInv present populated s) :
    CacheInv s.mem.present s.mem.bus.populated s := by
  rw [h.plant.table, h.plant.ram]
  exact h

theorem coldStart_run (n : Nat) (ram : LineRam) : CacheRunInv (cold n ram) where
  inv := (coldStart_cold n ram).inv
  icache _ _ hi := absurd rfl hi

/-- An operation on the Dcaches keeps the invariant. -/
theorem CacheInv.exec {present populated : Nat → Bool} (h : CacheInv present populated s)
    {o : XrMemOp} (hl : o.Legal present) {r : XrResult} (he : o.exec s = some (r, s')) :
    CacheInv present populated s' := by
  cases o with
  | access p a =>
      obtain ⟨r', s'', he', hserved⟩ := exec_access_served h hl.2 hl.1
      rw [he] at he'
      cases he'
      exact hserved.inv
  | flush p =>
      cases he
      exact (exec_flush_sinks h).inv
  | dcachectrl p value =>
      cases he
      exact (exec_dcachectrl_sinks h value).inv

/-- And it leaves the Icaches alone. -/
theorem IcSame.exec {o : XrMemOp} {r : XrResult} (he : o.exec s = some (r, s')) : IcSame s s' := by
  cases o with
  | access p a =>
      exact runLoop_keeps (fun _ => IcSame.xrDcacheAccess p a _) .refl (fun _ _ _ => .trans) he
  | flush p =>
      cases he
      exact IcSame.run (IcSame.flushEntries p xrWbEntries) s
  | dcachectrl p value =>
      cases he
      have hcode : (mtcrDcachectrl p value : XrCode LineRam Unit).Keeps IcSame := by
        refine Prog.keeps_bind (IcSame.flushEntries p xrWbEntries) fun _ => ?_
        exact Prog.keeps_modify fun s => IcSame.onCache p _ s rfl
      exact IcSame.run hcode s

/-- Local code of `p` that the lines do not show. -/
theorem CacheInv.onCache_same {present populated : Nat → Bool} (h : CacheInv present populated s)
    {f : XrCache → XrCache} (hl : (onCache p f s).lines = s.lines) :
    CacheInv present populated (onCache p f s) :=
  ⟨h.plant.onCache p f, by rw [hl]; exact h.lines⟩

/-! ### Instruction fetch -/

theorem onCache_onCache (p : Nat) (f g : XrCache → XrCache) (s : XrCachedSys LineRam) :
    onCache p f (onCache p g s) = onCache p (fun c => f (g c)) s := by
  simp [onCache, XrCachedMem.setCache]

theorem setMachine_onIcache {m : Machine (XrCachedMem LineRam)} (hid : m.proc.id = p)
    (f : XrCache → XrCache) (s : XrCachedSys LineRam) :
    s.setMachine p (onIcache f m) = onCache p f (s.setMachine p m) := by
  simp [setMachine, onIcache, onCache, hid]

/-- Reading RAM leaves RAM and processor as they are. -/
theorem icBusDone_read (m : Machine (XrCachedMem LineRam)) (address length : Nat) :
    icBusDone (EBus.read m.mem.bus m.proc address length) m = m := rfl

/-- The Icache of `p` after a miss on the line of `tag`. -/
def icMissed (p tag : Nat) (reply : Option (Nat → Byte)) (s : XrCachedSys LineRam) :
    XrCachedSys LineRam :=
  onCache p (fun c => icFill (icReplaced (s.cache p) tag) tag reply
    { c with icReplacementIndex := c.icReplacementIndex + 1 }) s

/-- A fetch hits, or fills the line it replaces, or takes a bus error after it. -/
theorem xrIcacheAccess_moves (hid : (s.procs p).id = p) (address : Word) :
    (∃ line, xrIcacheAccess address (s.machine p) = (some line, s.machine p)) ∨
      ∃ reply, (∃ line, xrIcacheAccess address (s.machine p) =
          (some line, (icMissed p (xrLineTag address.toNat) reply s).machine p)) ∨
        ∃ m, xrIcacheAccess address (s.machine p) = (none, m) ∧
          Raises ((icMissed p (xrLineTag address.toNat) reply s).machine p) m := by
  have hproc : (s.machine p).proc.id = p := hid
  unfold xrIcacheAccess
  extract_lets c
  split
  · exact .inl ⟨_, rfl⟩
  right
  unfold icacheMiss
  extract_lets tag index m₁ reply m₂ m₃
  have hm₂ : s.setMachine p m₂ = icMissed p tag reply.reply s := by
    have hid₁ : m₁.proc.id = p := hid
    have hindex : index = icReplaced (s.cache p) tag := congrArg (icReplaced · tag)
      (congrArg s.mem.caches hid)
    simp only [m₂, reply, icBusDone_read]
    rw [setMachine_onIcache hid₁, setMachine_onIcache hproc, setMachine_self, onCache_onCache,
      hindex]
    rfl
  have hmachine : (icMissed p tag reply.reply s).machine p = m₂ := by
    rw [← hm₂, machine_setMachine]
  refine ⟨reply.reply, ?_⟩
  split
  · refine .inr ⟨_, rfl, ?_⟩
    rw [hmachine]
    exact .address address excBus _ (by decide)
  · exact .inl ⟨_, by rw [hmachine]⟩

theorem setMachine_icMissed (p tag : Nat) (reply : Option (Nat → Byte)) (s : XrCachedSys LineRam)
    (m : Machine (XrCachedMem LineRam)) :
    (icMissed p tag reply s).setMachine p m = s.setMachine p m := rfl

/-- The same, of the states before and after the fetch. -/
theorem xrIcacheAccess_cases (hid : (s.procs p).id = p) (address : Word) :
    (s.setMachine p (xrIcacheAccess address (s.machine p)).2 = s) ∨
      ∃ reply m, s.setMachine p (xrIcacheAccess address (s.machine p)).2 =
          (icMissed p (xrLineTag address.toNat) reply s).setMachine p m ∧
        ((m = (icMissed p (xrLineTag address.toNat) reply s).machine p) ∨
          (xrIcacheAccess address (s.machine p)).1 = none ∧
          Excepted ((icMissed p (xrLineTag address.toNat) reply s).machine p) m ∧
          ((s.procs p).cr crEb ≠ 0 → m.mem = (icMissed p (xrLineTag address.toNat) reply s).mem)) := by
  rcases xrIcacheAccess_moves hid address with ⟨line, hhit⟩ | ⟨reply, ⟨line, hfill⟩ | ⟨m, hfault, hraises⟩⟩
  · rw [hhit]
    exact .inl (setMachine_self s p)
  · rw [hfill]
    exact .inr ⟨reply, _, rfl, .inl rfl⟩
  · rw [hfault]
    exact .inr ⟨reply, m, rfl, .inr ⟨rfl, hraises.excepts, fun heb => hraises.mem heb⟩⟩

theorem lines_icMissed (p tag : Nat) (reply : Option (Nat → Byte)) (s : XrCachedSys LineRam) :
    (icMissed p tag reply s).lines = s.lines := by
  refine lines_onCache_same ⟨?_, ?_, ?_, ?_⟩
  all_goals cases reply <;> rfl

/-- The line a fetch brings in is put into its set. -/
theorem placed_icMissed (h : IcPlaced s) (p tag : Nat) (reply : Option (Nat → Byte)) :
    IcPlaced (icMissed p tag reply s) := by
  intro q i
  simp only [icMissed, cache_onCache]
  by_cases hq : q = p
  · subst hq
    rw [if_pos rfl]
    by_cases hi : i = icReplaced (s.cache q) tag
    · subst hi
      cases reply with
      | none => simp [icFill]
      | some bytes =>
          intro _
          simp only [icFill, Function.update_self, icReplaced]
          omega
    · cases reply with
      | none => simpa [icFill, hi] using h q i
      | some bytes => simpa [icFill, hi] using h q i
  · rw [if_neg hq]
    exact h q i

theorem CacheInv.fetch {present populated : Nat → Bool} (h : CacheInv present populated s)
    (p : Nat) (address : Word) :
    CacheInv present populated (s.setMachine p (xrIcacheAccess address (s.machine p)).2) := by
  rcases xrIcacheAccess_cases (h.plant.ids p) address with hit | ⟨reply, m, hmiss, hm⟩
  · rwa [hit]
  have hmissed := h.onCache_same (lines_icMissed p (xrLineTag address.toNat) reply s)
  rw [hmiss]
  rcases hm with rfl | ⟨-, hm, -⟩
  · rw [setMachine_self]
    exact hmissed
  · exact (excepted_setMachine hmissed hm).1

theorem IcPlaced.fetch (h : IcPlaced s) (hid : (s.procs p).id = p) (address : Word) :
    IcPlaced (s.setMachine p (xrIcacheAccess address (s.machine p)).2) := by
  rcases xrIcacheAccess_cases hid address with hit | ⟨reply, m, hmiss, hm⟩
  · rwa [hit]
  have hmissed := placed_icMissed h p (xrLineTag address.toNat) reply
  rw [hmiss]
  rcases hm with rfl | ⟨-, hm, -⟩
  · rwa [setMachine_self]
  · exact (IcSame.of_excepted hm).placed hmissed

theorem lines_icachectrl (p : Nat) (value : Word) (s : XrCachedSys LineRam) :
    (onCache p (fun c => { c with
      icFlags := fun i => if icachectrlLines value c i then .invalid else c.icFlags i }) s).lines =
      s.lines :=
  lines_onCache_same ⟨rfl, rfl, rfl, rfl⟩

/-! ### Runs -/

theorem CacheInv.core {present populated : Nat → Bool} (h : CacheInv present populated s) (p : Nat)
    {upd : XrProcessor → XrProcessor} (hint : Word) (cycles : Nat) (id : ∀ x, (upd x).id = x.id) :
    CacheInv present populated
      ((onCache p (fun c => { c with dtbLastResult := hint, wbCycles := cycles }) s).setMachine
        p ⟨upd (s.procs p), (onCache p (fun c =>
          { c with dtbLastResult := hint, wbCycles := cycles }) s).mem⟩) := by
  have hcore := h.onCache_same (p := p)
    (f := fun c => { c with dtbLastResult := hint, wbCycles := cycles })
    (lines_onCache_same ⟨rfl, rfl, rfl, rfl⟩)
  exact hcore.of_mem (ids_setMachine hcore (id (s.procs p))) rfl

theorem CacheInv.step {present populated : Nat → Bool} (h : CacheInv present populated s)
    (hstep : CacheStep s s') : CacheInv present populated s' := by
  cases hstep with
  | op legal exec =>
      rw [h.plant.table] at legal
      exact h.exec legal exec
  | fetch p address => exact h.fetch p address
  | icachectrl p value =>
      have hid : (s.machine p).proc.id = p := h.plant.ids p
      rw [mtcrIcachectrl, setMachine_onIcache hid, setMachine_self]
      exact h.onCache_same (lines_icachectrl p value s)
  | reset p =>
      have hm : Excepted (s.machine p) (xrReset (s.machine p)) := ⟨rfl, .inr rfl, .inr rfl⟩
      exact (excepted_setMachine h hm).1
  | ram bytes => exact ⟨⟨h.plant.ids, h.plant.table, h.plant.ram, h.plant.running⟩, h.lines⟩
  | core p upd hint cycles id => exact h.core p hint cycles id

theorem IcPlaced.step (h : IcPlaced s) (hids : ∀ p, (s.procs p).id = p) (hstep : CacheStep s s') :
    IcPlaced s' := by
  cases hstep with
  | op legal exec => exact (IcSame.exec exec).placed h
  | fetch p address => exact h.fetch (hids p) address
  | icachectrl p value =>
      have hid : (s.machine p).proc.id = p := hids p
      rw [mtcrIcachectrl, setMachine_onIcache hid, setMachine_self]
      intro q i
      rw [cache_onCache]
      by_cases hq : q = p
      · subst hq
        rw [if_pos rfl]
        simp only
        split
        · exact fun hne => absurd rfl hne
        · exact h q i
      · rw [if_neg hq]
        exact h q i
  | reset p =>
      have hm : Excepted (s.machine p) (xrReset (s.machine p)) := ⟨rfl, .inr rfl, .inr rfl⟩
      exact (IcSame.of_excepted hm).placed h
  | ram bytes => exact h
  | core p upd hint cycles id =>
      have hsame : IcSame s (onCache p (fun c =>
          { c with dtbLastResult := hint, wbCycles := cycles }) s) := IcSame.onCache p _ s rfl
      exact hsame.placed h

theorem CacheRunInv.step (h : CacheRunInv s) (hstep : CacheStep s s') : CacheRunInv s' :=
  ⟨(h.inv.step hstep).self, h.icache.step h.inv.plant.ids hstep⟩

theorem CacheReach.inv {n : Nat} {ram : LineRam} (h : CacheReach (cold n ram) s) : CacheRunInv s := by
  induction h with
  | refl => exact coldStart_run n ram
  | tail _ hstep ih => exact ih.step hstep

end

end Xremu
