import Xremu.Fast.Access
import Xremu.Lists.Log

/-!
# Load-linked and store-conditional on the claim tables

An LL through a host pointer claims the entries of its address, and takes them
from whoever had them; an SC through a host pointer stores only with the claim.
Nothing else touches the tables: not a plain store, and not an LL or SC with the
MMU off, which goes to the bus. So a processor has a claim only if it has made it
since the last SC of another processor on the same entries (the run lemma), and
the law of LL/SC holds exactly where that is enough.
-/

namespace Xremu

open Concurrency XrFastMem

/-! ## Runs -/

inductive XrFastOp where
  | load (p block : Nat) (address : Word) (length : Nat)
  | store (p block : Nat) (address value : Word) (length : Nat)
  | ll (p block : Nat) (address : Word)
  | sc (p block : Nat) (address value : Word)

namespace XrFastOp

def proc : XrFastOp → Nat
  | .load p _ _ _ | .store p _ _ _ _ | .ll p _ _ | .sc p _ _ _ => p

/-- The block the instruction is in. -/
def block : XrFastOp → Nat
  | .load _ b _ _ | .store _ b _ _ _ | .ll _ b _ | .sc _ b _ _ => b

def kind : XrFastOp → XrMemKind
  | .load .. => .load
  | .store .. => .store
  | .ll .. => .ll
  | .sc .. => .sc

/-- The access the operation makes. -/
def req : XrFastOp → XrMemReq
  | .load _ _ address length => ⟨address, true, 0, length, false⟩
  | .store _ _ address value length => ⟨address, false, value, length, false⟩
  | .ll _ _ address => ⟨address, true, 0, 4, true⟩
  | .sc _ _ address value => ⟨address, false, value, 4, true⟩

variable {β : Type} [EBusHost β]

/-- The access itself. -/
def access (op : XrFastOp) (m : Machine (XrFastMem β)) : XrResult × Machine (XrFastMem β) :=
  if op.req.read then xrAccessRead m op.block op.req else xrAccessWrite m op.block op.req

/-- The memory side of the instruction: `XrExecuteLL` sets `Locked` when its load
is done, and `XrExecuteSC` does nothing when `Locked` is clear. -/
def exec (op : XrFastOp) (s : XrFastSys β) : XrResult × XrFastSys β :=
  match op.kind with
  | .ll =>
      let r := op.access (s.machine op.proc)
      let m := if r.1.1 = .done then { r.2 with proc := { r.2.proc with locked := true } } else r.2
      (r.1, s.setMachine op.proc m)
  | .sc =>
      if (s.procs op.proc).locked then
        let r := op.access (s.machine op.proc)
        (r.1, s.setMachine op.proc r.2)
      else ((.scFailed, none), s)
  | _ =>
      let r := op.access (s.machine op.proc)
      (r.1, s.setMachine op.proc r.2)

/-- Where the access goes, and the address it claims if it goes there through a
host pointer. -/
def target (op : XrFastOp) (m : Machine (XrFastMem β)) : Option (Word × Option Word) :=
  if op.req.address &&& (BitVec.ofNat 32 op.req.length - 1) ≠ 0 then none
  else if m.proc.rs &&& rsMmu ≠ 0 then
    (dataTarget m op.block op.req.address (!op.req.read)).1.map fun e =>
      (e.goes op.req.address, e.hostPointer.map fun _ => e.phys op.req.address)
  else some (op.req.address, none)

end XrFastOp

/-- An event of the fast build: with the address it claims, if it goes through a
host pointer. -/
structure XrFastEvent extends XrMemEvent where
  claim : Option Word
deriving DecidableEq

namespace XrFastEvent

/-- The event concerns these entries of the claim tables. -/
def On (e : XrFastEvent) (i j : Nat) : Prop :=
  ∃ c, e.claim = some c ∧ xrL1ClaimIndex c = i ∧ xrL2ClaimIndex c = j

/-- A completed LL of `p` that claims these entries. -/
def Claims (e : XrFastEvent) (p i j : Nat) : Prop :=
  e.proc = p ∧ e.kind = .ll ∧ e.status = .done ∧ e.On i j

end XrFastEvent

section

variable {β : Type} [EBusHost β]

def XrFastOp.event (op : XrFastOp) (s : XrFastSys β) (r : XrResult) : XrFastEvent where
  proc := op.proc
  kind := op.kind
  address := ((op.target (s.machine op.proc)).map fun t => t.1.toNat).getD 0
  status := r.1
  claim := (op.target (s.machine op.proc)).bind (·.2)

/-- The states an interleaving reaches, with what was executed. Between its accesses
a processor may do anything to its registers and to what it remembers of pages. -/
inductive FastRun (ok : List XrFastEvent → XrFastSys β → XrFastOp → Prop) (s₀ : XrFastSys β) :
    List XrFastEvent → XrFastSys β → Prop where
  | nil : FastRun ok s₀ [] s₀
  | core {trace s} (p : Nat) (proc : XrProcessor) (fast : XrFast) : FastRun ok s₀ trace s →
      proc.id = p → fast.l1ClaimTable = (s.mem.fast p).l1ClaimTable →
      FastRun ok s₀ trace ⟨Function.update s.procs p proc, s.mem.setFast p fast⟩
  | access {trace s op} : FastRun ok s₀ trace s → ok trace s op →
      FastRun ok s₀ (trace ++ [op.event s (op.exec s).1]) (op.exec s).2

end

/-- No claim is made yet. -/
structure ClaimStart {β : Type} (s : XrFastSys β) : Prop where
  ids : ∀ p, (s.procs p).id = p
  l1 : ∀ p i, s.mem.l1 p i = none
  l2 : ∀ j, s.mem.l2ClaimTable j = none

/-! ## What the fast build keeps -/

/-- The events without their claims. -/
def memEvents (trace : List XrFastEvent) : List XrMemEvent := trace.map (·.toXrMemEvent)

/-- `p` has claimed these entries since the last SC of another processor on them. -/
def HasClaimed (trace : List XrFastEvent) (p i j : Nat) : Prop :=
  ∃ before e after, trace = before ++ e :: after ∧ e.Claims p i j ∧
    ∀ x ∈ after, x.kind = .sc → x.status = .done → x.On i j → x.proc = p

/-- An SC on a word that another processor has stored into since the LL: `Locked` is
clear, or the SC goes through a host pointer and its processor has not claimed the
entries again since the last SC of another processor on them, or has lost them. -/
def SparesClaim {β : Type} [EBusHost β] (trace : List XrFastEvent) (s : XrFastSys β)
    (op : XrFastOp) : Prop :=
  op.kind = .sc → (s.procs op.proc).locked = true →
    ∀ a claim, op.target (s.machine op.proc) = some (a, claim) →
      StoredSinceLl (memEvents trace) op.proc (a.toNat / 4) →
      ∃ c, claim = some c ∧
        (HasClaimed trace op.proc (xrL1ClaimIndex c) (xrL2ClaimIndex c) →
          s.mem.l1 op.proc (xrL1ClaimIndex c) ≠ some (xrL2ClaimIndex c))

/-! ## One access -/

/-- The claims are as they were. -/
structure SameClaims {β : Type} (m m' : XrFastMem β) : Prop where
  l1 : ∀ q k, m'.l1 q k = m.l1 q k
  l2 : m'.l2ClaimTable = m.l2ClaimTable

/-- An access of this processor that moved no claim. -/
structure Unclaimed {β : Type} (m m' : Machine (XrFastMem β)) : Prop where
  id : m'.proc.id = m.proc.id
  claims : SameClaims m.mem m'.mem

section

variable {β : Type}

theorem SameClaims.refl (m : XrFastMem β) : SameClaims m m := ⟨fun _ _ => rfl, rfl⟩

theorem SameClaims.of_eq {m m' : XrFastMem β} (h : m' = m) : SameClaims m m' := by
  subst h
  exact .refl m'

theorem SameClaims.trans {m m' m'' : XrFastMem β} (h : SameClaims m m') (h' : SameClaims m' m'') :
    SameClaims m m'' :=
  ⟨fun q k => (h'.l1 q k).trans (h.l1 q k), h'.l2.trans h.l2⟩

theorem SameClaims.inv {m m' : XrFastMem β} (h : SameClaims m m') (hi : ClaimInv m) :
    ClaimInv m' := by
  intro p i j
  rw [h.l1, h.l2]
  exact hi p i j

theorem sameClaims_setFast (m : XrFastMem β) (p : Nat) (f : XrFast)
    (hf : f.l1ClaimTable = (m.fast p).l1ClaimTable) : SameClaims m (m.setFast p f) := by
  refine ⟨fun q k => ?_, rfl⟩
  by_cases hq : q = p
  · subst hq
    simp [l1, setFast, hf]
  · simp [l1, setFast, hq]

theorem sameClaims_setSlot (m : XrFastMem β) (p block index : Nat) (writing : Bool)
    (e : XrIblockDtbEntry) : SameClaims m (m.setSlot p block index writing e) := by
  unfold setSlot
  split
  · exact sameClaims_setFast m p _ rfl
  · exact sameClaims_setFast m p _ rfl

theorem Unclaimed.refl (m : Machine (XrFastMem β)) : Unclaimed m m := ⟨rfl, .refl m.mem⟩

theorem Unclaimed.trans {m m' m'' : Machine (XrFastMem β)} (h : Unclaimed m m')
    (h' : Unclaimed m' m'') : Unclaimed m m'' :=
  ⟨h'.id.trans h.id, h.claims.trans h'.claims⟩

/-- No exception touches the claims: `XrReset` leaves them alone. -/
theorem Excepted.unclaimed {m m' : Machine (XrFastMem β)} (h : Excepted m m') : Unclaimed m m' :=
  ⟨h.id, .of_eq (h.mem.elim (fun hm => hm) fun hm => hm)⟩

theorem unclaimed_busReply {α : Type} (m : Machine (XrFastMem β)) (r : EBusReply β α) :
    Unclaimed m (busReply m r) :=
  ⟨rfl, fun _ _ => rfl, rfl⟩

theorem unclaimed_directBusError (m : Machine (XrFastMem β)) (address : Word) :
    Unclaimed m (directBusError m address) := by
  refine Excepted.unclaimed (excepted_basic ?_ ?_ ?_ _ _)
  · simp
  · simp
  · simp

/-- What an access did to the claims, and what they did to it. `claim` is the address
it claims. -/
structure ClaimStep (op : XrFastOp) (claim : Option Word) (m : Machine (XrFastMem β))
    (r : XrResult) (m' : Machine (XrFastMem β)) : Prop where
  id : m'.proc.id = m.proc.id
  moved : SameClaims m.mem m'.mem ∨ (op.kind = .ll ∧ r.1 = .done ∧ ∃ c, claim = some c ∧
    GivesClaim m.proc.id (xrL1ClaimIndex c) (xrL2ClaimIndex c) m.mem m'.mem)
  stored : op.kind = .sc → ∀ c, claim = some c → (r.1 = .done ↔
    m.mem.l1 m.proc.id (xrL1ClaimIndex c) = some (xrL2ClaimIndex c))

/-- A step after one that moved no claim. -/
theorem ClaimStep.after {op : XrFastOp} {claim : Option Word} {m m₁ m' : Machine (XrFastMem β)}
    {r : XrResult} (h : ClaimStep op claim m₁ r m') (hu : Unclaimed m m₁) :
    ClaimStep op claim m r m' := by
  refine ⟨h.id.trans hu.id, ?_, fun hk c hc => ?_⟩
  · rcases h.moved with hs | ⟨hk, hd, c, hc, hg⟩
    · exact Or.inl (hu.claims.trans hs)
    · refine Or.inr ⟨hk, hd, c, hc, hg.inv, fun q k => ?_⟩
      rw [hg.l1, hu.claims.l1, hu.id]
  · rw [h.stored hk c hc, hu.claims.l1, hu.id]

variable [EBusHost β]

theorem unclaimed_translateDstream {m m' : Machine (XrFastMem β)} {virtual : Word}
    {writing : Bool} {out : Option XrIblockDtbEntry}
    (h : xrTranslateDstream m virtual writing = (out, m')) : Unclaimed m m' := by
  cases translatesDstream h with
  | remembered hint ok => exact .refl m
  | refused hint fault => exact (excepted_take _ m virtual writing).unclaimed
  | missed other scan => exact (excepted_tbMiss _ _ _ virtual writing m).unclaimed
  | denied other scan fault => exact (excepted_take _ m virtual writing).unclaimed
  | found other scan ok => exact ⟨rfl, sameClaims_setFast m.mem m.proc.id _ rfl⟩

theorem unclaimed_dataTarget (m : Machine (XrFastMem β)) (block : Nat) (virtual : Word)
    (writing : Bool) : Unclaimed m (dataTarget m block virtual writing).2 := by
  cases hout : dataTarget m block virtual writing with
  | mk out m' =>
      cases findsTarget hout with
      | slot valid => exact .refl m
      | faulted translate => exact unclaimed_translateDstream translate
      | @translated e m₁ translate =>
          have hd := unclaimed_translateDstream translate
          exact ⟨hd.id, hd.claims.trans (sameClaims_setSlot m₁.mem _ _ _ _ _)⟩

theorem unclaimed_directWrite (m : Machine (XrFastMem β)) (address : Word) (r : XrMemReq) :
    Unclaimed m (directWrite m address r).2 := by
  unfold directWrite
  simp only
  split
  · exact unclaimed_busReply m _
  · exact (unclaimed_busReply m _).trans (unclaimed_directBusError _ address)

theorem unclaimed_directRead (m : Machine (XrFastMem β)) (address : Word) (r : XrMemReq) :
    Unclaimed m (directRead m address r).2 := by
  unfold directRead
  simp only
  split
  · exact unclaimed_busReply m _
  · exact (unclaimed_busReply m _).trans (unclaimed_directBusError _ address)

theorem XrFastOp.kind_cases (op : XrFastOp) :
    (op.req.read = true ∧ (op.kind = .ll ↔ op.req.sc = true) ∧ op.kind ≠ .sc) ∨
      (op.req.read = false ∧ (op.kind = .sc ↔ op.req.sc = true) ∧ op.kind ≠ .ll) := by
  cases op <;> simp [XrFastOp.kind, XrFastOp.req]

/-- A load from the page of an entry. -/
theorem claimStep_readTarget {op : XrFastOp} {m : Machine (XrFastMem β)} (h : ClaimInv m.mem)
    (hll : op.kind = .ll ↔ op.req.sc = true) (hsc : op.kind ≠ .sc) (e : XrIblockDtbEntry) :
    ClaimStep op (e.hostPointer.map fun _ => e.phys op.req.address) m
      (readTarget m e op.req).1 (readTarget m e op.req).2 := by
  have hplain : ∀ {r m'}, Unclaimed m m' →
      ClaimStep op (e.hostPointer.map fun _ => e.phys op.req.address) m r m' :=
    fun hu => ⟨hu.id, Or.inl hu.claims, fun hk => absurd hk hsc⟩
  unfold readTarget
  split
  · exact hplain (unclaimed_directRead m _ op.req)
  · next page hpage =>
      simp only
      split
      · next hreq =>
          refine ⟨rfl, Or.inr ⟨hll.mpr hreq, rfl, e.phys op.req.address, ?_, ?_⟩,
            fun hk => absurd hk hsc⟩
          · rw [hpage]
            rfl
          · exact run_xrClaimAddress h m.proc.id _ _
      · exact hplain (.refl m)

/-- A store to the page of an entry. -/
theorem claimStep_writeTarget {op : XrFastOp} (m : Machine (XrFastMem β))
    (hsc : op.kind = .sc ↔ op.req.sc = true) (e : XrIblockDtbEntry) :
    ClaimStep op (e.hostPointer.map fun _ => e.phys op.req.address) m
      (writeTarget m e op.req).1 (writeTarget m e op.req).2 := by
  unfold writeTarget
  split
  · next hnone =>
      have hu := unclaimed_directWrite m (e.phys op.req.address) op.req
      refine ⟨hu.id, Or.inl hu.claims, fun _ c hc => ?_⟩
      rw [hnone] at hc
      cases hc
  · next page hpage =>
      simp only
      split
      · have hrun := run_xrStoreIfClaimed m.mem m.proc.id (e.phys op.req.address)
          (e.goes op.req.address).toNat op.req.srcvalue
        refine ⟨rfl, Or.inl ⟨fun q k => ?_, hrun.2.2⟩, fun _ c hc => ?_⟩
        · simp only [l1, hrun.2.1]
        · rw [hpage] at hc
          obtain rfl := Option.some.inj hc
          rw [← hrun.1]
          split
          · next hstored => simp [hstored]
          · next hstored => simp [hstored]
      · next hreq =>
          exact ⟨rfl, Or.inl ⟨fun _ _ => rfl, rfl⟩, fun hk => absurd (hsc.mp hk) hreq⟩

theorem access_claimStep {m : Machine (XrFastMem β)} (h : ClaimInv m.mem) (op : XrFastOp) :
    ClaimStep op ((op.target m).bind (·.2)) m (op.access m).1 (op.access m).2 := by
  have hnone : ∀ {r m'}, Unclaimed m m' → ClaimStep op none m r m' :=
    fun hu => ⟨hu.id, Or.inl hu.claims, fun _ _ hc => absurd hc (by simp)⟩
  have hunaligned : Unclaimed m (unaligned m op.req.address) := by
    refine Excepted.unclaimed (excepted_basic ?_ ?_ ?_ _ _)
    · simp
    · simp
    · simp
  unfold XrFastOp.access XrFastOp.target
  rcases op.kind_cases with ⟨hread, hll, hsc⟩ | ⟨hread, hsc, -⟩
  · simp only [hread, if_true, xrAccessRead]
    split
    · exact hnone hunaligned
    · split
      · have hd := unclaimed_dataTarget m op.block op.req.address false
        simp only [Bool.not_true]
        generalize dataTarget m op.block op.req.address false = out at hd
        obtain ⟨e, m'⟩ := out
        cases e with
        | none => exact hnone hd
        | some e => exact (claimStep_readTarget (hd.claims.inv h) hll hsc e).after hd
      · exact hnone (unclaimed_directRead m _ op.req)
  · simp only [hread, Bool.false_eq_true, if_false, xrAccessWrite]
    split
    · exact hnone hunaligned
    · split
      · have hd := unclaimed_dataTarget m op.block op.req.address true
        simp only [Bool.not_false]
        generalize dataTarget m op.block op.req.address true = out at hd
        obtain ⟨e, m'⟩ := out
        cases e with
        | none => exact hnone hd
        | some e => exact (claimStep_writeTarget m' hsc e).after hd
      · exact hnone (unclaimed_directWrite m _ op.req)

/-! ## Every run -/

/-- What an operation of a run does, in terms of its event. -/
structure FastExecuted (op : XrFastOp) (r : XrResult) (s s' : XrFastSys β) : Prop where
  ids : ∀ q, (s'.procs q).id = q
  inv : ClaimInv s'.mem
  moved : SameClaims s.mem s'.mem ∨ ∃ i j, (op.event s r).Claims op.proc i j ∧
    GivesClaim op.proc i j s.mem s'.mem
  locked : op.kind = .sc → r.1 = .done → (s.procs op.proc).locked = true
  stored : op.kind = .sc → (s.procs op.proc).locked = true →
    ∀ c, (op.event s r).claim = some c → (r.1 = .done ↔
      s.mem.l1 op.proc (xrL1ClaimIndex c) = some (xrL2ClaimIndex c))

theorem ClaimStep.executed {op : XrFastOp} {s : XrFastSys β} {r : XrResult}
    {m' m'' : Machine (XrFastMem β)} (hids : ∀ q, (s.procs q).id = q) (h : ClaimInv s.mem)
    (hs : ClaimStep op ((op.target (s.machine op.proc)).bind (·.2)) (s.machine op.proc) r m')
    (hid : m''.proc.id = m'.proc.id) (hmem : m''.mem = m'.mem)
    (hlocked : op.kind = .sc → r.1 = .done → (s.procs op.proc).locked = true) :
    FastExecuted op r s (s.setMachine op.proc m'') := by
  have hp : (s.machine op.proc).proc.id = op.proc := hids op.proc
  have hmoved := hs.moved
  rw [hp, ← hmem] at hmoved
  refine ⟨fun q => ?_, ?_, ?_, hlocked, fun hk _ c hc => ?_⟩
  · by_cases hq : q = op.proc
    · subst hq
      simp [XrFastSys.setMachine, hid, hs.id, hp]
    · simpa [XrFastSys.setMachine, hq] using hids q
  · rcases hmoved with hsame | ⟨-, -, c, -, hg⟩
    · exact hsame.inv h
    · exact hg.inv
  · rcases hmoved with hsame | ⟨hk, hd, c, hc, hg⟩
    · exact Or.inl hsame
    · exact Or.inr ⟨_, _, ⟨rfl, hk, hd, c, hc, rfl, rfl⟩, hg⟩
  · have hst := hs.stored hk c hc
    rwa [hp] at hst

theorem exec_fastExecuted {s : XrFastSys β} (hids : ∀ q, (s.procs q).id = q) (h : ClaimInv s.mem)
    (op : XrFastOp) : FastExecuted op (op.exec s).1 s (op.exec s).2 := by
  have hstep := access_claimStep (m := s.machine op.proc) h op
  unfold XrFastOp.exec
  cases hk : op.kind with
  | load => exact hstep.executed hids h rfl rfl (by simp [hk])
  | store => exact hstep.executed hids h rfl rfl (by simp [hk])
  | ll =>
      simp only
      split
      · exact hstep.executed hids h rfl rfl (by simp [hk])
      · exact hstep.executed hids h rfl rfl (by simp [hk])
  | sc =>
      simp only
      split
      · next hlocked => exact hstep.executed hids h rfl rfl fun _ _ => hlocked
      · next hlocked =>
          refine ⟨hids, h, Or.inl (.refl s.mem), fun _ hd => ?_, fun _ hl => absurd hl hlocked⟩
          cases hd

variable {ok : List XrFastEvent → XrFastSys β → XrFastOp → Prop} {s₀ s : XrFastSys β}
  {trace : List XrFastEvent}

theorem HasClaimed.snoc {p i j : Nat} (h : HasClaimed trace p i j) {e : XrFastEvent}
    (he : e.kind = .sc → e.status = .done → e.On i j → e.proc = p) :
    HasClaimed (trace ++ [e]) p i j := by
  obtain ⟨before, x, after, rfl, hx, hafter⟩ := h
  refine ⟨before, x, after ++ [e], by simp, hx, fun y hy => ?_⟩
  rcases List.mem_append.mp hy with hy | hy
  · exact hafter y hy
  · obtain rfl := List.mem_singleton.mp hy
    exact he

/-- A processor has only claims that it has made since the last SC of another
processor on the same entries. -/
theorem FastRun.hasClaimed (hs : ClaimStart s₀) (h : FastRun ok s₀ trace s) :
    (∀ q, (s.procs q).id = q) ∧ ClaimInv s.mem ∧
      ∀ p i j, s.mem.l1 p i = some j → HasClaimed trace p i j := by
  induction h with
  | nil =>
      refine ⟨hs.ids, fun p i j => ?_, fun p i j hj => ?_⟩
      · rw [hs.l1, hs.l2]
        simp
      · rw [hs.l1] at hj
        cases hj
  | @core trace s p proc fast _ hid hfast ih =>
      have hsame := sameClaims_setFast s.mem p fast hfast
      refine ⟨fun q => ?_, hsame.inv ih.2.1, fun q i j hj => ?_⟩
      · by_cases hq : q = p
        · subst hq
          simpa using hid
        · simpa [hq] using ih.1 q
      · rw [hsame.l1] at hj
        exact ih.2.2 q i j hj
  | @access trace s op _ _ ih =>
      obtain ⟨hids, hinv, hold⟩ := ih
      have hex := exec_fastExecuted hids hinv op
      refine ⟨hex.ids, hex.inv, fun p i j hj => ?_⟩
      rcases hex.moved with hsame | ⟨i', j', hclaims, hg⟩
      · rw [hsame.l1] at hj
        refine (hold p i j hj).snoc fun hk hd hon => ?_
        -- An SC that stored had the claim, and only one processor has it.
        obtain ⟨c, hc, rfl, rfl⟩ := hon
        have hown := (hex.stored hk (hex.locked hk hd) c hc).mp hd
        have hp := (hinv _ _ _).mp hj
        rw [(hinv _ _ _).mp hown] at hp
        exact (Prod.mk.inj (Option.some.inj hp)).1
      · have hll : op.kind = .ll := hclaims.2.1
        rw [hg.l1] at hj
        split at hj
        · next hpi =>
            obtain ⟨rfl, rfl⟩ := hpi
            obtain rfl := Option.some.inj hj
            exact ⟨trace, _, [], rfl, hclaims, by simp⟩
        · split at hj
          · cases hj
          · refine (hold p i j hj).snoc fun hk => ?_
            rw [show (op.event s (op.exec s).1).kind = op.kind from rfl, hll] at hk
            cases hk

/-- An access that gets no address has taken an exception. -/
theorem access_of_no_target {m : Machine (XrFastMem β)} {op : XrFastOp} (ht : op.target m = none) :
    (op.access m).1.1 = .fault := by
  unfold XrFastOp.target at ht
  unfold XrFastOp.access xrAccessRead xrAccessWrite
  split at ht
  · next hmask =>
      rw [if_pos hmask, if_pos hmask]
      split
      · rfl
      · rfl
  · next hmask =>
      rw [if_neg hmask, if_neg hmask]
      split at ht
      · next hmmu =>
          rw [if_pos hmmu, if_pos hmmu]
          have hnone := Option.map_eq_none_iff.mp ht
          cases hread : op.req.read with
          | true =>
              rw [hread, Bool.not_true] at hnone
              simp only [if_true]
              generalize dataTarget m op.block op.req.address false = out at hnone
              obtain ⟨e, m'⟩ := out
              obtain rfl : e = none := hnone
              rfl
          | false =>
              rw [hread, Bool.not_false] at hnone
              simp only [Bool.false_eq_true, if_false]
              generalize dataTarget m op.block op.req.address true = out at hnone
              obtain ⟨e, m'⟩ := out
              obtain rfl : e = none := hnone
              rfl
      · cases ht

/-- An SC to memory that answers, but not through a host pointer, always stores. -/
theorem access_of_direct {m : Machine (XrFastMem β)} {op : XrFastOp} {a : Word}
    (hram : ∀ (b : β) q address src length, (EBus.write b q address src length).reply = true)
    (hk : op.kind = .sc) (ht : op.target m = some (a, none)) : (op.access m).1.1 = .done := by
  have hdirect : ∀ (m : Machine (XrFastMem β)) address, (directWrite m address op.req).1.1 = .done := by
    intro m address
    simp [directWrite, hram]
  rcases op.kind_cases with ⟨-, -, hsc⟩ | ⟨hread, -⟩
  · exact absurd hk hsc
  · unfold XrFastOp.target at ht
    unfold XrFastOp.access xrAccessWrite
    simp only [hread, Bool.not_false, Bool.false_eq_true, if_false] at ht ⊢
    split at ht
    · cases ht
    · next hmask =>
        rw [if_neg hmask]
        split at ht
        · next hmmu =>
            rw [if_pos hmmu]
            generalize dataTarget m op.block op.req.address true = out at ht
            obtain ⟨e, m'⟩ := out
            cases e with
            | none => cases ht
            | some e =>
                obtain ⟨-, hhost⟩ := Prod.mk.inj (Option.some.inj ht)
                have hnone : e.hostPointer = none := Option.map_eq_none_iff.mp hhost
                simp only [writeTarget, hnone]
                exact hdirect m' _
        · next hmmu =>
            rw [if_neg hmmu]
            exact hdirect m _

theorem exec_sc_locked {op : XrFastOp} (hk : op.kind = .sc)
    (hl : (s.procs op.proc).locked = true) :
    (op.exec s).1 = (op.access (s.machine op.proc)).1 := by
  simp [XrFastOp.exec, hk, hl]

theorem event_of_target {op : XrFastOp} {r : XrResult} {a : Word} {claim : Option Word}
    (ht : op.target (s.machine op.proc) = some (a, claim)) :
    (op.event s r).address = a.toNat ∧ (op.event s r).claim = claim := by
  simp [XrFastOp.event, ht]

/-- An SC that meets the condition keeps the law. -/
theorem fastSc_lawful (hs : ClaimStart s₀) (h : FastRun ok s₀ trace s) {op : XrFastOp}
    (hk : op.kind = .sc) (hok : SparesClaim trace s op) (hd : (op.exec s).1.1 = .done) :
    ¬StoredSinceLl (memEvents trace) op.proc ((op.event s (op.exec s).1).address / 4) := by
  obtain ⟨hids, hinv, hclaimed⟩ := h.hasClaimed hs
  have hex := exec_fastExecuted hids hinv op
  have hlocked := hex.locked hk hd
  intro hst
  cases ht : op.target (s.machine op.proc) with
  | none =>
      rw [exec_sc_locked hk hlocked, access_of_no_target ht] at hd
      cases hd
  | some t =>
      obtain ⟨a, claim⟩ := t
      have hevent := event_of_target (r := (op.exec s).1) ht
      rw [hevent.1] at hst
      obtain ⟨c, rfl, hlost⟩ := hok hk hlocked a claim ht hst
      have hown := (hex.stored hk hlocked c hevent.2).mp hd
      exact hlost (hclaimed _ _ _ hown) hown

/-- On RAM the condition is exact. -/
theorem fastSc_lawful_iff (hs : ClaimStart s₀) (h : FastRun ok s₀ trace s) {op : XrFastOp}
    (hram : ∀ (b : β) q address src length, (EBus.write b q address src length).reply = true)
    (hk : op.kind = .sc) :
    ((op.exec s).1.1 = .done →
      ¬StoredSinceLl (memEvents trace) op.proc ((op.event s (op.exec s).1).address / 4)) ↔
      SparesClaim trace s op := by
  constructor
  · intro hlaw _ hlocked a claim ht hst
    obtain ⟨hids, hinv, -⟩ := h.hasClaimed hs
    have hex := exec_fastExecuted hids hinv op
    have hevent := event_of_target (r := (op.exec s).1) ht
    have hnot : (op.exec s).1.1 ≠ .done := by
      intro hd
      refine hlaw hd ?_
      rwa [hevent.1]
    cases claim with
    | none =>
        rw [exec_sc_locked hk hlocked] at hnot
        exact absurd (access_of_direct hram hk ht) hnot
    | some c =>
        exact ⟨c, rfl, fun _ hown => hnot ((hex.stored hk hlocked c hevent.2).mpr hown)⟩
  · exact fun hok hd => fastSc_lawful hs h hk hok hd

/-- Load-linked and store-conditional of the fast build keep their law in every run
whose SCs meet the condition. -/
theorem fast_llSc_law (hs : ClaimStart s₀) (h : FastRun SparesClaim s₀ trace s) :
    LlScLaw (memEvents trace) := by
  induction h with
  | nil =>
      intro before e after he
      simp [memEvents] at he
  | core _ _ _ _ _ _ ih => exact ih
  | @access trace s op hrun hok ih =>
      intro before e after htrace hk hd
      rw [memEvents, List.map_append, List.map_singleton] at htrace
      rcases Lists.snoc_split htrace with ⟨rfl, rfl, rfl⟩ | ⟨rest, rfl, hrest⟩
      · -- The SC is the last operation.
        exact fastSc_lawful hs hrun hk hok hd
      · exact ih before e rest hrest hk hd

end

/-! ## The store that broke no reservation -/

/-- A processor with the MMU on and its first page mapped, writable, to the first
page of RAM. -/
def mappedProc (p : Nat) : XrProcessor :=
  { (XrProcessor.zeroed p).setCr crRs rsMmu with dtb := fun _ => 3, dtbLastVpn := -1 }

/-- Two processors with the first page mapped. -/
def mappedSys : XrFastSys LineRam := ⟨mappedProc, ⟨fun _ => .zeroed, fun _ => none, .zeroed⟩⟩

theorem mappedSys_start : ClaimStart mappedSys := ⟨fun _ => rfl, fun _ _ => rfl, fun _ => rfl⟩

/-- An LL and an SC with nobody in between. -/
theorem fast_llSc_law_pair :
    LlScLaw [⟨0, .ll, 0, .done⟩, ⟨0, .sc, 0, .done⟩] := by
  let ll : XrFastOp := .ll 0 0 0
  let sc : XrFastOp := .sc 0 0 0 1
  let s₁ := (ll.exec mappedSys).2
  have h₁ : ll.event mappedSys (ll.exec mappedSys).1 = ⟨⟨0, .ll, 0, .done⟩, some 0⟩ := by
    decide
  have h₂ : sc.event s₁ (sc.exec s₁).1 = ⟨⟨0, .sc, 0, .done⟩, some 0⟩ := by decide
  have hrun₁ : FastRun SparesClaim mappedSys [_] s₁ :=
    .access .nil fun hk => absurd hk (by decide)
  rw [h₁] at hrun₁
  have hok : SparesClaim [⟨⟨0, .ll, 0, .done⟩, some 0⟩] s₁ sc := by
    rintro - - a claim - ⟨before, l, after, htrace, -, -, x, hx, hq, -⟩
    -- There is only the processor's own LL.
    have hmem : x ∈ memEvents [⟨⟨0, .ll, 0, .done⟩, some 0⟩] := by
      rw [htrace]
      simp [hx]
    obtain rfl := List.mem_singleton.mp hmem
    exact absurd rfl hq
  have hrun₂ := FastRun.access hrun₁ hok
  rw [h₂] at hrun₂
  exact fast_llSc_law mappedSys_start hrun₂

/-- Processor 1 stores into word 0 between the LL and the SC of processor 0; the SC
succeeds. -/
theorem plain_store_keeps_claim :
    ¬∀ (s₀ s : XrFastSys LineRam) (trace : List XrFastEvent), ClaimStart s₀ →
      FastRun (fun _ _ _ => True) s₀ trace s → LlScLaw (memEvents trace) := by
  intro hall
  let ll : XrFastOp := .ll 0 0 0
  let store : XrFastOp := .store 1 0 0 7 4
  let sc : XrFastOp := .sc 0 0 0 1
  let s₁ := (ll.exec mappedSys).2
  let s₂ := (store.exec s₁).2
  have h₁ : ll.event mappedSys (ll.exec mappedSys).1 = ⟨⟨0, .ll, 0, .done⟩, some 0⟩ := by
    decide
  have h₂ : store.event s₁ (store.exec s₁).1 = ⟨⟨1, .store, 0, .done⟩, some 0⟩ := by decide
  have h₃ : sc.event s₂ (sc.exec s₂).1 = ⟨⟨0, .sc, 0, .done⟩, some 0⟩ := by decide
  have hrun : FastRun (fun _ _ _ => True) mappedSys _ (sc.exec s₂).2 :=
    .access (.access (.access .nil trivial : FastRun _ mappedSys _ s₁) trivial : FastRun _ _ _ s₂)
      trivial
  rw [h₁, h₂, h₃] at hrun
  refine hall _ _ _ mappedSys_start hrun [⟨0, .ll, 0, .done⟩, ⟨1, .store, 0, .done⟩]
    ⟨0, .sc, 0, .done⟩ [] rfl rfl rfl ?_
  refine ⟨[], ⟨0, .ll, 0, .done⟩, [⟨1, .store, 0, .done⟩], rfl, ⟨rfl, rfl, rfl, rfl⟩, ?_, ?_⟩
  · intro x hx hll
    obtain rfl := List.mem_singleton.mp hx
    exact absurd hll.2.1 (by decide)
  · exact ⟨⟨1, .store, 0, .done⟩, by simp, by decide, ⟨Or.inl rfl, rfl⟩, rfl⟩

end Xremu
