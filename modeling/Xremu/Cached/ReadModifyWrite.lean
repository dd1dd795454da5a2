import Xremu.Cached.LoadLinked
import Xremu.Cached.Linearizable
import Xremu.Cached.Transparent
import Xremu.Interp.PreciseFaults

/-!
# What LL and SC are for

A processor that reads a word with LL, computes a new value and stores it with SC, and
leaves the line alone in between, updates the word as if nobody else was there:
`rmw_serial` says that what is in a word that is only stored to in this way is what the
successful SCs have made of it, one after the other, for every interleaving of the
processors' accesses.

It rests on two invariants of a run: the caches hold one flat memory, and a processor has
only lines that it has fetched since the last store of another processor into them. The spin
lock of `spin_exclusive` is the same, with a plain store to give it back.
-/

namespace Xremu

open Concurrency XrCachedSys

/-! ## Runs with values -/

/-- An operation of a run, where it went and what it returned. -/
structure XrDone where
  op : XrLlScOp
  address : Nat
  result : XrResult

namespace XrDone

variable (e : XrDone)

def event : XrMemEvent := ⟨e.op.proc, e.op.kind, e.address, e.result.1⟩

/-- It has stored. -/
def Stored : Prop := e.result.1 = .done ∧ e.op.req.read = false

instance : Decidable e.Stored := inferInstanceAs (Decidable (_ ∧ _))

/-- It has stored into this word. -/
def StoredIn (word : Nat) : Prop := e.Stored ∧ e.address / 4 = word

instance (word : Nat) : Decidable (e.StoredIn word) := inferInstanceAs (Decidable (_ ∧ _))

/-- If it completed, it is aligned and of a length the instructions have. -/
def Placed : Prop :=
  e.result.1 = .done →
    (e.op.req.length = 1 ∨ e.op.req.length = 2 ∨ e.op.req.length = 4) ∧
      e.address % e.op.req.length = 0

/-- What it makes of the flat memory. -/
def flatAfter (flat : Nat → Byte) : Nat → Byte :=
  if e.Stored then copyBytes flat e.address (byteOf e.op.req.srcvalue) e.op.req.length else flat

end XrDone

/-- The flat memory after these operations. -/
def flatOf (flat : Nat → Byte) (trace : List XrDone) : Nat → Byte :=
  trace.foldl (fun flat e => e.flatAfter flat) flat

/-- The word of this number. -/
def wordAt (flat : Nat → Byte) (word : Nat) : Word := zext (fun k => flat (4 * word + k)) 4

/-- The states an interleaving reaches, with what was executed and returned. Between its
accesses a processor may do anything to its registers. -/
inductive ValueRun (ok : List XrDone → XrCachedSys LineRam → XrLlScOp → Prop)
    (s₀ : XrCachedSys LineRam) : List XrDone → XrCachedSys LineRam → Prop where
  | nil : ValueRun ok s₀ [] s₀
  | core {trace s} (p : Nat) (proc : XrProcessor) : ValueRun ok s₀ trace s → proc.id = p →
      ValueRun ok s₀ trace { s with procs := Function.update s.procs p proc }
  | access {trace s op r s'} : ValueRun ok s₀ trace s → op.Legal s₀.mem.present s →
      ok trace s op → op.exec s = some (r, s') →
      ValueRun ok s₀ (trace ++ [⟨op, op.physAddress s, r⟩]) s'

/-- A run with values is a run. -/
theorem ValueRun.erase {ok : List XrDone → XrCachedSys LineRam → XrLlScOp → Prop}
    {s₀ s : XrCachedSys LineRam} {trace : List XrDone} (h : ValueRun ok s₀ trace s) :
    LlScRun (fun _ _ _ => True) s₀ (trace.map XrDone.event) s := by
  induction h with
  | nil => exact .nil
  | core p proc _ hid ih => exact .core p proc ih hid
  | @access trace s op r s' _ hl _ he ih =>
      rw [List.map_append]
      exact .access ih hl trivial he

/-- What happened before. -/
theorem ValueRun.earlier {ok : List XrDone → XrCachedSys LineRam → XrLlScOp → Prop}
    {s₀ s : XrCachedSys LineRam} {before after : List XrDone}
    (h : ValueRun ok s₀ (before ++ after) s) : ∃ s', ValueRun ok s₀ before s' := by
  generalize htrace : before ++ after = trace at h
  induction h generalizing after with
  | nil =>
      obtain ⟨rfl, -⟩ := List.append_eq_nil_iff.mp htrace
      exact ⟨s₀, .nil⟩
  | core _ _ _ _ ih => exact ih htrace
  | @access trace s op r s' hrun hl hok he ih =>
      rcases Lists.snoc_eq_append htrace.symm with ⟨rfl, -⟩ | ⟨rest, -, hrest⟩
      · exact ⟨s', hrun.access hl hok he⟩
      · exact ih hrest.symm

/-! ## One operation on the flat memory -/

section

variable {present populated : Nat → Bool} {flat : Nat → Byte} {s s' : XrCachedSys LineRam}

/-- Where an access goes that found this. -/
def placeOf : Option (Word × BitVec 64) → Nat
  | some (address, _) => address.toNat
  | none => 0

/-- What an access that found `target` makes of the flat memory. -/
structure AccessFlat (populated : Nat → Bool) (flat : Nat → Byte) (r : XrMemReq)
    (target : Option (Word × BitVec 64)) (out : XrResult) (s' : XrCachedSys LineRam) : Prop where
  found : out.1 = .done → target ≠ none
  agrees : Agrees populated
    (if out.1 = .done ∧ r.read = false then
      copyBytes flat (placeOf target) (byteOf r.srcvalue) r.length else flat) s'
  value : r.read = true → out.1 = .done →
    out.2 = some (zext (fun k => flat (placeOf target + k)) r.length)
  aligned : out.1 = .done → placeOf target % r.length = 0

/-- An access of a processor that has a handler for its exceptions. -/
theorem xrAccess_flat {p : Nat} {r : XrMemReq} {out : XrResult} (h : CacheInv present populated s)
    (ha : Agrees populated flat s) (hp : present p = true ∧ p < xrProcMax)
    (hlen : r.length = 1 ∨ r.length = 2 ∨ r.length = 4)
    (hcached : ∀ address flags, (accessAddress (s.machine p) r).1 = some (address, flags) →
      flags &&& pteNoncached = 0) (heb : (s.procs p).cr crEb ≠ 0)
    (he : xrAccess p r s = some (out, s')) :
    AccessFlat populated flat r (accessAddress (s.machine p) r).1 out s' := by
  unfold xrAccess at he
  rcases hm : accessAddress (s.machine p) r with ⟨_ | ⟨address, flags⟩, m⟩
  · rw [hm] at he
    obtain ⟨rfl, rfl⟩ := Prod.mk.inj (Option.some.inj he)
    have hsame := accessAddress_refused h ha heb hm
    refine ⟨fun hd => (by cases hd), ?_, fun _ hd => (by cases hd), fun hd => (by cases hd)⟩
    rw [if_neg fun hd => by cases hd.1]
    exact hsame.2
  · rw [hm] at he hcached
    have hflags := hcached address flags rfl
    simp only [hflags, ne_eq, not_true_eq_false, if_false] at he
    obtain ⟨hinv, -, hal⟩ := accessAddress_some h hlen hm
    have hag := accessAddress_agrees h ha hm
    have heb' : ((s.setMachine p m).procs p).cr crEb ≠ 0 := by
      rcases accessAddress_ends hm with ⟨hnone, -⟩ | ⟨-, -, htouched⟩
      · cases hnone
      · have hproc : (s.setMachine p m).procs p = m.proc := by simp [setMachine]
        rw [hproc, htouched.cr]
        exact heb
    obtain ⟨out', s'', he', hs⟩ := exec_access_served hinv hal hp
    rw [he] at he'
    obtain ⟨rfl, rfl⟩ := Prod.mk.inj (Option.some.inj he')
    exact ⟨fun _ => by simp, hs.agrees (.inr (.inr (.inl heb'))) hag, hs.value hag,
      fun _ => hal.2⟩

theorem exec_flat {op : XrLlScOp} {r : XrResult} (h : CacheInv present populated s)
    (ha : Agrees populated flat s) (hl : op.Legal present s)
    (heb : (s.procs op.proc).cr crEb ≠ 0) (he : op.exec s = some (r, s')) :
    AccessFlat populated flat op.req (op.target s) r s' := by
  have hacc : ∀ {out s''}, xrAccess op.proc op.req s = some (out, s'') →
      AccessFlat populated flat op.req (op.target s) out s'' :=
    fun hx => xrAccess_flat h ha hl.proc hl.length hl.cached heb hx
  cases op with
  | load p address length => exact hacc he
  | store p address value length => exact hacc he
  | ll p address =>
      simp only [XrLlScOp.exec, xrExecuteLL] at he
      split at he
      · next value s₁ hx =>
          obtain ⟨rfl, rfl⟩ := Prod.mk.inj (Option.some.inj he)
          have hread := hacc hx
          exact ⟨hread.found, hread.agrees.of_mem rfl, hread.value, hread.aligned⟩
      · exact hacc he
  | sc p address value =>
      simp only [XrLlScOp.exec, xrExecuteSC] at he
      split at he
      · exact hacc he
      · obtain ⟨rfl, rfl⟩ := Prod.mk.inj (Option.some.inj he)
        refine ⟨fun hd => (by cases hd), ?_, fun _ hd => (by cases hd), fun hd => (by cases hd)⟩
        rw [if_neg fun hd => by cases hd.1]
        exact ha

end

/-! ## Every run -/

/-- What a run from `flat` keeps: the caches hold the flat memory of its stores, its loads
returned what was there, and all its accesses were aligned. -/
structure ValueInv (s₀ : XrCachedSys LineRam) (trace : List XrDone) (s : XrCachedSys LineRam) :
    Prop where
  cache : CacheInv s₀.mem.present s₀.mem.bus.populated s
  agrees : Agrees s₀.mem.bus.populated (flatOf s₀.mem.bus.bytes trace) s
  reads : ∀ before e after, trace = before ++ e :: after → e.op.req.read = true →
    e.result.1 = .done → e.result.2 =
      some (zext (fun k => flatOf s₀.mem.bus.bytes before (e.address + k)) e.op.req.length)
  placed : ∀ e ∈ trace, e.Placed

section

variable {ok : List XrDone → XrCachedSys LineRam → XrLlScOp → Prop}
  {s₀ s : XrCachedSys LineRam} {trace : List XrDone} {flat : Nat → Byte}

theorem flatOf_snoc (e : XrDone) : flatOf flat (trace ++ [e]) = e.flatAfter (flatOf flat trace) := by
  simp [flatOf]

theorem flatOf_append (before after : List XrDone) :
    flatOf flat (before ++ after) = flatOf (flatOf flat before) after := by
  simp [flatOf]

theorem ValueRun.inv (hs : ColdStart s₀)
    (hok : ∀ {trace s op}, ok trace s op → (s.procs op.proc).cr crEb ≠ 0)
    (h : ValueRun ok s₀ trace s) : ValueInv s₀ trace s := by
  induction h with
  | nil => exact ⟨hs.inv, hs.agrees, by simp, by simp⟩
  | @core trace s p proc hrun hid ih =>
      have hcache := ((hrun.core p proc hid).erase.fetched hs).1
      exact ⟨hcache, ih.agrees.of_mem rfl, ih.reads, ih.placed⟩
  | @access trace s op r s' hrun hl hop he ih =>
      have hcache := ((hrun.access hl hop he).erase.fetched hs).1
      have hflat := exec_flat ih.cache ih.agrees hl (hok hop) he
      refine ⟨hcache, ?_, ?_, ?_⟩
      · rw [flatOf_snoc]
        exact hflat.agrees
      · intro before e after htrace hread hdone
        rcases Lists.snoc_split htrace with ⟨rfl, rfl, -⟩ | ⟨rest, -, hrest⟩
        · exact hflat.value hread hdone
        · exact ih.reads before e rest hrest hread hdone
      · intro e hmem hdone
        rcases List.mem_append.mp hmem with hold | hnew
        · exact ih.placed e hold hdone
        · obtain rfl := List.mem_singleton.mp hnew
          exact ⟨hl.length, hflat.aligned hdone⟩

end

/-! ## Words -/

section

variable {flat : Nat → Byte} {e : XrDone} {word : Nat}

theorem wordAt_elsewhere (hp : e.Placed) (h : ¬e.StoredIn word) :
    wordAt (e.flatAfter flat) word = wordAt flat word := by
  unfold XrDone.flatAfter
  split
  · next hst =>
      have hne : e.address / 4 ≠ word := fun heq => h ⟨hst, heq⟩
      obtain ⟨hlen, hal⟩ := hp hst.1
      refine zext_congr fun k hk => copyBytes_of_not ?_
      -- An aligned access stays in its word.
      rcases hlen with hl | hl | hl <;> rw [hl] at hal ⊢ <;> omega
  · rfl

theorem wordAt_stored (hp : e.Placed) (h : e.StoredIn word) (hl : e.op.req.length = 4) :
    wordAt (e.flatAfter flat) word = e.op.req.srcvalue := by
  obtain ⟨hst, heq⟩ := h
  have hal := (hp hst.1).2
  have haddr : e.address = 4 * word := by
    rw [hl] at hal
    omega
  unfold XrDone.flatAfter wordAt
  rw [if_pos hst, hl, haddr]
  have hbytes : ∀ k, k < 4 →
      copyBytes flat (4 * word) (byteOf e.op.req.srcvalue) 4 (4 * word + k) =
        byteOf e.op.req.srcvalue k := fun k hk => copyBytes_of_lt hk
  rw [zext_congr hbytes, zext_byteOf]

/-- A word that nobody stores into stays as it is. -/
theorem wordAt_flatOf {trace : List XrDone} (hp : ∀ x ∈ trace, x.Placed)
    (h : ∀ x ∈ trace, ¬x.StoredIn word) : wordAt (flatOf flat trace) word = wordAt flat word := by
  induction trace using List.reverseRecOn with
  | nil => rfl
  | append_singleton trace x ih =>
      rw [flatOf_snoc, wordAt_elsewhere (hp x (by simp)) (h x (by simp))]
      exact ih (fun y hy => hp y (by simp [hy])) fun y hy => h y (by simp [hy])

end

/-! ## LL, SC and nothing in between -/

/-- The last completed access of `p` to the line of the word was an LL of the word, which
returned `v`. -/
def Linked (trace : List XrDone) (p word : Nat) (v : Word) : Prop :=
  ∃ before l after, trace = before ++ l :: after ∧ l.event.LlOf p word ∧ l.result.2 = some v ∧
    ∀ x ∈ after, x.op.proc = p → x.result.1 = .done → x.address / 16 ≠ word / 4

theorem XrDone.event_stores {e : XrDone} : e.event.Stores ↔ e.Stored := by
  unfold XrMemEvent.Stores Stored event
  cases e.op <;> simp [XrLlScOp.kind, XrLlScOp.req]

theorem XrDone.read_of_ll {e : XrDone} {p word : Nat} (h : e.event.LlOf p word) :
    e.op.req.read = true ∧ e.op.req.length = 4 := by
  have hk : e.op.kind = .ll := h.2.1
  cases hop : e.op <;> simp [hop, XrLlScOp.kind, XrLlScOp.req] at hk ⊢

/-- Two places of one list. -/
theorem places {α : Type} {before after before' after' : List α} {a b : α}
    (h : before ++ a :: after = before' ++ b :: after') :
    (a = b ∧ after = after') ∨ b ∈ after ∨ ∃ between, after' = between ++ a :: after := by
  rcases List.append_eq_append_iff.mp h with ⟨c, -, hc⟩ | ⟨c, -, hc⟩
  · cases c with
    | nil => exact .inl (List.cons.inj hc)
    | cons x c =>
        obtain ⟨-, rfl⟩ := List.cons.inj hc
        exact .inr (.inl (by simp))
  · cases c with
    | nil =>
        obtain ⟨rfl, rfl⟩ := List.cons.inj hc
        exact .inl ⟨rfl, rfl⟩
    | cons x c =>
        obtain ⟨-, rfl⟩ := List.cons.inj hc
        exact .inr (.inr ⟨c, rfl⟩)

section

variable {ok : List XrDone → XrCachedSys LineRam → XrLlScOp → Prop}
  {s₀ s s' : XrCachedSys LineRam} {trace : List XrDone} {op : XrLlScOp} {r : XrResult}
  {p word : Nat} {v : Word}

/-- A processor that goes straight from LL to SC has not fetched the line back. -/
theorem Linked.not_fetched_back (h : Linked trace p word v)
    (hst : StoredSinceLl (trace.map XrDone.event) p word) :
    ¬Fetched (trace.map XrDone.event) p (word / 4) := by
  obtain ⟨before, l, after, rfl, hll, -, hfar⟩ := h
  obtain ⟨before', l', after', htrace', hll', hlast, x, hx, hother, hstores, hword⟩ := hst
  rintro ⟨before'', e, after'', htrace'', hfetch, hown⟩
  rw [List.map_append, List.map_cons] at htrace' htrace''
  have hline : ∀ {a : Nat}, a / 4 = word → a / 16 = word / 4 := by
    intro a ha
    omega
  have hquiet : ∀ y ∈ after.map XrDone.event, y.proc = p → y.status = .done →
      y.address / 16 ≠ word / 4 := by
    intro y hy
    obtain ⟨d, hd, rfl⟩ := List.mem_map.mp hy
    exact hfar d hd
  -- The two LLs are one.
  have hsame : after' = after.map XrDone.event := by
    rcases places htrace' with ⟨-, heq⟩ | hlater | ⟨between, heq⟩
    · exact heq.symm
    · exact absurd (hline hll'.2.2.2) (hquiet l' hlater hll'.1 hll'.2.2.1)
    · exact absurd hll (hlast l.event (by simp [heq]))
  subst hsame
  have hown' : x.proc = p := by
    rcases places htrace'' with ⟨-, heq⟩ | hlater | ⟨between, heq⟩
    · exact hown x (heq ▸ hx) hstores (hline hword)
    · exact absurd hfetch.2.2.2 (hquiet e hlater hfetch.1 hfetch.2.2.1)
    · exact hown x (by simp [heq, hx]) hstores (hline hword)
  exact hother hown'

/-- What LL has read is still there when SC succeeds. -/
theorem Linked.unchanged (hs : ColdStart s₀) (hrun : ValueRun ok s₀ trace s)
    (hinv : ValueInv s₀ trace s) (hl : op.Legal s₀.mem.present s) (hk : op.kind = .sc)
    (hword : op.physAddress s / 4 = word) (h : Linked trace op.proc word v)
    (he : op.exec s = some (r, s')) (hdone : r.1 = .done) :
    wordAt (flatOf s₀.mem.bus.bytes trace) word = v := by
  have hspares : SparesLl (trace.map XrDone.event) s op := by
    intro _ _ hst hfetched
    rw [hword] at hst
    have hline : op.physAddress s / 16 = word / 4 := by omega
    rw [hline] at hfetched
    exact absurd hfetched (h.not_fetched_back hst)
  have hlaw := (sc_lawful_iff hs hrun.erase hl hk he).mpr hspares hdone
  rw [hword] at hlaw
  obtain ⟨before, l, after, rfl, hll, hvalue, hfar⟩ := h
  obtain ⟨hread, hlen⟩ := XrDone.read_of_ll hll
  have hfar' : ∀ x ∈ after, x.op.proc = op.proc → x.result.1 = .done → x.address / 4 ≠ word := by
    intro x hx hp hd heq
    exact hfar x hx hp hd (by omega)
  have hquiet : ∀ x ∈ after, ¬x.StoredIn word := by
    rintro x hx ⟨hst, heq⟩
    by_cases hp : x.op.proc = op.proc
    · exact hfar' x hx hp hst.1 heq
    · refine hlaw ⟨before.map XrDone.event, l.event, after.map XrDone.event, by simp, hll, ?_,
        x.event, List.mem_map_of_mem hx, hp, XrDone.event_stores.mpr hst, heq⟩
      rintro y hy ⟨hyp, -, hyd, hyw⟩
      obtain ⟨d, hd, rfl⟩ := List.mem_map.mp hy
      exact hfar' d hd hyp hyd hyw
  have hplaced : ∀ x ∈ after, x.Placed := fun x hx => hinv.placed x (by simp [hx])
  have hnot : ¬l.StoredIn word := by
    rintro ⟨⟨-, hwrite⟩, -⟩
    rw [hread] at hwrite
    cases hwrite
  have haddr : l.address = 4 * word := by
    have hal := (hinv.placed l (by simp) hll.2.2.1).2
    have hin : l.address / 4 = word := hll.2.2.2
    rw [hlen] at hal
    omega
  have hreads := hinv.reads before l after rfl hread hll.2.2.1
  rw [hvalue, hlen, haddr] at hreads
  calc wordAt (flatOf s₀.mem.bus.bytes (before ++ l :: after)) word
      = wordAt (flatOf (l.flatAfter (flatOf s₀.mem.bus.bytes before)) after) word := by
        rw [flatOf_append]
        rfl
    _ = wordAt (flatOf s₀.mem.bus.bytes before) word := by
        rw [wordAt_flatOf hplaced hquiet, wordAt_elsewhere (hinv.placed l (by simp)) hnot]
    _ = v := (Option.some.inj hreads).symm

end

/-! ## Read, modify, write -/

/-- An operation of a run in which the word is stored to only by SCs, each of them the end of a
read-modify-write with `f`. -/
structure Updates (f : Nat → Word → Word) (word : Nat) (trace : List XrDone)
    (s : XrCachedSys LineRam) (op : XrLlScOp) : Prop where
  handler : (s.procs op.proc).cr crEb ≠ 0
  stores : op.req.read = false → op.target s ≠ none → op.physAddress s / 4 = word →
    op.kind = .sc ∧ ∃ v, Linked trace op.proc word v ∧ op.req.srcvalue = f op.proc v

/-- The processors whose SCs have gone through to the word, in this order. -/
def updaters (word : Nat) (trace : List XrDone) : List Nat :=
  (trace.filter fun e => e.StoredIn word).map fun e => e.op.proc

/-- What they have made of the word. -/
def updated (f : Nat → Word → Word) (word : Nat) (trace : List XrDone) (v : Word) : Word :=
  (updaters word trace).foldl (fun v p => f p v) v

section

variable {f : Nat → Word → Word} {s₀ s : XrCachedSys LineRam} {trace : List XrDone} {word : Nat}

theorem updated_snoc (e : XrDone) (v : Word) :
    updated f word (trace ++ [e]) v =
      if e.StoredIn word then f e.op.proc (updated f word trace v) else updated f word trace v := by
  by_cases h : e.StoredIn word <;> simp [updated, updaters, h]

/-- What the word is in a run that updates it. -/
theorem ValueRun.updated (hs : ColdStart s₀) (h : ValueRun (Updates f word) s₀ trace s) :
    wordAt (flatOf s₀.mem.bus.bytes trace) word =
      Xremu.updated f word trace (wordAt s₀.mem.bus.bytes word) := by
  induction h with
  | nil => rfl
  | core _ _ _ _ ih => exact ih
  | @access trace s op r s' hrun hl hok he ih =>
      have hinv := hrun.inv hs fun hu => hu.handler
      have hflat := exec_flat hinv.cache hinv.agrees hl hok.handler he
      have hplaced : (⟨op, op.physAddress s, r⟩ : XrDone).Placed :=
        fun hdone => ⟨hl.length, hflat.aligned hdone⟩
      rw [flatOf_snoc, updated_snoc]
      split
      · next hst =>
          obtain ⟨hsc, v, hlinked, hvalue⟩ :=
            hok.stores hst.1.2 (hflat.found hst.1.1) hst.2
          have hlen : op.req.length = 4 := by
            cases op <;> simp [XrLlScOp.kind, XrLlScOp.req] at hsc ⊢
          have hold := hlinked.unchanged hs hrun hinv hl hsc hst.2 he hst.1.1
          rw [wordAt_stored hplaced hst hlen, hvalue, ← ih, hold]
      · next hst => rw [wordAt_elsewhere hplaced hst, ih]

/-- What a run of reads and updates returns: the word is always what the SCs before have made
of it, each from what the one before it has left. -/
theorem rmw_serial (hs : ColdStart s₀) (h : ValueRun (Updates f word) s₀ trace s)
    {before after : List XrDone} {e : XrDone} (htrace : trace = before ++ e :: after)
    (hread : e.op.req.read = true) (hlen : e.op.req.length = 4) (hdone : e.result.1 = .done)
    (hword : e.address / 4 = word) :
    e.result.2 = some (Xremu.updated f word before (wordAt s₀.mem.bus.bytes word)) := by
  have hinv := h.inv hs fun hu => hu.handler
  have hvalue := hinv.reads before e after htrace hread hdone
  have haddr : e.address = 4 * word := by
    have hal := (hinv.placed e (by simp [htrace]) hdone).2
    rw [hlen] at hal
    omega
  obtain ⟨s', hbefore⟩ := ValueRun.earlier (htrace ▸ h)
  rw [hvalue, hlen, haddr, ← hbefore.updated hs]
  rfl

end

/-! ## Two processors count -/

/-- The state after an operation with the MMU off that completed. -/
def XrLlScOp.direct (op : XrLlScOp) (s : XrCachedSys LineRam) : XrCachedSys LineRam :=
  if op.kind = .ll then
    setLocked op.proc ((xrDcacheAccess op.proc (op.req.at op.req.address) none).run s).2
  else ((xrDcacheAccess op.proc (op.req.at op.req.address) none).run s).2

/-- One step of a run with the MMU off. -/
theorem ValueRun.direct {ok : List XrDone → XrCachedSys LineRam → XrLlScOp → Prop}
    {s₀ s : XrCachedSys LineRam} {trace : List XrDone} (op : XrLlScOp) (value : Option Word)
    (h : ValueRun ok s₀ trace s) (hp : s₀.mem.present op.proc = true ∧ op.proc < xrProcMax)
    (hlen : op.req.length = 1 ∨ op.req.length = 2 ∨ op.req.length = 4) (hok : ok trace s op)
    (hal : op.req.address &&& (BitVec.ofNat 32 op.req.length - 1) = 0)
    (hmmu : (s.machine op.proc).proc.rs &&& rsMmu = 0)
    (hlow : ¬xrNoncachedPhysBase ≤ op.req.address)
    (hrun : ((xrDcacheAccess op.proc (op.req.at op.req.address) none).run s).1 =
      .inr (.done, value))
    (hlocked : op.kind = .sc → (s.procs op.proc).locked = true) :
    ValueRun ok s₀ (trace ++ [⟨op, op.req.address.toNat, .done, value⟩]) (op.direct s) := by
  obtain ⟨htarget, hacc⟩ := xrAccess_direct hal hmmu hlow hrun
  have hlegal : op.Legal s₀.mem.present s := by
    refine ⟨hp, hlen, fun a f ht => ?_⟩
    rw [XrLlScOp.target, htarget] at ht
    cases ht
    rfl
  have hphys : op.physAddress s = op.req.address.toNat := by
    rw [XrLlScOp.physAddress, XrLlScOp.target, htarget]
  rw [← hphys]
  refine ValueRun.access h hlegal hok ?_
  cases op with
  | load p address length => exact hacc
  | store p address value length => exact hacc
  | ll p address =>
      simp only [XrLlScOp.proc, XrLlScOp.req] at hacc
      simp only [XrLlScOp.exec, xrExecuteLL, hacc]
      rfl
  | sc p address value =>
      have hl : (s.procs p).locked = true := hlocked rfl
      simp only [XrLlScOp.exec, xrExecuteSC]
      rw [if_pos hl]
      exact hacc

theorem coldStart_coldPair : ColdStart coldPair := by
  have hbase := coldStart_cold 2 .zeroed
  exact ⟨fun _ => rfl, hbase.dcache, hbase.buffers, hbase.scache, hbase.running⟩

theorem coldPair_procs (p : Nat) (h : p < 2) : coldPair.mem.present p = true ∧ p < xrProcMax :=
  ⟨by simpa [coldPair, cold] using h, by simp [xrProcMax]; omega⟩

/-- Both processors have read the word before processor 0 stores; processor 1 reads it again. -/
theorem rmw_serial_pair :
    ∃ s, ValueRun (Updates (fun _ v => v + 1) 0) coldPair
        [⟨.ll 0 0, 0, .done, some 0⟩, ⟨.ll 1 0, 0, .done, some 0⟩, ⟨.sc 0 0 1, 0, .done, none⟩,
          ⟨.ll 1 0, 0, .done, some 1⟩] s ∧
      some (1 : Word) = some (updated (fun _ v => v + 1) 0
        [⟨.ll 0 0, 0, .done, some 0⟩, ⟨.ll 1 0, 0, .done, some 0⟩, ⟨.sc 0 0 1, 0, .done, none⟩]
        (wordAt coldPair.mem.bus.bytes 0)) := by
  let s₀ := coldPair
  let s₁ := (XrLlScOp.ll 0 0).direct s₀
  let s₂ := (XrLlScOp.ll 1 0).direct s₁
  let s₃ := (XrLlScOp.sc 0 0 1).direct s₂
  let s₄ := (XrLlScOp.ll 1 0).direct s₃
  have hread : ∀ {trace : List XrDone} {s : XrCachedSys LineRam} {op : XrLlScOp},
      (s.procs op.proc).cr crEb ≠ 0 → op.req.read = true →
      Updates (fun _ v => v + 1) 0 trace s op :=
    fun heb hop => ⟨heb, fun hw => absurd hop (by simp [hw])⟩
  have h₁ : ValueRun (Updates (fun _ v => v + 1) 0) s₀ [⟨.ll 0 0, 0, .done, some 0⟩] s₁ :=
    ValueRun.direct (.ll 0 0) (some 0) .nil (coldPair_procs 0 (by decide)) (by decide)
      (hread (by decide) rfl) (by decide) (by decide) (by decide) (by decide) (by decide)
  have h₂ : ValueRun (Updates (fun _ v => v + 1) 0) s₀
      [⟨.ll 0 0, 0, .done, some 0⟩, ⟨.ll 1 0, 0, .done, some 0⟩] s₂ :=
    ValueRun.direct (.ll 1 0) (some 0) h₁ (coldPair_procs 1 (by decide)) (by decide)
      (hread (by decide) rfl) (by decide) (by decide) (by decide) (by decide) (by decide)
  have hsc : Updates (fun _ v => v + 1) 0
      [⟨.ll 0 0, 0, .done, some 0⟩, ⟨.ll 1 0, 0, .done, some 0⟩] s₂ (.sc 0 0 1) := by
    refine ⟨by decide, fun _ _ _ => ⟨rfl, 0, ⟨[], ⟨.ll 0 0, 0, .done, some 0⟩,
      [⟨.ll 1 0, 0, .done, some 0⟩], rfl, ⟨rfl, rfl, rfl, rfl⟩, rfl, ?_⟩, rfl⟩⟩
    intro x hx hproc
    obtain rfl := List.mem_singleton.mp hx
    exact absurd hproc (by decide)
  have h₃ : ValueRun (Updates (fun _ v => v + 1) 0) s₀
      [⟨.ll 0 0, 0, .done, some 0⟩, ⟨.ll 1 0, 0, .done, some 0⟩, ⟨.sc 0 0 1, 0, .done, none⟩] s₃ :=
    ValueRun.direct (.sc 0 0 1) none h₂ (coldPair_procs 0 (by decide)) (by decide) hsc (by decide)
      (by decide) (by decide) (by decide) (fun _ => by decide)
  have h₄ : ValueRun (Updates (fun _ v => v + 1) 0) s₀
      [⟨.ll 0 0, 0, .done, some 0⟩, ⟨.ll 1 0, 0, .done, some 0⟩, ⟨.sc 0 0 1, 0, .done, none⟩,
        ⟨.ll 1 0, 0, .done, some 1⟩] s₄ :=
    ValueRun.direct (.ll 1 0) (some 1) h₃ (coldPair_procs 1 (by decide)) (by decide)
      (hread (by decide) rfl) (by decide) (by decide) (by decide) (by decide) (by decide)
  have hsplit : [⟨.ll 0 0, 0, .done, some 0⟩, ⟨.ll 1 0, 0, .done, some 0⟩,
        ⟨.sc 0 0 1, 0, .done, none⟩, (⟨.ll 1 0, 0, .done, some 1⟩ : XrDone)] =
      [⟨.ll 0 0, 0, .done, some 0⟩, ⟨.ll 1 0, 0, .done, some 0⟩, ⟨.sc 0 0 1, 0, .done, none⟩] ++
        ⟨.ll 1 0, 0, .done, some 1⟩ :: [] := rfl
  exact ⟨s₄, h₄, rmw_serial coldStart_coldPair h₄ hsplit rfl rfl rfl rfl⟩

/-! ## A spin lock -/

/-- `p` has taken the lock in this word, with an SC, and has not stored into it since. -/
def SpinHolder (trace : List XrDone) (p word : Nat) : Prop :=
  ∃ before e after, trace = before ++ e :: after ∧ e.op.proc = p ∧ e.op.kind = .sc ∧
    e.StoredIn word ∧ ∀ x ∈ after, x.StoredIn word → x.op.proc ≠ p

/-- An operation of a run in which the word is a lock: an SC takes it, from a processor that
has read 0 there, and the processor that has it gives it back with a plain store. -/
structure SpinLock (word : Nat) (trace : List XrDone) (s : XrCachedSys LineRam) (op : XrLlScOp) :
    Prop where
  handler : (s.procs op.proc).cr crEb ≠ 0
  stores : op.req.read = false → op.target s ≠ none → op.physAddress s / 4 = word →
    op.req.length = 4 ∧
      ((op.kind = .sc ∧ op.req.srcvalue = 1 ∧ Linked trace op.proc word 0) ∨
        (op.kind = .store ∧ op.req.srcvalue = 0 ∧ SpinHolder trace op.proc word))

/-- The lock is free, or somebody has it. -/
inductive SpinState (word : Nat) (trace : List XrDone) (v : Word) : Prop where
  | free : v = 0 → (∀ p, ¬SpinHolder trace p word) → SpinState word trace v
  | held (p : Nat) : v = 1 → SpinHolder trace p word → (∀ q, SpinHolder trace q word → q = p) →
      SpinState word trace v

section

variable {s₀ s : XrCachedSys LineRam} {trace : List XrDone} {word : Nat} {e : XrDone} {q : Nat}

theorem SpinHolder.of_snoc (h : SpinHolder (trace ++ [e]) q word) :
    (e.op.proc = q ∧ e.op.kind = .sc ∧ e.StoredIn word) ∨
      (SpinHolder trace q word ∧ (e.StoredIn word → e.op.proc ≠ q)) := by
  obtain ⟨before, d, after, htrace, hproc, hk, hst, hsince⟩ := h
  rcases Lists.snoc_split htrace with ⟨-, rfl, -⟩ | ⟨rest, rfl, hrest⟩
  · exact .inl ⟨hproc, hk, hst⟩
  · exact .inr ⟨⟨before, d, rest, hrest, hproc, hk, hst,
      fun y hy => hsince y (List.mem_append_left _ hy)⟩,
      hsince e (List.mem_append_right _ (List.mem_singleton_self e))⟩

theorem SpinHolder.snoc (h : SpinHolder trace q word) (he : ¬e.StoredIn word) :
    SpinHolder (trace ++ [e]) q word := by
  obtain ⟨before, d, after, rfl, hproc, hk, hst, hsince⟩ := h
  refine ⟨before, d, after ++ [e], by simp, hproc, hk, hst, fun x hx hxst => ?_⟩
  rcases List.mem_append.mp hx with hx | hx
  · exact hsince x hx hxst
  · obtain rfl := List.mem_singleton.mp hx
    exact absurd hxst he

theorem ValueRun.spins (hs : ColdStart s₀) (hfree : wordAt s₀.mem.bus.bytes word = 0)
    (h : ValueRun (SpinLock word) s₀ trace s) :
    SpinState word trace (wordAt (flatOf s₀.mem.bus.bytes trace) word) := by
  induction h with
  | nil => exact .free hfree fun p hp => by obtain ⟨_, _, _, htrace, -⟩ := hp; simp at htrace
  | core _ _ _ _ ih => exact ih
  | @access trace s op r s' hrun hl hok he ih =>
      have hinv := hrun.inv hs fun hu => hu.handler
      have hflat := exec_flat hinv.cache hinv.agrees hl hok.handler he
      have hplaced : (⟨op, op.physAddress s, r⟩ : XrDone).Placed :=
        fun hdone => ⟨hl.length, hflat.aligned hdone⟩
      rw [flatOf_snoc]
      by_cases hst : (⟨op, op.physAddress s, r⟩ : XrDone).StoredIn word
      · obtain ⟨hlen, htake | hgive⟩ := hok.stores hst.1.2 (hflat.found hst.1.1) hst.2
        · obtain ⟨hsc, hvalue, hlinked⟩ := htake
          have hold := hlinked.unchanged hs hrun hinv hl hsc hst.2 he hst.1.1
          rw [wordAt_stored hplaced hst hlen, hvalue]
          -- It was free.
          cases ih with
          | free _ hno =>
              refine .held op.proc rfl ⟨trace, _, [], rfl, rfl, hsc, hst, by simp⟩ fun q hq => ?_
              rcases hq.of_snoc with ⟨rfl, -⟩ | ⟨hq, -⟩
              · rfl
              · exact absurd hq (hno q)
          | held _ hone =>
              rw [hold] at hone
              exact absurd hone (by decide)
        · obtain ⟨hk, hvalue, hmine⟩ := hgive
          rw [wordAt_stored hplaced hst hlen, hvalue]
          cases ih with
          | free _ hno => exact absurd hmine (hno op.proc)
          | held p _ _ hunique =>
              refine .free rfl fun q hq => ?_
              rcases hq.of_snoc with ⟨-, hsc, -⟩ | ⟨hq, hother⟩
              · rw [hk] at hsc
                cases hsc
              · exact hother hst ((hunique op.proc hmine).trans (hunique q hq).symm)
      · rw [wordAt_elsewhere hplaced hst]
        cases ih with
        | free hzero hno =>
            refine .free hzero fun q hq => ?_
            rcases hq.of_snoc with ⟨-, -, hst'⟩ | ⟨hq, -⟩
            · exact hst hst'
            · exact hno q hq
        | held p hone hmine hunique =>
            refine .held p hone (hmine.snoc hst) fun q hq => ?_
            rcases hq.of_snoc with ⟨-, -, hst'⟩ | ⟨hq, -⟩
            · exact absurd hst' hst
            · exact hunique q hq

/-- No two processors have a spin lock at once, and the word tells whether one has it. -/
theorem spin_exclusive (hs : ColdStart s₀) (hfree : wordAt s₀.mem.bus.bytes word = 0)
    (h : ValueRun (SpinLock word) s₀ trace s) :
    (∀ p q, SpinHolder trace p word → SpinHolder trace q word → p = q) ∧
      (wordAt (flatOf s₀.mem.bus.bytes trace) word = 0 ↔ ∀ p, ¬SpinHolder trace p word) ∧
      Agrees s₀.mem.bus.populated (flatOf s₀.mem.bus.bytes trace) s := by
  refine ⟨?_, ?_, (h.inv hs fun hu => hu.handler).agrees⟩
  · intro p q hp hq
    cases h.spins hs hfree with
    | free _ hno => exact absurd hp (hno p)
    | held _ _ _ hunique => exact (hunique p hp).trans (hunique q hq).symm
  · cases h.spins hs hfree with
    | free hzero hno => exact iff_of_true hzero hno
    | held p hone hmine _ =>
        refine iff_of_false ?_ fun hno => hno p hmine
        rw [hone]
        decide

end

/-- Processor 0 has taken the lock; processor 1 finds it taken. -/
theorem spin_exclusive_pair :
    ∃ s, ValueRun (SpinLock 0) coldPair
        [⟨.ll 0 0, 0, .done, some 0⟩, ⟨.sc 0 0 1, 0, .done, none⟩, ⟨.ll 1 0, 0, .done, some 1⟩] s ∧
      (∀ p q, SpinHolder [⟨.ll 0 0, 0, .done, some 0⟩, ⟨.sc 0 0 1, 0, .done, none⟩,
          ⟨.ll 1 0, 0, .done, some 1⟩] p 0 →
        SpinHolder [⟨.ll 0 0, 0, .done, some 0⟩, ⟨.sc 0 0 1, 0, .done, none⟩,
          ⟨.ll 1 0, 0, .done, some 1⟩] q 0 → p = q) := by
  let s₁ := (XrLlScOp.ll 0 0).direct coldPair
  let s₂ := (XrLlScOp.sc 0 0 1).direct s₁
  let s₃ := (XrLlScOp.ll 1 0).direct s₂
  have hread : ∀ {trace : List XrDone} {s : XrCachedSys LineRam} {op : XrLlScOp},
      (s.procs op.proc).cr crEb ≠ 0 → op.req.read = true → SpinLock 0 trace s op :=
    fun heb hop => ⟨heb, fun hw => absurd hop (by simp [hw])⟩
  have h₁ : ValueRun (SpinLock 0) coldPair [⟨.ll 0 0, 0, .done, some 0⟩] s₁ :=
    ValueRun.direct (.ll 0 0) (some 0) .nil (coldPair_procs 0 (by decide)) (by decide)
      (hread (by decide) rfl) (by decide) (by decide) (by decide) (by decide) (by decide)
  have hsc : SpinLock 0 [⟨.ll 0 0, 0, .done, some 0⟩] s₁ (.sc 0 0 1) :=
    ⟨by decide, fun _ _ _ => ⟨rfl, .inl ⟨rfl, rfl, [], ⟨.ll 0 0, 0, .done, some 0⟩, [], rfl,
      ⟨rfl, rfl, rfl, rfl⟩, rfl, by simp⟩⟩⟩
  have h₂ : ValueRun (SpinLock 0) coldPair
      [⟨.ll 0 0, 0, .done, some 0⟩, ⟨.sc 0 0 1, 0, .done, none⟩] s₂ :=
    ValueRun.direct (.sc 0 0 1) none h₁ (coldPair_procs 0 (by decide)) (by decide) hsc (by decide)
      (by decide) (by decide) (by decide) (fun _ => by decide)
  have h₃ : ValueRun (SpinLock 0) coldPair
      [⟨.ll 0 0, 0, .done, some 0⟩, ⟨.sc 0 0 1, 0, .done, none⟩, ⟨.ll 1 0, 0, .done, some 1⟩] s₃ :=
    ValueRun.direct (.ll 1 0) (some 1) h₂ (coldPair_procs 1 (by decide)) (by decide)
      (hread (by decide) rfl) (by decide) (by decide) (by decide) (by decide) (by decide)
  have hfree : wordAt coldPair.mem.bus.bytes 0 = 0 := by decide
  exact ⟨s₃, h₃, (spin_exclusive coldStart_coldPair hfree h₃).1⟩

end Xremu
