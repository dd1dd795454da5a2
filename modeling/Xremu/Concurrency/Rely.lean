import Mathlib.Logic.Function.Basic
import Mathlib.Logic.Relation
import Xremu.Concurrency.Prog

/-!
# Interleaved lock programs and what each thread may rely on

Threads `τ` run lock programs over one shared state. A step is one mutex
operation or one stretch of local code, so other threads may run before and
after every mutex operation.

A `Protocol` fixes the invariant of the shared state and, for each thread, what
the steps of the *other* threads may change (`Rely`). `wp` is the obligation of
one thread's program: each stretch, started in any state the others can leave
behind, keeps the invariant and changes nothing the others rely on. If every
program meets its obligation then the invariant holds in every state of every
interleaving (`Protocol.inv_of_reach`).
-/

namespace Concurrency

/-- The shared state and who holds which mutex. -/
structure World (σ ι τ : Type) where
  st : σ
  owner : ι → Option τ

namespace World

variable {σ ι τ : Type} [DecidableEq ι]

def acquire (w : World σ ι τ) (l : ι) (p : τ) : World σ ι τ :=
  { w with owner := Function.update w.owner l (some p) }

def release (w : World σ ι τ) (l : ι) : World σ ι τ :=
  { w with owner := Function.update w.owner l none }

@[simp] theorem acquire_st (w : World σ ι τ) (l : ι) (p : τ) : (w.acquire l p).st = w.st := rfl
@[simp] theorem release_st (w : World σ ι τ) (l : ι) : (w.release l).st = w.st := rfl

end World

/-- A thread is idle or has a program left to run. -/
inductive Thread (σ ι o r : Type) : Type where
  | idle
  | busy (prog : Prog σ ι (o ⊕ r))

/-- The invariant of the shared state and the interface between the threads. -/
structure Protocol (σ ι τ o r : Type) [DecidableEq ι] where
  /-- The code of an operation; `Sum.inl` jumps to another one. -/
  code : τ → o → Prog σ ι (o ⊕ r)
  /-- The operations a thread may start when it is idle. -/
  may : τ → o → Prop
  Inv : σ → Prop
  /-- What the other threads may do while thread `p` does nothing. -/
  Rely : τ → World σ ι τ → World σ ι τ → Prop
  /-- What holds of a thread between two operations. -/
  Idle : τ → World σ ι τ → Prop
  /-- What an operation needs when it starts. -/
  Pre : τ → o → World σ ι τ → Prop
  rely_refl : ∀ p w, Rely p w w
  rely_trans : ∀ {p u v w}, Rely p u v → Rely p v w → Rely p u w
  rely_acquire : ∀ {p q l w}, q ≠ p → w.owner l = none → Rely q w (w.acquire l p)
  rely_release : ∀ {p q l w}, q ≠ p → w.owner l = some p → Rely q w (w.release l)
  idle_stable : ∀ {p u v}, Rely p u v → Idle p u → Idle p v
  pre_stable : ∀ {p a u v}, Rely p u v → Pre p a u → Pre p a v
  pre_of_idle : ∀ {p a w}, Idle p w → may p a → Pre p a w

namespace Protocol

variable {σ ι τ o r α β : Type} [DecidableEq ι] (P : Protocol σ ι τ o r)

/-- The stretch of thread `p` from `w₀` to `w` may end here: the invariant
holds and no other thread saw anything it does not expect. -/
structure Yield (p : τ) (w₀ w : World σ ι τ) : Prop where
  inv : P.Inv w.st
  owner : w.owner = w₀.owner
  guar : ∀ q, q ≠ p → P.Rely q w₀ w

theorem Yield.refl {p : τ} {w : World σ ι τ} (h : P.Inv w.st) : P.Yield p w w :=
  ⟨h, rfl, fun q _ => P.rely_refl q w⟩

/-- The obligation of a program of thread `p`. The current stretch started at
`w₀` and is now at `w`. -/
def wp (p : τ) : Prog σ ι α → (α → World σ ι τ → World σ ι τ → Prop) →
    World σ ι τ → World σ ι τ → Prop
  | .ret a, post, w₀, w => post a w₀ w
  | .act upd next, post, w₀, w => wp p (next w.st) post w₀ { w with st := upd w.st }
  | .lock l next, post, w₀, w =>
      P.Yield p w₀ w ∧
      ∀ u, P.Rely p w u → P.Inv u.st → u.owner l = none →
        ∀ v, P.Rely p (u.acquire l p) v → P.Inv v.st → wp p next post v v
  | .unlock l next, post, w₀, w =>
      P.Yield p w₀ w ∧
      ∀ u, P.Rely p w u → P.Inv u.st → u.owner l = some p ∧
        ∀ v, P.Rely p (u.release l) v → P.Inv v.st → wp p next post v v

variable {P} {p : τ} {w₀ w : World σ ι τ}

@[simp] theorem wp_pure {a : α} {post : α → World σ ι τ → World σ ι τ → Prop} :
    P.wp p (pure a) post = post a := rfl

@[simp] theorem wp_get {post : σ → World σ ι τ → World σ ι τ → Prop} :
    P.wp p Prog.get post = fun w₀ w => post w.st w₀ w := rfl

@[simp] theorem wp_modify {f : σ → σ} {post : Unit → World σ ι τ → World σ ι τ → Prop} :
    P.wp p (Prog.modify f) post = fun w₀ w => post () w₀ { w with st := f w.st } := rfl

@[simp] theorem wp_modifyGet {f : σ → α × σ} {post : α → World σ ι τ → World σ ι τ → Prop} :
    P.wp p (Prog.modifyGet f) post =
      fun w₀ w => post (f w.st).1 w₀ { w with st := (f w.st).2 } := rfl

theorem wp_bind {x : Prog σ ι α} {f : α → Prog σ ι β}
    {post : β → World σ ι τ → World σ ι τ → Prop} :
    P.wp p (x >>= f) post = P.wp p x (fun a => P.wp p (f a) post) := by
  show P.wp p (x.bind f) post = _
  funext w₀ w
  induction x generalizing w₀ w with
  | ret a => rfl
  | act upd next ih => exact ih w.st _ _
  | lock l next ih => simp only [Prog.bind, wp, ih]
  | unlock l next ih => simp only [Prog.bind, wp, ih]

theorem wp_mono {x : Prog σ ι α} {post post' : α → World σ ι τ → World σ ι τ → Prop}
    (h : ∀ a u v, post a u v → post' a u v) (hx : P.wp p x post w₀ w) :
    P.wp p x post' w₀ w := by
  induction x generalizing w₀ w with
  | ret a => exact h a w₀ w hx
  | act upd next ih => exact ih w.st hx
  | lock l next ih =>
      exact ⟨hx.1, fun u hu iu hl v hv iv => ih (hx.2 u hu iu hl v hv iv)⟩
  | unlock l next ih =>
      exact ⟨hx.1, fun u hu iu => ⟨(hx.2 u hu iu).1, fun v hv iv => ih ((hx.2 u hu iu).2 v hv iv)⟩⟩

/-! ## Interleavings -/

/-- All threads over one shared state. -/
structure Config (σ ι τ o r : Type) where
  world : World σ ι τ
  threads : τ → Thread σ ι o r

variable (P)

/-- How an operation must end. -/
def post (p : τ) : o ⊕ r → World σ ι τ → World σ ι τ → Prop
  | .inl a, w₀, w => P.Yield p w₀ w ∧ P.Pre p a w
  | .inr _, w₀, w => P.Yield p w₀ w ∧ P.Idle p w

/-- Every operation meets its obligation. -/
def Sound : Prop :=
  ∀ p a w, P.Inv w.st → P.Pre p a w → P.wp p (P.code p a) (P.post p) w w

/-- What holds of a thread at the end of a stretch, whatever the others do. -/
def ThreadOk (p : τ) : Thread σ ι o r → World σ ι τ → Prop
  | .idle, w => P.Idle p w
  | .busy prog, w => ∀ u, P.Rely p w u → P.Inv u.st → P.wp p prog (P.post p) u u

/-- The invariant of the whole system. -/
structure ConfigOk (c : Config σ ι τ o r) : Prop where
  inv : P.Inv c.world.st
  thread : ∀ p, P.ThreadOk p (c.threads p) c.world

variable {P}

theorem ThreadOk.stable {t : Thread σ ι o r} {u v : World σ ι τ} (h : P.ThreadOk p t u)
    (hr : P.Rely p u v) : P.ThreadOk p t v := by
  cases t with
  | idle => exact P.idle_stable hr h
  | busy prog => exact fun w hw iw => h w (P.rely_trans hr hw) iw

theorem settle_ok {prog : Prog σ ι (o ⊕ r)} (h : P.wp p prog (P.post p) w₀ w) :
    let out := prog.settle w.st
    P.Yield p w₀ { w with st := out.2 } ∧ P.ThreadOk p (.busy out.1) { w with st := out.2 } := by
  induction prog generalizing w with
  | act upd next ih => exact ih w.st h
  | ret a =>
      cases a with
      | inl a =>
          exact ⟨h.1, fun u hu iu => ⟨Yield.refl P iu, P.pre_stable hu h.2⟩⟩
      | inr out =>
          exact ⟨h.1, fun u hu iu => ⟨Yield.refl P iu, P.idle_stable hu h.2⟩⟩
  | lock l next ih =>
      refine ⟨h.1, fun u hu iu => ⟨Yield.refl P iu, ?_⟩⟩
      intro v hv iv hl x hx ix
      exact h.2 v (P.rely_trans hu hv) iv hl x hx ix
  | unlock l next ih =>
      refine ⟨h.1, fun u hu iu => ⟨Yield.refl P iu, ?_⟩⟩
      intro v hv iv
      exact h.2 v (P.rely_trans hu hv) iv

variable (P) [DecidableEq τ]

/-- One step of thread `p`. -/
inductive Step (p : τ) : Config σ ι τ o r → Config σ ι τ o r → Prop where
  | start {w th a} : th p = .idle → P.may p a →
      Step p ⟨w, th⟩ ⟨w, Function.update th p (.busy (P.code p a))⟩
  | stretch {w th upd next} : th p = .busy (.act upd next) →
      Step p ⟨w, th⟩
        ⟨{ w with st := ((Prog.act upd next).settle w.st).2 },
          Function.update th p (.busy ((Prog.act upd next).settle w.st).1)⟩
  | lock {w th l next} : th p = .busy (.lock l next) → w.owner l = none →
      Step p ⟨w, th⟩ ⟨w.acquire l p, Function.update th p (.busy next)⟩
  | unlock {w th l next} : th p = .busy (.unlock l next) →
      Step p ⟨w, th⟩ ⟨w.release l, Function.update th p (.busy next)⟩
  | jump {w th a} : th p = .busy (.ret (.inl a)) →
      Step p ⟨w, th⟩ ⟨w, Function.update th p (.busy (P.code p a))⟩
  | finish {w th out} : th p = .busy (.ret (.inr out)) →
      Step p ⟨w, th⟩ ⟨w, Function.update th p .idle⟩

/-- The configurations some interleaving reaches from the state `s`, all
threads idle and all mutexes free. -/
def Reach (s : σ) : Config σ ι τ o r → Prop :=
  Relation.ReflTransGen (fun c c' => ∃ p, P.Step p c c') ⟨⟨s, fun _ => none⟩, fun _ => .idle⟩

variable {P}

/-- A step of `p` keeps the system invariant once it is known to keep the
state invariant, `p`'s own obligation, and what the others rely on. -/
theorem ConfigOk.update {c : Config σ ι τ o r} (hc : P.ConfigOk c) {w' : World σ ι τ}
    {t : Thread σ ι o r} (hi : P.Inv w'.st) (ht : P.ThreadOk p t w')
    (hg : ∀ q, q ≠ p → P.Rely q c.world w') :
    P.ConfigOk ⟨w', Function.update c.threads p t⟩ := by
  refine ⟨hi, fun q => ?_⟩
  by_cases hq : q = p
  · subst hq
    simpa only [Function.update_self] using ht
  · simp only [Function.update_of_ne hq]
    exact (hc.thread q).stable (hg q hq)

theorem ConfigOk.step (hs : P.Sound) {c c' : Config σ ι τ o r} (hc : P.ConfigOk c)
    (h : P.Step p c c') : P.ConfigOk c' := by
  cases h with
  | @start w th a hidle hmay =>
      have hp : P.ThreadOk p (th p) w := hc.thread p
      rw [hidle] at hp
      refine hc.update hc.inv (fun u hu iu => ?_) fun q _ => P.rely_refl q w
      exact hs p a u iu (P.pre_stable hu (P.pre_of_idle hp hmay))
  | @stretch w th upd next hbusy =>
      have hp : P.ThreadOk p (th p) w := hc.thread p
      rw [hbusy] at hp
      have hout := settle_ok (hp w (P.rely_refl p w) hc.inv)
      exact hc.update hout.1.inv hout.2 hout.1.guar
  | @lock w th l next hbusy hfree =>
      have hp : P.ThreadOk p (th p) w := hc.thread p
      rw [hbusy] at hp
      have hwp := hp w (P.rely_refl p w) hc.inv
      refine hc.update hc.inv (fun u hu iu => ?_) fun q hq => P.rely_acquire hq hfree
      exact hwp.2 w (P.rely_refl p w) hc.inv hfree u hu iu
  | @unlock w th l next hbusy =>
      have hp : P.ThreadOk p (th p) w := hc.thread p
      rw [hbusy] at hp
      have hwp := (hp w (P.rely_refl p w) hc.inv).2 w (P.rely_refl p w) hc.inv
      refine hc.update hc.inv (fun u hu iu => ?_) fun q hq => P.rely_release hq hwp.1
      exact hwp.2 u hu iu
  | @jump w th a hbusy =>
      have hp : P.ThreadOk p (th p) w := hc.thread p
      rw [hbusy] at hp
      refine hc.update hc.inv (fun u hu iu => ?_) fun q _ => P.rely_refl q w
      exact hs p a u iu (hp u hu iu).2
  | @finish w th out hbusy =>
      have hp : P.ThreadOk p (th p) w := hc.thread p
      rw [hbusy] at hp
      exact hc.update hc.inv (hp w (P.rely_refl p w) hc.inv).2 fun q _ => P.rely_refl q w

/-- If every operation meets its obligation, the invariant holds in every
state of every interleaving. -/
theorem inv_of_reach (hs : P.Sound) {s : σ} (hi : P.Inv s)
    (hidle : ∀ p, P.Idle p ⟨s, fun _ => none⟩) {c : Config σ ι τ o r} (h : P.Reach s c) :
    P.Inv c.world.st := by
  have hok : P.ConfigOk c := by
    induction h with
    | refl => exact ⟨hi, hidle⟩
    | tail _ hstep ih =>
        obtain ⟨p, hp⟩ := hstep
        exact ih.step hs hp
  exact hok.inv

/-! ## An operation that nobody interrupts -/

/-- The program from `w`, if no mutex that it asks for is held. -/
def solo (p : τ) : Prog σ ι α → World σ ι τ → Option (α × World σ ι τ)
  | .ret a, w => some (a, w)
  | .act upd next, w => solo p (next w.st) { w with st := upd w.st }
  | .lock l next, w => if (w.owner l).isNone then solo p next (w.acquire l p) else none
  | .unlock l next, w => solo p next (w.release l)

/-- The operation from `w`, with `n` jumps at most. -/
def soloOp (P : Protocol σ ι τ o r) (p : τ) : (n : Nat) → o → World σ ι τ → Option (World σ ι τ)
  | 0, _, _ => none
  | n + 1, a, w =>
      match solo p (P.code p a) w with
      | some (.inl a, w) => soloOp P p n a w
      | some (.inr _, w) => some w
      | none => none

variable {s : σ} {p : τ} {w w' : World σ ι τ} {th : τ → Thread σ ι o r}

theorem Reach.settle {prog : Prog σ ι (o ⊕ r)}
    (h : P.Reach s ⟨w, Function.update th p (.busy prog)⟩) :
    P.Reach s ⟨{ w with st := (prog.settle w.st).2 },
      Function.update th p (.busy (prog.settle w.st).1)⟩ := by
  cases prog with
  | act upd next =>
      have hstep := h.tail ⟨p, .stretch (Function.update_self p _ th)⟩
      rwa [Function.update_idem] at hstep
  | ret a => exact h
  | lock l next => exact h
  | unlock l next => exact h

/-- A program that runs to its end alone is a way to go on. -/
theorem Reach.solo {prog : Prog σ ι (o ⊕ r)} {out : o ⊕ r}
    (h : P.Reach s ⟨{ w with st := (prog.settle w.st).2 },
      Function.update th p (.busy (prog.settle w.st).1)⟩)
    (hsolo : Protocol.solo p prog w = some (out, w')) :
    P.Reach s ⟨w', Function.update th p (.busy (.ret out))⟩ := by
  induction prog generalizing w with
  | ret a =>
      cases hsolo
      exact h
  | act upd next ih => exact ih w.st (w := { w with st := upd w.st }) h hsolo
  | lock l next ih =>
      obtain ⟨hfree, hrest⟩ := Option.ite_none_right_eq_some.mp hsolo
      have hlocked : P.Reach s ⟨w.acquire l p, _⟩ := h.tail
        ⟨p, .lock (Function.update_self p _ th) (Option.isNone_iff_eq_none.mp hfree)⟩
      rw [Function.update_idem] at hlocked
      exact ih hlocked.settle hrest
  | unlock l next ih =>
      have hreleased : P.Reach s ⟨w.release l, _⟩ :=
        h.tail ⟨p, .unlock (Function.update_self p _ th)⟩
      rw [Function.update_idem] at hreleased
      exact ih hreleased.settle hsolo

theorem Reach.soloOp_busy {n : Nat} {a : o}
    (h : P.Reach s ⟨w, Function.update th p (.busy (P.code p a))⟩)
    (hsolo : soloOp P p n a w = some w') : P.Reach s ⟨w', Function.update th p .idle⟩ := by
  induction n generalizing a w with
  | zero => cases hsolo
  | succ n ih =>
      unfold soloOp at hsolo
      cases hrun : Protocol.solo p (P.code p a) w with
      | none =>
          rw [hrun] at hsolo
          cases hsolo
      | some end_ =>
          obtain ⟨out, w₁⟩ := end_
          have hend := h.settle.solo hrun
          rw [hrun] at hsolo
          cases out with
          | inl a' =>
              have hjump := hend.tail ⟨p, .jump (Function.update_self p _ th)⟩
              rw [Function.update_idem] at hjump
              exact ih hjump hsolo
          | inr out =>
              cases hsolo
              have hfinish := hend.tail ⟨p, .finish (Function.update_self p _ th)⟩
              rwa [Function.update_idem] at hfinish

/-- One operation after another, while nobody else does anything. -/
theorem Reach.soloOp {n : Nat} {a : o} (h : P.Reach s ⟨w, th⟩) (idle : th p = .idle)
    (may : P.may p a) (hsolo : Protocol.soloOp P p n a w = some w') : P.Reach s ⟨w', th⟩ := by
  have hstart : P.Reach s ⟨w, _⟩ := h.tail ⟨p, .start idle may⟩
  have hend := hstart.soloOp_busy hsolo
  rwa [← idle, Function.update_eq_self] at hend

end Protocol

end Concurrency
