import Mathlib.Logic.Function.Basic

/-!
# Lock programs: stretches of local code between mutex operations

A lock program is the code of one thread, cut at its mutex operations. Between
two of them the thread runs local code on the shared state (`act`); taking and
releasing a mutex are operations of their own. The same text has two readings:

- `Prog.run`: the whole program at once, nobody else running. Mutexes are then
  never contended, so the lock operations do nothing.
- `Concurrency/Rely.lean`: any number of threads interleaved, where one step is
  one stretch of local code or one mutex operation.

A program that jumps back to a label of an enclosing loop returns `Sum.inl` of
the label's arguments (`runLoop`), so every program is a finite tree.
-/

namespace Concurrency

/-- A program over the shared state `σ` with mutexes named by `ι`. -/
inductive Prog (σ ι α : Type) : Type where
  | ret (a : α)
  | act (upd : σ → σ) (next : σ → Prog σ ι α)   -- `next` reads the state before `upd`
  | lock (l : ι) (next : Prog σ ι α)
  | unlock (l : ι) (next : Prog σ ι α)

namespace Prog

variable {σ ι α β γ : Type}

def bind : Prog σ ι α → (α → Prog σ ι β) → Prog σ ι β
  | .ret a, f => f a
  | .act upd next, f => .act upd fun s => (next s).bind f
  | .lock l next, f => .lock l (next.bind f)
  | .unlock l next, f => .unlock l (next.bind f)

instance : Monad (Prog σ ι) where
  pure := .ret
  bind := bind

def get : Prog σ ι σ := .act id .ret
def modify (f : σ → σ) : Prog σ ι Unit := .act f fun _ => .ret ()
def modifyGet (f : σ → α × σ) : Prog σ ι α := .act (fun s => (f s).2) fun s => .ret (f s).1
def acquire (l : ι) : Prog σ ι Unit := .lock l (.ret ())
def release (l : ι) : Prog σ ι Unit := .unlock l (.ret ())

/-- The program run to its end without interruption. -/
def run : Prog σ ι α → σ → α × σ
  | .ret a, s => (a, s)
  | .act upd next, s => (next s).run (upd s)
  | .lock _ next, s => next.run s
  | .unlock _ next, s => next.run s

@[simp] theorem run_pure (a : α) (s : σ) : (pure a : Prog σ ι α).run s = (a, s) := rfl
@[simp] theorem run_get (s : σ) : (get : Prog σ ι σ).run s = (s, s) := rfl
@[simp] theorem run_modify (f : σ → σ) (s : σ) :
    (modify f : Prog σ ι Unit).run s = ((), f s) := rfl
@[simp] theorem run_modifyGet (f : σ → α × σ) (s : σ) :
    (modifyGet f : Prog σ ι α).run s = f s := rfl
@[simp] theorem run_acquire (l : ι) (s : σ) : (acquire l : Prog σ ι Unit).run s = ((), s) := rfl
@[simp] theorem run_release (l : ι) (s : σ) : (release l : Prog σ ι Unit).run s = ((), s) := rfl

@[simp] theorem run_bind (x : Prog σ ι α) (f : α → Prog σ ι β) (s : σ) :
    (x >>= f).run s = (f (x.run s).1).run (x.run s).2 := by
  show (x.bind f).run s = _
  induction x generalizing s with
  | ret a => rfl
  | act upd next ih => exact ih s (upd s)
  | lock l next ih => exact ih s
  | unlock l next ih => exact ih s

/-- Local code up to the next mutex operation or the end. -/
def settle : Prog σ ι α → σ → Prog σ ι α × σ
  | .act upd next, s => (next s).settle (upd s)
  | .ret a, s => (.ret a, s)
  | .lock l next, s => (.lock l next, s)
  | .unlock l next, s => (.unlock l next, s)

end Prog

/-! ## What every stretch of local code respects -/

namespace Prog

variable {σ ι α β : Type}

/-- Every stretch of local code relates the state before it to the state after it. -/
def Keeps (R : σ → σ → Prop) : Prog σ ι α → Prop
  | .ret _ => True
  | .act upd next => ∀ s, R s (upd s) ∧ (next s).Keeps R
  | .lock _ next => next.Keeps R
  | .unlock _ next => next.Keeps R

variable {R : σ → σ → Prop}

theorem keeps_pure (a : α) : (pure a : Prog σ ι α).Keeps R := trivial
theorem keeps_get (hrefl : ∀ s, R s s) : (get : Prog σ ι σ).Keeps R := fun s => ⟨hrefl s, trivial⟩
theorem keeps_modify {f : σ → σ} (hf : ∀ s, R s (f s)) : (modify f : Prog σ ι Unit).Keeps R :=
  fun s => ⟨hf s, trivial⟩
theorem keeps_acquire (l : ι) : (acquire l : Prog σ ι Unit).Keeps R := trivial
theorem keeps_release (l : ι) : (release l : Prog σ ι Unit).Keeps R := trivial

theorem keeps_bind {x : Prog σ ι α} {f : α → Prog σ ι β} (hx : x.Keeps R)
    (hf : ∀ a, (f a).Keeps R) : (x >>= f).Keeps R := by
  show (x.bind f).Keeps R
  induction x with
  | ret a => exact hf a
  | act upd next ih => exact fun s => ⟨(hx s).1, ih s (hx s).2⟩
  | lock l next ih => exact ih hx
  | unlock l next ih => exact ih hx

/-- A whole run. -/
theorem Keeps.run {x : Prog σ ι α} (hx : x.Keeps R) (hrefl : ∀ s, R s s)
    (htrans : ∀ s t u, R s t → R t u → R s u) (s : σ) : R s (x.run s).2 := by
  induction x generalizing s with
  | ret a => exact hrefl s
  | act upd next ih => exact htrans s (upd s) _ (hx s).1 (ih s (hx s).2 (upd s))
  | lock l next ih => exact ih hx s
  | unlock l next ih => exact ih hx s

end Prog

/-! ## Two runs side by side -/

namespace Prog

variable {σ ι α β : Type}

/-- Runs from states related by `R` return the same thing and end in states related by `Q`. -/
def Alike (R : σ → σ → Prop) (Q : α → σ → σ → Prop) (x : Prog σ ι α) : Prop :=
  ∀ s t, R s t → (x.run s).1 = (x.run t).1 ∧ Q (x.run s).1 (x.run s).2 (x.run t).2

variable {R : σ → σ → Prop} {Q : α → σ → σ → Prop} {Q' : β → σ → σ → Prop}

theorem alike_pure {a : α} (h : ∀ s t, R s t → Q a s t) : (pure a : Prog σ ι α).Alike R Q :=
  fun s t hst => ⟨rfl, h s t hst⟩

theorem alike_modify {f : σ → σ} {Q : Unit → σ → σ → Prop} (h : ∀ s t, R s t → Q () (f s) (f t)) :
    (modify f : Prog σ ι Unit).Alike R Q :=
  fun s t hst => ⟨rfl, h s t hst⟩

theorem alike_acquire (l : ι) : (acquire l : Prog σ ι Unit).Alike R fun _ => R :=
  fun _ _ hst => ⟨rfl, hst⟩

theorem alike_release (l : ι) : (release l : Prog σ ι Unit).Alike R fun _ => R :=
  fun _ _ hst => ⟨rfl, hst⟩

theorem alike_bind {x : Prog σ ι α} {f : α → Prog σ ι β} (hx : x.Alike R fun _ => R)
    (hf : ∀ a, (f a).Alike R Q') : (x >>= f).Alike R Q' := by
  intro s t hst
  obtain ⟨hout, hrel⟩ := hx s t hst
  simp only [run_bind]
  rw [← hout]
  exact hf _ _ _ hrel

/-- What is read may only be used where the two states agree. -/
theorem alike_get {f : σ → Prog σ ι β} (hsame : ∀ s t, R s t → f s = f t)
    (hf : ∀ s, (f s).Alike R Q') : ((get : Prog σ ι σ) >>= f).Alike R Q' := by
  intro s t hst
  simp only [run_bind, run_get]
  rw [← hsame s t hst]
  exact hf s s t hst

end Prog

/-- A loop of lock programs: `Sum.inl` jumps back with new arguments. `none`
when the fuel runs out. -/
def runLoop {σ ι o r : Type} (code : o → Prog σ ι (o ⊕ r)) : Nat → o → σ → Option (r × σ)
  | 0, _, _ => none
  | fuel + 1, a, s =>
      match (code a).run s with
      | (.inl a', s') => runLoop code fuel a' s'
      | (.inr out, s') => some (out, s')

section

variable {σ ι o r : Type} {code : o → Prog σ ι (o ⊕ r)} {fuel : Nat} {a a' : o} {out : r} {s : σ}

theorem runLoop_return (h : ((code a).run s).1 = .inr out) :
    runLoop code (fuel + 1) a s = some (out, ((code a).run s).2) := by
  rw [runLoop]
  split
  · next he =>
      rw [he] at h
      cases h
  · next he =>
      rw [he] at h ⊢
      cases h
      rfl

theorem runLoop_jump (h : ((code a).run s).1 = .inl a') :
    runLoop code (fuel + 1) a s = runLoop code fuel a' ((code a).run s).2 := by
  rw [runLoop]
  split
  · next he =>
      rw [he] at h ⊢
      cases h
      rfl
  · next he =>
      rw [he] at h
      cases h

/-- A whole loop respects what each round does. -/
theorem runLoop_keeps {R : σ → σ → Prop} (hcode : ∀ a, (code a).Keeps R) (hrefl : ∀ s, R s s)
    (htrans : ∀ s t u, R s t → R t u → R s u) {s' : σ}
    (h : runLoop code fuel a s = some (out, s')) : R s s' := by
  induction fuel generalizing a s with
  | zero => cases h
  | succ fuel ih =>
      have hround := (hcode a).run hrefl htrans s
      cases he : ((code a).run s).1 with
      | inl a' =>
          rw [runLoop_jump he] at h
          exact htrans _ _ _ hround (ih h)
      | inr out' =>
          rw [runLoop_return he] at h
          cases h
          exact hround

end

end Concurrency
