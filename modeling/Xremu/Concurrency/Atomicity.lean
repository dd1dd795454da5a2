import Xremu.Concurrency.Rely

/-!
# Lock programs that implement an atomic object

An `AtomicObject` takes every operation in one step. The threads of a `Protocol` take many
steps for an operation, but nobody can tell if each operation has its effect at one moment
between its call and its return: then every history of calls and returns is a history of the
object (`Implementation.atomic`).

`eff` is the obligation of one thread's program: which state of the object the shared state
stands for (`Inv`), and where the effect of the operation is. It comes on top of a protocol
that is sound already, whose invariant and whose promises between the threads it may use.
-/

namespace Concurrency

/-- An object on which every operation has its effect at once. -/
structure AtomicObject (τ o r A : Type) where
  effect : τ → o → A → r → A → Prop

/-- How far the current operation of a thread is. -/
inductive Status (o r : Type) : Type where
  | idle
  | called (x : o)
  | answered (out : r)

inductive Event (τ o r : Type) : Type where
  | call (p : τ) (x : o)
  | ret (p : τ) (out : r)

namespace AtomicObject

variable {τ o r A : Type}

/-- Perhaps the operation of thread `p` has its effect. -/
inductive May (O : AtomicObject τ o r A) (p : τ) :
    Status o r → A → Status o r → A → Prop where
  | stay {st a} : May O p st a st a
  | now {x a out a'} : O.effect p x a out a' → May O p (.called x) a (.answered out) a'

/-- The histories of the object, with the states it goes through. -/
inductive Serves [DecidableEq τ] (O : AtomicObject τ o r A) (a₀ : A) :
    A → (τ → Status o r) → List (Event τ o r) → Prop where
  | start : Serves O a₀ a₀ (fun _ => .idle) []
  | call {a st hist} (p : τ) (x : o) : Serves O a₀ a st hist → st p = .idle →
      Serves O a₀ a (Function.update st p (.called x)) (hist ++ [.call p x])
  | effect {a a' st hist p x out} : Serves O a₀ a st hist → st p = .called x →
      O.effect p x a out a' → Serves O a₀ a' (Function.update st p (.answered out)) hist
  | ret {a st hist p out} : Serves O a₀ a st hist → st p = .answered out →
      Serves O a₀ a (Function.update st p .idle) (hist ++ [.ret p out])

section

variable {O : AtomicObject τ o r A} {a₀ a a' b : A} {hist : List (Event τ o r)} {p : τ}
  {st st' st'' : Status o r} {stats : τ → Status o r}

/-- An operation has its effect once. -/
theorem May.trans (h : O.May p st a st' b) (h' : O.May p st' b st'' a') :
    O.May p st a st'' a' := by
  cases h with
  | stay => exact h'
  | now heffect =>
      cases h' with
      | stay => exact .now heffect

theorem Serves.may [DecidableEq τ] (h : O.Serves a₀ a stats hist) (hmay : O.May p (stats p) a st' a') :
    O.Serves a₀ a' (Function.update stats p st') hist := by
  generalize hst : stats p = s at hmay
  cases hmay with
  | stay =>
      rw [← hst, Function.update_eq_self]
      exact h
  | now heffect => exact h.effect hst heffect

end

end AtomicObject

namespace Protocol

variable {σ ι τ o r A α β : Type} [DecidableEq ι]

/-! ## Histories of a protocol -/

/-- A thread is inside an operation. -/
inductive Inside : Thread σ ι o r → Prop where
  | act {upd next} : Inside (.busy (.act upd next))
  | lock {l next} : Inside (.busy (.lock l next))
  | unlock {l next} : Inside (.busy (.unlock l next))
  | jump {x} : Inside (.busy (.ret (.inl x)))

/-- The interleavings of operations that `starts` allows, with their calls and returns. -/
inductive History [DecidableEq τ] (P : Protocol σ ι τ o r) (starts : τ → o → Prop) (s : σ) :
    Config σ ι τ o r → List (Event τ o r) → Prop where
  | init : History P starts s ⟨⟨s, fun _ => none⟩, fun _ => .idle⟩ []
  | call {w th hist} (p : τ) (x : o) : History P starts s ⟨w, th⟩ hist → th p = .idle →
      starts p x →
      History P starts s ⟨w, Function.update th p (.busy (P.code p x))⟩ (hist ++ [.call p x])
  | inside {c c' hist p} : History P starts s c hist → Inside (c.threads p) → P.Step p c c' →
      History P starts s c' hist
  | ret {w th hist p out} : History P starts s ⟨w, th⟩ hist →
      th p = .busy (.ret (.inr out)) →
      History P starts s ⟨w, Function.update th p .idle⟩ (hist ++ [.ret p out])

/-! ## Obligations -/

/-- How the shared state stands for a state of the object. -/
structure Implementation (P : Protocol σ ι τ o r) (O : AtomicObject τ o r A) where
  Inv : σ → A → Prop
  /-- What the other threads may do while thread `p` does nothing. -/
  Rely : τ → World σ ι τ → A → World σ ι τ → A → Prop
  /-- The operation `x` may go on as `y`. -/
  GoesOn : o → o → Prop
  rely_refl : ∀ p w a, Rely p w a w a
  rely_trans : ∀ {p u a v b w c}, P.Rely p u v → Rely p u a v b → P.Rely p v w → Rely p v b w c →
    Rely p u a w c
  rely_acquire : ∀ {p q l w a}, q ≠ p → w.owner l = none → Rely q w a (w.acquire l p) a
  rely_release : ∀ {p q l w a}, q ≠ p → w.owner l = some p → Rely q w a (w.release l) a

namespace Implementation

variable {P : Protocol σ ι τ o r} {O : AtomicObject τ o r A} (I : Implementation P O)

/-- A stretch of thread `p` that may end here as far as the protocol goes may end here. -/
structure Yield (p : τ) (w₀ : World σ ι τ) (a₀ : A) (w : World σ ι τ) (a : A) : Prop where
  stands : I.Inv w.st a
  guar : ∀ q, q ≠ p → I.Rely q w₀ a₀ w a

/-- What thread `p` may find later. -/
structure After (p : τ) (w : World σ ι τ) (a : A) (v : World σ ι τ) (b : A) : Prop where
  rely : P.Rely p w v
  data : I.Rely p w a v b
  inv : P.Inv v.st
  stands : I.Inv v.st b

/-- The obligation of a program of thread `p`. The current stretch started at `w₀` and `a₀`
and is now at `w` and `a`. At a mutex operation the protocol already lets it end. -/
def eff (p : τ) : Prog σ ι α →
    (α → Status o r → World σ ι τ → A → World σ ι τ → A → Prop) →
    Status o r → World σ ι τ → A → World σ ι τ → A → Prop
  | .ret x, post, st, w₀, a₀, w, a => post x st w₀ a₀ w a
  | .act upd next, post, st, w₀, a₀, w, a =>
      ∃ st' a', O.May p st a st' a' ∧
        eff p (next w.st) post st' w₀ a₀ { w with st := upd w.st } a'
  | .lock l next, post, st, w₀, a₀, w, a =>
      P.Yield p w₀ w → I.Yield p w₀ a₀ w a ∧
        ∀ u b, I.After p w a u b → u.owner l = none →
          ∀ v c, I.After p (u.acquire l p) b v c → eff p next post st v c v c
  | .unlock l next, post, st, w₀, a₀, w, a =>
      P.Yield p w₀ w → I.Yield p w₀ a₀ w a ∧
        ∀ u b, I.After p w a u b → u.owner l = some p →
          ∀ v c, I.After p (u.release l) b v c → eff p next post st v c v c

/-- How the operation `x` must end, or go on. Its effect may be at the very end. -/
def post (p : τ) (x : o) : o ⊕ r → Status o r → World σ ι τ → A → World σ ι τ → A → Prop
  | .inl y, st, w₀, a₀, w, a =>
      P.Yield p w₀ w → I.Yield p w₀ a₀ w a ∧ st = .called x ∧ I.GoesOn x y
  | .inr out, st, w₀, a₀, w, a =>
      P.Yield p w₀ w → ∃ a', O.May p st a (.answered out) a' ∧ I.Yield p w₀ a₀ w a'

/-- Every operation meets its obligation, also one that goes on as another. -/
def Sound : Prop :=
  ∀ p x y w a, P.Inv w.st → I.Inv w.st a → P.Pre p y w → I.GoesOn x y →
    I.eff p (P.code p y) (I.post p x) (.called x) w a w a

variable {I} {p : τ} {w₀ w u v : World σ ι τ} {a₀ a b c : A} {st : Status o r} {x : o}

theorem Yield.refl (h : I.Inv w.st a) : I.Yield p w a w a :=
  ⟨h, fun q _ => I.rely_refl q w a⟩

theorem After.refl (hinv : P.Inv w.st) (h : I.Inv w.st a) : I.After p w a w a :=
  ⟨P.rely_refl p w, I.rely_refl p w a, hinv, h⟩

theorem After.trans (h : I.After p w a u b) (h' : I.After p u b v c) : I.After p w a v c where
  rely := P.rely_trans h.rely h'.rely
  data := I.rely_trans h.rely h.data h'.rely h'.data
  inv := h'.inv
  stands := h'.stands

/-! ## Rules -/

theorem eff_bind {y : Prog σ ι α} {f : α → Prog σ ι β}
    {Q : β → Status o r → World σ ι τ → A → World σ ι τ → A → Prop} :
    I.eff p (y >>= f) Q = I.eff p y fun z => I.eff p (f z) Q := by
  show I.eff p (y.bind f) Q = _
  induction y with
  | ret z => rfl
  | act upd next ih =>
      funext st w₀ a₀ w a
      simp only [Prog.bind, eff, ih]
  | lock l next ih =>
      funext st w₀ a₀ w a
      simp only [Prog.bind, eff, ih]
  | unlock l next ih =>
      funext st w₀ a₀ w a
      simp only [Prog.bind, eff, ih]

theorem eff_mono {prog : Prog σ ι α}
    {Q Q' : α → Status o r → World σ ι τ → A → World σ ι τ → A → Prop}
    (h : ∀ y st w₀ a₀ w a, Q y st w₀ a₀ w a → Q' y st w₀ a₀ w a)
    (hx : I.eff p prog Q st w₀ a₀ w a) : I.eff p prog Q' st w₀ a₀ w a := by
  induction prog generalizing st w₀ a₀ w a with
  | ret y => exact h _ _ _ _ _ _ hx
  | act upd next ih =>
      obtain ⟨st', a', hmay, hq⟩ := hx
      exact ⟨st', a', hmay, ih w.st hq⟩
  | lock l next ih =>
      intro hy
      obtain ⟨hyield, hnext⟩ := hx hy
      exact ⟨hyield, fun u b hu hl v c hv => ih (hnext u b hu hl v c hv)⟩
  | unlock l next ih =>
      intro hy
      obtain ⟨hyield, hnext⟩ := hx hy
      exact ⟨hyield, fun u b hu hl v c hv => ih (hnext u b hu hl v c hv)⟩

/-- What the protocol knows of a program may be used for its effect. -/
theorem eff_and_wp {prog : Prog σ ι α} {K : α → World σ ι τ → World σ ι τ → Prop}
    {Q : α → Status o r → World σ ι τ → A → World σ ι τ → A → Prop}
    (hwp : P.wp p prog K w₀ w) (h : I.eff p prog Q st w₀ a₀ w a) :
    I.eff p prog (fun y st w₀ a₀ w a => K y w₀ w ∧ Q y st w₀ a₀ w a) st w₀ a₀ w a := by
  induction prog generalizing st w₀ a₀ w a with
  | ret y => exact ⟨hwp, h⟩
  | act upd next ih =>
      obtain ⟨st', a', hmay, hnext⟩ := h
      exact ⟨st', a', hmay, ih w.st hwp hnext⟩
  | lock l next ih =>
      intro hy
      obtain ⟨hyield, hnext⟩ := h hy
      refine ⟨hyield, fun u b hu hl v c hv => ?_⟩
      exact ih (hwp.2 u hu.rely hu.inv hl v hv.rely hv.inv) (hnext u b hu hl v c hv)
  | unlock l next ih =>
      intro hy
      obtain ⟨hyield, hnext⟩ := h hy
      refine ⟨hyield, fun u b hu hl v c hv => ?_⟩
      exact ih ((hwp.2 u hu.rely hu.inv).2 v hv.rely hv.inv) (hnext u b hu hl v c hv)

@[simp] theorem eff_pure {y : α}
    {Q : α → Status o r → World σ ι τ → A → World σ ι τ → A → Prop} :
    I.eff p (pure y) Q = Q y := rfl

/-- Local code without an effect on the object. -/
theorem eff_modify {f : σ → σ} {Q : Unit → Status o r → World σ ι τ → A → World σ ι τ → A → Prop}
    (h : Q () st w₀ a₀ { w with st := f w.st } a) : I.eff p (Prog.modify f) Q st w₀ a₀ w a :=
  ⟨st, a, .stay, h⟩

theorem eff_modifyGet {f : σ → α × σ}
    {Q : α → Status o r → World σ ι τ → A → World σ ι τ → A → Prop}
    (h : Q (f w.st).1 st w₀ a₀ { w with st := (f w.st).2 } a) :
    I.eff p (Prog.modifyGet f) Q st w₀ a₀ w a :=
  ⟨st, a, .stay, h⟩

theorem eff_get {Q : σ → Status o r → World σ ι τ → A → World σ ι τ → A → Prop}
    (h : Q w.st st w₀ a₀ w a) : I.eff p Prog.get Q st w₀ a₀ w a :=
  ⟨st, a, .stay, h⟩

/-- The local code in which the operation has its effect. -/
theorem eff_modify_now {f : σ → σ} {out : r} {a' : A}
    {Q : Unit → Status o r → World σ ι τ → A → World σ ι τ → A → Prop}
    (heffect : O.effect p x a out a')
    (h : Q () (.answered out) w₀ a₀ { w with st := f w.st } a') :
    I.eff p (Prog.modify f) Q (.called x) w₀ a₀ w a :=
  ⟨.answered out, a', .now heffect, h⟩

theorem eff_get_now {out : r} {a' : A}
    {Q : σ → Status o r → World σ ι τ → A → World σ ι τ → A → Prop}
    (heffect : O.effect p x a out a') (h : Q w.st (.answered out) w₀ a₀ w a') :
    I.eff p Prog.get Q (.called x) w₀ a₀ w a :=
  ⟨.answered out, a', .now heffect, h⟩

/-! ## The system -/

/-- What holds of a thread at the end of a stretch, whatever the others do. -/
def ThreadOk (I : Implementation P O) (p : τ) :
    Thread σ ι o r → Status o r → World σ ι τ → A → Prop
  | .idle, st, _, _ => st = .idle
  | .busy prog, st, w, a =>
      ∃ x, ∀ v b, I.After p w a v b → I.eff p prog (I.post p x) st v b v b

theorem ThreadOk.stable {t : Thread σ ι o r} (h : I.ThreadOk p t st w a)
    (hafter : I.After p w a v b) : I.ThreadOk p t st v b := by
  cases t with
  | idle => exact h
  | busy prog =>
      obtain ⟨x, hx⟩ := h
      exact ⟨x, fun u c hu => hx u c (hafter.trans hu)⟩

/-- The stretch of a program up to its end. -/
theorem settle_eff {prog : Prog σ ι (o ⊕ r)} (h : I.eff p prog (I.post p x) st w₀ a₀ w a)
    (hyield : P.Yield p w₀ { w with st := (prog.settle w.st).2 }) :
    let out := prog.settle w.st
    ∃ st' a', O.May p st a st' a' ∧ I.Inv out.2 a' ∧
      (∀ q, q ≠ p → I.Rely q w₀ a₀ { w with st := out.2 } a') ∧
      I.ThreadOk p (.busy out.1) st' { w with st := out.2 } a' := by
  induction prog generalizing st w a with
  | act upd next ih =>
      obtain ⟨st₁, b, hmay, hnext⟩ := h
      obtain ⟨st', a', hmay', hrest⟩ := ih w.st hnext hyield
      exact ⟨st', a', hmay.trans hmay', hrest⟩
  | ret y =>
      cases y with
      | inl y =>
          obtain ⟨hy, hst, hgoes⟩ := h hyield
          exact ⟨st, a, .stay, hy.stands, hy.guar, x,
            fun v b hv _ => ⟨Yield.refl hv.stands, hst, hgoes⟩⟩
      | inr out =>
          obtain ⟨a', hmay, hy⟩ := h hyield
          exact ⟨.answered out, a', hmay, hy.stands, hy.guar, x,
            fun v b hv _ => ⟨b, .stay, Yield.refl hv.stands⟩⟩
  | lock l next ih =>
      obtain ⟨hy, hnext⟩ := h hyield
      refine ⟨st, a, .stay, hy.stands, hy.guar, x, fun v b hv _ => ⟨Yield.refl hv.stands, ?_⟩⟩
      intro u c hu hl y d hd
      exact hnext u c (hv.trans hu) hl y d hd
  | unlock l next ih =>
      obtain ⟨hy, hnext⟩ := h hyield
      refine ⟨st, a, .stay, hy.stands, hy.guar, x, fun v b hv _ => ⟨Yield.refl hv.stands, ?_⟩⟩
      intro u c hu hl y d hd
      exact hnext u c (hv.trans hu) hl y d hd

variable (I) [DecidableEq τ]

/-- The invariant of the whole system: it stands for the object in state `a`, with the
operations of the threads as far as `stats` says. -/
structure SystemOk (c : Config σ ι τ o r) (a : A) (stats : τ → Status o r) : Prop where
  config : P.ConfigOk c
  stands : I.Inv c.world.st a
  thread : ∀ p, I.ThreadOk p (c.threads p) (stats p) c.world a

variable {I} {c c' : Config σ ι τ o r} {stats : τ → Status o r} {hist : List (Event τ o r)}
  {starts : τ → o → Prop}

/-- A step of `p`, once it is known what it does to the object and to `p` itself. -/
theorem SystemOk.update {w' : World σ ι τ} {t : Thread σ ι o r} {st' : Status o r} {a' : A}
    (h : I.SystemOk c a stats)
    (hconfig : P.ConfigOk ⟨w', Function.update c.threads p t⟩) (hstands : I.Inv w'.st a')
    (hok : I.ThreadOk p t st' w' a') (hrely : ∀ q, q ≠ p → P.Rely q c.world w')
    (hdata : ∀ q, q ≠ p → I.Rely q c.world a w' a') :
    I.SystemOk ⟨w', Function.update c.threads p t⟩ a' (Function.update stats p st') := by
  refine ⟨hconfig, hstands, fun q => ?_⟩
  by_cases hq : q = p
  · subst hq
    simpa only [Function.update_self] using hok
  · simp only [Function.update_of_ne hq]
    exact (h.thread q).stable ⟨hrely q hq, hdata q hq, hconfig.inv, hstands⟩

omit [DecidableEq τ] in
theorem SystemOk.after (h : I.SystemOk c a stats) (p : τ) : I.After p c.world a c.world a :=
  .refl h.config.inv h.stands

/-- The thread is given other code, the shared state stays. -/
theorem SystemOk.turn {t : Thread σ ι o r} {st' : Status o r} {a' : A}
    (h : I.SystemOk c a stats)
    (hconfig : P.ConfigOk ⟨c.world, Function.update c.threads p t⟩)
    (hstands : I.Inv c.world.st a') (hok : I.ThreadOk p t st' c.world a')
    (hdata : ∀ q, q ≠ p → I.Rely q c.world a c.world a') :
    I.SystemOk ⟨c.world, Function.update c.threads p t⟩ a' (Function.update stats p st') :=
  h.update hconfig hstands hok (fun q _ => P.rely_refl q _) hdata

theorem SystemOk.call (hP : P.Sound) (hI : I.Sound) (h : I.SystemOk c a stats)
    (hidle : c.threads p = .idle) (hmay : P.may p x) (hgoes : I.GoesOn x x) :
    stats p = .idle ∧
      I.SystemOk ⟨c.world, Function.update c.threads p (.busy (P.code p x))⟩ a
        (Function.update stats p (.called x)) := by
  have hthread := h.thread p
  have hp := h.config.thread p
  rw [hidle] at hthread hp
  refine ⟨hthread, h.turn (h.config.step hP (.start hidle hmay)) h.stands ⟨x, ?_⟩
    fun q _ => I.rely_refl q _ a⟩
  intro v b hv
  exact hI p x x v b hv.inv hv.stands (P.pre_stable hv.rely (P.pre_of_idle hp hmay)) hgoes

theorem SystemOk.ret (hP : P.Sound) {out : r} (h : I.SystemOk c a stats)
    (hbusy : c.threads p = .busy (.ret (.inr out))) :
    ∃ a', O.May p (stats p) a (.answered out) a' ∧
      I.SystemOk ⟨c.world, Function.update c.threads p .idle⟩ a'
        (Function.update stats p .idle) := by
  have hthread := h.thread p
  rw [hbusy] at hthread
  obtain ⟨x, hx⟩ := hthread
  obtain ⟨a', hmay, hyield⟩ := hx _ _ (h.after p) (Protocol.Yield.refl P h.config.inv)
  exact ⟨a', hmay, h.turn (h.config.step hP (.finish hbusy)) hyield.stands rfl hyield.guar⟩

/-- A step inside an operation. -/
theorem SystemOk.inside (hP : P.Sound) (hI : I.Sound) (h : I.SystemOk c a stats)
    (hinside : Inside (c.threads p)) (hstep : P.Step p c c') :
    ∃ st' a', O.May p (stats p) a st' a' ∧ I.SystemOk c' a' (Function.update stats p st') := by
  have hconfig := h.config.step hP hstep
  cases hstep with
  | @start w th x hidle hmay =>
      have hinside' : Inside (th p) := hinside
      rw [hidle] at hinside'
      cases hinside'
  | @finish w th out hbusy =>
      have hinside' : Inside (th p) := hinside
      rw [hbusy] at hinside'
      cases hinside'
  | @stretch w th upd next hbusy =>
      have hthread : I.ThreadOk p (th p) (stats p) w a := h.thread p
      have hp : P.ThreadOk p (th p) w := h.config.thread p
      rw [hbusy] at hthread hp
      obtain ⟨x, hx⟩ := hthread
      have hyield := (settle_ok (hp w (P.rely_refl p w) h.config.inv)).1
      obtain ⟨st', a', hmay, hstands, hdata, hok⟩ := settle_eff (hx _ _ (h.after p)) hyield
      exact ⟨st', a', hmay, h.update hconfig hstands hok hyield.guar hdata⟩
  | @lock w th l next hbusy hfree =>
      have hthread : I.ThreadOk p (th p) (stats p) w a := h.thread p
      have hself : I.After p w a w a := h.after p
      rw [hbusy] at hthread
      obtain ⟨x, hx⟩ := hthread
      obtain ⟨-, hnext⟩ := hx w a hself (Protocol.Yield.refl P hself.inv)
      exact ⟨stats p, a, .stay, h.update hconfig h.stands ⟨x, hnext w a hself hfree⟩
        (fun q hq => P.rely_acquire hq hfree) fun q hq => I.rely_acquire hq hfree⟩
  | @unlock w th l next hbusy =>
      have hthread : I.ThreadOk p (th p) (stats p) w a := h.thread p
      have hp : P.ThreadOk p (th p) w := h.config.thread p
      have hself : I.After p w a w a := h.after p
      rw [hbusy] at hthread hp
      obtain ⟨x, hx⟩ := hthread
      have howner := ((hp w (P.rely_refl p w) h.config.inv).2 w (P.rely_refl p w) h.config.inv).1
      obtain ⟨-, hnext⟩ := hx w a hself (Protocol.Yield.refl P hself.inv)
      exact ⟨stats p, a, .stay, h.update hconfig h.stands ⟨x, hnext w a hself howner⟩
        (fun q hq => P.rely_release hq howner) fun q hq => I.rely_release hq howner⟩
  | @jump w th y hbusy =>
      have hthread : I.ThreadOk p (th p) (stats p) w a := h.thread p
      have hp : P.ThreadOk p (th p) w := h.config.thread p
      rw [hbusy] at hthread hp
      obtain ⟨x, hx⟩ := hthread
      obtain ⟨-, hst, hgoes⟩ := hx _ _ (h.after p) (Protocol.Yield.refl P h.config.inv)
      have hpre := (hp w (P.rely_refl p w) h.config.inv).2
      refine ⟨stats p, a, .stay, h.turn hconfig h.stands ⟨x, ?_⟩ fun q _ => I.rely_refl q _ a⟩
      intro v b hv
      rw [hst]
      exact hI p x y v b hv.inv hv.stands (P.pre_stable hv.rely hpre) hgoes

/-- If every operation meets its obligation, every history is one of the object. -/
theorem atomic (hP : P.Sound) (hI : I.Sound) {s : σ} (hinv : P.Inv s) (hstands : I.Inv s a₀)
    (hidle : ∀ p, P.Idle p ⟨s, fun _ => none⟩)
    (hstarts : ∀ p x, starts p x → P.may p x ∧ I.GoesOn x x)
    (run : P.History starts s c hist) :
    ∃ a stats, O.Serves a₀ a stats hist ∧ I.SystemOk c a stats := by
  induction run with
  | init =>
      refine ⟨a₀, fun _ => .idle, .start, ⟨hinv, hidle⟩, hstands, fun _ => rfl⟩
  | call p x _ hbusy hallowed ih =>
      obtain ⟨a, stats, hserves, hok⟩ := ih
      obtain ⟨hmay, hgoes⟩ := hstarts p x hallowed
      obtain ⟨hst, hok'⟩ := hok.call hP hI hbusy hmay hgoes
      exact ⟨a, _, hserves.call p x hst, hok'⟩
  | inside _ hinside hstep ih =>
      obtain ⟨a, stats, hserves, hok⟩ := ih
      obtain ⟨st', a', hmay, hok'⟩ := hok.inside hP hI hinside hstep
      exact ⟨a', _, hserves.may hmay, hok'⟩
  | @ret w th hist p out _ hbusy ih =>
      obtain ⟨a, stats, hserves, hok⟩ := ih
      obtain ⟨a', hmay, hok'⟩ := hok.ret hP hbusy
      have hserves' := (hserves.may hmay).ret (Function.update_self p (.answered out) stats)
      rw [Function.update_idem] at hserves'
      exact ⟨a', _, hserves', hok'⟩

end Implementation

end Protocol

end Concurrency
