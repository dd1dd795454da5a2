import Mathlib.Order.BooleanAlgebra.Set
import Xremu.Concurrency.Runs

/-!
# Lock discipline, and why it excludes deadlock

A program is disciplined when on every path, whatever the other threads leave in the
shared state between any two steps of local code, it asks only for mutexes it may ask
for with those it holds, and gives back only mutexes it holds (`Prog.Disciplined`).

Threads that run disciplined programs are interleaved at the finest grain: a turn is one
piece of local code or one mutex operation (`Turn`). What a program may ask for in an
order of the mutexes, each only while holding lower ones, cannot end in a deadlock
(`Interleaves.not_circular`, `Interleaves.goes_on`).

A state in which the whole process is over (it called `abort()`) has no turns after it.
-/

namespace Concurrency

/-! ## Programs -/

namespace Prog

variable {σ ι α β : Type}

/-- Every path of the program from holding `held` asks for mutexes as `Asks` allows and
gives back what it holds. The path ends with `post` of the result, of the mutexes held
and of the state its own last piece of local code left. -/
def Disciplined (Asks : Set ι → ι → Prop) :
    Prog σ ι α → (α → Set ι → σ → Prop) → Set ι → σ → Prop
  | .ret a, post, held, s => post a held s
  | .act upd next, post, held, _ => ∀ s, (next s).Disciplined Asks post held (upd s)
  | .lock l next, post, held, _ => Asks held l ∧ ∀ s, next.Disciplined Asks post (insert l held) s
  | .unlock l next, post, held, _ => l ∈ held ∧ ∀ s, next.Disciplined Asks post (held \ {l}) s

variable {Asks : Set ι → ι → Prop} {held : Set ι} {s : σ}

theorem disciplined_get {post : σ → Set ι → σ → Prop} (k : ∀ t, post t held t) :
    (get : Prog σ ι σ).Disciplined Asks post held s := k

theorem disciplined_modify {f : σ → σ} {post : Unit → Set ι → σ → Prop}
    (k : ∀ t, post () held (f t)) : (modify f : Prog σ ι Unit).Disciplined Asks post held s := k

theorem disciplined_modifyGet {f : σ → α × σ} {post : α → Set ι → σ → Prop}
    (k : ∀ t, post (f t).1 held (f t).2) :
    (modifyGet f : Prog σ ι α).Disciplined Asks post held s := k

theorem disciplined_acquire {l : ι} {post : Unit → Set ι → σ → Prop} (hl : Asks held l)
    (k : ∀ t, post () (insert l held) t) :
    (acquire l : Prog σ ι Unit).Disciplined Asks post held s := ⟨hl, k⟩

theorem disciplined_release {l : ι} {post : Unit → Set ι → σ → Prop} (hl : l ∈ held)
    (k : ∀ t, post () (held \ {l}) t) :
    (release l : Prog σ ι Unit).Disciplined Asks post held s := ⟨hl, k⟩

theorem disciplined_bind {x : Prog σ ι α} {f : α → Prog σ ι β} {post : β → Set ι → σ → Prop}
    (h : x.Disciplined Asks (fun a held s => (f a).Disciplined Asks post held s) held s) :
    (x >>= f).Disciplined Asks post held s := by
  show (x.bind f).Disciplined Asks post held s
  induction x generalizing held s with
  | ret a => exact h
  | act upd next ih => exact fun t => ih t (h t)
  | lock l next ih => exact ⟨h.1, fun t => ih (h.2 t)⟩
  | unlock l next ih => exact ⟨h.1, fun t => ih (h.2 t)⟩

theorem Disciplined.mono {x : Prog σ ι α} {post post' : α → Set ι → σ → Prop}
    (h : x.Disciplined Asks post held s) (hpost : ∀ a held s, post a held s → post' a held s) :
    x.Disciplined Asks post' held s := by
  induction x generalizing held s with
  | ret a => exact hpost a held s h
  | act upd next ih => exact fun t => ih t (h t)
  | lock l next ih => exact ⟨h.1, fun t => ih (h.2 t)⟩
  | unlock l next ih => exact ⟨h.1, fun t => ih (h.2 t)⟩

end Prog

/-! ## Interleavings -/

section

open Protocol (Config)

variable {σ ι τ o r : Type} [DecidableEq ι] [DecidableEq τ]

/-- One turn of thread `p`: local code may be interrupted between any two of its pieces. -/
inductive Turn (code : τ → o → Prog σ ι (o ⊕ r)) (p : τ) :
    Config σ ι τ o r → Config σ ι τ o r → Prop where
  | start {w th} (a : o) : th p = .idle →
      Turn code p ⟨w, th⟩ ⟨w, Function.update th p (.busy (code p a))⟩
  | act {w th upd next} : th p = .busy (.act upd next) →
      Turn code p ⟨w, th⟩ ⟨{ w with st := upd w.st }, Function.update th p (.busy (next w.st))⟩
  | lock {w th l next} : th p = .busy (.lock l next) → w.owner l = none →
      Turn code p ⟨w, th⟩ ⟨w.acquire l p, Function.update th p (.busy next)⟩
  | unlock {w th l next} : th p = .busy (.unlock l next) →
      Turn code p ⟨w, th⟩ ⟨w.release l, Function.update th p (.busy next)⟩
  | jump {w th a} : th p = .busy (.ret (.inl a)) →
      Turn code p ⟨w, th⟩ ⟨w, Function.update th p (.busy (code p a))⟩
  | finish {w th out} : th p = .busy (.ret (.inr out)) →
      Turn code p ⟨w, th⟩ ⟨w, Function.update th p .idle⟩

/-- The configurations some interleaving reaches from the state `s`, all threads idle and
all mutexes free, before the process is over. -/
def Interleaves (code : τ → o → Prog σ ι (o ⊕ r)) (Over : σ → Prop) (s : σ) :
    Config σ ι τ o r → Prop :=
  Relation.ReflTransGen (fun c c' => ¬Over c.world.st ∧ ∃ p, Turn code p c c')
    ⟨⟨s, fun _ => none⟩, fun _ => .idle⟩

/-- Every operation is disciplined and ends with no mutex held, unless the process is over. -/
def DisciplinedCode (Asks : Set ι → ι → Prop) (Over : σ → Prop)
    (code : τ → o → Prog σ ι (o ⊕ r)) : Prop :=
  ∀ p a s, (code p a).Disciplined Asks (fun _ held s => held = ∅ ∨ Over s) ∅ s

/-- The mutexes thread `p` holds. -/
def World.heldBy (w : World σ ι τ) (p : τ) : Set ι := {l | w.owner l = some p}

omit [DecidableEq τ] in
theorem World.heldBy_acquire (w : World σ ι τ) (l : ι) (p : τ) :
    (w.acquire l p).heldBy p = insert l (w.heldBy p) := by
  ext k
  by_cases hk : k = l
  · simp [World.heldBy, World.acquire, hk]
  · simp [World.heldBy, World.acquire, hk]

omit [DecidableEq τ] in
theorem World.heldBy_acquire_other {w : World σ ι τ} {l : ι} {p q : τ} (hq : q ≠ p)
    (hl : w.owner l = none) : (w.acquire l p).heldBy q = w.heldBy q := by
  ext k
  by_cases hk : k = l
  · subst hk
    simp [World.heldBy, World.acquire, hl, Ne.symm hq]
  · simp [World.heldBy, World.acquire, hk]

omit [DecidableEq τ] in
theorem World.heldBy_release (w : World σ ι τ) (l : ι) (p : τ) :
    (w.release l).heldBy p = w.heldBy p \ {l} := by
  ext k
  by_cases hk : k = l
  · simp [World.heldBy, World.release, hk]
  · simp [World.heldBy, World.release, hk]

omit [DecidableEq τ] in
theorem World.heldBy_release_other {w : World σ ι τ} {l : ι} {p q : τ} (hq : q ≠ p)
    (hl : l ∈ w.heldBy p) : (w.release l).heldBy q = w.heldBy q := by
  have hl' : w.owner l = some p := hl
  ext k
  by_cases hk : k = l
  · subst hk
    simp [World.heldBy, World.release, hl', Ne.symm hq]
  · simp [World.heldBy, World.release, hk]

/-- What is left of a thread's operation is disciplined. The state is the one its last
piece of local code left, before which the process was not over. -/
def OrderlyThread (Asks : Set ι → ι → Prop) (Over : σ → Prop) (held : Set ι) :
    Thread σ ι o r → Prop
  | .idle => held = ∅
  | .busy prog => ∃ s, ¬Over s ∧ prog.Disciplined Asks (fun _ held s => held = ∅ ∨ Over s) held s

/-- Every thread is in the middle of a disciplined operation or holds nothing. -/
def Orderly (Asks : Set ι → ι → Prop) (Over : σ → Prop) (c : Config σ ι τ o r) : Prop :=
  ∀ p, OrderlyThread Asks Over (c.world.heldBy p) (c.threads p)

variable {code : τ → o → Prog σ ι (o ⊕ r)} {Asks : Set ι → ι → Prop} {Over : σ → Prop}

omit [DecidableEq ι] [DecidableEq τ] in
theorem Orderly.thread {c : Config σ ι τ o r} (h : Orderly Asks Over c) {p : τ}
    {t : Thread σ ι o r} (ht : c.threads p = t) : OrderlyThread Asks Over (c.world.heldBy p) t := by
  rw [← ht]
  exact h p

omit [DecidableEq ι] in
/-- A turn of `p` that leaves the others their mutexes. -/
theorem Orderly.update {c : Config σ ι τ o r} (h : Orderly Asks Over c) {w : World σ ι τ} {p : τ}
    {t : Thread σ ι o r} (ht : OrderlyThread Asks Over (w.heldBy p) t)
    (hothers : ∀ q, q ≠ p → w.heldBy q = c.world.heldBy q) :
    Orderly Asks Over ⟨w, Function.update c.threads p t⟩ := by
  intro q
  by_cases hq : q = p
  · subst hq
    simpa only [Function.update_self] using ht
  · simp only [Function.update_of_ne hq, hothers q hq]
    exact h q

/-- One turn. -/
theorem Orderly.turn (hcode : DisciplinedCode Asks Over code) {c c' : Config σ ι τ o r} {p : τ}
    (h : Orderly Asks Over c) (hover : ¬Over c.world.st) (hturn : Turn code p c c') :
    Over c'.world.st ∨ Orderly Asks Over c' := by
  cases hturn with
  | @start w th a hidle =>
      have hheld : w.heldBy p = ∅ := h.thread hidle
      refine .inr (h.update ⟨w.st, hover, ?_⟩ fun q _ => rfl)
      rw [hheld]
      exact hcode p a w.st
  | @act w th upd next hbusy =>
      obtain ⟨s, -, hnext⟩ := h.thread hbusy
      by_cases hover' : Over (upd w.st)
      · exact .inl hover'
      · exact .inr (h.update ⟨upd w.st, hover', hnext w.st⟩ fun q _ => rfl)
  | @lock w th l next hbusy hfree =>
      obtain ⟨s, hs, hask, hnext⟩ := h.thread hbusy
      refine .inr (h.update ⟨s, hs, ?_⟩ fun q hq => World.heldBy_acquire_other hq hfree)
      rw [World.heldBy_acquire]
      exact hnext s
  | @unlock w th l next hbusy =>
      obtain ⟨s, hs, hmem, hnext⟩ := h.thread hbusy
      refine .inr (h.update ⟨s, hs, ?_⟩ fun q hq => World.heldBy_release_other hq hmem)
      rw [World.heldBy_release]
      exact hnext s
  | @jump w th a hbusy =>
      obtain ⟨s, hs, hend⟩ := h.thread hbusy
      refine .inr (h.update ⟨w.st, hover, ?_⟩ fun q _ => rfl)
      rw [hend.resolve_right hs]
      exact hcode p a w.st
  | @finish w th out hbusy =>
      obtain ⟨s, hs, hend⟩ := h.thread hbusy
      exact .inr (h.update (hend.resolve_right hs) fun q _ => rfl)

/-- Any number of turns. -/
theorem Interleaves.orderly (hcode : DisciplinedCode Asks Over code) {s : σ}
    {c : Config σ ι τ o r} (h : Interleaves code Over s c) :
    Over c.world.st ∨ Orderly Asks Over c := by
  induction h with
  | refl =>
      refine .inr fun p => ?_
      show World.heldBy _ p = ∅
      ext l
      simp [World.heldBy]
  | tail _ hstep ih =>
      obtain ⟨hover, p, hturn⟩ := hstep
      exact (ih.resolve_left hover).turn hcode hover hturn

/-! ## Deadlock -/

/-- `Asks` lets a thread ask for a mutex only while it holds lower ones. -/
def Ascends (rank : ι → Nat) (Asks : Set ι → ι → Prop) : Prop :=
  ∀ held l, Asks held l → ∀ k ∈ held, rank k < rank l

omit [DecidableEq ι] [DecidableEq τ] in
theorem Orderly.asks {c : Config σ ι τ o r} (h : Orderly Asks Over c) {p : τ} {l : ι}
    {next : Prog σ ι (o ⊕ r)} (hbusy : c.threads p = .busy (.lock l next)) :
    Asks (c.world.heldBy p) l := by
  obtain ⟨s, -, hask, -⟩ := h.thread hbusy
  exact hask

omit [DecidableEq ι] [DecidableEq τ] in
/-- A thread that holds a mutex is in the middle of an operation. -/
theorem Orderly.busy {c : Config σ ι τ o r} (h : Orderly Asks Over c) {q : τ} {l : ι}
    (hl : c.world.owner l = some q) : c.threads q ≠ .idle := by
  intro hidle
  have hheld : c.world.heldBy q = ∅ := h.thread hidle
  have hmem : l ∈ c.world.heldBy q := hl
  rw [hheld] at hmem
  exact hmem

omit [DecidableEq ι] [DecidableEq τ] in
/-- A thread that is waited for waits itself only for a higher mutex. -/
theorem Orderly.ascends {c : Config σ ι τ o r} (h : Orderly Asks Over c) {rank : ι → Nat}
    (hrank : Ascends rank Asks) {p q : τ} {l k : ι} {next rest : Prog σ ι (o ⊕ r)}
    (hw : WaitsFor c p q) (hp : c.threads p = .busy (.lock l next))
    (hq : c.threads q = .busy (.lock k rest)) : rank l < rank k := by
  obtain ⟨j, step, hj, hl⟩ := hw
  rw [hp] at hj
  cases hj
  exact hrank _ _ (h.asks hq) l hl

omit [DecidableEq ι] [DecidableEq τ] in
/-- No circle of threads waits for each other. -/
theorem Orderly.not_circular {c : Config σ ι τ o r} (h : Orderly Asks Over c) {rank : ι → Nat}
    (hrank : Ascends rank Asks) : ¬CircularWait c := by
  -- Along a chain of waiting threads the mutexes waited for ascend.
  have hchain : ∀ p q, Relation.TransGen (WaitsFor c) p q → ∀ l next k rest,
      c.threads p = .busy (.lock l next) → c.threads q = .busy (.lock k rest) →
      rank l < rank k := by
    intro p q hpq
    induction hpq with
    | single hw =>
        intro l next k rest hp hq
        exact h.ascends hrank hw hp hq
    | @tail m q _ hw ih =>
        intro l next k rest hp hq
        obtain ⟨j, step, hm, hj⟩ := hw
        have hlow : rank l < rank j := ih l next j step hp hm
        have hhigh : rank j < rank k := h.ascends hrank ⟨j, step, hm, hj⟩ hm hq
        exact Nat.lt_trans hlow hhigh
  rintro ⟨p, hcircle⟩
  obtain ⟨q, ⟨l, next, hp, -⟩, -⟩ := Relation.TransGen.head'_iff.mp hcircle
  exact Nat.lt_irrefl _ (hchain p p hcircle l next l next hp hp)

/-- A busy thread has a turn unless it waits for a mutex. -/
theorem turn_or_waits (code : τ → o → Prog σ ι (o ⊕ r)) {c : Config σ ι τ o r}
    {q : τ} (hbusy : c.threads q ≠ .idle) :
    (∃ c', Turn code q c c') ∨ ∃ p, WaitsFor c q p := by
  obtain ⟨w, th⟩ := c
  have hbusy' : th q ≠ .idle := hbusy
  cases hprog : th q with
  | idle => exact absurd hprog hbusy'
  | busy prog =>
      cases prog with
      | ret a =>
          cases a with
          | inl a => exact .inl ⟨_, .jump hprog⟩
          | inr out => exact .inl ⟨_, .finish hprog⟩
      | act upd next => exact .inl ⟨_, .act hprog⟩
      | unlock l next => exact .inl ⟨_, .unlock hprog⟩
      | lock l next =>
          cases howner : w.owner l with
          | none => exact .inl ⟨_, .lock hprog howner⟩
          | some p => exact .inr ⟨p, l, next, hprog, howner⟩

/-- A thread in the middle of an operation can go on, or waits, perhaps through others, for
one that can. -/
theorem Orderly.goes_on (code : τ → o → Prog σ ι (o ⊕ r)) {c : Config σ ι τ o r}
    (h : Orderly Asks Over c) {rank : ι → Nat} (hrank : Ascends rank Asks) {bound : Nat}
    (hbound : ∀ l, rank l ≤ bound) {p : τ} (hbusy : c.threads p ≠ .idle) :
    ∃ q, Relation.ReflTransGen (WaitsFor c) p q ∧ c.threads q ≠ .idle ∧ ∃ c', Turn code q c c' := by
  rcases turn_or_waits code hbusy with hturn | ⟨q, hwait⟩
  · exact ⟨p, .refl, hbusy, hturn⟩
  -- The holder of the mutex waits for a higher one, if it waits at all: induction on how
  -- many are higher.
  · have hall : ∀ n p q l next, bound - rank l = n → c.threads p = .busy (.lock l next) →
        c.world.owner l = some q →
        ∃ q, Relation.ReflTransGen (WaitsFor c) p q ∧ c.threads q ≠ .idle ∧
          ∃ c', Turn code q c c' := by
      intro n
      induction n using Nat.strong_induction_on with
      | h n ih =>
          intro p q l next hn hp hl
          have hq : c.threads q ≠ .idle := h.busy hl
          have hpq : WaitsFor c p q := ⟨l, next, hp, hl⟩
          rcases turn_or_waits code hq with hturn | ⟨t, k, rest, hk, ht⟩
          · exact ⟨q, .single hpq, hq, hturn⟩
          · have hlt : rank l < rank k := h.ascends hrank hpq hp hk
            have hle : rank k ≤ bound := hbound k
            obtain ⟨z, hz, hzbusy, hzturn⟩ := ih (bound - rank k) (by omega) q t k rest rfl hk ht
            exact ⟨z, .head hpq hz, hzbusy, hzturn⟩
    obtain ⟨l, next, hp, hl⟩ := hwait
    exact hall _ p q l next rfl hp hl

end

end Concurrency
