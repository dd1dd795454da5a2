import Xremu.Interp.RunInvariant

/-!
# Invariants of the memory under the interpreter

A property of the memory of a build holds throughout a run if the calls of `XrBuild` keep
it, and a reset does. What the interpreter does otherwise stays in the processor record.
Between two steps anything may happen that the surroundings of the processor allow: a
relation `E`, because what is allowed depends on the state it is done to.

`KeptByFetch` and `KeptByBuild` are what has to be shown of a build, and
`RunsIn.keeps` is the run lemma.
-/

namespace Xremu

/-- The surroundings may take `m` to `m'` by `E` between any two steps. -/
inductive XrInterp.RunsIn {M : Type} [XrBuild M] (E : Machine M → Machine M → Prop)
    (m₀ : Machine M) : XrInterp M → Prop
  | start {c : XrIblockCache} (h : c.Initial) : RunsIn E m₀ ⟨m₀, c, .noMore⟩
  | timeslice {s : XrInterp M} (h : RunsIn E m₀ s) (idle : s.point = .noMore) :
      RunsIn E m₀ s.timeslice
  | call {s : XrInterp M} (pending : Bool) (cycles : Word) (h : RunsIn E m₀ s)
      (idle : s.point = .noMore) :
      RunsIn E m₀ ⟨(xrExecuteFast pending cycles s.machine).1, s.cache,
        (xrExecuteFast pending cycles s.machine).2⟩
  | step {s s' : XrInterp M} (pending : Bool) (h : RunsIn E m₀ s)
      (step : s.step pending = some s') : RunsIn E m₀ s'
  | meanwhile {s : XrInterp M} {m : Machine M} (h : RunsIn E m₀ s) (acts : E s.machine m) :
      RunsIn E m₀ { s with machine := m }

section

variable {M : Type} [XrBuild M]

/-- Kept by what happens between two blocks. -/
structure KeptByFetch (I : Machine M → Prop) : Prop where
  -- The processor record; a data lookup is at most forgotten.
  core : ∀ {m m'}, I m → m'.mem = m.mem → m'.proc.id = m.proc.id →
    m'.proc.dtbLastVpn = m.proc.dtbLastVpn ∨ m'.proc.dtbLastVpn = -1 → I m'
  reset : ∀ {m}, I m → I (xrReset m)
  fetch : ∀ {m m' f}, I m → XrBuild.fetch m = some (f, m') → I m'
  emptyDtbCache : ∀ {m} block, I m → I (XrBuild.emptyDtbCache block m)

/-- Kept by everything a build does. -/
structure KeptByBuild (I : Machine M → Prop) : Prop extends KeptByFetch I where
  access : ∀ {m m' block r res}, I m → r.length = 1 ∨ r.length = 2 ∨ r.length = 4 →
    XrBuild.access m block r = some (res, m') → I m'
  flushWriteBuffer : ∀ {m}, I m → I (XrBuild.flushWriteBuffer m)
  icachectrl : ∀ {m} value, I m → I (XrBuild.icachectrl value m)
  dcachectrl : ∀ {m} value, I m → I (XrBuild.dcachectrl value m)
  drain : ∀ {m}, I m → I (XrBuild.drain m)

variable {I : Machine M → Prop} {m m' : Machine M} {c c' : XrIblockCache}

/-! ## Between two blocks -/

namespace KeptByFetch

theorem raises (hI : KeptByFetch I) (h : Raises m m') (hm : I m) : I m' := by
  obtain ⟨m₁, exc, rfl, hprepared⟩ := h.vector
  have hid : m₁.proc.id = m.proc.id := by rw [hprepared.proc]
  have hhint : m₁.proc.dtbLastVpn = m.proc.dtbLastVpn := by rw [hprepared.proc]
  have hm₁ : I m₁ := hI.core hm hprepared.mem hid (.inl hhint)
  unfold xrVectorException
  split
  · exact hI.reset hm₁
  · exact hI.core hm₁ rfl rfl (.inl rfl)

theorem basic (hI : KeptByFetch I) (hm : I m) {exc : Word} (code : exc ∈ xrExcCodes) (pc : Word) :
    I (xrBasicException m exc pc) :=
  hI.raises (.plain exc pc code) hm

theorem charge (hI : KeptByFetch I) (hm : I m) (cycles : Nat) : I (m.charge cycles) :=
  hI.core hm rfl rfl (.inl rfl)

theorem decode (hI : KeptByFetch I) (hm : I m) {hazard j : Option Nat}
    (h : xrDecodeInstructions m c hazard = some (j, m', c')) : I m' := by
  cases decodes h with
  | denied found kernel user => exact hI.raises (.address m.proc.pc excPgf m.proc.pc (by decide)) hm
  | hit found allowed => exact hm
  | unfetched missed fetch => exact hI.fetch hm fetch
  | fetched missed fetch done => exact hI.emptyDtbCache _ (hI.fetch hm fetch)

theorem dispatch (hI : KeptByFetch I) (hm : I m) (i j : Nat) : I (xrDispatch m c i j).machine :=
  hI.core hm rfl rfl (.inl rfl)

/-- `XrCheckConditions` from its label on. -/
theorem retry (hI : KeptByFetch I) (hm : I m) {pending : Bool} {s : XrInterp M}
    (h : xrRetry pending m c = some s) : I s.machine := by
  have hcount : I m.countNmiMask := by
    unfold Machine.countNmiMask
    split
    · exact hI.core hm rfl rfl (.inl rfl)
    · exact hm
  have htake : I (takeInterrupt pending m.countNmiMask) := by
    unfold takeInterrupt
    split
    · exact hI.core (hI.basic hcount (by decide) m.countNmiMask.proc.pc) rfl rfl (.inl rfl)
    · exact hcount
  cases retries h with
  | stopped stops => exact hI.core hm rfl rfl (.inl rfl)
  | faulted goes decode => exact hI.charge (hI.decode htake decode) _
  | enters goes decode => exact hI.decode htake decode

/-- `XrExecuteFast` up to its loop, and its early returns. -/
theorem executeFast (hI : KeptByFetch I) (hm : I m) (pending : Bool) (cycles : Word) :
    I (xrExecuteFast pending cycles m).1 := by
  unfold xrExecuteFast
  split
  · exact hm
  split
  · exact hI.core hm rfl rfl (.inl rfl)
  extract_lets p₁ m₁ p₂ m₂ raised p₃ m₃ p₄
  have hm₁ : I m₁ := by
    unfold m₁
    split
    · exact hI.core hm rfl rfl (.inl rfl)
    · exact hm
  have hm₂ : I m₂ := hI.core hm₁ rfl rfl (.inl rfl)
  have hm₃ : I m₃ := by
    unfold m₃
    split
    · exact hI.core (hI.basic hm₂ (by decide) m₂.proc.pc) rfl rfl (.inl rfl)
    · exact hm₂
  split
  · exact hm₃
  · exact hI.core hm₃ rfl rfl (.inl rfl)

end KeptByFetch

/-! ## Instructions -/

namespace KeptByBuild

variable {inst : XrCachedInst} {block : Nat} {exit : XrExit}

/-- After an access: an early exit, or on with a register written. -/
theorem answered (hI : KeptByBuild I) {m₁ m₂ : Machine M} (hm : I m₁) {res : XrResult}
    (h : (if res.1 = .fault then some (m₁, XrExit.early) else xrNext m₂) = some (m', exit))
    (hmem : m₂.mem = m₁.mem) (hid : m₂.proc.id = m₁.proc.id)
    (hhint : m₂.proc.dtbLastVpn = m₁.proc.dtbLastVpn) : I m' := by
  split at h
  · cases h
    exact hm
  · cases h
    exact hI.core hm hmem hid (.inl hhint)

theorem storeAt (hI : KeptByBuild I) (hm : I m) {address value : Word} {length : Nat}
    (hlen : length = 1 ∨ length = 2 ∨ length = 4)
    (h : storeAt m block address value length = some (m', exit)) : I m' := by
  obtain ⟨⟨res, m₁⟩, hacc, hrest⟩ := Option.bind_eq_some_iff.mp h
  exact hI.answered (hI.access hm hlen hacc) hrest rfl rfl rfl

theorem loadAt (hI : KeptByBuild I) (hm : I m) {address : Word} {rd length : Nat}
    (hlen : length = 1 ∨ length = 2 ∨ length = 4)
    (h : loadAt m block address rd length = some (m', exit)) : I m' := by
  obtain ⟨⟨res, m₁⟩, hacc, hrest⟩ := Option.bind_eq_some_iff.mp h
  exact hI.answered (hI.access hm hlen hacc) hrest rfl rfl rfl

theorem storeConditional (hI : KeptByBuild I) (hm : I m)
    (h : xrExecuteStoreConditional m block inst = some (m', exit)) : I m' := by
  unfold xrExecuteStoreConditional at h
  split at h
  · cases h
    exact hI.core hm rfl rfl (.inl rfl)
  · obtain ⟨⟨res, m₁⟩, hacc, hrest⟩ := Option.bind_eq_some_iff.mp h
    exact hI.answered (hI.access hm (.inr (.inr rfl)) hacc) hrest rfl rfl rfl

theorem loadLinked (hI : KeptByBuild I) (hm : I m)
    (h : xrExecuteLoadLinked m block inst = some (m', exit)) : I m' := by
  obtain ⟨⟨res, m₁⟩, hacc, hrest⟩ := Option.bind_eq_some_iff.mp h
  exact hI.answered (hI.access hm (.inr (.inr rfl)) hacc) hrest rfl rfl rfl

theorem mtcrKernel (hI : KeptByBuild I) (hm : I m) {rb : Nat} {value : Word}
    (h : mtcrKernel m rb value = some (m', exit)) : I m' := by
  unfold Xremu.mtcrKernel at h
  extract_lets m₁ m₂ at h
  have hwritten := xrMtcr_written m.proc rb value
  have hm₁ : I m₁ := hI.core hm rfl hwritten.id hwritten.dtbHint
  split at h
  · cases h
    exact hI.core (hI.icachectrl value hm₁) rfl rfl (.inl rfl)
  split at h
  · cases h
    exact hI.core (hI.dcachectrl value hm₁) rfl rfl (.inl rfl)
  split at h
  · cases h
    exact hI.core hm₁ rfl rfl (.inl rfl)
  · cases h
    exact hI.core hm₁ rfl rfl (.inl rfl)

theorem branch (hI : KeptByBuild I) (hm : I m) {taken : Word → Bool}
    (h : branch taken m block inst = some (m', exit)) : I m' := by
  unfold Xremu.branch at h
  split at h
  · cases h
    exact hI.core hm rfl rfl (.inl rfl)
  · cases h
    exact hI.core hm rfl rfl (.inl rfl)

/-- Every handler. -/
theorem exec (hI : KeptByBuild I) (hm : I m) (h : inst.exec m block = some (m', exit)) : I m' := by
  obtain ⟨func, imm32, imm8, imm8'⟩ := inst
  cases func with
  | illegalInstruction | sys | brk =>
      cases h
      exact hI.basic hm (by decide) _
  | wmb | mb =>
      cases h
      exact hI.core (hI.flushWriteBuffer hm) rfl rfl (.inl rfl)
  | pause =>
      have h' : xrExecutePause m block ⟨.pause, imm32, imm8, imm8'⟩ = some (m', exit) := h
      unfold xrExecutePause at h'
      extract_lets calls m₁ at h'
      split at h'
      · cases h'
        exact hI.core hm rfl rfl (.inl rfl)
      · cases h'
        exact hI.core hm rfl rfl (.inl rfl)
  | sc => exact hI.storeConditional hm h
  | ll => exact hI.loadLinked hm h
  | rfe =>
      cases h
      unfold xrRfe
      extract_lets p₁ m₁ pc
      have hm₁ : I m₁ := hI.core hm rfl rfl (.inl rfl)
      split
      · exact hI.basic hm₁ (by decide) _
      · exact hI.core hm₁ rfl rfl (.inl rfl)
  | hlt =>
      have h' : xrExecuteHlt m block ⟨.hlt, imm32, imm8, imm8'⟩ = some (m', exit) := h
      unfold xrExecuteHlt at h'
      split at h'
      · cases h'
        exact hI.basic hm (by decide) _
      · cases h'
        exact hI.core hm rfl rfl (.inl rfl)
  | mtcr =>
      have h' : xrExecuteMtcr m block ⟨.mtcr, imm32, imm8, imm8'⟩ = some (m', exit) := h
      unfold xrExecuteMtcr at h'
      split at h'
      · cases h'
        exact hI.basic hm (by decide) _
      · exact hI.mtcrKernel hm h'
  | mfcr =>
      have h' : xrExecuteMfcr m block ⟨.mfcr, imm32, imm8, imm8'⟩ = some (m', exit) := h
      unfold xrExecuteMfcr at h'
      split at h'
      · cases h'
        exact hI.basic hm (by decide) _
      · cases h'
        exact hI.core hm rfl rfl (.inl rfl)
  | bpo => exact hI.branch hm (show xrExecuteBpo m block _ = _ from h)
  | bpe => exact hI.branch hm (show xrExecuteBpe m block _ = _ from h)
  | bge => exact hI.branch hm (show xrExecuteBge m block _ = _ from h)
  | ble => exact hI.branch hm (show xrExecuteBle m block _ = _ from h)
  | bgt => exact hI.branch hm (show xrExecuteBgt m block _ = _ from h)
  | blt => exact hI.branch hm (show xrExecuteBlt m block _ = _ from h)
  | bne => exact hI.branch hm (show xrExecuteBne m block _ = _ from h)
  | beq => exact hI.branch hm (show xrExecuteBeq m block _ = _ from h)
  | jalr =>
      have h' : xrExecuteJalr m block ⟨.jalr, imm32, imm8, imm8'⟩ = some (m', exit) := h
      unfold xrExecuteJalr at h'
      extract_lets pc m₁ at h'
      have hm₁ : I m₁ := hI.core hm rfl rfl (.inl rfl)
      split at h'
      · obtain ⟨rfl, -⟩ := Prod.mk.inj (Option.some.inj h')
        exact hI.raises (.address pc excUna pc (by decide)) hm₁
      · obtain ⟨rfl, -⟩ := Prod.mk.inj (Option.some.inj h')
        exact hm₁
  | storeLongRegOffset | storeLongImmOffsetImm | storeLongImmOffsetReg =>
      exact hI.storeAt hm (.inr (.inr rfl)) h
  | storeIntRegOffset | storeIntImmOffsetImm | storeIntImmOffsetReg =>
      exact hI.storeAt hm (.inr (.inl rfl)) h
  | storeByteRegOffset | storeByteImmOffsetImm | storeByteImmOffsetReg =>
      exact hI.storeAt hm (.inl rfl) h
  | loadLongRegOffset | loadLongImmOffset => exact hI.loadAt hm (.inr (.inr rfl)) h
  | loadIntRegOffset | loadIntImmOffset => exact hI.loadAt hm (.inr (.inl rfl)) h
  | loadByteRegOffset | loadByteImmOffset => exact hI.loadAt hm (.inl rfl) h
  -- The rest computes on registers.
  | _ =>
      cases h
      exact hI.core hm rfl rfl (.inl rfl)

/-- The step of an instruction, with what follows the tail call at the end of its block. -/
theorem xrInst (hI : KeptByBuild I) (hm : I m) {i k : Nat} {s : XrInterp M}
    (h : Xremu.xrInst m c i k = some s) : I s.machine := by
  obtain ⟨inst, m₁, exit, -, hexec, hleaves⟩ := inst_step h
  have hm₁ : I m₁ := hI.exec hm hexec
  cases hleaves with
  | next => exact hm₁
  | early => exact hI.charge hm₁ _
  | flush drop => exact hI.charge hm₁ _
  | trivial => exact hI.charge hm₁ _
  | cached hit => exact hI.dispatch hm₁ _ _
  | decoded null decode => exact hI.dispatch (hI.decode hm₁ decode) _ _
  | faulted null decode => exact hI.charge (hI.decode hm₁ decode) _
  | predicted table miss decode => exact hI.dispatch (hI.decode hm₁ decode) _ _
  | unpredicted table miss decode => exact hI.charge (hI.decode hm₁ decode) _

theorem step (hI : KeptByBuild I) {s s' : XrInterp M} (hm : I s.machine) {pending : Bool}
    (h : s.step pending = some s') : I s'.machine := by
  unfold XrInterp.step at h
  cases hpoint : s.point with
  | check =>
      simp only [hpoint] at h
      cases h
      exact hI.drain hm
  | retry =>
      simp only [hpoint] at h
      exact hI.retry hm h
  | inst i k =>
      simp only [hpoint] at h
      exact hI.xrInst hm h
  | noMore =>
      simp only [hpoint] at h
      cases h

end KeptByBuild

/-- An invariant that the build and the surroundings keep holds throughout a run. -/
theorem XrInterp.RunsIn.keeps {E : Machine M → Machine M → Prop} {m₀ : Machine M}
    (hI : KeptByBuild I) (hE : ∀ {m m'}, I m → E m m' → I m') (h₀ : I m₀) {s : XrInterp M}
    (h : RunsIn E m₀ s) : I s.machine := by
  induction h with
  | start initial => exact h₀
  | timeslice h idle ih => exact hI.core ih rfl rfl (.inl rfl)
  | call pending cycles h idle ih => exact hI.executeFast ih pending cycles
  | step pending h step ih => exact hI.step ih step
  | meanwhile h acts ih => exact hE ih acts

end

end Xremu
