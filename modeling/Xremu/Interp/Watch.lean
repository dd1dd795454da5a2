import Xremu.Interp.Run

/-!
# A build under observation

A `Watcher` sees the memory operations of the running processor go by and keeps notes of
them (`Watched`). Every build under observation is a build again, so the interpreter runs
on it as it is, and nothing it does depends on the notes: without them, a step under
observation is the step of the build itself (`XrInterp.step_bare`).

The notes are about the processor since its last reset: a reset clears them.
-/

namespace Xremu

/-- The memory of a build and what an observer has noted. -/
structure Watched (M O : Type) where
  mem : M
  seen : O

/-- How an observer takes its notes. -/
class Watcher (M O : Type) where
  /-- The notes on a processor that was reset. -/
  fresh : O
  /-- An access that took no exception: the machine before it, the request, the answer and
  the machine after it. -/
  access : Machine M → XrMemReq → XrResult → Machine M → O → O
  /-- Anything else that may have changed the memory. -/
  look : Machine M → O → O

section

variable {M O : Type}

/-- The machine without the notes. -/
def Machine.bare (m : Machine (Watched M O)) : Machine M := ⟨m.proc, m.mem.mem⟩

/-- The machine with these notes. -/
def Machine.watched (m : Machine M) (seen : O) : Machine (Watched M O) := ⟨m.proc, m.mem, seen⟩

@[simp] theorem Machine.bare_proc (m : Machine (Watched M O)) : m.bare.proc = m.proc := rfl
@[simp] theorem Machine.watched_proc (m : Machine M) (seen : O) :
    (m.watched seen).proc = m.proc := rfl
@[simp] theorem Machine.bare_watched (m : Machine M) (seen : O) : (m.watched seen).bare = m := rfl

variable [XrBuild M] [Watcher M O]

instance : ResetMem (Watched M O) where
  resetMem p m := ⟨ResetMem.resetMem p m.mem, Watcher.fresh M⟩

/-! ## Exceptions under observation -/

/-- The notes after an exception of `m`, which resets it when EB is 0. -/
def excepted (m : Machine M) (seen : O) : O :=
  if m.proc.cr crEb = 0 then Watcher.fresh M else seen

theorem watched_vector (m : Machine M) (seen : O) (exc : Word) :
    xrVectorException (m.watched seen) exc =
      (xrVectorException m exc).watched (excepted m seen) := by
  by_cases heb : m.proc.cr crEb = 0
  · simp only [xrVectorException, excepted, Machine.watched_proc, heb, if_true]
    rfl
  · simp only [xrVectorException, excepted, Machine.watched_proc, heb, if_false]
    rfl

omit [XrBuild M] in
/-- The preparations of an exception leave EB alone. -/
theorem excepted_of_eb {m m₁ : Machine M} (h : m₁.proc.cr crEb = m.proc.cr crEb) (seen : O) :
    excepted m₁ seen = excepted m seen := by
  unfold excepted
  rw [h]

theorem watched_basic (m : Machine M) (seen : O) (exc pc : Word) :
    xrBasicException (m.watched seen) exc pc =
      (xrBasicException m exc pc).watched (excepted m seen) := by
  unfold xrBasicException
  have hprepared : xrSetEcause (xrPushMode ((m.watched seen).setCr crEpc pc)) exc =
      (xrSetEcause (xrPushMode (m.setCr crEpc pc)) exc).watched seen := rfl
  rw [hprepared, watched_vector]
  congr 1

theorem watched_tbMiss (tag addr : Nat) (exc virtual : Word) (writing : Bool) (m : Machine M)
    (seen : O) (htag : tag ≠ crEb) (haddr : addr ≠ crEb) :
    tbMiss tag addr exc virtual writing (m.watched seen) =
      (tbMiss tag addr exc virtual writing m).watched (excepted m seen) := by
  have hnote : noteMiss tag addr virtual writing (m.watched seen) =
      (noteMiss tag addr virtual writing m).watched seen := rfl
  have heb : (noteMiss tag addr virtual writing m).proc.cr crEb = m.proc.cr crEb := by
    simp [noteMiss, Function.update_of_ne, Ne.symm htag, Ne.symm haddr]
  unfold tbMiss
  simp only [hnote, Machine.watched_proc]
  generalize noteMiss tag addr virtual writing m = m₁ at heb ⊢
  by_cases htb : m₁.proc.rs &&& rsTbmiss = 0
  · rw [if_pos htb, if_pos htb]
    let m₂ := (xrPushMode m₁).setCr crTbmissaddr virtual
    let m₃ := m₂.setCr crTbpc m₂.proc.pc
    have hvector := watched_vector (m₃.setCr crRs (m₃.proc.rs ||| rsTbmiss)) seen exc
    have heb' : (m₃.setCr crRs (m₃.proc.rs ||| rsTbmiss)).proc.cr crEb = m.proc.cr crEb := heb
    rw [excepted_of_eb heb'] at hvector
    exact hvector
  · rw [if_neg htb, if_neg htb, watched_vector, excepted_of_eb (m := m) heb]

theorem watched_pageFault (m : Machine M) (seen : O) (virtual : Word) (writing : Bool) :
    xrPageFault (m.watched seen) virtual writing =
      (xrPageFault m virtual writing).watched (excepted m seen) := by
  unfold xrPageFault
  by_cases htb : m.proc.rs &&& rsTbmiss ≠ 0
  · rw [Machine.watched_proc, if_pos htb, if_pos htb]
    let m₁ := m.setCr crEbadaddr (m.proc.cr crTbmissaddr)
    let m₂ := m₁.setCr crEpc (m₁.proc.cr crTbpc)
    let m₃ := m₂.setCr crRs (m₂.proc.rs &&& ~~~rsTbmiss)
    exact watched_vector (xrSetEcause m₃ (excPage m₃.proc.lastTbMissWasWrite)) seen
      (excPage m₃.proc.lastTbMissWasWrite)
  · rw [Machine.watched_proc, if_neg htb, if_neg htb]
    let m₁ := m.setCr crEbadaddr virtual
    let m₂ := xrPushMode (m₁.setCr crEpc m₁.proc.pc)
    exact watched_vector (xrSetEcause m₂ (excPage writing)) seen (excPage writing)

/-- An exception under observation. -/
theorem Raises.watched {m m' : Machine M} (h : Raises m m') (seen : O) :
    Raises (m.watched seen) (m'.watched (excepted m seen)) := by
  cases h with
  | plain exc pc code =>
      rw [← watched_basic]
      exact .plain exc pc code
  | address v exc pc code =>
      have heb : (m.setCr crEbadaddr v).proc.cr crEb = m.proc.cr crEb := rfl
      rw [← excepted_of_eb heb seen, ← watched_basic]
      exact .address v exc pc code
  | itbMiss virtual writing =>
      rw [← watched_tbMiss _ _ _ _ _ m seen (by decide) (by decide)]
      exact .itbMiss virtual writing
  | dtbMiss virtual writing =>
      rw [← watched_tbMiss _ _ _ _ _ m seen (by decide) (by decide)]
      exact .dtbMiss virtual writing
  | page virtual writing =>
      rw [← watched_pageFault]
      exact .page virtual writing

theorem Faulted.watched {m m' : Machine M} (h : Faulted m m') (before seen : O) :
    Faulted (m.watched before) (m'.watched (excepted m seen)) := by
  obtain ⟨m₁, htouched, hraises⟩ := h
  refine ⟨m₁.watched seen, htouched, ?_⟩
  have heb : m₁.proc.cr crEb = m.proc.cr crEb := by rw [htouched.cr]
  rw [← excepted_of_eb heb seen]
  exact hraises.watched seen

end

/-! ## The build under observation -/

section

variable {M O : Type} [XrBuild M] [Watcher M O]

/-- The notes after an access. -/
def noteAccess (m : Machine M) (r : XrMemReq) (res : XrResult) (m' : Machine M) (seen : O) : O :=
  if res.1 = .fault then excepted m (Watcher.look m' seen) else Watcher.access m r res m' seen

/-- An operation that changes the machine from `m` to `m'`, with a look at the memory after it. -/
def lookAfter (m : Machine (Watched M O)) (m' : Machine M) : Machine (Watched M O) :=
  m'.watched (Watcher.look m' m.mem.seen)

instance : XrBuild (Watched M O) where
  access m block r :=
    (XrBuild.access m.bare block r).map fun out =>
      (out.1, out.2.watched (noteAccess m.bare r out.1 out.2 m.mem.seen))
  fetch m :=
    (XrBuild.fetch m.bare).map fun out =>
      match out with
      | (some f, m') => (some f, lookAfter m m')
      | (none, m') => (none, m'.watched (excepted m.bare (Watcher.look m' m.mem.seen)))
  flushWriteBuffer m := lookAfter m (XrBuild.flushWriteBuffer m.bare)
  icachectrl value m := lookAfter m (XrBuild.icachectrl value m.bare)
  dcachectrl value m := lookAfter m (XrBuild.dcachectrl value m.bare)
  drain m := lookAfter m (XrBuild.drain m.bare)
  emptyDtbCache block m := lookAfter m (XrBuild.emptyDtbCache block m.bare)
  access_done := by
    intro m m' block r res h hne
    obtain ⟨out, hout, heq⟩ := Option.map_eq_some_iff.mp h
    have htouched : out.1.1 ≠ .fault → Touched m.bare.proc out.2.proc :=
      XrBuild.access_done hout
    cases heq
    exact htouched hne
  access_fault := by
    intro m m' block r v h
    obtain ⟨⟨res, m₁⟩, hout, heq⟩ := Option.map_eq_some_iff.mp h
    obtain ⟨rfl, rfl⟩ := Prod.mk.inj heq
    exact (XrBuild.access_fault hout).watched m.mem.seen _
  fetch_done := by
    intro m m' f h
    obtain ⟨⟨out, m₁⟩, hout, heq⟩ := Option.map_eq_some_iff.mp h
    cases out with
    | none => cases heq
    | some f' =>
        have htouched : Touched m.bare.proc m₁.proc := XrBuild.fetch_done hout
        cases heq
        exact htouched
  fetch_kernel := by
    intro m m' f h hk
    obtain ⟨⟨out, m₁⟩, hout, heq⟩ := Option.map_eq_some_iff.mp h
    cases out with
    | none => cases heq
    | some f' =>
        have hkernel : f'.flags &&& pteKernel ≠ 0 → m.bare.proc.rs &&& rsUser = 0 :=
          XrBuild.fetch_kernel hout
        cases heq
        exact hkernel hk
  fetch_fault := by
    intro m m' h
    obtain ⟨⟨out, m₁⟩, hout, heq⟩ := Option.map_eq_some_iff.mp h
    cases out with
    | none =>
        cases heq
        exact (XrBuild.fetch_fault hout).watched m.mem.seen _
    | some f' => cases heq
  flushWriteBuffer_touched m := XrBuild.flushWriteBuffer_touched m.bare
  icachectrl_touched value m := XrBuild.icachectrl_touched value m.bare
  dcachectrl_touched value m := XrBuild.dcachectrl_touched value m.bare
  drain_touched m := XrBuild.drain_touched m.bare
  emptyDtbCache_proc block m := XrBuild.emptyDtbCache_proc block m.bare

end

end Xremu
