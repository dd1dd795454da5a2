import Xremu.Machine.Processor

/-!
# Memory accesses, and the law of load-linked and store-conditional

What both builds say about an access: its arguments, its status, and the event it
is in an interleaving. The law of LL/SC is stated over these events: an SC
performs its store only if no other processor has stored into the word since the
LL it belongs to. Each build has its own runs and its own condition under which
the law holds (`Cached/LoadLinked.lean`, `Fast/LoadLinked.lean`).
-/

namespace Xremu

/-- The results 0, 1 and 2 of an access. -/
inductive XrStatus where
  | fault
  | done
  | scFailed
deriving DecidableEq

/-- A status and the value left in `*dest`, if any. -/
abbrev XrResult := XrStatus × Option Word

/-- The arguments of an access; `read` is `dest != 0`, `sc` the flag of an access that
belongs to LL or SC. -/
structure XrMemReq where
  address : Word
  read : Bool
  srcvalue : Word
  length : Nat
  sc : Bool
deriving DecidableEq

/-- What the first test of an access checks. -/
theorem aligned_of_mask {address : Word} {length : Nat}
    (hlen : length = 1 ∨ length = 2 ∨ length = 4)
    (h : address &&& (BitVec.ofNat 32 length - 1) = 0) : address.toNat % length = 0 := by
  have hn := congrArg BitVec.toNat h
  rw [BitVec.toNat_and] at hn
  rcases hlen with rfl | rfl | rfl
  · exact Nat.mod_one _
  · rw [← Nat.and_two_pow_sub_one_eq_mod address.toNat 1]
    exact hn
  · rw [← Nat.and_two_pow_sub_one_eq_mod address.toNat 2]
    exact hn

/-! ## Events -/

inductive XrMemKind where
  | load
  | store
  | ll
  | sc
deriving DecidableEq

/-- An operation that was executed: by whom, what, where, and with what status. -/
structure XrMemEvent where
  proc : Nat
  kind : XrMemKind
  address : Nat
  status : XrStatus
deriving DecidableEq

namespace XrMemEvent

/-- A completed LL of word `w` by `p`. -/
def LlOf (e : XrMemEvent) (p w : Nat) : Prop :=
  e.proc = p ∧ e.kind = .ll ∧ e.status = .done ∧ e.address / 4 = w

/-- A store that was performed, by a plain store or by SC. -/
def Stores (e : XrMemEvent) : Prop := (e.kind = .store ∨ e.kind = .sc) ∧ e.status = .done

end XrMemEvent

/-! ## The law -/

/-- Another processor has stored into word `w` since the last LL of `w` by `p`. -/
def StoredSinceLl (trace : List XrMemEvent) (p w : Nat) : Prop :=
  ∃ before l after, trace = before ++ l :: after ∧ l.LlOf p w ∧ (∀ x ∈ after, ¬x.LlOf p w) ∧
    ∃ x ∈ after, x.proc ≠ p ∧ x.Stores ∧ x.address / 4 = w

/-- An SC performs its store only if no other processor has stored into the word since
the last LL. -/
def LlScLaw (trace : List XrMemEvent) : Prop :=
  ∀ before e after, trace = before ++ e :: after → e.kind = .sc → e.status = .done →
    ¬StoredSinceLl before e.proc (e.address / 4)

end Xremu
