import Mathlib.Data.List.Basic
import Mathlib.Data.List.Nodup
import Mathlib.Logic.Function.Basic

/-!
# Paths

The elements that a pointer leads to, one after another, up to an end pointer. With a null
pointer as the end this is a chain, and with the list head as the end it is one direction
of a circular list. A path to an end is finite, so the pointers on it make no cycle.
-/

namespace Lists

variable {α π : Type}

/-- `ref a` is the pointer to `a`, and `next a` the pointer that `a` holds. -/
def Path (ref next : α → π) : π → List α → π → Prop
  | p, [], q => p = q
  | p, a :: as, q => p = ref a ∧ Path ref next (next a) as q

namespace Path

variable {ref next next' : α → π} {p q r : π} {a : α} {as bs : List α}

theorem congr (h : Path ref next p as q) (hnext : ∀ a ∈ as, next' a = next a) :
    Path ref next' p as q := by
  induction as generalizing p with
  | nil => exact h
  | cons a as ih =>
      obtain ⟨hp, hrest⟩ := h
      refine ⟨hp, ?_⟩
      rw [hnext a (List.mem_cons_self)]
      exact ih hrest fun b hb => hnext b (List.mem_cons_of_mem a hb)

theorem append (h : Path ref next p as q) (h' : Path ref next q bs r) :
    Path ref next p (as ++ bs) r := by
  induction as generalizing p with
  | nil =>
      have hp : p = q := h
      rw [hp]
      exact h'
  | cons a as ih => exact ⟨h.1, ih h.2⟩

theorem split (h : Path ref next p (as ++ bs) r) :
    ∃ q, Path ref next p as q ∧ Path ref next q bs r := by
  induction as generalizing p with
  | nil => exact ⟨p, rfl, h⟩
  | cons a as ih =>
      obtain ⟨q, hfirst, hrest⟩ := ih h.2
      exact ⟨q, ⟨h.1, hfirst⟩, hrest⟩

/-- The last element is made to point elsewhere. -/
theorem relink (h : Path ref next p (as ++ [a]) q) (hnext : ∀ b ∈ as, next' b = next b)
    (hlast : next' a = r) : Path ref next' p (as ++ [a]) r := by
  obtain ⟨s, hfirst, hs, -⟩ := h.split
  exact (hfirst.congr hnext).append ⟨hs, hlast⟩

theorem last (h : Path ref next p (as ++ [a]) q) : next a = q := by
  obtain ⟨s, -, -, hq⟩ := h.split
  exact hq

/-- A path whose end is no element starts there only when it is empty. -/
theorem nil_iff (h : Path ref next p as q) (hend : ∀ a, ref a ≠ q) : p = q ↔ as = [] := by
  cases as with
  | nil => exact ⟨fun _ => rfl, fun _ => h⟩
  | cons a as =>
      constructor
      · intro hp
        exact absurd (h.1.symm.trans hp) (hend a)
      · intro hnil
        cases hnil

/-- The pointers determine the path. -/
theorem unique (h : Path ref next p as q) (h' : Path ref next p bs q)
    (hend : ∀ a, ref a ≠ q) (hinj : ∀ a b, ref a = ref b → a = b) : as = bs := by
  induction as generalizing p bs with
  | nil => exact ((h'.nil_iff hend).mp h).symm
  | cons a as ih =>
      cases bs with
      | nil => exact (h.nil_iff hend).mp h'
      | cons b bs =>
          have hab : a = b := hinj a b (h.1.symm.trans h'.1)
          subst hab
          rw [ih h.2 h'.2]

end Path

/-! ## Circular lists -/

/-- The two pointers of a list entry. -/
structure Links (π : Type) where
  next : π → π
  prev : π → π

namespace Links

/-- The same lists, read from their ends. -/
def mirror {π : Type} (l : Links π) : Links π := ⟨l.prev, l.next⟩

end Links

/-- The circular list of `head` has the entries of `as`, in both directions. -/
structure Ring (ref : α → π) (l : Links π) (head : π) (as : List α) : Prop where
  next : Path ref (fun a => l.next (ref a)) (l.next head) as head
  prev : Path ref (fun a => l.prev (ref a)) (l.prev head) as.reverse head

namespace Ring

variable {ref : α → π} {l l' : Links π} {head : π} {a : α} {as : List α}

theorem mirror (h : Ring ref l head as) : Ring ref l.mirror head as.reverse := by
  constructor
  · exact h.prev
  · rw [List.reverse_reverse]
    exact h.next

theorem congr (h : Ring ref l head as) (hhead : l'.next head = l.next head ∧
    l'.prev head = l.prev head) (hnext : ∀ a ∈ as, l'.next (ref a) = l.next (ref a))
    (hprev : ∀ a ∈ as, l'.prev (ref a) = l.prev (ref a)) : Ring ref l' head as := by
  constructor
  · rw [hhead.1]
    exact h.next.congr hnext
  · rw [hhead.2]
    exact h.prev.congr fun a ha => hprev a (List.mem_reverse.mp ha)

/-- The last entry, or the head of an empty list. -/
theorem prev_head (h : Ring ref l head as) :
    l.prev head = head ∨ ∃ b ∈ as, l.prev head = ref b := by
  rcases List.eq_nil_or_concat as with rfl | ⟨bs, b, rfl⟩
  · exact Or.inl h.prev
  · have hprev := h.prev
    simp only [List.concat_eq_append, List.reverse_append, List.reverse_singleton,
      List.singleton_append] at hprev
    exact Or.inr ⟨b, by simp, hprev.1⟩

/-- The entry after the first, or the head. -/
theorem next_first (h : Ring ref l head (a :: as)) :
    l.next (ref a) = head ∨ ∃ b ∈ as, l.next (ref a) = ref b := by
  cases as with
  | nil => exact Or.inl h.next.2
  | cons b bs => exact Or.inr ⟨b, by simp, h.next.2.1⟩

theorem prev_first (h : Ring ref l head (a :: as)) : l.prev (ref a) = head := by
  have hprev := h.prev
  rw [List.reverse_cons] at hprev
  exact hprev.last

end Ring

end Lists
