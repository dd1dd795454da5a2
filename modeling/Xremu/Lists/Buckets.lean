import Mathlib.Data.Finset.Card
import Mathlib.Logic.Function.Basic

/-!
# Free lists and buckets

A fixed set of records, each either on a free list or in use, and the records in use
sorted into lists by a key. The lists are what intrusive linked lists hold; an element
is inserted at the head and removed from wherever it is.
-/

namespace Lists

variable {α κ β : Type}

/-! ## Buckets -/

/-- Whatever is in use is exactly once in the list of its key, and nothing else is in a list. -/
structure Buckets (lists : κ → List α) (used : α → Prop) (key : α → κ) : Prop where
  nodup : ∀ k, (lists k).Nodup
  mem : ∀ k a, a ∈ lists k ↔ used a ∧ key a = k

namespace Buckets

variable {lists : κ → List α} {used used' : α → Prop} {key key' : α → κ}

theorem congr (h : Buckets lists used key) (hused : ∀ a, used' a ↔ used a)
    (hkey : ∀ a, used a → key' a = key a) : Buckets lists used' key' := by
  refine ⟨h.nodup, fun k a => ?_⟩
  rw [h.mem, hused]
  constructor
  · rintro ⟨hu, hk⟩
    exact ⟨hu, (hkey a hu).trans hk⟩
  · rintro ⟨hu, hk⟩
    exact ⟨hu, (hkey a hu).symm.trans hk⟩

theorem empty (hlists : ∀ k, lists k = []) (hused : ∀ a, ¬used a) : Buckets lists used key := by
  refine ⟨fun k => ?_, fun k a => ?_⟩
  · rw [hlists]
    exact List.nodup_nil
  · rw [hlists]
    constructor
    · intro h
      cases h
    · rintro ⟨hu, _⟩
      exact absurd hu (hused a)

theorem count [DecidableEq α] [DecidableEq κ] (h : Buckets lists used key) {a : α} (ha : used a)
    (k : κ) : (lists k).count a = if k = key a then 1 else 0 := by
  by_cases hk : k = key a
  · subst hk
    rw [if_pos rfl]
    exact List.count_eq_one_of_mem (h.nodup _) ((h.mem _ a).mpr ⟨ha, rfl⟩)
  · rw [if_neg hk, List.count_eq_zero, h.mem]
    rintro ⟨_, heq⟩
    exact hk heq.symm

theorem used_iff (h : Buckets lists used key) (a : α) : (∃ k, a ∈ lists k) ↔ used a := by
  constructor
  · rintro ⟨k, hk⟩
    exact ((h.mem k a).mp hk).1
  · intro hu
    exact ⟨key a, (h.mem _ a).mpr ⟨hu, rfl⟩⟩

variable [DecidableEq κ]

/-- `a` comes into use. -/
theorem insert (h : Buckets lists used key) {a : α} (ha : ¬used a) :
    Buckets (Function.update lists (key a) (a :: lists (key a))) (fun x => used x ∨ x = a) key := by
  refine ⟨fun k => ?_, fun k x => ?_⟩
  · by_cases hk : k = key a
    · subst hk
      rw [Function.update_self, List.nodup_cons]
      exact ⟨fun hmem => ha ((h.mem _ a).mp hmem).1, h.nodup _⟩
    · rw [Function.update_of_ne hk]
      exact h.nodup k
  · by_cases hk : k = key a
    · subst hk
      rw [Function.update_self, List.mem_cons, h.mem]
      constructor
      · rintro (rfl | ⟨hu, hkey⟩)
        · exact ⟨.inr rfl, rfl⟩
        · exact ⟨.inl hu, hkey⟩
      · rintro ⟨hu | rfl, hkey⟩
        · exact .inr ⟨hu, hkey⟩
        · exact .inl rfl
    · rw [Function.update_of_ne hk, h.mem]
      constructor
      · rintro ⟨hu, hkey⟩
        exact ⟨.inl hu, hkey⟩
      · rintro ⟨hu | rfl, hkey⟩
        · exact ⟨hu, hkey⟩
        · exact absurd hkey.symm hk

/-- `a` goes out of use. -/
theorem remove [DecidableEq α] (h : Buckets lists used key) (a : α) :
    Buckets (Function.update lists (key a) ((lists (key a)).erase a))
      (fun x => used x ∧ x ≠ a) key := by
  refine ⟨fun k => ?_, fun k x => ?_⟩
  · by_cases hk : k = key a
    · subst hk
      rw [Function.update_self]
      exact (h.nodup _).erase a
    · rw [Function.update_of_ne hk]
      exact h.nodup k
  · by_cases hk : k = key a
    · subst hk
      rw [Function.update_self, (h.nodup _).mem_erase_iff, h.mem]
      constructor
      · rintro ⟨hne, hu, hkey⟩
        exact ⟨⟨hu, hne⟩, hkey⟩
      · rintro ⟨⟨hu, hne⟩, hkey⟩
        exact ⟨hne, hu, hkey⟩
    · rw [Function.update_of_ne hk, h.mem]
      constructor
      · rintro ⟨hu, hkey⟩
        refine ⟨⟨hu, ?_⟩, hkey⟩
        rintro rfl
        exact hk hkey.symm
      · rintro ⟨⟨hu, _⟩, hkey⟩
        exact ⟨hu, hkey⟩

omit [DecidableEq κ] in
/-- The order inside a list does not matter. -/
theorem perm {lists' : κ → List α} (h : Buckets lists used key)
    (hperm : ∀ k, (lists' k).Perm (lists k)) : Buckets lists' used key := by
  refine ⟨fun k => (hperm k).nodup_iff.mpr (h.nodup k), fun k a => ?_⟩
  rw [(hperm k).mem_iff, h.mem]

/-- `a` comes into use in the list of `k`, wherever it is put there. -/
theorem insertAt [DecidableEq α] (h : Buckets lists used key) {a : α} (ha : ¬used a) {k : κ}
    {l : List α} (hl : l.Perm (a :: lists k)) :
    Buckets (Function.update lists k l) (fun x => used x ∨ x = a)
      (Function.update key a k) := by
  have hkey : Buckets lists used (Function.update key a k) := by
    refine h.congr (fun x => Iff.rfl) fun x hx => Function.update_of_ne ?_ _ _
    rintro rfl
    exact ha hx
  have hin := hkey.insert ha
  rw [Function.update_self] at hin
  refine hin.perm fun j => ?_
  by_cases hj : j = k
  · subst hj
    rw [Function.update_self, Function.update_self]
    exact hl
  · rw [Function.update_of_ne hj, Function.update_of_ne hj]

/-- The first element of a list goes out of use. -/
theorem removeFirst [DecidableEq α] (h : Buckets lists used key) {k : κ} {a : α}
    {l : List α} (hl : lists k = a :: l) :
    Buckets (Function.update lists k l) (fun x => used x ∧ x ≠ a) key := by
  have hk : key a = k := ((h.mem k a).mp (by rw [hl]; exact List.mem_cons_self)).2
  have hout := h.remove a
  rw [hk, hl, List.erase_cons_head] at hout
  exact hout

/-- The first element of a list goes to another list, which is empty. -/
theorem moveFirst [DecidableEq α] (h : Buckets lists used key) {k j : κ} {a : α} {l : List α}
    (hl : lists k = a :: l) (hj : lists j = []) (hne : j ≠ k) :
    Buckets (Function.update (Function.update lists k l) j [a]) used
      (Function.update key a j) := by
  have hused : used a := ((h.mem k a).mp (by rw [hl]; exact List.mem_cons_self)).1
  have hempty : Function.update lists k l j = [] := by
    rw [Function.update_of_ne hne]
    exact hj
  have hin := (h.removeFirst hl).insertAt (a := a) (k := j) (l := [a])
    (fun hmem => hmem.2 rfl) (by rw [hempty])
  refine hin.congr (fun x => ?_) fun x _ => rfl
  by_cases hx : x = a
  · subst hx
    simp [hused]
  · simp [hx]

/-- A whole list goes to another place, which is empty. -/
theorem moveAll (h : Buckets lists used key) {k j : κ} (hj : lists j = []) (hne : j ≠ k) :
    Buckets (Function.update (Function.update lists k []) j (lists k)) used
      (fun a => if key a = k then j else key a) := by
  refine ⟨fun i => ?_, fun i a => ?_⟩
  · by_cases hi : i = j
    · subst hi
      rw [Function.update_self]
      exact h.nodup k
    · rw [Function.update_of_ne hi]
      by_cases hik : i = k
      · subst hik
        rw [Function.update_self]
        exact List.nodup_nil
      · rw [Function.update_of_ne hik]
        exact h.nodup i
  · by_cases hi : i = j
    · subst hi
      rw [Function.update_self, h.mem]
      constructor
      · rintro ⟨hu, hk⟩
        exact ⟨hu, if_pos hk⟩
      · rintro ⟨hu, hk⟩
        refine ⟨hu, ?_⟩
        by_contra hkey
        rw [if_neg hkey] at hk
        have hmem := (h.mem i a).mpr ⟨hu, hk⟩
        rw [hj] at hmem
        cases hmem
    · rw [Function.update_of_ne hi]
      by_cases hik : i = k
      · subst hik
        rw [Function.update_self]
        constructor
        · intro hmem
          cases hmem
        · rintro ⟨hu, hk⟩
          by_cases hkey : key a = i
          · rw [if_pos hkey] at hk
            exact absurd hk hne
          · rw [if_neg hkey] at hk
            exact absurd hk hkey
      · rw [Function.update_of_ne hik, h.mem]
        constructor
        · rintro ⟨hu, hk⟩
          refine ⟨hu, ?_⟩
          rw [if_neg (by rw [hk]; exact hik)]
          exact hk
        · rintro ⟨hu, hk⟩
          refine ⟨hu, ?_⟩
          by_cases hkey : key a = k
          · rw [if_pos hkey] at hk
            exact absurd hk.symm hi
          · rw [if_neg hkey] at hk
            exact hk

end Buckets

/-! ## Pools -/

/-- `all` is made of the free list and of what is in use. -/
structure Pool (all : Finset α) (free : List α) (used : α → Prop) : Prop where
  nodup : free.Nodup
  mem : ∀ a, a ∈ all ↔ a ∈ free ∨ used a
  disjoint : ∀ a ∈ free, ¬used a

namespace Pool

variable {all : Finset α} {free : List α} {used used' : α → Prop} {a : α}

theorem congr (h : Pool all free used) (hused : ∀ a, used' a ↔ used a) : Pool all free used' := by
  refine ⟨h.nodup, fun a => ?_, fun a ha => ?_⟩
  · rw [h.mem, hused]
  · rw [hused]
    exact h.disjoint a ha

theorem full (hnodup : free.Nodup) (hall : ∀ a, a ∈ all ↔ a ∈ free) (hused : ∀ a, ¬used a) :
    Pool all free used := by
  refine ⟨hnodup, fun a => ?_, fun a _ => hused a⟩
  rw [hall]
  constructor
  · exact .inl
  · rintro (hfree | hu)
    · exact hfree
    · exact absurd hu (hused a)

/-- The head of the free list comes into use. -/
theorem take (h : Pool all (a :: free) used) : Pool all free fun x => used x ∨ x = a := by
  obtain ⟨hnotin, hnodup⟩ := List.nodup_cons.mp h.nodup
  refine ⟨hnodup, fun x => ?_, fun x hx => ?_⟩
  · rw [h.mem, List.mem_cons]
    constructor
    · rintro ((rfl | hfree) | hu)
      · exact .inr (.inr rfl)
      · exact .inl hfree
      · exact .inr (.inl hu)
    · rintro (hfree | hu | rfl)
      · exact .inl (.inr hfree)
      · exact .inr hu
      · exact .inl (.inl rfl)
  · rintro (hu | rfl)
    · exact h.disjoint x (List.mem_cons_of_mem a hx) hu
    · exact hnotin hx

/-- `a` goes back to the free list. -/
theorem give (h : Pool all free used) (ha : used a) :
    Pool all (a :: free) fun x => used x ∧ x ≠ a := by
  refine ⟨List.nodup_cons.mpr ⟨fun hfree => h.disjoint a hfree ha, h.nodup⟩, fun x => ?_, ?_⟩
  · rw [h.mem, List.mem_cons]
    constructor
    · rintro (hfree | hu)
      · exact .inl (.inr hfree)
      · by_cases hx : x = a
        · exact .inl (.inl hx)
        · exact .inr ⟨hu, hx⟩
    · rintro ((rfl | hfree) | ⟨hu, _⟩)
      · exact .inr ha
      · exact .inl hfree
      · exact .inr hu
  · intro x hx
    rcases List.mem_cons.mp hx with rfl | hfree
    · rintro ⟨_, hne⟩
      exact hne rfl
    · rintro ⟨hu, _⟩
      exact h.disjoint x hfree hu

theorem used_mem (h : Pool all free used) (ha : used a) : a ∈ all := (h.mem a).mpr (.inr ha)

/-- If the elements in use are named by fewer names than there are elements, one is free. -/
theorem free_ne_nil (h : Pool all free used) (name : α → β) (names : Finset β)
    (hname : ∀ a, used a → name a ∈ names)
    (hinj : ∀ a b, used a → used b → name a = name b → a = b) (hcard : names.card < all.card) :
    free ≠ [] := by
  rintro rfl
  have hused : ∀ a ∈ all, used a := by
    intro a ha
    rcases (h.mem a).mp ha with hnil | hu
    · cases hnil
    · exact hu
  have hle := Finset.card_le_card_of_injOn name (fun a ha => hname a (hused a ha))
    (fun a ha b hb => hinj a b (hused a ha) (hused b hb))
  exact absurd hcard (Nat.not_lt.mpr hle)

end Pool

end Lists
