import Xremu.Lists.Path

/-!
# The queues of the host

`queue.h`: circular lists whose entries are part of what they queue. Each function is the
writes it makes, one after another, so that an entry that is also the head, or the only
one, is treated as it is in C.

What a function does to a list is stated with `Lists.Ring`, and each has a lemma that says
which pointers it leaves alone.
-/

namespace Xremu

open Lists

section

variable {π : Type} [DecidableEq π]

def setNext (l : Links π) (p q : π) : Links π := { l with next := Function.update l.next p q }

def setPrev (l : Links π) (p q : π) : Links π := { l with prev := Function.update l.prev p q }

/-- `InitializeList`. -/
def initializeList (l : Links π) (head : π) : Links π := setPrev (setNext l head head) head head

/-- `InsertAtTailList`. -/
def insertAtTailList (l : Links π) (head entry : π) : Links π :=
  let last := l.prev head
  let l := setPrev l entry last
  let l := setNext l entry head
  let l := setNext l last entry
  setPrev l head entry

/-- `InsertAtHeadList`. -/
def insertAtHeadList (l : Links π) (head entry : π) : Links π :=
  let first := l.next head
  let l := setNext l entry first
  let l := setPrev l entry head
  let l := setPrev l first entry
  setNext l head entry

/-- `RemoveEntryList`. -/
def removeEntryList (l : Links π) (entry : π) : Links π :=
  let prev := l.prev entry
  let next := l.next entry
  let l := setNext l prev next
  setPrev l next prev

/-- The two functions that insert are mirror images. -/
theorem insertAtHeadList_mirror (l : Links π) (head entry : π) :
    insertAtHeadList l head entry = (insertAtTailList l.mirror head entry).mirror := rfl

/-! ## Insertion -/

variable {α : Type} {ref : α → π} {l : Links π} {head : π} {a : α} {as : List α}

theorem insertAtTailList_other (h : Ring ref l head as) {p : π} (hhead : p ≠ head)
    (ha : p ≠ ref a) (has : ∀ b ∈ as, p ≠ ref b) :
    (insertAtTailList l head (ref a)).next p = l.next p ∧
      (insertAtTailList l head (ref a)).prev p = l.prev p := by
  have hlast : p ≠ l.prev head := by
    rcases h.prev_head with heq | ⟨b, hb, heq⟩
    · rw [heq]
      exact hhead
    · rw [heq]
      exact has b hb
  simp [insertAtTailList, setNext, setPrev, hhead, ha, hlast]

theorem ring_insertAtTailList (h : Ring ref l head as) (hnodup : as.Nodup) (hnew : a ∉ as)
    (hinj : ∀ a b, ref a = ref b → a = b) (hhead : ∀ a, ref a ≠ head) :
    Ring ref (insertAtTailList l head (ref a)) head (as ++ [a]) := by
  have hother : ∀ b ∈ as, b ≠ a := by
    rintro b hb rfl
    exact hnew hb
  constructor
  · -- Forwards the entry follows the last one.
    rcases List.eq_nil_or_concat as with rfl | ⟨bs, b, rfl⟩
    · have hempty : l.prev head = head := h.prev
      simp [insertAtTailList, setNext, setPrev, hempty, Lists.Path, hhead]
    · simp only [List.concat_eq_append] at h hnodup hother ⊢
      have hlast : l.prev head = ref b := by
        have hprev := h.prev
        simp only [List.reverse_append, List.reverse_singleton, List.singleton_append]
          at hprev
        exact hprev.1
      have hstart : (insertAtTailList l head (ref a)).next head = l.next head := by
        simp [insertAtTailList, setNext, setPrev, hlast, Ne.symm (hhead a),
          Ne.symm (hhead b)]
      have hba : ref b ≠ ref a := fun heq => hother b (by simp) (hinj b a heq)
      rw [hstart]
      have hpath : Path ref (fun c => (insertAtTailList l head (ref a)).next (ref c))
          (l.next head) (bs ++ [b]) (ref a) := by
        refine h.next.relink ?_ ?_
        · intro c hc
          have hcb : ref c ≠ ref b := by
            intro heq
            rw [List.nodup_append] at hnodup
            exact hnodup.2.2 c hc b (by simp) (hinj c b heq)
          have hca : ref c ≠ ref a := fun heq => hother c (by simp [hc]) (hinj c a heq)
          simp [insertAtTailList, setNext, setPrev, hlast, hcb, hca]
        · simp [insertAtTailList, setNext, setPrev, hlast]
      refine hpath.append ⟨rfl, ?_⟩
      show (insertAtTailList l head (ref a)).next (ref a) = head
      simp [insertAtTailList, setNext, setPrev, hlast, Ne.symm hba]
  · -- Backwards it comes first.
    rw [List.reverse_append, List.reverse_singleton, List.singleton_append]
    refine ⟨by simp [insertAtTailList, setNext, setPrev], ?_⟩
    have hstart : (insertAtTailList l head (ref a)).prev (ref a) = l.prev head := by
      simp [insertAtTailList, setNext, setPrev, hhead]
    dsimp only
    rw [hstart]
    refine h.prev.congr fun b hb => ?_
    have hba : ref b ≠ ref a :=
      fun heq => hother b (List.mem_reverse.mp hb) (hinj b a heq)
    simp [insertAtTailList, setNext, setPrev, hba, hhead]

theorem insertAtHeadList_other (h : Ring ref l head as) {p : π} (hhead : p ≠ head)
    (ha : p ≠ ref a) (has : ∀ b ∈ as, p ≠ ref b) :
    (insertAtHeadList l head (ref a)).next p = l.next p ∧
      (insertAtHeadList l head (ref a)).prev p = l.prev p := by
  rw [insertAtHeadList_mirror]
  obtain ⟨hnext, hprev⟩ := insertAtTailList_other (a := a) h.mirror hhead ha
    (fun b hb => has b (List.mem_reverse.mp hb))
  exact ⟨hprev, hnext⟩

theorem ring_insertAtHeadList (h : Ring ref l head as) (hnodup : as.Nodup) (hnew : a ∉ as)
    (hinj : ∀ a b, ref a = ref b → a = b) (hhead : ∀ a, ref a ≠ head) :
    Ring ref (insertAtHeadList l head (ref a)) head (a :: as) := by
  have hmirror := ring_insertAtTailList h.mirror (List.nodup_reverse.mpr hnodup)
    (fun hmem => hnew (List.mem_reverse.mp hmem)) hinj hhead
  have hback := hmirror.mirror
  rw [List.reverse_append, List.reverse_reverse, List.reverse_singleton,
    List.singleton_append] at hback
  rw [insertAtHeadList_mirror]
  exact hback

/-! ## Removal -/

theorem removeEntryList_other (h : Ring ref l head (a :: as)) {p : π} (hhead : p ≠ head)
    (has : ∀ b ∈ as, p ≠ ref b) :
    (removeEntryList l (ref a)).next p = l.next p ∧
      (removeEntryList l (ref a)).prev p = l.prev p := by
  have hnext : p ≠ l.next (ref a) := by
    rcases h.next_first with heq | ⟨b, hb, heq⟩
    · rw [heq]
      exact hhead
    · rw [heq]
      exact has b hb
  simp [removeEntryList, setNext, setPrev, h.prev_first, hhead, hnext]

theorem ring_removeEntryList (h : Ring ref l head (a :: as)) (hnodup : (a :: as).Nodup)
    (hinj : ∀ a b, ref a = ref b → a = b) (hhead : ∀ a, ref a ≠ head) :
    Ring ref (removeEntryList l (ref a)) head as := by
  have hfirst := h.prev_first
  constructor
  · have hstart : (removeEntryList l (ref a)).next head = l.next (ref a) := by
      simp [removeEntryList, setNext, setPrev, hfirst]
    rw [hstart]
    refine h.next.2.congr fun b hb => ?_
    simp [removeEntryList, setNext, setPrev, hfirst, hhead]
  · cases as with
    | nil =>
        have hend : l.next (ref a) = head := h.next.2
        simp [removeEntryList, setNext, setPrev, hfirst, hend, Lists.Path]
    | cons b bs =>
        have hnext : l.next (ref a) = ref b := h.next.2.1
        have hprev := h.prev
        rw [List.reverse_cons] at hprev
        obtain ⟨p, hrest, -⟩ := hprev.split
        have hstart : (removeEntryList l (ref a)).prev head = l.prev head := by
          simp [removeEntryList, setNext, setPrev, hnext, Ne.symm (hhead b)]
        rw [hstart]
        rw [List.reverse_cons] at hrest ⊢
        refine hrest.relink ?_ ?_
        · intro c hc
          have hcb : ref c ≠ ref b := by
            intro heq
            rw [hinj c b heq, List.mem_reverse] at hc
            exact (List.nodup_cons.mp (List.nodup_cons.mp hnodup).2).1 hc
          simp [removeEntryList, setNext, setPrev, hnext, hcb]
        · simp [removeEntryList, setNext, setPrev, hnext, hfirst]

theorem ring_initializeList (l : Links π) (head : π) :
    Ring ref (initializeList l head) head [] := by
  constructor
  · show (initializeList l head).next head = head
    simp [initializeList, setNext, setPrev]
  · show (initializeList l head).prev head = head
    simp [initializeList, setNext, setPrev]

theorem initializeList_other {p : π} (hp : p ≠ head) :
    (initializeList l head).next p = l.next p ∧
      (initializeList l head).prev p = l.prev p := by
  simp [initializeList, setNext, setPrev, hp]

end

end Xremu
