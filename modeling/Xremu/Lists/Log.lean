import Mathlib.Data.List.Basic

/-!
# Logs

A list that grows at its end: the trace of a run, the operations of a device. What is said of
an event of a log is said of a split of it, and a log with one more event is split at that
event, or where it was split without it.
-/

namespace Lists

variable {α : Type} {log before after : List α} {x last : α}

theorem snoc_eq_append (h : log ++ [last] = before ++ after) :
    (before = log ++ [last] ∧ after = []) ∨
      ∃ rest, after = rest ++ [last] ∧ log = before ++ rest := by
  rcases List.eq_nil_or_concat after with rfl | ⟨rest, y, rfl⟩
  · rw [List.append_nil] at h
    exact .inl ⟨h.symm, rfl⟩
  · rw [List.concat_eq_append] at h ⊢
    rw [← List.append_assoc] at h
    obtain ⟨hlog, rfl⟩ := List.append_singleton_inj.mp h
    exact .inr ⟨rest, rfl, hlog⟩

theorem snoc_split (h : log ++ [last] = before ++ x :: after) :
    (log = before ∧ last = x ∧ after = []) ∨
      ∃ rest, after = rest ++ [last] ∧ log = before ++ x :: rest := by
  rw [List.append_cons before] at h
  rcases snoc_eq_append h with ⟨hbefore, rfl⟩ | ⟨rest, rfl, hlog⟩
  · obtain ⟨rfl, rfl⟩ := List.append_singleton_inj.mp hbefore
    exact .inl ⟨rfl, rfl, rfl⟩
  · rw [← List.append_cons] at hlog
    exact .inr ⟨rest, rfl, hlog⟩

end Lists
