import Mathlib.Data.List.Lex
import Mathlib.Tactic

/-!
# Intervals of lists

In the lexicographic order a list lies between its first element alone and any
list that continues that element further on.  So an interval that has a list
with a certain first element has one of two simple ones: that element alone or
the lower bound of the interval.
-/

namespace LexInterval

variable {α : Type} [LinearOrder α]

theorem nil_le (s : List α) : [] ≤ s := not_lt.mp (List.not_lt_nil s)

theorem cons_le_cons_iff {a b : α} {s t : List α} :
    a :: s ≤ b :: t ↔ a < b ∨ a = b ∧ s ≤ t := by
  rw [le_iff_lt_or_eq, le_iff_lt_or_eq, List.cons_lt_cons_iff, List.cons.injEq]
  tauto

theorem singleton_le_cons (a : α) (s : List α) : [a] ≤ a :: s :=
  cons_le_cons_iff.mpr (.inr ⟨rfl, nil_le s⟩)

theorem le_singleton_or_cons {s rest : List α} {a : α}
    (hlower : s ≤ a :: rest) : s ≤ [a] ∨ ∃ tail, s = a :: tail := by
  cases s with
  | nil => exact .inl (nil_le [a])
  | cons b tail =>
    rcases cons_le_cons_iff.mp hlower with hlt | ⟨rfl, -⟩
    · exact .inl (cons_le_cons_iff.mpr (.inl hlt))
    · exact .inr ⟨tail, rfl⟩

end LexInterval
