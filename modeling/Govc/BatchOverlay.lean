import Mathlib.Data.List.TakeDrop
import Mathlib.Tactic

/-!
# Laying a batch over a list

Two lists are compared place by place by a key.  `kept` is what the batch leaves
of the old entries: all, or those in front of the first difference.  `overlay`
puts the rest of the batch behind the old entries that it agrees with.
-/

namespace Overlay

variable {α κ : Type} (key : α → κ)

def Agree (old batch : List α) : Prop :=
  ∀ (i : ℕ) a b, old[i]? = some a → batch[i]? = some b → key a = key b

variable {key} in
theorem Agree.tail (hagree : Agree key (a :: old) (b :: batch)) : Agree key old batch := by
  intro i c d hc hd
  exact hagree (i + 1) c d hc hd

variable [DecidableEq κ]

def kept : List α → List α → List α
  | [], _ => []
  | a :: old, [] => a :: old
  | a :: old, b :: batch => if key a = key b then a :: kept old batch else []

def overlay : List α → List α → List α
  | [], batch => batch
  | a :: old, [] => a :: old
  | a :: old, b :: batch =>
    if key a = key b then a :: overlay old batch else b :: batch

@[simp] theorem kept_nil_right (old : List α) : kept key old [] = old := by
  cases old <;> rfl

@[simp] theorem overlay_nil_right (old : List α) : overlay key old [] = old := by
  cases old <;> rfl

theorem kept_append_drop (old batch : List α) :
    kept key old batch ++ batch.drop (kept key old batch).length = overlay key old batch := by
  induction old generalizing batch with
  | nil => rfl
  | cons a old ih =>
    cases batch with
    | nil => simp
    | cons b batch =>
      by_cases heq : key a = key b
      · simp [kept, overlay, heq, ih]
      · simp [kept, overlay, heq]

variable {key}

theorem overlay_getElem? {old batch : List α} {i : ℕ}
    (hb : batch[i]? = some b) :
    ∃ a, (overlay key old batch)[i]? = some a ∧ key a = key b := by
  induction old generalizing batch i with
  | nil => exact ⟨b, hb, rfl⟩
  | cons a old ih =>
    cases batch with
    | nil => simp at hb
    | cons c batch =>
      by_cases heq : key a = key c
      · rw [overlay, if_pos heq]
        cases i with
        | zero =>
          rw [List.getElem?_cons_zero, Option.some.injEq] at hb
          rw [← hb]
          exact ⟨a, rfl, heq⟩
        | succ i =>
          exact ih hb
      · rw [overlay, if_neg heq]
        exact ⟨b, hb, rfl⟩

theorem Agree.drop_overlay (hagree : Agree key old batch) :
    (overlay key old batch).drop batch.length = old.drop batch.length := by
  induction old generalizing batch with
  | nil => simp [overlay]
  | cons a old ih =>
    cases batch with
    | nil => simp
    | cons b batch =>
      have heq : key a = key b := hagree 0 a b rfl rfl
      rw [overlay, if_pos heq]
      exact ih hagree.tail

theorem overlay_take_take (items : List α) (m n : ℕ) :
    overlay key (items.take m) (items.take n) = items.take (max m n) := by
  induction items generalizing m n with
  | nil => simp
  | cons a items ih =>
    cases m with
    | zero => simp [overlay]
    | succ m =>
      cases n with
      | zero => simp
      | succ n =>
        rw [List.take_succ_cons, List.take_succ_cons, overlay,
          if_pos rfl, ih, Nat.succ_max_succ, List.take_succ_cons]

end Overlay
