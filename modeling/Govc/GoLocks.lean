import Govc.GoEffects

/-!
# Locks that a call takes

A read/write lock of Go is not reentrant: a call that asks for a lock which
it holds for writing waits for itself.  One call runs at a time here, so the
lock is a flag in the state, and a call that finds it set never returns.
-/

namespace Go

namespace GoM

variable {σ τ α γ : Type}

def Ends (m : GoM σ α) : Prop := ∀ s, (m s).1 ≠ .diverge

variable {m : GoM σ α}

theorem Ends.bind (hm : Ends m) (hf : ∀ a, Ends (f a)) : Ends (m >>= f) := by
  intro s
  have hfirst := hm s
  rw [bind_apply]
  rcases hrun : m s with ⟨outcome, s'⟩
  rw [hrun] at hfirst
  cases outcome with
  | ok a => exact hf a s'
  | diverge => exact absurd rfl hfirst
  | _ => simp

theorem bind_of_diverge (hm : m s = (.diverge, s')) : (m >>= f) s = (.diverge, s') := by
  rw [bind_apply, hm]

theorem mapError_of_diverge (hm : m s = (.diverge, s')) :
    mapError f m s = (.diverge, s') := by
  rw [mapError, hm]

theorem Ends.zoom {m : GoM τ α} (hm : Ends m) (get : σ → τ)
    (set : σ → τ → σ) : Ends (GoM.zoom get set m) :=
  fun s => hm (get s)

theorem bind_pure_diverges (m : GoM σ α) (b : γ) (s : σ) :
    ((m >>= fun _ => pure b) s).1 = .diverge ↔ (m s).1 = .diverge := by
  rw [bind_apply]
  rcases m s with ⟨outcome, s'⟩
  cases outcome <;> simp

end GoM

/-- A flag in the state that says whether the lock is held for writing. -/
structure Mutex (σ : Type) where
  held : σ → Bool
  hold : σ → Bool → σ
  hold_held : ∀ s, hold s (held s) = s

namespace Mutex

variable {σ α : Type} (mutex : Mutex σ)

def locking (m : GoM σ α) : GoM σ α := fun s =>
    if mutex.held s then (.diverge, s)
    else
      GoM.deferring (GoM.update fun t => mutex.hold t false) m (mutex.hold s true)

def reading (m : GoM σ α) : GoM σ α := fun s => if mutex.held s then (.diverge, s) else m s

theorem locking_cases :
    mutex.locking m s = (.diverge, s) ∨
      ∃ taken, (mutex.locking m s).2 = mutex.hold (m (mutex.hold s true)).2 taken := by
  unfold locking
  split
  · exact .inl rfl
  · rcases GoM.deferring_snd with hsame | hfreed
    · exact .inr ⟨_, hsame.trans (mutex.hold_held _).symm⟩
    · exact .inr ⟨false, hfreed⟩

variable {m : GoM σ α} {s : σ}

theorem locking_ok (hreturned : (mutex.locking m s).1 = .ok a) :
    (m (mutex.hold s true)).1 = .ok a ∧
      (mutex.locking m s).2 = mutex.hold (m (mutex.hold s true)).2 false := by
  unfold locking at hreturned ⊢
  by_cases hheld : mutex.held s = true
  · rw [if_pos hheld] at hreturned
    cases hreturned
  · rw [if_neg hheld, GoM.deferring] at hreturned ⊢
    rcases hrun : m (mutex.hold s true) with ⟨outcome, s'⟩
    rw [hrun] at hreturned
    cases outcome with
    | ok b => exact ⟨hreturned, rfl⟩
    | _ => cases hreturned

theorem locking_of_free (hfree : mutex.held s = false)
    (hrun : m (mutex.hold s true) = (.ok a, s')) :
    mutex.locking m s = (.ok a, mutex.hold s' false) := by
  rw [locking, hfree, if_neg Bool.false_ne_true, GoM.deferring, hrun]
  rfl

theorem locking_fst (hfree : mutex.held s = false) :
    (mutex.locking m s).1 = (m (mutex.hold s true)).1 := by
  rw [locking, hfree, if_neg Bool.false_ne_true, GoM.deferring]
  rcases m (mutex.hold s true) with ⟨outcome, s'⟩
  cases outcome <;> rfl

theorem locking_of_held (hheld : mutex.held s = true) :
    mutex.locking m s = (.diverge, s) := by
  rw [locking, if_pos hheld]

/-- What the body leaves and what was there before, whatever the flag, is all
that a locked call can leave. -/
theorem locking_keeps {Q : σ → Prop}
    (hhold : ∀ t taken, Q t → Q (mutex.hold t taken)) (hs : Q s)
    (hm : Q (m (mutex.hold s true)).2) : Q (mutex.locking m s).2 := by
  rcases mutex.locking_cases with hwaits | ⟨taken, hdone⟩
  · rw [hwaits]
    exact hs
  · rw [hdone]
    exact hhold _ taken hm

theorem reading_keeps {Q : σ → Prop} (hs : Q s)
    (hm : Q (m s).2) : Q (mutex.reading m s).2 := by
  unfold reading
  split
  · exact hs
  · exact hm

theorem reading_cases :
    mutex.held s = true ∧ mutex.reading m s = (.diverge, s) ∨
      mutex.held s = false ∧ mutex.reading m s = m s := by
  unfold reading
  cases mutex.held s with
  | true => exact .inl ⟨rfl, rfl⟩
  | false => exact .inr ⟨rfl, rfl⟩

theorem reading_of_held (hheld : mutex.held s = true) :
    mutex.reading m s = (.diverge, s) := by
  rw [reading, if_pos hheld]

theorem reading_of_free (hfree : mutex.held s = false) : mutex.reading m s = m s := by
  rw [reading, hfree, if_neg Bool.false_ne_true]

end Mutex

end Go
