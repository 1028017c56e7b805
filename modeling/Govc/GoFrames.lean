import Govc.GoEffects

/-!
# What a call leaves alone

A call leaves a part of its receiver alone if that part is the same after the
call, whatever its outcome.  The part is given by a function of the state.
-/

namespace Go.GoM

variable {σ ω α γ : Type} {part : σ → ω}

def Leaves (part : σ → ω) (m : GoM σ α) : Prop := ∀ s, part (m s).2 = part s

namespace Leaves

theorem of_same {m : GoM σ α} (hsame : ∀ s, (m s).2 = s) : Leaves part m := by
  intro s
  rw [hsame]

theorem of_run (hm : Leaves part m) (hrun : m s = (outcome, s')) : part s' = part s := by
  simpa only [hrun] using hm s

theorem pure (a : α) : Leaves part (Pure.pure a : GoM σ α) := of_same fun _ => rfl

theorem fail (text : GoString) : Leaves part (GoM.fail text : GoM σ α) := of_same fun _ => rfl

theorem view (f : σ → α) : Leaves part (GoM.view f) := of_same fun _ => rfl

theorem query (f : σ → Except GoString α) : Leaves part (GoM.query f) := by
  refine of_same fun s => ?_
  rw [query_apply]
  cases f s <;> simp

theorem update {f : σ → σ} (hf : ∀ s, part (f s) = part s) :
    Leaves part (GoM.update f) :=
  hf

theorem bind {m : GoM σ α} {f : α → GoM σ γ} (hm : Leaves part m)
    (hf : ∀ a, Leaves part (f a)) : Leaves part (m >>= f) := by
  intro s
  have hfirst := hm s
  rw [bind_apply]
  rcases hrun : m s with ⟨outcome, s'⟩
  rw [hrun] at hfirst
  cases outcome with
  | ok a => exact (hf a s').trans hfirst
  | _ => exact hfirst

theorem mapError {m : GoM σ α} (hm : Leaves part m)
    (f : GoString → GoString) : Leaves part (GoM.mapError f m) := by
  intro s
  have hfirst := hm s
  unfold GoM.mapError
  rcases hrun : m s with ⟨outcome, s'⟩
  rw [hrun] at hfirst
  cases outcome <;> exact hfirst

theorem attempt {m : GoM σ α} (hm : Leaves part m) :
    Leaves part (GoM.attempt m) := by
  intro s
  have hfirst := hm s
  unfold GoM.attempt
  rcases hrun : m s with ⟨outcome, s'⟩
  rw [hrun] at hfirst
  cases outcome <;> exact hfirst

theorem ite {c : Prop} [Decidable c] {m n : GoM σ α} (hm : Leaves part m)
    (hn : Leaves part n) : Leaves part (if c then m else n) := by
  by_cases hc : c
  · simpa [hc] using hm
  · simpa [hc] using hn

theorem forEach {items : List α} {body : α → GoM σ Unit}
    (hbody : ∀ a, Leaves part (body a)) :
    Leaves part (GoM.forEach items body) := by
  induction items with
  | nil => exact pure ()
  | cons item rest ih => exact (hbody item).bind fun _ => ih

end Leaves

/-- A loop whose body leaves one part of the state alone and changes another
one by `step` folds that part. -/
theorem forEach_tracks {ρ : Type} {kept : σ → ρ} {step : ω → α → ω}
    {body : α → GoM σ Unit} (hbody : ∀ a s, kept (body a s).2 = kept s ∧
      part (body a s).2 = step (part s) a) {items : List α} {s s' : σ}
    (hrun : forEach items body s = (.ok (), s')) :
    kept s' = kept s ∧ part s' = items.foldl step (part s) := by
  induction items generalizing s with
  | nil =>
    cases hrun
    exact ⟨rfl, rfl⟩
  | cons item rest ih =>
    obtain ⟨_, mid, hfirst, hrest⟩ := bind_eq_ok hrun
    have hmid := hbody item s
    rw [hfirst] at hmid
    rw [List.foldl_cons, ← hmid.1, ← hmid.2]
    exact ih hrest

end Go.GoM
