import Mathlib.Tactic

/-!
# Runs under a guard

A system moves between states by labelled steps.  A run under a guard is one
whose every step satisfies a condition on its label and on the state before
it.  What one guarded step keeps, every guarded run keeps.
-/

namespace Runs

structure System (σ ι : Type) where
  init : σ → Prop
  step : σ → ι → σ → Prop

variable {σ ι : Type}

inductive Steps (sys : System σ ι) (guard : σ → ι → Prop) (first : σ) :
    σ → Prop where
  | refl : Steps sys guard first first
  | tail {middle last : σ} {label : ι} :
      Steps sys guard first middle → guard middle label →
      sys.step middle label last → Steps sys guard first last

variable {sys : System σ ι} {guard : σ → ι → Prop} {first last : σ}

theorem Steps.next (hrun : Steps sys guard first middle) (label : ι)
    (hguard : guard middle label) (hmove : sys.step middle label last) :
    Steps sys guard first last :=
  .tail hrun hguard hmove

theorem Steps.trans (hfirst : Steps sys guard first middle)
    (hsecond : Steps sys guard middle last) : Steps sys guard first last := by
  induction hsecond with
  | refl => exact hfirst
  | tail _ hguard hmove ih => exact .tail ih hguard hmove

def Reachable (sys : System σ ι) (guard : σ → ι → Prop) (state : σ) : Prop :=
  ∃ first, sys.init first ∧ Steps sys guard first state

variable {I : σ → Prop}

theorem Steps.invariant (hstep : ∀ s label s', I s → guard s label → sys.step s label s' → I s')
    (hrun : Steps sys guard first last) (hfirst : I first) : I last := by
  induction hrun with
  | refl => exact hfirst
  | tail _ hguard hmove ih => exact hstep _ _ _ ih hguard hmove

theorem Reachable.invariant (hinit : ∀ s, sys.init s → I s)
    (hstep : ∀ s label s', I s → guard s label → sys.step s label s' → I s')
    (hreach : Reachable sys guard state) : I state := by
  obtain ⟨first, hfirst, hrun⟩ := hreach
  exact hrun.invariant hstep (hinit first hfirst)

/-! ## Systems with a next state

Where a label determines the next state, a list of labels is a run. -/

def Admits (next : σ → ι → σ) (guard : σ → ι → Prop) (state : σ) : List ι → Prop
  | [] => True
  | label :: rest =>
    guard state label ∧ Admits next guard (next state label) rest

variable {next : σ → ι → σ} {other : σ → ι → Prop}

theorem admits_congr_of_invariant (hnext : ∀ state label, I state → I (next state label))
    (hsame : ∀ state label, I state → (guard state label ↔ other state label))
    (hfirst : I first) (labels : List ι) :
    Admits next guard first labels ↔ Admits next other first labels := by
  induction labels generalizing first with
  | nil => exact Iff.rfl
  | cons label rest ih =>
    exact and_congr (hsame first label hfirst) (ih (hnext first label hfirst))

theorem admits_congr (hsame : ∀ state label, guard state label ↔ other state label)
    (first : σ) (labels : List ι) :
    Admits next guard first labels ↔ Admits next other first labels :=
  admits_congr_of_invariant (I := fun _ => True) (fun _ _ _ => trivial)
    (fun state label _ => hsame state label) trivial labels

theorem admits_append (first : σ) (labels more : List ι) :
    Admits next guard first (labels ++ more) ↔
      Admits next guard first labels ∧ Admits next guard (labels.foldl next first) more := by
  induction labels generalizing first with
  | nil => exact (iff_of_eq (true_and _)).symm
  | cons label rest ih =>
    exact (and_congr_right fun _ => ih (next first label)).trans and_assoc.symm

variable {labels : List ι}

theorem Admits.and (hguard : Admits next guard first labels)
    (hother : Admits next other first labels) :
    Admits next (fun state label => guard state label ∧ other state label) first labels := by
  induction labels generalizing first with
  | nil => exact trivial
  | cons label rest ih =>
    exact ⟨⟨hguard.1, hother.1⟩, ih hguard.2 hother.2⟩

theorem Admits.invariant (hnext : ∀ state label, I state → guard state label → I (next state label))
    (hadmits : Admits next guard first labels)
    (hfirst : I first) : I (labels.foldl next first) := by
  induction labels generalizing first with
  | nil => exact hfirst
  | cons label rest ih =>
    exact ih hadmits.2 (hnext first label hfirst hadmits.1)

theorem Admits.steps (hnext : ∀ state label, I state → guard state label → I (next state label))
    (hstep : ∀ state label, I state → guard state label →
      property state label) (hadmits : Admits next guard first labels)
    (hfirst : I first) : Admits next property first labels := by
  induction labels generalizing first with
  | nil => exact trivial
  | cons label rest ih =>
    exact ⟨hstep first label hfirst hadmits.1, ih hadmits.2 (hnext first label hfirst hadmits.1)⟩

theorem same_throughout_iff {β : Type} (next : σ → ι → σ) (seen : σ → β)
    (first : σ) (labels : List ι) :
    (∀ done, done <+: labels → seen (done.foldl next first) = seen first) ↔
      Admits next (fun state label => seen (next state label) = seen state) first labels := by
  induction labels generalizing first with
  | nil =>
    constructor
    · exact fun _ => trivial
    · intro _ done hdone
      rw [List.prefix_nil.mp hdone]
      rfl
  | cons label rest ih =>
    constructor
    · intro hsame
      have hstep : seen (next first label) = seen first := hsame [label] ⟨rest, rfl⟩
      refine ⟨hstep, (ih (next first label)).mp ?_⟩
      intro done hdone
      have hlater := hsame (label :: done) (List.cons_prefix_cons.mpr ⟨rfl, hdone⟩)
      exact hlater.trans hstep.symm
    · rintro ⟨hstep, hrest⟩ done hdone
      cases done with
      | nil => rfl
      | cons head done =>
        obtain ⟨rfl, hlater⟩ := List.cons_prefix_cons.mp hdone
        exact ((ih _).mpr hrest done hlater).trans hstep

theorem steps_foldl (hnext : ∀ state label, sys.step state label (next state label))
    (hadmits : Admits next guard first labels) :
    Steps sys guard first (labels.foldl next first) := by
  induction labels generalizing first with
  | nil => exact .refl
  | cons label rest ih =>
    have hfirst : Steps sys guard first (next first label) :=
      .next .refl label hadmits.1 (hnext first label)
    exact hfirst.trans (ih hadmits.2)

end Runs
