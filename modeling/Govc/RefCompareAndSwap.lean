import Govc.GuardedRuns
import Govc.RefStore

/-!
# Two updates of one reference

`UpdateRef` reads the reference and writes it in two calls of the store; two
updates take turns here, one store operation a turn.  At most one of them
succeeds if neither writes between the other's operations or writes the expected
hash back too early; every other schedule lets both succeed.
-/

namespace Govc

open Go RefStore

inductive UpdatePhase where
  | called
  | checked
  | returned (result : Except GoString Unit)

structure RefRace where
  name : Bool → GoString
  newHash : Bool → GoString
  oldHash : GoString
  store : RefStore
  phase : Bool → UpdatePhase

namespace RefRace

def start (store : RefStore) (name newHash : Bool → GoString) (oldHash : GoString) : RefRace where
  name := name
  newHash := newHash
  oldHash := oldHash
  store := store
  phase := fun _ => .called

def enter (race : RefRace) (who : Bool) (phase : UpdatePhase) : RefRace :=
  { race with phase := Function.update race.phase who phase }

def check (race : RefRace) (who : Bool) : UpdatePhase :=
  match race.store.getRef (race.name who) with
  | .error e => .returned (.error e)
  | .ok currentHash =>
    if currentHash ≠ race.oldHash then
      .returned (.error (str "ref " ++ race.name who ++ str " has changed"))
    else .checked

def write (race : RefRace) (who : Bool) : RefRace := { race.enter who (.returned (.ok ())) with
    store := race.store.setRef (race.name who) (race.newHash who) }

def step (race : RefRace) (who : Bool) : RefRace :=
  match race.phase who with
  | .called =>
    if race.oldHash ≠ [] then race.enter who (race.check who)
    else race.write who
  | .checked => race.write who
  | .returned _ => race

def Succeeded (race : RefRace) (who : Bool) : Prop := race.phase who = .returned (.ok ())

def AtMostOne (race : RefRace) : Prop := ∀ who, race.Succeeded who → ¬ race.Succeeded (!who)

/-- A call that is about to write finds the other one not between its check
and its write, and it writes the expected hash only after the other one. -/
def Undisturbed (race : RefRace) (who : Bool) : Prop :=
  race.phase who = .checked →
    race.phase (!who) ≠ .checked ∧ (race.newHash who = race.oldHash → race.phase (!who) ≠ .called)

/-! ## A call on its own -/

theorem two_steps_eq_updateRef (race : RefRace) (who : Bool) (hcalled : race.phase who = .called) :
    match race.store.updateRef (race.name who) (race.newHash who)
      race.oldHash with
    | .ok store' => (race.step who).step who =
        { race.enter who (.returned (.ok ())) with store := store' }
    | .error e => (race.step who).step who =
        race.enter who (.returned (.error e)) := by
  unfold updateRef
  by_cases hold : race.oldHash = []
  · simp [step, hcalled, hold, write, enter]
  · cases hread : race.store.getRef (race.name who) with
    | error e => simp [step, hcalled, hold, check, hread, enter]
    | ok currentHash =>
      by_cases hsame : currentHash = race.oldHash
      · simp [step, hcalled, hold, check, hread, hsame, enter, write]
      · simp [step, hcalled, hold, check, hread, hsame, enter]

/-! ## One turn -/

section

variable {race : RefRace} {who : Bool}

@[simp] theorem enter_phase (phase : UpdatePhase) :
    (race.enter who phase).phase = Function.update race.phase who phase :=
  rfl

@[simp] theorem write_phase :
    (race.write who).phase = Function.update race.phase who (.returned (.ok ())) :=
  rfl

theorem step_of_called (hold : race.oldHash ≠ []) (hcalled : race.phase who = .called) :
    race.step who = race.enter who (race.check who) := by
  simp [step, hcalled, hold]

theorem step_of_checked (hchecked : race.phase who = .checked) :
    race.step who = race.write who := by
  simp [step, hchecked]

theorem step_of_returned {result : Except GoString Unit}
    (hreturned : race.phase who = .returned result) : race.step who = race := by
  simp [step, hreturned]

theorem check_cases (race : RefRace) (who : Bool) :
    (race.check who = .checked ∧ race.store.getRef (race.name who) = .ok race.oldHash) ∨
      (∃ e, race.check who = .returned (.error e)) ∧
        race.store.getRef (race.name who) ≠ .ok race.oldHash := by
  unfold check
  cases race.store.getRef (race.name who) with
  | error e => simp
  | ok currentHash =>
    by_cases hsame : currentHash = race.oldHash
    · simp [hsame]
    · simp [hsame]

theorem getRef_write (hsame : normalizeRefName (race.name (!who)) =
      normalizeRefName (race.name who)) :
    (race.write who).store.getRef (race.name (!who)) = .ok (race.newHash who) := by
  simp [write, getRef, setRef, hsame, GoMap.lookup_insert_eq]

end

theorem forall_callers (who : Bool) {P : Bool → Prop} :
    (∀ caller, P caller) ↔ P who ∧ P (!who) := by
  cases who with
  | false => exact Bool.forall_bool
  | true => exact Bool.forall_bool.trans and_comm

@[simp] theorem update_other {α : Type} {f : Bool → α} {who : Bool} {a : α} :
    Function.update f who a (!who) = f (!who) := by
  simp

/-! ## Schedules -/

structure Racing (race : RefRace) : Prop where
  expects : race.oldHash ≠ []
  oneRef : ∀ who, normalizeRefName (race.name (!who)) = normalizeRefName (race.name who)

variable {race : RefRace}

theorem Racing.step (hrace : race.Racing) (who : Bool) : (race.step who).Racing := by
  have hkept : (race.step who).oldHash = race.oldHash ∧ (race.step who).name = race.name := by
    unfold RefRace.step
    cases race.phase who with
    | called =>
      by_cases hold : race.oldHash = []
      · simp [hold, write, enter]
      · simp [hold, enter]
    | checked => simp [write, enter]
    | returned result => simp
  constructor
  · rw [hkept.1]
    exact hrace.expects
  · rw [hkept.2]
    exact hrace.oneRef

/-- After a success the other call is not between its operations, and it would
find another hash than the one it expects. -/
structure Exclusive (race : RefRace) : Prop where
  atMostOne : race.AtMostOne
  ofChecked : ∀ who, race.phase who = .checked → ¬ race.Succeeded (!who)
  ofCalled : ∀ who, race.phase who = .called → race.Succeeded (!who) →
    race.store.getRef (race.name who) ≠ .ok race.oldHash

variable {who : Bool}

theorem Exclusive.step (hrace : race.Racing) (h : race.Exclusive) (hguard : race.Undisturbed who) :
    (race.step who).Exclusive := by
  cases hphase : race.phase who with
  | returned result =>
    rw [step_of_returned hphase]
    exact h
  | called =>
    rw [step_of_called hrace.expects hphase]
    have hother := (forall_callers who).mp h.ofCalled
    rcases check_cases race who with
      ⟨hcheck, hread⟩ | ⟨⟨e, hcheck⟩, hread⟩
    · have hfailed : ¬ race.Succeeded (!who) := fun hdone => hother.1 hphase hdone hread
      unfold Succeeded at hfailed
      constructor
      · rw [AtMostOne, forall_callers who]
        simp [Succeeded, hcheck]
      · rw [forall_callers who]
        simp [Succeeded, hcheck, hfailed]
      · rw [forall_callers who]
        simp [Succeeded, hcheck]
    · constructor
      · rw [AtMostOne, forall_callers who]
        simp [Succeeded, hcheck]
      · rw [forall_callers who]
        simp [Succeeded, hcheck]
      · rw [forall_callers who]
        simp [Succeeded, hcheck]
  | checked =>
    rw [step_of_checked hphase]
    obtain ⟨hnotChecked, hnotCalled⟩ := hguard hphase
    have hfailed := h.ofChecked who hphase
    unfold Succeeded at hfailed
    constructor
    · rw [AtMostOne, forall_callers who]
      simp [Succeeded, hfailed]
    · rw [forall_callers who]
      simp [Succeeded, hnotChecked]
    · rw [forall_callers who]
      have hread := getRef_write (hrace.oneRef who)
      have hname : (race.write who).name = race.name := rfl
      have hold : (race.write who).oldHash = race.oldHash := rfl
      simp only [write_phase, Function.update_self, update_other, hname, hold, hread]
      refine ⟨by simp, fun hcalled _ hsame => ?_⟩
      exact hnotCalled (by simpa using hsame) hcalled

def Doomed (race : RefRace) (who : Bool) : Prop :=
  race.Succeeded who ∧
    (race.Succeeded (!who) ∨ race.phase (!who) = .checked ∨
      race.phase (!who) = .called ∧ race.store.getRef (race.name (!who)) = .ok race.oldHash)

theorem Doomed.step (hrace : race.Racing)
    (h : race.Doomed who) (turn : Bool) : (race.step turn).Doomed who := by
  obtain ⟨hdone, hother⟩ := h
  rcases Bool.eq_or_eq_not turn who with rfl | rfl
  · rw [step_of_returned hdone]
    exact ⟨hdone, hother⟩
  · unfold Succeeded at hdone
    rcases hother with hsucceeded | hchecked | ⟨hcalled, hread⟩
    · rw [step_of_returned hsucceeded]
      exact ⟨hdone, .inl hsucceeded⟩
    · rw [step_of_checked hchecked]
      simp [Doomed, Succeeded, hdone]
    · rw [step_of_called hrace.expects hcalled]
      rcases check_cases race (!who) with
        ⟨hcheck, _⟩ | ⟨_, hdiffers⟩
      · simp [Doomed, Succeeded, hdone, hcheck]
      · exact absurd hread hdiffers

theorem Doomed.of_disturbed (hrace : race.Racing)
    (hdisturbed : ¬ race.Undisturbed who) : (race.step who).Doomed who := by
  unfold Undisturbed at hdisturbed
  push Not at hdisturbed
  obtain ⟨hchecked, hother⟩ := hdisturbed
  rw [step_of_checked hchecked]
  refine ⟨by simp [Succeeded], ?_⟩
  by_cases hboth : race.phase (!who) = .checked
  · simp [hboth]
  · obtain ⟨hback, hcalled⟩ := hother hboth
    have hread := getRef_write (hrace.oneRef who)
    rw [hback] at hread
    exact .inr (.inr ⟨by simpa using hcalled, hread⟩)

def Finished (race : RefRace) : Prop := ∀ who, ∃ result, race.phase who = .returned result

theorem Doomed.finished (h : race.Doomed who) (hfinished : race.Finished) : ¬ race.AtMostOne := by
  intro hone
  obtain ⟨result, hreturned⟩ := hfinished (!who)
  rcases h.2 with hsucceeded | hchecked | ⟨hcalled, _⟩
  · exact hone who h.1 hsucceeded
  · simp [hreturned] at hchecked
  · simp [hreturned] at hcalled

theorem Doomed.run (hrace : race.Racing) (h : race.Doomed who) (schedule : List Bool) :
    (schedule.foldl RefRace.step race).Doomed who := by
  induction schedule generalizing race with
  | nil => exact h
  | cons turn rest ih => exact ih (hrace.step turn) (h.step hrace turn)

theorem Exclusive.run (hrace : race.Racing) (h : race.Exclusive) {schedule : List Bool}
    (hadmits : Runs.Admits RefRace.step Undisturbed race schedule) :
    (schedule.foldl RefRace.step race).Exclusive := by
  have hrun := hadmits.invariant (I := fun state => state.Racing ∧ state.Exclusive)
    (fun state turn hstate hguard =>
      ⟨hstate.1.step turn, hstate.2.step hstate.1 hguard⟩)
    ⟨hrace, h⟩
  exact hrun.2

theorem admits_of_finished (hrace : race.Racing) (hfinished : (schedule.foldl step race).Finished)
    (hone : (schedule.foldl step race).AtMostOne) :
    Runs.Admits step Undisturbed race schedule := by
  induction schedule generalizing race with
  | nil => exact trivial
  | cons turn rest ih =>
    refine ⟨?_, ih (hrace.step turn) hfinished hone⟩
    by_contra hdisturbed
    have hdoomed := Doomed.of_disturbed hrace hdisturbed
    exact (hdoomed.run (hrace.step turn) rest).finished hfinished hone

theorem start_exclusive {store : RefStore} {name newHash : Bool → GoString}
    {oldHash : GoString} : (start store name newHash oldHash).Exclusive := by
  constructor <;> simp [AtMostOne, Succeeded, start]

/-- At most one of two calls succeeds if and only if, once both have returned,
neither was disturbed by the other. -/
theorem at_most_one_update_iff (store : RefStore)
    (name newHash : Bool → GoString) (oldHash : GoString)
    (hexpects : oldHash ≠ []) (honeRef : normalizeRefName (name true) =
      normalizeRefName (name false))
    (schedule : List Bool) :
    let race := start store name newHash oldHash
    (schedule.foldl step race).AtMostOne ↔
      ((schedule.foldl step race).Finished → Runs.Admits step Undisturbed race schedule) := by
  intro race
  have hrace : race.Racing := by
    refine ⟨hexpects, fun who => ?_⟩
    cases who with
    | false => exact honeRef
    | true => exact honeRef.symm
  constructor
  · intro hone hfinished
    exact admits_of_finished hrace hfinished hone
  · intro hguarded who hdone hother
    have hfinished : (schedule.foldl step race).Finished :=
      (forall_callers who).mpr ⟨⟨_, hdone⟩, ⟨_, hother⟩⟩
    have hexclusive := start_exclusive.run hrace (hguarded hfinished)
    exact hexclusive.atMostOne who hdone hother

def onMain : RefRace :=
  start (new.createBranch (str "main") (str "a")) (fun _ => str "refs/heads/main")
    (fun who => if who then str "b" else str "c") (str "a")

/-- One call after the other. -/
theorem at_most_one_update_in_turn :
    (List.foldl step onMain [true, true, false, false]).AtMostOne := by
  refine (at_most_one_update_iff _ _ _ _ (by decide) rfl _).mpr ?_
  intro _
  refine ⟨?_, ?_, ?_, ?_, trivial⟩
  · intro hchecked
    cases hchecked
  · intro _
    refine ⟨?_, fun hback => absurd hback (by decide)⟩
    intro hchecked
    cases hchecked
  · intro hchecked
    cases hchecked
  · intro hchecked
    cases hchecked

/-- Both calls read before either one writes. -/
theorem both_updates_succeed :
    onMain.oldHash ≠ [] ∧ onMain.newHash true ≠ onMain.newHash false ∧
      ∀ who, (List.foldl step onMain [true, false, true, false]).Succeeded who := by
  refine ⟨by decide, by decide, ?_⟩
  intro who
  cases who <;> rfl

end RefRace

end Govc
