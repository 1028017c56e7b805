import Mathlib.Tactic

/-!
# Walks along links

From an item a link leads to one further item, or nowhere, or it cannot be
read.  A walk follows the links until one of the last two happens.  Walks from
two items that meet are the same from there on, so their first common item is
the nearest one to both.
-/

namespace Walks

variable {α : Type} {next : α → Option (Option α)}

/-- The items visited from `start`, if there are finitely many.  An item whose
link cannot be read is the last one. -/
inductive Walk (next : α → Option (Option α)) : Option α → List α → Prop where
  | finished : Walk next none []
  | stuck {item : α} : next item = none → Walk next (some item) [item]
  | step {item : α} {follower : Option α} {items : List α} :
      next item = some follower → Walk next follower items →
      Walk next (some item) (item :: items)

def Reaches (next : α → Option (Option α)) : α → α → Prop :=
  Relation.ReflTransGen fun item follower => next item = some (some follower)

namespace Walk

variable {start : Option α} {items others before rest : List α}
  {first item : α}

theorem unique (hwalk : Walk next start items)
    (hother : Walk next start others) : items = others := by
  induction hwalk generalizing others with
  | finished =>
    cases hother
    rfl
  | stuck hnone => cases hother <;> simp_all
  | step hnext _ ih =>
    cases hother with
    | stuck hnone => simp_all
    | step hnext' hrest =>
      rw [hnext, Option.some.injEq] at hnext'
      subst hnext'
      rw [ih hrest]

theorem rest_of_append (hwalk : Walk next start (before ++ item :: rest)) :
    Walk next (some item) (item :: rest) := by
  induction before generalizing start with
  | nil =>
    cases hwalk with
    | stuck hnone => exact .stuck hnone
    | step hnext hrest => exact .step hnext hrest
  | cons first before ih =>
    generalize hitems : first :: before ++ item :: rest = items at hwalk
    cases hwalk with
    | step _ hrest =>
      rw [List.cons_append, List.cons.injEq] at hitems
      rw [← hitems.2] at hrest
      exact ih hrest
    | _ => simp at hitems

/-- A walk that came to an item twice would have no end. -/
theorem nodup (hwalk : Walk next start items) : items.Nodup := by
  induction hwalk with
  | finished => exact List.nodup_nil
  | stuck _ => exact List.nodup_singleton _
  | step hnext hrest ih =>
    refine List.nodup_cons.mpr ⟨fun hmem => ?_, ih⟩
    obtain ⟨before, rest, rfl⟩ := List.append_of_mem hmem
    have hlength := congrArg List.length (hrest.rest_of_append.unique (.step hnext hrest))
    simp at hlength
    omega

theorem head_mem (hwalk : Walk next (some first) items) : first ∈ items := by
  cases hwalk <;> simp

theorem mem_of_link (hwalk : Walk next start items) (hmem : item ∈ items)
    (hlink : next item = some (some first)) : first ∈ items := by
  obtain ⟨before, rest, rfl⟩ := List.append_of_mem hmem
  cases hwalk.rest_of_append with
  | stuck hnone => simp [hnone] at hlink
  | step hnext hrest =>
    rw [hlink, Option.some.injEq] at hnext
    subst hnext
    simp [hrest.head_mem]

theorem mem_of_reaches (hwalk : Walk next (some first) items)
    (hreach : Reaches next first item) : item ∈ items := by
  induction hreach with
  | refl => exact hwalk.head_mem
  | tail _ hlink ih => exact hwalk.mem_of_link ih hlink

end Walk

/-! ## The nearest common item -/

variable {left right : List α} {item : α} {leftStart rightStart : Option α}

/-- An item of both lists with nothing common before it in either. -/
def NearestCommon (left right : List α) (item : α) : Prop :=
  ∃ beforeLeft beforeRight rest,
    left = beforeLeft ++ item :: rest ∧ right = beforeRight ++ item :: rest ∧
    (∀ other ∈ beforeLeft, other ∉ right) ∧ ∀ other ∈ beforeRight, other ∉ left

theorem NearestCommon.symm (hnear : NearestCommon left right item) :
    NearestCommon right left item := by
  obtain ⟨beforeLeft, beforeRight, rest, hleft, hright, hfar, hfar'⟩ := hnear
  exact ⟨beforeRight, beforeLeft, rest, hright, hleft, hfar', hfar⟩

variable [DecidablePred (· ∈ left)] [DecidablePred (· ∈ right)]

/-- The first item of one walk that is on the other walk is the nearest
common one. -/
theorem find_common_iff (hleft : Walk next leftStart left) (hright : Walk next rightStart right) :
    right.find? (· ∈ left) = some item ↔ NearestCommon left right item := by
  rw [List.find?_eq_some_iff_append]
  constructor
  · rintro ⟨hcommon, beforeRight, rest, rfl, hfar⟩
    obtain ⟨beforeLeft, restLeft, rfl⟩ := List.append_of_mem (of_decide_eq_true hcommon)
    have hsame := hleft.rest_of_append.unique hright.rest_of_append
    rw [List.cons.injEq] at hsame
    obtain ⟨-, rfl⟩ := hsame
    refine ⟨beforeLeft, beforeRight, restLeft, rfl, rfl, ?_, ?_⟩
    · have hnodup := hleft.nodup
      grind
    · intro other hmem
      simpa using hfar other hmem
  · rintro ⟨beforeLeft, beforeRight, rest, rfl, rfl, -, hfar⟩
    refine ⟨by simp, beforeRight, rest, rfl, ?_⟩
    intro other hmem
    simpa using hfar other hmem

theorem find_common_comm (hleft : Walk next leftStart left) (hright : Walk next rightStart right) :
    right.find? (· ∈ left) = left.find? (· ∈ right) := by
  apply Option.ext
  intro item
  rw [find_common_iff hleft hright, find_common_iff hright hleft]
  exact ⟨.symm, .symm⟩

/-- The start of one walk is the nearest common item exactly if the other
walk comes to it. -/
theorem find_common_eq_start_iff (hleft : Walk next (some item) left)
    (hright : Walk next rightStart right) :
    right.find? (· ∈ left) = some item ↔ item ∈ right := by
  refine ⟨List.mem_of_find?_eq_some, fun hmem => ?_⟩
  rw [find_common_comm hleft hright]
  cases hleft <;> simp [hmem]

end Walks
