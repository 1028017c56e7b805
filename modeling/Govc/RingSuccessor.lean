import Mathlib.Data.Set.Basic
import Mathlib.Order.Basic
import Mathlib.Tactic

/-!
# Successors on a ring

The points of a linear order are thought of as a ring on which some positions
are occupied.  The successor of a point is the first occupied position at or
behind it, and the least one if there is none.  Taking positions away does not
change the successor of a point as long as that successor itself stays.  A walk
around the ring may meet an owner of positions more than once.
-/

namespace Clockwise

variable {α : Type} [LinearOrder α]

structure IsSuccessor (occupied : Set α) (point position : α) : Prop where
  mem : position ∈ occupied
  first : (point ≤ position ∧ ∀ other ∈ occupied, point ≤ other → position ≤ other) ∨
    (∀ other ∈ occupied, other < point) ∧ ∀ other ∈ occupied, position ≤ other

variable {occupied fewer : Set α} {point position : α}

theorem IsSuccessor.unique (hfirst : IsSuccessor occupied point position)
    (hsecond : IsSuccessor occupied point other) : position = other := by
  rcases hfirst.first with ⟨hbehind, hleast⟩ | ⟨hnone, hleast⟩
  · rcases hsecond.first with ⟨hbehind', hleast'⟩ | ⟨hnone', -⟩
    · exact le_antisymm (hleast other hsecond.mem hbehind') (hleast' position hfirst.mem hbehind)
    · exact absurd hbehind (hnone' position hfirst.mem).not_ge
  · rcases hsecond.first with ⟨hbehind', -⟩ | ⟨-, hleast'⟩
    · exact absurd hbehind' (hnone other hsecond.mem).not_ge
    · exact le_antisymm (hleast other hsecond.mem) (hleast' position hfirst.mem)

theorem IsSuccessor.of_subset (hsucc : IsSuccessor occupied point position)
    (hfewer : fewer ⊆ occupied) (hmem : position ∈ fewer) :
    IsSuccessor fewer point position := by
  refine ⟨hmem, ?_⟩
  rcases hsucc.first with ⟨hbehind, hleast⟩ | ⟨hnone, hleast⟩
  · exact .inl ⟨hbehind, fun other hother => hleast other (hfewer hother)⟩
  · exact .inr ⟨fun other hother => hnone other (hfewer hother),
      fun other hother => hleast other (hfewer hother)⟩

/-! ## Items met on a walk, each once -/

section

variable {β : Type} [DecidableEq β]

/-- The items seen so far, and behind them the new ones in the order in which
they are met. -/
def firsts : List β → List β → List β
  | seen, [] => seen
  | seen, item :: rest => firsts (if item ∈ seen then seen else seen ++ [item]) rest

theorem isPrefix_firsts (seen items : List β) : seen <+: firsts seen items := by
  induction items generalizing seen with
  | nil => exact List.prefix_refl seen
  | cons item rest ih =>
    refine List.IsPrefix.trans ?_ (ih _)
    split_ifs
    · exact List.prefix_refl seen
    · exact List.prefix_append seen [item]

theorem head?_firsts (item : β) (rest : List β) : (firsts [] (item :: rest)).head? = some item := by
  rw [firsts, if_neg List.not_mem_nil, List.nil_append]
  obtain ⟨more, hmore⟩ := isPrefix_firsts [item] rest
  rw [← hmore]
  rfl

theorem nodup_firsts (items : List β) (hdistinct : seen.Nodup) : (firsts seen items).Nodup := by
  induction items generalizing seen with
  | nil => exact hdistinct
  | cons item rest ih =>
    apply ih
    split_ifs with hseen
    · exact hdistinct
    · rw [← List.concat_eq_append]
      exact hdistinct.concat hseen

theorem mem_firsts (seen items : List β) (item : β) :
    item ∈ firsts seen items ↔ item ∈ seen ∨ item ∈ items := by
  induction items generalizing seen with
  | nil => simp [firsts]
  | cons first rest ih =>
    rw [firsts, ih]
    split_ifs with hseen
    · grind
    · grind

end

end Clockwise
