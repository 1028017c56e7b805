import Mathlib.Tactic

/-!
# Copies on distinct members

The holders of something that is kept in several copies: the first one serves
it, the others stand by.  They are well placed among the members of a group if
they are members and no two are the same.  Dropping holders keeps that, and so
does handing the copy of one holder to a member that has none.
-/

namespace Replicas

variable {α : Type}

structure Placed (members : Set α) (holders : List α) : Prop where
  distinct : holders.Nodup
  present : ∀ holder ∈ holders, holder ∈ members

variable {members : Set α}

theorem placed_singleton (hmember : holder ∈ members) : Placed members [holder] where
  distinct := List.nodup_singleton holder
  present := by
    intro other hother
    rw [List.mem_singleton.mp hother]
    exact hmember

variable {holders : List α}

theorem Placed.sublist (hplaced : Placed members holders) (hsub : fewer.Sublist holders) :
    Placed members fewer where
  distinct := hplaced.distinct.sublist hsub
  present := fun holder hholder => hplaced.present holder (hsub.subset hholder)

theorem Placed.mono (hplaced : Placed members holders) (hsub : members ⊆ larger) :
    Placed larger holders where
  distinct := hplaced.distinct
  present := fun holder hholder => hsub (hplaced.present holder hholder)

variable [DecidableEq α]

theorem Placed.leave (hplaced : Placed members holders) (leaving : α) :
    Placed (members \ {leaving})
      (holders.filter fun holder => decide (holder ≠ leaving)) where
  distinct := hplaced.distinct.filter _
  present := by
    intro holder hholder
    rw [List.mem_filter] at hholder
    exact ⟨hplaced.present holder hholder.1, of_decide_eq_true hholder.2⟩

def handOver (source target : α) (holders : List α) : List α :=
  holders.map fun holder => if holder = source then target else holder

variable {source target : α}

theorem mem_handOver :
    holder ∈ handOver source target holders ↔
      (source ∈ holders ∧ holder = target) ∨ (holder ∈ holders ∧ holder ≠ source) := by
  unfold handOver
  rw [List.mem_map]
  constructor
  · rintro ⟨old, hold, rfl⟩
    split_ifs with heq
    · exact .inl ⟨heq ▸ hold, rfl⟩
    · exact .inr ⟨hold, heq⟩
  · rintro (⟨hsource, rfl⟩ | ⟨hmem, hne⟩)
    · exact ⟨source, hsource, if_pos rfl⟩
    · exact ⟨holder, hmem, if_neg hne⟩

theorem handOver_of_notMem (hsource : source ∉ holders) :
    handOver source target holders = holders := by
  conv_rhs => rw [← List.map_id holders]
  apply List.map_congr_left
  intro holder hholder
  have hne : holder ≠ source := fun heq => hsource (heq ▸ hholder)
  rw [if_neg hne]
  rfl

theorem handOver_self (source : α) (holders : List α) :
    handOver source source holders = holders := by
  conv_rhs => rw [← List.map_id holders]
  apply List.map_congr_left
  intro holder _
  split_ifs with heq
  · rw [heq]
    rfl
  · rfl

theorem Placed.handOver (hplaced : Placed members holders) (htarget : target ∈ members)
    (hfree : source ≠ target → source ∈ holders → target ∉ holders) :
    Placed members (handOver source target holders) := by
  by_cases hsame : source = target
  · rw [hsame, handOver_self]
    exact hplaced
  by_cases hsource : source ∈ holders
  · have hnew := hfree hsame hsource
    refine ⟨?_, ?_⟩
    · apply hplaced.distinct.map_on
      intro first hfirst second hsecond heq
      by_cases hone : first = source <;> by_cases htwo : second = source
      · rw [hone, htwo]
      · rw [if_pos hone, if_neg htwo] at heq
        exact absurd (heq ▸ hsecond) hnew
      · rw [if_neg hone, if_pos htwo] at heq
        exact absurd (heq ▸ hfirst) hnew
      · rw [if_neg hone, if_neg htwo] at heq
        exact heq
    · intro holder hholder
      rcases mem_handOver.mp hholder with ⟨-, rfl⟩ | ⟨hmem, -⟩
      · exact htarget
      · exact hplaced.present holder hmem
  · rw [handOver_of_notMem hsource]
    exact hplaced

end Replicas
