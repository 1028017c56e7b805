import Mathlib.Logic.Relation
import Mathlib.Order.Basic
import Mathlib.Tactic

/-!
# One vote in every term

A voter is in a term and has at most one vote in it.  It may move to a later
term, where it has not voted yet, or cast a vote that does not contradict the
one it has.  The votes it casts are recorded.  However the moves are combined,
terms only grow and the record holds at most one candidate for each term.
-/

namespace Ballots

variable {τ κ : Type}

structure Voter (τ κ : Type) where
  term : τ
  vote : Option κ
  granted : List (τ × κ)

inductive Move [LT τ] (voter : Voter τ κ) : Voter τ κ → Prop where
  | adopt {later : τ} : voter.term < later →
      Move voter ⟨later, none, voter.granted⟩
  | cast {candidate : κ} : (∀ earlier ∈ voter.vote, earlier = candidate) →
      Move voter ⟨voter.term, some candidate, (voter.term, candidate) :: voter.granted⟩

def Moves [LT τ] : Voter τ κ → Voter τ κ → Prop := Relation.ReflTransGen Move

/-- A recorded vote is not ahead of the voter, and is its vote in its own
term. -/
def Voter.Backed [LE τ] (voter : Voter τ κ) : Prop :=
  ∀ term candidate, (term, candidate) ∈ voter.granted →
    term ≤ voter.term ∧ (term = voter.term → voter.vote = some candidate)

def Voter.OncePerTerm (voter : Voter τ κ) : Prop :=
  ∀ term first second, (term, first) ∈ voter.granted →
    (term, second) ∈ voter.granted → first = second

variable [PartialOrder τ] {voter after : Voter τ κ}

theorem Move.term_le (hmove : Move voter after) : voter.term ≤ after.term := by
  cases hmove with
  | adopt hlater => exact hlater.le
  | cast hvote => exact le_rfl

theorem Move.backed (hmove : Move voter after) (hbacked : voter.Backed) : after.Backed := by
  cases hmove with
  | adopt hlater =>
    intro term candidate hgranted
    have hle := (hbacked term candidate hgranted).1
    refine ⟨hle.trans hlater.le, fun heq => ?_⟩
    rw [heq] at hle
    exact absurd hlater hle.not_gt
  | cast hvote =>
    intro term candidate hgranted
    rcases List.mem_cons.mp hgranted with heq | hgranted
    · cases heq
      exact ⟨le_rfl, fun _ => rfl⟩
    · obtain ⟨hle, hown⟩ := hbacked term candidate hgranted
      refine ⟨hle, fun heq => ?_⟩
      rw [hvote candidate (hown heq)]

theorem Move.oncePerTerm (hmove : Move voter after) (hbacked : voter.Backed)
    (honce : voter.OncePerTerm) : after.OncePerTerm := by
  have hafter := hmove.backed hbacked
  cases hmove with
  | adopt hlater => exact honce
  | @cast candidate hvote =>
    intro term first second hfirst hsecond
    by_cases heq : term = voter.term
    · have hvoted := (hafter term first hfirst).2 heq
      rw [(hafter term second hsecond).2 heq] at hvoted
      exact (Option.some.inj hvoted).symm
    · have hold : ∀ other, (term, other) ∈
          (voter.term, candidate) :: voter.granted → (term, other) ∈ voter.granted := by
        intro other hmem
        rcases List.mem_cons.mp hmem with hnew | hmem
        · exact absurd (congrArg Prod.fst hnew) heq
        · exact hmem
      exact honce term first second (hold first hfirst) (hold second hsecond)

theorem Moves.term_le (hmoves : Moves voter after) : voter.term ≤ after.term := by
  induction hmoves with
  | refl => exact le_rfl
  | tail _ hmove ih => exact ih.trans hmove.term_le

theorem Moves.safe (hmoves : Moves voter after) (hsafe : voter.Backed ∧ voter.OncePerTerm) :
    after.Backed ∧ after.OncePerTerm := by
  induction hmoves with
  | refl => exact hsafe
  | tail _ hmove ih =>
    exact ⟨hmove.backed ih.1, hmove.oncePerTerm ih.1 ih.2⟩

theorem safe_of_granted_nil (hnone : voter.granted = []) : voter.Backed ∧ voter.OncePerTerm := by
  constructor
  · intro term candidate hgranted
    rw [hnone] at hgranted
    cases hgranted
  · intro term first second hfirst
    rw [hnone] at hfirst
    cases hfirst

end Ballots
