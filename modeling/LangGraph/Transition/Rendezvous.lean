import Mathlib.Data.Finset.Disjoint
import Mathlib.Data.Finset.Lattice.Lemmas

namespace Transition

variable {α : Type} [DecidableEq α]

namespace Rendezvous

-- What is left of those that arrived: a meeting that is complete starts again from nobody.
def waiting (parties arrived : Finset α) : Finset α := if parties ⊆ arrived then ∅ else arrived

-- The rounds are given newest first.
def arrived (parties : Finset α) : List (Finset α) → Finset α
  | [] => ∅
  | round :: before => waiting parties (arrived parties before) ∪ (parties ∩ round)

def Completes (parties round : Finset α) (before : List (Finset α)) : Prop :=
  (∃ p ∈ parties, p ∈ round ∧ p ∉ waiting parties (arrived parties before)) ∧
    ∀ p ∈ parties, p ∈ round ∨ p ∈ waiting parties (arrived parties before)

instance (parties round : Finset α) (before : List (Finset α)) :
    Decidable (Completes parties round before) :=
  inferInstanceAs (Decidable (_ ∧ _))

variable {parties round arrivals : Finset α} {before : List (Finset α)}

theorem waiting_subset (h : arrivals ⊆ parties) : waiting parties arrivals ⊆ parties := by
  unfold waiting
  split
  · exact Finset.empty_subset parties
  · exact h

theorem arrived_subset (parties : Finset α) (rounds : List (Finset α)) :
    arrived parties rounds ⊆ parties := by
  induction rounds with
  | nil => exact Finset.empty_subset parties
  | cons round before ih =>
    exact Finset.union_subset (waiting_subset ih) Finset.inter_subset_left

theorem not_subset_waiting (hne : parties.Nonempty) :
    ¬ parties ⊆ waiting parties arrivals := by
  unfold waiting
  split
  · intro h
    obtain ⟨p, hp⟩ := hne
    exact absurd (h hp) (Finset.notMem_empty p)
  · assumption

theorem completes_iff (hne : parties.Nonempty) :
    Completes parties round before ↔ arrived parties (round :: before) = parties := by
  constructor
  · rintro ⟨-, hall⟩
    refine Finset.Subset.antisymm (arrived_subset parties _) (fun p hp => ?_)
    rcases hall p hp with hround | hwaiting
    · exact Finset.mem_union_right _ (Finset.mem_inter.mpr ⟨hp, hround⟩)
    · exact Finset.mem_union_left _ hwaiting
  · intro heq
    have hall : ∀ p ∈ parties, p ∈ round ∨ p ∈ waiting parties (arrived parties before) := by
      intro p hp
      rw [← heq] at hp
      rcases Finset.mem_union.mp hp with hwaiting | hround
      · exact Or.inr hwaiting
      · exact Or.inl (Finset.mem_inter.mp hround).2
    obtain ⟨p, hp, hmissing⟩ := Finset.not_subset.mp (not_subset_waiting hne)
    exact ⟨⟨p, hp, (hall p hp).resolve_right hmissing, hmissing⟩, hall⟩

theorem not_completes_of_absent (h : Disjoint parties round) :
    ¬ Completes parties round before := by
  rintro ⟨⟨p, hp, hround, -⟩, -⟩
  exact Finset.disjoint_left.mp h hp hround

end Rendezvous

end Transition
