import Mathlib.Data.List.Sort
import Mathlib.Order.Basic

namespace Collections

variable {α τ : Type} [LinearOrder τ] (f : α → τ)

def Descends (l : List α) : Prop := l.Pairwise (fun a b => f b ≤ f a)

def StrictlyDescends (l : List α) : Prop := l.Pairwise (fun a b => f b < f a)

variable {f} {l m r : List α}

theorem StrictlyDescends.descends (h : StrictlyDescends f l) : Descends f l :=
  h.imp fun hlt => le_of_lt hlt

theorem Descends.strict_of_perm (h : Descends f m) (hperm : m.Perm l)
    (hl : StrictlyDescends f l) : StrictlyDescends f m := by
  have hne : m.Pairwise (fun a b => f a ≠ f b) := by
    refine (hperm.symm.pairwise_iff fun hab => hab.symm).mp ?_
    exact hl.imp fun hlt => (ne_of_lt hlt).symm
  exact (h.and hne).imp fun hab => lt_of_le_of_ne hab.1 hab.2.symm

theorem eq_of_strictlyDescends (h : Descends f m) (hperm : m.Perm l)
    (hl : StrictlyDescends f l) : m = l := by
  refine hperm.eq_of_pairwise ?_ (h.strict_of_perm hperm hl) hl
  intro a b _ _ hab hba
  exact absurd (lt_trans hab hba) (lt_irrefl _)

def descending (f : α → τ) (l : List α) : List α := l.mergeSort (fun a b => decide (f b ≤ f a))

theorem descending_perm (l : List α) : (descending f l).Perm l := List.mergeSort_perm l _

theorem descends_descending (l : List α) : Descends f (descending f l) := by
  have hsorted := @List.pairwise_mergeSort _ (fun a b => decide (f b ≤ f a))
    (fun a b c hab hbc => by
      simp only [decide_eq_true_eq] at hab hbc ⊢
      exact le_trans hbc hab)
    (fun a b => by
      rw [Bool.or_eq_true, decide_eq_true_eq, decide_eq_true_eq]
      exact (le_total (f b) (f a)))
    l
  exact hsorted.imp fun hab => by simpa using hab

theorem pair_descending {a b : α} (h : [a, b].Sublist l) (hab : f b ≤ f a) :
    [a, b].Sublist (descending f l) := by
  refine List.pair_sublist_mergeSort (fun x y z hxy hyz => ?_) (fun x y => ?_) ?_ h
  · simp only [decide_eq_true_eq] at hxy hyz ⊢
    exact le_trans hyz hxy
  · rw [Bool.or_eq_true, decide_eq_true_eq, decide_eq_true_eq]
    exact le_total (f y) (f x)
  · simpa using hab

theorem pair_or_swap {a b : α} (ha : a ∈ l) (hb : b ∈ l) (hne : a ≠ b) :
    [a, b].Sublist l ∨ [b, a].Sublist l := by
  induction l with
  | nil => cases ha
  | cons c l ih =>
    rcases List.mem_cons.mp ha with rfl | hatail
    · have hbtail : b ∈ l := (List.mem_cons.mp hb).resolve_left hne.symm
      exact .inl ((List.singleton_sublist.mpr hbtail).cons_cons _)
    · rcases List.mem_cons.mp hb with rfl | hbtail
      · exact .inr ((List.singleton_sublist.mpr hatail).cons_cons _)
      · exact (ih hatail hbtail).imp (fun h => h.cons _) (fun h => h.cons _)

theorem not_pair_and_swap {a b : α} (hnodup : l.Nodup) (h : [a, b].Sublist l) :
    ¬ [b, a].Sublist l := by
  intro hswap
  induction l with
  | nil => cases h
  | cons c l ih =>
    obtain ⟨hc, hl⟩ := List.nodup_cons.mp hnodup
    rcases List.sublist_cons_iff.mp h with htail | ⟨rest, heq, hrest⟩
    · rcases List.sublist_cons_iff.mp hswap with hswaptail | ⟨rest, heq, hrest⟩
      · exact ih hl htail hswaptail
      · cases heq
        exact hc (htail.subset (List.mem_cons_of_mem _ (List.mem_singleton_self _)))
    · cases heq
      rcases List.sublist_cons_iff.mp hswap with hswaptail | ⟨rest', heq, hrest'⟩
      · exact hc (hswaptail.subset (List.mem_cons_of_mem _ (List.mem_singleton_self _)))
      · cases heq
        exact hc (List.singleton_sublist.mp hrest)

-- Where a sort may order ties as it likes, its result is determined when there are none.
theorem all_descending_eq_iff (hnodup : l.Nodup) :
    (∀ m : List α, m.Perm l → Descends f m → m = r) ↔ r.Perm l ∧ StrictlyDescends f r := by
  constructor
  · intro h
    have hr : descending f l = r := h _ (descending_perm l) (descends_descending l)
    have hr' : descending f l.reverse = r :=
      h _ ((descending_perm _).trans l.reverse_perm) (descends_descending _)
    have hperm : r.Perm l := hr ▸ descending_perm l
    have hdescends : Descends f r := hr ▸ descends_descending l
    refine ⟨hperm, List.pairwise_iff_forall_sublist.mpr fun {a b} hpair => ?_⟩
    have hle : f b ≤ f a := List.pairwise_iff_forall_sublist.mp hdescends hpair
    have hrnodup : r.Nodup := hperm.nodup_iff.mpr hnodup
    refine lt_of_le_of_ne hle fun htie => ?_
    have hne : a ≠ b := by
      rintro rfl
      exact not_pair_and_swap hrnodup hpair hpair
    have ha : a ∈ l := hperm.subset (hpair.subset List.mem_cons_self)
    have hb : b ∈ l :=
      hperm.subset (hpair.subset (List.mem_cons_of_mem _ (List.mem_singleton_self _)))
    have hswapped : [b, a].Sublist r := by
      rcases pair_or_swap ha hb hne with hl | hl
      · have hreverse : [b, a].Sublist l.reverse := hl.reverse
        exact hr' ▸ pair_descending hreverse htie.ge
      · exact hr ▸ pair_descending hl htie.ge
    exact not_pair_and_swap hrnodup hpair hswapped
  · rintro ⟨hperm, hstrict⟩ m hm hdescends
    exact eq_of_strictlyDescends hdescends (hm.trans hperm.symm) hstrict

end Collections
