import Mathlib.Data.List.Sort
import Mathlib.Order.Basic

namespace Collections

variable {α τ : Type} [LinearOrder τ]

-- Two lists in the order of their keys are equal when they agree on every key.
theorem eq_of_groups {f : α → τ} {l m : List α} (hl : l.Pairwise (fun a b => f a ≤ f b))
    (hm : m.Pairwise (fun a b => f a ≤ f b))
    (h : ∀ t, l.filter (fun a => f a = t) = m.filter (fun a => f a = t)) : l = m := by
  induction l generalizing m with
  | nil =>
    cases m with
    | nil => rfl
    | cons b m =>
      have hb := h (f b)
      simp at hb
  | cons a l ih =>
    cases m with
    | nil =>
      have ha := h (f a)
      simp at ha
    | cons b m =>
      obtain ⟨hal, hltail⟩ := List.pairwise_cons.mp hl
      obtain ⟨hbm, hmtail⟩ := List.pairwise_cons.mp hm
      have hle : f a ≤ f b := by
        have hmem : b ∈ (a :: l).filter (fun x => f x = f b) := by
          rw [h (f b)]
          simp
        rcases List.mem_cons.mp (List.mem_filter.mp hmem).1 with he | hmem
        · rw [he]
        · exact hal b hmem
      have hge : f b ≤ f a := by
        have hmem : a ∈ (b :: m).filter (fun x => f x = f a) := by
          rw [← h (f a)]
          simp
        rcases List.mem_cons.mp (List.mem_filter.mp hmem).1 with he | hmem
        · rw [he]
        · exact hbm a hmem
      have hab : f a = f b := le_antisymm hle hge
      have hhead := h (f a)
      simp only [List.filter_cons, hab, decide_true, if_true] at hhead
      obtain ⟨rfl, -⟩ := List.cons.inj hhead
      have htail : l = m := by
        apply ih hltail hmtail
        intro t
        have ht := h t
        by_cases hat : f a = t
        · simp only [List.filter_cons, hat, decide_true, if_true] at ht
          exact (List.cons.inj ht).2
        · simpa only [List.filter_cons, hat, decide_false, Bool.false_eq_true, if_false] using ht
      rw [htail]

theorem eq_groups_iff {f : α → τ} {l m : List α} (hm : m.Pairwise (fun a b => f a ≤ f b)) :
    l = m ↔ l.Pairwise (fun a b => f a ≤ f b) ∧
      ∀ t, l.filter (fun a => f a = t) = m.filter (fun a => f a = t) := by
  constructor
  · rintro rfl
    exact ⟨hm, fun _ => rfl⟩
  · rintro ⟨hl, h⟩
    exact eq_of_groups hl hm h

theorem eq_of_perm {f : α → τ} {l m : List α} (hp : l.Perm m) (hn : (l.map f).Nodup)
    (hl : l.Pairwise (fun a b => f a ≤ f b)) (hm : m.Pairwise (fun a b => f a ≤ f b)) : l = m := by
  refine List.Perm.eq_of_pairwise (fun a b ha hb hab hba => ?_) hl hm hp
  exact List.inj_on_of_nodup_map hn ha (hp.mem_iff.mpr hb) (le_antisymm hab hba)

theorem pairwise_insertionSort_on (f : α → τ) (l : List α) :
    (l.insertionSort (fun a b => f a ≤ f b)).Pairwise (fun a b => f a ≤ f b) := by
  have htotal : Std.Total (fun a b : α => f a ≤ f b) := ⟨fun a b => le_total (f a) (f b)⟩
  have htrans : IsTrans α (fun a b : α => f a ≤ f b) := ⟨fun a b c => le_trans⟩
  exact List.pairwise_insertionSort _ l

end Collections
