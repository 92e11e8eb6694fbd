import Mathlib.Data.List.Basic
import Mathlib.Data.Nat.Find

namespace Collections

variable {α : Type}

def pageOf (l : List α) (limit k : Nat) : List α := (l.drop (k * limit)).take limit

-- What the pages up to the first empty one hold, in order.
def Concatenated (pages : Nat → List α) (l : List α) : Prop :=
  ∃ n, pages n = [] ∧ (∀ k < n, pages k ≠ []) ∧ (List.range n).flatMap pages = l

theorem flatMap_pageOf (l : List α) (limit n : Nat) :
    (List.range n).flatMap (pageOf l limit) = l.take (n * limit) := by
  induction n with
  | zero => simp
  | succ n ih =>
    rw [List.range_succ, List.flatMap_append, ih, List.flatMap_singleton, Nat.succ_mul,
      List.take_add]
    rfl

theorem pageOf_eq_nil {l : List α} {limit k : Nat} (h : 0 < limit) :
    pageOf l limit k = [] ↔ l.length ≤ k * limit := by
  rw [pageOf, List.take_eq_nil_iff, List.drop_eq_nil_iff]
  exact or_iff_right (Nat.ne_of_gt h)

theorem concatenated_pages (l : List α) {limit : Nat} (h : 0 < limit) :
    Concatenated (pageOf l limit) l := by
  have hmany : ∃ n, l.length ≤ n * limit :=
    ⟨l.length, Nat.le_mul_of_pos_right l.length h⟩
  refine ⟨Nat.find hmany, (pageOf_eq_nil h).mpr (Nat.find_spec hmany), fun k hk => ?_, ?_⟩
  · exact fun hnil => Nat.find_min hmany hk ((pageOf_eq_nil h).mp hnil)
  · rw [flatMap_pageOf]
    exact List.take_of_length_le (Nat.find_spec hmany)

theorem not_concatenated {pages : Nat → List α} (h : ∀ k, pages k ≠ []) (l : List α) :
    ¬ Concatenated pages l := by
  rintro ⟨n, hn, -⟩
  exact h n hn

section Firsts

variable {κ : Type} [DecidableEq κ]

-- The first entry of each key.
def firsts (key : α → κ) (seen : List κ) : List α → List α
  | [] => []
  | a :: rest =>
      if key a ∈ seen then firsts key seen rest else a :: firsts key (key a :: seen) rest

theorem firsts_sublist (key : α → κ) (seen : List κ) (l : List α) :
    (firsts key seen l).Sublist l := by
  induction l generalizing seen with
  | nil => exact List.Sublist.slnil
  | cons a l ih =>
    rw [firsts]
    split
    · exact (ih seen).cons a
    · exact (ih (key a :: seen)).cons_cons a

theorem not_mem_firsts {key : α → κ} {seen : List κ} {l : List α} {a : α}
    (h : a ∈ firsts key seen l) : key a ∉ seen := by
  induction l generalizing seen with
  | nil => cases h
  | cons b l ih =>
    rw [firsts] at h
    split at h
    · exact ih h
    · rename_i hb
      rcases List.mem_cons.mp h with rfl | h
      · exact hb
      · exact fun hseen => ih h (List.mem_cons_of_mem _ hseen)

theorem nodup_firsts (key : α → κ) (seen : List κ) (l : List α) :
    ((firsts key seen l).map key).Nodup := by
  induction l generalizing seen with
  | nil => exact List.nodup_nil
  | cons a l ih =>
    rw [firsts]
    split
    · exact ih seen
    · rw [List.map_cons, List.nodup_cons]
      refine ⟨fun hmem => ?_, ih (key a :: seen)⟩
      obtain ⟨b, hb, hkey⟩ := List.mem_map.mp hmem
      exact not_mem_firsts hb (hkey ▸ List.mem_cons_self)

theorem exists_firsts {key : α → κ} {seen : List κ} {l : List α} {a : α} (h : a ∈ l)
    (hseen : key a ∉ seen) : ∃ b ∈ firsts key seen l, key b = key a := by
  induction l generalizing seen with
  | nil => cases h
  | cons c l ih =>
    rw [firsts]
    rcases List.mem_cons.mp h with rfl | h
    · rw [if_neg hseen]
      exact ⟨a, List.mem_cons_self, rfl⟩
    · split
      · exact ih h hseen
      · by_cases hkey : key a = key c
        · exact ⟨c, List.mem_cons_self, hkey.symm⟩
        · have hnext : key a ∉ key c :: seen := by simp [hkey, hseen]
          obtain ⟨b, hb, hsame⟩ := ih h hnext
          exact ⟨b, List.mem_cons_of_mem _ hb, hsame⟩

end Firsts

end Collections
