import Mathlib.Data.List.Basic
import Mathlib.Order.MinMax

namespace Collections

variable {α β : Type}

-- Everything is looked at once and in order, and what is admitted beside those already picked
-- is picked.
def picked (admits : List β → α → Bool) (take : α → β) : List β → List α → List β
  | chosen, [] => chosen
  | chosen, x :: xs =>
      picked admits take (if admits chosen x then chosen ++ [take x] else chosen) xs

section Picked

variable {admits : List β → α → Bool} {take : α → β} {chosen : List β} {xs : List α}

theorem picked_induction {P : List β → Prop} (hchosen : P chosen)
    (hstep : ∀ chosen, ∀ x ∈ xs, P chosen → admits chosen x = true → P (chosen ++ [take x])) :
    P (picked admits take chosen xs) := by
  induction xs generalizing chosen with
  | nil => exact hchosen
  | cons x xs ih =>
    refine ih ?_ (fun chosen y hy => hstep chosen y (List.mem_cons_of_mem _ hy))
    split
    · rename_i hadmits
      exact hstep chosen x List.mem_cons_self hchosen hadmits
    · exact hchosen

theorem picked_ne_nil (h : chosen ≠ []) : picked admits take chosen xs ≠ [] := by
  refine picked_induction (P := (· ≠ [])) h ?_
  intro chosen x _ _ _ hnil
  exact List.cons_ne_nil _ _ (List.append_eq_nil_iff.mp hnil).2

theorem picked_eq_nil : picked admits take [] xs = [] ↔ ∀ x ∈ xs, admits [] x = false := by
  induction xs with
  | nil => simp [picked]
  | cons x xs ih =>
    rw [picked, List.forall_mem_cons]
    cases hx : admits [] x with
    | true =>
      have hne : picked admits take [take x] xs ≠ [] := picked_ne_nil (List.cons_ne_nil _ _)
      simpa using hne
    | false => simpa using ih

-- Where only the number of those picked and the thing itself decide.
theorem length_picked {limit : Nat} {good : α → Bool} {P : List β → Prop}
    (hadmits : ∀ chosen x, x ∈ xs → P chosen →
      admits chosen x = (decide (chosen.length < limit) && good x))
    (hstep : ∀ chosen x, x ∈ xs → P chosen → P (chosen ++ [take x]))
    (hchosen : P chosen) (hle : chosen.length ≤ limit) :
    (picked admits take chosen xs).length =
      min limit (chosen.length + (xs.filter good).length) := by
  induction xs generalizing chosen with
  | nil => simpa [picked] using hle
  | cons x xs ih =>
    have hadmits' := fun chosen y hy => hadmits chosen y (List.mem_cons_of_mem x hy)
    have hstep' := fun chosen y hy => hstep chosen y (List.mem_cons_of_mem x hy)
    rw [picked, hadmits chosen x List.mem_cons_self hchosen]
    by_cases hroom : chosen.length < limit
    · cases hgood : good x with
      | true =>
        have hmore : (chosen ++ [take x]).length ≤ limit := by
          rw [List.length_append, List.length_singleton]
          omega
        rw [decide_eq_true hroom, Bool.and_self, if_pos rfl,
          ih hadmits' hstep' (hstep chosen x List.mem_cons_self hchosen) hmore,
          List.filter_cons_of_pos hgood, List.length_append, List.length_singleton,
          List.length_cons]
        omega
      | false =>
        rw [Bool.and_false, if_neg Bool.false_ne_true, ih hadmits' hstep' hchosen hle,
          List.filter_cons_of_neg (by simp [hgood])]
    · rw [decide_eq_false hroom, Bool.false_and, if_neg Bool.false_ne_true,
        ih hadmits' hstep' hchosen hle]
      omega

end Picked

end Collections
