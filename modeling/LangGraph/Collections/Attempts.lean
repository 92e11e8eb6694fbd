import Mathlib.Data.Nat.Basic
import Mathlib.Tactic.Common

namespace Collections

namespace Attempts

variable {α ε : Type}

-- Calls that are made again until one succeeds. `stop` says with what error an attempt that
-- failed is the last one all the same; the number is that of the calls made.
def attempts (call : Nat → Except ε α) (stop : Nat → ε → Option ε) (exhausted : ε) :
    Nat → Nat → Nat × Except ε α
  | 0, k => (k, .error exhausted)
  | n + 1, k =>
      match call k with
      | .ok a => (k + 1, .ok a)
      | .error e =>
          if n = 0 then (k + 1, .error e)
          else
            match stop k e with
            | some e' => (k + 1, .error e')
            | none => attempts call stop exhausted n (k + 1)

def Again (call : Nat → Except ε α) (stop : Nat → ε → Option ε) (k : Nat) : Prop :=
  ∃ e, call k = .error e ∧ stop k e = none

-- An attempt is made when all the ones before it failed and were to be made again.
def Made (call : Nat → Except ε α) (stop : Nat → ε → Option ε) (n k : Nat) : Prop :=
  k < n ∧ ∀ i < k, Again call stop i

variable {call : Nat → Except ε α} {stop : Nat → ε → Option ε} {exhausted : ε}

-- What the attempts from `k` on come to: their number, and the answer of the last one.
structure Ended (call : Nat → Except ε α) (stop : Nat → ε → Option ε) (n k : Nat)
    (r : Nat × Except ε α) : Prop where
  bounded : k ≤ r.1
  made : ∀ j, k ≤ j → (j < r.1 ↔ j < k + n ∧ ∀ i, k ≤ i → i < j → Again call stop i)
  answered : ∀ a, r.2 = .ok a → k < r.1 ∧ call (r.1 - 1) = .ok a
  failed : ∀ j, k ≤ j → j < r.1 → ∀ e, r.2 = .error e → ∃ e', call j = .error e'

theorem ended_last {n k : Nat} {r : Except ε α} (hlast : n = 0 ∨ ¬ Again call stop k)
    (hok : ∀ a, r = .ok a → call k = .ok a) (herror : ∀ e, r = .error e → ∃ e', call k = .error e') :
    Ended call stop (n + 1) k (k + 1, r) where
  bounded := Nat.le_succ k
  made := by
    intro j hj
    constructor
    · intro hlt
      have hlt : j < k + 1 := hlt
      exact ⟨by omega, fun i _ _ => by omega⟩
    · rintro ⟨hlt, hall⟩
      rcases hlast with rfl | hno
      · exact hlt
      · by_contra hbeyond
        have hbeyond : ¬ j < k + 1 := hbeyond
        exact hno (hall k (le_refl k) (by omega))
  answered := fun a ha => ⟨Nat.lt_succ_self k, hok a ha⟩
  failed := by
    intro j hj hlt e he
    have hlt : j < k + 1 := hlt
    obtain rfl : j = k := by omega
    exact herror e he

theorem ended_again {n k : Nat} {r : Nat × Except ε α} (h : Again call stop k)
    (hrest : Ended call stop n (k + 1) r) : Ended call stop (n + 1) k r where
  bounded := by
    have hle := hrest.bounded
    omega
  made := by
    intro j hj
    rcases Nat.lt_or_eq_of_le hj with hlt | rfl
    · rw [hrest.made j hlt]
      constructor
      · rintro ⟨hbound, hall⟩
        refine ⟨by omega, fun i hi hij => ?_⟩
        rcases Nat.lt_or_eq_of_le hi with hlater | rfl
        · exact hall i hlater hij
        · exact h
      · rintro ⟨hbound, hall⟩
        exact ⟨by omega, fun i hi hij => hall i (by omega) hij⟩
    · have hle := hrest.bounded
      exact iff_of_true (by omega) ⟨by omega, fun i hi hij => by omega⟩
  answered := by
    intro a ha
    obtain ⟨hlt, hcall⟩ := hrest.answered a ha
    exact ⟨by omega, hcall⟩
  failed := by
    intro j hj hlt e he
    rcases Nat.lt_or_eq_of_le hj with hlater | rfl
    · exact hrest.failed j hlater hlt e he
    · obtain ⟨e', he', -⟩ := h
      exact ⟨e', he'⟩

theorem ended_attempts (n k : Nat) :
    Ended call stop n k (attempts call stop exhausted n k) := by
  induction n generalizing k with
  | zero =>
    refine ⟨le_refl k, fun j hj => ?_, fun a ha => (by cases ha), fun j hj hlt => ?_⟩
    · rw [attempts]
      exact iff_of_false (by omega) (fun h => by omega)
    · have hlt : j < k := hlt
      omega
  | succ n ih =>
    rw [attempts]
    cases hcall : call k with
    | ok a =>
      refine ended_last (.inr ?_) (fun b hb => hcall.trans hb) (fun e he => (by cases he))
      rintro ⟨e, he, -⟩
      cases hcall.symm.trans he
    | error e =>
      by_cases hzero : n = 0
      · simp only [if_pos hzero]
        exact ended_last (.inl hzero) (fun a ha => (by cases ha)) (fun _ _ => ⟨e, hcall⟩)
      · simp only [if_neg hzero]
        cases hstop : stop k e with
        | some e' =>
          refine ended_last (.inr ?_) (fun a ha => (by cases ha)) (fun _ _ => ⟨e, hcall⟩)
          rintro ⟨e'', he, hnone⟩
          cases hcall.symm.trans he
          cases hstop.symm.trans hnone
        | none => exact ended_again ⟨e, hcall, hstop⟩ (ih (k + 1))

section Start

variable {n : Nat} {r : Nat × Except ε α}

theorem Ended.made_iff (h : Ended call stop n 0 r) (j : Nat) : j < r.1 ↔ Made call stop n j := by
  rw [h.made j (Nat.zero_le j), Nat.zero_add]
  exact and_congr_right fun _ => ⟨fun hall i hi => hall i (Nat.zero_le i) hi,
    fun hall i _ hi => hall i hi⟩

-- After an attempt that was answered no other one is made.
theorem Made.le_of_answered {j k : Nat} (h : Made call stop n k) {a : α}
    (ha : call j = .ok a) : k ≤ j := by
  by_contra hlt
  obtain ⟨e, he, -⟩ := h.2 j (by omega)
  cases ha.symm.trans he

theorem Ended.answered_iff (h : Ended call stop n 0 r) (a : α) :
    r.2 = .ok a ↔ ∃ j, Made call stop n j ∧ call j = .ok a := by
  constructor
  · intro ha
    obtain ⟨hpos, hcall⟩ := h.answered a ha
    exact ⟨r.1 - 1, (h.made_iff _).mp (by omega), hcall⟩
  · rintro ⟨j, hmade, hcall⟩
    have hlt := (h.made_iff j).mpr hmade
    cases hr : r.2 with
    | error e =>
      obtain ⟨e', he'⟩ := h.failed j (Nat.zero_le j) hlt e hr
      cases hcall.symm.trans he'
    | ok b =>
      obtain ⟨hpos, hlast⟩ := h.answered b hr
      have hle := ((h.made_iff (r.1 - 1)).mp (by omega)).le_of_answered hcall
      obtain rfl : j = r.1 - 1 := by omega
      cases hcall.symm.trans hlast
      rfl

end Start

end Attempts

end Collections
