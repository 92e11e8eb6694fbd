import Mathlib.Data.List.Induction
import Mathlib.Data.List.Lex
import Mathlib.Data.Nat.Basic
import Mathlib.Data.Nat.Bitwise
import Mathlib.Tactic.Common
import Mathlib.Tactic.Ring

namespace Collections

namespace Digits

-- The digits of a number in base `b`, most significant first, in `k` places.
def digits (b : Nat) : Nat → Nat → List Nat
  | 0, _ => []
  | k + 1, n => n / b ^ k % b :: digits b k n

variable {b k m n : Nat}

theorem length_digits (b k n : Nat) : (digits b k n).length = k := by
  induction k with
  | zero => rfl
  | succ k ih => rw [digits, List.length_cons, ih]

theorem lt_of_mem_digits (hb : 0 < b) {d : Nat} (h : d ∈ digits b k n) : d < b := by
  induction k with
  | zero => cases h
  | succ k ih =>
    rcases List.mem_cons.mp h with rfl | hrest
    · exact Nat.mod_lt _ hb
    · exact ih hrest

theorem digits_mod (b k i n : Nat) : digits b k (n % b ^ (k + i)) = digits b k n := by
  induction k generalizing i with
  | zero => rfl
  | succ k ih =>
    have hplaces : k + 1 + i = k + (i + 1) := by omega
    have hdigit : n % b ^ (k + 1 + i) / b ^ k % b = n / b ^ k % b := by
      rw [hplaces, Nat.pow_add, Nat.mod_mul_right_div_self, Nat.pow_succ, Nat.mod_mul_left_mod]
    rw [digits, digits, hdigit, hplaces, ih (i + 1)]

theorem digits_lt (h : m < n) (hn : n < b ^ k) : digits b k m < digits b k n := by
  induction k generalizing m n with
  | zero =>
    rw [Nat.pow_zero] at hn
    omega
  | succ k ih =>
    have hb : 0 < b := by
      rcases Nat.eq_zero_or_pos b with rfl | hb
      · rw [Nat.pow_succ, Nat.mul_zero] at hn
        omega
      · exact hb
    have hpos : 0 < b ^ k := Nat.pow_pos hb
    have hquotient {x : Nat} (hx : x < b ^ (k + 1)) : x / b ^ k < b := by
      rw [Nat.pow_succ, Nat.mul_comm] at hx
      exact Nat.div_lt_of_lt_mul (by rwa [Nat.mul_comm] at hx)
    rw [digits, digits, Nat.mod_eq_of_lt (hquotient (h.trans hn)), Nat.mod_eq_of_lt (hquotient hn),
      List.cons_lt_cons_iff]
    rcases Nat.lt_or_eq_of_le (Nat.div_le_div_right (c := b ^ k) h.le) with hlt | heq
    · exact Or.inl hlt
    · refine Or.inr ⟨heq, ?_⟩
      have hm := Nat.div_add_mod m (b ^ k)
      have hn' := Nat.div_add_mod n (b ^ k)
      rw [heq] at hm
      rw [← digits_mod b k 0 m, ← digits_mod b k 0 n]
      exact ih (by simp only [Nat.add_zero]; omega) (Nat.mod_lt _ hpos)

theorem digits_concat (b k n : Nat) : digits b (k + 1) n = digits b k (n / b) ++ [n % b] := by
  induction k with
  | zero => simp [digits]
  | succ k ih =>
    have hdigit : n / b ^ (k + 1) % b = n / b / b ^ k % b := by
      rw [Nat.div_div_eq_div_mul, Nat.pow_succ, Nat.mul_comm b]
    rw [digits, ih, digits, hdigit, List.cons_append]

theorem drop_digits (b k j n : Nat) : (digits b (j + k) n).drop j = digits b k n := by
  induction j with
  | zero => rw [Nat.zero_add, List.drop_zero]
  | succ j ih =>
    rw [Nat.add_right_comm, digits, List.drop_succ_cons]
    exact ih

def value (b : Nat) (ds : List Nat) : Nat := ds.foldl (fun n d => b * n + d) 0

theorem value_concat (b : Nat) (ds : List Nat) (d : Nat) :
    value b (ds ++ [d]) = b * value b ds + d := by
  simp [value]

theorem value_digits (b k n : Nat) : value b (digits b k n) = n % b ^ k := by
  induction k generalizing n with
  | zero => simp [digits, value, Nat.mod_one]
  | succ k ih =>
    rw [digits_concat, value_concat, ih, Nat.pow_succ', Nat.mod_mul, Nat.add_comm]

theorem value_lt {ds : List Nat} (h : ∀ d ∈ ds, d < b) : value b ds < b ^ ds.length := by
  induction ds using List.reverseRecOn with
  | nil => exact Nat.one_pos
  | append_singleton ds d ih =>
    have hd : d < b := h d (List.mem_append_right _ (List.mem_singleton.mpr rfl))
    have hds := ih (fun e he => h e (List.mem_append_left _ he))
    have hle : b * (value b ds + 1) ≤ b * b ^ ds.length := Nat.mul_le_mul_left b hds
    rw [Nat.mul_add, Nat.mul_one] at hle
    rw [value_concat, List.length_append, List.length_singleton, Nat.pow_succ']
    omega

theorem digits_inj (h : digits b k m = digits b k n) : m % b ^ k = n % b ^ k := by
  rw [← value_digits, ← value_digits, h]

end Digits

section Fields

variable {a b v p w : Nat}

theorem field_lt (hb : b < 2 ^ p) (hv : v < 2 ^ w) : 2 ^ p * v + b < 2 ^ (p + w) := by
  have hle : 2 ^ p * (v + 1) ≤ 2 ^ p * 2 ^ w := Nat.mul_le_mul_left _ hv
  rw [Nat.mul_add, Nat.mul_one, ← Nat.pow_add] at hle
  omega

-- Writing a field of `w` bits at place `p` over bits that are clear.
theorem set_field (a : Nat) (hb : b < 2 ^ p) (hv : v < 2 ^ w) :
    Nat.ldiff (2 ^ (p + w) * a + b) ((2 ^ w - 1) <<< p) ||| v <<< p =
      2 ^ (p + w) * a + (2 ^ p * v + b) := by
  have hbw : b < 2 ^ (p + w) := lt_of_lt_of_le hb (Nat.pow_le_pow_right (by decide) (by omega))
  refine Nat.eq_of_testBit_eq (fun i => ?_)
  rw [Nat.testBit_or, Nat.testBit_ldiff, Nat.testBit_shiftLeft, Nat.testBit_shiftLeft,
    Nat.testBit_two_pow_mul_add a hbw, Nat.testBit_two_pow_mul_add a (field_lt hb hv),
    Nat.testBit_two_pow_mul_add v hb, Nat.testBit_two_pow_sub_one]
  rcases Nat.lt_or_ge i p with hlow | hlow
  · have hin : i < p + w := by omega
    simp [hlow, hin, Nat.not_le.mpr hlow]
  · have hzero : b.testBit i = false :=
      Nat.testBit_lt_two_pow (lt_of_lt_of_le hb (Nat.pow_le_pow_right (by decide) hlow))
    rcases Nat.lt_or_ge i (p + w) with hin | hin
    · have hplace : i - p < w := by omega
      simp [hlow, hin, hzero, Nat.not_lt.mpr hlow]
    · have hplace : ¬ i - p < w := by omega
      have hclear : v.testBit (i - p) = false :=
        Nat.testBit_lt_two_pow (lt_of_lt_of_le hv (Nat.pow_le_pow_right (by decide) (by omega)))
      simp [Nat.not_lt.mpr hin, hclear, hplace]

end Fields

section Lex

variable {α β : Type} [LinearOrder α] [LinearOrder β] {xs ys : List α}

theorem map_lt_map {f : α → β} (hf : ∀ x ∈ xs, ∀ y ∈ ys, x < y → f x < f y) (h : xs < ys) :
    xs.map f < ys.map f := by
  induction xs generalizing ys with
  | nil =>
    cases ys with
    | nil => exact absurd h (lt_irrefl _)
    | cons y ys => exact List.nil_lt_cons _ _
  | cons x xs ih =>
    cases ys with
    | nil => exact absurd h (List.not_lt_nil _)
    | cons y ys =>
      rw [List.map_cons, List.map_cons, List.cons_lt_cons_iff]
      rcases List.cons_lt_cons_iff.mp h with hlt | ⟨rfl, hrest⟩
      · exact Or.inl (hf x List.mem_cons_self y List.mem_cons_self hlt)
      · exact Or.inr ⟨rfl, ih (fun x hx y hy => hf x (List.mem_cons_of_mem _ hx) y
          (List.mem_cons_of_mem _ hy)) hrest⟩

-- Where two lists differ is before or after their first `k` elements.
theorem split_lt (k : Nat) (h : xs < ys) (hlength : xs.length = ys.length) :
    xs.take k < ys.take k ∨ xs.take k = ys.take k ∧ xs.drop k < ys.drop k := by
  induction k generalizing xs ys with
  | zero => exact Or.inr ⟨rfl, h⟩
  | succ k ih =>
    cases xs with
    | nil =>
      rw [List.eq_nil_of_length_eq_zero hlength.symm] at h
      exact absurd h (lt_irrefl _)
    | cons x xs =>
      cases ys with
      | nil => exact absurd h (List.not_lt_nil _)
      | cons y ys =>
        rw [List.take_succ_cons, List.take_succ_cons, List.drop_succ_cons, List.drop_succ_cons,
          List.cons_lt_cons_iff]
        rcases List.cons_lt_cons_iff.mp h with hlt | ⟨rfl, hrest⟩
        · exact Or.inl (Or.inl hlt)
        · rcases ih hrest (Nat.succ.inj hlength) with hbefore | ⟨hsame, hafter⟩
          · exact Or.inl (Or.inr ⟨rfl, hbefore⟩)
          · exact Or.inr ⟨congrArg (x :: ·) hsame, hafter⟩

theorem append_lt_append {us vs : List α} (h : xs < ys) (hlength : xs.length = ys.length) :
    xs ++ us < ys ++ vs := by
  induction xs generalizing ys with
  | nil =>
    rw [List.eq_nil_of_length_eq_zero hlength.symm] at h
    exact absurd h (lt_irrefl _)
  | cons x xs ih =>
    cases ys with
    | nil => exact absurd h (List.not_lt_nil _)
    | cons y ys =>
      rw [List.cons_append, List.cons_append, List.cons_lt_cons_iff]
      rcases List.cons_lt_cons_iff.mp h with hlt | ⟨rfl, hrest⟩
      · exact Or.inl hlt
      · exact Or.inr ⟨rfl, ih hrest (Nat.succ.inj hlength)⟩

theorem append_lt_append_left {us vs : List α} (h : us < vs) (xs : List α) :
    xs ++ us < xs ++ vs := by
  induction xs with
  | nil => exact h
  | cons x xs ih => exact List.cons_lt_cons_iff.mpr (Or.inr ⟨rfl, ih⟩)

end Lex

end Collections
