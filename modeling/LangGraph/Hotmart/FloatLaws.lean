import LangGraph.Collections.ExtendedRat
import LangGraph.Hotmart.Models

namespace LangGraph

open Collections Store

namespace Hotmart

-- Adding an amount to two others and rounding two amounts do not turn their order around.
class MonotoneAmounts (F : Type) [Amounts F] : Prop where
  add_mono : ∀ x y c : F, Floats.lt x y = true → Floats.lt (y + c) (x + c) = false
  round_mono : ∀ (x y : F) (decimals : Nat), Floats.lt y x = false →
    Floats.lt (Amounts.round y decimals) (Amounts.round x decimals) = false

-- What is not a number compares with nothing and stays so when it is rounded; the other floats
-- are in order, and a sum of positive ones is positive.
class LawfulAmounts (F : Type) [Amounts F] : Prop extends MonotoneAmounts F where
  eq_round : ∀ (x : F) (decimals : Nat),
    Floats.eq (Amounts.round x decimals) (Amounts.round x decimals) = Floats.eq x x
  lt_nan : ∀ x y : F, Floats.eq x x = false → Floats.lt x y = false ∧ Floats.lt y x = false
  lt_of_not_lt : ∀ x y z : F, Floats.eq y y = true → Floats.lt x z = true →
    Floats.lt x y = false → Floats.lt y z = true
  not_le_of_lt : ∀ x y : F, Floats.lt x y = true → Floats.le y x = false
  le_of_lt : ∀ x y : F, Floats.lt x y = true → Floats.le x y = true
  le_zero : Floats.le (0.0 : F) 0.0 = true
  pos_literal : ∀ m, 0 < m → Floats.lt (0.0 : F) (OfScientific.ofScientific m true 1) = true
  add_pos : ∀ x y : F, Floats.le 0.0 x = true → Floats.lt 0.0 y = true →
    Floats.lt 0.0 (x + y) = true
  nonzero_of_pos : ∀ x : F, Floats.lt 0.0 x = true → Amounts.nonzero x = true
  not_nonzero_zero : Amounts.nonzero (0.0 : F) = false

instance : MonotoneAmounts Rat where
  add_mono x y c h := by
    have hlt : x < y := of_decide_eq_true h
    exact decide_eq_false (not_lt.mpr (add_le_add_left hlt.le c))
  round_mono x y decimals h := by
    have hle : x ≤ y := not_lt.mp (of_decide_eq_false h)
    refine decide_eq_false (not_lt.mpr ?_)
    have hscaled : x * 10 ^ decimals + 1 / 2 ≤ y * 10 ^ decimals + 1 / 2 := by gcongr
    have hfloor : (x * 10 ^ decimals + 1 / 2).floor ≤ (y * 10 ^ decimals + 1 / 2).floor :=
      Rat.floor_monotone hscaled
    have hround (z : Rat) : Amounts.round z decimals =
        ((z * 10 ^ decimals + 1 / 2).floor : Rat) / ((10 ^ decimals : Nat) : Rat) :=
      Rat.mkRat_eq_div _ _
    rw [hround, hround]
    gcongr

instance : LawfulAmounts Rat where
  eq_round x decimals := by
    have hsame (y : Rat) : Floats.eq y y = true := decide_eq_true rfl
    rw [hsame, hsame]
  lt_nan x _ h := by
    have hsame : Floats.eq x x = true := decide_eq_true rfl
    exact absurd (hsame.symm.trans h) Bool.false_ne_true.symm
  lt_of_not_lt x y z _ hxz hxy := by
    have hlt : x < z := of_decide_eq_true hxz
    have hle : y ≤ x := not_lt.mp (of_decide_eq_false hxy)
    exact decide_eq_true (lt_of_le_of_lt hle hlt)
  not_le_of_lt x y h := decide_eq_false (not_le.mpr (of_decide_eq_true h))
  le_of_lt x y h := decide_eq_true (of_decide_eq_true h : x < y).le
  le_zero := decide_eq_true (le_refl _)
  pos_literal m hm := by
    have hpos : (0 : Rat) < Rat.ofScientific m true 1 := by
      rw [Rat.ofScientific_true_def, Rat.mkRat_eq_div]
      positivity
    have hzero : (0.0 : Rat) = 0 := by norm_num
    rw [hzero]
    exact decide_eq_true hpos
  add_pos x y hx hy := by
    have hzero : (0.0 : Rat) = 0 := by norm_num
    rw [hzero] at hx hy ⊢
    have hnonneg : 0 ≤ x := of_decide_eq_true hx
    have hpos : 0 < y := of_decide_eq_true hy
    exact decide_eq_true (add_pos_of_nonneg_of_pos hnonneg hpos)
  nonzero_of_pos x h := by
    have hzero : (0.0 : Rat) = 0 := by norm_num
    rw [hzero] at h
    have hpos : 0 < x := of_decide_eq_true h
    have hne : Floats.eqInt x 0 = false := decide_eq_false (by exact_mod_cast hpos.ne')
    rw [Amounts.nonzero, hne]
    rfl
  not_nonzero_zero := by
    have hzero : Floats.eqInt (0.0 : Rat) 0 = true := decide_eq_true (by norm_num)
    rw [Amounts.nonzero, hzero]
    rfl

-- What exact arithmetic leaves open of floats: their texts, and roots.
class ExactTexts where
  ofStr : String → Option ExtRat
  num : ExtRat → Nat → String
  repr : Json ExtRat → String
  sqrt : ExtRat → Option ExtRat

instance [ExactTexts] : Amounts ExtRat where
  ofInt n := some (.fin n)
  ofStr := ExactTexts.ofStr
  lt := ExtRat.lt
  le := ExtRat.le
  eq := ExtRat.eq
  eqInt x n := ExtRat.eq x (.fin n)
  sqrt := ExactTexts.sqrt
  round := ExtRat.round
  abs := ExtRat.abs
  num := ExactTexts.num
  repr := ExactTexts.repr
  inf := .inf
  count n := .fin n

theorem ExtRat.zero_literal : (0.0 : ExtRat) = .fin 0 :=
  congrArg ExtRat.fin (by norm_num : (OfScientific.ofScientific 0 true 1 : Rat) = 0)

theorem ExtRat.three_literal : (3.0 : ExtRat) = .fin 3 :=
  congrArg ExtRat.fin (by norm_num : (OfScientific.ofScientific 30 true 1 : Rat) = 3)

instance [ExactTexts] : LawfulAmounts ExtRat where
  add_mono := ExtRat.add_mono
  round_mono := ExtRat.round_mono
  eq_round := ExtRat.eq_round
  lt_nan _ _ h := ExtRat.lt_nan h
  lt_of_not_lt _ _ _ := ExtRat.lt_of_not_lt
  not_le_of_lt _ _ h := ExtRat.not_le_of_lt h
  le_of_lt _ _ h := ExtRat.le_of_lt h
  le_zero := by
    rw [ExtRat.zero_literal]
    exact decide_eq_true (le_refl 0)
  pos_literal m hm := by
    rw [ExtRat.zero_literal]
    have hpos : (0 : Rat) < Rat.ofScientific m true 1 := by
      rw [Rat.ofScientific_true_def, Rat.mkRat_eq_div]
      positivity
    exact decide_eq_true hpos
  add_pos _ _ hx hy := by
    rw [ExtRat.zero_literal] at hx hy ⊢
    exact ExtRat.add_pos hx hy
  nonzero_of_pos x h := by
    rw [ExtRat.zero_literal] at h
    cases x with
    | fin q =>
      have hpos : 0 < q := of_decide_eq_true h
      have hne : decide (q = 0) = false := decide_eq_false hpos.ne'
      exact congrArg not hne
    | inf => rfl
    | ninf => rfl
    | nan => rfl
  not_nonzero_zero := by
    rw [ExtRat.zero_literal]
    rfl

end Hotmart

end LangGraph
