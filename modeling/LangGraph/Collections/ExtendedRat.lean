import Mathlib.Algebra.Order.Ring.Rat
import Mathlib.Data.Rat.Floor
import Mathlib.Tactic.GCongr
import Mathlib.Tactic.Linarith

namespace Collections

-- Numbers without rounding, with the infinities and the value that is not a number of floats.
inductive ExtRat where
  | fin (q : Rat)
  | inf
  | ninf
  | nan
  deriving DecidableEq

namespace ExtRat

def neg : ExtRat → ExtRat
  | fin q => fin (-q)
  | inf => ninf
  | ninf => inf
  | nan => nan

def add : ExtRat → ExtRat → ExtRat
  | fin a, fin b => fin (a + b)
  | fin _, y => y
  | x, fin _ => x
  | inf, inf => inf
  | ninf, ninf => ninf
  | _, _ => nan

def signed (positive : Bool) : ExtRat := if positive then inf else ninf

-- The product with an infinity.
def infinite (positive : Bool) : ExtRat → ExtRat
  | fin q => if q = 0 then nan else signed (decide (0 < q) == positive)
  | inf => signed positive
  | ninf => signed !positive
  | nan => nan

def mul : ExtRat → ExtRat → ExtRat
  | fin a, fin b => fin (a * b)
  | inf, y => infinite true y
  | ninf, y => infinite false y
  | x, inf => infinite true x
  | x, ninf => infinite false x
  | _, _ => nan

def div : ExtRat → ExtRat → ExtRat
  | fin a, fin b => if b = 0 then nan else fin (a / b)
  | fin _, nan => nan
  | fin _, _ => fin 0
  | inf, fin b => infinite true (fin b)
  | ninf, fin b => infinite false (fin b)
  | _, _ => nan

def abs : ExtRat → ExtRat
  | fin q => fin |q|
  | ninf => inf
  | x => x

def lt : ExtRat → ExtRat → Bool
  | fin a, fin b => decide (a < b)
  | fin _, inf => true
  | ninf, fin _ => true
  | ninf, inf => true
  | _, _ => false

def le : ExtRat → ExtRat → Bool
  | fin a, fin b => decide (a ≤ b)
  | fin _, inf => true
  | ninf, fin _ => true
  | ninf, inf => true
  | inf, inf => true
  | ninf, ninf => true
  | _, _ => false

def eq : ExtRat → ExtRat → Bool
  | fin a, fin b => decide (a = b)
  | inf, inf => true
  | ninf, ninf => true
  | _, _ => false

def rounded (q : Rat) (decimals : Nat) : Rat :=
  ((q * 10 ^ decimals + 1 / 2).floor : Rat) / 10 ^ decimals

def round (x : ExtRat) (decimals : Nat) : ExtRat :=
  match x with
  | fin q => fin (rounded q decimals)
  | x => x

instance : Neg ExtRat := ⟨neg⟩
instance : Add ExtRat := ⟨add⟩
instance : Sub ExtRat := ⟨fun x y => add x (neg y)⟩
instance : Mul ExtRat := ⟨mul⟩
instance : Div ExtRat := ⟨div⟩
instance : OfScientific ExtRat := ⟨fun m s e => fin (OfScientific.ofScientific m s e)⟩

variable {x y z : ExtRat} {a b : Rat}

@[simp] theorem fin_add (a b : Rat) : fin a + fin b = fin (a + b) := rfl

@[simp] theorem fin_sub (a b : Rat) : fin a - fin b = fin (a - b) := by
  rw [sub_eq_add_neg]
  rfl

@[simp] theorem fin_mul (a b : Rat) : fin a * fin b = fin (a * b) := rfl

theorem fin_div (a : Rat) (h : b ≠ 0) : fin a / fin b = fin (a / b) := if_neg h

@[simp] theorem lt_fin : lt (fin a) (fin b) = decide (a < b) := rfl

@[simp] theorem le_fin : le (fin a) (fin b) = decide (a ≤ b) := rfl

@[simp] theorem eq_fin : eq (fin a) (fin b) = decide (a = b) := rfl

theorem rounded_mono (h : a ≤ b) (decimals : Nat) : rounded a decimals ≤ rounded b decimals := by
  have hscaled : a * 10 ^ decimals + 1 / 2 ≤ b * 10 ^ decimals + 1 / 2 := by gcongr
  have hfloor := Rat.floor_monotone hscaled
  rw [rounded, rounded]
  gcongr

theorem add_mono (x y z : ExtRat) (h : lt x y = true) : lt (y + z) (x + z) = false := by
  cases x <;> cases y <;> cases z <;> first | rfl | exact absurd h Bool.false_ne_true | skip
  rename_i a b c
  have hlt : a < b := of_decide_eq_true h
  exact decide_eq_false (not_lt.mpr (add_le_add_left hlt.le c))

theorem round_mono (x y : ExtRat) (decimals : Nat) (h : lt y x = false) :
    lt (y.round decimals) (x.round decimals) = false := by
  cases x <;> cases y <;> first | rfl | exact absurd h Bool.false_ne_true.symm | skip
  rename_i a b
  have hle : a ≤ b := not_lt.mp (of_decide_eq_false h)
  exact decide_eq_false (not_lt.mpr (rounded_mono hle decimals))

theorem eq_round (x : ExtRat) (decimals : Nat) :
    eq (x.round decimals) (x.round decimals) = eq x x := by
  cases x with
  | fin q => simp [round]
  | inf => rfl
  | ninf => rfl
  | nan => rfl

theorem not_le_of_lt (h : lt x y = true) : le y x = false := by
  cases x <;> cases y <;> first | rfl | exact absurd h Bool.false_ne_true | skip
  rename_i a b
  exact decide_eq_false (not_le.mpr (of_decide_eq_true h))

theorem le_of_lt (h : lt x y = true) : le x y = true := by
  cases x <;> cases y <;> first | rfl | exact absurd h Bool.false_ne_true | skip
  rename_i a b
  exact decide_eq_true (of_decide_eq_true h : a < b).le

theorem lt_nan (h : eq x x = false) : lt x y = false ∧ lt y x = false := by
  cases x with
  | fin q => simp at h
  | inf => cases h
  | ninf => cases h
  | nan => exact ⟨rfl, by cases y <;> rfl⟩

theorem lt_of_not_lt (hy : eq y y = true) (hxz : lt x z = true) (hxy : lt x y = false) :
    lt y z = true := by
  cases x <;> cases z <;> cases y <;> 
    first | rfl | exact absurd hxz Bool.false_ne_true | exact absurd hy Bool.false_ne_true |
      exact absurd hxy Bool.false_ne_true.symm | skip
  rename_i a c b
  have hlt : a < c := of_decide_eq_true hxz
  have hle : b ≤ a := not_lt.mp (of_decide_eq_false hxy)
  exact decide_eq_true (lt_of_le_of_lt hle hlt)

theorem le_trans (hxy : le x y = true) (hyz : le y z = true) : le x z = true := by
  cases x <;> cases y <;> cases z <;>
    first | rfl | exact absurd hxy Bool.false_ne_true | exact absurd hyz Bool.false_ne_true | skip
  rename_i a b c
  have hab : a ≤ b := of_decide_eq_true hxy
  have hbc : b ≤ c := of_decide_eq_true hyz
  exact decide_eq_true (hab.trans hbc)

theorem le_of_le_of_not_lt (hz : eq z z = true) (hxy : le x y = true) (hzy : lt z y = false) :
    le x z = true := by
  cases x <;> cases y <;> cases z <;>
    first | rfl | exact absurd hxy Bool.false_ne_true | exact absurd hz Bool.false_ne_true |
      exact absurd hzy Bool.false_ne_true.symm | skip
  rename_i a b c
  have hab : a ≤ b := of_decide_eq_true hxy
  have hbc : b ≤ c := not_lt.mp (of_decide_eq_false hzy)
  exact decide_eq_true (hab.trans hbc)

theorem add_pos (hx : le (fin 0) x = true) (hy : lt (fin 0) y = true) :
    lt (fin 0) (x + y) = true := by
  cases x <;> cases y <;> 
    first | rfl | exact absurd hx Bool.false_ne_true | exact absurd hy Bool.false_ne_true | skip
  rename_i a b
  have ha : 0 ≤ a := of_decide_eq_true hx
  have hb : 0 < b := of_decide_eq_true hy
  exact decide_eq_true (add_pos_of_nonneg_of_pos ha hb)

end ExtRat

end Collections
