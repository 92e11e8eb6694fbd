import Mathlib.Logic.Function.Basic
import Mathlib.Order.Defs.LinearOrder

namespace Collections

structure Timed (ν T : Type) where
  value : ν
  expiry : Option T
  deriving DecidableEq

abbrev TimedStore (κ ν T : Type) := κ → Option (Timed ν T)

variable {κ ν T : Type}

namespace TimedStore

def fresh (alive : T → T → Bool) (now : T) (e : Timed ν T) : Bool := e.expiry.all (alive now)

def reading (alive : T → T → Bool) (now : T) (s : TimedStore κ ν T) (k : κ) : Option ν :=
  ((s k).filter (fresh alive now)).map Timed.value

def write [DecidableEq κ] (s : TimedStore κ ν T) (k : κ) (e : Timed ν T) : TimedStore κ ν T :=
  Function.update s k (some e)

def drop (p : κ → Bool) (s : TimedStore κ ν T) : TimedStore κ ν T :=
  fun k => if p k then none else s k

-- No reading from `now` on tells the two stores apart.
def Same [LE T] (alive : T → T → Bool) (now : T) (s s' : TimedStore κ ν T) : Prop :=
  ∀ t, now ≤ t → ∀ k, reading alive t s k = reading alive t s' k

def Fades [LE T] (alive : T → T → Bool) : Prop :=
  ∀ e a b, a ≤ b → alive b e = true → alive a e = true

section Reading

variable {alive : T → T → Bool} {now : T} {s s' s'' : TimedStore κ ν T} {k : κ} {e : Timed ν T}

theorem reading_of_none (h : s k = none) : reading alive now s k = none := by
  rw [reading, h]
  rfl

theorem reading_of_fresh (h : s k = some e) (hf : fresh alive now e = true) :
    reading alive now s k = some e.value := by
  rw [reading, h, Option.filter_some, if_pos hf]
  rfl

theorem reading_of_not_fresh (h : s k = some e) (hf : fresh alive now e = false) :
    reading alive now s k = none := by
  rw [reading, h, Option.filter_some, if_neg (by rw [hf]; exact Bool.false_ne_true)]
  rfl

theorem reading_congr {s s' : TimedStore κ ν T} (h : s k = s' k) : reading alive now s k = reading alive now s' k := by
  rw [reading, h, reading]

theorem reading_drop (p : κ → Bool) (s : TimedStore κ ν T) (k : κ) :
    reading alive now (drop p s) k = if p k then none else reading alive now s k := by
  by_cases hp : p k = true
  · rw [if_pos hp]
    exact reading_of_none (if_pos hp)
  · rw [if_neg hp]
    exact reading_congr (if_neg hp)

end Reading

section Order

variable [Preorder T] {alive : T → T → Bool} {now t : T} {s s' s'' : TimedStore κ ν T}

theorem fresh_of_le (h : Fades alive) {e : Timed ν T} (hle : now ≤ t)
    (hf : fresh alive t e = true) : fresh alive now e = true := by
  rcases e with ⟨v, expiry⟩
  cases expiry with
  | none => rfl
  | some x => exact h x now t hle hf

namespace Same

theorem refl : Same alive now s s := fun _ _ _ => rfl

theorem trans (h : Same alive now s s') (h' : Same alive now s' s'') :
    Same alive now s s'' := fun u hu k => (h u hu k).trans (h' u hu k)

theorem later (h : Same alive now s s') (hle : now ≤ t) : Same alive t s s' :=
  fun u hu k => h u (le_trans hle hu) k

-- `f` says of each key what is written there, `none` that it stays.
theorem overwrite {f : κ → Option (Option (Timed ν T))} {n n' : TimedStore κ ν T}
    (h : Same alive now s s') (hn : ∀ k, n k = (f k).getD (s k))
    (hn' : ∀ k, n' k = (f k).getD (s' k)) : Same alive now n n' := by
  intro u hu k
  have hold := h u hu k
  have hcell := hn k
  have hcell' := hn' k
  cases hf : f k with
  | none =>
    rw [hf] at hcell hcell'
    rw [reading_congr hcell, hold, reading_congr hcell']
  | some v =>
    rw [hf] at hcell hcell'
    exact reading_congr (hcell.trans hcell'.symm)

-- A purge of expired entries shows in no later reading.
theorem purge (hfade : Fades alive) {p : κ → Bool}
    (h : ∀ k, p k = true → ∀ e, s k = some e → fresh alive now e = false) :
    Same alive now (s.drop p) s := by
  intro u hu k
  rw [reading_drop]
  split_ifs with hp
  · cases hs : s k with
    | none => exact (reading_of_none hs).symm
    | some e =>
      have hdead : fresh alive u e = false := by
        refine Bool.eq_false_iff.mpr (fun hf => ?_)
        have hearlier := fresh_of_le hfade hu hf
        rw [h k hp e hs] at hearlier
        exact Bool.false_ne_true hearlier
      exact (reading_of_not_fresh hs hdead).symm
  · rfl

end Same

end Order

end TimedStore

end Collections
