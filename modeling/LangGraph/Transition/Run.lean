import Mathlib.Data.List.Infix

namespace Transition

variable {σ ι : Type}

def run (step : σ → ι → σ) (s : σ) (is : List ι) : σ := is.foldl step s

theorem run_cons (step : σ → ι → σ) (s : σ) (i : ι) (is : List ι) :
    run step s (i :: is) = run step (step s i) is := rfl

theorem run_append (step : σ → ι → σ) (s : σ) (is js : List ι) :
    run step s (is ++ js) = run step (run step s is) js :=
  List.foldl_append

theorem run_invariant {step : σ → ι → σ} {Inv : σ → Prop}
    (hstep : ∀ s i, Inv s → Inv (step s i)) (is : List ι) {s : σ} (h : Inv s) :
    Inv (run step s is) := by
  induction is generalizing s with
  | nil => exact h
  | cons i is ih => exact ih (hstep s i h)

theorem prefix_cons_iff {i : ι} {p is : List ι} :
    p <+: i :: is ↔ p = [] ∨ ∃ q, p = i :: q ∧ q <+: is := by
  cases p with
  | nil => simp
  | cons j q => simp [List.cons_prefix_cons]

theorem forall_prefix_cons {P : List ι → Prop} {i : ι} {is : List ι} :
    (∀ p, p <+: i :: is → P p) ↔ P [] ∧ ∀ q, q <+: is → P (i :: q) := by
  constructor
  · intro h
    refine ⟨h [] List.nil_prefix, fun q hq => h (i :: q) ?_⟩
    exact List.cons_prefix_cons.mpr ⟨rfl, hq⟩
  · rintro ⟨hnil, hcons⟩ p hp
    rcases prefix_cons_iff.mp hp with rfl | ⟨q, rfl, hq⟩
    · exact hnil
    · exact hcons q hq

def Always (step : σ → ι → σ) (Good : σ → Prop) (s : σ) (is : List ι) : Prop :=
  ∀ p, p <+: is → Good (run step s p)

def EachStep (step : σ → ι → σ) (Ok : σ → ι → Prop) (s : σ) (is : List ι) : Prop :=
  ∀ p i, p ++ [i] <+: is → Ok (run step s p) i

theorem always_cons {step : σ → ι → σ} {Good : σ → Prop} {s : σ} {i : ι} {is : List ι} :
    Always step Good s (i :: is) ↔ Good s ∧ Always step Good (step s i) is :=
  forall_prefix_cons

theorem eachStep_nil {step : σ → ι → σ} {Ok : σ → ι → Prop} {s : σ} :
    EachStep step Ok s [] := by
  intro p i h
  simp at h

theorem eachStep_cons {step : σ → ι → σ} {Ok : σ → ι → Prop} {s : σ} {i : ι} {is : List ι} :
    EachStep step Ok s (i :: is) ↔ Ok s i ∧ EachStep step Ok (step s i) is := by
  constructor
  · intro h
    refine ⟨h [] i ?_, fun p j hp => h (i :: p) j ?_⟩
    · exact List.cons_prefix_cons.mpr ⟨rfl, List.nil_prefix⟩
    · exact List.cons_prefix_cons.mpr ⟨rfl, hp⟩
  · rintro ⟨hi, hrest⟩ p j hp
    cases p with
    | nil =>
      obtain ⟨rfl, -⟩ := List.cons_prefix_cons.mp hp
      exact hi
    | cons k q =>
      obtain ⟨rfl, hq⟩ := List.cons_prefix_cons.mp hp
      exact hrest q j hq

instance decidableEachStep (step : σ → ι → σ) (Ok : σ → ι → Prop) [∀ s i, Decidable (Ok s i)] :
    (s : σ) → (is : List ι) → Decidable (EachStep step Ok s is)
  | _, [] => isTrue eachStep_nil
  | s, i :: is =>
      have := decidableEachStep step Ok (step s i) is
      decidable_of_iff (Ok s i ∧ EachStep step Ok (step s i) is) eachStep_cons.symm

section Exact

variable {step : σ → ι → σ} {Inv Good : σ → Prop} {Ok : σ → ι → Prop}

theorem always_iff_eachStep (hstep : ∀ s i, Inv s → Good s → (Good (step s i) ↔ Ok s i))
    (hinv : ∀ s i, Inv s → Good s → Good (step s i) → Inv (step s i)) (is : List ι) {s : σ}
    (hi : Inv s) (hg : Good s) : Always step Good s is ↔ EachStep step Ok s is := by
  induction is generalizing s with
  | nil =>
    constructor
    · exact fun _ => eachStep_nil
    · intro _ p hp
      rw [List.prefix_nil.mp hp]
      exact hg
  | cons i is ih =>
    rw [always_cons, eachStep_cons, ← hstep s i hi hg]
    constructor
    · rintro ⟨-, hall⟩
      have hg' : Good (step s i) := hall [] List.nil_prefix
      exact ⟨hg', (ih (hinv s i hi hg hg') hg').mp hall⟩
    · rintro ⟨hg', heach⟩
      exact ⟨hg, (ih (hinv s i hi hg hg') hg').mpr heach⟩

theorem always_of_eachStep (hstep : ∀ s i, Inv s → Ok s i → Inv (step s i)) (is : List ι) {s : σ}
    (hi : Inv s) (h : EachStep step Ok s is) : Always step Inv s is := by
  induction is generalizing s with
  | nil =>
    intro p hp
    rw [List.prefix_nil.mp hp]
    exact hi
  | cons i is ih =>
    obtain ⟨hok, hrest⟩ := eachStep_cons.mp h
    exact always_cons.mpr ⟨hi, ih (hstep s i hi hok) hrest⟩

end Exact

end Transition
