import Mathlib.Data.List.Forall2

namespace Collections

namespace Exceptions

variable {α β ε : Type}

theorem bind_ok {x : Except ε α} {f : α → Except ε β} {b : β} (h : x >>= f = .ok b) :
    ∃ a, x = .ok a ∧ f a = .ok b := by
  cases x with
  | error e => cases h
  | ok a => exact ⟨a, rfl, h⟩

theorem bind_error {x : Except ε α} {f : α → Except ε β} {e : ε} (h : x >>= f = .error e) :
    x = .error e ∨ ∃ a, x = .ok a ∧ f a = .error e := by
  cases x with
  | error e' => exact .inl (by cases h; rfl)
  | ok a => exact .inr ⟨a, rfl, h⟩

theorem ok_of_mapError {ε' : Type} {x : Except ε α} {f : ε → ε'} {a : α}
    (h : x.mapError f = .ok a) : x = .ok a := by
  cases x with
  | error e => cases h
  | ok b =>
    injection h with hb
    rw [hb]

theorem forall₂_of_mapM {f : α → Except ε β} {xs : List α} {ys : List β}
    (h : xs.mapM f = .ok ys) : List.Forall₂ (fun x y => f x = .ok y) xs ys := by
  induction xs generalizing ys with
  | nil =>
    rw [List.mapM_nil] at h
    cases h
    exact .nil
  | cons x xs ih =>
    rw [List.mapM_cons] at h
    obtain ⟨y, hy, h⟩ := bind_ok h
    obtain ⟨rest, hrest, h⟩ := bind_ok h
    cases h
    exact .cons hy (ih hrest)

theorem exists_left {R : α → β → Prop} {xs : List α} {ys : List β} (h : List.Forall₂ R xs ys) :
    ∀ y ∈ ys, ∃ x ∈ xs, R x y := by
  induction h with
  | nil => exact fun y hy => absurd hy List.not_mem_nil
  | @cons x y xs ys hxy _ ih =>
    refine List.forall_mem_cons.mpr ⟨⟨x, List.mem_cons_self, hxy⟩, fun y' hy' => ?_⟩
    obtain ⟨x', hx', hxy'⟩ := ih y' hy'
    exact ⟨x', List.mem_cons_of_mem x hx', hxy'⟩

theorem exists_right {R : α → β → Prop} {xs : List α} {ys : List β} (h : List.Forall₂ R xs ys) :
    ∀ x ∈ xs, ∃ y ∈ ys, R x y :=
  exists_left h.flip

theorem forall_of_mapM {f : α → Except ε β} {P : β → Prop} (hf : ∀ x y, f x = .ok y → P y)
    {xs : List α} {ys : List β} (h : xs.mapM f = .ok ys) : ∀ y ∈ ys, P y := by
  intro y hy
  obtain ⟨x, -, hxy⟩ := exists_left (forall₂_of_mapM h) y hy
  exact hf x y hxy

theorem mapM_congr {f g : α → Except ε β} {xs : List α} (h : ∀ x ∈ xs, f x = g x) :
    xs.mapM f = xs.mapM g := by
  induction xs with
  | nil => rfl
  | cons x xs ih =>
    obtain ⟨hx, hxs⟩ := List.forall_mem_cons.mp h
    rw [List.mapM_cons, List.mapM_cons, hx, ih hxs]

theorem mapM_isOk_iff {f : α → Except ε β} {xs : List α} :
    (∃ ys, xs.mapM f = .ok ys) ↔ ∀ x ∈ xs, ∃ y, f x = .ok y := by
  constructor
  · rintro ⟨ys, h⟩ x hx
    obtain ⟨y, -, hy⟩ := exists_right (forall₂_of_mapM h) x hx
    exact ⟨y, hy⟩
  · intro h
    induction xs with
    | nil => exact ⟨[], rfl⟩
    | cons x xs ih =>
      obtain ⟨⟨y, hy⟩, hxs⟩ := List.forall_mem_cons.mp h
      obtain ⟨ys, hys⟩ := ih hxs
      refine ⟨y :: ys, ?_⟩
      rw [List.mapM_cons, hy, hys]
      rfl

theorem mapM_getElem? {f : α → Except ε β} {xs : List α} {ys : List β} (h : xs.mapM f = .ok ys)
    {i : Nat} {x : α} (hx : xs[i]? = some x) : ∃ y, ys[i]? = some y ∧ f x = .ok y := by
  have hpairs := forall₂_of_mapM h
  clear h
  induction hpairs generalizing i with
  | nil => cases hx
  | @cons x' y' xs ys hy _ ih =>
    cases i with
    | zero =>
      obtain rfl := Option.some.inj hx
      exact ⟨y', rfl, hy⟩
    | succ i => exact ih hx

section Keep

variable {γ : Type} {step : List γ → α → Except ε (List γ)} {keep : α → Except ε Bool} {f : α → γ}
  {xs : List α}

theorem foldlM_keep (htrue : ∀ acc x, keep x = .ok true → step acc x = .ok (acc ++ [f x]))
    (hfalse : ∀ acc x, keep x = .ok false → step acc x = .ok acc) {kept : α → Bool}
    (hkept : ∀ x b, keep x = .ok b → kept x = b) (hxs : ∀ x ∈ xs, ∃ b, keep x = .ok b)
    (acc : List γ) : xs.foldlM step acc = .ok (acc ++ (xs.filter kept).map f) := by
  induction xs generalizing acc with
  | nil => simp [pure, Except.pure]
  | cons x xs ih =>
    obtain ⟨b, hb⟩ := hxs x List.mem_cons_self
    have hrest := fun y hy => hxs y (List.mem_cons_of_mem x hy)
    rw [List.foldlM_cons, List.filter_cons, hkept x b hb]
    cases b with
    | true =>
      rw [htrue acc x hb]
      exact (ih hrest _).trans (by simp)
    | false =>
      rw [hfalse acc x hb]
      exact (ih hrest _).trans (by simp)

theorem foldlM_keep_error (htrue : ∀ acc x, keep x = .ok true → step acc x = .ok (acc ++ [f x]))
    (hfalse : ∀ acc x, keep x = .ok false → step acc x = .ok acc)
    (herror : ∀ acc x e, keep x = .error e → step acc x = .error e)
    (hxs : ¬ ∀ x ∈ xs, ∃ b, keep x = .ok b) (acc : List γ) : ∃ e, xs.foldlM step acc = .error e := by
  induction xs generalizing acc with
  | nil => exact absurd (fun x hx => by cases hx) hxs
  | cons x xs ih =>
    rw [List.foldlM_cons]
    cases hx : keep x with
    | error e =>
      rw [herror acc x e hx]
      exact ⟨e, rfl⟩
    | ok b =>
      have hrest : ¬ ∀ y ∈ xs, ∃ b, keep y = .ok b :=
        fun hall => hxs (List.forall_mem_cons.mpr ⟨⟨b, hx⟩, hall⟩)
      cases b with
      | true =>
        rw [htrue acc x hx]
        exact ih hrest _
      | false =>
        rw [hfalse acc x hx]
        exact ih hrest _

end Keep

theorem mapM_filter {f : α → Except ε β} {p : α → Bool} {q : β → Bool}
    (hpq : ∀ x y, f x = .ok y → q y = p x) {xs : List α} {ys : List β}
    (h : xs.mapM f = .ok ys) : (xs.filter p).mapM f = .ok (ys.filter q) := by
  induction xs generalizing ys with
  | nil =>
    cases h
    rfl
  | cons x xs ih =>
    rw [List.mapM_cons] at h
    obtain ⟨y, hy, h⟩ := bind_ok h
    obtain ⟨rest, hrest, h⟩ := bind_ok h
    cases h
    cases hp : p x with
    | false =>
      rw [List.filter_cons_of_neg (by simp [hp]),
        List.filter_cons_of_neg (by simp [hpq x y hy, hp])]
      exact ih hrest
    | true =>
      rw [List.filter_cons_of_pos hp, List.filter_cons_of_pos (by rw [hpq x y hy, hp]),
        List.mapM_cons, hy, ih hrest]
      rfl

theorem mapM_of_append {f : α → Except ε β} {xs ys : List α} {zs : List β}
    (h : (xs ++ ys).mapM f = .ok zs) :
    ∃ us vs, xs.mapM f = .ok us ∧ ys.mapM f = .ok vs ∧ zs = us ++ vs := by
  rw [List.mapM_append] at h
  obtain ⟨us, hus, h⟩ := bind_ok h
  obtain ⟨vs, hvs, h⟩ := bind_ok h
  cases h
  exact ⟨us, vs, hus, hvs, rfl⟩

theorem forall₂_of_mapM_some {f : α → Option β} {xs : List α} {ys : List β}
    (h : xs.mapM f = some ys) : List.Forall₂ (fun x y => f x = some y) xs ys := by
  induction xs generalizing ys with
  | nil =>
    rw [List.mapM_nil] at h
    cases h
    exact .nil
  | cons x xs ih =>
    rw [List.mapM_cons] at h
    obtain ⟨y, hy, h⟩ := Option.bind_eq_some_iff.mp h
    obtain ⟨rest, hrest, h⟩ := Option.bind_eq_some_iff.mp h
    cases h
    exact .cons hy (ih hrest)

end Exceptions

end Collections
