import Mathlib.Data.List.Infix
import Mathlib.Data.List.TakeWhile

namespace Collections

-- SQLite's LIKE: % is any run of characters, _ any one, and ASCII letters have no case.
def like : List Char → List Char → Bool
  | [], t => t.isEmpty
  | c :: p, t =>
      if c = '%' then t.tails.any (fun s => like p s)
      else
        match t with
        | [] => false
        | d :: t => (c = '_' || c.toLower = d.toLower) && like p t

-- A text read against a pattern, character by character.
inductive Lenient : List Char → List Char → Prop
  | nil : Lenient [] []
  | letter {c d : Char} {p t : List Char} (h : c.toLower = d.toLower) (hp : Lenient p t) :
      Lenient (c :: p) (d :: t)
  | one {d : Char} {p t : List Char} (hp : Lenient p t) : Lenient ('_' :: p) (d :: t)
  | run (s : List Char) {p t : List Char} (hp : Lenient p t) : Lenient ('%' :: p) (s ++ t)

section Like

variable {p q s t : List Char}

theorem like_percent_cons : like ('%' :: p) t = true ↔ ∃ s, s <:+ t ∧ like p s = true := by
  simp [like]

theorem like_cons {c : Char} (hc : c ≠ '%') : like (c :: p) t = true ↔
    ∃ d s, t = d :: s ∧ (c = '_' ∨ c.toLower = d.toLower) ∧ like p s = true := by
  cases t with
  | nil => simp [like, hc]
  | cons d t => simp [like, hc]

theorem like_iff_lenient : like p t = true ↔ Lenient p t := by
  constructor
  · intro h
    induction p generalizing t with
    | nil =>
      rw [like, List.isEmpty_iff] at h
      rw [h]
      exact .nil
    | cons c p ih =>
      by_cases hc : c = '%'
      · subst hc
        obtain ⟨s, ⟨r, rfl⟩, hs⟩ := like_percent_cons.mp h
        exact .run r (ih hs)
      · obtain ⟨d, s, rfl, hcd, hs⟩ := (like_cons hc).mp h
        rcases hcd with rfl | hcd
        · exact .one (ih hs)
        · exact .letter hcd (ih hs)
  · intro h
    induction h with
    | nil => rfl
    | @letter c d p t hcd _ ih =>
      by_cases hc : c = '%'
      · subst hc
        exact like_percent_cons.mpr ⟨t, List.suffix_cons d t, ih⟩
      · exact (like_cons hc).mpr ⟨d, t, rfl, Or.inr hcd, ih⟩
    | @one d p t _ ih => exact (like_cons (by decide)).mpr ⟨d, t, rfl, Or.inl rfl, ih⟩
    | run r _ ih => exact like_percent_cons.mpr ⟨_, List.suffix_append r _, ih⟩

namespace Lenient

theorem refl : ∀ (t : List Char), Lenient t t
  | [] => .nil
  | _ :: t => .letter rfl (refl t)

theorem append (hp : Lenient p s) (hq : Lenient q t) : Lenient (p ++ q) (s ++ t) := by
  induction hp with
  | nil => exact hq
  | letter h _ ih => exact .letter h ih
  | one _ ih => exact .one ih
  | run r _ ih =>
    rw [List.append_assoc]
    exact .run r ih

theorem run_self (t : List Char) : Lenient ['%'] t := by
  have h := Lenient.run t Lenient.nil
  rwa [List.append_nil] at h

theorem split (h : Lenient (p ++ q) t) : ∃ u v, t = u ++ v ∧ Lenient p u ∧ Lenient q v := by
  induction p generalizing t with
  | nil => exact ⟨[], t, rfl, .nil, h⟩
  | cons c p ih =>
    rw [List.cons_append] at h
    cases h with
    | letter hcd hp =>
      obtain ⟨u, v, rfl, hu, hv⟩ := ih hp
      exact ⟨_ :: u, v, rfl, .letter hcd hu, hv⟩
    | one hp =>
      obtain ⟨u, v, rfl, hu, hv⟩ := ih hp
      exact ⟨_ :: u, v, rfl, .one hu, hv⟩
    | run r hp =>
      obtain ⟨u, v, rfl, hu, hv⟩ := ih hp
      exact ⟨r ++ u, v, (List.append_assoc r u v).symm, .run r hu, hv⟩

theorem append_percent_iff : Lenient (p ++ ['%']) t ↔ ∃ u, u <+: t ∧ Lenient p u := by
  constructor
  · intro h
    obtain ⟨u, v, rfl, hu, -⟩ := h.split
    exact ⟨u, List.prefix_append u v, hu⟩
  · rintro ⟨u, ⟨v, rfl⟩, hu⟩
    exact hu.append (run_self v)

theorem percent_append_iff : Lenient ('%' :: p) t ↔ ∃ u, u <:+ t ∧ Lenient p u := by
  constructor
  · intro h
    obtain ⟨s, v, rfl, -, hv⟩ := split (p := ['%']) h
    exact ⟨v, List.suffix_append s v, hv⟩
  · rintro ⟨u, ⟨s, rfl⟩, hu⟩
    exact .run s hu

-- Without wildcards only the case of letters is free.
theorem plain_iff (hp : '%' ∉ p ∧ '_' ∉ p) :
    Lenient p t ↔ p.map Char.toLower = t.map Char.toLower := by
  constructor
  · intro h
    induction h with
    | nil => rfl
    | letter hcd _ ih =>
      rw [List.map_cons, List.map_cons, hcd,
        ih ⟨fun h => hp.1 (List.mem_cons_of_mem _ h), fun h => hp.2 (List.mem_cons_of_mem _ h)⟩]
    | one => exact absurd List.mem_cons_self hp.2
    | run => exact absurd List.mem_cons_self hp.1
  · intro h
    clear hp
    induction p generalizing t with
    | nil =>
      rw [List.map_nil, eq_comm, List.map_eq_nil_iff] at h
      rw [h]
      exact .nil
    | cons c p ih =>
      cases t with
      | nil => cases h
      | cons d t =>
        obtain ⟨hcd, h⟩ := List.cons.inj h
        exact .letter hcd (ih h)

end Lenient

end Like

end Collections
