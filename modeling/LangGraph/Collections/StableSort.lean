import Mathlib.Data.List.Basic

namespace Collections

variable {α : Type} {le : α → α → Bool} {p : α → Bool} {l : List α}

theorem append_inj_of_split {q : α → Bool} {l₁ l₂ m₁ m₂ : List α}
    (hl₁ : ∀ b ∈ l₁, q b = true) (hl₂ : ∀ b ∈ l₂, q b = false)
    (hm₁ : ∀ b ∈ m₁, q b = true) (hm₂ : ∀ b ∈ m₂, q b = false) (h : l₁ ++ l₂ = m₁ ++ m₂) :
    l₁ = m₁ ∧ l₂ = m₂ := by
  have hfirst {xs ys : List α} (hx : ∀ b ∈ xs, q b = true) (hy : ∀ b ∈ ys, q b = false) :
      (xs ++ ys).filter q = xs := by
    rw [List.filter_append, List.filter_eq_self.mpr hx,
      List.filter_eq_nil_iff.mpr fun b hb => by simp [hy b hb], List.append_nil]
  have heq : l₁ = m₁ := by rw [← hfirst hl₁ hl₂, h, hfirst hm₁ hm₂]
  exact ⟨heq, List.append_cancel_left (heq ▸ h)⟩

-- Sorting is stable, so that what is left out of the list does not move the rest.
theorem filter_mergeSort_of_order (trans : ∀ a b c, le a b = true → le b c = true → le a c = true)
    (total : ∀ a b, (le a b || le b a) = true) (p : α → Bool) (l : List α) :
    (l.mergeSort le).filter p = (l.filter p).mergeSort le := by
  induction l with
  | nil => rw [List.mergeSort_nil, List.filter_nil, List.mergeSort_nil]
  | cons a l ih =>
    obtain ⟨l₁, l₂, hsort, hl, hbefore⟩ := List.mergeSort_cons trans total a l
    have hsplit : l₁.filter p ++ l₂.filter p = (l.filter p).mergeSort le := by
      rw [← List.filter_append, ← hl, ih]
    rw [hsort, List.filter_append]
    cases hp : p a with
    | false =>
      rw [List.filter_cons_of_neg (by simp [hp]), List.filter_cons_of_neg (by simp [hp]), hsplit]
    | true =>
      rw [List.filter_cons_of_pos hp, List.filter_cons_of_pos hp]
      obtain ⟨m₁, m₂, hsort', hl', hbefore'⟩ := List.mergeSort_cons trans total a (l.filter p)
      have hafter {xs ys zs : List α} (h : zs.mergeSort le = xs ++ a :: ys) :
          ∀ b ∈ ys, (!le a b) = false := by
        have hsorted := List.pairwise_mergeSort trans total zs
        rw [h] at hsorted
        have htail := (List.pairwise_append.mp hsorted).2.1
        intro b hb
        rw [(List.pairwise_cons.mp htail).1 b hb]
        rfl
      obtain ⟨h₁, h₂⟩ := append_inj_of_split
        (fun b hb => hbefore b (List.mem_of_mem_filter hb))
        (fun b hb => hafter hsort b (List.mem_of_mem_filter hb)) hbefore' (hafter hsort')
        (hsplit.trans hl')
      rw [hsort', h₁, h₂]

-- The comparison is asked about members of the list only.
theorem filter_mergeSort
    (trans : ∀ a ∈ l, ∀ b ∈ l, ∀ c ∈ l, le a b = true → le b c = true → le a c = true)
    (total : ∀ a ∈ l, ∀ b ∈ l, (le a b || le b a) = true) (p : α → Bool) :
    (l.mergeSort le).filter p = (l.filter p).mergeSort le := by
  let among : {a // a ∈ l} → {a // a ∈ l} → Bool := fun a b => le a.1 b.1
  have hmap (xs : List {a // a ∈ l}) :
      (xs.mergeSort among).map Subtype.val = (xs.map Subtype.val).mergeSort le :=
    List.map_mergeSort fun _ _ _ _ => rfl
  have hfilter (xs : List {a // a ∈ l}) :
      (xs.map Subtype.val).filter p = (xs.filter (fun a => p a.1)).map Subtype.val :=
    List.filter_map
  have hstable := filter_mergeSort_of_order
    (fun a b c => trans a.1 a.2 b.1 b.2 c.1 c.2) (fun a b => total a.1 a.2 b.1 b.2)
    (fun a : {a // a ∈ l} => p a.1) l.attach
  calc (l.mergeSort le).filter p
      = ((l.attach.mergeSort among).map Subtype.val).filter p := by
        rw [hmap, List.attach_map_subtype_val]
    _ = ((l.attach.filter (fun a => p a.1)).mergeSort among).map Subtype.val := by
        rw [hfilter, hstable]
    _ = (l.filter p).mergeSort le := by
        rw [hmap, ← hfilter, List.attach_map_subtype_val]

theorem pairwise_mergeSort
    (trans : ∀ a ∈ l, ∀ b ∈ l, ∀ c ∈ l, le a b = true → le b c = true → le a c = true)
    (total : ∀ a ∈ l, ∀ b ∈ l, (le a b || le b a) = true) :
    (l.mergeSort le).Pairwise (fun a b => le a b = true) := by
  let among : {a // a ∈ l} → {a // a ∈ l} → Bool := fun a b => le a.1 b.1
  have hmap : (l.attach.mergeSort among).map Subtype.val = l.mergeSort le := by
    have hattach := List.map_mergeSort (r := among) (s := le) (f := Subtype.val) (l := l.attach)
      (fun _ _ _ _ => rfl)
    rw [hattach, List.attach_map_subtype_val]
  rw [← hmap, List.pairwise_map]
  exact List.pairwise_mergeSort (fun a b c => trans a.1 a.2 b.1 b.2 c.1 c.2)
    (fun a b => total a.1 a.2 b.1 b.2) l.attach

end Collections
