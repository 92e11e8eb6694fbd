import Mathlib.Data.List.DropRight

namespace Collections

-- Texts made of parts that a separator divides.
variable {sep c : Char} {parts qs : List String}

def splitText (sep : Char) (s : String) : List String :=
  (s.toList.splitOn sep).map String.ofList

def joinText (sep : Char) (parts : List String) : String :=
  (String.singleton sep).intercalate parts

def Separate (sep : Char) (parts : List String) : Prop := ∀ p ∈ parts, sep ∉ p.toList

theorem separate_append : Separate sep (parts ++ qs) ↔ Separate sep parts ∧ Separate sep qs := by
  simp only [Separate, List.mem_append]
  constructor
  · exact fun h => ⟨fun p hp => h p (Or.inl hp), fun p hp => h p (Or.inr hp)⟩
  · rintro ⟨hparts, hqs⟩ p (hp | hp)
    · exact hparts p hp
    · exact hqs p hp

theorem separate_singleton {q : String} (h : sep ∉ q.toList) : Separate sep [q] := by
  intro p hp
  rwa [List.mem_singleton.mp hp]

theorem joinText_nil (sep : Char) : joinText sep [] = "" := String.intercalate_nil

theorem joinText_singleton (sep : Char) (q : String) : joinText sep [q] = q :=
  String.intercalate_singleton

theorem joinText_concat (h : parts ≠ []) (q : String) :
    joinText sep (parts ++ [q]) = joinText sep parts ++ String.singleton sep ++ q := by
  rw [joinText, String.intercalate_append_of_ne_nil h (List.cons_ne_nil _ _),
    String.intercalate_singleton]
  rfl

theorem toList_joinText (parts : List String) :
    (joinText sep parts).toList = [sep].intercalate (parts.map String.toList) := by
  rw [joinText, String.toList_intercalate, String.toList_singleton]

theorem splitText_joinText (h : Separate sep parts) :
    splitText sep (joinText sep parts) = if parts = [] then [""] else parts := by
  rw [splitText, toList_joinText]
  by_cases hnil : parts = []
  · rw [if_pos hnil, hnil]
    rfl
  · have hsep : ∀ l ∈ parts.map String.toList, sep ∉ l := by
      intro l hl
      obtain ⟨p, hp, rfl⟩ := List.mem_map.mp hl
      exact h p hp
    rw [if_neg hnil, List.splitOn_intercalate sep hsep (by simpa using hnil), List.map_map]
    simp

theorem splitText_joinText_of_ne_nil (h : Separate sep parts) (hne : parts ≠ []) :
    splitText sep (joinText sep parts) = parts := by
  rw [splitText_joinText h, if_neg hne]

theorem joinText_injective (hp : Separate sep parts) (hq : Separate sep qs) (hpne : parts ≠ [])
    (hqne : qs ≠ []) (h : joinText sep parts = joinText sep qs) : parts = qs := by
  rw [← splitText_joinText_of_ne_nil hp hpne, h, splitText_joinText_of_ne_nil hq hqne]

theorem mem_joinText (h : c ∈ (joinText sep parts).toList) :
    c = sep ∨ ∃ p ∈ parts, c ∈ p.toList := by
  induction parts with
  | nil =>
    rw [joinText_nil] at h
    cases h
  | cons p ps ih =>
    cases ps with
    | nil =>
      rw [joinText_singleton] at h
      exact Or.inr ⟨p, List.mem_cons_self, h⟩
    | cons q qs =>
      rw [joinText, String.intercalate_cons_cons, String.toList_append, String.toList_append,
        String.toList_singleton, List.mem_append, List.mem_append, List.mem_singleton] at h
      rcases h with (hp | hsep) | hrest
      · exact Or.inr ⟨p, List.mem_cons_self, hp⟩
      · exact Or.inl hsep
      · rcases ih hrest with hsep | ⟨r, hr, hc⟩
        · exact Or.inl hsep
        · exact Or.inr ⟨r, List.mem_cons_of_mem p hr, hc⟩

theorem mem_joinText_last (q : String) (h : c ∈ q.toList) :
    c ∈ (joinText sep (parts ++ [q])).toList := by
  cases parts with
  | nil =>
    rw [List.nil_append, joinText_singleton]
    exact h
  | cons p ps =>
    rw [joinText_concat (List.cons_ne_nil p ps), String.toList_append]
    exact List.mem_append_right _ h

theorem joinText_empty_iff (h : Separate sep parts) :
    joinText sep parts = "" ↔ parts = [] ∨ parts = [""] := by
  constructor
  · intro hempty
    by_cases hnil : parts = []
    · exact Or.inl hnil
    · have hsplit := splitText_joinText_of_ne_nil h hnil
      rw [hempty] at hsplit
      exact Or.inr hsplit.symm
  · rintro (rfl | rfl)
    · exact joinText_nil sep
    · exact joinText_singleton sep ""

theorem not_mem_of_mem_splitOn {α : Type} [DecidableEq α] {a : α} {xs l : List α}
    (h : l ∈ xs.splitOn a) : a ∉ l := by
  induction xs generalizing l with
  | nil =>
    rw [List.splitOn_nil, List.mem_singleton] at h
    rw [h]
    exact List.not_mem_nil
  | cons x xs ih =>
    rw [List.splitOn_cons_eq_if_modifyHead] at h
    by_cases hx : x = a
    · rw [if_pos (beq_iff_eq.mpr hx)] at h
      rcases List.mem_cons.mp h with rfl | h
      · exact List.not_mem_nil
      · exact ih h
    · rw [if_neg (fun hb => hx (beq_iff_eq.mp hb))] at h
      cases hsplit : xs.splitOn a with
      | nil => exact absurd hsplit (List.splitOn_ne_nil a xs)
      | cons p ps =>
        rw [hsplit, List.modifyHead_cons] at h
        rcases List.mem_cons.mp h with rfl | h
        · have hp : a ∉ p := ih (hsplit ▸ List.mem_cons_self)
          simpa [hp] using fun hax => hx hax.symm
        · exact ih (hsplit ▸ List.mem_cons_of_mem p h)

theorem mem_of_mem_splitOn {α : Type} [DecidableEq α] {a b : α} {xs l : List α}
    (h : l ∈ xs.splitOn a) (hb : b ∈ l) : b ∈ xs := by
  induction xs generalizing l with
  | nil =>
    rw [List.splitOn_nil, List.mem_singleton] at h
    rwa [h] at hb
  | cons x xs ih =>
    rw [List.splitOn_cons_eq_if_modifyHead] at h
    split_ifs at h
    · rcases List.mem_cons.mp h with rfl | h
      · cases hb
      · exact List.mem_cons_of_mem x (ih h hb)
    · cases hsplit : xs.splitOn a with
      | nil => exact absurd hsplit (List.splitOn_ne_nil a xs)
      | cons p ps =>
        rw [hsplit, List.modifyHead_cons] at h
        rcases List.mem_cons.mp h with rfl | h
        · rcases List.mem_cons.mp hb with rfl | hb
          · exact List.mem_cons_self
          · exact List.mem_cons_of_mem x (ih (hsplit ▸ List.mem_cons_self) hb)
        · exact List.mem_cons_of_mem x (ih (hsplit ▸ List.mem_cons_of_mem p h) hb)

theorem not_mem_of_mem_splitText {s p : String} (h : p ∈ splitText sep s) : sep ∉ p.toList := by
  obtain ⟨l, hl, rfl⟩ := List.mem_map.mp h
  rw [String.toList_ofList]
  exact not_mem_of_mem_splitOn hl

theorem mem_of_mem_splitText {s p : String} (h : p ∈ splitText sep s) (hc : c ∈ p.toList) :
    c ∈ s.toList := by
  obtain ⟨l, hl, rfl⟩ := List.mem_map.mp h
  rw [String.toList_ofList] at hc
  exact mem_of_mem_splitOn hl hc

theorem headD_mem_splitText (sep : Char) (s : String) :
    (splitText sep s).headD "" ∈ splitText sep s := by
  cases h : splitText sep s with
  | nil =>
    rw [splitText, List.map_eq_nil_iff] at h
    exact absurd h (List.splitOn_ne_nil sep s.toList)
  | cons p ps => exact List.mem_cons_self

end Collections
