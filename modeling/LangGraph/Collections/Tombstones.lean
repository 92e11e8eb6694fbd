import LangGraph.Collections.Gather
import Mathlib.Data.List.Nodup

namespace Collections

namespace Tombstones

variable {α κ : Type} [DecidableEq κ]

def live (slots : List (Option α)) : List α := slots.filterMap id

variable (key : α → Option κ)

-- An index holds the slot of every key that is live.
def Indexed (slots : List (Option α)) (index : Dict κ Nat) : Prop :=
  ∀ k i, index.get? k = some i ↔ ∃ a, slots[i]? = some (some a) ∧ key a = some k

def indexOf (as : List α) : Dict κ Nat :=
  Dict.ofList (as.zipIdx.filterMap (fun e => (key e.1).map (fun k => (k, e.2))))

def Distinct (as : List α) : Prop := (as.filterMap key).Nodup

def without (k : κ) (as : List α) : List α := as.filter (fun a => key a ≠ some k)

def replaced (k : κ) (b : α) (as : List α) : List α := as.map (fun a => if key a = some k then b else a)

variable {key} {slots : List (Option α)} {index : Dict κ Nat} {k : κ} {i : Nat} {a b : α}
  {as : List α}

section Live

theorem live_append (slots slots' : List (Option α)) :
    live (slots ++ slots') = live slots ++ live slots' :=
  List.filterMap_append

theorem live_map_some (as : List α) : live (as.map some) = as := by
  rw [live, List.filterMap_map]
  exact List.filterMap_some

theorem mem_live : a ∈ live slots ↔ ∃ i : Nat, slots[i]? = some (some a) := by
  rw [live, List.mem_filterMap]
  constructor
  · rintro ⟨x, hx, rfl⟩
    exact List.mem_iff_getElem?.mp hx
  · rintro ⟨i, hi⟩
    exact ⟨some a, List.mem_of_getElem? hi, rfl⟩

theorem without_of_absent (h : ∀ a ∈ as, key a ≠ some k) : without key k as = as :=
  List.filter_eq_self.mpr (fun a ha => decide_eq_true (h a ha))

theorem replaced_of_absent (h : ∀ a ∈ as, key a ≠ some k) : replaced key k b as = as := by
  refine (List.map_congr_left (fun a ha => ?_)).trans (List.map_id as)
  exact if_neg (h a ha)

end Live

section Indexed

theorem Indexed.slot (h : Indexed key slots index) (hk : index.get? k = some i) {j : Nat}
    (ha : slots[j]? = some (some a)) (hkey : key a = some k) : j = i := by
  have hj := (h k j).mpr ⟨a, ha, hkey⟩
  exact Option.some.inj (hj.symm.trans hk)

theorem Indexed.mem_iff (h : Indexed key slots index) :
    (∃ a ∈ live slots, key a = some k) ↔ ∃ i, index.get? k = some i := by
  constructor
  · rintro ⟨a, ha, hkey⟩
    obtain ⟨i, hi⟩ := mem_live.mp ha
    exact ⟨i, (h k i).mpr ⟨a, hi, hkey⟩⟩
  · rintro ⟨i, hi⟩
    obtain ⟨a, ha, hkey⟩ := (h k i).mp hi
    exact ⟨a, mem_live.mpr ⟨i, ha⟩, hkey⟩

-- The slots on either side of the one that holds a key.
theorem Indexed.split (h : Indexed key slots index) (hk : index.get? k = some i) :
    ∃ pre a post, slots = pre ++ some a :: post ∧ pre.length = i ∧ key a = some k ∧
      (∀ a ∈ live pre, key a ≠ some k) ∧ ∀ a ∈ live post, key a ≠ some k := by
  obtain ⟨a, ha, hkey⟩ := (h k i).mp hk
  obtain ⟨hlt, hget⟩ := List.getElem?_eq_some_iff.mp ha
  have hsplit : slots = slots.take i ++ some a :: slots.drop (i + 1) := by
    rw [← hget, List.getElem_cons_drop, List.take_append_drop]
  have hlength : (slots.take i).length = i := List.length_take_of_le hlt.le
  refine ⟨_, a, _, hsplit, hlength, hkey, fun b hb hbk => ?_, fun b hb hbk => ?_⟩
  · obtain ⟨j, hj⟩ := mem_live.mp hb
    obtain ⟨hjlt, -⟩ := List.getElem?_eq_some_iff.mp hj
    rw [hlength] at hjlt
    have hslot : slots[j]? = some (some b) := by
      rwa [List.getElem?_take_of_lt hjlt] at hj
    exact absurd (h.slot hk hslot hbk) (by omega)
  · obtain ⟨j, hj⟩ := mem_live.mp hb
    rw [List.getElem?_drop] at hj
    exact absurd (h.slot hk hj hbk) (by omega)

theorem set_split {pre post : List (Option α)} {x y : Option α} (hi : pre.length = i) :
    (pre ++ x :: post).set i y = pre ++ y :: post := by
  rw [List.set_append_right _ _ (le_of_eq hi), hi, Nat.sub_self]
  rfl

theorem Indexed.live_clear (h : Indexed key slots index) (hk : index.get? k = some i) :
    live (slots.set i none) = without key k (live slots) := by
  obtain ⟨pre, a, post, rfl, hi, hkey, hpre, hpost⟩ := h.split hk
  have hlive (x : Option α) : live (pre ++ x :: post) = live pre ++ (x.toList ++ live post) := by
    rw [live_append]
    cases x with
    | none => rfl
    | some a => rfl
  rw [set_split hi, hlive, hlive, without, List.filter_append, List.filter_append,
    ← without, ← without, ← without, without_of_absent hpre, without_of_absent hpost]
  simp [without, hkey]

theorem Indexed.live_replace (h : Indexed key slots index) (hk : index.get? k = some i) (b : α) :
    live (slots.set i (some b)) = replaced key k b (live slots) := by
  obtain ⟨pre, a, post, rfl, hi, hkey, hpre, hpost⟩ := h.split hk
  have hlive (a : α) : live (pre ++ some a :: post) = live pre ++ a :: live post :=
    live_append pre (some a :: post)
  rw [set_split hi, hlive, hlive, replaced, List.map_append, List.map_cons, if_pos hkey,
    ← replaced, ← replaced, replaced_of_absent hpre, replaced_of_absent hpost]

theorem Indexed.clear (h : Indexed key slots index) (hk : index.get? k = some i) :
    Indexed key (slots.set i none) (index.erase k) := by
  intro k' j
  by_cases hkk : k' = k
  · subst hkk
    rw [Dict.get?_erase_self]
    constructor
    · nofun
    · rintro ⟨a, ha, hkey⟩
      by_cases hj : i = j
      · subst hj
        rw [List.getElem?_set_self'] at ha
        cases hget : slots[i]? with
        | none =>
          rw [hget] at ha
          cases ha
        | some x =>
          rw [hget] at ha
          cases ha
      · rw [List.getElem?_set_ne hj] at ha
        exact absurd (h.slot hk ha hkey).symm hj
  · rw [Dict.get?_erase_ne hkk, h k' j]
    refine exists_congr (fun a => and_congr_left (fun hkey => ?_))
    by_cases hj : i = j
    · subst hj
      obtain ⟨b, hb, hbk⟩ := (h k i).mp hk
      have hlt := (List.getElem?_eq_some_iff.mp hb).1
      rw [List.getElem?_set_self hlt, hb]
      constructor
      · intro heq
        obtain rfl := Option.some.inj (Option.some.inj heq)
        exact absurd (Option.some.inj (hkey.symm.trans hbk)) hkk
      · nofun
    · rw [List.getElem?_set_ne hj]

theorem Indexed.replace (h : Indexed key slots index) (hk : index.get? k = some i)
    (hb : key b = some k) : Indexed key (slots.set i (some b)) index := by
  obtain ⟨a, ha, hkey⟩ := (h k i).mp hk
  have hlt := (List.getElem?_eq_some_iff.mp ha).1
  intro k' j
  rw [h k' j]
  by_cases hj : i = j
  · subst hj
    rw [List.getElem?_set_self hlt, ha]
    constructor
    · rintro ⟨c, hc, hck⟩
      obtain rfl := Option.some.inj (Option.some.inj hc)
      exact ⟨b, rfl, hb.trans (hkey.symm.trans hck)⟩
    · rintro ⟨c, hc, hck⟩
      obtain rfl := Option.some.inj (Option.some.inj hc)
      exact ⟨a, rfl, hkey.trans (hb.symm.trans hck)⟩
  · rw [List.getElem?_set_ne hj]

theorem getElem?_concat {j : Nat} {x y : Option α} :
    (slots ++ [x])[j]? = some y ↔ slots[j]? = some y ∨ j = slots.length ∧ x = y := by
  rcases Nat.lt_trichotomy j slots.length with hlt | rfl | hgt
  · rw [List.getElem?_append_left hlt]
    exact ⟨Or.inl, fun h => h.elim id (fun h => absurd h.1 hlt.ne)⟩
  · rw [List.getElem?_append_right (le_refl _), Nat.sub_self, List.getElem?_eq_none (le_refl _)]
    simp
  · have hlength : (slots ++ [x]).length ≤ j := by
      rw [List.length_append, List.length_singleton]
      omega
    rw [List.getElem?_eq_none hlength, List.getElem?_eq_none hgt.le]
    constructor
    · nofun
    · rintro (h | ⟨heq, -⟩)
      · cases h
      · exact absurd heq hgt.ne'

theorem Indexed.append_fresh (h : Indexed key slots index) (hk : index.get? k = none)
    (hb : key b = some k) : Indexed key (slots ++ [some b]) (index.set k slots.length) := by
  intro k' j
  rw [Dict.get?_set]
  by_cases hkk : k' = k
  · subst hkk
    rw [if_pos rfl]
    constructor
    · intro heq
      exact ⟨b, getElem?_concat.mpr (Or.inr ⟨(Option.some.inj heq).symm, rfl⟩), hb⟩
    · rintro ⟨a, ha, hkey⟩
      rcases getElem?_concat.mp ha with ha | ⟨rfl, -⟩
      · rw [(h k' j).mpr ⟨a, ha, hkey⟩] at hk
        cases hk
      · rfl
  · rw [if_neg hkk, h k' j]
    refine exists_congr (fun a => and_congr_left (fun hkey => ?_))
    rw [getElem?_concat]
    constructor
    · exact Or.inl
    · rintro (ha | ⟨-, heq⟩)
      · exact ha
      · obtain rfl := Option.some.inj heq
        exact absurd (Option.some.inj (hkey.symm.trans hb)) hkk

theorem Indexed.append_none (h : Indexed key slots index) (hb : key b = none) :
    Indexed key (slots ++ [some b]) index := by
  intro k j
  rw [h k j]
  refine exists_congr (fun a => and_congr_left (fun hkey => ?_))
  rw [getElem?_concat]
  constructor
  · exact Or.inl
  · rintro (ha | ⟨-, heq⟩)
    · exact ha
    · obtain rfl := Option.some.inj heq
      rw [hb] at hkey
      cases hkey

theorem indexed_indexOf (h : Distinct key as) : Indexed key (as.map some) (indexOf key as) := by
  have hkeys : (as.zipIdx.filterMap (fun e => (key e.1).map (fun k => (k, e.2)))).map Prod.fst =
      as.filterMap key := by
    have hkey : (fun e : α × Nat => ((key e.1).map (fun k => (k, e.2))).map Prod.fst) =
        key ∘ Prod.fst := by
      funext e
      cases hk : key e.1 with
      | none => simp [hk]
      | some k => simp [hk]
    rw [List.map_filterMap, hkey, ← List.filterMap_map, List.zipIdx_map_fst]
  intro k i
  have hnodup : (as.filterMap key).Nodup := h
  rw [← hkeys] at hnodup
  have hitems := Dict.items_ofList hnodup
  rw [indexOf, Dict.get?_eq_some, hitems, List.mem_filterMap, List.getElem?_map]
  constructor
  · rintro ⟨⟨a, j⟩, hmem, heq⟩
    obtain ⟨k', hk', hpair⟩ := Option.map_eq_some_iff.mp heq
    obtain ⟨rfl, rfl⟩ := Prod.mk.inj hpair
    exact ⟨a, by rw [List.mk_mem_zipIdx_iff_getElem?.mp hmem]; rfl, hk'⟩
  · rintro ⟨a, ha, hk⟩
    obtain ⟨a', ha', heq⟩ := Option.map_eq_some_iff.mp ha
    obtain rfl := Option.some.inj heq
    refine ⟨(a', i), List.mk_mem_zipIdx_iff_getElem?.mpr ha', ?_⟩
    rw [hk]
    rfl

theorem Indexed.distinct (h : Indexed key slots index) : Distinct key (live slots) := by
  refine List.pairwise_filterMap.mpr (List.pairwise_filterMap.mpr ?_)
  refine List.pairwise_iff_getElem.mpr (fun i j hi hj hlt a ha b hb k hk k' hk' heq => ?_)
  subst heq
  have hat : slots[i]? = some (some a) := List.getElem?_eq_some_iff.mpr ⟨hi, ha⟩
  have hbt : slots[j]? = some (some b) := List.getElem?_eq_some_iff.mpr ⟨hj, hb⟩
  exact hlt.ne (h.slot ((h k j).mpr ⟨b, hbt, hk'⟩) hat hk)

end Indexed

end Tombstones

end Collections
