import Mathlib.Data.List.Nodup

namespace Collections

structure Dict (κ α : Type) where
  items : List (κ × α)
  nodup : (items.map Prod.fst).Nodup

namespace Dict

variable {κ α β : Type}

def keys (d : Dict κ α) : List κ := d.items.map Prod.fst

def values (d : Dict κ α) : List α := d.items.map Prod.snd

def empty : Dict κ α := ⟨[], List.nodup_nil⟩

instance : EmptyCollection (Dict κ α) := ⟨empty⟩

instance : Inhabited (Dict κ α) := ⟨empty⟩

theorem nodup_keys (d : Dict κ α) : d.keys.Nodup := d.nodup

theorem ext_items {d e : Dict κ α} (h : d.items = e.items) : d = e := by
  cases d
  cases e
  simpa using h

def mapValues (f : α → β) (d : Dict κ α) : Dict κ β :=
  ⟨d.items.map (fun p => (p.1, f p.2)), by
    simpa only [List.map_map, Function.comp_def] using d.nodup⟩

def filter (p : κ → α → Bool) (d : Dict κ α) : Dict κ α :=
  ⟨d.items.filter (fun i => p i.1 i.2), d.nodup.sublist (List.filter_sublist.map Prod.fst)⟩

theorem keys_filterMap_sublist (f : κ → α → Option β) (l : List (κ × α)) :
    ((l.filterMap (fun p => (f p.1 p.2).map (fun b => (p.1, b)))).map Prod.fst).Sublist
      (l.map Prod.fst) := by
  induction l with
  | nil => exact .slnil
  | cons p l ih =>
    rw [List.filterMap_cons]
    cases f p.1 p.2 with
    | none => exact ih.cons _
    | some b => exact ih.cons_cons _

def filterMap (f : κ → α → Option β) (d : Dict κ α) : Dict κ β :=
  ⟨d.items.filterMap (fun p => (f p.1 p.2).map (fun b => (p.1, b))),
    d.nodup.sublist (keys_filterMap_sublist f d.items)⟩

theorem keys_filterMap_some (f : κ → α → β) (d : Dict κ α) :
    (d.filterMap (fun k v => some (f k v))).keys = d.keys := by
  unfold keys filterMap
  simp only [Option.map_some]
  rw [List.filterMap_eq_map', List.map_map]
  rfl

theorem keys_mapValues (f : α → β) (d : Dict κ α) : (d.mapValues f).keys = d.keys := by
  simp [keys, mapValues, Function.comp_def]

theorem values_mapValues (f : α → β) (d : Dict κ α) :
    (d.mapValues f).values = d.values.map f := by
  simp [values, mapValues, Function.comp_def]

theorem mapValues_filterMap {γ δ : Type} {f : κ → α → Option β} {g : β → γ} (l : α → δ)
    (p : κ → δ → Option γ) (h : ∀ k v, (f k v).map g = p k (l v)) (d : Dict κ α) :
    (d.filterMap f).mapValues g = (d.mapValues l).filterMap p := by
  refine ext_items ?_
  simp only [mapValues, filterMap, List.map_filterMap, List.filterMap_map]
  refine List.filterMap_congr (fun e _ => ?_)
  rw [Function.comp_apply, ← h e.1 e.2, Option.map_map, Option.map_map]
  rfl

variable [DecidableEq κ]

def lookup (k : κ) : List (κ × α) → Option α
  | [] => none
  | (k', v) :: rest => if k' = k then some v else lookup k rest

def insert (k : κ) (v : α) : List (κ × α) → List (κ × α)
  | [] => [(k, v)]
  | (k', v') :: rest => if k' = k then (k, v) :: rest else (k', v') :: insert k v rest

theorem keys_insert (k : κ) (v : α) (l : List (κ × α)) :
    (insert k v l).map Prod.fst =
      if k ∈ l.map Prod.fst then l.map Prod.fst else l.map Prod.fst ++ [k] := by
  induction l with
  | nil => simp [insert]
  | cons p l ih =>
    obtain ⟨k', v'⟩ := p
    simp only [insert]
    by_cases h : k' = k
    · simp [h]
    · have h' : k ≠ k' := fun e => h e.symm
      simp only [if_neg h, List.map_cons, ih, List.mem_cons, h', false_or]
      split <;> simp

theorem nodup_insert (k : κ) (v : α) {l : List (κ × α)} (h : (l.map Prod.fst).Nodup) :
    ((insert k v l).map Prod.fst).Nodup := by
  rw [keys_insert]
  split
  · exact h
  · rename_i hk
    exact h.append (List.nodup_singleton k) (by simpa using hk)

def get? (d : Dict κ α) (k : κ) : Option α := lookup k d.items

def set (d : Dict κ α) (k : κ) (v : α) : Dict κ α := ⟨insert k v d.items, nodup_insert k v d.nodup⟩

def contains (d : Dict κ α) (k : κ) : Bool := (d.get? k).isSome

def getD (d : Dict κ α) (k : κ) (default : α) : α := (d.get? k).getD default

theorem getD_of_get? {d : Dict κ α} {k : κ} {v default : α} (h : d.get? k = some v) :
    d.getD k default = v := by
  rw [getD, h, Option.getD_some]

theorem getD_of_none {d : Dict κ α} {k : κ} {default : α} (h : d.get? k = none) :
    d.getD k default = default := by
  rw [getD, h, Option.getD_none]

def update (d : Dict κ α) (l : List (κ × α)) : Dict κ α :=
  l.foldl (fun d p => d.set p.1 p.2) d

def ofList (l : List (κ × α)) : Dict κ α := (empty : Dict κ α).update l

theorem mem_insert {k : κ} {v : α} {l : List (κ × α)}
    {e : κ × α} (h : e ∈ insert k v l) : e = (k, v) ∨ e ∈ l := by
  induction l with
  | nil =>
    rw [insert, List.mem_singleton] at h
    exact Or.inl h
  | cons p l ih =>
    rw [insert] at h
    split at h
    · rcases List.mem_cons.mp h with h | h
      · exact Or.inl h
      · exact Or.inr (List.mem_cons_of_mem p h)
    · rcases List.mem_cons.mp h with h | h
      · exact Or.inr (h ▸ List.mem_cons_self)
      · exact (ih h).imp_right (List.mem_cons_of_mem p)

theorem mem_insert_self (k : κ) (v : α) (l : List (κ × α)) : (k, v) ∈ insert k v l := by
  induction l with
  | nil => exact List.mem_cons_self
  | cons p l ih =>
    rw [insert]
    split
    · exact List.mem_cons_self
    · exact List.mem_cons_of_mem p ih

theorem mem_insert_of_ne {k : κ} {l : List (κ × α)} {e : κ × α} (h : e.1 ≠ k) (v : α)
    (he : e ∈ l) : e ∈ insert k v l := by
  induction l with
  | nil => cases he
  | cons p l ih =>
    rw [insert]
    rcases List.mem_cons.mp he with rfl | he
    · rw [if_neg h]
      exact List.mem_cons_self
    · split
      · exact List.mem_cons_of_mem (k, v) he
      · exact List.mem_cons_of_mem p (ih he)

theorem insert_of_not_mem {k : κ} {v : α} {l : List (κ × α)} (h : k ∉ l.map Prod.fst) :
    insert k v l = l ++ [(k, v)] := by
  induction l with
  | nil => rfl
  | cons p l ih =>
    rw [List.map_cons, List.mem_cons, not_or] at h
    rw [insert, if_neg (Ne.symm h.1), ih h.2, List.cons_append]

theorem items_update_of_nodup {d : Dict κ α} {l : List (κ × α)}
    (h : ((d.items ++ l).map Prod.fst).Nodup) : (d.update l).items = d.items ++ l := by
  induction l generalizing d with
  | nil => exact (List.append_nil d.items).symm
  | cons p l ih =>
    have hp : p.1 ∉ d.items.map Prod.fst := by
      intro hmem
      rw [List.map_append, List.map_cons] at h
      exact (List.nodup_append.mp h).2.2 p.1 hmem p.1 List.mem_cons_self rfl
    have hset : (d.set p.1 p.2).items = d.items ++ [p] := insert_of_not_mem hp
    have hrest : (((d.set p.1 p.2).items ++ l).map Prod.fst).Nodup := by
      rw [hset, List.append_assoc]
      exact h
    have hcons : d.update (p :: l) = (d.set p.1 p.2).update l := rfl
    rw [hcons, ih hrest, hset, List.append_assoc]
    rfl

theorem items_ofList {l : List (κ × α)} (h : (l.map Prod.fst).Nodup) : (ofList l).items = l :=
  items_update_of_nodup (d := empty) h

theorem insert_filter_of_pos {p : κ → Bool} {k : κ} (hp : p k = true) (v : α)
    (l : List (κ × α)) :
    (insert k v l).filter (fun e => p e.1) = insert k v (l.filter (fun e => p e.1)) := by
  induction l with
  | nil => simp [insert, hp]
  | cons e l ih =>
    rw [insert]
    split
    · rename_i h
      simp [insert, h, hp]
    · rename_i h
      rw [List.filter_cons, List.filter_cons]
      split
      · rw [insert, if_neg h, ih]
      · exact ih

theorem insert_filter_of_neg {p : κ → Bool} {k : κ} (hp : p k = false) (v : α)
    (l : List (κ × α)) :
    (insert k v l).filter (fun e => p e.1) = l.filter (fun e => p e.1) := by
  induction l with
  | nil => simp [insert, hp]
  | cons e l ih =>
    rw [insert]
    split
    · rename_i h
      simp [h, hp]
    · rw [List.filter_cons, List.filter_cons, ih]

theorem insert_map (f : α → β) (k : κ) (v : α) (l : List (κ × α)) :
    (insert k v l).map (fun e => (e.1, f e.2)) = insert k (f v) (l.map (fun e => (e.1, f e.2))) := by
  induction l with
  | nil => rfl
  | cons e l ih =>
    rw [insert, List.map_cons, insert]
    split
    · rfl
    · rw [List.map_cons, ih]

theorem lookup_insert_self (k : κ) (v : α) (l : List (κ × α)) :
    lookup k (insert k v l) = some v := by
  induction l with
  | nil => simp [insert, lookup]
  | cons p l ih =>
    simp only [insert]
    split
    · simp [lookup]
    · rename_i h
      simp [lookup, h, ih]

theorem lookup_insert_ne {k k' : κ} (h : k' ≠ k) (v : α) (l : List (κ × α)) :
    lookup k' (insert k v l) = lookup k' l := by
  induction l with
  | nil => simp [insert, lookup, h.symm]
  | cons p l ih =>
    simp only [insert]
    split
    · rename_i hp
      simp [lookup, hp, h.symm]
    · simp [lookup, ih]

theorem lookup_eq_none {k : κ} {l : List (κ × α)} :
    lookup k l = none ↔ k ∉ l.map Prod.fst := by
  induction l with
  | nil => simp [lookup]
  | cons p l ih =>
    simp only [lookup, List.map_cons, List.mem_cons, not_or]
    split
    · rename_i h
      simp [h]
    · rename_i h
      simp [ih, Ne.symm h]

theorem lookup_eq_some {k : κ} {v : α} {l : List (κ × α)} (hl : (l.map Prod.fst).Nodup) :
    lookup k l = some v ↔ (k, v) ∈ l := by
  induction l with
  | nil => simp [lookup]
  | cons p l ih =>
    obtain ⟨k', v'⟩ := p
    simp only [List.map_cons, List.nodup_cons] at hl
    simp only [lookup, List.mem_cons, Prod.mk.injEq]
    split
    · rename_i h
      subst h
      constructor
      · intro e
        exact Or.inl ⟨rfl, (Option.some.inj e).symm⟩
      · rintro (⟨-, rfl⟩ | hm)
        · rfl
        · exact absurd (List.mem_map_of_mem hm) hl.1
    · rename_i h
      rw [ih hl.2]
      exact ⟨Or.inr, fun e => e.resolve_left (fun e => h e.1.symm)⟩

theorem insert_of_lookup {k : κ} {v : α} {l : List (κ × α)} (h : lookup k l = some v) :
    insert k v l = l := by
  induction l with
  | nil => cases h
  | cons p l ih =>
    obtain ⟨k', v'⟩ := p
    simp only [lookup] at h
    simp only [insert]
    split_ifs at h ⊢ with hk
    · rw [Option.some.inj h, hk]
    · rw [ih h]

@[simp] theorem get?_empty (k : κ) : (empty : Dict κ α).get? k = none := rfl

@[simp] theorem get?_emptyCollection (k : κ) : (∅ : Dict κ α).get? k = none := rfl

@[simp] theorem get?_set_self (d : Dict κ α) (k : κ) (v : α) : (d.set k v).get? k = some v :=
  lookup_insert_self k v d.items

theorem get?_set_ne (d : Dict κ α) {k k' : κ} (h : k' ≠ k) (v : α) :
    (d.set k v).get? k' = d.get? k' :=
  lookup_insert_ne h v d.items

theorem get?_set (d : Dict κ α) (k k' : κ) (v : α) :
    (d.set k v).get? k' = if k' = k then some v else d.get? k' := by
  split
  · rename_i h
    rw [h, get?_set_self]
  · rename_i h
    exact get?_set_ne d h v

theorem set_of_get? {d : Dict κ α} {k : κ} {v : α} (h : d.get? k = some v) : d.set k v = d :=
  ext_items (insert_of_lookup h)

theorem get?_eq_none {d : Dict κ α} {k : κ} : d.get? k = none ↔ k ∉ d.keys :=
  lookup_eq_none

theorem get?_eq_some {d : Dict κ α} {k : κ} {v : α} : d.get? k = some v ↔ (k, v) ∈ d.items :=
  lookup_eq_some d.nodup

theorem mem_keys {d : Dict κ α} {k : κ} : k ∈ d.keys ↔ ∃ v, d.get? k = some v := by
  rw [← Option.isSome_iff_exists, ← Option.ne_none_iff_isSome, ne_eq, get?_eq_none, not_not]

theorem contains_iff {d : Dict κ α} {k : κ} : d.contains k = true ↔ k ∈ d.keys := by
  rw [contains, mem_keys, Option.isSome_iff_exists]

theorem keys_set (d : Dict κ α) (k : κ) (v : α) :
    (d.set k v).keys = if k ∈ d.keys then d.keys else d.keys ++ [k] :=
  keys_insert k v d.items

theorem keys_set_of_mem {d : Dict κ α} {k : κ} (h : k ∈ d.keys) (v : α) :
    (d.set k v).keys = d.keys := by
  rw [keys_set, if_pos h]

theorem mem_keys_set {d : Dict κ α} {k k' : κ} {v : α} :
    k' ∈ (d.set k v).keys ↔ k' = k ∨ k' ∈ d.keys := by
  rw [keys_set]
  split
  · rename_i h
    exact ⟨Or.inr, fun e => e.elim (fun e => e ▸ h) id⟩
  · rw [List.mem_append, List.mem_singleton, or_comm]

theorem mem_values {d : Dict κ α} {v : α} : v ∈ d.values ↔ ∃ k, d.get? k = some v := by
  simp only [values, List.mem_map, Prod.exists, exists_eq_right, get?_eq_some]

theorem nodup_map_values {d : Dict κ α} {f : α → β}
    (h : ∀ k k' v v', d.get? k = some v → d.get? k' = some v' → f v = f v' → k = k') :
    (d.values.map f).Nodup := by
  rw [values, List.map_map]
  refine List.Nodup.map_on ?_ (List.Nodup.of_map _ d.nodup)
  rintro ⟨k, v⟩ hv ⟨k', v'⟩ hv' heq
  have hk : k = k' := h k k' v v' (get?_eq_some.mpr hv) (get?_eq_some.mpr hv') heq
  rw [← hk] at hv'
  have hget : d.get? k = some v := get?_eq_some.mpr hv
  rw [get?_eq_some.mpr hv'] at hget
  rw [hk, Option.some.inj hget]

theorem mem_items_update {d : Dict κ α} {l : List (κ × α)} {e : κ × α}
    (h : e ∈ (d.update l).items) : e ∈ d.items ∨ e ∈ l := by
  induction l generalizing d with
  | nil => exact Or.inl h
  | cons p l ih =>
    rcases ih (d := d.set p.1 p.2) h with hset | hl
    · rcases mem_insert hset with hp | hd
      · exact Or.inr (hp ▸ List.mem_cons_self)
      · exact Or.inl hd
    · exact Or.inr (List.mem_cons_of_mem p hl)

theorem mem_items_ofList {l : List (κ × α)} {e : κ × α} (h : e ∈ (ofList l).items) : e ∈ l :=
  (mem_items_update h).resolve_left (by simp [empty])

theorem get?_mapValues (f : α → β) (d : Dict κ α) (k : κ) :
    (d.mapValues f).get? k = (d.get? k).map f := by
  have aux (l : List (κ × α)) :
      lookup k (l.map (fun p => (p.1, f p.2))) = (lookup k l).map f := by
    induction l with
    | nil => rfl
    | cons p l ih =>
      simp only [List.map_cons, lookup]
      split
      · rfl
      · exact ih
  exact aux d.items

theorem get?_filterMap (f : κ → α → Option β) (d : Dict κ α) (k : κ) :
    (d.filterMap f).get? k = (d.get? k).bind (f k) := by
  have aux (l : List (κ × α)) (hl : (l.map Prod.fst).Nodup) :
      lookup k (l.filterMap (fun p => (f p.1 p.2).map (fun b => (p.1, b)))) =
        (lookup k l).bind (f k) := by
    induction l with
    | nil => rfl
    | cons p l ih =>
      rw [List.map_cons, List.nodup_cons] at hl
      have ih' := ih hl.2
      rw [List.filterMap_cons]
      by_cases hk : p.1 = k
      · subst hk
        have hrest : lookup p.1 l = none := lookup_eq_none.mpr hl.1
        rw [hrest] at ih'
        cases hf : f p.1 p.2 with
        | none => simpa [lookup, hf] using ih'
        | some b => simp [lookup, hf]
      · cases hf : f p.1 p.2 with
        | none => simpa [lookup, hk] using ih'
        | some b => simpa [lookup, hk] using ih'
  exact aux d.items d.nodup

theorem items_eq_filterMap (d : Dict κ α) :
    d.items = d.keys.filterMap (fun k => (d.get? k).map (fun v => (k, v))) := by
  have hsome : ∀ p ∈ d.items, (d.get? p.1).map (fun v => (p.1, v)) = some p := by
    intro p hp
    rw [get?_eq_some.mpr hp]
    rfl
  rw [keys, List.filterMap_map]
  exact List.filterMap_some.symm.trans (List.filterMap_congr (fun p hp => (hsome p hp).symm))

theorem ext_get? {d e : Dict κ α} (hkeys : d.keys = e.keys) (hget : ∀ k, d.get? k = e.get? k) :
    d = e := by
  refine ext_items ?_
  rw [items_eq_filterMap d, items_eq_filterMap e, hkeys]
  simp only [hget]

theorem get?_filter (p : κ → α → Bool) (d : Dict κ α) (k : κ) :
    (d.filter p).get? k = (d.get? k).filter (p k) := by
  have aux (l : List (κ × α)) (hl : (l.map Prod.fst).Nodup) :
      lookup k (l.filter (fun i => p i.1 i.2)) = (lookup k l).filter (p k) := by
    induction l with
    | nil => rfl
    | cons e l ih =>
      rw [List.map_cons, List.nodup_cons] at hl
      have ih' := ih hl.2
      rw [List.filter_cons]
      by_cases hk : e.1 = k
      · subst hk
        have hrest : lookup e.1 l = none := lookup_eq_none.mpr hl.1
        rw [hrest] at ih'
        cases hp : p e.1 e.2 with
        | false => simpa [lookup, Option.filter, hp] using ih'
        | true => simp [lookup, Option.filter, hp]
      · cases hp : p e.1 e.2 with
        | false => simpa [lookup, hk] using ih'
        | true => simpa [lookup, hk] using ih'
  exact aux d.items d.nodup

theorem get?_filter_ne (d : Dict κ α) (k k' : κ) :
    (d.filter (fun n _ => n ≠ k)).get? k' = if k' = k then none else d.get? k' := by
  rw [get?_filter]
  cases d.get? k' with
  | none => simp
  | some v => simp [Option.filter]

theorem mem_keys_filter {p : κ → α → Bool} {d : Dict κ α} {k : κ} :
    k ∈ (d.filter p).keys ↔ ∃ v, d.get? k = some v ∧ p k v = true := by
  simp [mem_keys, get?_filter, Option.filter_eq_some_iff]

theorem get?_update (d : Dict κ α) (l : List (κ × α)) (k : κ) :
    (d.update l).get? k = ((l.reverse.find? (fun p => p.1 = k)).map Prod.snd).or (d.get? k) := by
  induction l generalizing d with
  | nil => simp [update]
  | cons p l ih =>
    have h : d.update (p :: l) = (d.set p.1 p.2).update l := rfl
    rw [h, ih, List.reverse_cons, List.find?_append, get?_set]
    cases hf : l.reverse.find? (fun p => p.1 = k) with
    | some q => simp
    | none =>
      by_cases hk : p.1 = k
      · simp [hk]
      · have hk' : k ≠ p.1 := fun e => hk e.symm
        simp [hk, hk']

theorem get?_update_items (d e : Dict κ α) (k : κ) :
    (d.update e.items).get? k = (e.get? k).or (d.get? k) := by
  rw [get?_update]
  congr 1
  cases hfind : e.items.reverse.find? (fun p => p.1 = k) with
  | none =>
    refine (get?_eq_none.mpr (fun hmem => ?_)).symm
    obtain ⟨v, hv⟩ := mem_keys.mp hmem
    have hout := List.find?_eq_none.mp hfind (k, v) (List.mem_reverse.mpr (get?_eq_some.mp hv))
    simp at hout
  | some p =>
    have hmem := List.mem_reverse.mp (List.mem_of_find?_eq_some hfind)
    have hkey : p.1 = k := by simpa using List.find?_some hfind
    exact (get?_eq_some.mpr (hkey ▸ hmem)).symm

theorem get?_update_filterMap (d e : Dict κ α) (ks : List κ) (k : κ) :
    (d.update (ks.filterMap (fun k => (e.get? k).map (fun v => (k, v))))).get? k =
      if k ∈ ks then (e.get? k).or (d.get? k) else d.get? k := by
  induction ks generalizing d with
  | nil => simp [update]
  | cons k' ks ih =>
    cases hv : e.get? k' with
    | none =>
      have hskip : (k' :: ks).filterMap (fun k => (e.get? k).map (fun v => (k, v))) =
          ks.filterMap (fun k => (e.get? k).map (fun v => (k, v))) := by
        simp [hv]
      rw [hskip, ih]
      by_cases hk : k = k'
      · simp [hk, hv]
      · simp [hk]
    | some v =>
      have hset : d.update ((k' :: ks).filterMap (fun k => (e.get? k).map (fun v => (k, v)))) =
          (d.set k' v).update (ks.filterMap (fun k => (e.get? k).map (fun v => (k, v)))) := by
        simp [hv, update]
      rw [hset, ih, get?_set]
      by_cases hk : k = k'
      · simp [hk, hv]
      · simp [hk]

theorem mem_keys_update {d : Dict κ α} {l : List (κ × α)} {k : κ} :
    k ∈ (d.update l).keys ↔ k ∈ d.keys ∨ k ∈ l.map Prod.fst := by
  induction l generalizing d with
  | nil => simp [update]
  | cons p l ih =>
    have h : d.update (p :: l) = (d.set p.1 p.2).update l := rfl
    rw [h, ih, mem_keys_set, List.map_cons, List.mem_cons]
    exact ⟨fun e => by rcases e with (e | e) | e <;> simp [e],
      fun e => by rcases e with e | e | e <;> simp [e]⟩

theorem mem_keys_ofList {l : List (κ × α)} {k : κ} :
    k ∈ (ofList l).keys ↔ k ∈ l.map Prod.fst := by
  rw [ofList, mem_keys_update]
  exact or_iff_right (by simp [keys, empty])

end Dict

end Collections
