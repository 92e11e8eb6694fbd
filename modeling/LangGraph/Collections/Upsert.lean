import LangGraph.Collections.Dict

namespace Collections

inductive OnConflict
  | replace
  | ignore
  deriving DecidableEq

def firstOf {κ α : Type} [DecidableEq κ] (k : κ) (rows : List (κ × α)) : Option α :=
  (rows.find? (fun r => r.1 = k)).map Prod.snd

def lastOf {κ α : Type} [DecidableEq κ] (k : κ) (rows : List (κ × α)) : Option α :=
  firstOf k rows.reverse

namespace Dict

variable {κ α β : Type} [DecidableEq κ]

def insertOn (policy : OnConflict) (d : Dict κ α) (k : κ) (v : α) : Dict κ α :=
  match policy with
  | .replace => d.set k v
  | .ignore => if k ∈ d.keys then d else d.set k v

def insertMany (policy : κ → OnConflict) (rows : List (κ × α)) (d : Dict κ α) : Dict κ α :=
  rows.foldl (fun d r => d.insertOn (policy r.1) r.1 r.2) d

def resolve (policy : OnConflict) (held first last : Option α) : Option α :=
  match policy with
  | .replace => last.or held
  | .ignore => held.or first

theorem firstOf_nil (k : κ) : firstOf k ([] : List (κ × α)) = none := rfl

theorem firstOf_cons (k : κ) (r : κ × α) (rows : List (κ × α)) :
    firstOf k (r :: rows) = if r.1 = k then some r.2 else firstOf k rows := by
  rw [firstOf, List.find?_cons]
  by_cases h : r.1 = k
  · simp [h]
  · simp [h, firstOf]

theorem firstOf_append (k : κ) (rows rows' : List (κ × α)) :
    firstOf k (rows ++ rows') = (firstOf k rows).or (firstOf k rows') := by
  rw [firstOf, List.find?_append, Option.map_or]
  rfl

theorem lastOf_cons (k : κ) (r : κ × α) (rows : List (κ × α)) :
    lastOf k (r :: rows) = (lastOf k rows).or (if r.1 = k then some r.2 else none) := by
  rw [lastOf, List.reverse_cons, firstOf_append, firstOf_cons, firstOf_nil]
  rfl

theorem firstOf_eq_none {k : κ} {rows : List (κ × α)} :
    firstOf k rows = none ↔ ∀ r ∈ rows, r.1 ≠ k := by
  simp [firstOf, List.find?_eq_none]

theorem lastOf_eq_none {k : κ} {rows : List (κ × α)} :
    lastOf k rows = none ↔ ∀ r ∈ rows, r.1 ≠ k := by
  rw [lastOf, firstOf_eq_none]
  constructor
  · exact fun h r hr => h r (List.mem_reverse.mpr hr)
  · exact fun h r hr => h r (List.mem_reverse.mp hr)

theorem mem_of_firstOf {k : κ} {v : α} {rows : List (κ × α)} (h : firstOf k rows = some v) :
    (k, v) ∈ rows := by
  obtain ⟨r, hfind, rfl⟩ := Option.map_eq_some_iff.mp h
  have hk : r.1 = k := by simpa using List.find?_some hfind
  rw [← hk]
  exact List.mem_of_find?_eq_some hfind

theorem mem_of_lastOf {k : κ} {v : α} {rows : List (κ × α)} (h : lastOf k rows = some v) :
    (k, v) ∈ rows :=
  List.mem_reverse.mp (mem_of_firstOf h)

theorem firstOf_eq_none_iff_lastOf (k : κ) (rows : List (κ × α)) :
    firstOf k rows = none ↔ lastOf k rows = none :=
  firstOf_eq_none.trans lastOf_eq_none.symm

theorem firstOf_map {κ' : Type} [DecidableEq κ'] {f : κ → κ'} (hf : Function.Injective f) (k : κ)
    (rows : List (κ × α)) :
    firstOf (f k) (rows.map (fun r => (f r.1, r.2))) = firstOf k rows := by
  induction rows with
  | nil => rfl
  | cons r rows ih => simp only [List.map_cons, firstOf_cons, ih, hf.eq_iff]

theorem lastOf_map {κ' : Type} [DecidableEq κ'] {f : κ → κ'} (hf : Function.Injective f) (k : κ)
    (rows : List (κ × α)) :
    lastOf (f k) (rows.map (fun r => (f r.1, r.2))) = lastOf k rows := by
  rw [lastOf, ← List.map_reverse, firstOf_map hf]
  rfl

theorem get?_insertOn (policy : OnConflict) (d : Dict κ α) (k k' : κ) (v : α) :
    (d.insertOn policy k v).get? k' =
      resolve policy (d.get? k') (if k = k' then some v else none)
        (if k = k' then some v else none) := by
  cases policy with
  | replace =>
    rw [insertOn, resolve, get?_set]
    by_cases h : k = k'
    · simp [h]
    · have h' : k' ≠ k := fun e => h e.symm
      simp [h, h']
  | ignore =>
    rw [insertOn, resolve]
    by_cases hk : k ∈ d.keys
    · rw [if_pos hk]
      by_cases h : k = k'
      · obtain ⟨w, hw⟩ := mem_keys.mp hk
        rw [← h, hw]
        rfl
      · simp [h]
    · rw [if_neg hk, get?_set]
      by_cases h : k = k'
      · have hnone : d.get? k' = none := get?_eq_none.mpr (h ▸ hk)
        simp [h, hnone]
      · have h' : k' ≠ k := fun e => h e.symm
        simp [h, h']

theorem get?_insertMany (policy : κ → OnConflict) (rows : List (κ × α)) (d : Dict κ α) (k : κ) :
    (d.insertMany policy rows).get? k =
      resolve (policy k) (d.get? k) (firstOf k rows) (lastOf k rows) := by
  induction rows generalizing d with
  | nil => cases h : policy k <;> simp [insertMany, resolve, firstOf, lastOf]
  | cons r rows ih =>
    have hstep : d.insertMany policy (r :: rows) =
        (d.insertOn (policy r.1) r.1 r.2).insertMany policy rows := rfl
    rw [hstep, ih, get?_insertOn, firstOf_cons, lastOf_cons]
    by_cases hr : r.1 = k
    · subst hr
      cases hp : policy r.1 <;> cases hd : d.get? r.1 <;> simp [resolve]
    · cases hp : policy r.1 <;> cases hq : policy k <;> simp [resolve, hr]

theorem mapValues_set (f : α → β) (d : Dict κ α) (k : κ) (v : α) :
    (d.set k v).mapValues f = (d.mapValues f).set k (f v) :=
  ext_items (insert_map f k v d.items)

theorem mapValues_insertOn (f : α → β) (policy : OnConflict) (d : Dict κ α) (k : κ) (v : α) :
    (d.insertOn policy k v).mapValues f = (d.mapValues f).insertOn policy k (f v) := by
  cases policy with
  | replace => exact mapValues_set f d k v
  | ignore =>
    rw [insertOn, insertOn, keys_mapValues]
    split_ifs with h
    · rfl
    · exact mapValues_set f d k v

theorem mapValues_insertMany (f : α → β) (policy : κ → OnConflict) (rows : List (κ × α))
    (d : Dict κ α) :
    (d.insertMany policy rows).mapValues f =
      (d.mapValues f).insertMany policy (rows.map (fun r => (r.1, f r.2))) := by
  induction rows generalizing d with
  | nil => rfl
  | cons r rows ih =>
    have hstep : d.insertMany policy (r :: rows) =
        (d.insertOn (policy r.1) r.1 r.2).insertMany policy rows := rfl
    rw [hstep, ih, mapValues_insertOn]
    rfl

end Dict

end Collections
