import LangGraph.Collections.Dict
import Mathlib.Data.Finset.Card
import Mathlib.Data.Finset.Dedup
import Mathlib.Data.List.Induction

namespace Collections

namespace Dict

variable {κ π α : Type} [DecidableEq κ]

def group (l : List (κ × α)) : Dict κ (List α) :=
  l.foldl (fun d p => d.set p.1 (d.getD p.1 [] ++ [p.2])) ∅

theorem group_concat (l : List (κ × α)) (p : κ × α) :
    group (l ++ [p]) = (group l).set p.1 ((group l).getD p.1 [] ++ [p.2]) := by
  rw [group, List.foldl_append]
  rfl

theorem mem_keys_group {l : List (κ × α)} {k : κ} : k ∈ (group l).keys ↔ k ∈ l.map Prod.fst := by
  induction l using List.reverseRecOn with
  | nil => exact Iff.rfl
  | append_singleton l p ih =>
    rw [group_concat, mem_keys_set, ih, List.map_append, List.mem_append, or_comm]
    exact or_congr_right List.mem_singleton.symm

theorem length_flatten_insert (k : κ) (vs : List α) (l : List (κ × List α)) :
    ((insert k vs l).map Prod.snd).flatten.length + ((lookup k l).getD []).length =
      (l.map Prod.snd).flatten.length + vs.length := by
  induction l with
  | nil => simp [insert, lookup]
  | cons p l ih =>
    rw [insert, lookup]
    by_cases hk : p.1 = k
    · rw [if_pos hk, if_pos hk]
      simp only [List.map_cons, List.flatten_cons, List.length_append, Option.getD_some]
      omega
    · rw [if_neg hk, if_neg hk]
      simp only [List.map_cons, List.flatten_cons, List.length_append]
      omega

theorem length_values_group (l : List (κ × α)) : (group l).values.flatten.length = l.length := by
  induction l using List.reverseRecOn with
  | nil => rfl
  | append_singleton l p ih =>
    have hadd := length_flatten_insert p.1 ((group l).getD p.1 [] ++ [p.2]) (group l).items
    rw [group_concat, List.length_append, List.length_singleton]
    rw [List.length_append, List.length_singleton] at hadd
    have hset : ((group l).set p.1 ((group l).getD p.1 [] ++ [p.2])).values =
        (insert p.1 ((group l).getD p.1 [] ++ [p.2]) (group l).items).map Prod.snd := rfl
    have hgetD : ((lookup p.1 (group l).items).getD []).length = ((group l).getD p.1 []).length := rfl
    have hvalues : (group l).values = (group l).items.map Prod.snd := rfl
    rw [hset]
    rw [hvalues] at ih
    omega

theorem items_group {l : List (κ × α)} (h : (l.map Prod.fst).Nodup) :
    (group l).items = l.map (fun p => (p.1, [p.2])) := by
  induction l using List.reverseRecOn with
  | nil => rfl
  | append_singleton l p ih =>
    rw [List.map_append, List.nodup_append] at h
    have hout : p.1 ∉ l.map Prod.fst := fun hin => h.2.2 p.1 hin p.1 (by simp) rfl
    have hnew : p.1 ∉ (group l).keys := fun hin => hout (mem_keys_group.mp hin)
    rw [group_concat, getD_of_none (get?_eq_none.mpr hnew), List.map_append, ← ih h.1]
    exact insert_of_not_mem hnew

-- Each value has a key of its own exactly if there are as many keys as values.
theorem length_keys_group_iff {l : List (κ × α)} :
    (group l).keys.length = l.length ↔ (l.map Prod.fst).Nodup := by
  constructor
  · intro h
    have hset : (group l).keys.toFinset = (l.map Prod.fst).toFinset := by
      ext k
      rw [List.mem_toFinset, List.mem_toFinset, mem_keys_group]
    have hcard := congrArg Finset.card hset
    rw [List.toFinset_card_of_nodup (group l).nodup_keys, h, List.card_toFinset] at hcard
    have hlength : (l.map Prod.fst).dedup.length = (l.map Prod.fst).length := by
      rw [← hcard, List.length_map]
    rw [← (List.dedup_sublist _).eq_of_length hlength]
    exact List.nodup_dedup _
  · intro h
    rw [keys, items_group h, List.map_map, List.length_map]

theorem lookup_append (k : κ) (l l' : List (κ × α)) :
    lookup k (l ++ l') = (lookup k l).or (lookup k l') := by
  induction l with
  | nil => rfl
  | cons p l ih =>
    rw [List.cons_append, lookup, lookup]
    split
    · rfl
    · exact ih

section Nested

variable [DecidableEq π]

def cell (d : Dict κ (Dict π α)) (k : κ) (p : π) : Option α := (d.getD k ∅).get? p

def putCell (d : Dict κ (Dict π α)) (e : α × κ × π) : Dict κ (Dict π α) :=
  d.set e.2.1 ((d.getD e.2.1 ∅).set e.2.2 e.1)

theorem cell_putCell (d : Dict κ (Dict π α)) (e : α × κ × π) (k : κ) (p : π) :
    (d.putCell e).cell k p = if e.2 = (k, p) then some e.1 else d.cell k p := by
  obtain ⟨v, k', p'⟩ := e
  by_cases hk : k = k'
  · subst hk
    rw [cell, putCell, getD, get?_set_self, Option.getD_some, get?_set]
    by_cases hp : p = p'
    · rw [if_pos hp, if_pos (by rw [hp])]
    · rw [if_neg hp, if_neg (fun h => hp (Prod.mk.inj h).2.symm)]
      rfl
  · rw [cell, putCell, getD, get?_set_ne _ hk, if_neg (fun h => hk (Prod.mk.inj h).1.symm)]
    rfl

theorem cell_foldl_putCell (es : List (α × κ × π)) (d : Dict κ (Dict π α)) (k : κ) (p : π) :
    (es.foldl putCell d).cell k p =
      (lookup (k, p) (es.reverse.map Prod.swap)).or (d.cell k p) := by
  induction es generalizing d with
  | nil => rfl
  | cons e es ih =>
    rw [List.foldl_cons, ih, List.reverse_cons, List.map_append, lookup_append, cell_putCell]
    cases lookup (k, p) (es.reverse.map Prod.swap) with
    | some v => rfl
    | none =>
      obtain ⟨v, target⟩ := e
      by_cases he : target = (k, p)
      · simp [lookup, he]
      · simp [lookup, he]

end Nested

end Dict

end Collections
