import LangGraph.Collections.Dict
import Mathlib.Order.BoundedOrder.Basic
import Mathlib.Order.MinMax

namespace Collections

namespace Dict

variable {κ α : Type} [DecidableEq κ]

def erase (d : Dict κ α) (k : κ) : Dict κ α := d.filter (fun k' _ => k' ≠ k)

def modify (d : Dict κ α) (k : κ) (f : α → α) : Dict κ α :=
  match d.get? k with
  | some v => d.set k (f v)
  | none => d

def putMax [Max α] (d : Dict κ α) (k : κ) (v : α) : Dict κ α :=
  d.set k (match d.get? k with
    | some w => max w v
    | none => v)

variable {d : Dict κ α} {k k' : κ}

@[simp] theorem get?_erase_self : (d.erase k).get? k = none := by
  simp [erase, get?_filter]

theorem get?_erase_ne (h : k' ≠ k) : (d.erase k).get? k' = d.get? k' := by
  rw [erase, get?_filter]
  cases d.get? k' with
  | none => rfl
  | some v => simp [Option.filter, h]

theorem keys_erase : (d.erase k).keys = d.keys.filter (· ≠ k) := by
  unfold erase keys Dict.filter
  rw [List.filter_map]
  rfl

theorem get?_modify (f : α → α) :
    (d.modify k f).get? k' = if k' = k then (d.get? k).map f else d.get? k' := by
  cases h : d.get? k with
  | none =>
    simp only [modify, h]
    split
    · rename_i he
      rw [he, h]
      rfl
    · rfl
  | some v =>
    simp only [modify, h]
    exact get?_set d k k' (f v)

theorem getD_putMax {W : Type} [LinearOrder W] [OrderBot W] {d : Dict κ W} {v : W} :
    (d.putMax k v).getD k' ⊥ = if k' = k then max (d.getD k ⊥) v else d.getD k' ⊥ := by
  unfold putMax getD
  rw [get?_set]
  split
  · cases d.get? k with
    | none => exact (max_eq_right bot_le).symm
    | some w => rfl
  · rfl

end Dict

section FoldMax

variable {W : Type} [LinearOrder W] {a x : W} {l : List W}

theorem lt_foldl_max : x < l.foldl max a ↔ ∃ y ∈ a :: l, x < y := by
  induction l generalizing a with
  | nil => simp
  | cons b l ih =>
    rw [List.foldl_cons, ih]
    simp [or_assoc]

theorem foldl_max_lt : l.foldl max a < x ↔ ∀ y ∈ a :: l, y < x := by
  induction l generalizing a with
  | nil => simp
  | cons b l ih =>
    rw [List.foldl_cons, ih]
    simp [and_assoc]

end FoldMax

theorem foldl_or {α β : Type} (f : β → Option α) (l : List β) (k : β) :
    (l.map f).foldl Option.or (f k) = (k :: l).findSome? f := by
  have aux (a : Option α) : (l.map f).foldl Option.or a = a.or (l.findSome? f) := by
    induction l generalizing a with
    | nil => simp
    | cons b l ih =>
      rw [List.map_cons, List.foldl_cons, ih, List.findSome?_cons, Option.or_assoc]
      cases f b <;> rfl
  rw [aux, List.findSome?_cons]
  cases f k <;> rfl

section Moves

variable {σ κ W : Type}

-- Keys of a state that give way, one after another, each to a list of other keys.
inductive Moves (step : κ → List κ → σ → σ → Prop) : List (κ × List κ) → σ → σ → Prop
  | nil (s : σ) : Moves step [] s s
  | cons {k : κ} {ds : List κ} {moves : List (κ × List κ)} {s t u : σ} :
      step k ds s t → Moves step moves t u → Moves step ((k, ds) :: moves) s u

variable {step : κ → List κ → σ → σ → Prop} {moves others : List (κ × List κ)} {s t u : σ}

theorem Moves.append (h : Moves step moves s t) (h' : Moves step others t u) :
    Moves step (moves ++ others) s u := by
  induction h with
  | nil => exact h'
  | cons hstep _ ih => exact .cons hstep (ih h')

structure Apart (moves : List (κ × List κ)) : Prop where
  nodup : (moves.map Prod.fst).Nodup
  apart : ∀ m ∈ moves, ∀ d ∈ m.2, d ∉ moves.map Prod.fst

theorem Apart.tail {m : κ × List κ} (h : Apart (m :: moves)) : Apart moves := by
  obtain ⟨hnodup, hapart⟩ := h
  refine ⟨(List.nodup_cons.mp hnodup).2, ?_⟩
  intro m' hm d hd hmem
  exact hapart m' (List.mem_cons_of_mem _ hm) d hd (List.mem_cons_of_mem _ hmem)

variable [DecidableEq κ]

def sources (dest : List κ → List κ) (moves : List (κ × List κ)) (d : κ) : List κ :=
  (moves.filter (fun m => d ∈ dest m.2)).map Prod.fst

theorem mem_sources {dest : List κ → List κ} {k d : κ} :
    k ∈ sources dest moves d ↔ ∃ ds, (k, ds) ∈ moves ∧ d ∈ dest ds := by
  simp [sources]

variable {dest : List κ → List κ} {π : σ → κ → W} {op : W → W → W}

theorem Moves.gather (dest : List κ → List κ) (π : σ → κ → W) (hdest : ∀ ds, dest ds ⊆ ds)
    (hstep : ∀ k ds s t, step k ds s t → ∀ d, d ≠ k →
      π t d = if d ∈ dest ds then op (π s d) (π s k) else π s d)
    (h : Moves step moves s u) (ha : Apart moves) {d : κ} (hd : d ∉ moves.map Prod.fst) :
    π u d = ((sources dest moves d).map (π s)).foldl op (π s d) := by
  induction h with
  | nil => rfl
  | @cons k ds moves s t u hkt _ ih =>
    obtain ⟨hdk, hd⟩ := not_or.mp (mt List.mem_cons.mpr hd)
    have hsame : (sources dest moves d).map (π t) = (sources dest moves d).map (π s) := by
      refine List.map_congr_left ?_
      intro k' hk'
      obtain ⟨ds', hmem, -⟩ := mem_sources.mp hk'
      have hkey : k' ∈ moves.map Prod.fst := List.mem_map.mpr ⟨_, hmem, rfl⟩
      have hne : k' ≠ k := by
        rintro rfl
        exact (List.nodup_cons.mp ha.nodup).1 hkey
      have hnot : k' ∉ dest ds := fun hin =>
        ha.apart (k, ds) (List.mem_cons_self ..) k' (hdest ds hin) (List.mem_cons_of_mem _ hkey)
      rw [hstep k ds s t hkt k' hne, if_neg hnot]
    rw [ih ha.tail hd, hsame, hstep k ds s t hkt d hdk]
    by_cases hin : d ∈ dest ds
    · have hsources : sources dest ((k, ds) :: moves) d = k :: sources dest moves d := by
        simp [sources, hin]
      rw [if_pos hin, hsources]
      rfl
    · have hsources : sources dest ((k, ds) :: moves) d = sources dest moves d := by
        simp [sources, hin]
      rw [if_neg hin, hsources]

theorem Moves.gather_lt [LinearOrder W] (dest dest' : List κ → List κ) (π π' : σ → κ → W)
    (hdest : ∀ ds, dest ds ⊆ ds) (hdest' : ∀ ds, dest' ds ⊆ ds)
    (hstep : ∀ k ds s t, step k ds s t → ∀ d, d ≠ k →
      π t d = if d ∈ dest ds then max (π s d) (π s k) else π s d)
    (hstep' : ∀ k ds s t, step k ds s t → ∀ d, d ≠ k →
      π' t d = if d ∈ dest' ds then max (π' s d) (π' s k) else π' s d)
    (h : Moves step moves s u) (ha : Apart moves) {d : κ} (hd : d ∉ moves.map Prod.fst) :
    π' u d < π u d ↔
      ∃ k ∈ d :: sources dest moves d, ∀ j ∈ d :: sources dest' moves d, π' s j < π s k := by
  rw [h.gather dest π hdest hstep ha hd, h.gather dest' π' hdest' hstep' ha hd, lt_foldl_max, ← List.map_cons]
  simp only [foldl_max_lt, ← List.map_cons, List.forall_mem_map]
  constructor
  · rintro ⟨y, hy, hall⟩
    obtain ⟨k, hk, rfl⟩ := List.mem_map.mp hy
    exact ⟨k, hk, hall⟩
  · rintro ⟨k, hk, hall⟩
    exact ⟨π s k, List.mem_map.mpr ⟨k, hk, rfl⟩, hall⟩

theorem Moves.gone (dest : List κ → List κ) (π : σ → κ → W) (hdest : ∀ ds, dest ds ⊆ ds)
    (hstep : ∀ k ds s t, step k ds s t → ∀ d, d ≠ k →
      π t d = if d ∈ dest ds then op (π s d) (π s k) else π s d) {e : W}
    (hgone : ∀ k ds s t, step k ds s t → π t k = e)
    (h : Moves step moves s u) (ha : Apart moves) {k : κ} (hk : k ∈ moves.map Prod.fst) :
    π u k = e := by
  induction h with
  | nil => cases hk
  | @cons k' ds moves s t u hkt hrest ih =>
    obtain hk | hk := List.mem_cons.mp hk
    · have hnot : k ∉ moves.map Prod.fst := by
        rw [hk]
        exact (List.nodup_cons.mp ha.nodup).1
      have hnil : sources dest moves k = [] := by
        refine List.eq_nil_iff_forall_not_mem.mpr ?_
        intro j hj
        obtain ⟨ds', hmem, hin⟩ := mem_sources.mp hj
        refine ha.apart (j, ds') (List.mem_cons_of_mem _ hmem) k (hdest ds' hin) ?_
        rw [hk]
        exact List.mem_cons_self ..
      rw [hrest.gather dest π hdest hstep ha.tail hnot, hnil, hk]
      exact hgone k' ds s t hkt
    · exact ih ha.tail hk

end Moves

end Collections
