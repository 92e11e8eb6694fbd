import LangGraph.Collections.Dict

namespace Collections

namespace Dict

variable {κ α β γ : Type}

def mapKeyed (f : κ → α → β) (d : Dict κ α) : Dict κ β :=
  ⟨d.items.map (fun p => (p.1, f p.1 p.2)), by
    simpa only [List.map_map, Function.comp_def] using d.nodup⟩

theorem mapKeyed_mapKeyed (f : κ → α → β) (g : κ → β → γ) (d : Dict κ α) :
    (d.mapKeyed f).mapKeyed g = d.mapKeyed (fun k v => g k (f k v)) :=
  ext_items List.map_map

variable [DecidableEq κ]

theorem get?_mapKeyed (f : κ → α → β) (d : Dict κ α) (k : κ) :
    (d.mapKeyed f).get? k = (d.get? k).map (f k) := by
  have hlookup (l : List (κ × α)) :
      lookup k (l.map (fun p => (p.1, f p.1 p.2))) = (lookup k l).map (f k) := by
    induction l with
    | nil => rfl
    | cons p l ih =>
      rw [List.map_cons, lookup, lookup]
      split
      · rename_i hkey
        rw [hkey, Option.map_some]
      · exact ih
  exact hlookup d.items

theorem mapKeyed_set (f : κ → α → β) (d : Dict κ α) (k : κ) (v : α) :
    (d.set k v).mapKeyed f = (d.mapKeyed f).set k (f k v) := by
  have hinsert (l : List (κ × α)) : (insert k v l).map (fun p => (p.1, f p.1 p.2)) =
      insert k (f k v) (l.map (fun p => (p.1, f p.1 p.2))) := by
    induction l with
    | nil => rfl
    | cons p l ih =>
      rw [insert, List.map_cons, insert]
      split
      · rfl
      · rw [List.map_cons, ih]
  exact ext_items (hinsert d.items)

theorem mapKeyed_eq_iff {f g : κ → α → β} {d : Dict κ α} :
    d.mapKeyed f = d.mapKeyed g ↔ ∀ k v, d.get? k = some v → f k v = g k v := by
  constructor
  · intro h k v hv
    have hget := congrArg (fun e => e.get? k) h
    rw [get?_mapKeyed, get?_mapKeyed, hv] at hget
    exact Option.some.inj hget
  · intro h
    refine ext_items (List.map_congr_left (fun p hp => ?_))
    rw [h p.1 p.2 (get?_eq_some.mpr hp)]

end Dict

end Collections
