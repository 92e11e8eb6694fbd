import LangGraph.Pregel.Tasks

namespace LangGraph

namespace Graph

open Collections

variable {C Ver : Type} {g : Graph C} {channels : Dict String C} {step : Int}
  {forExecution : Bool} {t : PregelTask}

theorem writes_pushTask {checkpointId : String} {idx : Nat} {v : Value}
    (h : g.pushTask checkpointId step forExecution idx v = some t) : t.writes = [] := by
  cases v with
  | send node arg =>
    simp only [pushTask] at h
    cases hn : g.nodes.get? node with
    | none => simp [hn] at h
    | some proc =>
      simp only [hn] at h
      split at h
      · split at h
        · rw [← Option.some.inj h]
        · rw [← Option.some.inj h]
      · cases h
  | _ => cases h

theorem writes_pullTask {checkpointId name : String} {proc : PregelNode} {input : Value}
    (h : g.pullTask checkpointId step forExecution name proc input = some t) : t.writes = [] := by
  unfold pullTask at h
  split at h
  · split at h
    · rw [← Option.some.inj h]
    · cases h
  · rw [← Option.some.inj h]

theorem path_pushTask {checkpointId : String} {idx : Nat} {v : Value}
    (h : g.pushTask checkpointId step forExecution idx v = some t) :
    t.path = [.str Key.push, .int idx, .bool false] := by
  cases v with
  | send node arg =>
    simp only [pushTask] at h
    cases hn : g.nodes.get? node with
    | none => simp [hn] at h
    | some proc =>
      simp only [hn] at h
      split at h
      · split at h
        · rw [← Option.some.inj h]
        · rw [← Option.some.inj h]
      · cases h
  | _ => cases h

theorem path_pullTask {checkpointId name : String} {proc : PregelNode} {input : Value}
    (h : g.pullTask checkpointId step forExecution name proc input = some t) :
    t.path = [.str Key.pull, .str name] ∧ t.id = g.pullId checkpointId step name proc := by
  unfold pullTask at h
  split at h
  · split at h
    · rw [← Option.some.inj h]
      exact ⟨rfl, rfl⟩
    · cases h
  · rw [← Option.some.inj h]
    exact ⟨rfl, rfl⟩

section Prepare

variable [BaseChannel C] [LinearOrder Ver] [OrderBot Ver] {checkpoint : Checkpoint Ver}

theorem writes_preparePull {name : String} {cache : InputCache}
    (h : (g.preparePull checkpoint channels step forExecution name cache).1 = some t) :
    t.writes = [] := by
  unfold preparePull at h
  split at h
  · split at h
    · split at h
      · cases h
      · exact writes_pullTask h
    · cases h
  · cases h

theorem path_preparePull {name : String} {cache : InputCache}
    (h : (g.preparePull checkpoint channels step forExecution name cache).1 = some t) :
    t.path = [.str Key.pull, .str name] ∧
      ∃ proc, g.nodes.get? name = some proc ∧ t.id = g.pullId checkpoint.id step name proc := by
  unfold preparePull at h
  split at h
  · rename_i proc _ hproc _
    split at h
    · split at h
      · cases h
      · obtain ⟨hpath, hid⟩ := path_pullTask h
        exact ⟨hpath, proc, hproc, hid⟩
    · cases h
  · cases h

theorem mem_preparePulls {names : List String} {cache : InputCache}
    (h : t ∈ g.preparePulls checkpoint channels step forExecution names cache) :
    ∃ name ∈ names, ∃ cache,
      (g.preparePull checkpoint channels step forExecution name cache).1 = some t := by
  induction names generalizing cache with
  | nil => cases h
  | cons name names ih =>
    rcases List.mem_append.mp h with hhead | hrest
    · exact ⟨name, List.mem_cons_self, cache, Option.mem_toList.mp hhead⟩
    · obtain ⟨other, hmem, cache', hother⟩ := ih hrest
      exact ⟨other, List.mem_cons_of_mem name hmem, cache', hother⟩

theorem mem_prepareNextTasks {triggerToNodes : Option (Dict String (List String))}
    {updatedChannels : Option (Finset String)} {id : String}
    (h : (id, t) ∈ (g.prepareNextTasks checkpoint channels step forExecution triggerToNodes
      updatedChannels).items) :
    id = t.id ∧ (t ∈ g.pushTasks checkpoint.id channels step forExecution ∨
      ∃ name ∈ g.candidateNodes checkpoint triggerToNodes updatedChannels, ∃ cache,
        (g.preparePull checkpoint channels step forExecution name cache).1 = some t) := by
  obtain ⟨task, hmem, heq⟩ := List.mem_map.mp (Dict.mem_items_ofList h)
  obtain ⟨hid, rfl⟩ := Prod.mk.inj heq
  refine ⟨hid.symm, ?_⟩
  rcases List.mem_append.mp hmem with hpush | hpull
  · exact Or.inl hpush
  · exact Or.inr (mem_preparePulls hpull)

theorem mem_pushTasks {checkpointId : String}
    (h : t ∈ g.pushTasks checkpointId channels step forExecution) :
    ∃ idx v, (pendingSends channels)[idx]? = some v ∧
      g.pushTask checkpointId step forExecution idx v = some t := by
  obtain ⟨⟨v, idx⟩, hmem, ht⟩ := List.mem_filterMap.mp h
  exact ⟨idx, v, List.mem_zipIdx_iff_getElem?.mp hmem, ht⟩

-- The id of a prepared task is a function of its path.
theorem key_of_path {triggerToNodes : Option (Dict String (List String))}
    {updatedChannels : Option (Finset String)} {id id' : String} {t' : PregelTask}
    (h : (id, t) ∈ (g.prepareNextTasks checkpoint channels step forExecution triggerToNodes
      updatedChannels).items)
    (h' : (id', t') ∈ (g.prepareNextTasks checkpoint channels step forExecution triggerToNodes
      updatedChannels).items) (hpath : t.path = t'.path) : id = id' := by
  obtain ⟨rfl, hpush | ⟨name, -, cache, hpull⟩⟩ := mem_prepareNextTasks h
  · obtain ⟨idx, v, hv, ht⟩ := mem_pushTasks hpush
    obtain ⟨rfl, hpush' | ⟨name', -, cache', hpull'⟩⟩ := mem_prepareNextTasks h'
    · obtain ⟨idx', v', hv', ht'⟩ := mem_pushTasks hpush'
      rw [path_pushTask ht, path_pushTask ht'] at hpath
      have hidx : idx = idx' := by simpa using hpath
      rw [← hidx, hv] at hv'
      rw [← hidx, ← Option.some.inj hv', ht] at ht'
      rw [Option.some.inj ht']
    · rw [path_pushTask ht, (path_preparePull hpull').1] at hpath
      simp at hpath
  · obtain ⟨hname, proc, hproc, hid⟩ := path_preparePull hpull
    obtain ⟨rfl, hpush' | ⟨name', -, cache', hpull'⟩⟩ := mem_prepareNextTasks h'
    · obtain ⟨idx', v', hv', ht'⟩ := mem_pushTasks hpush'
      rw [hname, path_pushTask ht'] at hpath
      simp at hpath
    · obtain ⟨hname', proc', hproc', hid'⟩ := path_preparePull hpull'
      rw [hname, hname'] at hpath
      have heq : name = name' := by simpa using hpath
      rw [← heq, hproc] at hproc'
      rw [hid, hid', ← heq, Option.some.inj hproc']

theorem writes_prepareNextTasks {triggerToNodes : Option (Dict String (List String))}
    {updatedChannels : Option (Finset String)}
    (h : t ∈ (g.prepareNextTasks checkpoint channels step forExecution triggerToNodes
      updatedChannels).values) : t.writes = [] := by
  obtain ⟨⟨id, task⟩, hitem, rfl⟩ := List.mem_map.mp h
  obtain ⟨-, hpush | ⟨name, -, cache, hpull⟩⟩ := mem_prepareNextTasks hitem
  · obtain ⟨p, -, hp⟩ := List.mem_filterMap.mp hpush
    exact writes_pushTask hp
  · exact writes_preparePull hpull

end Prepare

end Graph

end LangGraph
