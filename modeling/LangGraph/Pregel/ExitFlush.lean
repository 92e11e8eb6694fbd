import LangGraph.Pregel.PendingWrites
import LangGraph.Pregel.Superstep

namespace LangGraph

open Collections

namespace PregelLoop

variable {C Ver : Type}

theorem mem_exitGroups {ws : List ExitDeltaWrite} {e : (Int × String) × List Write}
    (he : e ∈ (exitGroups ws).items) :
    (∃ x ∈ ws, e.1 = (x.step, x.taskId)) ∧ ∀ w ∈ e.2, ∃ x ∈ ws, w = (x.channel, x.value) := by
  have aux (l : List ExitDeltaWrite) (d : Dict (Int × String) (List Write))
      (hd : ∀ f ∈ d.items, (∃ x ∈ ws, f.1 = (x.step, x.taskId)) ∧
        ∀ w ∈ f.2, ∃ x ∈ ws, w = (x.channel, x.value)) (hl : ∀ x ∈ l, x ∈ ws) :
      ∀ f ∈ (l.foldl (fun d w => d.set (w.step, w.taskId)
        (d.getD (w.step, w.taskId) [] ++ [(w.channel, w.value)])) d).items,
        (∃ x ∈ ws, f.1 = (x.step, x.taskId)) ∧ ∀ w ∈ f.2, ∃ x ∈ ws, w = (x.channel, x.value) := by
    induction l generalizing d with
    | nil => exact hd
    | cons x l ih =>
      have hx : x ∈ ws := hl x List.mem_cons_self
      refine ih _ (fun f hf => ?_) (fun y hy => hl y (List.mem_cons_of_mem x hy))
      rcases Dict.mem_insert hf with rfl | hf
      · refine ⟨⟨x, hx, rfl⟩, fun w hw => ?_⟩
        rcases List.mem_append.mp hw with hold | hnew
        · cases hg : d.get? (x.step, x.taskId) with
          | none => simp [Dict.getD, hg] at hold
          | some ws' =>
            rw [Dict.getD, hg, Option.getD_some] at hold
            exact (hd _ (Dict.get?_eq_some.mp hg)).2 w hold
        · exact ⟨x, hx, List.mem_singleton.mp hnew⟩
      · exact hd f hf
  exact aux ws ∅ (fun f hf => by cases hf) (fun x hx => hx) e he

variable [BaseChannel C]

def ExitRow (l : PregelLoop C Ver) (c : SaverCall Ver) : Prop :=
  (∃ parent id metadata versions, c = .put parent (emptyCheckpoint id) metadata versions) ∨
    ∃ anchor writes step taskId, c = .putWrites anchor writes (exitDeltaTaskId step taskId) "" ∧
      (∃ x ∈ l.exitDeltaWrites.getD [], (step, taskId) = (x.step, x.taskId)) ∧
      ∀ w ∈ writes, ∃ x ∈ l.exitDeltaWrites.getD [], w = (x.channel, x.value)

theorem putExitDeltaWrites_spec (l : PregelLoop C Ver) :
    ∃ calls configId, l.putExitDeltaWrites =
      { l with submitted := l.submitted ++ calls, checkpointConfigId := configId } ∧
      ∀ c ∈ calls, l.ExitRow c := by
  have hrows (anchor : String) (snapshot : Finset String) : ∀ c ∈ (exitGroups
      ((l.exitDeltaWrites.getD []).filter (fun w => w.channel ∉ snapshot))).items.map (fun e =>
        (.putWrites anchor e.2 (exitDeltaTaskId e.1.1 e.1.2) "" : SaverCall Ver)),
      l.ExitRow c := by
    intro c hc
    obtain ⟨e, he, rfl⟩ := List.mem_map.mp hc
    obtain ⟨⟨x, hx, heq⟩, hw⟩ := mem_exitGroups he
    refine Or.inr ⟨anchor, e.2, e.1.1, e.1.2, rfl, ⟨x, (List.mem_filter.mp hx).1, heq⟩, ?_⟩
    intro w hmem
    obtain ⟨y, hy, hwy⟩ := hw w hmem
    exact ⟨y, (List.mem_filter.mp hy).1, hwy⟩
  unfold putExitDeltaWrites
  simp only
  split
  · exact ⟨[], l.checkpointConfigId, by rw [List.append_nil], fun c hc => by cases hc⟩
  · split
    · exact ⟨_, l.checkpointConfigId, rfl, hrows _ _⟩
    · refine ⟨_, _, by rw [List.append_assoc], fun c hc => ?_⟩
      rcases List.mem_append.mp hc with hc | hc
      · rw [List.mem_singleton.mp hc]
        exact Or.inl ⟨_, _, _, _, rfl⟩
      · exact hrows _ _ c hc

end PregelLoop

end LangGraph
