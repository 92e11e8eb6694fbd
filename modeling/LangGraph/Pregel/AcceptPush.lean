import LangGraph.Pregel.Prepared
import LangGraph.Pregel.Runner
import LangGraph.Pregel.Superstep
import LangGraph.Pregel.TaskPath
import LangGraph.Transition.Run

namespace LangGraph

open Collections Transition

structure Call where
  name : String
  input : Value
  identifier : Option String
  cachePolicy : Option (Value → String)

def callPath (parent : List PathPart) (writeIdx : Nat) : List PathPart :=
  [.str Key.push, .tuple parent, .int writeIdx, .bool true]

def Call.cacheKey (call : Call) : Option CacheKey :=
  call.cachePolicy.map (fun keyFunc =>
    ⟨["__pregel_ns_writes", call.identifier.getD "__dynamic__"], keyFunc call.input⟩)

def Graph.callTask {C : Type} (g : Graph C) (checkpointId : String) (step : Int)
    (parent : List PathPart) (writeIdx : Nat) (call : Call) : PregelTask where
  id := g.taskId [checkpointId, g.checkpointNs call.name, toString step, call.name, Key.push,
    taskPathStr (.tuple parent), toString writeIdx]
  name := call.name
  path := callPath parent writeIdx
  input := some call.input
  triggers := [Key.push]
  cacheKey := call.cacheKey
  writes := []

structure Scratchpad where
  path : List PathPart
  callCounter : Nat

-- The scratchpads are those of all tasks prepared so far, in the order of their preparation.
structure Superstep (C Ver : Type) where
  loop : PregelLoop C Ver
  scratchpads : List Scratchpad

inductive SuperstepEvent where
  | call (caller : Nat) (call : Call)
  | taskWrites (taskId : String) (writes : List Write)
  | matchCachedWrites

section Step

variable {C Ver : Type}

namespace PregelLoop

def acceptPush (g : Graph C) (parent : List PathPart) (writeIdx : Nat) (call : Call)
    (l : PregelLoop C Ver) : PregelLoop C Ver :=
  let task := g.callTask l.checkpoint.id l.step parent writeIdx call
  let pushed := if l.isReplaying then task else reapplied l.checkpointPendingWrites task
  { l with tasks := l.tasks.map (fun ts => ts.set pushed.id pushed) }

end PregelLoop

def Scratchpad.count (p : Scratchpad) : Scratchpad := { p with callCounter := p.callCounter + 1 }

namespace Superstep

def prepared (l : PregelLoop C Ver) (tasks : Dict String PregelTask) : Superstep C Ver :=
  ⟨{ l with tasks := some tasks }, tasks.values.map (fun t => ⟨t.path, 0⟩)⟩

def step (g : Graph C) (s : Superstep C Ver) : SuperstepEvent → Superstep C Ver
  | .call caller call =>
      match s.scratchpads[caller]? with
      | none => s
      | some p =>
          ⟨s.loop.acceptPush g p.path p.callCounter call,
            s.scratchpads.modify caller Scratchpad.count ++ [⟨callPath p.path p.callCounter, 0⟩]⟩
  | .taskWrites taskId writes => { s with loop := s.loop.setTaskWrites taskId writes }
  | .matchCachedWrites => { s with loop := s.loop.matchCachedWrites }

def tasks (s : Superstep C Ver) : Dict String PregelTask := s.loop.tasks.getD ∅

def taskWrites (s : Superstep C Ver) : List PregelTaskWrites :=
  s.tasks.values.map PregelTask.taskWrites

structure Invariant (s : Superstep C Ver) : Prop where
  wellFormed : ∀ p ∈ s.scratchpads, TaskPath p.path
  distinct : (s.scratchpads.map Scratchpad.path).Nodup
  counted : ∀ p ∈ s.scratchpads, ∀ parent idx, p.path = callPath parent idx →
    ∃ q ∈ s.scratchpads, q.path = parent ∧ idx < q.callCounter
  known : ∀ k t, s.tasks.get? k = some t → ∃ p ∈ s.scratchpads, p.path = t.path
  separate : ∀ k k' t t', s.tasks.get? k = some t → s.tasks.get? k' = some t' →
    t.path = t'.path → k = k'

end Superstep

theorem callPath_inj {p q : List PathPart} {i j : Nat} (h : callPath p i = callPath q j) :
    p = q ∧ i = j := by
  simpa [callPath] using h

theorem Scratchpad.map_path_modify (ps : List Scratchpad) (i : Nat) :
    (ps.modify i count).map path = ps.map path := by
  induction ps generalizing i with
  | nil => cases i <;> rfl
  | cons p ps ih =>
    cases i with
    | zero => rfl
    | succ i => exact congrArg (p.path :: ·) (ih i)

theorem Scratchpad.modify_ge {ps : List Scratchpad} {p : Scratchpad} (h : p ∈ ps) (i : Nat) :
    ∃ q ∈ ps.modify i count, q.path = p.path ∧ p.callCounter ≤ q.callCounter := by
  induction ps generalizing i with
  | nil => cases h
  | cons r ps ih =>
    cases i with
    | zero =>
      rcases List.mem_cons.mp h with rfl | h
      · exact ⟨p.count, List.mem_cons_self, rfl, Nat.le_succ _⟩
      · exact ⟨p, List.mem_cons_of_mem _ h, rfl, le_rfl⟩
    | succ i =>
      rcases List.mem_cons.mp h with rfl | h
      · exact ⟨p, List.mem_cons_self, rfl, le_rfl⟩
      · obtain ⟨q, hq, hpath, hle⟩ := ih h i
        exact ⟨q, List.mem_cons_of_mem _ hq, hpath, hle⟩

theorem Scratchpad.count_mem_modify {ps : List Scratchpad} {p : Scratchpad} {i : Nat}
    (h : ps[i]? = some p) : p.count ∈ ps.modify i count := by
  induction ps generalizing i with
  | nil => cases h
  | cons r ps ih =>
    cases i with
    | zero =>
      cases h
      exact List.mem_cons_self
    | succ i => exact List.mem_cons_of_mem _ (ih h)

namespace Superstep

variable {g : Graph C} {s : Superstep C Ver}

theorem Invariant.fresh (h : s.Invariant) {p q : Scratchpad} (hp : p ∈ s.scratchpads)
    (hq : q ∈ s.scratchpads) : q.path ≠ callPath p.path p.callCounter := by
  intro heq
  obtain ⟨r, hr, hpath, hlt⟩ := h.counted q hq _ _ heq
  have hrp : r = p := List.inj_on_of_nodup_map h.distinct hr hp hpath
  rw [hrp] at hlt
  exact absurd hlt (lt_irrefl _)

theorem tasks_acceptPush (g : Graph C) (parent : List PathPart) (i : Nat) (call : Call)
    (l : PregelLoop C Ver) :
    ∃ pushed : PregelTask, pushed.path = callPath parent i ∧
      pushed.id = (g.callTask l.checkpoint.id l.step parent i call).id ∧
      (l.acceptPush g parent i call).tasks = l.tasks.map (fun ts => ts.set pushed.id pushed) := by
  cases hr : l.isReplaying with
  | true =>
    exact ⟨g.callTask l.checkpoint.id l.step parent i call, rfl, rfl, by
      simp [PregelLoop.acceptPush, hr]⟩
  | false =>
    exact ⟨PregelLoop.reapplied l.checkpointPendingWrites
      (g.callTask l.checkpoint.id l.step parent i call), rfl, rfl, by
      simp [PregelLoop.acceptPush, hr]⟩

theorem get?_acceptPush {parent : List PathPart} {i : Nat} {call : Call} {l : PregelLoop C Ver}
    {k : String} {t : PregelTask}
    (h : ((l.acceptPush g parent i call).tasks.getD ∅).get? k = some t) :
    (l.tasks.getD ∅).get? k = some t ∨
      t.path = callPath parent i ∧ k = (g.callTask l.checkpoint.id l.step parent i call).id := by
  obtain ⟨pushed, hpath, hid, htasks⟩ := tasks_acceptPush g parent i call l
  rw [htasks] at h
  cases ht : l.tasks with
  | none => simp [ht] at h
  | some ts =>
    simp only [ht, Option.map_some, Option.getD_some, Dict.get?_set] at h
    split at h
    · rename_i hk
      cases h
      exact Or.inr ⟨hpath, hk.trans hid⟩
    · exact Or.inl h

-- What the writes of a task are does not change which tasks there are.
theorem Invariant.of_paths (h : s.Invariant) {l : PregelLoop C Ver}
    (hl : ∀ k t, (l.tasks.getD ∅).get? k = some t →
      ∃ t₀, s.tasks.get? k = some t₀ ∧ t₀.path = t.path) :
    Invariant { s with loop := l } where
  wellFormed := h.wellFormed
  distinct := h.distinct
  counted := h.counted
  known k t hk := by
    obtain ⟨t₀, hk₀, hpath⟩ := hl k t hk
    rw [← hpath]
    exact h.known k t₀ hk₀
  separate k k' t t' hk hk' hpath := by
    obtain ⟨t₀, hk₀, hpath₀⟩ := hl k t hk
    obtain ⟨t₁, hk₁, hpath₁⟩ := hl k' t' hk'
    exact h.separate k k' t₀ t₁ hk₀ hk₁ (hpath₀.trans (hpath.trans hpath₁.symm))

theorem paths_setTaskWrites {l : PregelLoop C Ver} {taskId k : String} {writes : List Write}
    {t : PregelTask} (h : ((l.setTaskWrites taskId writes).tasks.getD ∅).get? k = some t) :
    ∃ t₀, (l.tasks.getD ∅).get? k = some t₀ ∧ t₀.path = t.path := by
  cases ht : l.tasks with
  | none => simp [PregelLoop.setTaskWrites, ht] at h
  | some ts =>
    simp only [PregelLoop.setTaskWrites, ht, Option.map_some, Option.getD_some] at h ⊢
    cases hid : ts.get? taskId with
    | none =>
      rw [hid] at h
      exact ⟨t, h, rfl⟩
    | some t₀ =>
      simp only [hid, Dict.get?_set] at h
      split at h
      · rename_i hk
        cases h
        exact ⟨t₀, hk ▸ hid, rfl⟩
      · exact ⟨t, h, rfl⟩

theorem paths_matchCachedWrites {l : PregelLoop C Ver} {k : String} {t : PregelTask}
    (h : ((l.matchCachedWrites).tasks.getD ∅).get? k = some t) :
    ∃ t₀, (l.tasks.getD ∅).get? k = some t₀ ∧ t₀.path = t.path := by
  cases hc : l.cache with
  | none => exact ⟨t, by simpa [PregelLoop.matchCachedWrites, hc] using h, rfl⟩
  | some cache =>
    cases ht : l.tasks with
    | none => simp [PregelLoop.matchCachedWrites, hc, ht] at h
    | some ts =>
      simp only [PregelLoop.matchCachedWrites, hc, ht, Option.getD_some, Dict.get?_mapValues] at h ⊢
      obtain ⟨t₀, hk, rfl⟩ := Option.map_eq_some_iff.mp h
      exact ⟨t₀, hk, rfl⟩

theorem Invariant.call (h : s.Invariant) {p : Scratchpad} {i : Nat}
    (hp : s.scratchpads[i]? = some p) (call : Call) :
    Invariant ⟨s.loop.acceptPush g p.path p.callCounter call,
      s.scratchpads.modify i Scratchpad.count ++ [⟨callPath p.path p.callCounter, 0⟩]⟩ := by
  have hmem : p ∈ s.scratchpads := List.mem_of_getElem? hp
  have hold (q : Scratchpad) (hq : q ∈ s.scratchpads.modify i Scratchpad.count) :
      ∃ r ∈ s.scratchpads, r.path = q.path := by
    have hpath : q.path ∈ (s.scratchpads.modify i Scratchpad.count).map Scratchpad.path :=
      List.mem_map_of_mem hq
    rw [Scratchpad.map_path_modify] at hpath
    exact List.mem_map.mp hpath
  have hgrown (q : Scratchpad) (hq : q ∈ s.scratchpads) :
      ∃ r ∈ s.scratchpads.modify i Scratchpad.count ++ [⟨callPath p.path p.callCounter, 0⟩],
        r.path = q.path ∧ q.callCounter ≤ r.callCounter := by
    obtain ⟨r, hr, hle⟩ := Scratchpad.modify_ge hq i
    exact ⟨r, List.mem_append_left _ hr, hle⟩
  constructor
  · intro q hq
    rcases List.mem_append.mp hq with hq | hq
    · obtain ⟨r, hr, hpath⟩ := hold q hq
      exact hpath ▸ h.wellFormed r hr
    · rw [List.mem_singleton.mp hq]
      exact TaskPath.call (h.wellFormed p hmem) p.callCounter
  · rw [List.map_append, Scratchpad.map_path_modify, List.map_singleton]
    refine List.nodup_append.mpr ⟨h.distinct, List.nodup_singleton _, ?_⟩
    intro path hpath path' hpath' heq
    obtain ⟨q, hq, rfl⟩ := List.mem_map.mp hpath
    exact h.fresh hmem hq (heq.trans (List.mem_singleton.mp hpath'))
  · intro q hq parent idx hpath
    rcases List.mem_append.mp hq with hq | hq
    · obtain ⟨r, hr, hrq⟩ := hold q hq
      obtain ⟨u, hu, hparent, hlt⟩ := h.counted r hr parent idx (hrq.trans hpath)
      obtain ⟨v, hv, hvu, hle⟩ := hgrown u hu
      exact ⟨v, hv, hvu.trans hparent, hlt.trans_le hle⟩
    · rw [List.mem_singleton.mp hq] at hpath
      obtain ⟨rfl, rfl⟩ := callPath_inj hpath
      exact ⟨p.count, List.mem_append_left _ (Scratchpad.count_mem_modify hp), rfl,
        Nat.lt_succ_self _⟩
  · intro k t hk
    rcases get?_acceptPush hk with hk | ⟨hpath, -⟩
    · obtain ⟨q, hq, hqt⟩ := h.known k t hk
      obtain ⟨r, hr, hrq, -⟩ := hgrown q hq
      exact ⟨r, hr, hrq.trans hqt⟩
    · exact ⟨_, List.mem_append_right _ (List.mem_singleton_self _), hpath.symm⟩
  · intro k k' t t' hk hk' hpath
    rcases get?_acceptPush hk with hk | ⟨hnew, hid⟩
    · rcases get?_acceptPush hk' with hk' | ⟨hnew', -⟩
      · exact h.separate k k' t t' hk hk' hpath
      · obtain ⟨q, hq, hqt⟩ := h.known k t hk
        exact absurd (hqt.trans (hpath.trans hnew')) (h.fresh hmem hq)
    · rcases get?_acceptPush hk' with hk' | ⟨-, hid'⟩
      · obtain ⟨q, hq, hqt⟩ := h.known k' t' hk'
        exact absurd (hqt.trans (hpath.symm.trans hnew)) (h.fresh hmem hq)
      · exact hid.trans hid'.symm

theorem Invariant.step (h : s.Invariant) (e : SuperstepEvent) : (s.step g e).Invariant := by
  cases e with
  | call caller call =>
    simp only [Superstep.step]
    cases hp : s.scratchpads[caller]? with
    | none => exact h
    | some p => exact h.call hp call
  | taskWrites taskId writes => exact h.of_paths (fun _ _ hk => paths_setTaskWrites hk)
  | matchCachedWrites => exact h.of_paths (fun _ _ hk => paths_matchCachedWrites hk)

end Superstep

end Step

end LangGraph
