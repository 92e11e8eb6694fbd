import LangGraph.Stream.Subgraphs
import LangGraph.Transition.Run

namespace LangGraph

open Transition

namespace Stream

namespace LifecycleTransformer

variable {l : LifecycleTransformer} {ns : Namespace} {taskId : String}

def emitted (ns : Namespace) (l : LifecycleTransformer) : List LifecyclePayload :=
  l.channel.filter (fun p => p.ns = ns)

def openedAt (ns : Namespace) (l : LifecycleTransformer) : List (Namespace × String) :=
  l.opened.filter (fun o => o.1 = ns)

inductive Phase where
  | unseen
  | opened
  | ended (outcome : Outcome)

def Phase.step (ns : Namespace) (taskId : String) (phase : Phase) (event : TaskEvent) : Phase :=
  match phase, event.data with
  | .unseen, .start _ => if event.ns = ns then .opened else .unseen
  | .opened, .result data =>
      if closedBy event.ns data.id (ns, taskId) then .ended (terminalFromResult data) else .opened
  | phase, _ => phase

def Phase.endRun (ending : Ending) : Phase → Phase
  | .opened => .ended ending.outcome
  | phase => phase

inductive InPhase (l : LifecycleTransformer) (ns : Namespace) (taskId : String) : Phase → Prop where
  | unseen (seen : ns ∉ l.seen) (opened : l.openedAt ns = []) (emitted : l.emitted ns = []) :
      InPhase l ns taskId .unseen
  | opened (p : LifecyclePayload) (started : p.event = .started) (seen : ns ∈ l.seen)
      (opened : l.openedAt ns = [(ns, taskId)]) (emitted : l.emitted ns = [p]) :
      InPhase l ns taskId .opened
  | ended (p : LifecyclePayload) (outcome : Outcome) (started : p.event = .started)
      (terminal : outcome.1 ≠ .started) (seen : ns ∈ l.seen) (opened : l.openedAt ns = [])
      (emitted : l.emitted ns = [p, terminalPayload outcome ns]) :
      InPhase l ns taskId (.ended outcome)

theorem inPhase_init (scope ns : Namespace) (taskId : String) :
    InPhase (init scope) ns taskId .unseen :=
  .unseen List.not_mem_nil rfl rfl

-- A phase depends on what the transformer holds of the namespace alone.
theorem InPhase.congr {l' : LifecycleTransformer} {phase : Phase} (h : InPhase l ns taskId phase)
    (hseen : ns ∈ l'.seen ↔ ns ∈ l.seen) (hopened : l'.openedAt ns = l.openedAt ns)
    (hemitted : l'.emitted ns = l.emitted ns) : InPhase l' ns taskId phase := by
  cases h with
  | unseen seen opened emitted =>
    exact .unseen (mt hseen.mp seen) (hopened.trans opened) (hemitted.trans emitted)
  | opened p started seen opened emitted =>
    exact .opened p started (hseen.mpr seen) (hopened.trans opened) (hemitted.trans emitted)
  | ended p outcome started terminal seen opened emitted =>
    exact .ended p outcome started terminal (hseen.mpr seen) (hopened.trans opened)
      (hemitted.trans emitted)

theorem terminalFromResult_ne (data : TaskResult) : (terminalFromResult data).1 ≠ .started := by
  simp only [terminalFromResult]
  split
  · simp
  · split <;> simp

theorem endingOutcome_ne (ending : Ending) : ending.outcome.1 ≠ .started := by
  cases ending with
  | finalize => simp [Ending.outcome]
  | fail err => cases err <;> simp [Ending.outcome, statusFromException]

theorem frame_recordPendingToolCalls (data : TaskStart) (l : LifecycleTransformer) :
    (l.recordPendingToolCalls data).scope = l.scope ∧
      (l.recordPendingToolCalls data).seen = l.seen ∧
      (l.recordPendingToolCalls data).opened = l.opened ∧
      (l.recordPendingToolCalls data).channel = l.channel := by
  simp only [recordPendingToolCalls]
  split <;> exact ⟨rfl, rfl, rfl, rfl⟩

theorem InPhase.recordPendingToolCalls {phase : Phase} (h : InPhase l ns taskId phase)
    (data : TaskStart) : InPhase (l.recordPendingToolCalls data) ns taskId phase := by
  obtain ⟨-, hseen, hopened, hchannel⟩ := frame_recordPendingToolCalls data l
  refine h.congr (by rw [hseen]) ?_ ?_
  · simp only [openedAt, hopened]
  · simp only [emitted, hchannel]

theorem handleTaskStart_seen {data : TaskStart} (h : ns ∈ l.seen) :
    l.handleTaskStart ns data = l := by
  simp [handleTaskStart, h]

theorem InPhase.handleTaskStart_other {phase : Phase} (h : InPhase l ns taskId phase)
    {ns' : Namespace} (hne : ns' ≠ ns) (data : TaskStart) :
    InPhase (l.handleTaskStart ns' data) ns taskId phase := by
  simp only [LifecycleTransformer.handleTaskStart]
  split
  · exact h
  · have hmem : ns ∈ l.seen ++ [ns'] ↔ ns ∈ l.seen := by simp [hne.symm]
    split
    · exact h.congr hmem rfl rfl
    · refine h.congr hmem ?_ ?_
      · simp [openedAt, List.filter_append, hne]
      · simp [emitted, List.filter_append, startedPayload, hne]

theorem InPhase.handleTaskStart {phase : Phase} (h : InPhase l ns taskId phase)
    (htrack : shouldTrack l.scope ns = true) (hid : triggerCallId ns = some taskId)
    (event : TaskEvent) (data : TaskStart) (hdata : event.data = .start data) :
    InPhase (l.handleTaskStart event.ns data) ns taskId (phase.step ns taskId event) := by
  rcases eq_or_ne event.ns ns with rfl | hne
  · cases h with
    | unseen seen opened emitted =>
      have hstep : Phase.step event.ns taskId .unseen event = .opened := by
        simp [Phase.step, hdata]
      rw [hstep]
      simp only [LifecycleTransformer.handleTaskStart, htrack, seen, hid]
      refine .opened (l.startedPayload event.ns taskId data) rfl (by simp) ?_ ?_
      · simpa [openedAt, List.filter_append] using opened
      · simpa [LifecycleTransformer.emitted, List.filter_append, startedPayload] using emitted
    | opened p started seen opened emitted =>
      rw [handleTaskStart_seen seen]
      simp only [Phase.step, hdata]
      exact .opened p started seen opened emitted
    | ended p outcome started terminal seen opened emitted =>
      rw [handleTaskStart_seen seen]
      exact .ended p outcome started terminal seen opened emitted
  · have hstep : phase.step ns taskId event = phase := by
      cases phase <;> simp [Phase.step, hdata, hne]
    rw [hstep]
    exact h.handleTaskStart_other hne data

theorem InPhase.handleTaskResult {phase : Phase} (h : InPhase l ns taskId phase)
    (event : TaskEvent) (data : TaskResult) (hdata : event.data = .result data) :
    InPhase (l.handleTaskResult event.ns data) ns taskId (phase.step ns taskId event) := by
  have hopened : (l.handleTaskResult event.ns data).openedAt ns =
      (l.openedAt ns).filter (fun o => !closedBy event.ns data.id o) := by
    simp only [openedAt, LifecycleTransformer.handleTaskResult, List.filter_filter]
    congr 1
    funext o
    exact Bool.and_comm _ _
  have hemitted : (l.handleTaskResult event.ns data).emitted ns = l.emitted ns ++
      ((l.openedAt ns).filter (closedBy event.ns data.id)).map
        (fun o => terminalPayload (terminalFromResult data) o.1) := by
    simp only [emitted, openedAt, LifecycleTransformer.handleTaskResult, List.filter_append,
      List.filter_map, List.filter_filter]
    congr 2
    congr 1
    funext o
    exact Bool.and_comm _ _
  cases h with
  | unseen seen opened emitted =>
    rw [opened] at hopened hemitted
    simp only [Phase.step, hdata]
    exact .unseen seen hopened (by simpa [emitted] using hemitted)
  | opened p started seen opened emitted =>
    rw [opened] at hopened hemitted
    simp only [Phase.step, hdata]
    split
    · rename_i hclosed
      refine .ended p (terminalFromResult data) started (terminalFromResult_ne data) seen ?_ ?_
      · simpa [hclosed] using hopened
      · simpa [hclosed, emitted] using hemitted
    · rename_i hclosed
      refine .opened p started seen ?_ ?_
      · simpa [hclosed] using hopened
      · simpa [hclosed, emitted] using hemitted
  | ended p outcome started terminal seen opened emitted =>
    rw [opened] at hopened hemitted
    exact .ended p outcome started terminal seen hopened (by simpa [emitted] using hemitted)

theorem scope_process (event : TaskEvent) : (l.process event).scope = l.scope := by
  simp only [process]
  split
  · rename_i data _
    have hframe := (frame_recordPendingToolCalls data l).1
    simp only [handleTaskStart]
    split
    · exact hframe
    · split <;> exact hframe
  · rfl

theorem InPhase.process {phase : Phase} (h : InPhase l ns taskId phase)
    (htrack : shouldTrack l.scope ns = true) (hid : triggerCallId ns = some taskId)
    (event : TaskEvent) : InPhase (l.process event) ns taskId (phase.step ns taskId event) := by
  cases hdata : event.data with
  | start data =>
    simp only [LifecycleTransformer.process, hdata]
    refine (h.recordPendingToolCalls data).handleTaskStart ?_ hid event data hdata
    rw [(frame_recordPendingToolCalls data l).1]
    exact htrack
  | result data =>
    simp only [LifecycleTransformer.process, hdata]
    exact h.handleTaskResult event data hdata

theorem InPhase.run {phase : Phase} (htrack : shouldTrack l.scope ns = true)
    (hid : triggerCallId ns = some taskId) (es : List TaskEvent)
    (h : InPhase l ns taskId phase) :
    InPhase (run LifecycleTransformer.process l es) ns taskId
      (run (Phase.step ns taskId) phase es) := by
  induction es generalizing l phase with
  | nil => exact h
  | cons event es ih =>
    refine ih ?_ (h.process htrack hid event)
    rw [scope_process]
    exact htrack

theorem InPhase.endRun {phase : Phase} (h : InPhase l ns taskId phase) (ending : Ending) :
    InPhase (l.endRun ending) ns taskId (phase.endRun ending) := by
  have hemitted : (l.endRun ending).emitted ns = l.emitted ns ++
      (l.openedAt ns).map (fun o => terminalPayload ending.outcome o.1) := by
    simp only [emitted, openedAt, LifecycleTransformer.endRun, List.filter_append,
      List.filter_map]
    congr 2
  cases h with
  | unseen seen opened emitted =>
    exact .unseen seen rfl (by simpa [opened, emitted] using hemitted)
  | opened p started seen opened emitted =>
    exact .ended p ending.outcome started (endingOutcome_ne ending) seen rfl
      (by simpa [opened, emitted] using hemitted)
  | ended p outcome started terminal seen opened emitted =>
    exact .ended p outcome started terminal seen rfl (by simpa [opened, emitted] using hemitted)

end LifecycleTransformer

end Stream

end LangGraph
