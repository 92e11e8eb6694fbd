import LangGraph.Pregel.AcceptPush
import LangGraph.Pregel.Committed

namespace LangGraph

open Collections

namespace PregelLoop

variable {C Ver : Type}

-- How `accept_push` and `schedule_error_handler` add a task to the superstep that is running.
def addTask (task : PregelTask) (l : PregelLoop C Ver) : PregelLoop C Ver :=
  let task := if l.isReplaying then task else reapplied l.checkpointPendingWrites task
  { l with tasks := l.tasks.map (fun ts => ts.set task.id task) }

def errorHandlerTask (g : Graph C) (failedId : String) (l : PregelLoop C Ver) :
    Option PregelTask :=
  match l.task? failedId with
  | none => none
  | some failed =>
      match (g.nodes.get? failed.name).bind PregelNode.errorHandlerNode with
      | none => none
      | some handler => prepareNodeErrorHandlerTask g failed handler l.checkpoint.id l.step

def scheduleErrorHandler (g : Graph C) (failedId : String) (l : PregelLoop C Ver) :
    PregelLoop C Ver × Option String :=
  match l.errorHandlerTask g failedId with
  | none => (l, none)
  | some task => ((l.addTask task).matchCachedWrites, some task.id)

-- What a task starts with when it is added.
def startWrites (task : PregelTask) (l : PregelLoop C Ver) : List Write :=
  if l.isReplaying then task.writes else (reapplied l.checkpointPendingWrites task).writes

theorem task?_addTask (task : PregelTask) (k : String) {l : PregelLoop C Ver}
    (h : l.tasks.isSome) :
    (l.addTask task).task? k =
      if k = task.id then some { task with writes := l.startWrites task } else l.task? k := by
  obtain ⟨ts, hts⟩ := Option.isSome_iff_exists.mp h
  rw [addTask, startWrites]
  cases hr : l.isReplaying with
  | true => simp [task?, hts, Dict.get?_set]
  | false => simp [task?, hts, Dict.get?_set, reapplied]

end PregelLoop

section ChannelWrites

variable {C : Type}

-- The writes that `apply_writes` groups by channel.
def channelWrites (channels : Dict String C) (ws : List Write) : List Write :=
  ws.filter (fun w => w.1 ∉ ignoredWrites ∧ w.1 ∈ channels.keys)

theorem channelWrites_append (channels : Dict String C) (as bs : List Write) :
    channelWrites channels (as ++ bs) = channelWrites channels as ++ channelWrites channels bs :=
  List.filter_append as bs

theorem channelWrites_eq_nil {channels : Dict String C} {ws : List Write} :
    channelWrites channels ws = [] ↔ ∀ w ∈ ws, w.1 ∈ ignoredWrites ∨ w.1 ∉ channels.keys := by
  rw [channelWrites, List.filter_eq_nil_iff]
  refine forall₂_congr (fun w _ => ?_)
  rw [decide_eq_true_eq, not_and_or, not_not]

theorem groupWrites_channelWrites (channels : Dict String C) (ws : List Write) :
    groupWrites channels (channelWrites channels ws) = groupWrites channels ws := by
  have aux (p : Dict String (List Value)) :
      (channelWrites channels ws).foldl (fun pending w =>
        if w.1 ∈ ignoredWrites then pending
        else if w.1 ∈ channels.keys then pending.set w.1 (pending.getD w.1 [] ++ [w.2])
        else pending) p =
      ws.foldl (fun pending w =>
        if w.1 ∈ ignoredWrites then pending
        else if w.1 ∈ channels.keys then pending.set w.1 (pending.getD w.1 [] ++ [w.2])
        else pending) p := by
    induction ws generalizing p with
    | nil => rfl
    | cons w ws ih =>
      by_cases hi : w.1 ∈ ignoredWrites
      · have hskip : channelWrites channels (w :: ws) = channelWrites channels ws := by
          simp [channelWrites, hi]
        rw [hskip, List.foldl_cons, if_pos hi]
        exact ih p
      · by_cases hk : w.1 ∈ channels.keys
        · have hkeep : channelWrites channels (w :: ws) = w :: channelWrites channels ws := by
            simp [channelWrites, hi, hk]
          rw [hkeep, List.foldl_cons, List.foldl_cons]
          exact ih _
        · have hskip : channelWrites channels (w :: ws) = channelWrites channels ws := by
            simp [channelWrites, hk]
          rw [hskip, List.foldl_cons, if_neg hi, if_neg hk]
          exact ih p
  exact aux ∅

variable [BaseChannel C]

-- What `commit` adds to the writes of an attempt.
def Attempt.markers (g : Graph C) (name : String) (a : Attempt) : List Write :=
  match a.raised with
  | none => if a.writes = [] then [(Key.noWrites, Value.none)] else []
  | some (.cancelled exc) => [(Key.error, exc)]
  | some (.error exc) =>
      (Key.error, exc) ::
        (if g.shouldRouteToErrorHandler name then [(Key.errorSourceNode, .str name)] else [])
  | some (.interrupt _) | some .bubbleUp => []

omit [BaseChannel C] in
theorem Attempt.taskWrites_eq (g : Graph C) (name : String) (a : Attempt) :
    a.taskWrites g name = a.writes ++ a.markers g name := by
  rw [taskWrites, markers]
  obtain ⟨ws, raised⟩ := a
  cases raised with
  | none => cases ws <;> simp
  | some r => cases r <;> simp

omit [BaseChannel C] in
theorem Attempt.channelWrites_markers (g : Graph C) (name : String) (a : Attempt)
    (channels : Dict String C) : channelWrites channels (a.markers g name) = [] := by
  have herror : Key.error ∈ ignoredWrites := by decide
  have hsource : Key.errorSourceNode ∈ ignoredWrites := by decide
  rw [channelWrites_eq_nil]
  intro w hw
  left
  rw [markers] at hw
  obtain ⟨ws, raised⟩ := a
  cases raised with
  | none =>
    simp only at hw
    split_ifs at hw
    · rw [List.mem_singleton.mp hw]
      decide
    · cases hw
  | some r =>
    cases r with
    | error exc =>
      rcases List.mem_cons.mp hw with rfl | hw
      · exact herror
      · split_ifs at hw
        · rw [List.mem_singleton.mp hw]
          exact hsource
        · cases hw
    | cancelled exc =>
      rw [List.mem_singleton.mp hw]
      exact herror
    | interrupt interrupts => cases hw
    | bubbleUp => cases hw

end ChannelWrites

end LangGraph
