import LangGraph.Pregel.Superstep

namespace LangGraph

open Collections

theorem ok_of_bind {ε α β : Type} {x : Except ε α} {f : α → Except ε β} {b : β}
    (h : x >>= f = .ok b) : ∃ a, x = .ok a ∧ f a = .ok b := by
  cases x with
  | error e => cases h
  | ok a => exact ⟨a, rfl, h⟩

-- One update as a node: the writes are what the node's writers produced for the given values.
structure NodeUpdate where
  asNode : String
  writes : List Write
  taskId : Option String

inductive StateUpdate where
  | clear
  | input (values : Value)
  | copy
  | nodes (updates : List NodeUpdate)

structure UpdateTarget (C Ver : Type) where
  saved : Option (CheckpointTuple Ver)
  checkpoint : Checkpoint Ver
  channels : Dict String C
  parent : Option String

variable {C Ver : Type} [BaseChannel C] [LinearOrder Ver] [OrderBot Ver]

namespace UpdateTarget

def step (t : UpdateTarget C Ver) : Int := (t.saved.map (fun s => s.metadata.step)).getD (-1)

def previousVersions (t : UpdateTarget C Ver) : ChannelVersions Ver :=
  (t.saved.map (fun s => s.checkpoint.channelVersions)).getD ∅

def pendingWrites (t : UpdateTarget C Ver) : List PendingWrite :=
  (t.saved.map CheckpointTuple.pendingWrites).getD []

def load (g : Graph C) (freshId : String) (checkpointId : Option String)
    (saver : InMemorySaver Ver) : Except LoopError (UpdateTarget C Ver) :=
  let saved := saver.getTuple checkpointId
  let checkpoint := (saved.map CheckpointTuple.checkpoint).getD (emptyCheckpoint freshId)
  match channelsFromCheckpoint g.specs (saved.map (fun _ => saver)) checkpoint with
  | .error e => .error (.update e)
  | .ok channels =>
      .ok ⟨saved, checkpoint, channels, (saved.map (fun s => s.checkpoint.id)).or checkpointId⟩

def apply (g : Graph C) (next : GetNextVersion Ver) (tasks : List PregelTaskWrites)
    (t : UpdateTarget C Ver) : Except LoopError (UpdateTarget C Ver) :=
  let r := applyWrites t.checkpoint t.channels tasks (some next) g.triggerToNodes
  match r.2.2 with
  | .error e => .error (.update e)
  | .ok _ => .ok { t with checkpoint := r.1, channels := r.2.1 }

def save (newId source : String) (step : Int) (t : UpdateTarget C Ver) : SaverCall Ver :=
  .put t.parent (createCheckpoint t.checkpoint (some t.channels) newId none none ∅)
    ⟨source, step, ∅⟩ (getNewChannelVersions t.previousVersions t.checkpoint.channelVersions)

def nextTasks (g : Graph C) (t : UpdateTarget C Ver) : Dict String PregelTask :=
  g.prepareNextTasks t.checkpoint t.channels (t.step + 1) true none none

def finishedTasks (g : Graph C) (t : UpdateTarget C Ver) : List PregelTaskWrites :=
  ((t.nextTasks g).mapValues (fun task => { task with
    writes := task.writes ++ (taskWritesOf task.id t.pendingWrites).filter
      (fun w => w.1 ≠ Key.error ∧ w.1 ≠ Key.interrupt) })).values.map PregelTask.taskWrites

def nullTasks (t : UpdateTarget C Ver) : List PregelTaskWrites :=
  match taskWritesOf nullTaskId t.pendingWrites with
  | [] => []
  | writes => [⟨[], Key.input, writes, []⟩]

def applyNull (g : Graph C) (next : GetNextVersion Ver) (t : UpdateTarget C Ver) :
    Except LoopError (UpdateTarget C Ver) :=
  if t.nullTasks = [] then .ok t else t.apply g next t.nullTasks

def clear (g : Graph C) (nextNull next : GetNextVersion Ver) (newId : String)
    (t : UpdateTarget C Ver) : Except LoopError (List (SaverCall Ver)) :=
  match t.saved with
  | none => .ok [t.save newId "update" (t.step + 1)]
  | some _ => do
      let nulled ← t.applyNull g nextNull
      let applied ← nulled.apply g next (t.finishedTasks g)
      return [applied.save newId "update" (t.step + 1)]

def asInput (g : Graph C) (inputKeys : InputKeys) (next : GetNextVersion Ver) (newId : String)
    (values : Value) (t : UpdateTarget C Ver) : Except LoopError (List (SaverCall Ver)) :=
  match mapInput inputKeys values with
  | [] => .error .emptyInput
  | writes => do
      let taskId := g.taskId [t.checkpoint.id, Key.input]
      let t ← t.apply g next [⟨[], Key.input, writes, []⟩]
      return [t.save newId "input" (if t.saved.isSome then t.step + 1 else -1),
        .putWrites newId writes taskId ""]

def copy (newId : String) (t : UpdateTarget C Ver) : Except LoopError (List (SaverCall Ver)) :=
  match t.saved with
  | none => .error .emptyInput
  | some saved =>
      .ok [.put saved.parent
        (createCheckpoint t.checkpoint (none : Option (Dict String C)) newId none none ∅)
        ⟨"fork", t.step + 1, ∅⟩ ∅]

def takeTaskId (g : Graph C) (checkpointId : String) (ids : Dict String (List String))
    (u : NodeUpdate) : String × Dict String (List String) :=
  match u.taskId, ids.getD u.asNode [] with
  | some id, _ => (id, ids)
  | none, id :: rest => (id, ids.set u.asNode rest)
  | none, [] => (g.taskId [checkpointId, Key.interrupt], ids)

def assignTaskIds (g : Graph C) (checkpointId : String) :
    Dict String (List String) → List NodeUpdate → List (String × NodeUpdate)
  | _, [] => []
  | ids, u :: us =>
      let r := takeTaskId g checkpointId ids u
      (r.1, u) :: assignTaskIds g checkpointId r.2 us

def nodeTaskIds (g : Graph C) (t : UpdateTarget C Ver) : Dict String (List String) :=
  match t.saved with
  | none => ∅
  | some _ => (t.nextTasks g).values.foldl
      (fun d task => d.set task.name (d.getD task.name [] ++ [task.id])) ∅

def runTask (u : NodeUpdate) : PregelTaskWrites := ⟨[], u.asNode, u.writes, [Key.interrupt]⟩

def nodeCalls (t : UpdateTarget C Ver) (updates : List (String × NodeUpdate)) :
    List (SaverCall Ver) :=
  match t.saved with
  | none => []
  | some _ => updates.filterMap (fun u =>
      match u.2.writes.filter (fun w => w.1 ≠ Key.push) with
      | [] => none
      | writes => some (.putWrites (t.parent.getD "") writes u.1 ""))

def saveNodes (next : GetNextVersion Ver) (newId : String) (updated : Finset String)
    (t : UpdateTarget C Ver) : SaverCall Ver :=
  let plan := createCheckpointPlanForUpdateStateApi t.channels updated (t.step + 1)
    (t.saved.map CheckpointTuple.metadata)
  let created :=
    if plan.1 = ∅ then createCheckpoint t.checkpoint (some t.channels) newId none none ∅
    else createCheckpoint t.checkpoint (some t.channels) newId (some updated) (some next) plan.1
  .put t.parent created plan.2
    (getNewChannelVersions t.previousVersions created.channelVersions)

-- The rows are stored before `apply_writes` runs, so they stay when it raises.
def asNodes (g : Graph C) (next nextSnapshot : GetNextVersion Ver) (newId : String)
    (updates : List NodeUpdate) (t : UpdateTarget C Ver) :
    List (SaverCall Ver) × Option LoopError :=
  let assigned := assignTaskIds g t.checkpoint.id (t.nodeTaskIds g) updates
  let tasks := updates.map runTask
  let calls := t.nodeCalls assigned
  match t.apply g next tasks with
  | .error e => (calls, some e)
  | .ok t => (calls ++ [t.saveNodes nextSnapshot newId (getUpdatedChannelsFromTasks tasks)], none)

end UpdateTarget

def exceptCalls (r : Except LoopError (List (SaverCall Ver))) :
    List (SaverCall Ver) × Option LoopError :=
  match r with
  | .error e => ([], some e)
  | .ok calls => (calls, none)

-- One superstep of `bulk_update_state`.
def updateState (g : Graph C) (inputKeys : InputKeys) (nextNull next : GetNextVersion Ver)
    (freshId newId : String) (checkpointId : Option String) (update : StateUpdate)
    (saver : InMemorySaver Ver) : List (SaverCall Ver) × Option LoopError :=
  match UpdateTarget.load g freshId checkpointId saver with
  | .error e => ([], some e)
  | .ok t =>
      match update with
      | .clear => exceptCalls (t.clear g nextNull next newId)
      | .input values => exceptCalls (t.asInput g inputKeys next newId values)
      | .copy => exceptCalls (t.copy newId)
      | .nodes updates => t.asNodes g next nextNull newId updates

end LangGraph
