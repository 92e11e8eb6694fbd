import LangGraph.Pregel.Loop

namespace LangGraph

open Collections

inductive TickResult where
  | proceed | done | outOfSteps | interruptBefore
  deriving DecidableEq

inductive LoopError where
  | update (e : UpdateError)
  | emptyInput
  | multipleInterrupts
  deriving DecidableEq

structure Command where
  goto : List (String ⊕ Value)
  resume : Option Value
  update : List Write

inductive Input where
  | none
  | value (v : Value)
  | command (c : Command)

inductive InputKeys where
  | single (key : String)
  | many (keys : List String)

def NodeSet.contains : NodeSet → String → Bool
  | .all, _ => true
  | .nodes names, name => name ∈ names

section ShouldInterrupt

variable {Ver : Type} [LinearOrder Ver] [OrderBot Ver]

def updatesSinceInterrupt (checkpoint : Checkpoint Ver) : Bool :=
  let seen := checkpoint.versionsSeen.getD Key.interrupt ∅
  checkpoint.channelVersions.items.any (fun e => decide (seen.getD e.1 ⊥ < e.2))

def shouldInterrupt (checkpoint : Checkpoint Ver) (nodes : NodeSet) (tasks : List PregelTask) :
    List PregelTask :=
  if updatesSinceInterrupt checkpoint then tasks.filter (fun t => nodes.contains t.name) else []

end ShouldInterrupt

namespace Command

def isHexDigest (k : String) : Bool :=
  k.length = 32 && k.toList.all (fun c => c.isDigit || ('a' ≤ c && c ≤ 'f'))

def resumeIsMap : Value → Bool
  | .dict items => items.all (fun i => isHexDigest i.1)
  | _ => false

def gotoWrite : String ⊕ Value → Write
  | .inl node => ("branch:to:" ++ node, .str Key.start)
  | .inr send => (Key.tasks, send)

-- `map_command`, without the resume value when it is a map from interrupt ids.
def writes (c : Command) : List Write :=
  c.goto.map gotoWrite ++
    (match c.resume with
    | some v => if resumeIsMap v then [] else [(Key.resume, v)]
    | none => []) ++ c.update

end Command

def mapInput : InputKeys → Value → List Write
  | .single key, v => [(key, v)]
  | .many keys, .dict items => items.filter (fun i => i.1 ∈ keys)
  | .many _, _ => []

namespace PregelLoop

section Tasks

variable {C Ver : Type}

def cacheOwners (tasks : Dict String PregelTask) : Dict CacheKey String :=
  Dict.ofList (tasks.items.filterMap (fun e =>
    if e.2.writes = [] then e.2.cacheKey.map (fun k => (k, e.1)) else none))

def cachedWrites (cache : WritesCache) (owners : Dict CacheKey String) (t : PregelTask) :
    List Write :=
  match t.cacheKey with
  | some k => if t.writes = [] ∧ owners.get? k = some t.id then cache.getD k [] else t.writes
  | none => t.writes

def matchCachedWrites (l : PregelLoop C Ver) : PregelLoop C Ver :=
  match l.cache, l.tasks with
  | some cache, some tasks =>
      { l with tasks := some (tasks.mapValues (fun t =>
          { t with writes := cachedWrites cache (cacheOwners tasks) t })) }
  | _, _ => l

def runnable (l : PregelLoop C Ver) : List PregelTask :=
  ((l.tasks.map Dict.values).getD []).filter (fun t => t.writes = [])

end Tasks

section Steps

variable {C Ver : Type} [BaseChannel C] [LinearOrder Ver] [OrderBot Ver]

def preparedTasks (g : Graph C) (l : PregelLoop C Ver) : Dict String PregelTask :=
  g.prepareNextTasks l.checkpoint l.channels l.step true (some g.triggerToNodes) l.updatedChannels

def resumedTasks (g : Graph C) (l : PregelLoop C Ver) (tasks : Dict String PregelTask) :
    Dict String PregelTask :=
  if l.isReplaying ∨ l.checkpointPendingWrites = [] then tasks
  else resumeErrorHandlers g l.checkpoint.id l.step l.checkpointPendingWrites
    (reapplyWritesToSucceededNodes l.checkpointPendingWrites tasks)

def tick (g : Graph C) (l : PregelLoop C Ver) : PregelLoop C Ver × TickResult :=
  if l.stop < l.step then (l, .outOfSteps)
  else
    let prepared := l.preparedTasks g
    if prepared.items = [] then ({ l with tasks := some prepared }, .done)
    else
      let tasks := l.resumedTasks g prepared
      let l := { l with tasks := some tasks }
      if shouldInterrupt l.checkpoint l.config.interruptBefore tasks.values ≠ [] then
        (l, .interruptBefore)
      else (l, .proceed)

def isOverwrite (v : Value) : Bool := v.getOverwrite.isSome

def deltaKey (specs : Dict String C) (k : String) : Bool :=
  ((specs.get? k).map (fun c => decide (isDelta c))).getD false

def overwritten (specs : Dict String C) (writes : List Write) : Finset String :=
  ((writes.filter (fun w => deltaKey specs w.1 && isOverwrite w.2)).map Prod.fst).toFinset

def channelsToSnapshot (channels : Dict String C) (counters : Counters)
    (l : PregelLoop C Ver) : Finset String :=
  deltaChannelsToSnapshot channels counters ∪ l.deltaChannelsWithOverwrite

-- The checkpoint made between supersteps (`exiting` is false in the source).
def putCheckpoint (next : GetNextVersion Ver) (newId source : String) (l : PregelLoop C Ver) :
    PregelLoop C Ver :=
  let counters := bumpCounters l.channels (l.updatedChannels.getD ∅)
    l.checkpointMetadata.countersSinceDeltaSnapshot
  if l.config.durability = .exit then
    { l with
      checkpoint := createCheckpoint l.checkpoint (none : Option (Dict String C)) newId
        l.updatedChannels none ∅
      checkpointMetadata := ⟨source, l.step, resetCounters ∅ counters⟩
      step := l.step + 1 }
  else
    let snapshot := l.channelsToSnapshot l.channels counters
    let created := createCheckpoint l.checkpoint (some l.channels) newId l.updatedChannels
      (some next) snapshot
    let created := { created with
      channelValues := sanitizeTasks l.channels created.channelValues }
    let metadata := ⟨source, l.step, resetCounters snapshot counters⟩
    { l with
      checkpoint := created
      checkpointMetadata := metadata
      deltaChannelsWithOverwrite := l.deltaChannelsWithOverwrite \ snapshot
      checkpointPreviousVersions := created.channelVersions
      checkpointConfigId := some created.id
      submitted := l.submitted ++ [.put l.checkpointConfigId created metadata
        (getNewChannelVersions l.checkpointPreviousVersions created.channelVersions)]
      step := l.step + 1 }

def captureExitWrites (g : Graph C) (pending : List PendingWrite) (l : PregelLoop C Ver) :
    PregelLoop C Ver :=
  { l with exitDeltaWrites := l.exitDeltaWrites.map (fun ws => ws ++
      (pending.filter (fun w => deltaKey g.specs w.channel)).map
        (fun w => ⟨l.step, w.taskId, w.channel, w.value⟩)) }

def liveTasks (l : PregelLoop C Ver) : List PregelTask := (l.tasks.map Dict.values).getD []

def afterTick (g : Graph C) (next : GetNextVersion Ver) (newId : String) (l : PregelLoop C Ver) :
    PregelLoop C Ver × Option LoopError :=
  let tasks := l.liveTasks
  let overwrites := overwritten g.specs (tasks.flatMap PregelTask.writes)
  let r := applyWrites l.checkpoint l.channels (tasks.map PregelTask.taskWrites) (some next)
    g.triggerToNodes
  let l := { l with
    deltaChannelsWithOverwrite := l.deltaChannelsWithOverwrite ∪ overwrites
    checkpoint := r.1
    channels := r.2.1 }
  match r.2.2 with
  | .error e => (l, some (.update e))
  | .ok updated =>
      let l := { l with updatedChannels := some updated }
      let l := l.captureExitWrites g l.checkpointPendingWrites
      let l := { l with checkpointPendingWrites := [], isReplaying := false }
      (l.putCheckpoint next newId "loop", none)

def exitGroups (writes : List ExitDeltaWrite) : Dict (Int × String) (List Write) :=
  writes.foldl (fun d w =>
    d.set (w.step, w.taskId) (d.getD (w.step, w.taskId) [] ++ [(w.channel, w.value)])) ∅

def putExitDeltaWrites (l : PregelLoop C Ver) : PregelLoop C Ver :=
  let snapshot := l.channelsToSnapshot l.channels l.checkpointMetadata.countersSinceDeltaSnapshot
  match (l.exitDeltaWrites.getD []).filter (fun w => w.channel ∉ snapshot) with
  | [] => l
  | pending =>
      let anchor := if l.hasPersistedParent then l.initialConfigId else some l.checkpointIdSaved
      let l :=
        if l.hasPersistedParent then l
        else { l with
          checkpointConfigId := anchor
          submitted := l.submitted ++
            [.put none (emptyCheckpoint l.checkpointIdSaved) ⟨"", -2, ∅⟩ ∅] }
      { l with submitted := l.submitted ++ (exitGroups pending).items.map (fun e =>
          .putWrites (anchor.getD "") e.2 (exitDeltaTaskId e.1.1 e.1.2) "") }

-- The same save at exit: the checkpoint keeps its id and its counters are not bumped.
def putExitCheckpoint (next : GetNextVersion Ver) (l : PregelLoop C Ver) : PregelLoop C Ver :=
  if l.checkpoint.id = l.checkpointIdSaved then l
  else
    let counters := l.checkpointMetadata.countersSinceDeltaSnapshot
    let snapshot := l.channelsToSnapshot l.channels counters
    let created := createCheckpoint l.checkpoint (some l.channels) l.checkpoint.id
      l.updatedChannels (some next) snapshot
    let created := { created with
      channelValues := sanitizeTasks l.channels created.channelValues }
    let metadata := { l.checkpointMetadata with
      countersSinceDeltaSnapshot := resetCounters snapshot counters }
    { l with
      checkpoint := created
      checkpointMetadata := metadata
      deltaChannelsWithOverwrite := l.deltaChannelsWithOverwrite \ snapshot
      checkpointPreviousVersions := created.channelVersions
      checkpointConfigId := some created.id
      submitted := l.submitted ++ [.put l.checkpointConfigId created metadata
        (getNewChannelVersions l.checkpointPreviousVersions created.channelVersions)] }

def suppressInterrupt (next : GetNextVersion Ver) (l : PregelLoop C Ver) : PregelLoop C Ver :=
  if l.config.durability = .exit then
    putPendingWrites (putExitCheckpoint next (putExitDeltaWrites l))
  else l

end Steps

section Enter

variable {C Ver : Type} [BaseChannel C] [LinearOrder Ver] [OrderBot Ver]

def load (config : LoopConfig) (cache : Option WritesCache) (freshId : String)
    (checkpointId : Option String) (saved : Option (CheckpointTuple Ver))
    (channels : Dict String C) : PregelLoop C Ver :=
  let checkpoint := (saved.map CheckpointTuple.checkpoint).getD (emptyCheckpoint freshId)
  let metadata := (saved.map CheckpointTuple.metadata).getD ⟨"", -2, ∅⟩
  let configId := (saved.map (fun t => t.checkpoint.id)).or checkpointId
  { config := config
    checkpoint := checkpoint
    channels := channels
    checkpointPendingWrites := (saved.map CheckpointTuple.pendingWrites).getD []
    tasks := none
    step := metadata.step + 1
    stop := metadata.step + 1 + config.recursionLimit + 1
    isReplaying := checkpointId.isSome
    checkpointMetadata := metadata
    checkpointConfigId := configId
    initialConfigId := configId
    checkpointIdSaved := checkpoint.id
    hasPersistedParent := saved.isSome
    checkpointPreviousVersions := checkpoint.channelVersions
    updatedChannels := none
    exitDeltaWrites := if config.durability = .exit then some [] else none
    deltaChannelsWithOverwrite := ∅
    cache := cache
    submitted := [] }

-- `freshId` is the id `empty_checkpoint` draws on a thread without a saved checkpoint.
def enter (g : Graph C) (config : LoopConfig) (cache : Option WritesCache) (freshId : String)
    (checkpointId : Option String) (saver : InMemorySaver Ver) :
    Except LoopError (PregelLoop C Ver) :=
  let saved := saver.getTuple checkpointId
  let checkpoint := (saved.map CheckpointTuple.checkpoint).getD (emptyCheckpoint freshId)
  match channelsFromCheckpoint g.specs (some saver) checkpoint with
  | .error e => .error (.update e)
  | .ok channels => .ok (load config cache freshId checkpointId saved channels)

-- The `updated_channels` argument of `_first`: an empty list counts as missing.
def storedUpdates (l : PregelLoop C Ver) : Option (Finset String) :=
  l.checkpoint.updatedChannels.filter (fun u => u ≠ ∅)

def interruptId : Value → Value
  | .list (.dict items :: _) => (Value.item? items "id").getD Value.none
  | v => v

def pendingInterrupts (pending : List PendingWrite) : List Value :=
  let interrupts : Dict String Value := Dict.ofList
    ((pending.filter (fun w => w.channel = Key.interrupt)).map
      (fun w => (w.taskId, interruptId w.value)))
  let resumed := ((pending.filter (fun w => w.channel = Key.resume)).map
    PendingWrite.taskId).filterMap interrupts.get?
  (interrupts.values.filter (fun v => v ∉ resumed)).dedup

def dropTimeTravel (input : Input) (l : PregelLoop C Ver) : Bool :=
  l.isReplaying && !(match input with
    | .command c => c.resume.isSome
    | _ => false)

def putCommand (g : Graph C) (c : Command) (l : PregelLoop C Ver) :
    PregelLoop C Ver × Option LoopError :=
  let resumeIsMap := (c.resume.map Command.resumeIsMap).getD false
  if c.resume.isSome ∧ resumeIsMap = false ∧
      1 < (pendingInterrupts l.checkpointPendingWrites).length then
    (l, some .multipleInterrupts)
  else if c.writes = [] ∧ resumeIsMap = false then (l, some .emptyInput)
  else (l.putWrites g nullTaskId c.writes, none)

def putInput (g : Graph C) (input : Input) (l : PregelLoop C Ver) :
    PregelLoop C Ver × Option LoopError :=
  match input with
  | .command c => l.putCommand g c
  | _ => (l, none)

def applyInputWrites (g : Graph C) (next : GetNextVersion Ver)
    (tasks : List PregelTaskWrites) (l : PregelLoop C Ver) :
    PregelLoop C Ver × Except LoopError (Finset String) :=
  let r := applyWrites l.checkpoint l.channels tasks (some next) g.triggerToNodes
  ({ l with checkpoint := r.1, channels := r.2.1 }, r.2.2.mapError .update)

def applyNullWrites (g : Graph C) (next : GetNextVersion Ver)
    (updated : Option (Finset String)) (l : PregelLoop C Ver) :
    PregelLoop C Ver × Except LoopError (Option (Finset String)) :=
  match taskWritesOf nullTaskId l.checkpointPendingWrites with
  | [] => (l, .ok updated)
  | writes =>
      let r := l.applyInputWrites g next [⟨[], Key.input, writes, []⟩]
      (r.1, r.2.map (fun null => updated.map (fun u => u ∪ null)))

def markInterruptSeen (l : PregelLoop C Ver) : PregelLoop C Ver :=
  { l with checkpoint := { l.checkpoint with
      versionsSeen := l.checkpoint.versionsSeen.set Key.interrupt
        ((l.checkpoint.versionsSeen.getD Key.interrupt ∅).update
          (l.channels.keys.filterMap (fun k =>
            (l.checkpoint.channelVersions.get? k).map (fun v => (k, v))))) } }

def forkCheckpoint (next : GetNextVersion Ver) (newId : String) (l : PregelLoop C Ver) :
    PregelLoop C Ver :=
  putCheckpoint next newId "fork" { l with
    checkpointPendingWrites :=
      l.checkpointPendingWrites.filter (fun w => w.channel ≠ Key.interrupt) }

def resumeFirst (next : GetNextVersion Ver) (newId : String) (timeTravel : Bool)
    (l : PregelLoop C Ver) : PregelLoop C Ver :=
  let l := l.markInterruptSeen
  if timeTravel ∧ l.checkpointMetadata.source ∉ ["update", "fork"] then
    l.forkCheckpoint next newId
  else l

def discardTasks (g : Graph C) (updated : Option (Finset String)) (l : PregelLoop C Ver) :
    List PregelTaskWrites :=
  (g.prepareNextTasks l.checkpoint l.channels l.step true none updated).values.map
    PregelTask.taskWrites

def putDeltaInput (g : Graph C) (writes : List Write) (l : PregelLoop C Ver) : PregelLoop C Ver :=
  if l.config.durability = .exit then
    { l with exitDeltaWrites := l.exitDeltaWrites.map (fun ws => ws ++
        (writes.filter (fun w => deltaKey g.specs w.1)).map
          (fun w => ⟨l.step, nullTaskId, w.1, w.2⟩)) }
  else l.putWrites g nullTaskId (writes.filter (fun w => deltaKey g.specs w.1))

def inputFirst (g : Graph C) (next : GetNextVersion Ver) (newId : String)
    (updated : Option (Finset String)) (writes : List Write) (l : PregelLoop C Ver) :
    PregelLoop C Ver × Option LoopError :=
  let l' := { l with deltaChannelsWithOverwrite :=
    l.deltaChannelsWithOverwrite ∪ overwritten g.specs writes }
  let r := l'.applyInputWrites g next
    (l.discardTasks g updated ++ [⟨[], Key.input, writes, []⟩])
  match r.2 with
  | .error e => (r.1, some e)
  | .ok updated =>
      (putCheckpoint next newId "input"
        { r.1.putDeltaInput g writes with updatedChannels := some updated }, none)

def inputApplied (g : Graph C) (next : GetNextVersion Ver) (updated : Option (Finset String))
    (writes : List Write) (l : PregelLoop C Ver) :
    PregelLoop C Ver × Except LoopError (Finset String) :=
  applyInputWrites g next (l.discardTasks g updated ++ [⟨[], Key.input, writes, []⟩])
    { l with deltaChannelsWithOverwrite :=
      l.deltaChannelsWithOverwrite ∪ overwritten g.specs writes }

theorem inputFirst_eq (g : Graph C) (next : GetNextVersion Ver) (newId : String)
    (updated : Option (Finset String)) (writes : List Write) (l : PregelLoop C Ver) :
    l.inputFirst g next newId updated writes =
      match (l.inputApplied g next updated writes).2 with
      | .error e => ((l.inputApplied g next updated writes).1, some e)
      | .ok updated' =>
          (putCheckpoint next newId "input"
            { (l.inputApplied g next updated writes).1.putDeltaInput g writes with
              updatedChannels := some updated' }, none) := by
  simp only [inputFirst, inputApplied]

theorem tasks_inputApplied (g : Graph C) (next : GetNextVersion Ver)
    (updated : Option (Finset String)) (writes : List Write) (l : PregelLoop C Ver) :
    (l.inputApplied g next updated writes).1.tasks = l.tasks := by
  simp only [inputApplied, applyInputWrites]

theorem config_inputApplied (g : Graph C) (next : GetNextVersion Ver)
    (updated : Option (Finset String)) (writes : List Write) (l : PregelLoop C Ver) :
    (l.inputApplied g next updated writes).1.config = l.config := by
  simp only [inputApplied, applyInputWrites]

def isResuming (input : Input) (sameRun : Bool) (l : PregelLoop C Ver) : Bool :=
  decide (l.checkpoint.channelVersions.items ≠ []) &&
    (match input with
    | .none | .command _ => true
    | .value _ => sameRun)

def dropResumed (timeTravel : Bool) (l : PregelLoop C Ver) : PregelLoop C Ver :=
  if timeTravel then { l with
    checkpointPendingWrites :=
      l.checkpointPendingWrites.filter (fun w => w.channel ≠ Key.resume) }
  else l

def enterInput (g : Graph C) (inputKeys : InputKeys) (next : GetNextVersion Ver) (newId : String)
    (updated : Option (Finset String)) (input : Input) (l : PregelLoop C Ver) :
    PregelLoop C Ver × Option LoopError :=
  match input with
  | .value v =>
      match mapInput inputKeys v with
      | [] => (l, some .emptyInput)
      | writes => l.inputFirst g next newId updated writes
  | _ => (l, some .emptyInput)

-- `_first`: `sameRun` says that the run id equals the one of the loaded checkpoint. Each place
-- that draws versions has its own `get_next_version`.
def first (g : Graph C) (inputKeys : InputKeys) (input : Input) (sameRun : Bool)
    (nextNull next : GetNextVersion Ver) (newId : String) (l : PregelLoop C Ver) :
    PregelLoop C Ver × Option LoopError :=
  let resuming := l.isResuming input sameRun
  let timeTravel := l.dropTimeTravel input
  andThen ((l.dropResumed timeTravel).putInput g input) (fun l =>
    let r := l.applyNullWrites g nextNull l.storedUpdates
    match r.2 with
    | .error e => (r.1, some e)
    | .ok updated =>
        if resuming then
          ({ r.1.resumeFirst next newId timeTravel with updatedChannels := updated }, none)
        else r.1.enterInput g inputKeys next newId updated input)

end Enter

end PregelLoop

end LangGraph
