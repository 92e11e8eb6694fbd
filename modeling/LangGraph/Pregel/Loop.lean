import LangGraph.Pregel.Checkpoint
import LangGraph.Pregel.Tasks

namespace LangGraph

open Collections

inductive Durability where
  | sync | async | exit
  deriving DecidableEq

inductive SaverCall (Ver : Type) where
  | put (parent : Option String) (checkpoint : Checkpoint Ver) (metadata : CheckpointMetadata)
      (newVersions : ChannelVersions Ver)
  | putWrites (checkpointId : String) (writes : List Write) (taskId taskPath : String)

namespace InMemorySaver

variable {Ver : Type} [DecidableEq Ver]

def exec (s : InMemorySaver Ver) : SaverCall Ver → InMemorySaver Ver
  | .put parent checkpoint metadata newVersions => s.put parent checkpoint metadata newVersions
  | .putWrites checkpointId writes taskId taskPath => s.putWrites checkpointId writes taskId taskPath

def execAll (s : InMemorySaver Ver) (calls : List (SaverCall Ver)) : InMemorySaver Ver :=
  calls.foldl exec s

end InMemorySaver

abbrev WritesCache := Dict CacheKey (List Write)

structure ExitDeltaWrite where
  step : Int
  taskId : String
  channel : String
  value : Value

inductive NodeSet where
  | all
  | nodes (names : List String)

structure LoopConfig where
  durability : Durability
  asyncLoop : Bool
  interruptBefore : NodeSet
  interruptAfter : NodeSet
  recursionLimit : Int

def LoopConfig.plain (durability : Durability) : LoopConfig :=
  ⟨durability, false, .nodes [], .nodes [], 25⟩

-- The loop of a top-level graph with a checkpointer. `submitted` holds the saver calls in order.
structure PregelLoop (C Ver : Type) where
  config : LoopConfig
  checkpoint : Checkpoint Ver
  channels : Dict String C
  checkpointPendingWrites : List PendingWrite
  tasks : Option (Dict String PregelTask)
  step : Int
  stop : Int
  isReplaying : Bool
  checkpointMetadata : CheckpointMetadata
  checkpointConfigId : Option String
  initialConfigId : Option String
  checkpointIdSaved : String
  hasPersistedParent : Bool
  checkpointPreviousVersions : ChannelVersions Ver
  updatedChannels : Option (Finset String)
  exitDeltaWrites : Option (List ExitDeltaWrite)
  deltaChannelsWithOverwrite : Finset String
  cache : Option WritesCache
  submitted : List (SaverCall Ver)

section Sanitize

variable {C : Type} [BaseChannel C]

def untrackedKey (channels : Dict String C) (k : String) : Bool :=
  ((channels.get? k).map (fun c => decide (isUntracked c))).getD false

def anyUntracked (channels : Dict String C) : Bool :=
  channels.values.any (fun c => decide (isUntracked c))

def sanitizeUntrackedValuesInSend (channels : Dict String C) : Value → Value
  | .send node (.dict items) => .send node (.dict (items.filter (fun i => !untrackedKey channels i.1)))
  | v => v

def sanitizeWrite (channels : Dict String C) (w : Write) : Write :=
  if w.1 = Key.tasks then (w.1, sanitizeUntrackedValuesInSend channels w.2) else w

def sanitizeWrites (specs channels : Dict String C) (writes : List Write) : List Write :=
  if anyUntracked channels then
    (writes.filter (fun w => !untrackedKey specs w.1)).map (sanitizeWrite channels)
  else writes

def sanitizeTasks (channels : Dict String C) (values : Dict String Blob) : Dict String Blob :=
  if anyUntracked channels then
    match values.get? Key.tasks with
    | some (.values vs) =>
        values.set Key.tasks (.values (vs.map (sanitizeUntrackedValuesInSend channels)))
    | _ => values
  else values

end Sanitize

def dedupWrites (writes : List Write) : List Write :=
  if ∀ w ∈ writes, Special w.1 then (Dict.ofList writes).items else writes

def controlChannels : List String := [Key.error, Key.errorSourceNode, Key.interrupt, Key.resume]

def taskWritesOf (taskId : String) (pending : List PendingWrite) : List Write :=
  (pending.filter (fun w => w.taskId = taskId)).map PendingWrite.write

def taskIds (pending : List PendingWrite) : List String :=
  (Dict.ofList (pending.map (fun w => (w.taskId, ())))).keys

-- A thread: what its saver holds and the loop that runs on it.
structure Session (C Ver : Type) where
  saver : InMemorySaver Ver
  loop : PregelLoop C Ver

namespace Session

variable {C Ver : Type} [DecidableEq Ver]

def flush (s : Session C Ver) : Session C Ver :=
  ⟨s.saver.execAll s.loop.submitted, { s.loop with submitted := [] }⟩

end Session

namespace PregelLoop

section PutWrites

variable {C Ver : Type} [BaseChannel C]

def submit (call : SaverCall Ver) (l : PregelLoop C Ver) : PregelLoop C Ver :=
  { l with submitted := l.submitted ++ [call] }

def task? (l : PregelLoop C Ver) (taskId : String) : Option PregelTask :=
  l.tasks.bind (fun ts => ts.get? taskId)

def taskPath (l : PregelLoop C Ver) (taskId : String) : String :=
  match l.task? taskId with
  | some t => taskPathStr (.tuple t.path)
  | none => ""

-- Null writes are accumulated with the special ones dropped, another task's rows are replaced.
def keptWrites (taskId : String) (pending : List PendingWrite) : List PendingWrite :=
  if taskId = nullTaskId then
    pending.filter (fun w => w.taskId ≠ taskId ∨ ¬ Special w.channel)
  else pending.filter (fun w => w.taskId ≠ taskId)

def writesToSave (taskId : String) (pending : List PendingWrite) (writes : List Write) :
    List Write :=
  if taskId = nullTaskId then taskWritesOf taskId (keptWrites taskId pending) ++ writes
  else writes

def cacheWrites (taskId : String) (writes : List Write) (l : PregelLoop C Ver) :
    PregelLoop C Ver :=
  match l.cache, l.task? taskId with
  | some cache, some t =>
      match t.cacheKey with
      | some key =>
          if l.config.asyncLoop ∧ (writes.head?.map Prod.fst) ∈ [some Key.interrupt, some Key.error]
          then l
          else { l with cache := some (cache.set key t.writes) }
      | none => l
  | _, _ => l

-- What `put_writes` submits to the cache.
omit [BaseChannel C] in
def cacheEntry (taskId : String) (writes : List Write) (l : PregelLoop C Ver) :
    Option (CacheKey × List Write) :=
  match l.cache, l.task? taskId with
  | some _, some t =>
      match t.cacheKey with
      | some key =>
          if l.config.asyncLoop ∧ (writes.head?.map Prod.fst) ∈ [some Key.interrupt, some Key.error]
          then none
          else some (key, t.writes)
      | none => none
  | _, _ => none

def putWrites (g : Graph C) (taskId : String) (batch : List Write) (l : PregelLoop C Ver) :
    PregelLoop C Ver :=
  match batch with
  | [] => l
  | _ =>
      let writes := dedupWrites batch
      let toSave := sanitizeWrites g.specs l.channels
        (writesToSave taskId l.checkpointPendingWrites writes)
      let l := { l with
        checkpointPendingWrites := keptWrites taskId l.checkpointPendingWrites ++
          writes.map (fun w : Write => PendingWrite.mk taskId w.1 w.2) }
      let l :=
        if l.config.durability = .exit then l
        else l.submit (.putWrites l.checkpoint.id toSave taskId (l.taskPath taskId))
      l.cacheWrites taskId batch

def pendingCalls (l : PregelLoop C Ver) : List (SaverCall Ver) :=
  (taskIds l.checkpointPendingWrites).map (fun taskId =>
    .putWrites l.checkpoint.id (taskWritesOf taskId l.checkpointPendingWrites) taskId
      (l.taskPath taskId))

def putPendingWrites (l : PregelLoop C Ver) : PregelLoop C Ver :=
  { l with submitted := l.submitted ++ l.pendingCalls }

end PutWrites

section Tick

variable {C Ver : Type} [BaseChannel C]

def reapplied (pending : List PendingWrite) (t : PregelTask) : PregelTask :=
  { t with writes := t.writes ++
      (taskWritesOf t.id pending).filter (fun w => w.1 ∉ controlChannels) }

def reapplyWritesToSucceededNodes (pending : List PendingWrite) (tasks : Dict String PregelTask) :
    Dict String PregelTask :=
  tasks.mapValues (reapplied pending)

def failedTasks (pending : List PendingWrite) : List (String × Value) :=
  (taskIds (pending.filter (fun w => w.channel = Key.errorSourceNode))).filterMap
    (fun tid =>
      (pending.find? (fun w => w.taskId = tid ∧ w.channel = Key.error)).map
        (fun w => (tid, w.value)))

def prepareNodeErrorHandlerTask (g : Graph C) (failed : PregelTask) (handler : String)
    (checkpointId : String) (step : Int) : Option PregelTask :=
  match g.nodes.get? handler with
  | some proc =>
      if proc.hasNode then
        some
          { id := g.taskId [checkpointId, g.checkpointNs handler, toString step, handler, Key.push,
              "node_error_handler", failed.id]
            name := handler
            path := failed.path.take 3 ++ [.str "node_error_handler", .bool false]
            input := failed.input
            triggers := [Key.push]
            cacheKey := Graph.CacheKey.ofNode proc handler (failed.input.getD Value.none)
            writes := [] }
      else none
  | none => none

def resumeErrorHandler (g : Graph C) (checkpointId : String) (step : Int)
    (tasks : Dict String PregelTask) (failed : String × Value) : Dict String PregelTask :=
  match tasks.get? failed.1 with
  | none => tasks
  | some t =>
      match (g.nodes.get? t.name).bind PregelNode.errorHandlerNode with
      | none => tasks
      | some handler =>
          let tasks := tasks.set failed.1 { t with writes := t.writes ++ [(Key.error, failed.2)] }
          match prepareNodeErrorHandlerTask g t handler checkpointId step with
          | some h => tasks.set h.id h
          | none => tasks

def resumeErrorHandlers (g : Graph C) (checkpointId : String) (step : Int)
    (pending : List PendingWrite) (tasks : Dict String PregelTask) : Dict String PregelTask :=
  (failedTasks pending).foldl (resumeErrorHandler g checkpointId step) tasks

end Tick

end PregelLoop

end LangGraph
