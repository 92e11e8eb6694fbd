import LangGraph.Pregel.Algo

namespace LangGraph

open Collections

inductive NodeChannels where
  | single (chan : String)
  | many (chans : List String)
  deriving DecidableEq

structure PregelNode where
  channels : NodeChannels
  triggers : List String
  mapper : Option Nat
  identifier : Option String
  cachePolicy : Option (Value → String)
  errorHandlerNode : Option String
  hasNode : Bool

abbrev InputCacheKey := Option Nat × List String

def PregelNode.inputCacheKey (proc : PregelNode) : InputCacheKey :=
  (proc.mapper,
    match proc.channels with
    | .single chan => [chan]
    | .many chans => chans)

abbrev InputCache := List (InputCacheKey × Value)

structure CacheKey where
  ns : List String
  key : String
  deriving DecidableEq

-- A task prepared for inspection only has no input, no triggers and no cache key.
structure PregelTask where
  id : String
  name : String
  path : List PathPart
  input : Option Value
  triggers : List String
  cacheKey : Option CacheKey
  writes : List Write

def PregelTask.taskWrites (t : PregelTask) : PregelTaskWrites := ⟨t.path, t.name, t.writes, t.triggers⟩

-- What the loop is given from outside: the hash of a task's parts, the mappers and managed values.
structure Graph (C : Type) where
  nodes : Dict String PregelNode
  specs : Dict String C
  triggerToNodes : Dict String (List String)
  taskId : List String → String
  mappers : Nat → Value → Value
  managed : Dict String Value
  parentNs : String

def Graph.ofSpecs {C : Type} (specs : Dict String C) : Graph C :=
  ⟨∅, specs, ∅, String.join, fun _ v => v, ∅, ""⟩

namespace Graph

variable {C Ver : Type} [BaseChannel C]

def checkpointNs (g : Graph C) (name : String) : String :=
  if g.parentNs = "" then name else g.parentNs ++ "|" ++ name

def CacheKey.ofNode (proc : PregelNode) (name : String) (input : Value) : Option CacheKey :=
  proc.cachePolicy.map (fun keyFunc =>
    ⟨["__pregel_ns_writes", proc.identifier.getD "__dynamic__", name], keyFunc input⟩)

def channelInput (g : Graph C) (channels : Dict String C) (chan : String) :
    Option (String × Value) :=
  match channels.get? chan with
  | some c => if BaseChannel.isAvailable c then (BaseChannel.get c).map (fun v => (chan, v)) else none
  | none => (g.managed.get? chan).map (fun v => (chan, v))

def readInput (g : Graph C) (channels : Dict String C) : NodeChannels → Option Value
  | .many chans => some (.dict (chans.filterMap (g.channelInput channels)))
  | .single chan =>
      match channels.get? chan with
      | some c => if BaseChannel.isAvailable c then BaseChannel.get c else none
      | none => none

def procInput (g : Graph C) (channels : Dict String C) (forExecution : Bool) (proc : PregelNode)
    (cache : InputCache) : Option Value × InputCache :=
  match cache.find? (fun e => e.1 = proc.inputCacheKey) with
  | some e => (some e.2, cache)
  | none =>
      match g.readInput channels proc.channels with
      | none => (none, cache)
      | some v =>
          let v :=
            match proc.mapper with
            | some m => if forExecution then g.mappers m v else v
            | none => v
          (some v, (proc.inputCacheKey, v) :: cache)

def triggers [LT Ver] [DecidableLT Ver] (channels : Dict String C) (versions : ChannelVersions Ver)
    (seen : Option (ChannelVersions Ver)) (nullVersion : Ver) (proc : PregelNode) : Bool :=
  proc.triggers.any (fun chan =>
    ((channels.get? chan).map BaseChannel.isAvailable).getD false &&
      match seen with
      | none => true
      | some seen => decide (seen.getD chan nullVersion < versions.getD chan nullVersion))

def sortedTriggers (proc : PregelNode) : List String := proc.triggers.insertionSort (· ≤ ·)

def pullId (g : Graph C) (checkpointId : String) (step : Int) (name : String)
    (proc : PregelNode) : String :=
  g.taskId ([checkpointId, g.checkpointNs name, toString step, name, Key.pull] ++
    sortedTriggers proc)

def pullTask (g : Graph C) (checkpointId : String) (step : Int) (forExecution : Bool)
    (name : String) (proc : PregelNode) (input : Value) : Option PregelTask :=
  let id := g.pullId checkpointId step name proc
  let path := [.str Key.pull, .str name]
  if forExecution then
    if proc.hasNode then
      some ⟨id, name, path, some input, sortedTriggers proc, CacheKey.ofNode proc name input, []⟩
    else none
  else some ⟨id, name, path, none, [], none, []⟩

def pushTask (g : Graph C) (checkpointId : String) (step : Int) (forExecution : Bool)
    (idx : Nat) : Value → Option PregelTask
  | .send node arg =>
      match g.nodes.get? node with
      | none => none
      | some proc =>
          let id := g.taskId
            [checkpointId, g.checkpointNs node, toString step, node, Key.push, toString idx]
          let path := [.str Key.push, .int idx, .bool false]
          if proc.hasNode then
            if forExecution then
              some ⟨id, node, path, some arg, [Key.push], CacheKey.ofNode proc node arg, []⟩
            else some ⟨id, node, path, none, [], none, []⟩
          else none
  | _ => none

def pendingSends (channels : Dict String C) : List Value :=
  match channels.get? Key.tasks with
  | some c =>
      if BaseChannel.isAvailable c then
        match BaseChannel.get c with
        | some (.list sends) => sends
        | _ => []
      else []
  | none => []

def pushTasks (g : Graph C) (checkpointId : String) (channels : Dict String C) (step : Int)
    (forExecution : Bool) : List PregelTask :=
  (pendingSends channels).zipIdx.filterMap
    (fun p => g.pushTask checkpointId step forExecution p.2 p.1)

section Prepare

variable [LinearOrder Ver] [OrderBot Ver]

def checkpointNullVersion (versions : ChannelVersions Ver) : Option Ver :=
  if versions.items = [] then none else some ⊥

def preparePull (g : Graph C) (checkpoint : Checkpoint Ver) (channels : Dict String C)
    (step : Int) (forExecution : Bool) (name : String) (cache : InputCache) :
    Option PregelTask × InputCache :=
  match g.nodes.get? name, checkpointNullVersion checkpoint.channelVersions with
  | some proc, some nullVersion =>
      if triggers channels checkpoint.channelVersions (checkpoint.versionsSeen.get? name)
          nullVersion proc then
        match g.procInput channels forExecution proc cache with
        | (none, cache) => (none, cache)
        | (some input, cache) =>
            (g.pullTask checkpoint.id step forExecution name proc input, cache)
      else (none, cache)
  | _, _ => (none, cache)

def preparePulls (g : Graph C) (checkpoint : Checkpoint Ver) (channels : Dict String C)
    (step : Int) (forExecution : Bool) : List String → InputCache → List PregelTask
  | [], _ => []
  | name :: names, cache =>
      let r := g.preparePull checkpoint channels step forExecution name cache
      r.1.toList ++ preparePulls g checkpoint channels step forExecution names r.2

def candidateNodes (g : Graph C) (checkpoint : Checkpoint Ver)
    (triggerToNodes : Option (Dict String (List String)))
    (updatedChannels : Option (Finset String)) : List String :=
  match updatedChannels, triggerToNodes with
  | some updated, some triggerToNodes =>
      if updated ≠ ∅ ∧ triggerToNodes.items ≠ [] then
        (((triggerToNodes.items.filter (fun e => e.1 ∈ updated)).flatMap Prod.snd).dedup).insertionSort
          (· ≤ ·)
      else if checkpoint.channelVersions.items = [] then [] else g.nodes.keys
  | _, _ => if checkpoint.channelVersions.items = [] then [] else g.nodes.keys

def prepareNextTasks (g : Graph C) (checkpoint : Checkpoint Ver) (channels : Dict String C)
    (step : Int) (forExecution : Bool) (triggerToNodes : Option (Dict String (List String)))
    (updatedChannels : Option (Finset String)) : Dict String PregelTask :=
  Dict.ofList
    ((g.pushTasks checkpoint.id channels step forExecution ++
      g.preparePulls checkpoint channels step forExecution
        (g.candidateNodes checkpoint triggerToNodes updatedChannels) []).map (fun t => (t.id, t)))

end Prepare

end Graph

end LangGraph
