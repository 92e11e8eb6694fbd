import LangGraph.Collections.Dict
import Mathlib.Data.List.Basic

namespace LangGraph

open Collections

namespace Stream

abbrev Namespace := List String

def parseNsSegment (segment : String) : String × Option String :=
  match segment.toList.dropWhile (fun c => c ≠ ':') with
  | [] => (segment, none)
  | _ :: taskId =>
      (String.ofList (segment.toList.takeWhile (fun c => c ≠ ':')), some (String.ofList taskId))

def triggerCallId (ns : Namespace) : Option String :=
  ns.getLast?.bind (fun segment => (parseNsSegment segment).2)

inductive SubgraphStatus where
  | started
  | completed
  | failed
  | interrupted
  | drained
  deriving DecidableEq

-- `toolCallId` is the id harvested from the task's `input`.
structure TaskStart where
  id : Option String
  lcAgentName : Option String
  toolCallId : Option String

-- `interrupts` and `error` as far as they are truthy.
structure TaskResult where
  id : Option String
  interrupts : Bool
  error : Option String

inductive TaskData where
  | start (data : TaskStart)
  | result (data : TaskResult)

structure TaskEvent where
  ns : Namespace
  data : TaskData

inductive RunError where
  | drained
  | interrupted
  | other (message : String)

abbrev Outcome := SubgraphStatus × Option String

def statusFromException : RunError → Outcome
  | .drained => (.drained, none)
  | .interrupted => (.interrupted, none)
  | .other message => (.failed, some message)

def terminalFromResult (r : TaskResult) : Outcome :=
  if r.interrupts then (.interrupted, none)
  else
    match r.error with
    | some error => (.failed, some error)
    | none => (.completed, none)

inductive Ending where
  | finalize
  | fail (err : RunError)

def Ending.outcome : Ending → Outcome
  | .finalize => (.completed, none)
  | .fail err => statusFromException err

def graphName (ns : Namespace) (data : TaskStart) : Option String :=
  match data.lcAgentName with
  | some name => if name = "" then none else some name
  | none =>
      let parsed := (parseNsSegment (ns.getLast?.getD "")).1
      if parsed = "" then none else some parsed

structure LifecyclePayload where
  event : SubgraphStatus
  ns : Namespace
  graphName : Option String
  triggerCallId : Option String
  cause : Option String
  error : Option String
  deriving DecidableEq

structure LifecycleTransformer where
  scope : Namespace
  seen : List Namespace
  opened : List (Namespace × String)
  pendingToolCalls : Dict String String
  channel : List LifecyclePayload

namespace LifecycleTransformer

def init (scope : Namespace) : LifecycleTransformer := ⟨scope, [], [], ∅, []⟩

def shouldTrack (scope ns : Namespace) : Bool :=
  decide (scope.length < ns.length) && ns.take scope.length = scope

def recordPendingToolCalls (data : TaskStart) (l : LifecycleTransformer) : LifecycleTransformer :=
  match data.id, data.toolCallId with
  | some id, some call => { l with pendingToolCalls := l.pendingToolCalls.set id call }
  | _, _ => l

def cause (taskId : String) (data : TaskStart) (l : LifecycleTransformer) : Option String :=
  match data.lcAgentName, l.pendingToolCalls.get? taskId with
  | some _, some call => if call = "" then none else some call
  | _, _ => none

def startedPayload (ns : Namespace) (taskId : String) (data : TaskStart)
    (l : LifecycleTransformer) : LifecyclePayload :=
  ⟨.started, ns, graphName ns data, some taskId, l.cause taskId data, none⟩

def terminalPayload (outcome : Outcome) (ns : Namespace) : LifecyclePayload :=
  ⟨outcome.1, ns, none, none, none, outcome.2⟩

def handleTaskStart (ns : Namespace) (data : TaskStart) (l : LifecycleTransformer) :
    LifecycleTransformer :=
  if !shouldTrack l.scope ns || ns ∈ l.seen then l
  else
    match triggerCallId ns with
    | none => { l with seen := l.seen ++ [ns] }
    | some taskId => { l with
        seen := l.seen ++ [ns]
        channel := l.channel ++ [l.startedPayload ns taskId data]
        opened := l.opened ++ [(ns, taskId)] }

def closedBy (ns : Namespace) (id : Option String) (o : Namespace × String) : Bool :=
  match id with
  | none => false
  | some id => decide (id ≠ "") && decide (o.1.dropLast = ns) && decide (o.2 = id)

def handleTaskResult (ns : Namespace) (data : TaskResult) (l : LifecycleTransformer) :
    LifecycleTransformer :=
  { l with
    channel := l.channel ++ (l.opened.filter (closedBy ns data.id)).map
      (fun o => terminalPayload (terminalFromResult data) o.1)
    opened := l.opened.filter (fun o => !closedBy ns data.id o) }

def process (l : LifecycleTransformer) (event : TaskEvent) : LifecycleTransformer :=
  match event.data with
  | .start data => (l.recordPendingToolCalls data).handleTaskStart event.ns data
  | .result data => l.handleTaskResult event.ns data

-- `finalize` and `fail`.
def endRun (ending : Ending) (l : LifecycleTransformer) : LifecycleTransformer :=
  { l with
    channel := l.channel ++ l.opened.map (fun o => terminalPayload ending.outcome o.1)
    opened := [] }

end LifecycleTransformer

-- `waits` is the task id under which the namespace stands in `_open`; a handle that has seen
-- its terminal event has a mini-mux that is closed or failed.
structure HandleInfo where
  graphName : Option String
  triggerCallId : Option String
  status : SubgraphStatus
  error : Option String
  waits : Option String
  terminal : Bool

-- The `SubgraphTransformer` of a mux: the handles of its direct children by their last
-- segment, each with the transformer of its mini-mux.
inductive Subgraphs where
  | mk (handles : List (String × HandleInfo × Subgraphs))

namespace Subgraphs

def handles : Subgraphs → List (String × HandleInfo × Subgraphs)
  | .mk handles => handles

def empty : Subgraphs := .mk []

def get (seg : String) (t : Subgraphs) : Option (HandleInfo × Subgraphs) :=
  (t.handles.find? (fun h => h.1 = seg)).map Prod.snd

def modify (seg : String) (f : HandleInfo × Subgraphs → HandleInfo × Subgraphs)
    (t : Subgraphs) : Subgraphs :=
  .mk (t.handles.map (fun h => if h.1 = seg then (h.1, f h.2) else h))

def newHandle (seg : String) (data : TaskStart) : HandleInfo × Subgraphs :=
  (⟨graphName [seg] data, triggerCallId [seg], .started, none, triggerCallId [seg], false⟩, empty)

def handleTaskStart (seg : String) (data : TaskStart) (t : Subgraphs) : Subgraphs :=
  if (t.get seg).isSome then t else .mk (t.handles ++ [(seg, newHandle seg data)])

def markTerminal (outcome : Outcome) (info : HandleInfo) : HandleInfo :=
  if info.terminal then { info with waits := none }
  else { info with
    status := outcome.1
    error := info.error.or outcome.2
    waits := none
    terminal := true }

mutual

-- What closing (`completed`) or failing the mux does to the handles below it.
def finish (outcome : Outcome) : Subgraphs → Subgraphs
  | .mk handles => .mk (finishHandles outcome handles)

def finishHandles (outcome : Outcome) :
    List (String × HandleInfo × Subgraphs) → List (String × HandleInfo × Subgraphs)
  | [] => []
  | (seg, info, sub) :: rest =>
      (seg, markTerminal outcome info, if info.terminal then sub else sub.finish outcome) ::
        finishHandles outcome rest

end

-- `_close_or_fail_handle`: what a handle's mini-mux is ended with.
def cascade : Outcome → Outcome
  | (.failed, error) => (.failed, some (error.getD "Subgraph failed"))
  | _ => (.completed, none)

def popChild (data : TaskResult) (child : HandleInfo × Subgraphs) : HandleInfo × Subgraphs :=
  if data.id.getD "" ≠ "" ∧ child.1.waits = data.id then
    (markTerminal (terminalFromResult data) child.1,
      if child.1.terminal then child.2 else child.2.finish (cascade (terminalFromResult data)))
  else child

def popTerminalTransitions (data : TaskResult) (t : Subgraphs) : Subgraphs :=
  .mk (t.handles.map (fun h => (h.1, popChild data h.2)))

def openChild (data : TaskData) (seg : String) (rest : List String) (t : Subgraphs) : Subgraphs :=
  match data, rest with
  | .start start, [] => t.handleTaskStart seg start
  | _, _ => t

-- `process` of the transformer whose scope the path is relative to.
def process (data : TaskData) : List String → Subgraphs → Subgraphs
  | [], t =>
      match data with
      | .start _ => t
      | .result result => t.popTerminalTransitions result
  | seg :: rest, t =>
      let t := t.openChild data seg rest
      match t.get seg with
      | none => t
      | some (info, _) =>
          if info.terminal then t
          else t.modify seg (fun child => (child.1, process data rest child.2))

def lookup : List String → Subgraphs → Option HandleInfo
  | [], _ => none
  | [seg], t => (t.get seg).map Prod.fst
  | seg :: rest, t => (t.get seg).bind (fun child => lookup rest child.2)

end Subgraphs

structure SubgraphTransformer where
  scope : Namespace
  subgraphs : Subgraphs

namespace SubgraphTransformer

def init (scope : Namespace) : SubgraphTransformer := ⟨scope, .empty⟩

def process (t : SubgraphTransformer) (event : TaskEvent) : SubgraphTransformer :=
  if event.ns.take t.scope.length = t.scope then
    { t with subgraphs := t.subgraphs.process event.data (event.ns.drop t.scope.length) }
  else t

def endRun (ending : Ending) (t : SubgraphTransformer) : SubgraphTransformer :=
  { t with subgraphs := t.subgraphs.finish ending.outcome }

def handle (t : SubgraphTransformer) (ns : Namespace) : Option HandleInfo :=
  if ns.take t.scope.length = t.scope then t.subgraphs.lookup (ns.drop t.scope.length) else none

end SubgraphTransformer

end Stream

end LangGraph
