import LangGraph.Graph.TriggerCells
import LangGraph.Pregel.Core
import LangGraph.Pregel.ErrorHandlers

namespace LangGraph

open Collections Transition

structure Environment where
  taskId : List String → String
  mappers : Nat → Value → Value
  managed : Dict String Value
  parentNs : String
  text : Value → String
  text_str : ∀ s, text (.str s) = s

-- What a node that did not raise gave back: its update, and what the path of each branch returned.
structure Returned where
  updates : List Write
  answers : String → List Value

inductive NodeError where
  | keyError (label : Value)
  | invalidDestination
  | sendToEnd
  deriving DecidableEq

namespace BranchSpec

def destination (ends : Dict Value String) (answer : Value) : Except NodeError Value :=
  match answer with
  | .send _ _ => .ok answer
  | _ =>
      match ends.get? answer with
      | some target => .ok (.str target)
      | none => .error (.keyError answer)

def resolve (branch : BranchSpec) (answers : List Value) : Except NodeError (List Value) :=
  match branch.ends with
  | some ends => if ends.items = [] then .ok answers else answers.mapM (destination ends)
  | none => .ok answers

def sendsToEnd : Value → Bool
  | .send node _ => node = endName
  | _ => false

def destinations (branch : BranchSpec) (answers : List Value) :
    Except NodeError (List Value) := do
  let targets ← branch.resolve answers
  if targets.any (fun d => d = Value.none ∨ d = .str Key.start) then .error .invalidDestination
  else if targets.any sendsToEnd then .error .sendToEnd
  else .ok targets

end BranchSpec

namespace Environment

variable (env : Environment)

def branchWrite (d : Value) : Write :=
  match d with
  | .send _ _ => (Key.tasks, d)
  | _ => (branchTo (env.text d), .none)

def getWrites (targets : List Value) : List Write :=
  (targets.filter (fun d => d ≠ .str endName)).map env.branchWrite

def write (r : Returned) : Writer → Except NodeError (List Write)
  | .updates keys => .ok (r.updates.filter (fun w => w.1 ∈ keys))
  | .entry channel value => .ok [(channel, value)]
  | .branch name spec => (spec.destinations (r.answers name)).map env.getWrites

-- The writers run one after the other: what they wrote stays when a later one raises.
def publish (r : Returned) : List Writer → List Write × Option NodeError
  | [] => ([], none)
  | w :: ws =>
      match env.write r w with
      | .error e => ([], some e)
      | .ok writes => (writes ++ (publish r ws).1, (publish r ws).2)

end Environment

namespace CompiledGraph

def pregelNodes (c : CompiledGraph) : Dict String PregelNode := c.nodes.mapValues CompiledNode.node

def graph (c : CompiledGraph) (env : Environment) : Graph Channel :=
  { nodes := c.pregelNodes
    specs := c.channels
    triggerToNodes := triggerToNodes c.pregelNodes
    taskId := env.taskId
    mappers := env.mappers
    managed := env.managed
    parentNs := env.parentNs }

def writers (c : CompiledGraph) (node : String) : List Writer :=
  ((c.nodes.get? node).map CompiledNode.writers).getD []

end CompiledGraph

-- A node whose return reached its edges, and the destinations its branches gave.
structure Ran where
  node : String
  destinations : List String
  deriving DecidableEq

-- `returned` is none for a task that raises; `handled` is what the error handler of a node gives.
structure Results where
  returned : String → Option Returned
  handled : String → Returned

inductive Turn where
  | input (value : Value)
  | superstep (results : Results)

-- What the checkpoint after a turn is made with.
structure Save (Ver : Type) [LinearOrder Ver] [OrderBot Ver] where
  next : GetNextVersion Ver
  increasing : StrictlyIncreasing next
  id : String
  snapshot : Finset String

structure Execution (Ver : Type) where
  checkpoint : Checkpoint Ver
  channels : Dict String Channel
  updated : Option (Finset String)
  step : Int
  log : List (List Ran)

namespace StateGraph

def branchesOf (g : StateGraph) (node : String) : List (String × BranchSpec) :=
  g.branches.items.flatMap (fun e => if e.1 = node then e.2.items else [])

def answered (r : Returned) : List (String × BranchSpec) → List Value
  | [] => []
  | b :: bs =>
      match b.2.destinations (r.answers b.1) with
      | .error _ => []
      | .ok targets => targets ++ answered r bs

def ran (g : StateGraph) (env : Environment) (node : String) (r : Returned) : Ran :=
  ⟨node, (answered r (g.branchesOf node)).map env.text⟩

end StateGraph

section Turns

variable {Ver : Type} [LinearOrder Ver] [OrderBot Ver]

structure Compilation where
  builder : StateGraph
  compiled : CompiledGraph
  env : Environment

namespace Compilation

variable (k : Compilation)

def graph : Graph Channel := k.compiled.graph k.env

def publish (node : String) (r : Returned) : List Write × Option NodeError :=
  k.env.publish r (k.compiled.writers node)

def finished (t : PregelTask) (writes : List Write) : PregelTask :=
  { t with writes := if writes = [] then [(Key.noWrites, .none)] else writes }

def failed (t : PregelTask) (writes : List Write) : PregelTask :=
  { t with writes := writes ++ [(Key.error, .scalar (.obj 0)), (Key.errorSourceNode, .str t.name)] }

-- The task of a node that raised, and the one of its error handler.
def handle (x : Execution Ver) (results : Results) (t : PregelTask) (writes : List Write)
    (ran : Option Ran) : Option (List (PregelTask × Option Ran)) :=
  match (k.graph.nodes.get? t.name).bind PregelNode.errorHandlerNode with
  | none => none
  | some handler =>
      match PregelLoop.prepareNodeErrorHandlerTask k.graph t handler x.checkpoint.id x.step with
      | none => none
      | some task =>
          let r := results.handled t.name
          match k.publish handler r with
          | (_, some _) => none
          | (handlerWrites, none) =>
              some [(failed t writes, ran),
                (finished task handlerWrites, some (k.builder.ran k.env handler r))]

def execute (x : Execution Ver) (results : Results) (t : PregelTask) :
    Option (List (PregelTask × Option Ran)) :=
  match results.returned t.name with
  | none => k.handle x results t [] none
  | some r =>
      let ran := some (k.builder.ran k.env t.name r)
      match k.publish t.name r with
      | (writes, none) => some [(finished t writes, ran)]
      | (writes, some _) => k.handle x results t writes ran

def prepared (x : Execution Ver) : List PregelTask :=
  (k.graph.prepareNextTasks x.checkpoint x.channels x.step true (some k.graph.triggerToNodes)
    x.updated).values

def discarded (x : Execution Ver) : List PregelTask :=
  (k.graph.prepareNextTasks x.checkpoint x.channels x.step true none
    (x.updated.filter (fun u => u ≠ ∅))).values

def applied (save : Save Ver) (tasks : List PregelTaskWrites) (entry : List Ran)
    (x : Execution Ver) : Option (Execution Ver) :=
  let r := applyWrites x.checkpoint x.channels tasks (some save.next) k.graph.triggerToNodes
  match r.2.2 with
  | .error _ => none
  | .ok updated =>
      let snapshot := save.snapshot.filter (fun chan => PregelLoop.deltaKey r.2.1 chan)
      let core : Core Channel Ver := ⟨r.1, r.2.1, ∅, []⟩
      some
        { checkpoint := core.created (some save.next) save.id (some updated) snapshot true
          channels := r.2.1
          updated := some updated
          step := x.step + 1
          log := entry :: x.log }

-- What a turn applies, and the nodes whose returns reached their edges.
def tasksOf (x : Execution Ver) : Turn → Option (List PregelTaskWrites × List Ran)
  | .input value =>
      some ((k.discarded x).map PregelTask.taskWrites ++
        [⟨[], Key.input, [(Key.start, value)], []⟩], [])
  | .superstep results =>
      match k.prepared x with
      | [] => none
      | tasks =>
          (tasks.mapM (k.execute x results)).map (fun done =>
            (done.flatten.map (fun d => d.1.taskWrites), done.flatten.filterMap Prod.snd))

def turn (x : Execution Ver) (save : Save Ver) (t : Turn) : Option (Execution Ver) :=
  (k.tasksOf x t).bind (fun work => k.applied save work.1 work.2 x)

def fresh (id : String) : Execution Ver :=
  ⟨emptyCheckpoint id, k.compiled.channels, none, -1, []⟩

-- A run that has ended, or raised, takes no further turn.
def step (x : Option (Execution Ver)) (e : Save Ver × Turn) : Option (Execution Ver) :=
  x.bind (fun x => k.turn x e.1 e.2)

end Compilation

end Turns

end LangGraph
