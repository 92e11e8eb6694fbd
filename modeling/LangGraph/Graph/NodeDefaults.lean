import LangGraph.Collections.Keyed
import LangGraph.Graph.Compile

namespace LangGraph

open Collections

section Policies

variable (R C T : Type)

-- The policies of a node, and whether its runnable is sync only.
structure NodePolicies where
  retryPolicy : Option R
  cachePolicy : Option C
  timeout : Option T
  sync : Bool

-- The default error handler is kept by the graph; of its runnable it says whether it is sync.
structure NodeDefaults where
  retryPolicy : Option R
  cachePolicy : Option C
  timeout : Option T
  handlerSync : Bool

-- A builder whose nodes' policies stand beside their specs.
structure PolicyBuilder where
  graph : StateGraph
  policies : Dict String (NodePolicies R C T)
  defaults : NodeDefaults R C T

inductive PolicyCall where
  | addNode (node : String) (spec : StateNodeSpec) (policies : NodePolicies R C T)
      (errorHandler : Option Bool)
  | addEdge (startKey endKey : String)
  | addWaitingEdge (startKeys : List String) (endKey : String)
  | addConditionalEdges (source name : String) (branch : BranchSpec)
  | setNodeDefaults (retryPolicy : Option R) (cachePolicy : Option C) (timeout : Option T)
      (errorHandler : Option Bool)

structure CompiledBuilder where
  graph : CompiledGraph
  policies : Dict String (NodePolicies R C T)
  errorHandlers : List (String × String)

end Policies

-- `none` stands for "*".
structure Interrupts where
  before : Option (List String)
  after : Option (List String)

namespace PolicyBuilder

variable {R C T : Type}

def handlerPolicies (sync : Bool) : NodePolicies R C T := ⟨none, none, none, sync⟩

def addHandlerPolicies (node : String) (errorHandler : Option Bool)
    (policies : Dict String (NodePolicies R C T)) : Dict String (NodePolicies R C T) :=
  match errorHandler with
  | some sync => policies.set ("__error_handler__" ++ node) (handlerPolicies sync)
  | none => policies

def setNodeDefaults (retryPolicy : Option R) (cachePolicy : Option C) (timeout : Option T)
    (errorHandler : Option Bool) (b : PolicyBuilder R C T) : PolicyBuilder R C T :=
  { b with
    graph := { b.graph with
      defaultErrorHandler := b.graph.defaultErrorHandler || errorHandler.isSome }
    defaults :=
      { retryPolicy := retryPolicy.or b.defaults.retryPolicy
        cachePolicy := cachePolicy.or b.defaults.cachePolicy
        timeout := timeout.or b.defaults.timeout
        handlerSync := errorHandler.getD b.defaults.handlerSync } }

def call (b : PolicyBuilder R C T) : PolicyCall R C T → Except String (PolicyBuilder R C T)
  | .addNode node spec policies errorHandler => do
      let graph ← b.graph.addNode node spec errorHandler.isSome
      return { b with
        graph := graph
        policies := (addHandlerPolicies node errorHandler b.policies).set node policies }
  | .addEdge startKey endKey => do
      return { b with graph := ← b.graph.addEdge startKey endKey }
  | .addWaitingEdge startKeys endKey => do
      return { b with graph := ← b.graph.addWaitingEdge startKeys endKey }
  | .addConditionalEdges source name branch => do
      return { b with graph := ← b.graph.addConditionalEdges source name branch }
  | .setNodeDefaults retryPolicy cachePolicy timeout errorHandler =>
      return b.setNodeDefaults retryPolicy cachePolicy timeout errorHandler

-- A call that raises leaves the builder as it is.
def called (b : PolicyBuilder R C T) (c : PolicyCall R C T) : PolicyBuilder R C T :=
  match b.call c with
  | .ok b' => b'
  | .error _ => b

def checkInterrupts (interrupts : Interrupts) (b : PolicyBuilder R C T) : Except String Unit :=
  let names := match interrupts.after with
    | some after => interrupts.before.getD [] ++ after
    | none => []
  match names.find? (fun node => node ∉ b.graph.nodes.keys) with
  | some node => .error s!"Interrupt node `{node}` not found"
  | none => .ok ()

def isErrorHandler (b : PolicyBuilder R C T) (node : String) : Bool :=
  ((b.graph.nodes.get? node).map StateNodeSpec.isErrorHandler).getD false

def fill (defaults : NodeDefaults R C T) (isErrorHandler : Bool) (p : NodePolicies R C T) :
    NodePolicies R C T :=
  { p with
    retryPolicy := p.retryPolicy.or defaults.retryPolicy
    cachePolicy := if isErrorHandler then p.cachePolicy
      else p.cachePolicy.or defaults.cachePolicy
    timeout := p.timeout.or defaults.timeout }

def fillAll (b : PolicyBuilder R C T) : PolicyBuilder R C T :=
  { b with policies := b.policies.mapKeyed (fun node p =>
      fill b.defaults (b.isErrorHandler node) p) }

def withHandler (graph : StateGraph) (b : PolicyBuilder R C T) : PolicyBuilder R C T :=
  { b with
    graph := graph
    policies := if b.graph.defaultErrorHandler then
      b.policies.set defaultErrorHandlerNode (handlerPolicies b.defaults.handlerSync)
    else b.policies }

-- The checks, and what `compile` then writes into the builder.
def prepared (interrupts : Interrupts) (b : PolicyBuilder R C T) :
    Except String (PolicyBuilder R C T) := do
  b.graph.validate
  b.checkInterrupts interrupts
  let graph ← b.graph.withDefaultErrorHandler
  return (b.withHandler graph).fillAll

def checkTimeouts (b : PolicyBuilder R C T) : Except String Unit :=
  match b.policies.items.find? (fun e => e.2.timeout.isSome && e.2.sync) with
  | some e => .error ("Node timeouts are only supported for async nodes because sync Python " ++
      s!"execution cannot be safely cancelled in-process. Node '{e.1}' is sync.")
  | none => .ok ()

def checkNames (kind : String) (names : List String) : Except String Unit :=
  match names.find? (fun name => name ∈ reserved) with
  | some name => .error s!"{kind} name '{name}' is reserved"
  | none => .ok ()

def checkKnown (nodes : List String) (names : Option (List String)) : Except String Unit :=
  match (names.getD []).find? (fun node => node ∉ nodes) with
  | some node => .error s!"Node {node} not in nodes"
  | none => .ok ()

-- What an attached graph reads, subscribes to and streams are channels of it.
def validateGraph (interrupts : Interrupts) (b : PolicyBuilder R C T) : Except String Unit := do
  b.checkTimeouts
  checkNames "Channel" b.graph.attach.channels.keys
  checkNames "Managed" b.graph.managed
  checkNames "Node" b.graph.attach.nodes.keys
  checkKnown b.graph.attach.nodes.keys interrupts.after
  checkKnown b.graph.attach.nodes.keys interrupts.before

def errorHandlerMap (graph : StateGraph) : List (String × String) :=
  graph.nodes.items.filterMap (fun e =>
    if e.2.isErrorHandler then none else e.2.errorHandlerNode.map (fun handler => (e.1, handler)))

def compiled (b : PolicyBuilder R C T) : CompiledBuilder R C T :=
  ⟨b.graph.attach, b.policies, errorHandlerMap b.graph⟩

-- The compiled graph, and the builder as the call leaves it.
def compile (interrupts : Interrupts) (b : PolicyBuilder R C T) :
    Except String (CompiledBuilder R C T) × PolicyBuilder R C T :=
  match b.prepared interrupts with
  | .error e => (.error e, b)
  | .ok b' => ((b'.validateGraph interrupts).map (fun _ => b'.compiled), b')

end PolicyBuilder

section Calls

variable {R C T : Type} {b b' : PolicyBuilder R C T} {c : PolicyCall R C T}

namespace StateGraph

-- A call adds nodes and leaves those that are there.
structure Extends (g g' : StateGraph) : Prop where
  nodes : ∀ node ∈ g.nodes.keys, g'.nodes.get? node = g.nodes.get? node
  handler : g.defaultErrorHandler = true → g'.defaultErrorHandler = true

theorem Extends.refl (g : StateGraph) : g.Extends g := ⟨fun _ _ => rfl, fun h => h⟩

theorem Extends.mem {g g' : StateGraph} (h : g.Extends g') {node : String}
    (hnode : node ∈ g.nodes.keys) : node ∈ g'.nodes.keys := by
  obtain ⟨spec, hspec⟩ := Dict.mem_keys.mp hnode
  exact Dict.mem_keys.mpr ⟨spec, (h.nodes node hnode).trans hspec⟩

theorem addNode_ok {g g' : StateGraph} {node : String} {spec : StateNodeSpec}
    {errorHandler : Bool} (h : g.addNode node spec errorHandler = .ok g') :
    g.Extends g' ∧ node ∉ g.nodes.keys ∧ node ∈ g'.nodes.keys ∧
      (errorHandler = true → "__error_handler__" ++ node ∉ g.nodes.keys ∧
        "__error_handler__" ++ node ∈ g'.nodes.keys) := by
  rw [addNode] at h
  split at h
  · cases h
  · rename_i hnode
    split at h
    · cases h
    · split at h
      · cases h
      · split at h
        · cases h
        · split at h
          · dsimp only at h
            split at h
            · cases h
            · rename_i hhandler
              cases h
              refine ⟨⟨fun other hother => ?_, fun hset => hset⟩, hnode, ?_, fun _ => ⟨hhandler, ?_⟩⟩
              · have hne : other ≠ node := fun heq => hnode (heq ▸ hother)
                have hne' : other ≠ "__error_handler__" ++ node :=
                  fun heq => hhandler (heq ▸ hother)
                rw [setNode, addErrorHandler, Dict.get?_set_ne _ hne, Dict.get?_set_ne _ hne']
              · exact Dict.mem_keys_set.mpr (Or.inl rfl)
              · exact Dict.mem_keys_set.mpr (Or.inr (Dict.mem_keys_set.mpr (Or.inl rfl)))
          · rename_i hnone
            cases h
            refine ⟨⟨fun other hother => ?_, fun hset => hset⟩, hnode, ?_,
              fun hset => absurd hset hnone⟩
            · have hne : other ≠ node := fun heq => hnode (heq ▸ hother)
              rw [setNode, Dict.get?_set_ne _ hne]
            · exact Dict.mem_keys_set.mpr (Or.inl rfl)

theorem addEdge_nodes {g g' : StateGraph} {startKey endKey : String}
    (h : g.addEdge startKey endKey = .ok g') : g'.nodes = g.nodes ∧
      g'.defaultErrorHandler = g.defaultErrorHandler := by
  rw [addEdge] at h
  split at h
  · cases h
  · split at h
    · cases h
    · cases h
      exact ⟨rfl, rfl⟩

theorem addWaitingEdge_nodes {g g' : StateGraph} {startKeys : List String} {endKey : String}
    (h : g.addWaitingEdge startKeys endKey = .ok g') : g'.nodes = g.nodes ∧
      g'.defaultErrorHandler = g.defaultErrorHandler := by
  obtain ⟨u, -, h⟩ := Exceptions.bind_ok h
  split at h
  · cases h
  · split at h
    · cases h
    · cases h
      exact ⟨rfl, rfl⟩

theorem addConditionalEdges_nodes {g g' : StateGraph} {source name : String}
    {branch : BranchSpec} (h : g.addConditionalEdges source name branch = .ok g') :
    g'.nodes = g.nodes ∧ g'.defaultErrorHandler = g.defaultErrorHandler := by
  simp only [addConditionalEdges] at h
  split at h
  · cases h
  · cases h
    exact ⟨rfl, rfl⟩

theorem Extends.of_nodes {g g' : StateGraph}
    (h : g'.nodes = g.nodes ∧ g'.defaultErrorHandler = g.defaultErrorHandler) : g.Extends g' :=
  ⟨fun _ _ => by rw [h.1], fun hset => by rw [h.2]; exact hset⟩

end StateGraph

namespace PolicyBuilder

-- The nodes that have policies are nodes of the graph.
def Tidy (b : PolicyBuilder R C T) : Prop := ∀ node ∈ b.policies.keys, node ∈ b.graph.nodes.keys

theorem call_ok (h : b.call c = .ok b') :
    b.graph.Extends b'.graph ∧ (∀ node ∈ b.policies.keys, node ∈ b'.policies.keys) ∧
      (b.Tidy → b'.Tidy) := by
  cases c with
  | addNode node spec policies errorHandler =>
    obtain ⟨graph, hgraph, h⟩ := Exceptions.bind_ok h
    cases h
    obtain ⟨hextends, -, hadded, hhandler⟩ := StateGraph.addNode_ok hgraph
    cases errorHandler with
    | none =>
      refine ⟨hextends, fun other hother => Dict.mem_keys_set.mpr (Or.inr hother),
        fun htidy other hother => ?_⟩
      rcases Dict.mem_keys_set.mp hother with rfl | hother
      · exact hadded
      · exact hextends.mem (htidy other hother)
    | some sync =>
      refine ⟨hextends, fun other hother => Dict.mem_keys_set.mpr
        (Or.inr (Dict.mem_keys_set.mpr (Or.inr hother))), fun htidy other hother => ?_⟩
      rcases Dict.mem_keys_set.mp hother with rfl | hother
      · exact hadded
      · rcases Dict.mem_keys_set.mp hother with rfl | hother
        · exact (hhandler rfl).2
        · exact hextends.mem (htidy other hother)
  | addEdge startKey endKey =>
    obtain ⟨graph, hgraph, h⟩ := Exceptions.bind_ok h
    cases h
    have hextends := StateGraph.Extends.of_nodes (StateGraph.addEdge_nodes hgraph)
    exact ⟨hextends, fun _ hother => hother, fun htidy other hother =>
      hextends.mem (htidy other hother)⟩
  | addWaitingEdge startKeys endKey =>
    obtain ⟨graph, hgraph, h⟩ := Exceptions.bind_ok h
    cases h
    have hextends := StateGraph.Extends.of_nodes (StateGraph.addWaitingEdge_nodes hgraph)
    exact ⟨hextends, fun _ hother => hother, fun htidy other hother =>
      hextends.mem (htidy other hother)⟩
  | addConditionalEdges source name branch =>
    obtain ⟨graph, hgraph, h⟩ := Exceptions.bind_ok h
    cases h
    have hextends := StateGraph.Extends.of_nodes (StateGraph.addConditionalEdges_nodes hgraph)
    exact ⟨hextends, fun _ hother => hother, fun htidy other hother =>
      hextends.mem (htidy other hother)⟩
  | setNodeDefaults retryPolicy cachePolicy timeout errorHandler =>
    cases h
    refine ⟨⟨fun _ _ => rfl, fun hset => ?_⟩, fun _ hother => hother, fun htidy => htidy⟩
    have hor : (b.graph.defaultErrorHandler || errorHandler.isSome) = true := by rw [hset]; rfl
    exact hor

theorem called_extends (b : PolicyBuilder R C T) (c : PolicyCall R C T) :
    b.graph.Extends (b.called c).graph ∧
      (∀ node ∈ b.policies.keys, node ∈ (b.called c).policies.keys) ∧
      (b.Tidy → (b.called c).Tidy) := by
  rw [called]
  cases hcall : b.call c with
  | error e => exact ⟨.refl b.graph, fun _ h => h, fun h => h⟩
  | ok b' => exact call_ok hcall

theorem isErrorHandler_of_extends (h : b.graph.Extends b'.graph) {node : String}
    (hnode : node ∈ b.graph.nodes.keys) : b'.isErrorHandler node = b.isErrorHandler node := by
  rw [isErrorHandler, isErrorHandler, h.nodes node hnode]

end PolicyBuilder

end Calls

end LangGraph
