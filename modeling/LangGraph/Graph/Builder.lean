import LangGraph.Graph.Migration
import LangGraph.Collections.Exceptions
import LangGraph.Pregel.ParentCommand

namespace LangGraph

open Collections

def defaultErrorHandlerNode : String := "__default_error_handler__"

structure BranchSpec where
  ends : Option (Dict Value String)

structure StateNodeSpec where
  inputChannels : List String
  mapper : Option Nat
  identifier : Option String
  cachePolicy : Option (Value → String)
  isErrorHandler : Bool
  errorHandlerNode : Option String
  ends : List String
  defer : Bool

structure StateGraph where
  channels : Dict String Channel
  managed : List String
  inputKeys : List String
  stateKeys : List String
  stateMapper : Option Nat
  defaultErrorHandler : Bool
  nodes : Dict String StateNodeSpec
  edges : List (String × String)
  waitingEdges : List (List String × String)
  branches : Dict String (Dict String BranchSpec)

inductive BuilderCall where
  | addNode (node : String) (spec : StateNodeSpec) (errorHandler : Bool)
  | addEdge (startKey endKey : String)
  | addWaitingEdge (startKeys : List String) (endKey : String)
  | addConditionalEdges (source name : String) (branch : BranchSpec)
  | setDefaultErrorHandler

namespace StateGraph

def ofSchema (channels : Dict String Channel) (managed inputKeys stateKeys : List String)
    (stateMapper : Option Nat) : StateGraph :=
  ⟨channels, managed, inputKeys, stateKeys, stateMapper, false, ∅, [], [], ∅⟩

def addErrorHandler (node : String) (inputChannels : List String) (mapper : Option Nat)
    (g : StateGraph) : StateGraph :=
  { g with nodes := g.nodes.set node ⟨inputChannels, mapper, none, none, true, none, [], false⟩ }

def setNode (node : String) (spec : StateNodeSpec) (handler : Option String) (g : StateGraph) :
    StateGraph :=
  let spec := { spec with isErrorHandler := false, errorHandlerNode := handler }
  { g with nodes := g.nodes.set node spec }

def addNode (node : String) (spec : StateNodeSpec) (errorHandler : Bool) (g : StateGraph) :
    Except String StateGraph :=
  if node ∈ g.nodes.keys then .error s!"Node `{node}` already present."
  else if node = endName ∨ node = Key.start then .error s!"Node `{node}` is reserved."
  else if nsSep ∈ node.toList then
    .error s!"'{nsSep}' is a reserved character and is not allowed in the node names."
  else if nsEnd ∈ node.toList then
    .error s!"'{nsEnd}' is a reserved character and is not allowed in the node names."
  else if errorHandler then
    let handler := "__error_handler__" ++ node
    if handler ∈ g.nodes.keys then
      .error s!"Auto-generated error handler node `{handler}` already exists."
    else
      .ok ((g.addErrorHandler handler spec.inputChannels spec.mapper).setNode node spec
        (some handler))
  else .ok (g.setNode node spec none)

def addEdge (startKey endKey : String) (g : StateGraph) : Except String StateGraph :=
  if startKey = endName then .error "END cannot be a start node"
  else if endKey = Key.start then .error "START cannot be an end node"
  else .ok { g with edges := if (startKey, endKey) ∈ g.edges then g.edges
    else g.edges ++ [(startKey, endKey)] }

def checkStart (g : StateGraph) (start : String) : Except String Unit :=
  if start = endName then .error "END cannot be a start node"
  else if start ∉ g.nodes.keys then .error s!"Need to add_node `{start}` first"
  else .ok ()

def addWaitingEdge (startKeys : List String) (endKey : String) (g : StateGraph) :
    Except String StateGraph := do
  startKeys.forM g.checkStart
  if endKey = Key.start then .error "START cannot be an end node"
  else if endKey ≠ endName ∧ endKey ∉ g.nodes.keys then
    .error s!"Need to add_node `{endKey}` first"
  else .ok { g with waitingEdges := if (startKeys, endKey) ∈ g.waitingEdges then g.waitingEdges
    else g.waitingEdges ++ [(startKeys, endKey)] }

def addConditionalEdges (source name : String) (branch : BranchSpec) (g : StateGraph) :
    Except String StateGraph :=
  let named := g.branches.getD source ∅
  if name ∈ named.keys then
    .error s!"Branch with name `{name}` already exists for node `{source}`"
  else .ok { g with branches := g.branches.set source (named.set name branch) }

def call (g : StateGraph) : BuilderCall → Except String StateGraph
  | .addNode node spec errorHandler => g.addNode node spec errorHandler
  | .addEdge startKey endKey => g.addEdge startKey endKey
  | .addWaitingEdge startKeys endKey => g.addWaitingEdge startKeys endKey
  | .addConditionalEdges source name branch => g.addConditionalEdges source name branch
  | .setDefaultErrorHandler => .ok { g with defaultErrorHandler := true }

def build (g : StateGraph) (calls : List BuilderCall) : Except String StateGraph :=
  calls.foldlM call g

def allEdges (g : StateGraph) : List (String × String) :=
  g.edges ++ g.waitingEdges.flatMap (fun e => e.1.map (fun start => (start, e.2)))

def allSources (g : StateGraph) : List String :=
  g.allEdges.map Prod.fst ++ g.branches.keys ++
    (g.nodes.items.filter (fun e => !e.2.ends.isEmpty)).map Prod.fst

def branchTargets (g : StateGraph) (start : String) (branch : BranchSpec) : List String :=
  match branch.ends with
  | some ends => ends.values
  | none => endName :: g.nodes.keys.filter (fun node => node ≠ start)

def checkBranch (g : StateGraph) (start cond : String) (branch : BranchSpec) :
    Except String Unit :=
  match branch.ends with
  | none => .ok ()
  | some ends =>
      match ends.values.find? (fun target => target ∉ g.nodes.keys ∧ target ≠ endName) with
      | some target =>
          .error s!"At '{start}' node, '{cond}' branch found unknown target '{target}'"
      | none => .ok ()

def checkBranches (g : StateGraph) : Except String Unit :=
  g.branches.items.forM (fun e => e.2.items.forM (fun b => g.checkBranch e.1 b.1 b.2))

def allTargets (g : StateGraph) : List String :=
  g.allEdges.map Prod.snd ++
    g.branches.items.flatMap (fun e => e.2.values.flatMap (g.branchTargets e.1)) ++
    g.nodes.values.flatMap StateNodeSpec.ends

def checkTargets (g : StateGraph) : Except String Unit :=
  match g.allTargets.find? (fun target => target ∉ g.nodes.keys ∧ target ≠ endName) with
  | some target => .error s!"Found edge ending at unknown node `{target}`"
  | none => .ok ()

def validate (g : StateGraph) : Except String Unit :=
  match g.allSources.find? (fun source => source ∉ g.nodes.keys ∧ source ≠ Key.start) with
  | some source => .error s!"Found edge starting at unknown node '{source}'"
  | none =>
      if Key.start ∉ g.allSources then
        .error "Graph must have an entrypoint: add at least one edge from START to another node"
      else do
        g.checkBranches
        g.checkTargets

def withDefaultErrorHandler (g : StateGraph) : Except String StateGraph :=
  if g.defaultErrorHandler then
    if defaultErrorHandlerNode ∈ g.nodes.keys then
      .error
        s!"Auto-generated default error handler node `{defaultErrorHandlerNode}` already exists."
    else
      let g := g.addErrorHandler defaultErrorHandlerNode g.stateKeys g.stateMapper
      .ok { g with nodes := g.nodes.mapValues (fun spec =>
        if spec.isErrorHandler ∨ spec.errorHandlerNode.isSome then spec
        else { spec with errorHandlerNode := some defaultErrorHandlerNode }) }
  else .ok g

structure WellFormed (g : StateGraph) : Prop where
  names : ∀ node ∈ g.nodes.keys, node ≠ Key.start ∧ node ≠ endName ∧ nsEnd ∉ node.toList
  edges : ∀ e ∈ g.edges, e.2 ≠ Key.start
  waiting : ∀ e ∈ g.waitingEdges,
    (∀ start ∈ e.1, start ∈ g.nodes.keys) ∧ (e.2 = endName ∨ e.2 ∈ g.nodes.keys)

section WellFormed

variable {g g' : StateGraph}

theorem wellFormed_ofSchema (channels : Dict String Channel)
    (managed inputKeys stateKeys : List String) (stateMapper : Option Nat) :
    (ofSchema channels managed inputKeys stateKeys stateMapper).WellFormed where
  names node h := by cases h
  edges e h := by cases h
  waiting e h := by cases h

theorem WellFormed.set_node (h : g.WellFormed) {node : String} (hnode : node ≠ Key.start)
    (hend : node ≠ endName) (hcolon : nsEnd ∉ node.toList) (spec : StateNodeSpec) :
    WellFormed { g with nodes := g.nodes.set node spec } where
  names other hother := by
    rcases Dict.mem_keys_set.mp hother with rfl | hbefore
    · exact ⟨hnode, hend, hcolon⟩
    · exact h.names other hbefore
  edges := h.edges
  waiting e he := by
    obtain ⟨hstarts, htarget⟩ := h.waiting e he
    exact ⟨fun start hs => Dict.mem_keys_set.mpr (Or.inr (hstarts start hs)),
      htarget.imp id (fun ht => Dict.mem_keys_set.mpr (Or.inr ht))⟩

theorem handler_ne (node : String) :
    "__error_handler__" ++ node ≠ Key.start ∧ "__error_handler__" ++ node ≠ endName := by
  constructor
  · intro h
    have hthird := congrArg (fun s => s.toList[3]?) h
    rw [String.toList_append] at hthird
    exact absurd hthird (by simp [Key.start])
  · intro h
    have hfourth := congrArg (fun s => s.toList[3]?) h
    rw [String.toList_append] at hfourth
    exact absurd hfourth (by simp [endName])

theorem WellFormed.addNode (h : g.WellFormed) {node : String} {spec : StateNodeSpec}
    {errorHandler : Bool} (hg : g.addNode node spec errorHandler = .ok g') : g'.WellFormed := by
  unfold StateGraph.addNode at hg
  split at hg
  · cases hg
  · split at hg
    · cases hg
    · rename_i hreserved
      obtain ⟨hend, hstart⟩ := not_or.mp hreserved
      split at hg
      · cases hg
      · split at hg
        · cases hg
        · rename_i hcolon
          split at hg
          · simp only at hg
            split at hg
            · cases hg
            · obtain rfl := Except.ok.inj hg
              have hhandler : nsEnd ∉ ("__error_handler__" ++ node).toList := by
                rw [String.toList_append, List.mem_append, not_or]
                exact ⟨by decide, hcolon⟩
              exact (h.set_node (handler_ne node).1 (handler_ne node).2 hhandler _).set_node
                hstart hend hcolon _
          · obtain rfl := Except.ok.inj hg
            exact h.set_node hstart hend hcolon _

theorem WellFormed.addEdge (h : g.WellFormed) {startKey endKey : String}
    (hg : g.addEdge startKey endKey = .ok g') : g'.WellFormed := by
  unfold StateGraph.addEdge at hg
  split at hg
  · cases hg
  · split at hg
    · cases hg
    · rename_i hstart
      obtain rfl := Except.ok.inj hg
      refine ⟨h.names, fun e he => ?_, h.waiting⟩
      simp only at he
      split at he
      · exact h.edges e he
      · rcases List.mem_append.mp he with he | he
        · exact h.edges e he
        · rw [List.mem_singleton.mp he]
          exact hstart

theorem forall_of_forM {α : Type} {f : α → Except String Unit} {xs : List α}
    (h : xs.forM f = .ok ()) : ∀ x ∈ xs, f x = .ok () := by
  induction xs with
  | nil => exact fun x hx => absurd hx List.not_mem_nil
  | cons x xs ih =>
    obtain ⟨u, hx, hrest⟩ := Exceptions.bind_ok (show (f x >>= fun _ => xs.forM f) = .ok () from h)
    exact List.forall_mem_cons.mpr ⟨hx, ih hrest⟩

theorem mem_of_checkStart {start : String} (h : g.checkStart start = .ok ()) :
    start ∈ g.nodes.keys := by
  unfold checkStart at h
  split at h
  · cases h
  · split at h
    · cases h
    · rename_i hmem
      exact not_not.mp hmem

theorem WellFormed.addWaitingEdge (h : g.WellFormed) {startKeys : List String} {endKey : String}
    (hg : g.addWaitingEdge startKeys endKey = .ok g') : g'.WellFormed := by
  obtain ⟨u, hstarts, hg⟩ := Exceptions.bind_ok hg
  split at hg
  · cases hg
  · split at hg
    · cases hg
    · rename_i hknown
      obtain rfl := Except.ok.inj hg
      have htarget : endKey = endName ∨ endKey ∈ g.nodes.keys := by
        by_contra hnone
        exact hknown (not_or.mp hnone)
      refine ⟨h.names, h.edges, fun e he => ?_⟩
      simp only at he
      split at he
      · exact h.waiting e he
      · rcases List.mem_append.mp he with he | he
        · exact h.waiting e he
        · rw [List.mem_singleton.mp he]
          exact ⟨fun start hs => mem_of_checkStart (forall_of_forM hstarts start hs), htarget⟩

theorem WellFormed.addConditionalEdges (h : g.WellFormed) {source name : String}
    {branch : BranchSpec} (hg : g.addConditionalEdges source name branch = .ok g') :
    g'.WellFormed := by
  simp only [StateGraph.addConditionalEdges] at hg
  split at hg
  · cases hg
  · obtain rfl := Except.ok.inj hg
    exact ⟨h.names, h.edges, h.waiting⟩

theorem WellFormed.call (h : g.WellFormed) {c : BuilderCall} (hg : g.call c = .ok g') :
    g'.WellFormed := by
  cases c with
  | addNode node spec errorHandler => exact h.addNode hg
  | addEdge startKey endKey => exact h.addEdge hg
  | addWaitingEdge startKeys endKey => exact h.addWaitingEdge hg
  | addConditionalEdges source name branch => exact h.addConditionalEdges hg
  | setDefaultErrorHandler =>
    obtain rfl := Except.ok.inj hg
    exact ⟨h.names, h.edges, h.waiting⟩

theorem WellFormed.build (h : g.WellFormed) {calls : List BuilderCall}
    (hg : g.build calls = .ok g') : g'.WellFormed := by
  induction calls generalizing g with
  | nil =>
    obtain rfl := Except.ok.inj hg
    exact h
  | cons c calls ih =>
    rw [StateGraph.build, List.foldlM_cons] at hg
    obtain ⟨g₁, hcall, hrest⟩ := Exceptions.bind_ok hg
    exact ih (h.call hcall) hrest

theorem WellFormed.withDefaultErrorHandler (h : g.WellFormed)
    (hg : g.withDefaultErrorHandler = .ok g') : g'.WellFormed := by
  unfold StateGraph.withDefaultErrorHandler at hg
  split at hg
  · split at hg
    · cases hg
    · obtain rfl := Except.ok.inj hg
      have hadded : (g.addErrorHandler defaultErrorHandlerNode g.stateKeys
          g.stateMapper).WellFormed := h.set_node (by decide) (by decide) (by decide) _
      refine ⟨fun node hnode => ?_, hadded.edges, fun e he => ?_⟩
      · rw [Dict.keys_mapValues] at hnode
        exact hadded.names node hnode
      · rw [Dict.keys_mapValues]
        exact hadded.waiting e he
  · obtain rfl := Except.ok.inj hg
    exact h

end WellFormed

end StateGraph

end LangGraph
