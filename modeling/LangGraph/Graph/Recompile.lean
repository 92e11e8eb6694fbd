import LangGraph.Graph.NodeDefaults
import LangGraph.Transition.Run

namespace LangGraph

open Collections Transition

section Sessions

variable (R C T : Type)

inductive BuilderEvent where
  | call (c : PolicyCall R C T)
  | compile (interrupts : Interrupts)

-- `fresh` gets the builder's calls only; `earlier` is how it stood at each compile call that wrote
-- into the builder, and `results` pairs what each compile call gives on the two.
structure BuilderSession where
  built : PolicyBuilder R C T
  fresh : PolicyBuilder R C T
  earlier : List (PolicyBuilder R C T)
  results : List (Except String (CompiledBuilder R C T) × Except String (CompiledBuilder R C T))

end Sessions

namespace BuilderSession

variable {R C T : Type}

def start (graph : StateGraph) : BuilderSession R C T :=
  let b : PolicyBuilder R C T := ⟨graph, ∅, ⟨none, none, none, false⟩⟩
  ⟨b, b, [], []⟩

def step (s : BuilderSession R C T) : BuilderEvent R C T → BuilderSession R C T
  | .call c => { s with built := s.built.called c, fresh := s.fresh.called c }
  | .compile interrupts =>
      { built := (s.built.compile interrupts).2
        fresh := s.fresh
        earlier := match s.built.prepared interrupts with
          | .ok _ => s.earlier ++ [s.fresh]
          | .error _ => s.earlier
        results := s.results ++
          [((s.built.compile interrupts).1, (s.fresh.compile interrupts).1)] }

def Agrees : Except String (CompiledBuilder R C T) → Except String (CompiledBuilder R C T) → Prop
  | .ok c, .ok c' => c = c'
  | .error _, .error _ => True
  | _, _ => False

def AllAgree (s : BuilderSession R C T) : Prop := ∀ r ∈ s.results, Agrees r.1 r.2

-- The first default that a compile call found set when the node was there.
def firstDefault {α : Type} (default : NodeDefaults R C T → Option α)
    (earlier : List (PolicyBuilder R C T)) (node : String) : Option α :=
  earlier.findSome? (fun g => if node ∈ g.policies.keys then default g.defaults else none)

def Unmoved {α : Type} (own first current : Option α) : Prop :=
  own = none → first ≠ none → first = current

structure Settled (earlier : List (PolicyBuilder R C T)) (fresh : PolicyBuilder R C T)
    (node : String) (p : NodePolicies R C T) : Prop where
  retry : Unmoved p.retryPolicy (firstDefault NodeDefaults.retryPolicy earlier node)
    fresh.defaults.retryPolicy
  cache : fresh.isErrorHandler node = false →
    Unmoved p.cachePolicy (firstDefault NodeDefaults.cachePolicy earlier node)
      fresh.defaults.cachePolicy
  timeout : Unmoved p.timeout (firstDefault NodeDefaults.timeout earlier node)
    fresh.defaults.timeout

-- A compile call is right when compiling the fresh builder raises, or when no earlier one had a
-- default error handler and the defaults they wrote into nodes still are the builder's.
def Undisturbed (s : BuilderSession R C T) : BuilderEvent R C T → Prop
  | .call _ => True
  | .compile interrupts => (∃ e, (s.fresh.compile interrupts).1 = .error e) ∨
      ((∀ g ∈ s.earlier, g.graph.defaultErrorHandler = false) ∧
        ∀ node p, s.fresh.policies.get? node = some p → Settled s.earlier s.fresh node p)

def refill (earlier : List (PolicyBuilder R C T)) (isErrorHandler : Bool) (node : String)
    (p : NodePolicies R C T) : NodePolicies R C T :=
  { p with
    retryPolicy := p.retryPolicy.or (firstDefault NodeDefaults.retryPolicy earlier node)
    cachePolicy := if isErrorHandler then p.cachePolicy
      else p.cachePolicy.or (firstDefault NodeDefaults.cachePolicy earlier node)
    timeout := p.timeout.or (firstDefault NodeDefaults.timeout earlier node) }

section Filling

variable {earlier : List (PolicyBuilder R C T)} {node : String} {p : NodePolicies R C T}

theorem firstDefault_none {α : Type} {default : NodeDefaults R C T → Option α}
    (h : ∀ g ∈ earlier, node ∉ g.policies.keys) : firstDefault default earlier node = none := by
  rw [firstDefault, List.findSome?_eq_none_iff]
  intro g hg
  exact if_neg (h g hg)

theorem firstDefault_append {α : Type} {default : NodeDefaults R C T → Option α}
    {g : PolicyBuilder R C T} (h : node ∈ g.policies.keys) :
    firstDefault default (earlier ++ [g]) node =
      (firstDefault default earlier node).or (default g.defaults) := by
  rw [firstDefault, List.findSome?_append, List.findSome?_singleton, if_pos h]
  rfl

theorem exists_of_firstDefault {α : Type} {default : NodeDefaults R C T → Option α}
    (h : firstDefault default earlier node ≠ none) :
    ∃ g ∈ earlier, default g.defaults ≠ none := by
  obtain ⟨r, hr⟩ := Option.ne_none_iff_exists'.mp h
  obtain ⟨g, hg, hdefault⟩ := List.exists_of_findSome?_eq_some hr
  split at hdefault
  · exact ⟨g, hg, by rw [hdefault]; exact Option.some_ne_none r⟩
  · cases hdefault

theorem refill_absent (h : ∀ g ∈ earlier, node ∉ g.policies.keys) (isErrorHandler : Bool) :
    refill earlier isErrorHandler node p = p := by
  rw [refill, firstDefault_none h, firstDefault_none h, firstDefault_none h]
  simp

theorem refill_append {g : PolicyBuilder R C T} (h : node ∈ g.policies.keys)
    (isErrorHandler : Bool) : refill (earlier ++ [g]) isErrorHandler node p =
      PolicyBuilder.fill g.defaults isErrorHandler (refill earlier isErrorHandler node p) := by
  rw [refill, firstDefault_append h, firstDefault_append h, firstDefault_append h, refill,
    PolicyBuilder.fill]
  cases isErrorHandler with
  | true => simp [Option.or_assoc]
  | false => simp [Option.or_assoc]

theorem or_or_iff {α : Type} (own first current : Option α) :
    (own.or first).or current = own.or current ↔ Unmoved own first current := by
  cases own with
  | some a => simp [Unmoved]
  | none =>
    cases first with
    | some a => simp [Unmoved]
    | none => simp [Unmoved]

end Filling

section Overlay

variable {earlier : List (PolicyBuilder R C T)} {b : PolicyBuilder R C T}

-- The builder with the defaults that earlier compile calls wrote into its nodes.
def overlaid (earlier : List (PolicyBuilder R C T)) (b : PolicyBuilder R C T) :
    PolicyBuilder R C T :=
  { b with policies := b.policies.mapKeyed (fun node p =>
      refill earlier (b.isErrorHandler node) node p) }

theorem mapKeyed_refill {b b' : PolicyBuilder R C T} (htidy : b.Tidy)
    (h : ∀ node ∈ b.graph.nodes.keys, b'.isErrorHandler node = b.isErrorHandler node) :
    b.policies.mapKeyed (fun node p => refill earlier (b'.isErrorHandler node) node p) =
      b.policies.mapKeyed (fun node p => refill earlier (b.isErrorHandler node) node p) := by
  refine Dict.mapKeyed_eq_iff.mpr (fun node p hp => ?_)
  have hnode : node ∈ b.policies.keys := Dict.mem_keys.mpr ⟨p, hp⟩
  rw [h node (htidy node hnode)]

theorem call_overlaid_addNode {node : String} {spec : StateNodeSpec}
    {policies : NodePolicies R C T} {errorHandler : Option Bool} {graph : StateGraph}
    (htidy : b.Tidy) (hearlier : ∀ g ∈ earlier, ∀ node ∈ g.policies.keys, node ∈ b.policies.keys)
    (hgraph : b.graph.addNode node spec errorHandler.isSome = .ok graph) :
    (overlaid earlier b).call (.addNode node spec policies errorHandler) =
      .ok (overlaid earlier { b with
        graph := graph
        policies := (PolicyBuilder.addHandlerPolicies node errorHandler b.policies).set node
          policies }) := by
  obtain ⟨hextends, hfresh, -, hhandler⟩ := StateGraph.addNode_ok hgraph
  let b' : PolicyBuilder R C T := { b with
    graph := graph
    policies := (PolicyBuilder.addHandlerPolicies node errorHandler b.policies).set node policies }
  have hrefill {other : String} (hother : other ∉ b.graph.nodes.keys) (eh : Bool)
      (p : NodePolicies R C T) : refill earlier eh other p = p :=
    refill_absent (fun g hg hmem => hother (htidy other (hearlier g hg other hmem))) eh
  have hsame : b'.policies.mapKeyed (fun node p =>
      refill earlier (b'.isErrorHandler node) node p) =
        (PolicyBuilder.addHandlerPolicies node errorHandler (b.policies.mapKeyed
          (fun node p => refill earlier (b.isErrorHandler node) node p))).set node policies := by
    have hold : b.policies.mapKeyed (fun node p =>
        refill earlier (b'.isErrorHandler node) node p) =
          b.policies.mapKeyed (fun node p => refill earlier (b.isErrorHandler node) node p) :=
      mapKeyed_refill htidy (fun _ => PolicyBuilder.isErrorHandler_of_extends hextends)
    rw [Dict.mapKeyed_set, hrefill hfresh]
    cases errorHandler with
    | none => exact congrArg (fun d => d.set node policies) hold
    | some sync =>
      have hset := Dict.mapKeyed_set (fun node p => refill earlier (b'.isErrorHandler node) node p)
        b.policies ("__error_handler__" ++ node) (PolicyBuilder.handlerPolicies sync)
      rw [hrefill (hhandler rfl).1, hold] at hset
      exact congrArg (fun d => d.set node policies) hset
  have hcall : (overlaid earlier b).call (.addNode node spec policies errorHandler) =
      .ok { b with
        graph := graph
        policies := (PolicyBuilder.addHandlerPolicies node errorHandler (b.policies.mapKeyed
          (fun node p => refill earlier (b.isErrorHandler node) node p))).set node policies } := by
    have hgraph' : (overlaid earlier b).graph.addNode node spec errorHandler.isSome =
        .ok graph := hgraph
    rw [PolicyBuilder.call, hgraph']
    rfl
  rw [hcall, ← hsame]
  rfl

theorem call_overlaid (htidy : b.Tidy)
    (hearlier : ∀ g ∈ earlier, ∀ node ∈ g.policies.keys, node ∈ b.policies.keys)
    (c : PolicyCall R C T) :
    (overlaid earlier b).call c = (b.call c).map (overlaid earlier) := by
  have hgraph : (overlaid earlier b).graph = b.graph := rfl
  have hover {graph : StateGraph} (h : graph.nodes = b.graph.nodes) :
      { overlaid earlier b with graph := graph } = overlaid earlier { b with graph := graph } := by
    have heh (node : String) : ({ b with graph := graph } : PolicyBuilder R C T).isErrorHandler
        node = b.isErrorHandler node := by
      rw [PolicyBuilder.isErrorHandler, PolicyBuilder.isErrorHandler, h]
    simp only [overlaid, heh]
  cases c with
  | addNode node spec policies errorHandler =>
    cases hadd : b.graph.addNode node spec errorHandler.isSome with
    | error e =>
      rw [PolicyBuilder.call, PolicyBuilder.call, hgraph, hadd]
      rfl
    | ok graph =>
      rw [call_overlaid_addNode htidy hearlier hadd, PolicyBuilder.call, hadd]
      rfl
  | addEdge startKey endKey =>
    rw [PolicyBuilder.call, PolicyBuilder.call, hgraph]
    cases hadd : b.graph.addEdge startKey endKey with
    | error e => rfl
    | ok graph => exact congrArg Except.ok (hover (StateGraph.addEdge_nodes hadd).1)
  | addWaitingEdge startKeys endKey =>
    rw [PolicyBuilder.call, PolicyBuilder.call, hgraph]
    cases hadd : b.graph.addWaitingEdge startKeys endKey with
    | error e => rfl
    | ok graph => exact congrArg Except.ok (hover (StateGraph.addWaitingEdge_nodes hadd).1)
  | addConditionalEdges source name branch =>
    rw [PolicyBuilder.call, PolicyBuilder.call, hgraph]
    cases hadd : b.graph.addConditionalEdges source name branch with
    | error e => rfl
    | ok graph => exact congrArg Except.ok (hover (StateGraph.addConditionalEdges_nodes hadd).1)
  | setNodeDefaults retryPolicy cachePolicy timeout errorHandler => rfl

theorem called_overlaid (htidy : b.Tidy)
    (hearlier : ∀ g ∈ earlier, ∀ node ∈ g.policies.keys, node ∈ b.policies.keys)
    (c : PolicyCall R C T) : (overlaid earlier b).called c = overlaid earlier (b.called c) := by
  rw [PolicyBuilder.called, call_overlaid htidy hearlier, PolicyBuilder.called]
  cases b.call c with
  | error e => rfl
  | ok b' => rfl

section Compiling

variable {interrupts : Interrupts} {graph : StateGraph}

-- The checks before anything is written.
def checked (interrupts : Interrupts) (b : PolicyBuilder R C T) : Except String StateGraph := do
  b.graph.validate
  b.checkInterrupts interrupts
  b.graph.withDefaultErrorHandler

theorem prepared_eq (interrupts : Interrupts) (b : PolicyBuilder R C T) :
    b.prepared interrupts =
      (checked interrupts b).map (fun graph => (b.withHandler graph).fillAll) := by
  rw [PolicyBuilder.prepared, checked]
  cases b.graph.validate with
  | error e => rfl
  | ok u =>
    cases b.checkInterrupts interrupts with
    | error e => rfl
    | ok u' =>
      cases b.graph.withDefaultErrorHandler with
      | error e => rfl
      | ok graph => rfl

theorem handler_of_checked (h : checked interrupts b = .ok graph) :
    (b.graph.defaultErrorHandler = false ∧ graph = b.graph) ∨
      (b.graph.defaultErrorHandler = true ∧ defaultErrorHandlerNode ∉ b.graph.nodes.keys ∧
        graph.defaultErrorHandler = true ∧ defaultErrorHandlerNode ∈ graph.nodes.keys ∧
        ∀ node ∈ b.graph.nodes.keys,
          (b.withHandler graph).isErrorHandler node = b.isErrorHandler node) := by
  obtain ⟨u, -, h⟩ := Exceptions.bind_ok h
  obtain ⟨u', -, h⟩ := Exceptions.bind_ok h
  rw [StateGraph.withDefaultErrorHandler] at h
  split at h
  · rename_i hset
    split at h
    · cases h
    · rename_i hhandler
      cases h
      refine Or.inr ⟨hset, hhandler, hset, ?_, fun node hnode => ?_⟩
      · rw [Dict.keys_mapValues]
        exact Dict.mem_keys_set.mpr (Or.inl rfl)
      · have hne : node ≠ defaultErrorHandlerNode := fun heq => hhandler (heq ▸ hnode)
        rw [PolicyBuilder.isErrorHandler, PolicyBuilder.withHandler, Dict.get?_mapValues,
          StateGraph.addErrorHandler, Dict.get?_set_ne _ hne, PolicyBuilder.isErrorHandler,
          Option.map_map]
        congr 2
        funext spec
        rw [Function.comp_apply]
        split
        · rfl
        · rfl
  · rename_i hnone
    cases h
    exact Or.inl ⟨by simpa using hnone, rfl⟩

theorem withHandler_overlaid (htidy : b.Tidy)
    (hearlier : ∀ g ∈ earlier, ∀ node ∈ g.policies.keys, node ∈ b.policies.keys)
    (h : checked interrupts b = .ok graph) :
    (overlaid earlier b).withHandler graph = overlaid earlier (b.withHandler graph) := by
  rcases handler_of_checked h with ⟨hnone, rfl⟩ | ⟨hset, hhandler, -, -, heh⟩
  · simp only [overlaid, PolicyBuilder.withHandler, PolicyBuilder.isErrorHandler, hnone,
      Bool.false_eq_true, if_false]
  · have hrefill (eh : Bool) (p : NodePolicies R C T) :
        refill earlier eh defaultErrorHandlerNode p = p :=
      refill_absent (fun g hg hmem => hhandler (htidy _ (hearlier g hg _ hmem))) eh
    have hold : b.policies.mapKeyed (fun node p =>
        refill earlier ((b.withHandler graph).isErrorHandler node) node p) =
          b.policies.mapKeyed (fun node p => refill earlier (b.isErrorHandler node) node p) :=
      mapKeyed_refill htidy heh
    have hover := Dict.mapKeyed_set (fun node p =>
        refill earlier ((b.withHandler graph).isErrorHandler node) node p) b.policies
      defaultErrorHandlerNode (PolicyBuilder.handlerPolicies b.defaults.handlerSync)
    rw [hrefill, hold] at hover
    have hpolicies : (b.withHandler graph).policies = b.policies.set defaultErrorHandlerNode
        (PolicyBuilder.handlerPolicies b.defaults.handlerSync) := if_pos hset
    have hpolicies' : ((overlaid earlier b).withHandler graph).policies =
        (overlaid earlier b).policies.set defaultErrorHandlerNode
          (PolicyBuilder.handlerPolicies b.defaults.handlerSync) := if_pos hset
    have hsame : ((overlaid earlier b).withHandler graph).policies =
        (overlaid earlier (b.withHandler graph)).policies := by
      rw [hpolicies', overlaid, overlaid, hpolicies, hover]
    exact congrArg (fun d => (⟨graph, d, b.defaults⟩ : PolicyBuilder R C T)) hsame

def timeoutFlags (b : PolicyBuilder R C T) : Dict String Bool :=
  b.policies.mapKeyed (fun _ p => p.timeout.isSome && p.sync)

theorem checkTimeouts_congr {b b' : PolicyBuilder R C T} (h : timeoutFlags b = timeoutFlags b') :
    b.checkTimeouts = b'.checkTimeouts := by
  have hflags (b : PolicyBuilder R C T) :
      (timeoutFlags b).items.find? (fun e => e.2) =
        (b.policies.items.find? (fun e => e.2.timeout.isSome && e.2.sync)).map
          (fun e => (e.1, e.2.timeout.isSome && e.2.sync)) := List.find?_map
  have hfind := (hflags b).symm.trans ((congrArg (fun d => d.items.find? (fun e => e.2)) h).trans
    (hflags b'))
  rw [PolicyBuilder.checkTimeouts, PolicyBuilder.checkTimeouts]
  cases hb : b.policies.items.find? (fun e => e.2.timeout.isSome && e.2.sync) with
  | none =>
    rw [hb] at hfind
    rw [Option.map_eq_none_iff.mp hfind.symm]
  | some e =>
    rw [hb] at hfind
    obtain ⟨e', he', hkey⟩ := Option.map_eq_some_iff.mp hfind.symm
    rw [he']
    dsimp only
    rw [(Prod.mk.inj hkey).1]

theorem validate_overlaid
    (htimeout : ∀ g ∈ earlier, g.defaults.timeout ≠ none → b.defaults.timeout ≠ none) :
    (overlaid earlier b).fillAll.validateGraph interrupts =
      b.fillAll.validateGraph interrupts := by
  have hflags : timeoutFlags (overlaid earlier b).fillAll = timeoutFlags b.fillAll := by
    have hmap : timeoutFlags (overlaid earlier b).fillAll = b.policies.mapKeyed (fun node p =>
        ((p.timeout.or (firstDefault NodeDefaults.timeout earlier node)).or
          b.defaults.timeout).isSome && p.sync) := by
      rw [timeoutFlags, PolicyBuilder.fillAll, Dict.mapKeyed_mapKeyed, overlaid,
        Dict.mapKeyed_mapKeyed]
      rfl
    have hmap' : timeoutFlags b.fillAll = b.policies.mapKeyed (fun node p =>
        (p.timeout.or b.defaults.timeout).isSome && p.sync) := by
      rw [timeoutFlags, PolicyBuilder.fillAll, Dict.mapKeyed_mapKeyed]
      rfl
    rw [hmap, hmap']
    refine Dict.mapKeyed_eq_iff.mpr (fun node p _ => ?_)
    congr 1
    cases hfirst : firstDefault NodeDefaults.timeout earlier node with
    | none => rw [Option.or_none]
    | some first =>
      obtain ⟨g, hg, hdefault⟩ := exists_of_firstDefault
        (hfirst ▸ Option.some_ne_none first : firstDefault NodeDefaults.timeout earlier node ≠ none)
      obtain ⟨timeout, hset⟩ := Option.ne_none_iff_exists'.mp (htimeout g hg hdefault)
      rw [hset]
      simp
  have htimeouts := checkTimeouts_congr hflags
  simp only [PolicyBuilder.validateGraph, htimeouts]
  rfl

theorem fill_refill_iff (node : String) (p : NodePolicies R C T) :
    PolicyBuilder.fill b.defaults (b.isErrorHandler node)
        (refill earlier (b.isErrorHandler node) node p) =
      PolicyBuilder.fill b.defaults (b.isErrorHandler node) p ↔ Settled earlier b node p := by
  constructor
  · intro h
    have hretry := congrArg NodePolicies.retryPolicy h
    have hcache := congrArg NodePolicies.cachePolicy h
    have htimeout := congrArg NodePolicies.timeout h
    refine ⟨(or_or_iff _ _ _).mp hretry, fun hregular => (or_or_iff _ _ _).mp ?_,
      (or_or_iff _ _ _).mp htimeout⟩
    rw [hregular] at hcache
    exact hcache
  · intro h
    have hretry := (or_or_iff _ _ _).mpr h.retry
    have htimeout := (or_or_iff _ _ _).mpr h.timeout
    have hcache : b.isErrorHandler node = false →
        (p.cachePolicy.or (firstDefault NodeDefaults.cachePolicy earlier node)).or
          b.defaults.cachePolicy = p.cachePolicy.or b.defaults.cachePolicy :=
      fun hregular => (or_or_iff _ _ _).mpr (h.cache hregular)
    cases heh : b.isErrorHandler node with
    | true => simp only [PolicyBuilder.fill, refill, hretry, htimeout, if_true]
    | false =>
      simp only [PolicyBuilder.fill, refill, hretry, htimeout, hcache heh, Bool.false_eq_true,
        if_false]

theorem policies_fillAll_overlaid (earlier : List (PolicyBuilder R C T))
    (b : PolicyBuilder R C T) : (overlaid earlier b).fillAll.policies =
      b.policies.mapKeyed (fun node p => PolicyBuilder.fill b.defaults (b.isErrorHandler node)
        (refill earlier (b.isErrorHandler node) node p)) := by
  rw [PolicyBuilder.fillAll, overlaid, Dict.mapKeyed_mapKeyed]
  rfl

theorem compiled_overlaid_iff :
    (overlaid earlier b).fillAll.compiled = b.fillAll.compiled ↔
      ∀ node p, b.policies.get? node = some p → Settled earlier b node p := by
  have hiff : (overlaid earlier b).fillAll.policies = b.fillAll.policies ↔
      ∀ node p, b.policies.get? node = some p → Settled earlier b node p := by
    rw [policies_fillAll_overlaid, PolicyBuilder.fillAll, Dict.mapKeyed_eq_iff]
    exact forall_congr' (fun node => forall₂_congr (fun p _ => fill_refill_iff node p))
  rw [← hiff]
  constructor
  · exact fun h => congrArg CompiledBuilder.policies h
  · intro h
    exact congrArg (fun d => (⟨b.graph.attach, d, PolicyBuilder.errorHandlerMap b.graph⟩ :
      CompiledBuilder R C T)) h

theorem compile_error {e : String} (h : checked interrupts b = .error e) :
    b.compile interrupts = (.error e, b) := by
  rw [PolicyBuilder.compile, prepared_eq, h]
  rfl

theorem compile_checked (h : checked interrupts b = .ok graph) :
    b.compile interrupts = (((b.withHandler graph).fillAll.validateGraph interrupts).map
      (fun _ => (b.withHandler graph).fillAll.compiled), (b.withHandler graph).fillAll) := by
  rw [PolicyBuilder.compile, prepared_eq, h]
  rfl

theorem settled_withHandler_iff (htidy : b.Tidy)
    (hearlier : ∀ g ∈ earlier, ∀ node ∈ g.policies.keys, node ∈ b.policies.keys)
    (h : checked interrupts b = .ok graph) :
    (∀ node p, (b.withHandler graph).policies.get? node = some p →
        Settled earlier (b.withHandler graph) node p) ↔
      ∀ node p, b.policies.get? node = some p → Settled earlier b node p := by
  rcases handler_of_checked h with ⟨hnone, rfl⟩ | ⟨hset, hhandler, -, -, heh⟩
  · have hsame : b.withHandler b.graph = b := by simp [PolicyBuilder.withHandler, hnone]
    rw [hsame]
  · have hpolicies : (b.withHandler graph).policies = b.policies.set defaultErrorHandlerNode
        (PolicyBuilder.handlerPolicies b.defaults.handlerSync) := if_pos hset
    have hmoved {node : String} {p : NodePolicies R C T} (hp : b.policies.get? node = some p) :
        Settled earlier (b.withHandler graph) node p ↔ Settled earlier b node p := by
      have hnode := heh node (htidy node (Dict.mem_keys.mpr ⟨p, hp⟩))
      constructor
      · exact fun hs => ⟨hs.retry, fun hregular => hs.cache (hnode.trans hregular), hs.timeout⟩
      · exact fun hs => ⟨hs.retry, fun hregular => hs.cache (hnode.symm.trans hregular), hs.timeout⟩
    constructor
    · intro hall node p hp
      have hne : node ≠ defaultErrorHandlerNode := fun heq =>
        hhandler (heq ▸ htidy node (Dict.mem_keys.mpr ⟨p, hp⟩))
      refine (hmoved hp).mp (hall node p ?_)
      rw [hpolicies, Dict.get?_set_ne _ hne]
      exact hp
    · intro hall node p hp
      by_cases hnode : node = defaultErrorHandlerNode
      · have hnone {α : Type} (default : NodeDefaults R C T → Option α) :
            firstDefault default earlier node = none :=
          firstDefault_none (fun g hg hmem =>
            hhandler (htidy _ (hearlier g hg _ (hnode ▸ hmem))))
        exact ⟨fun _ hne => absurd (hnone _) hne, fun _ _ hne => absurd (hnone _) hne,
          fun _ hne => absurd (hnone _) hne⟩
      · rw [hpolicies, Dict.get?_set_ne _ hnode] at hp
        exact (hmoved hp).mpr (hall node p hp)

theorem agrees_overlaid_iff (htidy : b.Tidy)
    (hearlier : ∀ g ∈ earlier, ∀ node ∈ g.policies.keys, node ∈ b.policies.keys)
    (htimeout : ∀ g ∈ earlier, g.defaults.timeout ≠ none → b.defaults.timeout ≠ none) :
    Agrees ((overlaid earlier b).compile interrupts).1 (b.compile interrupts).1 ↔
      (∃ e, (b.compile interrupts).1 = .error e) ∨
        ∀ node p, b.policies.get? node = some p → Settled earlier b node p := by
  have hchecked : checked interrupts (overlaid earlier b) = checked interrupts b := rfl
  cases h : checked interrupts b with
  | error e =>
    rw [compile_error h, compile_error (hchecked.trans h)]
    exact iff_of_true trivial (Or.inl ⟨e, rfl⟩)
  | ok graph =>
    have hvalid : (overlaid earlier (b.withHandler graph)).fillAll.validateGraph interrupts =
        (b.withHandler graph).fillAll.validateGraph interrupts := validate_overlaid htimeout
    rw [compile_checked h, compile_checked (hchecked.trans h),
      withHandler_overlaid htidy hearlier h, hvalid]
    cases (b.withHandler graph).fillAll.validateGraph interrupts with
    | error e => exact iff_of_true trivial (Or.inl ⟨e, rfl⟩)
    | ok u =>
      rw [← settled_withHandler_iff htidy hearlier h, ← compiled_overlaid_iff]
      constructor
      · exact Or.inr
      · rintro (⟨e, he⟩ | hsame)
        · cases he
        · exact hsame

end Compiling

end Overlay

section Runs

variable {s : BuilderSession R C T}

structure Untouched (s : BuilderSession R C T) : Prop where
  handler : ∀ g ∈ s.earlier, g.graph.defaultErrorHandler = false
  built : s.built = overlaid s.earlier s.fresh
  tidy : s.fresh.Tidy
  known : ∀ g ∈ s.earlier, ∀ node ∈ g.policies.keys, node ∈ s.fresh.policies.keys
  timeout : ∀ g ∈ s.earlier, g.defaults.timeout ≠ none → s.fresh.defaults.timeout ≠ none

-- A compile call has added the default handler node.
structure Touched (s : BuilderSession R C T) : Prop where
  earlier : ∃ g ∈ s.earlier, g.graph.defaultErrorHandler = true
  handler : s.built.graph.defaultErrorHandler = true
  node : defaultErrorHandlerNode ∈ s.built.graph.nodes.keys

theorem called_timeout (b : PolicyBuilder R C T) (c : PolicyCall R C T)
    (h : b.defaults.timeout ≠ none) : (b.called c).defaults.timeout ≠ none := by
  rw [PolicyBuilder.called]
  cases hcall : b.call c with
  | error e => exact h
  | ok b' =>
    cases c with
    | setNodeDefaults retryPolicy cachePolicy timeout errorHandler =>
      cases hcall
      cases timeout with
      | none => exact h
      | some timeout => exact Option.some_ne_none timeout
    | addNode node spec policies errorHandler =>
      obtain ⟨graph, -, hcall⟩ := Exceptions.bind_ok hcall
      cases hcall
      exact h
    | addEdge startKey endKey =>
      obtain ⟨graph, -, hcall⟩ := Exceptions.bind_ok hcall
      cases hcall
      exact h
    | addWaitingEdge startKeys endKey =>
      obtain ⟨graph, -, hcall⟩ := Exceptions.bind_ok hcall
      cases hcall
      exact h
    | addConditionalEdges source name branch =>
      obtain ⟨graph, -, hcall⟩ := Exceptions.bind_ok hcall
      cases hcall
      exact h

theorem untouched_call (h : s.Untouched) (c : PolicyCall R C T) :
    (s.step (.call c)).Untouched := by
  obtain ⟨-, hkeys, htidy⟩ := PolicyBuilder.called_extends s.fresh c
  refine ⟨h.handler, ?_, htidy h.tidy, fun g hg node hnode => hkeys node (h.known g hg node hnode),
    fun g hg hset => called_timeout s.fresh c (h.timeout g hg hset)⟩
  have hbuilt := called_overlaid h.tidy h.known c
  rw [← h.built] at hbuilt
  exact hbuilt

theorem touched_call (h : s.Touched) (c : PolicyCall R C T) : (s.step (.call c)).Touched := by
  obtain ⟨hextends, -, -⟩ := PolicyBuilder.called_extends s.built c
  exact ⟨h.earlier, hextends.handler h.handler, hextends.mem h.node⟩

theorem checked_touched (h : s.Touched) (interrupts : Interrupts) :
    ∃ e, checked interrupts s.built = .error e := by
  cases hchecked : checked interrupts s.built with
  | error e => exact ⟨e, rfl⟩
  | ok graph =>
    rcases handler_of_checked hchecked with ⟨hnone, -⟩ | ⟨-, hnode, -⟩
    · rw [h.handler] at hnone
      cases hnone
    · exact absurd h.node hnode

theorem step_checked_error {interrupts : Interrupts} {e : String}
    (h : checked interrupts s.built = .error e) :
    s.step (.compile interrupts) = { s with
      results := s.results ++ [(.error e, (s.fresh.compile interrupts).1)] } := by
  have hprepared : s.built.prepared interrupts = .error e := by
    rw [prepared_eq, h]
    rfl
  simp only [step, compile_error h, hprepared]

theorem step_checked_ok {interrupts : Interrupts} {graph : StateGraph}
    (h : checked interrupts s.built = .ok graph) :
    (s.step (.compile interrupts)).built = (s.built.withHandler graph).fillAll ∧
      (s.step (.compile interrupts)).earlier = s.earlier ++ [s.fresh] := by
  have hprepared : s.built.prepared interrupts = .ok (s.built.withHandler graph).fillAll := by
    rw [prepared_eq, h]
    rfl
  simp only [step, compile_checked h, hprepared, and_self]

theorem fillAll_overlaid (earlier : List (PolicyBuilder R C T)) (b : PolicyBuilder R C T) :
    (overlaid earlier b).fillAll = overlaid (earlier ++ [b]) b := by
  have hpolicies : (overlaid earlier b).fillAll.policies =
      (overlaid (earlier ++ [b]) b).policies := by
    have hover : (overlaid (earlier ++ [b]) b).policies = b.policies.mapKeyed (fun node p =>
        refill (earlier ++ [b]) (b.isErrorHandler node) node p) := rfl
    rw [policies_fillAll_overlaid, hover, Dict.mapKeyed_eq_iff]
    intro node p hp
    have hnode : node ∈ b.policies.keys := Dict.mem_keys.mpr ⟨p, hp⟩
    exact (refill_append hnode (b.isErrorHandler node)).symm
  exact congrArg (fun d => (⟨b.graph, d, b.defaults⟩ : PolicyBuilder R C T)) hpolicies

theorem untouched_compile (h : s.Untouched) (interrupts : Interrupts) :
    (s.step (.compile interrupts)).Untouched ∨ (s.step (.compile interrupts)).Touched := by
  cases hchecked : checked interrupts s.built with
  | error e =>
    rw [step_checked_error hchecked]
    exact Or.inl ⟨h.handler, h.built, h.tidy, h.known, h.timeout⟩
  | ok graph =>
    obtain ⟨hbuilt, hearlier⟩ := step_checked_ok hchecked
    have hgraph : s.built.graph = s.fresh.graph := by
      rw [h.built]
      rfl
    rcases handler_of_checked hchecked with ⟨hnone, hsame⟩ | ⟨hset, -, hhandler, hnode, -⟩
    · rw [hgraph] at hnone
      have hunchanged : s.built.withHandler graph = overlaid s.earlier s.fresh := by
        rw [hsame, h.built]
        simp [PolicyBuilder.withHandler, overlaid, hnone]
      refine Or.inl ⟨?_, ?_, h.tidy, ?_, ?_⟩
      · rw [hearlier]
        intro g hg
        rcases List.mem_append.mp hg with hg | hg
        · exact h.handler g hg
        · rw [List.mem_singleton.mp hg]
          exact hnone
      · rw [hbuilt, hearlier, hunchanged]
        exact fillAll_overlaid s.earlier s.fresh
      · rw [hearlier]
        intro g hg node hmem
        rcases List.mem_append.mp hg with hg | hg
        · exact h.known g hg node hmem
        · rw [List.mem_singleton.mp hg] at hmem
          exact hmem
      · rw [hearlier]
        intro g hg hdefault
        rcases List.mem_append.mp hg with hg | hg
        · exact h.timeout g hg hdefault
        · rw [List.mem_singleton.mp hg] at hdefault
          exact hdefault
    · refine Or.inr ⟨⟨s.fresh, ?_, hgraph ▸ hset⟩, ?_, ?_⟩
      · rw [hearlier]
        exact List.mem_append_right _ List.mem_cons_self
      · rw [hbuilt]
        exact hhandler
      · rw [hbuilt]
        exact hnode

theorem touched_compile (h : s.Touched) (interrupts : Interrupts) :
    (s.step (.compile interrupts)).Touched := by
  obtain ⟨e, he⟩ := checked_touched h interrupts
  rw [step_checked_error he]
  exact ⟨h.earlier, h.handler, h.node⟩

theorem inv_step (h : s.Untouched ∨ s.Touched) (e : BuilderEvent R C T) :
    (s.step e).Untouched ∨ (s.step e).Touched := by
  cases e with
  | call c => exact h.imp (fun h => untouched_call h c) (fun h => touched_call h c)
  | compile interrupts =>
    rcases h with h | h
    · exact untouched_compile h interrupts
    · exact Or.inr (touched_compile h interrupts)

theorem allAgree_compile_iff (h : s.AllAgree) (interrupts : Interrupts) :
    (s.step (.compile interrupts)).AllAgree ↔
      Agrees (s.built.compile interrupts).1 (s.fresh.compile interrupts).1 := by
  have hresults : (s.step (.compile interrupts)).results =
      s.results ++ [((s.built.compile interrupts).1, (s.fresh.compile interrupts).1)] := rfl
  rw [AllAgree, hresults, List.forall_mem_append, List.forall_mem_singleton]
  exact and_iff_right h

theorem allAgree_step_iff (h : s.Untouched ∨ s.Touched) (hgood : s.AllAgree)
    (e : BuilderEvent R C T) : (s.step e).AllAgree ↔ s.Undisturbed e := by
  cases e with
  | call c => exact iff_of_true hgood trivial
  | compile interrupts =>
    rw [allAgree_compile_iff hgood, Undisturbed]
    rcases h with h | h
    · rw [h.built, agrees_overlaid_iff h.tidy h.known h.timeout, and_iff_right h.handler]
    · obtain ⟨e, he⟩ := checked_touched h interrupts
      obtain ⟨g, hg, hset⟩ := h.earlier
      rw [compile_error he]
      constructor
      · intro hagrees
        cases hfresh : (s.fresh.compile interrupts).1 with
        | error e => exact Or.inl ⟨e, rfl⟩
        | ok c =>
          rw [hfresh] at hagrees
          exact hagrees.elim
      · rintro (⟨e', he'⟩ | ⟨hnone, -⟩)
        · rw [he']
          trivial
        · rw [hnone g hg] at hset
          cases hset

theorem compiling_leaves_builder_iff (graph : StateGraph) (events : List (BuilderEvent R C T)) :
    Always step AllAgree (start graph) events ↔ EachStep step Undisturbed (start graph) events := by
  have hstart : (start graph : BuilderSession R C T).Untouched :=
    ⟨List.forall_mem_nil _, rfl, (fun _ hnode => absurd hnode List.not_mem_nil),
      List.forall_mem_nil _, List.forall_mem_nil _⟩
  exact always_iff_eachStep (fun _ e h hgood => allAgree_step_iff h hgood e)
    (fun _ e h _ _ => inv_step h e) events (Or.inl hstart) (List.forall_mem_nil _)

section Twice

def stateSchema : StateGraph := StateGraph.ofSchema ∅ [] [] [] none

def plainSpec : StateNodeSpec := ⟨[], none, none, none, false, none, [], false⟩

def compiledTwice : List (BuilderEvent Nat Nat Nat) :=
  [.call (.setNodeDefaults none none none (some true)),
    .call (.addNode "a" plainSpec ⟨none, none, none, true⟩ none),
    .call (.addEdge Key.start "a"), .compile ⟨some [], some []⟩, .compile ⟨some [], some []⟩]

theorem second_compile_raises :
    ¬ ∀ (graph : StateGraph) (events : List (BuilderEvent Nat Nat Nat)),
        Always step AllAgree (start graph) events := by
  intro h
  have hlast := h stateSchema compiledTwice compiledTwice List.prefix_rfl _
    (List.mem_cons_of_mem _ List.mem_cons_self)
  exact hlast

end Twice

end Runs

end BuilderSession

end LangGraph
