import LangGraph.Graph.Builder

namespace LangGraph

open Collections

def joinName (starts : List String) (endKey : String) : String :=
  "join:" ++ joinText '+' starts ++ ":" ++ endKey

inductive Writer where
  | updates (outputKeys : List String)
  | entry (channel : String) (value : Value)
  | branch (name : String) (spec : BranchSpec)

structure CompiledNode where
  node : PregelNode
  writers : List Writer

theorem head_branchTo (name : String) : (branchTo name).toList.head? = some 'b' := by
  rw [branchTo, String.toList_append]
  rfl

theorem head_joinName (starts : List String) (endKey : String) :
    (joinName starts endKey).toList.head? = some 'j' := by
  rw [joinName, String.append_assoc, String.append_assoc, String.toList_append]
  rfl

theorem joinName_ne_branchTo (starts : List String) (endKey name : String) :
    joinName starts endKey ≠ branchTo name := by
  intro h
  have hhead := (head_joinName starts endKey).symm.trans (h ▸ head_branchTo name)
  exact absurd hhead (by decide)

-- A trigger channel is told from the reserved ones, START and TASKS by its first character.
theorem ne_of_head {chan key : String} {c d : Char} (hchan : chan.toList.head? = some c)
    (hkey : key.toList.head? = some d) (h : c ≠ d) : chan ≠ key := by
  rintro rfl
  exact h (Option.some.inj (hchan.symm.trans hkey))

theorem joinName_target {starts starts' : List String} {endKey endKey' : String}
    (hs : ∀ start ∈ starts, ':' ∉ start.toList) (hs' : ∀ start ∈ starts', ':' ∉ start.toList)
    (h : joinName starts endKey = joinName starts' endKey') : endKey = endKey' := by
  have hcolon {parts : List String} (hp : ∀ p ∈ parts, ':' ∉ p.toList) :
      ':' ∉ (joinText '+' parts).toList := by
    intro hmem
    rcases mem_joinText hmem with heq | ⟨p, hpart, hc⟩
    · exact absurd heq (by decide)
    · exact hp p hpart hc
  have hlist : ("join:" ++ (joinText '+' starts ++ (":" ++ endKey))).toList =
      ("join:" ++ (joinText '+' starts' ++ (":" ++ endKey'))).toList := by
    simpa only [joinName, String.append_assoc] using congrArg String.toList h
  rw [String.toList_append, String.toList_append, String.toList_append, String.toList_append,
    String.toList_append, String.toList_append] at hlist
  have htail := List.append_cancel_left hlist
  obtain ⟨-, hend⟩ := separator_append_inj (hcolon hs) (hcolon hs') htail
  exact String.toList_injective hend

namespace CompiledNode

def extend (triggers : List String) (writers : List Writer) (n : CompiledNode) : CompiledNode :=
  { node := { n.node with triggers := n.node.triggers ++ triggers }
    writers := n.writers ++ writers }

theorem extend_nil (n : CompiledNode) : n.extend [] [] = n := by
  simp [extend]

theorem extend_extend (ts us : List String) (vs ws : List Writer) (n : CompiledNode) :
    (n.extend ts vs).extend us ws = n.extend (ts ++ us) (vs ++ ws) := by
  simp [extend]

end CompiledNode

structure CompiledGraph where
  nodes : Dict String CompiledNode
  channels : Dict String Channel

namespace StateGraph

def outputKeys (g : StateGraph) : List String := g.channels.keys ++ g.managed

def deferred (g : StateGraph) (node : String) : Bool :=
  ((g.nodes.get? node).map StateNodeSpec.defer).getD false

def pregelChannels (g : StateGraph) : Dict String Channel :=
  (g.channels.set Key.start (.ephemeralValue ⟨Key.start, true, none⟩)).set Key.tasks
    (.topic ⟨false, []⟩)

def barrier (g : StateGraph) (e : List String × String) : Channel :=
  let names := (e.1.map Value.str).toFinset
  if g.deferred e.2 then .namedBarrierValueAfterFinish ⟨joinName e.1 e.2, names, ∅, false⟩
  else .namedBarrierValue ⟨joinName e.1 e.2, names, ∅⟩

end StateGraph

namespace StateNodeSpec

def nodeChannels (spec : StateNodeSpec) : NodeChannels :=
  if spec.inputChannels = ["__root__"] then .single "__root__" else .many spec.inputChannels

theorem unfinished_without_value : false = true → (none : Option Value).isSome = true :=
  fun h => absurd h Bool.false_ne_true

def branchChannel (key : String) (spec : StateNodeSpec) : Channel :=
  if spec.defer then .lastValueAfterFinish ⟨branchTo key, none, false, unfinished_without_value⟩
  else .ephemeralValue ⟨branchTo key, false, none⟩

def pregelNode (key : String) (spec : StateNodeSpec) : PregelNode :=
  ⟨spec.nodeChannels, [branchTo key], spec.mapper, spec.identifier, spec.cachePolicy,
    spec.errorHandlerNode, true⟩

end StateNodeSpec

namespace CompiledGraph

def startNode : PregelNode := ⟨.single Key.start, [Key.start], none, none, none, none, true⟩

def extendNode (node : String) (triggers : List String) (writers : List Writer)
    (c : CompiledGraph) : CompiledGraph :=
  { c with nodes := c.nodes.modify node (CompiledNode.extend triggers writers) }

def attachStart (inputKeys : List String) (c : CompiledGraph) : CompiledGraph :=
  { c with nodes := c.nodes.set Key.start ⟨startNode, [.updates inputKeys]⟩ }

def attachNode (outputKeys : List String) (c : CompiledGraph) (e : String × StateNodeSpec) :
    CompiledGraph :=
  { nodes := c.nodes.set e.1 ⟨e.2.pregelNode e.1, [.updates outputKeys]⟩
    channels := c.channels.set (branchTo e.1) (e.2.branchChannel e.1) }

def attachEdge (c : CompiledGraph) (e : String × String) : CompiledGraph :=
  if e.2 = endName then c else c.extendNode e.1 [] [.entry (branchTo e.2) .none]

def attachWaitingEdge (g : StateGraph) (c : CompiledGraph) (e : List String × String) :
    CompiledGraph :=
  if e.2 = endName then c
  else
    let channel := joinName e.1 e.2
    let c := { c with channels := c.channels.set channel (g.barrier e) }
    let c := c.extendNode e.2 [channel] []
    e.1.foldl (fun c start => c.extendNode start [] [.entry channel (.str start)]) c

def attachBranches (c : CompiledGraph) (e : String × Dict String BranchSpec) : CompiledGraph :=
  e.2.items.foldl (fun c b => c.extendNode e.1 [] [.branch b.1 b.2]) c

end CompiledGraph

namespace StateGraph

open CompiledGraph

def attach (g : StateGraph) : CompiledGraph :=
  let c := attachStart g.inputKeys ⟨∅, g.pregelChannels⟩
  let c := g.nodes.items.foldl (attachNode g.outputKeys) c
  let c := g.edges.foldl attachEdge c
  let c := g.waitingEdges.foldl (attachWaitingEdge g) c
  g.branches.items.foldl attachBranches c

def compile (g : StateGraph) : Except String (StateGraph × CompiledGraph) := do
  g.validate
  let g ← g.withDefaultErrorHandler
  .ok (g, g.attach)

end StateGraph

section Folds

variable {α : Type}

-- A fold whose steps extend each node by what they say of it.
theorem get?_foldl_extend {step : CompiledGraph → α → CompiledGraph} {name : String}
    {ts : α → List String} {ws : α → List Writer}
    (h : ∀ c x, (step c x).nodes.get? name =
      (c.nodes.get? name).map (CompiledNode.extend (ts x) (ws x))) (xs : List α)
    (c : CompiledGraph) :
    (xs.foldl step c).nodes.get? name =
      (c.nodes.get? name).map (CompiledNode.extend (xs.flatMap ts) (xs.flatMap ws)) := by
  induction xs generalizing c with
  | nil =>
    have hid : CompiledNode.extend [] [] = id := funext CompiledNode.extend_nil
    rw [List.foldl_nil, List.flatMap_nil, List.flatMap_nil, hid, Option.map_id, id_eq]
  | cons x xs ih =>
    rw [List.foldl_cons, ih, h, Option.map_map, List.flatMap_cons, List.flatMap_cons]
    refine congrArg (fun f => Option.map f (c.nodes.get? name)) (funext fun n => ?_)
    exact CompiledNode.extend_extend (ts x) (xs.flatMap ts) (ws x) (xs.flatMap ws) n

theorem flatMap_none {β : Type} (xs : List α) : xs.flatMap (fun _ => ([] : List β)) = [] :=
  List.flatMap_eq_nil_iff.mpr (fun _ _ => rfl)

theorem channels_foldl {step : CompiledGraph → α → CompiledGraph}
    (h : ∀ c x, (step c x).channels = c.channels) (xs : List α) (c : CompiledGraph) :
    (xs.foldl step c).channels = c.channels := by
  induction xs generalizing c with
  | nil => rfl
  | cons x xs ih => rw [List.foldl_cons, ih, h]

theorem get?_foldl_set {β : Type} (key : α → String) (value : α → β) (k : String) (xs : List α)
    (d : Dict String β) :
    (xs.foldl (fun d x => d.set (key x) (value x)) d).get? k =
      ((xs.filter (fun x => key x = k)).getLast?.map value).or (d.get? k) := by
  induction xs generalizing d with
  | nil => rfl
  | cons x xs ih =>
    rw [List.foldl_cons, ih, Dict.get?_set]
    by_cases hk : key x = k
    · rw [List.filter_cons_of_pos (by simpa using hk), if_pos hk.symm]
      cases hlast : (xs.filter (fun x => key x = k)).getLast? with
      | none => simp [List.getLast?_eq_none_iff.mp hlast]
      | some y => simp [List.getLast?_cons, hlast]
    · rw [List.filter_cons_of_neg (by simpa using hk), if_neg (fun h => hk h.symm)]

end Folds

theorem get?_extendNode (c : CompiledGraph) (node name : String) (ts : List String)
    (ws : List Writer) : (c.extendNode node ts ws).nodes.get? name =
      (c.nodes.get? name).map (CompiledNode.extend (if name = node then ts else [])
        (if name = node then ws else [])) := by
  have hid : CompiledNode.extend [] [] = id := funext CompiledNode.extend_nil
  rw [CompiledGraph.extendNode, Dict.get?_modify]
  by_cases h : name = node
  · rw [if_pos h, if_pos h, if_pos h, h]
  · rw [if_neg h, if_neg h, if_neg h, hid, Option.map_id, id_eq]

namespace StateGraph

def edgeWriters (name : String) (e : String × String) : List Writer :=
  if e.2 ≠ endName ∧ e.1 = name then [.entry (branchTo e.2) .none] else []

def joinTriggers (name : String) (e : List String × String) : List String :=
  if e.2 ≠ endName ∧ e.2 = name then [joinName e.1 e.2] else []

def joinWriters (name : String) (e : List String × String) : List Writer :=
  if e.2 ≠ endName then
    e.1.flatMap (fun start => if name = start then [.entry (joinName e.1 e.2) (.str start)] else [])
  else []

def branchWriters (name : String) (e : String × Dict String BranchSpec) : List Writer :=
  if e.1 = name then e.2.items.map (fun b => .branch b.1 b.2) else []

variable (g : StateGraph)

def triggersOf (name : String) : List String := g.waitingEdges.flatMap (joinTriggers name)

def writersOf (name : String) : List Writer :=
  g.edges.flatMap (edgeWriters name) ++
    (g.waitingEdges.flatMap (joinWriters name) ++ g.branches.items.flatMap (branchWriters name))

variable {g} {name chan : String}

theorem get?_attachEdge (c : CompiledGraph) (e : String × String) :
    (c.attachEdge e).nodes.get? name =
      (c.nodes.get? name).map (CompiledNode.extend [] (edgeWriters name e)) := by
  have hid : CompiledNode.extend [] [] = id := funext CompiledNode.extend_nil
  unfold CompiledGraph.attachEdge edgeWriters
  by_cases hend : e.2 = endName
  · rw [if_pos hend, if_neg (fun h => h.1 hend), hid, Option.map_id, id_eq]
  · rw [if_neg hend, get?_extendNode]
    by_cases hname : name = e.1
    · rw [if_pos hname, if_pos hname, if_pos ⟨hend, hname.symm⟩]
    · rw [if_neg hname, if_neg hname, if_neg (fun h => hname h.2.symm)]

theorem get?_attachWaitingEdge (c : CompiledGraph) (e : List String × String) :
    (c.attachWaitingEdge g e).nodes.get? name =
      (c.nodes.get? name).map
        (CompiledNode.extend (joinTriggers name e) (joinWriters name e)) := by
  have hid : CompiledNode.extend [] [] = id := funext CompiledNode.extend_nil
  unfold CompiledGraph.attachWaitingEdge joinTriggers joinWriters
  by_cases hend : e.2 = endName
  · rw [if_pos hend, if_neg (fun h => h.1 hend), if_neg (fun h => h hend), hid, Option.map_id,
      id_eq]
  · have hstep (c : CompiledGraph) (start : String) :
        (c.extendNode start [] [.entry (joinName e.1 e.2) (.str start)]).nodes.get? name =
          (c.nodes.get? name).map (CompiledNode.extend []
            (if name = start then [.entry (joinName e.1 e.2) (.str start)] else [])) := by
      rw [get?_extendNode, ite_self]
    rw [if_neg hend, if_pos hend]
    simp only
    rw [get?_foldl_extend hstep, get?_extendNode, Option.map_map, ite_self]
    refine congrArg (fun f => Option.map f (c.nodes.get? name)) (funext fun n => ?_)
    rw [Function.comp_apply, CompiledNode.extend_extend, List.nil_append, flatMap_none,
      List.append_nil]
    by_cases hname : name = e.2
    · rw [if_pos hname, if_pos ⟨hend, hname.symm⟩]
    · rw [if_neg hname, if_neg (fun h => hname h.2.symm)]

theorem get?_attachBranches (c : CompiledGraph) (e : String × Dict String BranchSpec) :
    (c.attachBranches e).nodes.get? name =
      (c.nodes.get? name).map (CompiledNode.extend [] (branchWriters name e)) := by
  have hstep (c : CompiledGraph) (b : String × BranchSpec) :
      (c.extendNode e.1 [] [.branch b.1 b.2]).nodes.get? name =
        (c.nodes.get? name).map (CompiledNode.extend []
          (if name = e.1 then [.branch b.1 b.2] else [])) := by
    rw [get?_extendNode, ite_self]
  rw [CompiledGraph.attachBranches, get?_foldl_extend hstep, branchWriters, flatMap_none]
  by_cases hname : name = e.1
  · simp only [if_pos hname, if_pos hname.symm, List.map_eq_flatMap]
  · simp only [if_neg hname, if_neg (fun h => hname (Eq.symm h)), flatMap_none]

def attached (g : StateGraph) (name : String) : Option CompiledNode :=
  if name = Key.start then some ⟨CompiledGraph.startNode, [.updates g.inputKeys]⟩
  else (g.nodes.get? name).map (fun spec => ⟨spec.pregelNode name, [.updates g.outputKeys]⟩)

theorem filter_items {α : Type} (d : Dict String α) (k : String) :
    d.items.filter (fun e => e.1 = k) = ((d.get? k).map (fun v => (k, v))).toList := by
  have aux (l : List (String × α)) (hn : (l.map Prod.fst).Nodup) :
      l.filter (fun e => e.1 = k) = ((Dict.lookup k l).map (fun v => (k, v))).toList := by
    induction l with
    | nil => rfl
    | cons e l ih =>
      rw [List.map_cons, List.nodup_cons] at hn
      obtain ⟨hnot, hrest⟩ := hn
      by_cases hk : e.1 = k
      · have hnone : l.filter (fun e => e.1 = k) = [] := by
          refine List.filter_eq_nil_iff.mpr (fun e' he' heq => hnot ?_)
          rw [hk, ← of_decide_eq_true heq]
          exact List.mem_map_of_mem he'
        rw [List.filter_cons_of_pos (by simpa using hk), hnone, Dict.lookup, if_pos hk, ← hk]
        rfl
      · rw [List.filter_cons_of_neg (by simpa using hk), ih hrest, Dict.lookup, if_neg hk]
  exact aux d.items d.nodup

theorem nodes_foldl_attachNode (keys : List String) (xs : List (String × StateNodeSpec))
    (c : CompiledGraph) :
    (xs.foldl (CompiledGraph.attachNode keys) c).nodes =
        xs.foldl (fun d e => d.set e.1 ⟨e.2.pregelNode e.1, [.updates keys]⟩) c.nodes ∧
      (xs.foldl (CompiledGraph.attachNode keys) c).channels =
        xs.foldl (fun d e => d.set (branchTo e.1) (e.2.branchChannel e.1)) c.channels := by
  induction xs generalizing c with
  | nil => exact ⟨rfl, rfl⟩
  | cons e xs ih => exact ih (c.attachNode keys e)

theorem get?_attach (name : String) (hstart : Key.start ∉ g.nodes.keys) :
    g.attach.nodes.get? name =
      (g.attached name).map (CompiledNode.extend (g.triggersOf name) (g.writersOf name)) := by
  unfold attach
  simp only
  rw [get?_foldl_extend get?_attachBranches, get?_foldl_extend get?_attachWaitingEdge,
    get?_foldl_extend get?_attachEdge, (nodes_foldl_attachNode _ _ _).1, get?_foldl_set,
    filter_items, Option.map_map, Option.map_map]
  have hextend : (CompiledNode.extend (g.branches.items.flatMap (fun _ => []))
      (g.branches.items.flatMap (branchWriters name)) ∘
        CompiledNode.extend (g.waitingEdges.flatMap (joinTriggers name))
          (g.waitingEdges.flatMap (joinWriters name))) ∘
          CompiledNode.extend (g.edges.flatMap (fun _ => [])) (g.edges.flatMap (edgeWriters name)) =
      CompiledNode.extend (g.triggersOf name) (g.writersOf name) := by
    funext n
    simp only [Function.comp_apply, CompiledNode.extend_extend, flatMap_none, List.nil_append,
      List.append_nil, triggersOf, writersOf, List.append_assoc]
  rw [hextend]
  refine congrArg _ ?_
  unfold attached
  by_cases hname : name = Key.start
  · rw [if_pos hname, hname, Dict.get?_eq_none.mpr hstart]
    exact Dict.get?_set_self _ _ _
  · rw [if_neg hname]
    cases g.nodes.get? name with
    | none => exact Dict.get?_set_ne _ hname _
    | some spec => rfl

def joinsOn (g : StateGraph) (chan : String) : List (List String × String) :=
  g.waitingEdges.filter (fun e => e.2 ≠ endName ∧ joinName e.1 e.2 = chan)

theorem channels_extendNodes {α : Type} (node : α → String) (ws : α → List Writer) (xs : List α)
    (c : CompiledGraph) :
    (xs.foldl (fun c x => c.extendNode (node x) [] (ws x)) c).channels = c.channels := by
  refine channels_foldl (fun c x => ?_) xs c
  rfl

theorem channels_attachWaitingEdges (xs : List (List String × String)) (c : CompiledGraph) :
    (xs.foldl (CompiledGraph.attachWaitingEdge g) c).channels =
      (xs.filter (fun e => e.2 ≠ endName)).foldl
        (fun d e => d.set (joinName e.1 e.2) (g.barrier e)) c.channels := by
  induction xs generalizing c with
  | nil => rfl
  | cons e xs ih =>
    rw [List.foldl_cons, ih]
    by_cases hend : e.2 = endName
    · rw [List.filter_cons_of_neg (by simpa using hend), CompiledGraph.attachWaitingEdge,
        if_pos hend]
    · rw [List.filter_cons_of_pos (by simpa using hend), List.foldl_cons,
        CompiledGraph.attachWaitingEdge, if_neg hend]
      simp only
      rw [channels_extendNodes (fun start => start)]
      rfl

theorem channels_attach : g.attach.channels =
    (g.waitingEdges.filter (fun e => e.2 ≠ endName)).foldl
      (fun d e => d.set (joinName e.1 e.2) (g.barrier e))
      (g.nodes.items.foldl (fun d e => d.set (branchTo e.1) (e.2.branchChannel e.1))
        g.pregelChannels) := by
  have hedge (c : CompiledGraph) (e : String × String) :
      (c.attachEdge e).channels = c.channels := by
    unfold CompiledGraph.attachEdge
    split
    · rfl
    · rfl
  have hbranches (c : CompiledGraph) (e : String × Dict String BranchSpec) :
      (c.attachBranches e).channels = c.channels :=
    channels_extendNodes (fun _ => e.1) _ _ c
  unfold attach
  simp only
  rw [channels_foldl hbranches, channels_attachWaitingEdges, channels_foldl hedge,
    (nodes_foldl_attachNode _ _ _).2]
  rfl

theorem get?_channels (chan : String) : g.attach.channels.get? chan =
    ((g.joinsOn chan).getLast?.map g.barrier).or
      (((g.nodes.items.filter (fun e => branchTo e.1 = chan)).getLast?.map
        (fun e => e.2.branchChannel e.1)).or (g.pregelChannels.get? chan)) := by
  rw [channels_attach, get?_foldl_set, get?_foldl_set, List.filter_filter, joinsOn]
  simp only [Bool.decide_and, Bool.and_comm]

theorem joinsOn_of_head (g : StateGraph) {chan : String} {c : Char}
    (h : chan.toList.head? = some c) (hj : c ≠ 'j') : g.joinsOn chan = [] := by
  refine List.filter_eq_nil_iff.mpr (fun e _ heq => ?_)
  obtain ⟨-, heq⟩ := of_decide_eq_true heq
  exact ne_of_head (head_joinName e.1 e.2) h (fun hc => hj hc.symm) heq

theorem branchesOn_of_head (g : StateGraph) {chan : String} {c : Char}
    (h : chan.toList.head? = some c) (hb : c ≠ 'b') :
    g.nodes.items.filter (fun e => branchTo e.1 = chan) = [] := by
  refine List.filter_eq_nil_iff.mpr (fun e _ heq => ?_)
  exact ne_of_head (head_branchTo e.1) h (fun hc => hb hc.symm) (of_decide_eq_true heq)

theorem get?_branchTo {spec : StateNodeSpec} (h : g.nodes.get? name = some spec) :
    g.attach.channels.get? (branchTo name) = some (spec.branchChannel name) := by
  have hitems : g.nodes.items.filter (fun e => branchTo e.1 = branchTo name) =
      g.nodes.items.filter (fun e => e.1 = name) := by
    refine List.filter_congr (fun e _ => decide_eq_decide.mpr ?_)
    exact ⟨branchTo_injective, fun heq => heq ▸ rfl⟩
  rw [get?_channels, joinsOn_of_head g (head_branchTo name) (by decide), hitems, filter_items, h]
  rfl

theorem get?_start : g.attach.channels.get? Key.start =
    some (.ephemeralValue ⟨Key.start, true, none⟩) := by
  have hhead : Key.start.toList.head? = some '_' := rfl
  rw [get?_channels, joinsOn_of_head g hhead (by decide), branchesOn_of_head g hhead (by decide),
    pregelChannels, Dict.get?_set_ne _ (by decide), Dict.get?_set_self]
  rfl

theorem get?_tasks : g.attach.channels.get? Key.tasks = some (.topic ⟨false, []⟩) := by
  have hhead : Key.tasks.toList.head? = some '_' := rfl
  rw [get?_channels, joinsOn_of_head g hhead (by decide), branchesOn_of_head g hhead (by decide),
    pregelChannels, Dict.get?_set_self]
  rfl

end StateGraph

end LangGraph
