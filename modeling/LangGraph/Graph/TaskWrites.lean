import LangGraph.Graph.DeclaredRuns

namespace LangGraph

open Collections Transition

namespace Environment

variable (env : Environment) (r : Returned)

def plainWrites : Writer → List Write
  | .updates keys => r.updates.filter (fun w => w.1 ∈ keys)
  | .entry channel value => [(channel, value)]
  | .branch _ _ => []

theorem publish_updates (keys : List String) (ws : List Writer) :
    env.publish r (.updates keys :: ws) =
      (plainWrites r (.updates keys) ++ (env.publish r ws).1, (env.publish r ws).2) := rfl

theorem publish_entries {us : List Writer} (h : ∀ u ∈ us, ∃ c v, u = .entry c v)
    (ws : List Writer) : env.publish r (us ++ ws) =
      (us.flatMap (plainWrites r) ++ (env.publish r ws).1, (env.publish r ws).2) := by
  induction us with
  | nil => rfl
  | cons u us ih =>
    obtain ⟨⟨c, v, rfl⟩, hus⟩ := List.forall_mem_cons.mp h
    change ([(c, v)] ++ (env.publish r (us ++ ws)).1, (env.publish r (us ++ ws)).2) = _
    rw [ih hus]
    rfl

-- The branches write what they answered before one of them raised.
theorem publish_branches (bs : List (String × BranchSpec)) :
    (env.publish r (bs.map (fun b => .branch b.1 b.2))).1 =
      env.getWrites (StateGraph.answered r bs) := by
  induction bs with
  | nil => rfl
  | cons b bs ih =>
    have hwrite : env.write r (.branch b.1 b.2) =
        (b.2.destinations (r.answers b.1)).map env.getWrites := rfl
    rw [List.map_cons, publish, hwrite, StateGraph.answered]
    cases b.2.destinations (r.answers b.1) with
    | error e => rfl
    | ok targets =>
      simp only [Except.map]
      rw [ih, getWrites, getWrites, getWrites, List.filter_append, List.map_append]

end Environment

theorem BranchSpec.destination_plain {ends : Dict Value String} {v d : Value}
    (h : destination ends v = .ok d) (hplain : v.isSend = false) : d.isSend = false := by
  unfold destination at h
  split at h
  · cases hplain
  · split at h
    · rw [← Except.ok.inj h]
      rfl
    · cases h

theorem BranchSpec.destinations_plain {branch : BranchSpec} {answers targets : List Value}
    (h : branch.destinations answers = .ok targets) (hplain : ∀ v ∈ answers, v.isSend = false) :
    ∀ d ∈ targets, d.isSend = false := by
  obtain ⟨found, hfound, h⟩ := Exceptions.bind_ok h
  have hall : ∀ d ∈ found, d.isSend = false := by
    unfold BranchSpec.resolve at hfound
    split at hfound
    · split at hfound
      · rw [← Except.ok.inj hfound]
        exact hplain
      · intro d hd
        obtain ⟨v, hv, hvd⟩ := Exceptions.exists_left (Exceptions.forall₂_of_mapM hfound) d hd
        exact destination_plain hvd (hplain v hv)
    · rw [← Except.ok.inj hfound]
      exact hplain
  split at h
  · cases h
  · split at h
    · cases h
    · rw [← Except.ok.inj h]
      exact hall

namespace Compilation

variable {Ver : Type} [LinearOrder Ver] [OrderBot Ver] {k : Compilation} {x x' : Execution Ver}
  {name chan : String} {r : Returned} {v : Value}

section Publish

def stateKeys (k : Compilation) (name : String) : List String :=
  if name = Key.start then k.builder.inputKeys else k.builder.outputKeys

def Node (k : Compilation) (name : String) : Prop :=
  name = Key.start ∨ name ∈ k.builder.nodes.keys

theorem Sound.node_of_get? (hk : k.Sound) {proc : PregelNode}
    (h : k.graph.nodes.get? name = some proc) : k.Node name := by
  by_cases hs : name = Key.start
  · exact Or.inl hs
  · rw [hk.node hs] at h
    obtain ⟨spec, hspec, -⟩ := Option.map_eq_some_iff.mp h
    exact Or.inr (Dict.mem_keys.mpr ⟨spec, hspec⟩)

theorem Sound.writers (hk : k.Sound) (hnode : k.Node name) : k.compiled.writers name =
    .updates (k.stateKeys name) :: k.builder.writersOf name := by
  have hget := StateGraph.get?_attach name hk.start_not_node
  rw [CompiledGraph.writers, hk.attached, hget, stateKeys, StateGraph.attached]
  rcases hnode with rfl | hmem
  · rfl
  · obtain ⟨spec, hspec⟩ := Dict.mem_keys.mp hmem
    have hs := (hk.wellFormed.names name hmem).1
    rw [if_neg hs, if_neg hs, hspec]
    rfl

theorem branchWriters_eq (g : StateGraph) : g.branches.items.flatMap (StateGraph.branchWriters name) =
    (g.branchesOf name).map (fun b => .branch b.1 b.2) := by
  unfold StateGraph.branchesOf
  rw [List.map_flatMap]
  refine congrArg (fun f => g.branches.items.flatMap f) (funext fun e => ?_)
  unfold StateGraph.branchWriters
  split
  · rfl
  · rfl

theorem mem_edgeWrites {g : StateGraph} {w : Write} :
    w ∈ (g.edges.flatMap (StateGraph.edgeWriters name)).flatMap (Environment.plainWrites r) ↔
      ∃ n, (name, n) ∈ g.edges ∧ n ≠ endName ∧ w = (branchTo n, .none) := by
  simp only [List.mem_flatMap, StateGraph.edgeWriters]
  constructor
  · rintro ⟨writer, ⟨e, he, hwriter⟩, hw⟩
    split at hwriter
    · rename_i h
      obtain ⟨hend, rfl⟩ := h
      rw [List.mem_singleton.mp hwriter] at hw
      exact ⟨e.2, he, hend, List.mem_singleton.mp hw⟩
    · cases hwriter
  · rintro ⟨n, he, hend, rfl⟩
    refine ⟨.entry (branchTo n) .none, ⟨(name, n), he, ?_⟩, List.mem_singleton_self _⟩
    rw [if_pos ⟨hend, rfl⟩]
    exact List.mem_singleton_self _

theorem mem_joinWrites {g : StateGraph} {w : Write} :
    w ∈ (g.waitingEdges.flatMap (StateGraph.joinWriters name)).flatMap
        (Environment.plainWrites r) ↔
      ∃ e ∈ g.waitingEdges, e.2 ≠ endName ∧ name ∈ e.1 ∧
        w = (joinName e.1 e.2, .str name) := by
  simp only [List.mem_flatMap, StateGraph.joinWriters]
  constructor
  · rintro ⟨writer, ⟨e, he, hwriter⟩, hw⟩
    split at hwriter
    · rename_i hend
      obtain ⟨start, hstart, hwriter⟩ := List.mem_flatMap.mp hwriter
      split at hwriter
      · rename_i hname
        rw [List.mem_singleton.mp hwriter] at hw
        exact ⟨e, he, hend, hname ▸ hstart, hname ▸ List.mem_singleton.mp hw⟩
      · cases hwriter
    · cases hwriter
  · rintro ⟨e, he, hend, hmem, rfl⟩
    refine ⟨.entry (joinName e.1 e.2) (.str name), ⟨e, he, ?_⟩, List.mem_singleton_self _⟩
    rw [if_pos hend]
    refine List.mem_flatMap.mpr ⟨name, hmem, ?_⟩
    rw [if_pos rfl]
    exact List.mem_singleton_self _

theorem Sound.mem_publish (hk : k.Sound) (hnode : k.Node name) {w : Write} :
    w ∈ (k.publish name r).1 ↔
      (w ∈ r.updates ∧ w.1 ∈ k.stateKeys name) ∨
      (∃ n, (name, n) ∈ k.builder.edges ∧ n ≠ endName ∧ w = (branchTo n, .none)) ∨
      (∃ e ∈ k.builder.waitingEdges, e.2 ≠ endName ∧ name ∈ e.1 ∧
        w = (joinName e.1 e.2, .str name)) ∨
      w ∈ k.env.getWrites (StateGraph.answered r (k.builder.branchesOf name)) := by
  have hedges : ∀ u ∈ k.builder.edges.flatMap (StateGraph.edgeWriters name),
      ∃ c v, u = .entry c v := by
    intro u hu
    obtain ⟨e, -, hu⟩ := List.mem_flatMap.mp hu
    unfold StateGraph.edgeWriters at hu
    split at hu
    · exact ⟨_, _, List.mem_singleton.mp hu⟩
    · cases hu
  have hjoins : ∀ u ∈ k.builder.waitingEdges.flatMap (StateGraph.joinWriters name),
      ∃ c v, u = .entry c v := by
    intro u hu
    obtain ⟨e, -, hu⟩ := List.mem_flatMap.mp hu
    unfold StateGraph.joinWriters at hu
    split at hu
    · obtain ⟨start, -, hu⟩ := List.mem_flatMap.mp hu
      split at hu
      · exact ⟨_, _, List.mem_singleton.mp hu⟩
      · cases hu
    · cases hu
  have hupdates : w ∈ Environment.plainWrites r (.updates (k.stateKeys name)) ↔
      w ∈ r.updates ∧ w.1 ∈ k.stateKeys name := by
    rw [Environment.plainWrites, List.mem_filter, decide_eq_true_iff]
  rw [publish, hk.writers hnode, Environment.publish_updates, StateGraph.writersOf,
    Environment.publish_entries k.env r hedges, Environment.publish_entries k.env r hjoins,
    branchWriters_eq, List.mem_append, List.mem_append, List.mem_append,
    Environment.publish_branches, hupdates, mem_edgeWrites, mem_joinWrites]

theorem answered_plain (hr : k.Plain r) {bs : List (String × BranchSpec)} :
    ∀ d ∈ StateGraph.answered r bs, d.isSend = false := by
  induction bs with
  | nil => nofun
  | cons b bs ih =>
    rw [StateGraph.answered]
    cases hb : b.2.destinations (r.answers b.1) with
    | error e => nofun
    | ok targets =>
      intro d hd
      rcases List.mem_append.mp hd with hd | hd
      · exact BranchSpec.destinations_plain hb (hr.sends b.1) d hd
      · exact ih d hd

theorem branchWrite_plain {env : Environment} {d : Value} (h : d.isSend = false) :
    env.branchWrite d = (branchTo (env.text d), .none) := by
  cases d with
  | send node arg => cases h
  | scalar s => rfl
  | list xs => rfl
  | dict items => rfl
  | overwrite v => rfl

theorem mem_getWrites (hr : k.Plain r) {bs : List (String × BranchSpec)} {w : Write} :
    w ∈ k.env.getWrites (StateGraph.answered r bs) ↔
      ∃ d ∈ StateGraph.answered r bs, d ≠ .str endName ∧
        w = (branchTo (k.env.text d), .none) := by
  rw [Environment.getWrites, List.mem_map]
  constructor
  · rintro ⟨d, hd, rfl⟩
    obtain ⟨hd, hne⟩ := List.mem_filter.mp hd
    exact ⟨d, hd, of_decide_eq_true hne, branchWrite_plain (answered_plain hr d hd)⟩
  · rintro ⟨d, hd, hne, rfl⟩
    exact ⟨d, List.mem_filter.mpr ⟨hd, decide_eq_true hne⟩,
      branchWrite_plain (answered_plain hr d hd)⟩

theorem Plain.not_trigger (hr : k.Plain r) {w : Write} (hw : w ∈ r.updates)
    (hkeys : w.1 ∈ k.stateKeys name) : ¬ k.Trigger w.1 ∧ w.1 ≠ Key.tasks := by
  refine hr.updates w hw (List.mem_append.mpr ?_)
  unfold stateKeys at hkeys
  split at hkeys
  · exact Or.inr hkeys
  · exact Or.inl hkeys

theorem Sound.writes_branch (hk : k.Sound) (hnode : k.Node name) (hr : k.Plain r) {n : String}
    (hn : n ∈ k.builder.nodes.keys) :
    (∃ v, (branchTo n, v) ∈ (k.publish name r).1) ↔
      (name, n) ∈ k.builder.edges ∨ n ∈ (k.builder.ran k.env name r).destinations := by
  have hend : n ≠ endName := (hk.wellFormed.names n hn).2.1
  constructor
  · rintro ⟨v, hv⟩
    rcases (hk.mem_publish hnode).mp hv with ⟨hw, hkeys⟩ | ⟨m, hm, -, heq⟩ | ⟨e, -, -, -, heq⟩ | hd
    · exact absurd (.branch n hn) (hr.not_trigger hw hkeys).1
    · rw [branchTo_injective (Prod.mk.inj heq).1]
      exact Or.inl hm
    · exact absurd (Prod.mk.inj heq).1.symm (joinName_ne_branchTo _ _ _)
    · obtain ⟨d, hd, -, heq⟩ := (mem_getWrites hr).mp hd
      rw [branchTo_injective (Prod.mk.inj heq).1]
      exact Or.inr (List.mem_map_of_mem hd)
  · rintro (he | hd)
    · exact ⟨.none, (hk.mem_publish hnode).mpr (Or.inr (Or.inl ⟨n, he, hend, rfl⟩))⟩
    · obtain ⟨d, hmem, rfl⟩ := List.mem_map.mp hd
      refine ⟨.none, (hk.mem_publish hnode).mpr (Or.inr (Or.inr (Or.inr ?_)))⟩
      refine (mem_getWrites hr).mpr ⟨d, hmem, ?_, rfl⟩
      rintro rfl
      exact hend (k.env.text_str endName)

theorem Sound.writes_join (hk : k.Sound) (hnode : k.Node name) (hr : k.Plain r)
    (hjoin : k.builder.joinsOn chan ≠ []) :
    (chan, v) ∈ (k.publish name r).1 ↔
      v = .str name ∧ ∃ e ∈ k.builder.waitingEdges, e.2 ≠ endName ∧ name ∈ e.1 ∧
        joinName e.1 e.2 = chan := by
  rw [hk.mem_publish hnode]
  constructor
  · rintro (⟨hw, hkeys⟩ | ⟨m, -, -, heq⟩ | ⟨e, he, hend, hmem, heq⟩ | hd)
    · exact absurd (.join chan hjoin) (hr.not_trigger hw hkeys).1
    · obtain ⟨e, -, -, rfl, -⟩ := StateGraph.registered_of_joins hjoin
      exact absurd (Prod.mk.inj heq).1 (joinName_ne_branchTo _ _ _)
    · obtain ⟨rfl, rfl⟩ := Prod.mk.inj heq
      exact ⟨rfl, e, he, hend, hmem, rfl⟩
    · obtain ⟨d, -, -, heq⟩ := (mem_getWrites hr).mp hd
      obtain ⟨e, -, -, rfl, -⟩ := StateGraph.registered_of_joins hjoin
      exact absurd (Prod.mk.inj heq).1 (joinName_ne_branchTo _ _ _)
  · rintro ⟨rfl, e, he, hend, hmem, rfl⟩
    exact Or.inr (Or.inr (Or.inl ⟨e, he, hend, hmem, rfl⟩))

theorem Sound.publish_head (hk : k.Sound) (hnode : k.Node name) (hr : k.Plain r) {w : Write}
    (hw : w ∈ (k.publish name r).1) : w ∈ r.updates ∧ w.1 ∈ k.stateKeys name ∨
      w.1.toList.head? = some 'b' ∨ w.1.toList.head? = some 'j' := by
  rcases (hk.mem_publish hnode).mp hw with hupdate | ⟨m, -, -, rfl⟩ | ⟨e, -, -, -, rfl⟩ | hd
  · exact Or.inl hupdate
  · exact Or.inr (Or.inl (head_branchTo m))
  · exact Or.inr (Or.inr (head_joinName e.1 e.2))
  · obtain ⟨d, -, -, rfl⟩ := (mem_getWrites hr).mp hd
    exact Or.inr (Or.inl (head_branchTo _))

theorem Sound.publish_start (hk : k.Sound) (hnode : k.Node name) (hr : k.Plain r) :
    (Key.start, v) ∉ (k.publish name r).1 := by
  have hkey : Key.start.toList.head? = some '_' := rfl
  intro hw
  rcases hk.publish_head hnode hr hw with ⟨hupdate, hkeys⟩ | hhead | hhead
  · exact (hr.not_trigger hupdate hkeys).1 .start
  · exact ne_of_head hhead hkey (by decide) rfl
  · exact ne_of_head hhead hkey (by decide) rfl

theorem Sound.publish_tasks (hk : k.Sound) (hnode : k.Node name) (hr : k.Plain r) :
    (Key.tasks, v) ∉ (k.publish name r).1 := by
  have hkey : Key.tasks.toList.head? = some '_' := rfl
  intro hw
  rcases hk.publish_head hnode hr hw with ⟨hupdate, hkeys⟩ | hhead | hhead
  · exact (hr.not_trigger hupdate hkeys).2 rfl
  · exact ne_of_head hhead hkey (by decide) rfl
  · exact ne_of_head hhead hkey (by decide) rfl

end Publish

end Compilation

end LangGraph
