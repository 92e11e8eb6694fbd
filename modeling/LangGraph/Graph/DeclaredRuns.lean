import LangGraph.Graph.DeclaredEdges
import LangGraph.Pregel.SnapshotScheduling

namespace LangGraph

open Collections Transition

def Value.isSend : Value → Bool
  | .send _ _ => true
  | _ => false

namespace Compilation

variable {Ver : Type} [LinearOrder Ver] [OrderBot Ver] {k : Compilation} {x x' : Execution Ver}
  {save : Save Ver} {name chan : String} {proc : PregelNode}

-- Every node that is declared to run finds its input.
def Readable (k : Compilation) (x : Execution Ver) : Prop :=
  ∀ name spec, k.builder.nodes.get? name = some spec → k.builder.Declared x.log name →
    (k.graph.readInput x.channels spec.nodeChannels).isSome = true

structure Plain (k : Compilation) (r : Returned) : Prop where
  sends : ∀ branch, ∀ v ∈ r.answers branch, v.isSend = false
  updates : ∀ w ∈ r.updates, w.1 ∈ k.builder.outputKeys ++ k.builder.inputKeys →
    ¬ k.Trigger w.1 ∧ w.1 ≠ Key.tasks

structure Meets (k : Compilation) (x : Execution Ver) (t : Turn) : Prop where
  readable : k.Readable x
  plain : ∀ results, t = .superstep results → ∀ node,
    (∀ r, results.returned node = some r → k.Plain r) ∧ k.Plain (results.handled node)
  barriers : ∀ tasks entry, k.tasksOf x t = some (tasks, entry) → ∀ r ∈ entry,
    ∀ e ∈ k.builder.waitingEdges, e.2 ≠ endName → r.node ∈ e.1 →
      (k.builder.registered (joinName e.1 e.2)).toFinset = e.1.toFinset

section Due

theorem Sound.stateNodes (hk : k.Sound) : k.graph.StateNodes where
  start proc h := by
    rw [hk.start_node] at h
    rw [← Option.some.inj h]
    rfl
  node name proc h hs := by
    rw [hk.node hs] at h
    obtain ⟨spec, hspec, rfl⟩ := Option.map_eq_some_iff.mp h
    refine ⟨(hk.wellFormed.names name (Dict.mem_keys.mpr ⟨spec, hspec⟩)).2.2, _, rfl,
      fun chan hchan => ?_⟩
    obtain ⟨e, -, -, -, rfl⟩ := mem_triggersOf.mp hchan
    rw [joinName, String.append_assoc, String.append_assoc, String.toList_append]
    exact List.prefix_append _ _

theorem Tracks.offered_branch (hx : k.Tracks x) (h : name ∈ k.builder.nodes.keys) :
    Graph.Offered x.channels (branchTo name) ↔ k.builder.FollowedLast x.log name := by
  obtain ⟨e, he, -, hvalue⟩ := hx.branch name h
  rw [← hvalue]
  constructor
  · rintro ⟨c, hc, ha⟩
    rw [he] at hc
    rw [← Option.some.inj hc] at ha
    exact ha
  · exact fun ha => ⟨_, he, ha⟩

theorem Tracks.offered_join (hx : k.Tracks x) (h : k.builder.joinsOn chan ≠ []) :
    Graph.Offered x.channels chan ↔
      Rendezvous.arrived (k.builder.registered chan).toFinset (x.log.map ranNodes) =
        (k.builder.registered chan).toFinset := by
  have hc := hx.joins chan h
  rw [← StateGraph.available_barrierAt]
  constructor
  · rintro ⟨c, hget, ha⟩
    rw [hc] at hget
    rw [← Option.some.inj hget] at ha
    exact ha
  · exact fun ha => ⟨_, hc, ha⟩

-- A waiting edge whose barrier waits for other names had none of its sources run.
theorem Tracks.registered_of_completes (hx : k.Tracks x) {e : List String × String}
    (he : e ∈ k.builder.waitingEdges) (hend : e.2 ≠ endName) {entry : List Ran}
    {before : List (List Ran)} (hlog : x.log = entry :: before)
    (h : Rendezvous.Completes e.1.toFinset (ranNodes entry) (before.map ranNodes)) :
    (k.builder.registered (joinName e.1 e.2)).toFinset = e.1.toFinset := by
  by_contra hne
  have habsent := hx.absent e he hend hne entry (hlog ▸ List.mem_cons_self)
  exact Rendezvous.not_completes_of_absent habsent h

theorem Tracks.offered_iff (hk : k.Sound) (hx : k.Tracks x) (h : name ∈ k.builder.nodes.keys) :
    (∃ chan ∈ branchTo name :: k.builder.triggersOf name, Graph.Offered x.channels chan) ↔
      k.builder.Declared x.log name := by
  have hend : name ≠ endName := (hk.wellFormed.names name h).2.1
  constructor
  · rintro ⟨chan, hchan, ho⟩
    rcases List.mem_cons.mp hchan with rfl | hjoin
    · have hfollowed := (hx.offered_branch h).mp ho
      cases hlog : x.log with
      | nil =>
        rw [hlog] at hfollowed
        exact hfollowed
      | cons entry before =>
        rw [hlog] at hfollowed
        exact Or.inl hfollowed
    · obtain ⟨e, he, hne, rfl, rfl⟩ := mem_triggersOf.mp hjoin
      have hj := StateGraph.joins_of_mem he hne
      have hfull := (hx.offered_join hj).mp ho
      obtain ⟨e', he', hne', hname, hregistered⟩ := StateGraph.registered_of_joins hj
      have hparties : (k.builder.registered (joinName e.1 e.2)).toFinset.Nonempty := by
        simpa using hk.registered_ne hj
      cases hlog : x.log with
      | nil =>
        rw [hlog] at hfull
        exact absurd hfull.symm hparties.ne_empty
      | cons entry before =>
        rw [hlog] at hfull
        refine Or.inr ⟨e', he', ?_, ?_⟩
        · refine joinName_target (fun s hs => ?_) (fun s hs => ?_) hname
          · exact (hk.wellFormed.names s ((hk.wellFormed.waiting e' he').1 s hs)).2.2
          · exact (hk.wellFormed.names s ((hk.wellFormed.waiting e he).1 s hs)).2.2
        · rw [← hregistered]
          exact (Rendezvous.completes_iff hparties).mpr hfull
  · intro hdeclared
    cases hlog : x.log with
    | nil =>
      rw [hlog] at hdeclared
      exact hdeclared.elim
    | cons entry before =>
      rw [hlog] at hdeclared
      rcases hdeclared with hfollows | ⟨e, he, rfl, hcompletes⟩
      · refine ⟨branchTo name, List.mem_cons_self, (hx.offered_branch h).mpr ?_⟩
        rw [hlog]
        exact hfollows
      · have hsame := hx.registered_of_completes he hend hlog hcompletes
        have hj := StateGraph.joins_of_mem he hend
        refine ⟨joinName e.1 e.2, List.mem_cons_of_mem _ (mem_triggersOf.mpr ⟨e, he, hend, rfl, rfl⟩),
          (hx.offered_join hj).mpr ?_⟩
        have hparties : e.1.toFinset.Nonempty := by
          simpa using hk.sourced e he hend
        rw [hlog, hsame]
        exact (Rendezvous.completes_iff hparties).mp hcompletes

end Due

section Prepared

variable {trigger : Option (Dict String (List String))} {updated : Option (Finset String)}

-- A node that fires and whose input is there gets a task, whatever inputs are already cached.
theorem exists_preparePulls {g : Graph Channel} {checkpoint : Checkpoint Ver}
    {channels : Dict String Channel} (step : Int) (hproc : g.nodes.get? name = some proc)
    (hfires : Graph.Fires checkpoint channels name proc)
    (hread : (g.readInput channels proc.channels).isSome = true) (hnode : proc.hasNode = true)
    {names : List String} (hmem : name ∈ names) (cache : InputCache) :
    ∃ t ∈ g.preparePulls checkpoint channels step true names cache,
      t.name = name ∧ t.triggers = Graph.sortedTriggers proc := by
  induction names generalizing cache with
  | nil => cases hmem
  | cons other names ih =>
    rcases List.mem_cons.mp hmem with rfl | hrest
    · obtain ⟨t, ht, hspec⟩ := Graph.exists_preparePull step cache hproc hfires (Or.inr hread) hnode
      exact ⟨t, List.mem_append_left _ (Option.mem_toList.mpr ht), hspec⟩
    · obtain ⟨t, ht, hspec⟩ := ih hrest
        (g.preparePull checkpoint channels step true other cache).2
      exact ⟨t, List.mem_append_right _ ht, hspec⟩

def Covers (k : Compilation) (x : Execution Ver)
    (trigger : Option (Dict String (List String))) (updated : Option (Finset String)) : Prop :=
  ∀ name proc chan, k.graph.nodes.get? name = some proc → chan ∈ proc.triggers →
    Graph.Offered x.channels chan → name ∈ k.graph.candidateNodes x.checkpoint trigger updated

def tasksFor (k : Compilation) (x : Execution Ver) (trigger : Option (Dict String (List String)))
    (updated : Option (Finset String)) : List PregelTask :=
  (k.graph.prepareNextTasks x.checkpoint x.channels x.step true trigger updated).values

theorem Tracks.values (hk : k.Sound) (hh : k.graph.CollisionFree) (hx : k.Tracks x) :
    k.tasksFor x trigger updated =
      k.graph.preparedPulls x.checkpoint x.channels x.step true trigger updated := by
  have hpush : k.graph.pushTasks x.checkpoint.id x.channels x.step true = [] := by
    rw [Graph.pushTasks, hx.sends]
    rfl
  rw [tasksFor, Graph.values_prepareNextTasks hk.stateNodes hh, hpush, List.nil_append]

theorem Tracks.readInput (hk : k.Sound) (hx : k.Tracks x) (hread : k.Readable x)
    (hproc : k.graph.nodes.get? name = some proc) (hchan : chan ∈ proc.triggers)
    (ho : Graph.Offered x.channels chan) :
    (k.graph.readInput x.channels proc.channels).isSome = true ∧ proc.hasNode = true := by
  by_cases hs : name = Key.start
  · rw [hs, hk.start_node] at hproc
    obtain rfl := Option.some.inj hproc
    rw [List.mem_singleton.mp hchan] at ho
    obtain ⟨c, hc, ha⟩ := ho
    have ha' : BaseChannel.isAvailable c = true := ha
    refine ⟨?_, rfl⟩
    simp only [Graph.readInput, CompiledGraph.startNode, hc, ha', if_true]
    exact Channel.get_isSome ha
  · have hkey : name ∈ k.builder.nodes.keys := by
      rw [hk.node hs] at hproc
      obtain ⟨spec, hspec, -⟩ := Option.map_eq_some_iff.mp hproc
      exact Dict.mem_keys.mpr ⟨spec, hspec⟩
    obtain ⟨spec, hspec, hnode⟩ := hk.mem_nodes hkey
    obtain rfl := Option.some.inj (hproc.symm.trans hnode)
    exact ⟨hread name spec hspec ((hx.offered_iff hk hkey).mp ⟨chan, hchan, ho⟩), rfl⟩

theorem Tracks.task_of_offered (hk : k.Sound) (hh : k.graph.CollisionFree) (hx : k.Tracks x)
    (hread : k.Readable x) (hcover : k.Covers x trigger updated)
    (hproc : k.graph.nodes.get? name = some proc) (hchan : chan ∈ proc.triggers)
    (ho : Graph.Offered x.channels chan) :
    ∃ t ∈ k.tasksFor x trigger updated, t.name = name ∧ t.triggers = Graph.sortedTriggers proc := by
  obtain ⟨-, hdue⟩ := hx.current name proc chan hproc hchan ho
  obtain ⟨hinput, hnode⟩ := hx.readInput hk hread hproc hchan ho
  rw [hx.values hk hh]
  exact exists_preparePulls x.step hproc (Graph.triggers_of_due ⟨chan, hchan, hdue⟩) hinput hnode
    (hcover name proc chan hproc hchan ho) []

theorem Tracks.offered_of_task (hk : k.Sound) (hh : k.graph.CollisionFree) (hx : k.Tracks x)
    {t : PregelTask} (ht : t ∈ k.tasksFor x trigger updated) :
    t.writes = [] ∧ ∃ proc, k.graph.nodes.get? t.name = some proc ∧
      t.triggers = Graph.sortedTriggers proc ∧
      ∃ chan ∈ proc.triggers, Graph.Offered x.channels chan := by
  rw [hx.values hk hh] at ht
  obtain ⟨name, -, cache, hpull⟩ := Graph.mem_preparePulls ht
  obtain ⟨proc, hproc, hfires, htriggers⟩ := Graph.mem_preparePulls_fires ht
  obtain ⟨-, chan, hchan, ho, -⟩ := Graph.fires_iff.mp hfires
  exact ⟨Graph.writes_preparePull hpull, proc, hproc, htriggers, chan, hchan, ho⟩

theorem Tracks.versions_ne (hx : k.Tracks x) (hproc : k.graph.nodes.get? name = some proc)
    (hchan : chan ∈ proc.triggers) (ho : Graph.Offered x.channels chan) :
    x.checkpoint.channelVersions.items ≠ [] := by
  obtain ⟨-, -, v, hv, -⟩ := hx.current name proc chan hproc hchan ho
  exact List.ne_nil_of_mem (Dict.get?_eq_some.mp hv)

theorem Tracks.covers_prepared (hx : k.Tracks x) :
    k.Covers x (some k.graph.triggerToNodes) x.updated := by
  intro name proc chan hproc hchan ho
  obtain ⟨⟨u, hu, hmem⟩, -⟩ := hx.current name proc chan hproc hchan ho
  have hindex : name ∈ k.graph.triggerToNodes.getD chan [] :=
    mem_triggerToNodes.mpr ⟨proc, hproc, hchan⟩
  obtain ⟨names, hnames⟩ := Dict.mem_keys.mp (mem_keys_triggerToNodes hproc hchan)
  have hnames' : k.graph.triggerToNodes.get? chan = some names := hnames
  have hitem := Dict.get?_eq_some.mp hnames'
  rw [Dict.getD_of_get? hnames'] at hindex
  have hne : u ≠ ∅ ∧ k.graph.triggerToNodes.items ≠ [] :=
    ⟨Finset.ne_empty_of_mem hmem, List.ne_nil_of_mem hitem⟩
  rw [hu, Graph.candidateNodes, if_pos hne, List.mem_insertionSort, List.mem_dedup]
  exact List.mem_flatMap.mpr ⟨(chan, names), List.mem_filter.mpr ⟨hitem, decide_eq_true hmem⟩,
    hindex⟩

theorem Tracks.covers_discarded (hx : k.Tracks x) (updated : Option (Finset String)) :
    k.Covers x none updated := by
  intro name proc chan hproc hchan ho
  have hne := hx.versions_ne hproc hchan ho
  have hall : k.graph.candidateNodes x.checkpoint none updated = k.graph.nodes.keys := by
    unfold Graph.candidateNodes
    split
    · rename_i h
      cases h
    · exact if_neg hne
  rw [hall]
  exact Dict.mem_keys.mpr ⟨proc, hproc⟩

-- The nodes that get a task in the next superstep are those that are declared to run.
theorem Tracks.mem_prepared (hk : k.Sound) (hh : k.graph.CollisionFree) (hx : k.Tracks x)
    (hread : k.Readable x) (hname : name ∈ k.builder.nodes.keys) :
    name ∈ (k.prepared x).map PregelTask.name ↔ k.builder.Declared x.log name := by
  rw [← hx.offered_iff hk hname]
  obtain ⟨spec, -, hproc⟩ := hk.mem_nodes hname
  constructor
  · intro hmem
    obtain ⟨t, ht, rfl⟩ := List.mem_map.mp hmem
    obtain ⟨-, proc, hproc', -, ho⟩ := hx.offered_of_task hk hh ht
    obtain rfl := Option.some.inj (hproc'.symm.trans hproc)
    exact ho
  · rintro ⟨chan, hchan, ho⟩
    obtain ⟨t, ht, hname, -⟩ := hx.task_of_offered hk hh hread hx.covers_prepared hproc hchan ho
    exact List.mem_map.mpr ⟨t, ht, hname⟩

end Prepared

end Compilation

end LangGraph
