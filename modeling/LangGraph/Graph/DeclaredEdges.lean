import LangGraph.Graph.Supersteps
import LangGraph.Pregel.SeenVersions
import LangGraph.Transition.Rendezvous

namespace LangGraph

open Collections Transition

def ranNodes (entry : List Ran) : Finset String := (entry.map Ran.node).toFinset

namespace StateGraph

variable (g : StateGraph)

-- A node that ran has an edge to `n`, or a branch of it returned `n`.
def Follows (entry : List Ran) (n : String) : Prop :=
  ∃ r ∈ entry, (r.node, n) ∈ g.edges ∨ n ∈ r.destinations

-- The supersteps of a run are given newest first: `n` is declared to run after the last of them.
def Declared : List (List Ran) → String → Prop
  | [], _ => False
  | entry :: before, n => g.Follows entry n ∨ ∃ e ∈ g.waitingEdges, e.2 = n ∧
      Rendezvous.Completes e.1.toFinset (ranNodes entry) (before.map ranNodes)

def FollowedLast : List (List Ran) → String → Prop
  | [], _ => False
  | entry :: _, n => g.Follows entry n

-- The sources whose names the barrier on a join channel waits for.
def registered (chan : String) : List String := ((g.joinsOn chan).getLast?.map Prod.fst).getD []

def names (chan : String) : Finset Value := ((g.registered chan).map Value.str).toFinset

def barrierAt (chan : String) (log : List (List Ran)) : NamedBarrierValue :=
  ⟨chan, g.names chan,
    (Rendezvous.arrived (g.registered chan).toFinset (log.map ranNodes)).image Value.str⟩

def NoDefer : Prop := ∀ spec ∈ g.nodes.values, spec.defer = false

def Sourced : Prop := ∀ e ∈ g.waitingEdges, e.2 ≠ endName → e.1 ≠ []

variable {g}

theorem str_injective : Function.Injective Value.str := by
  intro a b h
  simpa [Value.str] using h

theorem names_eq_image (chan : String) :
    g.names chan = (g.registered chan).toFinset.image Value.str := by
  ext v
  simp [names]

theorem registered_of_joins {chan : String} (h : g.joinsOn chan ≠ []) :
    ∃ e ∈ g.waitingEdges, e.2 ≠ endName ∧ joinName e.1 e.2 = chan ∧ g.registered chan = e.1 := by
  obtain ⟨e, he⟩ : ∃ e, (g.joinsOn chan).getLast? = some e :=
    ⟨_, List.getLast?_eq_some_getLast h⟩
  obtain ⟨hmem, hjoin⟩ := List.mem_filter.mp (List.mem_of_getLast? he)
  obtain ⟨hend, hname⟩ := of_decide_eq_true hjoin
  exact ⟨e, hmem, hend, hname, by rw [registered, he]; rfl⟩

theorem joins_of_mem {e : List String × String} (he : e ∈ g.waitingEdges) (hend : e.2 ≠ endName) :
    g.joinsOn (joinName e.1 e.2) ≠ [] :=
  List.ne_nil_of_mem (List.mem_filter.mpr ⟨he, decide_eq_true ⟨hend, rfl⟩⟩)

theorem available_barrierAt {chan : String} {log : List (List Ran)} :
    (g.barrierAt chan log).isAvailable = true ↔
      Rendezvous.arrived (g.registered chan).toFinset (log.map ranNodes) =
        (g.registered chan).toFinset := by
  rw [NamedBarrierValue.isAvailable, decide_eq_true_iff]
  unfold barrierAt
  simp only
  rw [names_eq_image, (Finset.image_injective str_injective).eq_iff]

end StateGraph

section Step

variable {Ver : Type} [LinearOrder Ver] [OrderBot Ver]

-- What the channels of a run hold, and that no trigger is left from an earlier superstep.
structure Compilation.Tracks (k : Compilation) (x : Execution Ver) : Prop where
  branch : ∀ name ∈ k.builder.nodes.keys, ∃ e : EphemeralValue,
    x.channels.get? (branchTo name) = some (.ephemeralValue e) ∧ e.guard = false ∧
      (e.value.isSome = true ↔ k.builder.FollowedLast x.log name)
  start : ∃ e : EphemeralValue, x.channels.get? Key.start = some (.ephemeralValue e)
  joins : ∀ chan, k.builder.joinsOn chan ≠ [] →
    x.channels.get? chan = some (.namedBarrierValue (k.builder.barrierAt chan x.log))
  absent : ∀ e ∈ k.builder.waitingEdges, e.2 ≠ endName →
    (k.builder.registered (joinName e.1 e.2)).toFinset ≠ e.1.toFinset →
    ∀ entry ∈ x.log, Disjoint e.1.toFinset (ranNodes entry)
  current : ∀ name proc chan, k.graph.nodes.get? name = some proc → chan ∈ proc.triggers →
    Graph.Offered x.channels chan →
      (∃ u, x.updated = some u ∧ chan ∈ u) ∧ Graph.DueAt x.checkpoint x.channels name chan
  bounded : SeenBounded x.checkpoint
  topic : SendTopic x.channels
  sends : Graph.pendingSends x.channels = []

structure Compilation.Sound (k : Compilation) : Prop where
  wellFormed : k.builder.WellFormed
  attached : k.compiled = k.builder.attach
  noDefer : k.builder.NoDefer
  sourced : k.builder.Sourced

-- What a list of tasks delivers to the triggers.
structure Compilation.Delivers (k : Compilation) (x : Execution Ver)
    (tasks : List PregelTaskWrites) (entry : List Ran) : Prop where
  swept : ∀ name proc chan, k.graph.nodes.get? name = some proc → chan ∈ proc.triggers →
    Graph.Offered x.channels chan → ∃ t ∈ tasks, chan ∈ t.triggers
  follows : ∀ name ∈ k.builder.nodes.keys,
    written x.channels (sortTasks tasks) (branchTo name) ≠ [] ↔ k.builder.Follows entry name
  start : (written x.channels (sortTasks tasks) Key.start).length ≤ 1
  joins : ∀ chan, k.builder.joinsOn chan ≠ [] →
    (written x.channels (sortTasks tasks) chan).toFinset =
      ((k.builder.registered chan).toFinset ∩ ranNodes entry).image Value.str
  absent : ∀ e ∈ k.builder.waitingEdges, e.2 ≠ endName →
    (k.builder.registered (joinName e.1 e.2)).toFinset ≠ e.1.toFinset →
    Disjoint e.1.toFinset (ranNodes entry)
  sends : sendsOf (sortTasks tasks) = []

namespace Compilation

variable {k : Compilation} {x x' : Execution Ver} {tasks : List PregelTaskWrites}
  {entry : List Ran} {save : Save Ver} {name chan : String} {proc : PregelNode}

section Nodes

theorem Sound.start_not_node (hk : k.Sound) : Key.start ∉ k.builder.nodes.keys :=
  fun h => (hk.wellFormed.names _ h).1 rfl

theorem mem_triggersOf {g : StateGraph} : chan ∈ g.triggersOf name ↔
    ∃ e ∈ g.waitingEdges, e.2 ≠ endName ∧ e.2 = name ∧ joinName e.1 e.2 = chan := by
  unfold StateGraph.triggersOf StateGraph.joinTriggers
  rw [List.mem_flatMap]
  refine exists_congr (fun e => and_congr_right (fun _ => ?_))
  by_cases h : e.2 ≠ endName ∧ e.2 = name
  · rw [if_pos h, List.mem_singleton]
    exact ⟨fun heq => ⟨h.1, h.2, heq.symm⟩, fun heq => heq.2.2.symm⟩
  · rw [if_neg h]
    exact ⟨fun hmem => (List.not_mem_nil hmem).elim, fun hmem => (h ⟨hmem.1, hmem.2.1⟩).elim⟩

theorem Sound.get?_nodes (hk : k.Sound) (name : String) : k.graph.nodes.get? name =
    (k.builder.attached name).map (fun n =>
      { n.node with triggers := n.node.triggers ++ k.builder.triggersOf name }) := by
  have hget := StateGraph.get?_attach name hk.start_not_node
  change (k.compiled.nodes.mapValues CompiledNode.node).get? name = _
  rw [Dict.get?_mapValues, hk.attached, hget, Option.map_map]
  rfl

theorem Sound.start_node (hk : k.Sound) :
    k.graph.nodes.get? Key.start = some CompiledGraph.startNode := by
  have hnone : k.builder.triggersOf Key.start = [] := by
    refine List.eq_nil_iff_forall_not_mem.mpr (fun chan hchan => ?_)
    obtain ⟨e, he, hend, hstart, -⟩ := mem_triggersOf.mp hchan
    rcases (hk.wellFormed.waiting e he).2 with heq | hnode
    · exact hend heq
    · exact hk.start_not_node (hstart ▸ hnode)
  rw [hk.get?_nodes, StateGraph.attached, if_pos rfl, Option.map_some, hnone]
  rfl

def nodeOf (k : Compilation) (name : String) (spec : StateNodeSpec) : PregelNode :=
  { spec.pregelNode name with triggers := branchTo name :: k.builder.triggersOf name }

theorem Sound.node (hk : k.Sound) (hs : name ≠ Key.start) :
    k.graph.nodes.get? name = (k.builder.nodes.get? name).map (k.nodeOf name) := by
  rw [hk.get?_nodes, StateGraph.attached, if_neg hs, Option.map_map]
  rfl

theorem Sound.mem_nodes (hk : k.Sound) (h : name ∈ k.builder.nodes.keys) :
    ∃ spec, k.builder.nodes.get? name = some spec ∧
      k.graph.nodes.get? name = some (k.nodeOf name spec) := by
  obtain ⟨spec, hspec⟩ := Dict.mem_keys.mp h
  refine ⟨spec, hspec, ?_⟩
  rw [hk.node (hk.wellFormed.names name h).1, hspec]
  rfl

inductive Trigger (k : Compilation) : String → Prop
  | start : Trigger k Key.start
  | branch (name : String) (h : name ∈ k.builder.nodes.keys) : Trigger k (branchTo name)
  | join (chan : String) (h : k.builder.joinsOn chan ≠ []) : Trigger k chan

theorem Sound.trigger (hk : k.Sound) (hproc : k.graph.nodes.get? name = some proc)
    (hchan : chan ∈ proc.triggers) : k.Trigger chan := by
  by_cases hs : name = Key.start
  · rw [hs, hk.start_node] at hproc
    rw [← Option.some.inj hproc] at hchan
    rw [List.mem_singleton.mp hchan]
    exact .start
  · rw [hk.node hs] at hproc
    obtain ⟨spec, hspec, rfl⟩ := Option.map_eq_some_iff.mp hproc
    rcases List.mem_cons.mp hchan with rfl | hjoin
    · exact .branch name (Dict.mem_keys.mpr ⟨spec, hspec⟩)
    · obtain ⟨e, he, hend, -, rfl⟩ := mem_triggersOf.mp hjoin
      exact .join _ (StateGraph.joins_of_mem he hend)

theorem Trigger.not_mem (h : k.Trigger chan) {keys : List String} (hkeys : ∀ key ∈ keys,
    key ≠ Key.start ∧ key.toList.head? ≠ some 'b' ∧ key.toList.head? ≠ some 'j') :
    chan ∉ keys := by
  intro hmem
  obtain ⟨hstart, hb, hj⟩ := hkeys chan hmem
  cases h with
  | start => exact hstart rfl
  | branch name hname => exact hb (head_branchTo name)
  | join chan hjoin =>
    obtain ⟨e, -, -, rfl, -⟩ := StateGraph.registered_of_joins hjoin
    exact hj (head_joinName e.1 e.2)

theorem Trigger.not_reserved (h : k.Trigger chan) : chan ∉ reserved := h.not_mem (by decide)

theorem Trigger.not_ignored (h : k.Trigger chan) : chan ∉ ignoredWrites := h.not_mem (by decide)

end Nodes

section Applied

-- What an apply makes of the state, one channel at a time.
structure Settles (k : Compilation) (x x' : Execution Ver) (tasks : List PregelTaskWrites)
    (entry : List Ran) (v : Ver) (cell : String → Cell Channel Ver) : Prop where
  runs : ∃ finish, ∀ chan, cell chan =
    (⟨x.channels.get? chan, x.checkpoint.channelVersions.get? chan, false⟩ :
      Cell Channel Ver).run (some v) chan (plan x.channels (sortTasks tasks) finish chan)
  channel : ∀ chan, x'.channels.get? chan = (cell chan).channel
  updated : ∃ u, x'.updated = some u ∧ ∀ chan, chan ∈ u ↔ (cell chan).updated = true
  version : ∀ chan c, x'.channels.get? chan = some c → c.kind ≠ .deltaChannel →
    x'.checkpoint.channelVersions.get? chan = (cell chan).version
  bounded : SeenBounded x'.checkpoint
  seen : ∀ name seen chan w, x'.checkpoint.versionsSeen.get? name = some seen →
    seen.get? chan = some w → w < v
  later : ⊥ < v
  topic : SendTopic x'.channels
  sends : sendsOf (sortTasks tasks) = [] → Graph.pendingSends x'.channels = []
  log : x'.log = entry :: x.log

theorem settles_applied (hb : SeenBounded x.checkpoint) (ht : SendTopic x.channels)
    (hs : Graph.pendingSends x.channels = []) (h : k.applied save tasks entry x = some x') :
    ∃ v cell, Settles k x x' tasks entry v cell := by
  simp only [applied] at h
  split at h
  · cases h
  · rename_i u hok
    obtain ⟨hnone, hu⟩ := applyWrites_spec hok
    obtain ⟨finish, hcell⟩ := applyChannels_cell hnone
    obtain ⟨r, hr⟩ : ∃ r, r = applyWrites x.checkpoint x.channels tasks (some save.next)
      k.graph.triggerToNodes := ⟨_, rfl⟩
    have hbounded : SeenBounded r.1 := by
      rw [hr]
      exact seenBounded_applyWrites save.increasing hb _ _ _
    have htopic : SendTopic r.2.1 := by
      rw [hr]
      exact sendTopic_applyWrites ht _ _ _ _
    have hsends (hnil : sendsOf (sortTasks tasks) = []) : Graph.pendingSends r.2.1 = [] := by
      rw [hr]
      exact Graph.sends_applyWrites ht hok (Or.inr hs) hnil
    rw [← hr] at h
    obtain rfl := Option.some.inj h
    obtain ⟨snapshot, hsnapshot⟩ : ∃ snapshot, snapshot =
      save.snapshot.filter (fun chan => PregelLoop.deltaKey r.2.1 chan) := ⟨_, rfl⟩
    have hversions : (Core.created (some save.next) save.id (some u) snapshot true
        (⟨r.1, r.2.1, ∅, []⟩ : Core Channel Ver)).channelVersions =
          snapshotVersions r.2.1 (some u) (some save.next) snapshot r.1.channelVersions := rfl
    have hseen : (Core.created (some save.next) save.id (some u) snapshot true
        (⟨r.1, r.2.1, ∅, []⟩ : Core Channel Ver)).versionsSeen = r.1.versionsSeen := rfl
    refine ⟨save.next (maxVersion x.checkpoint.channelVersions), _, ⟨finish, hcell⟩, fun chan => ?_,
      ⟨u, rfl, fun chan => ?_⟩, fun chan c hc hkind => ?_, ?_, ?_, bot_lt_next save.increasing _,
      htopic, hsends, rfl⟩
    · rw [hr]
      rfl
    · rw [hu]
      simp [ApplyState.cell]
    · have hout : chan ∉ snapshot := by
        rw [hsnapshot]
        intro hmem
        have hdelta := (Finset.mem_filter.mp hmem).2
        have hget : r.2.1.get? chan = some c := hc
        rw [PregelLoop.deltaKey, hget] at hdelta
        exact hkind (of_decide_eq_true hdelta)
      have hmap : (fun w : Ver => if chan ∈ r.2.1.keys ∧ chan ∈ snapshot ∧
          chan ∉ (some u).getD ∅ then save.next (some w) else w) = id :=
        funext (fun w => if_neg (fun h => hout h.2.1))
      rw [← hsnapshot, hversions, get?_snapshotVersions, hmap, Option.map_id, hr]
      rfl
    · intro name seen chan w hname hw
      rw [← hsnapshot, hseen] at hname
      rw [← hsnapshot, hversions]
      obtain ⟨w', hw', hle⟩ := hbounded name seen chan w hname hw
      obtain ⟨w'', hw'', hle'⟩ := (snapshotVersions_grow (fun n hn =>
        Option.some.inj hn ▸ save.increasing) snapshot r.1.channelVersions).1 chan w' hw'
      exact ⟨w'', hw'', hle.trans hle'⟩
    · intro name seen chan w hname hw
      rw [← hsnapshot, hseen, hr] at hname
      obtain ⟨w', hw', hle⟩ := seen_applyWrites_le hb hname hw
      exact lt_of_le_of_lt hle (lt_next_of_get? save.increasing hw')

theorem Settles.dueAt {v : Ver} {cell : String → Cell Channel Ver}
    (h : Settles k x x' tasks entry v cell) {c : Channel} (hc : x'.channels.get? chan = some c)
    (hkind : c.kind ≠ .deltaChannel) (ha : c.isAvailable = true)
    (hv : (cell chan).version = some v) (hu : (cell chan).updated = true) (name : String) :
    (∃ u, x'.updated = some u ∧ chan ∈ u) ∧ Graph.DueAt x'.checkpoint x'.channels name chan := by
  obtain ⟨u, hupdated, hmem⟩ := h.updated
  refine ⟨⟨u, hupdated, (hmem chan).mpr hu⟩, ⟨c, hc, ha⟩, v, (h.version chan c hc hkind).trans hv,
    fun seen hseen => ?_⟩
  cases hw : seen.get? chan with
  | none =>
    rw [Dict.getD_of_none hw]
    exact h.later
  | some w =>
    rw [Dict.getD_of_get? hw]
    exact h.seen name seen chan w hseen hw

variable {v : Ver} {cell : String → Cell Channel Ver}

theorem Settles.ephemeral (h : Settles k x x' tasks entry v cell) {e : EphemeralValue}
    (hc : x.channels.get? chan = some (.ephemeralValue e))
    (hguard : e.guard = true → (written x.channels (sortTasks tasks) chan).length ≤ 1) :
    cell chan = ephemeralCell e (x.checkpoint.channelVersions.get? chan) v
      (written x.channels (sortTasks tasks) chan) (bumpStep (sortTasks tasks)) := by
  obtain ⟨finish, hcell⟩ := h.runs
  rw [hcell, hc]
  exact ephemeral_run hguard

theorem Settles.barrier (h : Settles k x x' tasks entry v cell) {b : NamedBarrierValue}
    (hc : x.channels.get? chan = some (.namedBarrierValue b))
    (hnames : ∀ w ∈ written x.channels (sortTasks tasks) chan, w ∈ b.names) :
    cell chan = barrierCell b (x.checkpoint.channelVersions.get? chan) v
      (written x.channels (sortTasks tasks) chan)
      (decide (chan ∈ consumedChannels x.channels (sortTasks tasks))) := by
  obtain ⟨finish, hcell⟩ := h.runs
  rw [hcell, hc]
  exact barrier_run hnames

omit [LinearOrder Ver] [OrderBot Ver] in
-- A branch channel holds a value only if it was written or nothing ran.
theorem ephemeralCell_cases (e : EphemeralValue) (version : Option Ver) (v : Ver)
    (vs : List Value) (bump : Bool) (hbump : e.value.isSome = true → bump = true) :
    ∃ e' : EphemeralValue, (ephemeralCell e version v vs bump).channel =
        some (.ephemeralValue e') ∧ e'.guard = e.guard ∧
      (e'.value.isSome = true ↔ vs ≠ []) ∧
      (e'.value.isSome = true → (ephemeralCell e version v vs bump).version = some v ∧
        (ephemeralCell e version v vs bump).updated = true) := by
  unfold ephemeralCell
  cases hlast : vs.getLast? with
  | some w =>
    refine ⟨_, rfl, rfl, ?_, fun _ => ⟨rfl, rfl⟩⟩
    have hne : vs ≠ [] := by
      rintro rfl
      cases hlast
    exact ⟨fun _ => hne, fun _ => rfl⟩
  | none =>
    have hnil := List.getLast?_eq_none_iff.mp hlast
    cases hv : e.value.isSome with
    | false =>
      rw [Bool.and_false]
      refine ⟨e, rfl, rfl, ?_, fun h => ?_⟩
      · simp [hv, hnil]
      · rw [hv] at h
        cases h
    | true =>
      rw [hbump hv]
      refine ⟨_, rfl, rfl, ?_, fun h => by cases h⟩
      simp [hnil]

theorem barrierSeen_barrierAt {g : StateGraph} {log : List (List Ran)} {consumed : Bool}
    (h : (g.barrierAt chan log).isAvailable = true → consumed = true) :
    barrierSeen (g.barrierAt chan log) consumed =
      (Rendezvous.waiting (g.registered chan).toFinset
        (Rendezvous.arrived (g.registered chan).toFinset (log.map ranNodes))).image Value.str := by
  unfold barrierSeen Rendezvous.waiting
  cases ha : (g.barrierAt chan log).isAvailable with
  | true =>
    have hfull := StateGraph.available_barrierAt.mp ha
    rw [h ha, if_pos (le_of_eq hfull.symm)]
    rfl
  | false =>
    have hpart : ¬ (g.registered chan).toFinset ⊆
        Rendezvous.arrived (g.registered chan).toFinset (log.map ranNodes) := by
      intro hsub
      have hfull := Finset.Subset.antisymm (Rendezvous.arrived_subset _ _) hsub
      rw [StateGraph.available_barrierAt.mpr hfull] at ha
      cases ha
    rw [Bool.and_false, if_neg hpart]
    rfl

omit [LinearOrder Ver] [OrderBot Ver] in
theorem barrierCell_spec {g : StateGraph} {log : List (List Ran)} {version : Option Ver}
    {vs : List Value} {consumed : Bool} (hne : g.registered chan ≠ [])
    (h : (g.barrierAt chan log).isAvailable = true → consumed = true)
    (hvs : vs.toFinset = ((g.registered chan).toFinset ∩ ranNodes entry).image Value.str) :
    (barrierCell (g.barrierAt chan log) version v vs consumed).channel =
        some (.namedBarrierValue (g.barrierAt chan (entry :: log))) ∧
      ((g.barrierAt chan (entry :: log)).isAvailable = true →
        (barrierCell (g.barrierAt chan log) version v vs consumed).version = some v ∧
          (barrierCell (g.barrierAt chan log) version v vs consumed).updated = true) := by
  have hseen := barrierSeen_barrierAt h
  have hunion : barrierSeen (g.barrierAt chan log) consumed ∪ vs.toFinset =
      (Rendezvous.arrived (g.registered chan).toFinset
        ((entry :: log).map ranNodes)).image Value.str := by
    rw [hseen, hvs, ← Finset.image_union]
    rfl
  refine ⟨?_, fun ha => ?_⟩
  · unfold barrierCell
    simp only
    rw [hunion]
    rfl
  · have hfull := StateGraph.available_barrierAt.mp ha
    have hnew : ¬ vs.toFinset ⊆ barrierSeen (g.barrierAt chan log) consumed := by
      intro hsub
      rw [Finset.union_eq_left.mpr hsub, hseen, hfull] at hunion
      have hwaiting := Finset.image_injective StateGraph.str_injective hunion
      exact Rendezvous.not_subset_waiting (by simpa using hne) (le_of_eq hwaiting.symm)
    have hnames : barrierSeen (g.barrierAt chan log) consumed ∪ vs.toFinset =
        (g.barrierAt chan log).names := by
      rw [hunion, hfull]
      exact (StateGraph.names_eq_image chan).symm
    unfold barrierCell
    simp [hnew, hnames]

theorem Sound.owner (hk : k.Sound) (h : k.Trigger chan) :
    ∃ name proc, k.graph.nodes.get? name = some proc ∧ chan ∈ proc.triggers := by
  cases h with
  | start => exact ⟨Key.start, _, hk.start_node, List.mem_singleton_self _⟩
  | branch name hname =>
    obtain ⟨spec, -, hproc⟩ := hk.mem_nodes hname
    exact ⟨name, _, hproc, List.mem_cons_self⟩
  | join chan hjoin =>
    obtain ⟨e, he, hend, rfl, -⟩ := StateGraph.registered_of_joins hjoin
    obtain ⟨spec, -, hproc⟩ := hk.mem_nodes ((hk.wellFormed.waiting e he).2.resolve_left hend)
    refine ⟨e.2, _, hproc, List.mem_cons_of_mem _ ?_⟩
    exact mem_triggersOf.mpr ⟨e, he, hend, rfl, rfl⟩

omit [LinearOrder Ver] [OrderBot Ver] in
theorem Delivers.bumped (hk : k.Sound) (hd : k.Delivers x tasks entry) (h : k.Trigger chan)
    (ho : Graph.Offered x.channels chan) :
    bumpStep (sortTasks tasks) = true ∧ chan ∈ consumedChannels x.channels (sortTasks tasks) := by
  obtain ⟨name, proc, hproc, hchan⟩ := hk.owner h
  obtain ⟨t, ht, htrigger⟩ := hd.swept name proc chan hproc hchan ho
  obtain ⟨c, hc, -⟩ := ho
  constructor
  · refine List.any_eq_true.mpr ⟨t, mem_sortTasks.mpr ht, ?_⟩
    rw [Bool.not_eq_true', List.isEmpty_eq_false_iff]
    exact List.ne_nil_of_mem htrigger
  · refine List.mem_dedup.mpr (List.mem_filter.mpr ⟨?_, decide_eq_true ⟨h.not_reserved, ?_⟩⟩)
    · exact List.mem_flatMap.mpr ⟨t, mem_sortTasks.mpr ht, htrigger⟩
    · exact Dict.mem_keys.mpr ⟨c, hc⟩

theorem Sound.registered_ne (hk : k.Sound) (h : k.builder.joinsOn chan ≠ []) :
    k.builder.registered chan ≠ [] := by
  obtain ⟨e, he, hend, -, hregistered⟩ := StateGraph.registered_of_joins h
  rw [hregistered]
  exact hk.sourced e he hend

theorem Tracks.branch_cell (hk : k.Sound) (hx : k.Tracks x) (hd : k.Delivers x tasks entry)
    (hs : Settles k x x' tasks entry v cell) (hname : name ∈ k.builder.nodes.keys) :
    ∃ e : EphemeralValue, (cell (branchTo name)).channel = some (.ephemeralValue e) ∧
      e.guard = false ∧ (e.value.isSome = true ↔ k.builder.Follows entry name) ∧
      (e.value.isSome = true → (cell (branchTo name)).version = some v ∧
        (cell (branchTo name)).updated = true) := by
  obtain ⟨e, he, hguard, -⟩ := hx.branch name hname
  rw [hs.ephemeral he (fun h => by rw [hguard] at h; cases h)]
  obtain ⟨e', hchannel, hguard', hvalue, hfresh⟩ := ephemeralCell_cases e
    (x.checkpoint.channelVersions.get? (branchTo name)) v
    (written x.channels (sortTasks tasks) (branchTo name)) (bumpStep (sortTasks tasks))
    (fun hsome => (hd.bumped hk (.branch name hname) ⟨_, he, hsome⟩).1)
  exact ⟨e', hchannel, hguard'.trans hguard, hvalue.trans (hd.follows name hname), hfresh⟩

theorem Tracks.start_cell (hk : k.Sound) (hx : k.Tracks x) (hd : k.Delivers x tasks entry)
    (hs : Settles k x x' tasks entry v cell) :
    ∃ e : EphemeralValue, (cell Key.start).channel = some (.ephemeralValue e) ∧
      (e.value.isSome = true → (cell Key.start).version = some v ∧
        (cell Key.start).updated = true) := by
  obtain ⟨e, he⟩ := hx.start
  rw [hs.ephemeral he (fun _ => hd.start)]
  obtain ⟨e', hchannel, -, -, hfresh⟩ := ephemeralCell_cases e
    (x.checkpoint.channelVersions.get? Key.start) v
    (written x.channels (sortTasks tasks) Key.start) (bumpStep (sortTasks tasks))
    (fun hsome => (hd.bumped hk .start ⟨_, he, hsome⟩).1)
  exact ⟨e', hchannel, hfresh⟩

omit [LinearOrder Ver] [OrderBot Ver] in
theorem Delivers.known (hd : k.Delivers x tasks entry) (hjoin : k.builder.joinsOn chan ≠ []) :
    ∀ w ∈ written x.channels (sortTasks tasks) chan, w ∈ k.builder.names chan := by
  intro w hw
  have hmem : w ∈ (written x.channels (sortTasks tasks) chan).toFinset := List.mem_toFinset.mpr hw
  rw [hd.joins chan hjoin] at hmem
  rw [StateGraph.names_eq_image]
  exact Finset.image_subset_image Finset.inter_subset_left hmem

theorem Tracks.join_cell (hk : k.Sound) (hx : k.Tracks x) (hd : k.Delivers x tasks entry)
    (hs : Settles k x x' tasks entry v cell) (hjoin : k.builder.joinsOn chan ≠ []) :
    (cell chan).channel =
        some (.namedBarrierValue (k.builder.barrierAt chan (entry :: x.log))) ∧
      ((k.builder.barrierAt chan (entry :: x.log)).isAvailable = true →
        (cell chan).version = some v ∧ (cell chan).updated = true) := by
  have hc := hx.joins chan hjoin
  rw [hs.barrier hc (hd.known hjoin)]
  exact barrierCell_spec (hk.registered_ne hjoin)
    (fun ha => decide_eq_true (hd.bumped hk (.join chan hjoin) ⟨_, hc, ha⟩).2) (hd.joins chan hjoin)

theorem Tracks.trigger_cell (hk : k.Sound) (hx : k.Tracks x) (hd : k.Delivers x tasks entry)
    (hs : Settles k x x' tasks entry v cell) (h : k.Trigger chan) :
    ∃ c : Channel, (cell chan).channel = some c ∧ c.kind ≠ .deltaChannel ∧
      (c.isAvailable = true → (cell chan).version = some v ∧ (cell chan).updated = true) := by
  cases h with
  | start =>
    obtain ⟨e, hchannel, hfresh⟩ := hx.start_cell hk hd hs
    exact ⟨_, hchannel, nofun, hfresh⟩
  | branch name hname =>
    obtain ⟨e, hchannel, -, -, hfresh⟩ := hx.branch_cell hk hd hs hname
    exact ⟨_, hchannel, nofun, hfresh⟩
  | join chan hjoin =>
    obtain ⟨hchannel, hfresh⟩ := hx.join_cell hk hd hs hjoin
    exact ⟨_, hchannel, nofun, hfresh⟩

theorem Tracks.applied (hk : k.Sound) (hx : k.Tracks x) (hd : k.Delivers x tasks entry)
    (h : k.applied save tasks entry x = some x') : k.Tracks x' := by
  obtain ⟨v, cell, hs⟩ := settles_applied hx.bounded hx.topic hx.sends h
  refine ⟨fun name hname => ?_, ?_, fun chan hjoin => ?_, fun e he hend hne => ?_,
    fun name proc chan hproc hchan => ?_, hs.bounded, hs.topic, hs.sends hd.sends⟩
  · obtain ⟨e, hchannel, hguard, hvalue, -⟩ := hx.branch_cell hk hd hs hname
    refine ⟨e, (hs.channel _).trans hchannel, hguard, ?_⟩
    rw [hs.log]
    exact hvalue
  · obtain ⟨e, hchannel, -⟩ := hx.start_cell hk hd hs
    exact ⟨e, (hs.channel _).trans hchannel⟩
  · rw [hs.log]
    exact (hs.channel chan).trans (hx.join_cell hk hd hs hjoin).1
  · rw [hs.log]
    exact List.forall_mem_cons.mpr ⟨hd.absent e he hend hne, hx.absent e he hend hne⟩
  · rintro ⟨d, hget, ha⟩
    obtain ⟨c, hchannel, hkind, hfresh⟩ := hx.trigger_cell hk hd hs (hk.trigger hproc hchan)
    have hc : x'.channels.get? chan = some c := (hs.channel chan).trans hchannel
    obtain rfl : d = c := Option.some.inj (hget.symm.trans hc)
    obtain ⟨hversion, hupdated⟩ := hfresh ha
    exact hs.dueAt hc hkind ha hversion hupdated name

end Applied

end Compilation

end Step

end LangGraph
