import LangGraph.Graph.Deliveries
import LangGraph.Pregel.Lookahead

namespace LangGraph

open Collections Transition

namespace StateGraph

variable {g b : StateGraph} {c : CompiledGraph}

theorem compile_ok (h : g.compile = .ok (b, c)) :
    g.withDefaultErrorHandler = .ok b ∧ c = b.attach := by
  obtain ⟨u, -, h⟩ := Exceptions.bind_ok h
  obtain ⟨b', hb, h⟩ := Exceptions.bind_ok h
  obtain ⟨rfl, rfl⟩ := Prod.mk.inj (Except.ok.inj h)
  exact ⟨hb, rfl⟩

theorem NoDefer.deferred (hg : g.NoDefer) (name : String) : g.deferred name = false := by
  unfold StateGraph.deferred
  cases hget : g.nodes.get? name with
  | none => rfl
  | some spec => exact hg spec (Dict.mem_values.mpr ⟨name, hget⟩)

end StateGraph

namespace Compilation

variable {Ver : Type} [LinearOrder Ver] [OrderBot Ver] {k : Compilation} {x x' : Execution Ver}
  {tasks : List PregelTaskWrites} {entry : List Ran} {save : Save Ver} {chan : String}

section Fresh

theorem Sound.fresh_branch (hk : k.Sound) {name : String} (hname : name ∈ k.builder.nodes.keys) :
    k.compiled.channels.get? (branchTo name) =
      some (.ephemeralValue ⟨branchTo name, false, none⟩) := by
  obtain ⟨spec, hspec⟩ := Dict.mem_keys.mp hname
  have hdefer : spec.defer = false := hk.noDefer spec (Dict.mem_values.mpr ⟨name, hspec⟩)
  rw [hk.attached, StateGraph.get?_branchTo hspec, StateNodeSpec.branchChannel, hdefer]
  rfl

theorem Sound.fresh_join (hk : k.Sound) (hjoin : k.builder.joinsOn chan ≠ []) :
    k.compiled.channels.get? chan = some (.namedBarrierValue (k.builder.barrierAt chan [])) := by
  obtain ⟨e, he⟩ : ∃ e, (k.builder.joinsOn chan).getLast? = some e :=
    ⟨_, List.getLast?_eq_some_getLast hjoin⟩
  obtain ⟨-, hname⟩ := of_decide_eq_true (List.mem_filter.mp (List.mem_of_getLast? he)).2
  rw [hk.attached, StateGraph.get?_channels, he, Option.map_some, Option.some_or,
    StateGraph.barrier, hk.noDefer.deferred, hname, StateGraph.barrierAt, StateGraph.names,
    StateGraph.registered, he]
  rfl

theorem tracks_fresh (hk : k.Sound) (id : String) : k.Tracks (k.fresh id : Execution Ver) where
  branch name hname := ⟨_, hk.fresh_branch hname, rfl, ⟨nofun, False.elim⟩⟩
  start := ⟨_, (congrArg (fun c => c.channels.get? Key.start) hk.attached).trans
    StateGraph.get?_start⟩
  joins chan hjoin := hk.fresh_join hjoin
  absent e he hend hne entry hentry := absurd hentry List.not_mem_nil
  current name proc chan hproc hchan ho := by
    obtain ⟨c, hc, ha⟩ := ho
    have hget : k.compiled.channels.get? chan = some c := hc
    cases hk.trigger hproc hchan with
    | start =>
      rw [hk.attached, StateGraph.get?_start] at hget
      obtain rfl := Option.some.inj hget
      cases ha
    | branch name hname =>
      rw [hk.fresh_branch hname] at hget
      obtain rfl := Option.some.inj hget
      cases ha
    | join chan hjoin =>
      rw [hk.fresh_join hjoin] at hget
      obtain rfl := Option.some.inj hget
      have hnone : ∅ = (k.builder.registered chan).toFinset :=
        StateGraph.available_barrierAt.mp ha
      exact absurd (List.toFinset_eq_empty_iff _ |>.mp hnone.symm) (hk.registered_ne hjoin)
  bounded name seen chan w hname := by cases hname
  topic := ⟨_, (congrArg (fun c => c.channels.get? Key.tasks) hk.attached).trans
    StateGraph.get?_tasks⟩
  sends := pendingSends_topic ((congrArg (fun c => c.channels.get? Key.tasks) hk.attached).trans
    StateGraph.get?_tasks)

end Fresh

section Accepted

theorem ephemeral_accepts {e : EphemeralValue} {vs : List Value}
    (h : e.guard = true → vs.length ≤ 1) : ∃ u, (e.update vs).2 = .ok u := by
  unfold EphemeralValue.update
  cases hlast : vs.getLast? with
  | none =>
    simp only
    split
    · exact ⟨true, rfl⟩
    · exact ⟨false, rfl⟩
  | some v =>
    have hone : ¬ (vs.length ≠ 1 ∧ e.guard = true) := by
      rintro ⟨hlength, hguard⟩
      have hle := h hguard
      have hpos : 0 < vs.length := List.length_pos_of_mem (List.mem_of_getLast? hlast)
      omega
    simp only [if_neg hone]
    exact ⟨true, rfl⟩

theorem barrier_accepts {b : NamedBarrierValue} {vs : List Value} (h : ∀ w ∈ vs, w ∈ b.names) :
    ∃ u, (b.update vs).2 = .ok u := by
  rw [NamedBarrierValue.update, addNames_known h]
  exact ⟨_, rfl⟩

theorem consumedChannel_ephemeral (channels : Dict String Channel)
    (tasks : List PregelTaskWrites) (e : EphemeralValue) :
    consumedChannel channels tasks chan (.ephemeralValue e) = .ephemeralValue e := by
  unfold consumedChannel
  split
  · rfl
  · rfl

theorem consumedChannel_barrier (channels : Dict String Channel)
    (tasks : List PregelTaskWrites) (b : NamedBarrierValue) :
    ∃ b' : NamedBarrierValue, b'.names = b.names ∧
      consumedChannel channels tasks chan (.namedBarrierValue b) = .namedBarrierValue b' := by
  unfold consumedChannel
  split
  · refine ⟨b.consume.1, ?_, rfl⟩
    unfold NamedBarrierValue.consume
    split
    · rfl
    · rfl
  · exact ⟨b, rfl, rfl⟩

-- No trigger refuses what a turn writes to it.
theorem Tracks.accepted (hx : k.Tracks x) (hd : k.Delivers x tasks entry)
    (h : k.Trigger chan) {c : Channel} (hc : x.channels.get? chan = some c) :
    ∃ u, (writtenChannel x.channels (sortTasks tasks) chan c).2 = .ok u := by
  have hephemeral (e : EphemeralValue)
      (hguard : e.guard = true → (written x.channels (sortTasks tasks) chan).length ≤ 1) :
      ∃ u, (writtenChannel x.channels (sortTasks tasks) chan (.ephemeralValue e)).2 = .ok u := by
    unfold writtenChannel
    rw [consumedChannel_ephemeral]
    simp only
    split
    · exact ephemeral_accepts hguard
    · exact ⟨false, rfl⟩
  cases h with
  | start =>
    obtain ⟨e, he⟩ := hx.start
    obtain rfl := Option.some.inj (hc.symm.trans he)
    exact hephemeral e (fun _ => hd.start)
  | branch name hname =>
    obtain ⟨e, he, hguard, -⟩ := hx.branch name hname
    obtain rfl := Option.some.inj (hc.symm.trans he)
    exact hephemeral e (fun h => by rw [hguard] at h; cases h)
  | join chan hjoin =>
    obtain rfl := Option.some.inj (hc.symm.trans (hx.joins chan hjoin))
    obtain ⟨b, hnames, hconsumed⟩ :=
      @consumedChannel_barrier chan x.channels (sortTasks tasks) (k.builder.barrierAt chan x.log)
    unfold writtenChannel
    rw [hconsumed]
    simp only
    split
    · refine barrier_accepts (fun w hw => ?_)
      rw [hnames]
      exact hd.known hjoin w hw
    · exact ⟨false, rfl⟩

end Accepted

section Turns

theorem Tracks.delivers (hk : k.Sound) (hh : k.graph.CollisionFree) (hx : k.Tracks x) {t : Turn}
    (hm : k.Meets x t) (h : k.tasksOf x t = some (tasks, entry)) : k.Delivers x tasks entry := by
  cases t with
  | input value => exact hx.delivers_input hk hh hm h
  | superstep results => exact hx.delivers_superstep hk hh hm h

theorem Tracks.turn (hk : k.Sound) (hh : k.graph.CollisionFree) (hx : k.Tracks x) {t : Turn}
    (hm : k.Meets x t) (h : k.turn x save t = some x') : k.Tracks x' := by
  obtain ⟨⟨tasks, entry⟩, hwork, happlied⟩ := Option.bind_eq_some_iff.mp h
  exact hx.applied hk (hx.delivers hk hh hm hwork) happlied

theorem tracks_step (hk : k.Sound) (hh : k.graph.CollisionFree) {s : Option (Execution Ver)}
    {e : Save Ver × Turn} (hs : ∀ x ∈ s, k.Tracks x) (hm : ∀ x ∈ s, k.Meets x e.2) :
    ∀ x ∈ k.step s e, k.Tracks x := by
  intro x' hx'
  obtain ⟨x, hx, hturn⟩ := Option.bind_eq_some_iff.mp hx'
  exact (hs x hx).turn hk hh (hm x hx) hturn

end Turns

section Claim

-- The nodes that are given a task are those that the edges declare.
def RunsDeclared (k : Compilation) (x : Execution Ver) : Prop :=
  k.Readable x → ∀ n ∈ k.builder.nodes.keys,
    (n ∈ (k.prepared x).map PregelTask.name ↔ k.builder.Declared x.log n)

def Accepts (k : Compilation) (x : Execution Ver) (t : Turn) : Prop :=
  ∀ tasks entry, k.tasksOf x t = some (tasks, entry) → ∀ chan, k.Trigger chan →
    ∀ c, x.channels.get? chan = some c →
      ∃ u, (writtenChannel x.channels (sortTasks tasks) chan c).2 = .ok u

theorem runs_declared_edges {channels : Dict String Channel}
    {managed inputKeys stateKeys : List String} {stateMapper : Option Nat}
    {calls : List BuilderCall} {g : StateGraph} {k : Compilation}
    (hbuild : (StateGraph.ofSchema channels managed inputKeys stateKeys stateMapper).build calls =
      .ok g)
    (hcompile : g.compile = .ok (k.builder, k.compiled)) (hdefer : k.builder.NoDefer)
    (hsourced : k.builder.Sourced) (hh : k.graph.CollisionFree) (id : String)
    {turns : List (Save Ver × Turn)}
    (hmeets : EachStep k.step (fun s e => ∀ x ∈ s, k.Meets x e.2) (some (k.fresh id)) turns) :
    Always k.step (fun s => ∀ x ∈ s, k.RunsDeclared x) (some (k.fresh id)) turns ∧
      EachStep k.step (fun s e => ∀ x ∈ s, k.Accepts x e.2) (some (k.fresh id)) turns := by
  obtain ⟨hadded, hattached⟩ := StateGraph.compile_ok hcompile
  have hwellFormed := (StateGraph.wellFormed_ofSchema channels managed inputKeys stateKeys
    stateMapper).build hbuild
  have hk : k.Sound := ⟨hwellFormed.withDefaultErrorHandler hadded, hattached, hdefer, hsourced⟩
  have htracks : Always k.step (fun s => ∀ x ∈ s, k.Tracks x) (some (k.fresh id)) turns := by
    refine always_of_eachStep (fun s e hs hm => tracks_step hk hh hs hm) turns ?_ hmeets
    intro x hx
    obtain rfl := Option.some.inj hx
    exact tracks_fresh hk id
  constructor
  · intro p hp x hx hread n hn
    exact (htracks p hp x hx).mem_prepared hk hh hread hn
  · intro p e hp x hx tasks entry hwork chan hchan c hc
    have htrack := htracks p ((List.prefix_append p [e]).trans hp) x hx
    exact htrack.accepted (htrack.delivers hk hh (hmeets p e hp x hx) hwork) hchan hc

def quiet : Results := ⟨fun _ => some ⟨[], fun _ => []⟩, fun _ => ⟨[], fun _ => []⟩⟩

def sampleEnv : Environment :=
  { taskId := String.join
    mappers := fun _ v => v
    managed := ∅
    parentNs := ""
    text := fun v => match v with
      | .scalar (.str s) => s
      | _ => ""
    text_str := fun _ => rfl }

def sampleSchema : StateGraph := .ofSchema ∅ [] [] [] none

def sampleBuilder (calls : List BuilderCall) : StateGraph :=
  (sampleSchema.build calls).toOption.getD sampleSchema

def sample (calls : List BuilderCall) : Compilation :=
  ⟨sampleBuilder calls, (sampleBuilder calls).attach, sampleEnv⟩

def sampleSpec : StateNodeSpec := ⟨[], none, none, none, false, none, [], false⟩

def sampleSave : Save Nat := ⟨fun v => v.getD 0 + 1, ⟨fun _ => Nat.lt_succ_self _, Nat.one_pos⟩, "", ∅⟩

def sampleTurns : List (Save Nat × Turn) :=
  [(sampleSave, .input (.int 0)), (sampleSave, .superstep quiet), (sampleSave, .superstep quiet)]

theorem build_sample {calls : List BuilderCall}
    (h : (sampleSchema.build calls).toOption.isSome = true) :
    sampleSchema.build calls = .ok (sampleBuilder calls) := by
  unfold sampleBuilder
  cases hbuild : sampleSchema.build calls with
  | error e =>
    rw [hbuild] at h
    cases h
  | ok g => rfl

theorem compile_sample {calls : List BuilderCall}
    (hvalid : (sampleBuilder calls).validate = .ok ())
    (hhandler : (sampleBuilder calls).defaultErrorHandler = false) :
    (sampleBuilder calls).compile = .ok ((sample calls).builder, (sample calls).compiled) := by
  rw [StateGraph.compile, hvalid, StateGraph.withDefaultErrorHandler, hhandler]
  rfl

theorem plain_quiet (k : Compilation) : k.Plain ⟨[], fun _ => []⟩ := ⟨nofun, nofun⟩

def joinedCalls : List BuilderCall :=
  [.addNode "a" sampleSpec false, .addNode "b" sampleSpec false, .addNode "d" sampleSpec false,
    .addEdge Key.start "a", .addEdge Key.start "b", .addWaitingEdge ["a", "b"] "d"]

theorem meets_joined (x : Execution Nat) {e : Save Nat × Turn} (he : e ∈ sampleTurns) :
    (sample joinedCalls).Meets x e.2 where
  readable name spec hspec _ := by
    have hmany : ∀ s ∈ (sampleBuilder joinedCalls).nodes.values, s.inputChannels = [] := by
      decide +kernel
    have hinputs : spec.inputChannels = [] := hmany spec (Dict.mem_values.mpr ⟨name, hspec⟩)
    rw [StateNodeSpec.nodeChannels, hinputs]
    rfl
  plain results hresults node := by
    have hquiet : ∀ e ∈ sampleTurns, ∀ results : Results, e.2 = .superstep results → results = quiet := by
      intro e he results h
      have hthree : e = (sampleSave, .input (.int 0)) ∨ e = (sampleSave, .superstep quiet) := by
        simpa [sampleTurns] using he
      rcases hthree with rfl | rfl
      · cases h
      · exact (Turn.superstep.inj h).symm
    obtain rfl := hquiet e he results hresults
    refine ⟨fun r hr => ?_, plain_quiet _⟩
    obtain rfl := Option.some.inj hr
    exact plain_quiet _
  barriers tasks entry _ r _ e' he' hend _ := by
    have hsame : ∀ e ∈ (sampleBuilder joinedCalls).waitingEdges,
        ((sampleBuilder joinedCalls).registered (joinName e.1 e.2)).toFinset = e.1.toFinset := by
      decide +kernel
    exact hsame e' he'

theorem runs_declared_edges_joined :
    Always (sample joinedCalls).step (fun s => ∀ x ∈ s, (sample joinedCalls).RunsDeclared x)
        (some ((sample joinedCalls).fresh "")) sampleTurns ∧
      EachStep (sample joinedCalls).step
        (fun s e => ∀ x ∈ s, (sample joinedCalls).Accepts x e.2)
        (some ((sample joinedCalls).fresh "")) sampleTurns := by
  refine runs_declared_edges (build_sample (by decide +kernel))
    (compile_sample (by decide +kernel) (by decide +kernel)) ?_ ?_ ?_ "" ?_
  · change ∀ spec ∈ (sampleBuilder joinedCalls).nodes.values, spec.defer = false
    decide +kernel
  · change ∀ e ∈ (sampleBuilder joinedCalls).waitingEdges, e.2 ≠ endName → e.1 ≠ []
    decide +kernel
  · exact fun as bs h => h
  · intro p e hp x _
    exact meets_joined x (hp.subset (List.mem_append_right p (List.mem_singleton_self e)))

def plusCalls : List BuilderCall :=
  [.addNode "a" sampleSpec false, .addNode "b" sampleSpec false, .addNode "a+b" sampleSpec false,
    .addNode "d" sampleSpec false, .addEdge Key.start "a", .addEdge Key.start "b",
    .addWaitingEdge ["a", "b"] "d", .addWaitingEdge ["a+b"] "d"]

def plusRun : Option (Execution Nat) :=
  run (sample plusCalls).step (some ((sample plusCalls).fresh "")) (sampleTurns.take 2)

def plusState : Execution Nat := plusRun.getD ((sample plusCalls).fresh "")

-- Both joins are named `join:a+b:d`: the superstep that completes the first of them raises.
theorem plus_join_refuses : sampleSchema.build plusCalls = .ok (sampleBuilder plusCalls) ∧
    (sampleBuilder plusCalls).compile =
      .ok ((sample plusCalls).builder, (sample plusCalls).compiled) ∧
    ∃ x entry, plusRun = some x ∧
      ((sample plusCalls).prepared x).map PregelTask.name = ["a", "b"] ∧
      ((sample plusCalls).tasksOf x (.superstep quiet)).map Prod.snd = some entry ∧
      (sample plusCalls).builder.Declared (entry :: x.log) "d" ∧
      (sample plusCalls).step (some x) (sampleSave, .superstep quiet) = none := by
  have hreached : plusRun = some plusState := by
    have hsome : plusRun.isSome = true := by decide +kernel
    rw [plusState, Option.getD_eq_iff.mpr (Or.inl (Option.some_get hsome).symm), Option.some_get]
  have hlog : plusState.log = [[⟨Key.start, []⟩], []] := by decide +kernel
  refine ⟨build_sample (by decide +kernel), compile_sample (by decide +kernel) (by decide +kernel),
    plusState, [⟨"a", []⟩, ⟨"b", []⟩], hreached, by decide +kernel, by decide +kernel, ?_,
    Option.isNone_iff_eq_none.mp (by decide +kernel)⟩
  rw [hlog]
  exact Or.inr ⟨(["a", "b"], "d"), by decide +kernel, rfl, by decide +kernel⟩

end Claim

end Compilation

end LangGraph
