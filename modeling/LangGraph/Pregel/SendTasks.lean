import LangGraph.Pregel.PendingSends
import LangGraph.Pregel.Untracked

namespace LangGraph

open Collections Transition

section Pushed

variable {C Ver : Type} [BaseChannel C] [LinearOrder Ver] [OrderBot Ver]

def Graph.Runs {C : Type} (g : Graph C) (node : String) : Prop :=
  ∃ proc, g.nodes.get? node = some proc ∧ proc.hasNode = true

def pushPath (idx : Nat) : List PathPart := [.str Key.push, .int idx, .bool false]

-- The tasks prepared for a loop are those of the Sends, in order, and then the nodes triggered.
structure Graph.Pushed (g : Graph C) (sends : List Value) (l : PregelLoop C Ver) : Prop where
  ordered : (l.preparedTasks g).values =
    sends.zipIdx.filterMap (fun p => g.pushTask l.checkpoint.id l.step true p.2 p.1) ++
      g.preparedPulls l.checkpoint l.channels l.step true (some g.triggerToNodes) l.updatedChannels
  distinct : ((l.preparedTasks g).values.map PregelTask.path).Nodup
  delivered : ∀ idx node arg, sends[idx]? = some (.send node arg) → g.Runs node →
    ∃ t ∈ (l.preparedTasks g).values,
      t.path = pushPath idx ∧ t.name = node ∧ t.input = some arg
  sent : ∀ t ∈ (l.preparedTasks g).values, t.path.head? ≠ some (.str Key.push) ∨
    ∃ idx node arg, sends[idx]? = some (.send node arg) ∧ g.Runs node ∧
      t.path = pushPath idx ∧ t.name = node ∧ t.input = some arg

variable {g : Graph C} {l : PregelLoop C Ver}

omit [BaseChannel C] in
theorem pushTask_of_runs {node : String} (h : g.Runs node) (checkpointId : String) (step : Int)
    (idx : Nat) (arg : Value) :
    ∃ t, g.pushTask checkpointId step true idx (.send node arg) = some t := by
  obtain ⟨proc, hproc, hnode⟩ := h
  simp only [Graph.pushTask, hproc, if_pos hnode, if_true]
  exact ⟨_, rfl⟩

theorem pushed_pendingSends (hg : g.StateNodes) (hh : g.CollisionFree) :
    g.Pushed (Graph.pendingSends l.channels) l := by
  have hvalues : (l.preparedTasks g).values =
      g.pushTasks l.checkpoint.id l.channels l.step true ++
        g.preparedPulls l.checkpoint l.channels l.step true (some g.triggerToNodes)
          l.updatedChannels :=
    Graph.values_prepareNextTasks hg hh _ _
  constructor
  · exact hvalues
  · rw [hvalues]
    exact Graph.path_prepared_nodup _ _
  · intro idx node arg hsend hruns
    obtain ⟨t, ht⟩ := pushTask_of_runs hruns l.checkpoint.id l.step idx arg
    have hmem : t ∈ g.pushTasks l.checkpoint.id l.channels l.step true :=
      List.mem_filterMap.mpr ⟨(.send node arg, idx), List.mem_zipIdx_iff_getElem?.mpr hsend, ht⟩
    obtain ⟨_, _, proc, hv, -, -, hname, hpath, hinput, -⟩ := Graph.pushTask_spec ht
    cases hv
    refine ⟨t, ?_, hpath, hname, hinput⟩
    rw [hvalues]
    exact List.mem_append_left _ hmem
  · intro t ht
    rw [hvalues] at ht
    rcases List.mem_append.mp ht with hpush | hpull
    · obtain ⟨idx, v, hv, hpushed⟩ := Graph.mem_pushTasks hpush
      obtain ⟨node, arg, proc, rfl, hproc, hnode, hname, hpath, hinput, -⟩ :=
        Graph.pushTask_spec hpushed
      exact Or.inr ⟨idx, node, arg, hv, ⟨proc, hproc, hnode⟩, hpath, hname, hinput⟩
    · obtain ⟨name, -, cache, hname⟩ := Graph.mem_preparePulls hpull
      left
      rw [(Graph.path_preparePull hname).1]
      simp [show Key.pull ≠ Key.push by decide]

end Pushed

section Version

variable {Ver : Type}

theorem Cell.run_version_bumped {v : Ver} {chan : String} {sts : List (Stage Channel)}
    {x : Cell Channel Ver} (h : x.version = some v) :
    (x.run (some v) chan sts).version = some v := by
  rw [run_version]
  split
  · rfl
  · exact h

theorem Cell.version_update_topic {v : Ver} {x : Cell Channel Ver} {t : Topic}
    (hx : x.channel = some (.topic t)) {pending : Dict String (List Value)}
    (hne : flatten (pending.getD Key.tasks []) ≠ []) :
    (x.touch (some v) Key.tasks ⟨true, .update pending⟩).version = some v := by
  have hresult : x.result Key.tasks ⟨true, .update pending⟩ =
      some (.topic (t.update (pending.getD Key.tasks [])).1, .ok true) := by
    have hsnd := t.update_snd (pending.getD Key.tasks [])
    have hempty : (flatten (pending.getD Key.tasks [])).isEmpty = false := by simpa using hne
    rw [hempty] at hsnd
    rw [Cell.result, hx]
    exact congrArg some (Prod.ext rfl hsnd)
  rw [Cell.touch_version, Cell.changedBy, hresult]
  rfl

theorem version_run_plan {v : Ver} {channels : Dict String Channel}
    {tasks : List PregelTaskWrites} {finish : Bool} {x : Cell Channel Ver} {t : Topic}
    (hk : Key.tasks ∈ channels.keys) (hx : x.channel = some (.topic t))
    (hne : sendsOf tasks ≠ []) :
    (x.run (some v) Key.tasks (plan channels tasks finish Key.tasks)).version = some v := by
  have hpending : (pendingWritesByChannel channels tasks).getD Key.tasks [] =
      tasks.flatMap (fun t => writesTo Key.tasks t.writes) := by
    rw [pendingWritesByChannel, getD_groupWrites (by decide) hk, writesTo_flatMap]
  have hmem : Key.tasks ∈ (pendingWritesByChannel channels tasks).keys := by
    by_contra hno
    rw [Dict.getD, Dict.get?_eq_none.mpr hno] at hpending
    exact hne (by rw [sendsOf, ← hpending]; rfl)
  obtain ⟨y, hy, hcy⟩ : ∃ y : Cell Channel Ver,
      x.run (some v) Key.tasks (if Key.tasks ∈ consumedChannels channels tasks then
        [⟨false, .consume⟩] else []) = y ∧ y.channel = some (.topic t) := by
    split
    · exact ⟨_, rfl, (@Cell.touch_consume_topic _ (some v) Key.tasks _ _ hx).1⟩
    · exact ⟨x, rfl, hx⟩
  rw [plan, Cell.run_append, hy, Cell.run_append, if_pos hmem]
  exact Cell.run_version_bumped (Cell.version_update_topic hcy (by rw [hpending]; exact hne))

theorem version_applyWrites [LinearOrder Ver] {checkpoint : Checkpoint Ver}
    {channels : Dict String Channel} {tasks : List PregelTaskWrites} {next : GetNextVersion Ver}
    {triggerToNodes : Dict String (List String)} {t : Topic} {updated : Finset String}
    (ht : channels.get? Key.tasks = some (.topic t))
    (hok : (applyWrites checkpoint channels tasks (some next) triggerToNodes).2.2 = .ok updated)
    (hne : sendsOf (sortTasks tasks) ≠ []) :
    (applyWrites checkpoint channels tasks (some next) triggerToNodes).1.channelVersions.get?
      Key.tasks = some (next (maxVersion checkpoint.channelVersions)) := by
  obtain ⟨v, hv⟩ : ∃ v, v = next (maxVersion checkpoint.channelVersions) := ⟨_, rfl⟩
  have hnone : (applyChannels channels checkpoint.channelVersions (some v) (sortTasks tasks)
      triggerToNodes).2 = none := by
    rw [hv]
    simp only [applyWrites] at hok
    split at hok
    · cases hok
    · assumption
  have hk : Key.tasks ∈ channels.keys := Dict.mem_keys.mpr ⟨_, ht⟩
  obtain ⟨finish, hcell⟩ := applyChannels_cell hnone
  have hrun := @version_run_plan _ v _ (sortTasks tasks) finish
    ⟨channels.get? Key.tasks, checkpoint.channelVersions.get? Key.tasks, false⟩ _ hk ht hne
  rw [← hcell Key.tasks] at hrun
  rw [← hv, ← hrun, hv]
  rfl

end Version

section Stored

variable {Ver : Type} {channels : Dict String Channel}

theorem sanitize_of_none (h : anyUntracked channels = false) (v : Value) :
    sanitizeUntrackedValuesInSend channels v = v := by
  have hkey (k : String) : untrackedKey channels k = false := untrackedKey_of_any h k
  unfold sanitizeUntrackedValuesInSend
  split
  · simp [hkey]
  · rfl

theorem storedSends_checkpointValues {vs : List Value}
    (h : channels.get? Key.tasks = some (.topic ⟨false, vs⟩)) {versions : ChannelVersions Ver}
    {snapshot : Finset String} (hs : Key.tasks ∉ snapshot)
    (hv : vs ≠ [] → Key.tasks ∈ versions.keys) :
    LangGraph.storedSends ((sanitizeTasks channels
      (checkpointValues channels versions snapshot)).get? Key.tasks) =
        vs.map (sanitizeUntrackedValuesInSend channels) := by
  have hget : (checkpointValues channels versions snapshot).get? Key.tasks =
      if Key.tasks ∈ versions.keys then some (.values vs) else none := by
    rw [checkpointValues, Dict.get?_filterMap, h, Option.bind_some]
    split
    · rw [checkpointValue, if_neg hs]
      rfl
    · rfl
  have hnil (hk : Key.tasks ∉ versions.keys) : vs = [] := by
    by_contra hne
    exact hk (hv hne)
  unfold sanitizeTasks
  cases ha : anyUntracked channels with
  | false =>
    have hsame : vs.map (sanitizeUntrackedValuesInSend channels) = vs := by
      rw [List.map_congr_left (fun v _ => sanitize_of_none ha v), List.map_id']
    rw [if_neg Bool.false_ne_true, hget, hsame]
    split
    · rfl
    · rename_i hk
      exact (hnil hk).symm
  | true =>
    rw [if_pos rfl]
    by_cases hk : Key.tasks ∈ versions.keys
    · rw [if_pos hk] at hget
      simp only [hget, Dict.get?_set_self, LangGraph.storedSends]
    · rw [if_neg hk] at hget
      simp only [hget, hnil hk, LangGraph.storedSends, List.map_nil]

end Stored

section Applied

variable {Ver : Type} [LinearOrder Ver] [OrderBot Ver] {g : Graph Channel}
  {l : PregelLoop Channel Ver}

namespace PregelLoop

def applied (g : Graph Channel) (next : GetNextVersion Ver) (l : PregelLoop Channel Ver) :
    Checkpoint Ver × Dict String Channel × Except UpdateError (Finset String) :=
  applyWrites l.checkpoint l.channels (l.liveTasks.map PregelTask.taskWrites) (some next)
    g.triggerToNodes

theorem afterTick_ok {next : GetNextVersion Ver} {newId : String}
    (h : (l.afterTick g next newId).2 = none) :
    ∃ updated exitWrites, (l.applied g next).2.2 = .ok updated ∧
      (l.afterTick g next newId).1 = putCheckpoint next newId "loop"
        { l with
          deltaChannelsWithOverwrite := l.deltaChannelsWithOverwrite ∪
            overwritten g.specs (l.liveTasks.flatMap PregelTask.writes)
          checkpoint := (l.applied g next).1
          channels := (l.applied g next).2.1
          updatedChannels := some updated
          exitDeltaWrites := exitWrites
          checkpointPendingWrites := []
          isReplaying := false } := by
  unfold afterTick at h ⊢
  simp only at h ⊢
  split at h
  · cases h
  · rename_i updated hupdated
    exact ⟨updated, _, hupdated, rfl⟩

-- The Sends that the tasks of the loop wrote, in the order of their paths.
def sends (l : PregelLoop Channel Ver) : List Value :=
  sendsOf (sortTasks (l.liveTasks.map PregelTask.taskWrites))

omit [LinearOrder Ver] [OrderBot Ver] in
theorem bumpStep_liveTasks (h : l.Sending) (hlive : l.liveTasks ≠ []) :
    bumpStep (sortTasks (l.liveTasks.map PregelTask.taskWrites)) = true := by
  obtain ⟨t, ht⟩ := List.exists_mem_of_ne_nil _ hlive
  have htriggers : t.triggers ≠ [] := by
    cases hl : l.tasks with
    | none => simp [liveTasks, hl] at ht
    | some tasks =>
      simp only [liveTasks, hl, Option.map_some, Option.getD_some] at ht
      obtain ⟨k, hk⟩ := Dict.mem_values.mp ht
      have htriggered := h.triggered
      rw [hl] at htriggered
      exact htriggered k t hk
  have hperm : (sortTasks (l.liveTasks.map PregelTask.taskWrites)).Perm
      (l.liveTasks.map PregelTask.taskWrites) := List.perm_insertionSort _ _
  have hmem := hperm.mem_iff.mpr (List.mem_map_of_mem (f := PregelTask.taskWrites) ht)
  refine List.any_eq_true.mpr ⟨t.taskWrites, hmem, ?_⟩
  simpa [PregelTask.taskWrites] using htriggers

omit [OrderBot Ver] in
theorem topic_applied (ht : SendTopic l.channels) (hs : l.Sending) (hlive : l.liveTasks ≠ [])
    {next : GetNextVersion Ver} {updated : Finset String}
    (hok : (l.applied g next).2.2 = .ok updated) :
    (l.applied g next).2.1.get? Key.tasks = some (.topic ⟨false, l.sends⟩) ∧
      (l.sends ≠ [] → Key.tasks ∈ (l.applied g next).1.channelVersions.keys) := by
  obtain ⟨vs, hvs⟩ := ht
  refine ⟨(tasks_applyWrites hvs hok).trans ?_, fun hne =>
    Dict.mem_keys.mpr ⟨_, version_applyWrites hvs hok hne⟩⟩
  rw [bumpStep_liveTasks hs hlive]
  simp [keptValues, appendedValues, sends]

theorem channels_putCheckpoint (next : GetNextVersion Ver) (newId source : String)
    (l : PregelLoop Channel Ver) :
    (l.putCheckpoint next newId source).channels = l.channels ∧
      (l.putCheckpoint next newId source).checkpointPendingWrites = l.checkpointPendingWrites ∧
      (l.putCheckpoint next newId source).isReplaying = l.isReplaying ∧
      (l.putCheckpoint next newId source).config = l.config := by
  unfold putCheckpoint
  simp only
  split
  · exact ⟨rfl, rfl, rfl, rfl⟩
  · exact ⟨rfl, rfl, rfl, rfl⟩

theorem tick_prepared {m : PregelLoop Channel Ver} (hp : m.checkpointPendingWrites = [])
    (hstop : m.step ≤ m.stop) : (m.tick g).1.liveTasks = (m.preparedTasks g).values := by
  have hresumed : m.resumedTasks g (m.preparedTasks g) = m.preparedTasks g := by
    rw [resumedTasks, if_pos (Or.inr hp)]
  unfold tick
  rw [if_neg (not_lt.mpr hstop)]
  simp only [hresumed]
  split
  · rfl
  · split
    · rfl
    · rfl

-- The checkpoint that stands in the saver for the loop when it leaves.
def lastSaved (next : GetNextVersion Ver) (l : PregelLoop Channel Ver) : Checkpoint Ver :=
  if l.config.durability = .exit then (l.putExitCheckpoint next).checkpoint else l.checkpoint

omit [LinearOrder Ver] [OrderBot Ver] in
theorem tasks_not_snapshot {m : PregelLoop Channel Ver} {vs : List Value} {counters : Counters}
    (ht : m.channels.get? Key.tasks = some (.topic ⟨false, vs⟩))
    (ho : Key.tasks ∉ m.deltaChannelsWithOverwrite) :
    Key.tasks ∉ m.channelsToSnapshot m.channels counters := by
  intro hmem
  refine (Finset.mem_union.mp hmem).elim (fun hdelta => ?_) ho
  rw [deltaChannelsToSnapshot, List.mem_toFinset, Dict.mem_keys_filter] at hdelta
  obtain ⟨c, hc, hp⟩ := hdelta
  rw [ht] at hc
  cases hc
  have hno : ¬ isDelta (Channel.topic ⟨false, vs⟩) := fun hd => by cases hd
  simp [hno] at hp

theorem exit_putCheckpoint {m n : PregelLoop Channel Ver} {next : GetNextVersion Ver}
    {newId source : String} (hd : m.config.durability = .exit)
    (hn : n = m.putCheckpoint next newId source) :
    n.channels = m.channels ∧ n.deltaChannelsWithOverwrite = m.deltaChannelsWithOverwrite ∧
      n.checkpoint.channelVersions = m.checkpoint.channelVersions ∧
      n.checkpoint.id = newId ∧ n.checkpointIdSaved = m.checkpointIdSaved := by
  rw [hn, putCheckpoint, if_pos hd]
  exact ⟨rfl, rfl, rfl, rfl, rfl⟩

theorem stored_putCheckpoint {m : PregelLoop Channel Ver} {vs : List Value}
    (ht : m.channels.get? Key.tasks = some (.topic ⟨false, vs⟩))
    (ho : Key.tasks ∉ m.deltaChannelsWithOverwrite)
    (hv : vs ≠ [] → Key.tasks ∈ m.checkpoint.channelVersions.keys)
    (next exitNext : GetNextVersion Ver) {newId : String} (source : String)
    (hid : m.config.durability = .exit → newId ≠ m.checkpointIdSaved) :
    LangGraph.storedSends
      ((((m.putCheckpoint next newId source).lastSaved exitNext).channelValues).get? Key.tasks) = vs.map (sanitizeUntrackedValuesInSend m.channels) := by
  have hsnapshot (counters : Counters) : Key.tasks ∉ m.channelsToSnapshot m.channels counters :=
    tasks_not_snapshot ht ho
  by_cases hd : m.config.durability = .exit
  · obtain ⟨n, hput⟩ : ∃ n, n = m.putCheckpoint next newId source := ⟨_, rfl⟩
    obtain ⟨hchannels, hoverwrites, hversions, hnew, hold⟩ := exit_putCheckpoint hd hput
    have hconfig : n.config.durability = .exit := by
      rw [hput, (channels_putCheckpoint next newId source m).2.2.2]
      exact hd
    have hsave : n.checkpoint.id ≠ n.checkpointIdSaved := by
      rw [hnew, hold]
      exact hid hd
    rw [← hput, lastSaved, if_pos hconfig, putExitCheckpoint, if_neg hsave, ← hchannels]
    have htn : n.channels.get? Key.tasks = some (.topic ⟨false, vs⟩) := by rw [hchannels, ht]
    exact storedSends_checkpointValues htn (tasks_not_snapshot htn (hoverwrites ▸ ho))
      (hversions ▸ hv)
  · obtain ⟨snapshot, hmem, hvalues⟩ : ∃ snapshot, Key.tasks ∉ snapshot ∧
        (m.putCheckpoint next newId source).checkpoint.channelValues = sanitizeTasks m.channels
          (checkpointValues m.channels m.checkpoint.channelVersions snapshot) := by
      rw [putCheckpoint, if_neg hd]
      exact ⟨_, hsnapshot _, rfl⟩
    have hconfig : (m.putCheckpoint next newId source).config.durability ≠ .exit := by
      rw [(channels_putCheckpoint next newId source m).2.2.2]
      exact hd
    rw [lastSaved, if_neg hconfig, hvalues]
    exact storedSends_checkpointValues ht hmem hv

end PregelLoop

end Applied

namespace Thread

variable {Ver : Type} [LinearOrder Ver] [OrderBot Ver]

theorem sends_delivered (g : Graph Channel) (hg : SendTopic g.specs) (hn : g.StateNodes)
    (hh : g.CollisionFree) (inputKeys : InputKeys) (events : List (RunEvent Ver))
    {l : PregelLoop Channel Ver}
    (hl : (run (Thread.runStep g inputKeys) Thread.fresh events).loop = some l)
    (hlive : l.liveTasks ≠ []) (next : GetNextVersion Ver) (newId : String)
    (hok : (l.afterTick g next newId).2 = none) {l' : PregelLoop Channel Ver}
    (hl' : l' = (l.afterTick g next newId).1) :
    g.Pushed l.sends l' ∧
      (l'.step ≤ l'.stop → (l'.tick g).1.liveTasks = (l'.preparedTasks g).values) ∧
      ∀ (exitNext : GetNextVersion Ver) (saver : Option (InMemorySaver Ver))
        (checkpoint : Checkpoint Ver) (m : PregelLoop Channel Ver),
        (l.config.durability = .exit → newId ≠ l.checkpointIdSaved) →
        checkpoint.channelValues.get? Key.tasks =
          (l'.lastSaved exitNext).channelValues.get? Key.tasks →
        channelsFromCheckpoint g.specs saver checkpoint = .ok m.channels →
        g.Pushed (l.sends.map (sanitizeUntrackedValuesInSend l'.channels)) m := by
  have hstep (th : Thread Channel Ver) (e : RunEvent Ver) (h : th.SendsHold) :
      (th.runStep g inputKeys e).SendsHold := h.step hg e
  have hholds : (run (Thread.runStep g inputKeys) Thread.fresh events).SendsHold :=
    run_invariant hstep events sendsHold_fresh
  have hs : l.Sending := hholds.loop l hl
  obtain ⟨updated, exitWrites, hupdated, hafter⟩ := PregelLoop.afterTick_ok hok
  obtain ⟨htopic, hversion⟩ :=
    PregelLoop.topic_applied (hholds.core.loop l hl) hs hlive hupdated
  obtain ⟨b, hb⟩ : ∃ b : PregelLoop Channel Ver, b = { l with
    deltaChannelsWithOverwrite := l.deltaChannelsWithOverwrite ∪
      PregelLoop.overwritten g.specs (l.liveTasks.flatMap PregelTask.writes)
    checkpoint := (l.applied g next).1
    channels := (l.applied g next).2.1
    updatedChannels := some updated
    exitDeltaWrites := exitWrites
    checkpointPendingWrites := []
    isReplaying := false } := ⟨_, rfl⟩
  rw [hafter, ← hb] at hl'
  have hbtopic : b.channels.get? Key.tasks = some (.topic ⟨false, l.sends⟩) := by
    rw [hb]
    exact htopic
  obtain ⟨hchannels, hpending, -, -⟩ := PregelLoop.channels_putCheckpoint next newId "loop" b
  have hsends : Graph.pendingSends l'.channels = l.sends := by
    rw [hl', hchannels]
    exact pendingSends_topic hbtopic
  refine ⟨hsends ▸ pushed_pendingSends hn hh, fun hstop => ?_, ?_⟩
  · refine PregelLoop.tick_prepared ?_ hstop
    rw [hl', hpending, hb]
  · intro exitNext saver checkpoint m hid hvalue hload
    have hstored := @PregelLoop.stored_putCheckpoint _ _ _ b _ hbtopic
      (by rw [hb]; exact fun hm => hs.overwrites (PregelLoop.kept_overwritten hg _ hm))
      (by rw [hb]; exact hversion) next exitNext newId "loop" (by rw [hb]; exact hid)
    have hm : Graph.pendingSends m.channels =
        l.sends.map (sanitizeUntrackedValuesInSend l'.channels) := by
      rw [pendingSends_topic (topic_load hg hload), hvalue, hl', hstored, hchannels]
    exact hm ▸ pushed_pendingSends hn hh

section Runs

def mapGraph : Graph Channel :=
  { Graph.ofSpecs (Dict.ofList
      [("x", .lastValue ⟨"x", none⟩), (Key.tasks, .topic ⟨false, []⟩),
        (Key.start, .ephemeralValue ⟨Key.start, true, none⟩),
        ("branch:to:a", .ephemeralValue ⟨"branch:to:a", false, none⟩)]) with
    nodes := Dict.ofList
      [(Key.start, ⟨.single Key.start, [Key.start], none, none, none, none, true⟩),
        ("a", ⟨.many ["x"], ["branch:to:a"], none, none, none, none, true⟩)]
    triggerToNodes := Dict.ofList [(Key.start, [Key.start]), ("branch:to:a", ["a"])] }

theorem mapGraph_stateNodes : mapGraph.StateNodes where
  start proc h := by
    have hmem := Dict.get?_eq_some.mp h
    have hstart : ("a", (⟨.many ["x"], ["branch:to:a"], none, none, none, none, true⟩ :
        PregelNode)).1 ≠ Key.start := by decide
    rcases List.mem_cons.mp hmem with heq | hmem
    · rw [(Prod.mk.inj heq).2]
    · exact absurd (congrArg Prod.fst (List.mem_singleton.mp hmem)).symm hstart
  node name proc h hs := by
    rcases List.mem_cons.mp (Dict.get?_eq_some.mp h) with heq | hmem
    · exact absurd (Prod.mk.inj heq).1 hs
    · obtain ⟨rfl, rfl⟩ := Prod.mk.inj (List.mem_singleton.mp hmem)
      exact ⟨by decide, [], rfl, fun chan hchan => by cases hchan⟩

def mapEvents : List (RunEvent Nat) :=
  [.thread (.enter (LoopConfig.plain .sync) none "0" none),
    .thread (.first (.value (.dict [("x", .int 1)])) false successor successor "1"),
    .thread .tick,
    .thread (.commit "1__start__0__start____pregel_pull__start__"
      ⟨[(Key.tasks, .send "a" (.int 1)), ("x", .int 1), (Key.tasks, .send "a" (.int 2))], none⟩)]

def mapThread : Thread Channel Nat :=
  run (Thread.runStep mapGraph (.single Key.start)) Thread.fresh mapEvents

theorem sends_of_start_delivered : ∃ l l', mapThread.loop = some l ∧
    l' = (l.afterTick mapGraph successor "2").1 ∧
    l.sends = [.send "a" (.int 1), .send "a" (.int 2)] ∧ mapGraph.Pushed l.sends l' := by
  obtain ⟨l, hl⟩ : ∃ l, l = mapThread.loop.get (by decide) := ⟨_, rfl⟩
  have hloop : mapThread.loop = some l := by rw [hl, Option.some_get]
  have hlive : l.liveTasks ≠ [] := by
    rw [hl]
    exact List.ne_nil_of_length_pos (by decide)
  have hok : (l.afterTick mapGraph successor "2").2 = none := by
    rw [hl]
    decide
  refine ⟨l, _, hloop, rfl, by rw [hl]; decide, ?_⟩
  exact (sends_delivered mapGraph ⟨[], rfl⟩ mapGraph_stateNodes (fun _ _ h => h)
    (.single Key.start) mapEvents hloop hlive successor "2" hok rfl).1

def RunEvent.taskWrites : RunEvent Nat → List Write
  | .thread (.commit _ a) => a.writes
  | .thread (.taskWrites _ writes) => writes
  | .thread (.putWrites _ writes) => writes
  | _ => []

-- A thread with an input, resumed with a command that sends.
def gotoEvents : List (RunEvent Nat) :=
  [.thread (.enter (LoopConfig.plain .sync) none "0" none),
    .thread (.first (.value (.dict [("x", .int 1)])) false successor successor "1"),
    .thread (.exit successor),
    .thread (.enter (LoopConfig.plain .sync) none "0" none),
    .thread (.first (.command ⟨[.inr (.send "a" (.int 5))], none, []⟩) false successor successor
      "2"),
    .thread .tick]

theorem command_send_pushed :
    ((run (Thread.runStep mapGraph (.single Key.start)) Thread.fresh gotoEvents).loop.map
      (fun l => l.liveTasks.map (fun t => (t.name, taskPathStr (.tuple t.path))))) =
        some [("a", "~__pregel_push, 0000000000, 0000000000"),
          (Key.start, "~__pregel_pull, __start__")] ∧
      ∀ e ∈ gotoEvents, RunEvent.taskWrites e = [] := by
  exact ⟨by decide +kernel, by decide +kernel⟩

end Runs

end Thread

end LangGraph
