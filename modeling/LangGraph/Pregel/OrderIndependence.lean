import LangGraph.Channels.Channel
import LangGraph.Collections.Sorting
import LangGraph.Pregel.AcceptPush
import LangGraph.Pregel.ApplyWrites

namespace LangGraph

open Collections Transition

section Sorted

variable {C Ver : Type} [BaseChannel C] [LinearOrder Ver]

def InPathOrder (tasks : List PregelTaskWrites) : Prop :=
  tasks.Pairwise (fun a b => a.sortKey ≤ b.sortKey)

theorem eq_sortTasks {tasks ordered : List PregelTaskWrites} (hp : ordered.Perm tasks)
    (hn : (tasks.map PregelTaskWrites.sortKey).Nodup) (ho : InPathOrder ordered) :
    ordered = sortTasks tasks :=
  eq_of_perm (hp.trans (List.perm_insertionSort _ tasks).symm)
    ((hp.map PregelTaskWrites.sortKey).nodup_iff.mpr hn) ho
    (pairwise_insertionSort_on PregelTaskWrites.sortKey tasks)

theorem sortTasks_perm {tasks other : List PregelTaskWrites} (hp : other.Perm tasks)
    (hn : (tasks.map PregelTaskWrites.sortKey).Nodup) : sortTasks other = sortTasks tasks :=
  eq_sortTasks ((List.perm_insertionSort _ other).trans hp) hn
    (pairwise_insertionSort_on PregelTaskWrites.sortKey other)

theorem applyWrites_perm {tasks other : List PregelTaskWrites} (hp : other.Perm tasks)
    (hn : (tasks.map PregelTaskWrites.sortKey).Nodup) (checkpoint : Checkpoint Ver)
    (channels : Dict String C) (getNextVersion : Option (GetNextVersion Ver))
    (triggerToNodes : Dict String (List String)) :
    applyWrites checkpoint channels other getNextVersion triggerToNodes =
      applyWrites checkpoint channels tasks getNextVersion triggerToNodes := by
  unfold applyWrites
  rw [sortTasks_perm hp hn]

end Sorted

section Sends

variable {Ver : Type}

def sendsOf (tasks : List PregelTaskWrites) : List Value :=
  flatten (tasks.flatMap (fun t => writesTo Key.tasks t.writes))

theorem writesTo_flatMap (chan : String) (tasks : List PregelTaskWrites) :
    writesTo chan (tasks.flatMap PregelTaskWrites.writes) =
      tasks.flatMap (fun t => writesTo chan t.writes) := by
  induction tasks with
  | nil => rfl
  | cons t tasks ih => simp only [writesTo, List.flatMap_cons, List.filter_append,
      List.map_append] at ih ⊢; rw [ih]

namespace Cell

variable {next : Option Ver} {chan : String} {x : Cell Channel Ver} {t : Topic}

theorem touch_channel (next : Option Ver) (chan : String) (st : Stage Channel)
    (x : Cell Channel Ver) :
    (x.touch next chan st).channel = (x.result chan st).map Prod.fst := by
  unfold touch
  cases hr : x.result chan st with
  | none => simpa [result] using hr
  | some r =>
    obtain ⟨c, e | b⟩ := r
    · rfl
    · cases b with
      | false => rfl
      | true => cases next <;> rfl

theorem touch_updated (next : Option Ver) (chan : String) (st : Stage Channel)
    (x : Cell Channel Ver) {c : Channel} {b : Bool} (hr : x.result chan st = some (c, .ok b)) :
    (x.touch next chan st).updated =
      (x.updated || (b && next.isSome && st.mark && c.isAvailable)) := by
  unfold touch
  rw [hr]
  cases b with
  | false => simp
  | true =>
    cases next with
    | none => simp
    | some v => simp [BaseChannel.isAvailable]

theorem touch_consume_topic (hx : x.channel = some (.topic t)) :
    (x.touch next chan ⟨false, .consume⟩).channel = some (.topic t) ∧
      (x.touch next chan ⟨false, .consume⟩).updated = x.updated := by
  have hr : x.result chan ⟨false, .consume⟩ = some (.topic t, .ok false) := by
    rw [result, hx]
    rfl
  rw [touch_channel, touch_updated next chan _ x hr, hr]
  simp

theorem touch_finish_topic (hx : x.channel = some (.topic t)) :
    (x.touch next chan ⟨true, .finish⟩).channel = some (.topic t) := by
  have hr : x.result chan ⟨true, .finish⟩ = some (.topic t, .ok false) := by
    rw [result, hx]
    rfl
  rw [touch_channel, hr]
  rfl

theorem touch_update_topic (hx : x.channel = some (.topic t)) (hu : x.updated = false)
    (pending : Dict String (List Value)) :
    (x.touch next chan ⟨true, .update pending⟩).channel =
        some (.topic { t with values := t.kept ++ flatten (pending.getD chan []) }) ∧
      (x.touch next chan ⟨true, .update pending⟩).updated =
        (next.isSome && (!(flatten (pending.getD chan [])).isEmpty)) := by
  have hr : x.result chan ⟨true, .update pending⟩ =
      some (.topic (t.update (pending.getD chan [])).1, (t.update (pending.getD chan [])).2) := by
    rw [result, hx]
    rfl
  have hsnd := t.update_snd (pending.getD chan [])
  rw [hsnd] at hr
  rw [touch_channel, touch_updated next chan _ x hr, hr, hu, t.update_fst]
  refine ⟨rfl, ?_⟩
  obtain ⟨acc, values⟩ := t
  cases flatten (pending.getD chan []) <;> cases acc <;> cases values <;> cases next <;>
    simp [Channel.isAvailable, Topic.isAvailable, Topic.kept]

theorem touch_updateEmpty_topic (hx : x.channel = some (.topic t)) :
    (x.touch next chan ⟨true, .updateEmpty⟩).channel =
      some (.topic { t with values := if x.updated then t.values else t.kept }) := by
  rw [touch_channel, result, hx, Option.map_some, Option.map_some]
  obtain ⟨acc, values⟩ := t
  cases hu : x.updated <;> cases acc <;> cases values <;> rfl

end Cell

-- What an apply leaves of the values a topic had, and what it appends to them.
def keptValues (t : Topic) (bump written : Bool) : List Value :=
  if t.accumulate || (!bump && !written) then t.values else []

def appendedValues (t : Topic) (next : Option Ver) (bump : Bool) (values : List Value) :
    List Value :=
  if next.isSome || t.accumulate || !bump then values else []

theorem run_bump_topic {next : Option Ver} {chan : String} {x : Cell Channel Ver} {t : Topic}
    (hx : x.channel = some (.topic t)) (bump finish : Bool) :
    (x.run next chan ((if bump then [⟨true, .updateEmpty⟩] else []) ++
      (if finish then [⟨true, .finish⟩] else []))).channel =
        some (.topic { t with values := if bump && !x.updated then t.kept else t.values }) := by
  have hfinish (y : Cell Channel Ver) {u : Topic} (hy : y.channel = some (.topic u)) :
      (y.run next chan (if finish then [⟨true, .finish⟩] else [])).channel = some (.topic u) := by
    cases finish with
    | false => exact hy
    | true => exact Cell.touch_finish_topic hy
  rw [Cell.run_append]
  cases bump with
  | false => exact hfinish x hx
  | true =>
    refine hfinish _ ((Cell.touch_updateEmpty_topic hx).trans ?_)
    cases x.updated <;> rfl

theorem run_plan_topic {next : Option Ver} {channels : Dict String Channel}
    {tasks : List PregelTaskWrites} {finish : Bool} {x : Cell Channel Ver} {t : Topic}
    (hk : Key.tasks ∈ channels.keys) (hx : x.channel = some (.topic t))
    (hu : x.updated = false) :
    (x.run next Key.tasks (plan channels tasks finish Key.tasks)).channel =
      some (.topic ⟨t.accumulate,
        keptValues t (bumpStep tasks)
            (decide (Key.tasks ∈ (pendingWritesByChannel channels tasks).keys)) ++
          appendedValues t next (bumpStep tasks) (sendsOf tasks)⟩) := by
  have hvs : (pendingWritesByChannel channels tasks).getD Key.tasks [] =
      tasks.flatMap (fun t => writesTo Key.tasks t.writes) := by
    rw [pendingWritesByChannel, getD_groupWrites (by decide) hk, writesTo_flatMap]
  obtain ⟨y, hy, hcy, huy⟩ : ∃ y : Cell Channel Ver,
      x.run next Key.tasks (if Key.tasks ∈ consumedChannels channels tasks then
        [⟨false, .consume⟩] else []) = y ∧ y.channel = some (.topic t) ∧ y.updated = false := by
    split
    · obtain ⟨hc, hup⟩ := @Cell.touch_consume_topic _ next Key.tasks _ _ hx
      exact ⟨_, rfl, hc, hup.trans hu⟩
    · exact ⟨x, rfl, hx, hu⟩
  rw [plan, Cell.run_append, hy, Cell.run_append]
  by_cases hp : Key.tasks ∈ (pendingWritesByChannel channels tasks).keys
  · rw [if_pos hp, decide_eq_true hp]
    obtain ⟨hc, hup⟩ := @Cell.touch_update_topic _ next Key.tasks _ _ hcy huy
      (pendingWritesByChannel channels tasks)
    rw [hvs] at hc hup
    refine (run_bump_topic hc _ _).trans ?_
    rw [hup]
    obtain ⟨acc, values⟩ := t
    unfold keptValues appendedValues Topic.kept sendsOf
    cases flatten (tasks.flatMap (fun t => writesTo Key.tasks t.writes)) <;> cases acc <;>
      cases bumpStep tasks <;> cases next <;> simp
  · rw [if_neg hp, decide_eq_false hp]
    have hnone : sendsOf tasks = [] := by
      rw [sendsOf, ← hvs, Dict.getD, Dict.get?_eq_none.mpr hp]
      rfl
    refine (run_bump_topic hcy _ _).trans ?_
    rw [hnone, huy]
    obtain ⟨acc, values⟩ := t
    unfold keptValues appendedValues Topic.kept
    cases acc <;> cases bumpStep tasks <;> simp

def writesTasks (tasks : List PregelTaskWrites) : Bool :=
  tasks.any (fun t => t.writes.any (fun w => w.1 = Key.tasks))

theorem mem_pending_iff {channels : Dict String Channel} {tasks : List PregelTaskWrites}
    (hk : Key.tasks ∈ channels.keys) :
    Key.tasks ∈ (pendingWritesByChannel channels tasks).keys ↔ writesTasks tasks = true := by
  have hi : Key.tasks ∉ ignoredWrites := by decide
  rw [pendingWritesByChannel, mem_keys_groupWrites]
  simp only [writesTasks, List.any_eq_true, List.mem_flatMap, decide_eq_true_eq, hk, hi,
    not_false_eq_true, true_and]
  constructor
  · rintro ⟨v, t, ht, hv⟩
    exact ⟨t, ht, _, hv, rfl⟩
  · rintro ⟨t, ht, ⟨c, v⟩, hw, rfl⟩
    exact ⟨v, t, ht, hw⟩

variable [LinearOrder Ver]

theorem tasks_applyWrites {checkpoint : Checkpoint Ver} {channels : Dict String Channel}
    {tasks : List PregelTaskWrites} {getNextVersion : Option (GetNextVersion Ver)}
    {triggerToNodes : Dict String (List String)} {t : Topic} {updated : Finset String}
    (ht : channels.get? Key.tasks = some (.topic t))
    (hok : (applyWrites checkpoint channels tasks getNextVersion triggerToNodes).2.2 =
      .ok updated) :
    (applyWrites checkpoint channels tasks getNextVersion triggerToNodes).2.1.get? Key.tasks =
      some (.topic ⟨t.accumulate,
        keptValues t (bumpStep (sortTasks tasks)) (writesTasks (sortTasks tasks)) ++
          appendedValues t getNextVersion (bumpStep (sortTasks tasks))
            (sendsOf (sortTasks tasks))⟩) := by
  obtain ⟨next, hnext⟩ : ∃ next, next =
    getNextVersion.map (fun g => g (maxVersion checkpoint.channelVersions)) := ⟨_, rfl⟩
  have hnone : (applyChannels channels checkpoint.channelVersions next (sortTasks tasks)
      triggerToNodes).2 = none := by
    rw [hnext]
    simp only [applyWrites] at hok
    split at hok
    · cases hok
    · assumption
  have hk : Key.tasks ∈ channels.keys := Dict.mem_keys.mpr ⟨_, ht⟩
  obtain ⟨finish, hcell⟩ := applyChannels_cell hnone
  have hrun := @run_plan_topic _ next _ (sortTasks tasks) finish
    ⟨channels.get? Key.tasks, checkpoint.channelVersions.get? Key.tasks, false⟩ _ hk ht rfl
  rw [← hcell Key.tasks] at hrun
  have hwritten : decide (Key.tasks ∈ (pendingWritesByChannel channels (sortTasks tasks)).keys) =
      writesTasks (sortTasks tasks) := by
    rw [Bool.eq_iff_iff, decide_eq_true_iff, mem_pending_iff hk]
  have happended : appendedValues t next (bumpStep (sortTasks tasks)) (sendsOf (sortTasks tasks)) =
      appendedValues t getNextVersion (bumpStep (sortTasks tasks)) (sendsOf (sortTasks tasks)) := by
    rw [hnext]
    cases getNextVersion <;> rfl
  rw [hwritten, happended] at hrun
  rw [← hrun, applyWrites, ← hnext]
  rfl

end Sends

namespace Superstep

variable {C Ver : Type}

theorem Invariant.nodup_sortKey {s : Superstep C Ver} (h : s.Invariant) :
    (s.taskWrites.map PregelTaskWrites.sortKey).Nodup := by
  rw [taskWrites, List.map_map]
  refine Dict.nodup_map_values (fun k k' t t' hk hk' hkey => ?_)
  obtain ⟨p, hp, hpath⟩ := h.known k t hk
  obtain ⟨p', hp', hpath'⟩ := h.known k' t' hk'
  have ht : TaskPath t.path := hpath ▸ h.wellFormed p hp
  have ht' : TaskPath t'.path := hpath' ▸ h.wellFormed p' hp'
  exact h.separate k k' t t' hk hk' (sortKey_inj (s := t.taskWrites) (t := t'.taskWrites) ht ht' hkey)

section Prepared

variable [BaseChannel C] [LinearOrder Ver] [OrderBot Ver] {g : Graph C}
  {checkpoint : Checkpoint Ver} {channels : Dict String C} {number : Int} {forExecution : Bool}
  {triggerToNodes : Option (Dict String (List String))} {updatedChannels : Option (Finset String)}

theorem path_of_prepared {k : String} {t : PregelTask}
    (h : (g.prepareNextTasks checkpoint channels number forExecution triggerToNodes
      updatedChannels).get? k = some t) :
    (∃ idx, t.path = [.str Key.push, .int idx, .bool false]) ∨
      ∃ name, t.path = [.str Key.pull, .str name] := by
  obtain ⟨-, hpush | ⟨name, -, cache, hpull⟩⟩ :=
    Graph.mem_prepareNextTasks (Dict.get?_eq_some.mp h)
  · obtain ⟨idx, v, -, hv⟩ := Graph.mem_pushTasks hpush
    exact Or.inl ⟨idx, Graph.path_pushTask hv⟩
  · exact Or.inr ⟨name, (Graph.path_preparePull hpull).1⟩

theorem invariant_prepared (l : PregelLoop C Ver) :
    (prepared l (g.prepareNextTasks checkpoint channels number forExecution triggerToNodes
      updatedChannels)).Invariant := by
  have hseparate (k k' : String) (t t' : PregelTask)
      (hk : (g.prepareNextTasks checkpoint channels number forExecution triggerToNodes
        updatedChannels).get? k = some t)
      (hk' : (g.prepareNextTasks checkpoint channels number forExecution triggerToNodes
        updatedChannels).get? k' = some t') (hpath : t.path = t'.path) : k = k' :=
    Graph.key_of_path (Dict.get?_eq_some.mp hk) (Dict.get?_eq_some.mp hk') hpath
  have hpads (p : Scratchpad) (hp : p ∈ (prepared l (g.prepareNextTasks checkpoint channels
      number forExecution triggerToNodes updatedChannels)).scratchpads) :
      (∃ idx, p.path = [.str Key.push, .int idx, .bool false]) ∨
        ∃ name, p.path = [.str Key.pull, .str name] := by
    obtain ⟨t, ht, rfl⟩ := List.mem_map.mp hp
    obtain ⟨k, hk⟩ := Dict.mem_values.mp ht
    exact path_of_prepared hk
  constructor
  · intro p hp
    rcases hpads p hp with ⟨idx, hpath⟩ | ⟨name, hpath⟩
    · rw [hpath]
      exact TaskPath.send idx
    · rw [hpath]
      exact TaskPath.pull name
  · rw [prepared, List.map_map]
    exact Dict.nodup_map_values hseparate
  · intro p hp parent idx hcall
    rcases hpads p hp with ⟨i, hpath⟩ | ⟨name, hpath⟩
    · rw [hpath] at hcall
      simp [callPath] at hcall
    · rw [hpath] at hcall
      simp [callPath] at hcall
  · intro k t hk
    exact ⟨⟨t.path, 0⟩, List.mem_map_of_mem (Dict.mem_values.mpr ⟨k, hk⟩), rfl⟩
  · exact hseparate

end Prepared

end Superstep

section OrderIndependent

variable {Ver : Type} [LinearOrder Ver] [OrderBot Ver]

theorem Superstep.order_independent (g : Graph Channel) (l : PregelLoop Channel Ver)
    (prepared : Checkpoint Ver) (read : Dict String Channel) (number : Int) (forExecution : Bool)
    (triggers : Option (Dict String (List String))) (updated : Option (Finset String))
    (events : List SuperstepEvent) {s : Superstep Channel Ver}
    (hs : s = run (Superstep.step g) (Superstep.prepared l
      (g.prepareNextTasks prepared read number forExecution triggers updated)) events)
    (checkpoint : Checkpoint Ver) (channels : Dict String Channel)
    (getNextVersion : Option (GetNextVersion Ver)) (triggerToNodes : Dict String (List String))
    {tasks : List PregelTaskWrites} (hp : tasks.Perm s.taskWrites) :
    applyWrites checkpoint channels tasks getNextVersion triggerToNodes =
        applyWrites checkpoint channels s.taskWrites getNextVersion triggerToNodes ∧
      ∀ (t : Topic) (u : Finset String) (ordered : List PregelTaskWrites),
        channels.get? Key.tasks = some (.topic t) →
        (applyWrites checkpoint channels tasks getNextVersion triggerToNodes).2.2 = .ok u →
        ordered.Perm s.taskWrites → InPathOrder ordered →
          (applyWrites checkpoint channels tasks getNextVersion triggerToNodes).2.1.get?
            Key.tasks = some (.topic ⟨t.accumulate,
              keptValues t (bumpStep ordered) (writesTasks ordered) ++
                appendedValues t getNextVersion (bumpStep ordered) (sendsOf ordered)⟩) := by
  have hinv : s.Invariant := by
    rw [hs]
    exact run_invariant (fun s e h => h.step e) events
      (Superstep.invariant_prepared l)
  have hn := hinv.nodup_sortKey
  refine ⟨applyWrites_perm hp hn checkpoint channels getNextVersion triggerToNodes, ?_⟩
  intro t u ordered ht hok hordered hpath
  have heq : ordered = sortTasks tasks := by
    rw [sortTasks_perm hp hn]
    exact eq_sortTasks hordered hn hpath
  rw [heq]
  exact tasks_applyWrites ht hok

def fanOutGraph : Graph Channel :=
  { Graph.ofSpecs ∅ with
    nodes := Dict.ofList [("n", ⟨.single "a", ["a"], none, none, none, none, true⟩)] }

def fanOutChannels : Dict String Channel :=
  Dict.ofList [(Key.tasks, .topic ⟨false, [.send "n" (.int 1), .send "n" (.int 2)]⟩)]

def fanOutLoop : PregelLoop Channel Nat where
  config := LoopConfig.plain .sync
  checkpoint := emptyCheckpoint "c"
  channels := fanOutChannels
  checkpointPendingWrites := []
  tasks := none
  step := 0
  stop := 25
  isReplaying := false
  checkpointMetadata := ⟨"loop", 0, ∅⟩
  checkpointConfigId := none
  initialConfigId := none
  checkpointIdSaved := "c"
  hasPersistedParent := false
  checkpointPreviousVersions := ∅
  updatedChannels := none
  exitDeltaWrites := none
  deltaChannelsWithOverwrite := ∅
  cache := none
  submitted := []

-- The second task ends first, and the first one calls a function that writes a Send too.
def fanOutEvents : List SuperstepEvent :=
  [.taskWrites "cn0n__pregel_push1" [(Key.tasks, .send "n" (.int 20))],
    .call 0 ⟨"f", .none, none, none⟩,
    .taskWrites "cf0f__pregel_push~__pregel_push, 0000000000, 00000000000"
      [(Key.tasks, .send "n" (.int 30))],
    .taskWrites "cn0n__pregel_push0" [(Key.tasks, .send "n" (.int 10))]]

def fanOut : Superstep Channel Nat :=
  run (Superstep.step fanOutGraph) (Superstep.prepared fanOutLoop
    (fanOutGraph.prepareNextTasks fanOutLoop.checkpoint fanOutChannels 0 true none none))
    fanOutEvents

theorem Superstep.fanOut_order_independent :
    fanOut.taskWrites.map PregelTaskWrites.name = ["n", "n", "f"] ∧
      applyWrites (emptyCheckpoint "c") fanOutChannels fanOut.taskWrites.reverse (some successor) ∅ =
        applyWrites (emptyCheckpoint "c") fanOutChannels fanOut.taskWrites (some successor) ∅ ∧
      Graph.pendingSends (applyWrites (emptyCheckpoint "c") fanOutChannels fanOut.taskWrites
        (some successor) ∅).2.1 = [.send "n" (.int 10), .send "n" (.int 20), .send "n" (.int 30)] := by
  refine ⟨by decide, ?_, ?_⟩
  · exact (Superstep.order_independent fanOutGraph fanOutLoop fanOutLoop.checkpoint
      fanOutChannels 0 true none none fanOutEvents rfl (emptyCheckpoint "c") fanOutChannels
      (some successor) ∅
      (List.reverse_perm fanOut.taskWrites)).1
  · decide

end OrderIndependent

end LangGraph
