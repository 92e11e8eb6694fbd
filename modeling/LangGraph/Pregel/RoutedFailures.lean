import LangGraph.Pregel.CacheOrRun
import LangGraph.Pregel.OrderIndependence

namespace LangGraph

open Collections Transition

section Erase

variable {C : Type}

def PregelTask.erase (t : PregelTask) : PregelTask := { t with writes := [] }

-- The tasks of a superstep, those of `ids` without what they wrote.
def eraseTasks (ids : List String) (tasks : Dict String PregelTask) : List PregelTaskWrites :=
  tasks.items.map (fun e => (if e.1 ∈ ids then e.2.erase else e.2).taskWrites)

-- The updates of each channel that `apply_writes` makes.
def channelUpdates (channels : Dict String C) (tasks : List PregelTaskWrites) :
    Dict String (List Value) :=
  pendingWritesByChannel channels (sortTasks tasks)

theorem writesTo_of_channelWrites {channels : Dict String C} {ws : List Write}
    (h : channelWrites channels ws ≠ []) :
    ∃ chan, chan ∉ ignoredWrites ∧ chan ∈ channels.keys ∧ writesTo chan ws ≠ [] := by
  obtain ⟨w, hw⟩ := List.exists_mem_of_ne_nil _ h
  obtain ⟨hmem, hkey⟩ := List.mem_filter.mp hw
  obtain ⟨hi, hc⟩ := of_decide_eq_true hkey
  refine ⟨w.1, hi, hc, List.ne_nil_of_mem (a := w.2) ?_⟩
  exact List.mem_map.mpr ⟨w, List.mem_filter.mpr ⟨hmem, by simp⟩, rfl⟩

-- Erasing writes of some tasks leaves the same list only when there was nothing to erase.
theorem flatMap_erased_eq_iff {α β : Type} {f g : α → List β} (l : List α)
    (h : ∀ x ∈ l, g x = f x ∨ g x = []) :
    l.flatMap f = l.flatMap g ↔ ∀ x ∈ l, f x = g x := by
  have hle (m : List α) (hm : ∀ x ∈ m, g x = f x ∨ g x = []) :
      (m.flatMap g).length ≤ (m.flatMap f).length := by
    induction m with
    | nil => exact le_rfl
    | cons x m ih =>
      have hrest := ih (fun y hy => hm y (List.mem_cons_of_mem x hy))
      simp only [List.flatMap_cons, List.length_append]
      rcases hm x List.mem_cons_self with heq | hnil
      · rw [heq]
        omega
      · rw [hnil, List.length_nil]
        omega
  constructor
  · induction l with
    | nil => exact fun _ x hx => by cases hx
    | cons x l ih =>
      obtain ⟨hx, hl⟩ := List.forall_mem_cons.mp h
      intro heq
      simp only [List.flatMap_cons] at heq
      have hlen := congrArg List.length heq
      have hrest := hle l hl
      simp only [List.length_append] at hlen
      have hhead : f x = g x := by
        rcases hx with hsame | hnil
        · exact hsame.symm
        · rw [hnil, List.length_nil] at hlen
          have hzero : (f x).length = 0 := by omega
          rw [hnil, List.length_eq_zero_iff.mp hzero]
      rw [hhead] at heq
      exact List.forall_mem_cons.mpr ⟨hhead, ih hl (List.append_cancel_left heq)⟩
  · intro hall
    exact List.flatMap_congr (fun x hx => hall x hx)

theorem sortTasks_map {α : Type} (l : List α) (f g : α → PregelTaskWrites)
    (h : ∀ x, (f x).sortKey = (g x).sortKey) :
    ∃ m : List α, m.Perm l ∧ sortTasks (l.map f) = m.map f ∧ sortTasks (l.map g) = m.map g := by
  refine ⟨l.insertionSort (fun a b => (f a).sortKey ≤ (f b).sortKey),
    List.perm_insertionSort _ l, ?_, ?_⟩
  · exact (List.map_insertionSort _ _ f l (fun a _ b _ => Iff.rfl)).symm
  · exact (List.map_insertionSort _ _ g l (fun a _ b _ => by rw [h a, h b])).symm

theorem channelUpdates_erase_iff (channels : Dict String C) (ids : List String)
    (tasks : Dict String PregelTask) :
    channelUpdates channels (tasks.values.map PregelTask.taskWrites) =
        channelUpdates channels (eraseTasks ids tasks) ↔
      ∀ id t, tasks.get? id = some t → id ∈ ids → channelWrites channels t.writes = [] := by
  obtain ⟨full, hfull⟩ : ∃ full : String × PregelTask → PregelTaskWrites,
      full = fun e => e.2.taskWrites := ⟨_, rfl⟩
  obtain ⟨erased, herased⟩ : ∃ erased : String × PregelTask → PregelTaskWrites,
      erased = fun e => (if e.1 ∈ ids then e.2.erase else e.2).taskWrites := ⟨_, rfl⟩
  have hvalues : tasks.values.map PregelTask.taskWrites = tasks.items.map full := by
    rw [Dict.values, List.map_map, hfull]
    rfl
  have hitems : eraseTasks ids tasks = tasks.items.map erased := by rw [eraseTasks, herased]
  have hkey (e : String × PregelTask) : (full e).sortKey = (erased e).sortKey := by
    simp only [hfull, herased]
    split_ifs <;> rfl
  have hwrites (e : String × PregelTask) : (erased e).writes = (full e).writes ∨
      (erased e).writes = [] := by
    simp only [hfull, herased]
    split_ifs
    · exact Or.inr rfl
    · exact Or.inl rfl
  obtain ⟨m, hperm, hsort, hsort'⟩ := sortTasks_map tasks.items full erased hkey
  rw [hvalues, hitems, channelUpdates, channelUpdates, hsort, hsort']
  constructor
  · intro heq id t ht hid
    by_contra hne
    obtain ⟨chan, hi, hc, hto⟩ := writesTo_of_channelWrites hne
    have hget := congrArg (fun d => d.getD chan []) heq
    simp only [pendingWritesByChannel] at hget
    rw [getD_groupWrites hi hc, getD_groupWrites hi hc, writesTo_flatMap, writesTo_flatMap,
      List.flatMap_map, List.flatMap_map] at hget
    have hall := (flatMap_erased_eq_iff m (fun e _ => by
      rcases hwrites e with h | h
      · left
        rw [h]
      · right
        rw [h]
        rfl)).mp hget
    have hmem : (id, t) ∈ m := hperm.mem_iff.mpr (Dict.get?_eq_some.mp ht)
    have hsame := hall (id, t) hmem
    simp only [hfull, herased, if_pos hid] at hsame
    exact hto hsame
  · intro hall
    rw [pendingWritesByChannel, pendingWritesByChannel, ← groupWrites_channelWrites,
      ← groupWrites_channelWrites channels ((m.map erased).flatMap PregelTaskWrites.writes)]
    congr 1
    have hflat (ts : List PregelTaskWrites) :
        channelWrites channels (ts.flatMap PregelTaskWrites.writes) =
          ts.flatMap (fun t => channelWrites channels t.writes) := by
      rw [channelWrites, List.filter_flatMap]
      rfl
    rw [hflat, hflat, List.flatMap_map, List.flatMap_map]
    refine List.flatMap_congr (fun e he => ?_)
    have hmem := hperm.mem_iff.mp he
    have hget := Dict.get?_eq_some.mpr hmem
    simp only [hfull, herased]
    split_ifs with hid
    · exact hall e.1 e.2 hget hid
    · rfl

end Erase

namespace PregelLoop

variable {C Ver : Type}

-- The tasks that failed and are left to an error handler: they hold an error, and their node has
-- a handler.
def routedTasks (g : Graph C) (l : PregelLoop C Ver) : List String :=
  ((l.tasks.map Dict.items).getD []).filterMap (fun e =>
    if g.shouldRouteToErrorHandler e.2.name ∧ ∃ w ∈ e.2.writes, w.1 = Key.error then some e.1
    else none)

theorem mem_routedTasks {g : Graph C} {l : PregelLoop C Ver} {id : String} :
    id ∈ l.routedTasks g ↔ ∃ t, l.task? id = some t ∧ g.shouldRouteToErrorHandler t.name ∧
      ∃ w ∈ t.writes, w.1 = Key.error := by
  rw [routedTasks, List.mem_filterMap]
  constructor
  · rintro ⟨⟨k, t⟩, hmem, hsome⟩
    split_ifs at hsome with hrouted
    obtain rfl := Option.some.inj hsome
    cases hts : l.tasks with
    | none =>
      rw [hts] at hmem
      cases hmem
    | some ts =>
      rw [hts] at hmem
      refine ⟨t, ?_, hrouted⟩
      rw [task?, hts, Option.bind_some]
      exact Dict.get?_eq_some.mpr hmem
  · rintro ⟨t, ht, hrouted⟩
    obtain ⟨ts, hts, hget⟩ := Option.bind_eq_some_iff.mp ht
    refine ⟨(id, t), ?_, if_pos hrouted⟩
    rw [hts]
    exact Dict.get?_eq_some.mp hget

section Resumed

variable {g : Graph C} {pending : List PendingWrite}

theorem not_routed_handler {t : PregelTask} {handler : String}
    (h : (g.nodes.get? t.name).bind PregelNode.errorHandlerNode = some handler) :
    g.shouldRouteToErrorHandler handler = false := by
  obtain ⟨proc, hproc, hhandler⟩ := Option.bind_eq_some_iff.mp h
  have hmem : handler ∈ g.errorHandlers :=
    List.mem_filterMap.mpr ⟨proc, Dict.mem_values.mpr ⟨t.name, hproc⟩, hhandler⟩
  rw [Graph.shouldRouteToErrorHandler, decide_eq_false (fun hn => hn hmem), Bool.false_and]

theorem name_errorHandlerTask {failed h : PregelTask} {handler checkpointId : String} {step : Int}
    (hp : prepareNodeErrorHandlerTask g failed handler checkpointId step = some h) :
    h.name = handler ∧ h.writes = [] := by
  rw [prepareNodeErrorHandlerTask] at hp
  split at hp
  · split_ifs at hp
    obtain rfl := Option.some.inj hp
    exact ⟨rfl, rfl⟩
  · cases hp

-- A task that may be routed holds what was saved for it, besides errors.
def Restores (g : Graph C) (channels : Dict String C) (pending : List PendingWrite)
    (tasks : Dict String PregelTask) : Prop :=
  ∀ id t, tasks.get? id = some t → g.shouldRouteToErrorHandler t.name →
    channelWrites channels t.writes = channelWrites channels (taskWritesOf id pending)

theorem channelWrites_error (channels : Dict String C) (ws : List Write) (exc : Value) :
    channelWrites channels (ws ++ [(Key.error, exc)]) = channelWrites channels ws := by
  have hnil : channelWrites channels [(Key.error, exc)] = [] := by
    rw [channelWrites_eq_nil]
    intro w hw
    rw [List.mem_singleton.mp hw]
    exact Or.inl (by simp [ignoredWrites])
  rw [channelWrites_append, hnil, List.append_nil]

theorem Restores.resume {channels : Dict String C} {tasks : Dict String PregelTask}
    (h : Restores g channels pending tasks) (checkpointId : String) (step : Int)
    (failed : String × Value) :
    Restores g channels pending (resumeErrorHandler g checkpointId step tasks failed) := by
  rw [resumeErrorHandler]
  split
  · exact h
  · rename_i f hf
    split
    · exact h
    · rename_i handler hhandler
      have hmarked : Restores g channels pending
          (tasks.set failed.1 { f with writes := f.writes ++ [(Key.error, failed.2)] }) := by
        intro id t ht hroute
        rw [Dict.get?_set] at ht
        split_ifs at ht with hid
        · obtain rfl := Option.some.inj ht
          rw [hid, channelWrites_error]
          exact h failed.1 f hf hroute
        · exact h id t ht hroute
      simp only
      split
      · rename_i task htask
        obtain ⟨hname, -⟩ := name_errorHandlerTask htask
        intro id t ht hroute
        rw [Dict.get?_set] at ht
        split_ifs at ht with hid
        · obtain rfl := Option.some.inj ht
          rw [hname, not_routed_handler hhandler] at hroute
          cases hroute
        · exact hmarked id t ht hroute
      · exact hmarked

theorem channelWrites_uncontrolled (channels : Dict String C) (ws : List Write) :
    channelWrites channels (ws.filter (fun w => w.1 ∉ controlChannels)) =
      channelWrites channels ws := by
  have hsub : ∀ k ∈ controlChannels, k ∈ ignoredWrites := by decide
  rw [channelWrites, channelWrites, List.filter_filter]
  refine List.filter_congr (fun w _ => ?_)
  by_cases hc : w.1 ∈ controlChannels
  · simp [hc, hsub w.1 hc]
  · simp [hc]

variable [BaseChannel C] [LinearOrder Ver] [OrderBot Ver]

theorem restores_tick {l l' : PregelLoop C Ver} (h : l.tick g = (l', .proceed)) {id : String}
    (hid : id ∈ l'.routedTasks g) :
    channelWrites l.channels (l'.writesOf id) =
      channelWrites l.channels (taskWritesOf id l.checkpointPendingWrites) := by
  obtain ⟨t, ht, hroute, w, hw, hwe⟩ := mem_routedTasks.mp hid
  have hl' := proceeds h
  have hget : (l.resumedTasks g (l.preparedTasks g)).get? id = some t := by
    rw [hl', task?, Option.bind_some] at ht
    exact ht
  have hwrites : l'.writesOf id = t.writes := by
    rw [writesOf, ht]
    rfl
  rw [hwrites]
  have hprepared (k : String) (p : PregelTask) (hp : (l.preparedTasks g).get? k = some p) :
      p.writes = [] ∧ k = p.id := by
    have hmem := Dict.get?_eq_some.mp hp
    exact ⟨Graph.writes_prepareNextTasks (Dict.mem_values.mpr ⟨k, hp⟩),
      (Graph.mem_prepareNextTasks hmem).1⟩
  rw [resumedTasks] at hget
  split_ifs at hget with hskip
  · rw [(hprepared id t hget).1] at hw
    cases hw
  · have hstart : Restores g l.channels l.checkpointPendingWrites
        (reapplyWritesToSucceededNodes l.checkpointPendingWrites (l.preparedTasks g)) := by
      intro k p hp _
      rw [reapplyWritesToSucceededNodes, Dict.get?_mapValues] at hp
      obtain ⟨q, hq, rfl⟩ := Option.map_eq_some_iff.mp hp
      obtain ⟨hnil, hkey⟩ := hprepared k q hq
      rw [hkey, reapplied, hnil, List.nil_append]
      exact channelWrites_uncontrolled l.channels _
    have hstep (tasks : Dict String PregelTask) (failed : String × Value)
        (htasks : Restores g l.channels l.checkpointPendingWrites tasks) :
        Restores g l.channels l.checkpointPendingWrites
          (resumeErrorHandler g l.checkpoint.id l.step tasks failed) :=
      htasks.resume l.checkpoint.id l.step failed
    exact run_invariant hstep (failedTasks l.checkpointPendingWrites) hstart id t hget hroute

end Resumed

end PregelLoop

-- A superstep with the tasks that were left to an error handler, before it or in it.
structure RoutedSuperstep (C Ver : Type) where
  superstep : CachedSuperstep C Ver
  routed : List String

namespace RoutedSuperstep

variable {C Ver : Type} [BaseChannel C]

def begin (g : Graph C) (l : PregelLoop C Ver) : RoutedSuperstep C Ver :=
  ⟨CachedSuperstep.begin l, l.routedTasks g⟩

def routes (g : Graph C) (s : CachedSuperstep C Ver) : CacheEvent → Option String
  | .commit taskId (some (.error _)) =>
      match s.loop.task? taskId with
      | none => none
      | some t =>
          if taskId ∈ s.attempting ∧ g.shouldRouteToErrorHandler t.name then some taskId else none
  | _ => none

def creates (g : Graph C) (s : CachedSuperstep C Ver) : CacheEvent → Option String
  | .call parent writeIdx call =>
      some (g.callTask s.loop.checkpoint.id s.loop.step parent writeIdx call).id
  | .scheduleErrorHandler failedId => (s.loop.errorHandlerTask g failedId).map PregelTask.id
  | _ => none

def step (g : Graph C) (s : RoutedSuperstep C Ver) (e : CacheEvent) : RoutedSuperstep C Ver :=
  ⟨s.superstep.step g e,
    s.routed.filter (fun id => creates g s.superstep e ≠ some id) ++
      (routes g s.superstep e).toList⟩

-- What is applied is what is applied without the writes of the failed tasks.
def Good (s : RoutedSuperstep C Ver) : Prop :=
  ∀ tasks, s.superstep.loop.tasks = some tasks →
    channelUpdates s.superstep.loop.channels (tasks.values.map PregelTask.taskWrites) =
      channelUpdates s.superstep.loop.channels (eraseTasks s.routed tasks)

-- A task that is left to its handler wrote to no channel before it raised.
def Ok (g : Graph C) (s : RoutedSuperstep C Ver) (e : CacheEvent) : Prop :=
  ∀ id, routes g s.superstep e = some id →
    channelWrites s.superstep.loop.channels (s.superstep.loop.writesOf id) = []

omit [BaseChannel C] in
theorem good_iff (s : RoutedSuperstep C Ver) :
    s.Good ↔ ∀ id ∈ s.routed,
      channelWrites s.superstep.loop.channels (s.superstep.loop.writesOf id) = [] := by
  rw [Good]
  cases hts : s.superstep.loop.tasks with
  | none =>
    have hnil (id : String) : s.superstep.loop.writesOf id = [] := by
      rw [PregelLoop.writesOf, PregelLoop.task?, hts]
      rfl
    constructor
    · intro _ id _
      rw [hnil]
      rfl
    · rintro - tasks heq
      cases heq
  | some tasks =>
    have htask (id : String) : s.superstep.loop.task? id = tasks.get? id := by
      rw [PregelLoop.task?, hts, Option.bind_some]
    have hgood : (∀ ts, some tasks = some ts →
        channelUpdates s.superstep.loop.channels (ts.values.map PregelTask.taskWrites) =
          channelUpdates s.superstep.loop.channels (eraseTasks s.routed ts)) ↔
        channelUpdates s.superstep.loop.channels (tasks.values.map PregelTask.taskWrites) =
          channelUpdates s.superstep.loop.channels (eraseTasks s.routed tasks) := by
      constructor
      · exact fun h => h tasks rfl
      · rintro h ts heq
        obtain rfl := Option.some.inj heq
        exact h
    rw [hgood, channelUpdates_erase_iff]
    constructor
    · intro h id hid
      rw [PregelLoop.writesOf, htask]
      cases ht : tasks.get? id with
      | none => rfl
      | some t => exact h id t ht hid
    · intro h id t ht hid
      have hw := h id hid
      rw [PregelLoop.writesOf, htask, ht] at hw
      exact hw

section Steps

variable {g : Graph C} {s : CachedSuperstep C Ver} {id : String}

omit [BaseChannel C] in
theorem writesOf_setTaskWrites_ne {l : PregelLoop C Ver} {taskId : String} (h : id ≠ taskId)
    (ws : List Write) : (l.setTaskWrites taskId ws).writesOf id = l.writesOf id := by
  rw [PregelLoop.writesOf, PregelLoop.task?_setTaskWrites, if_neg h, PregelLoop.writesOf]

omit [BaseChannel C] in
theorem mem_filter_ne {ids : List String} {taskId : String} (h : id ∉ ids) :
    id ∉ ids.filter (· ≠ taskId) :=
  fun hm => h (List.mem_filter.mp hm).1

-- What the runner has finished with.
structure Finished (s : CachedSuperstep C Ver) (id : String) : Prop where
  submitted : id ∉ s.submitted
  attempting : id ∉ s.attempting
  writes : s.loop.writesOf id ≠ []

omit [BaseChannel C] in
theorem Finished.addTask (h : Finished s id) {task : PregelTask} (hts : s.loop.tasks.isSome)
    (hne : id ≠ task.id) :
    Finished (s.addTask task) id ∧ (s.addTask task).loop.writesOf id = s.loop.writesOf id := by
  have htask := s.loop.task?_addTask task id hts
  rw [if_neg hne] at htask
  have hadded : (s.loop.addTask task).writesOf id = s.loop.writesOf id := by
    rw [PregelLoop.writesOf, htask, PregelLoop.writesOf]
  have hmatched : (s.loop.addTask task).matchCachedWrites.writesOf id = s.loop.writesOf id := by
    rw [PregelLoop.writesOf_matchCachedWrites (by rw [hadded]; exact h.writes), hadded]
  refine ⟨⟨mem_filter_ne h.submitted, mem_filter_ne h.attempting, ?_⟩, hmatched⟩
  exact fun hnil => h.writes (hmatched.symm.trans hnil)

theorem Finished.step (h : Finished s id) (e : CacheEvent) (hc : creates g s e ≠ some id) :
    Finished (s.step g e) id ∧ (s.step g e).loop.writesOf id = s.loop.writesOf id := by
  cases e with
  | matchCachedWrites =>
    have hw := PregelLoop.writesOf_matchCachedWrites h.writes
    refine ⟨⟨h.submitted, h.attempting, ?_⟩, hw⟩
    exact fun hnil => h.writes (hw.symm.trans hnil)
  | submit taskId =>
    rw [CachedSuperstep.step]
    split_ifs with hnil
    · refine ⟨⟨fun hm => ?_, h.attempting, h.writes⟩, rfl⟩
      rcases List.mem_cons.mp hm with rfl | hm
      · exact h.writes hnil
      · exact h.submitted hm
    · exact ⟨h, rfl⟩
  | attempt taskId =>
    rw [CachedSuperstep.step]
    split_ifs with hsub
    · have hne : id ≠ taskId := fun heq => h.submitted (heq ▸ hsub)
      have hw := writesOf_setTaskWrites_ne (l := s.loop) hne []
      refine ⟨⟨h.submitted, fun hm => ?_, fun hnil => h.writes (hw.symm.trans hnil)⟩, hw⟩
      exact h.attempting ((List.mem_cons.mp hm).resolve_left hne)
    · exact ⟨h, rfl⟩
  | write taskId w =>
    rw [CachedSuperstep.step]
    split_ifs with hrun
    · have hne : id ≠ taskId := fun heq => h.attempting (heq ▸ hrun)
      have hw := writesOf_setTaskWrites_ne (l := s.loop) hne (s.loop.writesOf taskId ++ [w])
      exact ⟨⟨h.submitted, h.attempting, fun hnil => h.writes (hw.symm.trans hnil)⟩, hw⟩
    · exact ⟨h, rfl⟩
  | commit taskId raised =>
    rw [CachedSuperstep.step]
    cases ht : s.loop.task? taskId with
    | none => exact ⟨h, rfl⟩
    | some t =>
      simp only
      split_ifs with hrun
      · have hne : id ≠ taskId := fun heq => h.attempting (heq ▸ hrun)
        have hw := PregelLoop.writesOf_commit_ne g hne ⟨t.writes, raised⟩ s.loop.cache s.loop
        refine ⟨⟨mem_filter_ne h.submitted, mem_filter_ne h.attempting, ?_⟩, hw⟩
        exact fun hnil => h.writes (hw.symm.trans hnil)
      · exact ⟨h, rfl⟩
  | call parent writeIdx call =>
    rw [CachedSuperstep.step]
    split_ifs with hts
    · exact h.addTask hts (fun heq => hc (by rw [creates, heq]))
    · exact ⟨h, rfl⟩
  | scheduleErrorHandler failedId =>
    rw [CachedSuperstep.step]
    cases ht : s.loop.errorHandlerTask g failedId with
    | none => exact ⟨h, rfl⟩
    | some task =>
      have hne : id ≠ task.id := fun heq => hc (by rw [creates, ht, Option.map_some, heq])
      obtain ⟨hfinished, hw⟩ := h.addTask (s.loop.isSome_of_errorHandlerTask ht) hne
      refine ⟨⟨fun hm => ?_, hfinished.attempting, hfinished.writes⟩, hw⟩
      exact hfinished.submitted ((List.mem_cons.mp hm).resolve_left hne)
  | cacheSet key writes => exact ⟨⟨h.submitted, h.attempting, h.writes⟩, rfl⟩

theorem channels_step (g : Graph C) (s : CachedSuperstep C Ver) (e : CacheEvent) :
    (s.step g e).loop.channels = s.loop.channels := by
  cases e with
  | matchCachedWrites => exact s.loop.channels_matchCachedWrites
  | commit taskId raised =>
    rw [CachedSuperstep.step]
    cases ht : s.loop.task? taskId with
    | none => rfl
    | some t =>
      simp only
      split_ifs
      · exact s.loop.channels_commit g taskId ⟨t.writes, raised⟩
      · rfl
  | call parent writeIdx call =>
    rw [CachedSuperstep.step]
    split_ifs
    · exact (s.loop.addTask _).channels_matchCachedWrites
    · rfl
  | scheduleErrorHandler failedId =>
    rw [CachedSuperstep.step]
    cases s.loop.errorHandlerTask g failedId with
    | none => rfl
    | some task => exact (s.loop.addTask task).channels_matchCachedWrites
  | submit taskId =>
    rw [CachedSuperstep.step]
    split_ifs <;> rfl
  | attempt taskId =>
    rw [CachedSuperstep.step]
    split_ifs <;> rfl
  | write taskId w =>
    rw [CachedSuperstep.step]
    split_ifs <;> rfl
  | cacheSet key writes => rfl

-- The end of a task that is left to its handler.
theorem routes_step {e : CacheEvent} (h : routes g s e = some id) :
    Finished (s.step g e) id ∧
      channelWrites s.loop.channels ((s.step g e).loop.writesOf id) =
        channelWrites s.loop.channels (s.loop.writesOf id) := by
  cases e with
  | commit taskId raised =>
    obtain ⟨exc, rfl⟩ : ∃ exc, raised = some (.error exc) := by
      cases raised with
      | none => cases h
      | some r =>
        cases r with
        | error exc => exact ⟨exc, rfl⟩
        | _ => cases h
    rw [routes] at h
    cases ht : s.loop.task? taskId with
    | none =>
      rw [ht] at h
      cases h
    | some t =>
      rw [ht] at h
      simp only at h
      split_ifs at h with hrun
      obtain rfl := Option.some.inj h
      have hw := PregelLoop.writesOf_commit g ht (some (.error exc)) s.loop.cache
      have hbefore : s.loop.writesOf taskId = t.writes := by
        rw [PregelLoop.writesOf, ht]
        rfl
      have hstep : s.step g (.commit taskId (some (.error exc))) =
          { s with
            loop := { s.loop.commit g taskId ⟨t.writes, some (.error exc)⟩ with
              cache := s.loop.cache }
            submitted := s.submitted.filter (· ≠ taskId)
            attempting := s.attempting.filter (· ≠ taskId)
            own := Function.update s.own taskId
              (s.own taskId ++ Attempt.markers g t.name ⟨t.writes, some (.error exc)⟩) } := by
        rw [CachedSuperstep.step, ht]
        simp only
        rw [if_pos hrun.1]
      rw [hstep]
      refine ⟨⟨by simp, by simp, ?_⟩, ?_⟩
      · rw [hw]
        exact List.append_ne_nil_of_right_ne_nil _ (List.cons_ne_nil _ _)
      · rw [hw, hbefore, channelWrites_append, Attempt.channelWrites_markers, List.append_nil]
  | _ => cases h

end Steps

section Runs

variable {g : Graph C} {s : RoutedSuperstep C Ver}

theorem mem_routed_step {e : CacheEvent} {id : String} (h : id ∈ (s.step g e).routed) :
    (id ∈ s.routed ∧ creates g s.superstep e ≠ some id) ∨ routes g s.superstep e = some id := by
  rcases List.mem_append.mp h with hold | hnew
  · obtain ⟨hmem, hne⟩ := List.mem_filter.mp hold
    exact Or.inl ⟨hmem, of_decide_eq_true hne⟩
  · exact Or.inr (Option.mem_toList.mp hnew)

theorem finished_step (h : ∀ id ∈ s.routed, Finished s.superstep id) (e : CacheEvent) :
    ∀ id ∈ (s.step g e).routed, Finished (s.step g e).superstep id := by
  intro id hid
  rcases mem_routed_step hid with ⟨hold, hne⟩ | hnew
  · exact ((h id hold).step e hne).1
  · exact (routes_step hnew).1

theorem good_step_iff (h : ∀ id ∈ s.routed, Finished s.superstep id) (hg : s.Good)
    (e : CacheEvent) : (s.step g e).Good ↔ s.Ok g e := by
  rw [good_iff] at hg ⊢
  have hchannels : (s.step g e).superstep.loop.channels = s.superstep.loop.channels :=
    channels_step g s.superstep e
  rw [hchannels]
  constructor
  · intro hall id hroutes
    have hmem : id ∈ (s.step g e).routed :=
      List.mem_append_right _ (Option.mem_toList.mpr hroutes)
    rw [← (routes_step hroutes).2]
    exact hall id hmem
  · intro hok id hid
    rcases mem_routed_step hid with ⟨hold, hne⟩ | hnew
    · have hw : (s.step g e).superstep.loop.writesOf id = s.superstep.loop.writesOf id :=
        ((h id hold).step e hne).2
      rw [hw]
      exact hg id hold
    · exact (routes_step hnew).2.trans (hok id hnew)

omit [BaseChannel C] in
theorem finished_begin (l : PregelLoop C Ver) :
    ∀ id ∈ (begin g l).routed, Finished (begin g l).superstep id := by
  intro id hid
  obtain ⟨t, ht, -, w, hw, -⟩ := PregelLoop.mem_routedTasks.mp hid
  refine ⟨List.not_mem_nil, List.not_mem_nil, fun hnil => ?_⟩
  have hwrites : l.writesOf id = t.writes := by
    rw [PregelLoop.writesOf, ht]
    rfl
  rw [← hwrites, show l.writesOf id = [] from hnil] at hw
  cases hw

-- Every superstep from its tick on, in a new run or a resumed one.
theorem failed_writes_dropped_iff [LinearOrder Ver] [OrderBot Ver] {l l' : PregelLoop C Ver} (h : l.tick g = (l', .proceed))
    (events : List CacheEvent) :
    Always (step g) Good (begin g l') events ↔
      (∀ id ∈ l'.routedTasks g,
        channelWrites l.channels (taskWritesOf id l.checkpointPendingWrites) = []) ∧
      EachStep (step g) (Ok g) (begin g l') events := by
  have hchannels : l'.channels = l.channels := by rw [PregelLoop.proceeds h]
  have hstart : (begin g l').Good ↔ ∀ id ∈ l'.routedTasks g,
      channelWrites l.channels (taskWritesOf id l.checkpointPendingWrites) = [] := by
    rw [good_iff]
    refine forall₂_congr (fun id hid => ?_)
    have hrestored := PregelLoop.restores_tick h hid
    rw [← hrestored, ← hchannels]
    rfl
  have hstep (s : RoutedSuperstep C Ver) (e : CacheEvent)
      (hs : ∀ id ∈ s.routed, Finished s.superstep id) (hg : s.Good) :
      (s.step g e).Good ↔ s.Ok g e := good_step_iff hs hg e
  have hinv (s : RoutedSuperstep C Ver) (e : CacheEvent)
      (hs : ∀ id ∈ s.routed, Finished s.superstep id) (_ : s.Good) (_ : (s.step g e).Good) :
      ∀ id ∈ (s.step g e).routed, Finished (s.step g e).superstep id := finished_step hs e
  have hiff (hg : (begin g l').Good) :
      Always (step g) Good (begin g l') events ↔ EachStep (step g) (Ok g) (begin g l') events :=
    always_iff_eachStep hstep hinv events (finished_begin l') hg
  rw [← hstart]
  constructor
  · intro hall
    have hg := hall [] List.nil_prefix
    exact ⟨hg, (hiff hg).mp hall⟩
  · rintro ⟨hg, heach⟩
    exact (hiff hg).mpr heach

def handledGraph : Graph Channel :=
  { Graph.ofSpecs (Dict.ofList
      [("a", Channel.lastValue ⟨"a", none⟩), ("b", Channel.lastValue ⟨"b", none⟩)]) with
    nodes := Dict.ofList
      [("n", ⟨.single "a", ["a"], none, none, none, some "h", true⟩),
        ("h", ⟨.single "a", [], none, none, none, none, true⟩)]
    triggerToNodes := Dict.ofList [("a", ["n"])] }

def handledThread : Thread Channel Nat :=
  run (Thread.step handledGraph (.single "a")) Thread.fresh
    [.enter (LoopConfig.plain .sync) none "0" none,
      .first (.value (.int 7)) false successor successor "1"]

def handledTask : String := "1n0n__pregel_pulla"

-- The node raises after it has written, or before.
def raisingEvents (ws : List Write) : List CacheEvent :=
  [.submit handledTask, .attempt handledTask] ++ ws.map (CacheEvent.write handledTask) ++
    [.commit handledTask (some (.error (.str "boom"))), .scheduleErrorHandler handledTask]

theorem failed_write_applied :
    ¬ ∀ l l', handledThread.loop = some l → l.tick handledGraph = (l', .proceed) →
      ∀ events, Always (step handledGraph) Good (begin handledGraph l') events := by
  intro h
  obtain ⟨l, hl⟩ : ∃ l, l = handledThread.loop.get (by decide) := ⟨_, rfl⟩
  have htick : l.tick handledGraph = ((l.tick handledGraph).1, .proceed) :=
    Prod.ext rfl (by rw [hl]; decide +kernel)
  have hall := h l _ (by rw [hl, Option.some_get]) htick (raisingEvents [("b", .int 1)])
    (raisingEvents [("b", .int 1)]) (List.prefix_refl _)
  have hnil := (good_iff _).mp hall handledTask (by rw [hl]; decide +kernel)
  rw [hl] at hnil
  revert hnil
  decide +kernel

theorem idle_failure_dropped : ∃ l l', handledThread.loop = some l ∧
    l.tick handledGraph = (l', .proceed) ∧
    Always (step handledGraph) Good (begin handledGraph l') (raisingEvents []) := by
  obtain ⟨l, hl⟩ : ∃ l, l = handledThread.loop.get (by decide) := ⟨_, rfl⟩
  have htick : l.tick handledGraph = ((l.tick handledGraph).1, .proceed) :=
    Prod.ext rfl (by rw [hl]; decide +kernel)
  refine ⟨l, _, by rw [hl, Option.some_get], htick, ?_⟩
  refine (failed_writes_dropped_iff htick (raisingEvents [])).mpr ⟨?_, ?_⟩
  · have hnone : (l.tick handledGraph).1.routedTasks handledGraph = [] := by
      rw [hl]
      decide +kernel
    intro id hid
    rw [hnone] at hid
    cases hid
  · refine eachStep_cons.mpr ⟨(fun _ h => by cases h), eachStep_cons.mpr
      ⟨(fun _ h => by cases h), eachStep_cons.mpr ⟨fun id h => ?_, eachStep_cons.mpr
        ⟨(fun _ h => by cases h), eachStep_nil⟩⟩⟩⟩
    obtain ⟨s, hs⟩ : ∃ s, s = run (step handledGraph) (begin handledGraph (l.tick handledGraph).1)
      [.submit handledTask, .attempt handledTask] := ⟨_, rfl⟩
    have hroutes : routes handledGraph s.superstep
        (.commit handledTask (some (.error (.str "boom")))) = some handledTask := by
      rw [hs, hl]
      decide +kernel
    have hsame : routes handledGraph s.superstep
        (.commit handledTask (some (.error (.str "boom")))) = some id := by
      rw [hs]
      exact h
    obtain rfl := Option.some.inj (hroutes.symm.trans hsame)
    have hnil : channelWrites s.superstep.loop.channels (s.superstep.loop.writesOf handledTask) =
        [] := by
      rw [hs, hl]
      decide +kernel
    rw [hs] at hnil
    exact hnil

end Runs

end RoutedSuperstep

end LangGraph
