import LangGraph.Channels.Channel
import LangGraph.Pregel.Prepared
import LangGraph.Pregel.Superstep

namespace LangGraph

open Collections

theorem perm_map_filter_iff {α β : Type} {f : α → β} {p q : α → Bool} {l m : List α}
    (hlm : l.Perm m) (hpq : ∀ a, p a = true → q a = true) :
    ((l.filter p).map f).Perm ((m.filter q).map f) ↔ ∀ a ∈ m, q a = true → p a = true := by
  have hfilter : ((l.filter p).map f).Perm ((m.filter p).map f) := (hlm.filter p).map f
  have hsub : (m.filter p).Sublist (m.filter q) := by
    have heq : m.filter p = (m.filter q).filter p := by
      rw [List.filter_filter]
      refine List.filter_congr (fun a _ => ?_)
      cases hp : p a with
      | false => simp
      | true => simp [hpq a hp]
    rw [heq]
    exact List.filter_sublist
  constructor
  · intro h a ha hq
    have hlen : (m.filter p).length = (m.filter q).length := by
      have hperm := (hfilter.symm.trans h).length_eq
      simpa using hperm
    have heq : m.filter p = m.filter q := hsub.eq_of_length hlen
    have hmem : a ∈ m.filter p := heq ▸ List.mem_filter.mpr ⟨ha, hq⟩
    exact (List.mem_filter.mp hmem).2
  · intro h
    have heq : m.filter p = m.filter q := by
      refine List.filter_congr (fun a ha => ?_)
      rw [Bool.eq_iff_iff]
      exact ⟨hpq a, h a ha⟩
    rw [← heq]
    exact hfilter

structure StateSnapshot (C : Type) where
  channels : Dict String C
  next : List String

variable {C Ver : Type} [BaseChannel C] [LinearOrder Ver] [OrderBot Ver]

section GetState

def stateTasks (g : Graph C) (saved : CheckpointTuple Ver) (channels : Dict String C) :
    Dict String PregelTask :=
  g.prepareNextTasks saved.checkpoint channels (saved.metadata.step + 1) true none none

def snapshotWrites (pending : List PendingWrite) (t : PregelTask) : PregelTask :=
  { t with writes := t.writes ++
      (taskWritesOf t.id pending).filter (fun w => w.1 ∉ [Key.error, Key.interrupt]) }

def applyNullRows (g : Graph C) (saved : CheckpointTuple Ver) (channels : Dict String C) :
    Checkpoint Ver × Dict String C × Except UpdateError (Finset String) :=
  match taskWritesOf nullTaskId saved.pendingWrites with
  | [] => (saved.checkpoint, channels, .ok ∅)
  | writes =>
      applyWrites saved.checkpoint channels [⟨[], Key.input, writes, []⟩] none g.triggerToNodes

def prepareStateSnapshot (g : Graph C) (applyPendingWrites : Bool) (saver : InMemorySaver Ver)
    (saved : CheckpointTuple Ver) : Except UpdateError (StateSnapshot C) :=
  match channelsFromCheckpoint g.specs (some saver) saved.checkpoint with
  | .error e => .error e
  | .ok channels =>
      let nextTasks := stateTasks g saved channels
      let r := applyNullRows g saved channels
      match r.2.2 with
      | .error e => .error e
      | .ok _ =>
          let nextTasks :=
            if applyPendingWrites then nextTasks.mapValues (snapshotWrites saved.pendingWrites)
            else nextTasks
          let next := (nextTasks.values.filter (fun t => t.writes = [])).map PregelTask.name
          match nextTasks.values.filter (fun t => t.writes ≠ []) with
          | [] => .ok ⟨r.2.1, next⟩
          | tasks =>
              let r := applyWrites r.1 r.2.1 (tasks.map PregelTask.taskWrites) none g.triggerToNodes
              match r.2.2 with
              | .error e => .error e
              | .ok _ => .ok ⟨r.2.1, next⟩

-- Pending writes are applied unless the config names a checkpoint.
def getState (g : Graph C) (checkpointId : Option String) (saver : InMemorySaver Ver) :
    Except UpdateError (StateSnapshot C) :=
  match saver.getTuple checkpointId with
  | none => .ok ⟨∅, []⟩
  | some saved => prepareStateSnapshot g checkpointId.isNone saver saved

end GetState

namespace PregelLoop

-- `stream(None)` up to its first tick.
def resume (g : Graph C) (config : LoopConfig) (cache : Option WritesCache) (freshId : String)
    (inputKeys : InputKeys) (sameRun : Bool) (nextNull next : GetNextVersion Ver)
    (newId : String) (checkpointId : Option String) (saver : InMemorySaver Ver) :
    Except LoopError (PregelLoop C Ver) :=
  match enter g config cache freshId checkpointId saver with
  | .error e => .error e
  | .ok l =>
      match l.first g inputKeys .none sameRun nextNull next newId with
      | (_, some e) => .error e
      | (l, none) => .ok l

def firstSuperstep (g : Graph C) (l : PregelLoop C Ver) : List PregelTask :=
  match l.tick g with
  | (l, .proceed) => l.matchCachedWrites.runnable
  | _ => []

end PregelLoop

def rowsOf (pending : List PendingWrite) (t : PregelTask) : String × List Write :=
  (t.name, taskWritesOf t.id pending)

def listedRows (r : String × List Write) : Bool :=
  r.2.filter (fun w => w.1 ∉ [Key.error, Key.interrupt]) = []

def runRows (r : String × List Write) : Bool :=
  r.2.filter (fun w => w.1 ∉ controlChannels) = []

theorem runRows_of_listedRows {r : String × List Write} (h : listedRows r = true) :
    runRows r = true := by
  simp only [listedRows, runRows, decide_eq_true_eq, List.filter_eq_nil_iff] at h ⊢
  intro w hw hmem
  refine h w hw ?_
  simp only [controlChannels, List.mem_cons, List.not_mem_nil, or_false, not_or] at hmem ⊢
  simp [hmem.1, hmem.2.2.1]

theorem next_getState {g : Graph C} {checkpointId : Option String} {saver : InMemorySaver Ver}
    {saved : CheckpointTuple Ver} {channels : Dict String C} {snapshot : StateSnapshot C}
    (hs : saver.getTuple checkpointId = some saved)
    (hc : channelsFromCheckpoint g.specs (some saver) saved.checkpoint = .ok channels)
    (h : getState g checkpointId saver = .ok snapshot) :
    snapshot.next = ((stateTasks g saved channels).values.filter (fun t =>
      listedRows (rowsOf (if checkpointId.isNone then saved.pendingWrites else []) t))).map
        PregelTask.name := by
  obtain ⟨tasks, ht⟩ : ∃ tasks, tasks = stateTasks g saved channels := ⟨_, rfl⟩
  obtain ⟨pending, hp⟩ : ∃ pending, pending =
    if checkpointId.isNone then saved.pendingWrites else [] := ⟨_, rfl⟩
  have hnext : snapshot.next = (((if checkpointId.isNone then
      tasks.mapValues (snapshotWrites saved.pendingWrites) else tasks).values.filter
        (fun t => t.writes = [])).map PregelTask.name) := by
    simp only [getState, hs, prepareStateSnapshot, hc, ← ht] at h
    split at h
    · cases h
    · split at h
      · cases h
        rfl
      · split at h
        · cases h
        · cases h
          rfl
  have hempty (t : PregelTask) (hmem : t ∈ tasks.values) : t.writes = [] := by
    rw [ht] at hmem
    exact Graph.writes_prepareNextTasks hmem
  rw [hnext, ← ht, ← hp]
  cases hid : checkpointId.isNone with
  | true =>
    rw [hid] at hp
    rw [hp, if_pos rfl, if_pos rfl, Dict.values_mapValues, List.filter_map, List.map_map]
    refine congrArg (List.map PregelTask.name) (List.filter_congr (fun t hmem => ?_))
    simp only [Function.comp_apply, snapshotWrites, hempty t hmem, List.nil_append, listedRows,
      rowsOf]
    exact decide_eq_decide.mpr Iff.rfl
  | false =>
    rw [hid] at hp
    rw [hp, if_neg Bool.false_ne_true, if_neg Bool.false_ne_true]
    refine congrArg (List.map PregelTask.name) (List.filter_congr (fun t hmem => ?_))
    simp [hempty t hmem, listedRows, rowsOf, taskWritesOf]

namespace PregelLoop

variable {g : Graph C}

theorem pending_putCheckpoint (next : GetNextVersion Ver) (newId source : String)
    (l : PregelLoop C Ver) : (l.putCheckpoint next newId source).isReplaying = l.isReplaying ∧
      (l.putCheckpoint next newId source).cache = l.cache := by
  unfold putCheckpoint
  split <;> exact ⟨rfl, rfl⟩

theorem resumeFirst_spec (next : GetNextVersion Ver) (newId : String) (timeTravel : Bool)
    (l : PregelLoop C Ver) :
    (l.resumeFirst next newId timeTravel).isReplaying = l.isReplaying ∧
      (l.resumeFirst next newId timeTravel).cache = l.cache ∧
      (timeTravel = false → (l.resumeFirst next newId timeTravel).checkpointPendingWrites =
        l.checkpointPendingWrites) := by
  unfold resumeFirst
  simp only
  split
  · rename_i htravel
    obtain ⟨hreplay, hcache⟩ := pending_putCheckpoint next newId "fork"
      { l.markInterruptSeen with
        checkpointPendingWrites :=
          l.markInterruptSeen.checkpointPendingWrites.filter (fun w => w.channel ≠ Key.interrupt) }
    refine ⟨hreplay, hcache, fun hfalse => ?_⟩
    rw [hfalse] at htravel
    cases htravel.1
  · exact ⟨rfl, rfl, fun _ => rfl⟩

omit [OrderBot Ver] in
theorem frame_applyNullWrites (g : Graph C) (next : GetNextVersion Ver)
    (updated : Option (Finset String)) (l : PregelLoop C Ver) :
    (l.applyNullWrites g next updated).1.isReplaying = l.isReplaying ∧
      (l.applyNullWrites g next updated).1.cache = l.cache ∧
      (l.applyNullWrites g next updated).1.checkpointPendingWrites =
        l.checkpointPendingWrites := by
  unfold applyNullWrites
  split <;> exact ⟨rfl, rfl, rfl⟩

theorem first_none_spec {inputKeys : InputKeys} {sameRun : Bool}
    {nextNull next : GetNextVersion Ver} {newId : String} {l l' : PregelLoop C Ver}
    (h : (match l.first g inputKeys .none sameRun nextNull next newId with
      | (_, some e) => Except.error e
      | (l, none) => .ok l) = Except.ok l') :
    l.isResuming .none sameRun = true ∧ l'.isReplaying = l.isReplaying ∧ l'.cache = l.cache ∧
      (l.isReplaying = false → l'.checkpointPendingWrites = l.checkpointPendingWrites) := by
  obtain ⟨r, hr⟩ : ∃ r, r = l.first g inputKeys .none sameRun nextNull next newId := ⟨_, rfl⟩
  rw [← hr] at h
  obtain ⟨l₁, _ | e⟩ := r
  · cases h
    have htravel : l.dropTimeTravel .none = l.isReplaying := by simp [dropTimeTravel]
    have hdrop : (l.dropResumed l.isReplaying).isReplaying = l.isReplaying ∧
        (l.dropResumed l.isReplaying).cache = l.cache ∧
        (l.isReplaying = false → l.dropResumed l.isReplaying = l) := by
      unfold dropResumed
      split
      · rename_i hreplay
        exact ⟨rfl, rfl, fun hno => absurd (hreplay.symm.trans hno) (by decide)⟩
      · exact ⟨rfl, rfl, fun _ => rfl⟩
    obtain ⟨hdreplay, hdcache, hdsame⟩ := hdrop
    obtain ⟨hnreplay, hncache, hnpending⟩ :=
      frame_applyNullWrites g nextNull (l.dropResumed l.isReplaying).storedUpdates
        (l.dropResumed l.isReplaying)
    rw [first, htravel] at hr
    simp only [putInput, andThen] at hr
    split at hr
    · cases hr
    · split at hr
      · rename_i hresuming
        obtain ⟨rfl, -⟩ := Prod.mk.inj hr
        obtain ⟨hfreplay, hfcache, hfpending⟩ := resumeFirst_spec next newId l.isReplaying
          ((l.dropResumed l.isReplaying).applyNullWrites g nextNull
            (l.dropResumed l.isReplaying).storedUpdates).1
        refine ⟨hresuming, hfreplay.trans (hnreplay.trans hdreplay),
          hfcache.trans (hncache.trans hdcache), fun hno => ?_⟩
        exact (hfpending hno).trans (hnpending.trans (by rw [hdsame hno]))
      · cases hr
  · cases h

theorem resume_spec {config : LoopConfig} {cache : Option WritesCache} {freshId : String}
    {inputKeys : InputKeys} {sameRun : Bool} {nextNull next : GetNextVersion Ver}
    {newId : String} {checkpointId : Option String} {saver : InMemorySaver Ver}
    {l : PregelLoop C Ver}
    (h : resume g config cache freshId inputKeys sameRun nextNull next newId checkpointId saver =
      .ok l) :
    ∃ saved channels, saver.getTuple checkpointId = some saved ∧
      channelsFromCheckpoint g.specs (some saver) saved.checkpoint = .ok channels ∧
      l.isReplaying = checkpointId.isSome ∧ l.cache = cache ∧
      (checkpointId = none → l.checkpointPendingWrites = saved.pendingWrites) := by
  simp only [resume, enter] at h
  cases hc : channelsFromCheckpoint g.specs (some saver)
      (((saver.getTuple checkpointId).map CheckpointTuple.checkpoint).getD
        (emptyCheckpoint freshId)) with
  | error e => simp [hc] at h
  | ok channels =>
    simp only [hc] at h
    obtain ⟨entered, hentered⟩ : ∃ entered, entered =
      load config cache freshId checkpointId (saver.getTuple checkpointId) channels := ⟨_, rfl⟩
    rw [← hentered] at h
    obtain ⟨hresuming, hl⟩ := first_none_spec h
    cases hs : saver.getTuple checkpointId with
    | none =>
      rw [hentered, hs] at hresuming
      cases hresuming
    | some saved =>
      rw [hs] at hc
      obtain ⟨hreplay, hcache, hpending⟩ := hl
      rw [hentered] at hreplay hcache hpending
      refine ⟨saved, channels, rfl, hc, hreplay, hcache, fun hid => ?_⟩
      rw [hpending (by rw [hid]; rfl), hs]
      rfl

-- The rows that the first tick re-applies: none when a checkpoint is replayed.
def tickRows (l : PregelLoop C Ver) : List PendingWrite :=
  if l.isReplaying then [] else l.checkpointPendingWrites

structure Plain (g : Graph C) (l : PregelLoop C Ver) : Prop where
  steps : l.step ≤ l.stop
  interrupts : shouldInterrupt l.checkpoint l.config.interruptBefore (l.preparedTasks g).values = []
  uncached : ∀ cache, l.cache = some cache → ∀ t ∈ (l.preparedTasks g).values, ∀ k,
    t.cacheKey = some k → cache.getD k [] = []
  unhandled : ∀ f ∈ failedTasks l.tickRows, ∀ t, (l.preparedTasks g).get? f.1 = some t →
    (g.nodes.get? t.name).bind PregelNode.errorHandlerNode = none

theorem mapValues_eq_self {α : Type} {d : Dict String α} {f : α → α}
    (h : ∀ v ∈ d.values, f v = v) : d.mapValues f = d := by
  refine Dict.ext_items ?_
  have hitems : d.items.map (fun p => (p.1, f p.2)) = d.items.map id := by
    refine List.map_congr_left (fun p hp => ?_)
    rw [h p.2 (List.mem_map_of_mem hp)]
    rfl
  rw [List.map_id] at hitems
  exact hitems

omit [BaseChannel C] in
theorem resumeErrorHandlers_eq_self {checkpointId : String} {step : Int}
    {tasks : Dict String PregelTask} {pending : List PendingWrite}
    (h : ∀ f ∈ failedTasks pending, ∀ t, tasks.get? f.1 = some t →
      (g.nodes.get? t.name).bind PregelNode.errorHandlerNode = none) :
    resumeErrorHandlers g checkpointId step pending tasks = tasks := by
  unfold resumeErrorHandlers
  generalize failedTasks pending = failed at h ⊢
  induction failed with
  | nil => rfl
  | cons f fs ih =>
    have hstep : resumeErrorHandler g checkpointId step tasks f = tasks := by
      unfold resumeErrorHandler
      cases ht : tasks.get? f.1 with
      | none => rfl
      | some t => simp only [h f List.mem_cons_self t ht]
    rw [List.foldl_cons, hstep]
    exact ih (fun f' hf => h f' (List.mem_cons_of_mem f hf))

theorem resumedTasks_eq {l : PregelLoop C Ver} (h : l.Plain g) :
    l.resumedTasks g (l.preparedTasks g) = (l.preparedTasks g).mapValues (reapplied l.tickRows) := by
  have hnone : (l.preparedTasks g).mapValues (reapplied []) = l.preparedTasks g :=
    mapValues_eq_self (fun t _ => by simp [reapplied, taskWritesOf])
  have hunhandled := h.unhandled
  cases hr : l.isReplaying with
  | true =>
    simp only [resumedTasks, hr, true_or, if_true, tickRows]
    exact hnone.symm
  | false =>
    simp only [tickRows, hr, Bool.false_eq_true, if_false] at hunhandled ⊢
    simp only [resumedTasks, hr, Bool.false_eq_true, false_or]
    split
    · rename_i hnil
      rw [hnil]
      exact hnone.symm
    · refine resumeErrorHandlers_eq_self (fun f hf t ht => ?_)
      rw [reapplyWritesToSucceededNodes, Dict.get?_mapValues] at ht
      obtain ⟨t₀, ht₀, rfl⟩ := Option.map_eq_some_iff.mp ht
      exact hunhandled f hf t₀ ht₀

omit [BaseChannel C] [LinearOrder Ver] [OrderBot Ver] in
theorem matchCachedWrites_eq {l : PregelLoop C Ver} {tasks : Dict String PregelTask}
    (ht : l.tasks = some tasks)
    (h : ∀ cache, l.cache = some cache → ∀ t ∈ tasks.values, ∀ k, t.cacheKey = some k →
      cache.getD k [] = []) : l.matchCachedWrites = l := by
  cases hc : l.cache with
  | none => simp [matchCachedWrites, hc]
  | some cache =>
    have hsame : tasks.mapValues (fun t =>
        { t with writes := cachedWrites cache (cacheOwners tasks) t }) = tasks := by
      refine mapValues_eq_self (fun t hmem => ?_)
      have hwrites : cachedWrites cache (cacheOwners tasks) t = t.writes := by
        unfold cachedWrites
        cases hk : t.cacheKey with
        | none => rfl
        | some k =>
          simp only
          split
          · rename_i hempty
            rw [h cache hc t hmem k hk, hempty.1]
          · rfl
      rw [hwrites]
    simp only [matchCachedWrites, hc, ht, hsame]
    rw [← ht, ← hc]

theorem names_firstSuperstep {l : PregelLoop C Ver} (h : l.Plain g) :
    (l.firstSuperstep g).map PregelTask.name = ((l.preparedTasks g).values.filter (fun t =>
      runRows (rowsOf l.tickRows t))).map PregelTask.name := by
  have hsteps : ¬ l.stop < l.step := not_lt.mpr h.steps
  by_cases hnil : (l.preparedTasks g).items = []
  · have htick : (l.tick g).2 = .done := by simp [tick, hsteps, hnil]
    have hvalues : (l.preparedTasks g).values = [] := by rw [Dict.values, hnil]; rfl
    unfold firstSuperstep
    split
    · rename_i heq
      rw [heq] at htick
      cases htick
    · rw [hvalues]
      rfl
  · obtain ⟨tasks, htasks⟩ : ∃ tasks, tasks =
      (l.preparedTasks g).mapValues (reapplied l.tickRows) := ⟨_, rfl⟩
    have hinterrupt : shouldInterrupt l.checkpoint l.config.interruptBefore tasks.values = [] := by
      have hbefore := h.interrupts
      rw [htasks, Dict.values_mapValues]
      unfold shouldInterrupt at hbefore ⊢
      split
      · rename_i hupdates
        rw [if_pos hupdates] at hbefore
        rw [List.filter_map, List.map_eq_nil_iff]
        exact hbefore
      · rfl
    have htick : l.tick g = ({ l with tasks := some tasks }, .proceed) := by
      simp only [tick, if_neg hsteps, if_neg hnil, resumedTasks_eq h, ← htasks, hinterrupt,
        ne_eq, not_true_eq_false, if_false]
    have hcached : ({ l with tasks := some tasks } : PregelLoop C Ver).matchCachedWrites =
        { l with tasks := some tasks } := by
      refine matchCachedWrites_eq rfl (fun cache hc t hmem k hk => ?_)
      rw [htasks, Dict.values_mapValues] at hmem
      obtain ⟨t₀, hmem₀, rfl⟩ := List.mem_map.mp hmem
      exact h.uncached cache hc t₀ hmem₀ k hk
    simp only [firstSuperstep, htick, hcached, runnable, Option.map_some, Option.getD_some]
    rw [htasks, Dict.values_mapValues, List.filter_map, List.map_map]
    refine congrArg (List.map PregelTask.name) (List.filter_congr (fun t hmem => ?_))
    have hempty : t.writes = [] := Graph.writes_prepareNextTasks hmem
    simp only [Function.comp_apply, reapplied, hempty, List.nil_append, runRows, rowsOf]
    exact decide_eq_decide.mpr Iff.rfl

end PregelLoop

def SameTasks (pending : List PendingWrite) (saved prepared : Dict String PregelTask) : Prop :=
  (saved.values.map (rowsOf pending)).Perm (prepared.values.map (rowsOf pending))

-- No task that runs has a row of the kinds that only `get_state` takes for a result.
def Unhidden (pending : List PendingWrite) (prepared : Dict String PregelTask) : Prop :=
  ∀ t ∈ prepared.values, runRows (rowsOf pending t) = true → listedRows (rowsOf pending t) = true

def askGraph : Graph Channel :=
  { Graph.ofSpecs (Dict.ofList [("a", Channel.lastValue ⟨"a", none⟩)]) with
    nodes := Dict.ofList [("n", ⟨.single "a", ["a"], none, none, none, none, true⟩)]
    triggerToNodes := Dict.ofList [("a", ["n"])] }

def askSaver (rows : List Write) : InMemorySaver Nat :=
  ((InMemorySaver.empty).put none
    ⟨"1", Dict.ofList [("a", .value (.int 7))], Dict.ofList [("a", 1)], ∅, none⟩ ⟨"loop", 0, ∅⟩
    (Dict.ofList [("a", 1)])).putWrites "1" rows "1n1n__pregel_pulla" ""

def askResume (rows : List Write) : Except LoopError (PregelLoop Channel Nat) :=
  PregelLoop.resume askGraph (LoopConfig.plain .sync) none "0" (.single "a") false successor
    successor "2" none (askSaver rows)

def askLoop (rows : List Write) : PregelLoop Channel Nat :=
  (askResume rows).toOption.getD (PregelLoop.load (LoopConfig.plain .sync) none "0" none none ∅)

def askSnapshot (rows : List Write) : StateSnapshot Channel :=
  (getState askGraph none (askSaver rows)).toOption.getD ⟨∅, []⟩

def interruptedRows : List Write := [(Key.interrupt, .str "age?")]

end LangGraph
