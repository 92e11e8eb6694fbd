import LangGraph.Pregel.Committed

namespace LangGraph

open Collections

namespace PregelLoop

section Flavour

variable {C Ver : Type}

-- The sync and the async loop share every method but the two that submit work.
def withAsync (b : Bool) (l : PregelLoop C Ver) : PregelLoop C Ver :=
  { l with config := { l.config with asyncLoop := b } }

variable (b : Bool) (l : PregelLoop C Ver)

@[simp] theorem withAsync_checkpoint : (l.withAsync b).checkpoint = l.checkpoint := rfl
@[simp] theorem withAsync_channels : (l.withAsync b).channels = l.channels := rfl
@[simp] theorem withAsync_tasks : (l.withAsync b).tasks = l.tasks := rfl
@[simp] theorem withAsync_cache : (l.withAsync b).cache = l.cache := rfl
@[simp] theorem withAsync_submitted : (l.withAsync b).submitted = l.submitted := rfl
@[simp] theorem withAsync_step : (l.withAsync b).step = l.step := rfl
@[simp] theorem withAsync_stop : (l.withAsync b).stop = l.stop := rfl
@[simp] theorem withAsync_isReplaying : (l.withAsync b).isReplaying = l.isReplaying := rfl
@[simp] theorem withAsync_durability :
    (l.withAsync b).config.durability = l.config.durability := rfl
@[simp] theorem withAsync_asyncLoop : (l.withAsync b).config.asyncLoop = b := rfl
@[simp] theorem withAsync_pending :
    (l.withAsync b).checkpointPendingWrites = l.checkpointPendingWrites := rfl
@[simp] theorem withAsync_metadata :
    (l.withAsync b).checkpointMetadata = l.checkpointMetadata := rfl

theorem withAsync_task? (taskId : String) : (l.withAsync b).task? taskId = l.task? taskId := rfl

end Flavour

section Cache

variable {C Ver : Type}

def storeEntry (cache : Option WritesCache) (entry : Option (CacheKey × List Write)) :
    Option WritesCache :=
  match cache, entry with
  | some cache, some e => some (cache.set e.1 e.2)
  | cache, _ => cache

theorem storeEntry_none (cache : Option WritesCache) : storeEntry cache none = cache := by
  cases cache <;> rfl

theorem cacheWrites_eq (taskId : String) (writes : List Write) (l : PregelLoop C Ver) :
    l.cacheWrites taskId writes =
      { l with cache := storeEntry l.cache (l.cacheEntry taskId writes) } := by
  rw [cacheWrites, cacheEntry]
  cases hc : l.cache with
  | none => exact congrArg (fun cache => { l with cache := cache }) hc
  | some cache =>
    have hself : { l with cache := some cache } = l := by rw [← hc]
    cases l.task? taskId with
    | none => exact hself.symm
    | some t =>
      simp only
      cases t.cacheKey with
      | none => exact hself.symm
      | some key =>
        simp only
        split_ifs
        · exact hself.symm
        · rfl

theorem cacheEntry_of_no_task {taskId : String} (writes : List Write) {l : PregelLoop C Ver}
    (h : l.task? taskId = none) : l.cacheEntry taskId writes = none := by
  rw [cacheEntry, h]
  cases l.cache <;> rfl

end Cache

section Writes

variable {C Ver : Type} [BaseChannel C]

def recordWrites (g : Graph C) (taskId : String) (batch : List Write) (l : PregelLoop C Ver) :
    PregelLoop C Ver :=
  let writes := dedupWrites batch
  let toSave := sanitizeWrites g.specs l.channels
    (writesToSave taskId l.checkpointPendingWrites writes)
  { l with
    checkpointPendingWrites := keptWrites taskId l.checkpointPendingWrites ++
      writes.map (fun w : Write => PendingWrite.mk taskId w.1 w.2)
    submitted :=
      if l.config.durability = .exit then l.submitted
      else l.submitted ++ [.putWrites l.checkpoint.id toSave taskId (l.taskPath taskId)] }

theorem putWrites_cons (g : Graph C) (taskId : String) (w : Write) (ws : List Write)
    (l : PregelLoop C Ver) :
    l.putWrites g taskId (w :: ws) =
      (l.recordWrites g taskId (w :: ws)).cacheWrites taskId (w :: ws) := by
  rw [putWrites, recordWrites]
  · by_cases h : l.config.durability = .exit
    · simp only [h, if_true]
    · simp only [h, if_false]
      rfl
  · simp

theorem cacheEntry_recordWrites (g : Graph C) (taskId : String) (batch writes : List Write)
    (l : PregelLoop C Ver) :
    (l.recordWrites g taskId batch).cacheEntry taskId writes = l.cacheEntry taskId writes := rfl

theorem putWrites_withAsync (g : Graph C) (taskId : String) (batch : List Write) (b : Bool)
    (l : PregelLoop C Ver)
    (h : batch ≠ [] → (l.withAsync b).cacheEntry taskId batch = l.cacheEntry taskId batch) :
    (l.withAsync b).putWrites g taskId batch = (l.putWrites g taskId batch).withAsync b := by
  cases batch with
  | nil => rfl
  | cons w ws =>
    have hentry := h (List.cons_ne_nil w ws)
    rw [putWrites_cons, putWrites_cons, cacheWrites_eq, cacheWrites_eq, cacheEntry_recordWrites,
      cacheEntry_recordWrites, hentry]
    rfl

theorem putWrites_withAsync_of_no_task (g : Graph C) {taskId : String} (batch : List Write)
    (b : Bool) {l : PregelLoop C Ver} (h : l.task? taskId = none) :
    (l.withAsync b).putWrites g taskId batch = (l.putWrites g taskId batch).withAsync b := by
  apply putWrites_withAsync
  intro _
  rw [cacheEntry_of_no_task batch h]
  exact cacheEntry_of_no_task batch h

omit [BaseChannel C] in
theorem setTaskWrites_withAsync (taskId : String) (writes : List Write) (b : Bool)
    (l : PregelLoop C Ver) :
    (l.withAsync b).setTaskWrites taskId writes = (l.setTaskWrites taskId writes).withAsync b := rfl

def committed (g : Graph C) (taskId : String) (a : Attempt) (l : PregelLoop C Ver) :
    Option (CacheKey × List Write) :=
  (l.task? taskId).bind (fun t =>
    if a.savedWrites g t.name = [] then none
    else (l.setTaskWrites taskId (a.taskWrites g t.name)).cacheEntry taskId
      (a.savedWrites g t.name))

theorem commit_withAsync (g : Graph C) (taskId : String) (a : Attempt) (b : Bool)
    (l : PregelLoop C Ver) (h : (l.withAsync b).committed g taskId a = l.committed g taskId a) :
    (l.withAsync b).commit g taskId a = (l.commit g taskId a).withAsync b := by
  rw [committed, committed, withAsync_task?] at h
  rw [commit, commit, withAsync_task?]
  cases ht : l.task? taskId with
  | none => rfl
  | some t =>
    rw [ht, Option.bind_some, Option.bind_some] at h
    simp only
    rw [setTaskWrites_withAsync, putWrites_withAsync]
    intro hne
    rwa [if_neg hne, if_neg hne, setTaskWrites_withAsync] at h

omit [BaseChannel C] in
theorem matchCachedWrites_withAsync (b : Bool) (l : PregelLoop C Ver) :
    (l.withAsync b).matchCachedWrites = l.matchCachedWrites.withAsync b := by
  rw [matchCachedWrites, matchCachedWrites, withAsync_cache, withAsync_tasks]
  cases l.cache with
  | none => rfl
  | some cache => cases l.tasks <;> rfl

end Writes

section Steps

variable {C Ver : Type} [BaseChannel C] [LinearOrder Ver] [OrderBot Ver]

theorem tick_withAsync (g : Graph C) (b : Bool) (l : PregelLoop C Ver) :
    (l.withAsync b).tick g = ((l.tick g).1.withAsync b, (l.tick g).2) := by
  have hprepared : (l.withAsync b).preparedTasks g = l.preparedTasks g := rfl
  have hresumed (tasks : Dict String PregelTask) :
      (l.withAsync b).resumedTasks g tasks = l.resumedTasks g tasks := rfl
  have hinterrupt : (l.withAsync b).config.interruptBefore = l.config.interruptBefore := rfl
  rw [tick, tick, hprepared, withAsync_stop, withAsync_step]
  simp only [hresumed, hinterrupt, withAsync_checkpoint]
  split_ifs <;> rfl

theorem putCheckpoint_withAsync (next : GetNextVersion Ver) (newId source : String) (b : Bool)
    (l : PregelLoop C Ver) :
    (l.withAsync b).putCheckpoint next newId source =
      (l.putCheckpoint next newId source).withAsync b := by
  rw [putCheckpoint, putCheckpoint, withAsync_durability]
  split_ifs <;> rfl

theorem afterTick_withAsync (g : Graph C) (next : GetNextVersion Ver) (newId : String) (b : Bool)
    (l : PregelLoop C Ver) :
    (l.withAsync b).afterTick g next newId =
      ((l.afterTick g next newId).1.withAsync b, (l.afterTick g next newId).2) := by
  have hlive : (l.withAsync b).liveTasks = l.liveTasks := rfl
  rw [afterTick, afterTick]
  simp only [hlive, withAsync_checkpoint, withAsync_channels]
  cases (applyWrites l.checkpoint l.channels (l.liveTasks.map PregelTask.taskWrites) (some next)
    g.triggerToNodes).2.2 with
  | error e => rfl
  | ok updated =>
    simp only
    rw [← putCheckpoint_withAsync]
    rfl

theorem suppressInterrupt_withAsync (next : GetNextVersion Ver) (b : Bool)
    (l : PregelLoop C Ver) :
    (l.withAsync b).suppressInterrupt next = (l.suppressInterrupt next).withAsync b := by
  have hdelta : (l.withAsync b).putExitDeltaWrites = l.putExitDeltaWrites.withAsync b := by
    rw [putExitDeltaWrites, putExitDeltaWrites]
    have hsame : (l.withAsync b).channelsToSnapshot (l.withAsync b).channels
          (l.withAsync b).checkpointMetadata.countersSinceDeltaSnapshot =
        l.channelsToSnapshot l.channels l.checkpointMetadata.countersSinceDeltaSnapshot := rfl
    have hexit : (l.withAsync b).exitDeltaWrites = l.exitDeltaWrites := rfl
    have hparent : (l.withAsync b).hasPersistedParent = l.hasPersistedParent := rfl
    simp only [hsame, hexit, hparent]
    generalize (l.exitDeltaWrites.getD []).filter _ = pending
    cases pending with
    | nil => rfl
    | cons w ws => cases l.hasPersistedParent <;> rfl
  have hexit (l : PregelLoop C Ver) :
      (l.withAsync b).putExitCheckpoint next = (l.putExitCheckpoint next).withAsync b := by
    have hid : (l.withAsync b).checkpointIdSaved = l.checkpointIdSaved := rfl
    rw [putExitCheckpoint, putExitCheckpoint, withAsync_checkpoint, hid]
    split_ifs <;> rfl
  rw [suppressInterrupt, suppressInterrupt, withAsync_durability, hdelta, hexit]
  split_ifs <;> rfl

omit [BaseChannel C] [LinearOrder Ver] [OrderBot Ver] in
theorem task?_of_no_tasks {l : PregelLoop C Ver} (h : l.tasks = none) (taskId : String) :
    l.task? taskId = none := by
  rw [task?, h]
  rfl

omit [LinearOrder Ver] [OrderBot Ver] in
theorem putInput_withAsync (g : Graph C) (input : Input) (b : Bool) {l : PregelLoop C Ver}
    (h : l.tasks = none) :
    (l.withAsync b).putInput g input =
      ((l.putInput g input).1.withAsync b, (l.putInput g input).2) := by
  cases input with
  | none => rfl
  | value v => rfl
  | command c =>
    have hput := putWrites_withAsync_of_no_task g c.writes b (task?_of_no_tasks h nullTaskId)
    rw [putInput, putInput, putCommand, putCommand, hput, withAsync_pending]
    split_ifs <;> rfl

omit [LinearOrder Ver] [OrderBot Ver] in
theorem tasks_putInput (g : Graph C) (input : Input) (l : PregelLoop C Ver) :
    (l.putInput g input).1.tasks = l.tasks := by
  cases input with
  | none => rfl
  | value v => rfl
  | command c =>
    rw [putInput, putCommand]
    split_ifs
    · rfl
    · rfl
    · exact tasks_putWrites g nullTaskId c.writes l

omit [OrderBot Ver] in
theorem applyNullWrites_withAsync (g : Graph C) (next : GetNextVersion Ver)
    (updated : Option (Finset String)) (b : Bool) (l : PregelLoop C Ver) :
    (l.withAsync b).applyNullWrites g next updated =
      ((l.applyNullWrites g next updated).1.withAsync b, (l.applyNullWrites g next updated).2) := by
  rw [applyNullWrites, applyNullWrites, withAsync_pending]
  cases taskWritesOf nullTaskId l.checkpointPendingWrites <;> rfl

omit [OrderBot Ver] in
theorem tasks_applyNullWrites (g : Graph C) (next : GetNextVersion Ver)
    (updated : Option (Finset String)) (l : PregelLoop C Ver) :
    (l.applyNullWrites g next updated).1.tasks = l.tasks := by
  rw [applyNullWrites]
  cases taskWritesOf nullTaskId l.checkpointPendingWrites <;> rfl

theorem resumeFirst_withAsync (next : GetNextVersion Ver) (newId : String) (timeTravel b : Bool)
    (l : PregelLoop C Ver) :
    (l.withAsync b).resumeFirst next newId timeTravel =
      (l.resumeFirst next newId timeTravel).withAsync b := by
  have hmark : (l.withAsync b).markInterruptSeen = l.markInterruptSeen.withAsync b := rfl
  have hfork (l : PregelLoop C Ver) :
      (l.withAsync b).forkCheckpoint next newId = (l.forkCheckpoint next newId).withAsync b := by
    rw [forkCheckpoint, forkCheckpoint, ← putCheckpoint_withAsync]
    rfl
  rw [resumeFirst, resumeFirst, hmark, withAsync_metadata, hfork]
  split_ifs <;> rfl

omit [LinearOrder Ver] [OrderBot Ver] in
theorem putDeltaInput_withAsync (g : Graph C) (writes : List Write) (b : Bool)
    {l : PregelLoop C Ver} (h : l.tasks = none) :
    (l.withAsync b).putDeltaInput g writes = (l.putDeltaInput g writes).withAsync b := by
  rw [putDeltaInput, putDeltaInput, withAsync_durability,
    putWrites_withAsync_of_no_task g _ b (task?_of_no_tasks h nullTaskId)]
  split_ifs <;> rfl

omit [OrderBot Ver] in
theorem applyInputWrites_withAsync (g : Graph C) (next : GetNextVersion Ver)
    (tasks : List PregelTaskWrites) (b : Bool) (l : PregelLoop C Ver) :
    (l.withAsync b).applyInputWrites g next tasks =
      ((l.applyInputWrites g next tasks).1.withAsync b, (l.applyInputWrites g next tasks).2) := rfl

theorem inputApplied_withAsync (g : Graph C) (next : GetNextVersion Ver)
    (updated : Option (Finset String)) (writes : List Write) (b : Bool) (l : PregelLoop C Ver) :
    (l.withAsync b).inputApplied g next updated writes =
      ((l.inputApplied g next updated writes).1.withAsync b,
        (l.inputApplied g next updated writes).2) := by
  have hdiscard : (l.withAsync b).discardTasks g updated = l.discardTasks g updated := rfl
  rw [inputApplied, inputApplied, hdiscard]
  exact applyInputWrites_withAsync g next _ b
    { l with
      deltaChannelsWithOverwrite := l.deltaChannelsWithOverwrite ∪ overwritten g.specs writes }

theorem inputFirst_withAsync (g : Graph C) (next : GetNextVersion Ver) (newId : String)
    (updated : Option (Finset String)) (writes : List Write) (b : Bool) {l : PregelLoop C Ver}
    (h : l.tasks = none) :
    (l.withAsync b).inputFirst g next newId updated writes =
      ((l.inputFirst g next newId updated writes).1.withAsync b,
        (l.inputFirst g next newId updated writes).2) := by
  have htasks : (l.inputApplied g next updated writes).1.tasks = none :=
    (tasks_inputApplied g next updated writes l).trans h
  rw [inputFirst_eq, inputFirst_eq, inputApplied_withAsync]
  cases (l.inputApplied g next updated writes).2 with
  | error e => rfl
  | ok updated =>
    simp only
    rw [putDeltaInput_withAsync g writes b htasks, ← putCheckpoint_withAsync]
    rfl

theorem enterInput_withAsync (g : Graph C) (inputKeys : InputKeys) (next : GetNextVersion Ver)
    (newId : String) (updated : Option (Finset String)) (input : Input) (b : Bool)
    {l : PregelLoop C Ver} (h : l.tasks = none) :
    (l.withAsync b).enterInput g inputKeys next newId updated input =
      ((l.enterInput g inputKeys next newId updated input).1.withAsync b,
        (l.enterInput g inputKeys next newId updated input).2) := by
  cases input with
  | none => rfl
  | command c => rfl
  | value v =>
    rw [enterInput, enterInput]
    cases mapInput inputKeys v with
    | nil => rfl
    | cons w ws => exact inputFirst_withAsync g next newId updated (w :: ws) b h

theorem first_withAsync (g : Graph C) (inputKeys : InputKeys) (input : Input) (sameRun : Bool)
    (nextNull next : GetNextVersion Ver) (newId : String) (b : Bool) {l : PregelLoop C Ver}
    (h : l.tasks = none) :
    (l.withAsync b).first g inputKeys input sameRun nextNull next newId =
      ((l.first g inputKeys input sameRun nextNull next newId).1.withAsync b,
        (l.first g inputKeys input sameRun nextNull next newId).2) := by
  have hresuming : (l.withAsync b).isResuming input sameRun = l.isResuming input sameRun := rfl
  have htravel : (l.withAsync b).dropTimeTravel input = l.dropTimeTravel input := rfl
  have hdrop : (l.withAsync b).dropResumed (l.dropTimeTravel input) =
      (l.dropResumed (l.dropTimeTravel input)).withAsync b := by
    rw [dropResumed, dropResumed]
    split_ifs <;> rfl
  have hdropped : (l.dropResumed (l.dropTimeTravel input)).tasks = none := by
    rw [dropResumed]
    split_ifs <;> exact h
  rw [first, first, hresuming, htravel, hdrop, putInput_withAsync g input b hdropped]
  have htasks := (tasks_putInput g input (l.dropResumed (l.dropTimeTravel input))).trans hdropped
  generalize (l.dropResumed (l.dropTimeTravel input)).putInput g input = r at htasks
  obtain ⟨m, e⟩ := r
  cases e with
  | some e => rfl
  | none =>
    have hstored : (m.withAsync b).storedUpdates = m.storedUpdates := rfl
    have hnull := (tasks_applyNullWrites g nextNull m.storedUpdates m).trans htasks
    simp only [andThen, hstored, applyNullWrites_withAsync]
    generalize m.applyNullWrites g nextNull m.storedUpdates = q at hnull
    obtain ⟨n, r⟩ := q
    cases r with
    | error e => rfl
    | ok updated =>
      simp only
      by_cases hr : l.isResuming input sameRun = true
      · rw [if_pos hr, if_pos hr, resumeFirst_withAsync]
        rfl
      · rw [if_neg hr, if_neg hr]
        exact enterInput_withAsync g inputKeys next newId updated input b hnull

end Steps

end PregelLoop

end LangGraph
