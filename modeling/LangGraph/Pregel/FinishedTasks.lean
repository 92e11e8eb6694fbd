import LangGraph.Pregel.RoutedFailures

namespace LangGraph

open Collections Transition

variable {C Ver : Type} [BaseChannel C] [LinearOrder Ver] [OrderBot Ver]

-- The runs of a thread at one checkpoint. `started`, `running`, `ended` and `failed` are tasks of
-- the run that goes on; `finished` are those that ended in an earlier run and have saved writes.
structure TaskHistory (C Ver : Type) where
  thread : Thread C Ver
  started : Finset String
  running : Finset String
  ended : Finset String
  failed : Finset String
  finished : Finset String

inductive HistoryEvent (Ver : Type) where
  | resume (config : LoopConfig) (cache : Option WritesCache) (freshId : String)
      (checkpointId : Option String) (input : Input) (sameRun : Bool)
      (nextNull next : GetNextVersion Ver) (newId : String)
  | tick
  | matchCachedWrites
  | submit (taskId : String)
  | taskWrites (taskId : String) (writes : List Write)
  | commit (taskId : String) (attempt : Attempt)
  | call (parent : List PathPart) (writeIdx : Nat) (call : Call)
  | scheduleErrorHandler (failedId : String)
  | exit (next : GetNextVersion Ver)

def uncontrolled (ws : List Write) : List Write := ws.filter (fun w => Uncontrolled w)

def Raised.isFailure : Raised → Bool
  | .error _ | .cancelled _ => true
  | .interrupt _ | .bubbleUp => false

namespace PregelLoop

-- The runner leaves a failed task to its node's handler.
def routes (g : Graph C) (taskId : String) (attempt : Attempt) (l : PregelLoop C Ver) : Bool :=
  (l.task? taskId).any (fun t => g.shouldRouteToErrorHandler t.name) &&
    attempt.raised.any Raised.isFailure

def resumedHandler (g : Graph C) (checkpointId : String) (step : Int)
    (tasks : Dict String PregelTask) (failed : String × Value) : Option String := do
  let t ← tasks.get? failed.1
  let handler ← (g.nodes.get? t.name).bind PregelNode.errorHandlerNode
  let h ← prepareNodeErrorHandlerTask g t handler checkpointId step
  return h.id

-- The tasks `_resume_error_handlers_if_applicable` adds.
def resumedHandlers (g : Graph C) (checkpointId : String) (step : Int) :
    List (String × Value) → Dict String PregelTask → List String
  | [], _ => []
  | f :: fs, tasks =>
      (resumedHandler g checkpointId step tasks f).toList ++
        resumedHandlers g checkpointId step fs (resumeErrorHandler g checkpointId step tasks f)

-- The tasks of a tick whose saved writes are not given back.
def unrestored (g : Graph C) (l : PregelLoop C Ver) : List String :=
  if l.stop < l.step then []
  else if l.isReplaying then (l.preparedTasks g).keys
  else resumedHandlers g l.checkpoint.id l.step (failedTasks l.checkpointPendingWrites)
    (reapplyWritesToSucceededNodes l.checkpointPendingWrites (l.preparedTasks g))

end PregelLoop

section Rows

omit [BaseChannel C] [LinearOrder Ver] [OrderBot Ver] in
theorem uncontrolled_ne_nil {ws : List Write} : uncontrolled ws ≠ [] ↔ AnyUncontrolled ws := by
  rw [ne_eq, uncontrolled, List.filter_eq_nil_iff, AnyUncontrolled]
  simp

theorem uncontrolled_idem (ws : List Write) : uncontrolled (uncontrolled ws) = uncontrolled ws := by
  rw [uncontrolled, uncontrolled, List.filter_filter]
  simp

theorem uncontrolled_kept (id : String) {pending : List PendingWrite} {p : PendingWrite → Bool}
    (hp : ∀ w, Uncontrolled w.write → p w = true) :
    uncontrolled (taskWritesOf id (pending.filter p)) = uncontrolled (taskWritesOf id pending) := by
  simp only [uncontrolled, taskWritesOf, List.filter_map, List.filter_filter]
  congr 1
  refine List.filter_congr (fun w _ => ?_)
  by_cases hw : Uncontrolled w.write
  · simp [hp w hw]
  · simp [hw]

end Rows

section Saver

variable {s : InMemorySaver Ver}

omit [OrderBot Ver] in
theorem anyUncontrolled_execAll
    (h : ∀ cid taskId, (writeSlots taskId).Keyed ((s.rows cid).ofTask taskId))
    (calls : List (SaverCall Ver)) {cid taskId : String}
    (hu : AnyUncontrolled ((s.rows cid).writesOf taskId)) :
    AnyUncontrolled (((s.execAll calls).rows cid).writesOf taskId) := by
  induction calls generalizing s with
  | nil => exact hu
  | cons c calls ih =>
    refine ih (s := s.exec c) (Thread.keyed_execAll h [c]) ?_
    cases c with
    | put parent checkpoint metadata versions => exact hu
    | putWrites other ws owner path =>
      have hput : s.exec (.putWrites other ws owner path) = s.putWrites other ws owner path := rfl
      rw [hput]
      by_cases hid : cid = other
      · subst hid
        rw [InMemorySaver.rows_putWrites, WriteRows.writesOf]
        by_cases ht : owner = taskId
        · subst ht
          rw [WriteRows.ofTask_put, anyUncontrolled_map]
          exact (writeSlots owner).exists_save uncontrolled_pinned 0 ws (h cid owner)
            (anyUncontrolled_map.mp hu)
        · rw [WriteRows.ofTask_put_ne ht]
          exact hu
      · rw [InMemorySaver.rows_putWrites_ne s hid]
        exact hu

theorem Thread.saver_step (th : Thread C Ver) (g : Graph C) (inputKeys : InputKeys)
    (e : Event Ver) : ∃ calls, (th.step g inputKeys e).saver = th.saver.execAll calls := by
  unfold Thread.step
  split
  · split
    · exact ⟨_, rfl⟩
    · exact ⟨[], rfl⟩
  · exact ⟨_, rfl⟩
  · split
    · exact ⟨_, rfl⟩
    · exact ⟨_, rfl⟩
  case h_9 =>
    split
    · exact ⟨_, rfl⟩
    · split
      · exact ⟨_, rfl⟩
      · exact ⟨_, rfl⟩
  case h_11 => exact ⟨[], rfl⟩
  all_goals exact ⟨_, rfl⟩

end Saver

namespace PregelLoop

-- What stays of the rows of tasks until the tick of a resumed run.
structure Carries (l l' : PregelLoop C Ver) : Prop where
  pending (id : String) : id ≠ nullTaskId →
    uncontrolled (taskWritesOf id l'.checkpointPendingWrites) =
      uncontrolled (taskWritesOf id l.checkpointPendingWrites)
  calls : ∃ calls, l'.submitted = l.submitted ++ calls ∧
    ∀ id, id ≠ nullTaskId → ∀ c ∈ calls, ¬ c.touches id
  tasks : l'.tasks = l.tasks

section Carries

variable {l l' l'' : PregelLoop C Ver} {g : Graph C}

omit [BaseChannel C] [LinearOrder Ver] [OrderBot Ver] in
theorem Carries.of_same (hp : l'.checkpointPendingWrites = l.checkpointPendingWrites)
    (hs : l'.submitted = l.submitted) (ht : l'.tasks = l.tasks) : Carries l l' :=
  ⟨fun id _ => by rw [hp], ⟨[], by rw [hs, List.append_nil], fun _ _ c hc => by cases hc⟩, ht⟩

omit [BaseChannel C] [LinearOrder Ver] [OrderBot Ver] in
theorem Carries.trans (h : Carries l l') (h' : Carries l' l'') : Carries l l'' := by
  obtain ⟨calls, hcalls, huntouched⟩ := h.calls
  obtain ⟨calls', hcalls', huntouched'⟩ := h'.calls
  refine ⟨fun id hid => (h'.pending id hid).trans (h.pending id hid),
    ⟨calls ++ calls', by rw [hcalls', hcalls, List.append_assoc], fun id hid c hc => ?_⟩,
    h'.tasks.trans h.tasks⟩
  rcases List.mem_append.mp hc with hc | hc
  · exact huntouched id hid c hc
  · exact huntouched' id hid c hc

omit [BaseChannel C] [LinearOrder Ver] [OrderBot Ver] in
theorem carries_filter (l : PregelLoop C Ver) {p : PendingWrite → Bool}
    (hp : ∀ w, Uncontrolled w.write → p w = true) :
    Carries l { l with checkpointPendingWrites := l.checkpointPendingWrites.filter p } :=
  ⟨fun id _ => uncontrolled_kept id hp,
    ⟨[], (List.append_nil _).symm, fun _ _ c hc => by cases hc⟩, rfl⟩

omit [LinearOrder Ver] [OrderBot Ver] in
theorem carries_putNull (batch : List Write) (l : PregelLoop C Ver) :
    Carries l (l.putWrites g nullTaskId batch) := by
  cases batch with
  | nil => exact Carries.of_same rfl rfl rfl
  | cons w ws =>
    obtain ⟨cache, hput⟩ := putWrites_spec g nullTaskId (List.cons_ne_nil w ws) l
    rw [hput]
    refine ⟨fun id hid => ?_, ⟨_, rfl, fun id hid c hc => ?_⟩, rfl⟩
    · rw [taskWritesOf_append, taskWritesOf_kept_ne hid, taskWritesOf_batch_ne hid,
        List.append_nil]
    · rw [batchCalls] at hc
      split_ifs at hc
      · cases hc
      · rw [List.mem_singleton.mp hc]
        exact Ne.symm hid

theorem carries_putCheckpoint (next : GetNextVersion Ver) (newId source : String)
    (l : PregelLoop C Ver) : Carries l (l.putCheckpoint next newId source) := by
  rw [putCheckpoint]
  simp only
  split_ifs
  · exact Carries.of_same rfl rfl rfl
  · refine ⟨fun id _ => rfl, ⟨_, rfl, fun id _ c hc => ?_⟩, rfl⟩
    rw [List.mem_singleton.mp hc]
    exact fun h => h

omit [BaseChannel C] [OrderBot Ver] [LinearOrder Ver] in
theorem uncontrolled_ne {w : PendingWrite} {k : String} (hk : k ∈ controlChannels)
    (hw : Uncontrolled w.write) : decide (w.channel ≠ k) = true := by
  rw [decide_eq_true_eq]
  rintro rfl
  exact hw hk

omit [BaseChannel C] [OrderBot Ver] [LinearOrder Ver] in
theorem carries_dropResumed (timeTravel : Bool) (l : PregelLoop C Ver) :
    Carries l (l.dropResumed timeTravel) := by
  rw [dropResumed]
  split_ifs
  · exact carries_filter l (fun _ => uncontrolled_ne (by decide))
  · exact Carries.of_same rfl rfl rfl

omit [OrderBot Ver] [LinearOrder Ver] in
theorem carries_putInput (input : Input) (l : PregelLoop C Ver) :
    Carries l (l.putInput g input).1 := by
  cases input with
  | none => exact Carries.of_same rfl rfl rfl
  | value v => exact Carries.of_same rfl rfl rfl
  | command c =>
    simp only [putInput, putCommand]
    split_ifs
    · exact Carries.of_same rfl rfl rfl
    · exact Carries.of_same rfl rfl rfl
    · exact carries_putNull c.writes l

omit [OrderBot Ver] in
theorem carries_applyNullWrites (next : GetNextVersion Ver) (updated : Option (Finset String))
    (l : PregelLoop C Ver) : Carries l (l.applyNullWrites g next updated).1 := by
  rw [applyNullWrites]
  split
  · exact Carries.of_same rfl rfl rfl
  · exact Carries.of_same rfl rfl rfl

theorem carries_resumeFirst (next : GetNextVersion Ver) (newId : String) (timeTravel : Bool)
    (l : PregelLoop C Ver) : Carries l (l.resumeFirst next newId timeTravel) := by
  have hmark : Carries l l.markInterruptSeen := Carries.of_same rfl rfl rfl
  rw [resumeFirst]
  split_ifs
  · exact hmark.trans ((carries_filter l.markInterruptSeen
      (fun _ => uncontrolled_ne (by decide))).trans
      (carries_putCheckpoint next newId "fork" _))
  · exact hmark

theorem carries_enterInput (inputKeys : InputKeys) (next : GetNextVersion Ver) (newId : String)
    (updated : Option (Finset String)) (input : Input) (l : PregelLoop C Ver) :
    Carries l (l.enterInput g inputKeys next newId updated input).1 := by
  have hrefl : Carries l l := Carries.of_same rfl rfl rfl
  cases input with
  | none => exact hrefl
  | command c => exact hrefl
  | value v =>
    rw [enterInput]
    cases mapInput inputKeys v with
    | nil => exact hrefl
    | cons w ws =>
      have happlied : Carries l (l.inputApplied g next updated (w :: ws)).1 :=
        Carries.of_same (by simp only [inputApplied, applyInputWrites])
          (by simp only [inputApplied, applyInputWrites]) (tasks_inputApplied g next updated _ l)
      simp only
      rw [inputFirst_eq]
      generalize l.inputApplied g next updated (w :: ws) = r at happlied
      obtain ⟨m, e | updated'⟩ := r
      · exact happlied
      · have hdelta : Carries m (m.putDeltaInput g (w :: ws)) := by
          rw [putDeltaInput]
          split_ifs
          · exact Carries.of_same rfl rfl rfl
          · exact carries_putNull _ m
        have hupdated : Carries (m.putDeltaInput g (w :: ws))
            { m.putDeltaInput g (w :: ws) with updatedChannels := some updated' } :=
          Carries.of_same rfl rfl rfl
        exact happlied.trans (hdelta.trans (hupdated.trans
          (carries_putCheckpoint next newId "input" _)))

theorem carries_first (inputKeys : InputKeys) (input : Input) (sameRun : Bool)
    (nextNull next : GetNextVersion Ver) (newId : String) (l : PregelLoop C Ver) :
    Carries l (l.first g inputKeys input sameRun nextNull next newId).1 := by
  have hput : Carries l ((l.dropResumed (l.dropTimeTravel input)).putInput g input).1 :=
    (carries_dropResumed (l.dropTimeTravel input) l).trans (carries_putInput input _)
  refine andThen_invariant (P := fun m : PregelLoop C Ver => Carries l m) hput (fun m hm => ?_)
  have hnull : Carries l (m.applyNullWrites g nextNull m.storedUpdates).1 :=
    hm.trans (carries_applyNullWrites nextNull m.storedUpdates m)
  simp only
  split
  · exact hnull
  · split
    · have hresumed := hnull.trans (carries_resumeFirst next newId (l.dropTimeTravel input) _)
      exact ⟨hresumed.pending, hresumed.calls, hresumed.tasks⟩
    · exact hnull.trans (carries_enterInput inputKeys next newId _ input _)

end Carries

omit [BaseChannel C] [LinearOrder Ver] [OrderBot Ver] in
theorem writes_errorHandlerTask {g : Graph C} {failedId : String} {task : PregelTask}
    {l : PregelLoop C Ver} (h : l.errorHandlerTask g failedId = some task) : task.writes = [] := by
  rw [errorHandlerTask] at h
  split at h
  · cases h
  · split at h
    · cases h
    · exact (name_errorHandlerTask h).2

section Restored

variable {g : Graph C} {l : PregelLoop C Ver} {id : String}

-- What a task was given back.
def restored (tasks : Dict String PregelTask) (id : String) : Option (List Write) :=
  (tasks.get? id).map (fun t => uncontrolled t.writes)

omit [BaseChannel C] in
theorem restored_resumeErrorHandler (checkpointId : String) (step : Int)
    (tasks : Dict String PregelTask) (failed : String × Value) :
    restored (resumeErrorHandler g checkpointId step tasks failed) id =
      if resumedHandler g checkpointId step tasks failed = some id then some []
      else restored tasks id := by
  rw [resumeErrorHandler, resumedHandler]
  cases ht : tasks.get? failed.1 with
  | none => rfl
  | some t =>
    cases hh : (g.nodes.get? t.name).bind PregelNode.errorHandlerNode with
    | none => simp [hh]
    | some handler =>
      have herror : uncontrolled (t.writes ++ [(Key.error, failed.2)]) = uncontrolled t.writes := by
        rw [uncontrolled, List.filter_append]
        simp [uncontrolled, Uncontrolled, controlChannels]
      have hmarked : restored
          (tasks.set failed.1 { t with writes := t.writes ++ [(Key.error, failed.2)] }) id =
          restored tasks id := by
        rw [restored, restored, Dict.get?_set]
        split_ifs with hk
        · rw [hk, ht, Option.map_some, Option.map_some, herror]
        · rfl
      cases hp : prepareNodeErrorHandlerTask g t handler checkpointId step with
      | none => simpa [hh, hp] using hmarked
      | some h =>
        have hnil := (name_errorHandlerTask hp).2
        simp only [Option.bind_eq_bind, Option.bind_some, hh, hp, Option.pure_def,
          Option.some.injEq]
        by_cases hk : h.id = id
        · subst hk
          rw [if_pos rfl, restored, Dict.get?_set_self, Option.map_some, hnil]
          rfl
        · rw [if_neg hk, ← hmarked, restored, restored, Dict.get?_set_ne _ (Ne.symm hk)]

omit [BaseChannel C] in
theorem restored_resumeErrorHandlers (checkpointId : String) (step : Int)
    (failed : List (String × Value)) (tasks : Dict String PregelTask) :
    restored (failed.foldl (resumeErrorHandler g checkpointId step) tasks) id =
      if id ∈ resumedHandlers g checkpointId step failed tasks then some []
      else restored tasks id := by
  induction failed generalizing tasks with
  | nil => rfl
  | cons f failed ih =>
    rw [List.foldl_cons, ih, restored_resumeErrorHandler, resumedHandlers]
    by_cases hrest : id ∈ resumedHandlers g checkpointId step failed
        (resumeErrorHandler g checkpointId step tasks f)
    · simp [hrest]
    · by_cases hnow : resumedHandler g checkpointId step tasks f = some id
      · simp [hnow]
      · simp [hrest, hnow]

theorem get?_preparedTasks {t : PregelTask} (h : (l.preparedTasks g).get? id = some t) :
    t.id = id ∧ t.writes = [] :=
  ⟨(Graph.mem_prepareNextTasks (Dict.get?_eq_some.mp h)).1.symm,
    Graph.writes_prepareNextTasks (Dict.mem_values.mpr ⟨id, h⟩)⟩

theorem restored_preparedTasks :
    restored (reapplyWritesToSucceededNodes l.checkpointPendingWrites (l.preparedTasks g)) id =
      if id ∈ (l.preparedTasks g).keys then
        some (uncontrolled (taskWritesOf id l.checkpointPendingWrites))
      else none := by
  rw [restored, reapplyWritesToSucceededNodes, Dict.get?_mapValues]
  cases ht : (l.preparedTasks g).get? id with
  | none => rw [if_neg (Dict.get?_eq_none.mp ht), Option.map_none, Option.map_none]
  | some t =>
    obtain ⟨hid, hnil⟩ := get?_preparedTasks ht
    have hmem : id ∈ (l.preparedTasks g).keys := Dict.mem_keys.mpr ⟨t, ht⟩
    rw [if_pos hmem, Option.map_some, Option.map_some, reapplied, hid, hnil, List.nil_append]
    exact congrArg some (uncontrolled_idem _)

omit [BaseChannel C] in
theorem resumedHandlers_empty (checkpointId : String) (step : Int)
    (failed : List (String × Value)) {tasks : Dict String PregelTask} (h : tasks.items = []) :
    resumedHandlers g checkpointId step failed tasks = [] := by
  have hnone (k : String) : tasks.get? k = none := by
    rw [Dict.get?_eq_none, Dict.keys, h]
    exact List.not_mem_nil
  induction failed with
  | nil => rfl
  | cons f failed ih =>
    have hsame : resumeErrorHandler g checkpointId step tasks f = tasks := by
      rw [resumeErrorHandler, hnone]
    rw [resumedHandlers, hsame, ih, resumedHandler, hnone]
    rfl

theorem tick_restored (hlt : ¬ l.stop < l.step)
    (hs : uncontrolled (taskWritesOf id l.checkpointPendingWrites) ≠ []) :
    ∃ tasks, (l.tick g).1 = { l with tasks := some tasks } ∧
      restored tasks id =
        if id ∈ l.unrestored g then some []
        else if id ∈ (l.preparedTasks g).keys then
          some (uncontrolled (taskWritesOf id l.checkpointPendingWrites))
        else none := by
  have hrows : l.checkpointPendingWrites ≠ [] := by
    intro hnil
    rw [hnil] at hs
    exact hs rfl
  rw [tick, if_neg hlt, unrestored, if_neg hlt]
  simp only
  by_cases hnil : (l.preparedTasks g).items = []
  · have hkeys : (l.preparedTasks g).keys = [] := by rw [Dict.keys, hnil]; rfl
    have hreapplied : (reapplyWritesToSucceededNodes l.checkpointPendingWrites
        (l.preparedTasks g)).items = [] := by
      simp only [reapplyWritesToSucceededNodes, Dict.mapValues, hnil, List.map_nil]
    have hnone : (l.preparedTasks g).get? id = none := by
      rw [Dict.get?_eq_none, hkeys]
      exact List.not_mem_nil
    rw [if_pos hnil]
    refine ⟨l.preparedTasks g, rfl, ?_⟩
    rw [restored, hnone, hkeys, resumedHandlers_empty _ _ _ hreapplied]
    simp
  · have htasks : (if shouldInterrupt l.checkpoint l.config.interruptBefore
          (l.resumedTasks g (l.preparedTasks g)).values ≠ [] then
          (({ l with tasks := some (l.resumedTasks g (l.preparedTasks g)) } : PregelLoop C Ver),
            TickResult.interruptBefore)
        else ({ l with tasks := some (l.resumedTasks g (l.preparedTasks g)) }, .proceed)).1 =
        { l with tasks := some (l.resumedTasks g (l.preparedTasks g)) } := by
      split_ifs <;> rfl
    rw [if_neg hnil]
    refine ⟨_, htasks, ?_⟩
    rw [resumedTasks]
    by_cases hr : l.isReplaying = true
    · rw [if_pos (Or.inl hr), if_pos hr, restored]
      cases ht : (l.preparedTasks g).get? id with
      | none =>
        have hno := Dict.get?_eq_none.mp ht
        rw [if_neg hno, if_neg hno]
        rfl
      | some t =>
        have hmem : id ∈ (l.preparedTasks g).keys := Dict.mem_keys.mpr ⟨t, ht⟩
        rw [if_pos hmem, Option.map_some, (get?_preparedTasks ht).2]
        rfl
    · rw [if_neg (fun h => h.elim hr hrows), if_neg hr, resumeErrorHandlers,
        restored_resumeErrorHandlers, restored_preparedTasks]

end Restored

end PregelLoop

namespace TaskHistory

def begin (th : Thread C Ver) : TaskHistory C Ver := ⟨th, ∅, ∅, ∅, ∅, ∅⟩

def saved (checkpointId : String) (s : TaskHistory C Ver) (taskId : String) : List Write :=
  uncontrolled ((s.thread.saver.rows checkpointId).writesOf taskId)

def EntersAt (checkpointId : String) (requested : Option String) (saver : InMemorySaver Ver) :
    Prop :=
  requested.or saver.latest = some checkpointId ∧ (saver.storage.get? checkpointId).isSome

instance (checkpointId : String) (requested : Option String) (saver : InMemorySaver Ver) :
    Decidable (EntersAt checkpointId requested saver) :=
  inferInstanceAs (Decidable (_ ∧ _))

def StaysAt (checkpointId : String) (th : Thread C Ver) : Prop :=
  th.loop.all (fun l => l.checkpoint.id = checkpointId) = true

instance (checkpointId : String) (th : Thread C Ver) : Decidable (StaysAt checkpointId th) :=
  inferInstanceAs (Decidable (_ = _))

def withLoop (l : PregelLoop C Ver) (s : TaskHistory C Ver) : TaskHistory C Ver :=
  { s with thread := { s.thread with loop := some l } }

def start (taskId : String) (s : TaskHistory C Ver) : TaskHistory C Ver :=
  { s with started := insert taskId s.started, running := insert taskId s.running }

-- The runner starts the tasks without writes and a handler task whatever it has. A run that enters
-- another checkpoint or saves a fork is not one of the history.
def step (g : Graph C) (inputKeys : InputKeys) (checkpointId : String) (s : TaskHistory C Ver)
    (e : HistoryEvent Ver) : TaskHistory C Ver :=
  match e, s.thread.loop with
  | .resume config cache freshId requested input sameRun nextNull next newId, none =>
      let entered := s.thread.step g inputKeys (.enter config cache freshId requested)
      let begun := entered.step g inputKeys (.first input sameRun nextNull next newId)
      if EntersAt checkpointId requested s.thread.saver ∧ StaysAt checkpointId begun then
        ⟨begun, ∅, ∅, ∅, ∅, s.finished⟩
      else s
  | .tick, some _ => { s with thread := s.thread.step g inputKeys .tick }
  | .matchCachedWrites, some _ =>
      { s with thread := s.thread.step g inputKeys .matchCachedWrites }
  | .submit taskId, some l =>
      if (l.task? taskId).map PregelTask.writes = some [] then s.start taskId else s
  | .taskWrites taskId writes, some _ =>
      if taskId ∈ s.running then
        { s with thread := s.thread.step g inputKeys (.taskWrites taskId writes) }
      else s
  | .commit taskId attempt, some l =>
      if taskId ∈ s.running then
        { s with
          thread := s.thread.step g inputKeys (.commit taskId attempt)
          running := s.running.erase taskId
          ended := if attempt.raised.isNone then insert taskId s.ended else s.ended
          failed := if l.routes g taskId attempt then insert taskId s.failed else s.failed }
      else s
  | .call parent writeIdx call, some l =>
      if l.tasks.isSome then
        s.withLoop (l.addTask (g.callTask l.checkpoint.id l.step parent writeIdx call))
      else s
  | .scheduleErrorHandler failedId, some l =>
      if failedId ∈ s.failed then
        match l.errorHandlerTask g failedId with
        | none => s
        | some task => (s.withLoop (l.addTask task)).start task.id
      else s
  | .exit next, some l =>
      let left : TaskHistory C Ver :=
        ⟨s.thread.step g inputKeys (.exit next), ∅, ∅, ∅, ∅, s.finished⟩
      if l.checkpoint.id = checkpointId then
        { left with finished := s.finished ∪ s.ended.filter (fun id =>
            id ≠ nullTaskId ∧ left.saved checkpointId id ≠ []) }
      else left
  | _, _ => s

-- A task that finished in an earlier run is not started, and holds its saved writes.
def Good (checkpointId : String) (s : TaskHistory C Ver) : Prop :=
  ∀ id ∈ s.finished, id ∉ s.started ∧
    ∀ l, s.thread.loop = some l → ∀ t, l.task? id = some t →
      uncontrolled t.writes = s.saved checkpointId id

def Ok (g : Graph C) (s : TaskHistory C Ver) : HistoryEvent Ver → Prop
  | .tick => ∀ l, s.thread.loop = some l → ∀ id ∈ l.unrestored g, id ∉ s.finished
  | .call parent writeIdx call => ∀ l, s.thread.loop = some l → l.tasks.isSome →
      l.isReplaying →
        (g.callTask l.checkpoint.id l.step parent writeIdx call).id ∉ s.finished
  | .scheduleErrorHandler failedId => ∀ l, s.thread.loop = some l → failedId ∈ s.failed →
      ∀ task, l.errorHandlerTask g failedId = some task → task.id ∉ s.finished
  | _ => True

structure Inv (checkpointId : String) (s : TaskHistory C Ver) : Prop where
  tidy : s.thread.Tidy
  notNull (id : String) : id ∈ s.finished → id ≠ nullTaskId
  saved (id : String) : id ∈ s.finished → s.saved checkpointId id ≠ []
  loaded (l : PregelLoop C Ver) : s.thread.loop = some l → ∀ id ∈ s.finished,
    uncontrolled (taskWritesOf id l.checkpointPendingWrites) = s.saved checkpointId id
  running : s.running ⊆ s.started

section Steps

variable {g : Graph C} {inputKeys : InputKeys} {checkpointId : String} {s : TaskHistory C Ver}
  {l l' : PregelLoop C Ver}

attribute [local simp] step

section Frame

omit [BaseChannel C] [LinearOrder Ver] [OrderBot Ver]

theorem good_begin (th : Thread C Ver) : (begin th).Good checkpointId :=
  fun _ h => by simp [begin] at h

theorem Inv.withLoop (h : s.Inv checkpointId) (hl : s.thread.loop = some l)
    (hs : l'.submitted = l.submitted)
    (hp : l'.checkpointPendingWrites = l.checkpointPendingWrites) :
    (s.withLoop l').Inv checkpointId where
  tidy := ⟨h.tidy.keyed, fun m hm => by
    rw [← Option.some.inj hm, hs]
    exact h.tidy.idle l hl⟩
  notNull := h.notNull
  saved := h.saved
  loaded m hm id hid := by
    rw [← Option.some.inj hm, hp]
    exact h.loaded l hl id hid
  running := h.running

theorem good_withLoop_iff (h : s.Good checkpointId) :
    (s.withLoop l').Good checkpointId ↔ ∀ id ∈ s.finished, ∀ t, l'.task? id = some t →
      uncontrolled t.writes = s.saved checkpointId id := by
  constructor
  · exact fun h' id hid t ht => (h' id hid).2 l' rfl t ht
  · intro hall id hid
    refine ⟨(h id hid).1, fun m hm t ht => ?_⟩
    rw [← Option.some.inj hm] at ht
    exact hall id hid t ht

theorem good_start_iff (h : s.Good checkpointId) (taskId : String) :
    (s.start taskId).Good checkpointId ↔ taskId ∉ s.finished := by
  constructor
  · exact fun h' hid => (h' taskId hid).1 (Finset.mem_insert_self taskId s.started)
  · intro hno id hid
    refine ⟨fun hmem => ?_, (h id hid).2⟩
    rcases Finset.mem_insert.mp hmem with rfl | hmem
    · exact hno hid
    · exact (h id hid).1 hmem

theorem Inv.start (h : s.Inv checkpointId) (taskId : String) :
    (s.start taskId).Inv checkpointId :=
  ⟨h.tidy, h.notNull, h.saved, h.loaded, Finset.insert_subset_insert taskId h.running⟩

end Frame

omit [BaseChannel C] [OrderBot Ver] in
theorem proceed_idle (h : l.submitted = []) (th : Thread C Ver) :
    th.proceed l = { th with loop := some l } := by
  obtain ⟨saver, loop, log⟩ := th
  rw [Thread.proceed, h]
  simp only [Thread.exec, List.append_nil, Thread.mk.injEq, Option.some.injEq, and_true]
  refine ⟨rfl, ?_⟩
  rw [← h]

theorem inv_begin (before : List (Event Ver)) :
    (begin (run (Thread.step g inputKeys) Thread.fresh before)).Inv checkpointId where
  tidy := Thread.Reachable.tidy ⟨before, rfl⟩
  notNull := fun _ h => by simp [begin] at h
  saved := fun _ h => by simp [begin] at h
  loaded := fun _ _ _ h => by simp [begin] at h
  running := Finset.Subset.refl _

omit [BaseChannel C] [LinearOrder Ver] [OrderBot Ver] in
theorem good_addTask_iff (h : s.Inv checkpointId) (hg : s.Good checkpointId)
    (hl : s.thread.loop = some l) (hts : l.tasks.isSome) {task : PregelTask}
    (hnil : task.writes = []) :
    (s.withLoop (l.addTask task)).Good checkpointId ↔
      (l.isReplaying → task.id ∉ s.finished) := by
  rw [good_withLoop_iff hg]
  have hother {id : String} (hid : id ∈ s.finished) (hne : id ≠ task.id) (t : PregelTask)
      (ht : (l.addTask task).task? id = some t) :
      uncontrolled t.writes = s.saved checkpointId id := by
    rw [PregelLoop.task?_addTask task id hts, if_neg hne] at ht
    exact (hg id hid).2 l hl t ht
  have hadded : (l.addTask task).task? task.id =
      some { task with writes := l.startWrites task } := by
    rw [PregelLoop.task?_addTask task task.id hts, if_pos rfl]
  constructor
  · intro hall hreplay hid
    have hwrites := hall task.id hid _ hadded
    rw [PregelLoop.startWrites, if_pos hreplay, hnil] at hwrites
    exact h.saved task.id hid hwrites.symm
  · intro hok id hid t ht
    by_cases hk : id = task.id
    · subst hk
      rw [hadded] at ht
      have hreplay : ¬ l.isReplaying = true := fun hr => hok hr hid
      rw [← Option.some.inj ht, PregelLoop.startWrites, if_neg hreplay, PregelLoop.reapplied,
        hnil, List.nil_append, ← h.loaded l hl task.id hid]
      exact uncontrolled_idem _
    · exact hother hid hk t ht

theorem good_tick_iff (h : s.Inv checkpointId) (hg : s.Good checkpointId)
    (hl : s.thread.loop = some l) :
    (s.withLoop (l.tick g).1).Good checkpointId ↔ ∀ id ∈ l.unrestored g, id ∉ s.finished := by
  rw [good_withLoop_iff hg]
  by_cases hlt : l.stop < l.step
  · have hsame : (l.tick g).1 = l := by rw [PregelLoop.tick, if_pos hlt]
    rw [hsame, PregelLoop.unrestored, if_pos hlt]
    exact iff_of_true (fun id hid t ht => (hg id hid).2 l hl t ht) (fun _ h => by cases h)
  · have hspec {id : String} (hid : id ∈ s.finished) :=
      PregelLoop.tick_restored (g := g) hlt (by
        rw [h.loaded l hl id hid]
        exact h.saved id hid)
    constructor
    · intro hall id hun hid
      obtain ⟨tasks, htick, hrestored⟩ := hspec hid
      rw [if_pos hun] at hrestored
      obtain ⟨t, ht, hnil⟩ := Option.map_eq_some_iff.mp hrestored
      have hsaved := hall id hid t (by
        rw [htick]
        exact ht)
      exact h.saved id hid (hsaved.symm.trans hnil)
    · intro hok id hid t ht
      obtain ⟨tasks, htick, hrestored⟩ := hspec hid
      have hget : tasks.get? id = some t := by
        rw [htick] at ht
        exact ht
      rw [if_neg (fun hun => hok id hun hid), PregelLoop.restored, hget] at hrestored
      split_ifs at hrestored
      · rw [← h.loaded l hl id hid]
        exact Option.some.inj hrestored
      · cases hrestored

omit [BaseChannel C] [OrderBot Ver] in
theorem thread_withLoop (h : s.Inv checkpointId) (hl : s.thread.loop = some l)
    (hs : l'.submitted = l.submitted) : s.thread.proceed l' = (s.withLoop l').thread :=
  proceed_idle (hs.trans (h.tidy.idle l hl)) s.thread

theorem submitted_tick (l : PregelLoop C Ver) : (l.tick g).1.submitted = l.submitted := by
  rw [PregelLoop.tick]
  simp only
  split_ifs <;> rfl

theorem pending_tick (l : PregelLoop C Ver) :
    (l.tick g).1.checkpointPendingWrites = l.checkpointPendingWrites := by
  rw [PregelLoop.tick]
  simp only
  split_ifs <;> rfl

omit [BaseChannel C] [LinearOrder Ver] [OrderBot Ver] in
theorem submitted_matchCachedWrites (l : PregelLoop C Ver) :
    l.matchCachedWrites.submitted = l.submitted := by
  rw [PregelLoop.matchCachedWrites]
  split <;> rfl

omit [BaseChannel C] [LinearOrder Ver] [OrderBot Ver] in
theorem pending_matchCachedWrites (l : PregelLoop C Ver) :
    l.matchCachedWrites.checkpointPendingWrites = l.checkpointPendingWrites := by
  rw [PregelLoop.matchCachedWrites]
  split <;> rfl

theorem step_tick (h : s.Inv checkpointId) (hl : s.thread.loop = some l) :
    s.step g inputKeys checkpointId .tick = s.withLoop (l.tick g).1 := by
  have hstep : s.thread.step g inputKeys .tick = s.thread.proceed (l.tick g).1 := by
    simp only [Thread.step, hl]
  simp only [step, hl]
  rw [hstep, thread_withLoop h hl (submitted_tick l)]
  rfl

theorem step_matchCachedWrites (h : s.Inv checkpointId) (hl : s.thread.loop = some l) :
    s.step g inputKeys checkpointId .matchCachedWrites = s.withLoop l.matchCachedWrites := by
  have hstep : s.thread.step g inputKeys .matchCachedWrites =
      s.thread.proceed l.matchCachedWrites := by
    simp only [Thread.step, hl]
  simp only [step, hl]
  rw [hstep, thread_withLoop h hl (submitted_matchCachedWrites l)]
  rfl

theorem step_taskWrites (h : s.Inv checkpointId) (hl : s.thread.loop = some l) {taskId : String}
    (hr : taskId ∈ s.running) (ws : List Write) :
    s.step g inputKeys checkpointId (.taskWrites taskId ws) =
      s.withLoop (l.setTaskWrites taskId ws) := by
  have hstep : s.thread.step g inputKeys (.taskWrites taskId ws) =
      s.thread.proceed (l.setTaskWrites taskId ws) := by
    simp only [Thread.step, hl]
  have hs : (l.setTaskWrites taskId ws).submitted = l.submitted := rfl
  simp only [step, hl]
  rw [if_pos hr, hstep, thread_withLoop h hl hs]
  rfl

omit [BaseChannel C] [LinearOrder Ver] [OrderBot Ver] in
theorem good_matchCachedWrites (h : s.Inv checkpointId) (hg : s.Good checkpointId)
    (hl : s.thread.loop = some l) : (s.withLoop l.matchCachedWrites).Good checkpointId := by
  rw [good_withLoop_iff hg]
  intro id hid t ht
  obtain ⟨f, hkeep, hf⟩ := l.task?_matchCachedWrites_map id
  rw [hf] at ht
  obtain ⟨t', ht', rfl⟩ := Option.map_eq_some_iff.mp ht
  have hsaved := (hg id hid).2 l hl t' ht'
  have hne : t'.writes ≠ [] := by
    intro hnil
    rw [hnil] at hsaved
    exact h.saved id hid hsaved.symm
  simp only [hkeep t' hne]
  exact hsaved

omit [BaseChannel C] [LinearOrder Ver] [OrderBot Ver] in
theorem not_finished_of_running (h : s.Inv checkpointId) (hg : s.Good checkpointId)
    {taskId : String} (hr : taskId ∈ s.running) {id : String} (hid : id ∈ s.finished) :
    id ≠ taskId := by
  rintro rfl
  exact (hg id hid).1 (h.running hr)

omit [BaseChannel C] [LinearOrder Ver] [OrderBot Ver] in
theorem good_taskWrites (h : s.Inv checkpointId) (hg : s.Good checkpointId)
    (hl : s.thread.loop = some l) {taskId : String} (hr : taskId ∈ s.running) (ws : List Write) :
    (s.withLoop (l.setTaskWrites taskId ws)).Good checkpointId := by
  rw [good_withLoop_iff hg]
  intro id hid t ht
  rw [PregelLoop.task?_setTaskWrites, if_neg (not_finished_of_running h hg hr hid)] at ht
  exact (hg id hid).2 l hl t ht

theorem step_commit (g : Graph C) (inputKeys : InputKeys) (checkpointId : String)
    (hl : s.thread.loop = some l) {taskId : String} (hr : taskId ∈ s.running) (a : Attempt) :
    ∃ running ended failed, s.step g inputKeys checkpointId (.commit taskId a) =
        ⟨s.thread.proceed (l.commit g taskId a), s.started, running, ended, failed, s.finished⟩ ∧
      running ⊆ s.running := by
  have hstep : s.thread.step g inputKeys (.commit taskId a) =
      s.thread.proceed (l.commit g taskId a) := by
    simp only [Thread.step, hl]
  refine ⟨s.running.erase taskId, if a.raised.isNone then insert taskId s.ended else s.ended,
    if l.routes g taskId a then insert taskId s.failed else s.failed, ?_,
    Finset.erase_subset taskId s.running⟩
  simp only [step, hl]
  rw [if_pos hr, hstep]

omit [OrderBot Ver] in
theorem saved_commit (h : s.Inv checkpointId) (hl : s.thread.loop = some l) {taskId : String}
    (a : Attempt) {started running ended failed finished : Finset String} {id : String}
    (hid : id ≠ taskId) :
    saved checkpointId ⟨s.thread.proceed (l.commit g taskId a), started, running, ended, failed,
      finished⟩ id = s.saved checkpointId id := by
  obtain ⟨tasks, pending, calls, cache, heq, hother⟩ := PregelLoop.commit_frame g taskId a l
  have hsubmitted : (l.commit g taskId a).submitted = calls := by
    rw [heq, h.tidy.idle l hl]
    rfl
  rw [saved, saved, WriteRows.writesOf, WriteRows.writesOf]
  simp only [Thread.proceed, Thread.exec, hsubmitted]
  rw [ofTask_execAll_untouched checkpointId (hother id hid).2]

theorem good_commit (h : s.Inv checkpointId) (hg : s.Good checkpointId)
    (hl : s.thread.loop = some l) {taskId : String} (hr : taskId ∈ s.running) (a : Attempt) :
    (s.step g inputKeys checkpointId (.commit taskId a)).Good checkpointId := by
  obtain ⟨running, ended, failed, hstep, -⟩ := step_commit g inputKeys checkpointId hl hr a
  rw [hstep]
  intro id hid
  have hne := not_finished_of_running h hg hr hid
  refine ⟨(hg id hid).1, fun m hm t ht => ?_⟩
  rw [saved_commit h hl a hne]
  have htask : (l.commit g taskId a).task? id = some t := by
    rw [← Option.some.inj hm] at ht
    exact ht
  rw [PregelLoop.task?_commit, if_neg hne] at htask
  exact (hg id hid).2 l hl t htask

theorem Inv.commit (h : s.Inv checkpointId) (hg : s.Good checkpointId)
    (hl : s.thread.loop = some l) {taskId : String} (hr : taskId ∈ s.running) (a : Attempt) :
    (s.step g inputKeys checkpointId (.commit taskId a)).Inv checkpointId := by
  obtain ⟨running, ended, failed, hstep, hsub⟩ := step_commit g inputKeys checkpointId hl hr a
  rw [hstep]
  have hne {id : String} (hid : id ∈ s.finished) := not_finished_of_running h hg hr hid
  refine ⟨h.tidy.proceed _, h.notNull, fun id hid => ?_, fun m hm id hid => ?_,
    hsub.trans h.running⟩
  · rw [saved_commit h hl a (hne hid)]
    exact h.saved id hid
  · obtain ⟨tasks, pending, calls, cache, heq, hother⟩ := PregelLoop.commit_frame g taskId a l
    rw [saved_commit h hl a (hne hid), ← h.loaded l hl id hid, ← (hother id (hne hid)).1,
      ← Option.some.inj hm, heq]

theorem saved_step (h : s.Inv checkpointId) (e : Event Ver)
    {started running ended failed finished : Finset String} {id : String}
    (hid : id ∈ s.finished) :
    saved checkpointId ⟨s.thread.step g inputKeys e, started, running, ended, failed, finished⟩
      id ≠ [] := by
  obtain ⟨calls, hcalls⟩ := s.thread.saver_step g inputKeys e
  have hsaved := uncontrolled_ne_nil.mp (h.saved id hid)
  rw [saved, uncontrolled_ne_nil, hcalls]
  exact anyUncontrolled_execAll h.tidy.keyed calls hsaved

theorem good_exit (hl : s.thread.loop = some l) (next : GetNextVersion Ver) :
    (s.step g inputKeys checkpointId (.exit next)).Good checkpointId := by
  have hloop : (s.thread.step g inputKeys (.exit next)).loop = none := by
    simp only [Thread.step, hl]
    rfl
  have hnone {finished : Finset String} : Good checkpointId
      ⟨s.thread.step g inputKeys (.exit next), ∅, ∅, ∅, ∅, finished⟩ :=
    fun id _ => ⟨Finset.notMem_empty id, fun m hm => by
      rw [hloop] at hm
      cases hm⟩
  simp only [step, hl]
  split_ifs
  · exact hnone
  · exact hnone

theorem Inv.exit (h : s.Inv checkpointId) (hl : s.thread.loop = some l)
    (next : GetNextVersion Ver) :
    (s.step g inputKeys checkpointId (.exit next)).Inv checkpointId := by
  have hloop : (s.thread.step g inputKeys (.exit next)).loop = none := by
    simp only [Thread.step, hl]
    rfl
  have hleft {finished : Finset String}
      (hf : ∀ id ∈ finished, id ≠ nullTaskId ∧ TaskHistory.saved checkpointId
        ⟨s.thread.step g inputKeys (.exit next), ∅, ∅, ∅, ∅, s.finished⟩ id ≠ []) :
      Inv checkpointId ⟨s.thread.step g inputKeys (.exit next), ∅, ∅, ∅, ∅, finished⟩ :=
    ⟨h.tidy.step g inputKeys _, fun id hid => (hf id hid).1, fun id hid => (hf id hid).2,
      fun _ hm => (by
        rw [hloop] at hm
        cases hm),
      Finset.Subset.refl _⟩
  have hold (id : String) (hid : id ∈ s.finished) : id ≠ nullTaskId ∧ TaskHistory.saved checkpointId
      ⟨s.thread.step g inputKeys (.exit next), ∅, ∅, ∅, ∅, s.finished⟩ id ≠ [] :=
    ⟨h.notNull id hid, saved_step h _ hid⟩
  simp only [step, hl]
  split_ifs
  · refine hleft (fun id hid => ?_)
    rcases Finset.mem_union.mp hid with hid | hid
    · exact hold id hid
    · exact (Finset.mem_filter.mp hid).2
  · exact hleft hold

-- A run that enters the checkpoint starts from its rows, and no task has been prepared.
theorem begun_spec {config : LoopConfig} {cache : Option WritesCache} {freshId : String}
    {requested : Option String} {input : Input} {sameRun : Bool}
    {nextNull next : GetNextVersion Ver} {newId : String} {th : Thread C Ver}
    (hidle : th.loop = none) (henters : EntersAt checkpointId requested th.saver)
    (hl : ((th.step g inputKeys (.enter config cache freshId requested)).step g inputKeys
      (.first input sameRun nextNull next newId)).loop = some l) :
    l.tasks = none ∧ ∀ id, id ≠ nullTaskId →
      uncontrolled (taskWritesOf id l.checkpointPendingWrites) =
        uncontrolled ((((th.step g inputKeys (.enter config cache freshId requested)).step g
          inputKeys (.first input sameRun nextNull next newId)).saver.rows
            checkpointId).writesOf id) := by
  obtain ⟨hrequested, hstored⟩ := henters
  obtain ⟨entry, hentry⟩ := Option.isSome_iff_exists.mp hstored
  have htuple : th.saver.getTuple requested = some (th.saver.tuple checkpointId entry) := by
    rw [InMemorySaver.getTuple, hrequested]
    simp [hentry]
  cases hload : PregelLoop.enter g config cache freshId requested th.saver with
  | error e =>
    have hsame : th.step g inputKeys (.enter config cache freshId requested) = th := by
      simp only [Thread.step, hidle, hload]
    rw [hsame] at hl
    simp only [Thread.step, hidle] at hl
    cases hl
  | ok m =>
    have hm : m.checkpointPendingWrites = (th.saver.rows checkpointId).pending ∧ m.tasks = none ∧
        m.submitted = [] := by
      simp only [PregelLoop.enter, htuple] at hload
      split at hload
      · cases hload
      · cases hload
        exact ⟨rfl, rfl, rfl⟩
    obtain ⟨hpending, htasks, hsubmitted⟩ := hm
    have hentered : th.step g inputKeys (.enter config cache freshId requested) =
        { th with loop := some m } := by
      simp only [Thread.step, hidle, hload]
      exact proceed_idle hsubmitted th
    rw [hentered] at hl ⊢
    obtain ⟨hrows, ⟨calls, hcalls, huntouched⟩, hsame⟩ :=
      PregelLoop.carries_first (g := g) inputKeys input sameRun nextNull next newId m
    rw [hsubmitted, List.nil_append] at hcalls
    simp only [Thread.step] at hl ⊢
    generalize m.first g inputKeys input sameRun nextNull next newId = r at hl hrows hcalls hsame
    obtain ⟨n, e | e⟩ := r
    · simp only [Thread.proceed] at hl ⊢
      rw [← Option.some.inj hl]
      refine ⟨hsame.trans htasks, fun id hid => (hrows id hid).trans ?_⟩
      have hsubmitted' : n.submitted = calls := hcalls
      simp only [Thread.exec, hsubmitted', WriteRows.writesOf]
      rw [ofTask_execAll_untouched checkpointId (huntouched id hid), hpending,
        taskWritesOf_pending, WriteRows.writesOf]
    · cases hl

theorem step_of_running {e : HistoryEvent Ver} (hl : s.thread.loop = none)
    (he : ∀ config cache freshId requested input sameRun nextNull next newId,
      e ≠ .resume config cache freshId requested input sameRun nextNull next newId) :
    s.step g inputKeys checkpointId e = s := by
  cases e with
  | resume config cache freshId requested input sameRun nextNull next newId =>
    exact absurd rfl (he _ _ _ _ _ _ _ _ _)
  | _ => simp only [step, hl]

theorem good_step_iff (h : s.Inv checkpointId) (hg : s.Good checkpointId)
    (e : HistoryEvent Ver) :
    (s.step g inputKeys checkpointId e).Good checkpointId ↔ s.Ok g e := by
  cases hl : s.thread.loop with
  | none =>
    have hok : s.Ok g e := by
      cases e with
      | tick => exact fun l hl' => by simp [hl] at hl'
      | call parent writeIdx call => exact fun l hl' => by simp [hl] at hl'
      | scheduleErrorHandler failedId => exact fun l hl' => by simp [hl] at hl'
      | _ => trivial
    refine iff_of_true ?_ hok
    cases e with
    | resume config cache freshId requested input sameRun nextNull next newId =>
      simp only [step, hl]
      split_ifs with henter
      · intro id hid
        refine ⟨Finset.notMem_empty id, fun l hl' t ht => ?_⟩
        have htasks := (begun_spec hl henter.1 hl').1
        rw [PregelLoop.task?, htasks] at ht
        cases ht
      · exact hg
    | _ =>
      rw [step_of_running hl (fun _ _ _ _ _ _ _ _ _ heq => by cases heq)]
      exact hg
  | some l =>
    have hall {P : PregelLoop C Ver → Prop} : (∀ m, some l = some m → P m) ↔ P l :=
      ⟨fun h => h l rfl, fun h m hm => Option.some.inj hm ▸ h⟩
    cases e with
    | resume config cache freshId requested input sameRun nextNull next newId =>
      simp only [step, hl]
      exact iff_of_true hg trivial
    | tick =>
      rw [step_tick h hl, good_tick_iff h hg hl, Ok, hl, hall]
    | matchCachedWrites =>
      rw [step_matchCachedWrites h hl]
      exact iff_of_true (good_matchCachedWrites h hg hl) trivial
    | submit taskId =>
      simp only [step, hl]
      refine iff_of_true ?_ trivial
      split_ifs with hnil
      · obtain ⟨t, ht, hw⟩ := Option.map_eq_some_iff.mp hnil
        refine (good_start_iff hg taskId).mpr (fun hid => ?_)
        have hsaved := (hg taskId hid).2 l hl t ht
        rw [hw] at hsaved
        exact h.saved taskId hid hsaved.symm
      · exact hg
    | taskWrites taskId ws =>
      refine iff_of_true ?_ trivial
      by_cases hr : taskId ∈ s.running
      · rw [step_taskWrites h hl hr]
        exact good_taskWrites h hg hl hr ws
      · simp only [step, hl, if_neg hr]
        exact hg
    | commit taskId a =>
      refine iff_of_true ?_ trivial
      by_cases hr : taskId ∈ s.running
      · exact good_commit h hg hl hr a
      · simp only [step, hl, if_neg hr]
        exact hg
    | call parent writeIdx call =>
      rw [Ok, hl, hall]
      by_cases hts : l.tasks.isSome = true
      · simp only [step, hl]
        rw [if_pos hts, good_addTask_iff h hg hl hts rfl]
        exact ⟨fun h _ => h, fun h => h hts⟩
      · simp only [step, hl, if_neg hts]
        exact iff_of_true hg (fun hsome => absurd hsome hts)
    | scheduleErrorHandler failedId =>
      rw [Ok, hl, hall]
      by_cases hf : failedId ∈ s.failed
      · simp only [step, hl, if_pos hf]
        cases htask : l.errorHandlerTask g failedId with
        | none => exact iff_of_true hg (fun _ task heq => by cases heq)
        | some task =>
          have hts := l.isSome_of_errorHandlerTask htask
          have hnil := PregelLoop.writes_errorHandlerTask htask
          have hadd := good_addTask_iff h hg hl hts hnil
          constructor
          · intro hgood _ task' heq hid
            obtain rfl := Option.some.inj heq
            exact (hgood task.id hid).1 (Finset.mem_insert_self task.id s.started)
          · intro hok
            have hno : task.id ∉ s.finished := hok hf task rfl
            exact (good_start_iff (hadd.mpr (fun _ => hno)) task.id).mpr hno
      · simp only [step, hl, if_neg hf]
        exact iff_of_true hg (fun hmem => absurd hmem hf)
    | exit next => exact iff_of_true (good_exit hl next) trivial

theorem Inv.step (h : s.Inv checkpointId) (hg : s.Good checkpointId) (e : HistoryEvent Ver) :
    (s.step g inputKeys checkpointId e).Inv checkpointId := by
  cases hl : s.thread.loop with
  | none =>
    cases e with
    | resume config cache freshId requested input sameRun nextNull next newId =>
      simp only [TaskHistory.step, hl]
      split_ifs with henter
      · have htidy := h.tidy.step g inputKeys (.enter config cache freshId requested)
        refine ⟨htidy.step g inputKeys _, h.notNull, fun id hid => ?_, fun l hl' id hid => ?_,
          Finset.Subset.refl _⟩
        · obtain ⟨calls, hcalls⟩ := (s.thread.step g inputKeys
            (.enter config cache freshId requested)).saver_step g inputKeys
              (.first input sameRun nextNull next newId)
          have hentered : TaskHistory.saved checkpointId ⟨s.thread.step g inputKeys
              (.enter config cache freshId requested), ∅, ∅, ∅, ∅, ∅⟩ id ≠ [] := saved_step h _ hid
          rw [TaskHistory.saved, uncontrolled_ne_nil, hcalls]
          exact anyUncontrolled_execAll htidy.keyed calls (uncontrolled_ne_nil.mp hentered)
        · exact (begun_spec hl henter.1 hl').2 id (h.notNull id hid)
      · exact h
    | _ =>
      rw [step_of_running hl (fun _ _ _ _ _ _ _ _ _ heq => by cases heq)]
      exact h
  | some l =>
    cases e with
    | resume config cache freshId requested input sameRun nextNull next newId =>
      simp only [TaskHistory.step, hl]
      exact h
    | tick =>
      rw [step_tick h hl]
      exact h.withLoop hl (submitted_tick l) (pending_tick l)
    | matchCachedWrites =>
      rw [step_matchCachedWrites h hl]
      exact h.withLoop hl (submitted_matchCachedWrites l) (pending_matchCachedWrites l)
    | submit taskId =>
      simp only [TaskHistory.step, hl]
      split_ifs
      · exact h.start taskId
      · exact h
    | taskWrites taskId ws =>
      by_cases hr : taskId ∈ s.running
      · rw [step_taskWrites h hl hr]
        exact h.withLoop hl rfl rfl
      · simp only [TaskHistory.step, hl, if_neg hr]
        exact h
    | commit taskId a =>
      by_cases hr : taskId ∈ s.running
      · exact h.commit hg hl hr a
      · simp only [TaskHistory.step, hl, if_neg hr]
        exact h
    | call parent writeIdx call =>
      simp only [TaskHistory.step, hl]
      split_ifs
      · exact h.withLoop hl rfl rfl
      · exact h
    | scheduleErrorHandler failedId =>
      simp only [TaskHistory.step, hl]
      split_ifs
      · cases l.errorHandlerTask g failedId with
        | none => exact h
        | some task =>
          have hadded : (s.withLoop (l.addTask task)).Inv checkpointId := h.withLoop hl rfl rfl
          exact hadded.start task.id
      · exact h
    | exit next => exact h.exit hl next

end Steps

-- Whatever a thread has been through: in every state of every history of runs at a checkpoint no
-- finished task is started again or misses its saved writes, exactly when no step makes one anew.
theorem finished_run_once_iff (g : Graph C) (inputKeys : InputKeys) (before : List (Event Ver))
    (checkpointId : String) (events : List (HistoryEvent Ver)) :
    Always (step g inputKeys checkpointId) (Good checkpointId)
        (begin (run (Thread.step g inputKeys) Thread.fresh before)) events ↔
      EachStep (step g inputKeys checkpointId) (Ok g)
        (begin (run (Thread.step g inputKeys) Thread.fresh before)) events :=
  always_iff_eachStep (fun _ e h hg => good_step_iff h hg e) (fun _ e h hg _ => h.step hg e) events
    (inv_begin before) (good_begin _)

section Runs

def guardedGraph : Graph Channel :=
  { Graph.ofSpecs (Dict.ofList [("a", Channel.lastValue ⟨"a", none⟩)]) with
    nodes := Dict.ofList
      [("n", ⟨.single "a", ["a"], none, none, none, some "h", true⟩),
        ("m", ⟨.single "a", ["a"], none, none, none, none, true⟩),
        ("h", ⟨.single "a", [], none, none, none, none, true⟩)]
    triggerToNodes := Dict.ofList [("a", ["n", "m"])] }

def guardedThread : Thread Channel Nat :=
  run (Thread.step guardedGraph (.single "a")) Thread.fresh
    [.enter (LoopConfig.plain .sync) none "0" none,
      .first (.value (.int 7)) false successor successor "1"]

def failedTask : String := "1n0n__pregel_pulla"
def interruptedTask : String := "1m0m__pregel_pulla"
def handlerTask : String := "1h0h__pregel_pushnode_error_handler1n0n__pregel_pulla"

-- A node fails and its handler ends, while another node interrupts the run. Then it is resumed.
def guardedEvents : List (HistoryEvent Nat) :=
  [.tick, .submit failedTask, .submit interruptedTask,
    .commit failedTask ⟨[], some (.error (.str "boom"))⟩, .scheduleErrorHandler failedTask,
    .commit handlerTask ⟨[], none⟩, .commit interruptedTask ⟨[], some (.interrupt [.str "ask"])⟩,
    .exit successor,
    .resume (LoopConfig.plain .sync) none "0" none .none false successor successor "2", .tick,
    .submit handlerTask]

theorem finished_handler_restarted :
    ¬ Always (step guardedGraph (.single "a") "1") (Good "1") (begin guardedThread)
      guardedEvents := by
  intro h
  have hfinished : handlerTask ∈ (run (step guardedGraph (.single "a") "1") (begin guardedThread)
      guardedEvents).finished := by decide +kernel
  have hstarted : handlerTask ∈ (run (step guardedGraph (.single "a") "1") (begin guardedThread)
      guardedEvents).started := by decide +kernel
  exact (h guardedEvents (List.prefix_refl _) handlerTask hfinished).1 hstarted

end Runs

end TaskHistory

end LangGraph
