import LangGraph.Channels.Channel
import LangGraph.Pregel.Committed

namespace LangGraph

open Collections Transition

variable {C Ver : Type} [BaseChannel C] [LinearOrder Ver] [OrderBot Ver]

namespace PregelLoop

variable {g : Graph C}

omit [OrderBot Ver] in
theorem enter_pending {config : LoopConfig} {cache : Option WritesCache} {freshId id : String}
    {saver : InMemorySaver Ver} {l : PregelLoop C Ver} (hlatest : saver.latest = some id)
    (h : enter g config cache freshId none saver = .ok l) :
    l.checkpointPendingWrites = (saver.rows id).pending ∧ l.isReplaying = false ∧
      l.cache = cache ∧ l.tasks = none := by
  have hstored : ∃ saved, saver.storage.get? id = some saved := by
    rw [← Dict.mem_keys]
    exact List.max?_mem hlatest
  obtain ⟨saved, hsaved⟩ := hstored
  have htuple : saver.getTuple none = some (saver.tuple id saved) := by
    simp [InMemorySaver.getTuple, hlatest, hsaved]
  simp only [enter, htuple] at h
  split at h
  · cases h
  · cases h
    exact ⟨rfl, rfl, rfl, rfl⟩

omit [BaseChannel C] [LinearOrder Ver] [OrderBot Ver] in
theorem cacheWrites_untasked {id : String} {l : PregelLoop C Ver} (ht : l.tasks = none)
    (writes : List Write) : l.cacheWrites id writes = l := by
  have hnone : l.task? id = none := by rw [task?, ht]; rfl
  rw [cacheWrites, hnone]
  split
  · rename_i hsome
    cases hsome
  · rfl

omit [LinearOrder Ver] [OrderBot Ver] in
theorem putWrites_null_frame (g : Graph C) (batch : List Write) {l : PregelLoop C Ver}
    (ht : l.tasks = none) :
    (l.putWrites g nullTaskId batch).cache = l.cache ∧
      (l.putWrites g nullTaskId batch).isReplaying = l.isReplaying ∧
      ∀ id, id ≠ nullTaskId →
        taskWritesOf id (l.putWrites g nullTaskId batch).checkpointPendingWrites =
          taskWritesOf id l.checkpointPendingWrites := by
  by_cases hne : batch = []
  · subst hne
    exact ⟨rfl, rfl, fun _ _ => rfl⟩
  · obtain ⟨cache, hput⟩ := putWrites_spec g nullTaskId hne l
    have hcache : (l.putWrites g nullTaskId batch).cache = l.cache := by
      cases batch with
      | nil => exact absurd rfl hne
      | cons w ws =>
        simp only [putWrites]
        split
        · rw [cacheWrites_untasked]
          exact ht
        · rw [cacheWrites_untasked]
          · rfl
          · exact ht
    refine ⟨hcache, by rw [hput], fun id hid => ?_⟩
    rw [hput, taskWritesOf_append, taskWritesOf_kept_ne hid, taskWritesOf_batch_ne hid,
      List.append_nil]

-- The parts of the loop that re-applying reads after `_first`.
structure Resumes (l l' : PregelLoop C Ver) : Prop where
  cache : l'.cache = l.cache
  isReplaying : l'.isReplaying = l.isReplaying
  pending : ∀ id, id ≠ nullTaskId →
    taskWritesOf id l'.checkpointPendingWrites = taskWritesOf id l.checkpointPendingWrites

omit [BaseChannel C] [LinearOrder Ver] [OrderBot Ver] in
theorem Resumes.trans {l l' l'' : PregelLoop C Ver} (h : Resumes l l') (h' : Resumes l' l'') :
    Resumes l l'' :=
  ⟨h'.cache.trans h.cache, h'.isReplaying.trans h.isReplaying,
    fun id hid => (h'.pending id hid).trans (h.pending id hid)⟩

omit [LinearOrder Ver] [OrderBot Ver] in
theorem resumes_putInput {input : Input} {l : PregelLoop C Ver} (ht : l.tasks = none) :
    Resumes l (l.putInput g input).1 := by
  have hrefl : Resumes l l := ⟨rfl, rfl, fun _ _ => rfl⟩
  cases input with
  | none => exact hrefl
  | value v => exact hrefl
  | command c =>
    simp only [putInput, putCommand]
    split
    · exact hrefl
    · split
      · exact hrefl
      · obtain ⟨hcache, hreplay, hpending⟩ := putWrites_null_frame g c.writes ht
        exact ⟨hcache, hreplay, hpending⟩

omit [OrderBot Ver] in
theorem resumes_applyNullWrites {next : GetNextVersion Ver} {updated : Option (Finset String)}
    (l : PregelLoop C Ver) : Resumes l (l.applyNullWrites g next updated).1 := by
  unfold applyNullWrites
  split
  · exact ⟨rfl, rfl, fun _ _ => rfl⟩
  · exact ⟨rfl, rfl, fun _ _ => rfl⟩

theorem resumes_first {inputKeys : InputKeys} {input : Input} {sameRun : Bool}
    {nextNull next : GetNextVersion Ver} {newId : String} {l l' : PregelLoop C Ver}
    (ht : l.tasks = none) (hreplay : l.isReplaying = false)
    (hresuming : l.isResuming input sameRun = true)
    (h : l.first g inputKeys input sameRun nextNull next newId = (l', none)) : Resumes l l' := by
  have htravel : l.dropTimeTravel input = false := by simp [dropTimeTravel, hreplay]
  have hput : Resumes l (l.putInput g input).1 := resumes_putInput ht
  have hdrop : l.dropResumed false = l := rfl
  have hrun : (l.first g inputKeys input sameRun nextNull next newId).2 = none := by rw [h]
  rw [first, hresuming, htravel, hdrop] at h hrun
  obtain ⟨-, heq⟩ := andThen_ok hrun
  rw [heq] at h
  have hnull : Resumes (l.putInput g input).1
      ((l.putInput g input).1.applyNullWrites g nextNull (l.putInput g input).1.storedUpdates).1 :=
    resumes_applyNullWrites (l.putInput g input).1
  simp only [if_true] at h
  split at h
  · cases h
  · cases h
    exact hput.trans (hnull.trans ⟨rfl, rfl, fun _ _ => rfl⟩)

theorem proceeds {l l' : PregelLoop C Ver} (h : l.tick g = (l', .proceed)) :
    l' = { l with tasks := some (l.resumedTasks g (l.preparedTasks g)) } := by
  unfold tick at h
  split at h
  · cases h
  · simp only at h
    split at h
    · cases h
    · split at h
      · cases h
      · cases h
        rfl

-- The task `t` is one that no node handles the errors of, and no handler task takes its id.
structure Unhandled (g : Graph C) (t : PregelTask) : Prop where
  node : (g.nodes.get? t.name).bind PregelNode.errorHandlerNode = none
  ids : ∀ failed handler checkpointId step h,
    prepareNodeErrorHandlerTask g failed handler checkpointId step = some h → h.id ≠ t.id

omit [BaseChannel C] in
theorem get?_resumeErrorHandler {t t' : PregelTask} (hu : Unhandled g t) (hname : t'.name = t.name)
    {checkpointId : String} {step : Int} {tasks : Dict String PregelTask} (failed : String × Value)
    (h : tasks.get? t.id = some t') :
    (resumeErrorHandler g checkpointId step tasks failed).get? t.id = some t' := by
  unfold resumeErrorHandler
  split
  · exact h
  · rename_i f hf
    split
    · exact h
    · rename_i handler hhandler
      have hne : t.id ≠ failed.1 := by
        intro heq
        rw [← heq, h] at hf
        rw [← Option.some.inj hf, hname, hu.node] at hhandler
        cases hhandler
      have hset : (tasks.set failed.1 { f with writes := f.writes ++ [(Key.error, failed.2)] }).get?
          t.id = some t' := by rw [Dict.get?_set_ne _ hne, h]
      simp only
      split
      · rename_i handlerTask htask
        rw [Dict.get?_set_ne _ (Ne.symm (hu.ids _ _ _ _ _ htask)), hset]
      · exact hset

omit [BaseChannel C] in
theorem get?_resumeErrorHandlers {t t' : PregelTask} (hu : Unhandled g t)
    (hname : t'.name = t.name) {checkpointId : String} {step : Int} {pending : List PendingWrite}
    {tasks : Dict String PregelTask} (h : tasks.get? t.id = some t') :
    (resumeErrorHandlers g checkpointId step pending tasks).get? t.id = some t' := by
  have hstep (tasks : Dict String PregelTask) (failed : String × Value)
      (h : tasks.get? t.id = some t') :
      (resumeErrorHandler g checkpointId step tasks failed).get? t.id = some t' :=
    get?_resumeErrorHandler hu hname failed h
  exact run_invariant hstep (failedTasks pending) h

omit [LinearOrder Ver] [OrderBot Ver] in
omit [BaseChannel C] in
theorem get?_resumedTasks {t p : PregelTask} (hu : Unhandled g t) (hname : p.name = t.name)
    {l : PregelLoop C Ver} (hreplay : l.isReplaying = false) {tasks : Dict String PregelTask}
    (h : tasks.get? t.id = some p) :
    (l.resumedTasks g tasks).get? t.id = some (reapplied l.checkpointPendingWrites p) := by
  have hmap : (reapplyWritesToSucceededNodes l.checkpointPendingWrites tasks).get? t.id =
      some (reapplied l.checkpointPendingWrites p) := by
    rw [reapplyWritesToSucceededNodes, Dict.get?_mapValues, h]
    rfl
  unfold resumedTasks
  by_cases hnil : l.checkpointPendingWrites = []
  · rw [if_pos (Or.inr hnil), h, hnil]
    simp [reapplied, taskWritesOf]
  · rw [if_neg (by simp [hreplay, hnil])]
    have hreapplied : (reapplied l.checkpointPendingWrites p).name = t.name := hname
    exact get?_resumeErrorHandlers hu hreapplied hmap

omit [BaseChannel C] [LinearOrder Ver] [OrderBot Ver] in
theorem task?_matchCachedWrites {l : PregelLoop C Ver} {tasks : Dict String PregelTask}
    {t : PregelTask} (hts : l.tasks = some tasks) (ht : tasks.get? t.id = some t) :
    ∃ t', l.matchCachedWrites.task? t.id = some t' ∧
      t'.writes = (match l.cache with
        | some cache => cachedWrites cache (cacheOwners tasks) t
        | none => t.writes) := by
  unfold matchCachedWrites
  cases hcache : l.cache with
  | none =>
    refine ⟨t, ?_, rfl⟩
    simp only [task?, hts, Option.bind_some, ht]
  | some cache =>
    refine ⟨{ t with writes := cachedWrites cache (cacheOwners tasks) t }, ?_, rfl⟩
    simp only [task?, hts, Option.bind_some, Dict.get?_mapValues, ht, Option.map_some]

omit [BaseChannel C] [LinearOrder Ver] [OrderBot Ver] in
theorem mem_runnable {l : PregelLoop C Ver} {id : String} {t : PregelTask}
    (ht : l.task? id = some t) : t ∈ l.runnable ↔ t.writes = [] := by
  obtain ⟨tasks, hts, hget⟩ := Option.bind_eq_some_iff.mp ht
  have hmem : t ∈ tasks.values := Dict.mem_values.mpr ⟨id, hget⟩
  simp [runnable, hts, hmem]

end PregelLoop

-- No writes after the tick, and in the list of tasks the runner is given.
def PregelLoop.Retried (l : PregelLoop C Ver) (id : String) : Prop :=
  (l.task? id).map PregelTask.writes = some [] ∧
    ∃ t ∈ l.matchCachedWrites.runnable, l.matchCachedWrites.task? id = some t

def CacheMisses (cache : Option WritesCache) (tasks : Dict String PregelTask) (t : PregelTask) :
    Prop :=
  ∀ c k, cache = some c → t.cacheKey = some k →
    (PregelLoop.cacheOwners tasks).get? k = some t.id → c.getD k [] = []

theorem cacheMisses_iff {cache : Option WritesCache} {tasks : Dict String PregelTask}
    {t : PregelTask} (h : t.writes = []) :
    CacheMisses cache tasks t ↔
      (match cache with
        | some cache => PregelLoop.cachedWrites cache (PregelLoop.cacheOwners tasks) t
        | none => t.writes) = [] := by
  cases cache with
  | none => simp [CacheMisses, h]
  | some c =>
    cases hk : t.cacheKey with
    | none => simp [CacheMisses, PregelLoop.cachedWrites, h, hk]
    | some k =>
      by_cases ho : (PregelLoop.cacheOwners tasks).get? k = some t.id
      · simp [CacheMisses, PregelLoop.cachedWrites, h, hk, ho]
      · simp [CacheMisses, PregelLoop.cachedWrites, h, hk, ho]

omit [BaseChannel C] [LinearOrder Ver] [OrderBot Ver] in
theorem PregelLoop.retried_iff {l : PregelLoop C Ver} {tasks : Dict String PregelTask}
    {t : PregelTask} (hts : l.tasks = some tasks) (ht : tasks.get? t.id = some t) :
    l.Retried t.id ↔ t.writes = [] ∧ CacheMisses l.cache tasks t := by
  obtain ⟨t', hget, hwrites⟩ := PregelLoop.task?_matchCachedWrites hts ht
  have htask : l.task? t.id = some t := by rw [PregelLoop.task?, hts, Option.bind_some, ht]
  have hrun : (∃ u ∈ l.matchCachedWrites.runnable, l.matchCachedWrites.task? t.id = some u) ↔
      t'.writes = [] := by
    rw [← PregelLoop.mem_runnable hget]
    constructor
    · rintro ⟨u, hu, hsome⟩
      rw [hget, Option.some.injEq] at hsome
      rwa [hsome]
    · exact fun hmem => ⟨t', hmem, hget⟩
  rw [PregelLoop.Retried, htask, Option.map_some, Option.some.injEq, hrun, hwrites]
  constructor
  · rintro ⟨hnil, hcached⟩
    exact ⟨hnil, (cacheMisses_iff hnil).mpr hcached⟩
  · rintro ⟨hnil, hmiss⟩
    exact ⟨hnil, (cacheMisses_iff hnil).mp hmiss⟩

def Attempt.Failed (a : Attempt) : Prop :=
  ∃ exc, a.raised = some (.error exc) ∨ a.raised = some (.cancelled exc)

-- How a thread is resumed: what the new run is opened with and its input.
structure Resumption (Ver : Type) where
  config : LoopConfig
  cache : Option WritesCache
  freshId : String
  input : Input
  sameRun : Bool
  nextNull : GetNextVersion Ver
  next : GetNextVersion Ver
  newId : String

namespace Thread

variable {g : Graph C} {inputKeys : InputKeys}

def resume (g : Graph C) (inputKeys : InputKeys) (r : Resumption Ver) (th : Thread C Ver) :
    Thread C Ver :=
  run (step g inputKeys) th
    [.enter r.config r.cache r.freshId none,
      .first r.input r.sameRun r.nextNull r.next r.newId]

-- The thread is resumed at the checkpoint `id`, and its tick goes on to run the tasks.
structure ResumedAt (g : Graph C) (inputKeys : InputKeys) (r : Resumption Ver) (th : Thread C Ver)
    (id : String) (l l' : PregelLoop C Ver) : Prop where
  latest : th.saver.latest = some id
  resuming : ∀ l₀, PregelLoop.enter g r.config r.cache r.freshId none th.saver = .ok l₀ →
    l₀.isResuming r.input r.sameRun = true
  entered : (th.resume g inputKeys r).loop = some l
  ticked : l.tick g = (l', .proceed)

theorem resumed_pending {r : Resumption Ver} {th : Thread C Ver} {id : String}
    {l l' : PregelLoop C Ver} (hclosed : th.loop = none)
    (h : ResumedAt g inputKeys r th id l l') :
    l.isReplaying = false ∧ l.cache = r.cache ∧
      ∀ taskId, taskId ≠ nullTaskId →
        taskWritesOf taskId l.checkpointPendingWrites = (th.saver.rows id).writesOf taskId := by
  have hentered := h.entered
  rw [resume, run_cons, run_cons] at hentered
  cases henter : PregelLoop.enter g r.config r.cache r.freshId none th.saver with
  | error e =>
    simp only [step, hclosed, henter] at hentered
    exact absurd (hclosed.symm.trans hentered) (by simp)
  | ok l₀ =>
    obtain ⟨hpending, hreplay, hcache, htasks⟩ := PregelLoop.enter_pending h.latest henter
    have hresuming := h.resuming l₀ henter
    have hstep : th.step g inputKeys (.enter r.config r.cache r.freshId none) = th.proceed l₀ := by
      simp only [step, hclosed, henter]
    rw [hstep] at hentered
    cases hfirst : PregelLoop.first g inputKeys r.input r.sameRun r.nextNull r.next r.newId
        { l₀ with submitted := [] } with
    | mk l₁ error =>
      cases error with
      | some e =>
        simp only [run, List.foldl_nil, step, proceed, hfirst] at hentered
        cases hentered
      | none =>
        have hres := PregelLoop.resumes_first (l := { l₀ with submitted := [] }) htasks hreplay
          hresuming hfirst
        simp only [run, List.foldl_nil, step, proceed, hfirst] at hentered
        cases hentered
        refine ⟨hres.isReplaying.trans hreplay, hres.cache.trans hcache, fun taskId hne => ?_⟩
        have hloaded := hres.pending taskId hne
        rw [← taskWritesOf_pending, ← hpending]
        exact hloaded

theorem retried_iff {r : Resumption Ver} {th : Thread C Ver} {id : String} {t p : PregelTask}
    {l l' : PregelLoop C Ver} (hclosed : th.loop = none)
    (h : ResumedAt g inputKeys r th id l l') (hn : t.id ≠ nullTaskId)
    (hu : PregelLoop.Unhandled g t) (hp : (l.preparedTasks g).get? t.id = some p)
    (hname : p.name = t.name) :
    l'.Retried t.id ↔
      ¬ AnyUncontrolled ((th.saver.rows id).writesOf t.id) ∧
        CacheMisses r.cache (l.resumedTasks g (l.preparedTasks g)) p := by
  obtain ⟨hreplay, hcache, hpending⟩ := resumed_pending hclosed h
  have hl := PregelLoop.proceeds h.ticked
  have hget := PregelLoop.get?_resumedTasks hu hname hreplay hp
  have hitem : (t.id, p) ∈ (l.preparedTasks g).items := Dict.get?_eq_some.mp hp
  have hid : t.id = p.id := (Graph.mem_prepareNextTasks hitem).1
  have hnil : p.writes = [] :=
    Graph.writes_prepareNextTasks (Dict.mem_values.mpr ⟨t.id, hp⟩)
  have htasks : l'.tasks = some (l.resumedTasks g (l.preparedTasks g)) := by rw [hl]
  have hwrites : (PregelLoop.reapplied l.checkpointPendingWrites p).writes = [] ↔
      ¬ AnyUncontrolled ((th.saver.rows id).writesOf t.id) := by
    have hsame : (PregelLoop.reapplied l.checkpointPendingWrites p).writes =
        ((th.saver.rows id).writesOf t.id).filter (fun w => w.1 ∉ controlChannels) := by
      rw [PregelLoop.reapplied, hnil, List.nil_append, ← hid, hpending t.id hn]
    rw [hsame, List.filter_eq_nil_iff]
    simp [AnyUncontrolled, Uncontrolled]
  have hreapplied : (PregelLoop.reapplied l.checkpointPendingWrites p).id = t.id := hid.symm
  have hiff := PregelLoop.retried_iff htasks (hreapplied.symm ▸ hget)
  rw [hreapplied, hwrites] at hiff
  rw [hiff, hl, hcache]
  rfl

theorem loop_exit (th : Thread C Ver) (next : GetNextVersion Ver) :
    (th.step g inputKeys (.exit next)).loop = none := by
  cases hl : th.loop with
  | none => simp only [step, hl]
  | some l => simp only [step, hl, close]

theorem closed_superstepRun (th : Thread C Ver) (t : PregelTask)
    (before after : List (String × Attempt)) (a : Attempt) (next : GetNextVersion Ver) :
    (superstepRun g inputKeys th before t a after next).loop = none := by
  rw [superstepRun, run_append]
  exact loop_exit _ next

omit [BaseChannel C] in
theorem savedWrites_failed {a : Attempt} (h : a.Failed) {t : PregelTask}
    (hu : PregelLoop.Unhandled g t) :
    ∃ exc, a.savedWrites g t.name = a.writes ++ [(Key.error, exc)] := by
  have hroute : g.shouldRouteToErrorHandler t.name = false := by
    simp [Graph.shouldRouteToErrorHandler, hu.node]
  obtain ⟨exc, hr | hr⟩ := h
  · exact ⟨exc, by simp [Attempt.savedWrites, Attempt.taskWrites, hr, hroute]⟩
  · exact ⟨exc, by simp [Attempt.savedWrites, Attempt.taskWrites, hr]⟩

theorem failed_task_retried_iff (g : Graph C) (inputKeys : InputKeys) {th : Thread C Ver}
    {l : PregelLoop C Ver} {t : PregelTask} (h : AtSuperstep g inputKeys th l t)
    (hu : PregelLoop.Unhandled g t) {before after : List (String × Attempt)}
    (hbefore : ∀ c ∈ before, c.1 ≠ t.id) (hafter : ∀ c ∈ after, c.1 ≠ t.id) {a : Attempt}
    (hraised : a.Failed) (next : GetNextVersion Ver) (r : Resumption Ver)
    {l₁ l₂ : PregelLoop C Ver}
    (hresumed : ResumedAt g inputKeys r (superstepRun g inputKeys th before t a after next)
      l.checkpoint.id l₁ l₂) {p : PregelTask} (hp : (l₁.preparedTasks g).get? t.id = some p)
    (hname : p.name = t.name) :
    l₂.Retried t.id ↔
      (¬ AnyUncontrolled ((th.saver.rows l.checkpoint.id).writesOf t.id)) ∧
      (∀ w ∈ a.writes, Uncontrolled w → ¬ l.persists g w) ∧
      CacheMisses r.cache (l₁.resumedTasks g (l₁.preparedTasks g)) p := by
  have hclosed := @closed_superstepRun _ _ _ _ _ g inputKeys th t before after a next
  have hrows := superstepRun_rows h hbefore hafter a next
  obtain ⟨exc, hsaved⟩ := savedWrites_failed hraised hu
  have herror : ¬ Uncontrolled (Key.error, exc) := by simp [Uncontrolled, controlChannels]
  have hwrites : (∃ w ∈ a.savedWrites g t.name, Uncontrolled w ∧ l.persists g w) ↔
      ∃ w ∈ a.writes, Uncontrolled w ∧ l.persists g w := by
    rw [hsaved]
    constructor
    · rintro ⟨w, hw, hu, hp⟩
      rcases List.mem_append.mp hw with hw | hw
      · exact ⟨w, hw, hu, hp⟩
      · exact absurd (List.mem_singleton.mp hw ▸ hu) herror
    · rintro ⟨w, hw, hu, hp⟩
      exact ⟨w, List.mem_append_left _ hw, hu, hp⟩
  have hstored : AnyUncontrolled (((superstepRun g inputKeys th before t a after next).saver.rows
      l.checkpoint.id).writesOf t.id) ↔
      AnyUncontrolled ((th.saver.rows l.checkpoint.id).writesOf t.id) ∨
        ∃ w ∈ a.writes, Uncontrolled w ∧ l.persists g w := by
    rw [← hwrites]
    exact hrows
  rw [retried_iff hclosed hresumed h.notNull hu hp hname, hstored, not_or, and_assoc]
  simp only [not_exists, not_and]

section Runs

def writer : PregelNode := ⟨.single "a", ["a"], none, none, none, none, true⟩

def hashed (parts : List String) : String :=
  if "node_error_handler" ∈ parts then "handler" else String.join parts

def writerGraph : Graph Channel :=
  { Graph.ofSpecs (Dict.ofList [("a", .lastValue ⟨"a", none⟩), ("b", .lastValue ⟨"b", none⟩)]) with
    nodes := Dict.ofList [("n", writer)]
    triggerToNodes := Dict.ofList [("a", ["n"])]
    taskId := hashed }

def openingEvents : List (Event Nat) :=
  [.enter (LoopConfig.plain .sync) none "0" none,
    .first (.value (.int 7)) false successor successor "1", .tick]

def started : Thread Channel Nat := run (step writerGraph (.single "a")) fresh openingEvents

def startedLoop : PregelLoop Channel Nat := started.loop.get (by decide)

def startedTask : PregelTask := (startedLoop.task? "1n0n__pregel_pulla").get (by decide)

def resumption : Resumption Nat :=
  ⟨LoopConfig.plain .sync, none, "0", .none, false, successor, successor, "2"⟩

def failedRun (writes : List Write) : Thread Channel Nat :=
  superstepRun writerGraph (.single "a") started [] startedTask
    ⟨writes, some (.error (.str "boom"))⟩ [] successor

def resumedRun (writes : List Write) : Thread Channel Nat :=
  (failedRun writes).resume writerGraph (.single "a") resumption

def resumedTick (writes : List Write) : Option (PregelLoop Channel Nat) :=
  (resumedRun writes).loop.map (fun l => (l.tick writerGraph).1)

theorem startedTask_id : startedTask.id = "1n0n__pregel_pulla" := by decide

theorem started_atSuperstep :
    AtSuperstep writerGraph (.single "a") started startedLoop startedTask where
  reachable := ⟨openingEvents, rfl⟩
  loop := (Option.some_get _).symm
  task := by
    rw [startedTask_id]
    exact (Option.some_get _).symm
  notNull := by decide
  noSource := by decide
  loaded := by decide
  synthetic := by decide

theorem startedTask_unhandled : PregelLoop.Unhandled writerGraph startedTask where
  node := by decide
  ids := by
    intro failed handler checkpointId step h htask
    have hid : h.id = "handler" := by
      unfold PregelLoop.prepareNodeErrorHandlerTask at htask
      split at htask
      · split at htask
        · rw [← Option.some.inj htask]
          simp [writerGraph, hashed]
        · cases htask
      · cases htask
    rw [hid, startedTask_id]
    decide

def resumedLoop : PregelLoop Channel Nat := (resumedRun []).loop.get (by decide)

def preparedAgain : PregelTask :=
  ((resumedLoop.preparedTasks writerGraph).get? startedTask.id).get (by decide)

theorem failedRun_resumed :
    ResumedAt writerGraph (.single "a") resumption (failedRun []) startedLoop.checkpoint.id
      resumedLoop (resumedLoop.tick writerGraph).1 where
  latest := by decide
  resuming := by
    intro l₀ henter
    have hresuming : (match PregelLoop.enter writerGraph resumption.config resumption.cache
        resumption.freshId none (failedRun []).saver with
      | .ok l => l.isResuming resumption.input resumption.sameRun
      | .error _ => true) = true := by decide
    rw [henter] at hresuming
    exact hresuming
  entered := (Option.some_get _).symm
  ticked := by
    have hproceed : (resumedLoop.tick writerGraph).2 = .proceed := by decide
    rw [← hproceed]

theorem idle_task_retried : (resumedLoop.tick writerGraph).1.Retried startedTask.id := by
  refine (failed_task_retried_iff writerGraph (.single "a") started_atSuperstep
    startedTask_unhandled (by simp) (by simp) ⟨.str "boom", Or.inl rfl⟩ successor resumption
    failedRun_resumed (p := preparedAgain) (Option.some_get _).symm (by decide)).mpr ?_
  exact ⟨by decide, by decide, fun c k hcache => by cases hcache⟩

theorem written_task_not_retried :
    ¬ ∃ l, resumedTick [("b", .int 1)] = some l ∧ l.Retried startedTask.id := by
  rintro ⟨l, hl, hwrites, -⟩
  have htask : ((resumedTick [("b", .int 1)]).bind (fun l => l.task? startedTask.id)).map
      PregelTask.writes = some [("b", .int 1)] := by decide
  rw [hl, Option.bind_some, hwrites] at htask
  cases htask

end Runs

end Thread

end LangGraph
