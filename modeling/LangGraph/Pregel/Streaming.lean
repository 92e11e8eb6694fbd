import LangGraph.Pregel.ErrorHandlers
import LangGraph.Pregel.SeenVersions

namespace LangGraph

open Collections Transition Relation

variable {Ver : Type}

-- How a superstep is reached.
inductive SuperstepKind where
  | resumed | input | later
  deriving DecidableEq

inductive Phase where
  | entered
  | ready (kind : SuperstepKind)
  | running (kind : SuperstepKind)
  | ended
  deriving DecidableEq

-- The events of a thread and what a task that runs may ask the loop for.
inductive LoopEvent (Ver : Type) where
  | thread (e : Event Ver)
  | call (parent : List PathPart) (writeIdx : Nat) (call : Call)
  | scheduleErrorHandler (failedId : String)

structure Streaming (C Ver : Type) where
  thread : Thread C Ver
  phase : Phase

section Machine

variable {C : Type} [BaseChannel C] [LinearOrder Ver] [OrderBot Ver]

def Phase.next (g : Graph C) (l : PregelLoop C Ver) : Phase → LoopEvent Ver → Option Phase
  | .entered, .thread (.first input sameRun _ _ _) =>
      some (.ready (if l.isResuming input sameRun then .resumed else .input))
  | .ready kind, .thread .tick =>
      some (if (l.tick g).2 = .proceed then .running kind else .ended)
  | .running kind, .thread .matchCachedWrites => some (.running kind)
  | .running kind, .thread (.taskWrites _ _) => some (.running kind)
  | .running kind, .thread (.commit _ _) => some (.running kind)
  | .running kind, .thread (.putWrites _ _) => some (.running kind)
  | .running kind, .call _ _ _ => some (.running kind)
  | .running kind, .scheduleErrorHandler _ => some (.running kind)
  | .running _, .thread (.afterTick next newId) =>
      some (if (l.afterTick g next newId).2.isNone then .ready .later else .ended)
  | _, .thread (.exit _) => some .ended
  | _, _ => none

def Thread.loopStep (g : Graph C) (inputKeys : InputKeys) (th : Thread C Ver) :
    LoopEvent Ver → Thread C Ver
  | .thread e => th.step g inputKeys e
  | .call parent writeIdx call => th.runStep g inputKeys (.call parent writeIdx call)
  | .scheduleErrorHandler failedId =>
      match th.loop with
      | some l => th.proceed (l.scheduleErrorHandler g failedId).1
      | none => th

namespace Streaming

def step (g : Graph C) (inputKeys : InputKeys) (s : Streaming C Ver) (e : LoopEvent Ver) :
    Streaming C Ver :=
  match s.thread.loop with
  | none => ⟨s.thread.loopStep g inputKeys e, .entered⟩
  | some l =>
      match s.phase.next g l e with
      | some phase => ⟨s.thread.loopStep g inputKeys e, phase⟩
      | none => s

def fresh : Streaming C Ver := ⟨Thread.fresh, .ended⟩

end Streaming

namespace PregelLoop

def listed (l : PregelLoop C Ver) (name : String) : Bool := l.config.interruptBefore.contains name

-- The tasks of the superstep that `tick` starts.
def scheduled (g : Graph C) (l : PregelLoop C Ver) : List PregelTask :=
  (l.resumedTasks g (l.preparedTasks g)).values

-- The pull tasks of the superstep when every node is a candidate.
def dueTasks (g : Graph C) (l : PregelLoop C Ver) : List PregelTask :=
  g.preparePulls l.checkpoint l.channels l.step true (g.candidateNodes l.checkpoint none none) []

-- The loop when `_first` has applied the null writes.
def nulled (g : Graph C) (input : Input) (next : GetNextVersion Ver) (l : PregelLoop C Ver) :
    PregelLoop C Ver :=
  let l := ((l.dropResumed (l.dropTimeTravel input)).putInput g input).1
  (l.applyNullWrites g next l.storedUpdates).1

def executes (g : Graph C) (l : PregelLoop C Ver) : LoopEvent Ver → List String
  | .thread .tick =>
      if (l.tick g).2 = .proceed then (l.tick g).1.liveTasks.map PregelTask.name else []
  | .scheduleErrorHandler failedId => ((l.errorHandlerTask g failedId).map PregelTask.name).toList
  | _ => []

end PregelLoop

def PregelTask.seen (t : PregelTask) : String × List String := (t.name, t.triggers)

def PregelTaskWrites.seen (t : PregelTaskWrites) : String × List String := (t.name, t.triggers)

namespace PregelLoop

-- Every due task of a listed node is among the tasks, by name and triggers.
def covers (g : Graph C) (tasks : List (String × List String)) (l : PregelLoop C Ver) : Bool :=
  (l.dueTasks g).all (fun t => !l.listed t.name || t.seen ∈ tasks)

-- The superstep changes a version.
def moves (g : Graph C) (next : GetNextVersion Ver) (l : PregelLoop C Ver) : Bool :=
  let versions := (applyWrites l.checkpoint l.channels (l.liveTasks.map PregelTask.taskWrites)
    (some next) g.triggerToNodes).1.channelVersions
  versions.keys.any (fun chan => versions.get? chan ≠ l.checkpoint.channelVersions.get? chan)

def errorHandlerOf (g : Graph C) (failedId : String) (l : PregelLoop C Ver) : Option String :=
  (l.task? failedId).bind (fun t => (g.nodes.get? t.name).bind PregelNode.errorHandlerNode)

def ok (g : Graph C) (l : PregelLoop C Ver) : Phase → LoopEvent Ver → Bool
  | .entered, .thread (.first input sameRun nextNull _ _) =>
      let nulled := l.nulled g input nextNull
      l.isResuming input sameRun ||
        nulled.covers g ((nulled.discardTasks g none).map PregelTaskWrites.seen)
  | .ready .input, .thread .tick =>
      (l.scheduled g).all (fun t => !l.listed t.name || updatesSinceInterrupt l.checkpoint ||
        (l.preparedTasks g).values.any (fun u => u.name = t.name))
  | .running .resumed, .thread (.afterTick next _) =>
      updatesSinceInterrupt l.checkpoint || l.moves g next ||
        l.covers g (l.liveTasks.map PregelTask.seen)
  | .running kind, .scheduleErrorHandler failedId =>
      decide (kind = .resumed) || (l.errorHandlerOf g failedId).all (fun name => !l.listed name)
  | _, _ => true

end PregelLoop

def Phase.exempt : Phase → Bool
  | .ready .resumed => true
  | .running .resumed => true
  | _ => false

namespace Streaming

-- A listed node that is scheduled is returned by `should_interrupt`, and none is executed.
def Unskipped (g : Graph C) (s : Streaming C Ver) (e : LoopEvent Ver) : Prop :=
  ∀ l, s.thread.loop = some l → (s.phase.next g l e).isSome → s.phase.exempt = false →
    (∀ name ∈ l.executes g e, l.listed name = false) ∧
    (e = .thread .tick → ∀ t ∈ l.scheduled g, l.listed t.name = true →
      t ∈ shouldInterrupt l.checkpoint l.config.interruptBefore (l.scheduled g) ∧
      (l.step ≤ l.stop → (l.tick g).2 = .interruptBefore))

def Ok (g : Graph C) (s : Streaming C Ver) (e : LoopEvent Ver) : Prop :=
  s.thread.loop.all (fun l => l.ok g s.phase e) = true

instance (g : Graph C) (s : Streaming C Ver) (e : LoopEvent Ver) : Decidable (s.Ok g e) :=
  inferInstanceAs (Decidable (_ = true))

end Streaming

end Machine

section Invariant

variable [LinearOrder Ver] [OrderBot Ver] {g : Graph Channel}

namespace PregelLoop

variable {l l' : PregelLoop Channel Ver}

-- Nothing listed can start without a version that has moved.
structure Idle (g : Graph Channel) (l : PregelLoop Channel Ver) : Prop where
  updated : l.updatedChannels = some ∅
  due : ∀ t ∈ l.dueTasks g, l.listed t.name = false
  sends : ∀ checkpointId step, g.pushTasks checkpointId l.channels step true = []

def Guarded (g : Graph Channel) (l : PregelLoop Channel Ver) : Prop :=
  updatesSinceInterrupt l.checkpoint = true ∨ l.Idle g

-- The tasks of a superstep that runs.
def Known (g : Graph Channel) (t : PregelTask) : Prop :=
  t.triggers ≠ [] ∧ (t.name ∈ g.nodes.keys ∨ t.triggers = [Key.push])

structure Underway (g : Graph Channel) (kind : SuperstepKind) (l : PregelLoop Channel Ver) :
    Prop where
  nonempty : l.liveTasks ≠ []
  known : ∀ t ∈ l.liveTasks, Known g t
  due : kind ≠ .resumed → updatesSinceInterrupt l.checkpoint = true ∨
    ∀ t ∈ l.dueTasks g, l.listed t.name = false

theorem covers_mem {tasks : List (String × List String)} (h : l.covers g tasks = true)
    {t : PregelTask} (ht : t ∈ l.dueTasks g) (hlisted : l.listed t.name = true) :
    (t.name, t.triggers) ∈ tasks := by
  have hmem := List.all_eq_true.mp h t ht
  rw [hlisted] at hmem
  exact of_decide_eq_true hmem

section Prepared

omit [LinearOrder Ver] [OrderBot Ver] in
theorem candidateNodes_empty (g : Graph Channel) (checkpoint : Checkpoint Ver)
    (triggerToNodes : Option (Dict String (List String))) :
    g.candidateNodes checkpoint triggerToNodes (some ∅) = g.candidateNodes checkpoint none none := by
  cases triggerToNodes with
  | none => rfl
  | some index => simp [Graph.candidateNodes]

theorem pushTask_isNone (g : Graph Channel) (checkpointId checkpointId' : String)
    (step step' : Int) (idx idx' : Nat) (v : Value)
    (h : g.pushTask checkpointId step true idx v = none) :
    g.pushTask checkpointId' step' true idx' v = none := by
  cases v with
  | send node arg =>
    simp only [Graph.pushTask] at h ⊢
    cases hn : g.nodes.get? node with
    | none => rfl
    | some proc =>
      simp only [hn, if_true] at h ⊢
      split at h
      · cases h
      · rename_i hnode
        rw [if_neg hnode]
  | _ => rfl

theorem pushTasks_nil {channels : Dict String Channel} {checkpointId : String} {step : Int}
    (h : g.pushTasks checkpointId channels step true = []) (checkpointId' : String)
    (step' : Int) : g.pushTasks checkpointId' channels step' true = [] := by
  rw [Graph.pushTasks, List.filterMap_eq_nil_iff] at h ⊢
  exact fun p hp => pushTask_isNone g _ _ _ _ _ _ p.1 (h p hp)

theorem pushTasks_of_no_sends {channels : Dict String Channel}
    (h : Graph.pendingSends channels = []) (checkpointId : String) (step : Int) :
    g.pushTasks checkpointId channels step true = [] := by
  rw [Graph.pushTasks, h]
  rfl

theorem Idle.prepared (h : l.Idle g) {t : PregelTask} (ht : t ∈ (l.preparedTasks g).values) :
    l.listed t.name = false := by
  obtain ⟨id, hid⟩ := Dict.mem_values.mp ht
  obtain ⟨task, hmem, heq⟩ := List.mem_map.mp (Dict.mem_items_ofList (Dict.get?_eq_some.mp hid))
  obtain ⟨-, rfl⟩ := Prod.mk.inj heq
  rw [h.sends, List.nil_append, h.updated, candidateNodes_empty] at hmem
  exact h.due task hmem

theorem known_of_prepared {checkpoint : Checkpoint Ver} {channels : Dict String Channel}
    {step : Int} {triggerToNodes : Option (Dict String (List String))}
    {updated : Option (Finset String)} {id : String} {t : PregelTask}
    (h : (g.prepareNextTasks checkpoint channels step true triggerToNodes updated).get? id =
      some t) : Known g t := by
  obtain ⟨-, hpush | ⟨name, -, cache, hpull⟩⟩ :=
    Graph.mem_prepareNextTasks (Dict.get?_eq_some.mp h)
  · obtain ⟨idx, v, -, hv⟩ := Graph.mem_pushTasks hpush
    cases v with
    | send node arg =>
      simp only [Graph.pushTask] at hv
      cases hn : g.nodes.get? node with
      | none => simp [hn] at hv
      | some proc =>
        simp only [hn, if_true] at hv
        split at hv
        · rw [← Option.some.inj hv]
          exact ⟨List.cons_ne_nil _ _, Or.inr rfl⟩
        · cases hv
    | _ => cases hv
  · obtain ⟨proc, hproc, ⟨_, -, hfires⟩, -, -, rfl, htriggers⟩ := Graph.preparePull_some hpull
    refine ⟨?_, Or.inl (Dict.mem_keys.mpr ⟨proc, hproc⟩)⟩
    rw [htriggers]
    exact triggers_ne_nil hfires

theorem keys_resumeErrorHandler (id : String) (step : Int) (tasks : Dict String PregelTask)
    (failed : String × Value) :
    (∀ k ∈ tasks.keys, k ∈ (resumeErrorHandler g id step tasks failed).keys) ∧
      (tasks.keys = [] → (resumeErrorHandler g id step tasks failed).keys = []) := by
  have hset (d : Dict String PregelTask) (k' : String) (t : PregelTask) :
      ∀ k ∈ d.keys, k ∈ (d.set k' t).keys := fun k hk => Dict.mem_keys_set.mpr (Or.inr hk)
  unfold resumeErrorHandler
  cases ht : tasks.get? failed.1 with
  | none => exact ⟨fun k hk => hk, fun h => h⟩
  | some t =>
    have hmem : failed.1 ∈ tasks.keys := Dict.mem_keys.mpr ⟨t, ht⟩
    have hne : tasks.keys ≠ [] := List.ne_nil_of_mem hmem
    refine ⟨fun k hk => ?_, fun h => (hne h).elim⟩
    simp only
    split
    · exact hk
    · split
      · exact hset _ _ _ k (hset _ _ _ k hk)
      · exact hset _ _ _ k hk

omit [LinearOrder Ver] [OrderBot Ver] in
theorem keys_resumedTasks (g : Graph Channel) (l : PregelLoop Channel Ver)
    (tasks : Dict String PregelTask) :
    (∀ k ∈ tasks.keys, k ∈ (l.resumedTasks g tasks).keys) ∧
      (tasks.keys = [] → (l.resumedTasks g tasks).keys = []) := by
  unfold resumedTasks
  split
  · exact ⟨fun k hk => hk, fun h => h⟩
  · unfold resumeErrorHandlers
    have hkeys : (reapplyWritesToSucceededNodes l.checkpointPendingWrites tasks).keys =
        tasks.keys := Dict.keys_mapValues _ _
    rw [← hkeys]
    generalize reapplyWritesToSucceededNodes l.checkpointPendingWrites tasks = ts
    induction failedTasks l.checkpointPendingWrites using List.reverseRecOn with
    | nil => exact ⟨fun k hk => hk, fun h => h⟩
    | append_singleton rest f ih =>
      rw [List.foldl_append]
      obtain ⟨hkept, hnil⟩ := keys_resumeErrorHandler (g := g) l.checkpoint.id l.step
        (rest.foldl (resumeErrorHandler g l.checkpoint.id l.step) ts) f
      exact ⟨fun k hk => hkept k (ih.1 k hk), fun h => hnil (ih.2 h)⟩

omit [LinearOrder Ver] [OrderBot Ver] in
theorem resumedTasks_forall {P : PregelTask → Prop}
    (hwrites : ∀ t ws, P t → P { t with writes := ws })
    (hhandler : ∀ failed handler id step t,
      prepareNodeErrorHandlerTask g failed handler id step = some t → P t)
    {tasks : Dict String PregelTask} (h : ∀ k t, tasks.get? k = some t → P t) :
    ∀ k t, (l.resumedTasks g tasks).get? k = some t → P t := by
  have hset (d : Dict String PregelTask) (hd : ∀ k t, d.get? k = some t → P t) (k' : String)
      (t' : PregelTask) (ht' : P t') : ∀ k t, (d.set k' t').get? k = some t → P t := by
    intro k t hk
    rw [Dict.get?_set] at hk
    split at hk
    · rw [← Option.some.inj hk]
      exact ht'
    · exact hd k t hk
  unfold resumedTasks
  split
  · exact h
  · have hreapplied : ∀ k t, (reapplyWritesToSucceededNodes l.checkpointPendingWrites tasks).get? k =
        some t → P t := by
      intro k t hk
      rw [reapplyWritesToSucceededNodes, Dict.get?_mapValues] at hk
      obtain ⟨t₀, ht₀, rfl⟩ := Option.map_eq_some_iff.mp hk
      exact hwrites t₀ _ (h k t₀ ht₀)
    unfold resumeErrorHandlers
    induction failedTasks l.checkpointPendingWrites using List.reverseRecOn with
    | nil => exact hreapplied
    | append_singleton rest f ih =>
      rw [List.foldl_append, List.foldl_cons, List.foldl_nil, resumeErrorHandler]
      split
      · exact ih
      · rename_i t ht
        split
        · exact ih
        · have hfailed := hset _ ih f.1 _ (hwrites t (t.writes ++ [(Key.error, f.2)]) (ih _ t ht))
          simp only
          split
          · rename_i handler htask
            exact hset _ hfailed _ _ (hhandler _ _ _ _ _ htask)
          · exact hfailed

theorem known_scheduled {t : PregelTask} (ht : t ∈ l.scheduled g) : Known g t := by
  obtain ⟨id, hid⟩ := Dict.mem_values.mp ht
  refine resumedTasks_forall (P := Known g) (fun _ _ h => h) (fun failed handler id step t h => ?_)
    (fun k t hk => known_of_prepared hk) id t hid
  unfold prepareNodeErrorHandlerTask at h
  split at h
  · split at h
    · rw [← Option.some.inj h]
      exact ⟨List.cons_ne_nil _ _, Or.inr rfl⟩
    · cases h
  · cases h

theorem keys_eq_nil {κ α : Type} {d : Dict κ α} : d.keys = [] ↔ d.items = [] :=
  List.map_eq_nil_iff

theorem scheduled_ne_nil : l.scheduled g ≠ [] ↔ (l.preparedTasks g).items ≠ [] := by
  obtain ⟨hkept, hnil⟩ := keys_resumedTasks g l (l.preparedTasks g)
  have hvalues : l.scheduled g = [] ↔ (l.resumedTasks g (l.preparedTasks g)).items = [] :=
    List.map_eq_nil_iff
  rw [ne_eq, ne_eq, not_iff_not, hvalues, ← keys_eq_nil, ← keys_eq_nil]
  constructor
  · intro h
    refine List.eq_nil_iff_forall_not_mem.mpr (fun k hk => ?_)
    have := hkept k hk
    rw [h] at this
    cases this
  · exact hnil

end Prepared

omit [LinearOrder Ver] [OrderBot Ver] in
theorem errorHandlerOf_task {failedId : String} {task : PregelTask}
    (h : l.errorHandlerTask g failedId = some task) :
    l.errorHandlerOf g failedId = some task.name := by
  unfold errorHandlerTask at h
  cases ht : l.task? failedId with
  | none =>
    rw [ht] at h
    cases h
  | some t =>
    simp only [ht] at h
    split at h
    · cases h
    · rename_i handler hhandler
      unfold prepareNodeErrorHandlerTask at h
      split at h
      · split at h
        · rw [errorHandlerOf, ht, Option.bind_some, hhandler, ← Option.some.inj h]
        · cases h
      · cases h

section Tick

theorem tick_cases (g : Graph Channel) (l : PregelLoop Channel Ver) :
    (l.stop < l.step ∧ (l.tick g).2 = .outOfSteps) ∨
      (l.step ≤ l.stop ∧ l.scheduled g = [] ∧ (l.tick g).2 = .done) ∨
      (l.step ≤ l.stop ∧ l.scheduled g ≠ [] ∧
        (l.tick g).1 = { l with tasks := some (l.resumedTasks g (l.preparedTasks g)) } ∧
        (shouldInterrupt l.checkpoint l.config.interruptBefore (l.scheduled g) = [] ∧
            (l.tick g).2 = .proceed ∨
          shouldInterrupt l.checkpoint l.config.interruptBefore (l.scheduled g) ≠ [] ∧
            (l.tick g).2 = .interruptBefore)) := by
  rcases lt_or_ge l.stop l.step with hstop | hstop
  · refine Or.inl ⟨hstop, ?_⟩
    rw [tick, if_pos hstop]
  · refine Or.inr ?_
    by_cases hprep : (l.preparedTasks g).items = []
    · have hnil : l.scheduled g = [] := by
        by_contra hne
        exact scheduled_ne_nil.mp hne hprep
      refine Or.inl ⟨hstop, hnil, ?_⟩
      rw [tick, if_neg (not_lt.mpr hstop)]
      simp only [if_pos hprep]
    · refine Or.inr ⟨hstop, scheduled_ne_nil.mpr hprep, ?_, ?_⟩
      · rw [tick, if_neg (not_lt.mpr hstop)]
        simp only [if_neg hprep]
        split
        · rfl
        · rfl
      · rw [tick, if_neg (not_lt.mpr hstop)]
        simp only [if_neg hprep]
        split
        · rename_i h
          exact Or.inr ⟨h, rfl⟩
        · rename_i h
          exact Or.inl ⟨not_not.mp h, rfl⟩

theorem shouldInterrupt_moved (hm : updatesSinceInterrupt l.checkpoint = true)
    (tasks : List PregelTask) :
    shouldInterrupt l.checkpoint l.config.interruptBefore tasks =
      tasks.filter (fun t => l.listed t.name) := by
  rw [shouldInterrupt, if_pos hm]
  rfl

theorem Underway.of_tick {kind : SuperstepKind} (h : (l.tick g).2 = .proceed)
    (hdue : kind ≠ .resumed → l.Guarded g) : (l.tick g).1.Underway g kind := by
  rcases tick_cases g l with ⟨-, hr⟩ | ⟨-, -, hr⟩ | ⟨-, hne, htick, -⟩
  · rw [hr] at h
    cases h
  · rw [hr] at h
    cases h
  · rw [htick]
    exact ⟨hne, fun t ht => known_scheduled ht, fun hk => (hdue hk).imp id (fun hi => hi.due)⟩

end Tick

section Running

variable {kind : SuperstepKind}

-- What a step inside a superstep leaves alone, and where its tasks come from.
structure Evolves (l l' : PregelLoop Channel Ver) : Prop where
  checkpoint : l'.checkpoint = l.checkpoint
  channels : l'.channels = l.channels
  step : l'.step = l.step
  config : l'.config = l.config
  nonempty : l.liveTasks ≠ [] → l'.liveTasks ≠ []
  tasks : ∀ u ∈ l'.liveTasks,
    (∃ t ∈ l.liveTasks, t.name = u.name ∧ t.triggers = u.triggers) ∨ u.triggers = [Key.push]

omit [LinearOrder Ver] [OrderBot Ver] in
theorem Evolves.refl (l : PregelLoop Channel Ver) : Evolves l l :=
  ⟨rfl, rfl, rfl, rfl, id, fun u hu => Or.inl ⟨u, hu, rfl, rfl⟩⟩

omit [LinearOrder Ver] [OrderBot Ver] in
theorem Evolves.trans {l'' : PregelLoop Channel Ver} (h : Evolves l l') (h' : Evolves l' l'') :
    Evolves l l'' := by
  refine ⟨h'.checkpoint.trans h.checkpoint, h'.channels.trans h.channels, h'.step.trans h.step,
    h'.config.trans h.config, fun hne => h'.nonempty (h.nonempty hne), fun u hu => ?_⟩
  rcases h'.tasks u hu with ⟨t, ht, hname, htriggers⟩ | hpush
  · rcases h.tasks t ht with ⟨t₀, ht₀, hname₀, htriggers₀⟩ | hpush
    · exact Or.inl ⟨t₀, ht₀, hname₀.trans hname, htriggers₀.trans htriggers⟩
    · exact Or.inr (htriggers.symm.trans hpush)
  · exact Or.inr hpush

theorem Underway.evolves (h : l.Underway g kind) (he : Evolves l l') : l'.Underway g kind := by
  have hdue : l'.dueTasks g = l.dueTasks g := by
    rw [dueTasks, dueTasks, he.checkpoint, he.channels, he.step]
  refine ⟨he.nonempty h.nonempty, fun u hu => ?_, fun hk => ?_⟩
  · rcases he.tasks u hu with ⟨t, ht, hname, htriggers⟩ | hpush
    · obtain ⟨hne, hnode⟩ := h.known t ht
      exact ⟨htriggers ▸ hne, hname ▸ htriggers ▸ hnode⟩
    · exact ⟨by rw [hpush]; exact List.cons_ne_nil _ _, Or.inr hpush⟩
  · rw [he.checkpoint, hdue, funext fun name => show l'.listed name = l.listed name by
      rw [listed, he.config, listed]]
    exact h.due hk

omit [LinearOrder Ver] [OrderBot Ver] in
theorem Evolves.retask {tasks : Dict String PregelTask} (ht : l.tasks = some tasks)
    {tasks' : Dict String PregelTask} (hkeys : tasks.keys ≠ [] → tasks'.keys ≠ [])
    (h : ∀ k u, tasks'.get? k = some u →
      (∃ t, tasks.get? k = some t ∧ t.name = u.name ∧ t.triggers = u.triggers) ∨
        u.triggers = [Key.push]) : Evolves l { l with tasks := some tasks' } := by
  have hlive : l.liveTasks = tasks.values := by rw [liveTasks, ht]; rfl
  have hlive' : ({ l with tasks := some tasks' } : PregelLoop Channel Ver).liveTasks =
      tasks'.values := rfl
  refine ⟨rfl, rfl, rfl, rfl, fun hne => ?_, fun u hu => ?_⟩
  · rw [hlive, Dict.values, ne_eq, List.map_eq_nil_iff, ← keys_eq_nil] at hne
    rw [hlive', Dict.values, ne_eq, List.map_eq_nil_iff, ← keys_eq_nil]
    exact hkeys hne
  · rw [hlive'] at hu
    obtain ⟨k, hk⟩ := Dict.mem_values.mp hu
    rcases h k u hk with ⟨t, ht', hsame⟩ | hpush
    · exact Or.inl ⟨t, hlive ▸ Dict.mem_values.mpr ⟨k, ht'⟩, hsame⟩
    · exact Or.inr hpush

omit [LinearOrder Ver] [OrderBot Ver] in
theorem keys_set_ne_nil {κ α : Type} [DecidableEq κ] (d : Dict κ α) (k : κ) (v : α) :
    (d.set k v).keys ≠ [] :=
  List.ne_nil_of_mem (Dict.mem_keys_set.mpr (Or.inl rfl))

omit [LinearOrder Ver] [OrderBot Ver] in
theorem evolves_matchCachedWrites (l : PregelLoop Channel Ver) : Evolves l l.matchCachedWrites := by
  unfold matchCachedWrites
  split
  · rename_i cache tasks _ ht
    refine Evolves.retask ht (fun h => by rwa [Dict.keys_mapValues]) (fun k u hk => Or.inl ?_)
    rw [Dict.get?_mapValues] at hk
    obtain ⟨t, hget, rfl⟩ := Option.map_eq_some_iff.mp hk
    exact ⟨t, hget, rfl, rfl⟩
  · exact Evolves.refl l

omit [LinearOrder Ver] [OrderBot Ver] in
theorem evolves_setTaskWrites (taskId : String) (writes : List Write)
    (l : PregelLoop Channel Ver) : Evolves l (l.setTaskWrites taskId writes) := by
  unfold setTaskWrites
  cases ht : l.tasks with
  | none =>
    refine ⟨rfl, rfl, rfl, rfl, fun h => ?_, fun u hu => ?_⟩
    · rw [liveTasks, ht] at h
      exact h
    · cases hu
  | some tasks =>
    simp only [Option.map_some]
    cases hid : tasks.get? taskId with
    | none => exact Evolves.retask ht id (fun k u hk => Or.inl ⟨u, hk, rfl, rfl⟩)
    | some t =>
      refine Evolves.retask ht (fun _ => keys_set_ne_nil _ _ _) (fun k u hk => Or.inl ?_)
      simp only [Dict.get?_set] at hk
      split at hk
      · rename_i heq
        rw [← Option.some.inj hk, heq]
        exact ⟨t, hid, rfl, rfl⟩
      · exact ⟨u, hk, rfl, rfl⟩

omit [LinearOrder Ver] [OrderBot Ver] in
theorem evolves_putWrites (g : Graph Channel) (taskId : String) (batch : List Write)
    (l : PregelLoop Channel Ver) : Evolves l (l.putWrites g taskId batch) := by
  by_cases hne : batch = []
  · subst hne
    exact Evolves.refl l
  · obtain ⟨cache, hput⟩ := putWrites_spec g taskId hne l
    rw [hput]
    exact ⟨rfl, rfl, rfl, rfl, id, fun u hu => Or.inl ⟨u, hu, rfl, rfl⟩⟩

omit [LinearOrder Ver] [OrderBot Ver] in
theorem evolves_commit (g : Graph Channel) (taskId : String) (attempt : Attempt)
    (l : PregelLoop Channel Ver) : Evolves l (l.commit g taskId attempt) := by
  unfold commit
  split
  · exact Evolves.refl l
  · exact (evolves_setTaskWrites _ _ l).trans (evolves_putWrites g _ _ _)

omit [LinearOrder Ver] [OrderBot Ver] in
theorem evolves_addTask {task : PregelTask} (hpush : task.triggers = [Key.push])
    (l : PregelLoop Channel Ver) : Evolves l (l.addTask task) := by
  have hadded : ∃ ws, l.addTask task =
      { l with tasks := l.tasks.map (fun ts => ts.set task.id { task with writes := ws }) } := by
    unfold addTask
    cases l.isReplaying with
    | true => exact ⟨task.writes, rfl⟩
    | false => exact ⟨_, rfl⟩
  obtain ⟨ws, hadded⟩ := hadded
  rw [hadded]
  cases ht : l.tasks with
  | none =>
    refine ⟨rfl, rfl, rfl, rfl, fun h => ?_, fun u hu => ?_⟩
    · rw [liveTasks, ht] at h
      exact h
    · cases hu
  | some tasks =>
    refine Evolves.retask ht (fun _ => keys_set_ne_nil _ _ _) (fun k u hk => ?_)
    rw [Dict.get?_set] at hk
    split at hk
    · rw [← Option.some.inj hk]
      exact Or.inr hpush
    · exact Or.inl ⟨u, hk, rfl, rfl⟩

omit [LinearOrder Ver] [OrderBot Ver] in
theorem evolves_scheduleErrorHandler (g : Graph Channel) (failedId : String)
    (l : PregelLoop Channel Ver) : Evolves l (l.scheduleErrorHandler g failedId).1 := by
  unfold scheduleErrorHandler
  cases h : l.errorHandlerTask g failedId with
  | none => exact Evolves.refl l
  | some task =>
    have hpush : task.triggers = [Key.push] := by
      unfold errorHandlerTask at h
      split at h
      · cases h
      · split at h
        · cases h
        · unfold prepareNodeErrorHandlerTask at h
          split at h
          · split at h
            · rw [← Option.some.inj h]
            · cases h
          · cases h
    exact (evolves_addTask hpush l).trans (evolves_matchCachedWrites _)

end Running

section Apply

variable {checkpoint : Checkpoint Ver} {channels : Dict String Channel}
  {tasks : List PregelTaskWrites} {next : GetNextVersion Ver} {updated : Finset String}

omit [OrderBot Ver] in
theorem harmless_of_known (hg : g.Validated) (hs : Sane checkpoint)
    (h : ∀ t ∈ tasks, t.name ∈ g.nodes.keys ∨ t.triggers = [Key.push] ∨ t.triggers = []) :
    LangGraph.Harmless checkpoint.channelVersions tasks := by
  intro t ht hname chan hchan
  rcases h t ht with hnode | hpush | hnil
  · exact absurd (hname ▸ hnode) hg.nodes
  · rw [hpush, List.mem_singleton] at hchan
    rw [hchan]
    exact hs.push
  · rw [hnil] at hchan
    cases hchan

-- An apply that moves no version leaves no Sends behind.
theorem moved_or_no_sends (hn : StrictlyIncreasing next) (hs : Sane checkpoint)
    (hh : LangGraph.Harmless checkpoint.channelVersions tasks) (ht : SendTopic channels)
    (hbump : bumpStep (sortTasks tasks) = true ∨
      ∀ checkpointId step, g.pushTasks checkpointId channels step true = [])
    (hok : (applyWrites checkpoint channels tasks (some next) g.triggerToNodes).2.2 =
      .ok updated) :
    updatesSinceInterrupt
        (applyWrites checkpoint channels tasks (some next) g.triggerToNodes).1 = true ∨
      (applyWrites checkpoint channels tasks (some next) g.triggerToNodes).1.channelVersions =
          checkpoint.channelVersions ∧
        (applyWrites checkpoint channels tasks (some next) g.triggerToNodes).2.1 = channels ∧
        updated = ∅ ∧ ∀ checkpointId step, g.pushTasks checkpointId channels step true = [] := by
  rcases moved_or_still hn hs.bounded hh hok with hm | ⟨hversions, hchannels, hupdated⟩
  · exact Or.inl hm
  · rcases hbump with hbump | hnone
    · obtain ⟨vs, hvs⟩ := ht
      by_cases hsends : sendsOf (sortTasks tasks) = []
      · have htopic := tasks_applyWrites hvs hok
        rw [hchannels, hbump, hsends] at htopic
        refine Or.inr ⟨hversions, hchannels, hupdated, fun id step => ?_⟩
        refine pushTasks_of_no_sends ?_ id step
        rw [Graph.pendingSends, htopic]
        rfl
      · exact Or.inl (moved_of_bumped hn hs.bounded (seen_applyWrites hh)
          (version_applyWrites hvs hok hsends))
    · exact Or.inr ⟨hversions, hchannels, hupdated, hnone⟩

theorem seen_putCheckpoint (next : GetNextVersion Ver) (newId source : String)
    (l : PregelLoop Channel Ver) :
    (l.putCheckpoint next newId source).checkpoint.versionsSeen = l.checkpoint.versionsSeen ∧
      (l.putCheckpoint next newId source).updatedChannels = l.updatedChannels ∧
      ((l.putCheckpoint next newId source).checkpoint.channelVersions =
          l.checkpoint.channelVersions ∨
        ∃ updated snapshot, (l.putCheckpoint next newId source).checkpoint.channelVersions =
          snapshotVersions l.channels updated (some next) snapshot
            l.checkpoint.channelVersions) := by
  unfold putCheckpoint
  simp only
  split
  · exact ⟨rfl, rfl, Or.inl rfl⟩
  · exact ⟨rfl, rfl, Or.inr ⟨_, _, rfl⟩⟩

theorem advances_putCheckpoint (hn : StrictlyIncreasing next) (newId source : String)
    (l : PregelLoop Channel Ver) :
    Advances l.checkpoint (l.putCheckpoint next newId source).checkpoint ∧
      ∀ chan, l.checkpoint.channelVersions.get? chan = none →
        (l.putCheckpoint next newId source).checkpoint.channelVersions.get? chan = none := by
  obtain ⟨hseen, -, hversions⟩ := seen_putCheckpoint next newId source l
  have hgrow (updated : Option (Finset String)) (snapshot : Finset String) :=
    @snapshotVersions_grow _ _ _ l.channels updated (some next)
      (fun n h => Option.some.inj h ▸ hn) snapshot l.checkpoint.channelVersions
  rcases hversions with hsame | ⟨updated, snapshot, hversions⟩
  · refine ⟨⟨fun chan => by rw [hseen], fun chan v hv => ⟨v, by rw [hsame]; exact hv, le_rfl⟩⟩,
      fun chan hv => by rw [hsame]; exact hv⟩
  · exact ⟨⟨fun chan => by rw [hseen], by rw [hversions]; exact (hgrow updated snapshot).1⟩,
      by rw [hversions]; exact (hgrow updated snapshot).2⟩

theorem Guarded.putCheckpoint (hn : StrictlyIncreasing next) (hs : SeenBounded l.checkpoint)
    (h : l.Guarded g) (newId source : String) :
    (l.putCheckpoint next newId source).Guarded g := by
  obtain ⟨hadvances, hnone⟩ := advances_putCheckpoint hn newId source l
  obtain ⟨hseen, hupdated, -⟩ := seen_putCheckpoint next newId source l
  obtain ⟨hchannels, -, -, hconfig⟩ := channels_putCheckpoint next newId source l
  rcases h with hm | hidle
  · exact Or.inl (hadvances.moved hm)
  · rcases hadvances.moved_or_same hs hnone with hm | hsame
    · exact Or.inl hm
    · refine Or.inr ⟨hupdated.trans hidle.updated, fun t ht => ?_, fun id step => ?_⟩
      · have hsub : ∃ u ∈ l.dueTasks g, u.name = t.name ∧ u.triggers = t.triggers := by
          have hnames : g.candidateNodes (l.putCheckpoint next newId source).checkpoint none none =
              g.candidateNodes l.checkpoint none none := by
            have hitems : (l.putCheckpoint next newId source).checkpoint.channelVersions.items = [] ↔
                l.checkpoint.channelVersions.items = [] := by
              simp only [Graph.items_eq_nil_iff, hsame]
            simp only [Graph.candidateNodes, hitems]
          rw [dueTasks, hnames, hchannels] at ht
          exact Graph.preparePulls_sub (fun name proc _ hf => hf.congr hsame (by rw [hseen]))
            (fun _ hk => hk) ht
        obtain ⟨u, hu, hname, -⟩ := hsub
        rw [listed, hconfig, ← hname]
        exact hidle.due u hu
      · rw [hchannels]
        exact hidle.sends id step

-- What an apply that moves no version leaves due was due, and no task covered it.
theorem due_of_still {m : PregelLoop Channel Ver}
    (hcheckpoint : m.checkpoint =
      (applyWrites l.checkpoint l.channels tasks (some next) g.triggerToNodes).1)
    (hversions : m.checkpoint.channelVersions = l.checkpoint.channelVersions)
    (hchannels : m.channels = l.channels) {t : PregelTask} (ht : t ∈ m.dueTasks g) :
    (∃ u ∈ l.dueTasks g, u.name = t.name ∧ u.triggers = t.triggers) ∧
      (t.name, t.triggers) ∉ tasks.map PregelTaskWrites.seen := by
  have hseen : m.checkpoint.versionsSeen = (sortTasks tasks).foldl
      (seeVersions l.checkpoint.channelVersions) l.checkpoint.versionsSeen := by
    rw [hcheckpoint]
    rfl
  have hnames : g.candidateNodes m.checkpoint none none =
      g.candidateNodes l.checkpoint none none := by
    simp only [Graph.candidateNodes, hversions]
  rw [dueTasks, hnames, hchannels] at ht
  refine ⟨Graph.preparePulls_sub (fun name proc _ hf => (hf.of_seen hversions hseen).1)
    (fun _ hk => hk) ht, fun hmem => ?_⟩
  obtain ⟨proc, -, hfires, htriggers⟩ := Graph.mem_preparePulls_fires ht
  obtain ⟨u, hu, heq⟩ := List.mem_map.mp hmem
  obtain ⟨hname, hsame⟩ := Prod.mk.inj heq
  refine (hfires.of_seen hversions hseen).2 u hu hname (fun chan hchan => ?_)
  have hperm : (Graph.sortedTriggers proc).Perm proc.triggers := List.perm_insertionSort _ _
  have hu' : u.triggers = t.triggers := hsame
  rw [hu', htriggers]
  exact hperm.mem_iff.mpr hchan

end Apply

section Rest

variable {kind : SuperstepKind} {next : GetNextVersion Ver}

theorem Underway.bumpStep (h : l.Underway g kind) :
    bumpStep (sortTasks (l.liveTasks.map PregelTask.taskWrites)) = true := by
  obtain ⟨t, ht⟩ := List.exists_mem_of_ne_nil _ h.nonempty
  refine List.any_eq_true.mpr ⟨t.taskWrites, mem_sortTasks.mpr (List.mem_map_of_mem ht), ?_⟩
  have htriggers := (h.known t ht).1
  simpa [PregelTask.taskWrites] using htriggers

theorem Underway.harmless (h : l.Underway g kind) (hg : g.Validated) (hs : Sane l.checkpoint) :
    LangGraph.Harmless l.checkpoint.channelVersions (l.liveTasks.map PregelTask.taskWrites) := by
  refine harmless_of_known hg hs (fun t ht => ?_)
  obtain ⟨u, hu, rfl⟩ := List.mem_map.mp ht
  exact (h.known u hu).2.imp id Or.inl

theorem Underway.afterTick (h : l.Underway g kind) (hg : g.Validated) (hs : l.core.Sane)
    (hn : StrictlyIncreasing next) {newId : String}
    (hok : (l.afterTick g next newId).2.isNone = true)
    (hcovers : kind = .resumed → (updatesSinceInterrupt l.checkpoint || l.moves g next ||
      l.covers g (l.liveTasks.map PregelTask.seen)) = true) :
    (l.afterTick g next newId).1.Guarded g ∧
      (l.afterTick g next newId).1.checkpointPendingWrites = [] := by
  obtain ⟨updated, exitWrites, happlied, hafter⟩ := afterTick_ok (Option.isNone_iff_eq_none.mp hok)
  rw [hafter]
  refine ⟨?_, (channels_putCheckpoint next newId "loop" _).2.1⟩
  have hsane : Sane l.checkpoint := hs.checkpoint
  have hharmless := h.harmless hg hsane
  refine Guarded.putCheckpoint hn ?_ ?_ newId "loop"
  · exact (hsane.applyWrites hn hs.push _ g.triggerToNodes).bounded
  · rcases moved_or_no_sends hn hsane hharmless hs.topic (Or.inl h.bumpStep) happlied with
      hm | ⟨hversions, hchannels, hupdated, hsends⟩
    · exact Or.inl hm
    · have hadvances := advances_applyWrites hn hharmless l.channels g.triggerToNodes
      have hmoved (hm : updatesSinceInterrupt l.checkpoint = true) :
          updatesSinceInterrupt (l.applied g next).1 = true := hadvances.moved hm
      have hcovered : updatesSinceInterrupt l.checkpoint = true ∨
          l.covers g (l.liveTasks.map PregelTask.seen) = true := by
        by_cases hk : kind = .resumed
        · have hcovers := hcovers hk
          rw [Bool.or_eq_true, Bool.or_eq_true, or_assoc] at hcovers
          rcases hcovers with hm | hmoves | hc
          · exact Or.inl hm
          · obtain ⟨chan, -, hchan⟩ := List.any_eq_true.mp hmoves
            exact (of_decide_eq_true hchan
              (congrArg (fun versions => Dict.get? versions chan) hversions)).elim
          · exact Or.inr hc
        · refine (h.due hk).imp id (fun hnone => List.all_eq_true.mpr (fun t ht => ?_))
          rw [hnone t ht]
          rfl
      rcases hcovered with hm | hc
      · exact Or.inl (hmoved hm)
      · refine Or.inr ⟨by rw [hupdated], fun t ht => ?_, fun id step => ?_⟩
        · obtain ⟨⟨u, hu, hname, htriggers⟩, hnot⟩ :=
            @due_of_still _ _ _ g l _ next _ rfl hversions hchannels _ ht
          by_contra hlisted
          have hu' : l.listed u.name = true := by
            rw [hname]
            exact Bool.eq_true_of_not_eq_false hlisted
          have hmem := covers_mem hc hu hu'
          rw [hname, htriggers] at hmem
          rw [List.map_map] at hnot
          exact hnot hmem
        · exact hchannels ▸ hsends id step

theorem discardTasks_none (g : Graph Channel) (updated : Option (Finset String))
    (l : PregelLoop Channel Ver) : l.discardTasks g updated = l.discardTasks g none := by
  cases updated with
  | none => rfl
  | some u => rfl

theorem known_discard {t : PregelTaskWrites} (ht : t ∈ l.discardTasks g none) :
    t.triggers ≠ [] ∧ (t.name ∈ g.nodes.keys ∨ t.triggers = [Key.push]) := by
  obtain ⟨u, hu, rfl⟩ := List.mem_map.mp ht
  obtain ⟨id, hid⟩ := Dict.mem_values.mp hu
  exact known_of_prepared hid

theorem discard_or_no_sends (g : Graph Channel) (l : PregelLoop Channel Ver)
    (task : PregelTaskWrites) :
    bumpStep (sortTasks (l.discardTasks g none ++ [task])) = true ∨
      ∀ checkpointId step, g.pushTasks checkpointId l.channels step true = [] := by
  by_cases hnil : l.discardTasks g none = []
  · right
    have hvalues : (g.prepareNextTasks l.checkpoint l.channels l.step true none none).values = [] :=
      List.map_eq_nil_iff.mp hnil
    refine @pushTasks_nil _ _ l.checkpoint.id l.step ?_
    refine List.eq_nil_iff_forall_not_mem.mpr (fun t ht => ?_)
    have hkey : t.id ∈ (g.prepareNextTasks l.checkpoint l.channels l.step true none none).keys := by
      refine Dict.mem_keys_ofList.mpr ?_
      rw [List.map_map]
      exact List.mem_map_of_mem (List.mem_append_left _ ht)
    have hkeys : (g.prepareNextTasks l.checkpoint l.channels l.step true none none).keys = [] :=
      keys_eq_nil.mpr (List.map_eq_nil_iff.mp hvalues)
    rw [hkeys] at hkey
    cases hkey
  · left
    obtain ⟨t, ht⟩ := List.exists_mem_of_ne_nil _ hnil
    refine List.any_eq_true.mpr ⟨t, mem_sortTasks.mpr (List.mem_append_left _ ht), ?_⟩
    simpa using (known_discard ht).1

omit [LinearOrder Ver] [OrderBot Ver] in
theorem frame_putDeltaInput (g : Graph Channel) (writes : List Write)
    (l : PregelLoop Channel Ver) :
    (l.putDeltaInput g writes).checkpoint = l.checkpoint ∧
      (l.putDeltaInput g writes).channels = l.channels ∧
      (l.putDeltaInput g writes).step = l.step ∧
      (l.putDeltaInput g writes).config = l.config := by
  unfold putDeltaInput
  split
  · exact ⟨rfl, rfl, rfl, rfl⟩
  · have h := evolves_putWrites g nullTaskId (writes.filter (fun w => deltaKey g.specs w.1)) l
    exact ⟨h.checkpoint, h.channels, h.step, h.config⟩

theorem first_input {inputKeys : InputKeys} {input : Input} {sameRun : Bool}
    {nextNull : GetNextVersion Ver} {newId : String}
    (h : (l.first g inputKeys input sameRun nextNull next newId).2 = none)
    (hres : l.isResuming input sameRun = false) :
    ∃ updated writes u, (∃ v, input = .value v ∧ writes = mapInput inputKeys v) ∧
      ((l.nulled g input nextNull).inputApplied g next updated writes).2 = .ok u ∧
      (l.first g inputKeys input sameRun nextNull next newId).1 =
        putCheckpoint next newId "input"
          { ((l.nulled g input nextNull).inputApplied g next updated writes).1.putDeltaInput g
              writes with updatedChannels := some u } := by
  unfold first at h ⊢
  obtain ⟨-, heq⟩ := andThen_ok h
  rw [heq] at h ⊢
  simp only [hres, Bool.false_eq_true, if_false] at h ⊢
  split at h
  · cases h
  · rename_i updated _
    cases input with
    | none => cases h
    | command c => cases h
    | value v =>
      simp only [enterInput] at h ⊢
      split at h
      · cases h
      · rename_i writes _
        rw [inputFirst_eq] at h ⊢
        cases hr : ((l.nulled g (.value v) nextNull).inputApplied g next updated
          (mapInput inputKeys v)).2 with
        | error e =>
          rw [nulled] at hr
          simp only [hr] at h
          cases h
        | ok u =>
          refine ⟨updated, mapInput inputKeys v, u, ⟨v, rfl, rfl⟩, hr, ?_⟩
          rw [nulled] at hr
          simp only [hr]
          rfl

theorem sane_nulled (hg : g.Validated) {s : InMemorySaver Ver} (hs : l.core.SaneAt s)
    {nextNull : GetNextVersion Ver} (hnull : StrictlyIncreasing nextNull) (input : Input) :
    (l.nulled g input nextNull).core.SaneAt s := by
  have hdrop : (l.dropResumed (l.dropTimeTravel input)).core = l.core := by
    unfold dropResumed
    split <;> rfl
  have hput := moves_putInput (g := g) (N := StrictlyIncreasing) (I := fun _ => True) input
    (l.dropResumed (l.dropTimeTravel input))
  rw [hdrop] at hput
  exact (invariant_sane hg).moves (hput.trans (moves_applyNullWrites hnull _ _)) hs

theorem applied_ok {updated : Option (Finset String)} {writes : List Write} {u : Finset String}
    (h : (l.inputApplied g next updated writes).2 = .ok u) :
    (applyWrites l.checkpoint l.channels (l.discardTasks g none ++ [⟨[], Key.input, writes, []⟩])
      (some next) g.triggerToNodes).2.2 = .ok u := by
  rw [inputApplied, discardTasks_none, applyInputWrites] at h
  generalize l.discardTasks g none ++ [⟨[], Key.input, writes, []⟩] = tasks at h ⊢
  generalize (applyWrites l.checkpoint l.channels tasks (some next) g.triggerToNodes).2.2 = r
    at h ⊢
  cases r with
  | error e => cases h
  | ok u' => rw [← Except.ok.inj h]

theorem frame_inputApplied (updated : Option (Finset String)) (writes : List Write) :
    (l.inputApplied g next updated writes).1.checkpoint =
        (applyWrites l.checkpoint l.channels
          (l.discardTasks g none ++ [⟨[], Key.input, writes, []⟩]) (some next)
          g.triggerToNodes).1 ∧
      (l.inputApplied g next updated writes).1.channels =
        (applyWrites l.checkpoint l.channels
          (l.discardTasks g none ++ [⟨[], Key.input, writes, []⟩]) (some next)
          g.triggerToNodes).2.1 := by
  rw [inputApplied, discardTasks_none]
  generalize l.discardTasks g none ++ [⟨[], Key.input, writes, []⟩] = tasks
  exact ⟨rfl, rfl⟩

theorem Guarded.first (hg : g.Validated) {s : InMemorySaver Ver} (hs : l.core.SaneAt s)
    {inputKeys : InputKeys} {input : Input} {sameRun : Bool} {nextNull : GetNextVersion Ver}
    {newId : String} (hnull : StrictlyIncreasing nextNull) (hn : StrictlyIncreasing next)
    (hok : (l.first g inputKeys input sameRun nextNull next newId).2 = none)
    (hres : l.isResuming input sameRun = false)
    (hcovers : (l.nulled g input nextNull).covers g
      (((l.nulled g input nextNull).discardTasks g none).map PregelTaskWrites.seen) = true) :
    (l.first g inputKeys input sameRun nextNull next newId).1.Guarded g := by
  obtain ⟨updated, writes, u, -, happlied, heq⟩ := first_input hok hres
  have hcore := sane_nulled hg hs hnull input
  generalize l.nulled g input nextNull = n at hcore hcovers happlied heq
  rw [heq]
  have hsane : Sane n.checkpoint := hcore.2.checkpoint
  have htopic : SendTopic n.channels := hcore.2.topic
  have hpush : Key.push ∉ n.channels.keys := hcore.2.push
  obtain ⟨tasks, htasks⟩ : ∃ tasks, tasks = n.discardTasks g none ++
    [⟨[], Key.input, writes, []⟩] := ⟨_, rfl⟩
  have hok' := applied_ok happlied
  rw [← htasks] at hok'
  have hharmless : LangGraph.Harmless n.checkpoint.channelVersions tasks := by
    refine harmless_of_known hg hsane (fun t ht => ?_)
    rw [htasks] at ht
    rcases List.mem_append.mp ht with hd | hi
    · exact (known_discard hd).2.imp id Or.inl
    · rw [List.mem_singleton.mp hi]
      exact Or.inr (Or.inr rfl)
  have hbump := discard_or_no_sends g n ⟨[], Key.input, writes, []⟩
  rw [← htasks] at hbump
  obtain ⟨hcheckpoint, hchannels, hstep, hconfig⟩ := frame_putDeltaInput g writes
    (n.inputApplied g next updated writes).1
  obtain ⟨happly, hchannels'⟩ := @frame_inputApplied _ _ _ g n next updated writes
  rw [← htasks] at happly hchannels'
  refine Guarded.putCheckpoint hn ?_ ?_ newId "input"
  · simp only [hcheckpoint, happly]
    exact (hsane.applyWrites hn hpush tasks g.triggerToNodes).bounded
  · rcases moved_or_no_sends hn hsane hharmless htopic hbump hok' with
      hm | ⟨hversions, hsame, hupdated, hsends⟩
    · refine Or.inl ?_
      simp only [hcheckpoint, happly]
      exact hm
    · refine Or.inr ⟨congrArg some hupdated, fun t ht => ?_, fun id step => ?_⟩
      · obtain ⟨⟨d, hd, hname, htriggers⟩, hnot⟩ := @due_of_still _ _ _ g n tasks next
          { (n.inputApplied g next updated writes).1.putDeltaInput g writes with
            updatedChannels := some u } (hcheckpoint.trans happly)
          ((congrArg Checkpoint.channelVersions (hcheckpoint.trans happly)).trans hversions)
          (hchannels.trans (hchannels'.trans hsame)) t ht
        by_contra hlisted
        have hd' : n.listed d.name = true := by
          rw [hname]
          have hlisted' := Bool.eq_true_of_not_eq_false hlisted
          rw [listed, hconfig] at hlisted'
          exact hlisted'
        have hmem := covers_mem hcovers hd hd'
        rw [hname, htriggers] at hmem
        refine hnot ?_
        rw [htasks, List.map_append]
        exact List.mem_append_left _ hmem
      · have hsame' : ((n.inputApplied g next updated writes).1.putDeltaInput g writes).channels =
            n.channels := hchannels.trans (hchannels'.trans hsame)
        rw [hsame']
        exact hsends id step

end Rest

end PregelLoop

end Invariant

end LangGraph
