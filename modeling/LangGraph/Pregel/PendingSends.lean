import LangGraph.Pregel.CoreRun
import LangGraph.Pregel.Declared
import LangGraph.Pregel.LoopFlavours
import LangGraph.Pregel.OrderIndependence
import LangGraph.Pregel.TaskId

namespace LangGraph

open Collections Transition

-- The events of a thread and the calls a running task makes.
inductive RunEvent (Ver : Type) where
  | thread (e : Event Ver)
  | call (parent : List PathPart) (writeIdx : Nat) (call : Call)

section Machine

variable {C Ver : Type} [BaseChannel C] [LinearOrder Ver] [OrderBot Ver]

def Thread.runStep (g : Graph C) (inputKeys : InputKeys) (th : Thread C Ver) :
    RunEvent Ver → Thread C Ver
  | .thread e => th.step g inputKeys e
  | .call parent writeIdx call =>
      match th.loop with
      | some l => th.proceed (l.acceptPush g parent writeIdx call)
      | none => th

end Machine

section Triggered

variable {C Ver : Type}

def Triggered (tasks : Dict String PregelTask) : Prop :=
  ∀ k t, tasks.get? k = some t → t.triggers ≠ []

theorem triggered_set {tasks : Dict String PregelTask} (h : Triggered tasks) {k : String}
    {t : PregelTask} (ht : t.triggers ≠ []) : Triggered (tasks.set k t) := by
  intro k' t' hk
  rw [Dict.get?_set] at hk
  split at hk
  · cases hk
    exact ht
  · exact h k' t' hk

theorem triggered_mapValues {tasks : Dict String PregelTask} (h : Triggered tasks)
    {f : PregelTask → PregelTask} (hf : ∀ t, (f t).triggers = t.triggers) :
    Triggered (tasks.mapValues f) := by
  intro k t hk
  rw [Dict.get?_mapValues] at hk
  obtain ⟨t₀, ht₀, rfl⟩ := Option.map_eq_some_iff.mp hk
  rw [hf]
  exact h k t₀ ht₀

theorem triggers_ne_nil [BaseChannel C] [LinearOrder Ver] {channels : Dict String C}
    {versions : ChannelVersions Ver} {seen : Option (ChannelVersions Ver)} {nullVersion : Ver}
    {proc : PregelNode} (h : Graph.triggers channels versions seen nullVersion proc = true) :
    Graph.sortedTriggers proc ≠ [] := by
  intro hnil
  have hperm : (Graph.sortedTriggers proc).Perm proc.triggers := List.perm_insertionSort _ _
  rw [hnil] at hperm
  rw [Graph.triggers, hperm.nil_eq.symm] at h
  cases h

variable [BaseChannel C] [LinearOrder Ver] [OrderBot Ver]

theorem triggered_prepared (g : Graph C) (l : PregelLoop C Ver) :
    Triggered (l.preparedTasks g) := by
  intro k t hk
  obtain ⟨-, hpush | ⟨name, -, cache, hpull⟩⟩ :=
    Graph.mem_prepareNextTasks (Dict.get?_eq_some.mp hk)
  · obtain ⟨idx, v, -, hv⟩ := Graph.mem_pushTasks hpush
    cases v with
    | send node arg =>
      simp only [Graph.pushTask] at hv
      cases hn : g.nodes.get? node with
      | none => simp [hn] at hv
      | some proc =>
        simp only [hn, if_true] at hv
        split at hv
        · rw [← Option.some.inj hv]
          exact List.cons_ne_nil _ _
        · cases hv
    | _ => cases hv
  · unfold Graph.preparePull at hpull
    split at hpull
    · split at hpull
      · rename_i htriggers
        split at hpull
        · cases hpull
        · unfold Graph.pullTask at hpull
          simp only [if_true] at hpull
          split at hpull
          · rw [← Option.some.inj hpull]
            exact triggers_ne_nil htriggers
          · cases hpull
      · cases hpull
    · cases hpull

omit [BaseChannel C] [LinearOrder Ver] [OrderBot Ver] in
theorem triggered_errorHandler (g : Graph C) (id : String) (step : Int)
    {tasks : Dict String PregelTask} (h : Triggered tasks) (failed : String × Value) :
    Triggered (PregelLoop.resumeErrorHandler g id step tasks failed) := by
  unfold PregelLoop.resumeErrorHandler
  cases ht : tasks.get? failed.1 with
  | none => exact h
  | some t =>
    simp only
    split
    · exact h
    · rename_i handler _
      have hset : Triggered
          (tasks.set failed.1 { t with writes := t.writes ++ [(Key.error, failed.2)] }) :=
        triggered_set h (h _ t ht)
      split
      · rename_i task htask
        refine triggered_set hset ?_
        unfold PregelLoop.prepareNodeErrorHandlerTask at htask
        split at htask
        · split at htask
          · rw [← Option.some.inj htask]
            exact List.cons_ne_nil _ _
          · cases htask
        · cases htask
      · exact hset

theorem triggered_resumed (g : Graph C) (l : PregelLoop C Ver) :
    Triggered (l.resumedTasks g (l.preparedTasks g)) := by
  have hprepared := triggered_prepared g l
  unfold PregelLoop.resumedTasks
  split
  · exact hprepared
  · unfold PregelLoop.resumeErrorHandlers
    have hreapplied : Triggered (PregelLoop.reapplyWritesToSucceededNodes
        l.checkpointPendingWrites (l.preparedTasks g)) :=
      triggered_mapValues hprepared (fun _ => rfl)
    generalize PregelLoop.failedTasks l.checkpointPendingWrites = failed
    induction failed using List.reverseRecOn with
    | nil => exact hreapplied
    | append_singleton rest f ih =>
      rw [List.foldl_append]
      exact triggered_errorHandler g _ _ ih f

end Triggered

def SendTopic (channels : Dict String Channel) : Prop :=
  ∃ vs, channels.get? Key.tasks = some (.topic ⟨false, vs⟩)

section Topic

variable {Ver : Type} {channels : Dict String Channel}

def IsSendTopic (k : String) (c : Channel) : Prop := k = Key.tasks → ∃ vs, c = .topic ⟨false, vs⟩

theorem preserves_sendTopic (ws : List Write) : Preserves IsSendTopic ws where
  consume k c h hk := by
    obtain ⟨vs, rfl⟩ := h hk
    exact ⟨vs, rfl⟩
  finish k c h hk := by
    obtain ⟨vs, rfl⟩ := h hk
    exact ⟨vs, rfl⟩
  update k c values _ h hk := by
    obtain ⟨vs, rfl⟩ := h hk
    exact ⟨_, congrArg Channel.topic (Topic.update_fst ⟨false, vs⟩ values)⟩

theorem sendTopic_iff : SendTopic channels ↔
    Key.tasks ∈ channels.keys ∧ ∀ k c, channels.get? k = some c → IsSendTopic k c := by
  constructor
  · rintro ⟨vs, hvs⟩
    refine ⟨Dict.mem_keys.mpr ⟨_, hvs⟩, fun k c hc hk => ?_⟩
    rw [hk, hvs] at hc
    exact ⟨vs, (Option.some.inj hc).symm⟩
  · rintro ⟨hmem, hall⟩
    obtain ⟨c, hc⟩ := Dict.mem_keys.mp hmem
    obtain ⟨vs, rfl⟩ := hall _ c hc rfl
    exact ⟨vs, hc⟩

theorem sendTopic_applyWrites [LinearOrder Ver] (h : SendTopic channels)
    (checkpoint : Checkpoint Ver) (tasks : List PregelTaskWrites)
    (next : Option (GetNextVersion Ver)) (triggerToNodes : Dict String (List String)) :
    SendTopic (applyWrites checkpoint channels tasks next triggerToNodes).2.1 := by
  obtain ⟨hmem, hall⟩ := sendTopic_iff.mp h
  refine sendTopic_iff.mpr ⟨?_, holds_applyWrites (preserves_sendTopic _) hall⟩
  rw [keys_applyWrites]
  exact hmem

def storedSends : Option Blob → List Value
  | some (.values vs) => vs
  | some (.legacyValues vs) => vs
  | _ => []

theorem topic_load [DecidableEq Ver] {specs : Dict String Channel} (h : SendTopic specs)
    {saver : Option (InMemorySaver Ver)} {checkpoint : Checkpoint Ver}
    (hload : channelsFromCheckpoint specs saver checkpoint = .ok channels) :
    channels.get? Key.tasks =
      some (.topic ⟨false, storedSends (checkpoint.channelValues.get? Key.tasks)⟩) := by
  obtain ⟨vs, hvs⟩ := h
  obtain ⟨c, hhydrate, hc⟩ := get?_channelsFromCheckpoint hload hvs
  have hplain : ¬ isDelta (Channel.topic ⟨false, vs⟩) := by
    intro hd
    cases hd
  have hvalues (b : Option Blob) :
      BaseChannel.fromCheckpoint (Channel.topic ⟨false, vs⟩) b =
        .topic ⟨false, storedSends b⟩ := by
    rcases b with _ | b
    · rfl
    · cases b <;> rfl
  rw [hc, hydrate_of_not_delta hplain hhydrate, hvalues]

theorem pendingSends_topic {acc : Bool} {vs : List Value}
    (h : channels.get? Key.tasks = some (.topic ⟨acc, vs⟩)) :
    Graph.pendingSends channels = vs := by
  have hav : BaseChannel.isAvailable (Channel.topic ⟨acc, vs⟩) = !vs.isEmpty := rfl
  have hget : BaseChannel.get (Channel.topic ⟨acc, vs⟩) =
      if vs = [] then none else some (.list vs) := rfl
  rw [Graph.pendingSends, h]
  cases vs with
  | nil => simp [hav]
  | cons v vs => simp [hav, hget]

end Topic

section Invariant

variable {Ver : Type} [LinearOrder Ver] [OrderBot Ver] {g : Graph Channel}

theorem invariant_sendTopic (h : SendTopic g.specs) :
    Core.Invariant g (fun (_ : InMemorySaver Ver) _ => True) (fun _ _ => True) (fun _ => True)
      (fun _ c => SendTopic c.channels) (fun _ c => SendTopic c.channels) where
  load := by
    rintro s c - (⟨-, hc⟩ | ⟨-, hc⟩)
    · exact ⟨_, topic_load h hc⟩
    · exact ⟨_, topic_load h hc⟩
  move := by
    rintro s c c' (_ | _ | _ | _ | _) hc
    · exact hc
    · exact hc
    · exact sendTopic_applyWrites hc _ _ _ _
    · exact hc
    · exact hc
  keep hc := hc
  save := by
    rintro s c c' (_ | _) hc
    · exact hc
    · exact hc
  submit _ hc := hc
  settle hc := ⟨trivial, hc⟩

namespace PregelLoop

structure Kept (l l' : PregelLoop Channel Ver) : Prop where
  tasks : l'.tasks = l.tasks
  overwrites : Key.tasks ∈ l'.deltaChannelsWithOverwrite →
    Key.tasks ∈ l.deltaChannelsWithOverwrite

section Kept

variable {l l' l'' : PregelLoop Channel Ver}

omit [LinearOrder Ver] [OrderBot Ver] in
theorem Kept.refl (l : PregelLoop Channel Ver) : l.Kept l := ⟨rfl, id⟩

omit [LinearOrder Ver] [OrderBot Ver] in
theorem Kept.trans (h : l.Kept l') (h' : l'.Kept l'') : l.Kept l'' :=
  ⟨h'.tasks.trans h.tasks, fun hm => h.overwrites (h'.overwrites hm)⟩

omit [LinearOrder Ver] [OrderBot Ver] in
theorem kept_putWrites (g : Graph Channel) (taskId : String) (batch : List Write)
    (l : PregelLoop Channel Ver) : l.Kept (l.putWrites g taskId batch) := by
  by_cases hne : batch = []
  · subst hne
    exact Kept.refl l
  · obtain ⟨cache, hput⟩ := putWrites_spec g taskId hne l
    rw [hput]
    exact ⟨rfl, id⟩

theorem kept_putCheckpoint (next : GetNextVersion Ver) (newId source : String)
    (l : PregelLoop Channel Ver) : l.Kept (l.putCheckpoint next newId source) := by
  unfold putCheckpoint
  simp only
  split
  · exact ⟨rfl, id⟩
  · exact ⟨rfl, fun hm => (Finset.mem_sdiff.mp hm).1⟩

omit [LinearOrder Ver] [OrderBot Ver] in
theorem kept_overwritten (h : SendTopic g.specs) (ws : List Write)
    (hm : Key.tasks ∈ l.deltaChannelsWithOverwrite ∪ overwritten g.specs ws) :
    Key.tasks ∈ l.deltaChannelsWithOverwrite := by
  refine (Finset.mem_union.mp hm).resolve_right (fun hw => ?_)
  have hdelta := deltaOnly_overwritten g.specs ws Key.tasks hw
  obtain ⟨vs, hvs⟩ := h
  have hplain : deltaKey g.specs Key.tasks = false := by
    rw [deltaKey, hvs]
    rfl
  rw [hplain] at hdelta
  cases hdelta

theorem kept_afterTick (h : SendTopic g.specs) (next : GetNextVersion Ver) (newId : String)
    (l : PregelLoop Channel Ver) : l.Kept (l.afterTick g next newId).1 := by
  unfold afterTick
  simp only
  split
  · exact ⟨rfl, kept_overwritten h _⟩
  · refine Kept.trans ?_ (kept_putCheckpoint next newId "loop" _)
    exact ⟨rfl, kept_overwritten h (l.liveTasks.flatMap PregelTask.writes)⟩

theorem kept_resumeFirst (next : GetNextVersion Ver) (newId : String) (timeTravel : Bool)
    (l : PregelLoop Channel Ver) : l.Kept (l.resumeFirst next newId timeTravel) := by
  unfold resumeFirst forkCheckpoint
  simp only
  split
  · refine Kept.trans ?_ (kept_putCheckpoint next newId "fork" _)
    exact ⟨rfl, id⟩
  · exact ⟨rfl, id⟩

omit [LinearOrder Ver] [OrderBot Ver] in
theorem kept_putDeltaInput (g : Graph Channel) (writes : List Write)
    (l : PregelLoop Channel Ver) : l.Kept (l.putDeltaInput g writes) := by
  unfold putDeltaInput
  split
  · exact ⟨rfl, id⟩
  · exact kept_putWrites g nullTaskId _ l

theorem kept_inputFirst (h : SendTopic g.specs) (next : GetNextVersion Ver) (newId : String)
    (updated : Option (Finset String)) (writes : List Write) (l : PregelLoop Channel Ver) :
    l.Kept (l.inputFirst g next newId updated writes).1 := by
  have hmark : l.Kept ({ l with deltaChannelsWithOverwrite :=
      l.deltaChannelsWithOverwrite ∪ overwritten g.specs writes }) :=
    ⟨rfl, kept_overwritten h writes⟩
  have happly (m : PregelLoop Channel Ver) (hm : l.Kept m) (tasks : List PregelTaskWrites) :
      l.Kept (m.applyInputWrites g next tasks).1 := ⟨hm.tasks, hm.overwrites⟩
  unfold inputFirst
  simp only
  split
  · exact happly _ hmark _
  · have hdelta := (happly _ hmark (l.discardTasks g updated ++
      [⟨[], Key.input, writes, []⟩])).trans (kept_putDeltaInput g writes _)
    refine Kept.trans ?_ (kept_putCheckpoint next newId "input" _)
    exact ⟨hdelta.tasks, hdelta.overwrites⟩

theorem kept_first (h : SendTopic g.specs) (inputKeys : InputKeys) (input : Input)
    (sameRun : Bool) (nextNull next : GetNextVersion Ver) (newId : String)
    (l : PregelLoop Channel Ver) :
    l.Kept (l.first g inputKeys input sameRun nextNull next newId).1 := by
  have hdrop : l.Kept (l.dropResumed (l.dropTimeTravel input)) := by
    unfold dropResumed
    split
    · exact ⟨rfl, id⟩
    · exact Kept.refl l
  have hput (m : PregelLoop Channel Ver) : m.Kept (m.putInput g input).1 := by
    cases input with
    | none => exact Kept.refl m
    | value v => exact Kept.refl m
    | command c =>
      simp only [putInput, putCommand]
      split
      · exact Kept.refl m
      · split
        · exact Kept.refl m
        · exact kept_putWrites g nullTaskId c.writes m
  have hnull (m : PregelLoop Channel Ver) :
      m.Kept (m.applyNullWrites g nextNull m.storedUpdates).1 := by
    unfold applyNullWrites
    split
    · exact Kept.refl m
    · exact ⟨rfl, id⟩
  have henter (m : PregelLoop Channel Ver) (updated : Option (Finset String)) :
      m.Kept (m.enterInput g inputKeys next newId updated input).1 := by
    cases input with
    | none => exact Kept.refl m
    | command c => exact Kept.refl m
    | value v =>
      simp only [enterInput]
      split
      · exact Kept.refl m
      · exact kept_inputFirst h next newId updated _ m
  refine andThen_invariant (P := fun m : PregelLoop Channel Ver => l.Kept m)
    (hdrop.trans (hput _)) (fun m hm => ?_)
  simp only
  split
  · exact hm.trans (hnull m)
  · split
    · have hresumed := (hm.trans (hnull m)).trans
        (kept_resumeFirst next newId (l.dropTimeTravel input)
          (m.applyNullWrites g nextNull m.storedUpdates).1)
      exact ⟨hresumed.tasks, hresumed.overwrites⟩
    · exact (hm.trans (hnull m)).trans (henter _ _)

end Kept

structure Sending (l : PregelLoop Channel Ver) : Prop where
  triggered : Triggered (l.tasks.getD ∅)
  overwrites : Key.tasks ∉ l.deltaChannelsWithOverwrite

section Sending

variable {l l' : PregelLoop Channel Ver}

omit [LinearOrder Ver] [OrderBot Ver] in
theorem Sending.kept (h : l.Sending) (hk : l.Kept l') : l'.Sending :=
  ⟨by rw [hk.tasks]; exact h.triggered, fun hm => h.overwrites (hk.overwrites hm)⟩

omit [LinearOrder Ver] [OrderBot Ver] in
theorem Sending.retask (h : l.Sending) {tasks : Dict String PregelTask} (ht : Triggered tasks) :
    Sending { l with tasks := some tasks } :=
  ⟨ht, h.overwrites⟩

omit [LinearOrder Ver] [OrderBot Ver] in
theorem Sending.setTaskWrites (h : l.Sending) (taskId : String) (writes : List Write) :
    (l.setTaskWrites taskId writes).Sending := by
  refine ⟨?_, h.overwrites⟩
  have ht := h.triggered
  unfold PregelLoop.setTaskWrites
  cases hl : l.tasks with
  | none => exact fun k t hk => by cases hk
  | some tasks =>
    simp only [hl, Option.getD_some, Option.map_some] at ht ⊢
    cases hid : tasks.get? taskId with
    | none => exact ht
    | some t => exact triggered_set ht (ht _ t hid)

omit [LinearOrder Ver] [OrderBot Ver] in
theorem Sending.commit (h : l.Sending) (g : Graph Channel) (taskId : String) (a : Attempt) :
    (l.commit g taskId a).Sending := by
  unfold PregelLoop.commit
  split
  · exact h
  · exact (h.setTaskWrites taskId _).kept (kept_putWrites g taskId _ _)

omit [LinearOrder Ver] [OrderBot Ver] in
theorem Sending.matchCachedWrites (h : l.Sending) : l.matchCachedWrites.Sending := by
  unfold PregelLoop.matchCachedWrites
  split
  · rename_i cache tasks _ hl
    have ht := h.triggered
    rw [hl] at ht
    exact h.retask (triggered_mapValues ht (fun _ => rfl))
  · exact h

theorem Sending.tick (h : l.Sending) (g : Graph Channel) : (l.tick g).1.Sending := by
  unfold PregelLoop.tick
  simp only
  split
  · exact h
  · split
    · exact h.retask (triggered_prepared g l)
    · split
      · exact h.retask (triggered_resumed g l)
      · exact h.retask (triggered_resumed g l)

omit [LinearOrder Ver] [OrderBot Ver] in
theorem Sending.acceptPush (h : l.Sending) (g : Graph Channel) (parent : List PathPart)
    (idx : Nat) (call : Call) : (l.acceptPush g parent idx call).Sending := by
  refine ⟨?_, h.overwrites⟩
  have ht := h.triggered
  have hpush : (g.callTask l.checkpoint.id l.step parent idx call).triggers ≠ [] :=
    List.cons_ne_nil _ _
  unfold PregelLoop.acceptPush
  simp only
  cases hl : l.tasks with
  | none => exact fun k t hk => by cases hk
  | some tasks =>
    rw [hl] at ht
    cases l.isReplaying with
    | true => exact triggered_set ht hpush
    | false => exact triggered_set ht hpush

omit [OrderBot Ver] in
theorem sending_enter {config : LoopConfig} {cache : Option WritesCache} {freshId : String}
    {id : Option String} {s : InMemorySaver Ver}
    (h : PregelLoop.enter g config cache freshId id s = .ok l) : l.Sending := by
  unfold PregelLoop.enter at h
  simp only at h
  split at h
  · cases h
  · rw [← Except.ok.inj h]
    exact ⟨fun k t hk => (by cases hk), Finset.notMem_empty _⟩

end Sending

end PregelLoop

namespace Thread

structure SendsHold (th : Thread Channel Ver) : Prop where
  core : CoreHolds (fun _ => True) (fun _ c => SendTopic c.channels) th
  loop : ∀ l, th.loop = some l → l.Sending

variable {inputKeys : InputKeys} {th : Thread Channel Ver}

omit [LinearOrder Ver] [OrderBot Ver] in
theorem sendsHold_fresh : (Thread.fresh : Thread Channel Ver).SendsHold :=
  ⟨⟨trivial, fun _ hl => (by cases hl), fun _ hl => (by cases hl)⟩, fun _ hl => (by cases hl)⟩

omit [OrderBot Ver] in
theorem loop_proceed {l l' : PregelLoop Channel Ver} (h : l.Sending)
    (hl : (th.proceed l).loop = some l') : l'.Sending := by
  rw [← Option.some.inj hl]
  exact ⟨h.triggered, h.overwrites⟩

theorem sending_step (hg : SendTopic g.specs) (h : ∀ l, th.loop = some l → l.Sending)
    (e : Event Ver) : ∀ l, (th.step g inputKeys e).loop = some l → l.Sending := by
  intro m hm
  cases hl : th.loop with
  | none =>
    cases e with
    | enter config cache freshId id =>
      simp only [step, hl] at hm
      split at hm
      · rename_i l henter
        exact loop_proceed (PregelLoop.sending_enter henter) hm
      · exact h m hm
    | updateState update nextNull next freshId newId id =>
      simp only [step, hl] at hm
      exact h m hm
    | _ =>
      simp only [step, hl] at hm
      cases hm
  | some l =>
    have hs := h l hl
    cases e with
    | enter config cache freshId id =>
      simp only [step, hl] at hm
      exact h m (hl.trans hm)
    | updateState update nextNull next freshId newId id =>
      simp only [step, hl] at hm
      exact h m (hl.trans hm)
    | first input sameRun nextNull next newId =>
      have hfirst := hs.kept (PregelLoop.kept_first hg inputKeys input sameRun nextNull next newId l)
      simp only [step, hl] at hm
      split at hm
      · rename_i l' heq
        rw [heq] at hfirst
        exact loop_proceed hfirst hm
      · cases hm
    | tick =>
      simp only [step, hl] at hm
      exact loop_proceed (hs.tick g) hm
    | matchCachedWrites =>
      simp only [step, hl] at hm
      exact loop_proceed hs.matchCachedWrites hm
    | taskWrites taskId writes =>
      simp only [step, hl] at hm
      exact loop_proceed (hs.setTaskWrites taskId writes) hm
    | commit taskId attempt =>
      simp only [step, hl] at hm
      exact loop_proceed (hs.commit g taskId attempt) hm
    | putWrites taskId writes =>
      simp only [step, hl] at hm
      exact loop_proceed (hs.kept (PregelLoop.kept_putWrites g taskId writes l)) hm
    | afterTick next newId =>
      have hafter := hs.kept (PregelLoop.kept_afterTick hg next newId l)
      simp only [step, hl] at hm
      split at hm
      · rename_i l' heq
        rw [heq] at hafter
        exact loop_proceed hafter hm
      · rename_i l' err heq
        rw [heq] at hafter
        split at hm
        · exact loop_proceed hafter hm
        · cases hm
    | exit next =>
      simp only [step, hl] at hm
      cases hm

theorem SendsHold.step (hg : SendTopic g.specs) (h : th.SendsHold) (e : RunEvent Ver) :
    (th.runStep g inputKeys e).SendsHold := by
  cases e with
  | thread e =>
    have hadmits : th.Admits (fun _ _ => True) (fun _ _ => True) e :=
      ⟨fun _ _ => trivial, fun _ _ => trivial, fun _ _ _ _ _ => trivial, fun _ _ _ _ _ => trivial⟩
    exact ⟨h.core.step (invariant_sendTopic hg) hadmits, sending_step hg h.loop e⟩
  | call parent writeIdx call =>
    simp only [runStep]
    cases hl : th.loop with
    | none => exact h
    | some l =>
      have hcore : SendTopic (l.acceptPush g parent writeIdx call).core.channels :=
        h.core.loop l hl
      exact ⟨CoreHolds.proceed (invariant_sendTopic hg) hcore,
        fun m hm => loop_proceed ((h.loop l hl).acceptPush g parent writeIdx call) hm⟩

end Thread

end Invariant

end LangGraph
