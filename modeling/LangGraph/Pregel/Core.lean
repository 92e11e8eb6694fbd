import LangGraph.Pregel.ExitFlush
import LangGraph.Pregel.Thread
import Mathlib.Logic.Relation

namespace LangGraph

open Collections Relation

variable {C Ver : Type}

-- What a checkpoint is made from, and the saver calls made so far.
structure Core (C Ver : Type) where
  checkpoint : Checkpoint Ver
  channels : Dict String C
  previous : ChannelVersions Ver
  calls : List (SaverCall Ver)

def SaverCall.isRows : SaverCall Ver → Prop
  | .put _ _ _ _ => False
  | .putWrites _ _ _ _ => True

def RowsOnly (calls : List (SaverCall Ver)) : Prop := ∀ call ∈ calls, call.isRows

theorem rowsOnly_nil : RowsOnly ([] : List (SaverCall Ver)) := by
  intro call hc
  cases hc

theorem rowsOnly_single (id : String) (ws : List Write) (taskId path : String) :
    RowsOnly [(SaverCall.putWrites id ws taskId path : SaverCall Ver)] := by
  intro call hc
  rw [List.mem_singleton.mp hc]
  trivial

theorem rowsOnly_append {as bs : List (SaverCall Ver)} (ha : RowsOnly as) (hb : RowsOnly bs) :
    RowsOnly (as ++ bs) :=
  List.forall_mem_append.mpr ⟨ha, hb⟩

namespace Core

def submit (calls : List (SaverCall Ver)) (c : Core C Ver) : Core C Ver :=
  { c with calls := c.calls ++ calls }

def rename (id : String) (updated : Option (Finset String)) (c : Core C Ver) : Core C Ver :=
  { c with checkpoint := { c.checkpoint with id := id, updatedChannels := updated } }

theorem submit_nil (c : Core C Ver) : c.submit [] = c := by
  rw [submit, List.append_nil]

theorem submit_submit (as bs : List (SaverCall Ver)) (c : Core C Ver) :
    (c.submit as).submit bs = c.submit (as ++ bs) := by
  simp only [submit, List.append_assoc]

variable [BaseChannel C]

def created (next : Option (GetNextVersion Ver)) (id : String)
    (updated : Option (Finset String)) (snapshot : Finset String) (sanitize : Bool)
    (c : Core C Ver) : Checkpoint Ver :=
  let checkpoint := createCheckpoint c.checkpoint (some c.channels) id updated next snapshot
  if sanitize then
    { checkpoint with channelValues := sanitizeTasks c.channels checkpoint.channelValues }
  else checkpoint

variable [LinearOrder Ver]

def apply (g : Graph C) (next : GetNextVersion Ver) (tasks : List PregelTaskWrites)
    (c : Core C Ver) : Core C Ver :=
  let r := applyWrites c.checkpoint c.channels tasks (some next) g.triggerToNodes
  { c with checkpoint := r.1, channels := r.2.1 }

def see (c : Core C Ver) : Core C Ver :=
  { c with checkpoint := { c.checkpoint with
      versionsSeen := c.checkpoint.versionsSeen.set Key.interrupt
        ((c.checkpoint.versionsSeen.getD Key.interrupt ∅).update
          (c.channels.keys.filterMap (fun k =>
            (c.checkpoint.channelVersions.get? k).map (fun v => (k, v))))) } }

variable [OrderBot Ver]

def save (next : Option (GetNextVersion Ver)) (id : String) (updated : Option (Finset String))
    (snapshot : Finset String) (sanitize : Bool) (parent : Option String)
    (metadata : CheckpointMetadata) (c : Core C Ver) : Core C Ver :=
  let checkpoint := c.created next id updated snapshot sanitize
  { checkpoint := checkpoint
    channels := c.channels
    previous := checkpoint.channelVersions
    calls := c.calls ++ [.put parent checkpoint metadata
      (getNewChannelVersions c.previous checkpoint.channelVersions)] }

-- `N` holds of the functions that draw versions, `I` of the ids of new checkpoints.
inductive Move (g : Graph C) (N : GetNextVersion Ver → Prop) (I : String → Prop) :
    Core C Ver → Core C Ver → Prop
  | rows {c} {calls : List (SaverCall Ver)} (h : RowsOnly calls) :
      Move g N I c (c.submit calls)
  | anchor {c} {id : String} (metadata : CheckpointMetadata) (h : I id) :
      Move g N I c (c.submit [.put none (emptyCheckpoint id) metadata ∅])
  | apply {c} {next : GetNextVersion Ver} (tasks : List PregelTaskWrites) (h : N next) :
      Move g N I c (c.apply g next tasks)
  | see {c} : Move g N I c c.see
  | rename {c} {id : String} (updated : Option (Finset String)) (h : I id) :
      Move g N I c (c.rename id updated)

inductive Save (N : GetNextVersion Ver → Prop) (I : String → Prop) :
    Core C Ver → Core C Ver → Prop
  | create {c} {next : Option (GetNextVersion Ver)} {id : String}
      (updated : Option (Finset String)) (snapshot : Finset String) (sanitize : Bool)
      (parent : Option String) (metadata : CheckpointMetadata) (hn : ∀ n, next = some n → N n)
      (hi : I id) : Save N I c (c.save next id updated snapshot sanitize parent metadata)
  | copy {c} {id : String} (parent : Option String) (metadata : CheckpointMetadata) (hi : I id) :
      Save N I c ((c.rename id none).submit [.put parent (c.rename id none).checkpoint metadata ∅])

-- One step of a thread: moves, at most one save, and rows.
def Steps (g : Graph C) (N : GetNextVersion Ver → Prop) (I : String → Prop)
    (c c' : Core C Ver) : Prop :=
  ∃ c₁ c₂, ReflTransGen (Move g N I) c c₁ ∧ (c₂ = c₁ ∨ Save N I c₁ c₂) ∧
    ∃ calls : List (SaverCall Ver), RowsOnly calls ∧ c' = c₂.submit calls

section Steps

variable {g : Graph C} {N : GetNextVersion Ver → Prop} {I : String → Prop} {c c' c'' : Core C Ver}

theorem Steps.of_moves (h : ReflTransGen (Move g N I) c c') : Steps g N I c c' :=
  ⟨c', c', h, Or.inl rfl, [], rowsOnly_nil, (submit_nil c').symm⟩

theorem Steps.of_save (h : ReflTransGen (Move g N I) c c') (hs : Save N I c' c'') :
    Steps g N I c c'' :=
  ⟨c', c'', h, Or.inr hs, [], rowsOnly_nil, (submit_nil c'').symm⟩

theorem Steps.submit (h : Steps g N I c c') {calls : List (SaverCall Ver)}
    (hc : RowsOnly calls) : Steps g N I c (c'.submit calls) := by
  obtain ⟨c₁, c₂, hm, hs, rows, hr, rfl⟩ := h
  refine ⟨c₁, c₂, hm, hs, rows ++ calls, rowsOnly_append hr hc, submit_submit rows calls c₂⟩

end Steps

end Core

namespace PregelLoop

def core (l : PregelLoop C Ver) : Core C Ver :=
  ⟨l.checkpoint, l.channels, l.checkpointPreviousVersions, l.submitted⟩

section Rows

variable [BaseChannel C]

theorem core_putWrites (g : Graph C) (taskId : String) (batch : List Write)
    (l : PregelLoop C Ver) :
    ∃ calls : List (SaverCall Ver), RowsOnly calls ∧
      (l.putWrites g taskId batch).core = l.core.submit calls := by
  by_cases hne : batch = []
  · subst hne
    exact ⟨[], rowsOnly_nil, (Core.submit_nil l.core).symm⟩
  · obtain ⟨cache, hput⟩ := putWrites_spec g taskId hne l
    refine ⟨l.batchCalls g taskId batch, ?_, by rw [hput]; rfl⟩
    unfold batchCalls
    split
    · exact rowsOnly_nil
    · exact rowsOnly_single _ _ _ _

theorem core_commit (g : Graph C) (taskId : String) (a : Attempt) (l : PregelLoop C Ver) :
    ∃ calls : List (SaverCall Ver), RowsOnly calls ∧
      (l.commit g taskId a).core = l.core.submit calls := by
  unfold commit
  split
  · exact ⟨[], rowsOnly_nil, (Core.submit_nil l.core).symm⟩
  · exact core_putWrites g taskId _ (l.setTaskWrites taskId _)

omit [BaseChannel C] in
theorem core_matchCachedWrites (l : PregelLoop C Ver) : l.matchCachedWrites.core = l.core := by
  unfold matchCachedWrites
  split
  · rfl
  · rfl

end Rows

variable [BaseChannel C] [LinearOrder Ver] [OrderBot Ver] {g : Graph C}
  {N : GetNextVersion Ver → Prop} {I : String → Prop}

theorem core_tick (g : Graph C) (l : PregelLoop C Ver) : (l.tick g).1.core = l.core := by
  unfold tick
  simp only
  split
  · rfl
  · split
    · rfl
    · split
      · rfl
      · rfl

theorem steps_putCheckpoint {c : Core C Ver} {l : PregelLoop C Ver}
    (h : ReflTransGen (Core.Move g N I) c l.core) {next : GetNextVersion Ver} (hn : N next)
    {newId : String} (hi : I newId) (source : String) :
    Core.Steps g N I c (l.putCheckpoint next newId source).core := by
  by_cases hd : l.config.durability = .exit
  · have hcore : (l.putCheckpoint next newId source).core =
        l.core.rename newId l.updatedChannels := by
      rw [putCheckpoint, if_pos hd]
      rfl
    rw [hcore]
    exact Core.Steps.of_moves (h.tail (.rename l.updatedChannels hi))
  · have hcore : ∃ snapshot parent metadata, (l.putCheckpoint next newId source).core =
        l.core.save (some next) newId l.updatedChannels snapshot true parent metadata := by
      rw [putCheckpoint, if_neg hd]
      exact ⟨_, _, _, rfl⟩
    obtain ⟨snapshot, parent, metadata, hcore⟩ := hcore
    rw [hcore]
    refine Core.Steps.of_save h (.create _ _ _ _ _ (fun n hs => ?_) hi)
    rwa [← Option.some.inj hs]

omit [OrderBot Ver] in
theorem moves_rows {c : Core C Ver} {l l' : PregelLoop C Ver}
    (h : ReflTransGen (Core.Move g N I) c l.core)
    (hrows : ∃ calls : List (SaverCall Ver), RowsOnly calls ∧ l'.core = l.core.submit calls) :
    ReflTransGen (Core.Move g N I) c l'.core := by
  obtain ⟨calls, hc, heq⟩ := hrows
  rw [heq]
  exact h.tail (.rows hc)

omit [OrderBot Ver] in
theorem moves_putInput (input : Input) (l : PregelLoop C Ver) :
    ReflTransGen (Core.Move g N I) l.core (l.putInput g input).1.core := by
  cases input with
  | none => exact .refl
  | value v => exact .refl
  | command c =>
    simp only [putInput, putCommand]
    split
    · exact .refl
    · split
      · exact .refl
      · exact moves_rows .refl (core_putWrites g nullTaskId _ l)

omit [OrderBot Ver] in
theorem moves_applyNullWrites {next : GetNextVersion Ver} (hn : N next)
    (updated : Option (Finset String)) (l : PregelLoop C Ver) :
    ReflTransGen (Core.Move g N I) l.core (l.applyNullWrites g next updated).1.core := by
  unfold applyNullWrites
  split
  · exact .refl
  · exact .single (.apply _ hn)

theorem steps_resumeFirst {c : Core C Ver} {l : PregelLoop C Ver}
    (h : ReflTransGen (Core.Move g N I) c l.core) {next : GetNextVersion Ver} (hn : N next)
    {newId : String} (hi : I newId) (timeTravel : Bool) :
    Core.Steps g N I c (l.resumeFirst next newId timeTravel).core := by
  have hsee : ReflTransGen (Core.Move g N I) c l.markInterruptSeen.core := h.tail .see
  unfold resumeFirst
  simp only
  split
  · exact steps_putCheckpoint (l := { l.markInterruptSeen with
      checkpointPendingWrites := l.markInterruptSeen.checkpointPendingWrites.filter
        (fun w => w.channel ≠ Key.interrupt) }) hsee hn hi "fork"
  · exact Core.Steps.of_moves hsee

omit [LinearOrder Ver] [OrderBot Ver] in
theorem core_putDeltaInput (g : Graph C) (writes : List Write) (l : PregelLoop C Ver) :
    ∃ calls : List (SaverCall Ver), RowsOnly calls ∧
      (l.putDeltaInput g writes).core = l.core.submit calls := by
  unfold putDeltaInput
  split
  · exact ⟨[], rowsOnly_nil, (Core.submit_nil l.core).symm⟩
  · exact core_putWrites g nullTaskId _ l

theorem steps_putInputCheckpoint {c : Core C Ver} {l : PregelLoop C Ver}
    (h : ReflTransGen (Core.Move g N I) c l.core) {next : GetNextVersion Ver} (hn : N next)
    {newId : String} (hi : I newId) (updated : Option (Finset String)) (writes : List Write) :
    Core.Steps g N I c (putCheckpoint next newId "input"
      { l.putDeltaInput g writes with updatedChannels := updated }).core := by
  have hrows : ReflTransGen (Core.Move g N I) c (l.putDeltaInput g writes).core :=
    moves_rows h (core_putDeltaInput g writes l)
  exact steps_putCheckpoint (l := { l.putDeltaInput g writes with updatedChannels := updated })
    hrows hn hi "input"

omit [OrderBot Ver] in
theorem core_applyInputWrites (g : Graph C) (next : GetNextVersion Ver)
    (tasks : List PregelTaskWrites) (l : PregelLoop C Ver) :
    (l.applyInputWrites g next tasks).1.core = l.core.apply g next tasks := rfl

theorem steps_inputFirst {c : Core C Ver} {l : PregelLoop C Ver}
    (h : ReflTransGen (Core.Move g N I) c l.core) {next : GetNextVersion Ver} (hn : N next)
    {newId : String} (hi : I newId) (updated : Option (Finset String)) (writes : List Write) :
    Core.Steps g N I c (l.inputFirst g next newId updated writes).1.core := by
  have happly : ReflTransGen (Core.Move g N I) c (l.inputApplied g next updated writes).1.core := by
    rw [inputApplied, core_applyInputWrites]
    exact h.tail (.apply _ hn)
  rw [inputFirst_eq]
  generalize l.inputApplied g next updated writes = r at happly
  obtain ⟨m, e⟩ := r
  cases e with
  | error e => exact Core.Steps.of_moves happly
  | ok updated => exact steps_putInputCheckpoint happly hn hi (some updated) writes

theorem steps_enterInput {c : Core C Ver} {l : PregelLoop C Ver}
    (h : ReflTransGen (Core.Move g N I) c l.core) {next : GetNextVersion Ver} (hn : N next)
    {newId : String} (hi : I newId) (inputKeys : InputKeys) (updated : Option (Finset String))
    (input : Input) :
    Core.Steps g N I c (l.enterInput g inputKeys next newId updated input).1.core := by
  cases input with
  | none => exact Core.Steps.of_moves h
  | command _ => exact Core.Steps.of_moves h
  | value v =>
    simp only [enterInput]
    split
    · exact Core.Steps.of_moves h
    · exact steps_inputFirst h hn hi updated _

theorem steps_first (l : PregelLoop C Ver) (inputKeys : InputKeys) (input : Input)
    (sameRun : Bool) {nextNull next : GetNextVersion Ver} (hnull : N nextNull) (hn : N next)
    {newId : String} (hi : I newId) :
    Core.Steps g N I l.core
      (l.first g inputKeys input sameRun nextNull next newId).1.core := by
  have hdrop : (l.dropResumed (l.dropTimeTravel input)).core = l.core := by
    unfold dropResumed
    split
    · rfl
    · rfl
  have hput := moves_putInput (g := g) (N := N) (I := I) input
    (l.dropResumed (l.dropTimeTravel input))
  rw [hdrop] at hput
  unfold first andThen
  simp only
  split
  · exact Core.Steps.of_moves hput
  · have happly := hput.trans (moves_applyNullWrites hnull
      ((l.dropResumed (l.dropTimeTravel input)).putInput g input).1.storedUpdates
      ((l.dropResumed (l.dropTimeTravel input)).putInput g input).1)
    split
    · exact Core.Steps.of_moves happly
    · split
      · exact steps_resumeFirst happly hn hi _
      · exact steps_enterInput happly hn hi inputKeys _ input

theorem steps_afterTick (l : PregelLoop C Ver) {next : GetNextVersion Ver} (hn : N next)
    {newId : String} (hi : I newId) :
    Core.Steps g N I l.core (l.afterTick g next newId).1.core := by
  have happly : ReflTransGen (Core.Move g N I) l.core
      (l.core.apply g next (l.liveTasks.map PregelTask.taskWrites)) := .single (.apply _ hn)
  unfold afterTick
  simp only
  split
  · exact Core.Steps.of_moves happly
  · exact steps_putCheckpoint happly hn hi "loop"

omit [OrderBot Ver] in
theorem moves_putExitDeltaWrites {l : PregelLoop C Ver}
    (hi : l.hasPersistedParent = false → I l.checkpointIdSaved) :
    ReflTransGen (Core.Move g N I) l.core l.putExitDeltaWrites.core := by
  have hrows (l : PregelLoop C Ver) (es : List ((Int × String) × List Write)) (anchor : String) :
      RowsOnly (es.map (fun e => (SaverCall.putWrites anchor e.2
        (exitDeltaTaskId e.1.1 e.1.2) "" : SaverCall Ver))) := by
    intro call hc
    obtain ⟨e, -, rfl⟩ := List.mem_map.mp hc
    trivial
  unfold putExitDeltaWrites
  simp only
  split
  · exact .refl
  · cases hp : l.hasPersistedParent with
    | true => exact .single (.rows (hrows l _ _))
    | false => exact (ReflTransGen.single (.anchor _ (hi hp))).tail (.rows (hrows l _ _))

theorem steps_putExitCheckpoint {c : Core C Ver} {l : PregelLoop C Ver}
    (h : ReflTransGen (Core.Move g N I) c l.core) {next : GetNextVersion Ver} (hn : N next)
    (hi : l.checkpoint.id ≠ l.checkpointIdSaved → I l.checkpoint.id) :
    Core.Steps g N I c (l.putExitCheckpoint next).core := by
  by_cases hsame : l.checkpoint.id = l.checkpointIdSaved
  · have hskip : l.putExitCheckpoint next = l := by rw [putExitCheckpoint, if_pos hsame]
    rw [hskip]
    exact Core.Steps.of_moves h
  · have hcore : ∃ updated snapshot parent metadata, (l.putExitCheckpoint next).core =
        l.core.save (some next) l.checkpoint.id updated snapshot true parent metadata := by
      rw [putExitCheckpoint, if_neg hsame]
      exact ⟨_, _, _, _, rfl⟩
    obtain ⟨updated, snapshot, parent, metadata, hcore⟩ := hcore
    rw [hcore]
    refine Core.Steps.of_save h (.create _ _ _ _ _ (fun n hs => ?_) (hi hsame))
    rwa [← Option.some.inj hs]

theorem steps_suppressInterrupt (l : PregelLoop C Ver) {next : GetNextVersion Ver} (hn : N next)
    (hanchor : l.hasPersistedParent = false → I l.checkpointIdSaved)
    (hi : l.checkpoint.id ≠ l.checkpointIdSaved → I l.checkpoint.id) :
    Core.Steps g N I l.core (l.suppressInterrupt next).core := by
  unfold suppressInterrupt
  split
  · have hdelta := moves_putExitDeltaWrites (g := g) (N := N) hanchor
    obtain ⟨calls, configId, heq, -⟩ := putExitDeltaWrites_spec l
    have hpending : RowsOnly (l.putExitDeltaWrites.putExitCheckpoint next).pendingCalls := by
      intro call hc
      obtain ⟨id, -, rfl⟩ := List.mem_map.mp hc
      trivial
    have hsteps : Core.Steps g N I l.core (l.putExitDeltaWrites.putExitCheckpoint next).core :=
      steps_putExitCheckpoint hdelta hn (by rw [heq]; exact hi)
    exact hsteps.submit hpending
  · exact Core.Steps.of_moves .refl

end PregelLoop

namespace UpdateTarget

variable [BaseChannel C] [LinearOrder Ver] [OrderBot Ver] {g : Graph C}
  {N : GetNextVersion Ver → Prop} {I : String → Prop} {t : UpdateTarget C Ver}

def core (t : UpdateTarget C Ver) : Core C Ver :=
  ⟨t.checkpoint, t.channels, t.previousVersions, []⟩

omit [OrderBot Ver] in
theorem core_apply {next : GetNextVersion Ver} {tasks : List PregelTaskWrites}
    {t' : UpdateTarget C Ver} (h : t.apply g next tasks = .ok t') :
    t'.core = t.core.apply g next tasks := by
  unfold apply at h
  simp only at h
  split at h
  · cases h
  · rw [← Except.ok.inj h]
    rfl

omit [LinearOrder Ver] [OrderBot Ver] in
omit [BaseChannel C] in
theorem snapshotVersions_none (channels : Dict String C) (updated : Option (Finset String))
    (snapshot : Finset String) (versions : ChannelVersions Ver) :
    snapshotVersions channels updated none snapshot versions = versions := by
  unfold snapshotVersions
  induction channels.keys with
  | nil => rfl
  | cons k ks ih =>
    rw [List.foldl_cons]
    split
    · rename_i hnone
      cases hnone
    · exact ih

theorem core_save (newId source : String) (step : Int) (t : UpdateTarget C Ver) :
    (t.core.save none newId none ∅ false t.parent ⟨source, step, ∅⟩).calls =
      [t.save newId source step] := by
  have hversions : (t.core.created none newId none ∅ false).channelVersions =
      t.checkpoint.channelVersions := snapshotVersions_none t.channels none ∅ _
  rw [Core.save, hversions]
  rfl

theorem save_ok (hi : I newId) (source : String) (step : Int) (t : UpdateTarget C Ver) :
    Core.Save N I t.core
      (t.core.save none newId none ∅ false t.parent ⟨source, step, ∅⟩) :=
  .create _ _ _ _ _ (fun _ hs => by cases hs) hi

theorem steps_clear {nextNull next : GetNextVersion Ver} (hnull : N nextNull) (hn : N next)
    {newId : String} (hi : I newId) {calls : List (SaverCall Ver)}
    (h : t.clear g nextNull next newId = .ok calls) :
    ∃ c, Core.Steps g N I t.core c ∧ c.calls = calls := by
  unfold clear at h
  cases hs : t.saved with
  | none =>
    rw [hs] at h
    rw [← Except.ok.inj h]
    exact ⟨_, Core.Steps.of_save .refl (save_ok hi _ _ t), core_save _ _ _ t⟩
  | some saved =>
    rw [hs] at h
    obtain ⟨t₁, h₁, h⟩ := ok_of_bind h
    obtain ⟨t₂, h₂, h⟩ := ok_of_bind h
    rw [← Except.ok.inj h]
    have hmove₁ : ReflTransGen (Core.Move g N I) t.core t₁.core := by
      unfold applyNull at h₁
      split at h₁
      · rw [← Except.ok.inj h₁]
      · rw [core_apply h₁]
        exact .single (.apply _ hnull)
    have hmove₂ : ReflTransGen (Core.Move g N I) t.core t₂.core := by
      rw [core_apply h₂]
      exact hmove₁.tail (.apply _ hn)
    exact ⟨_, Core.Steps.of_save hmove₂ (save_ok hi _ _ t₂), core_save _ _ _ t₂⟩

theorem steps_asInput {inputKeys : InputKeys} {next : GetNextVersion Ver} (hn : N next)
    {newId : String} (hi : I newId) {values : Value} {calls : List (SaverCall Ver)}
    (h : t.asInput g inputKeys next newId values = .ok calls) :
    ∃ c, Core.Steps g N I t.core c ∧ c.calls = calls := by
  unfold asInput at h
  split at h
  · cases h
  · obtain ⟨t₁, h₁, h⟩ := ok_of_bind h
    rw [← Except.ok.inj h]
    have hmove : ReflTransGen (Core.Move g N I) t.core t₁.core := by
      rw [core_apply h₁]
      exact .single (.apply _ hn)
    have hsave := Core.Steps.of_save hmove (save_ok hi "input"
      (if t₁.saved.isSome then t₁.step + 1 else -1) t₁)
    refine ⟨_, hsave.submit (rowsOnly_single newId (mapInput inputKeys values)
      (g.taskId [t.checkpoint.id, Key.input]) ""), ?_⟩
    rw [Core.submit, core_save]
    rfl

theorem steps_copy {newId : String} (hi : I newId) {calls : List (SaverCall Ver)}
    (h : t.copy newId = .ok calls) : ∃ c, Core.Steps g N I t.core c ∧ c.calls = calls := by
  unfold copy at h
  split at h
  · cases h
  · rw [← Except.ok.inj h]
    exact ⟨_, Core.Steps.of_save .refl (.copy _ _ hi), rfl⟩

omit [BaseChannel C] [LinearOrder Ver] [OrderBot Ver] in
theorem rowsOnly_nodeCalls (updates : List (String × NodeUpdate)) :
    RowsOnly (t.nodeCalls updates) := by
  unfold nodeCalls
  split
  · exact rowsOnly_nil
  · intro call hc
    obtain ⟨u, -, hsome⟩ := List.mem_filterMap.mp hc
    split at hsome
    · cases hsome
    · rw [← Option.some.inj hsome]
      trivial

theorem steps_asNodes {next nextSnapshot : GetNextVersion Ver} (hn : N next)
    (hsnap : N nextSnapshot) {newId : String} (hi : I newId) (updates : List NodeUpdate) :
    ∃ c, Core.Steps g N I t.core c ∧
      c.calls = (t.asNodes g next nextSnapshot newId updates).1 := by
  have hrows := rowsOnly_nodeCalls (t := t)
    (assignTaskIds g t.checkpoint.id (t.nodeTaskIds g) updates)
  have hsubmit : ReflTransGen (Core.Move g N I) t.core (t.core.submit
      (t.nodeCalls (assignTaskIds g t.checkpoint.id (t.nodeTaskIds g) updates))) :=
    .single (.rows hrows)
  unfold asNodes
  simp only
  split
  · exact ⟨_, Core.Steps.of_moves hsubmit, rfl⟩
  · rename_i t₁ h₁
    have hmove := hsubmit.tail (.apply (updates.map runTask) hn)
    have hcore : t₁.core = t.core.apply g next (updates.map runTask) := core_apply h₁
    have hcreate : ∃ after updated snapshot metadata, (∀ n, after = some n → N n) ∧
        t₁.saveNodes nextSnapshot newId (getUpdatedChannelsFromTasks (updates.map runTask)) =
          .put t₁.parent (t₁.core.created after newId updated snapshot false) metadata
            (getNewChannelVersions t₁.previousVersions
              (t₁.core.created after newId updated snapshot false).channelVersions) := by
      unfold saveNodes
      simp only
      split
      · exact ⟨none, none, ∅, _, fun _ hs => (by cases hs), rfl⟩
      · refine ⟨some nextSnapshot, _, _, _, fun n hs => ?_, rfl⟩
        rwa [← Option.some.inj hs]
    obtain ⟨after, changed, snapshot, metadata, hafter, hcreate⟩ := hcreate
    refine ⟨_, Core.Steps.of_save hmove (.create changed snapshot false t₁.parent metadata hafter hi),
      ?_⟩
    have hprevious : t₁.previousVersions = t.previousVersions := congrArg Core.previous hcore
    rw [hcreate, hcore, hprevious]
    rfl

end UpdateTarget

theorem steps_updateState [BaseChannel C] [LinearOrder Ver] [OrderBot Ver] {g : Graph C}
    {N : GetNextVersion Ver → Prop} {I : String → Prop} (inputKeys : InputKeys)
    {nextNull next : GetNextVersion Ver} (hnull : N nextNull) (hn : N next) {newId : String}
    (hi : I newId) (freshId : String) (checkpointId : Option String) (update : StateUpdate)
    (s : InMemorySaver Ver) :
    (updateState g inputKeys nextNull next freshId newId checkpointId update s).1 = [] ∨
      ∃ t c, UpdateTarget.load g freshId checkpointId s = .ok t ∧ Core.Steps g N I t.core c ∧
        c.calls = (updateState g inputKeys nextNull next freshId newId checkpointId update s).1 := by
  have hexcept (t : UpdateTarget C Ver) (r : Except LoopError (List (SaverCall Ver)))
      (h : ∀ calls, r = .ok calls → ∃ c, Core.Steps g N I t.core c ∧ c.calls = calls) :
      (exceptCalls r).1 = [] ∨ ∃ c, Core.Steps g N I t.core c ∧ c.calls = (exceptCalls r).1 := by
    cases r with
    | error e => exact Or.inl rfl
    | ok calls => exact Or.inr (h calls rfl)
  unfold updateState
  split
  · exact Or.inl rfl
  · rename_i t hload
    have hloaded {calls : List (SaverCall Ver)}
        (h : calls = [] ∨ ∃ c, Core.Steps g N I t.core c ∧ c.calls = calls) :
        calls = [] ∨ ∃ t' c, UpdateTarget.load g freshId checkpointId s = .ok t' ∧
          Core.Steps g N I t'.core c ∧ c.calls = calls := by
      rcases h with hnil | ⟨c, hsteps, hcalls⟩
      · exact Or.inl hnil
      · exact Or.inr ⟨t, c, hload, hsteps, hcalls⟩
    cases update with
    | clear => exact hloaded (hexcept t _ fun calls hc => UpdateTarget.steps_clear hnull hn hi hc)
    | input values => exact hloaded (hexcept t _ fun calls hc => UpdateTarget.steps_asInput hn hi hc)
    | copy => exact hloaded (hexcept t _ fun calls hc => UpdateTarget.steps_copy hi hc)
    | nodes updates => exact hloaded (Or.inr (UpdateTarget.steps_asNodes hn hnull hi updates))

end LangGraph
