import LangGraph.Pregel.ExitFlush
import LangGraph.Pregel.Prepared
import LangGraph.Pregel.Untracked

namespace LangGraph

open Collections PregelLoop

variable {Ver : Type}

def CallsClean (specs : Dict String Channel) (calls : List (SaverCall Ver)) : Prop :=
  ∀ c ∈ calls, c.leaks specs = false

theorem callsClean_nil {specs : Dict String Channel} :
    CallsClean specs ([] : List (SaverCall Ver)) := by
  intro c hc
  cases hc

theorem callsClean_append {specs : Dict String Channel} {as bs : List (SaverCall Ver)} :
    CallsClean specs (as ++ bs) ↔ CallsClean specs as ∧ CallsClean specs bs :=
  List.forall_mem_append

theorem putWrites_clean_iff {specs : Dict String Channel} {id taskId path : String}
    {ws : List Write} :
    (SaverCall.putWrites id ws taskId path : SaverCall Ver).leaks specs = false ↔
      ∀ w ∈ ws, writeLeaks specs w = false := by
  simp [SaverCall.leaks]

theorem put_clean_iff {specs : Dict String Channel} {parent : Option String}
    {checkpoint : Checkpoint Ver} {metadata : CheckpointMetadata}
    {versions : ChannelVersions Ver} :
    (SaverCall.put parent checkpoint metadata versions).leaks specs = false ↔
      ValuesClean specs checkpoint.channelValues := by
  simp only [SaverCall.leaks, List.any_eq_false, ValuesClean, Dict.get?_eq_some, Prod.forall,
    Bool.not_eq_true]

section Saver

variable [DecidableEq Ver]

structure InMemorySaver.Clean (specs : Dict String Channel) (s : InMemorySaver Ver) : Prop where
  rows : ∀ id, ∀ e ∈ (s.rows id).items, writeLeaks specs e.2.write = false
  blobs : ∀ k ver b, s.blobs.get? (k, ver) = some (some b) → blobLeaks specs k b = false

variable {specs : Dict String Channel}

theorem InMemorySaver.Clean.exec {s : InMemorySaver Ver} (h : s.Clean specs)
    {call : SaverCall Ver} (hc : call.leaks specs = false) : (s.exec call).Clean specs := by
  cases call with
  | put parent checkpoint metadata versions =>
    rw [put_clean_iff] at hc
    refine ⟨h.rows, fun k ver b hb => ?_⟩
    have hget : (InMemorySaver.putBlobs checkpoint.channelValues versions s.blobs).get? (k, ver) =
        some (some b) := hb
    rw [InMemorySaver.get?_putBlobs] at hget
    split at hget
    · exact hc k b (Option.some.inj hget)
    · exact h.blobs k ver b hget
  | putWrites id ws taskId path =>
    rw [putWrites_clean_iff] at hc
    refine ⟨fun other e he => ?_, ?_⟩
    · by_cases hid : other = id
      · subst hid
        have he' : e ∈ (WriteRows.put taskId path 0 ws (s.rows other)).items := by
          rw [← InMemorySaver.rows_putWrites]
          exact he
        rcases WriteRows.mem_put he' with hold | hnew
        · exact h.rows other e hold
        · exact hc _ hnew
      · have he' : e ∈ (s.rows other).items := by
          rw [← InMemorySaver.rows_putWrites_ne s hid ws taskId path]
          exact he
        exact h.rows other e he'
    · cases ws with
      | nil => exact h.blobs
      | cons w ws => exact h.blobs

theorem InMemorySaver.Clean.execAll {s : InMemorySaver Ver} (h : s.Clean specs)
    {calls : List (SaverCall Ver)} (hc : CallsClean specs calls) :
    (s.execAll calls).Clean specs := by
  induction calls generalizing s with
  | nil => exact h
  | cons c calls ih =>
    obtain ⟨hc, hrest⟩ := List.forall_mem_cons.mp hc
    exact ih (h.exec hc) hrest

structure CheckpointTuple.Clean (specs : Dict String Channel) (t : CheckpointTuple Ver) : Prop where
  values : ValuesClean specs t.checkpoint.channelValues
  pending : ∀ w ∈ t.pendingWrites, writeLeaks specs w.write = false

theorem InMemorySaver.Clean.getTuple {s : InMemorySaver Ver} (h : s.Clean specs)
    {id : Option String} {t : CheckpointTuple Ver} (ht : s.getTuple id = some t) :
    t.Clean specs := by
  obtain ⟨cid, -, hrest⟩ := Option.bind_eq_some_iff.mp ht
  obtain ⟨saved, -, hsaved⟩ := Option.bind_eq_some_iff.mp hrest
  have heq : t = s.tuple cid saved := (Option.some.inj hsaved).symm
  rw [heq]
  refine ⟨fun k b hb => ?_, fun w hw => ?_⟩
  · have hload : ((saved.checkpoint.channelVersions.filterMap
        (fun k ver => (s.blobs.get? (k, ver)).join)).get? k) = some b := hb
    rw [Dict.get?_filterMap, Option.bind_eq_some_iff] at hload
    obtain ⟨ver, -, hjoin⟩ := hload
    exact h.blobs k ver b (Option.join_eq_some_iff.mp hjoin)
  · obtain ⟨e, he, rfl⟩ := List.mem_map.mp hw
    exact h.rows cid e he

end Saver

def Input.writes (inputKeys : InputKeys) : Input → List Write
  | .none => []
  | .value v => mapInput inputKeys v
  | .command c => c.writes

section Loop

variable {g : Graph Channel} {d : Durability}

namespace PregelLoop

structure Clean (g : Graph Channel) (d : Durability) (l : PregelLoop Channel Ver) : Prop where
  durability : l.config.durability = d
  declared : Declared g.specs l.channels
  overwrites : DeltaOnly g.specs l.deltaChannelsWithOverwrite
  exitWrites : ∀ w ∈ l.exitDeltaWrites.getD [], deltaKey g.specs w.channel = true
  start : d ≠ .exit → Holds (StartClean g.specs) l.channels
  pending : d ≠ .exit → ∀ w ∈ l.checkpointPendingWrites, escapes g.specs w.write = false
  submitted : CallsClean g.specs l.submitted

theorem escapes_of_clean {specs : Dict String Channel} {w : Write}
    (h : writeLeaks specs w = false) : escapes specs w = false := by
  obtain ⟨k, v⟩ := w
  rw [writeLeaks, Bool.or_eq_false_iff] at h
  by_cases hs : k = Key.start
  · subst hs
    rw [escapes_start, ← valueLeaks_start]
    exact h.2
  · by_cases ht : k = Key.tasks
    · subst ht
      have hv := h.2
      rw [valueLeaks_tasks, flatten_single] at hv
      cases v with
      | list vs => rwa [escapes_list]
      | _ => simp [escapes, start_ne_tasks.symm]
    · simp [escapes, hs, ht]

theorem deltaKey_tracked {specs : Dict String Channel} {k : String}
    (h : deltaKey specs k = true) : untrackedKey specs k = false := by
  unfold deltaKey at h
  unfold untrackedKey
  cases hs : specs.get? k with
  | none => rfl
  | some c =>
    rw [hs, Option.map_some, Option.getD_some, decide_eq_true_eq] at h
    have hk : BaseChannel.kind c = .deltaChannel := h
    simp [isUntracked, hk]

theorem deltaKey_ne (hg : g.Compiled) {k : String} (h : deltaKey g.specs k = true) :
    k ≠ Key.tasks ∧ k ≠ Key.start := by
  constructor
  · rintro rfl
    obtain ⟨t, ht⟩ := hg.tasks
    simp only [deltaKey, ht, Option.map_some, Option.getD_some, decide_eq_true_eq] at h
    cases h
  · rintro rfl
    obtain ⟨e, he⟩ := hg.start
    simp only [deltaKey, he, Option.map_some, Option.getD_some, decide_eq_true_eq] at h
    cases h

theorem deltaKey_clean (hg : g.Compiled) {w : Write} (h : deltaKey g.specs w.1 = true) :
    writeLeaks g.specs w = false := by
  obtain ⟨ht, hs⟩ := deltaKey_ne hg h
  rw [writeLeaks, deltaKey_tracked h, valueLeaks_of_ne ht hs]
  rfl

theorem Clean.retask {l : PregelLoop Channel Ver} (h : l.Clean g d)
    (tasks : Option (Dict String PregelTask)) : ({ l with tasks := tasks }).Clean g d :=
  ⟨h.durability, h.declared, h.overwrites, h.exitWrites, h.start, h.pending, h.submitted⟩

theorem mem_keptWrites {taskId : String} {pending : List PendingWrite} {w : PendingWrite}
    (h : w ∈ keptWrites taskId pending) : w ∈ pending := by
  unfold keptWrites at h
  split at h
  · exact (List.mem_filter.mp h).1
  · exact (List.mem_filter.mp h).1

theorem mem_taskWritesOf {taskId : String} {pending : List PendingWrite} {w : Write}
    (h : w ∈ taskWritesOf taskId pending) : ∃ p ∈ pending, p.write = w := by
  obtain ⟨p, hp, rfl⟩ := List.mem_map.mp h
  exact ⟨p, (List.mem_filter.mp hp).1, rfl⟩

theorem savedBatch_clean {l : PregelLoop Channel Ver} (h : l.Clean g d)
    (hd : d ≠ .exit) {taskId : String} {batch : List Write}
    (hb : ∀ w ∈ batch, escapes g.specs w = false) :
    ∀ w ∈ l.savedBatch g taskId batch, writeLeaks g.specs w = false := by
  have hnew (w : Write) (hw : w ∈ dedupWrites batch) : escapes g.specs w = false :=
    hb w (mem_dedupWrites hw)
  refine sanitizeWrites_clean h.declared.agree (fun w hw => ?_)
  unfold writesToSave at hw
  split at hw
  · rcases List.mem_append.mp hw with hw | hw
    · obtain ⟨p, hp, rfl⟩ := mem_taskWritesOf hw
      exact h.pending hd p (mem_keptWrites hp)
    · exact hnew w hw
  · exact hnew w hw

theorem Clean.putWrites {l : PregelLoop Channel Ver} (h : l.Clean g d) {taskId : String}
    {batch : List Write}
    (hb : d ≠ .exit → ∀ w ∈ batch, escapes g.specs w = false) :
    (l.putWrites g taskId batch).Clean g d := by
  by_cases hne : batch = []
  · subst hne
    exact h
  · obtain ⟨cache, hput⟩ := putWrites_spec g taskId hne l
    rw [hput]
    refine ⟨h.durability, h.declared, h.overwrites, h.exitWrites, h.start, fun hd w hw => ?_, ?_⟩
    · rcases List.mem_append.mp hw with hw | hw
      · exact h.pending hd w (mem_keptWrites hw)
      · obtain ⟨v, hv, rfl⟩ := List.mem_map.mp hw
        exact hb hd v (mem_dedupWrites hv)
    · refine callsClean_append.mpr ⟨h.submitted, ?_⟩
      unfold batchCalls
      split
      · exact callsClean_nil
      · rename_i hd
        intro c hc
        rw [List.mem_singleton.mp hc, putWrites_clean_iff]
        have hd : d ≠ .exit := h.durability ▸ hd
        exact savedBatch_clean h hd (hb hd)

theorem Clean.captureExitWrites {l : PregelLoop Channel Ver} (h : l.Clean g d)
    (pending : List PendingWrite) : (l.captureExitWrites g pending).Clean g d := by
  refine ⟨h.durability, h.declared, h.overwrites, fun w hw => ?_, h.start, h.pending, h.submitted⟩
  have hold := h.exitWrites
  unfold PregelLoop.captureExitWrites at hw
  cases he : l.exitDeltaWrites with
  | none => simp [he] at hw
  | some ws =>
    simp only [he, Option.map_some, Option.getD_some, List.mem_append, List.mem_map] at hw hold
    rcases hw with hw | ⟨p, hp, rfl⟩
    · exact hold w hw
    · exact (List.mem_filter.mp hp).2

theorem emptyCheckpoint_clean {specs : Dict String Channel} {parent : Option String} {id : String}
    {metadata : CheckpointMetadata} {versions : ChannelVersions Ver} :
    (SaverCall.put parent (emptyCheckpoint id) metadata versions).leaks specs = false := by
  rw [put_clean_iff]
  intro k b hb
  cases hb

theorem Clean.exitRow (hg : g.Compiled) {l : PregelLoop Channel Ver} (h : l.Clean g d)
    {c : SaverCall Ver} (hc : l.ExitRow c) : c.leaks g.specs = false := by
  rcases hc with ⟨parent, id, metadata, versions, rfl⟩ |
    ⟨anchor, writes, step, taskId, rfl, -, hw⟩
  · exact emptyCheckpoint_clean
  · rw [putWrites_clean_iff]
    intro w hmem
    obtain ⟨x, hx, rfl⟩ := hw w hmem
    exact deltaKey_clean hg (h.exitWrites x hx)

theorem Clean.putPendingWrites {l : PregelLoop Channel Ver} (h : l.Clean g d)
    (hp : ∀ w ∈ l.checkpointPendingWrites, writeLeaks g.specs w.write = false) :
    l.putPendingWrites.Clean g d := by
  refine ⟨h.durability, h.declared, h.overwrites, h.exitWrites, h.start, h.pending,
    callsClean_append.mpr ⟨h.submitted, fun c hc => ?_⟩⟩
  obtain ⟨taskId, -, rfl⟩ := List.mem_map.mp hc
  rw [putWrites_clean_iff]
  intro w hw
  obtain ⟨p, hmem, rfl⟩ := mem_taskWritesOf hw
  exact hp p hmem

theorem carries_of_escapes {specs : Dict String Channel} {v : Value}
    (h : escapes specs (Key.start, v) = false) : carriesUntracked specs v = false := by
  rwa [escapes_start] at h

theorem Clean.dropPending {l : PregelLoop Channel Ver} (h : l.Clean g d)
    (keep : PendingWrite → Bool) :
    ({ l with checkpointPendingWrites := l.checkpointPendingWrites.filter keep }).Clean g d :=
  ⟨h.durability, h.declared, h.overwrites, h.exitWrites, h.start,
    fun hd w hw => h.pending hd w (List.mem_filter.mp hw).1, h.submitted⟩

theorem Clean.putDeltaInput (hg : g.Compiled) {l : PregelLoop Channel Ver} (h : l.Clean g d)
    (writes : List Write) : (l.putDeltaInput g writes).Clean g d := by
  unfold PregelLoop.putDeltaInput
  split
  · refine ⟨h.durability, h.declared, h.overwrites, fun w hw => ?_, h.start, h.pending, h.submitted⟩
    have hold := h.exitWrites
    cases he : l.exitDeltaWrites with
    | none => simp [he] at hw
    | some ws =>
      simp only [he, Option.map_some, Option.getD_some, List.mem_append, List.mem_map] at hw hold
      rcases hw with hw | ⟨p, hp, rfl⟩
      · exact hold w hw
      · exact (List.mem_filter.mp hp).2
  · refine h.putWrites (fun _ w hw => ?_)
    exact escapes_of_clean (deltaKey_clean hg (List.mem_filter.mp hw).2)

theorem Clean.putInput {l : PregelLoop Channel Ver} (h : l.Clean g d) {input : Input}
    {inputKeys : InputKeys}
    (hw : d ≠ .exit → ∀ w ∈ input.writes inputKeys, escapes g.specs w = false) :
    (l.putInput g input).1.Clean g d := by
  cases input with
  | none => exact h
  | value v => exact h
  | command c =>
    simp only [PregelLoop.putInput, putCommand]
    split
    · exact h
    · split
      · exact h
      · exact h.putWrites hw

variable [LinearOrder Ver]

theorem Clean.applyWrites {l : PregelLoop Channel Ver} (h : l.Clean g d)
    {tasks : List PregelTaskWrites} {next : Option (GetNextVersion Ver)}
    (hw : d ≠ .exit → ∀ v,
      (Key.start, v) ∈ tasks.flatMap PregelTaskWrites.writes →
        carriesUntracked g.specs v = false) :
    ({ l with
      checkpoint := (LangGraph.applyWrites l.checkpoint l.channels tasks next g.triggerToNodes).1
      channels := (LangGraph.applyWrites l.checkpoint l.channels tasks next
        g.triggerToNodes).2.1 }).Clean g d :=
  ⟨h.durability, h.declared.applyWrites _ _ _ _, h.overwrites, h.exitWrites,
    fun hd => holds_applyWrites (preserves_start (hw hd)) (h.start hd), h.pending, h.submitted⟩

theorem Clean.applyInputWrites {l : PregelLoop Channel Ver} (h : l.Clean g d)
    {tasks : List PregelTaskWrites} {next : GetNextVersion Ver}
    (hw : d ≠ .exit → ∀ v,
      (Key.start, v) ∈ tasks.flatMap PregelTaskWrites.writes →
        carriesUntracked g.specs v = false) :
    (l.applyInputWrites g next tasks).1.Clean g d :=
  h.applyWrites hw

theorem Clean.applyNullWrites {l : PregelLoop Channel Ver} (h : l.Clean g d)
    (next : GetNextVersion Ver) (updated : Option (Finset String)) :
    (l.applyNullWrites g next updated).1.Clean g d := by
  unfold PregelLoop.applyNullWrites
  split
  · exact h
  · rename_i ws hws
    refine h.applyInputWrites (fun hd v hv => ?_)
    have hmem : (Key.start, v) ∈ taskWritesOf nullTaskId l.checkpointPendingWrites := by
      simpa using hv
    obtain ⟨p, hp, hpv⟩ := mem_taskWritesOf hmem
    exact carries_of_escapes (hpv ▸ h.pending hd p hp)

variable [OrderBot Ver]

theorem Clean.putCheckpoint (hg : g.Compiled) {l : PregelLoop Channel Ver} (h : l.Clean g d)
    (next : GetNextVersion Ver) (newId source : String) :
    (l.putCheckpoint next newId source).Clean g d := by
  unfold PregelLoop.putCheckpoint
  by_cases hd : l.config.durability = .exit
  · simp only [if_pos hd]
    exact ⟨h.durability, h.declared, h.overwrites, h.exitWrites, h.start, h.pending, h.submitted⟩
  · simp only [if_neg hd]
    have hd : d ≠ .exit := h.durability ▸ hd
    refine ⟨h.durability, h.declared, fun k hk => ?_, h.exitWrites, h.start, h.pending, ?_⟩
    · exact h.overwrites k (Finset.mem_sdiff.mp hk).1
    · refine callsClean_append.mpr ⟨h.submitted, fun c hc => ?_⟩
      rw [List.mem_singleton.mp hc, put_clean_iff]
      refine sanitizeTasks_clean hg (fun k hk => ?_) h.declared (h.start hd) _
      rcases Finset.mem_union.mp hk with hk | hk
      · exact deltaOnly_snapshot h.declared _ k hk
      · exact h.overwrites k hk

theorem Clean.afterTick (hg : g.Compiled) {l : PregelLoop Channel Ver} (h : l.Clean g d)
    (next : GetNextVersion Ver) (newId : String)
    (hw : d ≠ .exit → ∀ t ∈ l.liveTasks, ∀ v, (Key.start, v) ∈ t.writes →
      carriesUntracked g.specs v = false) : (l.afterTick g next newId).1.Clean g d := by
  have hwrites (hd : d ≠ .exit) (v : Value)
      (hv : (Key.start, v) ∈
        (l.liveTasks.map PregelTask.taskWrites).flatMap PregelTaskWrites.writes) :
      carriesUntracked g.specs v = false := by
    obtain ⟨t, ht, hmem⟩ := List.mem_flatMap.mp hv
    obtain ⟨task, htask, rfl⟩ := List.mem_map.mp ht
    exact hw hd task htask v hmem
  have happly := @Clean.applyWrites _ _ _ _ _ h _ (some next) hwrites
  have hmark := deltaOnly_union h.overwrites
    (deltaOnly_overwritten g.specs (l.liveTasks.flatMap PregelTask.writes))
  unfold PregelLoop.afterTick
  simp only
  split
  · exact ⟨happly.durability, happly.declared, hmark, h.exitWrites, happly.start, h.pending, h.submitted⟩
  · refine Clean.putCheckpoint hg ?_ next newId "loop"
    have hbase : ({ l with
        deltaChannelsWithOverwrite := l.deltaChannelsWithOverwrite ∪
          overwritten g.specs (l.liveTasks.flatMap PregelTask.writes)
        checkpoint := (LangGraph.applyWrites l.checkpoint l.channels
          (l.liveTasks.map PregelTask.taskWrites) (some next) g.triggerToNodes).1
        channels := (LangGraph.applyWrites l.checkpoint l.channels
          (l.liveTasks.map PregelTask.taskWrites) (some next) g.triggerToNodes).2.1 }).Clean g d :=
      ⟨happly.durability, happly.declared, hmark, h.exitWrites, happly.start, h.pending, h.submitted⟩
    have hcap := hbase.captureExitWrites l.checkpointPendingWrites
    refine ⟨hcap.durability, hcap.declared, hcap.overwrites, hcap.exitWrites, hcap.start, ?_, hcap.submitted⟩
    intro _ w hmem
    cases hmem

theorem Clean.putExitCheckpoint (hg : g.Compiled) {l : PregelLoop Channel Ver} (h : l.Clean g d)
    (hs : l.checkpoint.id ≠ l.checkpointIdSaved → Holds (StartClean g.specs) l.channels)
    (next : GetNextVersion Ver) : (l.putExitCheckpoint next).Clean g d := by
  unfold PregelLoop.putExitCheckpoint
  split
  · exact h
  · rename_i hid
    refine ⟨h.durability, h.declared, fun k hk => ?_, h.exitWrites, fun _ => hs hid, h.pending, ?_⟩
    · exact h.overwrites k (Finset.mem_sdiff.mp hk).1
    · refine callsClean_append.mpr ⟨h.submitted, fun c hc => ?_⟩
      rw [List.mem_singleton.mp hc, put_clean_iff]
      exact sanitizeTasks_clean hg (deltaOnly_union (deltaOnly_snapshot h.declared _) h.overwrites)
        h.declared (hs hid) _

theorem putExitCheckpoint_pending (next : GetNextVersion Ver) (l : PregelLoop Channel Ver) :
    (l.putExitCheckpoint next).checkpointPendingWrites = l.checkpointPendingWrites := by
  unfold PregelLoop.putExitCheckpoint
  split
  · rfl
  · rfl

theorem Clean.suppressInterrupt (hg : g.Compiled) {l : PregelLoop Channel Ver} (h : l.Clean g d)
    (next : GetNextVersion Ver)
    (hs : d = .exit → l.checkpoint.id ≠ l.checkpointIdSaved →
      Holds (StartClean g.specs) l.channels)
    (hp : d = .exit → ∀ w ∈ l.checkpointPendingWrites,
      writeLeaks g.specs w.write = false) : (l.suppressInterrupt next).Clean g d := by
  unfold PregelLoop.suppressInterrupt
  split
  · rename_i hd
    have hd : d = .exit := h.durability ▸ hd
    obtain ⟨calls, configId, heq, hcalls⟩ := putExitDeltaWrites_spec l
    have hdelta : l.putExitDeltaWrites.Clean g d := by
      rw [heq]
      refine ⟨h.durability, h.declared, h.overwrites, h.exitWrites, h.start, h.pending,
        callsClean_append.mpr ⟨h.submitted, fun c hc => ?_⟩⟩
      exact h.exitRow hg (hcalls c hc)
    have hput := @Clean.putExitCheckpoint _ _ _ _ _ hg _ hdelta (by
      rw [heq]
      exact hs hd) next
    refine hput.putPendingWrites ?_
    rw [putExitCheckpoint_pending, heq]
    exact hp hd
  · exact h

theorem Clean.resumeFirst (hg : g.Compiled) {l : PregelLoop Channel Ver} (h : l.Clean g d)
    (next : GetNextVersion Ver) (newId : String) (timeTravel : Bool)
    (updated : Option (Finset String)) :
    ({ l.resumeFirst next newId timeTravel with updatedChannels := updated }).Clean g d := by
  have hmark : l.markInterruptSeen.Clean g d :=
    ⟨h.durability, h.declared, h.overwrites, h.exitWrites, h.start, h.pending, h.submitted⟩
  have hresume : (l.resumeFirst next newId timeTravel).Clean g d := by
    unfold PregelLoop.resumeFirst
    simp only
    split
    · exact (hmark.dropPending _).putCheckpoint hg next newId "fork"
    · exact hmark
  exact ⟨hresume.durability, hresume.declared, hresume.overwrites, hresume.exitWrites, hresume.start,
    hresume.pending, hresume.submitted⟩

theorem writes_discardTasks {l : PregelLoop Channel Ver} {updated : Option (Finset String)}
    {t : PregelTaskWrites} (h : t ∈ l.discardTasks g updated) : t.writes = [] := by
  obtain ⟨task, htask, rfl⟩ := List.mem_map.mp h
  exact Graph.writes_prepareNextTasks htask

theorem Clean.inputFirst (hg : g.Compiled) {l : PregelLoop Channel Ver} (h : l.Clean g d)
    (next : GetNextVersion Ver) (newId : String) (updated : Option (Finset String))
    {writes : List Write}
    (hw : d ≠ .exit → ∀ w ∈ writes, escapes g.specs w = false) :
    (l.inputFirst g next newId updated writes).1.Clean g d := by
  have hmarked : ({ l with deltaChannelsWithOverwrite :=
      l.deltaChannelsWithOverwrite ∪ overwritten g.specs writes }).Clean g d :=
    ⟨h.durability, h.declared, deltaOnly_union h.overwrites (deltaOnly_overwritten g.specs writes),
      h.exitWrites, h.start, h.pending, h.submitted⟩
  have happly := @Clean.applyInputWrites _ _ _ _ _ hmarked
    (l.discardTasks g updated ++ [⟨[], Key.input, writes, []⟩]) next (fun hd v hv => by
      rw [List.flatMap_append, List.mem_append] at hv
      rcases hv with hv | hv
      · obtain ⟨t, ht, hmem⟩ := List.mem_flatMap.mp hv
        rw [writes_discardTasks ht] at hmem
        cases hmem
      · have hmem : (Key.start, v) ∈ writes := by simpa using hv
        exact carries_of_escapes (hw hd _ hmem))
  unfold PregelLoop.inputFirst
  simp only
  split
  · exact happly
  · refine Clean.putCheckpoint hg ?_ next newId "input"
    have hput := happly.putDeltaInput hg writes
    exact ⟨hput.durability, hput.declared, hput.overwrites, hput.exitWrites, hput.start, hput.pending,
      hput.submitted⟩

theorem Clean.enterInput (hg : g.Compiled) {l : PregelLoop Channel Ver} (h : l.Clean g d)
    {inputKeys : InputKeys} (next : GetNextVersion Ver) (newId : String)
    (updated : Option (Finset String)) {input : Input}
    (hw : d ≠ .exit → ∀ w ∈ input.writes inputKeys, escapes g.specs w = false) :
    (l.enterInput g inputKeys next newId updated input).1.Clean g d := by
  cases input with
  | none => exact h
  | command c => exact h
  | value v =>
    simp only [PregelLoop.enterInput]
    split
    · exact h
    · exact h.inputFirst hg next newId updated hw

theorem Clean.first (hg : g.Compiled) {l : PregelLoop Channel Ver} (h : l.Clean g d)
    {inputKeys : InputKeys} {input : Input} (sameRun : Bool) (nextNull next : GetNextVersion Ver)
    (newId : String)
    (hw : d ≠ .exit → ∀ w ∈ input.writes inputKeys, escapes g.specs w = false) :
    (l.first g inputKeys input sameRun nextNull next newId).1.Clean g d := by
  have hdrop : (l.dropResumed (l.dropTimeTravel input)).Clean g d := by
    unfold dropResumed
    split
    · exact h.dropPending _
    · exact h
  refine andThen_invariant (P := fun m : PregelLoop Channel Ver => m.Clean g d)
    (hdrop.putInput hw) (fun m hm => ?_)
  have hnull := hm.applyNullWrites nextNull m.storedUpdates
  simp only
  split
  · exact hnull
  · split
    · exact hnull.resumeFirst hg next newId _ _
    · exact hnull.enterInput hg next newId _ hw

end PregelLoop

end Loop

end LangGraph
