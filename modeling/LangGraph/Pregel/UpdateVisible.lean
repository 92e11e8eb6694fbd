import LangGraph.Pregel.DeltaPut
import LangGraph.Pregel.FailedSuperstep
import LangGraph.Pregel.UpdateState

namespace LangGraph

open Collections

variable {Ver : Type}


-- The documented demands on the reducers, and names that `validate_graph` lets through.
structure Graph.DeltaReady (g : Graph Channel) : Prop where
  names : ∀ k d, g.specs.get? k = some (Channel.deltaChannel d) → k ∉ ignoredWrites
  batching : ∀ k d, g.specs.get? k = some (Channel.deltaChannel d) → d.Batching

namespace DeltaChannel

def updated (c : DeltaChannel) (batches : List (List Value)) : DeltaChannel :=
  batches.foldl (fun c vs => (c.update vs).1) c

theorem update_eq (c : DeltaChannel) (vs : List Value) :
    ∃ v, (c.update vs).1 = { c with value := v } ∧
      (c.value.isSome = true → v.isSome = true) := by
  unfold update
  split
  · exact ⟨c.value, rfl, id⟩
  · split
    · exact ⟨c.value, rfl, id⟩
    · exact ⟨_, rfl, fun _ => rfl⟩
    · split
      · exact ⟨_, rfl, fun _ => rfl⟩
      · exact ⟨c.value, rfl, id⟩

theorem updated_eq (c : DeltaChannel) (batches : List (List Value)) :
    ∃ v, c.updated batches = { c with value := v } ∧
      (c.value.isSome = true → v.isSome = true) := by
  induction batches generalizing c with
  | nil => exact ⟨c.value, rfl, id⟩
  | cons vs batches ih =>
    obtain ⟨v, hv, hsome⟩ := c.update_eq vs
    obtain ⟨w, hw, hsome'⟩ := ih (c.update vs).1
    refine ⟨w, ?_, fun hc => hsome' ?_⟩
    · rw [updated, List.foldl_cons, ← updated, hw, hv]
    · rw [hv]
      exact hsome hc

end DeltaChannel

theorem mem_plan {channels : Dict String Channel} {k : String} {c : DeltaChannel}
    (hc : channels.get? k = some (.deltaChannel c)) (hv : c.value.isSome = true)
    (updated : Finset String) (step : Int) (saved : Option CheckpointMetadata) :
    k ∈ (createCheckpointPlanForUpdateStateApi channels updated step saved).1 ↔
      ∀ metadata, saved = some metadata →
        c.snapshotFrequency ≤ (if k ∈ updated then
            (metadata.countersSinceDeltaSnapshot.getD k (0, 0)).1 + 1
          else (metadata.countersSinceDeltaSnapshot.getD k (0, 0)).1) ∨
        deltaMaxSuperstepsSinceSnapshot ≤
          (metadata.countersSinceDeltaSnapshot.getD k (0, 0)).2 + 1 := by
  have hdelta : isDelta (Channel.deltaChannel c) := rfl
  have havailable : BaseChannel.isAvailable (Channel.deltaChannel c) = true := hv
  cases saved with
  | none =>
    simp [createCheckpointPlanForUpdateStateApi, getDeltaChannelsFromAllChannels,
      Dict.mem_keys_filter, hc, hdelta, havailable]
  | some metadata =>
    have hcounters : (bumpCounters channels updated metadata.countersSinceDeltaSnapshot).getD k
        (0, 0) = (if k ∈ updated then
            (metadata.countersSinceDeltaSnapshot.getD k (0, 0)).1 + 1
          else (metadata.countersSinceDeltaSnapshot.getD k (0, 0)).1,
          (metadata.countersSinceDeltaSnapshot.getD k (0, 0)).2 + 1) := by
      rw [bumpCounters, Dict.getD, Dict.get?_filterMap, Dict.get?_filter, hc]
      simp [Option.filter, hdelta]
    have hfrequency : BaseChannel.snapshotFrequency (Channel.deltaChannel c) =
        c.snapshotFrequency := rfl
    simp only [createCheckpointPlanForUpdateStateApi, deltaChannelsToSnapshot, List.mem_toFinset,
      Dict.mem_keys_filter, hc, Option.some.injEq, exists_eq_left', hdelta, decide_true, havailable, hcounters,
      hfrequency, Bool.true_and, Bool.or_eq_true, decide_eq_true_eq, forall_eq']


variable [LinearOrder Ver] [OrderBot Ver]

namespace UpdateTarget

open InMemorySaver

variable {g : Graph Channel} {inputKeys : InputKeys} {nextNull next : GetNextVersion Ver}
  {freshId newId : String} {checkpointId : Option String} {s : InMemorySaver Ver}
  {t t' : UpdateTarget Channel Ver}

def inputTask (writes : List Write) : PregelTaskWrites := ⟨[], Key.input, writes, []⟩

-- The state `apply_writes` leaves in a call.
def computed (g : Graph Channel) (inputKeys : InputKeys) (nextNull next : GetNextVersion Ver)
    (update : StateUpdate) (t : UpdateTarget Channel Ver) :
    Except LoopError (UpdateTarget Channel Ver) :=
  match update with
  | .clear =>
      match t.saved with
      | none => .ok t
      | some _ => do
          let nulled ← t.applyNull g nextNull
          nulled.apply g next (t.finishedTasks g)
  | .input values =>
      match mapInput inputKeys values with
      | [] => .error .emptyInput
      | writes => t.apply g next [inputTask writes]
  | .copy =>
      match t.saved with
      | none => .error .emptyInput
      | some _ => .ok t
  | .nodes updates => t.apply g next (updates.map runTask)

def batches (g : Graph Channel) (inputKeys : InputKeys) (update : StateUpdate)
    (t : UpdateTarget Channel Ver) (k : String) : List (List Value) :=
  match update with
  | .clear =>
      match t.saved with
      | none => []
      | some _ => [batchOf t.channels (sortTasks t.nullTasks) k,
          batchOf t.channels (sortTasks (t.finishedTasks g)) k]
  | .input values => [batchOf t.channels (sortTasks [inputTask (mapInput inputKeys values)]) k]
  | .copy => []
  | .nodes updates => [batchOf t.channels (sortTasks (updates.map runTask)) k]

omit [OrderBot Ver] in
theorem apply_delta {tasks : List PregelTaskWrites} {k : String} {c : DeltaChannel}
    (h : t.apply g next tasks = .ok t') (hc : t.channels.get? k = some (.deltaChannel c)) :
    t'.channels.get? k =
        some (.deltaChannel (c.update (batchOf t.channels (sortTasks tasks) k)).1) ∧
      t'.checkpoint.channelVersions.get? k =
        if batchOf t.channels (sortTasks tasks) k = [] then t.checkpoint.channelVersions.get? k
        else some (next (maxVersion t.checkpoint.channelVersions)) := by
  unfold UpdateTarget.apply at h
  simp only at h
  split at h
  · cases h
  · rename_i updated hok
    have hnone : (applyChannels t.channels t.checkpoint.channelVersions
        (some (next (maxVersion t.checkpoint.channelVersions))) (sortTasks tasks)
        g.triggerToNodes).2 = none := by
      cases hr : (applyChannels t.channels t.checkpoint.channelVersions
          (some (next (maxVersion t.checkpoint.channelVersions))) (sortTasks tasks)
          g.triggerToNodes).2 with
      | none => rfl
      | some e => simp [applyWrites, hr] at hok
    obtain ⟨hchannel, hversion, -⟩ := applyChannels_delta hnone hc
    rw [← Except.ok.inj h]
    exact ⟨hchannel, hversion⟩

omit [OrderBot Ver] in
theorem apply_frame {tasks : List PregelTaskWrites} (h : t.apply g next tasks = .ok t') :
    t'.saved = t.saved ∧ t'.parent = t.parent ∧ t'.channels.keys = t.channels.keys ∧
      t'.checkpoint.id = t.checkpoint.id := by
  unfold UpdateTarget.apply at h
  simp only at h
  split at h
  · cases h
  · rw [← Except.ok.inj h]
    exact ⟨rfl, rfl, keys_applyWrites _ _ _ _ _, rfl⟩

theorem batchOf_congr {channels channels' : Dict String Channel}
    (h : channels'.keys = channels.keys) (tasks : List PregelTaskWrites) (k : String) :
    batchOf channels' tasks k = batchOf channels tasks k := by
  rw [batchOf, batchOf, pendingWritesByChannel, pendingWritesByChannel, groupWrites, groupWrites, h]

def Fresh (s : InMemorySaver Ver) (next : GetNextVersion Ver) : Prop :=
  ∀ k v, (k, next v) ∉ s.blobs.keys

theorem apply_advance (hn : StrictlyIncreasing next) (hf : Fresh s next)
    {tasks : List PregelTaskWrites} {k : String} {c : DeltaChannel}
    (h : t.apply g next tasks = .ok t') (hc : t.channels.get? k = some (.deltaChannel c)) :
    Advance s k (batchOf t.channels (sortTasks tasks) k ≠ [])
      (t.checkpoint.channelVersions.get? k) (t'.checkpoint.channelVersions.get? k) := by
  obtain ⟨-, hversion⟩ := apply_delta h hc
  constructor
  · intro hne
    rw [if_neg hne] at hversion
    exact ⟨_, hversion, fun v hv => lt_next_of_get? hn hv, bot_lt_next hn _, hf k _⟩
  · intro hnil
    rwa [if_pos (not_not.mp hnil)] at hversion

structure Outcome (s : InMemorySaver Ver) (k : String) (c : DeltaChannel)
    (batches : List (List Value)) (t t' : UpdateTarget Channel Ver) : Prop where
  channel : t'.channels.get? k = some (.deltaChannel (c.updated batches))
  version : Advance s k (∃ b ∈ batches, b ≠ []) (t.checkpoint.channelVersions.get? k)
    (t'.checkpoint.channelVersions.get? k)
  saved : t'.saved = t.saved
  parent : t'.parent = t.parent
  keys : t'.channels.keys = t.channels.keys

theorem Outcome.refl {k : String} {c : DeltaChannel}
    (hc : t.channels.get? k = some (.deltaChannel c)) : Outcome s k c [] t t where
  channel := hc
  version := ⟨fun h => by simp at h, fun _ => rfl⟩
  saved := rfl
  parent := rfl
  keys := rfl

theorem Outcome.apply {k : String} {c : DeltaChannel} {batches : List (List Value)}
    {tasks : List PregelTaskWrites} {t'' : UpdateTarget Channel Ver}
    (h : Outcome s k c batches t t') (hn : StrictlyIncreasing next) (hf : Fresh s next)
    (happly : t'.apply g next tasks = .ok t'') :
    Outcome s k c (batches ++ [batchOf t.channels (sortTasks tasks) k]) t t'' := by
  obtain ⟨hchannel, -⟩ := apply_delta happly h.channel
  obtain ⟨hsaved, hparent, hkeys, -⟩ := apply_frame happly
  have hadvance := h.version.trans (apply_advance hn hf happly h.channel)
  rw [batchOf_congr h.keys] at hchannel hadvance
  refine ⟨?_, ?_, hsaved.trans h.saved, hparent.trans h.parent, hkeys.trans h.keys⟩
  · rw [hchannel, DeltaChannel.updated, DeltaChannel.updated, List.foldl_append]
    rfl
  · have hiff : (∃ b ∈ batches ++ [batchOf t.channels (sortTasks tasks) k], b ≠ []) ↔
        (∃ b ∈ batches, b ≠ []) ∨ batchOf t.channels (sortTasks tasks) k ≠ [] := by
      simp [or_and_right, exists_or]
    rwa [hiff]

theorem computed_outcome {update : StateUpdate} (hn : StrictlyIncreasing next)
    (hnull : StrictlyIncreasing nextNull) (hf : Fresh s next) (hfnull : Fresh s nextNull)
    (h : t.computed g inputKeys nextNull next update = .ok t') {k : String} {c : DeltaChannel}
    (hc : t.channels.get? k = some (.deltaChannel c)) :
    Outcome s k c (t.batches g inputKeys update k) t t' := by
  have hstart : Outcome s k c [] t t := .refl hc
  cases update with
  | clear =>
    simp only [computed, batches] at h ⊢
    cases hs : t.saved with
    | none =>
      rw [hs] at h
      obtain rfl := Except.ok.inj h
      exact hstart
    | some saved =>
      rw [hs] at h
      obtain ⟨nulled, hnulled, hlast⟩ := ok_of_bind h
      have hfirst : Outcome s k c [batchOf t.channels (sortTasks t.nullTasks) k] t nulled := by
        unfold applyNull at hnulled
        split at hnulled
        · rename_i hnil
          obtain rfl := Except.ok.inj hnulled
          have hbatch : batchOf t.channels (sortTasks t.nullTasks) k = [] := by
            rw [hnil]
            rfl
          rw [hbatch]
          exact ⟨hc, ⟨fun ⟨b, hb, hne⟩ => absurd (List.mem_singleton.mp hb) hne, fun _ => rfl⟩,
            rfl, rfl, rfl⟩
        · exact hstart.apply hnull hfnull hnulled
      exact hfirst.apply hn hf hlast
  | input values =>
    simp only [computed, batches] at h ⊢
    cases hm : mapInput inputKeys values with
    | nil =>
      rw [hm] at h
      cases h
    | cons w ws =>
      rw [hm] at h
      exact hstart.apply hn hf h
  | copy =>
    simp only [computed, batches] at h ⊢
    cases hs : t.saved with
    | none =>
      rw [hs] at h
      cases h
    | some saved =>
      rw [hs] at h
      obtain rfl := Except.ok.inj h
      exact hstart
  | nodes updates => exact hstart.apply hn hf h

omit [OrderBot Ver] in
theorem getTuple_entry {tuple : CheckpointTuple Ver} (h : s.getTuple checkpointId = some tuple) :
    ∃ id entry, s.storage.get? id = some entry ∧ tuple = s.tuple id entry := by
  rw [getTuple] at h
  cases hid : checkpointId.or s.latest with
  | none => simp [hid] at h
  | some id =>
    cases hentry : s.storage.get? id with
    | none => simp [hid, hentry] at h
    | some entry =>
      simp only [hid, hentry, Option.bind_eq_bind, Option.bind_some, Option.pure_def,
        Option.some.injEq] at h
      exact ⟨id, entry, hentry, h.symm⟩

-- What the target was loaded from, as far as one delta channel goes.
inductive Origin (s : InMemorySaver Ver) (t : UpdateTarget Channel Ver) (d : DeltaChannel)
    (k : String) (c : DeltaChannel) : Prop
  | saved (tuple : CheckpointTuple Ver) (entry : SavedCheckpoint Ver)
      (hsaved : t.saved = some tuple) (hcheckpoint : t.checkpoint = tuple.checkpoint)
      (hparent : t.parent = some tuple.checkpoint.id) (htuple : tuple.parent = entry.parent)
      (hentry : s.storage.get? tuple.checkpoint.id = some entry)
      (hversions : entry.checkpoint.channelVersions = tuple.checkpoint.channelVersions)
      (hvalue : tuple.checkpoint.channelValues.get? k = s.blobAt k tuple.checkpoint.id)
      (hread : s.readDelta d k tuple.checkpoint.id = .ok c)
  | unsaved (hsaved : t.saved = none) (hversions : t.checkpoint.channelVersions = ∅)
      (hvalues : t.checkpoint.channelValues = ∅) (hchain : s.Ancestors t.parent [])
      (hc : c = d.fromCheckpoint none)

omit [OrderBot Ver] in
theorem load_origin (hs : s.Threaded) (hload : load g freshId checkpointId s = .ok t) {k : String}
    {d : DeltaChannel} (hspec : g.specs.get? k = some (.deltaChannel d)) :
    ∃ c, t.channels.get? k = some (.deltaChannel c) ∧ Origin s t d k c := by
  unfold load at hload
  simp only at hload
  split at hload
  · cases hload
  · rename_i channels hchannels
    rw [← Except.ok.inj hload]
    obtain ⟨ch, hhydrate, hget⟩ := get?_channelsFromCheckpoint hchannels hspec
    cases htuple : s.getTuple checkpointId with
    | none =>
      rw [htuple] at hhydrate
      refine ⟨d.fromCheckpoint none, hget.trans ?_, .unsaved rfl rfl rfl ?_ rfl⟩
      · have hplain : ch = .deltaChannel (d.fromCheckpoint none) := (Except.ok.inj hhydrate).symm
        rw [hplain]
      · cases checkpointId with
        | none => rfl
        | some id =>
          rw [getTuple_some, Option.map_eq_none_iff] at htuple
          exact htuple
    | some tuple =>
      obtain ⟨id, entry, hentry, rfl⟩ := getTuple_entry htuple
      have hkeyed : (s.tuple id entry).checkpoint.id = id := hs.keyed id entry hentry
      have hvalue : (s.tuple id entry).checkpoint.channelValues.get? k = s.blobAt k id := by
        rw [blobAt, hentry]
        exact Dict.get?_filterMap _ _ k
      rw [htuple] at hhydrate
      simp only [Option.map_some, Option.getD_some, hkeyed, hvalue, hydrate_delta] at hhydrate
      cases hread : s.readDelta d k id with
      | error e =>
        rw [hread] at hhydrate
        cases hhydrate
      | ok c =>
        rw [hread] at hhydrate
        refine ⟨c, hget.trans (congrArg some (Except.ok.inj hhydrate).symm), ?_⟩
        exact .saved (s.tuple id entry) entry rfl rfl rfl rfl (hkeyed ▸ hentry) rfl
          (hkeyed ▸ hvalue) (hkeyed ▸ hread)

-- The rows a call files at the checkpoint it updates, and at the one it makes.
def filedBefore (g : Graph Channel) (update : StateUpdate) (t : UpdateTarget Channel Ver) :
    List (SaverCall Ver) :=
  match update with
  | .nodes updates => t.nodeCalls (assignTaskIds g t.checkpoint.id (t.nodeTaskIds g) updates)
  | _ => []

def parentRows (g : Graph Channel) (update : StateUpdate) (s : InMemorySaver Ver)
    (t : UpdateTarget Channel Ver) (k : String) : List Value :=
  match update, t.saved with
  | .copy, _ => []
  | _, none => []
  | update, some saved => (s.execAll (t.filedBefore g update)).leftRows k saved.checkpoint.id

def ownRows (g : Graph Channel) (inputKeys : InputKeys) (update : StateUpdate)
    (t : UpdateTarget Channel Ver) (k : String) : List Value :=
  match update with
  | .input values =>
      ((WriteRows.put (g.taskId [t.checkpoint.id, Key.input]) "" 0 (mapInput inputKeys values)
        ∅).replayed k).map PendingWrite.value
  | _ => []

def Snapshots (update : StateUpdate) (t : UpdateTarget Channel Ver) (k : String) : Prop :=
  match update with
  | .nodes updates =>
      k ∈ (createCheckpointPlanForUpdateStateApi t.channels
          (getUpdatedChannelsFromTasks (updates.map runTask)) (t.step + 1)
          (t.saved.map CheckpointTuple.metadata)).1 ∧
        (batchOf t.channels (sortTasks (updates.map runTask)) k ≠ [] ∨
          k ∈ t.checkpoint.channelVersions.keys)
  | _ => False

def KeepsBlob (g : Graph Channel) (inputKeys : InputKeys) (update : StateUpdate)
    (t : UpdateTarget Channel Ver) (k : String) : Prop :=
  (∀ b ∈ t.batches g inputKeys update k, b = []) ∧
    (t.checkpoint.channelValues.get? k).isSome = true

-- The rows that a read finds make of the channel what the call made of it.
structure Recovers (g : Graph Channel) (inputKeys : InputKeys) (update : StateUpdate)
    (s : InMemorySaver Ver) (t : UpdateTarget Channel Ver) (k : String) (c : DeltaChannel) :
    Prop where
  before : Snapshots update t k ∨ t.KeepsBlob g inputKeys update k ∨
    c.replayWrites (t.parentRows g update s k) =
      .ok (c.updated (t.batches g inputKeys update k))
  own : (c.updated (t.batches g inputKeys update k)).replayWrites
      (t.ownRows g inputKeys update k) = .ok (c.updated (t.batches g inputKeys update k))

omit [LinearOrder Ver] [OrderBot Ver] in
theorem leftRows_unused {s : InMemorySaver Ver} [DecidableEq Ver] {id k : String}
    (h : s.rows id = ∅) : s.leftRows k id = [] := by
  rw [leftRows, h]
  split_ifs <;> rfl

omit [LinearOrder Ver] [OrderBot Ver] in
theorem rowsAt_nil (id : Option String) : RowsAt id ([] : List (SaverCall Ver)) := by
  intro call hcall
  cases hcall

theorem batches_nil_of_keeps {update : StateUpdate} {k : String} {c : DeltaChannel}
    (h : ∀ b ∈ t.batches g inputKeys update k, b = []) :
    c.updated (t.batches g inputKeys update k) = c := by
  rw [DeltaChannel.updated]
  generalize t.batches g inputKeys update k = batches at h
  induction batches with
  | nil => rfl
  | cons b bs ih =>
    obtain ⟨rfl, hrest⟩ := List.forall_mem_cons.mp h
    exact ih hrest

-- A call that stores nothing of its own for the channel.
theorem shows_of_called {update : StateUpdate} {k : String} {d c : DeltaChannel}
    {checkpoint : Checkpoint Ver} {metadata : CheckpointMetadata} {post : List (SaverCall Ver)}
    (hs : s.Threaded) (hu : s.Unused checkpoint.id) (hne : t.parent ≠ some checkpoint.id)
    (hb : d.Batching) (horigin : Origin s t d k c) (hcopy : update ≠ .copy)
    (hpre : RowsAt t.parent (t.filedBefore g update))
    (hpost : RowsAt (some checkpoint.id) post)
    (hnone : checkpoint.channelValues.get? k = none)
    (hadv : Advance s k (∃ b ∈ t.batches g inputKeys update k, b ≠ [])
      (t.checkpoint.channelVersions.get? k) (checkpoint.channelVersions.get? k))
    (hown : (s.called (t.filedBefore g update) t.parent checkpoint metadata
      t.previousVersions post).leftRows k checkpoint.id = t.ownRows g inputKeys update k)
    (hsnapshot : ¬ Snapshots update t k) :
    (s.called (t.filedBefore g update) t.parent checkpoint metadata
        t.previousVersions post).Shows d k checkpoint.id
          (c.updated (t.batches g inputKeys update k)) ↔
      t.Recovers g inputKeys update s k c := by
  have hbatches : (¬ ∃ b ∈ t.batches g inputKeys update k, b ≠ []) ↔
      ∀ b ∈ t.batches g inputKeys update k, b = [] := by
    simp only [not_exists, not_and, not_not]
  have hread : (s.called (t.filedBefore g update) t.parent checkpoint metadata
      t.previousVersions post).readDelta d k checkpoint.id =
        .ok (c.updated (t.batches g inputKeys update k)) ↔
      (t.KeepsBlob g inputKeys update k ∨ c.replayWrites (t.parentRows g update s k) =
        .ok (c.updated (t.batches g inputKeys update k))) := by
    cases horigin with
    | saved tuple entry hsaved hcheckpoint hparent htuple hentry hversions hvalue hread =>
      have hprevious : t.previousVersions = t.checkpoint.channelVersions := by
        rw [previousVersions, hsaved, hcheckpoint]
        rfl
      have hrows : t.parentRows g update s k =
          (s.execAll (t.filedBefore g update)).leftRows k tuple.checkpoint.id := by
        cases update with
        | copy => exact absurd rfl hcopy
        | _ => simp only [parentRows, hsaved]
      have hstored : t.checkpoint.channelValues.get? k = s.blobAt k tuple.checkpoint.id := by
        rw [hcheckpoint, hvalue]
      rw [hparent] at hpre ⊢
      rw [hprevious]
      have hentry' : entry.checkpoint.channelVersions = t.checkpoint.channelVersions := by
        rw [hversions, hcheckpoint]
      rw [hrows, KeepsBlob, hstored, ← hbatches]
      rcases readDelta_called hs hu hpre hpost hentry hentry' hnone hadv hb hread with
        ⟨hsame, hkept⟩ | ⟨hreplayed, hnot⟩
      · rw [hsame, batches_nil_of_keeps (hbatches.mp hkept.1)]
        exact ⟨fun _ => Or.inl hkept, fun _ => rfl⟩
      · rw [hreplayed]
        exact ⟨Or.inr, fun h => h.resolve_left hnot⟩
    | unsaved hsaved hversions hvalues hchain hc =>
      have hprevious : t.previousVersions = t.checkpoint.channelVersions := by
        rw [previousVersions, hsaved, hversions]
        rfl
      have hempty : t.checkpoint.channelVersions.get? k = none := by
        rw [hversions]
        rfl
      have hrows : t.parentRows g update s k = [] := by
        cases update with
        | copy => exact absurd rfl hcopy
        | _ => simp only [parentRows, hsaved]
      have hno : ¬ t.KeepsBlob g inputKeys update k := by
        rw [KeepsBlob, hvalues]
        exact fun h => by cases h.2
      rw [hprevious, readDelta_called_unsaved hu hne hchain hpre hpost hempty hnone hadv, hrows,
        ← hc, or_iff_right hno]
      rfl
  rw [shows_iff hb, hread, hown]
  constructor
  · rintro ⟨hbefore, hafter⟩
    exact ⟨Or.inr hbefore, hafter⟩
  · rintro ⟨hbefore, hafter⟩
    exact ⟨hbefore.resolve_left hsnapshot, hafter⟩

omit [LinearOrder Ver] [OrderBot Ver] in
theorem save_values {k : String} {c : DeltaChannel}
    (hc : t'.channels.get? k = some (.deltaChannel c)) (versions : ChannelVersions Ver) :
    (checkpointValues t'.channels versions ∅).get? k = none := by
  rw [checkpointValues, Dict.get?_filterMap, hc, Option.bind_some]
  split_ifs <;> rfl

theorem execAll_save (newId : String) (s : InMemorySaver Ver) (source : String) (step : Int)
    (pre post : List (SaverCall Ver)) (t : UpdateTarget Channel Ver) :
    s.execAll (pre ++ t.save newId source step :: post) =
      s.called pre t.parent
        (createCheckpoint t.checkpoint (some t.channels) newId none none ∅) ⟨source, step, ∅⟩
        t.previousVersions post := by
  have hversions : (createCheckpoint t.checkpoint (some t.channels) newId none none
      ∅).channelVersions = t.checkpoint.channelVersions :=
    snapshotVersions_none t.channels none ∅ _
  rw [InMemorySaver.execAll, List.foldl_append, called, hversions]
  rfl

-- A call without node writers: what it saves has no snapshots.
theorem shows_of_save {update : StateUpdate} {k : String} {d c : DeltaChannel} {source : String}
    {step : Int} {post : List (SaverCall Ver)} (hs : s.Threaded) (hu : s.Unused newId)
    (hne : t.parent ≠ some newId) (hb : d.Batching) (horigin : Origin s t d k c)
    (hcopy : update ≠ .copy) (hbefore : t.filedBefore g update = [])
    (hsnapshot : ¬ Snapshots update t k)
    (houtcome : Outcome s k c (t.batches g inputKeys update k) t t')
    (hpost : RowsAt (some newId) post)
    (hown : (s.called [] t.parent
      (createCheckpoint t'.checkpoint (some t'.channels) newId none none ∅) ⟨source, step, ∅⟩
      t.previousVersions post).leftRows k newId = t.ownRows g inputKeys update k) :
    (s.execAll (t'.save newId source step :: post)).Shows d k newId
        (c.updated (t.batches g inputKeys update k)) ↔
      t.Recovers g inputKeys update s k c := by
  have hprevious : t'.previousVersions = t.previousVersions := by
    rw [previousVersions, previousVersions, houtcome.saved]
  have hcalled := execAll_save newId s source step [] post t'
  rw [List.nil_append, houtcome.parent, hprevious] at hcalled
  rw [hcalled, ← hbefore]
  have hversions : (createCheckpoint t'.checkpoint (some t'.channels) newId none none
      ∅).channelVersions = t'.checkpoint.channelVersions :=
    snapshotVersions_none t'.channels none ∅ _
  have hpre : RowsAt t.parent (t.filedBefore g update) := by
    rw [hbefore]
    exact rowsAt_nil _
  have hadvance := houtcome.version
  rw [← hversions] at hadvance
  rw [← hbefore] at hown
  exact shows_of_called hs hu hne hb horigin hcopy hpre hpost
    (save_values houtcome.channel t'.checkpoint.channelVersions) hadvance hown hsnapshot

theorem leftRows_called_new {pre : List (SaverCall Ver)} {checkpoint : Checkpoint Ver}
    {metadata : CheckpointMetadata} {previous : ChannelVersions Ver} {k : String}
    (hu : s.Unused checkpoint.id) (hne : t.parent ≠ some checkpoint.id)
    (hpre : RowsAt t.parent pre) :
    (s.called pre t.parent checkpoint metadata previous []).leftRows k checkpoint.id = [] := by
  obtain ⟨-, -, hrows⟩ := execAll_rowsAt hpre s
  refine leftRows_unused ?_
  exact (hrows checkpoint.id (fun he => hne he.symm)).trans hu.rows

omit [LinearOrder Ver] [OrderBot Ver] in
theorem rowsAt_nodeCalls (horigin : ∀ saved, t.saved = some saved →
      t.parent = some saved.checkpoint.id) (updates : List (String × NodeUpdate)) :
    RowsAt t.parent (t.nodeCalls updates) := by
  unfold nodeCalls
  split
  · exact rowsAt_nil _
  · rename_i saved hsaved
    intro call hcall
    obtain ⟨u, -, hsome⟩ := List.mem_filterMap.mp hcall
    split at hsome
    · cases hsome
    · rw [← Option.some.inj hsome, horigin saved hsaved]
      exact ⟨_, _, _, _, rfl, rfl⟩

omit [LinearOrder Ver] [OrderBot Ver] in
theorem mem_updated_iff {tasks : List PregelTaskWrites} {k : String} (hk : k ∉ ignoredWrites)
    (hmem : k ∈ t.channels.keys) :
    k ∈ getUpdatedChannelsFromTasks tasks ↔ batchOf t.channels (sortTasks tasks) k ≠ [] := by
  have hpush : k ≠ Key.push := by
    rintro rfl
    exact hk (by decide)
  have hpending : k ∈ (pendingWritesByChannel t.channels (sortTasks tasks)).keys ↔
      batchOf t.channels (sortTasks tasks) k ≠ [] :=
    ⟨batchOf_ne_nil, fun hne => by_contra (fun hno => hne (batchOf_of_not_mem hno))⟩
  rw [← hpending, pendingWritesByChannel, mem_keys_groupWrites, getUpdatedChannelsFromTasks]
  simp only [List.mem_toFinset, List.mem_filter, List.mem_map, decide_eq_true_eq,
    mem_writes_sortTasks]
  constructor
  · rintro ⟨⟨w, hw, rfl⟩, -⟩
    exact ⟨hk, hmem, w.2, hw⟩
  · rintro ⟨-, -, v, hv⟩
    exact ⟨⟨(k, v), hv, rfl⟩, hpush⟩

-- What `create_checkpoint` makes of a delta channel under the plan of a call.
theorem saveNodes_put (next : GetNextVersion Ver) (newId : String) (updated : Finset String)
    (t : UpdateTarget Channel Ver) :
    ∃ checkpoint metadata, t.saveNodes next newId updated =
        .put t.parent checkpoint metadata
          (getNewChannelVersions t.previousVersions checkpoint.channelVersions) ∧
      checkpoint.id = newId ∧
      ∀ k c, t.channels.get? k = some (.deltaChannel c) →
        (checkpoint.channelVersions.get? k = (t.checkpoint.channelVersions.get? k).map (fun v =>
          if k ∈ (createCheckpointPlanForUpdateStateApi t.channels updated (t.step + 1)
              (t.saved.map CheckpointTuple.metadata)).1 ∧ k ∉ updated then next (some v) else v)) ∧
        checkpoint.channelValues.get? k =
          if k ∈ t.checkpoint.channelVersions.keys ∧
              k ∈ (createCheckpointPlanForUpdateStateApi t.channels updated (t.step + 1)
                (t.saved.map CheckpointTuple.metadata)).1 then
            c.value.map .deltaSnapshot
          else none := by
  unfold saveNodes
  simp only
  generalize createCheckpointPlanForUpdateStateApi t.channels updated (t.step + 1)
    (t.saved.map CheckpointTuple.metadata) = plan
  have hvalues {k : String} {c : DeltaChannel} (hc : t.channels.get? k = some (.deltaChannel c)) :
      (checkpointValues t.channels t.checkpoint.channelVersions plan.1).get? k =
        if k ∈ t.checkpoint.channelVersions.keys ∧ k ∈ plan.1 then c.value.map .deltaSnapshot
        else none := by
    rw [checkpointValues, Dict.get?_filterMap, hc, Option.bind_some, checkpointValue]
    split_ifs with hversion hplan hboth hboth hboth
    · rfl
    · exact absurd ⟨hversion, hplan⟩ hboth
    · exact absurd hboth.2 hplan
    · rfl
    · exact absurd hboth.1 hversion
    · rfl
  by_cases hempty : plan.1 = ∅
  · rw [if_pos hempty]
    refine ⟨_, _, rfl, rfl, fun k c hc => ⟨?_, ?_⟩⟩
    · have hversions : (createCheckpoint t.checkpoint (some t.channels) newId none none
          ∅).channelVersions = t.checkpoint.channelVersions :=
        snapshotVersions_none t.channels none ∅ _
      rw [hversions, hempty]
      simp
    · rw [← hvalues hc, hempty]
      rfl
  · rw [if_neg hempty]
    refine ⟨_, _, rfl, rfl, fun k c hc => ⟨?_, hvalues hc⟩⟩
    have hkeys : k ∈ t.channels.keys := Dict.mem_keys.mpr ⟨_, hc⟩
    have hversions := get?_snapshotVersions t.channels (some updated) next plan.1
      t.checkpoint.channelVersions k
    simp only [hkeys, true_and, Option.getD_some] at hversions
    exact hversions

omit [OrderBot Ver] in
theorem Origin.spec {k : String} {d c : DeltaChannel} (h : Origin s t d k c) :
    c.value.isSome = true ∧ ∀ b, c.fromCheckpoint b = d.fromCheckpoint b := by
  cases h with
  | saved tuple entry hsaved hcheckpoint hparent htuple hentry hversions hvalue hread =>
    exact ⟨isSome_readDelta hread, fun b => fromCheckpoint_readDelta hread b⟩
  | unsaved hsaved hversions hvalues hchain hc =>
    rw [hc]
    exact ⟨d.isSome_fromCheckpoint none, fun b => d.fromCheckpoint_value _ b⟩

omit [OrderBot Ver] in
theorem Origin.parent_saved {k : String} {d c : DeltaChannel} (h : Origin s t d k c) :
    ∀ saved, t.saved = some saved → t.parent = some saved.checkpoint.id := by
  intro saved hsaved
  cases h with
  | saved tuple entry hsaved' hcheckpoint hparent htuple hentry hversions hvalue hread =>
    rw [Option.some.inj (hsaved.symm.trans hsaved')]
    exact hparent
  | unsaved hsaved' hversions hvalues hchain hc =>
    rw [hsaved'] at hsaved
    cases hsaved

omit [OrderBot Ver] in
theorem Origin.previous {k : String} {d c : DeltaChannel} (h : Origin s t d k c) :
    t.previousVersions = t.checkpoint.channelVersions := by
  rw [previousVersions]
  cases h with
  | saved tuple entry hsaved hcheckpoint hparent htuple hentry hversions hvalue hread =>
    rw [hsaved, hcheckpoint]
    rfl
  | unsaved hsaved hversions hvalues hchain hc =>
    rw [hsaved, hversions]
    rfl

theorem shows_of_nodes {updates : List NodeUpdate} {k : String} {d c : DeltaChannel}
    (hs : s.Threaded) (hu : s.Unused newId) (hne : t.parent ≠ some newId) (hb : d.Batching)
    (hk : k ∉ ignoredWrites) (hc : t.channels.get? k = some (.deltaChannel c))
    (horigin : Origin s t d k c) (hn : StrictlyIncreasing next)
    (hnull : StrictlyIncreasing nextNull) (hf : Fresh s next) (hfnull : Fresh s nextNull)
    (happly : t.apply g next (updates.map runTask) = .ok t') :
    (s.execAll (t.filedBefore g (.nodes updates) ++ [t'.saveNodes nextNull newId
        (getUpdatedChannelsFromTasks (updates.map runTask))])).Shows d k newId
          (c.updated (t.batches g inputKeys (.nodes updates) k)) ↔
      t.Recovers g inputKeys (.nodes updates) s k c := by
  have houtcome : Outcome s k c (t.batches g inputKeys (.nodes updates) k) t t' :=
    (Outcome.refl hc).apply hn hf happly
  obtain ⟨hvalue, hspec⟩ := horigin.spec
  obtain ⟨v, hv, hsome⟩ := c.updated_eq (t.batches g inputKeys (.nodes updates) k)
  obtain ⟨value, hvalue'⟩ := Option.isSome_iff_exists.mp (hsome hvalue)
  rw [hvalue'] at hv
  have hprevious : t'.previousVersions = t.previousVersions := by
    rw [previousVersions, previousVersions, houtcome.saved]
  have hstep : t'.step = t.step := by rw [step, step, houtcome.saved]
  have hmem : k ∈ t.channels.keys := Dict.mem_keys.mpr ⟨_, hc⟩
  have hwritten := @mem_updated_iff Ver t (updates.map runTask) k hk hmem
  obtain ⟨checkpoint, metadata, hput, rfl, hfacts⟩ := saveNodes_put nextNull newId
    (getUpdatedChannelsFromTasks (updates.map runTask)) t'
  obtain ⟨hversion, hstored⟩ := hfacts k _ houtcome.channel
  have hsameplan : k ∈ (createCheckpointPlanForUpdateStateApi t'.channels
        (getUpdatedChannelsFromTasks (updates.map runTask)) (t'.step + 1)
        (t'.saved.map CheckpointTuple.metadata)).1 ↔
      k ∈ (createCheckpointPlanForUpdateStateApi t.channels
        (getUpdatedChannelsFromTasks (updates.map runTask)) (t.step + 1)
        (t.saved.map CheckpointTuple.metadata)).1 := by
    have hafter : (c.updated (t.batches g inputKeys (.nodes updates) k)).value.isSome = true := by
      rw [hv]
      rfl
    rw [mem_plan houtcome.channel hafter, mem_plan hc hvalue, houtcome.saved, hv]
  have hpre := rowsAt_nodeCalls horigin.parent_saved
    (assignTaskIds g t.checkpoint.id (t.nodeTaskIds g) updates)
  have hcalled : s.execAll (t.filedBefore g (.nodes updates) ++ [t'.saveNodes nextNull
      checkpoint.id (getUpdatedChannelsFromTasks (updates.map runTask))]) =
        s.called (t.filedBefore g (.nodes updates)) t.parent checkpoint metadata
          t.previousVersions [] := by
    rw [hput, InMemorySaver.execAll, List.foldl_append, houtcome.parent, hprevious]
    rfl
  have hadvance := houtcome.version
  have hmoved : (∃ b ∈ t.batches g inputKeys (.nodes updates) k, b ≠ []) ↔
      batchOf t.channels (sortTasks (updates.map runTask)) k ≠ [] := by
    simp [batches]
  rw [hmoved] at hadvance
  have hkeys : k ∈ t'.checkpoint.channelVersions.keys ↔
      batchOf t.channels (sortTasks (updates.map runTask)) k ≠ [] ∨
        k ∈ t.checkpoint.channelVersions.keys := by
    rw [Dict.mem_keys, Dict.mem_keys]
    by_cases hm : batchOf t.channels (sortTasks (updates.map runTask)) k ≠ []
    · obtain ⟨w, hw, -⟩ := hadvance.drawn hm
      exact ⟨fun _ => Or.inl hm, fun _ => ⟨w, hw⟩⟩
    · rw [hadvance.kept hm]
      exact ⟨Or.inr, fun h => h.resolve_left hm⟩
  rw [hcalled]
  by_cases hsnapshot : Snapshots (.nodes updates) t k
  · obtain ⟨hplan, hversioned⟩ := hsnapshot
    rw [if_pos ⟨hkeys.mpr hversioned, hsameplan.mpr hplan⟩, hv] at hstored
    have hdrawn : Advance s k True (t.previousVersions.get? k)
        (checkpoint.channelVersions.get? k) := by
      rw [horigin.previous, hversion]
      by_cases hm : batchOf t.channels (sortTasks (updates.map runTask)) k ≠ []
      · have hno : ¬ (k ∈ (createCheckpointPlanForUpdateStateApi t'.channels
            (getUpdatedChannelsFromTasks (updates.map runTask)) (t'.step + 1)
            (t'.saved.map CheckpointTuple.metadata)).1 ∧
              k ∉ getUpdatedChannelsFromTasks (updates.map runTask)) :=
          fun h => h.2 (hwritten.mpr hm)
        simp only [if_neg hno, Option.map_id']
        exact ⟨fun _ => hadvance.drawn hm, fun h => absurd trivial h⟩
      · obtain ⟨w, hw⟩ := Dict.mem_keys.mp (hversioned.resolve_left hm)
        have hyes : k ∈ (createCheckpointPlanForUpdateStateApi t'.channels
            (getUpdatedChannelsFromTasks (updates.map runTask)) (t'.step + 1)
            (t'.saved.map CheckpointTuple.metadata)).1 ∧
              k ∉ getUpdatedChannelsFromTasks (updates.map runTask) :=
          ⟨hsameplan.mpr hplan, fun h => hm (hwritten.mp h)⟩
        rw [hadvance.kept hm, hw]
        simp only [if_pos hyes, Option.map_some]
        refine ⟨fun _ => ⟨nextNull (some w), rfl, fun v hv => ?_, bot_lt_next hnull _,
          hfnull k _⟩, fun h => absurd trivial h⟩
        rw [← Option.some.inj hv]
        exact hnull.some w
    have hread : (s.called (t.filedBefore g (.nodes updates)) t.parent checkpoint metadata
        t.previousVersions []).readDelta d k checkpoint.id =
          .ok (d.fromCheckpoint (some (.deltaSnapshot value))) :=
      readDelta_called_snapshot hpre (rowsAt_nil (some checkpoint.id)) hstored hdrawn
    have hsame : d.fromCheckpoint (some (.deltaSnapshot value)) =
        c.updated (t.batches g inputKeys (.nodes updates) k) := by
      rw [← hspec, hv]
      rfl
    rw [shows_iff hb]
    refine ⟨fun _ => ⟨Or.inl ⟨hplan, hversioned⟩, rfl⟩, fun _ => ⟨?_, ?_⟩⟩
    · rw [← hsame]
      exact hread
    · have hleft : (s.called (t.filedBefore g (.nodes updates)) t.parent checkpoint metadata
          t.previousVersions []).leftRows k checkpoint.id = [] :=
        leftRows_called_new hu hne hpre
      rw [hleft]
      rfl
  · have hno : ¬ (k ∈ t'.checkpoint.channelVersions.keys ∧
        k ∈ (createCheckpointPlanForUpdateStateApi t'.channels
          (getUpdatedChannelsFromTasks (updates.map runTask)) (t'.step + 1)
          (t'.saved.map CheckpointTuple.metadata)).1) :=
      fun h => hsnapshot ⟨hsameplan.mp h.2, hkeys.mp h.1⟩
    rw [if_neg hno] at hstored
    have hunbumped : checkpoint.channelVersions.get? k = t'.checkpoint.channelVersions.get? k := by
      rw [hversion]
      cases ho : t'.checkpoint.channelVersions.get? k with
      | none => rfl
      | some w =>
        rw [Option.map_some, if_neg (fun h => hno ⟨Dict.mem_keys.mpr ⟨w, ho⟩, h.1⟩)]
    refine shows_of_called hs hu hne hb horigin (by simp) hpre (rowsAt_nil _) hstored ?_
      (leftRows_called_new hu hne hpre) hsnapshot
    rw [hunbumped]
    exact houtcome.version

theorem shows_of_clear {calls : List (SaverCall Ver)} {k : String} {d c : DeltaChannel}
    (hs : s.Threaded) (hu : s.Unused newId) (hne : t.parent ≠ some newId) (hb : d.Batching)
    (hc : t.channels.get? k = some (.deltaChannel c)) (horigin : Origin s t d k c)
    (hn : StrictlyIncreasing next) (hnull : StrictlyIncreasing nextNull) (hf : Fresh s next)
    (hfnull : Fresh s nextNull) (h : t.clear g nextNull next newId = .ok calls)
    (hcomputed : t.computed g inputKeys nextNull next .clear = .ok t') :
    (s.execAll calls).Shows d k newId (c.updated (t.batches g inputKeys .clear k)) ↔
      t.Recovers g inputKeys .clear s k c := by
  have houtcome := computed_outcome hn hnull hf hfnull hcomputed hc
  obtain ⟨step, hcalls⟩ : ∃ step, calls = [t'.save newId "update" step] := by
    unfold clear at h
    unfold computed at hcomputed
    cases hsaved : t.saved with
    | none =>
      simp only [hsaved] at h hcomputed
      rw [← Except.ok.inj h, Except.ok.inj hcomputed]
      exact ⟨_, rfl⟩
    | some saved =>
      simp only [hsaved] at h hcomputed
      obtain ⟨nulled, hnulled, h⟩ := ok_of_bind h
      obtain ⟨applied, happlied, h⟩ := ok_of_bind h
      obtain ⟨nulled', hnulled', hlast⟩ := ok_of_bind hcomputed
      obtain rfl := Except.ok.inj (hnulled.symm.trans hnulled')
      obtain rfl := Except.ok.inj (happlied.symm.trans hlast)
      exact ⟨_, (Except.ok.inj h).symm⟩
  rw [hcalls]
  exact shows_of_save hs hu hne hb horigin (by simp) rfl id houtcome (rowsAt_nil _)
    (leftRows_called_new hu hne (rowsAt_nil _))

theorem shows_of_asInput {values : Value} {calls : List (SaverCall Ver)} {k : String}
    {d c : DeltaChannel} (hs : s.Threaded) (hu : s.Unused newId) (hne : t.parent ≠ some newId)
    (hb : d.Batching) (hk : k ∉ ignoredWrites)
    (hc : t.channels.get? k = some (.deltaChannel c)) (horigin : Origin s t d k c)
    (hn : StrictlyIncreasing next) (hf : Fresh s next)
    (h : t.asInput g inputKeys next newId values = .ok calls)
    (hcomputed : t.computed g inputKeys nextNull next (.input values) = .ok t') :
    (s.execAll calls).Shows d k newId (c.updated (t.batches g inputKeys (.input values) k)) ↔
      t.Recovers g inputKeys (.input values) s k c := by
  obtain ⟨happly, hcalls⟩ : t.apply g next [inputTask (mapInput inputKeys values)] = .ok t' ∧
      calls = [t'.save newId "input" (if t'.saved.isSome then t'.step + 1 else -1),
        .putWrites newId (mapInput inputKeys values) (g.taskId [t.checkpoint.id, Key.input]) ""] := by
    unfold asInput at h
    unfold computed at hcomputed
    cases hm : mapInput inputKeys values with
    | nil =>
      rw [hm] at h
      cases h
    | cons w ws =>
      simp only [hm] at h hcomputed
      obtain ⟨t'', happly, h⟩ := ok_of_bind h
      obtain rfl := Except.ok.inj (happly.symm.trans hcomputed)
      exact ⟨happly, (Except.ok.inj h).symm⟩
  have houtcome : Outcome s k c (t.batches g inputKeys (.input values) k) t t' :=
    (Outcome.refl hc).apply hn hf happly
  have hpost : RowsAt (some newId) [(.putWrites newId (mapInput inputKeys values)
      (g.taskId [t.checkpoint.id, Key.input]) "" : SaverCall Ver)] := by
    intro call hcall
    rw [List.mem_singleton.mp hcall]
    exact ⟨_, _, _, _, rfl, rfl⟩
  rw [hcalls]
  refine shows_of_save hs hu hne hb horigin (by simp) rfl id houtcome hpost ?_
  obtain ⟨checkpoint, hcheckpoint⟩ : ∃ checkpoint, checkpoint =
    createCheckpoint t'.checkpoint (some t'.channels) newId none none ∅ := ⟨_, rfl⟩
  have hid : checkpoint.id = newId := by rw [hcheckpoint]; rfl
  have hversions : checkpoint.channelVersions = t'.checkpoint.channelVersions := by
    rw [hcheckpoint]
    exact snapshotVersions_none t'.channels none ∅ _
  have hnone : checkpoint.channelValues.get? k = none := by
    rw [hcheckpoint]
    exact save_values houtcome.channel t'.checkpoint.channelVersions
  rw [← hcheckpoint]
  subst hid
  have hadvance := houtcome.version
  rw [← hversions, ← horigin.previous] at hadvance
  have hrows : (s.called [] t.parent checkpoint
      ⟨"input", if t'.saved.isSome then t'.step + 1 else -1, ∅⟩ t.previousVersions
      [.putWrites checkpoint.id (mapInput inputKeys values) (g.taskId [t.checkpoint.id, Key.input])
        ""]).rows checkpoint.id =
      WriteRows.put (g.taskId [t.checkpoint.id, Key.input]) "" 0 (mapInput inputKeys values) ∅ := by
    rw [← hu.rows]
    exact rows_putWrites _ _ _ _ _
  rw [leftRows, hrows]
  by_cases hm : ∃ b ∈ t.batches g inputKeys (.input values) k, b ≠ []
  · have hblob : (s.called [] t.parent checkpoint
        ⟨"input", if t'.saved.isSome then t'.step + 1 else -1, ∅⟩ t.previousVersions
        [.putWrites checkpoint.id (mapInput inputKeys values)
          (g.taskId [t.checkpoint.id, Key.input]) ""]).blobAt k checkpoint.id =
        checkpoint.channelValues.get? k :=
      (blobAt_called_self (rowsAt_nil t.parent) hpost hadvance).1 hm
    rw [hblob, hnone]
    rfl
  · have hnil : (WriteRows.put (g.taskId [t.checkpoint.id, Key.input]) "" 0
        (mapInput inputKeys values) ∅).replayed k = [] := by
      rw [WriteRows.replayed, List.map_eq_nil_iff, List.filter_eq_nil_iff]
      intro e he hchannel
      have hitem := (WriteRows.sorted_perm _).mem_iff.mp he
      rcases WriteRows.mem_put hitem with hmem | hmem
      · cases hmem
      · have hchannel : e.2.channel = k := of_decide_eq_true hchannel
        have hwritten := (@mem_updated_iff Ver t [inputTask (mapInput inputKeys values)] k hk
          (Dict.mem_keys.mpr ⟨_, hc⟩)).mp (by
            have hpush : k ≠ Key.push := by
              rintro rfl
              exact hk (by decide)
            rw [getUpdatedChannelsFromTasks]
            simp only [List.mem_toFinset, List.mem_filter, List.mem_map, decide_eq_true_eq]
            exact ⟨⟨e.2.write, by simpa [inputTask] using hmem, hchannel⟩, hpush⟩)
        exact hm ⟨_, List.mem_singleton_self _, hwritten⟩
    rw [ownRows, hnil]
    split_ifs <;> rfl

theorem shows_of_copy {calls : List (SaverCall Ver)} {k : String} {d c : DeltaChannel}
    (hs : s.Threaded) (hu : s.Unused newId) (hb : d.Batching) (horigin : Origin s t d k c)
    (h : t.copy newId = .ok calls) :
    (s.execAll calls).Shows d k newId (c.updated (t.batches g inputKeys .copy k)) ↔
      t.Recovers g inputKeys .copy s k c := by
  unfold copy at h
  cases horigin with
  | unsaved hsaved hversions hvalues hchain hc =>
    rw [hsaved] at h
    cases h
  | saved tuple entry hsaved hcheckpoint hparent htuple hentry hversions hvalue hread =>
    rw [hsaved] at h
    simp only [Except.ok.injEq] at h
    rw [← h]
    obtain ⟨checkpoint, hmade⟩ : ∃ checkpoint, checkpoint = createCheckpoint t.checkpoint
      (none : Option (Dict String Channel)) newId none none ∅ := ⟨_, rfl⟩
    have hid : checkpoint.id = newId := by rw [hmade]; rfl
    have hsame : checkpoint.channelVersions = tuple.checkpoint.channelVersions := by
      rw [hmade, ← hcheckpoint]
      rfl
    rw [← hmade]
    subst hid
    obtain ⟨s', hs'⟩ : ∃ s', s' = s.put tuple.parent checkpoint ⟨"fork", t.step + 1, ∅⟩ ∅ :=
      ⟨_, rfl⟩
    have hexec : s.execAll [.put tuple.parent checkpoint ⟨"fork", t.step + 1, ∅⟩ ∅] = s' := by
      rw [hs']
      rfl
    rw [hexec]
    have hfiles : s.Files s' checkpoint.id entry.parent := by
      rw [hs', ← htuple]
      exact files_of_calls (rowsAt_nil _) (rowsAt_nil _)
    have hframe (id : String) (hid : id ≠ checkpoint.id) : s'.blobAt k id = s.blobAt k id := by
      rw [blobAt, blobAt, hfiles.storage id hid, hs']
      rfl
    have hblob : s'.blobAt k checkpoint.id = s.blobAt k tuple.checkpoint.id := by
      rw [hs', blobAt_put_self, blobAt, hentry, hsame, ← hversions]
      rfl
    obtain ⟨l, hl⟩ := hs.ends entry.parent
    have hbefore : s.chain tuple.checkpoint.id = l :=
      chain_eq (by rw [hentry, Option.bind_some]; exact hl)
    have hafter : s'.chain checkpoint.id = l := hfiles.chain hu (hu.parent _ _ hentry) hl
    have hwalk : s'.walk k l = s.walk k l := by
      refine walk_congr (fun id hmem => ?_)
      have hnew : id ≠ checkpoint.id := by
        rintro rfl
        exact Dict.get?_eq_none.mp hu.storage (ancestors_stored hl hmem)
      refine ⟨hframe id hnew, ?_⟩
      rw [hs']
      rfl
    have hsameread : s'.readDelta d k checkpoint.id = .ok c := by
      rw [← hread, readDelta, readDelta, hblob, hbefore, hafter, rebuilt, rebuilt, hwalk]
    have hleft : s'.leftRows k checkpoint.id = [] := by
      refine leftRows_unused ?_
      rw [hs']
      exact hu.rows
    have hshows : s'.Shows d k checkpoint.id c := by
      rw [shows_iff hb, hleft]
      exact ⟨hsameread, rfl⟩
    exact ⟨fun _ => ⟨Or.inr (Or.inr rfl), rfl⟩, fun _ => hshows⟩

end UpdateTarget

-- `get_state` at the new checkpoint, and a checkpoint made after it, have what the call computed.
structure Visible (g : Graph Channel) (s : InMemorySaver Ver) (newId : String)
    (channels : Dict String Channel) : Prop where
  read : ∃ tuple read, s.getTuple (some newId) = some tuple ∧
    channelsFromCheckpoint g.specs (some s) tuple.checkpoint = .ok read ∧
    ∀ k d, g.specs.get? k = some (.deltaChannel d) → read.get? k = channels.get? k
  continued : ∀ k d c, g.specs.get? k = some (.deltaChannel d) →
    channels.get? k = some (.deltaChannel c) → s.rebuilt d k (newId :: s.chain newId) = .ok c

theorem traverse_ok {f : String → Channel → Except UpdateError Channel}
    {items : List (String × Channel)} (h : ∀ e ∈ items, ∃ c, f e.1 e.2 = .ok c) :
    ∃ l, traverse f items = .ok l := by
  induction items with
  | nil => exact ⟨[], rfl⟩
  | cons e items ih =>
    obtain ⟨k, spec⟩ := e
    obtain ⟨⟨c, hc⟩, hrest⟩ := List.forall_mem_cons.mp h
    obtain ⟨l, hl⟩ := ih hrest
    refine ⟨(k, c) :: l, ?_⟩
    simp only at hc
    rw [traverse, hc, hl]
    rfl

omit [OrderBot Ver] in
theorem visible_iff_shows {g : Graph Channel} {s : InMemorySaver Ver} {newId : String}
    {channels : Dict String Channel} {entry : SavedCheckpoint Ver}
    (hentry : s.storage.get? newId = some entry) (hid : entry.checkpoint.id = newId)
    (hdelta : ∀ k d, g.specs.get? k = some (.deltaChannel d) →
      ∃ c, channels.get? k = some (.deltaChannel c)) :
    Visible g s newId channels ↔ ∀ k d c, g.specs.get? k = some (.deltaChannel d) →
      channels.get? k = some (.deltaChannel c) → s.Shows d k newId c := by
  have htuple : s.getTuple (some newId) = some (s.tuple newId entry) := by
    rw [InMemorySaver.getTuple_some, hentry]
    rfl
  have hvalue (k : String) :
      (s.tuple newId entry).checkpoint.channelValues.get? k = s.blobAt k newId := by
    rw [InMemorySaver.blobAt, hentry]
    exact Dict.get?_filterMap _ _ k
  have hkeyed : (s.tuple newId entry).checkpoint.id = newId := hid
  constructor
  · rintro ⟨⟨tuple, read, hget, hread, hsame⟩, hcontinued⟩ k d c hspec hc
    obtain rfl := Option.some.inj (htuple.symm.trans hget)
    refine ⟨?_, hcontinued k d c hspec hc⟩
    obtain ⟨ch, hhydrate, hch⟩ := get?_channelsFromCheckpoint hread hspec
    rw [hsame k d hspec, hc] at hch
    rw [hvalue, hkeyed, InMemorySaver.hydrate_delta, ← Option.some.inj hch] at hhydrate
    cases hr : s.readDelta d k newId with
    | error e =>
      rw [hr] at hhydrate
      cases hhydrate
    | ok c' =>
      rw [hr] at hhydrate
      exact congrArg Except.ok (Channel.deltaChannel.inj (Except.ok.inj hhydrate))
  · intro hshows
    refine ⟨?_, fun k d c hspec hc => (hshows k d c hspec hc).continued⟩
    have hall : ∀ e ∈ g.specs.items, ∃ c, hydrate e.2 (some s)
        (s.tuple newId entry).checkpoint.id e.1
        ((s.tuple newId entry).checkpoint.channelValues.get? e.1) = .ok c := by
      rintro ⟨k, spec⟩ hmem
      simp only [hvalue, hkeyed]
      have hspec : g.specs.get? k = some spec := Dict.get?_eq_some.mpr hmem
      by_cases hd : isDelta spec
      · obtain ⟨d, rfl⟩ : ∃ d, spec = .deltaChannel d := Channel.delta_of_kind hd
        obtain ⟨c, hc⟩ := hdelta k d hspec
        rw [InMemorySaver.hydrate_delta, (hshows k d c hspec hc).read]
        exact ⟨_, rfl⟩
      · rw [hydrate, if_neg (fun hr => hd hr.1)]
        exact ⟨_, rfl⟩
    obtain ⟨l, hl⟩ := traverse_ok (f := fun k spec => hydrate spec (some s)
      (s.tuple newId entry).checkpoint.id k
      ((s.tuple newId entry).checkpoint.channelValues.get? k)) hall
    have hload : channelsFromCheckpoint g.specs (some s) (s.tuple newId entry).checkpoint =
        .ok (Dict.ofList l) := by
      rw [channelsFromCheckpoint, hl]
      rfl
    refine ⟨_, _, htuple, hload, fun k d hspec => ?_⟩
    obtain ⟨c, hc⟩ := hdelta k d hspec
    obtain ⟨ch, hhydrate, hch⟩ := get?_channelsFromCheckpoint hload hspec
    rw [hvalue, hkeyed, InMemorySaver.hydrate_delta, (hshows k d c hspec hc).read] at hhydrate
    rw [hch, hc, ← Except.ok.inj hhydrate]

namespace UpdateTarget

open InMemorySaver

variable {g : Graph Channel} {inputKeys : InputKeys} {nextNull next : GetNextVersion Ver}
  {freshId newId : String} {checkpointId : Option String} {s : InMemorySaver Ver}
  {t t' : UpdateTarget Channel Ver} {update : StateUpdate} {calls : List (SaverCall Ver)}

theorem called_entry (s : InMemorySaver Ver) (pre : List (SaverCall Ver)) (parent : Option String)
    (checkpoint : Checkpoint Ver) (metadata : CheckpointMetadata) (previous : ChannelVersions Ver)
    {post : List (SaverCall Ver)} (hpost : RowsAt (some checkpoint.id) post) :
    ∃ entry, (s.called pre parent checkpoint metadata previous post).storage.get? checkpoint.id =
      some entry ∧ entry.checkpoint.id = checkpoint.id := by
  obtain ⟨hstorage, -, -⟩ := execAll_rowsAt hpost ((s.execAll pre).put parent checkpoint
    metadata (getNewChannelVersions previous checkpoint.channelVersions))
  rw [called, hstorage]
  exact ⟨_, Dict.get?_set_self _ _ _, rfl⟩

omit [LinearOrder Ver] [OrderBot Ver] in
theorem exceptCalls_ok {r : Except LoopError (List (SaverCall Ver))}
    (h : exceptCalls r = (calls, none)) : r = .ok calls := by
  cases r with
  | error e => cases congrArg Prod.snd h
  | ok calls' => exact congrArg Except.ok (congrArg Prod.fst h)

def Made (g : Graph Channel) (inputKeys : InputKeys) (nextNull next : GetNextVersion Ver)
    (newId : String) (update : StateUpdate) (t t' : UpdateTarget Channel Ver)
    (calls : List (SaverCall Ver)) : Prop :=
  match update with
  | .clear => t.clear g nextNull next newId = .ok calls
  | .input values => t.asInput g inputKeys next newId values = .ok calls
  | .copy => t.copy newId = .ok calls
  | .nodes updates =>
      t.apply g next (updates.map runTask) = .ok t' ∧
        calls = t.filedBefore g (.nodes updates) ++ [t'.saveNodes nextNull newId
          (getUpdatedChannelsFromTasks (updates.map runTask))]

theorem computed_of_update (hload : load g freshId checkpointId s = .ok t)
    (hcall : updateState g inputKeys nextNull next freshId newId checkpointId update s =
      (calls, none)) :
    ∃ t', t.computed g inputKeys nextNull next update = .ok t' ∧
      Made g inputKeys nextNull next newId update t t' calls := by
  rw [updateState, hload] at hcall
  cases update with
  | clear =>
    have hok := exceptCalls_ok hcall
    rw [clear] at hok
    cases hsaved : t.saved with
    | none =>
      refine ⟨t, ?_, exceptCalls_ok hcall⟩
      simp only [computed, hsaved]
    | some saved =>
      rw [hsaved] at hok
      obtain ⟨nulled, hnulled, hok⟩ := ok_of_bind hok
      obtain ⟨applied, happlied, -⟩ := ok_of_bind hok
      refine ⟨applied, ?_, exceptCalls_ok hcall⟩
      simp only [computed, hsaved, hnulled, bind, Except.bind]
      exact happlied
  | input values =>
    have hok := exceptCalls_ok hcall
    rw [asInput] at hok
    cases hm : mapInput inputKeys values with
    | nil =>
      rw [hm] at hok
      cases hok
    | cons w ws =>
      simp only [hm] at hok
      obtain ⟨t', happly, -⟩ := ok_of_bind hok
      refine ⟨t', ?_, exceptCalls_ok hcall⟩
      simp only [computed, hm]
      exact happly
  | copy =>
    have hok := exceptCalls_ok hcall
    rw [copy] at hok
    cases hsaved : t.saved with
    | none =>
      rw [hsaved] at hok
      cases hok
    | some saved =>
      refine ⟨t, ?_, exceptCalls_ok hcall⟩
      simp only [computed, hsaved]
  | nodes updates =>
    simp only [asNodes] at hcall
    cases happly : t.apply g next (updates.map runTask) with
    | error e =>
      rw [happly] at hcall
      cases congrArg Prod.snd hcall
    | ok t' =>
      rw [happly] at hcall
      exact ⟨t', happly, happly, (congrArg Prod.fst hcall).symm⟩

omit [OrderBot Ver] in
theorem parent_ne (hs : s.Threaded) (hu : s.Unused newId) (hne : checkpointId ≠ some newId)
    (hload : load g freshId checkpointId s = .ok t) : t.parent ≠ some newId := by
  unfold load at hload
  simp only at hload
  split at hload
  · cases hload
  · rw [← Except.ok.inj hload]
    cases htuple : s.getTuple checkpointId with
    | none => exact hne
    | some tuple =>
      intro he
      obtain ⟨id, entry, hentry, rfl⟩ := getTuple_entry htuple
      have hkeyed : (s.tuple id entry).checkpoint.id = id := hs.keyed id entry hentry
      simp only [Option.map_some, Option.some_or, hkeyed] at he
      rw [Option.some.inj he, hu.storage] at hentry
      cases hentry

theorem entry_of_save (s : InMemorySaver Ver) (source : String) (step : Int)
    {post : List (SaverCall Ver)} (hpost : RowsAt (some newId) post)
    (t : UpdateTarget Channel Ver) :
    ∃ entry, (s.execAll (t.save newId source step :: post)).storage.get? newId = some entry ∧
      entry.checkpoint.id = newId := by
  have hcalled := execAll_save newId s source step [] post t
  rw [List.nil_append] at hcalled
  rw [hcalled]
  exact called_entry s [] t.parent (createCheckpoint t.checkpoint (some t.channels) newId none none
    ∅) _ _ hpost

theorem entry_of_update
    (hmade : Made g inputKeys nextNull next newId update t t' calls) :
    ∃ entry, (s.execAll calls).storage.get? newId = some entry ∧ entry.checkpoint.id = newId := by
  cases update with
  | clear =>
    have hclear : t.clear g nextNull next newId = .ok calls := hmade
    rw [clear] at hclear
    cases hsaved : t.saved with
    | none =>
      rw [hsaved] at hclear
      rw [← Except.ok.inj hclear]
      exact entry_of_save s _ _ (rowsAt_nil _) t
    | some saved =>
      rw [hsaved] at hclear
      obtain ⟨nulled, -, hclear⟩ := ok_of_bind hclear
      obtain ⟨applied, -, hclear⟩ := ok_of_bind hclear
      rw [← Except.ok.inj hclear]
      exact entry_of_save s _ _ (rowsAt_nil _) applied
  | input values =>
    have hinput : t.asInput g inputKeys next newId values = .ok calls := hmade
    rw [asInput] at hinput
    split at hinput
    · cases hinput
    · obtain ⟨applied, -, hinput⟩ := ok_of_bind hinput
      rw [← Except.ok.inj hinput]
      refine entry_of_save s _ _ ?_ applied
      intro call hcall
      rw [List.mem_singleton.mp hcall]
      exact ⟨_, _, _, _, rfl, rfl⟩
  | copy =>
    have hcopy : t.copy newId = .ok calls := hmade
    rw [copy] at hcopy
    split at hcopy
    · cases hcopy
    · rw [← Except.ok.inj hcopy]
      exact ⟨_, Dict.get?_set_self _ _ _, rfl⟩
  | nodes updates =>
    obtain ⟨-, hcalls⟩ := hmade
    obtain ⟨checkpoint, metadata, hput, rfl, -⟩ := saveNodes_put nextNull newId
      (getUpdatedChannelsFromTasks (updates.map runTask)) t'
    have hlast : s.execAll calls = ((s.execAll (t.filedBefore g (.nodes updates))).put t'.parent
        checkpoint metadata
        (getNewChannelVersions t'.previousVersions checkpoint.channelVersions)) := by
      rw [hcalls, hput, InMemorySaver.execAll, List.foldl_append]
      rfl
    rw [hlast]
    exact ⟨_, Dict.get?_set_self _ _ _, rfl⟩

-- Every delta channel of a call's result can be read back if and only if its rows recover it.
theorem visible_iff_recovers (hg : g.DeltaReady) (hs : s.Threaded) (hu : s.Unused newId)
    (hne : checkpointId ≠ some newId) (hn : StrictlyIncreasing next)
    (hnull : StrictlyIncreasing nextNull) (hf : Fresh s next) (hfnull : Fresh s nextNull)
    (hload : load g freshId checkpointId s = .ok t)
    (hcall : updateState g inputKeys nextNull next freshId newId checkpointId update s =
      (calls, none)) :
    ∃ t', t.computed g inputKeys nextNull next update = .ok t' ∧
      (Visible g (s.execAll calls) newId t'.channels ↔
        ∀ k d c, g.specs.get? k = some (.deltaChannel d) →
          t.channels.get? k = some (.deltaChannel c) → t.Recovers g inputKeys update s k c) := by
  obtain ⟨t', hcomputed, hcalls⟩ := computed_of_update hload hcall
  obtain ⟨entry, hentry, hid⟩ := entry_of_update (s := s) hcalls
  have hparent := parent_ne hs hu hne hload
  have hafter {k : String} {c : DeltaChannel} (hc : t.channels.get? k = some (.deltaChannel c)) :=
    (computed_outcome hn hnull hf hfnull hcomputed hc).channel
  have hshows {k : String} {d c : DeltaChannel} (hspec : g.specs.get? k = some (.deltaChannel d))
      (hc : t.channels.get? k = some (.deltaChannel c)) (horigin : Origin s t d k c) :
      (s.execAll calls).Shows d k newId (c.updated (t.batches g inputKeys update k)) ↔
        t.Recovers g inputKeys update s k c := by
    have hb := hg.batching k d hspec
    have hk := hg.names k d hspec
    cases update with
    | clear => exact shows_of_clear hs hu hparent hb hc horigin hn hnull hf hfnull hcalls hcomputed
    | input values =>
      exact shows_of_asInput hs hu hparent hb hk hc horigin hn hf hcalls hcomputed
    | copy => exact shows_of_copy hs hu hb horigin hcalls
    | nodes updates =>
      obtain ⟨happly, hcalls⟩ := hcalls
      rw [hcalls]
      exact shows_of_nodes hs hu hparent hb hk hc horigin hn hnull hf hfnull happly
  refine ⟨t', hcomputed, ?_⟩
  rw [visible_iff_shows hentry hid (fun k d hspec => by
    obtain ⟨c, hc, -⟩ := load_origin hs hload hspec
    exact ⟨_, hafter hc⟩)]
  constructor
  · intro hall k d c hspec hc
    obtain ⟨c', hc', horigin⟩ := load_origin hs hload hspec
    obtain rfl : c = c' := Channel.deltaChannel.inj (Option.some.inj (hc.symm.trans hc'))
    exact (hshows hspec hc horigin).mp (hall k d _ hspec (hafter hc))
  · intro hall k d c' hspec hc'
    obtain ⟨c, hc, horigin⟩ := load_origin hs hload hspec
    obtain rfl := Channel.deltaChannel.inj (Option.some.inj (hc'.symm.trans (hafter hc)))
    exact (hshows hspec hc horigin).mpr (hall k d c hspec hc)

end UpdateTarget

def appendReducer : Value → List Value → Except UpdateError Value
  | .list xs, vs => .ok (.list (xs ++ vs))
  | v, _ => .ok v

def messages : DeltaChannel := ⟨appendReducer, .list [], 1000, by decide, none⟩

theorem messages_batching : messages.Batching := by
  intro s xs ys _ _
  cases s with
  | list l => exact congrArg (fun l => Except.ok (Value.list l)) (List.append_assoc l xs ys).symm
  | _ => rfl

def messagesGraph : Graph Channel :=
  Graph.ofSpecs (Dict.ofList [("messages", .deltaChannel messages)])

theorem messages_of_delta {k : String} {d : DeltaChannel}
    (h : messagesGraph.specs.get? k = some (.deltaChannel d)) : k = "messages" ∧ d = messages := by
  have hmem : (k, Channel.deltaChannel d) ∈ [("messages", Channel.deltaChannel messages)] :=
    Dict.mem_items_ofList (Dict.get?_eq_some.mp h)
  have heq := List.mem_singleton.mp hmem
  exact ⟨congrArg Prod.fst heq, Channel.deltaChannel.inj (congrArg Prod.snd heq)⟩

theorem messagesGraph_ready : messagesGraph.DeltaReady where
  names k d h := by
    rw [(messages_of_delta h).1]
    decide
  batching k d h := by
    rw [(messages_of_delta h).2]
    exact messages_batching

theorem InMemorySaver.empty_threaded : (empty : InMemorySaver Nat).Threaded where
  keyed id entry h := by cases h
  ends cursor := by
    cases cursor with
    | none => exact ⟨[], rfl⟩
    | some id => exact ⟨[], rfl⟩

theorem InMemorySaver.empty_unused (id : String) : (empty : InMemorySaver Nat).Unused id where
  storage := rfl
  rows := rfl
  parent id entry h := by cases h

theorem empty_fresh : UpdateTarget.Fresh (InMemorySaver.empty : InMemorySaver Nat) successor := by
  intro k v h
  cases h

def InMemorySaver.readValue (g : Graph Channel) (id k : String) (s : InMemorySaver Nat) :
    Option Value := do
  let tuple ← s.getTuple (some id)
  let channels ← (channelsFromCheckpoint g.specs (some s) tuple.checkpoint).toOption
  let channel ← channels.get? k
  channel.get

theorem Visible.value {g : Graph Channel} {s : InMemorySaver Nat} {newId k : String}
    {channels : Dict String Channel} {d : DeltaChannel} (h : Visible g s newId channels)
    (hspec : g.specs.get? k = some (.deltaChannel d)) :
    s.readValue g newId k = (channels.get? k).bind Channel.get := by
  obtain ⟨⟨tuple, read, hget, hread, hsame⟩, -⟩ := h
  rw [InMemorySaver.readValue, hget, ← hsame k d hspec]
  simp only [Option.bind_eq_bind, Option.bind_some, hread, Except.toOption]

namespace UpdateTarget

def sevenNode : StateUpdate := .nodes [⟨"writer", [("messages", .int 7)], none⟩]

-- As a node of a new thread the update is stored as a snapshot.
theorem node_update_visible :
    ∃ t calls t', load messagesGraph "0" none InMemorySaver.empty = .ok t ∧
      updateState messagesGraph (.single "messages") successor successor "0" "1" none sevenNode
        InMemorySaver.empty = (calls, none) ∧
      t.computed messagesGraph (.single "messages") successor successor sevenNode = .ok t' ∧
      Visible messagesGraph (InMemorySaver.empty.execAll calls) "1" t'.channels := by
  obtain ⟨t', hcomputed, hiff⟩ := visible_iff_recovers messagesGraph_ready
    InMemorySaver.empty_threaded (InMemorySaver.empty_unused "1") (by decide)
    strictlyIncreasing_successor strictlyIncreasing_successor empty_fresh empty_fresh
    (show load messagesGraph "0" none InMemorySaver.empty = .ok _ from rfl)
    (show updateState messagesGraph (.single "messages") successor successor "0" "1" none
      sevenNode InMemorySaver.empty = (_, none) from rfl)
  refine ⟨_, _, t', rfl, rfl, hcomputed, hiff.mpr (fun k d c hspec hc => ?_)⟩
  obtain ⟨rfl, rfl⟩ := messages_of_delta hspec
  exact ⟨Or.inl ⟨by decide +kernel, Or.inl (by decide +kernel)⟩, rfl⟩

theorem input_update_not_visible :
    ¬ ∀ (g : Graph Channel) (inputKeys : InputKeys) (nextNull next : GetNextVersion Nat)
        (freshId newId : String) (checkpointId : Option String) (update : StateUpdate)
        (s : InMemorySaver Nat) (t t' : UpdateTarget Channel Nat) (calls : List (SaverCall Nat)),
        g.DeltaReady → s.Threaded → s.Unused newId → checkpointId ≠ some newId →
          StrictlyIncreasing next → StrictlyIncreasing nextNull → Fresh s next →
          Fresh s nextNull → load g freshId checkpointId s = .ok t →
          updateState g inputKeys nextNull next freshId newId checkpointId update s =
            (calls, none) →
          t.computed g inputKeys nextNull next update = .ok t' →
            Visible g (s.execAll calls) newId t'.channels := by
  intro h
  have hvisible := h messagesGraph (.single "messages") successor successor "0" "1" none
    (.input (.int 7)) InMemorySaver.empty _ _ _ messagesGraph_ready InMemorySaver.empty_threaded
    (InMemorySaver.empty_unused "1") (by decide) strictlyIncreasing_successor
    strictlyIncreasing_successor empty_fresh empty_fresh rfl rfl rfl
  have hvalue := hvisible.value (k := "messages") (d := messages) rfl
  exact absurd hvalue (by decide +kernel)

end UpdateTarget

end LangGraph
