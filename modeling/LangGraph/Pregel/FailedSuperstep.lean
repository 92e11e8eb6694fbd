import LangGraph.Pregel.CoreRun
import LangGraph.Pregel.FailedApply
import LangGraph.Pregel.Untracked

namespace LangGraph

open Collections Transition

variable {Ver : Type}

section Seen

theorem get?_seeVersions (versions : ChannelVersions Ver)
    (versionsSeen : Dict String (ChannelVersions Ver)) (t : PregelTaskWrites)
    (name chan : String) :
    ((seeVersions versions versionsSeen t).getD name ∅).get? chan =
      if t.name = name ∧ chan ∈ t.triggers then
        (versions.get? chan).or ((versionsSeen.getD name ∅).get? chan)
      else (versionsSeen.getD name ∅).get? chan := by
  unfold seeVersions
  by_cases hname : t.name = name
  · subst hname
    rw [Dict.getD, Dict.get?_set_self, Option.getD_some, Dict.get?_update_filterMap]
    simp
  · have hother : name ≠ t.name := fun heq => hname heq.symm
    rw [Dict.getD, Dict.get?_set_ne _ hother, ← Dict.getD, if_neg (fun h => hname h.1)]

theorem get?_foldl_seeVersions (versions : ChannelVersions Ver) (tasks : List PregelTaskWrites)
    (versionsSeen : Dict String (ChannelVersions Ver)) (name chan : String) :
    ((tasks.foldl (seeVersions versions) versionsSeen).getD name ∅).get? chan =
      if ∃ t ∈ tasks, t.name = name ∧ chan ∈ t.triggers then
        (versions.get? chan).or ((versionsSeen.getD name ∅).get? chan)
      else (versionsSeen.getD name ∅).get? chan := by
  induction tasks generalizing versionsSeen with
  | nil => simp
  | cons t tasks ih =>
    rw [List.foldl_cons, ih, get?_seeVersions]
    by_cases hthis : t.name = name ∧ chan ∈ t.triggers
    · cases hv : versions.get? chan with
      | none => simp
      | some v => simp [hthis]
    · simp [hthis]

end Seen

section Snapshot

variable {C : Type} [BaseChannel C]

omit [BaseChannel C] in
theorem get?_snapshotVersions (channels : Dict String C) (updated : Option (Finset String))
    (next : GetNextVersion Ver) (snapshot : Finset String) (versions : ChannelVersions Ver)
    (k : String) :
    (snapshotVersions channels updated (some next) snapshot versions).get? k =
      (versions.get? k).map (fun v =>
        if k ∈ channels.keys ∧ k ∈ snapshot ∧ k ∉ updated.getD ∅ then next (some v) else v) := by
  have aux {step : ChannelVersions Ver → String → ChannelVersions Ver}
      (hnone : ∀ vs k, vs.get? k = none → step vs k = vs)
      (hsome : ∀ vs k v, vs.get? k = some v → step vs k =
        if k ∈ snapshot ∧ k ∉ updated.getD ∅ then vs.set k (next (some v)) else vs)
      (ks : List String) (hn : ks.Nodup) (vs : ChannelVersions Ver) :
      (ks.foldl step vs).get? k = (vs.get? k).map (fun v =>
        if k ∈ ks ∧ k ∈ snapshot ∧ k ∉ updated.getD ∅ then next (some v) else v) := by
    induction ks generalizing vs with
    | nil => simp
    | cons k' ks ih =>
      obtain ⟨hfresh, hrest⟩ := List.nodup_cons.mp hn
      rw [List.foldl_cons, ih hrest]
      cases hv : vs.get? k' with
      | none =>
        rw [hnone vs k' hv]
        by_cases hk : k = k'
        · simp [hk, hv]
        · simp [hk]
      | some v =>
        rw [hsome vs k' v hv]
        by_cases hbump : k' ∈ snapshot ∧ k' ∉ updated.getD ∅
        · simp only [if_pos hbump, Dict.get?_set]
          by_cases hk : k = k'
          · simp [hk, hv, hfresh, hbump]
          · simp [hk]
        · simp only [if_neg hbump]
          by_cases hk : k = k'
          · simp [hk, hv, hfresh, hbump]
          · simp [hk]
  refine aux (fun vs k hv => ?_) (fun vs k v hv => ?_) channels.keys channels.nodup versions
  · simp only [hv]
  · simp only [hv]

end Snapshot

theorem anyUntracked_iff {channels : Dict String Channel} :
    anyUntracked channels = true ↔ ∃ k, untrackedKey channels k = true := by
  constructor
  · intro h
    obtain ⟨c, hc, hu⟩ := List.any_eq_true.mp h
    obtain ⟨k, hk⟩ := Dict.mem_values.mp hc
    refine ⟨k, ?_⟩
    rw [untrackedKey, hk]
    exact hu
  · rintro ⟨k, hk⟩
    by_contra hno
    rw [untrackedKey_of_any (Bool.eq_false_iff.mpr hno) k] at hk
    cases hk

theorem sanitizeTasks_congr {channels channels' : Dict String Channel}
    (h : Declared channels channels') (values : Dict String Blob) :
    sanitizeTasks channels' values = sanitizeTasks channels values := by
  have hkeys : untrackedKey channels' = untrackedKey channels := funext (untrackedKey_eq h.agree)
  have hany : anyUntracked channels' = anyUntracked channels := by
    rw [Bool.eq_iff_iff, anyUntracked_iff, anyUntracked_iff, hkeys]
  have hsend : sanitizeUntrackedValuesInSend channels' = sanitizeUntrackedValuesInSend channels := by
    funext v
    unfold sanitizeUntrackedValuesInSend
    rw [hkeys]
  unfold sanitizeTasks
  rw [hany, hsend]

theorem get?_sanitizeTasks_ne (channels : Dict String Channel) (values : Dict String Blob)
    {k : String} (hk : k ≠ Key.tasks) :
    (sanitizeTasks channels values).get? k = values.get? k := by
  unfold sanitizeTasks
  split
  · split
    · exact Dict.get?_set_ne _ hk _
    · rfl
  · rfl

theorem get?_sanitizeTasks_congr (channels : Dict String Channel) {values values' : Dict String Blob}
    (h : ∀ k, values'.get? k = values.get? k) (k : String) :
    (sanitizeTasks channels values').get? k = (sanitizeTasks channels values).get? k := by
  unfold sanitizeTasks
  rw [h Key.tasks]
  split
  · split
    · rw [Dict.get?_set, Dict.get?_set, h]
    · exact h k
  · exact h k

section Raising

theorem DeltaChannel.update_error {c : DeltaChannel} {vs : List Value} {e : UpdateError}
    (h : (c.update vs).2 = .error e) : (c.update vs).1 = c := by
  unfold update at h ⊢
  split
  · rfl
  · simp only at h ⊢
    split
    · rfl
    · rename_i heq
      simp [heq] at h
    · split
      · rename_i hnil _ _ hok
        simp [hnil, hok] at h
      · rfl

theorem Channel.update_error_delta {c : Channel} {vs : List Value} {e : UpdateError}
    (hk : c.kind = .deltaChannel) (h : (c.update vs).2 = .error e) : (c.update vs).1 = c := by
  cases c with
  | deltaChannel c =>
    have herror : (c.update vs).2 = .error e := h
    exact congrArg Channel.deltaChannel (DeltaChannel.update_error herror)
  | _ => cases hk

theorem Channel.topic_never_raises {c : Channel} {vs : List Value} {e : UpdateError}
    (hk : c.kind = .topic) : (c.update vs).2 ≠ .error e := by
  obtain ⟨t, rfl⟩ := Channel.topic_of_kind hk
  rw [show ((Channel.topic t).update vs).2 = (t.update vs).2 from rfl, Topic.update_snd]
  exact fun h => by cases h

end Raising

namespace PregelLoop

def exitSnapshot (l : PregelLoop Channel Ver) : Finset String :=
  l.channelsToSnapshot l.channels l.checkpointMetadata.countersSinceDeltaSnapshot

def exitRows (l : PregelLoop Channel Ver) : List ExitDeltaWrite :=
  (l.exitDeltaWrites.getD []).filter (fun w => w.channel ∉ l.exitSnapshot)

def superstepTasks (l : PregelLoop Channel Ver) : List PregelTaskWrites :=
  sortTasks (l.liveTasks.map PregelTask.taskWrites)

def superstepOverwrites (g : Graph Channel) (l : PregelLoop Channel Ver) : Finset String :=
  overwritten g.specs (l.liveTasks.flatMap PregelTask.writes)

def raisingChannel (l : PregelLoop Channel Ver) : Option String :=
  (pendingWritesByChannel l.channels l.superstepTasks).keys.find?
    (raises l.channels l.superstepTasks)

def raisingValues (l : PregelLoop Channel Ver) (chan : String) : List Value :=
  (pendingWritesByChannel l.channels l.superstepTasks).getD chan []

variable [LinearOrder Ver] [OrderBot Ver]

-- The state that a loop stores when it is left, as far as a later run can see it.
structure SameState (a b : Checkpoint Ver) : Prop where
  id : a.id = b.id
  values : ∀ chan, a.channelValues.get? chan = b.channelValues.get? chan
  versions : ∀ chan, a.channelVersions.get? chan = b.channelVersions.get? chan
  seen : ∀ name chan, (a.versionsSeen.getD name ∅).get? chan =
    (b.versionsSeen.getD name ∅).get? chan
  updated : a.updatedChannels = b.updatedChannels

-- An exit stores a checkpoint only if the loop's one is not the stored one.
def Restored (g : Graph Channel) (next : GetNextVersion Ver) (newId : String)
    (l : PregelLoop Channel Ver) : Prop :=
  l.checkpoint.id ≠ l.checkpointIdSaved →
    (l.afterTick g next newId).1.exitRows = l.exitRows ∧
      ∀ exitNext, StrictlyIncreasing exitNext →
        SameState ((l.afterTick g next newId).1.suppressInterrupt exitNext).checkpoint
          (l.suppressInterrupt exitNext).checkpoint

structure Untouched (g : Graph Channel) (l : PregelLoop Channel Ver) : Prop where
  seen : ∀ t ∈ l.liveTasks, ∀ chan ∈ t.triggers, ∀ v,
    l.checkpoint.channelVersions.get? chan = some v →
    (l.checkpoint.versionsSeen.getD t.name ∅).get? chan = some v
  quiet : Quiet l.channels l.superstepTasks
  raising : ∀ chan c, l.raisingChannel = some chan → l.channels.get? chan = some c →
    chan ∈ l.checkpoint.channelVersions.keys →
    checkpointValue l.exitSnapshot chan (c.update (l.raisingValues chan)).1 =
      checkpointValue l.exitSnapshot chan c
  rows : ∀ chan ∈ l.superstepOverwrites g, chan ∉ l.exitSnapshot →
    ∀ row ∈ l.exitDeltaWrites.getD [], row.channel ≠ chan
  overwrites : ∀ chan ∈ l.superstepOverwrites g, chan ∉ l.exitSnapshot →
    ∀ c, l.channels.get? chan = some c → chan ∈ l.checkpoint.channelVersions.keys →
      chan ∈ l.updatedChannels.getD ∅ ∧ c.get = none

def superstepApply (g : Graph Channel) (next : GetNextVersion Ver) (l : PregelLoop Channel Ver) :
    ApplyState Channel Ver × Option UpdateError :=
  applyChannels l.channels l.checkpoint.channelVersions
    (some (next (maxVersion l.checkpoint.channelVersions))) l.superstepTasks g.triggerToNodes

def halfApplied (g : Graph Channel) (next : GetNextVersion Ver) (l : PregelLoop Channel Ver) :
    PregelLoop Channel Ver :=
  { l with
    deltaChannelsWithOverwrite := l.deltaChannelsWithOverwrite ∪ l.superstepOverwrites g
    checkpoint := { l.checkpoint with
      channelVersions := (l.superstepApply g next).1.versions
      versionsSeen := l.superstepTasks.foldl (seeVersions l.checkpoint.channelVersions)
        l.checkpoint.versionsSeen }
    channels := (l.superstepApply g next).1.channels }

variable {g : Graph Channel} {next exitNext : GetNextVersion Ver} {newId : String}
  {l : PregelLoop Channel Ver}

theorem afterTick_raises (h : (l.afterTick g next newId).2 ≠ none) :
    (∃ e, (l.superstepApply g next).2 = some e) ∧
      (l.afterTick g next newId).1 = l.halfApplied g next := by
  cases hr : l.superstepApply g next with
  | mk s failed =>
    have hchannels : applyChannels l.channels l.checkpoint.channelVersions
        (some (next (maxVersion l.checkpoint.channelVersions)))
        (sortTasks (l.liveTasks.map PregelTask.taskWrites)) g.triggerToNodes = (s, failed) := hr
    unfold afterTick applyWrites at h
    unfold afterTick applyWrites halfApplied
    simp only [Option.map_some, hchannels, hr] at h ⊢
    cases failed with
    | none => exact absurd rfl h
    | some e => exact ⟨⟨e, rfl⟩, rfl⟩

theorem checkpoint_suppressInterrupt (hd : l.config.durability = .exit)
    (hid : l.checkpoint.id ≠ l.checkpointIdSaved) :
    (l.suppressInterrupt exitNext).checkpoint =
      { l.checkpoint with
        channelValues := sanitizeTasks l.channels
          (checkpointValues l.channels l.checkpoint.channelVersions l.exitSnapshot)
        channelVersions := snapshotVersions l.channels l.updatedChannels (some exitNext)
          l.exitSnapshot l.checkpoint.channelVersions
        updatedChannels := l.updatedChannels } := by
  obtain ⟨calls, configId, hdelta, -⟩ := putExitDeltaWrites_spec l
  rw [suppressInterrupt, if_pos hd, hdelta, putExitCheckpoint, if_neg hid]
  rfl

-- What a quiet failure leaves behind: the channel that raised, updated in part.
structure Failed (l : PregelLoop Channel Ver) (l' : PregelLoop Channel Ver) (k : String)
    (c : Channel) : Prop where
  first : l.raisingChannel = some k
  channel : l.channels.get? k = some c
  raises : ∃ e, (c.update (l.raisingValues k)).2 = .error e
  channels : ∀ chan, l'.channels.get? chan =
    if chan = k then some (c.update (l.raisingValues k)).1 else l.channels.get? chan
  versions : ∀ chan, l'.checkpoint.channelVersions.get? chan =
    l.checkpoint.channelVersions.get? chan

omit [OrderBot Ver] in
theorem failed_of_quiet (hq : Quiet l.channels l.superstepTasks) {e : UpdateError}
    (h : (l.superstepApply g next).2 = some e) :
    ∃ k c, l.Failed (l.halfApplied g next) k c := by
  obtain ⟨k, c, hfirst, hc, hcell⟩ := state_of_quiet hq h
  refine ⟨k, c, hfirst, hc, ?_, fun chan => ?_, fun chan => ?_⟩
  · have hraise := List.find?_some hfirst
    have hupdate : updateOf l.channels l.superstepTasks k =
        some (c.update (l.raisingValues k)) := by
      rw [updateOf, hc]
      rfl
    rw [LangGraph.raises, hupdate] at hraise
    rcases hr : c.update (l.raisingValues k) with ⟨c', e' | b⟩
    · exact ⟨e', rfl⟩
    · rw [hr] at hraise
      cases hraise
  · have hchannel := congrArg Cell.channel (hcell chan)
    split
    · rename_i hk
      rw [if_pos hk] at hchannel
      exact hchannel
    · rename_i hk
      rw [if_neg hk] at hchannel
      exact hchannel
  · have hversion := congrArg Cell.version (hcell chan)
    by_cases hk : chan = k
    · rw [if_pos hk] at hversion
      rw [hk] at hversion ⊢
      exact hversion
    · rw [if_neg hk] at hversion
      exact hversion

omit [LinearOrder Ver] [OrderBot Ver] in
theorem deltaChannelsToSnapshot_congr {channels channels' : Dict String Channel} {k : String}
    {c c' : Channel} (counters : Counters) (hc : channels.get? k = some c)
    (hc' : ∀ chan, channels'.get? chan = if chan = k then some c' else channels.get? chan)
    (hkind : c'.kind = c.kind) (hdelta : c.kind = .deltaChannel → c' = c) :
    deltaChannelsToSnapshot channels' counters = deltaChannelsToSnapshot channels counters := by
  ext chan
  simp only [deltaChannelsToSnapshot, List.mem_toFinset, Dict.mem_keys_filter]
  rw [hc' chan]
  by_cases hk : chan = k
  · subst hk
    rw [if_pos rfl, hc]
    by_cases hd : c.kind = .deltaChannel
    · rw [hdelta hd]
    · have hplain : ¬ isDelta c := hd
      have hplain' : ¬ isDelta c' := fun h => hd (hkind.symm.trans h)
      simp [hplain, hplain']
  · rw [if_neg hk]

omit [OrderBot Ver] in
theorem Failed.exitSnapshot {k : String} {c : Channel} (h : l.Failed (l.halfApplied g next) k c) :
    (l.halfApplied g next).exitSnapshot = l.exitSnapshot ∪ l.superstepOverwrites g := by
  obtain ⟨e, he⟩ := h.raises
  have hsame := deltaChannelsToSnapshot_congr l.checkpointMetadata.countersSinceDeltaSnapshot
    h.channel h.channels (Channel.kind_update c _)
    (fun hd => Channel.update_error_delta hd he)
  have hleft : (l.halfApplied g next).exitSnapshot =
      deltaChannelsToSnapshot (l.halfApplied g next).channels
        l.checkpointMetadata.countersSinceDeltaSnapshot ∪
        (l.deltaChannelsWithOverwrite ∪ l.superstepOverwrites g) := rfl
  rw [hleft, hsame, ← Finset.union_assoc]
  rfl

omit [OrderBot Ver] in
theorem declared_halfApplied (l : PregelLoop Channel Ver) :
    Declared l.channels (l.halfApplied g next).channels :=
  Declared.applyWrites ⟨rfl, fun _ c hc => ⟨c, hc, rfl⟩⟩ l.checkpoint
    (l.liveTasks.map PregelTask.taskWrites) (some next) g.triggerToNodes

omit [OrderBot Ver] in
theorem seen_halfApplied (l : PregelLoop Channel Ver) (name chan : String) :
    ((l.halfApplied g next).checkpoint.versionsSeen.getD name ∅).get? chan =
      if ∃ t ∈ l.liveTasks, t.name = name ∧ chan ∈ t.triggers then
        (l.checkpoint.channelVersions.get? chan).or
          ((l.checkpoint.versionsSeen.getD name ∅).get? chan)
      else (l.checkpoint.versionsSeen.getD name ∅).get? chan := by
  have htasks : (∃ t ∈ l.superstepTasks, t.name = name ∧ chan ∈ t.triggers) ↔
      ∃ t ∈ l.liveTasks, t.name = name ∧ chan ∈ t.triggers := by
    simp only [superstepTasks, sortTasks, List.mem_insertionSort, List.mem_map]
    constructor
    · rintro ⟨-, ⟨t, ht, rfl⟩, hname, hchan⟩
      exact ⟨t, ht, hname, hchan⟩
    · rintro ⟨t, ht, hname, hchan⟩
      exact ⟨t.taskWrites, ⟨t, ht, rfl⟩, hname, hchan⟩
  have hfold := get?_foldl_seeVersions l.checkpoint.channelVersions l.superstepTasks
    l.checkpoint.versionsSeen name chan
  rw [if_congr htasks rfl rfl] at hfold
  exact hfold

omit [OrderBot Ver] in
theorem seen_iff (l : PregelLoop Channel Ver) :
    (∀ name chan, ((l.halfApplied g next).checkpoint.versionsSeen.getD name ∅).get? chan =
      (l.checkpoint.versionsSeen.getD name ∅).get? chan) ↔
    ∀ t ∈ l.liveTasks, ∀ chan ∈ t.triggers, ∀ v,
      l.checkpoint.channelVersions.get? chan = some v →
      (l.checkpoint.versionsSeen.getD t.name ∅).get? chan = some v := by
  constructor
  · intro h t ht chan hchan v hv
    have hseen := h t.name chan
    rw [seen_halfApplied, if_pos ⟨t, ht, rfl, hchan⟩, hv] at hseen
    exact hseen.symm
  · intro h name chan
    rw [seen_halfApplied]
    split
    · rename_i hex
      obtain ⟨t, ht, rfl, hchan⟩ := hex
      cases hv : l.checkpoint.channelVersions.get? chan with
      | none => rfl
      | some v => exact (h t ht chan hchan v hv).symm
    · rfl

omit [LinearOrder Ver] [OrderBot Ver] in
theorem get?_exitValues (l : PregelLoop Channel Ver) (chan : String) :
    (checkpointValues l.channels l.checkpoint.channelVersions l.exitSnapshot).get? chan =
      (l.channels.get? chan).bind (fun c =>
        if chan ∈ l.checkpoint.channelVersions.keys then checkpointValue l.exitSnapshot chan c
        else none) := by
  rw [checkpointValues, Dict.get?_filterMap]

theorem checkpointValue_union {snapshot overwrites : Finset String} {chan : String} {c : Channel}
    (h : chan ∈ overwrites → chan ∉ snapshot → c.kind = .deltaChannel ∧ c.get = none) :
    checkpointValue (snapshot ∪ overwrites) chan c = checkpointValue snapshot chan c := by
  by_cases hs : chan ∈ snapshot
  · rw [checkpointValue, checkpointValue, if_pos hs, if_pos (Finset.mem_union_left _ hs)]
  · by_cases ho : chan ∈ overwrites
    · obtain ⟨hkind, hget⟩ := h ho hs
      have hplain : c.checkpoint = none := by
        cases c with
        | deltaChannel c => rfl
        | _ => cases hkind
      rw [checkpointValue, checkpointValue, if_pos (Finset.mem_union_right _ ho), if_neg hs]
      rw [show BaseChannel.get c = none from hget]
      exact hplain.symm
    · have hu : chan ∉ snapshot ∪ overwrites := fun hm =>
        (Finset.mem_union.mp hm).elim hs ho
      rw [checkpointValue, checkpointValue, if_neg hu, if_neg hs]

omit [LinearOrder Ver] [OrderBot Ver] in
theorem kind_of_overwrite (hdecl : Declared g.specs l.channels) {chan : String} {c : Channel}
    (hc : l.channels.get? chan = some c) (ho : chan ∈ l.superstepOverwrites g) :
    c.kind = .deltaChannel :=
  (deltaKey_of_kind (hdecl.kinds chan c hc)).mp (deltaOnly_overwritten g.specs _ chan ho)

omit [OrderBot Ver] in
theorem Failed.keys_versions {k : String} {c : Channel} (h : l.Failed (l.halfApplied g next) k c)
    (chan : String) : chan ∈ (l.halfApplied g next).checkpoint.channelVersions.keys ↔
      chan ∈ l.checkpoint.channelVersions.keys := by
  rw [Dict.mem_keys, Dict.mem_keys, h.versions chan]

omit [OrderBot Ver] in
theorem Failed.values {k : String} {c : Channel} (h : l.Failed (l.halfApplied g next) k c)
    (hdecl : Declared g.specs l.channels) (hu : l.Untouched g) (chan : String) :
    (checkpointValues (l.halfApplied g next).channels
      (l.halfApplied g next).checkpoint.channelVersions (l.halfApplied g next).exitSnapshot).get?
        chan =
      (checkpointValues l.channels l.checkpoint.channelVersions l.exitSnapshot).get? chan := by
  rw [get?_exitValues, get?_exitValues, h.channels chan, h.exitSnapshot]
  have hkeys := h.keys_versions chan
  by_cases hv : chan ∈ l.checkpoint.channelVersions.keys
  · have hunion {d : Channel} (hd : l.channels.get? chan = some d) :
        checkpointValue (l.exitSnapshot ∪ l.superstepOverwrites g) chan d =
          checkpointValue l.exitSnapshot chan d :=
      checkpointValue_union (fun ho hs =>
        ⟨kind_of_overwrite hdecl hd ho, (hu.overwrites chan ho hs d hd hv).2⟩)
    simp only [if_pos (hkeys.mpr hv), if_pos hv]
    by_cases hk : chan = k
    · subst hk
      rw [if_pos rfl, h.channel, Option.bind_some, Option.bind_some]
      obtain ⟨e, he⟩ := h.raises
      rw [← hu.raising chan c h.first h.channel hv]
      refine checkpointValue_union (fun ho hs => ?_)
      have hkind := kind_of_overwrite hdecl h.channel ho
      rw [Channel.update_error_delta hkind he]
      exact ⟨hkind, (hu.overwrites chan ho hs c h.channel hv).2⟩
    · rw [if_neg hk]
      cases hc : l.channels.get? chan with
      | none => rfl
      | some d => exact hunion hc
  · have hv' : chan ∉ (l.halfApplied g next).checkpoint.channelVersions.keys :=
      fun hm => hv (hkeys.mp hm)
    simp [hv, hv']

theorem restored_of_untouched (hd : l.config.durability = .exit)
    (hdecl : Declared g.specs l.channels) (hraise : (l.afterTick g next newId).2 ≠ none)
    (hu : l.Untouched g) : l.Restored g next newId := by
  intro hid
  obtain ⟨⟨e, he⟩, hloop⟩ := afterTick_raises hraise
  obtain ⟨k, c, hf⟩ := failed_of_quiet hu.quiet he
  have hsnapshot := hf.exitSnapshot
  have hdeclared := @declared_halfApplied _ _ g next l
  rw [hloop]
  refine ⟨?_, fun exitNext _ => ?_⟩
  · refine List.filter_congr (fun row hrow => ?_)
    rw [hsnapshot]
    by_cases hs : row.channel ∈ l.exitSnapshot
    · simp [hs]
    · have ho : row.channel ∉ l.superstepOverwrites g :=
        fun ho => hu.rows _ ho hs row hrow rfl
      simp [hs, ho]
  · have hcheckpoint := @checkpoint_suppressInterrupt _ _ _ exitNext _ hd hid
    have hcheckpoint' := @checkpoint_suppressInterrupt _ _ _ exitNext
      (l.halfApplied g next) hd hid
    rw [hcheckpoint, hcheckpoint']
    refine ⟨rfl, fun chan => ?_, fun chan => ?_, fun name chan => ?_, rfl⟩
    · simp only
      rw [sanitizeTasks_congr hdeclared]
      exact get?_sanitizeTasks_congr l.channels (hf.values hdecl hu) chan
    · simp only
      rw [get?_snapshotVersions, get?_snapshotVersions, hf.versions, hsnapshot, hdeclared.keys]
      cases hv : l.checkpoint.channelVersions.get? chan with
      | none => rfl
      | some v =>
        have hkey : chan ∈ l.checkpoint.channelVersions.keys := Dict.mem_keys.mpr ⟨v, hv⟩
        have hmem : (chan ∈ l.channels.keys ∧ chan ∈ l.exitSnapshot ∪ l.superstepOverwrites g ∧
              chan ∉ l.updatedChannels.getD ∅) ↔
            (chan ∈ l.channels.keys ∧ chan ∈ l.exitSnapshot ∧
              chan ∉ l.updatedChannels.getD ∅) := by
          constructor
          · rintro ⟨hchan, hs, hupdated⟩
            refine ⟨hchan, ?_, hupdated⟩
            by_contra hno
            have ho := (Finset.mem_union.mp hs).resolve_left hno
            obtain ⟨d, hd⟩ := Dict.mem_keys.mp hchan
            exact hupdated (hu.overwrites chan ho hno d hd hkey).1
          · rintro ⟨hchan, hs, hupdated⟩
            exact ⟨hchan, Finset.mem_union_left _ hs, hupdated⟩
        have hupdated : (l.halfApplied g next).updatedChannels = l.updatedChannels := rfl
        simp only [Option.map_some, hupdated, if_congr hmem rfl rfl]
    · exact (@seen_iff _ _ g next l).mpr hu.seen name chan

omit [OrderBot Ver] in
theorem version_halfApplied {e : UpdateError} (h : (l.superstepApply g next).2 = some e)
    (chan : String) :
    (l.halfApplied g next).checkpoint.channelVersions.get? chan =
        l.checkpoint.channelVersions.get? chan ∨
      (l.halfApplied g next).checkpoint.channelVersions.get? chan =
        some (next (maxVersion l.checkpoint.channelVersions)) :=
  version_of_error h chan

theorem exists_next {w u : Ver} (hn : StrictlyIncreasing next) (h : w < u) :
    ∃ n : GetNextVersion Ver, StrictlyIncreasing n ∧ n (some w) = u := by
  refine ⟨fun o => if o = some w then u else next o, ⟨fun v => ?_, ?_⟩, if_pos rfl⟩
  · by_cases hv : v = w
    · simp [hv, h]
    · have hne : (some v : Option Ver) ≠ some w := fun heq => hv (Option.some.inj heq)
      simp only [if_neg hne]
      exact hn.some v
  · exact hn.none

-- A version that the exit save draws cannot hide one that the failed apply drew.
theorem versions_of_restored (hn : StrictlyIncreasing next) {e : UpdateError}
    (he : (l.superstepApply g next).2 = some e)
    (hsame : ∀ n, StrictlyIncreasing n → ∀ chan,
      (snapshotVersions (l.halfApplied g next).channels l.updatedChannels (some n)
        (l.halfApplied g next).exitSnapshot
        (l.halfApplied g next).checkpoint.channelVersions).get? chan =
      (snapshotVersions l.channels l.updatedChannels (some n) l.exitSnapshot
        l.checkpoint.channelVersions).get? chan) (chan : String) :
    (l.halfApplied g next).checkpoint.channelVersions.get? chan =
      l.checkpoint.channelVersions.get? chan := by
  by_contra hne
  have hbumped := (version_halfApplied he chan).resolve_left hne
  obtain ⟨v, hv⟩ : ∃ v, v = next (maxVersion l.checkpoint.channelVersions) := ⟨_, rfl⟩
  rw [← hv] at hbumped
  cases hw : l.checkpoint.channelVersions.get? chan with
  | none =>
    have heq := hsame next hn chan
    rw [get?_snapshotVersions, get?_snapshotVersions, hbumped, hw] at heq
    cases heq
  | some w =>
    have hlt : w < v := hv ▸ lt_next_of_get? hn hw
    by_cases hdrawn : chan ∈ (l.halfApplied g next).channels.keys ∧
        chan ∈ (l.halfApplied g next).exitSnapshot ∧ chan ∉ l.updatedChannels.getD ∅
    · obtain ⟨n, hinc, hnw⟩ := exists_next hn hlt
      have heq := hsame n hinc chan
      have hlater := hinc.some v
      rw [get?_snapshotVersions, get?_snapshotVersions, hbumped, hw, Option.map_some,
        Option.map_some, if_pos hdrawn, hnw, Option.some.injEq] at heq
      split at heq
      · exact absurd heq (ne_of_gt hlater)
      · exact absurd heq (ne_of_gt (hlt.trans hlater))
    · obtain ⟨n, hinc, hnw⟩ := exists_next hn (hlt.trans (hn.some v))
      have heq := hsame n hinc chan
      rw [get?_snapshotVersions, get?_snapshotVersions, hbumped, hw, Option.map_some,
        Option.map_some, if_neg hdrawn, hnw, Option.some.injEq] at heq
      split at heq
      · exact absurd heq (ne_of_lt (hn.some v))
      · exact absurd heq (ne_of_gt hlt)

structure ExitsAlike (g : Graph Channel) (next : GetNextVersion Ver)
    (l : PregelLoop Channel Ver) : Prop where
  rows : (l.halfApplied g next).exitRows = l.exitRows
  values : ∀ chan, chan ≠ Key.tasks →
    (checkpointValues (l.halfApplied g next).channels
      (l.halfApplied g next).checkpoint.channelVersions (l.halfApplied g next).exitSnapshot).get?
        chan =
      (checkpointValues l.channels l.checkpoint.channelVersions l.exitSnapshot).get? chan
  versions : ∀ n, StrictlyIncreasing n → ∀ chan,
    (snapshotVersions (l.halfApplied g next).channels l.updatedChannels (some n)
      (l.halfApplied g next).exitSnapshot
      (l.halfApplied g next).checkpoint.channelVersions).get? chan =
    (snapshotVersions l.channels l.updatedChannels (some n) l.exitSnapshot
      l.checkpoint.channelVersions).get? chan
  seen : ∀ name chan, ((l.halfApplied g next).checkpoint.versionsSeen.getD name ∅).get? chan =
    (l.checkpoint.versionsSeen.getD name ∅).get? chan

theorem exitsAlike_of_restored (hd : l.config.durability = .exit)
    (hid : l.checkpoint.id ≠ l.checkpointIdSaved) (hn : StrictlyIncreasing next)
    (hraise : (l.afterTick g next newId).2 ≠ none) (h : l.Restored g next newId) :
    l.ExitsAlike g next := by
  obtain ⟨-, hloop⟩ := afterTick_raises hraise
  obtain ⟨hrows, hstate⟩ := h hid
  rw [hloop] at hrows hstate
  have hcheckpoint (n : GetNextVersion Ver) := @checkpoint_suppressInterrupt _ _ _ n _ hd hid
  have hcheckpoint' (n : GetNextVersion Ver) := @checkpoint_suppressInterrupt _ _ _ n
    (l.halfApplied g next) hd hid
  refine ⟨hrows, fun chan hchan => ?_, fun n hinc chan => ?_, fun name chan => ?_⟩
  · have heq := (hstate next hn).values chan
    rw [hcheckpoint, hcheckpoint'] at heq
    simp only at heq
    rw [get?_sanitizeTasks_ne _ _ hchan, get?_sanitizeTasks_ne _ _ hchan] at heq
    exact heq
  · have heq := (hstate n hinc).versions chan
    rw [hcheckpoint, hcheckpoint'] at heq
    exact heq
  · have heq := (hstate next hn).seen name chan
    rw [hcheckpoint, hcheckpoint'] at heq
    exact heq

omit [LinearOrder Ver] [OrderBot Ver] in
theorem ne_tasks_of_kind (hg : g.Compiled) (hdecl : Declared g.specs l.channels) {chan : String}
    {c : Channel} (hc : l.channels.get? chan = some c) (hk : c.kind ≠ .topic) :
    chan ≠ Key.tasks := by
  rintro rfl
  obtain ⟨t, ht⟩ := hg.tasks
  obtain ⟨spec, hs, hkind⟩ := hdecl.kinds _ c hc
  rw [ht, Option.some.injEq] at hs
  exact hk (hkind.trans (hs ▸ rfl))

theorem ExitsAlike.untouched (hg : g.Compiled) (hdecl : Declared g.specs l.channels)
    (hn : StrictlyIncreasing next) {e : UpdateError}
    (he : (l.superstepApply g next).2 = some e) (h : l.ExitsAlike g next) : l.Untouched g := by
  have hversions := versions_of_restored hn he h.versions
  have hquiet : Quiet l.channels l.superstepTasks := by
    refine quiet_of_versions (fun chan w hw => ?_) he hversions
    exact ne_of_lt (lt_next_of_get? hn hw)
  obtain ⟨k, c, hf⟩ := failed_of_quiet hquiet he
  obtain ⟨e', hraises⟩ := hf.raises
  have hsnapshot := hf.exitSnapshot
  have hvalue {chan : String} (hchan : chan ≠ Key.tasks)
      (hv : chan ∈ l.checkpoint.channelVersions.keys) :
      ((l.halfApplied g next).channels.get? chan).bind
          (checkpointValue (l.exitSnapshot ∪ l.superstepOverwrites g) chan) =
        (l.channels.get? chan).bind (checkpointValue l.exitSnapshot chan) := by
    have heq := h.values chan hchan
    rw [get?_exitValues, get?_exitValues, hsnapshot] at heq
    simpa only [if_pos ((hf.keys_versions chan).mpr hv), if_pos hv] using heq
  refine ⟨(@seen_iff _ _ g next l).mp h.seen, hquiet, ?_, ?_, ?_⟩
  · intro chan d hfirst hd hv
    rw [hf.first, Option.some.injEq] at hfirst
    subst hfirst
    rw [hf.channel, Option.some.injEq] at hd
    subst hd
    by_cases ho : k ∈ l.superstepOverwrites g
    · rw [Channel.update_error_delta (kind_of_overwrite hdecl hf.channel ho) hraises]
    · have hchan : k ≠ Key.tasks := ne_tasks_of_kind hg hdecl hf.channel
        (fun hk => Channel.topic_never_raises hk hraises)
      have heq := hvalue hchan hv
      rw [hf.channels, if_pos rfl, hf.channel, Option.bind_some, Option.bind_some] at heq
      exact (checkpointValue_union (fun hmem => absurd hmem ho)).symm.trans heq
  · intro chan ho hs row hrow hchan
    have hmem : row ∈ l.exitRows := by
      refine List.mem_filter.mpr ⟨hrow, ?_⟩
      rw [hchan]
      simpa using hs
    rw [← h.rows] at hmem
    have hout := (List.mem_filter.mp hmem).2
    rw [hsnapshot, hchan] at hout
    simp [ho] at hout
  · intro chan ho hs d hd hv
    have hkind := kind_of_overwrite hdecl hd ho
    have hboth : chan ∈ l.exitSnapshot ∪ l.superstepOverwrites g := Finset.mem_union_right _ ho
    refine ⟨?_, ?_⟩
    · by_contra hupdated
      obtain ⟨w, hw⟩ := Dict.mem_keys.mp hv
      have heq := h.versions next hn chan
      have hkeys : chan ∈ (l.halfApplied g next).channels.keys := by
        rw [(declared_halfApplied l).keys]
        exact Dict.mem_keys.mpr ⟨d, hd⟩
      have hdrawn : chan ∈ (l.halfApplied g next).channels.keys ∧
          chan ∈ (l.halfApplied g next).exitSnapshot ∧ chan ∉ l.updatedChannels.getD ∅ :=
        ⟨hkeys, hsnapshot ▸ hboth, hupdated⟩
      have hkept : ¬ (chan ∈ l.channels.keys ∧ chan ∈ l.exitSnapshot ∧
          chan ∉ l.updatedChannels.getD ∅) := fun hall => hs hall.2.1
      rw [get?_snapshotVersions, get?_snapshotVersions, hversions, hw, Option.map_some,
        Option.map_some, if_pos hdrawn, if_neg hkept, Option.some.injEq] at heq
      exact absurd heq (ne_of_gt (hn.some w))
    · have hchan : chan ≠ Key.tasks := ne_tasks_of_kind hg hdecl hd (fun hk => by
        rw [hk] at hkind
        cases hkind)
      have hsame : (l.halfApplied g next).channels.get? chan = some d := by
        rw [hf.channels]
        by_cases hk : chan = k
        · subst hk
          rw [hf.channel, Option.some.injEq] at hd
          subst hd
          rw [if_pos rfl, Channel.update_error_delta hkind hraises]
        · rw [if_neg hk, hd]
      have heq := hvalue hchan hv
      rw [hsame, hd, Option.bind_some, Option.bind_some, checkpointValue, checkpointValue,
        if_pos hboth, if_neg hs] at heq
      have hplain : BaseChannel.checkpoint d = none := by
        cases d with
        | deltaChannel d => rfl
        | _ => cases hkind
      rw [hplain] at heq
      exact Option.map_eq_none_iff.mp heq

end PregelLoop

section Runs

variable [LinearOrder Ver] [OrderBot Ver] {g : Graph Channel} {inputKeys : InputKeys}

theorem invariant_declared (g : Graph Channel) :
    Core.Invariant g (fun (_ : InMemorySaver Ver) _ => True) (fun _ _ => True) (fun _ => True)
      (fun _ c => Declared g.specs c.channels) (fun _ c => Declared g.specs c.channels) where
  load := by
    rintro s c - (⟨-, hc⟩ | ⟨-, hc⟩)
    · exact Declared.load hc
    · exact Declared.load hc
  move := by
    rintro s c c' (_ | _ | ⟨tasks, -⟩ | _ | _) hc
    · exact hc
    · exact hc
    · exact hc.applyWrites _ _ _ _
    · exact hc
    · exact hc
  keep hc := hc
  save := by
    rintro s c c' (_ | _) hc
    · exact hc
    · exact hc
  submit _ hc := hc
  settle hc := ⟨trivial, hc⟩

theorem Thread.declared_run {events : List (Event Ver)} {l : PregelLoop Channel Ver}
    (h : (run (Thread.step g inputKeys) Thread.fresh events).loop = some l) :
    Declared g.specs l.channels := by
  have hstep (th : Thread Channel Ver) (e : Event Ver)
      (hth : th.CoreHolds (fun _ => True) (fun _ c => Declared g.specs c.channels)) :
      (th.step g inputKeys e).CoreHolds (fun _ => True) (fun _ c => Declared g.specs c.channels) :=
    hth.step (invariant_declared g)
      ⟨fun _ _ => trivial, fun _ _ => trivial, fun _ _ _ _ _ => trivial, fun _ _ _ _ _ => trivial⟩
  have hfresh : (Thread.fresh : Thread Channel Ver).CoreHolds (fun _ => True)
      (fun _ c => Declared g.specs c.channels) :=
    ⟨trivial, fun _ hl => (by cases hl), fun _ hl => (by cases hl)⟩
  exact (run_invariant hstep events hfresh).loop l h

theorem Thread.failed_superstep_restored {events : List (Event Ver)} {l : PregelLoop Channel Ver}
    {next : GetNextVersion Ver} {newId : String} (hg : g.Compiled)
    (hrun : (run (Thread.step g inputKeys) Thread.fresh events).loop = some l)
    (hd : l.config.durability = .exit) (hn : StrictlyIncreasing next)
    (hraise : (l.afterTick g next newId).2 ≠ none) :
    l.Restored g next newId ↔ l.checkpoint.id = l.checkpointIdSaved ∨ l.Untouched g := by
  have hdecl := Thread.declared_run hrun
  constructor
  · intro h
    by_cases hid : l.checkpoint.id = l.checkpointIdSaved
    · exact Or.inl hid
    · obtain ⟨⟨e, he⟩, -⟩ := PregelLoop.afterTick_raises hraise
      have halike := PregelLoop.exitsAlike_of_restored hd hid hn hraise h
      exact Or.inr (halike.untouched hg hdecl hn he)
  · rintro (hid | hu)
    · exact fun hne => absurd hid hne
    · exact PregelLoop.restored_of_untouched hd hdecl hraise hu

def clashGraph : Graph Channel :=
  { Graph.ofSpecs (Dict.ofList
      [("x", .lastValue ⟨"x", none⟩), (Key.tasks, .topic ⟨false, []⟩),
        (Key.start, .ephemeralValue ⟨Key.start, true, none⟩),
        ("branch:to:a", .ephemeralValue ⟨"branch:to:a", false, none⟩),
        ("branch:to:b", .ephemeralValue ⟨"branch:to:b", false, none⟩)]) with
    nodes := Dict.ofList
      [(Key.start, ⟨.single Key.start, [Key.start], none, none, none, none, true⟩),
        ("a", ⟨.many ["x"], ["branch:to:a"], none, none, none, none, true⟩),
        ("b", ⟨.many ["x"], ["branch:to:b"], none, none, none, none, true⟩)]
    triggerToNodes := Dict.ofList
      [(Key.start, [Key.start]), ("branch:to:a", ["a"]), ("branch:to:b", ["b"])] }

-- After the input both nodes write `x`, which takes one value in a step.
def clashEvents (durability : Durability) : List (Event Nat) :=
  [.enter (LoopConfig.plain durability) none "0" none,
    .first (.value (.dict [("x", .int 1)])) false successor successor "1",
    .tick,
    .commit "1__start__0__start____pregel_pull__start__"
      ⟨[("x", .int 1), ("branch:to:a", .none), ("branch:to:b", .none)], none⟩,
    .afterTick successor "2",
    .tick,
    .commit "2a1a__pregel_pullbranch:to:a" ⟨[("x", .int 2)], none⟩,
    .commit "2b1b__pregel_pullbranch:to:b" ⟨[("x", .int 3)], none⟩]

def resumeEvents (durability : Durability) : List (Event Nat) :=
  [.afterTick successor "3",
    .exit successor,
    .enter (LoopConfig.plain durability) none "0" none,
    .first .none false successor successor "4",
    .tick]

def clashThread (durability : Durability) : Thread Channel Nat :=
  run (Thread.step clashGraph (.single Key.start)) Thread.fresh (clashEvents durability)

def scheduledAgain (durability : Durability) : Option (List String) :=
  (run (Thread.step clashGraph (.single Key.start)) (clashThread durability)
    (resumeEvents durability)).loop.map (fun l => l.liveTasks.map PregelTask.name)

theorem superstep_lost :
    scheduledAgain .exit = some [] ∧ scheduledAgain .sync = some ["a", "b"] :=
  ⟨by decide +kernel, by decide +kernel⟩

theorem clashGraph_compiled : clashGraph.Compiled := ⟨⟨_, rfl⟩, ⟨_, rfl⟩⟩

theorem strictlyIncreasing_successor : StrictlyIncreasing successor :=
  ⟨fun v => Nat.lt_succ_self v, Nat.zero_lt_one⟩

theorem clash_not_restored : ∃ l, (clashThread .exit).loop = some l ∧
    ¬ l.Restored clashGraph successor "3" := by
  obtain ⟨l, hl⟩ : ∃ l, l = (clashThread .exit).loop.get (by decide +kernel) := ⟨_, rfl⟩
  have hloop : (clashThread .exit).loop = some l := by rw [hl, Option.some_get]
  have hd : l.config.durability = .exit := by
    rw [hl]
    decide +kernel
  have hraise : (l.afterTick clashGraph successor "3").2 ≠ none := by
    rw [hl]
    decide +kernel
  have hid : l.checkpoint.id ≠ l.checkpointIdSaved := by
    rw [hl]
    decide +kernel
  have hunseen : ∃ t ∈ l.liveTasks, ∃ chan ∈ t.triggers,
      l.checkpoint.channelVersions.get? chan = some 2 ∧
        (l.checkpoint.versionsSeen.getD t.name ∅).get? chan = none := by
    rw [hl]
    decide +kernel
  refine ⟨l, hloop, fun h => ?_⟩
  rcases (Thread.failed_superstep_restored clashGraph_compiled hloop hd
    strictlyIncreasing_successor hraise).mp h with hsame | hu
  · exact hid hsame
  · obtain ⟨t, ht, chan, hchan, hv, hnone⟩ := hunseen
    rw [hu.seen t ht chan hchan 2 hv] at hnone
    cases hnone

end Runs

end LangGraph
