import LangGraph.Pregel.Moved

namespace LangGraph

open Collections Transition Relation

variable {Ver : Type} [LinearOrder Ver] [OrderBot Ver]

-- Node names are checked against the reserved names, and so are channels; TASKS holds Sends.
structure Graph.Validated (g : Graph Channel) : Prop where
  nodes : Key.interrupt ∉ g.nodes.keys
  push : Key.push ∉ g.specs.keys
  tasks : SendTopic g.specs

section Sane

structure Sane (checkpoint : Checkpoint Ver) : Prop where
  bounded : SeenBounded checkpoint
  push : checkpoint.channelVersions.get? Key.push = none

def CallsSane (calls : List (SaverCall Ver)) : Prop :=
  ∀ call ∈ calls, match call with
    | .put _ checkpoint _ _ => Sane checkpoint
    | .putWrites _ _ _ _ => True

structure Core.Sane (c : Core Channel Ver) : Prop where
  checkpoint : LangGraph.Sane c.checkpoint
  topic : SendTopic c.channels
  push : Key.push ∉ c.channels.keys
  calls : CallsSane c.calls

def InMemorySaver.Sane (s : InMemorySaver Ver) : Prop :=
  ∀ id e, s.storage.get? id = some e → LangGraph.Sane e.checkpoint

omit [OrderBot Ver] in
theorem sane_empty (id : String) : Sane (emptyCheckpoint id : Checkpoint Ver) :=
  ⟨fun _ _ _ _ h => (by cases h), rfl⟩

omit [OrderBot Ver] in
theorem InMemorySaver.Sane.execAll {s : InMemorySaver Ver} (h : s.Sane)
    {calls : List (SaverCall Ver)} (hc : CallsSane calls) : (s.execAll calls).Sane := by
  induction calls generalizing s with
  | nil => exact h
  | cons call calls ih =>
    obtain ⟨hcall, hrest⟩ := List.forall_mem_cons.mp hc
    refine ih ?_ hrest
    cases call with
    | put parent checkpoint metadata newVersions =>
      intro id e he
      have hset : (s.storage.set checkpoint.id
          ⟨{ checkpoint with channelValues := ∅ }, metadata, parent⟩).get? id = some e := he
      rw [Dict.get?_set] at hset
      split at hset
      · rw [← Option.some.inj hset]
        exact ⟨hcall.bounded, hcall.push⟩
      · exact h id e hset
    | putWrites id writes taskId path =>
      intro id' e he
      refine h id' e ?_
      cases writes with
      | nil => exact he
      | cons w ws => exact he

omit [OrderBot Ver] in
theorem InMemorySaver.Sane.getTuple {s : InMemorySaver Ver} (h : s.Sane) {id : Option String}
    {t : CheckpointTuple Ver} (ht : s.getTuple id = some t) : LangGraph.Sane t.checkpoint := by
  obtain ⟨cid, -, hrest⟩ := Option.bind_eq_some_iff.mp ht
  obtain ⟨saved, hsaved, htuple⟩ := Option.bind_eq_some_iff.mp hrest
  rw [← Option.some.inj htuple]
  exact ⟨(h cid saved hsaved).bounded, (h cid saved hsaved).push⟩

omit [LinearOrder Ver] [OrderBot Ver] in
theorem applyChannels_invariant {P : ApplyState Channel Ver → Prop} {next : Option Ver}
    (hstep : ∀ mark op chan s, P s → P (ApplyState.touch next mark op chan s).1)
    {channels : Dict String Channel} {versions : ChannelVersions Ver} (h : P ⟨versions, channels, ∅⟩)
    (tasks : List PregelTaskWrites) (triggerToNodes : Dict String (List String)) :
    P (applyChannels channels versions next tasks triggerToNodes).1 := by
  have hsweep (mark : Bool) (op : ChannelOp Channel) (ks : List String)
      (s : ApplyState Channel Ver) (hs : P s) :
      P (sweep (ApplyState.touch next mark op) ks s).1 :=
    Sweep.invariant (fun chan _ ht => hstep mark op chan _ ht) ks hs
  refine andThen_invariant (hsweep _ _ _ _ h) (fun s hs => ?_)
  refine andThen_invariant (hsweep _ _ _ _ hs) (fun s hs => ?_)
  split
  · refine andThen_invariant (hsweep _ _ _ _ hs) (fun s hs => ?_)
    unfold finishPhase
    split
    · exact hs
    · exact hsweep _ _ _ _ hs
  · exact hs

omit [LinearOrder Ver] [OrderBot Ver] in
theorem undeclared_touch {k : String} {w : Option Ver} {next : Option Ver} (mark : Bool)
    (op : ChannelOp Channel) (chan : String) (s : ApplyState Channel Ver)
    (h : k ∉ s.channels.keys ∧ s.versions.get? k = w) :
    k ∉ (s.touch next mark op chan).1.channels.keys ∧
      (s.touch next mark op chan).1.versions.get? k = w := by
  refine ⟨by rw [keys_touch]; exact h.1, ?_⟩
  unfold ApplyState.touch
  split
  · exact h.2
  · rename_i c hc
    simp only
    split
    · exact h.2
    · refine (Dict.get?_set_ne _ (fun heq => h.1 ?_) _).trans h.2
      rw [heq]
      exact Dict.mem_keys.mpr ⟨c, hc⟩
    · exact h.2

theorem Sane.applyWrites {checkpoint : Checkpoint Ver} (h : Sane checkpoint)
    {next : GetNextVersion Ver} (hn : StrictlyIncreasing next) {channels : Dict String Channel}
    (hp : Key.push ∉ channels.keys) (tasks : List PregelTaskWrites)
    (triggerToNodes : Dict String (List String)) :
    Sane (applyWrites checkpoint channels tasks (some next) triggerToNodes).1 := by
  refine ⟨seenBounded_applyWrites hn h.bounded channels tasks triggerToNodes, ?_⟩
  exact (applyChannels_invariant undeclared_touch ⟨hp, h.push⟩ (sortTasks tasks)
    triggerToNodes).2

omit [OrderBot Ver] in
theorem Sane.grown {checkpoint checkpoint' : Checkpoint Ver} (h : Sane checkpoint)
    (hseen : checkpoint'.versionsSeen = checkpoint.versionsSeen)
    (hgrow : ∀ chan v, checkpoint.channelVersions.get? chan = some v →
      ∃ v', checkpoint'.channelVersions.get? chan = some v' ∧ v ≤ v')
    (hnone : ∀ chan, checkpoint.channelVersions.get? chan = none →
      checkpoint'.channelVersions.get? chan = none) : Sane checkpoint' := by
  refine ⟨fun name seen chan w hname hw => ?_, hnone _ h.push⟩
  rw [hseen] at hname
  obtain ⟨v, hv, hle⟩ := h.bounded name seen chan w hname hw
  obtain ⟨v', hv', hle'⟩ := hgrow chan v hv
  exact ⟨v', hv', hle.trans hle'⟩

-- A forced snapshot draws a version above the one the channel had.
theorem snapshotVersions_grow {channels : Dict String Channel} {updated : Option (Finset String)}
    {next : Option (GetNextVersion Ver)} (hn : ∀ n, next = some n → StrictlyIncreasing n)
    (snapshot : Finset String) (versions : ChannelVersions Ver) :
    (∀ chan v, versions.get? chan = some v →
      ∃ v', (snapshotVersions channels updated next snapshot versions).get? chan = some v' ∧
        v ≤ v') ∧
      ∀ chan, versions.get? chan = none →
        (snapshotVersions channels updated next snapshot versions).get? chan = none := by
  cases next with
  | none =>
    rw [UpdateTarget.snapshotVersions_none]
    exact ⟨fun _ v hv => ⟨v, hv, le_rfl⟩, fun _ hv => hv⟩
  | some n =>
    simp only [get?_snapshotVersions]
    refine ⟨fun chan v hv => ?_, fun chan hv => by rw [hv]; rfl⟩
    rw [hv]
    refine ⟨_, rfl, ?_⟩
    split
    · exact le_of_lt ((hn n rfl).some v)
    · exact le_rfl

theorem Sane.created {c : Core Channel Ver} (h : Sane c.checkpoint)
    {next : Option (GetNextVersion Ver)} (hn : ∀ n, next = some n → StrictlyIncreasing n)
    (id : String) (updated : Option (Finset String)) (snapshot : Finset String)
    (sanitize : Bool) : Sane (c.created next id updated snapshot sanitize) := by
  have hversions : (c.created next id updated snapshot sanitize).channelVersions =
      snapshotVersions c.channels updated next snapshot c.checkpoint.channelVersions := by
    cases sanitize <;> rfl
  obtain ⟨hgrow, hnone⟩ := @snapshotVersions_grow _ _ _ c.channels updated _ hn
    snapshot c.checkpoint.channelVersions
  refine h.grown ?_ (by rw [hversions]; exact hgrow) (by rw [hversions]; exact hnone)
  cases sanitize <;> rfl

omit [OrderBot Ver] in
theorem Sane.see {c : Core Channel Ver} (h : Sane c.checkpoint) : Sane c.see.checkpoint := by
  refine ⟨fun name seen chan w hname hw => ?_, h.push⟩
  have hset : (c.checkpoint.versionsSeen.set Key.interrupt
      ((c.checkpoint.versionsSeen.getD Key.interrupt ∅).update
        (c.channels.keys.filterMap (fun k =>
          (c.checkpoint.channelVersions.get? k).map (fun v => (k, v)))))).get? name =
      some seen := hname
  rw [Dict.get?_set] at hset
  split at hset
  · obtain rfl := Option.some.inj hset
    rw [Dict.get?_update_filterMap] at hw
    have hold (hw : (c.checkpoint.versionsSeen.getD Key.interrupt ∅).get? chan = some w) :
        ∃ v, c.checkpoint.channelVersions.get? chan = some v ∧ w ≤ v := by
      cases hs : c.checkpoint.versionsSeen.get? Key.interrupt with
      | none =>
        rw [Dict.getD, hs] at hw
        cases hw
      | some seen =>
        rw [Dict.getD, hs] at hw
        exact h.bounded _ seen chan w hs hw
    split at hw
    · cases hv : c.checkpoint.channelVersions.get? chan with
      | none =>
        rw [hv, Option.none_or] at hw
        exact hold hw
      | some v =>
        rw [hv, Option.some_or] at hw
        exact ⟨v, hv, le_of_eq (Option.some.inj hw).symm⟩
    · exact hold hw
  · exact h.bounded name seen chan w hset hw

omit [OrderBot Ver] in
theorem callsSane_rows {calls calls' : List (SaverCall Ver)} (h : CallsSane calls)
    (hr : RowsOnly calls') : CallsSane (calls ++ calls') := by
  refine List.forall_mem_append.mpr ⟨h, fun call hc => ?_⟩
  cases call with
  | put => exact (hr _ hc).elim
  | putWrites => trivial

omit [OrderBot Ver] in
theorem callsSane_put {calls : List (SaverCall Ver)} (h : CallsSane calls)
    {checkpoint : Checkpoint Ver} (hc : Sane checkpoint) (parent : Option String)
    (metadata : CheckpointMetadata) (newVersions : ChannelVersions Ver) :
    CallsSane (calls ++ [.put parent checkpoint metadata newVersions]) := by
  refine List.forall_mem_append.mpr ⟨h, fun call hcall => ?_⟩
  rw [List.mem_singleton.mp hcall]
  exact hc

def Core.SaneAt (s : InMemorySaver Ver) (c : Core Channel Ver) : Prop := s.Sane ∧ c.Sane

theorem invariant_sane {g : Graph Channel} (hg : g.Validated) :
    Core.Invariant g (fun (_ : InMemorySaver Ver) next => StrictlyIncreasing next)
      (fun _ _ => True) InMemorySaver.Sane Core.SaneAt Core.SaneAt where
  load := by
    have hchannels {saver : Option (InMemorySaver Ver)} {checkpoint : Checkpoint Ver}
        {channels : Dict String Channel}
        (hc : channelsFromCheckpoint g.specs saver checkpoint = .ok channels) :
        SendTopic channels ∧ Key.push ∉ channels.keys :=
      ⟨⟨_, topic_load hg.tasks hc⟩, by rw [keys_channelsFromCheckpoint hc]; exact hg.push⟩
    rintro s c hs (⟨ht, hc⟩ | ⟨-, hc⟩)
    · exact ⟨hs, hs.getTuple ht, (hchannels hc).1, (hchannels hc).2, fun _ h => by cases h⟩
    · exact ⟨hs, sane_empty _, (hchannels hc).1, (hchannels hc).2, fun _ h => by cases h⟩
  move := by
    rintro s c c' (hrows | _ | ⟨tasks, hn⟩ | _ | _) ⟨hs, hc⟩
    · exact ⟨hs, hc.checkpoint, hc.topic, hc.push, callsSane_rows hc.calls hrows⟩
    · exact ⟨hs, hc.checkpoint, hc.topic, hc.push, callsSane_put hc.calls (sane_empty _) _ _ _⟩
    · refine ⟨hs, hc.checkpoint.applyWrites hn hc.push _ _,
        sendTopic_applyWrites hc.topic _ _ _ _, ?_, hc.calls⟩
      rw [Core.apply, keys_applyWrites]
      exact hc.push
    · exact ⟨hs, hc.checkpoint.see, hc.topic, hc.push, hc.calls⟩
    · exact ⟨hs, ⟨hc.checkpoint.bounded, hc.checkpoint.push⟩, hc.topic, hc.push, hc.calls⟩
  keep hc := hc
  save := by
    have hrename (c : Core Channel Ver) (id : String) (h : Sane c.checkpoint) :
        Sane (c.rename id none).checkpoint := ⟨h.bounded, h.push⟩
    rintro s c c' (⟨updated, snapshot, sanitize, parent, metadata, hn, -⟩ | _) ⟨hs, hc⟩
    · have hcreated (id : String) := hc.checkpoint.created hn id updated snapshot sanitize
      exact ⟨hs, hcreated _, hc.topic, hc.push, callsSane_put hc.calls (hcreated _) _ _ _⟩
    · have hsane (id : String) := hrename c id hc.checkpoint
      exact ⟨hs, hsane _, hc.topic, hc.push, callsSane_put hc.calls (hsane _) _ _ _⟩
  submit hrows hc :=
    ⟨hc.1, hc.2.checkpoint, hc.2.topic, hc.2.push, callsSane_rows hc.2.calls hrows⟩
  settle hc :=
    ⟨hc.1.execAll hc.2.calls, hc.1.execAll hc.2.calls, hc.2.checkpoint, hc.2.topic, hc.2.push,
      fun _ h => by cases h⟩

end Sane

end LangGraph
