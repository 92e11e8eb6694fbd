import LangGraph.Channels.DeltaReplay
import LangGraph.Checkpoint.DeltaHistory
import LangGraph.Pregel.Lookahead

namespace LangGraph

open Collections

variable {Ver : Type}

theorem DeltaChannel.update_snd {c : DeltaChannel} {vs : List Value} (hvs : vs ≠ []) {b : Bool}
    (h : (c.update vs).2 = .ok b) : b = true := by
  cases b with
  | true => rfl
  | false =>
    cases vs with
    | nil => exact absurd rfl hvs
    | cons v vs =>
      simp only [update] at h
      split at h
      · cases h
      · cases h
      · split at h <;> cases h

namespace Cell

variable {x : Cell Channel Ver} {c : DeltaChannel} {next : Option Ver} {chan : String}

theorem touch_delta (hx : x.channel = some (.deltaChannel c)) {st : Stage Channel}
    (hst : st.op chan x.updated (.deltaChannel c) = (.deltaChannel c, .ok false)) :
    x.touch next chan st = x := by
  have hresult : x.result chan st = some (.deltaChannel c, .ok false) := by
    rw [result, hx, Option.map_some, hst]
  obtain ⟨channel, version, updated⟩ := x
  subst hx
  unfold touch
  rw [hresult]

theorem updateEmpty_delta (c : DeltaChannel) (chan : String) (updated : Bool) :
    (ChannelOp.updateEmpty chan updated (.deltaChannel c) : Channel × Except UpdateError Bool) =
      (.deltaChannel c, .ok false) := by
  unfold ChannelOp.updateEmpty
  split
  · rfl
  · rfl

theorem run_if_delta (hx : x.channel = some (.deltaChannel c)) {st : Stage Channel}
    (hst : st.op chan x.updated (.deltaChannel c) = (.deltaChannel c, .ok false)) (p : Prop)
    [Decidable p] : x.run next chan (if p then [st] else []) = x := by
  split
  · exact touch_delta hx hst
  · rfl

end Cell

section Apply

variable {channels : Dict String Channel} {versions : ChannelVersions Ver} {v : Ver}
  {tasks : List PregelTaskWrites} {triggerToNodes : Dict String (List String)} {k : String}
  {c : DeltaChannel}

def batchOf (channels : Dict String Channel) (tasks : List PregelTaskWrites) (k : String) :
    List Value :=
  (pendingWritesByChannel channels tasks).getD k []

theorem batchOf_ne_nil (h : k ∈ (pendingWritesByChannel channels tasks).keys) :
    batchOf channels tasks k ≠ [] := by
  obtain ⟨hi, hc, v, hv⟩ := mem_keys_groupWrites.mp h
  rw [batchOf, pendingWritesByChannel, getD_groupWrites hi hc]
  intro hnil
  have hmem : v ∈ writesTo k (tasks.flatMap PregelTaskWrites.writes) := by
    rw [writesTo, List.mem_map]
    exact ⟨(k, v), List.mem_filter.mpr ⟨hv, by simp⟩, rfl⟩
  rw [hnil] at hmem
  cases hmem

theorem batchOf_of_not_mem (h : k ∉ (pendingWritesByChannel channels tasks).keys) :
    batchOf channels tasks k = [] := by
  rw [batchOf, Dict.getD, Dict.get?_eq_none.mpr h]
  rfl

-- Of all phases only the update touches a delta channel.
theorem applyChannels_delta
    (hok : (applyChannels channels versions (some v) tasks triggerToNodes).2 = none)
    (hc : channels.get? k = some (.deltaChannel c)) :
    (applyChannels channels versions (some v) tasks triggerToNodes).1.channels.get? k =
        some (.deltaChannel (c.update (batchOf channels tasks k)).1) ∧
      (applyChannels channels versions (some v) tasks triggerToNodes).1.versions.get? k =
        (if batchOf channels tasks k = [] then versions.get? k else some v) ∧
      ∃ b, (c.update (batchOf channels tasks k)).2 = .ok b := by
  obtain ⟨s, -, -, herror⟩ := applyChannels_split hok
  obtain ⟨finish, hcell⟩ := applyChannels_cell hok
  have hstart : (⟨channels.get? k, versions.get? k, false⟩ : Cell Channel Ver).channel =
      some (.deltaChannel c) := hc
  have hconsumed : consumedCell channels versions (some v) tasks k =
      ⟨channels.get? k, versions.get? k, false⟩ := Cell.run_if_delta hstart rfl _
  have hrun := hcell k
  rw [plan, Cell.run_append, Cell.run_if_delta hstart rfl, Cell.run_append] at hrun
  have hlast {x : Cell Channel Ver} {d : DeltaChannel} (hx : x.channel = some (.deltaChannel d)) :
      x.run (some v) k ((if bumpStep tasks then [⟨true, .updateEmpty⟩] else []) ++
        (if finish then [⟨true, .finish⟩] else [])) = x := by
    rw [Cell.run_append, Cell.run_if_delta hx (Cell.updateEmpty_delta d k _),
      Cell.run_if_delta hx rfl]
  by_cases hk : k ∈ (pendingWritesByChannel channels tasks).keys
  · have hne := batchOf_ne_nil hk
    have herr := herror k hk
    rw [hconsumed] at herr
    have hresult : (⟨channels.get? k, versions.get? k, false⟩ : Cell Channel Ver).result k
        (updateStage channels tasks) =
          some (.deltaChannel (c.update (batchOf channels tasks k)).1,
            (c.update (batchOf channels tasks k)).2) := by
      rw [Cell.result, hc]
      rfl
    cases hu : (c.update (batchOf channels tasks k)).2 with
    | error e =>
      rw [Cell.error, hresult, hu] at herr
      cases herr
    | ok b =>
      obtain rfl := DeltaChannel.update_snd hne hu
      have htouch : (⟨channels.get? k, versions.get? k, false⟩ : Cell Channel Ver).run (some v)
          k [⟨true, .update (pendingWritesByChannel channels tasks)⟩] =
            ⟨some (.deltaChannel (c.update (batchOf channels tasks k)).1), some v,
              false || (true && BaseChannel.isAvailable
                (Channel.deltaChannel (c.update (batchOf channels tasks k)).1))⟩ := by
        rw [updateStage] at hresult
        rw [Cell.run, Cell.run]
        unfold Cell.touch
        rw [hresult, hu]
      rw [if_pos hk, htouch, hlast rfl] at hrun
      refine ⟨congrArg Cell.channel hrun, ?_, true, rfl⟩
      rw [if_neg hne]
      exact congrArg Cell.version hrun
  · have hnil := batchOf_of_not_mem hk
    rw [if_neg hk, Cell.run, hlast hstart] at hrun
    rw [hnil, if_pos rfl]
    refine ⟨?_, congrArg Cell.version hrun, false, rfl⟩
    exact (congrArg Cell.channel hrun).trans hc

end Apply


namespace InMemorySaver

variable [DecidableEq Ver] {s s' : InMemorySaver Ver} {d c : DeltaChannel} {k id new : String}

-- What the checkpoints `ids`, newest first, give for a delta channel.
def rebuilt (s : InMemorySaver Ver) (d : DeltaChannel) (k : String) (ids : List String) :
    Except UpdateError DeltaChannel :=
  (d.fromCheckpoint (s.walk k ids).seed).replayWrites
    ((s.walk k ids).writes.map PendingWrite.value)

def readDelta (s : InMemorySaver Ver) (d : DeltaChannel) (k id : String) :
    Except UpdateError DeltaChannel :=
  match s.blobAt k id with
  | some b => .ok (d.fromCheckpoint (some b))
  | none => s.rebuilt d k (s.chain id)

def leftRows (s : InMemorySaver Ver) (k id : String) : List Value :=
  if (s.blobAt k id).any Blob.subsumesWrites then []
  else ((s.rows id).replayed k).map PendingWrite.value

theorem hydrate_delta (s : InMemorySaver Ver) (d : DeltaChannel) (k id : String) :
    hydrate (Channel.deltaChannel d) (some s) id k (s.blobAt k id) =
      (s.readDelta d k id).map Channel.deltaChannel := by
  have hd : isDelta (Channel.deltaChannel d) := rfl
  rw [readDelta, hydrate]
  cases hb : s.blobAt k id with
  | none =>
    rw [if_pos ⟨hd, rfl⟩]
    rfl
  | some b =>
    have hno : ¬ needsReplay (Channel.deltaChannel d) (some b) := fun h => by cases h.2
    rw [if_neg hno]
    rfl

theorem isSome_readDelta (h : s.readDelta d k id = .ok c) : c.value.isSome = true := by
  rw [readDelta] at h
  cases hb : s.blobAt k id with
  | some b =>
    rw [hb] at h
    rw [← Except.ok.inj h]
    exact d.isSome_fromCheckpoint _
  | none =>
    rw [hb] at h
    obtain ⟨v, hv⟩ := Option.isSome_iff_exists.mp (d.isSome_fromCheckpoint (s.walk k (s.chain id)).seed)
    obtain ⟨w, -, rfl⟩ := DeltaChannel.value_replayWrites hv h
    rfl

theorem rebuilt_cons (hb : d.Batching) (h : s.readDelta d k id = .ok c) :
    s.rebuilt d k (id :: s.chain id) = c.replayWrites (s.leftRows k id) := by
  rw [readDelta] at h
  rw [rebuilt, walk, leftRows]
  cases hblob : s.blobAt k id with
  | some b =>
    rw [hblob] at h
    rw [← Except.ok.inj h]
    cases hs : b.subsumesWrites <;> simp [hs]
  | none =>
    rw [hblob] at h
    have hbatching := hb.fromCheckpoint (s.walk k (s.chain id)).seed
    have happend := DeltaChannel.replayWrites_append hbatching (d.isSome_fromCheckpoint _) h
      (((s.rows id).replayed k).map PendingWrite.value)
    simpa using happend

theorem walk_congr {ids : List String}
    (h : ∀ id ∈ ids, s'.blobAt k id = s.blobAt k id ∧ s'.rows id = s.rows id) :
    s'.walk k ids = s.walk k ids := by
  induction ids with
  | nil => rfl
  | cons id ids ih =>
    obtain ⟨⟨hblob, hrows⟩, hrest⟩ := List.forall_mem_cons.mp h
    rw [walk, walk, ih hrest, hblob, hrows]

structure Unused (s : InMemorySaver Ver) (new : String) : Prop where
  storage : s.storage.get? new = none
  rows : s.rows new = ∅
  parent : ∀ id entry, s.storage.get? id = some entry → entry.parent ≠ some new

-- One new checkpoint and rows at it and at its parent.
structure Files (s s' : InMemorySaver Ver) (new : String) (parent : Option String) : Prop where
  storage : ∀ id, id ≠ new → s'.storage.get? id = s.storage.get? id
  entry : ∃ entry, s'.storage.get? new = some entry ∧ entry.parent = parent
  rows : ∀ id, id ≠ new → some id ≠ parent → s'.rows id = s.rows id

variable {parent : Option String} {cursor : Option String} {l : List String}

omit [DecidableEq Ver] in
theorem Files.ancestors (h : s.Files s' new parent) (hu : s.Unused new) (hne : cursor ≠ some new)
    (hl : s.Ancestors cursor l) : s'.Ancestors cursor l := by
  induction l generalizing cursor with
  | nil =>
    cases cursor with
    | none => exact hl
    | some id =>
      have hid : id ≠ new := fun he => hne (congrArg some he)
      exact (h.storage id hid).trans hl
  | cons older l ih =>
    cases cursor with
    | none => exact hl
    | some id =>
      have hid : id ≠ new := fun he => hne (congrArg some he)
      obtain ⟨rfl, entry, hentry, hrest⟩ := hl
      exact ⟨rfl, entry, (h.storage _ hid).trans hentry, ih (hu.parent _ _ hentry) hrest⟩

omit [DecidableEq Ver] in
theorem Files.chain (h : s.Files s' new parent) (hu : s.Unused new) (hne : parent ≠ some new)
    (hl : s.Ancestors parent l) : s'.chain new = l := by
  obtain ⟨entry, hentry, hparent⟩ := h.entry
  refine chain_eq ?_
  rw [hentry, Option.bind_some, hparent]
  exact h.ancestors hu hne hl

theorem Files.readDelta {p : String} (h : s.Files s' new (some p)) (hu : s.Unused new)
    (hl : s.Ancestors (some p) (p :: l))
    (hblobs : ∀ id, id ≠ new → s'.blobAt k id = s.blobAt k id) :
    s'.readDelta d k p = s.readDelta d k p := by
  have hnodup := ancestors_nodup hl
  obtain ⟨-, entry, hentry, hrest⟩ := hl
  have hp : p ≠ new := by
    rintro rfl
    rw [hu.storage] at hentry
    cases hentry
  have hparent : entry.parent ≠ some new := hu.parent _ _ hentry
  have hbefore : s.chain p = l := chain_eq (by rw [hentry, Option.bind_some]; exact hrest)
  have hafter : s'.chain p = l := chain_eq (by
    rw [h.storage p hp, hentry, Option.bind_some]
    exact h.ancestors hu hparent hrest)
  have hwalk : s'.walk k l = s.walk k l := by
    refine walk_congr (fun id hid => ?_)
    have hstored : id ∈ s.storage.keys := ancestors_stored hrest hid
    have hnew : id ≠ new := by
      rintro rfl
      exact Dict.get?_eq_none.mp hu.storage hstored
    have hother : some id ≠ some p := by
      intro he
      rw [Option.some.inj he] at hid
      exact (List.nodup_cons.mp hnodup).1 hid
    exact ⟨hblobs id hnew, h.rows id hnew hother⟩
  rw [InMemorySaver.readDelta, InMemorySaver.readDelta, hblobs p hp, hbefore, hafter]
  cases s.blobAt k p with
  | some b => rfl
  | none =>
    simp only
    rw [rebuilt, rebuilt, hwalk]

theorem Files.rebuilt {p : String} (h : s.Files s' new (some p)) (hu : s.Unused new)
    (hl : s.Ancestors (some p) (p :: l)) (hb : d.Batching)
    (hblobs : ∀ id, id ≠ new → s'.blobAt k id = s.blobAt k id)
    (hread : s.readDelta d k p = .ok c) :
    s'.rebuilt d k (s'.chain new) = c.replayWrites (s'.leftRows k p) := by
  have hstored : p ∈ s.storage.keys := ancestors_stored hl List.mem_cons_self
  have hp : some p ≠ some new := by
    intro he
    rw [Option.some.inj he] at hstored
    exact Dict.get?_eq_none.mp hu.storage hstored
  have hp' : s'.chain p = l := by
    obtain ⟨-, entry, hentry, hrest⟩ := hl
    refine chain_eq ?_
    rw [h.storage p (fun he => hp (congrArg some he)), hentry, Option.bind_some]
    exact h.ancestors hu (hu.parent _ _ hentry) hrest
  rw [h.chain hu hp hl, ← hp']
  exact rebuilt_cons hb ((h.readDelta hu hl hblobs).trans hread)

end InMemorySaver

end LangGraph
