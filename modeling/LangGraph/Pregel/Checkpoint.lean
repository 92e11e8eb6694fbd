import LangGraph.Checkpoint.Memory
import LangGraph.Pregel.Algo

namespace LangGraph

open Collections

def deltaMaxSuperstepsSinceSnapshot : Nat := 5000

def exitDeltaTaskId (step : Int) (taskId : String) : String :=
  (if step < 0 then "-" ++ pad 7 step.natAbs else pad 8 step.natAbs) ++
    String.ofList (taskId.toList.drop 8)

abbrev Counters := Dict String (Nat × Nat)

variable {C Ver : Type} [BaseChannel C]

def isDelta (c : C) : Prop := BaseChannel.kind c = .deltaChannel

def isUntracked (c : C) : Prop := BaseChannel.kind c = .untrackedValue

instance (c : C) : Decidable (isDelta c) := inferInstanceAs (Decidable (_ = _))

instance (c : C) : Decidable (isUntracked c) := inferInstanceAs (Decidable (_ = _))

def deltaChannelsToSnapshot (channels : Dict String C) (counters : Counters) : Finset String :=
  ((channels.filter (fun name ch =>
    let n := counters.getD name (0, 0)
    decide (isDelta ch) && BaseChannel.isAvailable ch &&
      (decide (BaseChannel.snapshotFrequency ch ≤ n.1) ||
        decide (deltaMaxSuperstepsSinceSnapshot ≤ n.2)))).keys).toFinset

def bumpCounters (channels : Dict String C) (updated : Finset String) (prev : Counters) :
    Counters :=
  (channels.filter (fun _ ch => isDelta ch)).filterMap (fun name _ =>
    let n := prev.getD name (0, 0)
    some (if name ∈ updated then n.1 + 1 else n.1, n.2 + 1))

def resetCounters (snapshot : Finset String) (counters : Counters) : Counters :=
  (counters.filterMap (fun name n => some (if name ∈ snapshot then (0, 0) else n))).filter
    (fun _ n => n ≠ (0, 0))

def getUpdatedChannelsFromTasks (runTasks : List PregelTaskWrites) : Finset String :=
  ((runTasks.flatMap PregelTaskWrites.writes).map Prod.fst |>.filter (· ≠ Key.push)).toFinset

def getDeltaChannelsFromAllChannels (channels : Dict String C) : Finset String :=
  (channels.filter (fun _ ch => decide (isDelta ch) && BaseChannel.isAvailable ch)).keys.toFinset

def createCheckpointPlanForUpdateStateApi (channels : Dict String C) (updated : Finset String)
    (step : Int) (saved : Option CheckpointMetadata) : Finset String × CheckpointMetadata :=
  match saved with
  | none => (getDeltaChannelsFromAllChannels channels, ⟨"update", step, ∅⟩)
  | some saved =>
      let counters := bumpCounters channels updated saved.countersSinceDeltaSnapshot
      let snapshot := deltaChannelsToSnapshot channels counters
      (snapshot, ⟨"update", step, resetCounters snapshot counters⟩)

def snapshotVersions (channels : Dict String C) (updated : Option (Finset String))
    (getNextVersion : Option (GetNextVersion Ver)) (snapshot : Finset String)
    (versions : ChannelVersions Ver) : ChannelVersions Ver :=
  channels.keys.foldl
    (fun vs k =>
      match vs.get? k, getNextVersion with
      | some v, some next =>
          if k ∈ snapshot ∧ k ∉ updated.getD ∅ then vs.set k (next (some v)) else vs
      | _, _ => vs) versions

def checkpointValue (snapshot : Finset String) (k : String) (ch : C) : Option Blob :=
  if k ∈ snapshot then (BaseChannel.get ch).map .deltaSnapshot else BaseChannel.checkpoint ch

def checkpointValues (channels : Dict String C) (versions : ChannelVersions Ver)
    (snapshot : Finset String) : Dict String Blob :=
  channels.filterMap (fun k ch =>
    if k ∈ versions.keys then checkpointValue snapshot k ch else none)

def createCheckpoint (checkpoint : Checkpoint Ver) (channels : Option (Dict String C))
    (id : String) (updated : Option (Finset String)) (getNextVersion : Option (GetNextVersion Ver))
    (snapshot : Finset String) : Checkpoint Ver :=
  match channels with
  | none => { checkpoint with id := id, updatedChannels := updated }
  | some channels =>
      { checkpoint with
        id := id
        channelValues := checkpointValues channels checkpoint.channelVersions snapshot
        channelVersions :=
          snapshotVersions channels updated getNextVersion snapshot checkpoint.channelVersions
        updatedChannels := updated }

def getNewChannelVersions [LinearOrder Ver] [OrderBot Ver]
    (previous current : ChannelVersions Ver) : ChannelVersions Ver :=
  if previous.items = [] then current
  else current.filter (fun k v => decide (previous.getD k ⊥ < v))

section Hydrate

variable [DecidableEq Ver]

def needsReplay (spec : C) (stored : Option Blob) : Prop := isDelta spec ∧ stored = none

instance (spec : C) (stored : Option Blob) : Decidable (needsReplay spec stored) :=
  inferInstanceAs (Decidable (_ ∧ _))

def hydrate (spec : C) (saver : Option (InMemorySaver Ver)) (checkpointId k : String)
    (stored : Option Blob) : Except UpdateError C :=
  match saver with
  | some saver =>
      if needsReplay spec stored then
        let history := saver.getDeltaChannelHistory checkpointId k
        BaseChannel.replayWrites (BaseChannel.fromCheckpoint spec history.seed)
          (history.writes.map PendingWrite.value)
      else .ok (BaseChannel.fromCheckpoint spec stored)
  | none => .ok (BaseChannel.fromCheckpoint spec stored)

def traverse (f : String → C → Except UpdateError C) :
    List (String × C) → Except UpdateError (List (String × C))
  | [] => .ok []
  | (k, c) :: rest =>
      match f k c with
      | .error e => .error e
      | .ok c' => (traverse f rest).map (fun l => (k, c') :: l)

def channelsFromCheckpoint (specs : Dict String C) (saver : Option (InMemorySaver Ver))
    (checkpoint : Checkpoint Ver) : Except UpdateError (Dict String C) :=
  (traverse (fun k spec => hydrate spec saver checkpoint.id k (checkpoint.channelValues.get? k))
    specs.items).map Dict.ofList

end Hydrate

example : exitDeltaTaskId 12 "0a1b2c3d-1111-2222-3333-444455556666" =
    "00000012-1111-2222-3333-444455556666" := by decide

end LangGraph
