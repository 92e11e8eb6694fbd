import LangGraph.Checkpoint.Base
import LangGraph.Collections.Sweep
import Mathlib.Data.Finset.Sort
import Mathlib.Data.List.Sort
import Mathlib.Data.String.Basic

namespace LangGraph

open Collections

inductive PathPart where
  | str (s : String)
  | int (n : Nat)
  | bool (b : Bool)
  | tuple (parts : List PathPart)

def pad (width n : Nat) : String :=
  let digits := toString n
  String.ofList (List.replicate (width - digits.length) '0') ++ digits

mutual

def taskPathStr : PathPart → String
  | .str s => s
  | .int n => pad 10 n
  | .bool b => pad 10 b.toNat
  | .tuple parts => "~" ++ ", ".intercalate (taskPathStrs parts)

def taskPathStrs : List PathPart → List String
  | [] => []
  | p :: ps => taskPathStr p :: taskPathStrs ps

end

structure PregelTaskWrites where
  path : List PathPart
  name : String
  writes : List Write
  triggers : List String

def PregelTaskWrites.sortKey (t : PregelTaskWrites) : String :=
  taskPathStr (.tuple (t.path.take 3))

def sortTasks (tasks : List PregelTaskWrites) : List PregelTaskWrites :=
  tasks.insertionSort (fun a b => a.sortKey ≤ b.sortKey)

def ignoredWrites : List String :=
  [Key.noWrites, Key.push, Key.resume, Key.interrupt, Key.returned, Key.error, Key.errorSourceNode]

section ApplyWrites

variable {C Ver : Type} [BaseChannel C] [LinearOrder Ver]

structure ApplyState (C Ver : Type) where
  versions : ChannelVersions Ver
  channels : Dict String C
  updated : Finset String

-- The boolean given to an operation says whether the channel is already in `updated_channels`.
abbrev ChannelOp (C : Type) := String → Bool → C → C × Except UpdateError Bool

namespace ChannelOp

def consume : ChannelOp C := fun _ _ c =>
  let r := BaseChannel.consume c
  (r.1, .ok r.2)

def update (pending : Dict String (List Value)) : ChannelOp C := fun chan _ c =>
  BaseChannel.update c (pending.getD chan [])

def updateEmpty : ChannelOp C := fun _ updated c =>
  if BaseChannel.isAvailable c && !updated then BaseChannel.update c [] else (c, .ok false)

def finish : ChannelOp C := fun _ _ c =>
  let r := BaseChannel.finish c
  (r.1, .ok r.2)

end ChannelOp

namespace ApplyState

def touch (next : Option Ver) (mark : Bool) (op : ChannelOp C) (chan : String)
    (s : ApplyState C Ver) : ApplyState C Ver × Option UpdateError :=
  match s.channels.get? chan with
  | none => (s, none)
  | some c =>
      let r := op chan (decide (chan ∈ s.updated)) c
      let channels := s.channels.set chan r.1
      match r.2, next with
      | .error e, _ => ({ s with channels := channels }, some e)
      | .ok true, some v =>
          ({ versions := s.versions.set chan v
             channels := channels
             updated :=
               if mark && BaseChannel.isAvailable r.1 then insert chan s.updated
               else s.updated }, none)
      | .ok _, _ => ({ s with channels := channels }, none)

end ApplyState

def seeVersions (versions : ChannelVersions Ver)
    (versionsSeen : Dict String (ChannelVersions Ver)) (t : PregelTaskWrites) :
    Dict String (ChannelVersions Ver) :=
  versionsSeen.set t.name
    ((versionsSeen.getD t.name ∅).update
      (t.triggers.filterMap (fun chan => (versions.get? chan).map (fun v => (chan, v)))))

def consumedChannels (channels : Dict String C) (tasks : List PregelTaskWrites) : List String :=
  ((tasks.flatMap PregelTaskWrites.triggers).filter
    (fun chan => chan ∉ reserved ∧ chan ∈ channels.keys)).dedup

def groupWrites (channels : Dict String C) (writes : List Write) : Dict String (List Value) :=
  writes.foldl
    (fun pending w =>
      if w.1 ∈ ignoredWrites then pending
      else if w.1 ∈ channels.keys then pending.set w.1 (pending.getD w.1 [] ++ [w.2])
      else pending) ∅

def finishPhase (next : Option Ver) (triggerToNodes : Dict String (List String))
    (s : ApplyState C Ver) : ApplyState C Ver × Option UpdateError :=
  if ∃ chan ∈ s.updated, chan ∈ triggerToNodes.keys then (s, none)
  else sweep (ApplyState.touch next true .finish) s.channels.keys s

def bumpPhases (next : Option Ver) (triggerToNodes : Dict String (List String))
    (s : ApplyState C Ver) : ApplyState C Ver × Option UpdateError :=
  andThen (sweep (ApplyState.touch next true .updateEmpty) s.channels.keys s)
    (finishPhase next triggerToNodes)

def updatePhases (next : Option Ver) (triggerToNodes : Dict String (List String))
    (pending : Dict String (List Value)) (bumpStep : Bool) (s : ApplyState C Ver) :
    ApplyState C Ver × Option UpdateError :=
  andThen (sweep (ApplyState.touch next true (.update pending)) pending.keys s)
    (fun s => if bumpStep then bumpPhases next triggerToNodes s else (s, none))

def bumpStep (tasks : List PregelTaskWrites) : Bool := tasks.any (fun t => !t.triggers.isEmpty)

def pendingWritesByChannel (channels : Dict String C) (tasks : List PregelTaskWrites) :
    Dict String (List Value) :=
  groupWrites channels (tasks.flatMap PregelTaskWrites.writes)

def applyChannels (channels : Dict String C) (versions : ChannelVersions Ver)
    (next : Option Ver) (tasks : List PregelTaskWrites)
    (triggerToNodes : Dict String (List String)) : ApplyState C Ver × Option UpdateError :=
  andThen (sweep (ApplyState.touch next false .consume) (consumedChannels channels tasks)
      ⟨versions, channels, ∅⟩)
    (updatePhases next triggerToNodes (pendingWritesByChannel channels tasks) (bumpStep tasks))

def applyWrites (checkpoint : Checkpoint Ver) (channels : Dict String C)
    (tasks : List PregelTaskWrites) (getNextVersion : Option (GetNextVersion Ver))
    (triggerToNodes : Dict String (List String)) :
    Checkpoint Ver × Dict String C × Except UpdateError (Finset String) :=
  let tasks := sortTasks tasks
  let versionsSeen :=
    tasks.foldl (seeVersions checkpoint.channelVersions) checkpoint.versionsSeen
  let next := getNextVersion.map (fun g => g (maxVersion checkpoint.channelVersions))
  let r := applyChannels channels checkpoint.channelVersions next tasks triggerToNodes
  ({ checkpoint with channelVersions := r.1.versions, versionsSeen := versionsSeen },
    r.1.channels,
    match r.2 with
    | some e => .error e
    | none => .ok r.1.updated)

end ApplyWrites

example : taskPathStr (.tuple [.str "__pregel_push", .int 3]) = "~__pregel_push, 0000000003" := by
  decide

end LangGraph
