import LangGraph.Checkpoint.Base
import Mathlib.Data.List.Sort
import Mathlib.Data.Prod.Lex
import Mathlib.Data.String.Basic

namespace LangGraph

open Collections

-- The stored tuple repeats the task id of its key, which is left out here.
structure SavedWrite where
  channel : String
  value : Value
  taskPath : String
  deriving DecidableEq

def SavedWrite.write (w : SavedWrite) : Write := (w.channel, w.value)

abbrev WriteKey := String × Int

abbrev WriteRows := Dict WriteKey SavedWrite

structure SavedCheckpoint (Ver : Type) where
  checkpoint : Checkpoint Ver
  metadata : CheckpointMetadata
  parent : Option String

structure CheckpointTuple (Ver : Type) where
  checkpoint : Checkpoint Ver
  metadata : CheckpointMetadata
  parent : Option String
  pendingWrites : List PendingWrite

structure DeltaChannelHistory where
  writes : List PendingWrite
  seed : Option Blob
  deriving DecidableEq

-- The tables of one thread and namespace. A blob entry `none` is the marker `("empty", b"")`.
structure InMemorySaver (Ver : Type) where
  storage : Dict String (SavedCheckpoint Ver)
  writes : Dict String WriteRows
  blobs : Dict (String × Ver) (Option Blob)

def writeKey (taskId channel : String) (idx : Nat) : WriteKey :=
  (taskId, (writesIdxMap channel).getD idx)

-- An ordinary row already in the table is kept, a special one is replaced.
def WriteRows.put (taskId taskPath : String) : Nat → List Write → WriteRows → WriteRows
  | _, [], rows => rows
  | idx, (c, v) :: ws, rows =>
      let key := writeKey taskId c idx
      if 0 ≤ key.2 ∧ key ∈ rows.keys then put taskId taskPath (idx + 1) ws rows
      else put taskId taskPath (idx + 1) ws (rows.set key ⟨c, v, taskPath⟩)

def pendingRow (e : WriteKey × SavedWrite) : PendingWrite := ⟨e.1.1, e.2.channel, e.2.value⟩

def WriteRows.pending (rows : WriteRows) : List PendingWrite := rows.items.map pendingRow

def keyLe (a b : WriteKey) : Prop := a.1 < b.1 ∨ a.1 = b.1 ∧ a.2 ≤ b.2

instance : DecidableRel keyLe := fun _ _ => inferInstanceAs (Decidable (_ ∨ _))

def WriteRows.sorted (rows : WriteRows) : List (WriteKey × SavedWrite) :=
  rows.items.insertionSort (fun a b => keyLe a.1 b.1)

def WriteRows.replayed (rows : WriteRows) (channel : String) : List PendingWrite :=
  (rows.sorted.filter (fun r => r.2.channel = channel)).map pendingRow

-- A stored `None` is passed over like a snapshot.
def Blob.subsumesWrites : Blob → Bool
  | .deltaSnapshot _ => false
  | .value v => v ≠ Value.none
  | _ => true

namespace InMemorySaver

section Tables

variable {Ver : Type}

def empty : InMemorySaver Ver := ⟨∅, ∅, ∅⟩

def rows (s : InMemorySaver Ver) (checkpointId : String) : WriteRows := s.writes.getD checkpointId ∅

def putWrites (s : InMemorySaver Ver) (checkpointId : String) (writes : List Write)
    (taskId taskPath : String) : InMemorySaver Ver :=
  match writes with
  | [] => s
  | _ =>
      { s with
        writes := s.writes.set checkpointId
          (WriteRows.put taskId taskPath 0 writes (s.rows checkpointId)) }

def parents (s : InMemorySaver Ver) : Nat → Option String → List String
  | 0, _ | _, none => []
  | fuel + 1, some id =>
      match s.storage.get? id with
      | none => []
      | some entry => id :: parents s fuel entry.parent

def chain (s : InMemorySaver Ver) (checkpointId : String) : List String :=
  s.parents s.storage.items.length ((s.storage.get? checkpointId).bind SavedCheckpoint.parent)

end Tables

section Blobs

variable {Ver : Type} [DecidableEq Ver]

def putBlobs (values : Dict String Blob) (newVersions : ChannelVersions Ver)
    (blobs : Dict (String × Ver) (Option Blob)) : Dict (String × Ver) (Option Blob) :=
  newVersions.items.foldl (fun b e => b.set (e.1, e.2) (values.get? e.1)) blobs

def put (s : InMemorySaver Ver) (parent : Option String) (checkpoint : Checkpoint Ver)
    (metadata : CheckpointMetadata) (newVersions : ChannelVersions Ver) : InMemorySaver Ver :=
  { s with
    blobs := putBlobs checkpoint.channelValues newVersions s.blobs
    storage := s.storage.set checkpoint.id
      ⟨{ checkpoint with channelValues := ∅ }, metadata, parent⟩ }

def loadBlobs (s : InMemorySaver Ver) (versions : ChannelVersions Ver) : Dict String Blob :=
  versions.filterMap (fun k ver => (s.blobs.get? (k, ver)).join)

def tuple (s : InMemorySaver Ver) (checkpointId : String) (saved : SavedCheckpoint Ver) :
    CheckpointTuple Ver :=
  ⟨{ saved.checkpoint with
      channelValues := s.loadBlobs saved.checkpoint.channelVersions },
    saved.metadata, saved.parent, (s.rows checkpointId).pending⟩

def latest (s : InMemorySaver Ver) : Option String := s.storage.keys.max?

def getTuple (s : InMemorySaver Ver) (checkpointId : Option String) :
    Option (CheckpointTuple Ver) := do
  let id ← checkpointId.or s.latest
  let saved ← s.storage.get? id
  return s.tuple id saved

def blobAt (s : InMemorySaver Ver) (channel checkpointId : String) : Option Blob := do
  let saved ← s.storage.get? checkpointId
  let ver ← saved.checkpoint.channelVersions.get? channel
  (s.blobs.get? (channel, ver)).join

-- Every channel stops at its own nearest stored blob, so each is walked by itself.
def walk (s : InMemorySaver Ver) (channel : String) : List String → DeltaChannelHistory
  | [] => ⟨[], none⟩
  | id :: older =>
      match s.blobAt channel id with
      | some b =>
          ⟨if b.subsumesWrites then [] else (s.rows id).replayed channel, some b⟩
      | none =>
          let h := walk s channel older
          ⟨h.writes ++ (s.rows id).replayed channel, h.seed⟩

def getDeltaChannelHistory (s : InMemorySaver Ver) (checkpointId channel : String) :
    DeltaChannelHistory :=
  s.walk channel (s.chain checkpointId)

end Blobs

end InMemorySaver

end LangGraph
