import LangGraph.Collections.Exceptions
import LangGraph.Collections.Tombstones
import LangGraph.Value
import Mathlib.Data.Finset.Basic

namespace LangGraph

open Collections Tombstones

-- `remove` marks a `RemoveMessage`, `chunk` a `BaseMessageChunk`.
structure Message where
  id : Option String
  remove : Bool
  chunk : Bool
  body : Value
  deriving DecidableEq

inductive MessageLike where
  | typed (m : Message)
  | raw (v : Value)

inductive Messages where
  | many (ms : List MessageLike)
  | one (m : MessageLike)

inductive MessageError where
  | conversion (v : Value)
  | noId (v : Value)
  | value (message : String)
  deriving DecidableEq

-- What comes from the message classes: coercion, chunks, fresh ids and the output format.
structure MessageTypes where
  convert : Value → Except MessageError Message
  ofChunk : Message → Message
  uuid4 : Nat → String
  formatMessages : List Message → List Message

namespace MessageTypes

variable (env : MessageTypes)

def convertToMessage : MessageLike → Except MessageError Message
  | .typed m => .ok m
  | .raw v => env.convert v

def convertToMessages (ms : List MessageLike) : Except MessageError (List Message) :=
  ms.mapM env.convertToMessage

def messageChunkToMessage (m : Message) : Message := if m.chunk then env.ofChunk m else m

end MessageTypes

def removeAllMessages : String := "__remove_all__"

section Delta

structure DeltaMerge where
  result : List (Option Message)
  index : Dict String Nat

namespace DeltaMerge

def start (state : List Message) : DeltaMerge := ⟨state.map some, indexOf Message.id state⟩

def step (s : DeltaMerge) (msg : Message) : DeltaMerge :=
  match msg.id with
  | none => { s with result := s.result ++ [some msg] }
  | some mid =>
      if msg.remove then
        match s.index.get? mid with
        | some i => ⟨s.result.set i none, s.index.erase mid⟩
        | none => s
      else
        match s.index.get? mid with
        | some i => { s with result := s.result.set i (some msg) }
        | none => ⟨s.result ++ [some msg], s.index.set mid s.result.length⟩

end DeltaMerge

def mergeDelta (state msgs : List Message) : List Message :=
  live (msgs.foldl DeltaMerge.step (DeltaMerge.start state)).result

def flatWrites (writes : List Messages) : List MessageLike :=
  writes.flatMap (fun w => match w with
    | .many ms => ms
    | .one m => [m])

def typedOrNoId : MessageLike → Except MessageError Message
  | .typed m => .ok m
  | .raw v => .error (.noId v)

-- `_messages_delta_reducer`: the state is only coerced when its first element is not a message.
def messagesDeltaReducer (env : MessageTypes) (state : List MessageLike)
    (writes : List Messages) : Except MessageError (List Message) := do
  let stateMsgs ←
    match state with
    | .typed m :: rest => .ok (.typed m :: rest)
    | state => (env.convertToMessages state).map (List.map .typed)
  let msgs ← env.convertToMessages (flatWrites writes)
  let stateMsgs ← stateMsgs.mapM typedOrNoId
  .ok (mergeDelta stateMsgs msgs)

end Delta

section Add

structure AddMerge where
  merged : List Message
  mergedById : Dict String Nat
  idsToRemove : Finset String

namespace AddMerge

def start (left : List Message) : AddMerge := ⟨left, indexOf Message.id left, ∅⟩

-- Every message has an id here.
def step (s : AddMerge) (m : Message) : Except MessageError AddMerge :=
  match m.id with
  | none => .ok { s with merged := s.merged ++ [m] }
  | some mid =>
      match s.mergedById.get? mid with
      | some existing =>
          if m.remove then .ok { s with idsToRemove := insert mid s.idsToRemove }
          else
            .ok { s with
              merged := s.merged.set existing m
              idsToRemove := s.idsToRemove.erase mid }
      | none =>
          if m.remove then
            .error (.value
              s!"Attempting to delete a message with an ID that doesn't exist ('{mid}')")
          else
            .ok { s with
              merged := s.merged ++ [m]
              mergedById := s.mergedById.set mid s.merged.length }

def keeps (s : AddMerge) (m : Message) : Bool :=
  match m.id with
  | none => true
  | some mid => mid ∉ s.idsToRemove

def result (s : AddMerge) : List Message := s.merged.filter s.keeps

end AddMerge

def coerceToList : Messages → List MessageLike
  | .many ms => ms
  | .one m => [m]

-- The messages that have no id take the next ones.
def assignIds (uuid4 : Nat → String) : Nat → List Message → List Message × Nat
  | n, [] => ([], n)
  | n, m :: ms =>
      match m.id with
      | some _ => (m :: (assignIds uuid4 n ms).1, (assignIds uuid4 n ms).2)
      | none =>
          ({ m with id := some (uuid4 n) } :: (assignIds uuid4 (n + 1) ms).1,
            (assignIds uuid4 (n + 1) ms).2)

def removesAll (m : Message) : Bool := m.remove && m.id = some removeAllMessages

-- What follows the last message that removes all, if there is one.
def afterRemoveAll : List Message → Option (List Message)
  | [] => none
  | m :: ms =>
      match afterRemoveAll ms with
      | some rest => some rest
      | none => if removesAll m then some ms else none

def addMessages (env : MessageTypes) (left right : Messages) (format : Option String) :
    Except MessageError (List Message) := do
  let left ← env.convertToMessages (coerceToList left)
  let right ← env.convertToMessages (coerceToList right)
  let (left, n) := assignIds env.uuid4 0 (left.map env.messageChunkToMessage)
  let (right, _) := assignIds env.uuid4 n (right.map env.messageChunkToMessage)
  match afterRemoveAll right with
  | some rest => .ok rest
  | none =>
      let s ← right.foldlM AddMerge.step (AddMerge.start left)
      match format with
      | none => .ok s.result
      | some f =>
          if f = "langchain-openai" then .ok (env.formatMessages s.result)
          else if f = "" then .ok s.result
          else .error (.value
            s!"Unrecognized format='{f}'. Expected one of 'langchain-openai', None.")

end Add

end LangGraph
