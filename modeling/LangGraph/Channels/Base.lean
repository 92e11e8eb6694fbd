import LangGraph.Value

namespace LangGraph

inductive UpdateError where
  | onlyOneValue (key : String)
  | ephemeralGuard (key : String)
  | untrackedGuard (key : String)
  | onlyOneOverwrite
  | notInNames (key : String) (value : Value) (names : Finset Value)
  | raised (exc : Nat)
  deriving DecidableEq

def createErrorMessage (message errorCode : String) : String :=
  message ++ "\nFor troubleshooting, visit: https://docs.langchain.com/oss/python/langgraph/errors/"
    ++ errorCode

def invalidConcurrentGraphUpdate : String := "INVALID_CONCURRENT_GRAPH_UPDATE"

def UpdateError.message (showValue : Value → String) (showNames : Finset Value → String)
    (showExc : Nat → String) : UpdateError → String
  | .onlyOneValue key => createErrorMessage
      ("At key '" ++ key ++ "': Can receive only one value per step. Use an Annotated key to handle multiple values.")
      invalidConcurrentGraphUpdate
  | .ephemeralGuard key =>
      "At key '" ++ key ++ "': EphemeralValue(guard=True) can receive only one value per step. Use guard=False if you want to store any one of multiple values."
  | .untrackedGuard key =>
      "At key '" ++ key ++ "': UntrackedValue(guard=True) can receive only one value per step. Use guard=False if you want to store any one of multiple values."
  | .onlyOneOverwrite => createErrorMessage "Can receive only one Overwrite value per super-step."
      invalidConcurrentGraphUpdate
  | .notInNames key value names =>
      "At key '" ++ key ++ "': Value " ++ showValue value ++ " not in " ++ showNames names
  | .raised exc => showExc exc

inductive Blob where
  | value (v : Value)
  | finished (v : Value) (done : Bool)
  | values (vs : List Value)
  | legacyValues (vs : List Value)
  | seen (s : Finset Value)
  | seenFinished (s : Finset Value) (done : Bool)
  | deltaSnapshot (v : Value)
  deriving DecidableEq

inductive ChannelKind where
  | lastValue | lastValueAfterFinish | anyValue | ephemeralValue | untrackedValue | topic
  | namedBarrierValue | namedBarrierValueAfterFinish | binaryOperatorAggregate | deltaChannel
  deriving DecidableEq, Repr

-- An operation may raise after it has changed the channel, so it returns the channel either way.
class BaseChannel (C : Type) where
  kind : C → ChannelKind
  checkpoint : C → Option Blob
  fromCheckpoint : C → Option Blob → C
  get : C → Option Value
  isAvailable : C → Bool
  update : C → List Value → C × Except UpdateError Bool
  consume : C → C × Bool
  finish : C → C × Bool
  snapshotFrequency : C → Nat
  replayWrites : C → List Value → Except UpdateError C

end LangGraph
