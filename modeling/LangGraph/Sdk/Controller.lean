import LangGraph.Sdk.Subscription
import LangGraph.Transition.Run

namespace LangGraph

open Transition

namespace Sdk

structure LogEvent where
  event : ProtocolEvent
  eventId : Nat
  seq : Nat

structure ServerLog where
  events : List LogEvent
  distinct : (events.map LogEvent.eventId).Nodup
  increasing : events.Pairwise (fun x y => x.seq < y.seq)

def past (since : Option Nat) (seq : Nat) : Bool :=
  match since with
  | none => true
  | some since => since < seq

inductive StreamStatus where
  | connecting
  | ready
  | ended
  | dropped
  | closed
  deriving DecidableEq

structure StreamHandle where
  filter : SubscribeParams
  last : Option Nat
  status : StreamStatus

structure Subscription where
  id : Nat
  params : SubscribeParams
  start : Option Nat
  queue : List (Option LogEvent)
  received : List LogEvent
  ended : Bool
  cut : Bool

inductive FanoutPhase where
  | idle
  | consuming (handle : Nat)
  | awaiting (handle : Nat)
  | reconnecting (base : SubscribeParams) (attempt : Nat) (opened : Option Nat)

structure Opening where
  sub : Nat
  handle : Nat
  old : Option Nat

-- `received`, `ended`, `cut` and `consumed` only record what happened.
structure StreamController where
  handles : List StreamHandle
  sharedStream : Option Nat
  sharedStreamFilter : Option SubscribeParams
  fanout : FanoutPhase
  openings : List Opening
  rotationCloseTasks : List Nat
  subscriptions : List Subscription
  nextSubscriptionId : Nat
  seenEventIds : List Nat
  consumed : List Nat
  cursor : Option Nat

structure ControllerConfig where
  log : ServerLog
  maxQueueSize : Nat
  seenEventIdsMax : Nat
  maxReconnectAttempts : Nat

inductive ControllerEvent where
  | subscribe (params : SubscribeParams)
  | unsubscribe (id : Nat)
  | ready (handle : Nat)
  | fail (handle : Nat)
  | drop (handle : Nat)
  | serverEnd (handle : Nat)
  | closed (handle : Nat)
  | read
  | exhausted
  | resolve
  | retry
  | get (id : Nat)
  | observe (seq : Nat)

def StreamStatus.alive : StreamStatus → Bool
  | .connecting | .ready => true
  | _ => false

def StreamHandle.remaining (log : ServerLog) (h : StreamHandle) : List LogEvent :=
  log.events.filter (fun x => past h.last x.seq && matchesSubscription x.event h.filter)

def Subscription.wants (u : Subscription) (x : LogEvent) : Bool :=
  matchesSubscription x.event u.params

def Subscription.expected (log : ServerLog) (u : Subscription) : List LogEvent :=
  log.events.filter (fun x => past u.start x.seq && u.wants x)

def Subscription.delivered (u : Subscription) : List LogEvent :=
  u.received.filter (fun x => past u.start x.seq)

def Subscription.missing (log : ServerLog) (u : Subscription) (x : LogEvent) : Prop :=
  x ∈ u.expected log ∧ x ∉ u.received

def addSeen (max : Nat) (seen : List Nat) (eventId : Nat) : List Nat :=
  let seen := seen ++ [eventId]
  if max < seen.length then seen.tail else seen

namespace StreamController

def init : StreamController := ⟨[], none, none, .idle, [], [], [], 1, [], [], none⟩

def observeSeq (seq : Nat) (s : StreamController) : StreamController :=
  { s with cursor := if past s.cursor seq then some seq else s.cursor }

def setStatus (i : Nat) (status : StreamStatus) (s : StreamController) : StreamController :=
  { s with handles := s.handles.modify i (fun h => { h with status := status }) }

def closeHandle (i : Nat) (s : StreamController) : StreamController :=
  { s with handles := s.handles.modify i (fun h =>
      if h.status.alive then { h with status := .closed } else h) }

def statusOf (s : StreamController) (i : Nat) : Option StreamStatus :=
  s.handles[i]?.map StreamHandle.status

def sharedAlive (s : StreamController) : Bool :=
  match s.sharedStream with
  | none => false
  | some i => ((s.statusOf i).map StreamStatus.alive).getD false

def openEventStream (filter : SubscribeParams) (s : StreamController) : StreamController :=
  { s with handles := s.handles ++ [⟨filter, s.cursor, .connecting⟩] }

def ensureFanoutRunning (s : StreamController) : StreamController :=
  match s.fanout, s.sharedStream with
  | .idle, some i => { s with fanout := .consuming i }
  | _, _ => s

def unregister (id : Nat) (s : StreamController) : StreamController :=
  { s with subscriptions := s.subscriptions.filter (fun u => u.id ≠ id) }

def covered (s : StreamController) (params : SubscribeParams) : Bool :=
  match s.sharedStream, s.sharedStreamFilter with
  | some _, some filter => filterCovers filter params
  | _, _ => false

def register (params : SubscribeParams) (s : StreamController) : StreamController :=
  { s with
    subscriptions := s.subscriptions ++
      [⟨s.nextSubscriptionId, params, s.cursor, [], [], false, false⟩]
    nextSubscriptionId := s.nextSubscriptionId + 1 }

def currentUnion (s : StreamController) (extra : SubscribeParams) : SubscribeParams :=
  computeUnionFilter (s.subscriptions.map Subscription.params ++ [extra])

-- `_reconcile_stream` up to the point where it awaits `ready`.
def rotate (id : Nat) (params : SubscribeParams) (s : StreamController) : StreamController :=
  let newFilter := s.currentUnion params
  { s.openEventStream newFilter with
    sharedStream := some s.handles.length
    sharedStreamFilter := some newFilter
    openings := s.openings ++ [⟨id, s.handles.length, s.sharedStream⟩] }

def subscribe (params : SubscribeParams) (s : StreamController) : StreamController :=
  if s.covered params then (s.register params).ensureFanoutRunning
  else (s.register params).rotate s.nextSubscriptionId params

def closeAfter (o : Opening) (s : StreamController) : StreamController :=
  match o.old with
  | none => s
  | some old => { s with rotationCloseTasks := s.rotationCloseTasks ++ [old] }

def closed (i : Nat) (s : StreamController) : StreamController :=
  if i ∈ s.rotationCloseTasks then
    { s.closeHandle i with
      rotationCloseTasks := s.rotationCloseTasks.filter (fun j => j ≠ i) }
  else s

def readyRotation (i : Nat) (s : StreamController) : StreamController :=
  match s.openings.find? (fun o => o.handle = i) with
  | none => s
  | some o =>
      ({ s with openings := s.openings.filter (fun o => o.handle ≠ i) }.closeAfter
        o).ensureFanoutRunning

def readyReconnect (i : Nat) (s : StreamController) : StreamController :=
  match s.fanout with
  | .reconnecting _ _ (some opened) =>
      if opened = i then { s with sharedStream := some i, fanout := .consuming i } else s
  | _ => s

def ready (i : Nat) (s : StreamController) : StreamController :=
  if s.statusOf i = some .connecting then ((s.readyReconnect i).setStatus i .ready).readyRotation i
  else s

def failRotation (i : Nat) (s : StreamController) : StreamController :=
  match s.openings.find? (fun o => o.handle = i) with
  | none => s
  | some o => { s with openings := s.openings.filter (fun o => o.handle ≠ i) }.unregister o.sub

def failReconnect (i : Nat) (s : StreamController) : StreamController :=
  match s.fanout with
  | .reconnecting base attempt (some opened) =>
      if opened = i then { s with fanout := .reconnecting base (attempt + 1) none } else s
  | _ => s

def fail (i : Nat) (s : StreamController) : StreamController :=
  if s.statusOf i = some .connecting ∨ s.statusOf i = some .closed then
    ((s.failRotation i).setStatus i .dropped).failReconnect i
  else s

section Queues

variable (cfg : ControllerConfig)

def full (u : Subscription) : Bool :=
  decide (0 < cfg.maxQueueSize) && decide (cfg.maxQueueSize ≤ u.queue.length)

-- `put_nowait` in the order of the registry; a full queue raises and stops the loop.
def putAll (picked : Subscription → Bool) (put : Subscription → Subscription) :
    List Subscription → List Subscription × Bool
  | [] => ([], false)
  | u :: rest =>
      if picked u then
        if full cfg u then (u :: rest, true)
        else (put u :: (putAll picked put rest).1, (putAll picked put rest).2)
      else (u :: (putAll picked put rest).1, (putAll picked put rest).2)

def deliverEvent (x : LogEvent) (u : Subscription) : Subscription :=
  { u with queue := u.queue ++ [some x], received := u.received ++ [x] }

def deliverEnd (alive : Bool) (u : Subscription) : Subscription :=
  { u with queue := u.queue ++ [none], ended := true, cut := u.cut || alive }

def leaveHandle (i : Nat) (s : StreamController) : StreamController :=
  if s.sharedStream = some i then { s with fanout := .awaiting i }
  else
    match s.sharedStream with
    | some j => { s with fanout := .consuming j }
    | none => { s with fanout := .idle }

def consume (i : Nat) (x : LogEvent) (s : StreamController) : StreamController :=
  let s := { s with handles := s.handles.modify i (fun h => { h with last := some x.seq }) }
  if x.eventId ∈ s.seenEventIds then s
  else
    let s := { s with
      seenEventIds := addSeen cfg.seenEventIdsMax s.seenEventIds x.eventId
      consumed := s.consumed ++ [x.eventId] }
    let s := s.observeSeq x.seq
    let put := putAll cfg (fun u => u.wants x) (deliverEvent x) s.subscriptions
    if put.2 then { s with subscriptions := put.1 }.leaveHandle i
    else { s with subscriptions := put.1 }

def nextEvent (s : StreamController) : Option (Nat × StreamHandle × LogEvent) :=
  match s.fanout with
  | .consuming i =>
      match s.handles[i]? with
      | some h =>
          if h.status = .ready then (h.remaining cfg.log).head?.map (fun x => (i, h, x)) else none
      | none => none
  | _ => none

def read (s : StreamController) : StreamController :=
  match s.nextEvent cfg with
  | some (i, _, x) => s.consume cfg i x
  | none => s

def exhausted (s : StreamController) : StreamController :=
  match s.fanout with
  | .consuming i =>
      if ((s.statusOf i).map StreamStatus.alive).getD true then s else s.leaveHandle i
  | _ => s

def terminate (s : StreamController) : StreamController :=
  { s with
    subscriptions := (putAll cfg (fun _ => true) (deliverEnd s.sharedAlive) s.subscriptions).1
    fanout := .idle }

def attempt (base : SubscribeParams) (n : Nat) (s : StreamController) : StreamController :=
  if n < cfg.maxReconnectAttempts then
    { s.openEventStream base with fanout := .reconnecting base n (some s.handles.length) }
  else s.terminate cfg

def closeShared (s : StreamController) : StreamController :=
  match s.sharedStream with
  | none => s
  | some i => s.closeHandle i

def resolve (s : StreamController) : StreamController :=
  match s.fanout with
  | .awaiting i =>
      match s.statusOf i with
      | some .dropped =>
          match s.sharedStreamFilter with
          | some base => s.closeShared.attempt cfg base 0
          | none => s.closeShared.terminate cfg
      | some .ended | some .closed => s.terminate cfg
      | _ => s
  | _ => s

def retry (s : StreamController) : StreamController :=
  match s.fanout with
  | .reconnecting base n none => s.attempt cfg base n
  | _ => s

def get (id : Nat) (s : StreamController) : StreamController :=
  if id ∈ s.openings.map Opening.sub then s
  else
    match s.subscriptions.find? (fun u => u.id = id) with
    | none => s
    | some u =>
        match u.queue with
        | [] => s
        | none :: _ => s.unregister id
        | some _ :: rest => { s with
            subscriptions := s.subscriptions.map (fun v =>
              if v.id = id then { v with queue := rest } else v) }

def unsubscribe (id : Nat) (s : StreamController) : StreamController :=
  { s with openings := s.openings.filter (fun o => o.sub ≠ id) }.unregister id

def fromReady (i : Nat) (status : StreamStatus) (s : StreamController) : StreamController :=
  if s.statusOf i = some .ready then s.setStatus i status else s

def step (s : StreamController) : ControllerEvent → StreamController
  | .subscribe params => s.subscribe params
  | .unsubscribe id => s.unsubscribe id
  | .ready i => s.ready i
  | .fail i => s.fail i
  | .drop i => s.fromReady i .dropped
  | .serverEnd i => s.fromReady i .ended
  | .closed i => s.closed i
  | .read => s.read cfg
  | .exhausted => s.exhausted
  | .resolve => s.resolve cfg
  | .retry => s.retry cfg
  | .get id => s.get id
  | .observe seq => s.observeSeq seq

end Queues

end StreamController

end Sdk

end LangGraph
