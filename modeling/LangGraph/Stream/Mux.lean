import Mathlib.Data.List.Basic

namespace LangGraph

namespace Stream

-- `own` records that a transformer closed or failed its channel itself.
structure StreamChannel (ε : Type) where
  closed : Bool
  error : Option ε
  own : Bool

structure StreamTransformer where
  finalized : Nat
  failed : Nat

structure StreamMux (ε : Type) where
  events : StreamChannel ε
  channels : List (StreamChannel ε)
  transformers : List StreamTransformer

inductive CursorEnd (ε : Type) where
  | asks
  | raises (e : ε)
  | returns

variable {ε : Type}

namespace StreamChannel

def init : StreamChannel ε := ⟨false, none, false⟩

def close (ch : StreamChannel ε) : StreamChannel ε := { ch with closed := true }

def fail (e : ε) (ch : StreamChannel ε) : StreamChannel ε :=
  { ch with error := some e, closed := true }

def settle (err : Option ε) (ch : StreamChannel ε) : StreamChannel ε :=
  match err with
  | none => { ch.close with own := true }
  | some e => { ch.fail e with own := true }

-- A cursor with nothing buffered; `refused` is the pump's answer False.
def atEnd (refused : Bool) (ch : StreamChannel ε) : CursorEnd ε :=
  if ch.closed then
    match ch.error with
    | some e => .raises e
    | none => .returns
  else if refused then .returns else .asks

end StreamChannel

def StreamTransformer.finalize (t : StreamTransformer) : StreamTransformer :=
  { t with finalized := t.finalized + 1 }

def StreamTransformer.fail (t : StreamTransformer) : StreamTransformer :=
  { t with failed := t.failed + 1 }

namespace StreamMux

def init (channels transformers : Nat) : StreamMux ε :=
  ⟨.init, List.replicate channels .init, List.replicate transformers ⟨0, 0⟩⟩

def closeChannels (m : StreamMux ε) : StreamMux ε :=
  { m with
    channels := m.channels.map (fun ch => if ch.closed then ch else ch.close)
    events := m.events.close }

def failChannels (e : ε) (m : StreamMux ε) : StreamMux ε :=
  { m with
    channels := m.channels.map (fun ch => if ch.closed then ch else ch.fail e)
    events := m.events.fail e }

def afailChannels (e : ε) (m : StreamMux ε) : StreamMux ε :=
  { m with
    channels := m.channels.map (fun ch => if ch.closed then ch else ch.fail e)
    events := if m.events.closed then m.events else m.events.fail e }

def settle (i : Nat) (err : Option ε) (m : StreamMux ε) : StreamMux ε :=
  { m with channels := m.channels.modify i (StreamChannel.settle err) }

def firstError (finals : Nat → Option ε) (m : StreamMux ε) : Option ε :=
  (List.range m.transformers.length).findSome? finals

-- `finals` gives the error each transformer's `finalize` raises.
def close (finals : Nat → Option ε) (m : StreamMux ε) : StreamMux ε × Option ε :=
  ({ m with transformers := m.transformers.map StreamTransformer.finalize }.closeChannels,
    m.firstError finals)

def fail (e : ε) (m : StreamMux ε) : StreamMux ε :=
  { m with transformers := m.transformers.map StreamTransformer.fail }.failChannels e

def finalizeAt (k : Nat) (m : StreamMux ε) : StreamMux ε :=
  { m with transformers := m.transformers.modify k StreamTransformer.finalize }

def failAt (k : Nat) (m : StreamMux ε) : StreamMux ε :=
  { m with transformers := m.transformers.modify k StreamTransformer.fail }

end StreamMux

-- What pulling and pushing one part comes to; only an `Exception` fails the run.
inductive Pull (ε : Type) where
  | part
  | stop
  | raised (e : ε) (exception : Bool)

-- `reported` records that the pump said the run is exhausted, `raised` an error that left
-- `close` or `aclose`.
structure GraphRunStream (ε : Type) where
  mux : StreamMux ε
  exhausted : Bool
  reported : Bool
  raised : Option ε

inductive RunEvent (ε : Type) where
  | pump (pull : Pull ε) (finals : Nat → Option ε)
  | settle (i : Nat) (err : Option ε)

namespace GraphRunStream

def init (channels transformers : Nat) : GraphRunStream ε :=
  ⟨.init channels transformers, false, false, none⟩

def finishClose (s : GraphRunStream ε) : StreamMux ε × Option ε → GraphRunStream ε
  | (mux, none) => { s with mux := mux, exhausted := true, reported := true }
  | (mux, some e) => { s with mux := mux, raised := some e }

def pumpNext (pull : Pull ε) (finals : Nat → Option ε) (s : GraphRunStream ε) :
    GraphRunStream ε :=
  if s.exhausted then { s with reported := true }
  else
    match pull with
    | .part => s
    | .stop => s.finishClose (s.mux.close finals)
    | .raised e true => { s with mux := s.mux.fail e, exhausted := true, reported := true }
    | .raised _ false => s

def step (s : GraphRunStream ε) : RunEvent ε → GraphRunStream ε
  | .pump pull finals => s.pumpNext pull finals
  | .settle i err => { s with mux := s.mux.settle i err }

end GraphRunStream

inductive PumpPhase (ε : Type) where
  | idle
  | pulling
  | joining
  | finalizing (k : Nat) (first : Option ε)
  | cancelling (e : ε)
  | failing (k : Nat) (e : ε)

def PumpPhase.isIdle : PumpPhase ε → Bool
  | .idle => true
  | _ => false

structure AsyncGraphRunStream (ε : Type) where
  mux : StreamMux ε
  exhausted : Bool
  phase : PumpPhase ε
  pending : Nat
  waiting : Nat
  woken : Nat
  reported : Bool
  raised : Option ε

inductive AsyncRunEvent (ε : Type) where
  | ask
  | wake
  | pulled (pull : Pull ε)
  | joined (err : Option ε)
  | finalized (err : Option ε)
  | cancelled
  | failed
  | schedule
  | taskDone
  | settle (i : Nat) (err : Option ε)

namespace AsyncGraphRunStream

def init (channels transformers : Nat) : AsyncGraphRunStream ε :=
  ⟨.init channels transformers, false, .idle, 0, 0, 0, false, none⟩

-- The `finally` block of a pump step.
def release (s : AsyncGraphRunStream ε) : AsyncGraphRunStream ε :=
  { s with phase := .idle, woken := s.woken + s.waiting, waiting := 0 }

def finishClose (s : AsyncGraphRunStream ε) : Option ε → AsyncGraphRunStream ε
  | none => { s with mux := s.mux.closeChannels, reported := true }.release
  | some e => { s with mux := s.mux.closeChannels, raised := some e }.release

def finalizeFrom (k : Nat) (first : Option ε) (s : AsyncGraphRunStream ε) :
    AsyncGraphRunStream ε :=
  if k < s.mux.transformers.length then { s with phase := .finalizing k first }
  else s.finishClose first

def failFrom (k : Nat) (e : ε) (s : AsyncGraphRunStream ε) : AsyncGraphRunStream ε :=
  if k < s.mux.transformers.length then { s with phase := .failing k e }
  else { s with mux := s.mux.afailChannels e, reported := true }.release

def ask (s : AsyncGraphRunStream ε) : AsyncGraphRunStream ε :=
  if s.exhausted then { s with reported := true }
  else if s.phase.isIdle then { s with phase := .pulling }
  else { s with waiting := s.waiting + 1 }

def wake (s : AsyncGraphRunStream ε) : AsyncGraphRunStream ε :=
  if 0 < s.woken then
    { s with woken := s.woken - 1, reported := s.reported || s.exhausted }
  else s

def aclose (s : AsyncGraphRunStream ε) : AsyncGraphRunStream ε :=
  if 0 < s.pending then { s with phase := .joining } else s.finalizeFrom 0 none

def afail (e : ε) (s : AsyncGraphRunStream ε) : AsyncGraphRunStream ε :=
  if 0 < s.pending then { s with phase := .cancelling e } else s.failFrom 0 e

def pulled (pull : Pull ε) (s : AsyncGraphRunStream ε) : AsyncGraphRunStream ε :=
  match s.phase, pull with
  | .pulling, .part => s.release
  | .pulling, .stop => { s with exhausted := true }.aclose
  | .pulling, .raised e true => { s with exhausted := true }.afail e
  | .pulling, .raised _ false => s.release
  | _, _ => s

def joined (err : Option ε) (s : AsyncGraphRunStream ε) : AsyncGraphRunStream ε :=
  match s.phase, err with
  | .joining, none => { s with pending := 0 }.finalizeFrom 0 none
  | .joining, some e => { s with pending := 0, raised := some e }.release
  | _, _ => s

def finalized (err : Option ε) (s : AsyncGraphRunStream ε) : AsyncGraphRunStream ε :=
  match s.phase with
  | .finalizing k first => { s with mux := s.mux.finalizeAt k }.finalizeFrom (k + 1) (first.or err)
  | _ => s

def cancelled (s : AsyncGraphRunStream ε) : AsyncGraphRunStream ε :=
  match s.phase with
  | .cancelling e => { s with pending := 0 }.failFrom 0 e
  | _ => s

def failed (s : AsyncGraphRunStream ε) : AsyncGraphRunStream ε :=
  match s.phase with
  | .failing k e => { s with mux := s.mux.failAt k }.failFrom (k + 1) e
  | _ => s

def step (s : AsyncGraphRunStream ε) : AsyncRunEvent ε → AsyncGraphRunStream ε
  | .ask => s.ask
  | .wake => s.wake
  | .pulled pull => s.pulled pull
  | .joined err => s.joined err
  | .finalized err => s.finalized err
  | .cancelled => s.cancelled
  | .failed => s.failed
  | .schedule => { s with pending := s.pending + 1 }
  | .taskDone => { s with pending := s.pending - 1 }
  | .settle i err => { s with mux := s.mux.settle i err }

end AsyncGraphRunStream

end Stream

end LangGraph
