import LangGraph.Channels.Shared
import LangGraph.Pregel.Checkpoint
import LangGraph.Transition.Run

namespace LangGraph

open Collections Transition

-- A checkpoint whose put has not run: what `create_checkpoint` was handed, and the values that the
-- channels had at that moment.
structure QueuedCheckpoint where
  values : Dict String SharedBlob
  live : Dict String Blob

structure StoredCheckpoint where
  values : Dict String Blob
  live : Dict String Blob

structure BackgroundSaves where
  heap : Heap
  channels : Dict String SharedChannel
  queue : List QueuedCheckpoint
  stored : List StoredCheckpoint

-- `saved` are the channels whose values the saver serialises.
inductive SaveEvent where
  | update (chan : String) (values : List Value)
  | consume (chan : String)
  | finish (chan : String)
  | createCheckpoint (saved snapshot : Finset String)
  | put

def SharedChannel.share (i : Nat) : Channel → SharedChannel
  | .topic c => .topic c.accumulate i
  | .namedBarrierValue c => .namedBarrierValue c.key c.names i
  | .namedBarrierValueAfterFinish c => .namedBarrierValueAfterFinish c.key c.names i c.finished
  | .lastValue c => .plain (.lastValue c) rfl
  | .lastValueAfterFinish c => .plain (.lastValueAfterFinish c) rfl
  | .anyValue c => .plain (.anyValue c) rfl
  | .ephemeralValue c => .plain (.ephemeralValue c) rfl
  | .untrackedValue c => .plain (.untrackedValue c) rfl
  | .binaryOperatorAggregate c => .plain (.binaryOperatorAggregate c) rfl
  | .deltaChannel c => .plain (.deltaChannel c) rfl

def Channel.ownList : Channel → List Value
  | .topic c => c.values
  | _ => []

def Channel.ownSet : Channel → Finset Value
  | .namedBarrierValue c => c.seen
  | .namedBarrierValueAfterFinish c => c.seen
  | _ => ∅

def SharedChannel.value (h : Heap) (snapshot : Finset String) (k : String) (c : SharedChannel) :
    Option SharedBlob :=
  if k ∈ snapshot then (c.load h).get.map (fun v => .blob (.deltaSnapshot v)) else c.checkpoint

namespace QueuedCheckpoint

def serialise (h : Heap) (q : QueuedCheckpoint) : Dict String Blob :=
  q.values.mapValues (SharedBlob.serialise h)

def Holds (q : QueuedCheckpoint) (a : Address) : Prop :=
  ∃ k b, q.values.get? k = some b ∧ b.address? = some a

end QueuedCheckpoint

namespace BackgroundSaves

def begin (channels : Dict String Channel) : BackgroundSaves where
  heap := ⟨channels.values.map Channel.ownList, channels.values.map Channel.ownSet⟩
  channels :=
    { items := channels.items.zipIdx.map (fun p => (p.1.1, SharedChannel.share p.2 p.1.2))
      nodup := by
        have hkeys : (channels.items.zipIdx.map
            (fun p => (p.1.1, SharedChannel.share p.2 p.1.2))).map Prod.fst =
            (channels.items.zipIdx.map Prod.fst).map Prod.fst := by
          rw [List.map_map, List.map_map]
          rfl
        rw [hkeys, List.zipIdx_map_fst]
        exact channels.nodup }
  queue := []
  stored := []

def loads (s : BackgroundSaves) : Dict String Channel :=
  s.channels.mapValues (SharedChannel.load s.heap)

def setChannel (chan : String) (h : Heap) (c : SharedChannel) (s : BackgroundSaves) :
    BackgroundSaves :=
  { s with heap := h, channels := s.channels.set chan c }

def queued (saved snapshot : Finset String) (s : BackgroundSaves) : QueuedCheckpoint where
  values := s.channels.filterMap (fun k c =>
    if k ∈ saved then c.value s.heap snapshot k else none)
  live := s.loads.filterMap (fun k c => if k ∈ saved then checkpointValue snapshot k c else none)

-- The loop changes its channels and queues checkpoints, the executor runs the puts in order.
def step (s : BackgroundSaves) : SaveEvent → BackgroundSaves
  | .update chan values =>
      match s.channels.get? chan with
      | none => s
      | some c => s.setChannel chan (c.update values s.heap).1 (c.update values s.heap).2.1
  | .consume chan =>
      match s.channels.get? chan with
      | none => s
      | some c => s.setChannel chan (c.consume s.heap).1 (c.consume s.heap).2.1
  | .finish chan =>
      match s.channels.get? chan with
      | none => s
      | some c => s.setChannel chan s.heap (c.finish s.heap).1
  | .createCheckpoint saved snapshot =>
      { s with queue := s.queue ++ [s.queued saved snapshot] }
  | .put =>
      match s.queue with
      | [] => s
      | q :: queue =>
          { s with queue := queue, stored := s.stored ++ [⟨q.serialise s.heap, q.live⟩] }

-- The same run on channels that hold their values.
def valueStep (channels : Dict String Channel) : SaveEvent → Dict String Channel
  | .update chan values =>
      match channels.get? chan with
      | none => channels
      | some c => channels.set chan (c.update values).1
  | .consume chan =>
      match channels.get? chan with
      | none => channels
      | some c => channels.set chan c.consume.1
  | .finish chan =>
      match channels.get? chan with
      | none => channels
      | some c => channels.set chan c.finish.1
  | .createCheckpoint _ _ | .put => channels

-- Every stored checkpoint has the values of its own moment, and so has every queued one if its put
-- runs now.
def Good (s : BackgroundSaves) : Prop :=
  (∀ q ∈ s.queue, q.serialise s.heap = q.live) ∧ ∀ c ∈ s.stored, c.values = c.live

-- No update writes something new in place into a container that a queued checkpoint holds.
def Ok (s : BackgroundSaves) : SaveEvent → Prop
  | .update chan values => ∀ c, s.channels.get? chan = some c → c.Grows values s.heap →
      ∀ a, c.address? = some a → ∀ q ∈ s.queue, ¬ q.Holds a
  | _ => True

structure Inv (s : BackgroundSaves) : Prop where
  valid (k : String) (c : SharedChannel) : s.channels.get? k = some c → c.Valid s.heap
  apart (k k' : String) (c c' : SharedChannel) (a : Address) : s.channels.get? k = some c →
    s.channels.get? k' = some c' → c.address? = some a → c'.address? = some a → k = k'
  held (q : QueuedCheckpoint) : q ∈ s.queue → ∀ a, q.Holds a → s.heap.Holds a

end BackgroundSaves

namespace QueuedCheckpoint

variable {h h' : Heap} {q : QueuedCheckpoint}

theorem serialise_congr (hq : ∀ a, q.Holds a → Heap.Same h h' a) :
    q.serialise h' = q.serialise h := by
  refine Dict.ext_get? ?_ (fun k => ?_)
  · rw [serialise, serialise, Dict.keys_mapValues, Dict.keys_mapValues]
  · rw [serialise, serialise, Dict.get?_mapValues, Dict.get?_mapValues]
    refine Option.map_congr (fun b hb => ?_)
    exact SharedBlob.serialise_congr (fun a ha => hq a ⟨k, b, hb, ha⟩)

theorem serialise_ne {a : Address} (ha : q.Holds a) (hne : ¬ Heap.Same h h' a) :
    q.serialise h' ≠ q.serialise h := by
  obtain ⟨k, b, hb, hba⟩ := ha
  intro heq
  have hk : (q.serialise h').get? k = (q.serialise h).get? k := by rw [heq]
  rw [serialise, serialise, Dict.get?_mapValues, Dict.get?_mapValues, hb] at hk
  exact SharedBlob.serialise_ne hba hne (Option.some.inj hk)

end QueuedCheckpoint

namespace SharedChannel

variable {h : Heap} {snapshot : Finset String} {k : String} {c : SharedChannel}

theorem serialise_value (h : Heap) (snapshot : Finset String) (k : String) (c : SharedChannel) :
    (c.value h snapshot k).map (SharedBlob.serialise h) =
      checkpointValue snapshot k (c.load h) := by
  rw [value, checkpointValue]
  split_ifs
  · cases hv : (c.load h).get with
    | none => exact (congrArg (Option.map Blob.deltaSnapshot) hv).symm
    | some v => exact (congrArg (Option.map Blob.deltaSnapshot) hv).symm
  · exact c.serialise_checkpoint h

theorem address?_value {b : SharedBlob} {a : Address} (hb : c.value h snapshot k = some b)
    (ha : b.address? = some a) : c.address? = some a := by
  rw [value] at hb
  split_ifs at hb
  · obtain ⟨v, -, rfl⟩ := Option.map_eq_some_iff.mp hb
    cases ha
  · rw [← address?_checkpoint hb, ha]

end SharedChannel

namespace BackgroundSaves

variable {s : BackgroundSaves}

theorem serialise_queued (s : BackgroundSaves) (saved snapshot : Finset String) :
    (s.queued saved snapshot).serialise s.heap = (s.queued saved snapshot).live := by
  have hvalue (k : String) (c : SharedChannel) :
      (if k ∈ saved then c.value s.heap snapshot k else none).map (SharedBlob.serialise s.heap) =
        if k ∈ saved then checkpointValue snapshot k (c.load s.heap) else none := by
    split_ifs
    · exact c.serialise_value s.heap snapshot k
    · rfl
  rw [QueuedCheckpoint.serialise]
  exact Dict.mapValues_filterMap (SharedChannel.load s.heap)
    (fun k c => if k ∈ saved then checkpointValue snapshot k c else none) hvalue s.channels

theorem channel_of_holds_queued {saved snapshot : Finset String} {a : Address}
    (ha : (s.queued saved snapshot).Holds a) :
    ∃ k c, s.channels.get? k = some c ∧ c.address? = some a := by
  obtain ⟨k, b, hb, hba⟩ := ha
  rw [queued, Dict.get?_filterMap] at hb
  obtain ⟨c, hc, hcb⟩ := Option.bind_eq_some_iff.mp hb
  split_ifs at hcb
  exact ⟨k, c, hc, SharedChannel.address?_value hcb hba⟩

theorem good_setChannel {chan : String} {h : Heap} {c : SharedChannel} (hg : s.Good) :
    (s.setChannel chan h c).Good ↔ ∀ q ∈ s.queue, q.serialise h = q.serialise s.heap := by
  constructor
  · intro hg' q hq
    exact (hg'.1 q hq).trans (hg.1 q hq).symm
  · intro hsame
    exact ⟨fun q hq => (hsame q hq).trans (hg.1 q hq), hg.2⟩

theorem good_step_iff (hi : s.Inv) (hg : s.Good) (e : SaveEvent) :
    (s.step e).Good ↔ s.Ok e := by
  cases e with
  | update chan values =>
    cases hc : s.channels.get? chan with
    | none =>
      have hstep : s.step (.update chan values) = s := by rw [step, hc]
      rw [hstep]
      exact iff_of_true hg (fun c hc' => by simp [hc] at hc')
    | some c =>
      have hstep : s.step (.update chan values) =
          s.setChannel chan (c.update values s.heap).1 (c.update values s.heap).2.1 := by
        rw [step, hc]
      rw [hstep, good_setChannel hg]
      constructor
      · intro hsame c' hc' hgrows a ha q hq hqa
        obtain rfl := Option.some.inj (hc.symm.trans hc')
        have hheld : s.heap.Holds a := hi.held q hq a hqa
        have hne := SharedChannel.not_same_update ha hheld hgrows
        exact QueuedCheckpoint.serialise_ne hqa hne (hsame q hq)
      · intro hok q hq
        refine QueuedCheckpoint.serialise_congr (fun a hqa => ?_)
        refine SharedChannel.same_update (hi.valid chan c hc) (hi.held q hq a hqa) ?_
        intro ha hgrows
        exact hok c hc hgrows a ha q hq hqa
  | consume chan =>
    cases hc : s.channels.get? chan with
    | none =>
      have hstep : s.step (.consume chan) = s := by rw [step, hc]
      rw [hstep]
      exact iff_of_true hg trivial
    | some c =>
      have hstep : s.step (.consume chan) =
          s.setChannel chan (c.consume s.heap).1 (c.consume s.heap).2.1 := by
        rw [step, hc]
      have hsame := (SharedChannel.renews_consume (hi.valid chan c hc)).2
      rw [hstep, good_setChannel hg]
      refine iff_of_true (fun q _ => ?_) trivial
      exact QueuedCheckpoint.serialise_congr (fun a _ => hsame a)
  | finish chan =>
    cases hc : s.channels.get? chan with
    | none =>
      have hstep : s.step (.finish chan) = s := by rw [step, hc]
      rw [hstep]
      exact iff_of_true hg trivial
    | some c =>
      have hstep : s.step (.finish chan) =
          s.setChannel chan s.heap (c.finish s.heap).1 := by
        rw [step, hc]
      rw [hstep, good_setChannel hg]
      exact iff_of_true (fun _ _ => rfl) trivial
  | createCheckpoint saved snapshot =>
    refine iff_of_true ⟨fun q hq => ?_, hg.2⟩ trivial
    rcases List.mem_append.mp hq with hold | hnew
    · exact hg.1 q hold
    · obtain rfl := List.mem_singleton.mp hnew
      exact s.serialise_queued saved snapshot
  | put =>
    refine iff_of_true ?_ trivial
    rw [step]
    cases hqueue : s.queue with
    | nil => exact hg
    | cons q queue =>
      have hall : ∀ q' ∈ q :: queue, q'.serialise s.heap = q'.live := by
        rw [← hqueue]
        exact hg.1
      refine ⟨fun q' hq' => hall q' (List.mem_cons_of_mem q hq'), fun c hc => ?_⟩
      rcases List.mem_append.mp hc with hold | hnew
      · exact hg.2 c hold
      · obtain rfl := List.mem_singleton.mp hnew
        exact hall q List.mem_cons_self

theorem Inv.setChannel (hi : s.Inv) {chan : String} {h : Heap} {c c' : SharedChannel}
    (hc : s.channels.get? chan = some c) (hr : SharedChannel.Renews s.heap h c c') :
    (s.setChannel chan h c').Inv where
  valid k d hk a ha := by
    rw [BackgroundSaves.setChannel, Dict.get?_set] at hk
    split_ifs at hk
    · obtain rfl := Option.some.inj hk
      exact (hr.address a ha).2
    · exact hr.holds a (hi.valid k d hk a ha)
  apart k k' d d' a hk hk' ha ha' := by
    have hother {j : String} {e : SharedChannel} (hj : s.channels.get? j = some e)
        (he : e.address? = some a) (hnew : c'.address? = some a) : chan = j := by
      rcases (hr.address a hnew).1 with hold | hfresh
      · exact hi.apart chan j c e a hc hj hold he
      · exact absurd (hi.valid j e hj a he) hfresh
    rw [BackgroundSaves.setChannel, Dict.get?_set] at hk hk'
    split_ifs at hk hk' with hkc hkc' hkc'
    · rw [hkc, hkc']
    · obtain rfl := Option.some.inj hk
      exact hkc.trans (hother hk' ha' ha)
    · obtain rfl := Option.some.inj hk'
      exact (hother hk ha ha').symm.trans hkc'.symm
    · exact hi.apart k k' d d' a hk hk' ha ha'
  held q hq a ha := hr.holds a (hi.held q hq a ha)

theorem Inv.step (hi : s.Inv) (e : SaveEvent) : (s.step e).Inv := by
  cases e with
  | update chan values =>
    rw [BackgroundSaves.step]
    cases hc : s.channels.get? chan with
    | none => exact hi
    | some c => exact hi.setChannel hc (SharedChannel.renews_update (hi.valid chan c hc) values)
  | consume chan =>
    rw [BackgroundSaves.step]
    cases hc : s.channels.get? chan with
    | none => exact hi
    | some c => exact hi.setChannel hc (SharedChannel.renews_consume (hi.valid chan c hc)).1
  | finish chan =>
    rw [BackgroundSaves.step]
    cases hc : s.channels.get? chan with
    | none => exact hi
    | some c =>
      refine hi.setChannel hc ⟨fun _ => id, fun a ha => ?_⟩
      rw [SharedChannel.address?_finish] at ha
      exact ⟨.inl ha, hi.valid chan c hc a ha⟩
  | createCheckpoint saved snapshot =>
    refine ⟨hi.valid, hi.apart, fun q hq a ha => ?_⟩
    rcases List.mem_append.mp hq with hold | hnew
    · exact hi.held q hold a ha
    · obtain rfl := List.mem_singleton.mp hnew
      obtain ⟨k, c, hc, hca⟩ := channel_of_holds_queued ha
      exact hi.valid k c hc a hca
  | put =>
    rw [BackgroundSaves.step]
    cases hqueue : s.queue with
    | nil => exact hi
    | cons q queue =>
      refine ⟨hi.valid, hi.apart, fun q' hq' => hi.held q' ?_⟩
      rw [hqueue]
      exact List.mem_cons_of_mem q hq'

theorem load_share {h : Heap} {i : Nat} {ch : Channel} (hl : h.list i = ch.ownList)
    (hs : h.set i = ch.ownSet) : (SharedChannel.share i ch).load h = ch := by
  cases ch with
  | topic c => exact congrArg (fun vs => Channel.topic ⟨c.accumulate, vs⟩) hl
  | namedBarrierValue c =>
    exact congrArg (fun seen => Channel.namedBarrierValue ⟨c.key, c.names, seen⟩) hs
  | namedBarrierValueAfterFinish c =>
    exact congrArg
      (fun seen => Channel.namedBarrierValueAfterFinish ⟨c.key, c.names, seen, c.finished⟩) hs
  | _ => rfl

theorem address?_share {i : Nat} {ch : Channel} {a : Address}
    (ha : (SharedChannel.share i ch).address? = some a) : a = .list i ∨ a = .set i := by
  cases ch with
  | topic c => exact .inl (Option.some.inj ha).symm
  | namedBarrierValue c => exact .inr (Option.some.inj ha).symm
  | namedBarrierValueAfterFinish c => exact .inr (Option.some.inj ha).symm
  | _ => cases ha

theorem get?_begin {channels : Dict String Channel} {k : String} {c : SharedChannel}
    (hc : (begin channels).channels.get? k = some c) :
    ∃ i ch, channels.items[i]? = some (k, ch) ∧ SharedChannel.share i ch = c := by
  obtain ⟨⟨⟨k', ch⟩, i⟩, hmem, heq⟩ := List.mem_map.mp (Dict.get?_eq_some.mp hc)
  obtain ⟨rfl, rfl⟩ := Prod.mk.inj heq
  exact ⟨i, ch, List.mk_mem_zipIdx_iff_getElem?.mp hmem, rfl⟩

theorem inv_begin (channels : Dict String Channel) : (begin channels).Inv where
  valid k c hc a ha := by
    obtain ⟨i, ch, hi, rfl⟩ := get?_begin hc
    have hlt : i < channels.items.length := (List.getElem?_eq_some_iff.mp hi).1
    rcases address?_share ha with rfl | rfl
    · simpa [begin, Heap.Holds, Dict.values] using hlt
    · simpa [begin, Heap.Holds, Dict.values] using hlt
  apart k k' c c' a hc hc' ha ha' := by
    obtain ⟨i, ch, hi, rfl⟩ := get?_begin hc
    obtain ⟨j, ch', hj, rfl⟩ := get?_begin hc'
    have hij : i = j := by
      rcases address?_share ha with rfl | rfl <;> rcases address?_share ha' with heq | heq <;>
        cases heq <;> rfl
    rw [hij, hj] at hi
    exact (Prod.mk.inj (Option.some.inj hi)).1.symm
  held q hq := by cases hq

theorem good_begin (channels : Dict String Channel) : (begin channels).Good :=
  ⟨fun _ hq => absurd hq List.not_mem_nil, fun _ hc => absurd hc List.not_mem_nil⟩

theorem loads_begin (channels : Dict String Channel) : (begin channels).loads = channels := by
  refine Dict.ext_items ?_
  have hload : ∀ p ∈ channels.items.zipIdx,
      (p.1.1, (SharedChannel.share p.2 p.1.2).load (begin channels).heap) = p.1 := by
    rintro ⟨⟨k, ch⟩, i⟩ hp
    have hi : channels.items[i]? = some (k, ch) := List.mk_mem_zipIdx_iff_getElem?.mp hp
    have hl : (begin channels).heap.list i = ch.ownList := by
      simp [begin, Heap.list, Dict.values, hi]
    have hs : (begin channels).heap.set i = ch.ownSet := by
      simp [begin, Heap.set, Dict.values, hi]
    exact congrArg (Prod.mk k) (load_share hl hs)
  calc (begin channels).loads.items
      = channels.items.zipIdx.map
          (fun p => (p.1.1, (SharedChannel.share p.2 p.1.2).load (begin channels).heap)) := by
        simp only [loads, Dict.mapValues, begin, List.map_map, Function.comp_def]
    _ = channels.items.zipIdx.map Prod.fst := List.map_congr_left hload
    _ = channels.items := List.zipIdx_map_fst 0 channels.items

theorem loads_setChannel {chan : String} {h : Heap} {c : SharedChannel}
    (hsame : ∀ k d a, k ≠ chan → s.channels.get? k = some d → d.address? = some a →
      Heap.Same s.heap h a) (hmem : chan ∈ s.channels.keys) :
    (s.setChannel chan h c).loads = s.loads.set chan (c.load h) := by
  have hkeys : chan ∈ s.loads.keys := by rwa [loads, Dict.keys_mapValues]
  refine Dict.ext_get? ?_ (fun k => ?_)
  · rw [Dict.keys_set_of_mem hkeys, loads, loads, Dict.keys_mapValues, Dict.keys_mapValues,
      setChannel, Dict.keys_set_of_mem hmem]
  · rw [loads, Dict.get?_mapValues, setChannel, Dict.get?_set, Dict.get?_set, loads,
      Dict.get?_mapValues]
    split_ifs with hk
    · rfl
    · exact Option.map_congr (fun d hd =>
        SharedChannel.load_congr (fun a ha => hsame k d a hk hd ha))

theorem loads_step (hi : s.Inv) (e : SaveEvent) : (s.step e).loads = valueStep s.loads e := by
  have hget (chan : String) : s.loads.get? chan = (s.channels.get? chan).map (·.load s.heap) :=
    Dict.get?_mapValues _ _ _
  have hmem {chan : String} {c : SharedChannel} (hc : s.channels.get? chan = some c) :
      chan ∈ s.channels.keys := Dict.mem_keys.mpr ⟨c, hc⟩
  cases e with
  | update chan values =>
    cases hc : s.channels.get? chan with
    | none => simp only [step, valueStep, hget, hc, Option.map_none]
    | some c =>
      simp only [step, valueStep, hget, hc, Option.map_some]
      rw [loads_setChannel (fun k d a hk hd ha => ?_) (hmem hc),
        (SharedChannel.load_update (hi.valid chan c hc) values).1]
      refine SharedChannel.same_update (hi.valid chan c hc) (hi.valid k d hd a ha) ?_
      exact fun hca => absurd (hi.apart k chan d c a hd hc ha hca) hk
  | consume chan =>
    cases hc : s.channels.get? chan with
    | none => simp only [step, valueStep, hget, hc, Option.map_none]
    | some c =>
      simp only [step, valueStep, hget, hc, Option.map_some]
      rw [loads_setChannel (fun k d a _ _ _ => ?_) (hmem hc),
        (SharedChannel.load_consume s.heap c).1]
      exact (SharedChannel.renews_consume (hi.valid chan c hc)).2 a
  | finish chan =>
    cases hc : s.channels.get? chan with
    | none => simp only [step, valueStep, hget, hc, Option.map_none]
    | some c =>
      simp only [step, valueStep, hget, hc, Option.map_some]
      rw [loads_setChannel (fun k d a _ _ _ => Heap.same_refl s.heap a) (hmem hc),
        (SharedChannel.load_finish s.heap c).1]
  | createCheckpoint saved snapshot => rfl
  | put =>
    rw [step]
    cases s.queue <;> rfl

theorem loads_run (channels : Dict String Channel) (events : List SaveEvent) :
    (run step (begin channels) events).loads = run valueStep channels events := by
  have hrun (s : BackgroundSaves) (hi : s.Inv) :
      (run step s events).loads = run valueStep s.loads events := by
    induction events generalizing s with
    | nil => rfl
    | cons e events ih =>
      rw [run_cons, run_cons, ← loads_step hi e]
      exact ih (s.step e) (hi.step e)
  rw [hrun (begin channels) (inv_begin channels), loads_begin]

theorem saves_own_step_iff (channels : Dict String Channel) (events : List SaveEvent) :
    Always step Good (begin channels) events ↔ EachStep step Ok (begin channels) events :=
  always_iff_eachStep (fun _ e hi hg => good_step_iff hi hg e) (fun _ e hi _ _ => hi.step e)
    events (inv_begin channels) (good_begin channels)

def joinBarrier : Dict String Channel :=
  Dict.ofList [("join", .namedBarrierValue ⟨"join", {.str "a", .str "b"}, ∅⟩)]

theorem late_put_stores_next_step :
    let s := run step (begin joinBarrier)
      [.update "join" [.str "a"], .createCheckpoint {"join"} ∅, .update "join" [.str "b"], .put]
    s.stored.map (fun c => (c.values.get? "join", c.live.get? "join")) =
        [(some (.seen {.str "b", .str "a"}), some (.seen {.str "a"}))] ∧ ¬ s.Good := by
  have hstored : (run step (begin joinBarrier)
      [.update "join" [.str "a"], .createCheckpoint {"join"} ∅, .update "join" [.str "b"],
        .put]).stored.map (fun c => (c.values.get? "join", c.live.get? "join")) =
      [(some (.seen {.str "b", .str "a"}), some (.seen {.str "a"}))] := by
    rfl
  refine ⟨hstored, fun hg => ?_⟩
  obtain ⟨c, hc, heq⟩ := List.mem_map.mp (hstored ▸ List.mem_singleton.mpr rfl)
  rw [hg.2 c hc] at heq
  obtain ⟨hvalues, hlive⟩ := Prod.mk.inj heq
  exact absurd (hvalues.symm.trans hlive) (by decide)

end BackgroundSaves

end LangGraph
