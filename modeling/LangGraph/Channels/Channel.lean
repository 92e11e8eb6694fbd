import LangGraph.Channels.Aggregates
import LangGraph.Channels.Containers
import LangGraph.Channels.Values

namespace LangGraph

inductive Channel where
  | lastValue (c : LastValue)
  | lastValueAfterFinish (c : LastValueAfterFinish)
  | anyValue (c : AnyValue)
  | ephemeralValue (c : EphemeralValue)
  | untrackedValue (c : UntrackedValue)
  | topic (c : Topic)
  | namedBarrierValue (c : NamedBarrierValue)
  | namedBarrierValueAfterFinish (c : NamedBarrierValueAfterFinish)
  | binaryOperatorAggregate (c : BinaryOperatorAggregate)
  | deltaChannel (c : DeltaChannel)

namespace Channel

def kind : Channel → ChannelKind
  | lastValue _ => .lastValue
  | lastValueAfterFinish _ => .lastValueAfterFinish
  | anyValue _ => .anyValue
  | ephemeralValue _ => .ephemeralValue
  | untrackedValue _ => .untrackedValue
  | topic _ => .topic
  | namedBarrierValue _ => .namedBarrierValue
  | namedBarrierValueAfterFinish _ => .namedBarrierValueAfterFinish
  | binaryOperatorAggregate _ => .binaryOperatorAggregate
  | deltaChannel _ => .deltaChannel

def checkpoint : Channel → Option Blob
  | lastValue c => c.checkpoint
  | lastValueAfterFinish c => c.checkpoint
  | anyValue c => c.checkpoint
  | ephemeralValue c => c.checkpoint
  | untrackedValue c => c.checkpoint
  | topic c => c.checkpoint
  | namedBarrierValue c => c.checkpoint
  | namedBarrierValueAfterFinish c => c.checkpoint
  | binaryOperatorAggregate c => c.checkpoint
  | deltaChannel _ => none

def fromCheckpoint (c : Channel) (b : Option Blob) : Channel :=
  match c with
  | lastValue c => lastValue (c.fromCheckpoint b)
  | lastValueAfterFinish c => lastValueAfterFinish (c.fromCheckpoint b)
  | anyValue _ => anyValue (AnyValue.fromCheckpoint b)
  | ephemeralValue c => ephemeralValue (c.fromCheckpoint b)
  | untrackedValue c => untrackedValue (c.fromCheckpoint b)
  | topic c => topic (c.fromCheckpoint b)
  | namedBarrierValue c => namedBarrierValue (c.fromCheckpoint b)
  | namedBarrierValueAfterFinish c => namedBarrierValueAfterFinish (c.fromCheckpoint b)
  | binaryOperatorAggregate c => binaryOperatorAggregate (c.fromCheckpoint b)
  | deltaChannel c => deltaChannel (c.fromCheckpoint b)

def get : Channel → Option Value
  | lastValue c => c.value
  | lastValueAfterFinish c => c.get
  | anyValue c => c.value
  | ephemeralValue c => c.value
  | untrackedValue c => c.value
  | topic c => c.get
  | namedBarrierValue c => c.get
  | namedBarrierValueAfterFinish c => c.get
  | binaryOperatorAggregate c => c.value
  | deltaChannel c => c.value

def isAvailable : Channel → Bool
  | lastValue c => c.value.isSome
  | lastValueAfterFinish c => c.isAvailable
  | anyValue c => c.value.isSome
  | ephemeralValue c => c.value.isSome
  | untrackedValue c => c.value.isSome
  | topic c => c.isAvailable
  | namedBarrierValue c => c.isAvailable
  | namedBarrierValueAfterFinish c => c.isAvailable
  | binaryOperatorAggregate c => c.value.isSome
  | deltaChannel c => c.value.isSome

def update (c : Channel) (values : List Value) : Channel × Except UpdateError Bool :=
  match c with
  | lastValue c => (c.update values).map lastValue id
  | lastValueAfterFinish c => (c.update values).map lastValueAfterFinish id
  | anyValue c => (c.update values).map anyValue id
  | ephemeralValue c => (c.update values).map ephemeralValue id
  | untrackedValue c => (c.update values).map untrackedValue id
  | topic c => (c.update values).map topic id
  | namedBarrierValue c => (c.update values).map namedBarrierValue id
  | namedBarrierValueAfterFinish c => (c.update values).map namedBarrierValueAfterFinish id
  | binaryOperatorAggregate c => (c.update values).map binaryOperatorAggregate id
  | deltaChannel c => (c.update values).map deltaChannel id

def consume : Channel → Channel × Bool
  | lastValueAfterFinish c => c.consume.map lastValueAfterFinish id
  | namedBarrierValue c => c.consume.map namedBarrierValue id
  | namedBarrierValueAfterFinish c => c.consume.map namedBarrierValueAfterFinish id
  | c => (c, false)

def finish : Channel → Channel × Bool
  | lastValueAfterFinish c => c.finish.map lastValueAfterFinish id
  | namedBarrierValueAfterFinish c => c.finish.map namedBarrierValueAfterFinish id
  | c => (c, false)

def snapshotFrequency : Channel → Nat
  | deltaChannel c => c.snapshotFrequency
  | _ => 0

def replayWrites (c : Channel) (values : List Value) : Except UpdateError Channel :=
  match c with
  | deltaChannel c => (c.replayWrites values).map deltaChannel
  | c => .ok c

instance : BaseChannel Channel where
  kind := kind
  checkpoint := checkpoint
  fromCheckpoint := fromCheckpoint
  get := get
  isAvailable := isAvailable
  update := update
  consume := consume
  finish := finish
  snapshotFrequency := snapshotFrequency
  replayWrites := replayWrites

end Channel

namespace Channel

theorem update_false {c : Channel} {vs : List Value} (h : (c.update vs).2 = .ok false) :
    (c.update vs).1 = c := by
  cases c with
  | lastValue c => exact congrArg lastValue (LastValue.update_false h)
  | lastValueAfterFinish c =>
    exact congrArg lastValueAfterFinish (LastValueAfterFinish.update_false h)
  | anyValue c => exact congrArg anyValue (AnyValue.update_false h)
  | ephemeralValue c => exact congrArg ephemeralValue (EphemeralValue.update_false h)
  | untrackedValue c => exact congrArg untrackedValue (UntrackedValue.update_false h)
  | topic c => exact congrArg topic (Topic.update_false h)
  | namedBarrierValue c => exact congrArg namedBarrierValue (NamedBarrierValue.update_false h)
  | namedBarrierValueAfterFinish c =>
    exact congrArg namedBarrierValueAfterFinish (NamedBarrierValueAfterFinish.update_false h)
  | binaryOperatorAggregate c =>
    exact congrArg binaryOperatorAggregate (BinaryOperatorAggregate.update_false h)
  | deltaChannel c => exact congrArg deltaChannel (DeltaChannel.update_false h)

theorem consume_false {c : Channel} (h : c.consume.2 = false) : c.consume.1 = c := by
  cases c with
  | lastValueAfterFinish c =>
    exact congrArg lastValueAfterFinish (LastValueAfterFinish.consume_false h)
  | namedBarrierValue c => exact congrArg namedBarrierValue (NamedBarrierValue.consume_false h)
  | namedBarrierValueAfterFinish c =>
    exact congrArg namedBarrierValueAfterFinish (NamedBarrierValueAfterFinish.consume_false h)
  | _ => rfl

theorem get_isSome {c : Channel} (h : c.isAvailable = true) : c.get.isSome = true := by
  cases c with
  | lastValueAfterFinish c =>
    obtain ⟨hvalue, hfinished⟩ := Bool.and_eq_true_iff.mp h
    change c.get.isSome = true
    rw [LastValueAfterFinish.get, if_pos hfinished]
    exact hvalue
  | topic c =>
    change c.get.isSome = true
    rw [Topic.get, if_neg (fun hnil => by simp [isAvailable, Topic.isAvailable, hnil] at h)]
    rfl
  | namedBarrierValue c =>
    have ha : c.isAvailable = true := h
    change c.get.isSome = true
    rw [NamedBarrierValue.get, if_pos ha]
    rfl
  | namedBarrierValueAfterFinish c =>
    have ha : c.isAvailable = true := h
    change c.get.isSome = true
    rw [NamedBarrierValueAfterFinish.get, if_pos ha]
    rfl
  | _ => exact h

theorem available_of_consume {c : Channel} (h : c.consume.1.isAvailable = true) :
    c.isAvailable = true := by
  cases hc : c.consume.2 with
  | false => rwa [consume_false hc] at h
  | true =>
    cases c with
    | lastValueAfterFinish c =>
      change c.consume.1.isAvailable = true at h
      change c.consume.2 = true at hc
      unfold LastValueAfterFinish.consume at h hc
      split at hc
      · rename_i hfinished
        rw [if_pos hfinished] at h
        cases h
      · cases hc
    | namedBarrierValue c =>
      change c.consume.2 = true at hc
      change c.isAvailable = true
      unfold NamedBarrierValue.consume at hc
      split at hc
      · assumption
      · cases hc
    | namedBarrierValueAfterFinish c =>
      change c.consume.2 = true at hc
      change c.isAvailable = true
      unfold NamedBarrierValueAfterFinish.consume at hc
      split at hc
      · assumption
      · cases hc
    | _ => cases hc

theorem finish_false {c : Channel} (h : c.finish.2 = false) : c.finish.1 = c := by
  cases c with
  | lastValueAfterFinish c =>
    exact congrArg lastValueAfterFinish (LastValueAfterFinish.finish_false h)
  | namedBarrierValueAfterFinish c =>
    exact congrArg namedBarrierValueAfterFinish (NamedBarrierValueAfterFinish.finish_false h)
  | _ => rfl

theorem finish_available {c : Channel} (h : c.finish.2 = true) :
    c.finish.1.isAvailable = true := by
  cases c with
  | lastValueAfterFinish c =>
    have hfinish : c.finish.2 = true := h
    change c.finish.1.isAvailable = true
    unfold LastValueAfterFinish.finish at hfinish ⊢
    split at hfinish
    · rename_i hc
      rw [dif_pos hc]
      simp [LastValueAfterFinish.isAvailable, hc.2]
    · cases hfinish
  | namedBarrierValueAfterFinish c =>
    have hfinish : c.finish.2 = true := h
    change c.finish.1.isAvailable = true
    unfold NamedBarrierValueAfterFinish.finish at hfinish ⊢
    split at hfinish
    · rename_i hc
      rw [if_pos hc]
      simp_all [NamedBarrierValueAfterFinish.isAvailable]
    · cases hfinish
  | lastValue c => cases h
  | anyValue c => cases h
  | ephemeralValue c => cases h
  | untrackedValue c => cases h
  | topic c => cases h
  | namedBarrierValue c => cases h
  | binaryOperatorAggregate c => cases h
  | deltaChannel c => cases h

theorem fromCheckpoint_update (c : Channel) (vs : List Value) (b : Option Blob) :
    (c.update vs).1.fromCheckpoint b = c.fromCheckpoint b := by
  cases c with
  | lastValue c => exact congrArg lastValue (c.fromCheckpoint_update vs b)
  | lastValueAfterFinish c => exact congrArg lastValueAfterFinish (c.fromCheckpoint_update vs b)
  | anyValue c => rfl
  | ephemeralValue c => exact congrArg ephemeralValue (c.fromCheckpoint_update vs b)
  | untrackedValue c => exact congrArg untrackedValue (c.fromCheckpoint_update vs b)
  | topic c => exact congrArg topic (c.fromCheckpoint_update vs b)
  | namedBarrierValue c => exact congrArg namedBarrierValue (c.fromCheckpoint_seen _ b)
  | namedBarrierValueAfterFinish c =>
    exact congrArg namedBarrierValueAfterFinish (c.fromCheckpoint_state _ c.finished b)
  | binaryOperatorAggregate c =>
    exact congrArg binaryOperatorAggregate (c.fromCheckpoint_update vs b)
  | deltaChannel c => exact congrArg deltaChannel (c.fromCheckpoint_update vs b)

theorem fromCheckpoint_consume (c : Channel) (b : Option Blob) :
    c.consume.1.fromCheckpoint b = c.fromCheckpoint b := by
  cases c with
  | lastValueAfterFinish c => exact congrArg lastValueAfterFinish (c.fromCheckpoint_consume b)
  | namedBarrierValue c => exact congrArg namedBarrierValue (c.fromCheckpoint_consume b)
  | namedBarrierValueAfterFinish c =>
    exact congrArg namedBarrierValueAfterFinish (c.fromCheckpoint_consume b)
  | _ => rfl

theorem fromCheckpoint_finish (c : Channel) (b : Option Blob) :
    c.finish.1.fromCheckpoint b = c.fromCheckpoint b := by
  cases c with
  | lastValueAfterFinish c => exact congrArg lastValueAfterFinish (c.fromCheckpoint_finish b)
  | namedBarrierValueAfterFinish c =>
    exact congrArg namedBarrierValueAfterFinish (c.fromCheckpoint_finish b)
  | _ => rfl

theorem fromCheckpoint_checkpoint {c : Channel} (hd : c.kind ≠ .deltaChannel)
    (hu : c.kind ≠ .untrackedValue) : c.fromCheckpoint c.checkpoint = c := by
  cases c with
  | lastValue c => exact congrArg lastValue c.fromCheckpoint_checkpoint
  | lastValueAfterFinish c => exact congrArg lastValueAfterFinish c.fromCheckpoint_checkpoint
  | anyValue c => exact congrArg anyValue c.fromCheckpoint_checkpoint
  | ephemeralValue c => exact congrArg ephemeralValue c.fromCheckpoint_checkpoint
  | untrackedValue c => exact absurd rfl hu
  | topic c => rfl
  | namedBarrierValue c => rfl
  | namedBarrierValueAfterFinish c => rfl
  | binaryOperatorAggregate c =>
    exact congrArg binaryOperatorAggregate c.fromCheckpoint_checkpoint
  | deltaChannel c => exact absurd rfl hd

theorem kind_update (c : Channel) (vs : List Value) : (c.update vs).1.kind = c.kind := by
  cases c <;> rfl

theorem kind_consume (c : Channel) : c.consume.1.kind = c.kind := by
  cases c <;> rfl

theorem kind_finish (c : Channel) : c.finish.1.kind = c.kind := by
  cases c <;> rfl

theorem kind_fromCheckpoint (c : Channel) (b : Option Blob) :
    (c.fromCheckpoint b).kind = c.kind := by
  cases c <;> rfl

theorem kind_replayWrites {c d : Channel} {vs : List Value}
    (h : c.replayWrites vs = .ok d) : d.kind = c.kind := by
  cases c with
  | deltaChannel c =>
    simp only [replayWrites] at h
    cases hr : c.replayWrites vs with
    | error e => simp [hr, Except.map] at h
    | ok c' =>
      simp only [hr, Except.map, Except.ok.injEq] at h
      rw [← h]
      rfl
  | _ => rw [← Except.ok.inj h]

theorem topic_of_kind {c : Channel} (h : c.kind = .topic) : ∃ t, c = .topic t := by
  cases c <;> first | exact ⟨_, rfl⟩ | cases h

theorem ephemeral_of_kind {c : Channel} (h : c.kind = .ephemeralValue) :
    ∃ e, c = .ephemeralValue e := by
  cases c <;> first | exact ⟨_, rfl⟩ | cases h

theorem delta_of_kind {c : Channel} (h : c.kind = .deltaChannel) : ∃ d, c = .deltaChannel d := by
  cases c <;> first | exact ⟨_, rfl⟩ | cases h

theorem untracked_of_kind {c : Channel} (h : c.kind = .untrackedValue) :
    ∃ u, c = .untrackedValue u := by
  cases c <;> first | exact ⟨_, rfl⟩ | cases h

end Channel

end LangGraph
