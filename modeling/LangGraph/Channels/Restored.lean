import LangGraph.Channels.Channel
import LangGraph.Transition.Run

namespace LangGraph

open Transition

structure SavedSpec where
  spec : Channel
  delta : spec.kind ≠ .deltaChannel
  untracked : spec.kind ≠ .untrackedValue

inductive ChannelEvent where
  | update (values : List Value)
  | consume
  | finish
  | save
  | reload

-- A channel, its blob under its last stored version, and whether its version has moved since.
structure SavedChannel where
  live : Channel
  saved : Option Blob
  changed : Bool

namespace SavedChannel

def start (spec : SavedSpec) : SavedChannel := ⟨spec.spec.fromCheckpoint none, none, false⟩

def applied (live : Channel) (changed : Bool) (s : SavedChannel) : SavedChannel :=
  { s with live := live, changed := s.changed || changed }

def reload (spec : SavedSpec) (s : SavedChannel) : SavedChannel :=
  { s with live := spec.spec.fromCheckpoint s.saved, changed := false }

-- An update that raises ends the run, and the next one loads what was stored.
def step (spec : SavedSpec) (s : SavedChannel) : ChannelEvent → SavedChannel
  | .update values =>
      match s.live.update values with
      | (live, .ok changed) => s.applied live changed
      | (_, .error _) => s.reload spec
  | .consume => s.applied s.live.consume.1 s.live.consume.2
  | .finish => s.applied s.live.finish.1 s.live.finish.2
  | .save => if s.changed then { s with saved := s.live.checkpoint, changed := false } else s
  | .reload => s.reload spec

structure Kept (spec : SavedSpec) (s : SavedChannel) : Prop where
  declared : ∀ b, s.live.fromCheckpoint b = spec.spec.fromCheckpoint b
  same : s.changed = false → spec.spec.fromCheckpoint s.saved = s.live

variable {spec : SavedSpec} {s : SavedChannel}

theorem fromCheckpoint_twice (c : Channel) (b b' : Option Blob) :
    (c.fromCheckpoint b).fromCheckpoint b' = c.fromCheckpoint b' := by
  rcases b with _ | b
  · cases c <;> rfl
  · cases c <;> cases b <;> rfl

theorem kept_reload (spec : SavedSpec) (s : SavedChannel) : (s.reload spec).Kept spec :=
  ⟨fun b => fromCheckpoint_twice spec.spec s.saved b, fun _ => rfl⟩

theorem Kept.applied (h : s.Kept spec) {live : Channel} {changed : Bool}
    (hspec : ∀ b, live.fromCheckpoint b = s.live.fromCheckpoint b)
    (hfalse : changed = false → live = s.live) : (s.applied live changed).Kept spec := by
  refine ⟨fun b => (hspec b).trans (h.declared b), fun hchanged => ?_⟩
  obtain ⟨hold, hnew⟩ := Bool.or_eq_false_iff.mp hchanged
  rw [SavedChannel.applied, hfalse hnew]
  exact h.same hold

theorem Kept.step (h : s.Kept spec) (e : ChannelEvent) : (s.step spec e).Kept spec := by
  cases e with
  | update values =>
    rw [SavedChannel.step]
    have hspec (b : Option Blob) := s.live.fromCheckpoint_update values b
    have hfalse (hf : (s.live.update values).2 = .ok false) := Channel.update_false hf
    generalize s.live.update values = r at hspec hfalse
    obtain ⟨live, changed | changed⟩ := r
    · exact kept_reload spec s
    · exact h.applied hspec (fun hc => hfalse (by rw [hc]))
  | consume => exact h.applied s.live.fromCheckpoint_consume Channel.consume_false
  | finish => exact h.applied s.live.fromCheckpoint_finish Channel.finish_false
  | save =>
    rw [SavedChannel.step]
    split_ifs with hchanged
    · have hkind : s.live.kind = spec.spec.kind := by
        rw [← Channel.kind_fromCheckpoint s.live none, h.declared, Channel.kind_fromCheckpoint]
      refine ⟨h.declared, fun _ => ?_⟩
      rw [← h.declared]
      exact Channel.fromCheckpoint_checkpoint (hkind ▸ spec.delta) (hkind ▸ spec.untracked)
    · exact h
  | reload => exact kept_reload spec s

-- Where no operation since the last save returned true, the stored blob still is the channel.
theorem restored_live (spec : SavedSpec) (events : List ChannelEvent) :
    Always (step spec) (fun s => s.changed = false → spec.spec.fromCheckpoint s.saved = s.live)
      (start spec) events := by
  exact fun p _ => (run_invariant (fun _ e h => h.step e) p (kept_reload spec (start spec))).same

end SavedChannel

end LangGraph
