import LangGraph.Pregel.FailedApply
import LangGraph.Pregel.OrderIndependence

namespace LangGraph

open Collections

variable {Ver : Type}

namespace Channel

def afterFinish (c : Channel) : Bool :=
  c.kind = .lastValueAfterFinish || c.kind = .namedBarrierValueAfterFinish

theorem afterFinish_of_kind {c d : Channel} (h : c.kind = d.kind) :
    c.afterFinish = d.afterFinish := by
  rw [afterFinish, afterFinish, h]

end Channel

namespace Cell

variable {x : Cell Channel Ver} {chan : String} {st : Stage Channel} {c : Channel}

theorem result_update (hc : x.channel = some c) (chan : String)
    (pending : Dict String (List Value)) :
    x.result chan ⟨true, .update pending⟩ = some (c.update (pending.getD chan [])) := by
  rw [result, hc]
  rfl

theorem result_updateEmpty (hc : x.channel = some c) (chan : String) :
    x.result chan ⟨true, .updateEmpty⟩ =
      some (if c.isAvailable && !x.updated then c.update [] else (c, .ok false)) := by
  rw [result, hc]
  rfl

theorem result_finish (hc : x.channel = some c) (chan : String) :
    x.result chan ⟨true, .finish⟩ = some (c.finish.1, .ok c.finish.2) := by
  rw [result, hc]
  rfl

theorem channel_of_result {r : Except UpdateError Bool} (h : x.result chan st = some (c, r))
    (next : Option Ver) : (x.touch next chan st).channel = some c := by
  rw [touch_channel, h]
  rfl

def marked : Channel × Except UpdateError Bool → Bool
  | (c, .ok true) => c.isAvailable
  | _ => false

end Cell

section Phases

def consumedChannel (channels : Dict String Channel) (tasks : List PregelTaskWrites)
    (chan : String) (c : Channel) : Channel :=
  if chan ∈ consumedChannels channels tasks then c.consume.1 else c

-- A channel after `consume` and the writes of a superstep, and what its update returned.
def writtenChannel (channels : Dict String Channel) (tasks : List PregelTaskWrites)
    (chan : String) (c : Channel) : Channel × Except UpdateError Bool :=
  let c := consumedChannel channels tasks chan c
  if chan ∈ (pendingWritesByChannel channels tasks).keys then
    c.update ((pendingWritesByChannel channels tasks).getD chan [])
  else (c, .ok false)

variable {channels : Dict String Channel} {versions : ChannelVersions Ver} {v : Ver}
  {tasks : List PregelTaskWrites} {triggerToNodes : Dict String (List String)} {chan : String}
  {c : Channel}

theorem applyChannels_split {next : Option Ver}
    (hok : (applyChannels channels versions next tasks triggerToNodes).2 = none) :
    ∃ s : ApplyState Channel Ver,
      applyChannels channels versions next tasks triggerToNodes =
        (if bumpStep tasks then finishPhase next triggerToNodes s else (s, none)) ∧
      (∀ chan, s.cell chan =
        ((consumedCell channels versions next tasks chan).run next chan
          (if chan ∈ (pendingWritesByChannel channels tasks).keys then [updateStage channels tasks]
            else [])).run next chan
          (if bumpStep tasks then [⟨true, .updateEmpty⟩] else [])) ∧
      ∀ chan ∈ (pendingWritesByChannel channels tasks).keys,
        (consumedCell channels versions next tasks chan).error chan
          (updateStage channels tasks) = none := by
  obtain ⟨hconsume, hrest⟩ := andThen_ok hok
  obtain ⟨s₁, hs₁⟩ : ∃ s, s = (sweep (ApplyState.touch next false .consume)
    (consumedChannels channels tasks) ⟨versions, channels, ∅⟩).1 := ⟨_, rfl⟩
  have hcell₁ (chan : String) :
      s₁.cell chan = consumedCell channels versions next tasks chan := by
    have hn : (consumedChannels channels tasks).Nodup := List.nodup_dedup _
    have hstart : (⟨versions, channels, ∅⟩ : ApplyState Channel Ver).cell chan =
        ⟨channels.get? chan, versions.get? chan, false⟩ := by
      simp [ApplyState.cell]
    rw [hs₁, consumedCell, ← hstart]
    exact cell_sweep ⟨false, .consume⟩ hn hconsume chan
  have happly : applyChannels channels versions next tasks triggerToNodes =
      updatePhases next triggerToNodes (pendingWritesByChannel channels tasks)
        (bumpStep tasks) s₁ := by
    rw [hs₁]
    exact hrest
  rw [happly] at hok ⊢
  obtain ⟨hupdate, hbump⟩ := andThen_ok hok
  obtain ⟨s₂, hs₂⟩ : ∃ s, s = (sweep (ApplyState.touch next true
    (.update (pendingWritesByChannel channels tasks)))
      (pendingWritesByChannel channels tasks).keys s₁).1 := ⟨_, rfl⟩
  have hnodup := (pendingWritesByChannel channels tasks).nodup_keys
  have hcell₂ (chan : String) : s₂.cell chan =
      (consumedCell channels versions next tasks chan).run next chan
        (if chan ∈ (pendingWritesByChannel channels tasks).keys then [updateStage channels tasks]
          else []) := by
    rw [hs₂, ← hcell₁]
    exact cell_sweep (updateStage channels tasks) hnodup hupdate chan
  have herror : ∀ chan ∈ (pendingWritesByChannel channels tasks).keys,
      (consumedCell channels versions next tasks chan).error chan
        (updateStage channels tasks) = none := by
    intro chan hmem
    rw [← hcell₁]
    exact Sweep.ok_of_mem (touch_local next (updateStage channels tasks))
      (fun c t => Cell.touch_error next c (updateStage channels tasks) t) hnodup hupdate hmem
  have hphases : updatePhases next triggerToNodes (pendingWritesByChannel channels tasks)
      (bumpStep tasks) s₁ =
        if bumpStep tasks then bumpPhases next triggerToNodes s₂ else (s₂, none) := by
    rw [hs₂]
    exact hbump
  rw [hphases] at hok ⊢
  cases hb : bumpStep tasks with
  | false => exact ⟨s₂, rfl, fun chan => hcell₂ chan, herror⟩
  | true =>
    rw [hb] at hok
    obtain ⟨hempty, hfinish⟩ := andThen_ok hok
    refine ⟨_, hfinish, fun chan => ?_, herror⟩
    rw [cell_sweep_keys ⟨true, .updateEmpty⟩ hempty chan, hcell₂]
    rfl

theorem version_applyChannels (chan : String) :
    (applyChannels channels versions (some v) tasks triggerToNodes).1.versions.get? chan =
        versions.get? chan ∨
      (applyChannels channels versions (some v) tasks triggerToNodes).1.versions.get? chan =
        some v := by
  cases hr : (applyChannels channels versions (some v) tasks triggerToNodes).2 with
  | some e => exact version_of_error hr chan
  | none =>
    obtain ⟨finish, hcell⟩ := applyChannels_cell hr
    have hversion := congrArg Cell.version (hcell chan)
    rcases Cell.version_of_run v chan (plan channels tasks finish chan)
      ⟨channels.get? chan, versions.get? chan, false⟩ with hsame | hbumped
    · exact Or.inl (hversion.trans hsame)
    · exact Or.inr (hversion.trans hbumped)

end Phases

end LangGraph
