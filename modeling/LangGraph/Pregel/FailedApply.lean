import LangGraph.Channels.Channel
import LangGraph.Pregel.ApplyWrites

namespace LangGraph

open Collections

variable {Ver : Type}

theorem Channel.update_nil (c : Channel) : ∃ b, (c.update []).2 = .ok b := by
  cases c with
  | lastValue c => exact ⟨false, rfl⟩
  | lastValueAfterFinish c => exact ⟨false, rfl⟩
  | anyValue c =>
    obtain ⟨_ | v⟩ := c
    · exact ⟨false, rfl⟩
    · exact ⟨true, rfl⟩
  | ephemeralValue c =>
    obtain ⟨key, guard, _ | v⟩ := c
    · exact ⟨false, rfl⟩
    · exact ⟨true, rfl⟩
  | untrackedValue c => exact ⟨false, rfl⟩
  | topic c => exact ⟨_, Topic.update_snd c []⟩
  | namedBarrierValue c => exact ⟨false, rfl⟩
  | namedBarrierValueAfterFinish c => exact ⟨false, rfl⟩
  | binaryOperatorAggregate c => exact ⟨false, rfl⟩
  | deltaChannel c => exact ⟨false, rfl⟩

namespace Cell

def error (chan : String) (st : Stage Channel) (x : Cell Channel Ver) : Option UpdateError :=
  match x.result chan st with
  | some (_, .error e) => some e
  | _ => none

theorem touch_error (next : Option Ver) (chan : String) (st : Stage Channel)
    (s : ApplyState Channel Ver) :
    (s.touch next st.mark st.op chan).2 = (s.cell chan).error chan st := by
  unfold ApplyState.touch error result
  cases hc : s.channels.get? chan with
  | none => simp [ApplyState.cell, hc]
  | some c =>
    obtain ⟨r, hr⟩ : ∃ r, st.op chan (decide (chan ∈ s.updated)) c = r := ⟨_, rfl⟩
    obtain ⟨c', e | b⟩ := r
    · simp [ApplyState.cell, hc, hr]
    · cases b with
      | false => simp [ApplyState.cell, hc, hr]
      | true => cases next <;> simp [ApplyState.cell, hc, hr]

end Cell

section Error

variable {channels : Dict String Channel} {versions : ChannelVersions Ver} {next : Option Ver}
  {tasks : List PregelTaskWrites} {triggerToNodes : Dict String (List String)} {e : UpdateError}

theorem bumpPhases_ok (next : Option Ver) (triggerToNodes : Dict String (List String))
    (s : ApplyState Channel Ver) : (bumpPhases next triggerToNodes s).2 = none := by
  have hempty (chan : String) (s : ApplyState Channel Ver) :
      (s.touch next true .updateEmpty chan).2 = none := by
    rw [Cell.touch_error next chan ⟨true, .updateEmpty⟩ s, Cell.error, Cell.result]
    cases hc : (s.cell chan).channel with
    | none => rfl
    | some c =>
      obtain ⟨b, hb⟩ := c.update_nil
      simp only [Option.map_some, ChannelOp.updateEmpty]
      split
      · rename_i heq
        split at heq
        · have herr := congrArg Prod.snd (Option.some.inj heq)
          rw [show (BaseChannel.update c []).2 = .ok b from hb] at herr
          cases herr
        · cases congrArg Prod.snd (Option.some.inj heq)
      · rfl
  have hfinish (chan : String) (s : ApplyState Channel Ver) :
      (s.touch next true .finish chan).2 = none := by
    rw [Cell.touch_error next chan ⟨true, .finish⟩ s, Cell.error, Cell.result]
    cases (s.cell chan).channel <;> rfl
  rw [bumpPhases, andThen, Sweep.never_fails hempty]
  simp only
  unfold finishPhase
  split
  · rfl
  · exact Sweep.never_fails hfinish _ _

def consumedCell (channels : Dict String Channel) (versions : ChannelVersions Ver)
    (next : Option Ver) (tasks : List PregelTaskWrites) (chan : String) : Cell Channel Ver :=
  (⟨channels.get? chan, versions.get? chan, false⟩ : Cell Channel Ver).run next chan
    (if chan ∈ consumedChannels channels tasks then [⟨false, .consume⟩] else [])

def updateStage (channels : Dict String Channel) (tasks : List PregelTaskWrites) : Stage Channel :=
  ⟨true, .update (pendingWritesByChannel channels tasks)⟩

-- Where an apply raises: the channels before are updated, the failing one is left as it raised.
theorem applyChannels_error
    (h : (applyChannels channels versions next tasks triggerToNodes).2 = some e) :
    ∃ pre k post, (pendingWritesByChannel channels tasks).keys = pre ++ k :: post ∧
      (∀ chan ∈ pre, (consumedCell channels versions next tasks chan).error chan
        (updateStage channels tasks) = none) ∧
      (consumedCell channels versions next tasks k).error k (updateStage channels tasks) =
        some e ∧
      ∀ chan, (applyChannels channels versions next tasks triggerToNodes).1.cell chan =
        (consumedCell channels versions next tasks chan).run next chan
          (if chan ∈ pre ++ [k] then [updateStage channels tasks] else []) := by
  obtain ⟨s, hs⟩ : ∃ s, s = (sweep (ApplyState.touch next false .consume)
    (consumedChannels channels tasks) ⟨versions, channels, ∅⟩).1 := ⟨_, rfl⟩
  obtain ⟨pending, hpending⟩ : ∃ pending, pending = pendingWritesByChannel channels tasks :=
    ⟨_, rfl⟩
  have hcell (chan : String) : s.cell chan = consumedCell channels versions next tasks chan := by
    have hn : (consumedChannels channels tasks).Nodup := List.nodup_dedup _
    have hstart : (⟨versions, channels, ∅⟩ : ApplyState Channel Ver).cell chan =
        ⟨channels.get? chan, versions.get? chan, false⟩ := by
      simp [ApplyState.cell]
    rw [hs, consumedCell, ← hstart]
    exact cell_sweep ⟨false, .consume⟩ hn (consume_ok next _ _) chan
  have hupdate : applyChannels channels versions next tasks triggerToNodes =
      updatePhases next triggerToNodes pending (bumpStep tasks) s := by
    rw [applyChannels, andThen, consume_ok, hs, hpending]
  rw [hupdate] at h ⊢
  cases hsweep : (sweep (ApplyState.touch next true (.update pending)) pending.keys s).2 with
  | none =>
    have hlater : (updatePhases next triggerToNodes pending (bumpStep tasks) s).2 = none := by
      rw [updatePhases, andThen, hsweep]
      simp only
      split
      · exact bumpPhases_ok next triggerToNodes _
      · rfl
    rw [hlater] at h
    cases h
  | some e' =>
    have hfailed : updatePhases next triggerToNodes pending (bumpStep tasks) s =
        ((sweep (ApplyState.touch next true (.update pending)) pending.keys s).1, some e') := by
      rw [updatePhases, andThen, hsweep]
    rw [hfailed] at h ⊢
    obtain ⟨pre, k, post, hkeys, hpre, hfail, hstate⟩ := Sweep.split_of_error hsweep
    have hlocal := touch_local (C := Channel) next (updateStage channels tasks)
    have hnodup : (pre ++ k :: post).Nodup := hkeys ▸ pending.nodup_keys
    obtain ⟨hnpre, -, hdisjoint⟩ := List.nodup_append.mp hnodup
    have hk : k ∉ pre := fun hmem => hdisjoint k hmem k List.mem_cons_self rfl
    rw [hpending] at hpre hfail hstate
    have hone (chan : String) (x : Cell Channel Ver) :
        x.run next chan [updateStage channels tasks] =
          x.touch next chan (updateStage channels tasks) := rfl
    refine ⟨pre, k, post, hpending ▸ hkeys, fun chan hchan => ?_, ?_, fun chan => ?_⟩
    · rw [← hcell chan]
      exact Sweep.ok_of_mem hlocal
        (fun c t => Cell.touch_error next c (updateStage channels tasks) t) hnpre hpre hchan
    · have herror := Cell.touch_error next k (updateStage channels tasks)
        (sweep (ApplyState.touch next true (.update (pendingWritesByChannel channels tasks)))
          pre s).1
      have hframe := Sweep.frame hlocal hk s
      rw [← hcell k, ← hframe, ← h]
      exact herror.symm.trans hfail
    · rw [hpending]
      simp only [hstate]
      rw [← hcell chan]
      by_cases heq : chan = k
      · have hin : chan ∈ pre ++ [k] := by simp [heq]
        rw [if_pos hin, hone, heq]
        exact (hlocal.self k _).trans (congrArg (Cell.touch next k (updateStage channels tasks))
          (Sweep.frame hlocal hk s))
      · have hother : (ApplyState.touch next true
            (.update (pendingWritesByChannel channels tasks)) k
              (sweep (ApplyState.touch next true
                (.update (pendingWritesByChannel channels tasks))) pre s).1).1.cell chan =
            (sweep (ApplyState.touch next true
              (.update (pendingWritesByChannel channels tasks))) pre s).1.cell chan :=
          hlocal.frame _ heq
        rw [hother]
        by_cases hmem : chan ∈ pre
        · rw [if_pos (List.mem_append_left _ hmem), hone]
          exact Sweep.view_of_ok hlocal hnpre hpre hmem
        · have hnot : chan ∉ pre ++ [k] := by simp [hmem, heq]
          rw [if_neg hnot]
          exact Sweep.frame hlocal hmem s

end Error

section Quiet

def updateOf (channels : Dict String Channel) (tasks : List PregelTaskWrites) (chan : String) :
    Option (Channel × Except UpdateError Bool) :=
  (channels.get? chan).map
    (fun c => c.update ((pendingWritesByChannel channels tasks).getD chan []))

def raises (channels : Dict String Channel) (tasks : List PregelTaskWrites) (chan : String) :
    Bool :=
  match updateOf channels tasks chan with
  | some (_, .error _) => true
  | _ => false

def changes (channels : Dict String Channel) (tasks : List PregelTaskWrites) (chan : String) :
    Bool :=
  match updateOf channels tasks chan with
  | some (_, .ok true) => true
  | _ => false

-- Nothing that is consumed or updated before an update raises is changed by that.
structure Quiet (channels : Dict String Channel) (tasks : List PregelTaskWrites) : Prop where
  consumed : ∀ chan ∈ consumedChannels channels tasks, ∀ c, channels.get? chan = some c →
    c.consume.2 = false
  written : ∀ chan ∈ (pendingWritesByChannel channels tasks).keys.takeWhile
    (fun chan => !raises channels tasks chan), changes channels tasks chan = false

variable {channels : Dict String Channel} {versions : ChannelVersions Ver} {v : Ver}
  {tasks : List PregelTaskWrites} {triggerToNodes : Dict String (List String)} {e : UpdateError}

def startCell (channels : Dict String Channel) (versions : ChannelVersions Ver) (chan : String) :
    Cell Channel Ver :=
  ⟨channels.get? chan, versions.get? chan, false⟩

theorem error_iff_raises (chan : String) :
    (startCell channels versions chan).error chan (updateStage channels tasks) ≠ none ↔
      raises channels tasks chan = true := by
  have hresult : (startCell channels versions chan).result chan (updateStage channels tasks) =
      updateOf channels tasks chan := rfl
  rw [Cell.error, hresult, raises]
  rcases updateOf channels tasks chan with _ | ⟨c, e | b⟩ <;> simp

theorem changedBy_eq_changes (chan : String) :
    (startCell channels versions chan).changedBy chan (updateStage channels tasks) =
      changes channels tasks chan := by
  have hresult : (startCell channels versions chan).result chan (updateStage channels tasks) =
      updateOf channels tasks chan := rfl
  rw [Cell.changedBy, hresult, changes]
  rcases updateOf channels tasks chan with _ | ⟨c, e | b⟩
  · rfl
  · rfl
  · cases b <;> rfl

theorem result_consume {x : Cell Channel Ver} {c : Channel} (hx : x.channel = some c)
    (chan : String) :
    x.result chan ⟨false, .consume⟩ = some (c.consume.1, .ok c.consume.2) := by
  rw [Cell.result, hx]
  rfl

theorem consumedCell_of_quiet {chan : String}
    (h : chan ∈ consumedChannels channels tasks → ∀ c, channels.get? chan = some c →
      c.consume.2 = false) (next : Option Ver) :
    consumedCell channels versions next tasks chan = startCell channels versions chan := by
  rw [consumedCell]
  split
  · rename_i hmem
    cases hc : channels.get? chan with
    | none =>
      rw [startCell, hc]
      exact Cell.run_none rfl
    | some c =>
      have hfalse : c.consume.2 = false := h hmem c hc
      have hresult := result_consume (x := ⟨some c, versions.get? chan, false⟩) rfl chan
      rw [Channel.consume_false hfalse, hfalse] at hresult
      have htouch : (⟨some c, versions.get? chan, false⟩ : Cell Channel Ver).touch next chan
          ⟨false, .consume⟩ = ⟨some c, versions.get? chan, false⟩ := by
        unfold Cell.touch
        rw [hresult]
      rw [startCell, hc]
      exact htouch
  · rw [startCell]
    rfl

theorem split_unique {pre post : List String} {k : String} {p : String → Bool}
    (hpre : ∀ chan ∈ pre, p chan = false) (hk : p k = true) :
    (pre ++ k :: post).takeWhile (fun chan => !p chan) = pre ∧
      (pre ++ k :: post).find? p = some k := by
  induction pre with
  | nil => simp [hk]
  | cons chan pre ih =>
    have hchan := hpre chan List.mem_cons_self
    obtain ⟨htake, hfind⟩ := ih (fun c hc => hpre c (List.mem_cons_of_mem chan hc))
    refine ⟨?_, ?_⟩
    · simp only [List.cons_append, List.takeWhile_cons, hchan, Bool.not_false, if_true, htake]
    · simp only [List.cons_append, List.find?_cons, hchan, hfind]

theorem applyChannels_raises
    (hc : ∀ chan ∈ consumedChannels channels tasks, ∀ c, channels.get? chan = some c →
      c.consume.2 = false)
    (h : (applyChannels channels versions (some v) tasks triggerToNodes).2 = some e) :
    ∃ pre k post, (pendingWritesByChannel channels tasks).keys = pre ++ k :: post ∧
      (∀ chan ∈ pre, raises channels tasks chan = false) ∧ raises channels tasks k = true ∧
      ∀ chan, (applyChannels channels versions (some v) tasks triggerToNodes).1.cell chan =
        (startCell channels versions chan).run (some v) chan
          (if chan ∈ pre ++ [k] then [updateStage channels tasks] else []) := by
  obtain ⟨pre, k, post, hkeys, hpre, hfail, hcell⟩ := applyChannels_error h
  have hstart (chan : String) : consumedCell channels versions (some v) tasks chan =
      startCell channels versions chan :=
    consumedCell_of_quiet (hc chan) (some v)
  refine ⟨pre, k, post, hkeys, fun chan hmem => ?_, ?_, fun chan => ?_⟩
  · have hnone := hpre chan hmem
    rw [hstart] at hnone
    have hiff := @error_iff_raises _ channels versions tasks chan
    simpa [hnone] using hiff
  · rw [hstart] at hfail
    refine (@error_iff_raises _ _ versions _ k).mp ?_
    rw [hfail]
    simp
  · rw [hcell chan, hstart]

theorem touch_unchanged {chan : String} (hr : raises channels tasks chan = false)
    (hch : changes channels tasks chan = false) :
    (startCell channels versions chan).touch (some v) chan (updateStage channels tasks) =
      startCell channels versions chan := by
  have hresult : (startCell channels versions chan).result chan (updateStage channels tasks) =
      updateOf channels tasks chan := rfl
  rw [raises] at hr
  rw [changes] at hch
  unfold Cell.touch
  rw [hresult]
  cases hu : updateOf channels tasks chan with
  | none => rfl
  | some r =>
    obtain ⟨c', e' | b⟩ := r
    · rw [hu] at hr
      cases hr
    · cases b with
      | true =>
        rw [hu] at hch
        cases hch
      | false =>
        obtain ⟨c, hc, hupdate⟩ := Option.map_eq_some_iff.mp hu
        have hfalse : (c.update ((pendingWritesByChannel channels tasks).getD chan [])).2 =
            .ok false := by rw [hupdate]
        have hsame := Channel.update_false hfalse
        rw [hupdate] at hsame
        rw [startCell, hc]
        exact congrArg (fun d => (⟨some d, versions.get? chan, false⟩ : Cell Channel Ver)) hsame

theorem touch_raising {chan : String} {c : Channel} (hr : raises channels tasks chan = true)
    (hc : channels.get? chan = some c) :
    (startCell channels versions chan).touch (some v) chan (updateStage channels tasks) =
      ⟨some (c.update ((pendingWritesByChannel channels tasks).getD chan [])).1,
        versions.get? chan, false⟩ := by
  have hupdate : updateOf channels tasks chan =
      some (c.update ((pendingWritesByChannel channels tasks).getD chan [])) := by
    rw [updateOf, hc]
    rfl
  have hresult : (startCell channels versions chan).result chan (updateStage channels tasks) =
      some (c.update ((pendingWritesByChannel channels tasks).getD chan [])) := hupdate
  rw [raises, hupdate] at hr
  unfold Cell.touch
  rw [hresult]
  rcases hr' : c.update ((pendingWritesByChannel channels tasks).getD chan []) with ⟨c', e' | b⟩
  · rfl
  · rw [hr'] at hr
    cases hr

theorem Cell.version_of_run (v : Ver) (chan : String) (sts : List (Stage Channel))
    (x : Cell Channel Ver) :
    (x.run (some v) chan sts).version = x.version ∨ (x.run (some v) chan sts).version = some v := by
  rw [Cell.run_version]
  split
  · exact Or.inr rfl
  · exact Or.inl rfl

theorem version_of_error
    (h : (applyChannels channels versions (some v) tasks triggerToNodes).2 = some e)
    (chan : String) :
    (applyChannels channels versions (some v) tasks triggerToNodes).1.versions.get? chan =
        versions.get? chan ∨
      (applyChannels channels versions (some v) tasks triggerToNodes).1.versions.get? chan =
        some v := by
  obtain ⟨pre, k, post, -, -, -, hcell⟩ := applyChannels_error h
  have hversion := congrArg Cell.version (hcell chan)
  have hconsumed := Cell.version_of_run v chan
    (if chan ∈ consumedChannels channels tasks then [⟨false, .consume⟩] else [])
    ⟨channels.get? chan, versions.get? chan, false⟩
  rcases Cell.version_of_run v chan (if chan ∈ pre ++ [k] then [updateStage channels tasks] else [])
    (consumedCell channels versions (some v) tasks chan) with hsame | hbumped
  · rw [hsame] at hversion
    rcases hconsumed with hstart | hdrawn
    · exact Or.inl (hversion.trans hstart)
    · exact Or.inr (hversion.trans hdrawn)
  · exact Or.inr (hversion.trans hbumped)

-- An apply that raises and bumps no version was quiet up to there.
theorem quiet_of_versions (hv : ∀ chan w, versions.get? chan = some w → w ≠ v)
    (h : (applyChannels channels versions (some v) tasks triggerToNodes).2 = some e)
    (hsame : ∀ chan, (applyChannels channels versions (some v) tasks triggerToNodes).1.versions.get?
      chan = versions.get? chan) : Quiet channels tasks := by
  have hversion (chan : String) :
      ((applyChannels channels versions (some v) tasks triggerToNodes).1.cell chan).version ≠
        some v :=
    fun heq => hv chan v ((hsame chan).symm.trans heq) rfl
  have hconsumed : ∀ chan ∈ consumedChannels channels tasks, ∀ c, channels.get? chan = some c →
      c.consume.2 = false := by
    obtain ⟨pre, k, post, -, -, -, hcell⟩ := applyChannels_error h
    intro chan hmem c hc
    by_contra hne
    have htrue : c.consume.2 = true := by simpa using hne
    have hbumped : (consumedCell channels versions (some v) tasks chan).version = some v := by
      have hchanged : (startCell channels versions chan).changedBy chan ⟨false, .consume⟩ =
          true := by
        rw [Cell.changedBy, result_consume (x := startCell channels versions chan) hc, htrue]
      rw [consumedCell, if_pos hmem]
      exact (Cell.touch_version v chan ⟨false, .consume⟩ (startCell channels versions chan)).trans
        (by rw [hchanged]; rfl)
    refine hversion chan ?_
    rw [hcell chan, Cell.run_version, hbumped, ite_self]
  refine ⟨hconsumed, ?_⟩
  obtain ⟨pre, k, post, hkeys, hquiet, hraise, hcell⟩ := applyChannels_raises hconsumed h
  rw [hkeys, (split_unique hquiet hraise).1]
  intro chan hmem
  by_contra hne
  have htrue : changes channels tasks chan = true := by simpa using hne
  refine hversion chan ?_
  have hin : chan ∈ pre ++ [k] := List.mem_append_left _ hmem
  rw [hcell chan, if_pos hin, Cell.run, Cell.run, Cell.touch_version, changedBy_eq_changes, htrue]
  rfl

-- After a quiet apply that raised, only the channel that raised may differ.
theorem state_of_quiet (hq : Quiet channels tasks)
    (h : (applyChannels channels versions (some v) tasks triggerToNodes).2 = some e) :
    ∃ k c, (pendingWritesByChannel channels tasks).keys.find? (raises channels tasks) = some k ∧
      channels.get? k = some c ∧
      ∀ chan, (applyChannels channels versions (some v) tasks triggerToNodes).1.cell chan =
        if chan = k then
          ⟨some (c.update ((pendingWritesByChannel channels tasks).getD k [])).1,
            versions.get? k, false⟩
        else startCell channels versions chan := by
  obtain ⟨pre, k, post, hkeys, hquiet, hraise, hcell⟩ := applyChannels_raises hq.consumed h
  obtain ⟨htake, hfind⟩ := split_unique hquiet hraise
  obtain ⟨c, hc⟩ : ∃ c, channels.get? k = some c := by
    cases hc : channels.get? k with
    | none => simp [raises, updateOf, hc] at hraise
    | some c => exact ⟨c, rfl⟩
  refine ⟨k, c, hkeys ▸ hfind, hc, fun chan => ?_⟩
  rw [hcell chan]
  by_cases hk : chan = k
  · have hin : chan ∈ pre ++ [k] := by simp [hk]
    rw [if_pos hin, if_pos hk, hk]
    exact touch_raising hraise hc
  · rw [if_neg hk]
    by_cases hmem : chan ∈ pre
    · rw [if_pos (List.mem_append_left _ hmem)]
      refine touch_unchanged (hquiet chan hmem) (hq.written chan ?_)
      rw [hkeys, htake]
      exact hmem
    · have hnot : chan ∉ pre ++ [k] := by simp [hmem, hk]
      rw [if_neg hnot]
      rfl

end Quiet

end LangGraph
