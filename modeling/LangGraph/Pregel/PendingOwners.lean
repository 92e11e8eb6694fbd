import LangGraph.Pregel.Thread
import LangGraph.Pregel.UntrackedLoop

namespace LangGraph

open Collections Transition

variable {C Ver : Type}

def ownRows (checkpointId taskId : String) (writes : List Write) : List (String × PendingWrite) :=
  (dedupWrites writes).map (fun w => (checkpointId, ⟨taskId, w.1, w.2⟩))

def SaverCall.rows : SaverCall Ver → List (String × PendingWrite)
  | .put _ _ _ _ => []
  | .putWrites checkpointId writes taskId _ =>
      writes.map (fun w => (checkpointId, ⟨taskId, w.1, w.2⟩))

namespace InMemorySaver

variable [DecidableEq Ver]

-- Every row is stored under the checkpoint it belongs to, every checkpoint under its own id.
structure Filed (own : String → PendingWrite → Prop) (s : InMemorySaver Ver) : Prop where
  rows (id : String) (e : WriteKey × SavedWrite) : e ∈ (s.rows id).items → own id (pendingRow e)
  keyed (id : String) (saved : SavedCheckpoint Ver) : s.storage.get? id = some saved →
    saved.checkpoint.id = id

variable {own : String → PendingWrite → Prop} {s : InMemorySaver Ver}

omit [DecidableEq Ver] in
theorem Filed.mono {own' : String → PendingWrite → Prop} (h : s.Filed own)
    (hsub : ∀ id w, own id w → own' id w) : s.Filed own' :=
  ⟨fun id e he => hsub id _ (h.rows id e he), h.keyed⟩

theorem Filed.exec (h : s.Filed own) {call : SaverCall Ver}
    (hc : ∀ r ∈ call.rows, own r.1 r.2) : (s.exec call).Filed own := by
  cases call with
  | put parent checkpoint metadata versions =>
    refine ⟨h.rows, fun id saved hget => ?_⟩
    by_cases hid : id = checkpoint.id
    · subst hid
      have hsame := Option.some.inj ((Dict.get?_set_self _ _ _).symm.trans hget)
      rw [← hsame]
    · exact h.keyed id saved ((Dict.get?_set_ne _ hid _).symm.trans hget)
  | putWrites id ws taskId path =>
    refine ⟨fun other e he => ?_, ?_⟩
    · by_cases hid : other = id
      · subst hid
        have he' : e ∈ (WriteRows.put taskId path 0 ws (s.rows other)).items := by
          rw [← InMemorySaver.rows_putWrites]
          exact he
        rcases WriteRows.mem_put_task he' with hold | ⟨htask, hnew⟩
        · exact h.rows other e hold
        · have hrow := hc _ (List.mem_map_of_mem hnew)
          rw [← htask] at hrow
          exact hrow
      · have he' : e ∈ (s.rows other).items := by
          rw [← InMemorySaver.rows_putWrites_ne s hid ws taskId path]
          exact he
        exact h.rows other e he'
    · cases ws with
      | nil => exact h.keyed
      | cons w ws => exact h.keyed

theorem Filed.execAll (h : s.Filed own) {calls : List (SaverCall Ver)}
    (hc : ∀ call ∈ calls, ∀ r ∈ call.rows, own r.1 r.2) : (s.execAll calls).Filed own := by
  induction calls generalizing s with
  | nil => exact h
  | cons c calls ih =>
    obtain ⟨hc, hrest⟩ := List.forall_mem_cons.mp hc
    exact ih (h.exec hc) hrest

theorem Filed.getTuple (h : s.Filed own) {id : Option String} {t : CheckpointTuple Ver}
    (ht : s.getTuple id = some t) : ∀ w ∈ t.pendingWrites, own t.checkpoint.id w := by
  obtain ⟨cid, -, hrest⟩ := Option.bind_eq_some_iff.mp ht
  obtain ⟨saved, hget, hsaved⟩ := Option.bind_eq_some_iff.mp hrest
  have heq : t = s.tuple cid saved := (Option.some.inj hsaved).symm
  rw [heq]
  intro w hw
  obtain ⟨e, he, rfl⟩ := List.mem_map.mp hw
  have hid : (s.tuple cid saved).checkpoint.id = cid := h.keyed cid saved hget
  rw [hid]
  exact h.rows cid e he

end InMemorySaver

-- `prepared` is the checkpoint the running tasks were prepared from; `produced` holds every row
-- with the checkpoint its task was prepared from, or under which its Command was issued.
structure PendingOwners (C Ver : Type) where
  thread : Thread C Ver
  prepared : Option String
  produced : List (String × PendingWrite)

namespace PregelLoop

variable [BaseChannel C] [LinearOrder Ver] [OrderBot Ver]

-- The rows that are still pending when `_first` makes a checkpoint of its own.
def leftover (g : Graph C) (inputKeys : InputKeys) (input : Input) (sameRun : Bool)
    (nextNull next : GetNextVersion Ver) (l : PregelLoop C Ver) : List PendingWrite :=
  let timeTravel := l.dropTimeTravel input
  let r := (l.dropResumed timeTravel).putInput g input
  match r.2, (r.1.applyNullWrites g nextNull r.1.storedUpdates).2 with
  | none, .ok updated =>
      if l.isResuming input sameRun then
        if timeTravel ∧ r.1.checkpointMetadata.source ∉ ["update", "fork"] then
          r.1.checkpointPendingWrites.filter (fun w => w.channel ≠ Key.interrupt)
        else []
      else
        match input with
        | .value v =>
            match mapInput inputKeys v, ((r.1.applyNullWrites g nextNull
              r.1.storedUpdates).1.inputApplied g next updated (mapInput inputKeys v)).2 with
            | _ :: _, .ok _ => r.1.checkpointPendingWrites
            | _, _ => []
        | _ => []
  | _, _ => []

end PregelLoop

namespace PregelLoop

variable [BaseChannel C]

section Config

theorem config_putWrites (g : Graph C) (taskId : String) (batch : List Write)
    (l : PregelLoop C Ver) : (l.putWrites g taskId batch).config = l.config := by
  cases batch with
  | nil => rfl
  | cons w ws =>
    obtain ⟨cache, hput⟩ := putWrites_spec g taskId (List.cons_ne_nil w ws) l
    rw [hput]

theorem config_putInput (g : Graph C) (input : Input) (l : PregelLoop C Ver) :
    (l.putInput g input).1.config = l.config := by
  cases input with
  | none => rfl
  | value v => rfl
  | command c =>
    rw [putInput, putCommand]
    split_ifs
    · rfl
    · rfl
    · exact config_putWrites g nullTaskId c.writes l

theorem config_putDeltaInput (g : Graph C) (writes : List Write) (l : PregelLoop C Ver) :
    (l.putDeltaInput g writes).config = l.config := by
  rw [putDeltaInput]
  split_ifs
  · rfl
  · exact config_putWrites g nullTaskId _ l

theorem config_commit (g : Graph C) (taskId : String) (attempt : Attempt) (l : PregelLoop C Ver) :
    (l.commit g taskId attempt).config = l.config := by
  rw [commit]
  cases l.task? taskId with
  | none => rfl
  | some t => exact config_putWrites g taskId _ _

variable [LinearOrder Ver] [OrderBot Ver]

omit [OrderBot Ver] in
theorem config_applyNullWrites (g : Graph C) (next : GetNextVersion Ver)
    (updated : Option (Finset String)) (l : PregelLoop C Ver) :
    (l.applyNullWrites g next updated).1.config = l.config := by
  rw [applyNullWrites]
  cases taskWritesOf nullTaskId l.checkpointPendingWrites <;> rfl

theorem config_putCheckpoint (next : GetNextVersion Ver) (newId source : String)
    (l : PregelLoop C Ver) : (l.putCheckpoint next newId source).config = l.config := by
  rw [putCheckpoint]
  simp only
  split_ifs <;> rfl

theorem config_resumeFirst (next : GetNextVersion Ver) (newId : String) (timeTravel : Bool)
    (l : PregelLoop C Ver) : (l.resumeFirst next newId timeTravel).config = l.config := by
  rw [resumeFirst]
  split_ifs
  · exact config_putCheckpoint next newId "fork" _
  · rfl

theorem config_inputFirst (g : Graph C) (next : GetNextVersion Ver) (newId : String)
    (updated : Option (Finset String)) (writes : List Write) (l : PregelLoop C Ver) :
    (l.inputFirst g next newId updated writes).1.config = l.config := by
  have happlied := config_inputApplied g next updated writes l
  rw [inputFirst_eq]
  generalize l.inputApplied g next updated writes = r at happlied
  obtain ⟨m, e | updated'⟩ := r
  · exact happlied
  · simp only
    rw [config_putCheckpoint]
    exact (config_putDeltaInput g writes m).trans happlied

theorem config_enterInput (g : Graph C) (inputKeys : InputKeys) (next : GetNextVersion Ver)
    (newId : String) (updated : Option (Finset String)) (input : Input) (l : PregelLoop C Ver) :
    (l.enterInput g inputKeys next newId updated input).1.config = l.config := by
  cases input with
  | none => rfl
  | command c => rfl
  | value v =>
    rw [enterInput]
    cases mapInput inputKeys v with
    | nil => rfl
    | cons w ws =>
      dsimp only
      exact config_inputFirst g next newId updated (w :: ws) l

theorem config_first (g : Graph C) (inputKeys : InputKeys) (input : Input) (sameRun : Bool)
    (nextNull next : GetNextVersion Ver) (newId : String) (l : PregelLoop C Ver) :
    (l.first g inputKeys input sameRun nextNull next newId).1.config = l.config := by
  have hdropped : (l.dropResumed (l.dropTimeTravel input)).config = l.config := by
    rw [dropResumed]
    split_ifs <;> rfl
  refine andThen_invariant (P := fun m : PregelLoop C Ver => m.config = l.config)
    ((config_putInput g input _).trans hdropped) (fun m hm => ?_)
  have hnull := (config_applyNullWrites g nextNull m.storedUpdates m).trans hm
  simp only
  split
  · exact hnull
  · split
    · exact (config_resumeFirst next newId (l.dropTimeTravel input) _).trans hnull
    · exact (config_enterInput g inputKeys next newId _ input _).trans hnull

theorem config_afterTick (g : Graph C) (next : GetNextVersion Ver) (newId : String)
    (l : PregelLoop C Ver) : (l.afterTick g next newId).1.config = l.config := by
  rw [afterTick]
  simp only
  split
  · rfl
  · exact config_putCheckpoint next newId "loop" _

theorem config_tick (g : Graph C) (l : PregelLoop C Ver) : (l.tick g).1.config = l.config := by
  rw [tick]
  simp only
  split_ifs <;> rfl

omit [BaseChannel C] [LinearOrder Ver] [OrderBot Ver] in
theorem config_matchCachedWrites (l : PregelLoop C Ver) :
    l.matchCachedWrites.config = l.config := by
  rw [matchCachedWrites]
  split <;> rfl

end Config

section Exit

-- A loop in exit mode whose pending rows belong to its checkpoint.
structure Within (own : String → PendingWrite → Prop) (l : PregelLoop C Ver) : Prop where
  exit : l.config.durability = .exit
  pending (w : PendingWrite) : w ∈ l.checkpointPendingWrites → own l.checkpoint.id w
  submitted : l.submitted = []

variable {own : String → PendingWrite → Prop} {l : PregelLoop C Ver}

omit [BaseChannel C] in
theorem Within.of_empty (hexit : l.config.durability = .exit)
    (hpending : l.checkpointPendingWrites = []) (hsubmitted : l.submitted = []) :
    l.Within own where
  exit := hexit
  pending w hw := by
    rw [hpending] at hw
    cases hw
  submitted := hsubmitted

omit [BaseChannel C] in
theorem Within.filter (h : l.Within own) (keep : PendingWrite → Bool) :
    ({ l with checkpointPendingWrites := l.checkpointPendingWrites.filter keep }).Within own :=
  ⟨h.exit, fun w hw => h.pending w (List.mem_filter.mp hw).1, h.submitted⟩

theorem Within.putWrites {g : Graph C} (h : l.Within own) {taskId : String} {batch : List Write}
    (hb : ∀ r ∈ ownRows l.checkpoint.id taskId batch, own r.1 r.2) :
    (l.putWrites g taskId batch).Within own := by
  cases batch with
  | nil => exact h
  | cons w ws =>
    obtain ⟨cache, hput⟩ := putWrites_spec g taskId (List.cons_ne_nil w ws) l
    have hcalls : l.batchCalls g taskId (w :: ws) = [] := by rw [batchCalls, if_pos h.exit]
    rw [hput, hcalls, List.append_nil]
    refine ⟨h.exit, fun p hp => ?_, h.submitted⟩
    rcases List.mem_append.mp hp with hp | hp
    · exact h.pending p (mem_keptWrites hp)
    · obtain ⟨v, hv, rfl⟩ := List.mem_map.mp hp
      exact hb _ (List.mem_map_of_mem hv)

theorem Within.commit {g : Graph C} (h : l.Within own) {taskId : String} {attempt : Attempt}
    (hb : ∀ t, l.task? taskId = some t →
      ∀ r ∈ ownRows l.checkpoint.id taskId (attempt.savedWrites g t.name), own r.1 r.2) :
    (l.commit g taskId attempt).Within own := by
  rw [PregelLoop.commit]
  cases ht : l.task? taskId with
  | none => exact h
  | some t =>
    have hset : (l.setTaskWrites taskId (attempt.taskWrites g t.name)).Within own :=
      ⟨h.exit, h.pending, h.submitted⟩
    exact hset.putWrites (hb t ht)

theorem Within.putInput {g : Graph C} (h : l.Within own) {input : Input}
    (hc : ∀ c, input = .command c →
      ∀ r ∈ ownRows l.checkpoint.id nullTaskId c.writes, own r.1 r.2) :
    (l.putInput g input).1.Within own := by
  cases input with
  | none => exact h
  | value v => exact h
  | command c =>
    rw [PregelLoop.putInput, putCommand]
    split_ifs
    · exact h
    · exact h
    · exact h.putWrites (hc c rfl)

theorem checkpoint_putWrites (g : Graph C) (taskId : String) (batch : List Write)
    (l : PregelLoop C Ver) :
    (l.putWrites g taskId batch).checkpoint = l.checkpoint := by
  cases batch with
  | nil => rfl
  | cons w ws =>
    obtain ⟨cache, hput⟩ := putWrites_spec g taskId (List.cons_ne_nil w ws) l
    rw [hput]

variable [LinearOrder Ver] [OrderBot Ver]

theorem Within.putCheckpoint (h : l.Within own) (hp : l.checkpointPendingWrites = [])
    (next : GetNextVersion Ver) (newId source : String) :
    (l.putCheckpoint next newId source).Within own := by
  have hexit := h.exit
  refine Within.of_empty (by rw [config_putCheckpoint]; exact hexit) ?_ ?_
  · rw [PregelLoop.putCheckpoint]
    simp only [hexit, if_true]
    exact hp
  · rw [PregelLoop.putCheckpoint]
    simp only [hexit, if_true]
    exact h.submitted

theorem Within.afterTick (g : Graph C) (h : l.Within own) (next : GetNextVersion Ver)
    (newId : String) : (l.afterTick g next newId).1.Within own := by
  rw [PregelLoop.afterTick]
  simp only
  split
  · exact ⟨h.exit, h.pending, h.submitted⟩
  · refine Within.putCheckpoint ?_ ?_ next newId "loop"
    · exact Within.of_empty h.exit rfl h.submitted
    · rfl

omit [OrderBot Ver] in
theorem applyNullWrites_frame (g : Graph C) (next : GetNextVersion Ver)
    (updated : Option (Finset String)) (l : PregelLoop C Ver) :
    (l.applyNullWrites g next updated).1.checkpointPendingWrites = l.checkpointPendingWrites ∧
      (l.applyNullWrites g next updated).1.checkpoint.id = l.checkpoint.id ∧
      (l.applyNullWrites g next updated).1.submitted = l.submitted ∧
      (l.applyNullWrites g next updated).1.checkpointMetadata = l.checkpointMetadata := by
  rw [applyNullWrites]
  cases taskWritesOf nullTaskId l.checkpointPendingWrites <;> exact ⟨rfl, rfl, rfl, rfl⟩

theorem Within.resumeFirst (h : l.Within own) {timeTravel : Bool}
    (hleft : timeTravel = true ∧ l.checkpointMetadata.source ∉ ["update", "fork"] →
      l.checkpointPendingWrites.filter (fun w => w.channel ≠ Key.interrupt) = [])
    (next : GetNextVersion Ver) (newId : String) :
    (l.resumeFirst next newId timeTravel).Within own := by
  have hmark : l.markInterruptSeen.Within own := ⟨h.exit, h.pending, h.submitted⟩
  rw [PregelLoop.resumeFirst]
  by_cases hfork : timeTravel = true ∧ l.markInterruptSeen.checkpointMetadata.source ∉
      ["update", "fork"]
  · rw [if_pos hfork]
    exact (hmark.filter _).putCheckpoint (hleft hfork) next newId "fork"
  · rw [if_neg hfork]
    exact hmark

omit [OrderBot Ver] in
theorem applyInputWrites_frame (g : Graph C) (next : GetNextVersion Ver)
    (tasks : List PregelTaskWrites) (l : PregelLoop C Ver) :
    (l.applyInputWrites g next tasks).1.config = l.config ∧
      (l.applyInputWrites g next tasks).1.checkpointPendingWrites = l.checkpointPendingWrites ∧
      (l.applyInputWrites g next tasks).1.checkpoint.id = l.checkpoint.id ∧
      (l.applyInputWrites g next tasks).1.submitted = l.submitted := ⟨rfl, rfl, rfl, rfl⟩

theorem Within.inputFirst {g : Graph C} (h : l.Within own) {updated : Option (Finset String)}
    {writes : List Write} {next : GetNextVersion Ver}
    (hleft : ∀ updated', (l.inputApplied g next updated writes).2 = .ok updated' →
      l.checkpointPendingWrites = []) (newId : String) :
    (l.inputFirst g next newId updated writes).1.Within own := by
  obtain ⟨hconfig, hpending, hid, hsubmitted⟩ := applyInputWrites_frame g next
    (l.discardTasks g updated ++ [⟨[], Key.input, writes, []⟩])
    { l with deltaChannelsWithOverwrite :=
      l.deltaChannelsWithOverwrite ∪ overwritten g.specs writes }
  rw [← inputApplied] at hconfig hpending hid hsubmitted
  have happlied : (l.inputApplied g next updated writes).1.Within own := by
    refine ⟨?_, ?_, ?_⟩
    · rw [hconfig]
      exact h.exit
    · rw [hpending, hid]
      exact h.pending
    · rw [hsubmitted]
      exact h.submitted
  rw [inputFirst_eq]
  generalize l.inputApplied g next updated writes = r at happlied hpending hleft
  obtain ⟨m, e | updated'⟩ := r
  · exact happlied
  · have hempty : m.checkpointPendingWrites = [] := hpending.trans (hleft updated' rfl)
    have hdelta : ({ m.putDeltaInput g writes with updatedChannels := some updated' } :
        PregelLoop C Ver).Within own := by
      have hexit := happlied.exit
      rw [putDeltaInput, if_pos hexit]
      exact Within.of_empty hexit hempty happlied.submitted
    refine hdelta.putCheckpoint ?_ next newId "input"
    rw [putDeltaInput, if_pos happlied.exit]
    exact hempty

theorem Within.first {g : Graph C} {inputKeys : InputKeys} {input : Input} {sameRun : Bool}
    {nextNull next : GetNextVersion Ver} (h : l.Within own)
    (hc : ∀ c, input = .command c →
      ∀ r ∈ ownRows l.checkpoint.id nullTaskId c.writes, own r.1 r.2)
    (hleft : l.leftover g inputKeys input sameRun nextNull next = []) (newId : String) :
    (l.first g inputKeys input sameRun nextNull next newId).1.Within own := by
  have hdrop : (l.dropResumed (l.dropTimeTravel input)).Within own ∧
      (l.dropResumed (l.dropTimeTravel input)).checkpoint = l.checkpoint := by
    rw [dropResumed]
    split_ifs
    · exact ⟨h.filter _, rfl⟩
    · exact ⟨h, rfl⟩
  have hput : ((l.dropResumed (l.dropTimeTravel input)).putInput g input).1.Within own :=
    hdrop.1.putInput (by
      rw [hdrop.2]
      exact hc)
  rw [leftover] at hleft
  rw [PregelLoop.first]
  generalize (l.dropResumed (l.dropTimeTravel input)).putInput g input = r at hput hleft
  obtain ⟨m, e⟩ := r
  cases e with
  | some e => exact hput
  | none =>
    obtain ⟨hpending, hid, hsubmitted, hmetadata⟩ := applyNullWrites_frame g nextNull
      m.storedUpdates m
    have hconfig := config_applyNullWrites g nextNull m.storedUpdates m
    simp only [andThen]
    generalize m.applyNullWrites g nextNull m.storedUpdates = q at *
    obtain ⟨n, e | updated⟩ := q
    · exact ⟨hconfig ▸ hput.exit, by rw [hpending, hid]; exact hput.pending,
        hsubmitted ▸ hput.submitted⟩
    · have hn : n.Within own := ⟨hconfig ▸ hput.exit, by rw [hpending, hid]; exact hput.pending,
        hsubmitted ▸ hput.submitted⟩
      simp only at hleft ⊢
      by_cases hres : l.isResuming input sameRun = true
      · rw [if_pos hres] at hleft ⊢
        have hresumed : (n.resumeFirst next newId (l.dropTimeTravel input)).Within own := by
          refine hn.resumeFirst (fun hfork => ?_) next newId
          rw [hmetadata] at hfork
          rw [if_pos hfork] at hleft
          rw [hpending]
          exact hleft
        exact ⟨hresumed.exit, hresumed.pending, hresumed.submitted⟩
      · rw [if_neg hres] at hleft ⊢
        cases input with
        | none => exact hn
        | command c => exact hn
        | value v =>
          rw [enterInput]
          simp only at hleft
          cases hmap : mapInput inputKeys v with
          | nil => exact hn
          | cons w ws =>
            refine hn.inputFirst (fun updated' hok => ?_) newId
            rw [hmap, hok] at hleft
            rw [hpending]
            exact hleft

omit [BaseChannel C] [LinearOrder Ver] [OrderBot Ver] in
theorem rows_pendingCalls (l : PregelLoop C Ver) {call : SaverCall Ver}
    (hcall : call ∈ l.pendingCalls) {r : String × PendingWrite} (hr : r ∈ call.rows) :
    ∃ w ∈ l.checkpointPendingWrites, r = (l.checkpoint.id, w) := by
  obtain ⟨taskId, -, rfl⟩ := List.mem_map.mp hcall
  obtain ⟨w, hw, rfl⟩ := List.mem_map.mp hr
  obtain ⟨p, hp, rfl⟩ := List.mem_map.mp hw
  obtain ⟨hmem, htask⟩ := List.mem_filter.mp hp
  refine ⟨p, hmem, ?_⟩
  rw [← of_decide_eq_true htask]
  rfl

theorem putExitCheckpoint_frame (next : GetNextVersion Ver) (l : PregelLoop C Ver) :
    (l.putExitCheckpoint next).checkpointPendingWrites = l.checkpointPendingWrites ∧
      (l.putExitCheckpoint next).checkpoint.id = l.checkpoint.id ∧
      ∀ call ∈ (l.putExitCheckpoint next).submitted, call ∈ l.submitted ∨ call.rows = [] := by
  rw [putExitCheckpoint]
  split_ifs
  · exact ⟨rfl, rfl, fun _ h => Or.inl h⟩
  · refine ⟨rfl, rfl, fun call h => ?_⟩
    rcases List.mem_append.mp h with h | h
    · exact Or.inl h
    · rw [List.mem_singleton.mp h]
      exact Or.inr rfl

theorem rows_suppressInterrupt {l : PregelLoop C Ver} (hexit : l.config.durability = .exit)
    (next : GetNextVersion Ver) {call : SaverCall Ver}
    (hcall : call ∈ (l.suppressInterrupt next).submitted) {r : String × PendingWrite}
    (hr : r ∈ call.rows) :
    r ∈ l.putExitDeltaWrites.submitted.flatMap SaverCall.rows ∨
      ∃ w ∈ l.checkpointPendingWrites, r = (l.checkpoint.id, w) := by
  obtain ⟨calls, configId, hdelta, -⟩ := putExitDeltaWrites_spec l
  obtain ⟨hpending, hid, hsubmitted⟩ := putExitCheckpoint_frame next l.putExitDeltaWrites
  have hpending' : l.putExitDeltaWrites.checkpointPendingWrites = l.checkpointPendingWrites := by
    rw [hdelta]
  have hid' : l.putExitDeltaWrites.checkpoint = l.checkpoint := by rw [hdelta]
  rw [suppressInterrupt, if_pos hexit] at hcall
  rcases List.mem_append.mp hcall with hcall | hcall
  · rcases hsubmitted call hcall with hcall | hnone
    · exact Or.inl (List.mem_flatMap.mpr ⟨call, hcall, hr⟩)
    · rw [hnone] at hr
      cases hr
  · obtain ⟨w, hw, rfl⟩ := rows_pendingCalls _ hcall hr
    rw [hpending, hpending'] at hw
    rw [hid, hid']
    exact Or.inr ⟨w, hw, rfl⟩

end Exit

end PregelLoop

namespace PendingOwners

variable [BaseChannel C] [LinearOrder Ver] [OrderBot Ver]

def exitLoop (s : PendingOwners C Ver) : Option (PregelLoop C Ver) :=
  match s.thread.loop with
  | some l => if l.config.durability = .exit then some l else none
  | none => none

def taskRows (g : Graph C) (checkpointId : String) (l : PregelLoop C Ver) :
    Event Ver → List (String × PendingWrite)
  | .commit taskId attempt =>
      match l.task? taskId with
      | some t => ownRows checkpointId taskId (attempt.savedWrites g t.name)
      | none => []
  | .putWrites taskId writes => ownRows checkpointId taskId writes
  | _ => []

-- What the event of a loop in exit mode produces; the exit rows have task ids of their own.
def produces (g : Graph C) (s : PendingOwners C Ver) (l : PregelLoop C Ver) :
    Event Ver → List (String × PendingWrite)
  | .first (.command c) _ _ _ _ => ownRows l.checkpoint.id nullTaskId c.writes
  | .exit _ => l.putExitDeltaWrites.submitted.flatMap SaverCall.rows
  | e => s.prepared.elim [] (fun checkpointId => taskRows g checkpointId l e)

-- Every other writer: its rows belong to the checkpoint it stores them under.
def recorded (g : Graph C) (inputKeys : InputKeys) (s : PendingOwners C Ver) (e : Event Ver) :
    List (String × PendingWrite) :=
  ((s.thread.step g inputKeys e).log.drop s.thread.log.length).flatMap SaverCall.rows

def nowPrepared (g : Graph C) (s : PendingOwners C Ver) (e : Event Ver) : Option String :=
  match e, s.thread.loop with
  | .tick, some l => if (l.tick g).2 = .proceed then some l.checkpoint.id else none
  | .matchCachedWrites, some _ | .taskWrites _ _, some _ | .commit _ _, some _
  | .putWrites _ _, some _ => s.prepared
  | _, _ => none

-- Tasks run between `tick` and `after_tick` only.
def running (s : PendingOwners C Ver) : Event Ver → Bool
  | .taskWrites _ _ | .commit _ _ | .putWrites _ _ => s.prepared.isSome
  | _ => true

def step (g : Graph C) (inputKeys : InputKeys) (s : PendingOwners C Ver) (e : Event Ver) :
    PendingOwners C Ver :=
  if s.running e then
    { thread := s.thread.step g inputKeys e
      prepared := s.nowPrepared g e
      produced := s.produced ++
        (match s.exitLoop with
        | some l => s.produces g l e
        | none => s.recorded g inputKeys e) }
  else s

def fresh : PendingOwners C Ver := ⟨Thread.fresh, none, []⟩

structure Owned (s : PendingOwners C Ver) : Prop where
  stored (call : SaverCall Ver) : call ∈ s.thread.log → ∀ r ∈ call.rows, r ∈ s.produced
  pending (l : PregelLoop C Ver) : s.thread.loop = some l → l.config.durability = .exit →
    ∀ w ∈ l.checkpointPendingWrites, (l.checkpoint.id, w) ∈ s.produced

def NoLeftover (g : Graph C) (inputKeys : InputKeys) (s : PendingOwners C Ver) (e : Event Ver) :
    Prop :=
  match e, s.thread.loop with
  | .first input sameRun nextNull next _, some l =>
      l.config.durability = .exit → l.leftover g inputKeys input sameRun nextNull next = []
  | _, _ => True

variable {g : Graph C} {inputKeys : InputKeys} {s : PendingOwners C Ver}

structure Kept (s : PendingOwners C Ver) : Prop where
  owned : s.Owned
  saver : s.thread.saver.Filed (fun id w => (id, w) ∈ s.produced)
  idle (l : PregelLoop C Ver) : s.thread.loop = some l → l.submitted = []
  prepared (l : PregelLoop C Ver) (id : String) : s.thread.loop = some l →
    l.config.durability = .exit → s.prepared = some id → l.checkpoint.id = id

-- What a loop must meet at the end of a step.
structure Ready (produced : List (String × PendingWrite)) (prepared : Option String)
    (l : PregelLoop C Ver) : Prop where
  submitted : l.submitted = []
  pending : l.config.durability = .exit → ∀ w ∈ l.checkpointPendingWrites,
    (l.checkpoint.id, w) ∈ produced
  prepared : l.config.durability = .exit → ∀ id, prepared = some id → l.checkpoint.id = id

omit [BaseChannel C] [OrderBot Ver] in
theorem Kept.next (h : s.Kept) {calls : List (SaverCall Ver)} {loop : Option (PregelLoop C Ver)}
    {prepared : Option String} {more : List (String × PendingWrite)}
    (hrows : ∀ call ∈ calls, ∀ r ∈ call.rows, r ∈ s.produced ++ more)
    (hloop : ∀ l, loop = some l → Ready (s.produced ++ more) prepared l) :
    Kept ⟨⟨s.thread.saver.execAll calls, loop, s.thread.log ++ calls⟩, prepared,
      s.produced ++ more⟩ where
  owned :=
    { stored := fun call hcall r hr => by
        rcases List.mem_append.mp hcall with hcall | hcall
        · exact List.mem_append_left _ (h.owned.stored call hcall r hr)
        · exact hrows call hcall r hr
      pending := fun l hl => (hloop l hl).pending }
  saver := (h.saver.mono (fun _ _ hw => List.mem_append_left _ hw)).execAll hrows
  idle l hl := (hloop l hl).submitted
  prepared l id hl hexit := (hloop l hl).prepared hexit id

omit [BaseChannel C] [LinearOrder Ver] [OrderBot Ver] in
theorem Kept.stay (h : s.Kept) {prepared : Option String} (more : List (String × PendingWrite))
    (hprepared : ∀ id, prepared = some id → s.prepared = some id) :
    Kept ⟨s.thread, prepared, s.produced ++ more⟩ where
  owned :=
    { stored := fun call hcall r hr => List.mem_append_left _ (h.owned.stored call hcall r hr)
      pending := fun l hl hexit w hw =>
        List.mem_append_left _ (h.owned.pending l hl hexit w hw) }
  saver := h.saver.mono (fun _ _ hw => List.mem_append_left _ hw)
  idle := h.idle
  prepared l id hl hexit hid := h.prepared l id hl hexit (hprepared id hid)

theorem recorded_of {e : Event Ver} {calls : List (SaverCall Ver)}
    (hlog : (s.thread.step g inputKeys e).log = s.thread.log ++ calls) :
    s.recorded g inputKeys e = calls.flatMap SaverCall.rows := by
  rw [recorded, hlog, List.drop_left]

theorem Kept.record (h : s.Kept) {e : Event Ver} {calls : List (SaverCall Ver)}
    {loop : Option (PregelLoop C Ver)} {prepared : Option String}
    (hstep : s.thread.step g inputKeys e =
      ⟨s.thread.saver.execAll calls, loop, s.thread.log ++ calls⟩)
    (hloop : ∀ l, loop = some l →
      Ready (s.produced ++ s.recorded g inputKeys e) prepared l) :
    Kept ⟨s.thread.step g inputKeys e, prepared, s.produced ++ s.recorded g inputKeys e⟩ := by
  have hrecorded : s.recorded g inputKeys e = calls.flatMap SaverCall.rows :=
    recorded_of (congrArg Thread.log hstep)
  have hnext := @Kept.next C Ver _ s h calls loop prepared (s.recorded g inputKeys e)
    (fun call hcall r hr => by
      rw [hrecorded]
      exact List.mem_append_right _ (List.mem_flatMap.mpr ⟨call, hcall, hr⟩)) hloop
  rw [← hstep] at hnext
  exact hnext

theorem Kept.same (h : s.Kept) {e : Event Ver} (hstep : s.thread.step g inputKeys e = s.thread)
    {prepared : Option String} (more : List (String × PendingWrite))
    (hprepared : ∀ id, prepared = some id → s.prepared = some id) :
    Kept ⟨s.thread.step g inputKeys e, prepared, s.produced ++ more⟩ := by
  rw [hstep]
  exact h.stay more hprepared

theorem Kept.proceedDirect (h : s.Kept) {e : Event Ver} {l : PregelLoop C Ver}
    (hstep : s.thread.step g inputKeys e = s.thread.proceed l) (hne : l.config.durability ≠ .exit)
    (prepared : Option String) :
    Kept ⟨s.thread.step g inputKeys e, prepared, s.produced ++ s.recorded g inputKeys e⟩ := by
  refine h.record hstep (fun l' hl' => ?_)
  obtain rfl := Option.some.inj hl'
  exact ⟨rfl, fun hexit => absurd hexit hne, fun hexit => absurd hexit hne⟩

theorem Kept.closeDirect (h : s.Kept) {e : Event Ver} {l : PregelLoop C Ver}
    (hstep : s.thread.step g inputKeys e = s.thread.close l) (prepared : Option String) :
    Kept ⟨s.thread.step g inputKeys e, prepared, s.produced ++ s.recorded g inputKeys e⟩ :=
  h.record hstep (fun _ hl' => by cases hl')

theorem Kept.enter (h : s.Kept) {config : LoopConfig} {cache : Option WritesCache}
    {freshId : String} {checkpointId : Option String} (hnone : s.thread.loop = none) :
    Kept ⟨s.thread.step g inputKeys (.enter config cache freshId checkpointId), none,
      s.produced ++ s.recorded g inputKeys (.enter config cache freshId checkpointId)⟩ := by
  cases henter : PregelLoop.enter g config cache freshId checkpointId s.thread.saver with
  | error e =>
    refine h.same ?_ _ (fun _ hid => by cases hid)
    simp only [Thread.step, hnone, henter]
  | ok l =>
    have hstep : s.thread.step g inputKeys (.enter config cache freshId checkpointId) =
        s.thread.proceed l := by
      simp only [Thread.step, hnone, henter]
    refine h.record hstep (fun l' hl' => ?_)
    obtain rfl := Option.some.inj hl'
    refine ⟨rfl, fun _ w hw => List.mem_append_left _ ?_, fun _ _ hid => by cases hid⟩
    unfold PregelLoop.enter at henter
    simp only at henter
    split at henter
    · cases henter
    · obtain rfl := Except.ok.inj henter
      cases htuple : s.thread.saver.getTuple checkpointId with
      | none =>
        simp only [htuple] at hw
        cases hw
      | some tuple =>
        simp only [htuple] at hw ⊢
        exact h.saver.getTuple htuple w hw

theorem Kept.recordStep (h : s.Kept) (hno : s.exitLoop = none) (e : Event Ver) :
    Kept ⟨s.thread.step g inputKeys e, s.nowPrepared g e,
      s.produced ++ s.recorded g inputKeys e⟩ := by
  cases hl : s.thread.loop with
  | none =>
    cases e with
    | enter config cache freshId checkpointId =>
      simp only [nowPrepared]
      exact h.enter hl
    | updateState update nextNull next freshId newId checkpointId =>
      have hstep : s.thread.step g inputKeys
          (.updateState update nextNull next freshId newId checkpointId) =
          s.thread.exec (updateState g inputKeys nextNull next freshId newId checkpointId update
            s.thread.saver).1 := by
        simp only [Thread.step, hl]
      exact h.record hstep (fun l' hl' => by rw [hl] at hl'; cases hl')
    | first | tick | matchCachedWrites | taskWrites | commit | putWrites | afterTick | exit =>
      refine h.same ?_ _ (fun _ hid => ?_)
      · simp only [Thread.step, hl]
      · simp only [nowPrepared, hl] at hid
        cases hid
  | some l =>
    have hne : l.config.durability ≠ .exit := by
      intro hexit
      simp only [exitLoop, hl, hexit, if_true] at hno
      cases hno
    cases e with
    | enter | updateState =>
      refine h.same ?_ _ (fun _ hid => ?_)
      · simp only [Thread.step, hl]
      · simp only [nowPrepared] at hid
        cases hid
    | first input sameRun nextNull next newId =>
      have hconfig := PregelLoop.config_first g inputKeys input sameRun nextNull next newId l
      cases hfirst : l.first g inputKeys input sameRun nextNull next newId with
      | mk l' e =>
        rw [hfirst] at hconfig
        cases e with
        | none =>
          refine h.proceedDirect (l := l') ?_ (hconfig ▸ hne) _
          simp only [Thread.step, hl, hfirst]
        | some e =>
          refine h.closeDirect (l := l') ?_ _
          simp only [Thread.step, hl, hfirst]
    | tick =>
      refine h.proceedDirect (l := (l.tick g).1) ?_ ?_ _
      · simp only [Thread.step, hl]
      · rw [PregelLoop.config_tick]
        exact hne
    | matchCachedWrites =>
      refine h.proceedDirect (l := l.matchCachedWrites) ?_ ?_ _
      · simp only [Thread.step, hl]
      · rw [PregelLoop.config_matchCachedWrites]
        exact hne
    | taskWrites taskId writes =>
      refine h.proceedDirect (l := l.setTaskWrites taskId writes) ?_ hne _
      simp only [Thread.step, hl]
    | commit taskId attempt =>
      refine h.proceedDirect (l := l.commit g taskId attempt) ?_ ?_ _
      · simp only [Thread.step, hl]
      · rw [PregelLoop.config_commit]
        exact hne
    | putWrites taskId writes =>
      refine h.proceedDirect (l := l.putWrites g taskId writes) ?_ ?_ _
      · simp only [Thread.step, hl]
      · rw [PregelLoop.config_putWrites]
        exact hne
    | afterTick next newId =>
      have hconfig := PregelLoop.config_afterTick g next newId l
      cases hafter : l.afterTick g next newId with
      | mk l' e =>
        rw [hafter] at hconfig
        have hne' : l'.config.durability ≠ .exit := hconfig ▸ hne
        cases e with
        | none =>
          refine h.proceedDirect (l := l') ?_ hne' _
          simp only [Thread.step, hl, hafter]
        | some e =>
          refine h.closeDirect (l := l') ?_ _
          simp only [Thread.step, hl, hafter, hne', if_false]
    | exit next =>
      refine h.closeDirect (l := l.suppressInterrupt next) ?_ _
      simp only [Thread.step, hl]

theorem Kept.proceedExit (h : s.Kept) {e : Event Ver} {l : PregelLoop C Ver}
    {more : List (String × PendingWrite)} {prepared : Option String}
    (hstep : s.thread.step g inputKeys e = s.thread.proceed l)
    (hl : l.Within (fun id w => (id, w) ∈ s.produced ++ more))
    (hprepared : ∀ id, prepared = some id → l.checkpoint.id = id) :
    Kept ⟨s.thread.step g inputKeys e, prepared, s.produced ++ more⟩ := by
  rw [hstep]
  refine h.next (fun call hcall => ?_) (fun l' hl' => ?_)
  · rw [hl.submitted] at hcall
    cases hcall
  · obtain rfl := Option.some.inj hl'
    exact ⟨rfl, fun _ => hl.pending, fun _ => hprepared⟩

theorem Kept.closeExit (h : s.Kept) {e : Event Ver} {l : PregelLoop C Ver}
    {more : List (String × PendingWrite)} {prepared : Option String}
    (hstep : s.thread.step g inputKeys e = s.thread.close l)
    (hrows : ∀ call ∈ l.submitted, ∀ r ∈ call.rows, r ∈ s.produced ++ more) :
    Kept ⟨s.thread.step g inputKeys e, prepared, s.produced ++ more⟩ := by
  rw [hstep]
  exact h.next hrows (fun _ hl' => by cases hl')

theorem Kept.exitStep (h : s.Kept) {l : PregelLoop C Ver} (hl : s.thread.loop = some l)
    (hexit : l.config.durability = .exit) {e : Event Ver} (hrun : s.running e = true)
    (hok : s.NoLeftover g inputKeys e) :
    Kept ⟨s.thread.step g inputKeys e, s.nowPrepared g e, s.produced ++ s.produces g l e⟩ := by
  have hwithin (more : List (String × PendingWrite)) :
      l.Within (fun id w => (id, w) ∈ s.produced ++ more) :=
    ⟨hexit, fun w hw => List.mem_append_left _ (h.owned.pending l hl hexit w hw), h.idle l hl⟩
  cases e with
  | enter | updateState =>
    refine h.same ?_ _ (fun _ hid => ?_)
    · simp only [Thread.step, hl]
    · simp only [nowPrepared] at hid
      cases hid
  | first input sameRun nextNull next newId =>
    have hleft : l.leftover g inputKeys input sameRun nextNull next = [] := by
      simp only [NoLeftover, hl] at hok
      exact hok hexit
    have hfirst := (hwithin (s.produces g l (.first input sameRun nextNull next newId))).first
      (g := g) (fun c hc r hr => by
        subst hc
        exact List.mem_append_right _ hr) hleft newId
    cases hresult : l.first g inputKeys input sameRun nextNull next newId with
    | mk l' e =>
      rw [hresult] at hfirst
      cases e with
      | none =>
        refine h.proceedExit (l := l') ?_ hfirst (fun _ hid => by cases hid)
        simp only [Thread.step, hl, hresult]
      | some e =>
        refine h.closeExit (l := l') ?_ (fun call hcall => ?_)
        · simp only [Thread.step, hl, hresult]
        · rw [hfirst.submitted] at hcall
          cases hcall
  | tick =>
    have htick : (l.tick g).1.Within (fun id w => (id, w) ∈ s.produced ++ s.produces g l .tick) ∧
        (l.tick g).1.checkpoint = l.checkpoint := by
      have hl' := hwithin (s.produces g l .tick)
      rw [PregelLoop.tick]
      simp only
      split_ifs
      · exact ⟨hl', rfl⟩
      · exact ⟨⟨hl'.exit, hl'.pending, hl'.submitted⟩, rfl⟩
      · exact ⟨⟨hl'.exit, hl'.pending, hl'.submitted⟩, rfl⟩
      · exact ⟨⟨hl'.exit, hl'.pending, hl'.submitted⟩, rfl⟩
    refine h.proceedExit (l := (l.tick g).1) ?_ htick.1 (fun id hid => ?_)
    · simp only [Thread.step, hl]
    · rw [htick.2]
      simp only [nowPrepared, hl] at hid
      split_ifs at hid
      exact Option.some.inj hid
  | matchCachedWrites =>
    have hmatch : l.matchCachedWrites.checkpoint = l.checkpoint ∧
        l.matchCachedWrites.Within (fun id w =>
          (id, w) ∈ s.produced ++ s.produces g l .matchCachedWrites) := by
      have hl' := hwithin (s.produces g l .matchCachedWrites)
      rw [PregelLoop.matchCachedWrites]
      split
      · exact ⟨rfl, hl'.exit, hl'.pending, hl'.submitted⟩
      · exact ⟨rfl, hl'⟩
    refine h.proceedExit (l := l.matchCachedWrites) ?_ hmatch.2 (fun id hid => ?_)
    · simp only [Thread.step, hl]
    · rw [hmatch.1]
      simp only [nowPrepared, hl] at hid
      exact h.prepared l id hl hexit hid
  | taskWrites taskId writes =>
    have hl' := hwithin (s.produces g l (.taskWrites taskId writes))
    refine h.proceedExit (l := l.setTaskWrites taskId writes) ?_
      ⟨hl'.exit, hl'.pending, hl'.submitted⟩ (fun id hid => ?_)
    · simp only [Thread.step, hl]
    · simp only [nowPrepared, hl] at hid
      exact h.prepared l id hl hexit hid
  | commit taskId attempt =>
    obtain ⟨id, hid⟩ := Option.isSome_iff_exists.mp hrun
    have hsame := h.prepared l id hl hexit hid
    have hcommit : (l.commit g taskId attempt).Within
        (fun id w => (id, w) ∈ s.produced ++ s.produces g l (.commit taskId attempt)) :=
      (hwithin (s.produces g l (.commit taskId attempt))).commit (fun t ht r hr => by
        refine List.mem_append_right _ ?_
        simp only [produces, hid, Option.elim_some, taskRows, ht]
        rw [← hsame]
        exact hr)
    refine h.proceedExit (l := l.commit g taskId attempt) ?_ hcommit (fun id' hid' => ?_)
    · simp only [Thread.step, hl]
    · simp only [nowPrepared, hl] at hid'
      have hcheckpoint : (l.commit g taskId attempt).checkpoint = l.checkpoint := by
        rw [PregelLoop.commit]
        cases l.task? taskId with
        | none => rfl
        | some t => exact PregelLoop.checkpoint_putWrites g taskId _ _
      rw [hcheckpoint]
      exact h.prepared l id' hl hexit hid'
  | putWrites taskId writes =>
    obtain ⟨id, hid⟩ := Option.isSome_iff_exists.mp hrun
    have hsame := h.prepared l id hl hexit hid
    have hput : (l.putWrites g taskId writes).Within
        (fun id w => (id, w) ∈ s.produced ++ s.produces g l (.putWrites taskId writes)) :=
      (hwithin (s.produces g l (.putWrites taskId writes))).putWrites (fun r hr => by
        refine List.mem_append_right _ ?_
        simp only [produces, hid, Option.elim_some, taskRows]
        rw [← hsame]
        exact hr)
    refine h.proceedExit (l := l.putWrites g taskId writes) ?_ hput (fun id' hid' => ?_)
    · simp only [Thread.step, hl]
    · simp only [nowPrepared, hl] at hid'
      rw [PregelLoop.checkpoint_putWrites]
      exact h.prepared l id' hl hexit hid'
  | afterTick next newId =>
    have hafter := (hwithin (s.produces g l (.afterTick next newId))).afterTick g next newId
    cases hresult : l.afterTick g next newId with
    | mk l' e =>
      rw [hresult] at hafter
      have hexit' := hafter.exit
      cases e with
      | none =>
        refine h.proceedExit (l := l') ?_ hafter (fun _ hid => by cases hid)
        simp only [Thread.step, hl, hresult]
      | some e =>
        refine h.proceedExit (l := l') ?_ hafter (fun _ hid => by cases hid)
        simp only [Thread.step, hl, hresult]
        exact if_pos hexit'
  | exit next =>
    refine h.closeExit (l := l.suppressInterrupt next) ?_ (fun call hcall r hr => ?_)
    · simp only [Thread.step, hl]
    · rcases PregelLoop.rows_suppressInterrupt hexit next hcall hr with hdelta | ⟨w, hw, rfl⟩
      · exact List.mem_append_right _ hdelta
      · exact List.mem_append_left _ (h.owned.pending l hl hexit w hw)

omit [BaseChannel C] [LinearOrder Ver] [OrderBot Ver] in
theorem exitLoop_some {l : PregelLoop C Ver} (h : s.exitLoop = some l) :
    s.thread.loop = some l ∧ l.config.durability = .exit := by
  rw [exitLoop] at h
  cases hl : s.thread.loop with
  | none =>
    rw [hl] at h
    cases h
  | some l' =>
    simp only [hl] at h
    split_ifs at h with hexit
    obtain rfl := Option.some.inj h
    exact ⟨rfl, hexit⟩

theorem Kept.step (h : s.Kept) {e : Event Ver} (hok : s.NoLeftover g inputKeys e) :
    (s.step g inputKeys e).Kept := by
  rw [PendingOwners.step]
  by_cases hrun : s.running e = true
  · rw [if_pos hrun]
    cases hloop : s.exitLoop with
    | none => exact h.recordStep hloop e
    | some l =>
      obtain ⟨hl, hexit⟩ := exitLoop_some hloop
      exact h.exitStep hl hexit hrun hok
  · rw [if_neg hrun]
    exact h

omit [BaseChannel C] [LinearOrder Ver] [OrderBot Ver] in
theorem kept_fresh : (fresh : PendingOwners C Ver).Kept where
  owned :=
    { stored := fun call hcall => absurd hcall List.not_mem_nil
      pending := fun l hl => by cases hl }
  saver :=
    { rows := fun id e he => by cases he
      keyed := fun id saved hget => by cases hget }
  idle l hl := by cases hl
  prepared l id hl := by cases hl

section Runs

def approvalGraph : Graph Channel :=
  { Graph.ofSpecs (Dict.ofList [("a", Channel.lastValue ⟨"a", none⟩)]) with
    nodes := Dict.ofList [("n", ⟨.single "a", ["a"], none, none, none, none, true⟩)]
    triggerToNodes := Dict.ofList [("a", ["n"])] }

-- A run in exit mode that takes the input, starts the node and ends with its interrupt.
def interruptedRun (input : Input) (newId taskId : String) : List (Event Nat) :=
  [.enter (LoopConfig.plain .exit) none "0" none,
    .first input false successor successor newId, .tick,
    .commit taskId ⟨[], some (.interrupt [.str "approve"])⟩, .exit successor]

-- The update of the Command is stored once more, under the checkpoint of the new input.
def updateThenInput : List (Event Nat) :=
  interruptedRun (.value (.int 7)) "1" "1n0n__pregel_pulla" ++
    interruptedRun (.command ⟨[], none, [("a", .int 9)]⟩) "2" "1n0n__pregel_pulla" ++
    interruptedRun (.value (.int 8)) "2" "2n1n__pregel_pulla"

end Runs

end PendingOwners

end LangGraph
