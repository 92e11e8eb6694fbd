import LangGraph.Pregel.Thread
import LangGraph.Pregel.PendingSends
import LangGraph.Pregel.OrderIndependence
import Mathlib.Data.List.Perm.Subperm

namespace LangGraph

open Collections Transition

variable {Ver : Type}

-- The Sends of a Command, and those that other writes carry to the TASKS channel.
def Command.sends (c : Command) : List Value := flatten (c.goto.filterMap Sum.getRight?)

def sendsIn (writes : List Write) : List Value := flatten (writesTo Key.tasks writes)

theorem sendsIn_append (ws us : List Write) : sendsIn (ws ++ us) = sendsIn ws ++ sendsIn us := by
  rw [sendsIn, writesTo, List.filter_append, List.map_append, flatten_append]
  rfl

theorem sendsIn_nil {writes : List Write} (h : ∀ w ∈ writes, w.1 ≠ Key.tasks) :
    sendsIn writes = [] := by
  have hnone : writes.filter (fun w => w.1 = Key.tasks) = [] := by
    rw [List.filter_eq_nil_iff]
    intro w hw
    simpa using h w hw
  rw [sendsIn, writesTo, hnone]
  rfl

theorem tasks_not_special : ¬ Special Key.tasks := by decide

theorem sendsIn_goto (targets : List (String ⊕ Value)) :
    sendsIn (targets.map Command.gotoWrite) = flatten (targets.filterMap Sum.getRight?) := by
  induction targets with
  | nil => rfl
  | cons target targets ih =>
    rw [List.map_cons, ← List.singleton_append, sendsIn_append, ih]
    cases target with
    | inl node =>
      have hbranch : ("branch:to:" ++ node) ≠ Key.tasks := by
        intro h
        have hlist := congrArg String.toList h
        rw [String.toList_append] at hlist
        exact absurd (congrArg List.head? hlist) (by simp [Key.tasks])
      rw [sendsIn_nil (by simpa [Command.gotoWrite] using hbranch)]
      rfl
    | inr v =>
      have hone : sendsIn [Command.gotoWrite (.inr v)] = flatten [v] := rfl
      rw [hone, ← flatten_append]
      rfl

theorem sendsIn_command (c : Command) : sendsIn c.writes = c.sends ++ sendsIn c.update := by
  have hkey : Key.resume ≠ Key.tasks := by decide
  have hresume (v : Value) : sendsIn [(Key.resume, v)] = [] :=
    sendsIn_nil (fun w hw => (List.mem_singleton.mp hw) ▸ hkey)
  have hnil : sendsIn [] = [] := rfl
  rw [Command.writes, sendsIn_append, sendsIn_append, sendsIn_goto, Command.sends]
  cases c.resume with
  | none => rw [hnil, List.append_nil]
  | some v =>
    simp only
    split
    · rw [hnil, List.append_nil]
    · rw [hresume, List.append_nil]

theorem exists_write_of_sends {writes : List Write} (h : sendsIn writes ≠ []) :
    ∃ w ∈ writes, w.1 = Key.tasks := by
  by_contra hnone
  exact h (sendsIn_nil (fun w hw heq => hnone ⟨w, hw, heq⟩))

theorem dedupWrites_sends {writes : List Write} (h : sendsIn writes ≠ []) :
    dedupWrites writes = writes := by
  obtain ⟨w, hw, hkey⟩ := exists_write_of_sends h
  rw [dedupWrites, if_neg]
  intro hall
  exact tasks_not_special (hkey ▸ hall w hw)

theorem sendsIn_taskWrites {p : PendingWrite → Bool} {pending : List PendingWrite}
    (h : ∀ w ∈ pending, w.channel = Key.tasks → w.taskId = nullTaskId → p w = true) :
    sendsIn (taskWritesOf nullTaskId (pending.filter p)) =
      sendsIn (taskWritesOf nullTaskId pending) := by
  have hfilter : ((pending.filter p).filter (fun w => w.taskId = nullTaskId)).filter
        (fun w => w.channel = Key.tasks) =
      (pending.filter (fun w => w.taskId = nullTaskId)).filter
        (fun w => w.channel = Key.tasks) := by
    rw [List.filter_filter, List.filter_filter, List.filter_filter]
    refine List.filter_congr (fun w hw => ?_)
    have hp := h w hw
    by_cases hc : w.channel = Key.tasks
    · by_cases ht : w.taskId = nullTaskId
      · simp [hc, ht, hp hc ht]
      · simp [ht]
    · simp [hc]
  have hmap (l : List PendingWrite) : writesTo Key.tasks (l.map PendingWrite.write) =
      (l.filter (fun w => w.channel = Key.tasks)).map PendingWrite.value := by
    rw [writesTo, List.filter_map, List.map_map]
    rfl
  rw [sendsIn, sendsIn, taskWritesOf, taskWritesOf, hmap, hmap, hfilter]

theorem appended_append {α : Type} (xs ys : List α) (zs ws : List α) :
    (xs ++ ys).Subperm (zs ++ (ys ++ ws)) ↔ xs.Subperm (zs ++ ws) := by
  have hleft : (xs ++ ys).Perm (ys ++ xs) := List.perm_append_comm
  have hright : (zs ++ (ys ++ ws)).Perm (ys ++ (zs ++ ws)) := by
    rw [← List.append_assoc, ← List.append_assoc]
    exact List.perm_append_comm.append_right ws
  rw [hleft.subperm_right, hright.subperm_left, List.subperm_append_left]

section Loaded

variable [LinearOrder Ver] [OrderBot Ver] {g : Graph Channel} {l : PregelLoop Channel Ver}

-- What the null writes stored before the Command send.
def PregelLoop.storedSends (l : PregelLoop Channel Ver) : List Value :=
  sendsIn (taskWritesOf nullTaskId l.checkpointPendingWrites)

omit [OrderBot Ver] in
theorem topic_enter (hg : SendTopic g.specs) {config : LoopConfig} {cache : Option WritesCache}
    {freshId : String} {checkpointId : Option String} {saver : InMemorySaver Ver}
    (h : PregelLoop.enter g config cache freshId checkpointId saver = .ok l) :
    SendTopic l.channels := by
  unfold PregelLoop.enter at h
  simp only at h
  split at h
  · cases h
  · rename_i channels hload
    rw [← Except.ok.inj h]
    exact ⟨_, topic_load hg hload⟩

-- The null writes replace what the TASKS channel holds by what they send.
omit [OrderBot Ver] in
theorem pendingSends_nullWrites {vs : List Value}
    (hvs : l.channels.get? Key.tasks = some (.topic ⟨false, vs⟩))
    (hsends : l.storedSends ≠ []) {next : GetNextVersion Ver} {stored : Option (Finset String)}
    {updated : Option (Finset String)} (h : (l.applyNullWrites g next stored).2 = .ok updated) :
    Graph.pendingSends (l.applyNullWrites g next stored).1.channels = l.storedSends := by
  obtain ⟨w, hw, hkey⟩ := exists_write_of_sends hsends
  unfold PregelLoop.applyNullWrites at h ⊢
  rw [PregelLoop.storedSends] at *
  generalize taskWritesOf nullTaskId l.checkpointPendingWrites = writes at *
  cases writes with
  | nil => cases hw
  | cons u rest =>
    simp only [PregelLoop.applyInputWrites] at h ⊢
    have hok : ∃ u', (applyWrites l.checkpoint l.channels [⟨[], Key.input, u :: rest, []⟩]
        (some next) g.triggerToNodes).2.2 = .ok u' := by
      generalize (applyWrites l.checkpoint l.channels [⟨[], Key.input, u :: rest, []⟩]
        (some next) g.triggerToNodes).2.2 = r at h
      cases r with
      | error e => cases h
      | ok u' => exact ⟨u', rfl⟩
    obtain ⟨u', hok⟩ := hok
    have hwrites : writesTasks [⟨[], Key.input, u :: rest, []⟩] = true :=
      List.any_eq_true.mpr ⟨_, List.mem_singleton_self _,
        List.any_eq_true.mpr ⟨w, hw, decide_eq_true hkey⟩⟩
    have htopic := tasks_applyWrites hvs hok
    have hsort : sortTasks [⟨[], Key.input, u :: rest, []⟩] =
        [(⟨[], Key.input, u :: rest, []⟩ : PregelTaskWrites)] := rfl
    have hbump : bumpStep [(⟨[], Key.input, u :: rest, []⟩ : PregelTaskWrites)] = false := rfl
    rw [hsort, hbump, hwrites, sendsOf, List.flatMap_singleton] at htopic
    exact pendingSends_topic htopic

-- The rows that the Command adds keep every Send that was stored.
omit [LinearOrder Ver] [OrderBot Ver] in
theorem storedSends_putCommand {c : Command} (hc : c.sends ≠ [])
    (h : (l.putCommand g c).2 = none) :
    (l.putCommand g c).1.storedSends = l.storedSends ++ (c.sends ++ sendsIn c.update) ∧
      (l.putCommand g c).1.channels = l.channels := by
  have hsends : sendsIn c.writes ≠ [] := by
    rw [sendsIn_command]
    exact fun hnil => hc (List.append_eq_nil_iff.mp hnil).1
  have hne : c.writes ≠ [] := fun hnil => hsends (by rw [hnil]; rfl)
  have hput : (l.putCommand g c).1 = l.putWrites g nullTaskId c.writes := by
    unfold PregelLoop.putCommand at h ⊢
    simp only at h ⊢
    split_ifs at h ⊢
    rfl
  obtain ⟨cache, heq⟩ := PregelLoop.putWrites_spec g nullTaskId hne l
  have hkept : sendsIn (taskWritesOf nullTaskId
      (PregelLoop.keptWrites nullTaskId l.checkpointPendingWrites)) = l.storedSends := by
    rw [PregelLoop.keptWrites, if_pos rfl, PregelLoop.storedSends]
    refine sendsIn_taskWrites (fun w _ hw _ => decide_eq_true (Or.inr ?_))
    rw [hw]
    exact tasks_not_special
  have hnew : taskWritesOf nullTaskId
      (c.writes.map (fun w => PendingWrite.mk nullTaskId w.1 w.2)) = c.writes := by
    simp [taskWritesOf, PendingWrite.write, List.filter_map, Function.comp_def]
  rw [hput, heq]
  refine ⟨?_, rfl⟩
  rw [dedupWrites_sends hsends, PregelLoop.storedSends]
  simp only
  rw [taskWritesOf, List.filter_append, List.map_append, sendsIn_append]
  rw [taskWritesOf] at hkept hnew
  rw [hkept, hnew, sendsIn_command]

omit [LinearOrder Ver] [OrderBot Ver] in
theorem storedSends_dropResumed (timeTravel : Bool) :
    (l.dropResumed timeTravel).storedSends = l.storedSends ∧
      (l.dropResumed timeTravel).channels = l.channels := by
  unfold PregelLoop.dropResumed
  split
  · refine ⟨sendsIn_taskWrites (fun w _ hw _ => decide_eq_true ?_), rfl⟩
    rw [hw]
    decide
  · exact ⟨rfl, rfl⟩

omit [OrderBot Ver] in
-- The Sends pending at the checkpoint survive just when the other null writes repeat them.
theorem goto_sends_added_iff (hg : SendTopic g.specs) {config : LoopConfig}
    {cache : Option WritesCache} {freshId : String} {checkpointId : Option String}
    {saver : InMemorySaver Ver}
    (henter : PregelLoop.enter g config cache freshId checkpointId saver = .ok l)
    {c : Command} (hc : c.sends ≠ []) {m : PregelLoop Channel Ver}
    (hput : (l.dropResumed (l.dropTimeTravel (.command c))).putInput g (.command c) = (m, none))
    {next : GetNextVersion Ver} {updated : Option (Finset String)}
    (hnull : (m.applyNullWrites g next m.storedUpdates).2 = .ok updated) :
    (Graph.pendingSends l.channels ++ c.sends).Subperm
        (Graph.pendingSends (m.applyNullWrites g next m.storedUpdates).1.channels) ↔
      (Graph.pendingSends l.channels).Subperm (l.storedSends ++ sendsIn c.update) := by
  obtain ⟨vs, hvs⟩ := topic_enter hg henter
  obtain ⟨hstored, hchannels⟩ := @storedSends_dropResumed _ l (l.dropTimeTravel (.command c))
  obtain ⟨hsent, hsame⟩ := storedSends_putCommand hc (congrArg Prod.snd hput)
  have hm : (PregelLoop.putCommand g c (l.dropResumed (l.dropTimeTravel (.command c)))).1 = m :=
    congrArg Prod.fst hput
  rw [hm, hstored] at hsent
  rw [hm, hchannels] at hsame
  have hne : m.storedSends ≠ [] := by
    rw [hsent]
    intro hnil
    exact hc (List.append_eq_nil_iff.mp (List.append_eq_nil_iff.mp hnil).2).1
  rw [pendingSends_nullWrites (hsame ▸ hvs) hne hnull, hsent]
  exact appended_append _ _ _ _

end Loaded

section Runs

def workGraph : Graph Channel :=
  { Graph.ofSpecs (Dict.ofList [("a", Channel.lastValue ⟨"a", none⟩),
      (Key.tasks, .topic ⟨false, []⟩)]) with
    nodes := Dict.ofList [("plan", ⟨.single "a", ["a"], none, none, none, none, true⟩),
      ("work", ⟨.single "a", [], none, none, none, none, true⟩)]
    triggerToNodes := Dict.ofList [("a", ["plan"])] }

-- The planner sends one piece of work, which is interrupted.
def interruptedWork : InMemorySaver Nat :=
  (run (Thread.step workGraph (.single "a")) Thread.fresh
    [.enter (LoopConfig.plain .sync) none "0" none,
      .first (.value (.int 7)) false successor successor "1", .tick,
      .commit "1plan0plan__pregel_pulla" ⟨[(Key.tasks, .send "work" (.int 1))], none⟩,
      .afterTick successor "2", .tick,
      .commit "2work1work__pregel_push0" ⟨[], some (.interrupt [.str "approve"])⟩,
      .exit successor]).saver

def sendMore : Command := ⟨[.inr (.send "work" (.int 2))], some (.str "yes"), []⟩

theorem sends_added_to_none :
    let c : Command := ⟨[.inr (.send "work" (.int 2))], none, []⟩
    ∃ l m : PregelLoop Channel Nat, ∃ updated : Option (Finset String),
      PregelLoop.enter workGraph (LoopConfig.plain .sync) none "0" none InMemorySaver.empty =
        .ok l ∧
      (l.dropResumed (l.dropTimeTravel (.command c))).putInput workGraph (.command c) = (m, none) ∧
      (m.applyNullWrites workGraph successor m.storedUpdates).2 = .ok updated ∧
      (Graph.pendingSends l.channels ++ c.sends).Subperm (Graph.pendingSends
        (m.applyNullWrites workGraph successor m.storedUpdates).1.channels) := by
  intro c
  have hg : SendTopic workGraph.specs := ⟨[], rfl⟩
  obtain ⟨l, hl⟩ : ∃ l : PregelLoop Channel Nat, PregelLoop.enter workGraph
      (LoopConfig.plain .sync) none "0" none InMemorySaver.empty = .ok l := ⟨_, rfl⟩
  obtain ⟨m, hm⟩ : ∃ m, (l.dropResumed (l.dropTimeTravel (.command c))).putInput workGraph
      (.command c) = (m, none) := by
    cases hl
    exact ⟨_, rfl⟩
  obtain ⟨updated, hu⟩ : ∃ updated,
      (m.applyNullWrites workGraph successor m.storedUpdates).2 = .ok updated := by
    cases hl
    cases hm
    exact ⟨_, rfl⟩
  refine ⟨l, m, updated, hl, hm, hu, (goto_sends_added_iff hg hl (by decide) hm hu).mpr ?_⟩
  cases hl
  exact List.nil_subperm

-- The interrupted work is dropped when the Command that resumes it sends more.
theorem interrupted_work_dropped :
    ¬ ∀ (l m : PregelLoop Channel Nat) (updated : Option (Finset String)),
      PregelLoop.enter workGraph (LoopConfig.plain .sync) none "3" none interruptedWork = .ok l →
      (l.dropResumed (l.dropTimeTravel (.command sendMore))).putInput workGraph
        (.command sendMore) = (m, none) →
      (m.applyNullWrites workGraph successor m.storedUpdates).2 = .ok updated →
      (Graph.pendingSends l.channels ++ sendMore.sends).Subperm (Graph.pendingSends
        (m.applyNullWrites workGraph successor m.storedUpdates).1.channels) := by
  intro h
  have hrun : (PregelLoop.enter workGraph (LoopConfig.plain .sync) none "3" none
      interruptedWork).toOption.any (fun l =>
        let put := (l.dropResumed (l.dropTimeTravel (.command sendMore))).putInput workGraph
          (.command sendMore)
        let null := put.1.applyNullWrites workGraph successor put.1.storedUpdates
        put.2.isNone && null.2.toOption.isSome &&
          decide (Graph.pendingSends l.channels = [.send "work" (.int 1)]) &&
          decide (Graph.pendingSends null.1.channels = [.send "work" (.int 2)])) = true := by
    decide +kernel
  cases henter : PregelLoop.enter workGraph (LoopConfig.plain .sync) none "3" none
      interruptedWork with
  | error e =>
    rw [henter] at hrun
    cases hrun
  | ok l =>
    rw [henter] at hrun
    have hboth := (Option.any_some ..).symm.trans hrun
    rw [Bool.and_eq_true, Bool.and_eq_true, Bool.and_eq_true] at hboth
    obtain ⟨⟨⟨hput, hnull⟩, hbefore⟩, hafter⟩ := hboth
    obtain ⟨m, hm⟩ : ∃ m, (l.dropResumed (l.dropTimeTravel (.command sendMore))).putInput
        workGraph (.command sendMore) = (m, none) :=
      ⟨_, Prod.ext rfl (Option.isNone_iff_eq_none.mp hput)⟩
    rw [hm] at hnull hafter
    cases hr : (m.applyNullWrites workGraph successor m.storedUpdates).2 with
    | error e =>
      rw [hr] at hnull
      cases hnull
    | ok updated =>
      have hsub := h l m updated henter hm hr
      rw [of_decide_eq_true hbefore, of_decide_eq_true hafter] at hsub
      exact absurd hsub (by decide)

end Runs

end LangGraph
