import LangGraph.Graph.TaskWrites

namespace LangGraph

open Collections Transition

namespace Compilation

variable {Ver : Type} [LinearOrder Ver] [OrderBot Ver] {k : Compilation} {x x' : Execution Ver}
  {name chan : String} {r : Returned} {v : Value}

-- What a task leaves to be applied: what a return published, or only the record of its failure.
inductive Reports (k : Compilation) : PregelTask × Option Ran → Prop
  | returned (t : PregelTask) {node : String} {r : Returned} (hnode : k.Node node)
      (hr : k.Plain r) (h : ∀ w : Write, w.1 ∉ ignoredWrites →
        (w ∈ t.writes ↔ w ∈ (k.publish node r).1)) :
      Reports k (t, some (k.builder.ran k.env node r))
  | raised (t : PregelTask) (h : ∀ w ∈ t.writes, w.1 ∈ ignoredWrites) : Reports k (t, none)

section Execute

variable {t : PregelTask} {writes : List Write} {results : Results} {ran : Option Ran}
  {done : List (PregelTask × Option Ran)}

theorem mem_finished {w : Write} (hw : w.1 ∉ ignoredWrites) :
    w ∈ (finished t writes).writes ↔ w ∈ writes := by
  unfold finished
  simp only
  split
  · rename_i hnil
    rw [hnil]
    constructor
    · intro hmem
      rw [List.mem_singleton.mp hmem] at hw
      exact absurd (by decide) hw
    · nofun
  · exact Iff.rfl

theorem mem_failed {w : Write} (hw : w.1 ∉ ignoredWrites) :
    w ∈ (failed t writes).writes ↔ w ∈ writes := by
  have hkeys : Key.error ∈ ignoredWrites ∧ Key.errorSourceNode ∈ ignoredWrites := by decide
  have hignored : w ∉ [(Key.error, Value.scalar (.obj 0)), (Key.errorSourceNode, .str t.name)] := by
    intro hmem
    rcases List.mem_cons.mp hmem with rfl | hmem
    · exact hw hkeys.1
    · rw [List.mem_singleton.mp hmem] at hw
      exact hw hkeys.2
  rw [failed, List.mem_append, or_iff_left hignored]

omit [LinearOrder Ver] [OrderBot Ver] in
theorem Sound.reports_handle (hk : k.Sound) (hplain : ∀ node, k.Plain (results.handled node))
    (hfailed : k.Reports (failed t writes, ran)) (h : k.handle x results t writes ran = some done) :
    (∀ d ∈ done, k.Reports d) ∧ ∃ d ∈ done, d.1.triggers = t.triggers := by
  unfold handle at h
  split at h
  · cases h
  · rename_i handler hhandler
    split at h
    · cases h
    · rename_i task htask
      simp only at h
      split at h
      · cases h
      · rename_i handlerWrites hpublish
        obtain rfl := Option.some.inj h
        have hnode : k.Node handler := by
          unfold PregelLoop.prepareNodeErrorHandlerTask at htask
          split at htask
          · rename_i proc hproc
            exact hk.node_of_get? hproc
          · cases htask
        refine ⟨List.forall_mem_cons.mpr ⟨hfailed, List.forall_mem_singleton.mpr ?_⟩,
          _, List.mem_cons_self, rfl⟩
        refine .returned _ hnode (hplain t.name) (fun w hw => ?_)
        rw [mem_finished hw, hpublish]

omit [LinearOrder Ver] [OrderBot Ver] in
theorem Sound.reports_execute (hk : k.Sound) (hplain : ∀ node,
    (∀ r, results.returned node = some r → k.Plain r) ∧ k.Plain (results.handled node))
    (hnode : k.Node t.name) (h : k.execute x results t = some done) :
    (∀ d ∈ done, k.Reports d) ∧ ∃ d ∈ done, d.1.triggers = t.triggers := by
  have hhandled (node : String) := (hplain node).2
  unfold execute at h
  split at h
  · refine hk.reports_handle hhandled (.raised _ (fun w hw => ?_)) h
    by_contra hignored
    exact List.not_mem_nil ((mem_failed hignored).mp hw)
  · rename_i r hr
    have hplain := (hplain t.name).1 r hr
    simp only at h
    split at h
    · rename_i writes hpublish
      obtain rfl := Option.some.inj h
      refine ⟨List.forall_mem_singleton.mpr ?_, _, List.mem_singleton_self _, rfl⟩
      refine .returned _ hnode hplain (fun w hw => ?_)
      rw [mem_finished hw, hpublish]
    · rename_i writes e hpublish
      refine hk.reports_handle hhandled (.returned _ hnode hplain (fun w hw => ?_)) h
      rw [mem_failed hw, hpublish]

end Execute

section Reports

variable {d : PregelTask × Option Ran}

theorem Reports.writes_branch (hk : k.Sound) (hd : k.Reports d) {n : String}
    (hn : n ∈ k.builder.nodes.keys) : (∃ v, (branchTo n, v) ∈ d.1.writes) ↔
      ∃ ran, d.2 = some ran ∧ ((ran.node, n) ∈ k.builder.edges ∨ n ∈ ran.destinations) := by
  have hignored := (Trigger.branch (k := k) n hn).not_ignored
  cases hd with
  | returned t hnode hr h =>
    rw [exists_congr (fun v => h (branchTo n, v) hignored), hk.writes_branch hnode hr hn]
    constructor
    · exact fun hfollows => ⟨_, rfl, hfollows⟩
    · rintro ⟨ran, hran, hfollows⟩
      obtain rfl := Option.some.inj hran
      exact hfollows
  | raised t h =>
    exact ⟨fun ⟨v, hv⟩ => absurd (h _ hv) hignored, fun ⟨_, hran, _⟩ => nomatch hran⟩

theorem Reports.writes_join (hk : k.Sound) (hd : k.Reports d)
    (hjoin : k.builder.joinsOn chan ≠ []) : (chan, v) ∈ d.1.writes ↔
      ∃ ran, d.2 = some ran ∧ v = .str ran.node ∧ ∃ e ∈ k.builder.waitingEdges,
        e.2 ≠ endName ∧ ran.node ∈ e.1 ∧ joinName e.1 e.2 = chan := by
  have hignored := (Trigger.join (k := k) chan hjoin).not_ignored
  cases hd with
  | returned t hnode hr h =>
    rw [h (chan, v) hignored, hk.writes_join hnode hr hjoin]
    constructor
    · exact fun hjoins => ⟨_, rfl, hjoins⟩
    · rintro ⟨ran, hran, hjoins⟩
      obtain rfl := Option.some.inj hran
      exact hjoins
  | raised t h =>
    exact ⟨fun hv => absurd (h _ hv) hignored, fun ⟨_, hran, _⟩ => nomatch hran⟩

theorem Reports.not_start (hk : k.Sound) (hd : k.Reports d) : (Key.start, v) ∉ d.1.writes := by
  have hignored : Key.start ∉ ignoredWrites := by decide
  cases hd with
  | returned t hnode hr h =>
    intro hv
    exact hk.publish_start hnode hr ((h (Key.start, v) hignored).mp hv)
  | raised t h => exact fun hv => hignored (h _ hv)

theorem Reports.not_tasks (hk : k.Sound) (hd : k.Reports d) : (Key.tasks, v) ∉ d.1.writes := by
  have hignored : Key.tasks ∉ ignoredWrites := by decide
  cases hd with
  | returned t hnode hr h =>
    intro hv
    exact hk.publish_tasks hnode hr ((h (Key.tasks, v) hignored).mp hv)
  | raised t h => exact fun hv => hignored (h _ hv)

end Reports

section Written

variable {channels : Dict String Channel} {tasks : List PregelTaskWrites}

theorem written_sortTasks (hi : chan ∉ ignoredWrites) (hc : chan ∈ channels.keys) :
    written channels (sortTasks tasks) chan =
      writesTo chan ((sortTasks tasks).flatMap PregelTaskWrites.writes) :=
  getD_groupWrites hi hc _

theorem mem_written (hi : chan ∉ ignoredWrites) (hc : chan ∈ channels.keys) :
    v ∈ written channels (sortTasks tasks) chan ↔ ∃ t ∈ tasks, (chan, v) ∈ t.writes := by
  rw [written_sortTasks hi hc, ← List.mem_flatMap, ← mem_writes_sortTasks, writesTo, List.mem_map]
  constructor
  · rintro ⟨w, hw, rfl⟩
    obtain ⟨hmem, hchan⟩ := List.mem_filter.mp hw
    rwa [← of_decide_eq_true hchan]
  · exact fun hmem => ⟨_, List.mem_filter.mpr ⟨hmem, decide_eq_true rfl⟩, rfl⟩

theorem sendsOf_nil (h : ∀ t ∈ tasks, ∀ v, (Key.tasks, v) ∉ t.writes) :
    sendsOf (sortTasks tasks) = [] := by
  have hnone : (sortTasks tasks).flatMap (fun t => writesTo Key.tasks t.writes) = [] := by
    refine List.flatMap_eq_nil_iff.mpr (fun t ht => ?_)
    refine List.map_eq_nil_iff.mpr (List.filter_eq_nil_iff.mpr (fun w hw hkey => ?_))
    obtain ⟨key, v⟩ := w
    obtain rfl : key = Key.tasks := of_decide_eq_true hkey
    exact h t (mem_sortTasks.mp ht) v hw
  rw [sendsOf, hnone]
  rfl

end Written

section Delivers

variable {tasks : List PregelTaskWrites} {entry : List Ran}

theorem mem_discarded {t : PregelTask} (h : t ∈ k.discarded x) :
    t ∈ k.tasksFor x none (x.updated.filter (fun u => u ≠ ∅)) := h

theorem Tracks.mem_channels (hx : k.Tracks x) (h : k.Trigger chan) : chan ∈ x.channels.keys := by
  cases h with
  | start =>
    obtain ⟨e, he⟩ := hx.start
    exact Dict.mem_keys.mpr ⟨_, he⟩
  | branch name hname =>
    obtain ⟨e, he, -⟩ := hx.branch name hname
    exact Dict.mem_keys.mpr ⟨_, he⟩
  | join chan hjoin => exact Dict.mem_keys.mpr ⟨_, hx.joins chan hjoin⟩

theorem Tracks.delivers_superstep (hk : k.Sound) (hh : k.graph.CollisionFree) (hx : k.Tracks x)
    {results : Results} (hm : k.Meets x (.superstep results))
    (h : k.tasksOf x (.superstep results) = some (tasks, entry)) : k.Delivers x tasks entry := by
  have hbarriers := hm.barriers tasks entry h
  obtain ⟨done, hdone, htasks, hentry⟩ : ∃ done,
      (k.prepared x).mapM (k.execute x results) = some done ∧
        tasks = done.flatten.map (fun d => d.1.taskWrites) ∧
          entry = done.flatten.filterMap Prod.snd := by
    unfold tasksOf at h
    simp only at h
    split at h
    · cases h
    · obtain ⟨done, hdone, heq⟩ := Option.map_eq_some_iff.mp h
      obtain ⟨rfl, rfl⟩ := Prod.mk.inj heq
      exact ⟨done, hdone, rfl, rfl⟩
  have hpairs := Exceptions.forall₂_of_mapM_some hdone
  have hexecuted (t : PregelTask) (ht : t ∈ k.prepared x) (ds : List (PregelTask × Option Ran))
      (hds : k.execute x results t = some ds) :
      (∀ d ∈ ds, k.Reports d) ∧ ∃ d ∈ ds, d.1.triggers = t.triggers := by
    obtain ⟨-, proc, hproc, -⟩ := hx.offered_of_task hk hh ht
    exact hk.reports_execute (hm.plain results rfl) (hk.node_of_get? hproc) hds
  have hreports : ∀ d ∈ done.flatten, k.Reports d := by
    intro d hd
    obtain ⟨ds, hds, hd⟩ := List.mem_flatten.mp hd
    obtain ⟨t, ht, hexec⟩ := Exceptions.exists_left hpairs ds hds
    exact (hexecuted t ht ds hexec).1 d hd
  have hwritten {chan : String} {v : Value} (hchan : k.Trigger chan) :
      v ∈ written x.channels (sortTasks tasks) chan ↔
        ∃ d ∈ done.flatten, (chan, v) ∈ d.1.writes := by
    rw [mem_written hchan.not_ignored (hx.mem_channels hchan), htasks]
    simp only [List.mem_map, exists_exists_and_eq_and]
    rfl
  refine ⟨fun name proc chan hproc hchan ho => ?_, fun n hn => ?_, ?_, fun chan hjoin => ?_,
    fun e he hend hne => ?_, sendsOf_nil (fun t ht v => ?_)⟩
  · obtain ⟨t, ht, -, htriggers⟩ := hx.task_of_offered hk hh hm.readable hx.covers_prepared hproc
      hchan ho
    obtain ⟨ds, hds, hexec⟩ := Exceptions.exists_right hpairs t ht
    obtain ⟨d, hd, hsame⟩ := (hexecuted t ht ds hexec).2
    refine ⟨d.1.taskWrites, ?_, ?_⟩
    · rw [htasks]
      exact List.mem_map_of_mem (List.mem_flatten.mpr ⟨ds, hds, hd⟩)
    · change chan ∈ d.1.triggers
      rw [hsame, htriggers]
      exact (List.mem_insertionSort _).mpr hchan
  · have hchan := Trigger.branch (k := k) n hn
    constructor
    · intro hne
      obtain ⟨v, hv⟩ := List.exists_mem_of_ne_nil _ hne
      obtain ⟨d, hd, hw⟩ := (hwritten hchan).mp hv
      obtain ⟨ran, hran, hfollows⟩ := ((hreports d hd).writes_branch hk hn).mp ⟨v, hw⟩
      exact ⟨ran, hentry ▸ List.mem_filterMap.mpr ⟨d, hd, hran⟩, hfollows⟩
    · rintro ⟨ran, hmem, hfollows⟩
      rw [hentry] at hmem
      obtain ⟨d, hd, hran⟩ := List.mem_filterMap.mp hmem
      obtain ⟨v, hw⟩ := ((hreports d hd).writes_branch hk hn).mpr ⟨ran, hran, hfollows⟩
      exact List.ne_nil_of_mem ((hwritten hchan).mpr ⟨d, hd, hw⟩)
  · have hnil : written x.channels (sortTasks tasks) Key.start = [] := by
      refine List.eq_nil_iff_forall_not_mem.mpr (fun v hv => ?_)
      obtain ⟨d, hd, hw⟩ := (hwritten .start).mp hv
      exact (hreports d hd).not_start hk hw
    rw [hnil]
    exact Nat.zero_le 1
  · ext v
    rw [List.mem_toFinset, hwritten (.join chan hjoin), Finset.mem_image]
    constructor
    · rintro ⟨d, hd, hw⟩
      obtain ⟨ran, hran, rfl, e, he, hend, hsource, rfl⟩ := ((hreports d hd).writes_join hk hjoin).mp hw
      have hmem : ran ∈ entry := hentry ▸ List.mem_filterMap.mpr ⟨d, hd, hran⟩
      refine ⟨ran.node, Finset.mem_inter.mpr ⟨?_, ?_⟩, rfl⟩
      · rw [hbarriers ran hmem e he hend hsource]
        exact List.mem_toFinset.mpr hsource
      · exact List.mem_toFinset.mpr (List.mem_map_of_mem hmem)
    · rintro ⟨source, hsource, rfl⟩
      obtain ⟨hregistered, hran⟩ := Finset.mem_inter.mp hsource
      obtain ⟨ran, hmem, rfl⟩ := List.mem_map.mp (List.mem_toFinset.mp hran)
      obtain ⟨e, he, hend, hname, hsame⟩ := StateGraph.registered_of_joins hjoin
      rw [hentry] at hmem
      obtain ⟨d, hd, hran⟩ := List.mem_filterMap.mp hmem
      refine ⟨d, hd, ((hreports d hd).writes_join hk hjoin).mpr ⟨ran, hran, rfl, e, he, hend, ?_,
        hname⟩⟩
      rw [← hsame]
      exact List.mem_toFinset.mp hregistered
  · refine Finset.disjoint_left.mpr (fun source hsource hran => hne ?_)
    obtain ⟨ran, hmem, rfl⟩ := List.mem_map.mp (List.mem_toFinset.mp hran)
    exact hbarriers ran hmem e he hend (List.mem_toFinset.mp hsource)
  · rw [htasks] at ht
    obtain ⟨d, hd, rfl⟩ := List.mem_map.mp ht
    exact (hreports d hd).not_tasks hk

theorem Tracks.delivers_input (hk : k.Sound) (hh : k.graph.CollisionFree) (hx : k.Tracks x)
    {value : Value} (hm : k.Meets x (.input value))
    (h : k.tasksOf x (.input value) = some (tasks, entry)) : k.Delivers x tasks entry := by
  obtain ⟨htasks, hentry⟩ := Prod.mk.inj (Option.some.inj h)
  have hwrites : ∀ t ∈ tasks, ∀ w ∈ t.writes, w = (Key.start, value) := by
    intro t ht w hw
    rw [← htasks] at ht
    rcases List.mem_append.mp ht with ht | ht
    · obtain ⟨u, hu, rfl⟩ := List.mem_map.mp ht
      have hnil := (hx.offered_of_task hk hh (mem_discarded hu)).1
      have hw' : w ∈ u.writes := hw
      rw [hnil] at hw'
      exact absurd hw' List.not_mem_nil
    · rw [List.mem_singleton.mp ht] at hw
      exact List.mem_singleton.mp hw
  have hnone {chan : String} (hchan : k.Trigger chan) (hne : chan ≠ Key.start) :
      written x.channels (sortTasks tasks) chan = [] := by
    refine List.eq_nil_iff_forall_not_mem.mpr (fun v hv => ?_)
    obtain ⟨t, ht, hw⟩ := (mem_written hchan.not_ignored (hx.mem_channels hchan)).mp hv
    exact hne (Prod.mk.inj (hwrites t ht _ hw)).1
  subst hentry
  refine ⟨fun name proc chan hproc hchan ho => ?_, fun n hn => ?_, ?_, fun chan hjoin => ?_,
    fun e he hend hne => ?_, sendsOf_nil (fun t ht v hw => ?_)⟩
  · obtain ⟨t, ht, -, htriggers⟩ := hx.task_of_offered hk hh hm.readable
      (hx.covers_discarded (x.updated.filter (fun u => u ≠ ∅))) hproc hchan ho
    refine ⟨t.taskWrites, ?_, ?_⟩
    · rw [← htasks]
      exact List.mem_append_left _ (List.mem_map_of_mem ht)
    · change chan ∈ t.triggers
      rw [htriggers]
      exact (List.mem_insertionSort _).mpr hchan
  · rw [hnone (.branch n hn) (ne_of_head (head_branchTo n) (d := '_') rfl (by decide))]
    exact ⟨fun hne => absurd rfl hne, fun ⟨ran, hran, _⟩ => absurd hran List.not_mem_nil⟩
  · have hperm : (sortTasks tasks).Perm tasks := List.perm_insertionSort _ tasks
    have hnil : ((k.discarded x).map PregelTask.taskWrites).flatMap PregelTaskWrites.writes = [] := by
      refine List.flatMap_eq_nil_iff.mpr (fun t ht => ?_)
      obtain ⟨u, hu, rfl⟩ := List.mem_map.mp ht
      exact (hx.offered_of_task hk hh (mem_discarded hu)).1
    rw [written_sortTasks (by decide) (hx.mem_channels .start), writesTo, List.length_map]
    refine (List.length_filter_le _ _).trans (le_of_eq ?_)
    rw [(hperm.flatMap_right _).length_eq, ← htasks, List.flatMap_append, hnil]
    rfl
  · obtain ⟨e, -, -, hname, -⟩ := StateGraph.registered_of_joins hjoin
    rw [hnone (.join chan hjoin) (hname ▸ ne_of_head (head_joinName e.1 e.2) (d := '_') rfl
      (by decide))]
    change ∅ = ((k.builder.registered chan).toFinset ∩ ∅).image Value.str
    rw [Finset.inter_empty, Finset.image_empty]
  · exact Finset.disjoint_empty_right _
  · exact absurd (Prod.mk.inj (hwrites t ht _ hw)).1 (by decide)

end Delivers

end Compilation

end LangGraph
