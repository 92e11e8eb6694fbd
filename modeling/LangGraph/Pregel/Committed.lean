import LangGraph.Pregel.ExitFlush
import LangGraph.Pregel.Prepared
import LangGraph.Pregel.Thread
import LangGraph.Transition.Run

namespace LangGraph

open Collections Transition

variable {C Ver : Type}

section Rows

variable [DecidableEq Ver]

def SaverCall.touches (taskId : String) : SaverCall Ver → Prop
  | .put _ _ _ _ => False
  | .putWrites _ _ id _ => id = taskId

theorem ofTask_execAll_untouched {taskId : String} (cid : String) {calls : List (SaverCall Ver)}
    (h : ∀ c ∈ calls, ¬ c.touches taskId) (s : InMemorySaver Ver) :
    ((s.execAll calls).rows cid).ofTask taskId = (s.rows cid).ofTask taskId := by
  induction calls generalizing s with
  | nil => rfl
  | cons c calls ih =>
    obtain ⟨hc, hrest⟩ := List.forall_mem_cons.mp h
    have hexec : s.execAll (c :: calls) = (s.exec c).execAll calls := rfl
    rw [hexec, ih hrest]
    cases c with
    | put parent checkpoint metadata versions => rfl
    | putWrites id ws other path =>
      have hne : other ≠ taskId := hc
      have hput : s.exec (.putWrites id ws other path) = s.putWrites id ws other path := rfl
      rw [hput]
      by_cases hid : cid = id
      · subst hid
        rw [InMemorySaver.rows_putWrites, WriteRows.ofTask_put_ne hne]
      · rw [InMemorySaver.rows_putWrites_ne s hid]

theorem execAll_append (s : InMemorySaver Ver) (as bs : List (SaverCall Ver)) :
    s.execAll (as ++ bs) = (s.execAll as).execAll bs :=
  List.foldl_append

end Rows

def Uncontrolled (w : Write) : Prop := w.1 ∉ controlChannels

instance (w : Write) : Decidable (Uncontrolled w) := inferInstanceAs (Decidable (¬ _))

-- Rows that `_reapply_writes_to_succeeded_nodes` gives back.
def AnyUncontrolled (ws : List Write) : Prop := ∃ w ∈ ws, Uncontrolled w

instance (ws : List Write) : Decidable (AnyUncontrolled ws) :=
  inferInstanceAs (Decidable (∃ w ∈ ws, Uncontrolled w))

theorem exists_dedup (P : String → Prop) (ws : List Write) :
    (∃ w ∈ dedupWrites ws, P w.1) ↔ ∃ w ∈ ws, P w.1 := by
  unfold dedupWrites
  split
  · constructor
    · rintro ⟨w, hw, hp⟩
      exact ⟨w, Dict.mem_items_ofList hw, hp⟩
    · rintro ⟨w, hw, hp⟩
      have hk : w.1 ∈ (Dict.ofList ws).keys := Dict.mem_keys_ofList.mpr (List.mem_map_of_mem hw)
      obtain ⟨v, hv, heq⟩ := List.mem_map.mp hk
      refine ⟨v, hv, ?_⟩
      rwa [heq]
  · rfl

theorem anyUncontrolled_dedup (ws : List Write) :
    AnyUncontrolled (dedupWrites ws) ↔ AnyUncontrolled ws :=
  exists_dedup (fun k => k ∉ controlChannels) ws

theorem ordinary_uncontrolled {w : Write} (hs : ¬ Special w.1) (he : w.1 ≠ Key.errorSourceNode) :
    Uncontrolled w := by
  rw [special_iff] at hs
  simp only [not_or] at hs
  simp [Uncontrolled, controlChannels, hs, he]

theorem uncontrolled_pinned {taskId : String} (a b : Write) (ha : Special a.1) (hb : Special b.1)
    (hab : (writeSlots taskId).key 0 a = (writeSlots taskId).key 0 b) (hu : Uncontrolled a) :
    Uncontrolled b := by
  have hsame := (writeSlots_same ha hb).mp hab
  unfold Uncontrolled
  rwa [← hsame]

theorem anyUncontrolled_map {rs : List (WriteKey × Write)} :
    AnyUncontrolled (rs.map Prod.snd) ↔ ∃ r ∈ rs, Uncontrolled r.2 := by
  constructor
  · rintro ⟨w, hw, hu⟩
    obtain ⟨r, hr, rfl⟩ := List.mem_map.mp hw
    exact ⟨r, hr, hu⟩
  · rintro ⟨r, hr, hu⟩
    exact ⟨r.2, List.mem_map_of_mem hr, hu⟩

theorem anyUncontrolled_save {taskId : String} {ws : List Write} {rs : List (WriteKey × Write)}
    (hk : (writeSlots taskId).Keyed rs)
    (hs : ∀ r ∈ rs, r.2.1 ≠ Key.errorSourceNode) :
    AnyUncontrolled (((writeSlots taskId).save 0 ws rs).map Prod.snd) ↔
      AnyUncontrolled (rs.map Prod.snd) ∨ AnyUncontrolled ws := by
  have hset : (writeSlots taskId).Settled Uncontrolled 0 rs := by
    intro r hr hsticky
    obtain ⟨j, hj⟩ := hk.key r hr
    have hord : ¬ Special r.2.1 := ((writeSlots taskId).sticky_key j r.2).mp (hj ▸ hsticky)
    exact Or.inl (ordinary_uncontrolled hord (hs r hr))
  rw [anyUncontrolled_map, anyUncontrolled_map]
  exact (writeSlots taskId).any_save uncontrolled_pinned hk.key hset

theorem taskWritesOf_kept_ne {taskId other : String} (h : taskId ≠ other)
    (pending : List PendingWrite) :
    taskWritesOf taskId (PregelLoop.keptWrites other pending) = taskWritesOf taskId pending := by
  have hkeep (p : PendingWrite → Bool) (hp : ∀ w, w.taskId = taskId → p w = true) :
      taskWritesOf taskId (pending.filter p) = taskWritesOf taskId pending := by
    rw [taskWritesOf, taskWritesOf, List.filter_filter]
    congr 1
    refine List.filter_congr (fun w _ => ?_)
    by_cases hw : w.taskId = taskId
    · simp [hw, hp w hw]
    · simp [hw]
  unfold PregelLoop.keptWrites
  split
  · exact hkeep _ (fun w hw => by simp [hw, h])
  · exact hkeep _ (fun w hw => by simp [hw, h])

theorem taskWritesOf_kept_self {taskId : String} (h : taskId ≠ nullTaskId)
    (pending : List PendingWrite) :
    taskWritesOf taskId (PregelLoop.keptWrites taskId pending) = [] := by
  rw [PregelLoop.keptWrites, if_neg h, taskWritesOf, List.filter_filter]
  have hnone : pending.filter (fun w => decide (w.taskId = taskId) && decide (w.taskId ≠ taskId)) =
      [] := by
    rw [List.filter_eq_nil_iff]
    intro w _ hw
    simp only [Bool.and_eq_true, decide_eq_true_eq] at hw
    exact hw.2 hw.1
  rw [hnone, List.map_nil]

theorem taskWritesOf_batch_ne {taskId other : String} (h : taskId ≠ other) (ws : List Write) :
    taskWritesOf taskId (ws.map (fun w => PendingWrite.mk other w.1 w.2)) = [] := by
  have hnone : (ws.map (fun w => PendingWrite.mk other w.1 w.2)).filter
      (fun w => w.taskId = taskId) = [] := by
    rw [List.filter_eq_nil_iff]
    intro w hw
    obtain ⟨v, -, rfl⟩ := List.mem_map.mp hw
    simpa using h.symm
  rw [taskWritesOf, hnone, List.map_nil]

namespace PregelLoop

theorem task?_setTaskWrites (taskId k : String) (writes : List Write) (l : PregelLoop C Ver) :
    (l.setTaskWrites taskId writes).task? k =
      if k = taskId then (l.task? taskId).map (fun t => { t with writes := writes })
      else l.task? k := by
  unfold setTaskWrites task?
  cases hts : l.tasks with
  | none => simp
  | some ts =>
    cases ht : ts.get? taskId with
    | none =>
      by_cases hk : k = taskId
      · simp [hk, ht]
      · simp [hk, ht]
    | some t => simp [ht, Dict.get?_set]

variable [BaseChannel C]

theorem tasks_putWrites (g : Graph C) (taskId : String) (batch : List Write)
    (l : PregelLoop C Ver) : (l.putWrites g taskId batch).tasks = l.tasks := by
  by_cases hne : batch = []
  · subst hne
    rfl
  · obtain ⟨cache, hput⟩ := putWrites_spec g taskId hne l
    rw [hput]

theorem name_commit (g : Graph C) (taskId k : String) (a : Attempt) (l : PregelLoop C Ver) :
    ((l.commit g taskId a).task? k).map PregelTask.name = (l.task? k).map PregelTask.name := by
  unfold commit
  cases ht : l.task? taskId with
  | none => rfl
  | some t =>
    have htasks : ((l.setTaskWrites taskId (a.taskWrites g t.name)).putWrites g taskId
        (a.savedWrites g t.name)).task? k =
        (l.setTaskWrites taskId (a.taskWrites g t.name)).task? k := by
      rw [task?, tasks_putWrites]
      rfl
    simp only [htasks, task?_setTaskWrites]
    split
    · rename_i hk
      rw [hk, ht]
      rfl
    · rfl

-- Everything a commit does to the loop and to the rows of another task.
theorem commit_frame (g : Graph C) (taskId : String) (a : Attempt) (l : PregelLoop C Ver) :
    ∃ tasks pending calls cache, l.commit g taskId a =
      { l with
        tasks := tasks
        checkpointPendingWrites := pending
        submitted := l.submitted ++ calls
        cache := cache } ∧
      ∀ other, other ≠ taskId →
        taskWritesOf other pending = taskWritesOf other l.checkpointPendingWrites ∧
        ∀ c ∈ calls, ¬ c.touches other := by
  unfold commit
  cases ht : l.task? taskId with
  | none =>
    refine ⟨l.tasks, l.checkpointPendingWrites, [], l.cache, by rw [List.append_nil], ?_⟩
    intro other _
    exact ⟨rfl, fun c hc => by cases hc⟩
  | some t =>
    by_cases hne : a.savedWrites g t.name = []
    · refine ⟨(l.setTaskWrites taskId (a.taskWrites g t.name)).tasks, l.checkpointPendingWrites,
        [], l.cache, ?_, ?_⟩
      · simp only [hne, List.append_nil]
        rfl
      · intro other _
        exact ⟨rfl, fun c hc => by cases hc⟩
    · obtain ⟨cache, hput⟩ := putWrites_spec g taskId hne
        (l.setTaskWrites taskId (a.taskWrites g t.name))
      refine ⟨_, _, _, cache, hput, fun other ho => ⟨?_, fun c hc => ?_⟩⟩
      · rw [taskWritesOf_append, taskWritesOf_kept_ne ho, taskWritesOf_batch_ne ho,
          List.append_nil]
        rfl
      · unfold batchCalls at hc
        split at hc
        · cases hc
        · rw [List.mem_singleton.mp hc]
          exact Ne.symm ho

theorem commit_eq (g : Graph C) {id name : String} {l : PregelLoop C Ver}
    (ht : (l.task? id).map PregelTask.name = some name) (a : Attempt) :
    l.commit g id a =
      (l.setTaskWrites id (a.taskWrites g name)).putWrites g id (a.savedWrites g name) := by
  obtain ⟨t, hsome, rfl⟩ := Option.map_eq_some_iff.mp ht
  simp only [commit, hsome]

theorem commit_idle (g : Graph C) {id name : String} {l : PregelLoop C Ver}
    (ht : (l.task? id).map PregelTask.name = some name) {a : Attempt}
    (hnil : a.savedWrites g name = []) :
    l.commit g id a = l.setTaskWrites id (a.taskWrites g name) := by
  rw [commit_eq g ht, hnil]
  rfl

theorem commit_saves (g : Graph C) {id name : String} {l : PregelLoop C Ver}
    (ht : (l.task? id).map PregelTask.name = some name) (hn : id ≠ nullTaskId) {a : Attempt}
    (hne : a.savedWrites g name ≠ []) :
    ∃ tasks pending cache path, l.commit g id a =
      { l with
        tasks := tasks
        checkpointPendingWrites := pending
        submitted := l.submitted ++ (if l.config.durability = .exit then []
          else [.putWrites l.checkpoint.id
            (sanitizeWrites g.specs l.channels (dedupWrites (a.savedWrites g name))) id path])
        cache := cache } ∧
      taskWritesOf id pending = dedupWrites (a.savedWrites g name) := by
  obtain ⟨cache, hput⟩ := putWrites_spec g id hne (l.setTaskWrites id (a.taskWrites g name))
  have hcalls : (l.setTaskWrites id (a.taskWrites g name)).batchCalls g id
      (a.savedWrites g name) = (if l.config.durability = .exit then []
          else [.putWrites l.checkpoint.id
            (sanitizeWrites g.specs l.channels (dedupWrites (a.savedWrites g name))) id
            ((l.setTaskWrites id (a.taskWrites g name)).taskPath id)]) := by
    rw [batchCalls, savedBatch, writesToSave, if_neg hn]
    rfl
  rw [hcalls] at hput
  refine ⟨(l.setTaskWrites id (a.taskWrites g name)).tasks,
    keptWrites id l.checkpointPendingWrites ++
      (dedupWrites (a.savedWrites g name)).map (fun w => PendingWrite.mk id w.1 w.2),
    cache, (l.setTaskWrites id (a.taskWrites g name)).taskPath id, ?_, ?_⟩
  · rw [commit_eq g ht]
    exact hput
  · rw [taskWritesOf_append, taskWritesOf_kept_self hn, taskWritesOf_batch, List.nil_append]

def persists (g : Graph C) (l : PregelLoop C Ver) (w : Write) : Prop :=
  l.config.durability = .exit ∨ anyUntracked l.channels = false ∨ untrackedKey g.specs w.1 = false

instance (g : Graph C) (l : PregelLoop C Ver) (w : Write) : Decidable (l.persists g w) :=
  inferInstanceAs (Decidable (_ ∨ _))

end PregelLoop

theorem anyUncontrolled_sanitize [BaseChannel C] (specs channels : Dict String C)
    (ws : List Write) :
    AnyUncontrolled (sanitizeWrites specs channels ws) ↔
      ∃ w ∈ ws, Uncontrolled w ∧
        (anyUntracked channels = false ∨ untrackedKey specs w.1 = false) := by
  have hfst (w : Write) : Uncontrolled (sanitizeWrite channels w) ↔ Uncontrolled w := by
    rw [Uncontrolled, sanitizeWrite_fst, Uncontrolled]
  unfold sanitizeWrites
  cases ha : anyUntracked channels with
  | false => simp [AnyUncontrolled]
  | true =>
    constructor
    · rintro ⟨v, hv, hu⟩
      obtain ⟨w, hw, rfl⟩ := List.mem_map.mp hv
      obtain ⟨hmem, hkey⟩ := List.mem_filter.mp hw
      exact ⟨w, hmem, (hfst w).mp hu, Or.inr (by simpa using hkey)⟩
    · rintro ⟨w, hw, hu, hkey⟩
      have hkeep : untrackedKey specs w.1 = false := hkey.resolve_left (by decide)
      exact ⟨_, List.mem_map_of_mem (List.mem_filter.mpr ⟨hw, by simp [hkeep]⟩), (hfst w).mpr hu⟩

namespace Thread

variable [BaseChannel C] [LinearOrder Ver] [OrderBot Ver]

structure Underway (l₀ : PregelLoop C Ver) (t : PregelTask) (th : Thread C Ver)
    (l : PregelLoop C Ver) : Prop where
  loop : th.loop = some l
  idle : l.submitted = []
  checkpoint : l.checkpoint = l₀.checkpoint
  config : l.config = l₀.config
  channels : l.channels = l₀.channels
  exitDeltaWrites : l.exitDeltaWrites = l₀.exitDeltaWrites
  name : (l.task? t.id).map PregelTask.name = some t.name

def rowsOf (l₀ : PregelLoop C Ver) (t : PregelTask) (th : Thread C Ver) :
    List (WriteKey × Write) :=
  (th.saver.rows l₀.checkpoint.id).ofTask t.id

variable {g : Graph C} {inputKeys : InputKeys} {l₀ : PregelLoop C Ver} {t : PregelTask}

theorem commit_other {th : Thread C Ver} {l : PregelLoop C Ver} (h : Underway l₀ t th l)
    {id : String} (hid : id ≠ t.id) (a : Attempt) :
    ∃ l', Underway l₀ t (th.step g inputKeys (.commit id a)) l' ∧
      rowsOf l₀ t (th.step g inputKeys (.commit id a)) = rowsOf l₀ t th ∧
      taskWritesOf t.id l'.checkpointPendingWrites =
        taskWritesOf t.id l.checkpointPendingWrites := by
  obtain ⟨tasks, pending, calls, cache, heq, hother⟩ := PregelLoop.commit_frame g id a l
  obtain ⟨hpending, hcalls⟩ := hother t.id (Ne.symm hid)
  have hname := PregelLoop.name_commit g id t.id a l
  have hstep : th.step g inputKeys (.commit id a) = th.proceed (l.commit g id a) := by
    simp only [Thread.step, h.loop]
  rw [h.idle, List.nil_append] at heq
  rw [hstep]
  refine ⟨{ l.commit g id a with submitted := [] }, ?_, ?_, ?_⟩
  · rw [heq] at hname ⊢
    exact ⟨rfl, rfl, h.checkpoint, h.config, h.channels, h.exitDeltaWrites,
      hname.trans h.name⟩
  · rw [heq]
    exact ofTask_execAll_untouched l₀.checkpoint.id hcalls th.saver
  · rw [heq]
    exact hpending

theorem commit_others (commits : List (String × Attempt)) (hids : ∀ c ∈ commits, c.1 ≠ t.id)
    {th : Thread C Ver} {l : PregelLoop C Ver} (h : Underway l₀ t th l) :
    ∃ l', Underway l₀ t
        (run (step g inputKeys) th (commits.map (fun c => .commit c.1 c.2))) l' ∧
      rowsOf l₀ t (run (step g inputKeys) th (commits.map (fun c => .commit c.1 c.2))) =
        rowsOf l₀ t th ∧
      taskWritesOf t.id l'.checkpointPendingWrites =
        taskWritesOf t.id l.checkpointPendingWrites := by
  induction commits generalizing th l with
  | nil => exact ⟨l, h, rfl, rfl⟩
  | cons c commits ih =>
    obtain ⟨hc, hrest⟩ := List.forall_mem_cons.mp hids
    obtain ⟨l₁, h₁, hrows₁, hheld₁⟩ := @commit_other _ _ _ _ _ g inputKeys _ _ _ _ h _ hc c.2
    obtain ⟨l₂, h₂, hrows₂, hheld₂⟩ := ih hrest h₁
    exact ⟨l₂, h₂, hrows₂.trans hrows₁, hheld₂.trans hheld₁⟩

theorem commit_task {th : Thread C Ver} {l : PregelLoop C Ver} (h : Underway l₀ t th l)
    (hn : t.id ≠ nullTaskId) (a : Attempt) :
    ∃ l', Underway l₀ t (th.step g inputKeys (.commit t.id a)) l' ∧
      (a.savedWrites g t.name = [] →
        rowsOf l₀ t (th.step g inputKeys (.commit t.id a)) = rowsOf l₀ t th ∧
        taskWritesOf t.id l'.checkpointPendingWrites =
          taskWritesOf t.id l.checkpointPendingWrites) ∧
      (a.savedWrites g t.name ≠ [] →
        taskWritesOf t.id l'.checkpointPendingWrites = dedupWrites (a.savedWrites g t.name) ∧
        rowsOf l₀ t (th.step g inputKeys (.commit t.id a)) =
          if l₀.config.durability = .exit then rowsOf l₀ t th
          else (writeSlots t.id).save 0 (sanitizeWrites g.specs l₀.channels
            (dedupWrites (a.savedWrites g t.name))) (rowsOf l₀ t th)) := by
  have hname := PregelLoop.name_commit g t.id t.id a l
  have hstep : th.step g inputKeys (.commit t.id a) = th.proceed (l.commit g t.id a) := by
    simp only [Thread.step, h.loop]
  rw [hstep]
  by_cases hne : a.savedWrites g t.name = []
  · have heq := PregelLoop.commit_idle g h.name hne
    refine ⟨{ l.commit g t.id a with submitted := [] }, ?_, fun _ => ?_, fun hn => absurd hne hn⟩
    · rw [heq] at hname ⊢
      exact ⟨rfl, rfl, h.checkpoint, h.config, h.channels, h.exitDeltaWrites, hname.trans h.name⟩
    · have hidle : (l.commit g t.id a).submitted = [] := by
        rw [heq]
        exact h.idle
      refine ⟨?_, by rw [heq]; rfl⟩
      rw [rowsOf, proceed, hidle]
      rfl
  · obtain ⟨tasks, pending, cache, path, heq, hheld⟩ := PregelLoop.commit_saves g h.name hn hne
    rw [h.idle, List.nil_append] at heq
    refine ⟨{ l.commit g t.id a with submitted := [] }, ?_, fun hnil => absurd hnil hne,
      fun _ => ⟨?_, ?_⟩⟩
    · rw [heq] at hname ⊢
      exact ⟨rfl, rfl, h.checkpoint, h.config, h.channels, h.exitDeltaWrites, hname.trans h.name⟩
    · rw [heq]
      exact hheld
    · rw [heq, h.config, h.checkpoint, h.channels]
      by_cases hd : l₀.config.durability = .exit
      · rw [if_pos hd, if_pos hd]
        rfl
      · rw [if_neg hd, if_neg hd]
        have hexec (ws : List Write) (path : String) :
            rowsOf l₀ t (th.exec [.putWrites l₀.checkpoint.id ws t.id path]) =
              (writeSlots t.id).save 0 ws (rowsOf l₀ t th) := by
          have hput : (th.exec [.putWrites l₀.checkpoint.id ws t.id path]).saver =
              th.saver.putWrites l₀.checkpoint.id ws t.id path := rfl
          rw [rowsOf, hput, InMemorySaver.rows_putWrites, WriteRows.ofTask_put]
          rfl
        exact hexec _ _

theorem exit_rows {th : Thread C Ver} {l : PregelLoop C Ver} (h : Underway l₀ t th l)
    (hids : ∀ w ∈ l₀.exitDeltaWrites.getD [], exitDeltaTaskId w.step w.taskId ≠ t.id)
    (next : GetNextVersion Ver) :
    rowsOf l₀ t (th.step g inputKeys (.exit next)) =
      if l₀.config.durability = .exit then
        (writeSlots t.id).save 0 (taskWritesOf t.id l.checkpointPendingWrites) (rowsOf l₀ t th)
      else rowsOf l₀ t th := by
  have hstep : th.step g inputKeys (.exit next) = th.close (l.suppressInterrupt next) := by
    simp only [Thread.step, h.loop]
  rw [hstep, PregelLoop.suppressInterrupt, h.config]
  by_cases hd : l₀.config.durability = .exit
  · rw [if_pos hd, if_pos hd]
    obtain ⟨calls, configId, hdelta, hcalls⟩ := PregelLoop.putExitDeltaWrites_spec l
    have huntouched : ∀ c ∈ calls, ¬ c.touches t.id := by
      intro c hc
      rcases hcalls c hc with ⟨parent, id, metadata, versions, rfl⟩ |
        ⟨anchor, writes, step, taskId, rfl, ⟨x, hx, heq⟩, -⟩
      · exact fun hf => hf
      · obtain ⟨rfl, rfl⟩ := Prod.mk.inj heq
        exact hids x (h.exitDeltaWrites ▸ hx)
    obtain ⟨puts, hput, hcheck, hpend, huntouched'⟩ :
        ∃ puts : List (SaverCall Ver),
          (l.putExitDeltaWrites.putExitCheckpoint next).submitted = calls ++ puts ∧
          (l.putExitDeltaWrites.putExitCheckpoint next).checkpoint.id = l₀.checkpoint.id ∧
          (l.putExitDeltaWrites.putExitCheckpoint next).checkpointPendingWrites =
            l.checkpointPendingWrites ∧
          ∀ c ∈ puts, ¬ c.touches t.id := by
      rw [hdelta]
      unfold PregelLoop.putExitCheckpoint
      simp only
      split
      · exact ⟨[], by simp [h.idle], by rw [h.checkpoint], rfl, fun c hc => by cases hc⟩
      · refine ⟨_, by rw [h.idle, List.nil_append], by rw [h.checkpoint]; rfl, rfl, ?_⟩
        intro c hc
        rw [List.mem_singleton.mp hc]
        exact fun hf => hf
    have hsub : (l.putExitDeltaWrites.putExitCheckpoint next).putPendingWrites.submitted =
        (calls ++ puts) ++ (l.putExitDeltaWrites.putExitCheckpoint next).pendingCalls := by
      rw [PregelLoop.putPendingWrites, ← hput]
    have hall : ∀ c ∈ calls ++ puts, ¬ c.touches t.id := by
      intro c hc
      rcases List.mem_append.mp hc with hc | hc
      · exact huntouched c hc
      · exact huntouched' c hc
    have hclose : (th.close (l.putExitDeltaWrites.putExitCheckpoint next).putPendingWrites).saver =
        (th.saver.execAll (calls ++ puts)).execAll
          (l.putExitDeltaWrites.putExitCheckpoint next).pendingCalls := by
      rw [close, hsub, exec, execAll_append]
    have hws : (if t.id ∈ taskIds l.checkpointPendingWrites then
        taskWritesOf t.id l.checkpointPendingWrites else []) =
        taskWritesOf t.id l.checkpointPendingWrites := by
      split
      · rfl
      · rename_i hno
        exact (taskWritesOf_eq_nil hno).symm
    rw [rowsOf, hclose, PregelLoop.pendingCalls, hcheck, hpend]
    have hexec := InMemorySaver.ofTask_execAll_writes l₀.checkpoint.id t.id
      (fun id => taskWritesOf id l.checkpointPendingWrites)
      (l.putExitDeltaWrites.putExitCheckpoint next).taskPath
      (taskIds l.checkpointPendingWrites) (Dict.nodup_keys _)
      (th.saver.execAll (calls ++ puts))
    rw [hexec, hws, ofTask_execAll_untouched l₀.checkpoint.id hall]
    rfl
  · rw [if_neg hd, if_neg hd, rowsOf, close, h.idle]
    rfl

omit [LinearOrder Ver] [OrderBot Ver] in
theorem keyed_execAll [DecidableEq Ver] {s : InMemorySaver Ver}
    (h : ∀ cid taskId, (writeSlots taskId).Keyed ((s.rows cid).ofTask taskId))
    (calls : List (SaverCall Ver)) (cid taskId : String) :
    (writeSlots taskId).Keyed (((s.execAll calls).rows cid).ofTask taskId) := by
  induction calls generalizing s with
  | nil => exact h cid taskId
  | cons c calls ih =>
    refine ih (s := s.exec c) (fun id task => ?_)
    cases c with
    | put parent checkpoint metadata versions => exact h id task
    | putWrites other ws owner path =>
      have hput : s.exec (.putWrites other ws owner path) = s.putWrites other ws owner path := rfl
      rw [hput]
      by_cases hid : id = other
      · subst hid
        rw [InMemorySaver.rows_putWrites]
        by_cases ht : owner = task
        · subst ht
          rw [WriteRows.ofTask_put]
          exact (writeSlots owner).keyed_save 0 ws (h id owner)
        · rw [WriteRows.ofTask_put_ne ht]
          exact h id task
      · rw [InMemorySaver.rows_putWrites_ne s hid]
        exact h id task

structure Tidy (th : Thread C Ver) : Prop where
  keyed : ∀ cid taskId, (writeSlots taskId).Keyed ((th.saver.rows cid).ofTask taskId)
  idle : ∀ l, th.loop = some l → l.submitted = []

omit [BaseChannel C] in
omit [OrderBot Ver] in
theorem Tidy.proceed {th : Thread C Ver} (h : th.Tidy) (l : PregelLoop C Ver) :
    (th.proceed l).Tidy where
  keyed := keyed_execAll h.keyed l.submitted
  idle := by
    rintro l' hl
    rw [← Option.some.inj hl]

omit [BaseChannel C] in
omit [OrderBot Ver] in
theorem Tidy.close {th : Thread C Ver} (h : th.Tidy) (l : PregelLoop C Ver) :
    (th.close l).Tidy where
  keyed := keyed_execAll h.keyed l.submitted
  idle := fun _ hl => by cases hl

theorem Tidy.step {th : Thread C Ver} (h : th.Tidy) (g : Graph C) (inputKeys : InputKeys)
    (e : Event Ver) : (th.step g inputKeys e).Tidy := by
  unfold Thread.step
  split
  · split
    · exact h.proceed _
    · exact h
  · rename_i hloop
    exact ⟨keyed_execAll h.keyed _, h.idle⟩
  · split
    · exact h.proceed _
    · exact h.close _
  case h_9 =>
    split
    · exact h.proceed _
    · split
      · exact h.proceed _
      · exact h.close _
  all_goals first
    | exact h.proceed _
    | exact h.close _
    | exact h

omit [BaseChannel C] [LinearOrder Ver] [OrderBot Ver] in
theorem tidy_fresh : (fresh : Thread C Ver).Tidy where
  keyed := fun _ _ => ⟨List.nodup_nil, fun _ hr => by cases hr⟩
  idle := fun _ hl => by cases hl

def Reachable (g : Graph C) (inputKeys : InputKeys) (th : Thread C Ver) : Prop :=
  ∃ events, th = run (step g inputKeys) fresh events

theorem Reachable.tidy {th : Thread C Ver} (h : Reachable g inputKeys th) : th.Tidy := by
  obtain ⟨events, rfl⟩ := h
  have hstep (th : Thread C Ver) (e : Event Ver) (hth : th.Tidy) :
      (th.step g inputKeys e).Tidy := hth.step g inputKeys e
  exact run_invariant hstep events tidy_fresh

-- A superstep that starts: the loop `l` holds the task `t` and no task has been committed.
structure AtSuperstep (g : Graph C) (inputKeys : InputKeys) (th : Thread C Ver)
    (l : PregelLoop C Ver) (t : PregelTask) : Prop where
  reachable : Reachable g inputKeys th
  loop : th.loop = some l
  task : l.task? t.id = some t
  notNull : t.id ≠ nullTaskId
  noSource : ∀ r ∈ rowsOf l t th, r.2.1 ≠ Key.errorSourceNode
  loaded : ∀ w ∈ taskWritesOf t.id l.checkpointPendingWrites, w ∈ (rowsOf l t th).map Prod.snd
  synthetic : ∀ w ∈ l.exitDeltaWrites.getD [], exitDeltaTaskId w.step w.taskId ≠ t.id

-- The tasks finish in any order, and the run ends.
def superstepRun (g : Graph C) (inputKeys : InputKeys) (th : Thread C Ver)
    (before : List (String × Attempt)) (t : PregelTask) (a : Attempt)
    (after : List (String × Attempt)) (next : GetNextVersion Ver) : Thread C Ver :=
  run (step g inputKeys) th
    (before.map (fun c => .commit c.1 c.2) ++ [.commit t.id a] ++
      after.map (fun c => .commit c.1 c.2) ++ [.exit next])

theorem anyUncontrolled_of_subset {ws vs : List Write} (h : ∀ w ∈ ws, w ∈ vs)
    (hu : AnyUncontrolled ws) : AnyUncontrolled vs := by
  obtain ⟨w, hw, huw⟩ := hu
  exact ⟨w, h w hw, huw⟩

theorem superstepRun_rows {th : Thread C Ver} {l : PregelLoop C Ver}
    (h : AtSuperstep g inputKeys th l t)
    {before after : List (String × Attempt)} (hbefore : ∀ c ∈ before, c.1 ≠ t.id)
    (hafter : ∀ c ∈ after, c.1 ≠ t.id) (a : Attempt) (next : GetNextVersion Ver) :
    AnyUncontrolled ((rowsOf l t
        (superstepRun g inputKeys th before t a after next)).map Prod.snd) ↔
      AnyUncontrolled ((rowsOf l t th).map Prod.snd) ∨
        ∃ w ∈ a.savedWrites g t.name, Uncontrolled w ∧ l.persists g w := by
  have hkey : (writeSlots t.id).Keyed (rowsOf l t th) := h.reachable.tidy.keyed _ _
  have h₀ : Underway l t th l :=
    ⟨h.loop, h.reachable.tidy.idle l h.loop, rfl, rfl, rfl, rfl, by rw [h.task]; rfl⟩
  obtain ⟨l₁, h₁, hrows₁, hheld₁⟩ :=
    @commit_others _ _ _ _ _ g inputKeys _ _ before hbefore _ _ h₀
  obtain ⟨l₂, h₂, hidle₂, hsaved₂⟩ := @commit_task _ _ _ _ _ g inputKeys _ _ _ _ h₁ h.notNull a
  obtain ⟨l₃, h₃, hrows₃, hheld₃⟩ :=
    @commit_others _ _ _ _ _ g inputKeys _ _ after hafter _ _ h₂
  have hexit := @exit_rows _ _ _ _ _ g inputKeys _ _ _ _ h₃ h.synthetic next
  have hrun : superstepRun g inputKeys th before t a after next =
      (run (step g inputKeys) ((run (step g inputKeys) th
        (before.map (fun c => .commit c.1 c.2))).step g inputKeys (.commit t.id a))
        (after.map (fun c => .commit c.1 c.2))).step g inputKeys (.exit next) := by
    rw [superstepRun, run_append, run_append, run_append]
    rfl
  rw [hrun, hexit, hrows₃, hheld₃]
  by_cases hne : a.savedWrites g t.name = []
  · obtain ⟨hrows₂, hheld₂⟩ := hidle₂ hne
    rw [hrows₂, hheld₂, hrows₁, hheld₁, hne]
    have hsub : AnyUncontrolled (taskWritesOf t.id l.checkpointPendingWrites) →
        AnyUncontrolled ((rowsOf l t th).map Prod.snd) := anyUncontrolled_of_subset h.loaded
    by_cases hd : l.config.durability = .exit
    · rw [if_pos hd, anyUncontrolled_save hkey h.noSource]
      simp only [List.not_mem_nil, false_and, exists_false, or_false]
      exact ⟨fun hu => hu.elim (fun hr => hr) hsub, Or.inl⟩
    · rw [if_neg hd]
      simp
  · obtain ⟨hheld₂, hrows₂⟩ := hsaved₂ hne
    rw [hrows₂, hheld₂, hrows₁]
    by_cases hd : l.config.durability = .exit
    · rw [if_pos hd, if_pos hd, anyUncontrolled_save hkey h.noSource, anyUncontrolled_dedup]
      have hpersist (w : Write) : l.persists g w := Or.inl hd
      simp [AnyUncontrolled, hpersist]
    · rw [if_neg hd, if_neg hd, anyUncontrolled_save hkey h.noSource, anyUncontrolled_sanitize]
      have hpersist (w : Write) : l.persists g w ↔
          anyUntracked l.channels = false ∨ untrackedKey g.specs w.1 = false := by
        simp [PregelLoop.persists, hd]
      have hdedup := exists_dedup (fun k => k ∉ controlChannels ∧
        (anyUntracked l.channels = false ∨ untrackedKey g.specs k = false))
        (a.savedWrites g t.name)
      simp only [hpersist]
      exact or_congr Iff.rfl hdedup

end Thread

end LangGraph
