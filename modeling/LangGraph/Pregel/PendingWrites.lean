import LangGraph.Checkpoint.Rows
import LangGraph.Pregel.Loop

namespace LangGraph

open Collections

theorem mem_dedupWrites {ws : List Write} {w : Write} (h : w ∈ dedupWrites ws) : w ∈ ws := by
  unfold dedupWrites at h
  split at h
  · exact Dict.mem_items_ofList h
  · exact h

theorem map_filter_eq_self {α : Type} {f : α → α} {p : α → Bool} {l : List α} :
    (l.filter p).map f = l ↔ ∀ a ∈ l, p a = true ∧ f a = a := by
  induction l with
  | nil => simp
  | cons a l ih =>
    rw [List.forall_mem_cons, ← ih]
    cases hp : p a with
    | true => simp [hp]
    | false =>
      have hlen : ((l.filter p).map f).length ≤ l.length := by
        rw [List.length_map]
        exact List.length_filter_le p l
      simp only [List.filter_cons, hp, Bool.false_eq_true, if_false, false_and, iff_false]
      intro h
      rw [h, List.length_cons] at hlen
      omega

section Sanitize

variable {C : Type} [BaseChannel C]

theorem sanitizeUntrackedValuesInSend_idem (channels : Dict String C) (v : Value) :
    sanitizeUntrackedValuesInSend channels (sanitizeUntrackedValuesInSend channels v) =
      sanitizeUntrackedValuesInSend channels v := by
  rcases v with _ | _ | _ | ⟨node, _ | _ | items | _ | _⟩ | _
  case send.dict => simp [sanitizeUntrackedValuesInSend]
  all_goals rfl

def Persistable (specs channels : Dict String C) (w : Write) : Prop :=
  anyUntracked channels = true → untrackedKey specs w.1 = false ∧ sanitizeWrite channels w = w

theorem sanitizeWrite_fst (channels : Dict String C) (w : Write) :
    (sanitizeWrite channels w).1 = w.1 := by
  unfold sanitizeWrite
  split <;> rfl

theorem sanitizeWrite_idem (channels : Dict String C) (w : Write) :
    sanitizeWrite channels (sanitizeWrite channels w) = sanitizeWrite channels w := by
  by_cases h : w.1 = Key.tasks
  · simp [sanitizeWrite, h, sanitizeUntrackedValuesInSend_idem]
  · simp [sanitizeWrite, h]

theorem sanitizeWrites_append (specs channels : Dict String C) (xs ys : List Write) :
    sanitizeWrites specs channels (xs ++ ys) =
      sanitizeWrites specs channels xs ++ sanitizeWrites specs channels ys := by
  unfold sanitizeWrites
  split
  · rw [List.filter_append, List.map_append]
  · rfl

theorem sanitizeWrites_eq_self {specs channels : Dict String C} {ws : List Write} :
    sanitizeWrites specs channels ws = ws ↔ ∀ w ∈ ws, Persistable specs channels w := by
  unfold sanitizeWrites Persistable
  cases anyUntracked channels with
  | false => simp
  | true =>
    have h := map_filter_eq_self (f := sanitizeWrite channels)
      (p := fun w : Write => !untrackedKey specs w.1) (l := ws)
    simpa using h

theorem persistable_of_mem {specs channels : Dict String C} {ws : List Write} {w : Write}
    (h : w ∈ sanitizeWrites specs channels ws) : Persistable specs channels w := by
  intro hu
  rw [sanitizeWrites, if_pos hu] at h
  obtain ⟨v, hv, rfl⟩ := List.mem_map.mp h
  have hk : untrackedKey specs v.1 = false := by simpa using (List.mem_filter.mp hv).2
  exact ⟨(congrArg (untrackedKey specs) (sanitizeWrite_fst channels v)).trans hk,
    sanitizeWrite_idem channels v⟩

end Sanitize

theorem taskWritesOf_append (taskId : String) (xs ys : List PendingWrite) :
    taskWritesOf taskId (xs ++ ys) = taskWritesOf taskId xs ++ taskWritesOf taskId ys := by
  rw [taskWritesOf, List.filter_append, List.map_append]
  rfl

theorem taskWritesOf_batch (taskId : String) (ws : List Write) :
    taskWritesOf taskId (ws.map (fun w => PendingWrite.mk taskId w.1 w.2)) = ws := by
  induction ws with
  | nil => rfl
  | cons w ws ih => simpa [taskWritesOf, PendingWrite.write] using ih

theorem taskWritesOf_pending (rows : WriteRows) (taskId : String) :
    taskWritesOf taskId rows.pending = rows.writesOf taskId := by
  simp only [taskWritesOf, WriteRows.pending, WriteRows.writesOf, WriteRows.ofTask,
    List.filter_map, List.map_map]
  rfl

theorem taskWritesOf_eq_nil {taskId : String} {pending : List PendingWrite}
    (h : taskId ∉ taskIds pending) : taskWritesOf taskId pending = [] := by
  have hno (w : PendingWrite) (hw : w ∈ pending) : w.taskId ≠ taskId := by
    rintro rfl
    apply h
    rw [taskIds, Dict.mem_keys_ofList]
    simp only [List.map_map, List.mem_map]
    exact ⟨w, hw, rfl⟩
  rw [taskWritesOf, List.filter_eq_nil_iff.mpr (by simpa using hno), List.map_nil]

def ordinary (ws : List Write) : List Write := ws.filter (fun w => ¬ Special w.1)

theorem taskWritesOf_kept (pending : List PendingWrite) :
    taskWritesOf nullTaskId (PregelLoop.keptWrites nullTaskId pending) =
      ordinary (taskWritesOf nullTaskId pending) := by
  induction pending with
  | nil => rfl
  | cons w pending ih =>
    simp only [PregelLoop.keptWrites, taskWritesOf, ordinary, if_true] at ih ⊢
    by_cases ht : w.taskId = nullTaskId
    · by_cases hs : Special w.channel
      · simpa [ht, hs, PendingWrite.write] using ih
      · simpa [ht, hs, PendingWrite.write] using ih
    · simpa [ht, PendingWrite.write] using ih

namespace InMemorySaver

variable {Ver : Type} [DecidableEq Ver]

theorem ofTask_execAll_writes (cid taskId : String) (ws : String → List Write)
    (path : String → String) (ts : List String) (hn : ts.Nodup) (s : InMemorySaver Ver) :
    ((s.execAll (ts.map (fun t => .putWrites cid (ws t) t (path t)))).rows cid).ofTask taskId =
      (writeSlots taskId).save 0 (if taskId ∈ ts then ws taskId else [])
        ((s.rows cid).ofTask taskId) := by
  induction ts generalizing s with
  | nil => rfl
  | cons t ts ih =>
    obtain ⟨ht, hn⟩ := List.nodup_cons.mp hn
    have hexec : s.execAll ((t :: ts).map (fun t => .putWrites cid (ws t) t (path t))) =
        (s.putWrites cid (ws t) t (path t)).execAll
          (ts.map (fun t => .putWrites cid (ws t) t (path t))) := rfl
    rw [hexec, ih hn, rows_putWrites]
    by_cases h : taskId = t
    · subst h
      rw [if_neg ht, if_pos List.mem_cons_self, WriteRows.ofTask_put]
      rfl
    · rw [WriteRows.ofTask_put_ne (Ne.symm h)]
      simp [h]

theorem storage_execAll_writes (cid : String) (ws : String → List Write)
    (path : String → String) (ts : List String) (s : InMemorySaver Ver) :
    (s.execAll (ts.map (fun t => .putWrites cid (ws t) t (path t)))).storage = s.storage := by
  induction ts generalizing s with
  | nil => rfl
  | cons t ts ih =>
    have hput : (s.putWrites cid (ws t) t (path t)).storage = s.storage := by
      cases h : ws t <;> rfl
    exact (ih (s.putWrites cid (ws t) t (path t))).trans hput

end InMemorySaver

namespace PregelLoop

variable {C Ver : Type}

theorem cacheWrites_frame (taskId : String) (writes : List Write) (l : PregelLoop C Ver) :
    ∃ cache, l.cacheWrites taskId writes = { l with cache := cache } := by
  unfold cacheWrites
  split
  · split
    · split
      · exact ⟨l.cache, rfl⟩
      · exact ⟨_, rfl⟩
    · exact ⟨l.cache, rfl⟩
  · exact ⟨l.cache, rfl⟩

variable [BaseChannel C]

def savedBatch (g : Graph C) (taskId : String) (batch : List Write) (l : PregelLoop C Ver) :
    List Write :=
  sanitizeWrites g.specs l.channels
    (writesToSave taskId l.checkpointPendingWrites (dedupWrites batch))

def batchCalls (g : Graph C) (taskId : String) (batch : List Write) (l : PregelLoop C Ver) :
    List (SaverCall Ver) :=
  if l.config.durability = .exit then []
  else [.putWrites l.checkpoint.id (l.savedBatch g taskId batch) taskId (l.taskPath taskId)]

-- Everything `put_writes` changes.
theorem putWrites_spec (g : Graph C) (taskId : String) {batch : List Write} (h : batch ≠ [])
    (l : PregelLoop C Ver) :
    ∃ cache, l.putWrites g taskId batch =
      { l with
        checkpointPendingWrites := keptWrites taskId l.checkpointPendingWrites ++
          (dedupWrites batch).map (fun w => PendingWrite.mk taskId w.1 w.2)
        submitted := l.submitted ++ l.batchCalls g taskId batch
        cache := cache } := by
  cases batch with
  | nil => exact absurd rfl h
  | cons w ws =>
    simp only [putWrites]
    by_cases hd : l.config.durability = .exit
    · rw [if_pos hd]
      obtain ⟨cache, hc⟩ := cacheWrites_frame taskId (w :: ws)
        { l with
          checkpointPendingWrites := keptWrites taskId l.checkpointPendingWrites ++
            (dedupWrites (w :: ws)).map (fun w => PendingWrite.mk taskId w.1 w.2) }
      refine ⟨cache, ?_⟩
      rw [hc, batchCalls, if_pos hd, List.append_nil]
    · rw [if_neg hd]
      obtain ⟨cache, hc⟩ := cacheWrites_frame taskId (w :: ws)
        (submit (.putWrites l.checkpoint.id (l.savedBatch g taskId (w :: ws)) taskId
            (l.taskPath taskId))
          { l with
            checkpointPendingWrites := keptWrites taskId l.checkpointPendingWrites ++
              (dedupWrites (w :: ws)).map (fun w => PendingWrite.mk taskId w.1 w.2) })
      refine ⟨cache, ?_⟩
      rw [batchCalls, if_neg hd]
      exact hc

end PregelLoop

end LangGraph
