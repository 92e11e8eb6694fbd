import LangGraph.Collections.Upsert
import LangGraph.Pregel.NullWrites
import LangGraph.Pregel.Runner

namespace LangGraph

open Collections Transition

section Rows

theorem writeKey_ne {taskId c d : String} (hc : Special c) (hne : d ≠ c) (i : Nat) :
    writeKey taskId d i ≠ writeKey taskId c 0 := by
  obtain ⟨n, hn, hneg, hkey⟩ := writeKey_special hc taskId 0
  intro h
  rw [hkey] at h
  by_cases hd : Special d
  · obtain ⟨m, hm, -, hkey'⟩ := writeKey_special hd taskId i
    rw [hkey'] at h
    exact hne (writesIdxMap_inj ((congrArg some (Prod.mk.inj h).2) ▸ hm) hn)
  · rw [writeKey_ordinary hd] at h
    have heq := (Prod.mk.inj h).2
    omega

theorem writeKey_pinned {c : String} (hc : Special c) (taskId : String) (i : Nat) :
    writeKey taskId c i = writeKey taskId c 0 := by
  obtain ⟨n, hn, -, hi⟩ := writeKey_special hc taskId i
  obtain ⟨m, hm, -, h0⟩ := writeKey_special hc taskId 0
  rw [hi, h0, Option.some.inj (hn.symm.trans hm)]

theorem lookup_save {taskId c : String} (hc : Special c) (ws : List Write) (i : Nat)
    (rows : List (WriteKey × Write)) :
    (Dict.lookup (writeKey taskId c 0) ((writeSlots taskId).save i ws rows)).map Prod.snd =
      (lastOf c ws).or ((Dict.lookup (writeKey taskId c 0) rows).map Prod.snd) := by
  induction ws generalizing i rows with
  | nil => rfl
  | cons w ws ih =>
    have hkey : (writeSlots taskId).key i w = writeKey taskId w.1 i := rfl
    rw [Slots.save, Dict.lastOf_cons, Option.or_assoc]
    split
    · rename_i hskip
      have hfree : ¬ Special w.1 := ((writeSlots taskId).sticky_key i w).mp hskip.1
      have hne : w.1 ≠ c := by
        rintro rfl
        exact hfree hc
      rw [ih, if_neg hne, Option.none_or]
    · rw [ih, hkey]
      by_cases hw : w.1 = c
      · rw [hw, writeKey_pinned hc taskId i, Dict.lookup_insert_self, if_pos rfl]
        rfl
      · rw [Dict.lookup_insert_ne (writeKey_ne hc hw i).symm, if_neg hw, Option.none_or]

theorem lookup_keyed {taskId c : String} (hc : Special c) {rows : List (WriteKey × Write)}
    (h : (writeSlots taskId).Keyed rows) :
    (Dict.lookup (writeKey taskId c 0) rows).map Prod.snd = lastOf c (rows.map Prod.snd) := by
  induction rows with
  | nil => rfl
  | cons r rows ih =>
    obtain ⟨hnodup, hkeys⟩ := h
    rw [List.map_cons, List.nodup_cons] at hnodup
    have htail : (writeSlots taskId).Keyed rows :=
      ⟨hnodup.2, fun r hr => hkeys r (List.mem_cons_of_mem _ hr)⟩
    obtain ⟨i, hi⟩ := hkeys r List.mem_cons_self
    have hkey : r.1 = writeKey taskId r.2.1 i := hi
    rw [Dict.lookup, List.map_cons, Dict.lastOf_cons, ← ih htail]
    by_cases hr : r.2.1 = c
    · have hsame : r.1 = writeKey taskId c 0 := by rw [hkey, hr, writeKey_pinned hc]
      have hnone : Dict.lookup (writeKey taskId c 0) rows = none :=
        Dict.lookup_eq_none.mpr (hsame ▸ hnodup.1)
      rw [if_pos hsame, hnone, if_pos hr]
      rfl
    · have hne : r.1 ≠ writeKey taskId c 0 := hkey ▸ writeKey_ne hc hr i
      rw [if_neg hne, if_neg hr, Option.or_none]

-- What the rows of a task say under a special channel once more writes are saved.
theorem lastOf_save {taskId c : String} (hc : Special c) {rows : List (WriteKey × Write)}
    (h : (writeSlots taskId).Keyed rows) (ws : List Write) (i : Nat) :
    lastOf c (((writeSlots taskId).save i ws rows).map Prod.snd) =
      (lastOf c ws).or (lastOf c (rows.map Prod.snd)) := by
  rw [← lookup_keyed hc ((writeSlots taskId).keyed_save i ws h), lookup_save hc,
    lookup_keyed hc h]

theorem lastOf_nodup {l : List Write} (h : (l.map Prod.fst).Nodup) (c : String) :
    lastOf c l = Dict.lookup c l := by
  induction l with
  | nil => rfl
  | cons w l ih =>
    obtain ⟨hw, hl⟩ := List.nodup_cons.mp h
    rw [Dict.lastOf_cons, Dict.lookup, ih hl]
    by_cases hc : w.1 = c
    · rw [if_pos hc, if_pos hc, Dict.lookup_eq_none.mpr (hc ▸ hw)]
      rfl
    · rw [if_neg hc, if_neg hc, Option.or_none]

theorem lastOf_dedup (c : String) (ws : List Write) : lastOf c (dedupWrites ws) = lastOf c ws := by
  unfold dedupWrites
  split
  · have hget : (Dict.ofList ws).get? c = lastOf c ws := by
      rw [Dict.ofList, Dict.get?_update]
      exact Option.or_none
    rw [lastOf_nodup (Dict.ofList ws).nodup, ← hget]
    rfl
  · rfl

variable {C : Type} [BaseChannel C]

theorem lastOf_sanitize {specs channels : Dict String C} {c : String}
    (hc : untrackedKey specs c = false) (hn : c ≠ Key.tasks) (ws : List Write) :
    lastOf c (sanitizeWrites specs channels ws) = lastOf c ws := by
  unfold sanitizeWrites
  split
  · induction ws with
    | nil => rfl
    | cons w ws ih =>
      cases hk : untrackedKey specs w.1 with
      | true =>
        have hne : w.1 ≠ c := by
          rintro rfl
          rw [hc] at hk
          cases hk
        have hskip : (w :: ws).filter (fun w => !untrackedKey specs w.1) =
            ws.filter (fun w => !untrackedKey specs w.1) := by simp [hk]
        rw [hskip, ih, Dict.lastOf_cons, if_neg hne, Option.or_none]
      | false =>
        have hkeep : (w :: ws).filter (fun w => !untrackedKey specs w.1) =
            w :: ws.filter (fun w => !untrackedKey specs w.1) := by simp [hk]
        rw [hkeep, List.map_cons, Dict.lastOf_cons, Dict.lastOf_cons, ih, sanitizeWrite_fst]
        by_cases hw : w.1 = c
        · rw [if_pos hw, if_pos hw, sanitizeWrite, if_neg (hw ▸ hn)]
        · rw [if_neg hw, if_neg hw]
  · rfl

end Rows

-- The id of the interrupt that a task has among pending writes.
def asksIn (pending : List PendingWrite) (taskId : String) : Option Value :=
  (lastOf Key.interrupt (taskWritesOf taskId pending)).map PregelLoop.interruptId

namespace Session

variable {C Ver : Type} [LinearOrder Ver]

def taskRows (taskId : String) (s : Session C Ver) : List (WriteKey × Write) :=
  (s.saver.rows s.loop.checkpoint.id).ofTask taskId

-- What the next run finds stored for a task.
def loaded (taskId : String) (s : Session C Ver) : List Write :=
  taskWritesOf taskId s.reload.loop.checkpointPendingWrites

def asks (taskId : String) (s : Session C Ver) : Option Value :=
  asksIn s.reload.loop.checkpointPendingWrites taskId

def hasAnswer (taskId : String) (s : Session C Ver) : Bool :=
  (lastOf Key.resume (s.loaded taskId)).isSome

def carriers (s : Session C Ver) : List String := taskIds s.reload.loop.checkpointPendingWrites

def answered (v : Value) (s : Session C Ver) : Bool :=
  s.carriers.any (fun taskId => s.asks taskId = some v && s.hasAnswer taskId)

section Loaded

variable {s : Session C Ver}

theorem reload_taskRows (h : Ready s) (taskId : String) : s.reload.taskRows taskId =
    if s.loop.config.durability = .exit then
      (writeSlots taskId).save 0 (taskWritesOf taskId s.loop.checkpointPendingWrites)
        (s.taskRows taskId)
    else s.taskRows taskId := by
  by_cases hd : s.loop.config.durability = .exit
  · have hexec := InMemorySaver.ofTask_execAll_writes s.loop.checkpoint.id taskId
      (fun t => taskWritesOf t s.loop.checkpointPendingWrites) s.loop.taskPath
      (taskIds s.loop.checkpointPendingWrites) (Dict.nodup_keys _) s.saver
    have hws : (if taskId ∈ taskIds s.loop.checkpointPendingWrites then
        taskWritesOf taskId s.loop.checkpointPendingWrites else []) =
          taskWritesOf taskId s.loop.checkpointPendingWrites := by
      split
      · rfl
      · rename_i hn
        exact (taskWritesOf_eq_nil hn).symm
    rw [hws] at hexec
    simp only [reload, if_pos hd, flush, PregelLoop.putPendingWrites, h.idle, List.nil_append]
    exact hexec
  · simp only [reload, if_neg hd, flush_idle h.idle]
    rfl

theorem reload_pending (h : Ready s) : s.reload.loop.checkpointPendingWrites =
    (s.reload.saver.rows s.loop.checkpoint.id).pending := by
  have hs : (s.reload.saver.storage.get? s.loop.checkpoint.id).isSome = true := by
    rw [reload_stored h]
    exact h.stored
  rw [← loadPending hs]
  by_cases hd : s.loop.config.durability = .exit
  · simp [reload, hd, flush, PregelLoop.putPendingWrites]
  · simp [reload, hd, flush]

theorem loaded_eq (h : Ready s) (taskId : String) :
    s.loaded taskId = (s.reload.taskRows taskId).map Prod.snd := by
  rw [loaded, reload_pending h, taskWritesOf_pending, taskRows, (reload_frame s).1]
  rfl

-- The special rows that the next run finds.
theorem lastOf_loaded (h : Ready s) {c taskId : String} (hc : Special c)
    (hk : (writeSlots taskId).Keyed (s.taskRows taskId)) :
    lastOf c (s.loaded taskId) =
      (if s.loop.config.durability = .exit then
        lastOf c (taskWritesOf taskId s.loop.checkpointPendingWrites) else none).or
        (lastOf c ((s.taskRows taskId).map Prod.snd)) := by
  rw [loaded_eq h, reload_taskRows h]
  split
  · exact lastOf_save hc hk _ _
  · exact Option.none_or.symm

theorem keyed_reload (h : Ready s) {taskId : String}
    (hk : (writeSlots taskId).Keyed (s.taskRows taskId)) :
    (writeSlots taskId).Keyed (s.reload.taskRows taskId) := by
  rw [reload_taskRows h]
  split
  · exact (writeSlots taskId).keyed_save _ _ hk
  · exact hk

-- A second reload finds what the first one loaded.
theorem lastOf_reload (h : Ready s) {c taskId : String} (hc : Special c)
    (hk : (writeSlots taskId).Keyed (s.taskRows taskId)) :
    lastOf c (s.reload.loaded taskId) = lastOf c (s.loaded taskId) := by
  have hmem : taskWritesOf taskId s.reload.loop.checkpointPendingWrites =
      (s.reload.taskRows taskId).map Prod.snd := loaded_eq h taskId
  rw [lastOf_loaded (reload_ready h) hc (keyed_reload h hk), hmem, ← loaded_eq h]
  split
  · cases lastOf c (s.loaded taskId) <;> rfl
  · exact Option.none_or

end Loaded

section Put

variable [BaseChannel C] {s : Session C Ver} {g : Graph C} {taskId : String} {batch : List Write}

def put (g : Graph C) (taskId : String) (batch : List Write) (s : Session C Ver) :
    Session C Ver :=
  flush ⟨s.saver, s.loop.putWrites g taskId batch⟩

theorem put_frame (h : Ready s) (g : Graph C) (taskId : String) (batch : List Write) :
    (s.put g taskId batch).loop.checkpoint = s.loop.checkpoint ∧
      (s.put g taskId batch).loop.config = s.loop.config ∧
      (s.put g taskId batch).loop.channels = s.loop.channels ∧
      (s.put g taskId batch).loop.submitted = [] ∧
      (s.put g taskId batch).saver.storage = s.saver.storage := by
  by_cases hb : batch = []
  · subst hb
    have hsame : s.put g taskId [] = s := flush_idle h.idle
    rw [hsame]
    exact ⟨rfl, rfl, rfl, h.idle, rfl⟩
  · obtain ⟨cache, hput⟩ := PregelLoop.putWrites_spec g taskId hb s.loop
    rw [put, hput]
    refine ⟨rfl, rfl, rfl, rfl, ?_⟩
    simp only [flush, h.idle, List.nil_append, PregelLoop.batchCalls]
    split
    · rfl
    · exact InMemorySaver.storage_execAll_writes s.loop.checkpoint.id
        (fun _ => s.loop.savedBatch g taskId batch) s.loop.taskPath [taskId] s.saver

theorem put_ready (h : Ready s) : Ready (s.put g taskId batch) where
  stored := by
    rw [(put_frame h g taskId batch).2.2.2.2, (put_frame h g taskId batch).1]
    exact h.stored
  idle := (put_frame h g taskId batch).2.2.2.1

theorem put_memory (hb : batch ≠ []) (other : String) :
    taskWritesOf other (s.put g taskId batch).loop.checkpointPendingWrites =
      if other = taskId then
        (if taskId = nullTaskId then ordinary (taskWritesOf taskId s.loop.checkpointPendingWrites)
          else []) ++ dedupWrites batch
      else taskWritesOf other s.loop.checkpointPendingWrites := by
  obtain ⟨cache, hput⟩ := PregelLoop.putWrites_spec g taskId hb s.loop
  have hmem : (s.put g taskId batch).loop.checkpointPendingWrites =
      PregelLoop.keptWrites taskId s.loop.checkpointPendingWrites ++
        (dedupWrites batch).map (fun w => PendingWrite.mk taskId w.1 w.2) := by
    rw [put, hput]
    rfl
  rw [hmem, taskWritesOf_append]
  split
  · rename_i heq
    rw [heq, taskWritesOf_batch]
    split
    · rename_i hnull
      rw [hnull, taskWritesOf_kept]
    · rename_i hnull
      have hnone : taskWritesOf taskId
          (PregelLoop.keptWrites taskId s.loop.checkpointPendingWrites) = [] := by
        rw [PregelLoop.keptWrites, if_neg hnull, taskWritesOf, List.filter_filter]
        simp
      rw [hnone]
  · rename_i hne
    have hbatch : taskWritesOf other
        ((dedupWrites batch).map (fun w => PendingWrite.mk taskId w.1 w.2)) = [] := by
      rw [taskWritesOf, List.filter_eq_nil_iff.mpr, List.map_nil]
      intro w hw
      obtain ⟨u, -, rfl⟩ := List.mem_map.mp hw
      simpa using Ne.symm hne
    have hkept : taskWritesOf other
        (PregelLoop.keptWrites taskId s.loop.checkpointPendingWrites) =
          taskWritesOf other s.loop.checkpointPendingWrites := by
      rw [taskWritesOf, taskWritesOf, PregelLoop.keptWrites]
      congr 1
      split
      · rw [List.filter_filter]
        refine List.filter_congr (fun w _ => ?_)
        by_cases hw : w.taskId = other
        · simp [hw, hne]
        · simp [hw]
      · rw [List.filter_filter]
        refine List.filter_congr (fun w _ => ?_)
        by_cases hw : w.taskId = other
        · simp [hw, hne]
        · simp [hw]
    rw [hbatch, hkept, List.append_nil]

theorem put_taskRows (h : Ready s) (hb : batch ≠ []) (other : String) :
    (s.put g taskId batch).taskRows other =
      if s.loop.config.durability ≠ .exit ∧ other = taskId then
        (writeSlots taskId).save 0 (s.loop.savedBatch g taskId batch) (s.taskRows taskId)
      else s.taskRows other := by
  obtain ⟨cache, hput⟩ := PregelLoop.putWrites_spec g taskId hb s.loop
  have hsaver : (s.put g taskId batch).saver =
      s.saver.execAll (s.loop.batchCalls g taskId batch) := by
    rw [put, hput]
    simp only [flush, h.idle, List.nil_append]
  rw [taskRows, (put_frame h g taskId batch).1, hsaver, PregelLoop.batchCalls]
  by_cases hd : s.loop.config.durability = .exit
  · rw [if_pos hd, if_neg (fun hn => hn.1 hd)]
    rfl
  · rw [if_neg hd]
    have hexec : s.saver.execAll [.putWrites s.loop.checkpoint.id
        (s.loop.savedBatch g taskId batch) taskId (s.loop.taskPath taskId)] =
        s.saver.putWrites s.loop.checkpoint.id (s.loop.savedBatch g taskId batch) taskId
          (s.loop.taskPath taskId) := rfl
    rw [hexec, InMemorySaver.rows_putWrites]
    by_cases ho : other = taskId
    · subst ho
      rw [if_pos ⟨hd, rfl⟩, WriteRows.ofTask_put]
      rfl
    · rw [if_neg (fun hn => ho hn.2), WriteRows.ofTask_put_ne (Ne.symm ho)]
      rfl

theorem put_nil (h : Ready s) : s.put g taskId [] = s := flush_idle h.idle

theorem keyed_put (h : Ready s) {other : String}
    (hk : (writeSlots other).Keyed (s.taskRows other)) :
    (writeSlots other).Keyed ((s.put g taskId batch).taskRows other) := by
  by_cases hb : batch = []
  · rw [hb, put_nil h]
    exact hk
  · rw [put_taskRows h hb]
    split
    · rename_i hsame
      obtain ⟨-, rfl⟩ := hsame
      exact (writeSlots other).keyed_save _ _ hk
    · exact hk

theorem lastOf_put_ne (h : Ready s) {c other : String} (hc : Special c) (ho : other ≠ taskId)
    (hk : (writeSlots other).Keyed (s.taskRows other)) :
    lastOf c ((s.put g taskId batch).loaded other) = lastOf c (s.loaded other) := by
  by_cases hb : batch = []
  · rw [hb, put_nil h]
  · have hrows : (s.put g taskId batch).taskRows other = s.taskRows other := by
      rw [put_taskRows h hb, if_neg (fun hn => ho hn.2)]
    rw [lastOf_loaded (put_ready h) hc (keyed_put h hk), lastOf_loaded h hc hk,
      (put_frame h g taskId batch).2.1, put_memory hb, if_neg ho, hrows]

omit [LinearOrder Ver] in
theorem lastOf_savedBatch {c : String} (hu : untrackedKey g.specs c = false) (hn : c ≠ Key.tasks)
    (ht : taskId ≠ nullTaskId) : lastOf c (s.loop.savedBatch g taskId batch) = lastOf c batch := by
  rw [PregelLoop.savedBatch, PregelLoop.writesToSave, if_neg ht, lastOf_sanitize hu hn,
    lastOf_dedup]

-- A task that is saved once after the load adds its special rows to those loaded.
theorem lastOf_put (h : Ready s) {c : String} (hc : Special c)
    (hu : untrackedKey g.specs c = false) (ht : taskId ≠ nullTaskId)
    (hk : (writeSlots taskId).Keyed (s.taskRows taskId))
    (hclean : s.loop.config.durability = .exit →
      taskWritesOf taskId s.loop.checkpointPendingWrites = (s.taskRows taskId).map Prod.snd) :
    lastOf c ((s.put g taskId batch).loaded taskId) =
      (lastOf c batch).or (lastOf c (s.loaded taskId)) := by
  have hn : c ≠ Key.tasks := by
    rintro rfl
    exact absurd hc (by decide)
  by_cases hb : batch = []
  · rw [hb, put_nil h]
    exact Option.none_or.symm
  · rw [lastOf_loaded (put_ready h) hc (keyed_put h hk), lastOf_loaded h hc hk,
      (put_frame h g taskId batch).2.1, put_memory hb, if_pos rfl, if_neg ht, List.nil_append,
      lastOf_dedup, put_taskRows h hb]
    by_cases hd : s.loop.config.durability = .exit
    · rw [if_pos hd, if_neg (fun hn => hn.1 hd), if_pos hd, hclean hd]
      cases lastOf c ((s.taskRows taskId).map Prod.snd) <;> rfl
    · rw [if_neg hd, if_pos ⟨hd, rfl⟩, if_neg hd, lastOf_save hc hk, lastOf_savedBatch hu hn ht,
        Option.none_or, Option.none_or]

end Put

end Session

section PendingInterrupts

theorem taskWritesOf_cons (taskId : String) (w : PendingWrite) (pending : List PendingWrite) :
    taskWritesOf taskId (w :: pending) =
      if w.taskId = taskId then w.write :: taskWritesOf taskId pending
      else taskWritesOf taskId pending := by
  by_cases h : w.taskId = taskId
  · simp [taskWritesOf, h]
  · simp [taskWritesOf, h]

theorem lastOf_interrupts (pending : List PendingWrite) (taskId : String) :
    lastOf taskId ((pending.filter (fun w => w.channel = Key.interrupt)).map
      (fun w => (w.taskId, PregelLoop.interruptId w.value))) = asksIn pending taskId := by
  induction pending with
  | nil => rfl
  | cons w pending ih =>
    rw [asksIn, taskWritesOf_cons]
    by_cases hc : w.channel = Key.interrupt
    · have hkeep : (w :: pending).filter (fun w => w.channel = Key.interrupt) =
          w :: pending.filter (fun w => w.channel = Key.interrupt) := by simp [hc]
      rw [hkeep, List.map_cons, Dict.lastOf_cons, ih]
      by_cases ht : w.taskId = taskId
      · have hw : w.write.1 = Key.interrupt := hc
        rw [if_pos ht, if_pos ht, Dict.lastOf_cons, if_pos hw, asksIn, Option.map_or]
        rfl
      · rw [if_neg ht, if_neg ht, Option.or_none]
        rfl
    · have hskip : (w :: pending).filter (fun w => w.channel = Key.interrupt) =
          pending.filter (fun w => w.channel = Key.interrupt) := by simp [hc]
      rw [hskip, ih]
      split
      · have hw : ¬ w.write.1 = Key.interrupt := hc
        rw [Dict.lastOf_cons, if_neg hw, Option.or_none]
        rfl
      · rfl

theorem exists_resume_iff {pending : List PendingWrite} {taskId : String} :
    (∃ w ∈ pending, w.channel = Key.resume ∧ w.taskId = taskId) ↔
      (lastOf Key.resume (taskWritesOf taskId pending)).isSome = true := by
  have hnone : lastOf Key.resume (taskWritesOf taskId pending) = none ↔
      ¬ ∃ w ∈ pending, w.channel = Key.resume ∧ w.taskId = taskId := by
    rw [Dict.lastOf_eq_none]
    constructor
    · rintro h ⟨w, hw, hc, ht⟩
      exact h w.write (List.mem_map_of_mem (List.mem_filter.mpr ⟨hw, decide_eq_true ht⟩)) hc
    · intro h r hr hc
      obtain ⟨w, hw, rfl⟩ := List.mem_map.mp hr
      obtain ⟨hw, ht⟩ := List.mem_filter.mp hw
      exact h ⟨w, hw, hc, of_decide_eq_true ht⟩
  rw [← Option.ne_none_iff_isSome, ne_eq, hnone, not_not]

-- The hanging interrupts: asked by some task, and none that asks it has a resume row.
theorem mem_pendingInterrupts {pending : List PendingWrite} {v : Value} :
    v ∈ PregelLoop.pendingInterrupts pending ↔ (∃ t, asksIn pending t = some v) ∧
      ¬ ∃ t, asksIn pending t = some v ∧
        (lastOf Key.resume (taskWritesOf t pending)).isSome = true := by
  unfold PregelLoop.pendingInterrupts
  generalize hd : Dict.ofList ((pending.filter (fun w => w.channel = Key.interrupt)).map
    (fun w => (w.taskId, PregelLoop.interruptId w.value))) = interrupts
  have hget (t : String) : interrupts.get? t = asksIn pending t := by
    rw [← hd, Dict.ofList, Dict.get?_update, ← lastOf_interrupts]
    exact Option.or_none
  simp only [List.mem_dedup, List.mem_filter, Dict.mem_values, hget, decide_eq_true_eq,
    List.mem_filterMap, List.mem_map]
  refine and_congr Iff.rfl (not_congr ?_)
  constructor
  · rintro ⟨t, ⟨w, hw, rfl⟩, ht⟩
    obtain ⟨hw, hc⟩ := hw
    exact ⟨w.taskId, ht, exists_resume_iff.mp ⟨w, hw, hc, rfl⟩⟩
  · rintro ⟨t, ht, hr⟩
    obtain ⟨w, hw, hc, rfl⟩ := exists_resume_iff.mpr hr
    exact ⟨w.taskId, ⟨w, ⟨hw, hc⟩, rfl⟩, ht⟩

theorem Session.mem_carriers {C Ver : Type} [LinearOrder Ver] {s : Session C Ver} {t : String}
    {v : Value} (h : s.asks t = some v) : t ∈ s.carriers := by
  by_contra hno
  rw [asks, asksIn, taskWritesOf_eq_nil hno] at h
  cases h

theorem Session.answered_iff {C Ver : Type} [LinearOrder Ver] {s : Session C Ver} {v : Value} :
    s.answered v = true ↔ ∃ t, s.asks t = some v ∧ s.hasAnswer t = true := by
  simp only [answered, List.any_eq_true, Bool.and_eq_true, decide_eq_true_eq]
  constructor
  · rintro ⟨t, -, ht⟩
    exact ⟨t, ht⟩
  · rintro ⟨t, hasks, hanswer⟩
    exact ⟨t, mem_carriers hasks, hasks, hanswer⟩

end PendingInterrupts

end LangGraph
