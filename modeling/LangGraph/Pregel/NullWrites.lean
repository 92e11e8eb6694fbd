import LangGraph.Channels.Channel
import LangGraph.Pregel.PendingWrites
import LangGraph.Pregel.Superstep
import LangGraph.Transition.Run

namespace LangGraph

open Collections Transition

variable {C Ver : Type} [LinearOrder Ver]

inductive NullStep where
  | putWrites (batch : List Write)
  | reload

namespace Session

def reload (s : Session C Ver) : Session C Ver :=
  let s : Session C Ver :=
    if s.loop.config.durability = .exit then ⟨s.saver, s.loop.putPendingWrites⟩ else s
  let s := s.flush
  { s with loop := { s.loop with
      checkpointPendingWrites :=
        ((s.saver.getTuple (some s.loop.checkpoint.id)).map CheckpointTuple.pendingWrites).getD [] } }

def nullStep [BaseChannel C] (g : Graph C) (s : Session C Ver) : NullStep → Session C Ver
  | .putWrites batch => flush ⟨s.saver, s.loop.putWrites g nullTaskId batch⟩
  | .reload => s.reload

def memoryWrites (s : Session C Ver) : List Write :=
  taskWritesOf nullTaskId s.loop.checkpointPendingWrites

def savedRows (s : Session C Ver) : List (WriteKey × Write) :=
  (s.saver.rows s.loop.checkpoint.id).ofTask nullTaskId

def savedWrites (s : Session C Ver) : List Write := s.savedRows.map Prod.snd

def NullAgrees (s : Session C Ver) : Prop := s.reload.memoryWrites = s.memoryWrites

structure Ready (s : Session C Ver) : Prop where
  stored : (s.saver.storage.get? s.loop.checkpoint.id).isSome = true
  idle : s.loop.submitted = []

structure NullInv [BaseChannel C] (g : Graph C) (s : Session C Ver) : Prop extends Ready s where
  rows : s.savedRows = (writeSlots nullTaskId).indexFrom 0 s.savedWrites
  distinct : (writeSlots nullTaskId).Distinct s.savedWrites
  clean : s.loop.config.durability ≠ .exit →
    ∀ w ∈ s.savedWrites, Persistable g.specs s.loop.channels w

-- The batch, put after the ordinary rows in memory, lines up with the stored rows.
def BatchFits [BaseChannel C] (g : Graph C) (s : Session C Ver) : NullStep → Prop
  | .reload => True
  | .putWrites batch =>
      batch = [] ∨
        (writeSlots nullTaskId).Continues s.savedWrites
            (ordinary s.memoryWrites ++ dedupWrites batch) ∧
          (s.loop.config.durability ≠ .exit →
            sanitizeWrites g.specs s.loop.channels (dedupWrites batch) = dedupWrites batch)

instance [BaseChannel C] (g : Graph C) (s : Session C Ver) (st : NullStep) :
    Decidable (BatchFits g s st) :=
  match st with
  | .reload => inferInstanceAs (Decidable True)
  | .putWrites _ => inferInstanceAs (Decidable (_ ∨ _ ∧ _))

instance (s : Session C Ver) : Decidable (NullAgrees s) := inferInstanceAs (Decidable (_ = _))

theorem flush_idle {s : Session C Ver} (h : s.loop.submitted = []) : s.flush = s := by
  obtain ⟨saver, loop⟩ := s
  cases loop
  simp only at h
  subst h
  rfl

theorem loadPending {s : InMemorySaver Ver} {cid : String}
    (h : (s.storage.get? cid).isSome = true) :
    ((s.getTuple (some cid)).map CheckpointTuple.pendingWrites).getD [] = (s.rows cid).pending := by
  obtain ⟨saved, hs⟩ := Option.isSome_iff_exists.mp h
  have hor : (some cid).or s.latest = some cid := rfl
  simp [InMemorySaver.getTuple, hor, hs, InMemorySaver.tuple]

theorem reload_savedRows {s : Session C Ver} (h : Ready s) :
    s.reload.savedRows =
      if s.loop.config.durability = .exit then
        (writeSlots nullTaskId).save 0 s.memoryWrites s.savedRows
      else s.savedRows := by
  by_cases hd : s.loop.config.durability = .exit
  · have hexec := InMemorySaver.ofTask_execAll_writes s.loop.checkpoint.id nullTaskId
      (fun t => taskWritesOf t s.loop.checkpointPendingWrites) s.loop.taskPath
      (taskIds s.loop.checkpointPendingWrites) (Dict.nodup_keys _) s.saver
    have hws : (if nullTaskId ∈ taskIds s.loop.checkpointPendingWrites then
        taskWritesOf nullTaskId s.loop.checkpointPendingWrites else []) = s.memoryWrites := by
      split
      · rfl
      · rename_i hn
        exact (taskWritesOf_eq_nil hn).symm
    rw [hws] at hexec
    simp only [reload, if_pos hd, flush, PregelLoop.putPendingWrites, h.idle, List.nil_append]
    exact hexec
  · simp only [reload, if_neg hd, flush_idle h.idle]
    rfl

theorem reload_frame (s : Session C Ver) :
    s.reload.loop.checkpoint = s.loop.checkpoint ∧ s.reload.loop.config = s.loop.config ∧
      s.reload.loop.channels = s.loop.channels ∧ s.reload.loop.submitted = [] := by
  by_cases hd : s.loop.config.durability = .exit
  · simp [reload, hd, flush, PregelLoop.putPendingWrites]
  · simp [reload, hd, flush]

theorem reload_stored {s : Session C Ver} (h : Ready s) :
    s.reload.saver.storage = s.saver.storage := by
  by_cases hd : s.loop.config.durability = .exit
  · simp only [reload, if_pos hd, flush, PregelLoop.putPendingWrites, h.idle, List.nil_append]
    exact InMemorySaver.storage_execAll_writes _ _ _ _ s.saver
  · simp only [reload, if_neg hd, flush_idle h.idle]

theorem reload_memory {s : Session C Ver} (h : Ready s) :
    s.reload.memoryWrites = s.reload.savedWrites := by
  have hs : (s.reload.saver.storage.get? s.loop.checkpoint.id).isSome = true := by
    rw [reload_stored h]
    exact h.stored
  have hp : s.reload.loop.checkpointPendingWrites =
      (s.reload.saver.rows s.loop.checkpoint.id).pending := by
    rw [← loadPending hs]
    by_cases hd : s.loop.config.durability = .exit
    · simp [reload, hd, flush, PregelLoop.putPendingWrites]
    · simp [reload, hd, flush]
  rw [memoryWrites, hp, taskWritesOf_pending, savedWrites, savedRows, (reload_frame s).1]
  rfl

theorem nullAgrees_iff {s : Session C Ver} (h : Ready s) :
    NullAgrees s ↔
      (if s.loop.config.durability = .exit then
        (writeSlots nullTaskId).save 0 s.memoryWrites s.savedRows
      else s.savedRows).map Prod.snd = s.memoryWrites := by
  rw [NullAgrees, reload_memory h, savedWrites, reload_savedRows h]

variable [BaseChannel C]

theorem agrees_exit {g : Graph C} {s : Session C Ver} (h : NullInv g s)
    (hd : s.loop.config.durability = .exit) :
    NullAgrees s ↔ (writeSlots nullTaskId).Continues s.savedWrites s.memoryWrites := by
  rw [nullAgrees_iff h.toReady, if_pos hd, h.rows]
  exact Slots.save_eq_iff _ h.distinct

omit [BaseChannel C] in
theorem agrees_direct {s : Session C Ver} (h : Ready s)
    (hd : s.loop.config.durability ≠ .exit) :
    NullAgrees s ↔ s.savedWrites = s.memoryWrites := by
  rw [nullAgrees_iff h, if_neg hd]
  rfl

theorem putNull_frame (g : Graph C) {batch : List Write} (h : batch ≠ []) (s : Session C Ver) :
    let s' := s.nullStep g (.putWrites batch)
    s'.loop.checkpoint = s.loop.checkpoint ∧ s'.loop.config = s.loop.config ∧
      s'.loop.channels = s.loop.channels ∧ s'.loop.submitted = [] ∧
      s'.saver = s.saver.execAll (s.loop.submitted ++ s.loop.batchCalls g nullTaskId batch) ∧
      s'.memoryWrites = ordinary s.memoryWrites ++ dedupWrites batch := by
  obtain ⟨cache, hput⟩ := PregelLoop.putWrites_spec g nullTaskId h s.loop
  have hmem : taskWritesOf nullTaskId (PregelLoop.keptWrites nullTaskId
      s.loop.checkpointPendingWrites ++
        (dedupWrites batch).map (fun w => PendingWrite.mk nullTaskId w.1 w.2)) =
      ordinary s.memoryWrites ++ dedupWrites batch := by
    rw [taskWritesOf_append, taskWritesOf_kept, taskWritesOf_batch]
    rfl
  simp only [nullStep, hput, flush, memoryWrites, hmem]
  simp

omit [LinearOrder Ver] in
theorem savedBatch_null (g : Graph C) (batch : List Write) (s : Session C Ver) :
    s.loop.savedBatch g nullTaskId batch =
      sanitizeWrites g.specs s.loop.channels (ordinary s.memoryWrites ++ dedupWrites batch) := by
  rw [PregelLoop.savedBatch, PregelLoop.writesToSave, if_pos rfl, taskWritesOf_kept]
  rfl

theorem putNull_savedRows {g : Graph C} {batch : List Write} (hb : batch ≠ []) {s : Session C Ver}
    (h : NullInv g s) :
    (s.nullStep g (.putWrites batch)).savedRows =
      if s.loop.config.durability = .exit then s.savedRows
      else (writeSlots nullTaskId).save 0
        (sanitizeWrites g.specs s.loop.channels (ordinary s.memoryWrites ++ dedupWrites batch))
        s.savedRows := by
  obtain ⟨hcp, -, -, -, hsaver, -⟩ := putNull_frame g hb s
  rw [savedRows, hcp, hsaver, h.idle, List.nil_append, PregelLoop.batchCalls]
  split
  · rfl
  · have hexec : s.saver.execAll [.putWrites s.loop.checkpoint.id
        (s.loop.savedBatch g nullTaskId batch) nullTaskId (s.loop.taskPath nullTaskId)] =
        s.saver.putWrites s.loop.checkpoint.id (s.loop.savedBatch g nullTaskId batch) nullTaskId
          (s.loop.taskPath nullTaskId) := rfl
    rw [hexec, InMemorySaver.rows_putWrites, WriteRows.ofTask_put, savedBatch_null]
    rfl

theorem putNull_stored {g : Graph C} {batch : List Write} (hb : batch ≠ []) {s : Session C Ver}
    (h : NullInv g s) :
    (s.nullStep g (.putWrites batch)).saver.storage = s.saver.storage := by
  obtain ⟨-, -, -, -, hsaver, -⟩ := putNull_frame g hb s
  rw [hsaver, h.idle, List.nil_append, PregelLoop.batchCalls]
  split
  · rfl
  · exact InMemorySaver.storage_execAll_writes s.loop.checkpoint.id
      (fun _ => s.loop.savedBatch g nullTaskId batch) s.loop.taskPath [nullTaskId] s.saver

theorem mem_ordinary {ws : List Write} {w : Write} (h : w ∈ ordinary ws) : w ∈ ws :=
  (List.mem_filter.mp h).1

-- Outside exit mode every stored row went through the sanitiser, so agreement forces the batch
-- to be one the sanitiser leaves as it is.
omit [LinearOrder Ver] in
theorem save_sanitized_iff {g : Graph C} {s : Session C Ver} (h : NullInv g s)
    (hd : s.loop.config.durability ≠ .exit) (hm : s.savedWrites = s.memoryWrites)
    (ws : List Write) :
    ((writeSlots nullTaskId).save 0
        (sanitizeWrites g.specs s.loop.channels (ordinary s.memoryWrites ++ ws))
        s.savedRows).map Prod.snd = ordinary s.memoryWrites ++ ws ↔
      (writeSlots nullTaskId).Continues s.savedWrites (ordinary s.memoryWrites ++ ws) ∧
        sanitizeWrites g.specs s.loop.channels ws = ws := by
  have hclean := h.clean hd
  have hord : sanitizeWrites g.specs s.loop.channels (ordinary s.memoryWrites) =
      ordinary s.memoryWrites := by
    rw [sanitizeWrites_eq_self]
    intro w hw
    apply hclean w
    rw [hm]
    exact mem_ordinary hw
  rw [h.rows, sanitizeWrites_append, hord]
  constructor
  · intro heq
    have hws : sanitizeWrites g.specs s.loop.channels ws = ws := by
      rw [sanitizeWrites_eq_self]
      intro w hw
      have hmem : w ∈ ordinary s.memoryWrites ++ ws := List.mem_append_right _ hw
      rw [← heq] at hmem
      rcases Slots.mem_save _ hmem with hin | hin
      · rcases List.mem_append.mp hin with hin | hin
        · exact hclean w (hm ▸ mem_ordinary hin)
        · exact persistable_of_mem hin
      · rw [Slots.values_indexFrom] at hin
        exact hclean w hin
    rw [hws] at heq
    exact ⟨(Slots.save_eq_iff _ h.distinct).mp heq, hws⟩
  · rintro ⟨hc, hws⟩
    rw [hws]
    exact (Slots.save_eq_iff _ h.distinct).mpr hc

theorem putNull_ready {g : Graph C} {batch : List Write} (hb : batch ≠ []) {s : Session C Ver}
    (h : NullInv g s) : Ready (s.nullStep g (.putWrites batch)) where
  stored := by
    rw [putNull_stored hb h, (putNull_frame g hb s).1]
    exact h.stored
  idle := (putNull_frame g hb s).2.2.2.1

theorem putNull_agrees_iff {g : Graph C} {batch : List Write} (hb : batch ≠ [])
    {s : Session C Ver} (h : NullInv g s) (hg : NullAgrees s) :
    NullAgrees (s.nullStep g (.putWrites batch)) ↔ BatchFits g s (.putWrites batch) := by
  have hready := putNull_ready hb h
  obtain ⟨-, hcfg, -, -, -, hmem⟩ := putNull_frame g hb s
  have hfits : BatchFits g s (.putWrites batch) ↔
      (writeSlots nullTaskId).Continues s.savedWrites
          (ordinary s.memoryWrites ++ dedupWrites batch) ∧
        (s.loop.config.durability ≠ .exit →
          sanitizeWrites g.specs s.loop.channels (dedupWrites batch) = dedupWrites batch) :=
    or_iff_right hb
  by_cases hd : s.loop.config.durability = .exit
  · rw [nullAgrees_iff hready, hcfg, if_pos hd, hmem, putNull_savedRows hb h, if_pos hd, h.rows,
      Slots.save_eq_iff _ h.distinct, hfits]
    exact ⟨fun hc => ⟨hc, fun hn => absurd hd hn⟩, fun hc => hc.1⟩
  · have hm : s.savedWrites = s.memoryWrites := (agrees_direct h.toReady hd).mp hg
    rw [nullAgrees_iff hready, hcfg, if_neg hd, hmem, putNull_savedRows hb h, if_neg hd,
      save_sanitized_iff h hd hm, hfits]
    exact and_congr_right (fun _ => ⟨fun hs _ => hs, fun hs => hs hd⟩)

omit [LinearOrder Ver] in
theorem inv_of_rows {g : Graph C} {s : Session C Ver} (hr : Ready s) (ws : List Write)
    (hrows : s.savedRows = (writeSlots nullTaskId).indexFrom 0 ws)
    (hdist : (writeSlots nullTaskId).Distinct ws)
    (hclean : s.loop.config.durability ≠ .exit →
      ∀ w ∈ ws, Persistable g.specs s.loop.channels w) : NullInv g s := by
  have hsaved : s.savedWrites = ws := by
    rw [savedWrites, hrows, Slots.values_indexFrom]
  exact ⟨hr, by rw [hsaved, hrows], by rwa [hsaved], by rwa [hsaved]⟩

theorem putNull_inv {g : Graph C} {batch : List Write} (hb : batch ≠ []) {s : Session C Ver}
    (h : NullInv g s) (hg : NullAgrees s) (hg' : NullAgrees (s.nullStep g (.putWrites batch))) :
    NullInv g (s.nullStep g (.putWrites batch)) := by
  have hready := putNull_ready hb h
  obtain ⟨-, hcfg, hch, -, -, -⟩ := putNull_frame g hb s
  have hrows := putNull_savedRows hb h
  by_cases hd : s.loop.config.durability = .exit
  · rw [if_pos hd] at hrows
    exact inv_of_rows hready _ (hrows.trans h.rows) h.distinct
      (fun hn => absurd (hcfg ▸ hd) hn)
  · rw [if_neg hd] at hrows
    obtain ⟨hc, hs⟩ := ((putNull_agrees_iff hb h hg).mp hg').resolve_left hb
    have hm : s.savedWrites = s.memoryWrites := (agrees_direct h.toReady hd).mp hg
    have hclean : ∀ w ∈ ordinary s.memoryWrites ++ dedupWrites batch,
        Persistable g.specs s.loop.channels w := by
      intro w hw
      rcases List.mem_append.mp hw with hw | hw
      · exact h.clean hd w (hm ▸ mem_ordinary hw)
      · exact sanitizeWrites_eq_self.mp (hs hd) w hw
    rw [sanitizeWrites_eq_self.mpr hclean, h.rows, Slots.save_of_continues _ hc] at hrows
    refine inv_of_rows hready _ hrows hc.distinct (fun _ w hw => ?_)
    rw [hch]
    exact hclean w hw

omit [BaseChannel C] in
theorem reload_ready {s : Session C Ver} (h : Ready s) : Ready s.reload where
  stored := by
    rw [reload_stored h, (reload_frame s).1]
    exact h.stored
  idle := (reload_frame s).2.2.2

theorem reload_inv {g : Graph C} {s : Session C Ver} (h : NullInv g s) (hg : NullAgrees s) :
    NullInv g s.reload ∧ NullAgrees s.reload := by
  have hready := reload_ready h.toReady
  obtain ⟨-, hcfg, hch, -⟩ := reload_frame s
  have hrows := reload_savedRows h.toReady
  have hsame : s.reload.memoryWrites = s.reload.savedWrites := reload_memory h.toReady
  by_cases hd : s.loop.config.durability = .exit
  · have hc := (agrees_exit h hd).mp hg
    rw [if_pos hd, h.rows, Slots.save_of_continues _ hc] at hrows
    have hinv : NullInv g s.reload :=
      inv_of_rows hready _ hrows hc.distinct (fun hn => absurd (hcfg ▸ hd) hn)
    refine ⟨hinv, (agrees_exit hinv (hcfg ▸ hd)).mpr ?_⟩
    rw [hsame]
    exact Slots.continues_refl _ hinv.distinct
  · rw [if_neg hd] at hrows
    have hinv : NullInv g s.reload :=
      inv_of_rows hready _ (hrows.trans h.rows) h.distinct (fun _ => by
        rw [hch]
        exact h.clean hd)
    exact ⟨hinv, (agrees_direct hready (hcfg ▸ hd)).mpr hsame.symm⟩

theorem nullStep_agrees_iff {g : Graph C} {s : Session C Ver} (st : NullStep) (h : NullInv g s)
    (hg : NullAgrees s) : NullAgrees (s.nullStep g st) ↔ BatchFits g s st := by
  cases st with
  | reload => exact ⟨fun _ => trivial, fun _ => (reload_inv h hg).2⟩
  | putWrites batch =>
    by_cases hb : batch = []
    · subst hb
      have hid : s.nullStep g (.putWrites []) = s := flush_idle h.idle
      rw [hid]
      exact ⟨fun _ => Or.inl rfl, fun _ => hg⟩
    · exact putNull_agrees_iff hb h hg

theorem nullStep_inv {g : Graph C} {s : Session C Ver} (st : NullStep) (h : NullInv g s)
    (hg : NullAgrees s) (hg' : NullAgrees (s.nullStep g st)) : NullInv g (s.nullStep g st) := by
  cases st with
  | reload => exact (reload_inv h hg).1
  | putWrites batch =>
    by_cases hb : batch = []
    · subst hb
      have hid : s.nullStep g (.putWrites []) = s := flush_idle h.idle
      rw [hid]
      exact h
    · exact putNull_inv hb h hg hg'

omit [LinearOrder Ver] in
theorem inv_of_empty (g : Graph C) {s : Session C Ver} (hs : Ready s) (hsaved : s.savedWrites = []) :
    NullInv g s := by
  have hrows : s.savedRows = [] := List.map_eq_nil_iff.mp hsaved
  refine inv_of_rows hs [] hrows List.Pairwise.nil (fun _ w hw => ?_)
  cases hw

omit [BaseChannel C] in
theorem agrees_of_empty {s : Session C Ver} (hs : Ready s) (hsaved : s.savedWrites = [])
    (hmem : s.memoryWrites = []) : NullAgrees s := by
  have hrows : s.savedRows = [] := List.map_eq_nil_iff.mp hsaved
  rw [nullAgrees_iff hs, hmem, hrows]
  split
  · rfl
  · rfl

theorem null_writes_survive_iff (g : Graph C) (s : Session C Ver) (hs : Ready s)
    (hmem : s.memoryWrites = []) (hsaved : s.savedWrites = []) (steps : List NullStep) :
    Always (nullStep g) NullAgrees s steps ↔ EachStep (nullStep g) (BatchFits g) s steps := by
  have hstep (s : Session C Ver) (st : NullStep) (h : NullInv g s) (hg : NullAgrees s) :
      NullAgrees (s.nullStep g st) ↔ BatchFits g s st := nullStep_agrees_iff st h hg
  have hinv (s : Session C Ver) (st : NullStep) (h : NullInv g s) (hg : NullAgrees s)
      (hg' : NullAgrees (s.nullStep g st)) : NullInv g (s.nullStep g st) :=
    nullStep_inv st h hg hg'
  exact always_iff_eachStep hstep hinv steps (inv_of_empty g hs hsaved)
    (agrees_of_empty hs hsaved hmem)

section Runs

def oneChannel : Graph Channel := Graph.ofSpecs (Dict.ofList [("a", .lastValue ⟨"a", none⟩)])

def savedThread : InMemorySaver Nat :=
  InMemorySaver.empty.put none (emptyCheckpoint "1") ⟨"input", -1, ∅⟩ ∅

def opened (durability : Durability) : Session Channel Nat :=
  ⟨savedThread, PregelLoop.load (LoopConfig.plain durability) none "0" none
    (savedThread.getTuple none) oneChannel.specs⟩

theorem null_writes_survive_updates :
    Always (nullStep oneChannel) NullAgrees (opened .sync)
      [.putWrites [("a", .int 1)], .reload, .putWrites [("a", .int 2), (Key.resume, .int 3)],
        .reload] := by
  refine (null_writes_survive_iff oneChannel (opened .sync) ⟨by decide, rfl⟩ (by decide)
    (by decide) _).mpr ?_
  simp only [eachStep_cons]
  exact ⟨by decide, by decide, by decide, by decide, eachStep_nil⟩

theorem null_writes_lost_after_resume :
    ¬ Always (nullStep oneChannel) NullAgrees (opened .sync)
      [.putWrites [(Key.resume, .int 1)], .putWrites [("a", .int 2)]] := by
  intro h
  have hlast := h _ List.prefix_rfl
  revert hlast
  decide

end Runs

end Session

end LangGraph
