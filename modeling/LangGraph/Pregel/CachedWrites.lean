import LangGraph.Channels.Channel
import LangGraph.Pregel.LoopFlavours

namespace LangGraph

open Collections Transition

def Unfailed (writes : List Write) : Prop := ∀ w ∈ writes, w.1 ≠ Key.error ∧ w.1 ≠ Key.interrupt

instance (writes : List Write) : Decidable (Unfailed writes) :=
  inferInstanceAs (Decidable (∀ w ∈ writes, _))

def Attempt.succeeded (a : Attempt) : Bool := a.raised.isNone && decide (Unfailed a.writes)

namespace PregelLoop

section Cache

variable {C Ver : Type} [BaseChannel C] [LinearOrder Ver] [OrderBot Ver]

omit [LinearOrder Ver] [OrderBot Ver] in
theorem cache_putWrites_of_no_task (g : Graph C) {taskId : String} (batch : List Write)
    {l : PregelLoop C Ver} (h : l.task? taskId = none) :
    (l.putWrites g taskId batch).cache = l.cache := by
  cases batch with
  | nil => rfl
  | cons w ws =>
    rw [putWrites_cons, cacheWrites_eq, cacheEntry_recordWrites, cacheEntry_of_no_task _ h]
    exact storeEntry_none l.cache

theorem cache_tick (g : Graph C) (l : PregelLoop C Ver) : (l.tick g).1.cache = l.cache := by
  rw [tick]
  split_ifs
  · rfl
  · simp only
    split_ifs <;> rfl

omit [BaseChannel C] [LinearOrder Ver] [OrderBot Ver] in
theorem cache_matchCachedWrites (l : PregelLoop C Ver) : l.matchCachedWrites.cache = l.cache := by
  rw [matchCachedWrites]
  split <;> rfl

theorem cache_putCheckpoint (next : GetNextVersion Ver) (newId source : String)
    (l : PregelLoop C Ver) : (l.putCheckpoint next newId source).cache = l.cache := by
  rw [putCheckpoint]
  split_ifs <;> rfl

theorem cache_afterTick (g : Graph C) (next : GetNextVersion Ver) (newId : String)
    (l : PregelLoop C Ver) : (l.afterTick g next newId).1.cache = l.cache := by
  rw [afterTick]
  simp only
  cases (applyWrites l.checkpoint l.channels (l.liveTasks.map PregelTask.taskWrites) (some next)
    g.triggerToNodes).2.2 with
  | error e => rfl
  | ok updated =>
    simp only
    rw [cache_putCheckpoint]
    rfl

omit [LinearOrder Ver] [OrderBot Ver] in
theorem cache_putInput (g : Graph C) (input : Input) {l : PregelLoop C Ver} (h : l.tasks = none) :
    (l.putInput g input).1.cache = l.cache := by
  cases input with
  | none => rfl
  | value v => rfl
  | command c =>
    rw [putInput, putCommand]
    split_ifs
    · rfl
    · rfl
    · exact cache_putWrites_of_no_task g c.writes (task?_of_no_tasks h nullTaskId)

theorem cache_resumeFirst (next : GetNextVersion Ver) (newId : String) (timeTravel : Bool)
    (l : PregelLoop C Ver) : (l.resumeFirst next newId timeTravel).cache = l.cache := by
  rw [resumeFirst]
  split_ifs
  · rw [forkCheckpoint, cache_putCheckpoint]
    rfl
  · rfl

omit [LinearOrder Ver] [OrderBot Ver] in
theorem cache_putDeltaInput (g : Graph C) (writes : List Write) {l : PregelLoop C Ver}
    (h : l.tasks = none) : (l.putDeltaInput g writes).cache = l.cache := by
  rw [putDeltaInput]
  split_ifs
  · rfl
  · exact cache_putWrites_of_no_task g _ (task?_of_no_tasks h nullTaskId)

theorem cache_inputFirst (g : Graph C) (next : GetNextVersion Ver) (newId : String)
    (updated : Option (Finset String)) (writes : List Write) {l : PregelLoop C Ver}
    (h : l.tasks = none) : (l.inputFirst g next newId updated writes).1.cache = l.cache := by
  have htasks : (l.inputApplied g next updated writes).1.tasks = none :=
    (tasks_inputApplied g next updated writes l).trans h
  have hcache : (l.inputApplied g next updated writes).1.cache = l.cache := by
    simp only [inputApplied, applyInputWrites]
  rw [inputFirst_eq]
  generalize l.inputApplied g next updated writes = r at htasks hcache
  obtain ⟨m, e⟩ := r
  cases e with
  | error e => exact hcache
  | ok updated =>
    simp only
    rw [cache_putCheckpoint]
    exact (cache_putDeltaInput g writes htasks).trans hcache

theorem cache_enterInput (g : Graph C) (inputKeys : InputKeys) (next : GetNextVersion Ver)
    (newId : String) (updated : Option (Finset String)) (input : Input) {l : PregelLoop C Ver}
    (h : l.tasks = none) :
    (l.enterInput g inputKeys next newId updated input).1.cache = l.cache := by
  cases input with
  | none => rfl
  | command c => rfl
  | value v =>
    rw [enterInput]
    cases mapInput inputKeys v with
    | nil => rfl
    | cons w ws =>
      dsimp only
      exact cache_inputFirst g next newId updated (w :: ws) h

theorem cache_first (g : Graph C) (inputKeys : InputKeys) (input : Input) (sameRun : Bool)
    (nextNull next : GetNextVersion Ver) (newId : String) {l : PregelLoop C Ver}
    (h : l.tasks = none) :
    (l.first g inputKeys input sameRun nextNull next newId).1.cache = l.cache := by
  have hdropped : (l.dropResumed (l.dropTimeTravel input)).tasks = none ∧
      (l.dropResumed (l.dropTimeTravel input)).cache = l.cache := by
    rw [dropResumed]
    split_ifs <;> exact ⟨h, rfl⟩
  have htasks := (tasks_putInput g input (l.dropResumed (l.dropTimeTravel input))).trans
    hdropped.1
  have hcache := (cache_putInput g input hdropped.1).trans hdropped.2
  rw [first]
  generalize (l.dropResumed (l.dropTimeTravel input)).putInput g input = r at htasks hcache
  obtain ⟨m, e⟩ := r
  cases e with
  | some e => exact hcache
  | none =>
    have hnull := (tasks_applyNullWrites g nextNull m.storedUpdates m).trans htasks
    have hnullCache : (m.applyNullWrites g nextNull m.storedUpdates).1.cache = l.cache := by
      rw [← hcache, applyNullWrites]
      cases taskWritesOf nullTaskId m.checkpointPendingWrites <;> rfl
    simp only [andThen]
    generalize m.applyNullWrites g nextNull m.storedUpdates = q at hnull hnullCache
    obtain ⟨n, r⟩ := q
    cases r with
    | error e => exact hnullCache
    | ok updated =>
      simp only
      by_cases hr : l.isResuming input sameRun = true
      · rw [if_pos hr]
        exact (cache_resumeFirst next newId (l.dropTimeTravel input) n).trans hnullCache
      · rw [if_neg hr]
        exact (cache_enterInput g inputKeys next newId updated input hnull).trans hnullCache

def entry (g : Graph C) (l : PregelLoop C Ver) : Event Ver → Option (CacheKey × List Write)
  | .commit taskId a => l.committed g taskId a
  | .putWrites taskId batch => if batch = [] then none else l.cacheEntry taskId batch
  | _ => none

omit [LinearOrder Ver] [OrderBot Ver] in
theorem cache_putWrites (g : Graph C) (taskId : String) (batch : List Write)
    (l : PregelLoop C Ver) :
    (l.putWrites g taskId batch).cache =
      storeEntry l.cache (if batch = [] then none else l.cacheEntry taskId batch) := by
  cases batch with
  | nil => exact (storeEntry_none l.cache).symm
  | cons w ws =>
    rw [putWrites_cons, cacheWrites_eq, cacheEntry_recordWrites, if_neg (List.cons_ne_nil w ws)]
    rfl

omit [LinearOrder Ver] [OrderBot Ver] in
theorem cache_commit (g : Graph C) (taskId : String) (a : Attempt) (l : PregelLoop C Ver) :
    (l.commit g taskId a).cache = storeEntry l.cache (l.committed g taskId a) := by
  rw [commit, committed]
  cases l.task? taskId with
  | none => exact (storeEntry_none l.cache).symm
  | some t => exact cache_putWrites g taskId (a.savedWrites g t.name) _

end Cache

end PregelLoop

variable {C Ver : Type} [BaseChannel C] [LinearOrder Ver] [OrderBot Ver]

def Event.inLoop (asyncLoop : Bool) (cache : Option WritesCache) : Event Ver → Event Ver
  | .enter config _ freshId checkpointId =>
      .enter { config with asyncLoop := asyncLoop } cache freshId checkpointId
  | e => e

namespace Thread

def withAsync (b : Bool) (t : Thread C Ver) : Thread C Ver :=
  { t with loop := t.loop.map (PregelLoop.withAsync b) }

-- `_first` is over before the loop has tasks.
def Timely (t : Thread C Ver) (e : Event Ver) : Bool :=
  match e, t.loop with
  | .first .., some l => l.tasks.isNone
  | _, _ => true

theorem step_withAsync (g : Graph C) (inputKeys : InputKeys) (b : Bool) (cache : Option WritesCache)
    {t : Thread C Ver} {e : Event Ver} (htimely : t.Timely e = true)
    (hentry : ∀ l, t.loop = some l → (l.withAsync b).entry g e = l.entry g e) :
    (t.withAsync b).step g inputKeys (e.inLoop b cache) =
      (t.step g inputKeys (e.inLoop false cache)).withAsync b := by
  obtain ⟨saver, loop, log⟩ := t
  cases loop with
  | none =>
    cases e with
    | enter config cache' freshId checkpointId =>
      simp only [Event.inLoop, step, withAsync, Option.map_none]
      rw [PregelLoop.enter, PregelLoop.enter]
      cases channelsFromCheckpoint g.specs (some saver)
        (((saver.getTuple checkpointId).map CheckpointTuple.checkpoint).getD
          (emptyCheckpoint freshId)) <;> rfl
    | updateState update nextNull next freshId newId checkpointId => rfl
    | _ => rfl
  | some l =>
    have hl := hentry l rfl
    cases e with
    | enter config cache' freshId checkpointId => rfl
    | updateState update nextNull next freshId newId checkpointId => rfl
    | first input sameRun nextNull next newId =>
      have htasks : l.tasks = none := Option.isNone_iff_eq_none.mp htimely
      have hfirst := PregelLoop.first_withAsync g inputKeys input sameRun nextNull next newId b
        htasks
      simp only [Event.inLoop, step, withAsync, Option.map_some, hfirst]
      generalize l.first g inputKeys input sameRun nextNull next newId = r
      obtain ⟨m, e⟩ := r
      cases e <;> rfl
    | tick =>
      simp only [Event.inLoop, step, withAsync, Option.map_some, PregelLoop.tick_withAsync]
      rfl
    | matchCachedWrites =>
      simp only [Event.inLoop, step, withAsync, Option.map_some,
        PregelLoop.matchCachedWrites_withAsync]
      rfl
    | taskWrites taskId writes => rfl
    | commit taskId a =>
      have hcommit := PregelLoop.commit_withAsync g taskId a b l hl
      simp only [Event.inLoop, step, withAsync, Option.map_some, hcommit]
      rfl
    | putWrites taskId batch =>
      have hput := PregelLoop.putWrites_withAsync g taskId batch b l (fun hne => by
        simpa only [PregelLoop.entry, if_neg hne] using hl)
      simp only [Event.inLoop, step, withAsync, Option.map_some, hput]
      rfl
    | afterTick next newId =>
      simp only [Event.inLoop, step, withAsync, Option.map_some, PregelLoop.afterTick_withAsync]
      generalize l.afterTick g next newId = r
      obtain ⟨m, e⟩ := r
      cases e with
      | none => rfl
      | some e =>
        by_cases hd : m.config.durability = .exit
        · simp only [PregelLoop.withAsync_durability, hd, if_true]
          rfl
        · simp only [PregelLoop.withAsync_durability, hd, if_false]
          rfl
    | exit next =>
      simp only [Event.inLoop, step, withAsync, Option.map_some,
        PregelLoop.suppressInterrupt_withAsync]
      rfl

end Thread

structure Stored where
  key : CacheKey
  writes : List Write
  succeeded : Bool
  deriving DecidableEq

namespace PregelLoop

def succeeds (l : PregelLoop C Ver) : Event Ver → Bool
  | .commit _ a => a.succeeded
  | .putWrites taskId batch =>
      decide (Unfailed batch ∧ Unfailed (((l.task? taskId).map PregelTask.writes).getD []))
  | _ => true

def Harmless (g : Graph C) (l : PregelLoop C Ver) : Event Ver → Prop
  | .commit taskId a =>
      ∀ t, l.task? taskId = some t → t.cacheKey.isSome → l.cache.isSome →
        a.savedWrites g t.name ≠ [] → a.raised.isNone ∧ Unfailed a.writes
  | .putWrites taskId batch =>
      ∀ t, l.task? taskId = some t → t.cacheKey.isSome → l.cache.isSome → batch ≠ [] →
        Unfailed batch ∧ Unfailed t.writes
  | _ => True

omit [BaseChannel C] [LinearOrder Ver] [OrderBot Ver] in
theorem cacheEntry_sync {taskId : String} {batch : List Write} {l : PregelLoop C Ver}
    (hsync : l.config.asyncLoop = false) {x : CacheKey × List Write} :
    l.cacheEntry taskId batch = some x ↔
      l.cache.isSome ∧ ∃ t, l.task? taskId = some t ∧ t.cacheKey = some x.1 ∧ t.writes = x.2 := by
  obtain ⟨key, writes⟩ := x
  rw [cacheEntry]
  cases l.cache with
  | none => simp
  | some cache =>
    cases l.task? taskId with
    | none => simp
    | some t =>
      cases hk : t.cacheKey with
      | none => simp [hk]
      | some key' => simp [hk, hsync]

theorem head_unfailed {batch : List Write} (h : Unfailed batch) (c : String)
    (hc : batch.head?.map Prod.fst = some c) : c ≠ Key.interrupt ∧ c ≠ Key.error := by
  obtain ⟨w, hw, rfl⟩ := Option.map_eq_some_iff.mp hc
  have hmem := List.mem_of_head? hw
  exact ⟨(h w hmem).2, (h w hmem).1⟩

omit [BaseChannel C] in
theorem saved_unfailed (g : Graph C) (name : String) {a : Attempt} (hr : a.raised.isNone)
    (hw : Unfailed a.writes) : Unfailed (a.savedWrites g name) := by
  have hnone : a.raised = none := Option.isNone_iff_eq_none.mp hr
  rw [Attempt.savedWrites, hnone]
  simp only [Attempt.taskWrites, hnone]
  split_ifs
  · intro w hmem
    rw [List.mem_singleton.mp hmem]
    exact ⟨by decide, by decide⟩
  · exact hw

omit [BaseChannel C] [LinearOrder Ver] [OrderBot Ver] in
theorem cacheEntry_withAsync {taskId : String} {batch : List Write} {l : PregelLoop C Ver}
    (h : ∀ t, l.task? taskId = some t → t.cacheKey.isSome → l.cache.isSome → Unfailed batch)
    (b : Bool) : (l.withAsync b).cacheEntry taskId batch = l.cacheEntry taskId batch := by
  rw [cacheEntry, cacheEntry, withAsync_cache, withAsync_task?]
  cases hc : l.cache with
  | none => rfl
  | some cache =>
    cases ht : l.task? taskId with
    | none => rfl
    | some t =>
      cases hk : t.cacheKey with
      | none => simp only [hk]
      | some key =>
        have hbatch := h t ht (by rw [hk]; rfl) (by rw [hc]; rfl)
        have hguard : ¬ (batch.head?.map Prod.fst) ∈ [some Key.interrupt, some Key.error] := by
          intro hmem
          rcases List.mem_cons.mp hmem with he | he
          · exact (head_unfailed hbatch _ he).1 rfl
          · exact (head_unfailed hbatch _ (List.mem_singleton.mp he)).2 rfl
        simp only [hk, hguard, and_false]

omit [BaseChannel C] [LinearOrder Ver] [OrderBot Ver] in
theorem task?_setTaskWrites_self {taskId : String} {t : PregelTask} {l : PregelLoop C Ver}
    (h : l.task? taskId = some t) (writes : List Write) :
    (l.setTaskWrites taskId writes).task? taskId = some { t with writes := writes } := by
  rw [task?_setTaskWrites, if_pos rfl, h, Option.map_some]

omit [BaseChannel C] [LinearOrder Ver] [OrderBot Ver] in
theorem entry_withAsync (g : Graph C) {e : Event Ver} {l : PregelLoop C Ver}
    (h : l.Harmless g e) (b : Bool) :
    (l.withAsync b).entry g e = l.entry g e := by
  cases e with
  | commit taskId a =>
    rw [entry, entry, committed, committed, withAsync_task?]
    cases ht : l.task? taskId with
    | none => rfl
    | some t =>
      rw [Option.bind_some, Option.bind_some]
      split_ifs with hne
      · rfl
      · rw [setTaskWrites_withAsync]
        apply cacheEntry_withAsync
        intro t' ht' hk hc
        have hset := (task?_setTaskWrites_self ht (a.taskWrites g t.name)).symm.trans ht'
        obtain rfl := Option.some.inj hset
        obtain ⟨hr, hw⟩ := h t ht hk hc hne
        exact saved_unfailed g t.name hr hw
  | putWrites taskId batch =>
    rw [entry, entry]
    split_ifs with hne
    · rfl
    · exact cacheEntry_withAsync (fun t ht hk hc => (h t ht hk hc hne).1) b
  | _ => rfl

omit [BaseChannel C] [LinearOrder Ver] [OrderBot Ver] in
theorem entry_succeeds_iff (g : Graph C) {e : Event Ver} {l : PregelLoop C Ver}
    (hsync : l.config.asyncLoop = false) :
    (∀ x, l.entry g e = some x → l.succeeds e = true) ↔ l.Harmless g e := by
  cases e with
  | commit taskId a =>
    have hcommit (t : PregelTask) :
        (l.setTaskWrites taskId (a.taskWrites g t.name)).config.asyncLoop = false := hsync
    rw [entry, committed, succeeds, Harmless]
    constructor
    · intro h t ht hk hc hne
      obtain ⟨key, hkey⟩ := Option.isSome_iff_exists.mp hk
      have hx : (l.setTaskWrites taskId (a.taskWrites g t.name)).cacheEntry taskId
          (a.savedWrites g t.name) = some (key, a.taskWrites g t.name) :=
        (cacheEntry_sync (hcommit t)).mpr ⟨hc, _, task?_setTaskWrites_self ht _, hkey, rfl⟩
      have hs := h (key, a.taskWrites g t.name) (by rw [ht, Option.bind_some, if_neg hne, hx])
      rw [Attempt.succeeded, Bool.and_eq_true, decide_eq_true_eq] at hs
      exact hs
    · intro h x hx
      obtain ⟨t, ht, hx⟩ := Option.bind_eq_some_iff.mp hx
      split_ifs at hx with hne
      obtain ⟨hc, t', ht', hk, -⟩ := (cacheEntry_sync (hcommit t)).mp hx
      have hset := (task?_setTaskWrites_self ht (a.taskWrites g t.name)).symm.trans ht'
      obtain rfl := Option.some.inj hset
      have hkey : t.cacheKey = some x.1 := hk
      obtain ⟨hr, hw⟩ := h t ht (by rw [hkey]; rfl) hc hne
      rw [Attempt.succeeded, hr, decide_eq_true hw]
      rfl
  | putWrites taskId batch =>
    rw [entry, succeeds, Harmless]
    constructor
    · intro h t ht hk hc hne
      obtain ⟨key, hkey⟩ := Option.isSome_iff_exists.mp hk
      have hx : l.cacheEntry taskId batch = some (key, t.writes) :=
        (cacheEntry_sync hsync).mpr ⟨hc, t, ht, hkey, rfl⟩
      have hs := h (key, t.writes) (by rw [if_neg hne, hx])
      rw [ht] at hs
      exact of_decide_eq_true hs
    · intro h x hx
      split_ifs at hx with hne
      obtain ⟨hc, t, ht, hk, -⟩ := (cacheEntry_sync hsync).mp hx
      rw [ht]
      exact decide_eq_true (h t ht (by rw [hk]; rfl) hc hne)
  | _ => exact ⟨fun _ => trivial, fun _ _ hx => by cases hx⟩

end PregelLoop

-- The runs of one process: the cache outlives each loop, `stored` is what was put into it.
structure CachedRun (C Ver : Type) where
  thread : Thread C Ver
  cache : Option WritesCache
  stored : List Stored

namespace CachedRun

def newEntry (g : Graph C) (s : CachedRun C Ver) (e : Event Ver) : Option (CacheKey × List Write) :=
  s.thread.loop.bind (fun l => l.entry g e)

def newStored (g : Graph C) (s : CachedRun C Ver) (e : Event Ver) : List Stored :=
  (s.thread.loop.bind (fun l => (l.entry g e).map (fun x => ⟨x.1, x.2, l.succeeds e⟩))).toList

def step (g : Graph C) (inputKeys : InputKeys) (asyncLoop : Bool) (s : CachedRun C Ver)
    (e : Event Ver) : CachedRun C Ver :=
  if s.thread.Timely e then
    let t := s.thread.step g inputKeys (e.inLoop asyncLoop s.cache)
    ⟨t, (t.loop.map PregelLoop.cache).getD s.cache, s.stored ++ s.newStored g e⟩
  else s

def start (saver : InMemorySaver Ver) (hasCache : Bool) : CachedRun C Ver :=
  ⟨⟨saver, none, []⟩, if hasCache then some ∅ else none, []⟩

def withAsync (b : Bool) (s : CachedRun C Ver) : CachedRun C Ver :=
  { s with thread := s.thread.withAsync b }

def OnlySuccesses (s : CachedRun C Ver) : Prop := ∀ e ∈ s.stored, e.succeeded = true

def Replays (s : CachedRun C Ver) : Prop :=
  ∀ cache k ws, s.cache = some cache → cache.get? k = some ws →
    ∃ e ∈ s.stored, e.key = k ∧ e.writes = ws ∧ e.succeeded = true

structure Linked (s : CachedRun C Ver) : Prop where
  loop (l : PregelLoop C Ver) : s.thread.loop = some l → l.cache = s.cache
  entries (cache : WritesCache) (k : CacheKey) (ws : List Write) :
    s.cache = some cache → cache.get? k = some ws → ∃ e ∈ s.stored, e.key = k ∧ e.writes = ws

omit [BaseChannel C] [LinearOrder Ver] [OrderBot Ver] in
theorem replays_of_linked {s : CachedRun C Ver} (h : s.Linked) (hs : s.OnlySuccesses) :
    s.Replays := by
  intro cache k ws hc hk
  obtain ⟨e, he, hkey, hw⟩ := h.entries cache k ws hc hk
  exact ⟨e, he, hkey, hw, hs e he⟩

theorem cache_step (g : Graph C) (inputKeys : InputKeys) (b : Bool) {s : CachedRun C Ver}
    (h : s.Linked) {e : Event Ver} (ht : s.thread.Timely e = true) {l : PregelLoop C Ver}
    (hl : (s.thread.step g inputKeys (e.inLoop b s.cache)).loop = some l) :
    l.cache = PregelLoop.storeEntry s.cache (s.newEntry g e) := by
  obtain ⟨⟨saver, loop, log⟩, cache, stored⟩ := s
  cases loop with
  | none =>
    have hentry : newEntry g ⟨⟨saver, none, log⟩, cache, stored⟩ e = none := rfl
    rw [hentry, PregelLoop.storeEntry_none]
    cases e with
    | enter config cache' freshId checkpointId =>
      simp only [Event.inLoop, Thread.step, PregelLoop.enter] at hl
      cases hc : channelsFromCheckpoint g.specs (some saver)
          (((saver.getTuple checkpointId).map CheckpointTuple.checkpoint).getD
            (emptyCheckpoint freshId)) with
      | error e =>
        rw [hc] at hl
        cases hl
      | ok channels =>
        rw [hc] at hl
        cases hl
        rfl
    | _ => cases hl
  | some m =>
    have hm : m.cache = cache := h.loop m rfl
    have hnone (hentry : m.entry g e = none) :
        newEntry g ⟨⟨saver, some m, log⟩, cache, stored⟩ e = none := hentry
    have hkeep (hentry : m.entry g e = none) (hcache : l.cache = m.cache) :
        l.cache = PregelLoop.storeEntry cache
          (newEntry g ⟨⟨saver, some m, log⟩, cache, stored⟩ e) := by
      rw [hnone hentry, PregelLoop.storeEntry_none, hcache, hm]
    cases e with
    | enter config cache' freshId checkpointId =>
      cases hl
      exact hkeep rfl rfl
    | updateState update nextNull next freshId newId checkpointId =>
      cases hl
      exact hkeep rfl rfl
    | first input sameRun nextNull next newId =>
      have htasks : m.tasks = none := Option.isNone_iff_eq_none.mp ht
      have hfirst := PregelLoop.cache_first g inputKeys input sameRun nextNull next newId htasks
      simp only [Event.inLoop, Thread.step] at hl
      generalize m.first g inputKeys input sameRun nextNull next newId = r at hl hfirst
      obtain ⟨n, err⟩ := r
      cases err with
      | none =>
        cases hl
        exact hkeep rfl hfirst
      | some err => cases hl
    | tick =>
      cases hl
      exact hkeep rfl (PregelLoop.cache_tick g m)
    | matchCachedWrites =>
      cases hl
      exact hkeep rfl (PregelLoop.cache_matchCachedWrites m)
    | taskWrites taskId writes =>
      cases hl
      exact hkeep rfl rfl
    | commit taskId a =>
      cases hl
      have hcommit := PregelLoop.cache_commit g taskId a m
      rw [hm] at hcommit
      exact hcommit
    | putWrites taskId batch =>
      cases hl
      have hput := PregelLoop.cache_putWrites g taskId batch m
      rw [hm] at hput
      exact hput
    | afterTick next newId =>
      have hafter := PregelLoop.cache_afterTick g next newId m
      simp only [Event.inLoop, Thread.step] at hl
      generalize m.afterTick g next newId = r at hl hafter
      obtain ⟨n, err⟩ := r
      cases err with
      | none =>
        cases hl
        exact hkeep rfl hafter
      | some err =>
        simp only at hl
        split_ifs at hl
        · cases hl
          exact hkeep rfl hafter
        · cases hl
    | exit next => cases hl

theorem get?_storeEntry {cache : WritesCache} {old : Option WritesCache}
    {entry : Option (CacheKey × List Write)} {k : CacheKey} {ws : List Write}
    (h : PregelLoop.storeEntry old entry = some cache) (hk : cache.get? k = some ws) :
    entry = some (k, ws) ∨ ∃ before, old = some before ∧ before.get? k = some ws := by
  cases old with
  | none => cases h
  | some before =>
    cases entry with
    | none =>
      have hcache : before = cache := Option.some.inj h
      exact Or.inr ⟨before, rfl, hcache ▸ hk⟩
    | some x =>
      have hcache : before.set x.1 x.2 = cache := Option.some.inj h
      rw [← hcache, Dict.get?_set] at hk
      split_ifs at hk with hx
      · cases hk
        rw [hx]
        exact Or.inl rfl
      · exact Or.inr ⟨before, rfl, hk⟩

omit [BaseChannel C] [LinearOrder Ver] [OrderBot Ver] in
theorem newStored_of_newEntry {g : Graph C} {s : CachedRun C Ver} {e : Event Ver}
    {x : CacheKey × List Write} (h : s.newEntry g e = some x) :
    ∃ st ∈ s.newStored g e, st.key = x.1 ∧ st.writes = x.2 := by
  obtain ⟨l, hl, hx⟩ := Option.bind_eq_some_iff.mp h
  refine ⟨⟨x.1, x.2, l.succeeds e⟩, ?_, rfl, rfl⟩
  rw [newStored, hl, Option.bind_some, hx]
  exact List.mem_singleton.mpr rfl

theorem cache_of_closed (g : Graph C) (inputKeys : InputKeys) (b : Bool) {s : CachedRun C Ver}
    {e : Event Ver} (ht : s.thread.Timely e = true)
    (hl : (s.thread.step g inputKeys (e.inLoop b s.cache)).loop = none) :
    (s.step g inputKeys b e).cache = s.cache := by
  rw [step, if_pos ht]
  simp only [hl, Option.map_none, Option.getD_none]

theorem linked_step (g : Graph C) (inputKeys : InputKeys) (b : Bool) {s : CachedRun C Ver}
    (h : s.Linked) (e : Event Ver) : (s.step g inputKeys b e).Linked := by
  by_cases ht : s.thread.Timely e = true
  · have hstored : (s.step g inputKeys b e).stored = s.stored ++ s.newStored g e := by
      rw [step, if_pos ht]
    have hthread : (s.step g inputKeys b e).thread =
        s.thread.step g inputKeys (e.inLoop b s.cache) := by
      rw [step, if_pos ht]
    have hkeep (e' : Stored) (he : e' ∈ s.stored) : e' ∈ (s.step g inputKeys b e).stored := by
      rw [hstored]
      exact List.mem_append_left _ he
    cases hl : (s.thread.step g inputKeys (e.inLoop b s.cache)).loop with
    | none =>
      have hcache := cache_of_closed g inputKeys b ht hl
      constructor
      · intro l hloop
        rw [hthread, hl] at hloop
        cases hloop
      · intro cache k ws hc hk
        rw [hcache] at hc
        obtain ⟨e', he, hkey, hw⟩ := h.entries cache k ws hc hk
        exact ⟨e', hkeep e' he, hkey, hw⟩
    | some l =>
      have hcache : (s.step g inputKeys b e).cache = l.cache := by
        rw [step, if_pos ht]
        simp only [hl, Option.map_some, Option.getD_some]
      constructor
      · intro l' hloop
        rw [hthread, hl] at hloop
        rw [hcache, Option.some.inj hloop]
      · intro cache k ws hc hk
        rw [hcache, cache_step g inputKeys b h ht hl] at hc
        rcases get?_storeEntry hc hk with hnew | ⟨before, hbefore, hget⟩
        · obtain ⟨st, hst, hkey, hw⟩ := newStored_of_newEntry hnew
          exact ⟨st, by rw [hstored]; exact List.mem_append_right _ hst, hkey, hw⟩
        · obtain ⟨e', he, hkey, hw⟩ := h.entries before k ws hbefore hget
          exact ⟨e', hkeep e' he, hkey, hw⟩
  · rw [step, if_neg ht]
    exact h

omit [BaseChannel C] [LinearOrder Ver] [OrderBot Ver] in
theorem linked_start (saver : InMemorySaver Ver) (hasCache : Bool) :
    (start saver hasCache : CachedRun C Ver).Linked := by
  constructor
  · intro l hl
    cases hl
  · intro cache k ws hc hk
    cases hasCache with
    | false => cases hc
    | true =>
      cases hc
      cases hk

theorem step_withAsync (g : Graph C) (inputKeys : InputKeys) (b : Bool) {s : CachedRun C Ver}
    {e : Event Ver}
    (hentry : ∀ l, s.thread.loop = some l → (l.withAsync b).entry g e = l.entry g e) :
    (s.withAsync b).step g inputKeys b e = (s.step g inputKeys false e).withAsync b := by
  have htimely : (s.withAsync b).thread.Timely e = s.thread.Timely e := by
    obtain ⟨⟨saver, loop, log⟩, cache, stored⟩ := s
    cases loop with
    | none => rfl
    | some l => cases e <;> rfl
  have hnew : (s.withAsync b).newStored g e = s.newStored g e := by
    obtain ⟨⟨saver, loop, log⟩, cache, stored⟩ := s
    cases loop with
    | none => rfl
    | some l =>
      have hl := hentry l rfl
      have hs : (l.withAsync b).succeeds e = l.succeeds e := by cases e <;> rfl
      rw [newStored, newStored]
      simp only [withAsync, Thread.withAsync, Option.map_some, Option.bind_some, hl, hs]
  rw [step, step, htimely, hnew]
  split_ifs with ht
  · have hthread := Thread.step_withAsync g inputKeys b s.cache ht hentry
    have hsame : (s.withAsync b).thread.step g inputKeys (e.inLoop b (s.withAsync b).cache) =
        (s.thread.step g inputKeys (e.inLoop false s.cache)).withAsync b := hthread
    rw [hsame]
    generalize s.thread.step g inputKeys (e.inLoop false s.cache) = t
    obtain ⟨saver, loop, log⟩ := t
    cases loop <;> rfl
  · rfl

end CachedRun

-- The same runs through `SyncPregelLoop` and through `AsyncPregelLoop`.
structure TwoLoops (C Ver : Type) where
  sync : CachedRun C Ver
  async : CachedRun C Ver

namespace TwoLoops

def step (g : Graph C) (inputKeys : InputKeys) (p : TwoLoops C Ver) (e : Event Ver) :
    TwoLoops C Ver :=
  ⟨p.sync.step g inputKeys false e, p.async.step g inputKeys true e⟩

def start (saver : InMemorySaver Ver) (hasCache : Bool) : TwoLoops C Ver :=
  ⟨.start saver hasCache, .start saver hasCache⟩

structure Sound (p : TwoLoops C Ver) : Prop where
  sync : p.sync.OnlySuccesses
  async : p.async.OnlySuccesses
  same : p.sync.stored = p.async.stored
  replays : p.sync.Replays ∧ p.async.Replays

structure Lockstep (p : TwoLoops C Ver) : Prop where
  async : p.async = p.sync.withAsync true
  sync : p.sync.withAsync false = p.sync
  linked : p.sync.Linked

def Harmless (g : Graph C) (p : TwoLoops C Ver) (e : Event Ver) : Prop :=
  ∀ l, p.sync.thread.loop = some l → l.Harmless g e

omit [BaseChannel C] [LinearOrder Ver] [OrderBot Ver] in
theorem sync_loop {p : TwoLoops C Ver} (h : p.Lockstep) {l : PregelLoop C Ver}
    (hl : p.sync.thread.loop = some l) : l.config.asyncLoop = false := by
  have hself := congrArg (fun s : CachedRun C Ver => s.thread.loop) h.sync
  simp only [CachedRun.withAsync, Thread.withAsync, hl, Option.map_some, Option.some.injEq] at hself
  rw [← hself]
  rfl

omit [BaseChannel C] [LinearOrder Ver] [OrderBot Ver] in
theorem newStored_succeed_iff (g : Graph C) {p : TwoLoops C Ver} (h : p.Lockstep) {e : Event Ver} :
    (∀ st ∈ p.sync.newStored g e, st.succeeded = true) ↔ p.Harmless g e := by
  rw [CachedRun.newStored, Harmless]
  cases hl : p.sync.thread.loop with
  | none =>
    constructor
    · intro _ l hl'
      cases hl'
    · intro _ st hst
      cases hst
  | some l =>
    have hiff := PregelLoop.entry_succeeds_iff g (e := e) (sync_loop h hl)
    constructor
    · intro hall l' hl'
      obtain rfl := Option.some.inj hl'
      apply hiff.mp
      intro x hx
      apply hall ⟨x.1, x.2, l.succeeds e⟩
      rw [Option.bind_some, hx]
      exact List.mem_singleton.mpr rfl
    · intro hharm st hst
      obtain ⟨x, hx, rfl⟩ := Option.map_eq_some_iff.mp (Option.mem_toList.mp hst)
      exact hiff.mpr (hharm l rfl) x hx

theorem lockstep_step (g : Graph C) (inputKeys : InputKeys) {p : TwoLoops C Ver} (h : p.Lockstep)
    {e : Event Ver} (hharm : p.Harmless g e) : (p.step g inputKeys e).Lockstep := by
  have hentry (b : Bool) (l : PregelLoop C Ver) (hl : p.sync.thread.loop = some l) :
      (l.withAsync b).entry g e = l.entry g e :=
    PregelLoop.entry_withAsync g (hharm l hl) b
  constructor
  · rw [step, h.async]
    exact CachedRun.step_withAsync g inputKeys true (hentry true)
  · have hstep := CachedRun.step_withAsync g inputKeys false (hentry false)
    rw [h.sync] at hstep
    exact hstep.symm
  · exact CachedRun.linked_step g inputKeys false h.linked e

omit [BaseChannel C] [LinearOrder Ver] [OrderBot Ver] in
theorem lockstep_start (saver : InMemorySaver Ver) (hasCache : Bool) :
    (start saver hasCache : TwoLoops C Ver).Lockstep :=
  ⟨rfl, rfl, CachedRun.linked_start saver hasCache⟩

omit [BaseChannel C] [LinearOrder Ver] [OrderBot Ver] in
theorem sound_of_lockstep {p : TwoLoops C Ver} (h : p.Lockstep) (hs : p.sync.OnlySuccesses) :
    p.Sound := by
  have hreplays := CachedRun.replays_of_linked h.linked hs
  constructor
  · exact hs
  · rw [h.async]
    exact hs
  · rw [h.async]
    rfl
  · rw [h.async]
    exact ⟨hreplays, hreplays⟩

theorem stored_step (g : Graph C) (inputKeys : InputKeys) (b : Bool) (s : CachedRun C Ver)
    (e : Event Ver) : (s.step g inputKeys b e).stored = s.stored ++ s.newStored g e := by
  by_cases ht : s.thread.Timely e = true
  · rw [CachedRun.step, if_pos ht]
  · have hnew : s.newStored g e = [] := by
      obtain ⟨⟨saver, loop, log⟩, cache, stored⟩ := s
      cases loop with
      | none => rfl
      | some l =>
        cases e with
        | first => rfl
        | _ => exact absurd rfl ht
    rw [CachedRun.step, if_neg ht, hnew, List.append_nil]

theorem sound_step_iff (g : Graph C) (inputKeys : InputKeys) {p : TwoLoops C Ver} (h : p.Lockstep)
    (hs : p.Sound) (e : Event Ver) : (p.step g inputKeys e).Sound ↔ p.Harmless g e := by
  constructor
  · intro hsound
    apply (newStored_succeed_iff g h).mp
    intro st hst
    apply hsound.sync st
    rw [step, stored_step]
    exact List.mem_append_right _ hst
  · intro hharm
    apply sound_of_lockstep (lockstep_step g inputKeys h hharm)
    intro st hst
    rw [step, stored_step] at hst
    rcases List.mem_append.mp hst with hold | hnew
    · exact hs.sync st hold
    · exact (newStored_succeed_iff g h).mpr hharm st hnew

theorem cached_successes_iff (g : Graph C) (inputKeys : InputKeys) (saver : InMemorySaver Ver)
    (hasCache : Bool) (events : List (Event Ver)) :
    Always (step g inputKeys) Sound (start saver hasCache : TwoLoops C Ver) events ↔
      EachStep (step g inputKeys) (Harmless g) (start saver hasCache : TwoLoops C Ver) events := by
  have hstep (p : TwoLoops C Ver) (e : Event Ver) (h : p.Lockstep) (hs : p.Sound) :
      (p.step g inputKeys e).Sound ↔ p.Harmless g e := sound_step_iff g inputKeys h hs e
  have hinv (p : TwoLoops C Ver) (e : Event Ver) (h : p.Lockstep) (hs : p.Sound)
      (hs' : (p.step g inputKeys e).Sound) : (p.step g inputKeys e).Lockstep :=
    lockstep_step g inputKeys h ((sound_step_iff g inputKeys h hs e).mp hs')
  have hlock := lockstep_start (C := C) saver hasCache
  have hsound := sound_of_lockstep hlock (fun st hst => by cases hst)
  exact always_iff_eachStep hstep hinv events hlock hsound

def cachedGraph : Graph Channel :=
  { Graph.ofSpecs (Dict.ofList [("a", Channel.lastValue ⟨"a", none⟩)]) with
    nodes := Dict.ofList [("n", ⟨.single "a", ["a"], none, none, some (fun _ => "key"), none, true⟩)]
    triggerToNodes := Dict.ofList [("a", ["n"])] }

-- The node writes, and then it raises.
def failingEvents : List (Event Nat) :=
  [.enter (LoopConfig.plain .sync) none "0" none,
    .first (.value (.int 7)) false successor successor "1", .tick,
    .commit "1n0n__pregel_pulla" ⟨[("b", .int 1)], some (.error (.str "boom"))⟩]

theorem failure_cached :
    ¬ ∀ events : List (Event Nat), Always (step cachedGraph (.single "a")) Sound
      (start InMemorySaver.empty true : TwoLoops Channel Nat) events := by
  intro h
  have hsound := h failingEvents failingEvents (List.prefix_refl _)
  have hstored : (run (step cachedGraph (.single "a")) (start InMemorySaver.empty true)
      failingEvents).sync.stored.map Stored.succeeded = [false] := by decide
  have hall := hsound.sync
  have hmem : false ∈ (run (step cachedGraph (.single "a")) (start InMemorySaver.empty true)
      failingEvents).sync.stored.map Stored.succeeded := by
    rw [hstored]
    exact List.mem_singleton.mpr rfl
  obtain ⟨st, hst, hfalse⟩ := List.mem_map.mp hmem
  rw [hall st hst] at hfalse
  cases hfalse

end TwoLoops

end LangGraph
