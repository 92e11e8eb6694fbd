import LangGraph.Channels.Channel
import LangGraph.Pregel.ErrorHandlers
import LangGraph.Pregel.Retried

namespace LangGraph

open Collections Transition

variable {C Ver : Type} [BaseChannel C]

-- A superstep of a loop with a cache. `own` is what the last attempt of each task wrote, or what
-- was saved for it before; `matched` what the cache put into its list of writes since then.
structure CachedSuperstep (C Ver : Type) where
  loop : PregelLoop C Ver
  submitted : List String
  attempting : List String
  own : String → List Write
  matched : String → List Write

inductive CacheEvent where
  | matchCachedWrites
  | submit (taskId : String)
  | attempt (taskId : String)
  | write (taskId : String) (w : Write)
  | commit (taskId : String) (raised : Option Raised)
  | call (parent : List PathPart) (writeIdx : Nat) (call : Call)
  | scheduleErrorHandler (failedId : String)
  | cacheSet (key : CacheKey) (writes : List Write)

namespace PregelLoop

def writesOf (l : PregelLoop C Ver) (taskId : String) : List Write :=
  ((l.task? taskId).map PregelTask.writes).getD []

omit [BaseChannel C] in
theorem isSome_setTaskWrites (taskId k : String) (ws : List Write) (l : PregelLoop C Ver) :
    ((l.setTaskWrites taskId ws).task? k).isSome = (l.task? k).isSome := by
  rw [task?_setTaskWrites]
  split_ifs with hk
  · rw [hk, Option.isSome_map]
  · rfl

omit [BaseChannel C] in
theorem writesOf_setTaskWrites {taskId k : String} {l : PregelLoop C Ver}
    (h : (l.task? k).isSome) (ws : List Write) :
    (l.setTaskWrites taskId ws).writesOf k = Function.update l.writesOf taskId ws k := by
  obtain ⟨t, ht⟩ := Option.isSome_iff_exists.mp h
  rw [writesOf, task?_setTaskWrites]
  by_cases hk : k = taskId
  · rw [if_pos hk, ← hk, ht, Function.update_self]
    rfl
  · rw [if_neg hk, Function.update_of_ne hk, writesOf]

omit [BaseChannel C] in
theorem task?_matchCachedWrites_map (l : PregelLoop C Ver) (k : String) :
    ∃ f : PregelTask → List Write, (∀ t, t.writes ≠ [] → f t = t.writes) ∧
      l.matchCachedWrites.task? k = (l.task? k).map (fun t => { t with writes := f t }) := by
  rw [matchCachedWrites]
  split
  · rename_i cache tasks hc hts
    refine ⟨cachedWrites cache (cacheOwners tasks), fun t ht => ?_, ?_⟩
    · rw [cachedWrites]
      split
      · rw [if_neg (fun h => ht h.1)]
      · rfl
    · simp only [task?, hts, Option.bind_some, Dict.get?_mapValues]
  · exact ⟨PregelTask.writes, fun _ _ => rfl, by simp⟩

omit [BaseChannel C] in
theorem isSome_matchCachedWrites (l : PregelLoop C Ver) (k : String) :
    (l.matchCachedWrites.task? k).isSome = (l.task? k).isSome := by
  obtain ⟨f, -, hf⟩ := l.task?_matchCachedWrites_map k
  rw [hf, Option.isSome_map]

omit [BaseChannel C] in
theorem writesOf_matchCachedWrites {l : PregelLoop C Ver} {k : String} (h : l.writesOf k ≠ []) :
    l.matchCachedWrites.writesOf k = l.writesOf k := by
  obtain ⟨f, hkeep, hf⟩ := l.task?_matchCachedWrites_map k
  rw [writesOf, hf]
  rw [writesOf] at h ⊢
  cases ht : l.task? k with
  | none => rfl
  | some t =>
    rw [ht] at h
    exact hkeep t h

theorem task?_commit (g : Graph C) (taskId k : String) (a : Attempt) (l : PregelLoop C Ver) :
    (l.commit g taskId a).task? k =
      if k = taskId then (l.task? taskId).map (fun t => { t with writes := a.taskWrites g t.name })
      else l.task? k := by
  rw [commit]
  cases ht : l.task? taskId with
  | none =>
    split_ifs with hk
    · rw [hk, ht]
      rfl
    · rfl
  | some t =>
    have htasks := tasks_putWrites g taskId (a.savedWrites g t.name)
      (l.setTaskWrites taskId (a.taskWrites g t.name))
    rw [task?, htasks, ← task?, task?_setTaskWrites, ht]
    rfl

theorem writesOf_commit (g : Graph C) {taskId : String} {t : PregelTask} {l : PregelLoop C Ver}
    (ht : l.task? taskId = some t) (raised : Option Raised) (cache : Option WritesCache) :
    writesOf { l.commit g taskId ⟨t.writes, raised⟩ with cache := cache } taskId =
      t.writes ++ Attempt.markers g t.name ⟨t.writes, raised⟩ := by
  have htask := l.task?_commit g taskId taskId ⟨t.writes, raised⟩
  rw [if_pos rfl, ht] at htask
  have hw := congrArg (fun o => (Option.map PregelTask.writes o).getD []) htask
  exact hw.trans (Attempt.taskWrites_eq g t.name ⟨t.writes, raised⟩)

theorem writesOf_commit_ne (g : Graph C) {taskId k : String} (h : k ≠ taskId) (a : Attempt)
    (cache : Option WritesCache) (l : PregelLoop C Ver) :
    writesOf { l.commit g taskId a with cache := cache } k = l.writesOf k := by
  have htask := l.task?_commit g taskId k a
  rw [if_neg h] at htask
  exact congrArg (fun o => (Option.map PregelTask.writes o).getD []) htask

theorem channels_putWrites (g : Graph C) (taskId : String) (batch : List Write)
    (l : PregelLoop C Ver) : (l.putWrites g taskId batch).channels = l.channels := by
  by_cases hne : batch = []
  · rw [hne]
    rfl
  · obtain ⟨cache, hput⟩ := putWrites_spec g taskId hne l
    rw [hput]

theorem channels_commit (g : Graph C) (taskId : String) (a : Attempt) (l : PregelLoop C Ver) :
    (l.commit g taskId a).channels = l.channels := by
  rw [commit]
  cases l.task? taskId with
  | none => rfl
  | some t => exact channels_putWrites g taskId _ _

omit [BaseChannel C] in
theorem isSome_of_errorHandlerTask {g : Graph C} {failedId : String} {task : PregelTask}
    {l : PregelLoop C Ver} (h : l.errorHandlerTask g failedId = some task) : l.tasks.isSome := by
  rw [errorHandlerTask] at h
  cases ht : l.task? failedId with
  | none =>
    rw [ht] at h
    cases h
  | some failed =>
    obtain ⟨ts, hts, -⟩ := Option.bind_eq_some_iff.mp ht
    rw [hts]
    rfl

omit [BaseChannel C] in
theorem channels_matchCachedWrites (l : PregelLoop C Ver) :
    l.matchCachedWrites.channels = l.channels := by
  rw [matchCachedWrites]
  split <;> rfl

end PregelLoop

namespace CachedSuperstep

def begin (l : PregelLoop C Ver) : CachedSuperstep C Ver :=
  ⟨l, [], [], l.writesOf, fun _ => []⟩

def matchCachedWrites (s : CachedSuperstep C Ver) : CachedSuperstep C Ver :=
  { s with
    loop := s.loop.matchCachedWrites
    matched := fun id =>
      if s.loop.writesOf id = [] then s.loop.matchCachedWrites.writesOf id else s.matched id }

-- A task object is made: nothing has been matched to it and it has not been run.
def create (taskId : String) (writes : List Write) (s : CachedSuperstep C Ver) :
    CachedSuperstep C Ver :=
  { s with
    submitted := s.submitted.filter (· ≠ taskId)
    attempting := s.attempting.filter (· ≠ taskId)
    own := Function.update s.own taskId writes
    matched := Function.update s.matched taskId [] }

def addTask (task : PregelTask) (s : CachedSuperstep C Ver) : CachedSuperstep C Ver :=
  matchCachedWrites
    { s.create task.id (s.loop.startWrites task) with loop := s.loop.addTask task }

def append (taskId : String) (ws : List Write) (s : CachedSuperstep C Ver) :
    CachedSuperstep C Ver :=
  { s with
    loop := s.loop.setTaskWrites taskId (s.loop.writesOf taskId ++ ws)
    own := Function.update s.own taskId (s.own taskId ++ ws) }

-- The runner starts tasks without writes, and a handler task whatever it has. `put_writes` leaves
-- setting the cache to the executor.
def step (g : Graph C) (s : CachedSuperstep C Ver) : CacheEvent → CachedSuperstep C Ver
  | .matchCachedWrites => s.matchCachedWrites
  | .submit taskId =>
      if s.loop.writesOf taskId = [] then { s with submitted := taskId :: s.submitted } else s
  | .attempt taskId =>
      if taskId ∈ s.submitted then
        { s with
          loop := s.loop.setTaskWrites taskId []
          attempting := taskId :: s.attempting
          own := Function.update s.own taskId []
          matched := Function.update s.matched taskId [] }
      else s
  | .write taskId w => if taskId ∈ s.attempting then s.append taskId [w] else s
  | .commit taskId raised =>
      match s.loop.task? taskId with
      | none => s
      | some t =>
          if taskId ∈ s.attempting then
            let a : Attempt := ⟨t.writes, raised⟩
            { s with
              loop := { s.loop.commit g taskId a with cache := s.loop.cache }
              submitted := s.submitted.filter (· ≠ taskId)
              attempting := s.attempting.filter (· ≠ taskId)
              own := Function.update s.own taskId (s.own taskId ++ a.markers g t.name) }
          else s
  | .call parent writeIdx call =>
      if s.loop.tasks.isSome then
        s.addTask (g.callTask s.loop.checkpoint.id s.loop.step parent writeIdx call)
      else s
  | .scheduleErrorHandler failedId =>
      match s.loop.errorHandlerTask g failedId with
      | none => s
      | some task =>
          { s.addTask task with submitted := task.id :: (s.addTask task).submitted }
  | .cacheSet key writes =>
      { s with loop := { s.loop with cache := s.loop.cache.map (fun c => c.set key writes) } }

-- The writes applied for a task are those of its last attempt or one copy of what was cached.
def Good (s : CachedSuperstep C Ver) : Prop :=
  ∀ id, (s.loop.task? id).isSome →
    channelWrites s.loop.channels (s.loop.writesOf id) =
        channelWrites s.loop.channels (s.own id) ∨
      channelWrites s.loop.channels (s.loop.writesOf id) =
        channelWrites s.loop.channels (s.matched id)

-- Before a task writes to a channel nothing was matched to it since its attempt began.
def Ok (s : CachedSuperstep C Ver) : CacheEvent → Prop
  | .write taskId w =>
      taskId ∈ s.attempting → (s.loop.task? taskId).isSome →
        channelWrites s.loop.channels [w] ≠ [] →
          channelWrites s.loop.channels (s.matched taskId) = []
  | _ => True

def Inv (s : CachedSuperstep C Ver) : Prop :=
  ∀ id, (s.loop.task? id).isSome → s.loop.writesOf id = s.matched id ++ s.own id

section Steps

variable {s : CachedSuperstep C Ver}

omit [BaseChannel C] in
theorem inv_begin (l : PregelLoop C Ver) : (begin l).Inv := fun _ _ => rfl

omit [BaseChannel C] in
theorem Inv.matchCachedWrites (h : s.Inv) : s.matchCachedWrites.Inv := by
  intro id hid
  have hsome : (s.loop.task? id).isSome := by
    rw [← PregelLoop.isSome_matchCachedWrites]
    exact hid
  have hbefore := h id hsome
  by_cases hw : s.loop.writesOf id = []
  · have hown : s.own id = [] := (List.append_eq_nil_iff.mp (hbefore.symm.trans hw)).2
    simp only [CachedSuperstep.matchCachedWrites, if_pos hw, hown, List.append_nil]
  · simp only [CachedSuperstep.matchCachedWrites, if_neg hw,
      PregelLoop.writesOf_matchCachedWrites hw]
    exact hbefore

omit [BaseChannel C] in
theorem Inv.created (h : s.Inv) (hts : s.loop.tasks.isSome) (task : PregelTask) :
    Inv { s.create task.id (s.loop.startWrites task) with loop := s.loop.addTask task } := by
  intro id hid
  have htask := s.loop.task?_addTask task id hts
  by_cases hk : id = task.id
  · subst hk
    rw [if_pos rfl] at htask
    simp only [PregelLoop.writesOf, htask, create, Function.update_self]
    rfl
  · rw [if_neg hk] at htask
    simp only [PregelLoop.writesOf, htask, create, Function.update_of_ne hk] at hid ⊢
    exact h id hid

omit [BaseChannel C] in
theorem Inv.addTask (h : s.Inv) (hts : s.loop.tasks.isSome) (task : PregelTask) :
    (s.addTask task).Inv :=
  (h.created hts task).matchCachedWrites

omit [BaseChannel C] in
theorem Inv.setTaskWrites (h : s.Inv) (taskId : String) (ws own matched : List Write)
    (hws : (s.loop.task? taskId).isSome → ws = matched ++ own) (submitted attempting : List String) :
    Inv ⟨s.loop.setTaskWrites taskId ws, submitted, attempting, Function.update s.own taskId own,
      Function.update s.matched taskId matched⟩ := by
  intro id hid
  simp only [PregelLoop.isSome_setTaskWrites] at hid
  simp only [PregelLoop.writesOf_setTaskWrites hid]
  by_cases hk : id = taskId
  · subst hk
    rw [Function.update_self, Function.update_self, Function.update_self, hws hid]
  · rw [Function.update_of_ne hk, Function.update_of_ne hk, Function.update_of_ne hk]
    exact h id hid

omit [BaseChannel C] in
theorem Inv.append (h : s.Inv) (taskId : String) (ws : List Write) : (s.append taskId ws).Inv := by
  have hset := h.setTaskWrites taskId (s.loop.writesOf taskId ++ ws) (s.own taskId ++ ws)
    (s.matched taskId) (fun hsome => by rw [h taskId hsome, List.append_assoc]) s.submitted s.attempting
  rwa [Function.update_eq_self] at hset

theorem Inv.commit (h : s.Inv) {t : PregelTask} {taskId : String}
    (ht : s.loop.task? taskId = some t) (g : Graph C) (raised : Option Raised)
    (cache : Option WritesCache) (submitted attempting : List String) :
    Inv ⟨{ s.loop.commit g taskId ⟨t.writes, raised⟩ with cache := cache }, submitted, attempting,
      Function.update s.own taskId (s.own taskId ++ Attempt.markers g t.name ⟨t.writes, raised⟩),
      s.matched⟩ := by
  intro id hid
  have htask := s.loop.task?_commit g taskId id ⟨t.writes, raised⟩
  by_cases hk : id = taskId
  · subst hk
    have hbefore := h id (by rw [ht]; rfl)
    rw [PregelLoop.writesOf, ht] at hbefore
    have hwrites : t.writes = s.matched id ++ s.own id := hbefore
    simp only
    rw [PregelLoop.writesOf_commit g ht, Function.update_self, ← List.append_assoc, ← hwrites]
  · rw [if_neg hk] at htask
    have hsome : (s.loop.task? id).isSome := by
      rw [← htask]
      exact hid
    simp only
    rw [PregelLoop.writesOf_commit_ne g hk, Function.update_of_ne hk]
    exact h id hsome

theorem Inv.step (h : s.Inv) (g : Graph C) (e : CacheEvent) : (s.step g e).Inv := by
  cases e with
  | matchCachedWrites => exact h.matchCachedWrites
  | submit taskId =>
    rw [CachedSuperstep.step]
    split_ifs
    · exact h
    · exact h
  | attempt taskId =>
    rw [CachedSuperstep.step]
    split_ifs
    · exact h.setTaskWrites taskId [] [] [] (fun _ => rfl) _ _
    · exact h
  | write taskId w =>
    rw [CachedSuperstep.step]
    split_ifs
    · exact h.append taskId [w]
    · exact h
  | commit taskId raised =>
    rw [CachedSuperstep.step]
    cases ht : s.loop.task? taskId with
    | none => exact h
    | some t =>
      simp only
      split_ifs
      · exact h.commit ht g raised _ _ _
      · exact h
  | call parent writeIdx call =>
    rw [CachedSuperstep.step]
    split_ifs with hts
    · exact h.addTask hts _
    · exact h
  | scheduleErrorHandler failedId =>
    rw [CachedSuperstep.step]
    cases ht : s.loop.errorHandlerTask g failedId with
    | none => exact h
    | some task => exact h.addTask (s.loop.isSome_of_errorHandlerTask ht) task
  | cacheSet key writes => exact h

-- What `Good` says under the invariant: one of the two parts of the list has no channel writes.
def Single (s : CachedSuperstep C Ver) (id : String) : Prop :=
  channelWrites s.loop.channels (s.own id) = [] ∨ channelWrites s.loop.channels (s.matched id) = []

omit [BaseChannel C] in
theorem good_iff (h : s.Inv) : s.Good ↔ ∀ id, (s.loop.task? id).isSome → s.Single id := by
  refine forall₂_congr (fun id hid => ?_)
  rw [h id hid, channelWrites_append, Single]
  constructor
  · rintro (hown | hmatched)
    · exact Or.inr (List.append_left_eq_self.mp hown)
    · exact Or.inl (List.append_right_eq_self.mp hmatched)
  · rintro (hown | hmatched)
    · right
      rw [hown, List.append_nil]
    · left
      rw [hmatched, List.nil_append]

omit [BaseChannel C] in
theorem single_matchCachedWrites (h : s.Inv)
    (hs : ∀ id, (s.loop.task? id).isSome → s.Single id) (id : String)
    (hid : (s.matchCachedWrites.loop.task? id).isSome) : s.matchCachedWrites.Single id := by
  have hsome : (s.loop.task? id).isSome := by
    rw [← PregelLoop.isSome_matchCachedWrites]
    exact hid
  have hbefore := h id hsome
  by_cases hw : s.loop.writesOf id = []
  · left
    have hown : s.own id = [] := (List.append_eq_nil_iff.mp (hbefore.symm.trans hw)).2
    simp only [CachedSuperstep.matchCachedWrites, hown]
    rfl
  · have hsingle := hs id hsome
    simp only [Single, CachedSuperstep.matchCachedWrites, if_neg hw,
      PregelLoop.channels_matchCachedWrites]
    exact hsingle

omit [BaseChannel C] in
theorem single_addTask (h : s.Inv) (hts : s.loop.tasks.isSome) (task : PregelTask)
    (hs : ∀ id, (s.loop.task? id).isSome → s.Single id) (id : String)
    (hid : ((s.addTask task).loop.task? id).isSome) : (s.addTask task).Single id := by
  refine single_matchCachedWrites (h.created hts task) (fun k hk => ?_) id hid
  have htask := s.loop.task?_addTask task k hts
  by_cases hkey : k = task.id
  · right
    simp only [create, hkey, Function.update_self]
    rfl
  · rw [if_neg hkey] at htask
    rw [htask] at hk
    have hsingle := hs k hk
    simp only [Single, create, Function.update_of_ne hkey]
    exact hsingle

theorem single_commit (g : Graph C) {t : PregelTask} {taskId : String} (raised : Option Raised)
    (cache : Option WritesCache) (submitted attempting : List String) {id : String}
    (hs : s.Single id) :
    Single ⟨{ s.loop.commit g taskId ⟨t.writes, raised⟩ with cache := cache }, submitted, attempting,
      Function.update s.own taskId (s.own taskId ++ Attempt.markers g t.name ⟨t.writes, raised⟩),
      s.matched⟩ id := by
  have hchannels := s.loop.channels_commit g taskId ⟨t.writes, raised⟩
  simp only [Single, hchannels]
  by_cases hk : id = taskId
  · subst hk
    rw [Function.update_self, channelWrites_append, Attempt.channelWrites_markers, List.append_nil]
    exact hs
  · rw [Function.update_of_ne hk]
    exact hs

theorem single_write_iff (g : Graph C) {taskId : String} {w : Write}
    (hs : ∀ id, (s.loop.task? id).isSome → s.Single id) :
    (∀ id, ((s.step g (.write taskId w)).loop.task? id).isSome →
        (s.step g (.write taskId w)).Single id) ↔ s.Ok (.write taskId w) := by
  rw [CachedSuperstep.step, Ok]
  split_ifs with hrun
  · have hown : (s.append taskId [w]).own taskId = s.own taskId ++ [w] := Function.update_self _ _ _
    have hother (id : String) (hk : id ≠ taskId) : (s.append taskId [w]).own id = s.own id :=
      Function.update_of_ne hk _ _
    constructor
    · intro hall _ hsome hw
      have hid : ((s.append taskId [w]).loop.task? taskId).isSome := by
        rw [append, PregelLoop.isSome_setTaskWrites]
        exact hsome
      rcases hall taskId hid with hnil | hmatched
      · rw [hown, channelWrites_append] at hnil
        exact absurd (List.append_eq_nil_iff.mp hnil).2 hw
      · exact hmatched
    · intro hok id hid
      rw [append, PregelLoop.isSome_setTaskWrites] at hid
      by_cases hk : id = taskId
      · subst hk
        by_cases hw : channelWrites s.loop.channels [w] = []
        · rcases hs id hid with hnil | hmatched
          · left
            rw [hown, channelWrites_append]
            exact List.append_eq_nil_iff.mpr ⟨hnil, hw⟩
          · exact Or.inr hmatched
        · exact Or.inr (hok hrun hid hw)
      · rcases hs id hid with hnil | hmatched
        · left
          rw [hother id hk]
          exact hnil
        · exact Or.inr hmatched
  · exact ⟨fun _ h => absurd h hrun, fun _ => hs⟩

theorem single_step (h : s.Inv) (hs : ∀ id, (s.loop.task? id).isSome → s.Single id) (g : Graph C)
    {e : CacheEvent} (hw : ∀ taskId w, e ≠ .write taskId w) (id : String)
    (hid : ((s.step g e).loop.task? id).isSome) : (s.step g e).Single id := by
  cases e with
  | matchCachedWrites => exact single_matchCachedWrites h hs id hid
  | submit taskId =>
    rw [CachedSuperstep.step] at hid ⊢
    split_ifs at hid ⊢
    · exact hs id hid
    · exact hs id hid
  | attempt taskId =>
    rw [CachedSuperstep.step] at hid ⊢
    split_ifs at hid ⊢
    · rw [PregelLoop.isSome_setTaskWrites] at hid
      by_cases hk : id = taskId
      · subst hk
        left
        simp only [Function.update_self]
        rfl
      · simp only [Single, Function.update_of_ne hk]
        exact hs id hid
    · exact hs id hid
  | write taskId w => exact absurd rfl (hw taskId w)
  | commit taskId raised =>
    rw [CachedSuperstep.step] at hid ⊢
    cases ht : s.loop.task? taskId with
    | none =>
      rw [ht] at hid
      exact hs id hid
    | some t =>
      rw [ht] at hid
      simp only at hid ⊢
      split_ifs at hid ⊢
      · refine single_commit g raised _ _ _ (hs id ?_)
        have htask := s.loop.task?_commit g taskId id ⟨t.writes, raised⟩
        by_cases hk : id = taskId
        · rw [hk, ht]
          rfl
        · rw [if_neg hk] at htask
          rw [← htask]
          exact hid
      · exact hs id hid
  | call parent writeIdx call =>
    rw [CachedSuperstep.step] at hid ⊢
    split_ifs at hid ⊢ with hts
    · exact single_addTask h hts _ hs id hid
    · exact hs id hid
  | scheduleErrorHandler failedId =>
    rw [CachedSuperstep.step] at hid ⊢
    cases ht : s.loop.errorHandlerTask g failedId with
    | none =>
      rw [ht] at hid
      exact hs id hid
    | some task =>
      rw [ht] at hid
      exact single_addTask h (s.loop.isSome_of_errorHandlerTask ht) task hs id hid
  | cacheSet key writes => exact hs id hid

theorem good_step_iff (h : s.Inv) (hg : s.Good) (g : Graph C) (e : CacheEvent) :
    (s.step g e).Good ↔ s.Ok e := by
  rw [good_iff (h.step g e)]
  have hs := (good_iff h).mp hg
  cases e with
  | write taskId w => exact single_write_iff g hs
  | _ => exact ⟨fun _ => trivial, fun _ => single_step h hs g (fun _ _ he => by cases he)⟩

end Steps

-- In every state of every run each task is cached or executed, exactly when no task writes to a
-- channel after cached writes were matched to it during the same attempt.
theorem cached_or_executed_iff (g : Graph C) (l : PregelLoop C Ver) (events : List CacheEvent) :
    Always (step g) Good (begin l) events ↔ EachStep (step g) Ok (begin l) events :=
  always_iff_eachStep (fun _ e h hg => good_step_iff h hg g e)
    (fun _ e h _ _ => Inv.step h g e) events (inv_begin l) (fun _ _ => Or.inl rfl)

section Runs

def sharedKeyGraph : Graph Channel :=
  { Graph.ofSpecs (Dict.ofList
      [("x", .lastValue ⟨"x", none⟩), (Key.tasks, .topic ⟨false, []⟩),
        (Key.start, .ephemeralValue ⟨Key.start, true, none⟩),
        ("branch:to:b", .ephemeralValue ⟨"branch:to:b", false, none⟩)]) with
    nodes := Dict.ofList
      [(Key.start, ⟨.single Key.start, [Key.start], none, none, none, none, true⟩),
        ("a", ⟨.many ["x"], [], none, none, some (fun _ => "key"), none, true⟩),
        ("b", ⟨.many ["x"], ["branch:to:b"], none, none, none, none, true⟩)]
    triggerToNodes := Dict.ofList [(Key.start, [Key.start]), ("branch:to:b", ["b"])] }

-- The start node sends the same argument to a cached node twice and starts a third task.
def sharedKeyThread : Thread Channel Nat :=
  run (Thread.step sharedKeyGraph (.single Key.start)) Thread.fresh
    [.enter (LoopConfig.plain .sync) (some ∅) "0" none,
      .first (.value (.dict [("x", .int 1)])) false successor successor "1",
      .tick,
      .commit "1__start__0__start____pregel_pull__start__"
        ⟨[(Key.tasks, .send "a" (.int 1)), (Key.tasks, .send "a" (.int 1)),
          ("branch:to:b", .none)], none⟩,
      .afterTick successor "2", .tick]

def firstSend : String := "2a1a__pregel_push0"
def secondSend : String := "2a1a__pregel_push1"
def caller : String := "2b1b__pregel_pullbranch:to:b"

-- The first task ends and its writes are cached; the third one calls while the second one runs.
def sharedKeyEvents : List CacheEvent :=
  [.submit firstSend, .submit secondSend, .submit caller, .attempt firstSend,
    .attempt secondSend, .attempt caller, .write firstSend ("x", .int 5), .commit firstSend none,
    .cacheSet ⟨["__pregel_ns_writes", "__dynamic__", "a"], "key"⟩ [("x", .int 5)],
    .call [.str Key.pull, .str "b"] 0 ⟨"f", .none, none, none⟩, .write secondSend ("x", .int 5)]

theorem shared_key_duplicated :
    ¬ ∀ l : PregelLoop Channel Nat, sharedKeyThread.loop = some l →
      ∀ events, Always (step sharedKeyGraph) Good (begin l) events := by
  intro h
  obtain ⟨l, hl⟩ : ∃ l, l = sharedKeyThread.loop.get (by decide +kernel) := ⟨_, rfl⟩
  have hgood := h l (by rw [hl, Option.some_get]) sharedKeyEvents sharedKeyEvents
    (List.prefix_refl _) secondSend (by rw [hl]; decide +kernel)
  rw [hl] at hgood
  revert hgood
  decide +kernel

end Runs

end CachedSuperstep

end LangGraph
