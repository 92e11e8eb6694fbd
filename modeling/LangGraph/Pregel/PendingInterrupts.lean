import LangGraph.Pregel.AskedRows

namespace LangGraph

open Collections Transition

-- The interrupt that an attempt saves.
def Attempt.asked (a : Attempt) : Option Value :=
  match a.raised with
  | some (.interrupt (v :: vs)) => some (PregelLoop.interruptId (.list (v :: vs)))
  | _ => none

inductive AskEvent where
  | commit (taskId name : String) (a : Attempt)
  | resume (c : Command)

-- No task and no Command writes to the channel that the runner keeps for interrupts.
def AskEvent.WellFormed : AskEvent → Prop
  | .commit taskId _ a => taskId ≠ nullTaskId ∧ ∀ w ∈ a.writes, w.1 ≠ Key.interrupt
  | .resume c => ∀ w ∈ c.update, w.1 ≠ Key.interrupt

-- A checkpoint at which tasks run and are resumed. `waiting` has the tasks that raised an
-- interrupt nobody answered, `committed` those the current run has saved.
structure Asking (C Ver : Type) where
  session : Session C Ver
  committed : List String
  waiting : Dict String Value

namespace Asking

section Machine

variable {C Ver : Type} [BaseChannel C] [LinearOrder Ver]

-- `owner` names the task whose namespace an interrupt id hashes: a task that waits for a call
-- fails with the interrupt of that call.
def settle (owner : Value → String) (taskId : String) (a : Attempt)
    (waiting : Dict String Value) : Dict String Value :=
  let others := waiting.filter (fun k _ => k ≠ taskId)
  match a.asked with
  | some id => if owner id = taskId then others.set taskId id else others
  | none => others

def step (g : Graph C) (owner : Value → String) (s : Asking C Ver) : AskEvent → Asking C Ver
  | .commit taskId name a =>
      if taskId ∈ s.committed then s
      else ⟨s.session.put g taskId (a.savedWrites g name), taskId :: s.committed,
        settle owner taskId a s.waiting⟩
  | .resume c =>
      let session := s.session.reload
      ⟨Session.flush ⟨session.saver, (session.loop.putCommand g c).1⟩, [], s.waiting⟩

-- A value for all interrupts is refused just when several tasks wait.
def Refuses (g : Graph C) (s : Asking C Ver) : Prop :=
  ∀ (c : Command) (v : Value), c.resume = some v → Command.resumeIsMap v = false →
    ((s.session.reload.loop.putCommand g c).2 = some .multipleInterrupts ↔
      1 < s.waiting.keys.length)

def Ok (g : Graph C) (owner : Value → String) (s : Asking C Ver) : AskEvent → Prop
  | .resume _ => True
  | .commit taskId name a =>
      taskId ∈ s.committed ∨
      (∀ id ∈ a.asked,
        s.session.hasAnswer taskId = false ∧ Key.resume ∉ a.writes.map Prod.fst ∧
        (owner id = taskId → s.session.answered id = false) ∧
        (owner id ≠ taskId → s.waiting.get? (owner id) = some id) ∧
        (s.waiting.get? taskId = none ∨ s.waiting.get? taskId = some id ∨
          ∀ other ∈ s.session.carriers, other ≠ taskId →
            s.session.asks other ≠ s.waiting.get? taskId)) ∧
      (a.asked = none → ∀ id ∈ s.session.asks taskId, s.waiting.get? (owner id) = some id →
        (Key.resume ∈ (a.savedWrites g name).map Prod.fst ↔ owner id = taskId))

instance decidableOk (g : Graph C) (owner : Value → String) (s : Asking C Ver) :
    (e : AskEvent) → Decidable (Ok g owner s e)
  | .resume _ => isTrue trivial
  | .commit _ _ _ => inferInstanceAs (Decidable (_ ∨ _ ∧ _))

end Machine

section Saved

variable {C : Type} [BaseChannel C] {g : Graph C} {name : String} {a : Attempt}

theorem lastOf_none {c : String} {ws : List Write} (h : ∀ w ∈ ws, w.1 ≠ c) :
    lastOf c ws = none := Dict.lastOf_eq_none.mpr h

omit [BaseChannel C] in
theorem saved_of_asked (g : Graph C) (name : String) {id : Value} (h : a.asked = some id) : ∃ v,
    PregelLoop.interruptId v = id ∧ a.savedWrites g name =
      (Key.interrupt, v) :: a.writes.filter (fun w => w.1 = Key.resume) := by
  unfold Attempt.asked at h
  split at h
  · rename_i v vs hraised
    refine ⟨.list (v :: vs), Option.some.inj h, ?_⟩
    rw [Attempt.savedWrites, hraised]
    rfl
  · cases h

omit [BaseChannel C] in
theorem saved_of_not_asked (h : a.asked = none) (hw : ∀ w ∈ a.writes, w.1 ≠ Key.interrupt) :
    ∀ w ∈ a.savedWrites g name, w.1 ≠ Key.interrupt := by
  have hno : Key.noWrites ≠ Key.interrupt := by decide
  have herror : Key.error ≠ Key.interrupt := by decide
  have hsource : Key.errorSourceNode ≠ Key.interrupt := by decide
  obtain ⟨writes, raised⟩ := a
  intro w hmem
  unfold Attempt.savedWrites Attempt.taskWrites at hmem
  rcases raised with _ | ⟨exc⟩ | ⟨exc⟩ | ⟨interrupts⟩ | _
  · simp only at hmem
    split at hmem
    · rw [List.mem_singleton.mp hmem]
      exact hno
    · exact hw w hmem
  · simp only at hmem
    rcases List.mem_append.mp hmem with hmem | hmem
    · rcases List.mem_append.mp hmem with hmem | hmem
      · exact hw w hmem
      · rw [List.mem_singleton.mp hmem]
        exact herror
    · split at hmem
      · rw [List.mem_singleton.mp hmem]
        exact hsource
      · cases hmem
  · simp only at hmem
    rcases List.mem_append.mp hmem with hmem | hmem
    · exact hw w hmem
    · rw [List.mem_singleton.mp hmem]
      exact herror
  · cases interrupts with
    | nil =>
      simp only [if_true] at hmem
      cases hmem
    | cons v vs => cases h
  · cases hmem

omit [BaseChannel C] in
theorem lastOf_saved (hw : ∀ w ∈ a.writes, w.1 ≠ Key.interrupt) :
    (lastOf Key.interrupt (a.savedWrites g name)).map PregelLoop.interruptId = a.asked := by
  cases h : a.asked with
  | none => rw [lastOf_none (saved_of_not_asked h hw), Option.map_none]
  | some id =>
    obtain ⟨v, hv, hsaved⟩ := saved_of_asked g name h
    have hrest : lastOf Key.interrupt (a.writes.filter (fun w => w.1 = Key.resume)) = none :=
      lastOf_none (fun w hmem => hw w (List.mem_filter.mp hmem).1)
    rw [hsaved, Dict.lastOf_cons, hrest, if_pos rfl, Option.none_or, Option.map_some, hv]

theorem isSome_lastOf {c : String} {ws : List Write} :
    (lastOf c ws).isSome = true ↔ c ∈ ws.map Prod.fst := by
  rw [← Option.ne_none_iff_isSome, ne_eq, Dict.lastOf_eq_none]
  simp

end Saved

section Step

variable {C Ver : Type} [BaseChannel C] [LinearOrder Ver] {g : Graph C} {s : Session C Ver}
  {taskId : String} {batch : List Write}

theorem special_interrupt : Special Key.interrupt := by decide

theorem special_resume : Special Key.resume := by decide

theorem asks_put_ne (h : s.Ready) {other : String} (ho : other ≠ taskId)
    (hk : (writeSlots other).Keyed (s.taskRows other)) :
    (s.put g taskId batch).asks other = s.asks other ∧
      (s.put g taskId batch).hasAnswer other = s.hasAnswer other :=
  ⟨congrArg (Option.map _) (Session.lastOf_put_ne h special_interrupt ho hk),
    congrArg Option.isSome (Session.lastOf_put_ne h special_resume ho hk)⟩

theorem asks_put (h : s.Ready) (hi : untrackedKey g.specs Key.interrupt = false)
    (hr : untrackedKey g.specs Key.resume = false) (ht : taskId ≠ nullTaskId)
    (hk : (writeSlots taskId).Keyed (s.taskRows taskId))
    (hclean : s.loop.config.durability = .exit →
      taskWritesOf taskId s.loop.checkpointPendingWrites = (s.taskRows taskId).map Prod.snd) :
    (s.put g taskId batch).asks taskId =
        ((lastOf Key.interrupt batch).map PregelLoop.interruptId).or (s.asks taskId) ∧
      (s.put g taskId batch).hasAnswer taskId =
        (decide (Key.resume ∈ batch.map Prod.fst) || s.hasAnswer taskId) := by
  constructor
  · have hput := @Session.lastOf_put _ _ _ _ s g taskId batch h _ special_interrupt hi ht hk hclean
    exact (congrArg (Option.map _) hput).trans Option.map_or
  · have hput := @Session.lastOf_put _ _ _ _ s g taskId batch h _ special_resume hr ht hk hclean
    refine (congrArg Option.isSome hput).trans ?_
    rw [Option.isSome_or]
    congr 1
    rw [Bool.eq_iff_iff, isSome_lastOf, decide_eq_true_eq]

end Step

section Inference

variable {asks asks' waiting waiting' : String → Option Value} {answers answers' : String → Bool}
  {owner : Value → String} {taskId : String}

-- An interrupt hangs if a task has it and no task that has it has an answer.
def Hangs (asks : String → Option Value) (answers : String → Bool) (v : Value) : Prop :=
  (∃ t, asks t = some v) ∧ ¬ ∃ t, asks t = some v ∧ answers t = true

theorem hangs_asked
    (hown : ∀ t v, waiting t = some v → asks t = some v ∧ owner v = t)
    (hright : ∀ v, Hangs asks answers v ↔ ∃ t, waiting t = some v) {id : Value}
    (hask : asks' taskId = some id) (hasks : ∀ t, t ≠ taskId → asks' t = asks t)
    (hans : answers' taskId = false) (hanswers : ∀ t, t ≠ taskId → answers' t = answers t)
    (hwait : waiting' taskId = if owner id = taskId then some id else none)
    (hwaits : ∀ t, t ≠ taskId → waiting' t = waiting t) (hold : answers taskId = false)
    (hfresh : owner id = taskId → ¬ ∃ t, asks t = some id ∧ answers t = true)
    (hcalled : owner id ≠ taskId → waiting (owner id) = some id)
    (hleft : waiting taskId = none ∨ waiting taskId = some id ∨
      ∀ t, t ≠ taskId → asks t ≠ waiting taskId) (v : Value) :
    Hangs asks' answers' v ↔ ∃ t, waiting' t = some v := by
  have hsame (v : Value) : (∃ t, asks' t = some v ∧ answers' t = true) ↔
      ∃ t, asks t = some v ∧ answers t = true := by
    constructor
    · rintro ⟨t, ht, hat⟩
      have hne : t ≠ taskId := by
        rintro rfl
        rw [hans] at hat
        cases hat
      exact ⟨t, hasks t hne ▸ ht, hanswers t hne ▸ hat⟩
    · rintro ⟨t, ht, hat⟩
      have hne : t ≠ taskId := by
        rintro rfl
        rw [hold] at hat
        cases hat
      exact ⟨t, (hasks t hne).trans ht, (hanswers t hne).trans hat⟩
  rw [Hangs, hsame v]
  constructor
  · rintro ⟨⟨t, ht⟩, hnone⟩
    by_cases hv : v = id
    · subst hv
      by_cases howner : owner v = taskId
      · exact ⟨taskId, by rw [hwait, if_pos howner]⟩
      · exact ⟨owner v, (hwaits _ howner).trans (hcalled howner)⟩
    · have hne : t ≠ taskId := by
        rintro rfl
        exact hv (Option.some.inj (ht.symm.trans hask))
      rw [hasks t hne] at ht
      obtain ⟨k, hk⟩ := (hright v).mp ⟨⟨t, ht⟩, hnone⟩
      have hk' : k ≠ taskId := by
        rintro rfl
        rw [hk] at hleft
        rcases hleft with h | h | h
        · cases h
        · exact hv (Option.some.inj h)
        · exact h t hne ht
      exact ⟨k, (hwaits k hk').trans hk⟩
  · rintro ⟨k, hk⟩
    by_cases hkt : k = taskId
    · rw [hkt, hwait] at hk
      split at hk
      · rename_i howner
        obtain rfl := Option.some.inj hk
        exact ⟨⟨taskId, hask⟩, hfresh howner⟩
      · cases hk
    · rw [hwaits k hkt] at hk
      exact ⟨⟨k, (hasks k hkt).trans (hown k v hk).1⟩, ((hright v).mpr ⟨k, hk⟩).2⟩

theorem hangs_ended
    (hown : ∀ t v, waiting t = some v → asks t = some v ∧ owner v = t)
    (hright : ∀ v, Hangs asks answers v ↔ ∃ t, waiting t = some v) {resumed : Bool}
    (hans : answers' taskId = (resumed || answers taskId))
    (hanswers : ∀ t, t ≠ taskId → answers' t = answers t)
    (hwait : waiting' taskId = none) (hwaits : ∀ t, t ≠ taskId → waiting' t = waiting t)
    (hended : ∀ id, asks taskId = some id → waiting (owner id) = some id →
      (resumed = true ↔ owner id = taskId)) (v : Value) :
    Hangs asks answers' v ↔ ∃ t, waiting' t = some v := by
  constructor
  · rintro ⟨hasked, hnone⟩
    have hbefore : ¬ ∃ t, asks t = some v ∧ answers t = true := by
      rintro ⟨t, ht, hat⟩
      refine hnone ⟨t, ht, ?_⟩
      by_cases hne : t = taskId
      · rw [hne, hans, ← hne, hat, Bool.or_true]
      · exact (hanswers t hne).trans hat
    obtain ⟨k, hk⟩ := (hright v).mp ⟨hasked, hbefore⟩
    have hne : k ≠ taskId := by
      rintro rfl
      obtain ⟨hask, howner⟩ := hown k v hk
      have hresumed := (hended v hask (howner.symm ▸ hk)).mpr howner
      exact hnone ⟨k, hask, by rw [hans, hresumed, Bool.true_or]⟩
    exact ⟨k, (hwaits k hne).trans hk⟩
  · rintro ⟨k, hk⟩
    have hne : k ≠ taskId := by
      rintro rfl
      rw [hwait] at hk
      cases hk
    rw [hwaits k hne] at hk
    obtain ⟨hasked, hnone⟩ := (hright v).mpr ⟨k, hk⟩
    obtain ⟨-, howner⟩ := hown k v hk
    refine ⟨hasked, ?_⟩
    rintro ⟨t, ht, hat⟩
    by_cases htt : t = taskId
    · subst htt
      rw [hans, Bool.or_eq_true] at hat
      rcases hat with hres | hold
      · exact hne (howner.symm.trans ((hended v ht (howner.symm ▸ hk)).mp hres))
      · exact hnone ⟨t, ht, hold⟩
    · exact hnone ⟨t, ht, (hanswers t htt).symm.trans hat⟩

theorem hangs_congr (hasks : asks' = asks)
    (hans : ∀ t, asks t ≠ none → answers' t = answers t) (v : Value) :
    Hangs asks' answers' v ↔ Hangs asks answers v := by
  rw [hasks]
  refine and_congr Iff.rfl (not_congr (exists_congr (fun t => and_congr_right (fun ht => ?_))))
  rw [hans t (by rw [ht]; exact Option.some_ne_none v)]

end Inference

structure Settled {C Ver : Type} [LinearOrder Ver] (owner : Value → String)
    (s : Asking C Ver) : Prop where
  ready : s.session.Ready
  keyed : ∀ t, (writeSlots t).Keyed (s.session.taskRows t)
  clean : s.session.loop.config.durability = .exit → ∀ t, t ∉ s.committed → t ≠ nullTaskId →
    taskWritesOf t s.session.loop.checkpointPendingWrites = (s.session.taskRows t).map Prod.snd
  nullRows : lastOf Key.interrupt ((s.session.taskRows nullTaskId).map Prod.snd) = none
  nullMemory : lastOf Key.interrupt
    (taskWritesOf nullTaskId s.session.loop.checkpointPendingWrites) = none
  own : ∀ t v, s.waiting.get? t = some v → s.session.asks t = some v ∧ owner v = t
  right : ∀ v, Hangs s.session.asks s.session.hasAnswer v ↔ ∃ t, s.waiting.get? t = some v

section Settled

variable {C Ver : Type} [BaseChannel C] [LinearOrder Ver] {g : Graph C}
  {owner : Value → String} {s : Asking C Ver}

omit [LinearOrder Ver] in
theorem refuse_iff (g : Graph C) (c : Command) {v : Value} (hv : c.resume = some v)
    (hmap : Command.resumeIsMap v = false) (l : PregelLoop C Ver) :
    (l.putCommand g c).2 = some .multipleInterrupts ↔
      1 < (PregelLoop.pendingInterrupts l.checkpointPendingWrites).length := by
  unfold PregelLoop.putCommand
  simp only [hv, Option.map_some, hmap, Option.getD_some, Option.isSome_some, true_and]
  split
  · rename_i h
    exact iff_of_true rfl h
  · rename_i h
    refine iff_of_false ?_ h
    split
    · intro heq
      cases heq
    · intro heq
      cases heq

omit [BaseChannel C] in
theorem Settled.refuses_perm (h : s.Settled owner) :
    (PregelLoop.pendingInterrupts s.session.reload.loop.checkpointPendingWrites).Perm
      s.waiting.values := by
  have hnodup : s.waiting.values.Nodup := by
    rw [← List.map_id' s.waiting.values]
    refine Dict.nodup_map_values (fun k k' v v' hk hk' heq => ?_)
    rw [← (h.own k v hk).2, ← (h.own k' v' hk').2, heq]
  refine (List.perm_ext_iff_of_nodup (List.nodup_dedup _) hnodup).mpr (fun v => ?_)
  rw [Dict.mem_values, ← h.right v]
  exact mem_pendingInterrupts

theorem Settled.refuses (h : s.Settled owner) : s.Refuses g := by
  intro c v hv hmap
  rw [refuse_iff g c hv hmap, h.refuses_perm.length_eq, Dict.values, Dict.keys, List.length_map,
    List.length_map]

-- The tasks that wait once an attempt is saved.
theorem get?_settle (owner : Value → String) (taskId : String) (a : Attempt)
    (waiting : Dict String Value) (t : String) : (settle owner taskId a waiting).get? t =
      if t = taskId then a.asked.filter (fun id => owner id = taskId) else waiting.get? t := by
  have hothers (k : String) : (waiting.filter (fun k _ => k ≠ taskId)).get? k =
      if k = taskId then none else waiting.get? k := by
    rw [Dict.get?_filter]
    by_cases hk : k = taskId
    · cases waiting.get? k <;> simp [hk]
    · cases waiting.get? k <;> simp [hk]
  unfold settle
  cases ha : a.asked with
  | none =>
    simp only [hothers]
    rfl
  | some id =>
    simp only
    split
    · rename_i howner
      rw [Dict.get?_set, hothers]
      split
      · simp [Option.filter, howner]
      · rfl
    · rename_i howner
      rw [hothers]
      simp [Option.filter, howner]

theorem Settled.commit (h : s.Settled owner) (hi : untrackedKey g.specs Key.interrupt = false)
    (hr : untrackedKey g.specs Key.resume = false) {taskId name : String} {a : Attempt}
    (ht : taskId ≠ nullTaskId) (hw : ∀ w ∈ a.writes, w.1 ≠ Key.interrupt)
    (hnew : taskId ∉ s.committed) (hok : s.Ok g owner (.commit taskId name a)) :
    (⟨s.session.put g taskId (a.savedWrites g name), taskId :: s.committed,
      settle owner taskId a s.waiting⟩ : Asking C Ver).Settled owner := by
  obtain ⟨hasks, hanswer⟩ := @asks_put _ _ _ _ g _ taskId (a.savedWrites g name) h.ready hi hr ht
    (h.keyed taskId) (fun hd => h.clean hd taskId hnew ht)
  rw [lastOf_saved hw] at hasks
  have hother (t : String) (hne : t ≠ taskId) :=
    @asks_put_ne _ _ _ _ g _ taskId (a.savedWrites g name) h.ready t hne (h.keyed t)
  obtain ⟨-, hconfig, -⟩ := Session.put_frame h.ready g taskId (a.savedWrites g name)
  have hmemory (t : String) (hne : t ≠ taskId) : taskWritesOf t
      (s.session.put g taskId (a.savedWrites g name)).loop.checkpointPendingWrites =
        taskWritesOf t s.session.loop.checkpointPendingWrites ∧
      (s.session.put g taskId (a.savedWrites g name)).taskRows t = s.session.taskRows t := by
    by_cases hb : a.savedWrites g name = []
    · rw [hb, Session.put_nil h.ready]
      exact ⟨rfl, rfl⟩
    · rw [Session.put_memory hb, if_neg hne, Session.put_taskRows h.ready hb,
        if_neg (fun hn => hne hn.2)]
      exact ⟨rfl, rfl⟩
  have hsettle := get?_settle owner taskId a s.waiting
  refine ⟨Session.put_ready h.ready, fun t => Session.keyed_put h.ready (h.keyed t),
    fun hd t htc hnull => ?_, ?_, ?_, fun t v hv => ?_, ?_⟩
  · obtain ⟨hne, hold⟩ := not_or.mp (fun hmem => htc (List.mem_cons.mpr hmem))
    rw [(hmemory t hne).1, (hmemory t hne).2]
    exact h.clean (hconfig ▸ hd) t hold hnull
  · rw [(hmemory nullTaskId ht.symm).2]
    exact h.nullRows
  · rw [(hmemory nullTaskId ht.symm).1]
    exact h.nullMemory
  · rw [hsettle] at hv
    split at hv
    · rename_i heq
      obtain ⟨hasked, howner⟩ := Option.filter_eq_some_iff.mp hv
      rw [heq]
      refine ⟨?_, of_decide_eq_true howner⟩
      rw [hasks, hasked]
      rfl
    · rename_i hne
      rw [(hother t hne).1]
      exact h.own t v hv
  · have hwaits (t : String) (hne : t ≠ taskId) :
        (settle owner taskId a s.waiting).get? t = s.waiting.get? t := by
      rw [hsettle, if_neg hne]
    have hwait := hsettle taskId
    rw [if_pos rfl] at hwait
    have hcond := hok.resolve_left hnew
    cases ha : a.asked with
    | some id =>
      rw [ha] at hasks hwait
      obtain ⟨hold, hresumed, hfresh, hcalled, hleft⟩ := hcond.1 id ha
      obtain ⟨v, -, hsaved⟩ := saved_of_asked g name ha
      have hnone : decide (Key.resume ∈ (a.savedWrites g name).map Prod.fst) = false := by
        have hkey : Key.resume ≠ Key.interrupt := by decide
        refine decide_eq_false (fun hmem => hresumed ?_)
        rw [hsaved, List.map_cons, List.mem_cons] at hmem
        obtain ⟨w, hw, heq⟩ := List.mem_map.mp (hmem.resolve_left hkey)
        exact List.mem_map.mpr ⟨w, (List.mem_filter.mp hw).1, heq⟩
      rw [hnone, Bool.false_or, hold] at hanswer
      have hleft' : s.waiting.get? taskId = none ∨ s.waiting.get? taskId = some id ∨
          ∀ t, t ≠ taskId → s.session.asks t ≠ s.waiting.get? taskId := by
        rcases hleft with hnone | hsame | hcarry
        · exact Or.inl hnone
        · exact Or.inr (Or.inl hsame)
        · cases hv : s.waiting.get? taskId with
          | none => exact Or.inl rfl
          | some o =>
            refine Or.inr (Or.inr (fun t hne heq => ?_))
            rw [hv] at hcarry
            exact hcarry t (Session.mem_carriers heq) hne heq
      refine hangs_asked h.own h.right hasks (fun t hne => (hother t hne).1) hanswer
        (fun t hne => (hother t hne).2) ?_ hwaits hold (fun ho => ?_) (fun ho => ?_) hleft'
      · rw [hwait]
        by_cases ho : owner id = taskId
        · simp [Option.filter, ho]
        · simp [Option.filter, ho]
      · rw [← Session.answered_iff, hfresh ho]
        exact Bool.false_ne_true
      · exact hcalled ho
    | none =>
      rw [ha] at hasks hwait
      have hsame : (s.session.put g taskId (a.savedWrites g name)).asks = s.session.asks := by
        funext t
        by_cases hne : t = taskId
        · rw [hne, hasks]
          exact Option.none_or
        · exact (hother t hne).1
      rw [hsame]
      refine hangs_ended h.own h.right hanswer (fun t hne => (hother t hne).2) hwait hwaits
        (fun id hid hwaiting => ?_)
      rw [decide_eq_true_eq]
      exact hcond.2 ha id hid hwaiting

omit [BaseChannel C] in
theorem Settled.asks_null (h : s.Settled owner) : s.session.asks nullTaskId = none := by
  have hloaded := Session.lastOf_loaded h.ready special_interrupt (h.keyed nullTaskId)
  rw [h.nullRows, h.nullMemory, ite_self, Option.or_none] at hloaded
  exact congrArg (Option.map _) hloaded

omit [BaseChannel C] in
theorem Settled.reload (h : s.Settled owner) :
    (⟨s.session.reload, [], s.waiting⟩ : Asking C Ver).Settled owner := by
  have hmemory (t : String) : taskWritesOf t s.session.reload.loop.checkpointPendingWrites =
      (s.session.reload.taskRows t).map Prod.snd := Session.loaded_eq h.ready t
  have hrows : lastOf Key.interrupt ((s.session.reload.taskRows nullTaskId).map Prod.snd) =
      none := by
    rw [← Session.loaded_eq h.ready, Session.lastOf_loaded h.ready special_interrupt
      (h.keyed nullTaskId), h.nullRows, h.nullMemory, ite_self, Option.or_none]
  have hasks : s.session.reload.asks = s.session.asks := funext (fun t =>
    congrArg (Option.map _) (Session.lastOf_reload h.ready special_interrupt (h.keyed t)))
  have hanswers (t : String) : s.session.reload.hasAnswer t = s.session.hasAnswer t :=
    congrArg Option.isSome (Session.lastOf_reload h.ready special_resume (h.keyed t))
  refine ⟨Session.reload_ready h.ready, fun t => Session.keyed_reload h.ready (h.keyed t),
    fun _ t _ _ => hmemory t, hrows, ?_, fun t v hv => ?_, fun v => ?_⟩
  · rw [hmemory]
    exact hrows
  · exact ⟨(congrFun hasks t).trans (h.own t v hv).1, (h.own t v hv).2⟩
  · rw [hangs_congr hasks (fun t _ => hanswers t) v]
    exact h.right v

theorem Settled.putNull (h : s.Settled owner) (hi : untrackedKey g.specs Key.interrupt = false)
    {batch : List Write} (hb : ∀ w ∈ batch, w.1 ≠ Key.interrupt) :
    (⟨s.session.put g nullTaskId batch, s.committed, s.waiting⟩ : Asking C Ver).Settled owner := by
  by_cases hne : batch = []
  · rw [hne, Session.put_nil h.ready]
    exact h
  · obtain ⟨-, hconfig, -⟩ := Session.put_frame h.ready g nullTaskId batch
    have hother (t : String) (ht : t ≠ nullTaskId) :=
      @asks_put_ne _ _ _ _ g _ nullTaskId batch h.ready t ht (h.keyed t)
    have hbatch : lastOf Key.interrupt (ordinary (taskWritesOf nullTaskId
        s.session.loop.checkpointPendingWrites) ++ dedupWrites batch) = none := by
      refine lastOf_none (fun w hw => ?_)
      rcases List.mem_append.mp hw with hw | hw
      · rintro hkey
        have hfree := of_decide_eq_true (List.mem_filter.mp hw).2
        rw [hkey] at hfree
        exact hfree special_interrupt
      · exact hb w (mem_dedupWrites hw)
    have hnull : lastOf Key.interrupt
        (((s.session.put g nullTaskId batch).taskRows nullTaskId).map Prod.snd) = none := by
      rw [Session.put_taskRows h.ready hne]
      split
      · rw [lastOf_save special_interrupt (h.keyed nullTaskId), h.nullRows, Option.or_none,
          Session.savedBatch_null, lastOf_sanitize hi (by decide)]
        exact hbatch
      · exact h.nullRows
    have hmemory : lastOf Key.interrupt (taskWritesOf nullTaskId
        (s.session.put g nullTaskId batch).loop.checkpointPendingWrites) = none := by
      rw [Session.put_memory hne, if_pos rfl, if_pos rfl]
      exact hbatch
    have hready : (s.session.put g nullTaskId batch).Ready := Session.put_ready h.ready
    have hasks : (s.session.put g nullTaskId batch).asks = s.session.asks := by
      funext t
      by_cases ht : t = nullTaskId
      · have hloaded := Session.lastOf_loaded hready special_interrupt
          (Session.keyed_put h.ready (h.keyed nullTaskId))
        rw [hnull, hmemory, ite_self, Option.or_none] at hloaded
        rw [ht, h.asks_null]
        exact congrArg (Option.map _) hloaded
      · exact (hother t ht).1
    refine ⟨hready, fun t => Session.keyed_put h.ready (h.keyed t), fun hd t htc ht => ?_, hnull,
      hmemory, fun t v hv => ?_, fun v => ?_⟩
    · rw [Session.put_memory hne, if_neg ht, Session.put_taskRows h.ready hne,
        if_neg (fun hn => ht hn.2)]
      exact h.clean (hconfig ▸ hd) t htc ht
    · exact ⟨(congrFun hasks t).trans (h.own t v hv).1, (h.own t v hv).2⟩
    · rw [hangs_congr hasks (fun t hsome => (hother t (fun heq => ?_)).2) v]
      · exact h.right v
      · exact hsome (heq ▸ h.asks_null)

theorem command_writes_ne {c : Command} (hc : ∀ w ∈ c.update, w.1 ≠ Key.interrupt) :
    ∀ w ∈ c.writes, w.1 ≠ Key.interrupt := by
  intro w hw
  rcases List.mem_append.mp hw with hw | hw
  · rcases List.mem_append.mp hw with hw | hw
    · obtain ⟨target, -, rfl⟩ := List.mem_map.mp hw
      cases target with
      | inl node =>
        intro heq
        have hlist : "branch:to:".toList ++ node.toList = Key.interrupt.toList := by
          rw [← String.toList_append]
          exact congrArg String.toList heq
        exact absurd (congrArg List.head? hlist) (by simp [Key.interrupt])
      | inr send =>
        have hne : Key.tasks ≠ Key.interrupt := by decide
        exact hne
    · have hne : Key.resume ≠ Key.interrupt := by decide
      split at hw
      · split at hw
        · cases hw
        · rw [List.mem_singleton.mp hw]
          exact hne
      · cases hw
  · exact hc w hw

-- A Command adds rows of its own only, and no task is saved twice before the next one.
theorem Settled.resume (h : s.Settled owner) (hi : untrackedKey g.specs Key.interrupt = false)
    {c : Command} (hc : ∀ w ∈ c.update, w.1 ≠ Key.interrupt) :
    (s.step g owner (.resume c)).Settled owner := by
  have hreload := h.reload
  rw [Asking.step]
  unfold PregelLoop.putCommand
  simp only
  split_ifs
  · have hidle := Session.flush_idle (Session.reload_ready h.ready).idle
    exact hidle.symm ▸ hreload
  · have hidle := Session.flush_idle (Session.reload_ready h.ready).idle
    exact hidle.symm ▸ hreload
  · exact hreload.putNull hi (command_writes_ne hc)

theorem Settled.step (h : s.Settled owner) (hi : untrackedKey g.specs Key.interrupt = false)
    (hr : untrackedKey g.specs Key.resume = false) {e : AskEvent} (he : e.WellFormed)
    (hok : s.Ok g owner e) : (s.step g owner e).Settled owner := by
  cases e with
  | commit taskId name a =>
    rw [Asking.step]
    split
    · exact h
    · rename_i hnew
      exact h.commit hi hr he.1 he.2 hnew hok
  | resume c => exact h.resume hi he

-- Nothing is stored for the checkpoint yet, and no task has run.
structure Fresh (s : Session C Ver) : Prop where
  ready : s.Ready
  rows : s.saver.rows s.loop.checkpoint.id = ∅
  pending : s.loop.checkpointPendingWrites = []

omit [BaseChannel C] in
theorem settled_fresh {session : Session C Ver} (h : Fresh session) :
    (⟨session, [], ∅⟩ : Asking C Ver).Settled owner := by
  have hrows (t : String) : session.taskRows t = [] := by
    rw [Session.taskRows, h.rows]
    rfl
  have hmemory (t : String) : taskWritesOf t session.loop.checkpointPendingWrites = [] := by
    rw [h.pending]
    rfl
  have hkeyed (t : String) : (writeSlots t).Keyed (session.taskRows t) := by
    rw [hrows]
    exact ⟨List.nodup_nil, fun r hr => absurd hr List.not_mem_nil⟩
  have hasks (t : String) : session.asks t = none := by
    have hloaded := Session.lastOf_loaded h.ready special_interrupt (hkeyed t)
    rw [hrows, hmemory] at hloaded
    have hnone : lastOf Key.interrupt (session.loaded t) = none := by
      rw [hloaded]
      split <;> rfl
    exact congrArg (Option.map PregelLoop.interruptId) hnone
  refine ⟨h.ready, hkeyed, fun _ t _ _ => ?_, ?_, ?_, fun t v hv => (by cases hv), fun v => ?_⟩
  · rw [hrows, hmemory]
    rfl
  · rw [hrows]
    rfl
  · rw [hmemory]
    rfl
  · refine iff_of_false ?_ ?_
    · rintro ⟨⟨t, ht⟩, -⟩
      exact Option.some_ne_none v (ht.symm.trans (hasks t))
    · rintro ⟨t, ht⟩
      cases ht

theorem ambiguous_resumes_refused (hi : untrackedKey g.specs Key.interrupt = false)
    (hr : untrackedKey g.specs Key.resume = false) (owner : Value → String)
    {session : Session C Ver} (hfresh : Fresh session) {events : List AskEvent}
    (hformed : ∀ e ∈ events, e.WellFormed)
    (hok : EachStep (step g owner) (Ok g owner) ⟨session, [], ∅⟩ events) :
    Always (step g owner) (Refuses g) ⟨session, [], ∅⟩ events := by
  have hrun (events : List AskEvent) : ∀ s : Asking C Ver, s.Settled owner →
      (∀ e ∈ events, e.WellFormed) → EachStep (step g owner) (Ok g owner) s events →
      Always (step g owner) (Refuses g) s events := by
    induction events with
    | nil =>
      intro s hs _ _ p hp
      rw [List.prefix_nil.mp hp]
      exact hs.refuses
    | cons e events ih =>
      intro s hs hformed hok
      obtain ⟨hfirst, hrest⟩ := eachStep_cons.mp hok
      obtain ⟨he, hes⟩ := List.forall_mem_cons.mp hformed
      exact always_cons.mpr ⟨hs.refuses, ih _ (hs.step hi hr he hfirst) hes hrest⟩
  exact hrun events _ (settled_fresh hfresh) hformed hok

end Settled

section Runs

def twoTasks : Session Channel Nat where
  saver := ⟨Dict.ofList [("c", ⟨emptyCheckpoint "c", ⟨"loop", 0, ∅⟩, none⟩)], ∅, ∅⟩
  loop := PregelLoop.load (LoopConfig.plain .sync) none "c" none
    (some ⟨emptyCheckpoint "c", ⟨"loop", 0, ∅⟩, none, []⟩) ∅

theorem fresh_twoTasks : Fresh twoTasks where
  ready := ⟨rfl, rfl⟩
  rows := rfl
  pending := rfl

def interruptOf (id : String) : Value := .dict [("id", .str id)]

def ownerOf : Value → String
  | .str id => id
  | _ => ""

def firstTask : String := "aaaaaaaaaaaaaaaaaaaaaaaaaaaaaaaa"

def secondTask : String := "bbbbbbbbbbbbbbbbbbbbbbbbbbbbbbbb"

def bothAnswers : Value := .dict [(firstTask, .int 1), (secondTask, .int 2)]

def plainGraph : Graph Channel := Graph.ofSpecs ∅

-- One task asks, is answered and finishes, while another goes on waiting.
theorem one_answered :
    Always (step plainGraph ownerOf) (Refuses plainGraph) ⟨twoTasks, [], ∅⟩
      [.commit firstTask "n" ⟨[], some (.interrupt [interruptOf firstTask])⟩,
        .commit secondTask "m" ⟨[], some (.interrupt [interruptOf secondTask])⟩,
        .resume ⟨[], some bothAnswers, []⟩,
        .commit firstTask "n" ⟨[(Key.resume, .list [.int 1])], none⟩] := by
  refine @ambiguous_resumes_refused _ _ _ _ plainGraph rfl rfl ownerOf _ fresh_twoTasks _ ?_ ?_
  · simp [AskEvent.WellFormed, firstTask, secondTask, nullTaskId, Key.resume, Key.interrupt]
  · simp only [eachStep_cons]
    exact ⟨by decide +kernel, by decide +kernel, trivial, by decide +kernel, eachStep_nil⟩

-- Two tasks ask again after a first answer each, and neither counts as waiting.
theorem two_asked_again :
    ¬ ∀ (events : List AskEvent), (∀ e ∈ events, e.WellFormed) →
      Always (step plainGraph ownerOf) (Refuses plainGraph) ⟨twoTasks, [], ∅⟩ events := by
  intro h
  have hrun := h [.commit firstTask "n" ⟨[], some (.interrupt [interruptOf firstTask])⟩,
    .commit secondTask "m" ⟨[], some (.interrupt [interruptOf secondTask])⟩,
    .resume ⟨[], some bothAnswers, []⟩,
    .commit firstTask "n" ⟨[(Key.resume, .list [.int 1])], some (.interrupt [interruptOf firstTask])⟩,
    .commit secondTask "m" ⟨[(Key.resume, .list [.int 2])], some (.interrupt [interruptOf secondTask])⟩]
    (by simp [AskEvent.WellFormed, firstTask, secondTask, nullTaskId, Key.resume, Key.interrupt]) _ List.prefix_rfl
    ⟨[], some (.int 3), []⟩ (.int 3) rfl rfl
  revert hrun
  decide +kernel

end Runs

end Asking

end LangGraph
