import LangGraph.Pregel.Core

namespace LangGraph

open Collections Relation Transition

variable {C Ver : Type} [BaseChannel C] [LinearOrder Ver] [OrderBot Ver]

namespace Core

-- What `PregelLoop.enter` and `update_state` start from.
inductive Loaded (g : Graph C) (I : String → Prop) (s : InMemorySaver Ver) : Core C Ver → Prop
  | saved {id : Option String} {tuple : CheckpointTuple Ver} {channels : Dict String C}
      (ht : s.getTuple id = some tuple)
      (hc : channelsFromCheckpoint g.specs (some s) tuple.checkpoint = .ok channels) :
      Loaded g I s ⟨tuple.checkpoint, channels, tuple.checkpoint.channelVersions, []⟩
  | fresh {freshId : String} {saver : Option (InMemorySaver Ver)} {channels : Dict String C}
      (hi : I freshId)
      (hc : channelsFromCheckpoint g.specs saver (emptyCheckpoint freshId) = .ok channels) :
      Loaded g I s ⟨emptyCheckpoint freshId, channels, ∅, []⟩

-- `J` holds before a step's save, `K` after it, and `S` of the saver between steps.
structure Invariant (g : Graph C) (N : InMemorySaver Ver → GetNextVersion Ver → Prop)
    (I : InMemorySaver Ver → String → Prop) (S : InMemorySaver Ver → Prop)
    (J K : InMemorySaver Ver → Core C Ver → Prop) : Prop where
  load {s c} : S s → Loaded g (I s) s c → J s c
  move {s c c'} : Move g (N s) (I s) c c' → J s c → J s c'
  keep {s c} : J s c → K s c
  save {s c c'} : Core.Save (N s) (I s) c c' → J s c → K s c'
  submit {s c} {calls : List (SaverCall Ver)} : RowsOnly calls → K s c → K s (c.submit calls)
  settle {s c} : K s c → S (s.execAll c.calls) ∧ J (s.execAll c.calls) { c with calls := [] }

variable {g : Graph C} {N : InMemorySaver Ver → GetNextVersion Ver → Prop}
  {I : InMemorySaver Ver → String → Prop} {S : InMemorySaver Ver → Prop}
  {J K : InMemorySaver Ver → Core C Ver → Prop}

theorem Invariant.moves (h : Invariant g N I S J K) {s : InMemorySaver Ver} {c c' : Core C Ver}
    (hm : ReflTransGen (Move g (N s) (I s)) c c') (hc : J s c) : J s c' := by
  induction hm with
  | refl => exact hc
  | tail _ hstep ih => exact h.move hstep ih

theorem Invariant.steps (h : Invariant g N I S J K) {s : InMemorySaver Ver} {c c' : Core C Ver}
    (hs : Steps g (N s) (I s) c c') (hc : J s c) : K s c' := by
  obtain ⟨c₁, c₂, hm, hsave, calls, hrows, rfl⟩ := hs
  have h₁ := h.moves hm hc
  refine h.submit hrows ?_
  rcases hsave with rfl | hsave
  · exact h.keep h₁
  · exact h.save hsave h₁

end Core

namespace Event

def nexts : Event Ver → List (GetNextVersion Ver)
  | .first _ _ nextNull next _ => [nextNull, next]
  | .afterTick next _ => [next]
  | .exit next => [next]
  | .updateState _ nextNull next _ _ _ => [nextNull, next]
  | _ => []

def ids : Event Ver → List String
  | .enter _ _ freshId _ => [freshId]
  | .first _ _ _ _ newId => [newId]
  | .afterTick _ newId => [newId]
  | .updateState _ _ _ freshId newId _ => [freshId, newId]
  | _ => []

end Event

namespace Thread

-- At the exit the ids the loop still has to store have to be allowed as well.
structure Admits (N : InMemorySaver Ver → GetNextVersion Ver → Prop)
    (I : InMemorySaver Ver → String → Prop) (th : Thread C Ver) (e : Event Ver) : Prop where
  nexts : ∀ next ∈ e.nexts, N th.saver next
  ids : ∀ id ∈ e.ids, I th.saver id
  anchor : ∀ next, e = .exit next → ∀ l, th.loop = some l → l.hasPersistedParent = false →
    I th.saver l.checkpointIdSaved
  last : ∀ next, e = .exit next → ∀ l, th.loop = some l →
    l.checkpoint.id ≠ l.checkpointIdSaved → I th.saver l.checkpoint.id

variable {g : Graph C} {N : InMemorySaver Ver → GetNextVersion Ver → Prop}
  {I : InMemorySaver Ver → String → Prop} {S : InMemorySaver Ver → Prop}
  {J K : InMemorySaver Ver → Core C Ver → Prop} {inputKeys : InputKeys}

structure CoreHolds (S : InMemorySaver Ver → Prop) (J : InMemorySaver Ver → Core C Ver → Prop)
    (th : Thread C Ver) : Prop where
  saver : S th.saver
  idle : ∀ l, th.loop = some l → l.submitted = []
  loop : ∀ l, th.loop = some l → J th.saver l.core

theorem CoreHolds.proceed (h : Core.Invariant g N I S J K) {th : Thread C Ver}
    {l : PregelLoop C Ver} (hl : K th.saver l.core) : CoreHolds S J (th.proceed l) := by
  obtain ⟨hs, hj⟩ := h.settle hl
  refine ⟨hs, fun l' hl' => ?_, fun l' hl' => ?_⟩
  · rw [← Option.some.inj hl']
  · rw [← Option.some.inj hl']
    exact hj

theorem CoreHolds.close (h : Core.Invariant g N I S J K) {th : Thread C Ver}
    {l : PregelLoop C Ver} (hl : K th.saver l.core) : CoreHolds S J (th.close l) :=
  ⟨(h.settle hl).1, fun _ hl' => (by cases hl'), fun _ hl' => (by cases hl')⟩

omit [OrderBot Ver] in
theorem loaded_enter {config : LoopConfig} {cache : Option WritesCache} {freshId : String}
    {checkpointId : Option String} {s : InMemorySaver Ver} {l : PregelLoop C Ver}
    {I : String → Prop} (hi : I freshId)
    (h : PregelLoop.enter g config cache freshId checkpointId s = .ok l) :
    Core.Loaded g I s l.core := by
  unfold PregelLoop.enter at h
  simp only at h
  split at h
  · cases h
  · rename_i channels hc
    rw [← Except.ok.inj h]
    cases ht : s.getTuple checkpointId with
    | none =>
      rw [ht] at hc
      exact .fresh hi hc
    | some tuple =>
      rw [ht] at hc
      exact .saved ht hc

omit [OrderBot Ver] in
theorem loaded_update {freshId : String} {checkpointId : Option String} {s : InMemorySaver Ver}
    {t : UpdateTarget C Ver} {I : String → Prop} (hi : I freshId)
    (h : UpdateTarget.load g freshId checkpointId s = .ok t) : Core.Loaded g I s t.core := by
  unfold UpdateTarget.load at h
  simp only at h
  split at h
  · cases h
  · rename_i channels hc
    rw [← Except.ok.inj h]
    cases ht : s.getTuple checkpointId with
    | none =>
      rw [ht] at hc
      exact .fresh hi hc
    | some tuple =>
      rw [ht] at hc
      exact .saved ht hc

theorem CoreHolds.exec (h : Core.Invariant g N I S J K) {th : Thread C Ver}
    (hl : th.loop = none) {c : Core C Ver} (hc : K th.saver c) :
    CoreHolds S J (th.exec c.calls) := by
  have hnone (l : PregelLoop C Ver) (heq : (th.exec c.calls).loop = some l) : False := by
    rw [show (th.exec c.calls).loop = th.loop from rfl, hl] at heq
    cases heq
  exact ⟨(h.settle hc).1, fun l heq => (hnone l heq).elim, fun l heq => (hnone l heq).elim⟩

theorem CoreHolds.idle_step (h : Core.Invariant g N I S J K) {th : Thread C Ver} {e : Event Ver}
    (hth : CoreHolds S J th) (he : th.Admits N I e) (hl : th.loop = none) :
    CoreHolds S J (th.step g inputKeys e) := by
  cases e with
  | enter config cache freshId id =>
    simp only [step, hl]
    split
    · rename_i l henter
      have hfresh : I th.saver freshId := he.ids freshId (List.mem_singleton_self freshId)
      exact CoreHolds.proceed h (h.keep (h.load hth.saver (loaded_enter hfresh henter)))
    · exact hth
  | updateState update nextNull next freshId newId id =>
    simp only [step, hl]
    have hnull : N th.saver nextNull := he.nexts nextNull (by simp [Event.nexts])
    have hnext : N th.saver next := he.nexts next (by simp [Event.nexts])
    have hfresh : I th.saver freshId := he.ids freshId (by simp [Event.ids])
    have hnew : I th.saver newId := he.ids newId (by simp [Event.ids])
    rcases steps_updateState (g := g) inputKeys hnull hnext hnew freshId id update th.saver with
      hnil | ⟨t, c, hload, hsteps, hcalls⟩
    · rw [hnil]
      have hsame : th.exec [] = th := by
        rw [Thread.exec, List.append_nil]
        rfl
      rw [hsame]
      exact hth
    · rw [← hcalls]
      exact CoreHolds.exec h hl (h.steps hsteps (h.load hth.saver (loaded_update hfresh hload)))
  | _ => simpa only [step, hl] using hth

theorem CoreHolds.running_step (h : Core.Invariant g N I S J K) {th : Thread C Ver}
    {e : Event Ver} {l : PregelLoop C Ver} (hth : CoreHolds S J th) (he : th.Admits N I e)
    (hl : th.loop = some l) : CoreHolds S J (th.step g inputKeys e) := by
  have hj : J th.saver l.core := hth.loop l hl
  have hrows {m : PregelLoop C Ver}
      (hm : ∃ calls : List (SaverCall Ver), RowsOnly calls ∧ m.core = l.core.submit calls) :
      CoreHolds S J (th.proceed m) := by
    obtain ⟨calls, hcalls, heq⟩ := hm
    exact CoreHolds.proceed h (heq ▸ h.submit hcalls (h.keep hj))
  have hsame {m : PregelLoop C Ver} (hm : m.core = l.core) : CoreHolds S J (th.proceed m) :=
    CoreHolds.proceed h (hm ▸ h.keep hj)
  cases e with
  | enter config cache freshId id => simpa only [step, hl] using hth
  | updateState update nextNull next freshId newId id => simpa only [step, hl] using hth
  | first input sameRun nextNull next newId =>
    have hsteps := PregelLoop.steps_first (g := g) l inputKeys input sameRun
      (he.nexts nextNull (by simp [Event.nexts])) (he.nexts next (by simp [Event.nexts]))
      (he.ids newId (by simp [Event.ids]))
    have hk := h.steps hsteps hj
    simp only [step, hl]
    split
    · rename_i m hm
      exact CoreHolds.proceed h (by rw [hm] at hk; exact hk)
    · rename_i m err hm
      exact CoreHolds.close h (by rw [hm] at hk; exact hk)
  | tick =>
    simp only [step, hl]
    exact hsame (PregelLoop.core_tick g l)
  | matchCachedWrites =>
    simp only [step, hl]
    exact hsame (PregelLoop.core_matchCachedWrites l)
  | taskWrites taskId writes =>
    simp only [step, hl]
    exact hsame rfl
  | commit taskId attempt =>
    simp only [step, hl]
    exact hrows (PregelLoop.core_commit g taskId attempt l)
  | putWrites taskId writes =>
    simp only [step, hl]
    exact hrows (PregelLoop.core_putWrites g taskId writes l)
  | afterTick next newId =>
    have hsteps := PregelLoop.steps_afterTick (g := g) l
      (he.nexts next (by simp [Event.nexts])) (he.ids newId (by simp [Event.ids]))
    have hk := h.steps hsteps hj
    simp only [step, hl]
    split
    · rename_i m hm
      exact CoreHolds.proceed h (by rw [hm] at hk; exact hk)
    · rename_i m err hm
      rw [hm] at hk
      split
      · exact CoreHolds.proceed h hk
      · exact CoreHolds.close h hk
  | exit next =>
    have hsteps := PregelLoop.steps_suppressInterrupt (g := g) l
      (he.nexts next (by simp [Event.nexts])) (he.anchor next rfl l hl) (he.last next rfl l hl)
    simp only [step, hl]
    exact CoreHolds.close h (h.steps hsteps hj)

theorem CoreHolds.step (h : Core.Invariant g N I S J K) {th : Thread C Ver} {e : Event Ver}
    (hth : CoreHolds S J th) (he : th.Admits N I e) :
    CoreHolds S J (th.step g inputKeys e) := by
  cases hl : th.loop with
  | none => exact hth.idle_step h he hl
  | some l => exact hth.running_step h he hl

end Thread

end LangGraph
