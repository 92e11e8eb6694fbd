import LangGraph.Pregel.Streaming

namespace LangGraph

open Collections Transition Relation

variable {Ver : Type} [LinearOrder Ver] [OrderBot Ver] {g : Graph Channel}

namespace Streaming

variable {s : Streaming Channel Ver} {inputKeys : InputKeys}

structure Inv (g : Graph Channel) (s : Streaming Channel Ver) : Prop where
  core : s.thread.CoreHolds InMemorySaver.Sane Core.SaneAt
  ready : ∀ l kind, s.thread.loop = some l → s.phase = .ready kind → kind ≠ .resumed → l.Guarded g
  pending : ∀ l, s.thread.loop = some l → s.phase = .ready .later →
    l.checkpointPendingWrites = []
  running : ∀ l kind, s.thread.loop = some l → s.phase = .running kind → l.Underway g kind

def LoopEvent.nexts : LoopEvent Ver → List (GetNextVersion Ver)
  | .thread e => e.nexts
  | _ => []

theorem inv_fresh : (fresh : Streaming Channel Ver).Inv g where
  core := ⟨fun _ _ h => (by cases h), fun _ h => (by cases h), fun _ h => (by cases h)⟩
  ready := fun _ _ h => by cases h
  pending := fun _ h => by cases h
  running := fun _ _ h => by cases h

theorem coreHolds_loopStep (hg : g.Validated) {th : Thread Channel Ver}
    (h : th.CoreHolds InMemorySaver.Sane Core.SaneAt) {e : LoopEvent Ver}
    (he : ∀ next ∈ LoopEvent.nexts e, StrictlyIncreasing next) :
    (th.loopStep g inputKeys e).CoreHolds InMemorySaver.Sane Core.SaneAt := by
  have hproceed {l l' : PregelLoop Channel Ver} (hl : th.loop = some l)
      (hcore : l'.core = l.core) :
      (th.proceed l').CoreHolds InMemorySaver.Sane Core.SaneAt :=
    Thread.CoreHolds.proceed (invariant_sane hg) (hcore ▸ h.loop l hl)
  cases e with
  | thread e =>
    exact h.step (invariant_sane hg)
      ⟨he, fun _ _ => trivial, fun _ _ _ _ _ => trivial, fun _ _ _ _ _ => trivial⟩
  | call parent writeIdx call =>
    simp only [Thread.loopStep, Thread.runStep]
    cases hl : th.loop with
    | none => exact h
    | some l => exact hproceed hl rfl
  | scheduleErrorHandler failedId =>
    simp only [Thread.loopStep]
    cases hl : th.loop with
    | none => exact h
    | some l =>
      refine hproceed hl ?_
      unfold PregelLoop.scheduleErrorHandler
      split
      · rfl
      · rw [PregelLoop.core_matchCachedWrites]
        rfl

omit [OrderBot Ver] in
theorem loop_proceed {th : Thread Channel Ver} {l m : PregelLoop Channel Ver}
    (h : (th.proceed l).loop = some m) : m = { l with submitted := [] } :=
  (Option.some.inj h).symm

-- An event inside a superstep keeps the phase and what the superstep is about.
theorem Inv.inside (h : s.Inv g) {l l' : PregelLoop Channel Ver} (hl : s.thread.loop = some l)
    {kind : SuperstepKind} (hp : s.phase = .running kind) {th : Thread Channel Ver}
    (hcore : th.CoreHolds InMemorySaver.Sane Core.SaneAt) (hth : th = s.thread.proceed l')
    (he : PregelLoop.Evolves l l') : Inv g ⟨th, .running kind⟩ where
  core := hcore
  ready := fun _ _ _ hp => by cases hp
  pending := fun _ _ hp => by cases hp
  running := fun m kind' hm hp' => by
    cases hp'
    rw [hth] at hm
    rw [loop_proceed hm]
    have hunder := (h.running l kind hl hp).evolves he
    exact ⟨hunder.nonempty, hunder.known, hunder.due⟩

theorem inv_ended {th : Thread Channel Ver}
    (hcore : th.CoreHolds InMemorySaver.Sane Core.SaneAt) {phase : Phase}
    (hp : phase = .entered ∨ phase = .ended) : Inv g ⟨th, phase⟩ := by
  rcases hp with rfl | rfl
  · exact ⟨hcore, fun _ _ _ hp => (by cases hp), fun _ _ hp => (by cases hp),
      fun _ _ _ hp => (by cases hp)⟩
  · exact ⟨hcore, fun _ _ _ hp => (by cases hp), fun _ _ hp => (by cases hp),
      fun _ _ _ hp => (by cases hp)⟩

theorem inv_ready {th : Thread Channel Ver} {l : PregelLoop Channel Ver} {kind : SuperstepKind}
    (hcore : th.CoreHolds InMemorySaver.Sane Core.SaneAt)
    (hloop : ∀ m, th.loop = some m → m = { l with submitted := [] })
    (hready : kind ≠ .resumed → l.Guarded g)
    (hpending : kind = .later → l.checkpointPendingWrites = []) : Inv g ⟨th, .ready kind⟩ where
  core := hcore
  ready := fun m kind' hm hp hk => by
    cases hp
    rw [hloop m hm]
    exact (hready hk).imp id (fun hi => ⟨hi.updated, hi.due, hi.sends⟩)
  pending := fun m hm hp => by
    cases hp
    rw [hloop m hm]
    exact hpending rfl
  running := fun _ _ _ hp => by cases hp

theorem Inv.tick (h : s.Inv g) {l : PregelLoop Channel Ver} (hl : s.thread.loop = some l)
    {kind : SuperstepKind} (hp : s.phase = .ready kind) {th : Thread Channel Ver}
    (hcore : th.CoreHolds InMemorySaver.Sane Core.SaneAt) (hth : th = s.thread.proceed (l.tick g).1)
    (hproceed : (l.tick g).2 = .proceed) : Inv g ⟨th, .running kind⟩ where
  core := hcore
  ready := fun _ _ _ hp => by cases hp
  pending := fun _ _ hp => by cases hp
  running := fun m kind' hm hp' => by
    cases hp'
    rw [hth] at hm
    rw [loop_proceed hm]
    have hunder := PregelLoop.Underway.of_tick hproceed (fun hk => h.ready l kind hl hp hk)
    exact ⟨hunder.nonempty, hunder.known, hunder.due⟩

theorem Inv.first (hg : g.Validated) (h : s.Inv g) {l : PregelLoop Channel Ver}
    (hl : s.thread.loop = some l) {input : Input} {sameRun : Bool}
    {nextNull next : GetNextVersion Ver} {newId : String}
    (hcore : (s.thread.step g inputKeys
      (.first input sameRun nextNull next newId)).CoreHolds InMemorySaver.Sane Core.SaneAt)
    (hnull : StrictlyIncreasing nextNull) (hn : StrictlyIncreasing next)
    (hok : l.isResuming input sameRun = false → (l.nulled g input nextNull).covers g
      (((l.nulled g input nextNull).discardTasks g none).map PregelTaskWrites.seen) = true) :
    Inv g ⟨s.thread.step g inputKeys (.first input sameRun nextNull next newId),
      .ready (if l.isResuming input sameRun then .resumed else .input)⟩ := by
  cases hr : l.first g inputKeys input sameRun nextNull next newId with
  | mk l' err =>
    cases err with
    | some e =>
      have hloop : (s.thread.step g inputKeys (.first input sameRun nextNull next newId)).loop =
          none := by
        simp only [Thread.step, hl, hr]
        rfl
      have hnone (m : PregelLoop Channel Ver) (hm : (s.thread.step g inputKeys
          (.first input sameRun nextNull next newId)).loop = some m) : False := by
        rw [hloop] at hm
        cases hm
      exact ⟨hcore, fun m _ hm => (hnone m hm).elim, fun m hm => (hnone m hm).elim,
        fun m _ hm => (hnone m hm).elim⟩
    | none =>
      have hstep : s.thread.step g inputKeys (.first input sameRun nextNull next newId) =
          s.thread.proceed l' := by
        simp only [Thread.step, hl, hr]
      refine inv_ready hcore (fun m hm => loop_proceed (hstep ▸ hm)) (fun hk => ?_) (fun hk => ?_)
      · have hres : l.isResuming input sameRun = false := by
          cases hb : l.isResuming input sameRun with
          | false => rfl
          | true =>
            rw [hb] at hk
            exact (hk rfl).elim
        have hguarded := PregelLoop.Guarded.first hg (h.core.loop l hl) hnull hn
          (congrArg Prod.snd hr) hres (hok hres)
        rwa [hr] at hguarded
      · cases hb : l.isResuming input sameRun <;> rw [hb] at hk <;> cases hk

theorem Inv.afterTick (hg : g.Validated) (h : s.Inv g) {l : PregelLoop Channel Ver}
    (hl : s.thread.loop = some l) {kind : SuperstepKind} (hp : s.phase = .running kind)
    {next : GetNextVersion Ver} {newId : String}
    (hcore : (s.thread.step g inputKeys (.afterTick next newId)).CoreHolds
      InMemorySaver.Sane Core.SaneAt) (hn : StrictlyIncreasing next)
    (hok : kind = .resumed → (updatesSinceInterrupt l.checkpoint || l.moves g next ||
      l.covers g (l.liveTasks.map PregelTask.seen)) = true) :
    Inv g ⟨s.thread.step g inputKeys (.afterTick next newId),
      if (l.afterTick g next newId).2.isNone then .ready .later else .ended⟩ := by
  split
  · rename_i hnone
    have hafter := (h.running l kind hl hp).afterTick hg (h.core.loop l hl).2 hn hnone hok
    cases hr : l.afterTick g next newId with
    | mk l' err =>
      rw [hr] at hnone hafter
      obtain rfl : err = none := Option.isNone_iff_eq_none.mp hnone
      have hstep : s.thread.step g inputKeys (.afterTick next newId) = s.thread.proceed l' := by
        simp only [Thread.step, hl, hr]
      exact inv_ready hcore (fun m hm => loop_proceed (hstep ▸ hm)) (fun _ => hafter.1)
        (fun _ => hafter.2)
  · exact inv_ended hcore (Or.inr rfl)

theorem Inv.step (hg : g.Validated) (h : s.Inv g) {e : LoopEvent Ver}
    (he : ∀ next ∈ LoopEvent.nexts e, StrictlyIncreasing next) (hok : s.Ok g e) :
    (s.step g inputKeys e).Inv g := by
  have hcore := @coreHolds_loopStep _ _ _ g inputKeys hg _ h.core e he
  unfold Streaming.step
  cases hl : s.thread.loop with
  | none => exact inv_ended hcore (Or.inl rfl)
  | some l =>
    rw [Ok, hl, Option.all_some] at hok
    cases hp : s.phase with
    | ended =>
      cases e with
      | thread e =>
        cases e with
        | exit next => exact inv_ended hcore (Or.inr rfl)
        | _ => exact h
      | _ => exact h
    | entered =>
      cases e with
      | thread e =>
        cases e with
        | exit next => exact inv_ended hcore (Or.inr rfl)
        | first input sameRun nextNull next newId =>
          simp only [hp, PregelLoop.ok, Bool.or_eq_true] at hok
          exact h.first hg hl hcore (he nextNull (by simp [LoopEvent.nexts, Event.nexts]))
            (he next (by simp [LoopEvent.nexts, Event.nexts]))
            (fun hres => hok.resolve_left (by rw [hres]; exact Bool.false_ne_true))
        | _ => exact h
      | _ => exact h
    | ready kind =>
      cases e with
      | thread e =>
        cases e with
        | exit next => exact inv_ended hcore (Or.inr rfl)
        | tick =>
          simp only [Phase.next]
          split
          · rename_i hproceed
            exact h.tick hl hp hcore (by simp only [Thread.loopStep, Thread.step, hl]) hproceed
          · exact inv_ended hcore (Or.inr rfl)
        | _ => exact h
      | _ => exact h
    | running kind =>
      cases e with
      | thread e =>
        cases e with
        | exit next => exact inv_ended hcore (Or.inr rfl)
        | matchCachedWrites =>
          exact h.inside hl hp hcore (by simp only [Thread.loopStep, Thread.step, hl])
            (PregelLoop.evolves_matchCachedWrites l)
        | taskWrites taskId writes =>
          exact h.inside hl hp hcore (by simp only [Thread.loopStep, Thread.step, hl])
            (PregelLoop.evolves_setTaskWrites taskId writes l)
        | commit taskId attempt =>
          exact h.inside hl hp hcore (by simp only [Thread.loopStep, Thread.step, hl])
            (PregelLoop.evolves_commit g taskId attempt l)
        | putWrites taskId writes =>
          exact h.inside hl hp hcore (by simp only [Thread.loopStep, Thread.step, hl])
            (PregelLoop.evolves_putWrites g taskId writes l)
        | afterTick next newId =>
          refine h.afterTick hg hl hp hcore (he next (by simp [LoopEvent.nexts, Event.nexts]))
            (fun hk => ?_)
          subst hk
          simpa only [hp, PregelLoop.ok] using hok
        | _ => exact h
      | call parent writeIdx call =>
        have hevolves : PregelLoop.Evolves l (l.acceptPush g parent writeIdx call) :=
          PregelLoop.evolves_addTask rfl l
        exact h.inside hl hp hcore (by simp only [Thread.loopStep, Thread.runStep, hl]) hevolves
      | scheduleErrorHandler failedId =>
        exact h.inside hl hp hcore (by simp only [Thread.loopStep, hl])
          (PregelLoop.evolves_scheduleErrorHandler g failedId l)

-- A listed node is scheduled only where a version has moved.
theorem Inv.moved (h : s.Inv g) {l : PregelLoop Channel Ver} (hl : s.thread.loop = some l)
    {kind : SuperstepKind} (hp : s.phase = .ready kind) (hk : kind ≠ .resumed)
    (hok : s.Ok g (.thread .tick)) {t : PregelTask} (ht : t ∈ l.scheduled g)
    (hlisted : l.listed t.name = true) : updatesSinceInterrupt l.checkpoint = true := by
  rcases h.ready l kind hl hp hk with hm | hidle
  · exact hm
  · have hprepared (u : PregelTask) (hu : u ∈ (l.preparedTasks g).values)
        (hname : u.name = t.name) : False := by
      have hnone := hidle.prepared hu
      rw [hname, hlisted] at hnone
      cases hnone
    cases kind with
    | resumed => exact (hk rfl).elim
    | input =>
      rw [Ok, hl, Option.all_some, hp] at hok
      have hnode := List.all_eq_true.mp hok t ht
      rw [hlisted, Bool.not_true, Bool.false_or, Bool.or_eq_true] at hnode
      rcases hnode with hm | hany
      · exact hm
      · obtain ⟨u, hu, hname⟩ := List.any_eq_true.mp hany
        exact (hprepared u hu (of_decide_eq_true hname)).elim
    | later =>
      have hsame : l.resumedTasks g (l.preparedTasks g) = l.preparedTasks g := by
        rw [PregelLoop.resumedTasks, if_pos (Or.inr (h.pending l hl hp))]
      rw [PregelLoop.scheduled, hsame] at ht
      exact (hprepared t ht rfl).elim

theorem Inv.unskipped (h : s.Inv g) {e : LoopEvent Ver} (hok : s.Ok g e) : s.Unskipped g e := by
  intro l hl hnext hexempt
  have htick (he : e = .thread .tick) (t : PregelTask) (ht : t ∈ l.scheduled g)
      (hlisted : l.listed t.name = true) :
      t ∈ shouldInterrupt l.checkpoint l.config.interruptBefore (l.scheduled g) := by
    subst he
    cases hp : s.phase with
    | ready kind =>
      have hk : kind ≠ .resumed := by
        rintro rfl
        rw [hp] at hexempt
        cases hexempt
      rw [PregelLoop.shouldInterrupt_moved (h.moved hl hp hk hok ht hlisted)]
      exact List.mem_filter.mpr ⟨ht, hlisted⟩
    | _ =>
      rw [hp] at hnext
      cases hnext
  refine ⟨?_, fun he t ht hlisted => ⟨htick he t ht hlisted, fun hstop => ?_⟩⟩
  · intro name hname
    by_contra hlisted
    have hlisted := Bool.eq_true_of_not_eq_false hlisted
    cases e with
    | thread e =>
      cases e with
      | tick =>
        simp only [PregelLoop.executes] at hname
        split at hname
        · rename_i hproceed
          obtain ⟨t, ht, rfl⟩ := List.mem_map.mp hname
          rcases PregelLoop.tick_cases g l with
            ⟨-, hr⟩ | ⟨-, -, hr⟩ | ⟨-, -, heq, ⟨hnil, -⟩ | ⟨-, hr⟩⟩
          · rw [hr] at hproceed
            cases hproceed
          · rw [hr] at hproceed
            cases hproceed
          · rw [heq] at ht
            have hmem := htick rfl t ht hlisted
            rw [hnil] at hmem
            cases hmem
          · rw [hr] at hproceed
            cases hproceed
        · cases hname
      | _ => cases hname
    | call => cases hname
    | scheduleErrorHandler failedId =>
      simp only [PregelLoop.executes, Option.mem_toList] at hname
      obtain ⟨task, htask, rfl⟩ := Option.map_eq_some_iff.mp hname
      cases hp : s.phase with
      | running kind =>
        have hk : kind ≠ .resumed := by
          rintro rfl
          rw [hp] at hexempt
          cases hexempt
        have hhandler : l.errorHandlerOf g failedId = some task.name :=
          PregelLoop.errorHandlerOf_task htask
        rw [Ok, hl, Option.all_some, hp] at hok
        simp only [PregelLoop.ok, decide_eq_false hk, hhandler, Bool.false_or, Option.all_some,
          hlisted] at hok
        cases hok
      | _ =>
        rw [hp] at hnext
        cases hnext
  · have hmem := htick he t ht hlisted
    rcases PregelLoop.tick_cases g l with ⟨hlt, -⟩ | ⟨-, hnil, -⟩ | ⟨-, -, -, ⟨hnil, -⟩ | ⟨-, hr⟩⟩
    · exact absurd hstop (not_le.mpr hlt)
    · rw [hnil] at ht
      cases ht
    · rw [hnil] at hmem
      cases hmem
    · exact hr

section Runs

def reviewGraph : Graph Channel :=
  { Graph.ofSpecs (Dict.ofList [("t", Channel.lastValue ⟨"t", none⟩),
      ("x", .lastValue ⟨"x", none⟩), (Key.tasks, .topic ⟨false, []⟩)]) with
    nodes := Dict.ofList [("draft", ⟨.single "t", ["t"], none, none, none, none, true⟩),
      ("review", ⟨.single "x", ["x"], none, none, none, none, true⟩),
      ("publish", ⟨.single "x", ["t"], none, none, none, none, true⟩)]
    triggerToNodes := Dict.ofList [("t", ["draft", "publish"]), ("x", ["review"])] }

theorem validated_reviewGraph : reviewGraph.Validated where
  nodes := by decide
  push := by decide
  tasks := ⟨[], rfl⟩

def reviewConfig : LoopConfig :=
  ⟨.sync, false, .nodes ["review", "publish"], .nodes [], 25⟩

-- The draft is written, and the review that follows is interrupted.
def draftRun : List (LoopEvent Nat) :=
  [.thread (.enter reviewConfig none "0" none),
    .thread (.first (.value (.int 7)) false successor successor "1"), .thread .tick,
    .thread (.commit "1draft0draft__pregel_pullt" ⟨[("x", .int 8)], none⟩),
    .thread (.afterTick successor "2"), .thread .tick, .thread (.exit successor)]

-- The run is resumed, and the review writes nothing.
def resumedRun : List (LoopEvent Nat) :=
  [.thread (.enter reviewConfig none "0" none),
    .thread (.first .none true successor successor "3"), .thread .tick,
    .thread (.afterTick successor "4"), .thread .tick]

theorem nexts_reviewRuns : ∀ e ∈ draftRun ++ resumedRun, ∀ next ∈ LoopEvent.nexts e,
    StrictlyIncreasing next := by
  simp [draftRun, resumedRun, LoopEvent.nexts, Event.nexts, strictlyIncreasing_successor]

end Runs

end Streaming

end LangGraph
