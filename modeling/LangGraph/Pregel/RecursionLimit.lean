import LangGraph.Pregel.Lineage
import LangGraph.Pregel.Streaming

namespace LangGraph

open Collections Transition

variable {C Ver : Type}

def IsLastStepManager.get (step stop : Int) : Bool := step = stop - 1

def RemainingStepsManager.get (step stop : Int) : Int := stop - step

namespace PregelLoop

def clock (l : PregelLoop C Ver) : Int × Int × LoopConfig := (l.step, l.stop, l.config)

theorem clock_of_rows {l m : PregelLoop C Ver} (h : l.trail.Rows m.trail) :
    m.clock = l.clock ∧ m.checkpointMetadata = l.checkpointMetadata := by
  obtain ⟨calls, -, heq⟩ := h
  exact ⟨congrArg (fun t => (t.step, t.stop, t.loop)) heq, congrArg Trail.last heq⟩

theorem clock_of_trail {l m : PregelLoop C Ver} (h : m.trail = l.trail) : m.clock = l.clock :=
  congrArg (fun t => (t.step, t.stop, t.loop)) h

theorem clock_scheduleErrorHandler (g : Graph C) (failedId : String) (l : PregelLoop C Ver) :
    (l.scheduleErrorHandler g failedId).1.clock = l.clock := by
  unfold scheduleErrorHandler
  split
  · rfl
  · exact clock_of_trail (trail_matchCachedWrites _)

section Clock

variable [BaseChannel C] [LinearOrder Ver] [OrderBot Ver] {l : PregelLoop C Ver}
  {next : GetNextVersion Ver} {newId : String}

theorem tick_outOfSteps (g : Graph C) (l : PregelLoop C Ver) :
    (l.tick g).2 = .outOfSteps ↔ l.stop < l.step := by
  rw [tick]
  split_ifs with hstop
  · exact iff_of_true rfl hstop
  · simp only
    split_ifs <;> exact iff_of_false (fun h => by cases h) hstop

theorem clock_putCheckpoint (source : String) (l : PregelLoop C Ver) :
    (l.putCheckpoint next newId source).clock = (l.step + 1, l.stop, l.config) := by
  rw [putCheckpoint]
  split_ifs <;> rfl

theorem clock_afterTick (g : Graph C) (next : GetNextVersion Ver) (newId : String)
    (h : (l.afterTick g next newId).2 = none) :
    (l.afterTick g next newId).1.clock = (l.step + 1, l.stop, l.config) := by
  unfold afterTick at h ⊢
  simp only at h ⊢
  split at h
  · cases h
  · exact clock_putCheckpoint "loop" _

-- A loop that resumes and makes no fork takes no step before its first superstep.
def resumes (input : Input) (sameRun : Bool) (l : PregelLoop C Ver) : Bool :=
  l.isResuming input sameRun &&
    !(l.dropTimeTravel input && decide (l.checkpointMetadata.source ∉ ["update", "fork"]))

theorem clock_resumeFirst (timeTravel : Bool) (l : PregelLoop C Ver) :
    (l.resumeFirst next newId timeTravel).clock =
      (if timeTravel ∧ l.checkpointMetadata.source ∉ ["update", "fork"] then l.step + 1
        else l.step, l.stop, l.config) := by
  rw [resumeFirst]
  by_cases hfork : timeTravel ∧ l.checkpointMetadata.source ∉ ["update", "fork"]
  · rw [if_pos hfork]
    exact (congrArg clock (if_pos hfork)).trans (clock_putCheckpoint "fork" _)
  · rw [if_neg hfork]
    exact (congrArg clock (if_neg hfork)).trans rfl

theorem clock_enterInput (g : Graph C) (inputKeys : InputKeys) (updated : Option (Finset String))
    (input : Input) (h : (l.enterInput g inputKeys next newId updated input).2 = none) :
    (l.enterInput g inputKeys next newId updated input).1.clock =
      (l.step + 1, l.stop, l.config) := by
  unfold enterInput at h ⊢
  split
  · rename_i v
    simp only at h ⊢
    split at h
    · cases h
    · rename_i writes _
      rw [inputFirst_eq] at h ⊢
      have hput := trail_putDeltaInput g (mapInput inputKeys v)
        (l.inputApplied g next updated (mapInput inputKeys v)).1
      split at h
      · cases h
      · refine (clock_putCheckpoint "input" _).trans ?_
        obtain ⟨hstep, hrest⟩ := Prod.mk.inj (clock_of_rows hput).1
        obtain ⟨hstop, hconfig⟩ := Prod.mk.inj hrest
        simp only [hstep, hstop, hconfig]
        rfl
  · rename_i hv
    cases input with
    | value v => exact absurd rfl (hv v)
    | _ => cases h

theorem clock_first (g : Graph C) (inputKeys : InputKeys) (input : Input) (sameRun : Bool)
    (nextNull next : GetNextVersion Ver) (newId : String)
    (h : (l.first g inputKeys input sameRun nextNull next newId).2 = none) :
    (l.first g inputKeys input sameRun nextNull next newId).1.clock =
      (if l.resumes input sameRun then l.step else l.step + 1, l.stop, l.config) := by
  have hdrop : (l.dropResumed (l.dropTimeTravel input)).trail = l.trail := by
    rw [dropResumed]
    split_ifs <;> rfl
  have hput := trail_putInput g input (l.dropResumed (l.dropTimeTravel input))
  rw [hdrop] at hput
  rw [first] at h ⊢
  simp only at h ⊢
  generalize (l.dropResumed (l.dropTimeTravel input)).putInput g input = r at h hput ⊢
  obtain ⟨m, e⟩ := r
  cases e with
  | some e => cases h
  | none =>
    have hnull := trail_applyNullWrites g nextNull m.storedUpdates m
    simp only [andThen] at h ⊢
    generalize m.applyNullWrites g nextNull m.storedUpdates = q at h hnull ⊢
    obtain ⟨n, r⟩ := q
    obtain ⟨hclock, hmetadata⟩ := clock_of_rows (hnull ▸ hput : l.trail.Rows n.trail)
    obtain ⟨hstep, hrest⟩ := Prod.mk.inj hclock
    obtain ⟨hstop, hconfig⟩ := Prod.mk.inj hrest
    cases r with
    | error e => cases h
    | ok updated =>
      simp only at h ⊢
      by_cases hresuming : l.isResuming input sameRun = true
      · rw [if_pos hresuming]
        refine (clock_resumeFirst _ n).trans ?_
        rw [resumes, hresuming, hstep, hstop, hconfig, hmetadata]
        by_cases hfork : l.dropTimeTravel input = true ∧
            l.checkpointMetadata.source ∉ ["update", "fork"]
        · rw [if_pos hfork, hfork.1, decide_eq_true hfork.2]
          rfl
        · rw [if_neg hfork, if_pos]
          rw [Bool.true_and, Bool.not_eq_true', ← Bool.not_eq_true, Bool.and_eq_true,
            decide_eq_true_iff]
          exact hfork
      · rw [if_neg hresuming] at h ⊢
        rw [clock_enterInput g inputKeys updated input h, hstep, hstop, hconfig, resumes,
          Bool.eq_false_of_not_eq_true hresuming]
        rfl

end Clock

end PregelLoop

section Machine

variable [BaseChannel C] [LinearOrder Ver] [OrderBot Ver]

-- The supersteps started since the loop was entered; `spare` is 1 after a resume without a fork.
structure CountedRun (C Ver : Type) where
  streaming : Streaming C Ver
  spare : Nat
  supersteps : Nat

namespace CountedRun

def step (g : Graph C) (inputKeys : InputKeys) (c : CountedRun C Ver) (e : LoopEvent Ver) :
    CountedRun C Ver :=
  let streaming := c.streaming.step g inputKeys e
  match c.streaming.thread.loop, c.streaming.phase, e with
  | none, _, _ => ⟨streaming, 0, 0⟩
  | some l, .entered, .thread (.first input sameRun _ _ _) =>
      ⟨streaming, if l.resumes input sameRun then 1 else 0, 0⟩
  | some l, .ready _, .thread .tick =>
      ⟨streaming, c.spare, if (l.tick g).2 = .proceed then c.supersteps + 1 else c.supersteps⟩
  | _, _, _ => { c with streaming := streaming }

def fresh : CountedRun C Ver := ⟨Streaming.fresh, 0, 0⟩

def limit (c : CountedRun C Ver) (l : PregelLoop C Ver) : Int := l.config.recursionLimit + c.spare

def Within (spare supersteps : Nat) : Phase → Int × Int × LoopConfig → Prop
  | .entered, (step, stop, config) =>
      supersteps = 0 ∧ spare = 0 ∧ stop = step + config.recursionLimit + 1
  | .ready _, (step, stop, config) => stop + supersteps = step + (config.recursionLimit + spare)
  | .running _, (step, stop, config) =>
      stop + supersteps = step + (config.recursionLimit + spare) + 1 ∧ step ≤ stop
  | .ended, _ => True

def Kept (c : CountedRun C Ver) : Prop :=
  ∀ l, c.streaming.thread.loop = some l →
    Within c.spare c.supersteps c.streaming.phase l.clock

variable {g : Graph C} {inputKeys : InputKeys} {c : CountedRun C Ver} {th : Thread C Ver}
  {l m : PregelLoop C Ver} {phase : Phase} {spare supersteps : Nat}

omit [BaseChannel C] [OrderBot Ver] in
theorem kept_proceed (h : Within spare supersteps phase m.clock) :
    (⟨⟨th.proceed m, phase⟩, spare, supersteps⟩ : CountedRun C Ver).Kept := by
  intro n hn
  rw [← Option.some.inj hn]
  exact h

omit [BaseChannel C] [LinearOrder Ver] [OrderBot Ver] in
theorem kept_ended : (⟨⟨th, .ended⟩, spare, supersteps⟩ : CountedRun C Ver).Kept :=
  fun _ _ => trivial

omit [BaseChannel C] [LinearOrder Ver] [OrderBot Ver] in
theorem kept_idle (h : th.loop = none) :
    (⟨⟨th, phase⟩, spare, supersteps⟩ : CountedRun C Ver).Kept :=
  fun l hl => by rw [h] at hl; cases hl

theorem kept_enter {s : Streaming C Ver} (hnone : s.thread.loop = none) (e : LoopEvent Ver) :
    (⟨s.step g inputKeys e, 0, 0⟩ : CountedRun C Ver).Kept := by
  rw [Streaming.step, hnone]
  cases e with
  | thread e =>
    cases e with
    | enter config cache freshId checkpointId =>
      simp only [Thread.loopStep, Thread.step, hnone]
      cases hl : PregelLoop.enter g config cache freshId checkpointId s.thread.saver with
      | error e => exact kept_idle hnone
      | ok l =>
        refine kept_proceed ⟨rfl, rfl, ?_⟩
        unfold PregelLoop.enter at hl
        simp only at hl
        split at hl
        · cases hl
        · rw [← Except.ok.inj hl]
          rfl
    | _ =>
      simp only [Thread.loopStep, Thread.step, hnone]
      exact kept_idle hnone
  | call parent writeIdx call =>
    simp only [Thread.loopStep, Thread.runStep, hnone]
    exact kept_idle hnone
  | scheduleErrorHandler failedId =>
    simp only [Thread.loopStep, hnone]
    exact kept_idle hnone

theorem Kept.step (h : c.Kept) (e : LoopEvent Ver) : (c.step g inputKeys e).Kept := by
  cases hl : c.streaming.thread.loop with
  | none =>
    simp only [CountedRun.step, hl]
    exact kept_enter hl e
  | some l =>
    have hkept := h l hl
    have hstay {m : PregelLoop C Ver} (hm : m.clock = l.clock) :
        (⟨⟨c.streaming.thread.proceed m, c.streaming.phase⟩, c.spare, c.supersteps⟩ :
          CountedRun C Ver).Kept :=
      kept_proceed (hm ▸ hkept)
    cases hp : c.streaming.phase with
    | entered =>
      rcases e with e | _ | _
      · cases e <;> simp only [CountedRun.step, Streaming.step, hl, hp, Phase.next,
          Thread.loopStep, Thread.step]
        case exit => exact kept_ended
        case first input sameRun nextNull next newId =>
          have hfirst := PregelLoop.clock_first g inputKeys input sameRun nextNull next
            newId (l := l)
          generalize l.first g inputKeys input sameRun nextNull next newId = r at hfirst ⊢
          obtain ⟨m, _ | e⟩ := r
          · refine kept_proceed ?_
            rw [hp] at hkept
            obtain ⟨-, -, hstop⟩ := hkept
            rw [hfirst rfl]
            split <;> simp only [Within] <;> omega
          · exact kept_idle rfl
        all_goals exact h
      all_goals simpa only [CountedRun.step, Streaming.step, hl, hp, Phase.next] using h
    | ready kind =>
      rcases e with e | _ | _
      · cases e <;> simp only [CountedRun.step, Streaming.step, hl, hp, Phase.next,
          Thread.loopStep, Thread.step]
        case exit => exact kept_ended
        case tick =>
          rw [hp] at hkept
          split
          · rename_i hproceed
            refine kept_proceed ?_
            have hsteps : ¬ l.stop < l.step := by
              rw [← PregelLoop.tick_outOfSteps g, hproceed]
              exact fun hout => by cases hout
            rw [PregelLoop.clock_of_trail (PregelLoop.trail_tick g l)]
            simp only [Within, PregelLoop.clock] at hkept ⊢
            omega
          · exact kept_ended
        all_goals exact h
      all_goals simpa only [CountedRun.step, Streaming.step, hl, hp, Phase.next] using h
    | running kind =>
      rw [hp] at hstay hkept
      rcases e with e | ⟨parent, writeIdx, call⟩ | failedId
      · cases e <;> simp only [CountedRun.step, Streaming.step, hl, hp, Phase.next,
          Thread.loopStep, Thread.step]
        case exit => exact kept_ended
        case matchCachedWrites =>
          exact hstay (PregelLoop.clock_of_trail (PregelLoop.trail_matchCachedWrites l))
        case taskWrites taskId writes => exact hstay (m := l.setTaskWrites taskId writes) rfl
        case commit taskId attempt =>
          exact hstay (PregelLoop.clock_of_rows (PregelLoop.trail_commit g taskId attempt l)).1
        case putWrites taskId writes =>
          exact hstay (PregelLoop.clock_of_rows (PregelLoop.trail_putWrites g taskId writes l)).1
        case afterTick next newId =>
          have hafter := PregelLoop.clock_afterTick g next newId (l := l)
          generalize l.afterTick g next newId = r at hafter ⊢
          obtain ⟨m, _ | e⟩ := r
          · refine kept_proceed ?_
            rw [hafter rfl]
            obtain ⟨hcount, -⟩ := hkept
            simp only [Within, Option.isNone_none, if_true]
            omega
          · exact kept_ended
        all_goals exact h
      · simp only [CountedRun.step, Streaming.step, hl, hp, Phase.next, Thread.loopStep,
          Thread.runStep]
        exact hstay (m := l.acceptPush g parent writeIdx call) rfl
      · simp only [CountedRun.step, Streaming.step, hl, hp, Phase.next, Thread.loopStep]
        exact hstay (PregelLoop.clock_scheduleErrorHandler g failedId l)
    | ended =>
      rcases e with e | _ | _
      · cases e <;> simp only [CountedRun.step, Streaming.step, hl, hp, Phase.next]
        case exit => exact kept_ended
        all_goals exact h
      all_goals simpa only [CountedRun.step, Streaming.step, hl, hp, Phase.next] using h

end CountedRun

end Machine

end LangGraph
