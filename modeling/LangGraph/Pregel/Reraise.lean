import LangGraph.Pregel.Runner
import LangGraph.Transition.Run
import Mathlib.Data.List.Perm.Basic

namespace LangGraph

open Collections Transition

inductive ExceptionKind where
  | error | cancelledError | graphInterrupt | graphBubbleUp
  deriving DecidableEq

-- `id` is what `id()` gives for the object: another object may get it once this one is dead.
structure RaisedException where
  object : Nat
  id : Nat
  kind : ExceptionKind
  deriving DecidableEq

namespace RaisedException

def isGraphBubbleUp (e : RaisedException) : Bool :=
  e.kind = .graphInterrupt || e.kind = .graphBubbleUp

def isGraphInterrupt (e : RaisedException) : Bool := e.kind = .graphInterrupt

end RaisedException

structure FinishedFuture where
  future : Nat
  exception : Option RaisedException
  deriving DecidableEq

inductive RunnerResult where
  | returned
  | raised (e : RaisedException)
  | interrupted (interrupts : List RaisedException)
  | timedOut
  deriving DecidableEq

-- One tick that ended: the exceptions its tasks ended with and what the tick did.
structure TickOutcome where
  exceptions : List RaisedException
  unhandled : List RaisedException
  result : RunnerResult
  deriving DecidableEq

-- `futures` is the dictionary with the name of each task, `done` the futures that have finished.
structure RunnerState where
  handledExceptionIds : Finset Nat
  skipReraise : Finset Nat
  ticking : Bool
  futures : Dict Nat String
  done : List FinishedFuture
  handledFutures : Finset Nat
  exceptions : List RaisedException
  unhandled : List RaisedException
  outcomes : List TickOutcome

inductive RunnerEvent where
  | start
  | single (name : String) (exception : Option RaisedException) (failure : Nat)
      (handler : Option (Nat × String))
  | submit (future : Nat) (name : String)
  | call (future : Nat) (name : String)
  | finish (future : Nat) (exception : Option RaisedException)
  | reap (future : Nat) (handler : Option (Nat × String))
  | panic (order : List FinishedFuture)

abbrev NodeErrorHandlerMap := Dict String String

namespace NodeErrorHandlerMap

def shouldRouteToErrorHandler (handlers : NodeErrorHandlerMap) (name : String) : Bool :=
  if name ∈ handlers.values then false else name ∈ handlers.keys

end NodeErrorHandlerMap

def panicOrProceed (handledFutures skipReraise handledExceptionIds : Finset Nat) (inflight : Bool) :
    List FinishedFuture → List RaisedException → RunnerResult
  | [], [] => if inflight then .timedOut else .returned
  | [], interrupts => .interrupted interrupts
  | d :: ds, interrupts =>
      match d.exception with
      | none => panicOrProceed handledFutures skipReraise handledExceptionIds inflight ds interrupts
      | some e =>
          if d.future ∈ handledFutures ∨ e.id ∈ handledExceptionIds then
            panicOrProceed handledFutures skipReraise handledExceptionIds inflight ds interrupts
          else if e.isGraphInterrupt then
            panicOrProceed handledFutures skipReraise handledExceptionIds inflight ds
              (interrupts ++ [e])
          else if d.future ∉ skipReraise then .raised e
          else panicOrProceed handledFutures skipReraise handledExceptionIds inflight ds interrupts

namespace RunnerState

variable (handlers : NodeErrorHandlerMap)

def start (s : RunnerState) : RunnerState :=
  { s with
    ticking := true
    futures := ∅
    done := []
    handledFutures := ∅
    exceptions := []
    unhandled := [] }

def fresh (s : RunnerState) (future : Nat) : Bool :=
  future ∉ s.futures.keys && future ∉ s.done.map FinishedFuture.future && future ∉ s.skipReraise &&
    future ∉ s.handledFutures

def submit (future : Nat) (name : String) (s : RunnerState) : RunnerState :=
  { s with futures := s.futures.set future name }

-- Exceptions of `call` tasks are raised into the parent task.
def call (future : Nat) (name : String) (s : RunnerState) : RunnerState :=
  { s with futures := s.futures.set future name, skipReraise := insert future s.skipReraise }

def schedule (handler : Option (Nat × String)) (s : RunnerState) : RunnerState :=
  match handler with
  | some h => s.submit h.1 h.2
  | none => s

def commit (name : String) (exception : Option RaisedException) (s : RunnerState) : RunnerState :=
  match exception with
  | none => s
  | some e =>
      { s with
        handledExceptionIds :=
          if e.kind = .error ∧ handlers.shouldRouteToErrorHandler name then
            insert e.id s.handledExceptionIds
          else s.handledExceptionIds
        exceptions := if e.isGraphInterrupt then s.exceptions else s.exceptions ++ [e]
        unhandled :=
          if e.isGraphInterrupt ∨ handlers.shouldRouteToErrorHandler name then s.unhandled
          else s.unhandled ++ [e] }

def endTick (result : RunnerResult) (s : RunnerState) : RunnerState :=
  { s with
    ticking := false
    outcomes := s.outcomes ++ [⟨s.exceptions, s.unhandled, result⟩] }

-- `on_done` has run when the main thread sees a finished future.
def finish (future : Nat) (name : String) (exception : Option RaisedException) (s : RunnerState) :
    RunnerState :=
  { s.commit handlers name exception with done := s.done ++ [⟨future, exception⟩] }

def routed (name : String) (e : RaisedException) : Bool :=
  handlers.shouldRouteToErrorHandler name && !e.isGraphBubbleUp

def reap (future : Nat) (name : String) (exception : Option RaisedException)
    (handler : Option (Nat × String)) (s : RunnerState) : RunnerState :=
  let s := { s with futures := s.futures.filter (fun k _ => k ≠ future) }
  match exception with
  | none => s
  | some e =>
      if routed handlers name e then
        schedule handler
          { s with
            handledExceptionIds := insert e.id s.handledExceptionIds
            skipReraise := insert future s.skipReraise
            handledFutures := insert future s.handledFutures }
      else s

def panic (order : List FinishedFuture) (s : RunnerState) : RunnerState :=
  let inflight := s.futures.keys.any (fun f => f ∉ s.done.map FinishedFuture.future)
  s.endTick (panicOrProceed s.handledFutures s.skipReraise s.handledExceptionIds inflight order [])

def caught (name : String) (e : RaisedException) (s : RunnerState) : RunnerState :=
  let s := s.commit handlers name (some e)
  if routed handlers name e then
    { s with handledExceptionIds := insert e.id s.handledExceptionIds }
  else s

-- The path of a single task. `failure` is the future made for an exception to be raised later.
def single (name : String) (exception : Option RaisedException) (failure : Nat)
    (handler : Option (Nat × String)) (s : RunnerState) : RunnerState :=
  match exception with
  | none =>
      let s := s.commit handlers name none
      if s.futures.items = [] then s.endTick .returned else s
  | some e =>
      if e.kind = .cancelledError then (s.commit handlers name (some e)).endTick (.raised e)
      else
        let scheduled := routed handlers name e && handler.isSome
        let s := s.caught handlers name e
        if s.futures.items ≠ [] then
          schedule (if scheduled then handler else none)
            (if e.id ∉ s.handledExceptionIds then { s with done := s.done ++ [⟨failure, some e⟩] }
            else s)
        else if e.id ∉ s.handledExceptionIds then s.endTick (.raised e)
        else if scheduled then schedule handler s
        else s.endTick .returned

def unreaped (s : RunnerState) : Bool :=
  s.done.all (fun d => d.future ∈ s.futures.keys)

def exceptionOf (s : RunnerState) (future : Nat) : Option (Option RaisedException) :=
  (s.done.find? (fun d => d.future = future)).map FinishedFuture.exception

def freshHandler (s : RunnerState) (handler : Option (Nat × String)) : Bool :=
  handler.all (fun h => s.fresh h.1)

def step (s : RunnerState) (event : RunnerEvent) : RunnerState :=
  match event, s.ticking with
  | .start, false => s.start
  | .single name exception failure handler, true =>
      if s.unreaped ∧ s.fresh failure ∧ s.freshHandler handler ∧
          handler.map Prod.fst ≠ some failure then
        s.single handlers name exception failure handler
      else s
  | .submit future name, true => if s.fresh future then s.submit future name else s
  | .call future name, true => if s.fresh future then s.call future name else s
  | .finish future exception, true =>
      match s.futures.get? future, s.exceptionOf future with
      | some name, none => s.finish handlers future name exception
      | _, _ => s
  | .reap future handler, true =>
      match s.futures.get? future, s.exceptionOf future with
      | some name, some exception =>
          if s.freshHandler handler then s.reap handlers future name exception handler else s
      | _, _ => s
  | .panic order, true => if order.Perm s.done then s.panic order else s
  | _, _ => s

def idle : RunnerState := ⟨∅, ∅, false, ∅, [], ∅, [], [], []⟩

end RunnerState

section Panic

variable {handledFutures skipReraise handledExceptionIds : Finset Nat}

def Escapes (handledFutures skipReraise handledExceptionIds : Finset Nat) (d : FinishedFuture)
    (e : RaisedException) : Prop :=
  d.exception = some e ∧ e.isGraphInterrupt = false ∧ d.future ∉ handledFutures ∧
    d.future ∉ skipReraise ∧ e.id ∉ handledExceptionIds

theorem panic_cons_skip {d : FinishedFuture} {ds : List FinishedFuture}
    {interrupts : List RaisedException} {inflight : Bool}
    (h : ∀ e, ¬ Escapes handledFutures skipReraise handledExceptionIds d e) :
    ∃ interrupts',
      panicOrProceed handledFutures skipReraise handledExceptionIds inflight (d :: ds) interrupts =
        panicOrProceed handledFutures skipReraise handledExceptionIds inflight ds interrupts' := by
  cases he : d.exception with
  | none => exact ⟨interrupts, by rw [panicOrProceed, he]⟩
  | some e =>
    rw [panicOrProceed, he]
    simp only
    by_cases hhandled : d.future ∈ handledFutures ∨ e.id ∈ handledExceptionIds
    · exact ⟨interrupts, if_pos hhandled⟩
    · rw [if_neg hhandled]
      cases hi : e.isGraphInterrupt with
      | true => exact ⟨interrupts ++ [e], rfl⟩
      | false =>
        obtain ⟨hfuture, hid⟩ := not_or.mp hhandled
        have hskip : ¬ d.future ∉ skipReraise := fun hs => h e ⟨he, hi, hfuture, hs, hid⟩
        exact ⟨interrupts, if_neg hskip⟩

theorem panic_cons_raise {d : FinishedFuture} {ds : List FinishedFuture}
    {interrupts : List RaisedException} {inflight : Bool} {e : RaisedException}
    (h : Escapes handledFutures skipReraise handledExceptionIds d e) :
    panicOrProceed handledFutures skipReraise handledExceptionIds inflight (d :: ds) interrupts =
      .raised e := by
  obtain ⟨he, hi, hfuture, hskip, hid⟩ := h
  have hhandled : ¬ (d.future ∈ handledFutures ∨ e.id ∈ handledExceptionIds) :=
    not_or.mpr ⟨hfuture, hid⟩
  rw [panicOrProceed, he]
  simp only [hhandled, hi, if_false, Bool.false_eq_true]
  exact if_pos hskip

theorem panic_raised {ds : List FinishedFuture} {interrupts : List RaisedException}
    {inflight : Bool} {e : RaisedException}
    (h : panicOrProceed handledFutures skipReraise handledExceptionIds inflight ds interrupts =
      .raised e) :
    ∃ d ∈ ds, Escapes handledFutures skipReraise handledExceptionIds d e := by
  induction ds generalizing interrupts with
  | nil =>
    cases interrupts with
    | nil =>
      rw [panicOrProceed] at h
      split_ifs at h
    | cons i is => cases h
  | cons d ds ih =>
    by_cases hd : ∃ e', Escapes handledFutures skipReraise handledExceptionIds d e'
    · obtain ⟨e', he'⟩ := hd
      rw [panic_cons_raise he'] at h
      obtain rfl := RunnerResult.raised.inj h
      exact ⟨d, List.mem_cons_self, he'⟩
    · obtain ⟨interrupts', hskip⟩ := @panic_cons_skip _ _ _ _ ds interrupts inflight
        (not_exists.mp hd)
      rw [hskip] at h
      obtain ⟨d', hd', he⟩ := ih h
      exact ⟨d', List.mem_cons_of_mem d hd', he⟩

theorem panic_raises {ds : List FinishedFuture} {inflight : Bool} {d : FinishedFuture}
    {e : RaisedException} (hd : d ∈ ds)
    (he : Escapes handledFutures skipReraise handledExceptionIds d e)
    (interrupts : List RaisedException) :
    ∃ e', panicOrProceed handledFutures skipReraise handledExceptionIds inflight ds interrupts =
      .raised e' := by
  induction ds generalizing interrupts with
  | nil => cases hd
  | cons d' ds ih =>
    by_cases hd' : ∃ e', Escapes handledFutures skipReraise handledExceptionIds d' e'
    · obtain ⟨e', he'⟩ := hd'
      exact ⟨e', panic_cons_raise he'⟩
    · obtain ⟨interrupts', hskip⟩ := @panic_cons_skip _ _ _ _ ds interrupts inflight
        (not_exists.mp hd')
      rw [hskip]
      rcases List.mem_cons.mp hd with rfl | hd
      · exact absurd ⟨e, he⟩ hd'
      · exact ih hd interrupts'

end Panic

namespace RunnerState

variable {handlers : NodeErrorHandlerMap} {s : RunnerState}

structure Tracked (s : RunnerState) : Prop where
  nodup : (s.done.map FinishedFuture.future).Nodup
  reaped (f : Nat) : f ∈ s.handledFutures → f ∈ s.done.map FinishedFuture.future
  handled (d : FinishedFuture) : d ∈ s.done → d.future ∈ s.handledFutures →
    ∃ e, d.exception = some e ∧ e.id ∈ s.handledExceptionIds
  recorded (d : FinishedFuture) (e : RaisedException) : d ∈ s.done → d.exception = some e →
    e.isGraphInterrupt = false → e ∈ s.exceptions

def Known (s : RunnerState) : Prop :=
  s.ticking = true → s.unhandled ≠ [] → s.futures.items ≠ [] ∨ s.done ≠ []

theorem items_set_ne_nil {κ α : Type} [DecidableEq κ] (d : Dict κ α) (k : κ) (v : α) :
    (d.set k v).items ≠ [] := by
  intro h
  have hk : k ∈ (d.set k v).keys := Dict.mem_keys_set.mpr (Or.inl rfl)
  rw [Dict.keys, h] at hk
  cases hk

theorem tracked_start (s : RunnerState) : s.start.Tracked where
  nodup := List.nodup_nil
  reaped _ h := absurd h (Finset.notMem_empty _)
  handled _ h := absurd h List.not_mem_nil
  recorded _ _ h := absurd h List.not_mem_nil

theorem tracked_submit (h : s.Tracked) (future : Nat) (name : String) :
    (s.submit future name).Tracked := { h with }

theorem tracked_call (h : s.Tracked) (future : Nat) (name : String) :
    (s.call future name).Tracked := { h with }

theorem tracked_schedule (h : s.Tracked) (handler : Option (Nat × String)) :
    (s.schedule handler).Tracked := by
  cases handler with
  | none => exact h
  | some next => exact tracked_submit h next.1 next.2

theorem tracked_endTick (h : s.Tracked) (result : RunnerResult) : (s.endTick result).Tracked :=
  { h with }

theorem known_submit (s : RunnerState) (future : Nat) (name : String) :
    (s.submit future name).Known := fun _ _ => Or.inl (items_set_ne_nil _ _ _)

theorem known_call (s : RunnerState) (future : Nat) (name : String) :
    (s.call future name).Known := fun _ _ => Or.inl (items_set_ne_nil _ _ _)

theorem known_schedule (h : s.Known) (handler : Option (Nat × String)) :
    (s.schedule handler).Known := by
  cases handler with
  | none => exact h
  | some next => exact known_submit s next.1 next.2

theorem known_endTick (s : RunnerState) (result : RunnerResult) : (s.endTick result).Known :=
  fun ht => absurd ht Bool.false_ne_true

section Commit

variable (handlers) (s) (name : String) (exception : Option RaisedException)

theorem commit_done : (s.commit handlers name exception).done = s.done := by
  cases exception <;> rfl

theorem commit_futures : (s.commit handlers name exception).futures = s.futures := by
  cases exception <;> rfl

theorem commit_handledFutures :
    (s.commit handlers name exception).handledFutures = s.handledFutures := by
  cases exception <;> rfl

theorem commit_outcomes : (s.commit handlers name exception).outcomes = s.outcomes := by
  cases exception <;> rfl

theorem commit_ids :
    s.handledExceptionIds ⊆ (s.commit handlers name exception).handledExceptionIds := by
  cases exception with
  | none => exact Finset.Subset.refl _
  | some e =>
    rw [commit]
    simp only
    split_ifs
    · exact Finset.subset_insert _ _
    · exact Finset.Subset.refl _

theorem commit_exceptions :
    s.exceptions ⊆ (s.commit handlers name exception).exceptions := by
  cases exception with
  | none => exact fun _ h => h
  | some e =>
    rw [commit]
    simp only
    split_ifs
    · exact fun _ h => h
    · exact List.subset_append_left _ _

theorem commit_recorded {e : RaisedException} (h : e.isGraphInterrupt = false) :
    e ∈ (s.commit handlers name (some e)).exceptions := by
  rw [commit, h]
  simp

end Commit

theorem mem_done_future {d : FinishedFuture} (h : d ∈ s.done) :
    d.future ∈ s.done.map FinishedFuture.future :=
  List.mem_map_of_mem h

theorem exceptionOf_none {future : Nat} (h : s.exceptionOf future = none) :
    future ∉ s.done.map FinishedFuture.future := by
  intro hmem
  obtain ⟨d, hd, hf⟩ := List.mem_map.mp hmem
  rw [exceptionOf, Option.map_eq_none_iff, List.find?_eq_none] at h
  exact h d hd (decide_eq_true hf)

theorem exceptionOf_some (h : s.Tracked) {future : Nat} {exception : Option RaisedException}
    (he : s.exceptionOf future = some exception) {d : FinishedFuture} (hd : d ∈ s.done)
    (hf : d.future = future) : d.exception = exception := by
  obtain ⟨d', hd', rfl⟩ := Option.map_eq_some_iff.mp he
  have hf' : d'.future = future := by simpa using List.find?_some hd'
  have hsame := List.inj_on_of_nodup_map h.nodup hd (List.mem_of_find?_eq_some hd')
    (hf.trans hf'.symm)
  rw [hsame]

theorem exceptionOf_mem {future : Nat} {exception : Option RaisedException}
    (he : s.exceptionOf future = some exception) :
    future ∈ s.done.map FinishedFuture.future := by
  obtain ⟨d, hd, -⟩ := Option.map_eq_some_iff.mp he
  have hf : d.future = future := by simpa using List.find?_some hd
  exact hf ▸ mem_done_future (List.mem_of_find?_eq_some hd)

theorem tracked_finish (h : s.Tracked) {future : Nat} {name : String}
    {exception : Option RaisedException} (hnew : s.exceptionOf future = none) :
    (s.finish handlers future name exception).Tracked := by
  have hout := exceptionOf_none hnew
  have hdone : (s.finish handlers future name exception).done = s.done ++ [⟨future, exception⟩] :=
    rfl
  have hfutures : (s.finish handlers future name exception).handledFutures = s.handledFutures :=
    commit_handledFutures handlers s name exception
  constructor
  · rw [hdone, List.map_append]
    refine List.Nodup.append h.nodup (List.nodup_singleton _) ?_
    intro f hf hf'
    rw [List.mem_singleton.mp hf'] at hf
    exact hout hf
  · intro f hf
    rw [hfutures] at hf
    rw [hdone, List.map_append]
    exact List.mem_append_left _ (h.reaped f hf)
  · intro d hd hf
    rw [hdone] at hd
    rw [hfutures] at hf
    rcases List.mem_append.mp hd with hold | hlast
    · obtain ⟨e, he, hid⟩ := h.handled d hold hf
      exact ⟨e, he, commit_ids handlers s name exception hid⟩
    · rw [List.mem_singleton.mp hlast] at hf
      exact absurd (h.reaped future hf) hout
  · intro d e hd he hi
    rw [hdone] at hd
    rcases List.mem_append.mp hd with hold | hlast
    · exact commit_exceptions handlers s name exception (h.recorded d e hold he hi)
    · rw [List.mem_singleton.mp hlast] at he
      have hexc : exception = some e := he
      subst hexc
      exact commit_recorded handlers s name hi

theorem known_finish (s : RunnerState) (future : Nat) (name : String)
    (exception : Option RaisedException) : (s.finish handlers future name exception).Known :=
  fun _ _ => Or.inr (List.append_ne_nil_of_right_ne_nil _ (List.cons_ne_nil _ _))

theorem tracked_reap (h : s.Tracked) {future : Nat} {name : String}
    {exception : Option RaisedException} (he : s.exceptionOf future = some exception)
    (handler : Option (Nat × String)) :
    (s.reap handlers future name exception handler).Tracked := by
  have hmem := exceptionOf_mem he
  have hpop : Tracked { s with futures := s.futures.filter (fun k _ => k ≠ future) } := { h with }
  cases exception with
  | none => exact hpop
  | some e =>
    simp only [reap]
    split_ifs
    · apply tracked_schedule
      constructor
      · exact h.nodup
      · intro f hf
        rcases Finset.mem_insert.mp hf with rfl | hf
        · exact hmem
        · exact h.reaped f hf
      · intro d hd hf
        rcases Finset.mem_insert.mp hf with hf | hf
        · exact ⟨e, exceptionOf_some h he hd hf, Finset.mem_insert_self _ _⟩
        · obtain ⟨e', he', hid⟩ := h.handled d hd hf
          exact ⟨e', he', Finset.mem_insert_of_mem hid⟩
      · exact h.recorded
    · exact hpop

theorem done_reap (s : RunnerState) (future : Nat) (name : String)
    (exception : Option RaisedException) (handler : Option (Nat × String)) :
    (s.reap handlers future name exception handler).done = s.done := by
  cases exception with
  | none => rfl
  | some e =>
    simp only [reap]
    split_ifs
    · cases handler <;> rfl
    · rfl

theorem known_reap {future : Nat} {exception : Option RaisedException}
    (he : s.exceptionOf future = some exception) (name : String)
    (handler : Option (Nat × String)) :
    (s.reap handlers future name exception handler).Known := by
  intro _ _
  right
  rw [done_reap]
  intro hnil
  have hmem := exceptionOf_mem he
  rw [hnil] at hmem
  cases hmem

theorem tracked_commit (h : s.Tracked) (name : String) (exception : Option RaisedException) :
    (s.commit handlers name exception).Tracked := by
  constructor
  · rw [commit_done]
    exact h.nodup
  · rw [commit_done, commit_handledFutures]
    exact h.reaped
  · intro d hd hf
    rw [commit_done] at hd
    rw [commit_handledFutures] at hf
    obtain ⟨e, he, hid⟩ := h.handled d hd hf
    exact ⟨e, he, commit_ids handlers s name exception hid⟩
  · intro d e hd he hi
    rw [commit_done] at hd
    exact commit_exceptions handlers s name exception (h.recorded d e hd he hi)

theorem tracked_remember (h : s.Tracked) (e : RaisedException) :
    Tracked { s with handledExceptionIds := insert e.id s.handledExceptionIds } where
  nodup := h.nodup
  reaped := h.reaped
  handled d hd hf := by
    obtain ⟨e', he', hid⟩ := h.handled d hd hf
    exact ⟨e', he', Finset.mem_insert_of_mem hid⟩
  recorded := h.recorded

theorem tracked_failure (h : s.Tracked) {failure : Nat} (hfresh : s.fresh failure = true)
    {e : RaisedException} (he : e.isGraphInterrupt = false → e ∈ s.exceptions) :
    Tracked { s with done := s.done ++ [⟨failure, some e⟩] } := by
  simp only [fresh, Bool.and_eq_true, decide_eq_true_eq] at hfresh
  obtain ⟨⟨⟨-, hdone⟩, -⟩, hhandled⟩ := hfresh
  constructor
  · rw [List.map_append]
    refine List.Nodup.append h.nodup (List.nodup_singleton _) ?_
    intro f hf hf'
    rw [List.mem_singleton.mp hf'] at hf
    exact hdone hf
  · intro f hf
    rw [List.map_append]
    exact List.mem_append_left _ (h.reaped f hf)
  · intro d hd hf
    rcases List.mem_append.mp hd with hold | hlast
    · exact h.handled d hold hf
    · rw [List.mem_singleton.mp hlast] at hf
      exact absurd hf hhandled
  · intro d e' hd he' hi
    rcases List.mem_append.mp hd with hold | hlast
    · exact h.recorded d e' hold he' hi
    · rw [List.mem_singleton.mp hlast] at he'
      obtain rfl := Option.some.inj he'
      exact he hi

section Single

theorem single_none (s : RunnerState) (name : String) (failure : Nat)
    (handler : Option (Nat × String)) :
    s.single handlers name none failure handler =
      if s.futures.items = [] then s.endTick .returned else s := rfl

theorem caught_futures (s : RunnerState) (name : String) (e : RaisedException) :
    (s.caught handlers name e).futures = s.futures := by
  rw [caught]
  split_ifs
  · exact commit_futures handlers s name (some e)
  · exact commit_futures handlers s name (some e)

theorem caught_outcomes (s : RunnerState) (name : String) (e : RaisedException) :
    (s.caught handlers name e).outcomes = s.outcomes := by
  rw [caught]
  split_ifs
  · exact commit_outcomes handlers s name (some e)
  · exact commit_outcomes handlers s name (some e)

theorem caught_unhandled (s : RunnerState) (name : String) (e : RaisedException) :
    (s.caught handlers name e).unhandled =
      if e.isGraphInterrupt ∨ handlers.shouldRouteToErrorHandler name then s.unhandled
      else s.unhandled ++ [e] := by
  rw [caught]
  split_ifs <;> simp_all [commit]

theorem caught_recorded (s : RunnerState) (name : String) {e : RaisedException}
    (h : e.isGraphInterrupt = false) : e ∈ (s.caught handlers name e).exceptions := by
  rw [caught]
  split_ifs
  · exact commit_recorded handlers s name h
  · exact commit_recorded handlers s name h

theorem caught_ids_of_unrouted (s : RunnerState) {name : String} (e : RaisedException)
    (h : handlers.shouldRouteToErrorHandler name = false) :
    (s.caught handlers name e).handledExceptionIds = s.handledExceptionIds := by
  have hr : routed handlers name e = false := by rw [routed, h, Bool.false_and]
  rw [caught]
  simp [hr, commit, h]

theorem tracked_caught (h : s.Tracked) (name : String) (e : RaisedException) :
    (s.caught handlers name e).Tracked := by
  have hcommit := @tracked_commit handlers _ h name (some e)
  rw [caught]
  split_ifs
  · exact tracked_remember hcommit e
  · exact hcommit

theorem fresh_caught {failure : Nat} (s : RunnerState) (name : String) (e : RaisedException) :
    (s.caught handlers name e).fresh failure = s.fresh failure := by
  rw [caught]
  split_ifs <;> rfl

theorem tracked_single (h : s.Tracked) (name : String) (exception : Option RaisedException)
    {failure : Nat} (hfresh : s.fresh failure = true) (handler : Option (Nat × String)) :
    (s.single handlers name exception failure handler).Tracked := by
  cases exception with
  | none =>
    rw [single_none]
    by_cases hf : s.futures.items = []
    · rw [if_pos hf]
      exact tracked_endTick h _
    · rw [if_neg hf]
      exact h
  | some e =>
    have hcaught := @tracked_caught handlers _ h name e
    simp only [single]
    split_ifs
    all_goals first
      | exact tracked_endTick (tracked_commit h name (some e)) _
      | exact tracked_endTick hcaught _
      | exact tracked_schedule hcaught _
      | exact tracked_schedule (tracked_failure hcaught
          ((fresh_caught s name e).trans hfresh) (caught_recorded s name)) _

theorem known_single (hk : s.Known) (name : String) (exception : Option RaisedException)
    (failure : Nat) (handler : Option (Nat × String)) :
    (s.single handlers name exception failure handler).Known := by
  cases exception with
  | none =>
    rw [single_none]
    by_cases hf : s.futures.items = []
    · rw [if_pos hf]
      exact known_endTick _ _
    · rw [if_neg hf]
      exact hk
  | some e =>
    have hfutures := @caught_futures handlers s name e
    simp only [single]
    split_ifs
    all_goals first
      | exact known_endTick _ _
      | exact known_schedule (fun _ _ => Or.inl ‹_›) _
      | skip
    · cases handler with
      | none => simp_all
      | some next => exact known_submit _ next.1 next.2

def Sound (s : RunnerState) : Prop :=
  ∀ o ∈ s.outcomes, o.unhandled ≠ [] → ∃ e ∈ o.exceptions, o.result = .raised e

theorem sound_of_outcomes {s' : RunnerState} (h : s.Sound) (ho : s'.outcomes = s.outcomes) :
    s'.Sound := by
  intro o hmem
  rw [ho] at hmem
  exact h o hmem

theorem sound_endTick_iff {s' : RunnerState} (h : s.Sound) (ho : s'.outcomes = s.outcomes)
    (result : RunnerResult) :
    (s'.endTick result).Sound ↔
      (s'.unhandled ≠ [] → ∃ e ∈ s'.exceptions, result = .raised e) := by
  have hmem (o : TickOutcome) : o ∈ (s'.endTick result).outcomes ↔
      o ∈ s.outcomes ∨ o = ⟨s'.exceptions, s'.unhandled, result⟩ := by
    rw [endTick, ho, List.mem_append, List.mem_singleton]
  constructor
  · intro hs hne
    exact hs _ ((hmem _).mpr (Or.inr rfl)) hne
  · intro hnew o ho hne
    rcases (hmem o).mp ho with hold | rfl
    · exact h o hold hne
    · exact hnew hne

theorem unreaped_done (hk : s.Known) (ht : s.ticking = true) (hu : s.unreaped = true)
    (hf : s.futures.items = []) : s.unhandled = [] := by
  by_contra hne
  rcases hk ht hne with hf' | hd
  · exact hf' hf
  · obtain ⟨d, hd⟩ := List.exists_mem_of_ne_nil _ hd
    have hmem := of_decide_eq_true (List.all_eq_true.mp hu d hd)
    rw [Dict.keys, hf] at hmem
    cases hmem

theorem outcomes_schedule (s : RunnerState) (handler : Option (Nat × String)) :
    (s.schedule handler).outcomes = s.outcomes := by
  cases handler <;> rfl

-- The exception is remembered already, so the single task ends the tick without raising.
theorem sound_swallowed_iff (hs : s.Sound) {name : String} {e : RaisedException}
    (hc : e.kind ≠ .cancelledError) (hf : s.futures.items = []) (hunhandled : s.unhandled = [])
    (hid : e.id ∈ (s.caught handlers name e).handledExceptionIds) (failure : Nat)
    (handler : Option (Nat × String)) :
    (s.single handlers name (some e) failure handler).Sound ↔
      (s.futures.items = [] → handlers.shouldRouteToErrorHandler name = false →
        ∀ e', some e = some e' → e'.isGraphInterrupt = false →
          e'.kind = .cancelledError ∨ e'.id ∉ s.handledExceptionIds) := by
  have hfutures := @caught_futures handlers s name e
  have houtcomes := @caught_outcomes handlers s name e
  have hempty : ¬ (s.caught handlers name e).futures.items ≠ [] := by
    rw [hfutures]
    exact not_not.mpr hf
  have hid' : ¬ e.id ∉ (s.caught handlers name e).handledExceptionIds := not_not.mpr hid
  simp only [single, hc, if_false, hempty, hid']
  cases hroute : handlers.shouldRouteToErrorHandler name with
  | true =>
    have hnone : (s.caught handlers name e).unhandled = [] := by
      rw [caught_unhandled, hroute, if_pos (Or.inr rfl), hunhandled]
    refine ⟨fun _ _ hfalse => absurd hfalse (by decide), fun _ => ?_⟩
    split_ifs
    · exact sound_of_outcomes hs ((outcomes_schedule _ handler).trans houtcomes)
    · exact (sound_endTick_iff hs houtcomes _).mpr (fun hne => absurd hnone hne)
  | false =>
    have hunrouted : routed handlers name e = false := by rw [routed, hroute, Bool.false_and]
    have hids := caught_ids_of_unrouted s e hroute
    simp only [hunrouted, Bool.false_and, Bool.false_eq_true, if_false]
    rw [sound_endTick_iff hs houtcomes, caught_unhandled, hroute, hunhandled]
    cases hi : e.isGraphInterrupt with
    | true =>
      refine ⟨fun _ _ _ e' he' hi' => ?_, fun _ hne => ?_⟩
      · rw [← Option.some.inj he', hi] at hi'
        cases hi'
      · exact absurd rfl hne
    | false =>
      constructor
      · intro hraise
        obtain ⟨e', -, hr⟩ := hraise (by simp)
        cases hr
      · intro hcond
        rcases hcond hf trivial e rfl hi with hkind | hnot
        · exact absurd hkind hc
        · exact absurd (hids ▸ hid) hnot

theorem sound_single_iff (hs : s.Sound) (hk : s.Known) (ht : s.ticking = true)
    (hu : s.unreaped = true) (name : String) (exception : Option RaisedException) (failure : Nat)
    (handler : Option (Nat × String)) :
    (s.single handlers name exception failure handler).Sound ↔
      (s.futures.items = [] → handlers.shouldRouteToErrorHandler name = false →
        ∀ e, exception = some e → e.isGraphInterrupt = false →
          e.kind = .cancelledError ∨ e.id ∉ s.handledExceptionIds) := by
  cases exception with
  | none =>
    have hsound : (s.single handlers name none failure handler).Sound := by
      rw [single_none]
      by_cases hf : s.futures.items = []
      · rw [if_pos hf]
        exact (sound_endTick_iff hs rfl _).mpr (fun hne => absurd (unreaped_done hk ht hu hf) hne)
      · rw [if_neg hf]
        exact hs
    exact ⟨fun _ _ _ e he => (by cases he), fun _ => hsound⟩
  | some e =>
    have hfutures := @caught_futures handlers s name e
    have houtcomes := @caught_outcomes handlers s name e
    by_cases hc : e.kind = .cancelledError
    · have hi : e.isGraphInterrupt = false := by rw [RaisedException.isGraphInterrupt, hc]; rfl
      have hsound : (s.single handlers name (some e) failure handler).Sound := by
        simp only [single, hc, if_true]
        exact (sound_endTick_iff hs (commit_outcomes handlers s name (some e)) _).mpr
          (fun _ => ⟨e, commit_recorded handlers s name hi, rfl⟩)
      refine ⟨fun _ _ _ e' he' _ => Or.inl ?_, fun _ => hsound⟩
      rw [← Option.some.inj he']
      exact hc
    · by_cases hf : s.futures.items = []
      · have hunhandled := unreaped_done hk ht hu hf
        have hempty : ¬ (s.caught handlers name e).futures.items ≠ [] := by
          rw [hfutures]
          exact not_not.mpr hf
        by_cases hid : e.id ∈ (s.caught handlers name e).handledExceptionIds
        · exact sound_swallowed_iff hs hc hf hunhandled hid failure handler
        · have hsound : (s.single handlers name (some e) failure handler).Sound := by
            simp only [single, hc, if_false, hempty, hid, not_false_iff, if_true]
            refine (sound_endTick_iff hs houtcomes _).mpr (fun hne => ?_)
            cases hi : e.isGraphInterrupt with
            | true =>
              rw [caught_unhandled, hi, if_pos (Or.inl rfl)] at hne
              exact absurd hunhandled hne
            | false => exact ⟨e, caught_recorded s name hi, rfl⟩
          refine ⟨fun _ _ hroute e' he' _ => Or.inr ?_, fun _ => hsound⟩
          rw [← Option.some.inj he', ← caught_ids_of_unrouted s e hroute]
          exact hid
      · have hfull : (s.caught handlers name e).futures.items ≠ [] := by rwa [hfutures]
        have hsound : (s.single handlers name (some e) failure handler).Sound := by
          simp only [single, hc, if_false, hfull, ne_eq, not_false_iff, if_true]
          apply sound_of_outcomes hs
          rw [outcomes_schedule]
          split_ifs <;> exact houtcomes
        exact ⟨fun _ hf' => absurd hf' hf, fun _ => hsound⟩

theorem sound_panic_iff (hs : s.Sound) (h : s.Tracked) {order : List FinishedFuture}
    (hp : order.Perm s.done) :
    (s.panic order).Sound ↔
      (s.unhandled ≠ [] → ∃ d ∈ s.done, ∃ e, d.exception = some e ∧ e.isGraphInterrupt = false ∧
        d.future ∉ s.skipReraise ∧ e.id ∉ s.handledExceptionIds) := by
  rw [panic, sound_endTick_iff hs rfl]
  constructor
  · intro hraise hne
    obtain ⟨e, -, hr⟩ := hraise hne
    obtain ⟨d, hd, he, hi, -, hskip, hid⟩ := panic_raised hr
    exact ⟨d, hp.mem_iff.mp hd, e, he, hi, hskip, hid⟩
  · intro hcond hne
    obtain ⟨d, hd, e, he, hi, hskip, hid⟩ := hcond hne
    have hunhandled : d.future ∉ s.handledFutures := by
      intro hf
      obtain ⟨e', he', hid'⟩ := h.handled d hd hf
      obtain rfl := Option.some.inj (he.symm.trans he')
      exact hid hid'
    obtain ⟨e', hr⟩ := panic_raises (hp.mem_iff.mpr hd) ⟨he, hi, hunhandled, hskip, hid⟩ []
    obtain ⟨d', hd', he', hi', -⟩ := panic_raised hr
    exact ⟨e', h.recorded d' e' (hp.mem_iff.mp hd') he' hi', hr⟩

end Single

def Reraises (handlers : NodeErrorHandlerMap) (s : RunnerState) : RunnerEvent → Prop
  | .single name exception failure handler =>
      s.ticking = true → s.unreaped ∧ s.fresh failure ∧ s.freshHandler handler ∧
          handler.map Prod.fst ≠ some failure →
        s.futures.items = [] → handlers.shouldRouteToErrorHandler name = false →
          ∀ e, exception = some e → e.isGraphInterrupt = false →
            e.kind = .cancelledError ∨ e.id ∉ s.handledExceptionIds
  | .panic order =>
      s.ticking = true → order.Perm s.done → s.unhandled ≠ [] →
        ∃ d ∈ s.done, ∃ e, d.exception = some e ∧ e.isGraphInterrupt = false ∧
          d.future ∉ s.skipReraise ∧ e.id ∉ s.handledExceptionIds
  | _ => True

structure Coherent (s : RunnerState) : Prop where
  tracked : s.Tracked
  known : s.Known

theorem coherent_step (h : s.Coherent) (event : RunnerEvent) :
    (s.step handlers event).Coherent := by
  obtain ⟨htracked, hknown⟩ := h
  unfold step
  split
  · exact ⟨tracked_start s, fun _ hne => absurd rfl hne⟩
  · rename_i name exception failure handler _
    split_ifs with hg
    · exact ⟨tracked_single htracked name exception hg.2.1 handler,
        known_single hknown name exception failure handler⟩
    · exact ⟨htracked, hknown⟩
  · rename_i future name _
    split_ifs
    · exact ⟨tracked_submit htracked future name, known_submit s future name⟩
    · exact ⟨htracked, hknown⟩
  · rename_i future name _
    split_ifs
    · exact ⟨tracked_call htracked future name, known_call s future name⟩
    · exact ⟨htracked, hknown⟩
  · rename_i future exception _
    split
    · rename_i name hname hnone
      exact ⟨tracked_finish htracked hnone, known_finish s future name exception⟩
    · exact ⟨htracked, hknown⟩
  · rename_i future handler _
    split
    · rename_i name exception hname hsome
      split_ifs
      · exact ⟨tracked_reap htracked hsome handler, known_reap hsome name handler⟩
      · exact ⟨htracked, hknown⟩
    · exact ⟨htracked, hknown⟩
  · rename_i order _
    split_ifs
    · exact ⟨tracked_endTick htracked _, known_endTick s _⟩
    · exact ⟨htracked, hknown⟩
  · exact ⟨htracked, hknown⟩

theorem outcomes_reap (s : RunnerState) (future : Nat) (name : String)
    (exception : Option RaisedException) (handler : Option (Nat × String)) :
    (s.reap handlers future name exception handler).outcomes = s.outcomes := by
  cases exception with
  | none => rfl
  | some e =>
    simp only [reap]
    split_ifs
    · exact outcomes_schedule _ handler
    · rfl

theorem sound_step_iff (h : s.Coherent) (hs : s.Sound) (event : RunnerEvent) :
    (s.step handlers event).Sound ↔ s.Reraises handlers event := by
  have hsame {s' : RunnerState} (ho : s'.outcomes = s.outcomes) : s'.Sound :=
    sound_of_outcomes hs ho
  cases ht : s.ticking with
  | false =>
    have hsound : (s.step handlers event).Sound := by
      cases event <;> simp only [step, ht] <;> exact hs
    have hreraises : s.Reraises handlers event := by
      cases event <;> simp [Reraises, ht]
    exact ⟨fun _ => hreraises, fun _ => hsound⟩
  | true =>
    cases event with
    | start =>
      simp only [step, ht]
      exact ⟨fun _ => trivial, fun _ => hs⟩
    | single name exception failure handler =>
      simp only [step, ht, Reraises, true_imp_iff]
      by_cases hg : s.unreaped ∧ s.fresh failure ∧ s.freshHandler handler ∧
          handler.map Prod.fst ≠ some failure
      · rw [if_pos hg, sound_single_iff hs h.known ht hg.1, imp_iff_right hg]
      · rw [if_neg hg]
        exact ⟨fun _ hg' => absurd hg' hg, fun _ => hs⟩
    | submit future name =>
      simp only [step, ht, Reraises]
      split_ifs <;> exact ⟨fun _ => trivial, fun _ => hsame rfl⟩
    | call future name =>
      simp only [step, ht, Reraises]
      split_ifs <;> exact ⟨fun _ => trivial, fun _ => hsame rfl⟩
    | finish future exception =>
      simp only [step, ht, Reraises]
      split
      · exact ⟨fun _ => trivial, fun _ => hsame (commit_outcomes handlers s _ exception)⟩
      · exact ⟨fun _ => trivial, fun _ => hs⟩
    | reap future handler =>
      simp only [step, ht, Reraises]
      split
      · split_ifs
        · exact ⟨fun _ => trivial, fun _ => hsame (outcomes_reap s future _ _ handler)⟩
        · exact ⟨fun _ => trivial, fun _ => hs⟩
      · exact ⟨fun _ => trivial, fun _ => hs⟩
    | panic order =>
      simp only [step, ht, Reraises, true_imp_iff]
      by_cases hp : order.Perm s.done
      · rw [if_pos hp, sound_panic_iff hs h.tracked hp, imp_iff_right hp]
      · rw [if_neg hp]
        exact ⟨fun _ hp' => absurd hp' hp, fun _ => hs⟩

theorem coherent_idle : idle.Coherent where
  tracked :=
    { nodup := List.nodup_nil
      reaped := fun _ h => absurd h (Finset.notMem_empty _)
      handled := fun _ h => absurd h List.not_mem_nil
      recorded := fun _ _ h => absurd h List.not_mem_nil }
  known _ h := absurd rfl h

-- One exception object, raised by a node with an error handler and by a node without one.
def sharedException : RaisedException := ⟨0, 7, .error⟩

def sharedEvents : List RunnerEvent :=
  [.start, .submit 0 "handled", .submit 1 "plain", .finish 0 (some sharedException),
    .reap 0 (some (2, "handler")), .finish 1 (some sharedException), .reap 1 none, .finish 2 none,
    .reap 2 none,
    .panic [⟨0, some sharedException⟩, ⟨1, some sharedException⟩, ⟨2, none⟩]]

end RunnerState

end LangGraph
