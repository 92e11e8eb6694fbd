import LangGraph.Pregel.AcceptPush
import LangGraph.Pregel.SnapshotScheduling
import LangGraph.Pregel.TaskId
import LangGraph.Transition.Attempts

namespace LangGraph

open Collections Transition

-- What `==` compares in `_call`: a task equals no string.
inductive Comparand where
  | task (id : String)
  | text (s : String)
  deriving DecidableEq

inductive CallOutcome where
  | running
  | finished
  | submitted
  deriving DecidableEq

-- The attempts of one task, with the scratchpad they share; the rest is a record of what they did.
structure Nesting (C Ver : Type) where
  loop : PregelLoop C Ver
  callCounter : Nat
  subgraphCounter : Nat
  futures : List PregelTask
  checkpoints : Dict String String
  calls : Nat
  subgraphs : Nat
  children : List (Nat × List PathPart)
  executed : List Nat
  namespaces : List (Nat × String)
  latest : Nat → Option String
  resumed : List (Option String × Option String)

inductive NestingEvent where
  | call (call : Call)
  | invoke
  | put (subgraph : Nat) (checkpointId : String)
  | commit (taskId : String) (attempt : Attempt)
  | nested (parent : List PathPart) (writeIdx : Nat) (call : Call)
  | matchCachedWrites
  | retry

def runningFuture (futures : List PregelTask) (taskId : String) : Option PregelTask :=
  futures.find? (fun t => Comparand.task t.id = Comparand.text taskId)

def callOutcome (futures : List PregelTask) (next : PregelTask) : CallOutcome :=
  match runningFuture futures next.id with
  | some _ => .running
  | none => if next.writes = [] then .submitted else .finished

-- `PregelLoop.__init__` appends the count of subgraphs before it.
def subgraphNamespace (ns : String) (count : Nat) : String :=
  if count = 0 then ns else ns ++ "|" ++ toString count

namespace Nesting

section Step

variable {C Ver : Type} [BaseChannel C]

def schedule (g : Graph C) (path : List PathPart) (call : Call) (s : Nesting C Ver) :
    PregelLoop C Ver :=
  (s.loop.acceptPush g path s.callCounter call).matchCachedWrites

def nextTask (g : Graph C) (path : List PathPart) (call : Call) (s : Nesting C Ver) :
    PregelTask :=
  let task := g.callTask s.loop.checkpoint.id s.loop.step path s.callCounter call
  ((s.schedule g path call).task? task.id).getD task

def call (g : Graph C) (path : List PathPart) (call : Call) (s : Nesting C Ver) :
    Nesting C Ver :=
  let next := s.nextTask g path call
  let submitted := callOutcome s.futures next = .submitted
  { s with
    loop := s.schedule g path call
    callCounter := s.callCounter + 1
    futures := if submitted then s.futures ++ [next] else s.futures
    calls := s.calls + 1
    children := s.children ++ [(s.calls, callPath path s.callCounter)]
    executed := if submitted then s.executed ++ [s.calls] else s.executed }

def invoke (ns : String) (s : Nesting C Ver) : Nesting C Ver :=
  let checkpointNs := subgraphNamespace ns s.subgraphCounter
  { s with
    subgraphCounter := s.subgraphCounter + 1
    subgraphs := s.subgraphs + 1
    namespaces := s.namespaces ++ [(s.subgraphs, checkpointNs)]
    resumed := s.resumed ++ [(s.checkpoints.get? checkpointNs, s.latest s.subgraphs)] }

-- The subgraph that the attempt at hand invoked at this place saves a checkpoint.
def put (subgraph : Nat) (checkpointId : String) (s : Nesting C Ver) : Nesting C Ver :=
  match s.namespaces.reverse.find? (fun p => p.1 = subgraph) with
  | none => s
  | some p =>
      { s with
        checkpoints := s.checkpoints.set p.2 checkpointId
        latest := Function.update s.latest subgraph (some checkpointId) }

def step (g : Graph C) (path : List PathPart) (ns : String) (s : Nesting C Ver) :
    NestingEvent → Nesting C Ver
  | .call call => s.call g path call
  | .invoke => s.invoke ns
  | .put subgraph checkpointId => s.put subgraph checkpointId
  | .commit taskId attempt =>
      { s with
        loop := s.loop.commit g taskId attempt
        futures := s.futures.filter (fun t => t.id ≠ taskId) }
  | .nested parent writeIdx call =>
      { s with loop := (s.loop.acceptPush g parent writeIdx call).matchCachedWrites }
  | .matchCachedWrites => { s with loop := s.loop.matchCachedWrites }
  | .retry => { s with calls := 0, subgraphs := 0 }

-- The first attempt, with the checkpoints that earlier runs left.
def start (l : PregelLoop C Ver) (ns : String) (checkpoints : Dict String String) :
    Nesting C Ver where
  loop := l
  callCounter := 0
  subgraphCounter := 0
  futures := []
  checkpoints := checkpoints
  calls := 0
  subgraphs := 0
  children := []
  executed := []
  namespaces := []
  latest := fun n => checkpoints.get? (subgraphNamespace ns n)
  resumed := []

structure FoundAgain (s : Nesting C Ver) : Prop where
  children : Consistent s.children
  namespaces : Consistent s.namespaces
  once : s.executed.Nodup
  resumed : ∀ p ∈ s.resumed, p.1 = p.2

end Step

end Nesting

namespace NestingEvent

def callMark : NestingEvent → Mark
  | .call _ => .count
  | .retry => .retry
  | _ => .skip

def subgraphMark : NestingEvent → Mark
  | .invoke => .count
  | .retry => .retry
  | _ => .skip

end NestingEvent

theorem subgraphNamespace_injective (ns : String) :
    Function.Injective (subgraphNamespace ns) := by
  have hsuffix (m : Nat) : ns ≠ ns ++ "|" ++ toString m := by
    intro h
    have hlength := congrArg (fun s => s.toList.length) h
    simp [String.toList_append] at hlength
  intro m n h
  unfold subgraphNamespace at h
  split at h
  · rename_i hm
    split at h
    · rename_i hn
      rw [hm, hn]
    · exact absurd h (hsuffix n)
  · split at h
    · exact absurd h.symm (hsuffix m)
    · have hlist := congrArg String.toList h
      simp only [String.toList_append] at hlist
      exact toString_inj (List.append_cancel_left hlist)

namespace Nesting

variable {C Ver : Type} [BaseChannel C] {g : Graph C} {path : List PathPart} {ns : String}
  {s : Nesting C Ver} {l : PregelLoop C Ver} {checkpoints : Dict String String}

omit [BaseChannel C] in
theorem frame_put (n : Nat) (id : String) (s : Nesting C Ver) :
    (s.put n id).subgraphCounter = s.subgraphCounter ∧ (s.put n id).subgraphs = s.subgraphs ∧
      (s.put n id).callCounter = s.callCounter ∧ (s.put n id).calls = s.calls ∧
      (s.put n id).children = s.children ∧ (s.put n id).executed = s.executed ∧
      (s.put n id).namespaces = s.namespaces ∧ (s.put n id).resumed = s.resumed := by
  unfold put
  split
  · exact ⟨rfl, rfl, rfl, rfl, rfl, rfl, rfl, rfl⟩
  · exact ⟨rfl, rfl, rfl, rfl, rfl, rfl, rfl, rfl⟩

theorem tallies_calls : Tallies (step g path ns) NestingEvent.callMark
    (Nesting.calls : Nesting C Ver → Nat) Nesting.callCounter (callPath path)
    Nesting.children where
  retry s e he := by
    cases e with
    | retry => exact ⟨rfl, rfl, rfl⟩
    | _ => cases he
  count s e he := by
    cases e with
    | call call => exact ⟨rfl, rfl, rfl⟩
    | _ => cases he
  skip s e he := by
    cases e with
    | call call => cases he
    | retry => cases he
    | put n id =>
      obtain ⟨-, -, hcounter, hcalls, hchildren, -⟩ := frame_put n id s
      exact ⟨hcalls, hcounter, hchildren⟩
    | _ => exact ⟨rfl, rfl, rfl⟩

theorem tallies_subgraphs : Tallies (step g path ns) NestingEvent.subgraphMark
    (Nesting.subgraphs : Nesting C Ver → Nat) Nesting.subgraphCounter (subgraphNamespace ns)
    Nesting.namespaces where
  retry s e he := by
    cases e with
    | retry => exact ⟨rfl, rfl, rfl⟩
    | _ => cases he
  count s e he := by
    cases e with
    | invoke => exact ⟨rfl, rfl, rfl⟩
    | _ => cases he
  skip s e he := by
    cases e with
    | invoke => cases he
    | retry => cases he
    | put n id =>
      obtain ⟨hcounter, hsubgraphs, -, -, -, -, hnamespaces, -⟩ := frame_put n id s
      exact ⟨hsubgraphs, hcounter, hnamespaces⟩
    | _ => exact ⟨rfl, rfl, rfl⟩

-- A child is submitted only by a call that is recorded.
theorem executed_step (h : s.executed.Sublist (s.children.map Prod.fst)) (e : NestingEvent) :
    (s.step g path ns e).executed.Sublist ((s.step g path ns e).children.map Prod.fst) := by
  cases e with
  | call c =>
    simp only [step, call, List.map_append, List.map_singleton]
    split
    · exact h.append (List.Sublist.refl _)
    · exact h.trans (List.sublist_append_left _ _)
  | put n id =>
    obtain ⟨-, -, -, -, hchildren, hexecuted, -⟩ := frame_put n id s
    simp only [step, hchildren, hexecuted]
    exact h
  | _ => exact h

-- Each subgraph keeps to the namespace of its place, and what it saved there is what is latest.
structure Placed (ns : String) (s : Nesting C Ver) : Prop where
  namespaces : ∀ p ∈ s.namespaces, p.2 = subgraphNamespace ns p.1
  latest : ∀ n, s.checkpoints.get? (subgraphNamespace ns n) = s.latest n
  resumed : ∀ p ∈ s.resumed, p.1 = p.2

theorem Placed.step (h : s.Placed ns) {e : NestingEvent}
    (hok : e.subgraphMark = .count → s.subgraphs = s.subgraphCounter) :
    (s.step g path ns e).Placed ns := by
  cases e with
  | invoke =>
    have hplace := hok rfl
    refine ⟨?_, h.latest, ?_⟩
    · intro p hp
      rcases List.mem_append.mp hp with hp | hp
      · exact h.namespaces p hp
      · rw [List.mem_singleton.mp hp, hplace]
    · intro p hp
      rcases List.mem_append.mp hp with hp | hp
      · exact h.resumed p hp
      · rw [List.mem_singleton.mp hp, hplace]
        exact h.latest _
  | put n id =>
    simp only [Nesting.step, put]
    split
    · exact h
    · rename_i p hp
      have hmem : p ∈ s.namespaces := List.mem_reverse.mp (List.mem_of_find?_eq_some hp)
      have hn : p.1 = n := by simpa using List.find?_some hp
      refine ⟨h.namespaces, ?_, h.resumed⟩
      intro m
      rw [h.namespaces p hmem, hn]
      change (s.checkpoints.set (subgraphNamespace ns n) id).get? (subgraphNamespace ns m) =
        Function.update s.latest n (some id) m
      rcases eq_or_ne m n with rfl | hne
      · rw [Dict.get?_set_self, Function.update_self]
      · rw [Function.update_of_ne hne, Dict.get?_set_ne]
        · exact h.latest m
        · exact fun heq => hne (subgraphNamespace_injective ns heq)
  | _ => exact ⟨h.namespaces, h.latest, h.resumed⟩

theorem foundAgain_iff (events : List NestingEvent) :
    (run (step g path ns) (start l ns checkpoints) events).FoundAgain ↔
      OneAttempt false (events.map NestingEvent.callMark) ∧
        OneAttempt false (events.map NestingEvent.subgraphMark) := by
  have hchildren : (run (step g path ns) (start l ns checkpoints) events).children = _ :=
    (@tallies_calls _ Ver _ g path ns).log_run _ events
  have hnamespaces : (run (step g path ns) (start l ns checkpoints) events).namespaces = _ :=
    (@tallies_subgraphs _ Ver _ g path ns).log_run _ events
  have hcalls : Consistent (run (step g path ns) (start l ns checkpoints) events).children ↔
      OneAttempt false (events.map NestingEvent.callMark) := by
    rw [hchildren]
    exact (consistent_map (fun m n h => (callPath_inj h).2)).trans consistent_iff_oneAttempt
  have hsubgraphs : Consistent (run (step g path ns) (start l ns checkpoints) events).namespaces ↔
      OneAttempt false (events.map NestingEvent.subgraphMark) := by
    rw [hnamespaces]
    exact (consistent_map (subgraphNamespace_injective ns)).trans consistent_iff_oneAttempt
  constructor
  · exact fun h => ⟨hcalls.mp h.children, hsubgraphs.mp h.namespaces⟩
  · rintro ⟨hone, hplaced⟩
    refine ⟨hcalls.mpr hone, hsubgraphs.mpr hplaced, ?_, ?_⟩
    · have hsublist : (run (step g path ns) (start l ns checkpoints) events).executed.Sublist
          ((run (step g path ns) (start l ns checkpoints) events).children.map Prod.fst) :=
        @run_invariant _ _ (step g path ns) (fun s => s.executed.Sublist (s.children.map Prod.fst))
          (fun _ e h => executed_step h e) events (start l ns checkpoints) (List.Sublist.refl _)
      refine hsublist.nodup ?_
      rw [hchildren, List.map_append, List.map_map]
      exact nodup_ordinals hone
    · have hstart : (start l ns checkpoints).Placed ns :=
        ⟨fun p hp => (by cases hp), fun n => rfl, fun p hp => (by cases hp)⟩
      have heach := (@tallies_subgraphs _ Ver _ g path ns).eachStep
        (s := start l ns checkpoints) rfl events hplaced
      exact (always_of_eachStep (fun _ _ h hok => h.step hok) events hstart heach events
        List.prefix_rfl).resumed

def lookUp : Call := ⟨"look_up", .int 7, none, none⟩

-- The child returned before the attempt failed, and its parent calls it again.
def retriedCall : List NestingEvent :=
  [.call lookUp,
    .commit "1look_up0look_up__pregel_push~__pregel_pull, w0" ⟨[(Key.returned, .int 1)], none⟩,
    .retry, .call lookUp]

def workerEvents : List (Event Nat) :=
  [.enter (LoopConfig.plain .sync) none "0" none,
    .first (.value (.int 7)) false successor successor "1", .tick]

theorem retried_call_repeats :
    ∃ l, (run (Thread.step logGraph (.single "i")) Thread.fresh workerEvents).loop = some l ∧
      ¬ (run (step logGraph [.str Key.pull, .str "w"] "w:1w0w__pregel_pulli")
        (start l "w:1w0w__pregel_pulli" ∅) retriedCall).FoundAgain := by
  generalize hs : run (Thread.step logGraph (.single "i")) Thread.fresh workerEvents = th
  have hfacts : th.loop.any (fun l => decide ((run (step logGraph [.str Key.pull, .str "w"]
      "w:1w0w__pregel_pulli") (start l "w:1w0w__pregel_pulli" ∅) retriedCall).executed =
        [0, 0])) = true := by
    subst hs
    decide +kernel
  obtain ⟨l, hl, hexecuted⟩ := (Option.any_eq_true _ _).mp hfacts
  refine ⟨l, hl, fun h => ?_⟩
  have hnodup := h.once
  rw [of_decide_eq_true hexecuted] at hnodup
  exact absurd hnodup (by decide)

end Nesting

end LangGraph
